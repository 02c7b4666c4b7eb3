import EmbeddedApps.Image.Placement
import EmbeddedApps.Limits

/-!
# The flat image

An image is a table followed by the programs. The table is made of words: the number of programs,
the offset at which each starts, and the offset at which the last one ends. Gaps are zeros.
-/

namespace EmbeddedApps.Image

def tableBytes (count : UInt64) : UInt64 :=
  Limits.entrySize + (count + 1) * Limits.entrySize

def sizeOf (program : Bytes) : UInt64 := program.length.toUInt64

def firstOffset (alignment : UInt64) (count : UInt64) : UInt64 :=
  alignUp (tableBytes count) alignment

/-- Where the programs lie in the image, as offsets from its start. -/
def layout (alignment : UInt64) (programs : List Bytes) : List Extent :=
  Placement.place alignment (firstOffset alignment programs.length.toUInt64) (programs.map sizeOf)

/-- Programs at their extents, with zeros from the cursor to the first of them and in between. -/
def blobs (cursor : UInt64) : List (Extent × Bytes) → Bytes
  | [] => []
  | (e, program) :: rest =>
    List.replicate (e.start - cursor).toNat 0 ++ (program ++ blobs e.stop rest)

def tableWords (alignment : UInt64) (programs : List Bytes) : List UInt64 :=
  let count := programs.length.toUInt64
  let es := layout alignment programs
  count :: es.map Extent.start ++ [Placement.finish (firstOffset alignment count) es]

def encode (alignment : UInt64) (programs : List Bytes) : Bytes :=
  let count := programs.length.toUInt64
  let first := firstOffset alignment count
  (tableWords alignment programs).flatMap LittleEndian.encode ++
    (List.replicate (first - tableBytes count).toNat 0 ++
      blobs first ((layout alignment programs).zip programs))

end EmbeddedApps.Image
