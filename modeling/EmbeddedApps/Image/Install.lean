import EmbeddedApps.Image.Format
import EmbeddedApps.Text.Numeral

/-!
# Installing an image in memory

An image is copied to the start of a region as it is. Behind it, at the next word, goes a table
with the addresses that its offsets stand for. The image is untrusted: nothing is written unless
the header is sound and everything fits, and every offset has to lie between the image's own table
and its end.
-/

namespace EmbeddedApps.Image

inductive Fault
  | unreadable (path : Bytes)
  | tooSmall (size : UInt64)
  | corruptHeader (count : UInt64)
  | noRoom (needed available : UInt64)
  | outside (index offset : UInt64)

def Fault.message : Fault → Bytes
  | unreadable path => text "[Loader] Failed to open image: " ++ path.beforeNul
  | tooSmall size => text "[Loader] Image too small: " ++ decimal size.toNat ++ text " bytes"
  | corruptHeader count => text "[Loader] Corrupted app table header (count = " ++
      decimal count.toNat ++ text ")"
  | noRoom needed available => text "[Loader] Image needs " ++ decimal needed.toNat ++
      text " bytes, region has " ++ decimal available.toNat
  | outside i offset => text "[Loader] Boundary " ++ decimal i.toNat ++ text " (offset " ++
      decimal offset.toNat ++ text ") lies outside the blob area"

/-- An image in memory: the address of its table, the bytes that image and table take together,
and the number of programs and bytes in the image. -/
structure Installed where
  table : Address
  used : UInt64
  count : UInt64
  size : UInt64

def Installed.message (i : Installed) : Bytes :=
  text "[Loader] App image loaded: " ++ decimal i.count.toNat ++ text " apps, " ++
    decimal i.size.toNat ++ text " bytes."

/-- The distance from the start of an image to the table built behind it. -/
def tableOffset (size : UInt64) : UInt64 := alignUp size Limits.entrySize

/-- The bytes that an image and the table built behind it take together. -/
def footprint (size count : UInt64) : UInt64 := tableOffset size + tableBytes count

def claimedCount (image : Bytes) : UInt64 := LittleEndian.decode (image.take 8)

/-- The base at which an image can be installed. -/
def accept (image : Bytes) (r : Region) : Except Fault Address :=
  let size := sizeOf image
  let count := claimedCount image
  if size < tableBytes 0 then .error (.tooSmall size)
  else if count > Limits.tableCount || tableBytes count > size then .error (.corruptHeader count)
  else match r.base with
    | none => .error (.noRoom (footprint size count) r.size)
    | some base =>
      if footprint size count > r.size then .error (.noRoom (footprint size count) r.size)
      else .ok base

/-- Turns `n` offsets of the image at `base` into addresses, from entry `i` on. Stops at the first
offset below `low` or above `high`. -/
def relocate (base table low high : UInt64) : Nat → UInt64 → Memory → Except Fault Unit × Memory
  | 0, _, m => (.ok (), m)
  | n + 1, i, m =>
    let offset := m.readWord (base + Limits.entrySize + i * Limits.entrySize)
    if offset < low || offset > high then (.error (.outside i offset), m)
    else relocate base table low high n (i + 1)
      (m.writeWord (table + (i + 1) * Limits.entrySize) (base + offset))

/-- Installs an image. What was written before an offset was found to be outside stays. -/
def install (image : Bytes) (r : Region) (m : Memory) : Except Fault Installed × Memory :=
  match accept image r with
  | .error f => (.error f, m)
  | .ok base =>
    let size := sizeOf image
    let count := claimedCount image
    let table := base + tableOffset size
    let m := (m.writeBytes base image).writeWord table count
    match relocate base table (tableBytes count) size (count.toNat + 1) 0 m with
    | (.error f, m) => (.error f, m)
    | (.ok _, m) => (.ok ⟨table, footprint size count, count, size⟩, m)

end EmbeddedApps.Image
