import EmbeddedApps.Objects.Store

/-!
# Specimens

Four kinds of objects of different size and alignment, each made from two words and showing one
word, with which an object store can be watched.
-/

namespace EmbeddedApps

inductive Specimen
  | pair
  | byte
  | line
  | page

namespace Specimen

/-- A pair holds two words; a line and a page are filled up with zeros. Each is aligned to its
size, except for the pair, which is aligned to a word. -/
def footprint : Specimen → Footprint
  | pair => ⟨16, 8⟩
  | byte => ⟨1, 1⟩
  | line => ⟨64, 64⟩
  | page => ⟨4096, 4096⟩

def content (k : Specimen) (x y : UInt64) : Bytes :=
  match k with
  | pair => LittleEndian.encode x ++ LittleEndian.encode y
  | byte => [x.toUInt8]
  | line => LittleEndian.encode (x ^^^ y) ++ List.replicate 56 0
  | page => LittleEndian.encode x ++ List.replicate 4088 0

/-- The word that a specimen in memory shows. -/
def shown (k : Specimen) (m : Memory) (a : Address) : UInt64 :=
  match k with
  | byte => (m.read a).toUInt64
  | _ => m.readWord a

/-- A specimen fills its footprint. -/
theorem length_content (k : Specimen) (x y : UInt64) :
    (k.content x y).length = k.footprint.size.toNat := by
  cases k <;>
    simp only [content, footprint, List.length_append, List.length_replicate,
      LittleEndian.length_encode] <;> rfl

end Specimen

end EmbeddedApps
