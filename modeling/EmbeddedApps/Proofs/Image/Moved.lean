import EmbeddedApps.Proofs.Image.Encoded
import Mathlib

/-!
# Moved images

An image can be used where it lies if the offsets in its table are made addresses. A directory on
such an image finds the same apps as one on the table that an installation leaves behind it.
-/

namespace EmbeddedApps

def Extent.seenFrom (e : Extent) (a : Address) : Extent := ⟨e.start - a, e.stop - a⟩

namespace Image

/-- An image with an address added to each offset in its table. -/
def movedTo (image : Bytes) (a : Address) : Bytes :=
  (installedWords image a).flatMap LittleEndian.encode ++
    image.drop (8 * ((claimedCount image).toNat + 2))

variable {image : Bytes} {a base : Address} {r : Region} {m m' : Memory}

private theorem length_words (image : Bytes) (a : Address) :
    ((installedWords image a).flatMap LittleEndian.encode).length =
      8 * ((claimedCount image).toNat + 2) := by
  rw [Memory.length_flatMap_encode, length_installedWords]

private theorem drop_movedTo {n : Nat} (h : 8 * ((claimedCount image).toNat + 2) ≤ n) :
    (movedTo image a).drop n = image.drop n := by
  have hwords := length_words image a
  rw [movedTo, List.drop_append, List.drop_eq_nil_of_le (by omega), List.nil_append, List.drop_drop,
    hwords, Nat.add_sub_cancel' h]

/-- In a moved image the table holds the places where the segments have come to meet. -/
theorem movedTo_encode {alignment : UInt64} {ps : List Bytes}
    (ha : isImageAlignment alignment = true) (hlen : (encode alignment ps).length < 2 ^ 64)
    (a : Address) :
    let first := leadingBytes alignment.toNat ps.length
    let ss := segments alignment.toNat ps
    movedTo (encode alignment ps) a =
      ((ps.length :: boundaries (a.toNat + first) ss).map Nat.toUInt64).flatMap
        LittleEndian.encode ++
          (List.replicate (first - 8 * (ps.length + 2)) 0 ++ ss.flatten) := by
  have hcount := claimedCount_encode ha hlen
  have hfew : ps.length.toUInt64.toNat = ps.length := by
    have hlength := length_encode ha hlen
    have hle : 8 * (ps.length + 2) ≤ leadingBytes alignment.toNat ps.length :=
      le_roundUp _ (pos_of_isPowerOfTwo (Bool.and_eq_true_iff.mp ha).1)
    exact toNat_toUInt64_of_lt (by omega)
  have hwords : installedWords (encode alignment ps) a =
      (ps.length :: boundaries (a.toNat + leadingBytes alignment.toNat ps.length)
        (segments alignment.toNat ps)).map Nat.toUInt64 := by
    rw [installedWords, hcount, hfew, List.map_cons, List.cons_inj_right]
    apply List.ext_getElem
    · simp
    · intro i hi _
      have hoffset : i < (offsets alignment.toNat ps).length := by simpa using hi
      rw [List.getElem_map, List.getElem_map, List.getElem_range, offsetAt_encode ha hlen hoffset]
      simp only [offsets, getElem_boundaries, Nat.add_assoc]
      simp
  dsimp only
  rw [movedTo, hwords, hcount, hfew, encode_eq_segments ha ps hlen, List.drop_left']
  rw [Memory.length_flatMap_encode]
  simp

private theorem holdsTable_of_moved (htable : 8 * ((claimedCount image).toNat + 2) ≤ image.length)
    (hm : m.readBytes a image.length = movedTo image a) : HoldsTable image a a m := by
  have hread := Memory.take_drop_readBytes m a (i := 0) (by simpa using htable)
  rw [hm, List.drop_zero, movedTo, List.take_left' (length_words image a)] at hread
  rw [HoldsTable]
  simpa using hread.symm

private theorem readBytes_of_moved (hm : m.readBytes a image.length = movedTo image a) {lo : UInt64}
    {n : Nat} (hlow : 8 * ((claimedCount image).toNat + 2) ≤ lo.toNat)
    (hin : lo.toNat + n ≤ image.length) :
    m.readBytes (a + lo) n = (image.drop lo.toNat).take n := by
  have hread := Memory.take_drop_readBytes m a hin
  rw [hm, drop_movedTo hlow] at hread
  simpa using hread.symm

theorem buildFromTable_of_moved (h : Accepted image r base) (hasc : OffsetsAscending image)
    (hroom : a.toNat + image.length < 2 ^ 64) (hm : m.readBytes a image.length = movedTo image a) :
    Directory.empty.buildFromTable m (some a) = .ok ⟨some (tableBoundaries image a)⟩ := by
  refine (holdsTable_of_moved h.table hm).buildFromTable h.count (fun i hi => ?_) hasc
  have hhigh := (h.inside i hi).2
  rw [toNat_add_of_lt (by omega)]

/-- Two directories, each with a memory, find the same apps as seen from an address of its own. -/
def SameApps (d d' : Directory) (m m' : Memory) (a a' : Address) : Prop :=
  d.count = d'.count ∧ ∀ j,
    (d.rangeOf? m j).map (·.seenFrom a) = (d'.rangeOf? m' j).map (·.seenFrom a') ∧
      (d.rangeOf? m j).map (·.bytes m) = (d'.rangeOf? m' j).map (·.bytes m')

private theorem seenFrom_add (a lo hi : UInt64) :
    (Extent.mk (a + lo) (a + hi)).seenFrom a = ⟨lo, hi⟩ := by
  rw [Extent.seenFrom, UInt64.add_comm a lo, UInt64.add_comm a hi, UInt64.add_sub_cancel,
    UInt64.add_sub_cancel]

private theorem size_add (a lo hi : UInt64) : (Extent.mk (a + lo) (a + hi)).size = hi - lo := by
  rw [Extent.size]
  grind

theorem sameApps_of_moved (h : Accepted image r base) (hasc : OffsetsAscending image)
    (hm' : Resident image base m') (hm : m.readBytes a image.length = movedTo image a) :
    SameApps ⟨some (tableBoundaries image a)⟩ ⟨some (appBoundaries image base)⟩ m m' a base := by
  refine ⟨rfl, fun j => ?_⟩
  -- Both directories know the same indices. Their extents differ by the addresses they start from,
  -- so size and bytes are the same.
  cases hfound : (Directory.mk (some (appBoundaries image base))).rangeOf? m' j with
  | none =>
    have hout := Directory.rangeOf?_eq_none_iff.mp hfound
    have hnone : (Directory.mk (some (tableBoundaries image a))).rangeOf? m j = none :=
      Directory.rangeOf?_eq_none_iff.mpr hout
    rw [hnone]
    exact ⟨rfl, rfl⟩
  | some e =>
    obtain ⟨k, hk, hword, rfl⟩ := Directory.exists_of_rangeOf? hfound
    have hlt : k < (claimedCount image).toNat := hk
    obtain ⟨hlow, hhigh⟩ := h.inside k hlt.le
    obtain ⟨-, hhigh'⟩ := h.inside (k + 1) hlt
    have hup := hasc k hlt
    have hsize : (offsetAt image (k + 1) - offsetAt image k).toNat =
        (offsetAt image (k + 1)).toNat - (offsetAt image k).toNat :=
      UInt64.toNat_sub_of_le _ _ hup
    rw [UInt64.le_iff_toNat_le] at hup
    rw [hm'.rangeOf? h hlt] at hfound
    obtain rfl := Option.some.inj hfound
    rw [(holdsTable_of_moved h.table hm).rangeOf? hlt hword, Option.map_some, Option.map_some,
      Option.map_some, Option.map_some, seenFrom_add, seenFrom_add, Extent.bytes, Extent.bytes,
      size_add, size_add, hsize, readBytes_of_moved hm hlow (by omega), hm'.readBytes (by omega)]
    exact ⟨rfl, rfl⟩

end Image

end EmbeddedApps
