import EmbeddedApps.Bundle.Basic
import EmbeddedApps.Proofs.Image.Encoded
import Mathlib

/-!
# From images to directories

Which installed images a directory can be built on, and how the programs of a bundle come back out
of its image.
-/

namespace EmbeddedApps.Image

/-- The installation does not look at the order of the offsets, but the directory does: on an
installed image it is built exactly if no offset is greater than the next one, and the only other
outcome is a complaint about such an offset. -/
theorem buildFromTable_install_iff {image : Bytes} {r : Region} {m m' : Memory} {i : Installed}
    (hfile : image.length < fileLimit)
    (hroom : ∀ base ∈ r.base, base.toNat + r.size.toNat < 2 ^ 64)
    (h : install image r m = (.ok i, m')) :
    ((∃ d, Directory.empty.buildFromTable m' (some i.table) = .ok d) ↔ OffsetsAscending image) ∧
      ((∃ k left right, Directory.empty.buildFromTable m' (some i.table) =
        .error (.decreasing k left right)) ↔ ¬OffsetsAscending image) := by
  obtain ⟨base, hacc⟩ := accepted_of_install hfile hroom h
  obtain ⟨htable, -, hm⟩ := resident_of_install hacc h
  rw [htable]
  by_cases hasc : OffsetsAscending image
  · rw [hm.buildFromTable hacc hasc]
    simp [hasc]
  · obtain ⟨k, left, right, hbuild⟩ := hm.buildFromTable_of_not_ascending hacc hasc
    rw [hbuild]
    simp [hasc]

theorem buildFromTable_install_ascending :
    ∃ i m' d, install ([2, 32, 33, 34].flatMap LittleEndian.encode ++ [65, 66])
        ⟨some 0x200000000000, 4096⟩ .zeroed = (.ok i, m') ∧
      Directory.empty.buildFromTable m' (some i.table) = .ok d := by
  have hacc : Accepted ([2, 32, 33, 34].flatMap LittleEndian.encode ++ [65, 66])
      ⟨some 0x200000000000, 4096⟩ 0x200000000000 := by decide
  obtain ⟨i, m', h⟩ := hacc.exists_install .zeroed
  obtain ⟨d, hd⟩ := (buildFromTable_install_iff hacc.short (by rintro base ⟨⟩; decide) h).1.mpr
    (by decide)
  exact ⟨i, m', d, h, hd⟩

/-- The image that claims two programs at offsets 34 and 33 is installed, but no directory can be
built on its table. -/
theorem not_buildable_of_install :
    ¬∀ (image : Bytes) (r : Region) (m m' : Memory) (i : Installed), image.length < fileLimit →
      (∀ base ∈ r.base, base.toNat + r.size.toNat < 2 ^ 64) → install image r m = (.ok i, m') →
        ∃ d, Directory.empty.buildFromTable m' (some i.table) = .ok d := by
  intro hall
  have hacc : Accepted ([2, 34, 33, 34].flatMap LittleEndian.encode ++ [65, 66])
      ⟨some 0x200000000000, 80⟩ 0x200000000000 := by decide
  obtain ⟨i, m', h⟩ := hacc.exists_install .zeroed
  obtain ⟨htable, -, hm⟩ := resident_of_install hacc h
  obtain ⟨k, left, right, hbuild⟩ := hm.buildFromTable_of_not_ascending hacc (by decide)
  obtain ⟨d, hd⟩ := hall _ _ _ _ i hacc.short (by rintro base ⟨⟩; decide) h
  rw [htable, hbuild] at hd
  cases hd

private theorem isPadded_segment {alignment : Nat} (ha : 0 < alignment) {ps : List Bytes} {i : Nat}
    (hi : i < ps.length) (hs : i < (segments alignment ps).length) :
    let padding := (segments alignment ps)[i].length - ps[i].length
    (segments alignment ps)[i] = ps[i] ++ List.replicate padding 0 ∧
      (segments alignment ps)[i].length =
        if i + 1 < ps.length then roundUp ps[i].length alignment else ps[i].length := by
  rw [getElem_segments alignment ps hi]
  split
  · rw [length_padded ha]
    exact ⟨rfl, rfl⟩
  · simp

private theorem segments_one (ps : List Bytes) : segments 1 ps = ps := by
  apply List.ext_getElem
  · rw [length_segments]
  · intro i hs hi
    rw [getElem_segments 1 ps hi, padded, roundUp_one, Nat.sub_self, List.replicate_zero,
      List.append_nil, ite_self]

/-- The image of a bundle is installed if and only if there are not too many programs and image
and table fit into the region. A directory on its table then finds each program at a multiple of
the alignment, followed by zeros up to the next one, and without an alignment the programs come
back as they were. -/
theorem install_image_recovers (b : Bundle) (base : Address) (size : UInt64) (m : Memory)
    (hfile : b.image.length < fileLimit) (hroom : base.toNat + size.toNat < 2 ^ 64) :
    ((∃ i m', install b.image ⟨some base, size⟩ m = (.ok i, m')) ↔
      b.contents.length ≤ 65536 ∧
        roundUp b.image.length 8 + 8 * (b.contents.length + 2) ≤ size.toNat) ∧
    ∀ i m', install b.image ⟨some base, size⟩ m = (.ok i, m') →
      ∃ d, Directory.empty.buildFromTable m' (some i.table) = .ok d ∧
        d.count.toNat = b.contents.length ∧
        (∀ k (hk : k < b.contents.length), ∃ e offset,
          d.rangeOf? m' (Int64.ofNat k) = some e ∧
          e.start.toNat = base.toNat + offset ∧ b.alignment.toNat ∣ offset ∧
          e.bytes m' = b.contents[k] ++
            List.replicate (e.size.toNat - b.contents[k].length) 0 ∧
          e.size.toNat = if k + 1 < b.contents.length then
            roundUp b.contents[k].length b.alignment.toNat else b.contents[k].length) ∧
        (b.alignment = 1 → (d.ranges m').map (·.bytes m') = b.contents) := by
  have ha := b.isImageAlignment_alignment
  have hpos := pos_of_isPowerOfTwo (Bool.and_eq_true_iff.mp ha).1
  constructor
  · rw [install_accepts_iff m hfile hroom rfl]
    exact accepted_encode_iff ha hfile hroom rfl
  intro i m' h
  have hacc := accepted_of_install_at hfile hroom rfl h
  obtain ⟨htable, -, hm⟩ := resident_of_install hacc h
  have hcount : (appBoundaries b.image base).count.toNat = b.contents.length :=
    toNat_claimedCount_encode ha hfile
  rw [htable]
  refine ⟨_, hm.buildFromTable hacc (offsetsAscending_encode ha hfile), hcount, ?_, ?_⟩
  · intro k hk
    obtain ⟨e, hrange, hstart, hsize, hbytes⟩ := hm.rangeOf?_encode ha hacc (i := k)
      (by simpa using hk) (by simp; omega)
    obtain ⟨hpadded, hlength⟩ := isPadded_segment hpos hk (by simpa using hk)
    refine ⟨e, _, hrange, hstart, ?_, ?_, ?_⟩
    · exact dvd_getElem_boundaries hpos (dvd_roundUp _ _) _ hk _
    · rw [hbytes, hsize]
      exact hpadded
    · rw [hsize, hlength]
  · intro hone
    have hself : segments b.alignment.toNat b.contents = b.contents := by
      rw [hone]
      exact segments_one _
    apply List.ext_getElem
    · rw [List.length_map, Directory.ranges_eq, List.length_map, List.length_range, hcount]
    · intro k hlisted hk
      rw [List.length_map] at hlisted
      obtain ⟨e, hrange, -, -, hbytes⟩ := hm.rangeOf?_encode ha hacc (i := k)
        (by simpa using hk) (by simp; omega)
      have hword : k < 2 ^ 63 := by
        have hfew : b.contents.length < b.image.length := by
          have htable := table_le_length_encode ha hfile
          change _ ≤ b.image.length at htable
          omega
        exact (hk.trans hfew).trans hfile
      obtain rfl := Option.some.inj
        ((Directory.rangeOf?_eq_getElem_ranges hlisted hword).symm.trans hrange)
      rw [List.getElem_map]
      exact hbytes.trans (List.getElem_of_eq hself _)

theorem install_image_recovers_two :
    ∃ i m' d e, install (Bundle.image ⟨8, [], [⟨0, [], [], [65, 66, 67]⟩, ⟨1, [], [], [68]⟩],
        rfl, rfl⟩) ⟨some 4096, 80⟩ .zeroed = (.ok i, m') ∧
      Directory.empty.buildFromTable m' (some i.table) = .ok d ∧ d.count.toNat = 2 ∧
      d.rangeOf? m' (Int64.ofNat 0) = some e ∧ e.bytes m' = [65, 66, 67, 0, 0, 0, 0, 0] := by
  obtain ⟨hiff, hback⟩ := install_image_recovers
    ⟨8, [], [⟨0, [], [], [65, 66, 67]⟩, ⟨1, [], [], [68]⟩], rfl, rfl⟩ 4096 80 .zeroed
    (by decide) (by decide)
  obtain ⟨i, m', h⟩ := hiff.mpr (by decide)
  obtain ⟨d, hd, hcount, hrange, -⟩ := hback i m' h
  obtain ⟨e, -, he, -, -, hbytes, hsize⟩ := hrange 0 (by decide)
  rw [hsize] at hbytes
  exact ⟨i, m', d, e, h, hd, hcount, he, hbytes⟩

end EmbeddedApps.Image
