import EmbeddedApps.Directory
import EmbeddedApps.Proofs.Memory.Window
import EmbeddedApps.Proofs.Word.Index
import Mathlib

/-!
# Which tables make a directory

A table that claims no more apps than admitted is refused for one reason only: a boundary that is
greater than the next one.
-/

namespace EmbeddedApps

def Boundaries.Same (b : Boundaries) (m m' : Memory) : Prop :=
  ∀ i ≤ b.count.toNat, b.at m i.toUInt64 = b.at m' i.toUInt64

theorem Boundaries.Same.next {b : Boundaries} {m m' : Memory} (h : b.Same m m') {i : Nat}
    (hi : i < b.count.toNat) : b.at m (i.toUInt64 + 1) = b.at m' (i.toUInt64 + 1) := by
  rw [toUInt64_add_one]
  exact h (i + 1) hi

def Boundaries.Ascending (b : Boundaries) (m : Memory) : Prop :=
  ∀ i < b.count.toNat, b.at m i.toUInt64 ≤ b.at m (i.toUInt64 + 1)

namespace Directory

theorem firstDecrease?_eq_none_iff (m : Memory) (b : Boundaries) :
    firstDecrease? m b = none ↔ b.Ascending m := by
  rw [firstDecrease?, List.find?_eq_none]
  constructor
  · intro h i hi
    have hle := h i.toUInt64 (List.mem_map_of_mem (List.mem_range.mpr hi))
    exact UInt64.not_lt.mp fun hlt => hle (decide_eq_true hlt)
  · intro h w hw hgt
    obtain ⟨i, hi, rfl⟩ := List.mem_map.mp hw
    exact UInt64.not_lt.mpr (h i (List.mem_range.mp hi)) (of_decide_eq_true hgt)

private theorem firstDecrease?_congr {b : Boundaries} {m m' : Memory} (h : b.Same m m') :
    firstDecrease? m b = firstDecrease? m' b := by
  rw [firstDecrease?, firstDecrease?]
  apply List.find?_congr
  intro w hw
  obtain ⟨i, hi, rfl⟩ := List.mem_map.mp hw
  have hlt := List.mem_range.mp hi
  rw [h i hlt.le, h.next hlt]

def tableAt (m : Memory) (table : Address) : Boundaries :=
  ⟨table + Limits.entrySize, m.readWord table⟩

private theorem build_of_count (m : Memory) {table : Address}
    (hcount : (m.readWord table).toNat ≤ 65536) :
    Directory.empty.buildFromTable m (some table) =
      match firstDecrease? m (tableAt m table) with
      | some i => .error (.decreasing i ((tableAt m table).at m i) ((tableAt m table).at m (i + 1)))
      | none => .ok ⟨some (tableAt m table)⟩ := by
  have hlimit : Limits.tableCount.toNat = 65536 := rfl
  have hfew : ¬m.readWord table > Limits.tableCount := by
    rw [gt_iff_lt, UInt64.lt_iff_toNat_lt, hlimit]
    omega
  have hsucc : (m.readWord table + 1).toNat = (m.readWord table).toNat + 1 := by
    rw [toNat_add_of_lt (by rw [UInt64.toNat_one]; omega), UInt64.toNat_one]
  have hlength : ¬(m.readWord table + 1 == 0 ||
      m.readWord table + 1 - 1 != m.readWord table) = true := by
    rw [UInt64.add_sub_cancel, bne_self_eq_false, Bool.or_false, beq_iff_eq, ← UInt64.toNat_inj,
      hsucc]
    exact Nat.succ_ne_zero _
  simp only [buildFromTable, build, isBuilt, empty, Option.isSome_none, Bool.false_eq_true,
    if_false]
  rw [if_neg hfew, if_neg hfew, if_neg hlength]
  rfl

theorem buildFromTable_congr {m m' : Memory} {table : Address}
    (hcount : (m.readWord table).toNat ≤ 65536) (hword : m.readWord table = m'.readWord table)
    (h : (tableAt m table).Same m m') :
    Directory.empty.buildFromTable m (some table) =
      Directory.empty.buildFromTable m' (some table) := by
  have htable : tableAt m' table = tableAt m table := by rw [tableAt, tableAt, hword]
  rw [build_of_count m hcount, build_of_count m' (hword ▸ hcount), htable, firstDecrease?_congr h]
  cases hfirst : firstDecrease? m' (tableAt m table) with
  | none => rfl
  | some w =>
    obtain ⟨i, hi, rfl⟩ := List.mem_map.mp (List.mem_of_find?_eq_some hfirst)
    have hlt := List.mem_range.mp hi
    dsimp only
    rw [h i hlt.le, h.next hlt]

theorem buildFromTable_of_ascending {m : Memory} {table : Address}
    (hcount : (m.readWord table).toNat ≤ 65536) (h : (tableAt m table).Ascending m) :
    Directory.empty.buildFromTable m (some table) = .ok ⟨some (tableAt m table)⟩ := by
  rw [build_of_count m hcount, (firstDecrease?_eq_none_iff m _).mpr h]

theorem buildFromTable_of_not_ascending {m : Memory} {table : Address}
    (hcount : (m.readWord table).toNat ≤ 65536) (h : ¬(tableAt m table).Ascending m) :
    ∃ i left right,
      Directory.empty.buildFromTable m (some table) = .error (.decreasing i left right) := by
  cases hfirst : firstDecrease? m (tableAt m table) with
  | none => exact absurd ((firstDecrease?_eq_none_iff m _).mp hfirst) h
  | some i =>
    rw [build_of_count m hcount, hfirst]
    exact ⟨_, _, _, rfl⟩

theorem rangeOf?_of_lt {b : Boundaries} (m : Memory) {i : Nat} (hi : i < b.count.toNat)
    (hword : i < 2 ^ 63) :
    (Directory.mk (some b)).rangeOf? m (Int64.ofNat i) =
      some ⟨b.at m i.toUInt64, b.at m (i.toUInt64 + 1)⟩ := by
  rw [rangeOf?, Option.bind_some, if_neg (mt (ofNat_outside_iff hword b.count).mp hi.not_ge),
    Int64.toUInt64_ofNat']

theorem ranges_eq (m : Memory) (b : Boundaries) :
    (Directory.mk (some b)).ranges m =
      (List.range b.count.toNat).map fun i => ⟨b.at m i.toUInt64, b.at m (i.toUInt64 + 1)⟩ := by
  apply List.ext_getElem
  · simp [ranges, boundaries]
  · intro i _ _
    simp [ranges, boundaries]

@[simp] theorem length_ranges (m : Memory) (b : Boundaries) :
    ((Directory.mk (some b)).ranges m).length = b.count.toNat := by simp [ranges_eq]

/-- The extents listed are those of the apps one by one. -/
theorem rangeOf?_eq_getElem_ranges {b : Boundaries} {m : Memory} {i : Nat}
    (hi : i < ((Directory.mk (some b)).ranges m).length) (hword : i < 2 ^ 63) :
    (Directory.mk (some b)).rangeOf? m (Int64.ofNat i) =
      some ((Directory.mk (some b)).ranges m)[i] := by
  have hcount := hi
  rw [ranges_eq, List.length_map, List.length_range] at hcount
  rw [rangeOf?_of_lt m hcount hword]
  simp [ranges_eq]

theorem exists_of_rangeOf? {b : Boundaries} {m : Memory} {i : Int64} {e : Extent}
    (h : (Directory.mk (some b)).rangeOf? m i = some e) :
    ∃ k < b.count.toNat, k < 2 ^ 63 ∧ i = Int64.ofNat k := by
  rw [rangeOf?, Option.bind_some] at h
  split at h
  · cases h
  · rename_i hin
    exact exists_of_not_outside hin

theorem rangeOf?_eq_none_iff {b : Boundaries} {m : Memory} {i : Int64} :
    (Directory.mk (some b)).rangeOf? m i = none ↔ (i < 0 || i.toUInt64 ≥ b.count) = true := by
  rw [rangeOf?, Option.bind_some]
  split
  · rename_i hout
    exact iff_of_true rfl hout
  · rename_i hin
    exact iff_of_false (Option.some_ne_none _) hin

theorem rangeOf?_congr {b : Boundaries} {m m' : Memory} (h : b.Same m m') (i : Int64) :
    (Directory.mk (some b)).rangeOf? m i = (Directory.mk (some b)).rangeOf? m' i := by
  cases hrange : (Directory.mk (some b)).rangeOf? m i with
  | none => rw [rangeOf?_eq_none_iff.mpr (rangeOf?_eq_none_iff.mp hrange)]
  | some e =>
    obtain ⟨k, hk, hword, rfl⟩ := exists_of_rangeOf? hrange
    rw [← hrange, rangeOf?_of_lt m hk hword, rangeOf?_of_lt m' hk hword, h k hk.le, h.next hk]

end Directory

end EmbeddedApps
