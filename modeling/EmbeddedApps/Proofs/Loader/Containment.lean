import EmbeddedApps.Proofs.Loader.Requests
import Mathlib

/-!
# Loading one app

Whatever the table says at the moment when an app is asked for, the app either goes to its own slot
or nothing is written at all. Boundaries may decrease, sizes may be any word, and slots may reach
past the last address and go on at the first.
-/

namespace EmbeddedApps

private theorem index_outside_iff (i : Int64) (n : UInt64) :
    (i < 0 || i.toUInt64 ≥ n) = true ↔ i.toInt < 0 ∨ (n.toNat : Int) ≤ i.toInt := by
  by_cases hsign : i < 0
  · have hnegative : i.toInt < 0 := Int64.lt_iff_toInt_lt.mp hsign
    simp [hsign, hnegative]
  · have hpositive : 0 ≤ i.toInt := Int64.le_iff_toInt_le.mp (Int64.not_lt.mp hsign)
    have hself := ofNat_toNat_toInt hsign
    have hiff := ofNat_outside_iff (toNat_toInt_lt i) n
    rw [hself] at hiff
    rw [hiff]
    omega

namespace Directory

/-- The size of app `i` as the boundaries on its two sides tell it now. -/
def sizeAt (d : Directory) (m : Memory) (i : Int64) : UInt64 :=
  match d.table with
  | some b => b.at m (i.toUInt64 + 1) - b.at m i.toUInt64
  | none => 0

variable {d : Directory} {m : Memory} {i : Int64} {app : Extent}

theorem rangeOf?_eq_none_iff_outside :
    d.rangeOf? m i = none ↔ i.toInt < 0 ∨ (d.count.toNat : Int) ≤ i.toInt := by
  obtain ⟨table⟩ := d
  cases table with
  | none =>
    have hempty : i.toInt < 0 ∨ (0 : Int) ≤ i.toInt := by omega
    exact iff_of_true rfl hempty
  | some b =>
    rw [rangeOf?_eq_none_iff, index_outside_iff]
    rfl

private theorem size_of_rangeOf? (h : d.rangeOf? m i = some app) : app.size = d.sizeAt m i := by
  obtain ⟨table⟩ := d
  cases table with
  | none => cases h
  | some b =>
    obtain ⟨k, hk, hword, rfl⟩ := exists_of_rangeOf? h
    rw [rangeOf?_of_lt m hk hword] at h
    obtain rfl := Option.some.inj h
    simp [sizeAt, Extent.size]

private theorem exists_rangeOf?_iff {P : UInt64 → Prop} :
    (∃ app, d.rangeOf? m i = some app ∧ P app.size) ↔
      (0 ≤ i.toInt ∧ i.toInt < d.count.toNat) ∧ P (d.sizeAt m i) := by
  have hnone : d.rangeOf? m i = none ↔ _ := rangeOf?_eq_none_iff_outside
  cases happ : d.rangeOf? m i with
  | none =>
    have hout := hnone.mp happ
    refine iff_of_false (by simp) fun h => ?_
    omega
  | some app =>
    have hknown : 0 ≤ i.toInt ∧ i.toInt < d.count.toNat := by
      have hin := mt hnone.mpr (by simp [happ])
      omega
    simp [hknown, size_of_rangeOf? happ]

end Directory

namespace Slots

variable {s : Slots} {i : Int64} {e : Extent}

private theorem slot?_eq_none_iff :
    s.slot? i = none ↔ i.toInt < 0 ∨ (s.count.toNat : Int) ≤ i.toInt := by
  rw [← index_outside_iff, slot?]
  split
  · simp [*]
  · simp [*]

private theorem eq_of_slot? (h : s.slot? i = some e) :
    e.start = s.base + i.toUInt64 * s.size ∧ e.size = s.size := by
  obtain ⟨k, -, -, rfl, rfl⟩ := exists_of_slot? h
  rw [size_extent]
  simp [extent]

end Slots

namespace Loader

variable {l : Loader} {i : Int64} {out : Extent} {s : Machine}

inductive Ends (l : Loader) (i : Int64) (out : Extent) (s : Machine) :
    (Status × Extent) × Machine → Prop
  | unknown (message : Bytes) :
    l.directory.rangeOf? s.memory i = none →
    Ends l i out s ((.indexOutOfRange, out), s.say (.error message))
  | overflow (app : Extent) (message : Bytes) :
    l.directory.rangeOf? s.memory i = some app →
    l.slots.slot? i = none ∨ l.slots.size < app.size →
    Ends l i out s ((.loadOverflow, out), s.say (.error message))
  | loaded (app slot : Extent) (message : Bytes) :
    l.directory.rangeOf? s.memory i = some app →
    l.slots.slot? i = some slot → app.size ≤ slot.size →
    Ends l i out s ((.ok, occupied slot app.size),
      { s with memory := transfer s.memory app slot }.say (.debug message))

private theorem ends_loadInto (l : Loader) (i : Int64) (out : Extent) (s : Machine) :
    Ends l i out s (l.loadInto i out s) := by
  rw [loadInto, load.eq_def, plan]
  cases happ : l.directory.rangeOf? s.memory i with
  | none => exact .unknown _ happ
  | some app =>
    cases hslot : l.slots.slot? i with
    | none => exact .overflow app _ happ (.inl hslot)
    | some slot =>
      have hsize := (Slots.eq_of_slot? hslot).2
      by_cases hlarge : app.size > slot.size
      · simp only [if_pos hlarge]
        exact .overflow app _ happ (.inr (hsize ▸ hlarge))
      · simp only [if_neg hlarge]
        exact .loaded app slot _ happ hslot (UInt64.not_lt.mp hlarge)

namespace Ends

variable {r : (Status × Extent) × Machine} (h : Ends l i out s r)
include h

private theorem indexOutOfRange_iff :
    r.1.1 = .indexOutOfRange ↔ l.directory.rangeOf? s.memory i = none := by
  cases h with
  | unknown message hnone => simp [hnone]
  | overflow app message happ => simp [happ]
  | loaded app slot message happ => simp [happ]

private theorem loadOverflow_iff :
    r.1.1 = .loadOverflow ↔ ∃ app, l.directory.rangeOf? s.memory i = some app ∧
      (l.slots.slot? i = none ∨ l.slots.size < app.size) := by
  cases h with
  | unknown message hnone => simp [hnone]
  | overflow app message happ hover => simp [happ, hover]
  | loaded app slot message happ hslot hfits =>
    rw [(Slots.eq_of_slot? hslot).2] at hfits
    simp [happ, hslot, hfits]

private theorem ok_iff : r.1.1 = .ok ↔ r.1.1 ≠ .indexOutOfRange ∧ r.1.1 ≠ .loadOverflow := by
  cases h with
  | _ => simp

private theorem unchanged (hstatus : r.1.1 ≠ .ok) :
    r.2.memory = s.memory ∧ r.1.2 = out ∧
      ∃ line : LogLine, line.level = .error ∧ r.2.log = s.log.push line := by
  cases h with
  | unknown message => exact ⟨rfl, rfl, _, rfl, rfl⟩
  | overflow app message => exact ⟨rfl, rfl, _, rfl, rfl⟩
  | loaded => exact absurd rfl hstatus

private theorem contained (hstatus : r.1.1 = .ok) :
    r.1.2.start = l.slots.base + i.toUInt64 * l.slots.size ∧
      r.1.2.size = l.directory.sizeAt s.memory i ∧
      ∀ p, r.2.memory.read p ≠ s.memory.read p →
        Memory.InWindow (l.slots.base + i.toUInt64 * l.slots.size) l.slots.size.toNat p := by
  cases h with
  | unknown => simp at hstatus
  | overflow => simp at hstatus
  | loaded app slot message happ hslot hfits =>
    obtain ⟨hstart, hwidth⟩ := Slots.eq_of_slot? hslot
    refine ⟨hstart, ?_, ?_⟩
    · rw [Extent.size, occupied, UInt64.add_comm, UInt64.add_sub_cancel,
        Directory.size_of_rangeOf? happ]
    · intro p hp
      rw [← hstart, ← hwidth]
      by_contra hout
      exact hp (read_transfer (UInt64.le_iff_toNat_le.mp hfits) _ hout)

end Ends

/-- A call for an app ends in one of three ways, and the words in memory as they are now decide
which. A number that the directory does not have is out of range, a size that exceeds the slot or
a number without a slot is an overflow, and either of them leaves memory and the extent that was
passed in as they are and logs one error line. Otherwise the app is loaded. Then every byte that
changes lies in its slot, and the extent starts there and is as long as the app. -/
theorem loadInto_stays_in_slot (l : Loader) (i : Int64) (out : Extent) (s : Machine) :
    let status := (l.loadInto i out s).1.1
    let range := (l.loadInto i out s).1.2
    let t := (l.loadInto i out s).2
    let known := 0 ≤ i.toInt ∧ i.toInt < l.directory.count.toNat
    let size := l.directory.sizeAt s.memory i
    let start := l.slots.base + i.toUInt64 * l.slots.size
    (status = .indexOutOfRange ↔ ¬known) ∧
    (status = .loadOverflow ↔
      known ∧ ((l.slots.count.toNat : Int) ≤ i.toInt ∨ l.slots.size < size)) ∧
    (status = .ok ↔ 0 ≤ i.toInt ∧
      i.toInt < min l.directory.count.toNat l.slots.count.toNat ∧ size ≤ l.slots.size) ∧
    (status ≠ .ok → t.memory = s.memory ∧ range = out ∧
      ∃ line : LogLine, line.level = .error ∧ t.log = s.log.push line) ∧
    (status = .ok → range.start = start ∧ range.size = size ∧
      ∀ p, t.memory.read p ≠ s.memory.read p → Memory.InWindow start l.slots.size.toNat p) := by
  intro status range t known size start
  have hends : Ends l i out s ((status, range), t) := ends_loadInto l i out s
  have hindex : status = .indexOutOfRange ↔ ¬known := by
    rw [hends.indexOutOfRange_iff, Directory.rangeOf?_eq_none_iff_outside]
    omega
  have hoverflow : status = .loadOverflow ↔
      known ∧ ((l.slots.count.toNat : Int) ≤ i.toInt ∨ l.slots.size < size) := by
    rw [hends.loadOverflow_iff, Directory.exists_rangeOf?_iff (P := fun n => _ ∨ _ < n),
      Slots.slot?_eq_none_iff]
    refine and_congr_right fun hknown => or_congr_left ?_
    omega
  refine ⟨hindex, hoverflow, ?_, hends.unchanged, hends.contained⟩
  rw [hends.ok_iff, ← UInt64.not_lt, ne_eq, ne_eq, hindex, hoverflow]
  by_cases hlarge : l.slots.size < size
  · simp [hlarge]
  · simp only [known, hlarge, or_false, not_false_eq_true, and_true]
    omega

end Loader

end EmbeddedApps
