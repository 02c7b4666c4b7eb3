import EmbeddedApps.Directory.View
import EmbeddedApps.Proofs.Directory
import EmbeddedApps.Proofs.Machine
import EmbeddedApps.Proofs.Text.Numeral
import Mathlib

/-!
# Walks through a directory

A walk on which memory stays as it is visits the apps in order, as a fold over their extents does.
What is logged on such a walk is fixed by the extents.
-/

namespace EmbeddedApps

namespace Boundaries

variable {σ : Type} {b : Boundaries} {memory : σ → Memory} {visit : σ → Extent → σ}

def extents (b : Boundaries) (m : Memory) : List Extent :=
  (List.range b.count.toNat).map fun i => ⟨b.at m i.toUInt64, b.at m (i.toUInt64 + 1)⟩

private theorem extents_eq (b : Boundaries) (m : Memory) :
    b.extents m = (List.range' 0 b.count.toNat).map fun i => b.extentAt m i.toUInt64 := by
  rw [← List.range_eq_range']
  rfl

private theorem walkFrom_eq_foldl (hkeep : ∀ x e, memory (visit x e) = memory x) (n : Nat) {i : Nat}
    (hi : i + n = b.count.toNat) (x : σ) :
    b.walkFrom memory visit i.toUInt64 x =
      ((List.range' i n).map fun j => b.extentAt (memory x) j.toUInt64).foldl visit x := by
  have hcount := b.count.toNat_lt
  have hindex : i.toUInt64.toNat = i := toNat_toUInt64_of_lt (by omega)
  induction n generalizing i x with
  | zero =>
    have hend : i.toUInt64 = b.count := by
      rw [← UInt64.toNat_inj, hindex]
      exact hi
    rw [walkFrom, if_pos hend]
    rfl
  | succ n ih =>
    have hnot : i.toUInt64 ≠ b.count := by
      rw [← UInt64.toNat_inj.ne, hindex]
      omega
    rw [walkFrom, if_neg hnot, toUInt64_add_one, ih (by omega) _ (toNat_toUInt64_of_lt (by omega)),
      hkeep, List.range'_succ, List.map_cons, List.foldl_cons]

theorem walk_eq_foldl (hkeep : ∀ x e, memory (visit x e) = memory x) (x : σ) :
    b.walk memory visit x = (b.extents (memory x)).foldl visit x := by
  rw [extents_eq]
  exact walkFrom_eq_foldl hkeep b.count.toNat (Nat.zero_add _) x

end Boundaries

namespace LogLine

/-- A message that is short enough and has no zero byte is logged as it is. -/
private theorem cut_eq_self {message : Bytes} (hzero : 0 ∉ message)
    (hlength : message.length ≤ 1023) :
    cut message = message := by
  have hall : ∀ c ∈ message, (c != 0) = true := by
    intro c hc
    rw [bne_iff_ne]
    exact fun h => hzero (h ▸ hc)
  rw [cut, Bytes.beforeNul, List.takeWhile_eq_self_iff.mpr hall]
  exact List.take_of_length_le hlength

end LogLine

namespace Directory

theorem extents_view (d : Directory) (m : Memory) : d.view.extents m = d.ranges m := by
  obtain ⟨_ | b⟩ := d
  · rfl
  · exact (ranges_eq m b).symm

def appLine (i : Nat) (e : Extent) : LogLine :=
  ⟨.info, text "[kernel] app_" ++ decimal i ++ text " [" ++ markedHexadecimal e.start.toNat ++
    text ", " ++ markedHexadecimal e.stop.toNat ++ text ")"⟩

def printedLines (d : Directory) (m : Memory) : List LogLine :=
  ⟨.info, text "[kernel] num_app = " ++ decimal d.count.toNat⟩ :: (d.ranges m).mapIdx appLine

private theorem countLine_eq (d : Directory) :
    d.countLine = ⟨.info, text "[kernel] num_app = " ++ decimal d.count.toNat⟩ := by
  have htext : text "[kernel] num_app = " ≠ [] ∧ (0 : UInt8) ∉ text "[kernel] num_app = " ∧
      (text "[kernel] num_app = ").length = 19 := by decide
  have hnumber := length_decimal_le d.count.toNat_lt
  rw [countLine, LogLine.info, LogLine.cut_eq_self]
  · simp only [List.mem_append, not_or]
    exact ⟨htext.2.1, zero_notMem_decimal _⟩
  · rw [List.length_append, htext.2.2]
    omega

private theorem rangeLine_eq {i : Nat} (hi : i < 2 ^ 64) (e : Extent) :
    rangeLine i e = appLine i e := by
  have hnumber := length_decimal_le hi
  have hstart := length_markedHexadecimal_le e.start.toNat_lt
  have hstop := length_markedHexadecimal_le e.stop.toNat_lt
  rw [rangeLine, LogLine.info, LogLine.cut_eq_self, appLine]
  · simp only [List.mem_append, not_or]
    exact ⟨⟨⟨⟨⟨⟨by decide, zero_notMem_decimal _⟩, by decide⟩, zero_notMem_markedHexadecimal _⟩,
      by decide⟩, zero_notMem_markedHexadecimal _⟩, by decide⟩
  · have htexts : (text "[kernel] app_").length = 13 ∧ (text " [").length = 2 ∧
        (text ", ").length = 2 ∧ (text ")").length = 1 := by decide
    simp only [List.length_append, htexts]
    omega

private theorem foldl_say (es : List Extent) {i : Nat} (hi : i + es.length ≤ 2 ^ 64)
    (s : Machine) :
    (es.foldl (fun x e => (x.1 + 1, x.2.say (rangeLine x.1 e))) (i, s)).2 =
      s.after ⟨es.mapIdx fun j => appLine (i + j), []⟩ := by
  induction es generalizing i s with
  | nil => exact (Machine.after_nil s).symm
  | cons e es ih =>
    rw [List.length_cons] at hi
    have hindex (j : Nat) : i + 1 + j = i + (j + 1) := by omega
    rw [List.foldl_cons, ih (by omega), rangeLine_eq (by omega), Machine.say_eq_after,
      ← Machine.after_append, List.mapIdx_cons]
    simp only [hindex]
    rfl

theorem print_eq_after (d : Directory) (s : Machine) :
    d.print s = s.after ⟨d.printedLines s.memory, []⟩ := by
  have hkeep (x : Nat × Machine) (e : Extent) :
      (x.2.say (rangeLine x.1 e)).memory = x.2.memory := rfl
  have hlength : 0 + (d.ranges s.memory).length ≤ 2 ^ 64 := by
    obtain ⟨_ | b⟩ := d
    · exact Nat.zero_le _
    · rw [length_ranges, Nat.zero_add]
      exact b.count.toNat_lt.le
  rw [print, Boundaries.walk_eq_foldl hkeep, extents_view, countLine_eq, Machine.say_eq_after,
    Machine.memory_after, Memory.writeAll_nil, foldl_say _ hlength, ← Machine.after_append]
  simp only [Nat.zero_add]
  rfl

theorem printedLines_congr {b : Boundaries} {m m' : Memory} (h : b.Same m m') :
    (mk (some b)).printedLines m = (mk (some b)).printedLines m' := by
  have hranges : (mk (some b)).ranges m = (mk (some b)).ranges m' := by
    rw [ranges_eq, ranges_eq]
    apply List.map_congr_left
    intro i hi
    have hlt := List.mem_range.mp hi
    rw [h i hlt.le, h.next hlt]
  rw [printedLines, printedLines, hranges]

end Directory

end EmbeddedApps
