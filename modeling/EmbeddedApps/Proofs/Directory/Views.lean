import EmbeddedApps.Proofs.Directory.Attempts
import EmbeddedApps.Proofs.Loader.Containment
import Mathlib

/-!
# What the queries of a directory have in common

A walk, a query for a single app, the total size and the printed summary all start from the same
boundaries. They agree whatever the boundaries are by now, and as long as the boundaries do not
decrease nothing in them wraps around.
-/

namespace EmbeddedApps

namespace Boundaries

variable {b : Boundaries} {m : Memory}

private theorem isChain_extents (b : Boundaries) (m : Memory) :
    (b.extents m).IsChain fun e f => e.stop = f.start := by
  rw [List.isChain_iff_getElem]
  intro i hi
  simp [extents]

/-- As words, the sizes add up to the distance of the outer boundaries. -/
private theorem sum_sizes (b : Boundaries) (m : Memory) (n : Nat) :
    ((List.range n).map fun i => (b.extentAt m i.toUInt64).size).sum =
      b.at m n.toUInt64 - b.at m 0 := by
  induction n with
  | zero => exact (UInt64.sub_self _).symm
  | succ n ih =>
    have hlast : (b.extentAt m n.toUInt64).size = b.at m (n + 1).toUInt64 - b.at m n.toUInt64 := by
      rw [← toUInt64_add_one]
      rfl
    rw [List.range_succ, List.map_append, List.sum_append, ih, List.map_singleton,
      List.sum_singleton, hlast]
    apply UInt64.toNat_inj.mp
    have hfirst := (b.at m 0).toNat_lt
    have hleft := (b.at m n.toUInt64).toNat_lt
    have hright := (b.at m (n + 1).toUInt64).toNat_lt
    simp only [UInt64.toNat_add, UInt64.toNat_sub]
    omega

private theorem sum_toNat_sizes (h : b.Ascending m) {n : Nat} (hn : n ≤ b.count.toNat) :
    ((List.range n).map fun i => (b.extentAt m i.toUInt64).size.toNat).sum + (b.at m 0).toNat =
      (b.at m n.toUInt64).toNat := by
  induction n with
  | zero => exact Nat.zero_add _
  | succ n ih =>
    have hstep := h n hn
    have hlast : (b.extentAt m n.toUInt64).size.toNat =
        (b.at m (n + 1).toUInt64).toNat - (b.at m n.toUInt64).toNat := by
      rw [← toUInt64_add_one]
      exact UInt64.toNat_sub_of_le _ _ hstep
    have hbefore := ih (by omega)
    rw [toUInt64_add_one, UInt64.le_iff_toNat_le] at hstep
    rw [List.range_succ, List.map_append, List.sum_append, List.map_singleton,
      List.sum_singleton, hlast]
    omega

end Boundaries

namespace Directory

variable {b : Boundaries} {m : Memory}

private theorem same_of_boundaries {m' : Memory}
    (h : (mk (some b)).boundaries m = (mk (some b)).boundaries m') : b.Same m m' := by
  intro i hi
  exact List.map_inj_left.mp h i (List.mem_range.mpr (Nat.lt_succ_of_le hi))

private theorem start_le_stop_of_ascending (h : b.Ascending m) {e : Extent}
    (he : e ∈ (mk (some b)).ranges m) : e.start ≤ e.stop := by
  rw [ranges_eq] at he
  obtain ⟨i, hi, rfl⟩ := List.mem_map.mp he
  exact h i (List.mem_range.mp hi)

private theorem sum_size_ranges (b : Boundaries) (m : Memory) :
    (((mk (some b)).ranges m).map Extent.size).sum = (mk (some b)).totalSize m := by
  have hsum := b.sum_sizes m b.count.toNat
  rw [Nat.toUInt64_eq, UInt64.ofNat_toNat] at hsum
  rw [ranges_eq, List.map_map]
  exact hsum

private theorem sum_toNat_size_ranges (h : b.Ascending m) :
    (((mk (some b)).ranges m).map fun e => e.size.toNat).sum =
      ((mk (some b)).totalSize m).toNat := by
  have hsum := Boundaries.sum_toNat_sizes h le_rfl
  rw [Nat.toUInt64_eq, UInt64.ofNat_toNat] at hsum
  have hle : b.at m 0 ≤ b.at m b.count := by
    rw [UInt64.le_iff_toNat_le]
    omega
  rw [totalSize, UInt64.toNat_sub_of_le _ _ hle, ranges_eq, List.map_map]
  exact Nat.eq_sub_of_add_eq hsum

private theorem exists_rangeInto {i : Int64} (out : Extent) (hlow : 0 ≤ i.toInt)
    (hhigh : i.toInt < b.count.toNat) :
    ∃ e, ((mk (some b)).ranges m)[i.toInt.toNat]? = some e ∧
      (mk (some b)).rangeInto m i out = (.ok, e) := by
  have hin : i.toInt.toNat < ((mk (some b)).ranges m).length := by
    rw [length_ranges]
    omega
  have hindex : ¬i < 0 := Int64.not_lt.mpr (Int64.le_iff_toInt_le.mpr hlow)
  have hrange := rangeOf?_eq_getElem_ranges hin (toNat_toInt_lt i)
  rw [ofNat_toNat_toInt hindex] at hrange
  refine ⟨_, List.getElem?_eq_getElem hin, ?_⟩
  rw [rangeInto, hrange]

end Directory

/-- All ways to ask a built directory about its apps tell the same. A walk visits as many extents
as there are apps, and the next walk visits them again. A query for one app tells the extent with
its number, and one for a number without an app leaves what was passed in. Each extent ends where
the next one starts, and their sizes add up to the total size modulo the word size. To print the
directory is to log how many apps there are and then a line for each in order, with its number and
the addresses where it starts and ends. This holds of any boundaries. As long as they are those that
the directory was built on, no extent ends before it starts, and the sizes add up without a wrap. -/
theorem Directory.views_agree {q : BuildRequest} {m₀ : Memory} {d : Directory}
    (hbuilt : q.answer Directory.empty m₀ = .ok d) (s : Machine) :
    let apps := d.ranges s.memory
    let visitAll := d.view.walk (fun _ => s.memory) fun (es : List Extent) e => es ++ [e]
    apps.length = d.count.toNat ∧ visitAll [] = apps ∧ visitAll (visitAll []) = apps ++ apps ∧
    (∀ (i : Int64) out, 0 ≤ i.toInt → i.toInt < d.count.toNat →
      ∃ e, apps[i.toInt.toNat]? = some e ∧ d.rangeInto s.memory i out = (.ok, e)) ∧
    (∀ (i : Int64) out, i.toInt < 0 ∨ (d.count.toNat : Int) ≤ i.toInt →
      d.rangeInto s.memory i out = (.indexOutOfRange, out)) ∧
    apps.IsChain (fun e f => e.stop = f.start) ∧
    (apps.map Extent.size).sum = d.totalSize s.memory ∧
    (d.print s).memory = s.memory ∧ (d.print s).flushes = s.flushes ∧
    (d.print s).log.toList = s.log.toList ++
      (⟨.info, text "[kernel] num_app = " ++ decimal apps.length⟩ ::
        apps.mapIdx fun i e => ⟨.info, text "[kernel] app_" ++ decimal i ++ text " [" ++
          markedHexadecimal e.start.toNat ++ text ", " ++ markedHexadecimal e.stop.toNat ++
            text ")"⟩) ∧
    (d.boundaries s.memory = d.boundaries m₀ → (∀ e ∈ apps, e.start ≤ e.stop) ∧
      (apps.map fun e => e.size.toNat).sum = (d.totalSize s.memory).toNat) := by
  intro apps visitAll
  obtain ⟨b, rfl, hcount, hascending⟩ := BuildRequest.exists_of_answer_empty hbuilt
  have hvisit (es : List Extent) : visitAll es = es ++ apps := by
    have hkeep (es : List Extent) (e : Extent) :
        (fun _ => s.memory) (es ++ [e]) = (fun _ => s.memory) es := rfl
    simp only [visitAll, apps]
    rw [Boundaries.walk_eq_foldl hkeep, extents_view, List.foldl_append_eq_append,
      ← List.flatMap_def, List.flatMap_singleton']
  refine ⟨length_ranges _ b, hvisit [], ?_, fun i out => exists_rangeInto out, ?_, ?_,
    sum_size_ranges b s.memory, ?_, ?_, ?_, ?_⟩
  · rw [hvisit, hvisit, List.nil_append]
  · intro i out hout
    rw [rangeInto, rangeOf?_eq_none_iff_outside.mpr hout]
  · simp only [apps, ← extents_view]
    exact b.isChain_extents s.memory
  · rw [print_eq_after]
    rfl
  · rw [print_eq_after]
    rfl
  · rw [print_eq_after, Machine.after, printedLines]
    simp only [apps, length_ranges]
    exact Array.toList_appendList
  · intro hsame
    have hkept : b.Ascending s.memory := by
      intro i hi
      have hwords := same_of_boundaries hsame
      rw [hwords i hi.le, hwords.next hi]
      exact hascending i hi
    exact ⟨fun e => start_le_stop_of_ascending hkept, sum_toNat_size_ranges hkept⟩

/-- Two apps of three bytes and one byte. When the boundary between them is moved up by eight, the
second app ends before it starts, and the sizes still add up as words. The directory is printed as
it is by then. -/
theorem Directory.views_agree_two :
    let m₀ := Memory.zeroed.writeBytes 0x1000
      ([2, 0x2000, 0x2003, 0x2004].flatMap LittleEndian.encode)
    let m := m₀.writeWord 0x1010 0x200b
    let d : Directory := ⟨some ⟨0x1008, 2⟩⟩
    (BuildRequest.table (some 0x1000)).answer Directory.empty m₀ = .ok d ∧
      ((d.ranges m₀).map fun e => e.size.toNat).sum = 4 ∧
      d.ranges m = [⟨0x2000, 0x200b⟩, ⟨0x200b, 0x2004⟩] ∧
      ((d.ranges m).map Extent.size).sum = 4 ∧
      (d.print (Machine.ofMemory m)).log.toList = [⟨.info, text "[kernel] num_app = 2"⟩,
        ⟨.info, text "[kernel] app_0 [0x2000, 0x200b)"⟩,
        ⟨.info, text "[kernel] app_1 [0x200b, 0x2004)"⟩] := by
  intro m₀ m d
  have hword : m₀.readWord 0x1000 = 2 := by decide +kernel
  have hoffer : (BuildRequest.table (some 0x1000)).offer? m₀ = some ⟨0x1008, 2⟩ := by
    rw [BuildRequest.offer?, Option.map_some, Directory.tableAt, hword]
    rfl
  have hbuilt : (BuildRequest.table (some 0x1000)).answer Directory.empty m₀ = .ok d :=
    BuildRequest.answer_empty_eq_ok_iff.mpr ⟨by decide +kernel, by rw [hoffer]⟩
  have htotal : (d.totalSize m₀).toNat = 4 := by decide +kernel
  have htotal' : d.totalSize m = 4 := by decide +kernel
  have hranges : d.ranges m = [⟨0x2000, 0x200b⟩, ⟨0x200b, 0x2004⟩] := by decide +kernel
  have hagree (m' : Memory) : ((d.ranges m').map Extent.size).sum = d.totalSize m' ∧
      (d.boundaries m' = d.boundaries m₀ →
        ((d.ranges m').map fun e => e.size.toNat).sum = (d.totalSize m').toNat) ∧
      (d.print (Machine.ofMemory m')).log.toList = d.printedLines m' := by
    obtain ⟨hlength, -, -, -, -, -, hsum, -, -, hprinted, hkept⟩ :=
      views_agree hbuilt (Machine.ofMemory m')
    refine ⟨hsum, fun h => (hkept h).2, ?_⟩
    rw [hprinted, hlength]
    rfl
  refine ⟨hbuilt, ((hagree m₀).2.1 rfl).trans htotal, hranges, (hagree m).1.trans htotal', ?_⟩
  rw [(hagree m).2.2, Directory.printedLines, hranges]
  decide +kernel

end EmbeddedApps
