import EmbeddedApps.Proofs.Directory.Walks
import Mathlib

/-!
# Attempts to build a directory

A directory may be asked to build any number of times, from boundaries or from a whole table, and
memory may change in between. The first sound table is kept for good. Attempts before it fail and
leave no trace but a line in the log, and so do all attempts after it.
-/

namespace EmbeddedApps

namespace Boundaries

instance (b : Boundaries) (m : Memory) : Decidable (b.Ascending m) :=
  inferInstanceAs (Decidable (∀ i < _, _))

def span (b : Boundaries) (m : Memory) : UInt64 := b.at m b.count - b.at m 0

end Boundaries

inductive BuildRequest
  | boundaries (count : UInt64) (start : Option Address) (length : UInt64)
  | table (start : Option Address)

namespace BuildRequest

def answer (d : Directory) (m : Memory) : BuildRequest → Except TableFault Directory
  | boundaries count start length => d.build m count start length
  | table start => d.buildFromTable m start

/-- The boundaries that are offered, if there are any. -/
def offer? (m : Memory) : BuildRequest → Option Boundaries
  | boundaries count start _ => start.map fun a => ⟨a, count⟩
  | table start => start.map (Directory.tableAt m)

/-- The number of boundaries is given as one more than the number of apps. A table tells only the
latter. -/
def LengthFits : BuildRequest → Prop
  | boundaries count _ length => length.toNat = count.toNat + 1
  | table _ => True

instance (q : BuildRequest) : Decidable q.LengthFits :=
  match q with
  | boundaries count _ length => inferInstanceAs (Decidable (length.toNat = count.toNat + 1))
  | table _ => inferInstanceAs (Decidable True)

/-- There are boundaries, not too many, as many as are announced, and in order. -/
def Valid (m : Memory) (q : BuildRequest) : Prop :=
  ∃ b ∈ q.offer? m, b.count.toNat ≤ 65536 ∧ q.LengthFits ∧ b.Ascending m

instance (m : Memory) (q : BuildRequest) : Decidable (q.Valid m) :=
  inferInstanceAs (Decidable (∃ b ∈ q.offer? m, _))

variable {m : Memory} {q : BuildRequest} {d : Directory} {f : TableFault}

private theorem answer_of_isBuilt (h : d.isBuilt = true) (m : Memory) (q : BuildRequest) :
    q.answer d m = .error .alreadyBuilt := by
  cases q with
  | boundaries count start length => rw [answer, Directory.build.eq_def, if_pos h]
  | table start => rw [answer, Directory.buildFromTable.eq_def, if_pos h]

private theorem few_iff (count : UInt64) : ¬count > Limits.tableCount ↔ count.toNat ≤ 65536 := by
  have hlimit : Limits.tableCount.toNat = 65536 := rfl
  rw [gt_iff_lt, UInt64.lt_iff_toNat_lt, hlimit, Nat.not_lt]

private theorem length_iff (count length : UInt64) (h : count.toNat ≤ 65536) :
    ¬(length == 0 || length - 1 != count) = true ↔ length.toNat = count.toNat + 1 := by
  have hword := length.toNat_lt
  -- Without the test for zero, a length of zero would fit the greatest count.
  rw [Bool.or_eq_true, beq_iff_eq, bne_iff_ne, not_or, Decidable.not_not, ← UInt64.toNat_inj,
    ← UInt64.toNat_inj, UInt64.toNat_sub, UInt64.toNat_zero, UInt64.toNat_one]
  omega

private theorem build_empty_eq_ok_iff {count length : UInt64} {start : Option Address} :
    Directory.empty.build m count start length = .ok d ↔
      ∃ a, start = some a ∧ count.toNat ≤ 65536 ∧ length.toNat = count.toNat + 1 ∧
        (Boundaries.mk a count).Ascending m ∧ d = ⟨some ⟨a, count⟩⟩ := by
  have hnew : ¬Directory.empty.isBuilt = true := by simp [Directory.empty, Directory.isBuilt]
  rw [Directory.build.eq_def, if_neg hnew]
  by_cases hfew : count > Limits.tableCount
  · rw [if_pos hfew]
    have hmany := mt (few_iff count).mpr (not_not.mpr hfew)
    simp [hmany]
  rw [if_neg hfew]
  rw [few_iff] at hfew
  cases start with
  | none => simp
  | some a =>
    dsimp only
    by_cases hlength : (length == 0 || length - 1 != count) = true
    · rw [if_pos hlength]
      have hwrong := mt (length_iff count length hfew).mpr (not_not.mpr hlength)
      simp [hwrong]
    rw [if_neg hlength]
    rw [length_iff count length hfew] at hlength
    cases hfirst : Directory.firstDecrease? m ⟨a, count⟩ with
    | none =>
      have hasc := (Directory.firstDecrease?_eq_none_iff m _).mp hfirst
      simp [hfew, hlength, hasc, eq_comm]
    | some i =>
      have hdown : ¬(Boundaries.mk a count).Ascending m := by
        rw [← Directory.firstDecrease?_eq_none_iff, hfirst]
        simp
      simp [hdown]

theorem buildFromTable_empty_eq_ok_iff {start : Option Address} :
    Directory.empty.buildFromTable m start = .ok d ↔
      ∃ a, start = some a ∧ (m.readWord a).toNat ≤ 65536 ∧
        (Directory.tableAt m a).Ascending m ∧ d = ⟨some (Directory.tableAt m a)⟩ := by
  have hnew : ¬Directory.empty.isBuilt = true := by simp [Directory.empty, Directory.isBuilt]
  rw [Directory.buildFromTable.eq_def, if_neg hnew]
  cases start with
  | none => simp
  | some a =>
    dsimp only
    by_cases hfew : m.readWord a > Limits.tableCount
    · rw [if_pos hfew]
      have hmany := mt (few_iff _).mpr (not_not.mpr hfew)
      simp [hmany]
    rw [if_neg hfew, build_empty_eq_ok_iff]
    rw [few_iff] at hfew
    have hsucc : (m.readWord a + 1).toNat = (m.readWord a).toNat + 1 := by
      rw [toNat_add_of_lt (by rw [UInt64.toNat_one]; omega), UInt64.toNat_one]
    simp [hsucc, Directory.tableAt]

/-- A new directory is built on what a valid request offers, and on nothing else. -/
theorem answer_empty_eq_ok_iff :
    q.answer Directory.empty m = .ok d ↔ q.Valid m ∧ d = ⟨q.offer? m⟩ := by
  cases q with
  | boundaries count start length =>
    rw [answer, build_empty_eq_ok_iff]
    cases start with
    | none => simp [Valid, offer?]
    | some a => simp [Valid, offer?, LengthFits, and_assoc]
  | table start =>
    rw [answer, buildFromTable_empty_eq_ok_iff]
    cases start with
    | none => simp [Valid, offer?]
    | some a => simp [Valid, offer?, LengthFits, and_assoc, Directory.tableAt]

theorem exists_of_answer_empty (h : q.answer Directory.empty m = .ok d) :
    ∃ b, d = ⟨some b⟩ ∧ b.count.toNat ≤ 65536 ∧ b.Ascending m := by
  obtain ⟨⟨b, hoffer, hcount, -, hascending⟩, rfl⟩ := answer_empty_eq_ok_iff.mp h
  exact ⟨b, congrArg Directory.mk hoffer, hcount, hascending⟩

private theorem status_of_build_empty {count length : UInt64} {start : Option Address}
    (h : Directory.empty.build m count start length = .error f) : f.status = .layoutError := by
  have hnew : ¬Directory.empty.isBuilt = true := by simp [Directory.empty, Directory.isBuilt]
  rw [Directory.build.eq_def, if_neg hnew] at h
  split at h
  · cases h
    rfl
  split at h
  · cases h
    rfl
  split at h
  · cases h
    rfl
  split at h
  · cases h
    rfl
  · cases h

private theorem status_of_answer_empty (h : q.answer Directory.empty m = .error f) :
    f.status = .layoutError := by
  cases q with
  | boundaries count start length => exact status_of_build_empty h
  | table start =>
    have hnew : ¬Directory.empty.isBuilt = true := by simp [Directory.empty, Directory.isBuilt]
    rw [answer, Directory.buildFromTable.eq_def, if_neg hnew] at h
    split at h
    · cases h
      rfl
    · dsimp only at h
      split at h
      · cases h
        rfl
      · exact status_of_build_empty h

end BuildRequest

structure Attempt where
  memory : Memory
  request : BuildRequest

namespace Attempt

/-- The request is valid when it is made. -/
def Valid (a : Attempt) : Prop := a.request.Valid a.memory

instance (a : Attempt) : Decidable a.Valid := inferInstanceAs (Decidable (a.request.Valid _))

/-- The boundaries on offer. -/
def offer? (a : Attempt) : Option Boundaries := a.request.offer? a.memory

def perform (a : Attempt) (d : Directory) (s : Machine) : (Status × Directory) × Machine :=
  d.settle (a.request.answer d a.memory) { s with memory := a.memory }

/-- The directory and the machine after requests in order. -/
def performAll (as : List Attempt) (d : Directory) (s : Machine) : Directory × Machine :=
  as.foldl (fun x a => ((a.perform x.1 x.2).1.2, (a.perform x.1 x.2).2)) (d, s)

variable {a : Attempt}

private theorem exists_offer?_of_valid (h : a.Valid) : ∃ b, a.offer? = some b := by
  obtain ⟨b, hb, -⟩ := h
  exact ⟨b, hb⟩

private theorem perform_of_built (a : Attempt) (b : Boundaries) (s : Machine) :
    a.perform ⟨some b⟩ s = ((.alreadyBuilt, ⟨some b⟩),
      { s with memory := a.memory }.say (.error TableFault.alreadyBuilt.message)) := by
  rw [perform, BuildRequest.answer_of_isBuilt rfl]
  rfl

private theorem perform_of_valid (h : a.Valid) (s : Machine) :
    a.perform Directory.empty s = ((.ok, ⟨a.offer?⟩), { s with memory := a.memory }) := by
  rw [perform, BuildRequest.answer_empty_eq_ok_iff.mpr ⟨h, rfl⟩]
  rfl

private theorem perform_of_not_valid (h : ¬a.Valid) (s : Machine) :
    ∃ f : TableFault, a.perform Directory.empty s = ((.layoutError, Directory.empty),
      { s with memory := a.memory }.say (.error f.message)) := by
  cases hanswer : a.request.answer Directory.empty a.memory with
  | ok d => exact absurd (BuildRequest.answer_empty_eq_ok_iff.mp hanswer).1 h
  | error f =>
    refine ⟨f, ?_⟩
    rw [perform, hanswer, Directory.settle, BuildRequest.status_of_answer_empty hanswer]

private theorem performAll_cons (a : Attempt) (as : List Attempt) (d : Directory) (s : Machine) :
    performAll (a :: as) d s = performAll as (a.perform d s).1.2 (a.perform d s).2 := rfl

private theorem performAll_concat (as : List Attempt) (a : Attempt) (d : Directory) (s : Machine) :
    performAll (as ++ [a]) d s =
      ((a.perform (performAll as d s).1 (performAll as d s).2).1.2,
        (a.perform (performAll as d s).1 (performAll as d s).2).2) := by
  rw [performAll, List.foldl_append]
  rfl

private theorem directory_performAll_of_built (as : List Attempt) (b : Boundaries) (s : Machine) :
    (performAll as ⟨some b⟩ s).1 = ⟨some b⟩ := by
  induction as generalizing s with
  | nil => rfl
  | cons a as ih => rw [performAll_cons, perform_of_built, ih]

/-- The first valid request decides on the directory. -/
theorem directory_performAll (as : List Attempt) (s : Machine) :
    (performAll as Directory.empty s).1 = ⟨(as.find? (·.Valid)).bind offer?⟩ := by
  induction as generalizing s with
  | nil => rfl
  | cons a as ih =>
    rw [performAll_cons]
    -- A valid request settles the rest of the run, any other leaves the directory empty.
    by_cases h : a.Valid
    · obtain ⟨b, hb⟩ := exists_offer?_of_valid h
      rw [perform_of_valid h, hb, directory_performAll_of_built]
      simp [h, hb]
    · obtain ⟨f, hf⟩ := perform_of_not_valid h s
      rw [hf, ih]
      simp [h]

private theorem log_perform (a : Attempt) (d : Directory) (s : Machine) :
    ∃ line : LogLine, line.level = .error ∧ (a.perform d s).2.log =
      if (a.perform d s).1.1 = .ok then s.log else s.log.push line := by
  rw [perform]
  cases a.request.answer d a.memory with
  | ok d' => exact ⟨.error [], rfl, rfl⟩
  | error f =>
    have hstatus : f.status ≠ .ok := by cases f <;> simp [TableFault.status]
    refine ⟨.error f.message, rfl, ?_⟩
    exact (if_neg hstatus).symm

theorem memory_perform (a : Attempt) (d : Directory) (s : Machine) :
    (a.perform d s).2.memory = a.memory := by
  rw [perform]
  cases a.request.answer d a.memory with
  | ok d' => rfl
  | error f => rfl

end Attempt

namespace Directory

/-- What a directory shows of the boundaries that it was built on, if it was. -/
structure Shows (d : Directory) (t : Option Boundaries) (m : Memory) : Prop where
  isBuilt : d.isBuilt = t.isSome
  count : d.count = (t.map (·.count)).getD 0
  ranges : d.ranges m = (t.map (·.extents m)).getD []
  rangeOf? : ∀ i : Int64, d.rangeOf? m i =
    if i < 0 then none else ((t.map (·.extents m)).getD [])[i.toInt.toNat]?
  totalSize : d.totalSize m = (t.map (·.span m)).getD 0

private theorem rangeOf?_eq_getElem? (b : Boundaries) (m : Memory) (i : Int64) :
    (mk (some b)).rangeOf? m i = if i < 0 then none else (b.extents m)[i.toInt.toNat]? := by
  by_cases hneg : i < 0
  · simp [rangeOf?, hneg]
  rw [if_neg hneg, Boundaries.extents, List.getElem?_map]
  by_cases hlt : i.toInt.toNat < b.count.toNat
  · have hrange := rangeOf?_of_lt m hlt (toNat_toInt_lt i)
    rw [ofNat_toNat_toInt hneg] at hrange
    rw [hrange, List.getElem?_range hlt]
    rfl
  · rw [List.getElem?_eq_none (by simpa using hlt), Option.map_none]
    cases hrange : (mk (some b)).rangeOf? m i with
    | none => rfl
    | some e =>
      obtain ⟨k, hk, hword, hik⟩ := exists_of_rangeOf? hrange
      rw [hik, toNat_toInt_ofNat hword] at hlt
      exact absurd hk hlt

private theorem shows_mk (t : Option Boundaries) (m : Memory) : (mk t).Shows t m := by
  cases t with
  | none =>
    refine ⟨rfl, rfl, rfl, fun i => ?_, rfl⟩
    simp [rangeOf?]
  | some b => exact ⟨rfl, rfl, ranges_eq m b, rangeOf?_eq_getElem? b m, rfl⟩

end Directory

/-- Of all calls on a new directory the first valid one is answered with success, those before it
with an error of layout, and those after it with the news that the directory is built already. A
call that is refused logs one error line, and one that succeeds logs none. At all times the
directory shows the table of the first valid call, and nothing before there was one. -/
theorem Attempt.first_valid_wins (s : Machine) (earlier : List Attempt) (a : Attempt) :
    let before := performAll earlier Directory.empty s
    let call := a.perform before.1 before.2
    call.1.1 = (if ∃ e ∈ earlier, e.Valid then .alreadyBuilt
      else if a.Valid then .ok else .layoutError) ∧
    (∃ line : LogLine, line.level = .error ∧
      call.2.log = if call.1.1 = .ok then before.2.log else before.2.log.push line) ∧
    call.2.memory = a.memory ∧
    (∀ m, before.1.Shows ((earlier.find? (·.Valid)).bind offer?) m) ∧
    ∀ m, call.1.2.Shows (((earlier ++ [a]).find? (·.Valid)).bind offer?) m := by
  have hbefore := directory_performAll earlier s
  have hafter := directory_performAll (earlier ++ [a]) s
  rw [performAll_concat] at hafter
  refine ⟨?_, log_perform a _ _, memory_perform a _ _, fun m => ?_, fun m => ?_⟩
  · cases hfirst : earlier.find? (·.Valid) with
    | none =>
      have hnone : ¬∃ e ∈ earlier, e.Valid := by simpa using hfirst
      rw [hfirst] at hbefore
      rw [hbefore, if_neg hnone]
      by_cases h : a.Valid
      · rw [if_pos h]
        exact congrArg (·.1.1) (perform_of_valid h _)
      · rw [if_neg h]
        obtain ⟨f, hf⟩ := perform_of_not_valid h (performAll earlier Directory.empty s).2
        exact congrArg (·.1.1) hf
    | some e =>
      have hvalid : e.Valid := by simpa using List.find?_some hfirst
      obtain ⟨b, hb⟩ := exists_offer?_of_valid hvalid
      rw [hfirst, Option.bind_some, hb] at hbefore
      rw [hbefore, perform_of_built, if_pos ⟨e, List.mem_of_find?_eq_some hfirst, hvalid⟩]
  · rw [hbefore]
    exact Directory.shows_mk _ m
  · dsimp only at hafter
    rw [hafter]
    exact Directory.shows_mk _ m

end EmbeddedApps
