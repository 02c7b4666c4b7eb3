import EmbeddedApps.Bundle.Addition
import EmbeddedApps.Proofs.Bundle.Reading
import Mathlib

/-!
# Runs of additions

A call either adds all that it has read or leaves the bundle alone, so after any calls the bundle
holds what the successful ones have read, numbered through.
-/

namespace EmbeddedApps

open Program (numbered)

theorem map_eq_ok_iff {ε α β : Type} {x : Except ε α} {f : α → β} {r : β} :
    x.map f = .ok r ↔ ∃ a, x = .ok a ∧ f a = r := by
  cases x with
  | error e => simp [Except.map]
  | ok a => simp [Except.map]

private theorem Program.load_eq_map (t : FileTree) (name path : Bytes) (index : UInt32) :
    load t name path index = (load t name path 0).map fun p => { p with index := index } := by
  rcases t.yields_or_missing_or_chokes path with ⟨content, h⟩ | h | ⟨f, h⟩
  · simp only [load_of_yields h, Except.map]
  · simp only [load_of_missing h, Except.map]
  · simp only [load_of_chokes h, Except.map]

namespace Bundle

variable {alignment : UInt64} {symbolPrefix : Bytes} {b : Bundle}

def add (b : Bundle) (ps : List Program) : Bundle :=
  { b with programs := b.programs ++
      ps.mapIdx fun i p => { p with index := (b.programs.length + i).toUInt32 } }

theorem programs_add (b : Bundle) (ps : List Program) :
    (b.add ps).programs = b.programs ++ numbered b.nextIndex ps := by
  have hnext (i : Nat) : (b.programs.length + i).toUInt32 = b.nextIndex + i.toUInt32 := by
    rw [Nat.toUInt32_eq, UInt32.ofNat_add, nextIndex, Nat.toUInt32_eq, Nat.toUInt32_eq]
  simp only [add, numbered, hnext]

private theorem add_nil (b : Bundle) : b.add [] = b := by simp [add]

private theorem add_append (b : Bundle) (ps qs : List Program) :
    b.add (ps ++ qs) = (b.add ps).add qs := by
  simp [add, List.mapIdx_append, Nat.add_assoc, Nat.add_comm ps.length]

theorem push_eq (p : Program) (b : Bundle) : push p b = .ok () (b.add [p]) := rfl

private theorem forM_push (ps : List Program) (b : Bundle) :
    (ps.forM push : Filling Unit) b = .ok () (b.add ps) := by
  induction ps generalizing b with
  | nil =>
    rw [add_nil]
    rfl
  | cons p ps ih =>
    rw [List.forM_eq_forM, List.forM_cons, ← List.singleton_append, add_append]
    simp only [bind, EStateM.bind, push_eq]
    exact ih (b.add [p])

theorem eq_of_create (h : create alignment symbolPrefix = .ok b) :
    b.alignment = alignment ∧ b.symbolPrefix = symbolPrefix ∧ b.programs = [] := by
  simp only [create] at h
  split at h
  · split at h
    · cases h
      exact ⟨rfl, rfl, rfl⟩
    · cases h
  · cases h

end Bundle

namespace Addition

variable {t : FileTree} {a : Addition} {b : Bundle} {ps : List Program}

def read (t : FileTree) : Addition → Except BuildFault (List Program)
  | manifest path => Manifest.load t path
  | program name path =>
    (Program.load t (if name.isEmpty then Path.stem path else name) path 0).map ([·])

theorem perform_eq (t : FileTree) (a : Addition) (b : Bundle) :
    a.perform t b =
      match a.read t with
      | .error f => .error f b
      | .ok ps => .ok () (b.add ps) := by
  cases a with
  | manifest path =>
    simp only [perform, read]
    cases Manifest.load t path with
    | error f => rfl
    | ok ps => exact Bundle.forM_push ps b
  | program name path =>
    simp only [perform, read, bind, EStateM.bind, get, getThe, MonadStateOf.get, EStateM.get,
      Program.load_eq_map t _ path b.nextIndex]
    cases Program.load t (if name.isEmpty then Path.stem path else name) path 0 with
    | error f => rfl
    | ok p => rfl

/-- A call ends with all that it has read added, or with a fault and nothing changed. -/
inductive Ends (t : FileTree) (a : Addition) (b : Bundle) :
    EStateM.Result BuildFault Bundle Unit → Prop
  | added (ps : List Program) : a.read t = .ok ps → Ends t a b (.ok () (b.add ps))
  | refused (f : BuildFault) : a.read t = .error f → Ends t a b (.error f b)

private theorem ends_perform (t : FileTree) (a : Addition) (b : Bundle) :
    Ends t a b (a.perform t b) := by
  rw [perform_eq]
  cases hread : a.read t with
  | error f => exact .refused f hread
  | ok ps => exact .added ps hread

/-- Calls in a row, up to the first that fails, add all that they have read. -/
theorem forM_perform_eq_ok_iff {as : List Addition} {b b' : Bundle} :
    (as.forM (perform t) : Filling Unit) b = .ok () b' ↔
      ∃ pss, List.Forall₂ (fun a ps => a.read t = .ok ps) as pss ∧ b' = b.add pss.flatten := by
  induction as generalizing b with
  | nil =>
    rw [List.forM_eq_forM, List.forM_nil]
    constructor
    · intro h
      cases h
      exact ⟨[], .nil, (Bundle.add_nil _).symm⟩
    · rintro ⟨pss, hall, rfl⟩
      cases hall
      rw [List.flatten_nil, Bundle.add_nil]
      rfl
  | cons a as ih =>
    rw [List.forM_eq_forM, List.forM_cons]
    simp only [bind, EStateM.bind, perform_eq]
    cases hread : a.read t with
    | error f =>
      refine iff_of_false nofun ?_
      rintro ⟨pss, hall, -⟩
      cases hall with
      | cons hfirst _ => cases hread.symm.trans hfirst
    | ok ps =>
      dsimp only
      rw [← List.forM_eq_forM, ih]
      constructor
      · rintro ⟨pss, hall, rfl⟩
        exact ⟨ps :: pss, .cons hread hall, by rw [List.flatten_cons, Bundle.add_append]⟩
      · rintro ⟨pss, hall, rfl⟩
        cases hall with
        | cons hfirst hrest =>
          cases hread.symm.trans hfirst
          exact ⟨_, hrest, by rw [List.flatten_cons, Bundle.add_append]⟩

private theorem exists_forall₂_iff {α β : Type} {R : α → β → Prop} {as : List α} :
    (∃ bs, List.Forall₂ R as bs) ↔ ∀ a ∈ as, ∃ b, R a b := by
  induction as with
  | nil => exact iff_of_true ⟨[], .nil⟩ nofun
  | cons a as ih =>
    rw [List.forall_mem_cons, ← ih]
    constructor
    · rintro ⟨_, _ | ⟨hfirst, hrest⟩⟩
      exact ⟨⟨_, hfirst⟩, _, hrest⟩
    · rintro ⟨⟨b, hfirst⟩, bs, hrest⟩
      exact ⟨b :: bs, .cons hfirst hrest⟩

theorem exists_forM_perform_iff {as : List Addition} {b : Bundle} :
    (∃ b', (as.forM (perform t) : Filling Unit) b = .ok () b') ↔
      ∀ a ∈ as, ∃ ps, a.read t = .ok ps := by
  rw [← exists_forall₂_iff]
  simp only [forM_perform_eq_ok_iff]
  constructor
  · rintro ⟨b', pss, hall, -⟩
    exact ⟨pss, hall⟩
  · rintro ⟨pss, hall⟩
    exact ⟨_, pss, hall, rfl⟩

/-- What a call adds. A call that fails adds nothing. -/
def given (t : FileTree) (a : Addition) : List Program := (a.read t).toOption.getD []

private theorem after_eq (t : FileTree) (a : Addition) (b : Bundle) :
    a.after t b = b.add (a.given t) := by
  have hends := ends_perform t a b
  rw [after]
  generalize a.perform t b = r at hends ⊢
  cases hends with
  | added ps hread =>
    rw [given, hread]
    rfl
  | refused f hread =>
    rw [given, hread]
    exact b.add_nil.symm

private theorem performAll_eq (calls : List (FileTree × Addition)) (b : Bundle) :
    performAll calls b = b.add (calls.flatMap fun c => c.2.given c.1) := by
  induction calls generalizing b with
  | nil => exact b.add_nil.symm
  | cons c calls ih =>
    rw [performAll, List.foldl_cons, ← performAll, ih, after_eq, List.flatMap_cons,
      Bundle.add_append]

end Addition

private theorem Program.toNat_index_numbered {ps : List Program} {i : Nat} {p : Program}
    (h : (numbered 0 ps)[i]? = some p) (hlength : ps.length < 2 ^ 32) : p.index.toNat = i := by
  rw [numbered, List.getElem?_mapIdx, Option.map_eq_some_iff] at h
  obtain ⟨q, hq, rfl⟩ := h
  have hi : i < 2 ^ 32 := (List.getElem?_eq_some_iff.mp hq).1.trans hlength
  simp only [UInt32.zero_add, Nat.toUInt32_eq]
  exact UInt32.toNat_ofNat_of_lt' hi

/-- After any calls on a new bundle, its programs are those of the calls that have succeeded, in the
order of the calls and numbered from zero. One more call adds the programs that it has read, or it
fails and leaves the whole bundle as it is, and with it the listing, the image and its layout. -/
theorem Bundle.programs_after_additions {alignment : UInt64} {symbolPrefix : Bytes} {b : Bundle}
    (h : Bundle.create alignment symbolPrefix = .ok b) (calls : List (FileTree × Addition)) :
    let filled := Addition.performAll calls b
    filled.alignment = alignment ∧ filled.symbolPrefix = symbolPrefix ∧
    filled.programs = numbered 0 (calls.flatMap fun c => c.2.given c.1) ∧
    (filled.programs.length < 2 ^ 32 →
      ∀ (i : Nat) (p : Program), filled.programs[i]? = some p → p.index.toNat = i) ∧
    ∀ t a, Addition.Ends t a filled (a.perform t filled) := by
  obtain ⟨rfl, rfl, hempty⟩ := eq_of_create h
  intro filled
  have hprograms : filled.programs = numbered 0 (calls.flatMap fun c => c.2.given c.1) := by
    simp only [filled, Addition.performAll_eq, programs_add, nextIndex, hempty]
    rfl
  refine ⟨?_, ?_, hprograms, ?_, fun t a => Addition.ends_perform t a filled⟩
  · simp only [filled, Addition.performAll_eq, add]
  · simp only [filled, Addition.performAll_eq, add]
  · intro hlength i p hp
    rw [hprograms] at hp hlength
    rw [numbered, List.length_mapIdx] at hlength
    exact Program.toNat_index_numbered hp hlength

/-- A manifest with a bad line at its end adds nothing, also not what its first lines list, and the
program that is added next gets the next number. -/
theorem Bundle.programs_after_failed_manifest :
    let t : FileTree :=
      { workingFolder := []
        node := fun place =>
          if place = [text "m"] then some (.file (text "a\nb\nz\n"))
          else if place = [text "z"] then none
          else if place = [] then some .folder
          else some (.file [7]) }
    let first := (t, Addition.program [] (text "a"))
    let failing := Addition.manifest (text "m")
    let last := (t, Addition.program (text "c") (text "b"))
    ∃ b, Bundle.create 1 [] = .ok b ∧
      let filled := Addition.performAll [first, (t, failing), last] b
      filled.programs = [⟨0, text "a", text "a", [7]⟩, ⟨1, text "c", text "b", [7]⟩] ∧
      failing.perform t filled =
        .error (.inManifest (text "m") 3 (.noProgram (text "z") (text "z"))) filled := by
  intro t first failing last
  obtain ⟨b, hcreate⟩ : ∃ b, Bundle.create 1 [] = .ok b := ⟨_, rfl⟩
  obtain ⟨-, -, hprograms, -, hends⟩ :=
    programs_after_additions hcreate [first, (t, failing), last]
  have hread : failing.read t =
      .error (.inManifest (text "m") 3 (.noProgram (text "z") (text "z"))) := by decide +kernel
  refine ⟨b, hcreate, ?_, ?_⟩
  · rw [hprograms]
    decide +kernel
  · have hfails := hends t failing
    generalize failing.perform t _ = r at hfails ⊢
    cases hfails with
    | added ps hok => cases hread.symm.trans hok
    | refused f herror => cases hread.symm.trans herror; rfl

end EmbeddedApps
