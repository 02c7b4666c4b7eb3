import EmbeddedApps.Proofs.Bundle.Grammar
import EmbeddedApps.Proofs.FileTree
import Mathlib

/-!
# Reading what a manifest lists

What one program and one line come to, and what follows for all lines in a row: reading goes on
until the first line that fails, and each line before it adds what it would give alone.
-/

namespace EmbeddedApps

deriving instance DecidableEq for Node, Program, BuildFault

/-- What a path gives when it is read to its end. The null device gives nothing. -/
def FileTree.Yields (t : FileTree) (path content : Bytes) : Prop :=
  t.open? path = some (.file content) ∨ t.open? path = some (.device .null) ∧ content = []

/-- The path opens, but reading it ends in a fault of the system. -/
inductive FileTree.Chokes (t : FileTree) (path : Bytes) : BuildFault → Prop
  | folder : t.open? path = some .folder → Chokes t path .programIsFolder
  | endless {d : Device} : t.open? path = some (.device d) → d ≠ .null →
    Chokes t path .programIsEndless

def FileTree.Readable (t : FileTree) (path : Bytes) : Prop := ∃ content, t.Yields path content

namespace FileTree

variable {t : FileTree} {path : Bytes} {f : BuildFault}

theorem yields_or_missing_or_chokes (t : FileTree) (path : Bytes) :
    t.Readable path ∨ t.open? path = none ∨ ∃ f, t.Chokes path f := by
  cases hopen : t.open? path with
  | none => exact .inr (.inl rfl)
  | some n =>
    cases n with
    | file content => exact .inl ⟨content, .inl hopen⟩
    | folder => exact .inr (.inr ⟨_, .folder hopen⟩)
    | device d =>
      by_cases hd : d = .null
      · exact .inl ⟨[], .inr ⟨hd ▸ hopen, rfl⟩⟩
      · exact .inr (.inr ⟨_, .endless hopen hd⟩)

private theorem not_readable_of_missing (h : t.open? path = none) : ¬t.Readable path := by
  simp [Readable, Yields, h]

theorem Chokes.not_readable (h : t.Chokes path f) : ¬t.Readable path := by
  rintro ⟨content, hfile | ⟨hnull, -⟩⟩
  · cases h with
    | folder hopen => simp [hopen] at hfile
    | endless hopen => simp [hopen] at hfile
  · cases h with
    | folder hopen => simp [hopen] at hnull
    | endless hopen hd => exact hd (by simpa [hopen] using hnull)

theorem Chokes.isBuildError (h : t.Chokes path f) : f.isBuildError = false := by
  cases h with
  | folder => rfl
  | endless => rfl

theorem Chokes.isSome_open? (h : t.Chokes path f) : (t.open? path).isSome = true := by
  cases h with
  | folder hopen => rw [hopen, Option.isSome_some]
  | endless hopen => rw [hopen, Option.isSome_some]

private theorem Readable.isSome_open? (h : t.Readable path) : (t.open? path).isSome = true := by
  obtain ⟨content, hfile | ⟨hnull, -⟩⟩ := h
  · rw [hfile, Option.isSome_some]
  · rw [hnull, Option.isSome_some]

theorem not_chokes_iff (t : FileTree) (path : Bytes) : (∀ f, ¬t.Chokes path f) ↔
    t.open? path ≠ some .folder ∧ ∀ d, t.open? path = some (.device d) → d = .null := by
  constructor
  · intro h
    exact ⟨fun hopen => h _ (.folder hopen), fun d hopen =>
      Decidable.not_not.mp fun hd => h _ (.endless hopen hd)⟩
  · rintro ⟨hfolder, hdevice⟩ f (hopen | ⟨hopen, hd⟩)
    · exact hfolder hopen
    · exact hd (hdevice _ hopen)

end FileTree

namespace Program

variable {t : FileTree} {path : Bytes}

theorem load_of_yields {content : Bytes} (h : t.Yields path content) (name : Bytes)
    (index : UInt32) : load t name path index = .ok ⟨index, name, path, content⟩ := by
  rcases h with hfile | ⟨hnull, rfl⟩
  · simp only [load, hfile]
  · simp only [load, hnull]

theorem load_of_missing (h : t.open? path = none) (name : Bytes) (index : UInt32) :
    load t name path index = .error (.noProgram name path) := by
  simp only [load, h]

theorem load_of_chokes {f : BuildFault} (h : t.Chokes path f) (name : Bytes) (index : UInt32) :
    load t name path index = .error f := by
  cases h with
  | folder hopen => simp only [load, hopen]
  | @endless d hopen hd =>
    cases d with
    | null => exact absurd rfl hd
    | _ => simp only [load, hopen]

theorem exists_load_iff (name : Bytes) (index : UInt32) :
    (∃ p, load t name path index = .ok p) ↔ t.Readable path := by
  constructor
  · rintro ⟨p, hload⟩
    rcases t.yields_or_missing_or_chokes path with h | h | ⟨f, h⟩
    · exact h
    · simp [load_of_missing h] at hload
    · simp [load_of_chokes h] at hload
  · rintro ⟨content, h⟩
    exact ⟨_, load_of_yields h name index⟩

def numbered (first : UInt32) (ps : List Program) : List Program :=
  ps.mapIdx fun i p => { p with index := first + i.toUInt32 }

private theorem numbered_append (first : UInt32) (ps qs : List Program) :
    numbered first (ps ++ qs) =
      numbered first ps ++ numbered (first + ps.length.toUInt32) qs := by
  have hnext (i : Nat) : first + (i + ps.length).toUInt32 =
      first + ps.length.toUInt32 + i.toUInt32 := by
    rw [Nat.add_comm i, Nat.toUInt32_eq, UInt32.ofNat_add, UInt32.add_assoc]
  simp only [numbered, List.mapIdx_append, hnext]

end Program

namespace Manifest

open ManifestLine (isSignificant Lists parse_of_lists parse_of_not_significant parse_of_not_lists)
open Program (numbered numbered_append)

def resolved (manifest path : Bytes) : Bytes := Path.join (Path.parent manifest) path

def title (manifest : Bytes) (name : Option Bytes) (path : Bytes) : Bytes :=
  name.getD (Path.stem (resolved manifest path))

/-- What a single line can come to. -/
inductive LineEnds (t : FileTree) (manifest : Bytes) (number : Nat) (index : UInt32)
    (raw : Bytes) : Except BuildFault (List Program) → Prop
  | skipped : isSignificant raw = false → LineEnds t manifest number index raw (.ok [])
  | loaded (name : Option Bytes) (path content : Bytes) : Lists raw name path →
    t.Yields (resolved manifest path) content →
    LineEnds t manifest number index raw
      (.ok [⟨index, title manifest name path, resolved manifest path, content⟩])
  | malformed : isSignificant raw = true → (∀ name path, ¬Lists raw name path) →
    LineEnds t manifest number index raw (.error (.badLine manifest number raw.trim))
  | missing (name : Option Bytes) (path : Bytes) : Lists raw name path →
    t.open? (resolved manifest path) = none →
    LineEnds t manifest number index raw (.error (.inManifest manifest number
      (.noProgram (title manifest name path) (resolved manifest path))))
  | choked (name : Option Bytes) (path : Bytes) (f : BuildFault) : Lists raw name path →
    t.Chokes (resolved manifest path) f → LineEnds t manifest number index raw (.error f)

variable {t : FileTree} {manifest raw path content : Bytes} {name : Option Bytes}
  {number k : Nat} {index : UInt32} {ls : List Bytes} {ps : List Program} {f : BuildFault}

private theorem loadLines_skipped (h : isSignificant raw = false) (number : Nat) (index : UInt32) :
    loadLines t manifest number index [raw] = .ok [] := by
  simp only [loadLines, parse_of_not_significant h]

private theorem loadLines_of_lists (h : Lists raw name path) (number : Nat) (index : UInt32) :
    loadLines t manifest number index [raw] =
      match Program.load t (title manifest name path) (resolved manifest path) index with
      | .error f => .error (located manifest number f)
      | .ok p => .ok [p] := by
  simp only [loadLines, parse_of_lists h]
  rfl

private theorem loadLines_loaded (hlists : Lists raw name path)
    (hyields : t.Yields (resolved manifest path) content) (number : Nat) (index : UInt32) :
    loadLines t manifest number index [raw] =
      .ok [⟨index, title manifest name path, resolved manifest path, content⟩] := by
  rw [loadLines_of_lists hlists, Program.load_of_yields hyields]

private theorem lineEnds (t : FileTree) (manifest : Bytes) (number : Nat) (index : UInt32)
    (raw : Bytes) :
    LineEnds t manifest number index raw (loadLines t manifest number index [raw]) := by
  cases hsignificant : isSignificant raw with
  | false =>
    rw [loadLines_skipped hsignificant]
    exact .skipped hsignificant
  | true =>
    by_cases hlists : ∃ name path, Lists raw name path
    · obtain ⟨name, path, hlists⟩ := hlists
      rcases t.yields_or_missing_or_chokes (resolved manifest path) with ⟨content, h⟩ | h | ⟨f, h⟩
      · rw [loadLines_loaded hlists h]
        exact .loaded name path content hlists h
      · rw [loadLines_of_lists hlists, Program.load_of_missing h]
        exact .missing name path hlists h
      · rw [loadLines_of_lists hlists, Program.load_of_chokes h]
        simp only [located, h.isBuildError, Bool.false_eq_true, if_false]
        exact .choked name path f hlists h
    · have hno : ∀ name path, ¬Lists raw name path := fun name path h => hlists ⟨name, path, h⟩
      simp only [loadLines, parse_of_not_lists hsignificant hno]
      exact .malformed hsignificant hno

/-- The lines of a list are read one by one. The number of a line counts all lines before it, the
number of a program only those that gave one. -/
private theorem loadLines_cons (t : FileTree) (manifest : Bytes) (number : Nat) (index : UInt32)
    (raw : Bytes) (ls : List Bytes) :
    loadLines t manifest number index (raw :: ls) =
      match loadLines t manifest number index [raw] with
      | .error f => .error f
      | .ok ps =>
        match loadLines t manifest (number + 1) (index + ps.length.toUInt32) ls with
        | .error f => .error f
        | .ok qs => .ok (ps ++ qs) := by
  rw [loadLines, loadLines]
  cases ManifestLine.parse raw with
  | ignored =>
    simp only [loadLines]
    cases hrest : loadLines t manifest (number + 1) (index + [].length.toUInt32) ls with
    | error f => simpa using hrest
    | ok qs => simpa using hrest
  | malformed line => rfl
  | entry name path =>
    dsimp only
    cases loadEntry t manifest name path index with
    | error f => rfl
    | ok p => rfl

/-- A line fails if it counts and lists nothing that can be read. -/
def Fails (t : FileTree) (manifest raw : Bytes) : Prop :=
  isSignificant raw = true ∧
    ∀ name path, Lists raw name path → ¬t.Readable (resolved manifest path)

theorem not_fails_iff : ¬Fails t manifest raw ↔ (isSignificant raw = true →
    ∃ name path, Lists raw name path ∧ t.Readable (resolved manifest path)) := by
  simp only [Fails, not_and, not_forall, not_not, exists_prop]

theorem readable_of_not_fails (h : ¬Fails t manifest raw) (hlists : Lists raw name path) :
    t.Readable (resolved manifest path) := by
  obtain ⟨name', path', hlists', hreadable⟩ := not_fails_iff.mp h hlists.1
  rwa [(hlists.unique hlists').2]

/-- The line at this place fails, and no line before it does. -/
structure FirstFailure (t : FileTree) (manifest : Bytes) (ls : List Bytes) (k : Nat)
    (raw : Bytes) : Prop where
  line : ls[k]? = some raw
  fails : Fails t manifest raw
  before : ∀ l ∈ ls.take k, ¬Fails t manifest l

namespace FirstFailure

variable {k' : Nat} {raw' : Bytes}

theorem mem (h : FirstFailure t manifest ls k raw) : raw ∈ ls := List.mem_of_getElem? h.line

private theorem not_lt (h : FirstFailure t manifest ls k raw)
    (h' : FirstFailure t manifest ls k' raw') :
    ¬k < k' := by
  intro hlt
  have hmem : raw ∈ ls.take k' :=
    List.mem_of_getElem? (by rw [List.getElem?_take_of_lt hlt, h.line])
  exact h'.before raw hmem h.fails

theorem unique (h : FirstFailure t manifest ls k raw)
    (h' : FirstFailure t manifest ls k' raw') : k = k' ∧ raw = raw' := by
  obtain rfl : k = k' := Nat.le_antisymm (Nat.not_lt.mp (h'.not_lt h)) (Nat.not_lt.mp (h.not_lt h'))
  exact ⟨rfl, Option.some.inj (h.line.symm.trans h'.line)⟩

end FirstFailure

/-- The programs that a line would give on its own. -/
def alone (t : FileTree) (manifest raw : Bytes) : List Program :=
  (loadLines t manifest 1 0 [raw]).toOption.getD []

theorem alone_skipped (h : isSignificant raw = false) : alone t manifest raw = [] := by
  rw [alone, loadLines_skipped h]
  rfl

theorem alone_loaded (hlists : Lists raw name path)
    (hyields : t.Yields (resolved manifest path) content) :
    alone t manifest raw = [⟨0, title manifest name path, resolved manifest path, content⟩] := by
  rw [alone, loadLines_loaded hlists hyields]
  rfl

namespace LineEnds

variable {r : Except BuildFault (List Program)}

private theorem fails_iff (h : LineEnds t manifest number index raw r) :
    Fails t manifest raw ↔ ∃ f, r = .error f := by
  cases h with
  | skipped hno => simp [Fails, hno]
  | loaded name path content hlists hyields =>
    refine iff_of_false (fun hfails => ?_) (by simp)
    exact hfails.2 name path hlists ⟨content, hyields⟩
  | malformed hsignificant hno =>
    exact iff_of_true ⟨hsignificant, fun name path h => absurd h (hno name path)⟩ ⟨_, rfl⟩
  | missing name path hlists hopen =>
    refine iff_of_true ⟨hlists.1, fun name' path' h => ?_⟩ ⟨_, rfl⟩
    obtain ⟨-, rfl⟩ := h.unique hlists
    exact FileTree.not_readable_of_missing hopen
  | choked name path f hlists hchokes =>
    refine iff_of_true ⟨hlists.1, fun name' path' h => ?_⟩ ⟨_, rfl⟩
    obtain ⟨-, rfl⟩ := h.unique hlists
    exact hchokes.not_readable

private theorem numbered_alone (h : LineEnds t manifest number index raw (.ok ps)) :
    numbered index (alone t manifest raw) = ps := by
  cases h with
  | skipped hno => simp [alone_skipped hno, numbered]
  | loaded name path content hlists hyields => simp [alone_loaded hlists hyields, numbered]

theorem isBuildError_eq_false_iff (h : LineEnds t manifest number index raw (.error f)) :
    f.isBuildError = false ↔
      ∃ name path, Lists raw name path ∧ ∃ g, t.Chokes (resolved manifest path) g := by
  cases h with
  | malformed _ hno =>
    refine iff_of_false nofun ?_
    rintro ⟨name, path, hlists, -⟩
    exact hno name path hlists
  | missing name path hlists hopen =>
    refine iff_of_false nofun ?_
    rintro ⟨name', path', hlists', g, hchokes⟩
    obtain ⟨-, rfl⟩ := hlists.unique hlists'
    have hsome := hchokes.isSome_open?
    rw [hopen] at hsome
    cases hsome
  | choked name path f hlists hchokes =>
    exact iff_of_true hchokes.isBuildError ⟨name, path, hlists, f, hchokes⟩

/-- A message tells the place of its line first, as far as the place has no zero byte in it. -/
theorem place_isPrefix (h : LineEnds t manifest number index raw (.error f))
    (hf : f.isBuildError = true) :
    (manifest ++ text ":" ++ decimal number ++ text ":").beforeNul <+: f.message := by
  have hplace : BuildFault.linePlace manifest number =
      manifest ++ text ":" ++ decimal number ++ text ":" ++ text " " := by
    rw [BuildFault.linePlace, List.append_assoc _ (text ":") (text " ")]
    rfl
  cases h with
  | malformed =>
    rw [BuildFault.message, hplace, List.append_assoc _ _ raw.trim, List.append_assoc _ (text " ")]
    exact Bytes.beforeNul_isPrefix _ _
  | missing =>
    rw [BuildFault.message, hplace, List.append_assoc _ (text " ")]
    exact Bytes.beforeNul_isPrefix _ _
  | choked name path f hlists hchokes =>
    rw [hchokes.isBuildError] at hf
    cases hf

end LineEnds

/-- What all lines come to: either none fails and their programs are numbered through, or the first
one that fails ends it. -/
inductive LinesEnd (t : FileTree) (manifest : Bytes) (number : Nat) (index : UInt32)
    (ls : List Bytes) : Except BuildFault (List Program) → Prop
  | done : (∀ raw ∈ ls, ¬Fails t manifest raw) →
    LinesEnd t manifest number index ls (.ok (numbered index (ls.flatMap (alone t manifest))))
  | failed (k : Nat) (i : UInt32) (raw : Bytes) (f : BuildFault) :
    FirstFailure t manifest ls k raw → LineEnds t manifest (number + k) i raw (.error f) →
    LinesEnd t manifest number index ls (.error f)

theorem linesEnd (t : FileTree) (manifest : Bytes) (number : Nat) (index : UInt32)
    (ls : List Bytes) :
    LinesEnd t manifest number index ls (loadLines t manifest number index ls) := by
  -- A good line at the front shifts everything: the others have the next line numbers, their
  -- programs the next program numbers, and the first one that fails is one place further on.
  induction ls generalizing number index with
  | nil => exact .done (by simp)
  | cons raw ls ih =>
    rw [loadLines_cons]
    have hline := lineEnds t manifest number index raw
    cases hresult : loadLines t manifest number index [raw] with
    | error f =>
      rw [hresult] at hline
      exact .failed 0 index raw f ⟨rfl, hline.fails_iff.mpr ⟨f, rfl⟩, by simp⟩ hline
    | ok ps =>
      rw [hresult] at hline
      have hgood : ¬Fails t manifest raw := by simp [hline.fails_iff]
      have hps := hline.numbered_alone
      dsimp only
      have hrest := ih (number + 1) (index + ps.length.toUInt32)
      cases hqs : loadLines t manifest (number + 1) (index + ps.length.toUInt32) ls with
      | error f =>
        rw [hqs] at hrest
        cases hrest with
        | failed k i raw' f hfirst hends =>
          refine .failed (k + 1) i raw' f ⟨hfirst.line, hfirst.fails, ?_⟩ ?_
          · rw [List.take_succ_cons, List.forall_mem_cons]
            exact ⟨hgood, hfirst.before⟩
          · rwa [Nat.add_right_comm, Nat.add_assoc] at hends
      | ok qs =>
        rw [hqs] at hrest
        cases hrest with
        | done hothers =>
          have hlength : (alone t manifest raw).length = ps.length := by
            rw [← hps, numbered, List.length_mapIdx]
          have hall := numbered_append index (alone t manifest raw) (ls.flatMap (alone t manifest))
          rw [hps, hlength, ← List.flatMap_cons] at hall
          dsimp only
          rw [← hall]
          exact .done (List.forall_mem_cons.mpr ⟨hgood, hothers⟩)

theorem load_of_content (h : t.content? manifest = some content) :
    load t manifest = loadLines t manifest 1 0 content.lines := by
  rw [load, FileTree.content?_eq_some_iff.mp h]

end Manifest

end EmbeddedApps
