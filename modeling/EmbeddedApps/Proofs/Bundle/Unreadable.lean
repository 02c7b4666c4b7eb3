import EmbeddedApps.Proofs.Bundle.Additions
import Mathlib

/-!
# What cannot be read

A path that does not open is a fault of the request, and is reported as one. A folder opens all the
same, and so does a device without an end. Only the attempt to read a program from it shows that
there is none, and what comes of it is a fault of the system. A manifest is read line by line, and
folders and devices have no lines.
-/

namespace EmbeddedApps

open ManifestLine (Lists)

/-- The answer to a request for a program should be all of it, or else a fault of the request. -/
def Program.Answers (t : FileTree) (path : Bytes) : Except BuildFault Program → Prop
  | .ok p => t.Yields path p.bytes
  | .error f => f.isBuildError = true

def Bundle.Answers (b : Bundle) (t : FileTree) (path : Bytes) :
    EStateM.Result BuildFault Bundle Unit → Prop
  | .ok _ b' => ∃ p, b'.programs = b.programs ++ [p] ∧ t.Yields path p.bytes
  | .error f _ => f.isBuildError = true

/-- The answer to a request for a manifest should be programs only if the manifest and all that it
lists are files. Otherwise it should be a fault of the request, with the place of the line if it is
a line that fails. -/
def Manifest.Answers (t : FileTree) (manifest : Bytes) : Except BuildFault (List Program) → Prop
  | .ok _ => ∃ content, t.content? manifest = some content ∧
    ∀ raw ∈ content.lines, ∀ name path, Lists raw name path →
      ∃ bytes, t.content? (resolved manifest path) = some bytes
  | .error f => f.isBuildError = true ∧ ∀ content, t.content? manifest = some content →
    ∀ k raw, FirstFailure t manifest content.lines k raw →
      (manifest ++ text ":" ++ decimal (k + 1) ++ text ":").beforeNul <+: f.message

variable {t : FileTree} {path manifest content raw : Bytes} {k : Nat}

private theorem Program.answers_load_iff (name : Bytes) (index : UInt32) :
    Answers t path (load t name path index) ↔ ∀ f, ¬t.Chokes path f := by
  rcases t.yields_or_missing_or_chokes path with ⟨content, h⟩ | h | ⟨f, h⟩
  · rw [load_of_yields h]
    exact iff_of_true h fun f hf => hf.not_readable ⟨content, h⟩
  · rw [load_of_missing h]
    refine iff_of_true rfl fun f hf => ?_
    have hopens := hf.isSome_open?
    rw [h] at hopens
    cases hopens
  · rw [load_of_chokes h]
    refine iff_of_false (fun hf => ?_) fun hno => hno f h
    exact Bool.false_ne_true (h.isBuildError.symm.trans hf)

private theorem Bundle.answers_program_iff (b : Bundle) (name : Bytes) :
    b.Answers t path ((Addition.program name path).perform t b) ↔ ∀ f, ¬t.Chokes path f := by
  rw [Addition.perform_eq, Addition.read,
    ← Program.answers_load_iff (if name.isEmpty then Path.stem path else name) 0]
  cases Program.load t (if name.isEmpty then Path.stem path else name) path 0 with
  | error f => rfl
  | ok p => simp [Except.map, Answers, Program.Answers, add]

namespace Manifest

/-- The first line that fails lists what opens and has no end, or is a folder. -/
def StopsUnanswered (t : FileTree) (manifest content : Bytes) : Prop :=
  ∃ k raw name path, FirstFailure t manifest content.lines k raw ∧ Lists raw name path ∧
    ∃ f, t.Chokes (resolved manifest path) f

/-- No line fails, and yet one of them lists what is no file. -/
def TakesDevice (t : FileTree) (manifest content : Bytes) : Prop :=
  (∀ raw ∈ content.lines, ¬Fails t manifest raw) ∧ ∃ raw ∈ content.lines, ∃ name path,
    Lists raw name path ∧ t.open? (resolved manifest path) = some (.device .null)

private theorem answers_of_all_good (hcontent : t.content? manifest = some content)
    (hgood : ∀ raw ∈ content.lines, ¬Fails t manifest raw) (ps : List Program) :
    Answers t manifest (.ok ps) ↔ ¬TakesDevice t manifest content := by
  constructor
  · rintro ⟨content', hcontent', hfiles⟩ ⟨-, raw, hraw, name, path, hlists, hnull⟩
    rw [hcontent, Option.some_inj] at hcontent'
    obtain ⟨bytes, hbytes⟩ := hfiles raw (hcontent' ▸ hraw) name path hlists
    cases hnull.symm.trans (FileTree.content?_eq_some_iff.mp hbytes)
  · intro hno
    refine ⟨content, hcontent, fun raw hraw name path hlists => ?_⟩
    obtain ⟨bytes, hfile | ⟨hnull, -⟩⟩ := readable_of_not_fails (hgood raw hraw) hlists
    · exact ⟨bytes, FileTree.content?_eq_some_iff.mpr hfile⟩
    · exact absurd ⟨hgood, raw, hraw, name, path, hlists, hnull⟩ hno

private theorem answers_loadLines_iff (hcontent : t.content? manifest = some content) :
    Answers t manifest (loadLines t manifest 1 0 content.lines) ↔
      ¬StopsUnanswered t manifest content ∧ ¬TakesDevice t manifest content := by
  have hends := linesEnd t manifest 1 0 content.lines
  generalize loadLines t manifest 1 0 content.lines = r at hends ⊢
  cases hends with
  | done hgood =>
    rw [answers_of_all_good hcontent hgood, iff_and_self]
    rintro - ⟨k, raw, name, path, hfirst, -⟩
    exact hgood raw hfirst.mem hfirst.fails
  | failed k i raw f hfirst hline =>
    have hdevice : ¬TakesDevice t manifest content := fun h => h.1 raw hfirst.mem hfirst.fails
    have hstops : StopsUnanswered t manifest content ↔ f.isBuildError = false := by
      rw [hline.isBuildError_eq_false_iff]
      constructor
      · rintro ⟨k', raw', name, path, hfirst', hlists, hchokes⟩
        obtain ⟨-, rfl⟩ := hfirst.unique hfirst'
        exact ⟨name, path, hlists, hchokes⟩
      · rintro ⟨name, path, hlists, hchokes⟩
        exact ⟨k, raw, name, path, hfirst, hlists, hchokes⟩
    rw [and_iff_left hdevice, hstops, Bool.not_eq_false]
    refine ⟨fun h => h.1, fun hf => ⟨hf, ?_⟩⟩
    intro content' hcontent' k' raw' hfirst'
    rw [hcontent, Option.some_inj] at hcontent'
    obtain ⟨rfl, -⟩ := hfirst.unique (hcontent' ▸ hfirst')
    rw [Nat.add_comm]
    exact hline.place_isPrefix hf

private theorem answers_load_iff :
    Answers t manifest (load t manifest) ↔ t.open? manifest = none ∨
      ∃ content, t.content? manifest = some content ∧
        ¬StopsUnanswered t manifest content ∧ ¬TakesDevice t manifest content := by
  have hfile (content : Bytes) : t.content? manifest = some content ↔
      t.open? manifest = some (.file content) := FileTree.content?_eq_some_iff
  cases hopen : t.open? manifest with
  | none => simp [load, hopen, Answers, hfile, BuildFault.isBuildError]
  | some n =>
    cases n with
    | folder => simp [load, hopen, Answers, hfile]
    | device d => simp [load, hopen, Answers, hfile]
    | file content =>
      rw [load_of_content ((hfile content).mpr hopen),
        answers_loadLines_iff ((hfile content).mpr hopen)]
      simp [hfile, hopen]

end Manifest

/-- A program is answered as it should be unless its path leads to a folder or to a device without
an end, and so is one that is added to a bundle. A manifest is if it does not open, and if it is a
file, unless the first of its lines that fails lists a folder or such a device, or no line fails and
one of them lists the null device. -/
theorem answers_iff (t : FileTree) (manifest name path : Bytes) (index : UInt32) (b : Bundle) :
    let reads := t.open? path ≠ some .folder ∧
      ∀ d, t.open? path = some (.device d) → d = .null
    (Program.Answers t path (Program.load t name path index) ↔ reads) ∧
    (b.Answers t path ((Addition.program name path).perform t b) ↔ reads) ∧
    (Manifest.Answers t manifest (Manifest.load t manifest) ↔ t.open? manifest = none ∨
      ∃ content, t.content? manifest = some content ∧
        ¬Manifest.StopsUnanswered t manifest content ∧
        ¬Manifest.TakesDevice t manifest content) := by
  intro reads
  have hreads : (∀ f, ¬t.Chokes path f) ↔ reads := t.not_chokes_iff path
  rw [← hreads]
  exact ⟨Program.answers_load_iff name index, b.answers_program_iff name,
    Manifest.answers_load_iff⟩

/-- A folder as a program ends in a fault of the system, also when a manifest lists it, and a folder
as a manifest lists nothing. -/
theorem folder_not_answered :
    let t : FileTree :=
      { workingFolder := []
        node := fun place =>
          if place = [text "m"] then some (.file (text "d\n")) else some .folder }
    Program.load t (text "x") (text "d") 0 = .error .programIsFolder ∧
      ¬Program.Answers t (text "d") (Program.load t (text "x") (text "d") 0) ∧
      Manifest.load t (text "m") = .error .programIsFolder ∧
      ¬Manifest.Answers t (text "m") (Manifest.load t (text "m")) ∧
      Manifest.load t (text "d") = .ok [] ∧
      ¬Manifest.Answers t (text "d") (Manifest.load t (text "d")) := by
  intro t
  have hprogram : Program.load t (text "x") (text "d") 0 = .error .programIsFolder := by
    decide +kernel
  have hlisted : Manifest.load t (text "m") = .error .programIsFolder := by decide +kernel
  have hmanifest : Manifest.load t (text "d") = .ok [] := by decide +kernel
  have hfolder : t.open? (text "d") = some .folder := by decide +kernel
  refine ⟨hprogram, ?_, hlisted, ?_, hmanifest, ?_⟩
  · rw [hprogram]
    exact nofun
  · rw [hlisted]
    exact fun h => Bool.noConfusion h.1
  · rw [hmanifest]
    rintro ⟨content, hcontent, -⟩
    cases hfolder.symm.trans (FileTree.content?_eq_some_iff.mp hcontent)

end EmbeddedApps
