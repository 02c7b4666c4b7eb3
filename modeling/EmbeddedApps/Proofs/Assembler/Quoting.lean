import EmbeddedApps.Proofs.Assembler.Lines
import Mathlib

/-!
# Paths in quotes

A quoted path stands for itself whatever bytes it is made of. Its literal ends with its last quote
and no sooner, so what follows is read as if the path were not there, and the lines of a listing do
not depend on where the programs come from but for the paths that they name.
-/

namespace EmbeddedApps

namespace Directive

def included? : Directive → Option Bytes
  | includeFile p => some p
  | _ => none

/-- What is left of a line without the path in it. -/
def withoutPath : Directive → Directive
  | includeFile _ => includeFile []
  | d => d

end Directive

/-- The bundle with its programs taken from other paths. -/
def Bundle.relocated (b : Bundle) (paths : Nat → Bytes) : Bundle :=
  { b with programs := b.programs.mapIdx fun i p => { p with path := paths i } }

namespace Assembler

private theorem literal_append {mode : Mode} {s p rest : Bytes}
    (h : literal mode s = some (p, rest))
    (more : Bytes) : literal mode (s ++ more) = some (p, rest ++ more) := by
  induction s generalizing mode p with
  | nil => cases h
  | cons c s ih =>
    rw [literal] at h
    rw [List.cons_append, literal]
    split at h
    · cases h
      rfl
    · exact ih h
    · obtain ⟨⟨q, rest'⟩, hs, heq⟩ := Option.map_eq_some_iff.mp h
      cases heq
      rw [ih hs]
      rfl

private theorem literal_quoted (p rest : Bytes) :
    literal .quoted ((Directive.quoted p).tail ++ rest) = some (p, rest) := by
  rw [quoted_eq, List.tail_cons, List.append_assoc, List.singleton_append]
  exact literal_escape p rest

/-- A literal cut short does not come to its end. -/
theorem isSome_literal_take_iff (p : Bytes) (k : Nat) :
    (literal .quoted ((Directive.quoted p).tail.take k)).isSome = true ↔
      (Directive.quoted p).tail.length ≤ k := by
  have hwhole := literal_quoted p []
  rw [List.append_nil] at hwhole
  constructor
  · intro h
    obtain ⟨⟨q, rest⟩, hcut⟩ := Option.isSome_iff_exists.mp h
    -- Had it come to its end, then what was cut off would be left over from the whole literal.
    have hmore := literal_append hcut ((Directive.quoted p).tail.drop k)
    rw [List.take_append_drop, hwhole] at hmore
    have hleft : [] = rest ++ (Directive.quoted p).tail.drop k :=
      congrArg Prod.snd (Option.some.inj hmore)
    rw [← List.drop_eq_nil_iff]
    exact (List.append_eq_nil_iff.mp hleft.symm).2
  · intro h
    rw [List.take_of_length_le h, hwhole]
    rfl

private theorem quoted_append_inj {p q rest rest' : Bytes} :
    Directive.quoted p ++ rest = Directive.quoted q ++ rest' ↔ p = q ∧ rest = rest' := by
  constructor
  · intro h
    have htail : (Directive.quoted p).tail ++ rest = (Directive.quoted q).tail ++ rest' :=
      congrArg List.tail h
    have hread := literal_quoted p rest
    rw [htail, literal_quoted] at hread
    cases hread
    exact ⟨rfl, rfl⟩
  · rintro ⟨rfl, rfl⟩
    rfl

end Assembler

namespace Bundle

variable {b : Bundle}

private theorem filterMap_included?_programLines (b : Bundle) (i : Nat) (path : Bytes) :
    (b.programLines i path).filterMap Directive.included? = [path] := by
  rw [programLines]
  split <;> rfl

private theorem map_withoutPath_programLines (b : Bundle) (i : Nat) (path : Bytes) :
    (b.programLines i path).map Directive.withoutPath = b.programLines i [] := by
  rw [programLines, programLines]
  split <;> rfl

private theorem filterMap_included?_directives (b : Bundle) (t : FileTree) :
    (b.directives t).filterMap Directive.included? = b.programs.map (t.fromRoot ·.path) := by
  have htable : b.tableLines.filterMap Directive.included? = [] := by
    simp [tableLines, List.filterMap_cons, Directive.included?]
  have hclosing : b.closingLines.filterMap Directive.included? = [] := rfl
  have hprograms : (b.programs.mapIdx fun i p => b.programLines i (t.fromRoot p.path)).map
      (List.filterMap Directive.included?) = b.programs.map fun p => [t.fromRoot p.path] := by
    apply List.ext_getElem
    · simp
    · intro i hi hi'
      simp [filterMap_included?_programLines]
  rw [directives, List.filterMap_append, List.filterMap_append, htable, hclosing,
    List.filterMap_flatten, hprograms, ← List.flatMap_def, ← List.map_eq_flatMap, List.nil_append,
    List.append_nil]

/-- Without the paths a listing depends on the number of programs only. -/
theorem map_withoutPath_directives (b : Bundle) (t : FileTree) :
    (b.directives t).map Directive.withoutPath =
      b.tableLines ++ (b.programs.mapIdx fun i _ => b.programLines i []).flatten ++
        b.closingLines := by
  have htable : b.tableLines.map Directive.withoutPath = b.tableLines := by
    simp [tableLines, Directive.withoutPath]
  have hclosing : b.closingLines.map Directive.withoutPath = b.closingLines := rfl
  have hprograms : (b.programs.mapIdx fun i p => b.programLines i (t.fromRoot p.path)).map
      (List.map Directive.withoutPath) = b.programs.mapIdx fun i _ => b.programLines i [] := by
    apply List.ext_getElem
    · simp
    · intro i hi hi'
      simp [map_withoutPath_programLines]
  rw [directives, List.map_append, List.map_append, htable, hclosing, List.map_flatten, hprograms]

private theorem tableLines_relocated (b : Bundle) (paths : Nat → Bytes) :
    (b.relocated paths).tableLines = b.tableLines := by
  have hlength : (b.relocated paths).programs.length = b.programs.length := List.length_mapIdx
  have hlast : (b.relocated paths).lastSymbol = b.lastSymbol := by
    rw [lastSymbol, lastSymbol, hlength]
    rfl
  rw [tableLines, tableLines, hlength, hlast]
  rfl

private theorem map_withoutPath_relocated (b : Bundle) (paths : Nat → Bytes) (t u : FileTree) :
    ((b.relocated paths).directives u).map Directive.withoutPath =
      (b.directives t).map Directive.withoutPath := by
  have hprograms : ((b.relocated paths).programs.mapIdx fun i _ =>
      (b.relocated paths).programLines i []) = b.programs.mapIdx fun i _ => b.programLines i [] :=
    List.mapIdx_mapIdx
  have hclosing : (b.relocated paths).closingLines = b.closingLines := rfl
  rw [map_withoutPath_directives, map_withoutPath_directives, tableLines_relocated, hprograms,
    hclosing]

end Bundle

/-- A path in quotes is read back as it is, and what follows is left as it is. Cut short anywhere,
its literal does not come to an end. Paths that differ still differ in quotes, even where something
follows them. So a listing includes every path as it is, and with all programs taken from other
paths it stays the same but for what it includes. -/
theorem quoted_paths_read_back :
    (∀ p rest, ∃ body, Directive.quoted p ++ rest = Bytes.quote :: body ∧
      Assembler.literal .quoted body = some (p, rest)) ∧
    (∀ p k, (Assembler.literal .quoted ((Directive.quoted p).tail.take k)).isSome = true ↔
      (Directive.quoted p).tail.length ≤ k) ∧
    (∀ p q rest rest', Directive.quoted p ++ rest = Directive.quoted q ++ rest' ↔
      p = q ∧ rest = rest') ∧
    ∀ (b : Bundle) (t : FileTree), ∃ ds, Assembler.read? (b.listing t) = some ds ∧
      ds.filterMap Directive.included? = b.programs.map (t.fromRoot ·.path) ∧
      ∀ paths u, ∃ es, Assembler.read? ((b.relocated paths).listing u) = some es ∧
        es.map Directive.withoutPath = ds.map Directive.withoutPath := by
  refine ⟨?_, ?_, ?_, ?_⟩
  · intro p rest
    exact ⟨(Directive.quoted p).tail ++ rest, rfl, Assembler.literal_quoted p rest⟩
  · exact Assembler.isSome_literal_take_iff
  · intro p q rest rest'
    exact Assembler.quoted_append_inj
  · intro b t
    refine ⟨b.directives t, b.read?_listing t, b.filterMap_included?_directives t, ?_⟩
    intro paths u
    exact ⟨_, (b.relocated paths).read?_listing u, b.map_withoutPath_relocated paths t u⟩

/-- A path that tries to end its literal and to add a line, and has a backslash at its end. -/
example :
    let p := text "a\"\n.byte 1\\"
    Directive.quoted p = text "\"a\\\"\n.byte 1\\\\\"" ∧
      Assembler.literal .quoted ((Directive.quoted p ++ text "\n.byte 2").tail) =
        some (p, text "\n.byte 2") := by decide

end EmbeddedApps
