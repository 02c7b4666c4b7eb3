import EmbeddedApps.Bundle.Manifest
import EmbeddedApps.Proofs.Text.Lines
import Mathlib

/-!
# What a line of a manifest says

The form of a line, as it is written down: which lines count, where a name ends, and how a path is
spelled. Reading a line finds exactly the name and the path that the line lists.
-/

namespace EmbeddedApps.ManifestLine

/-- A line counts if some byte on it is not blank and the first such byte is no hash sign. -/
def isSignificant (raw : Bytes) : Bool := (raw.find? (!Bytes.isBlank ·)).any (· != Bytes.hash)

/-- A trimmed line as a name, if it has one, and a field for the path. -/
inductive Divides : Bytes → Option Bytes → Bytes → Prop
  | whole {line : Bytes} : (∀ c ∈ line, endsName c = false) ∨ line.head? = some Bytes.quote →
    Divides line none line
  | named {name rest : Bytes} {c : UInt8} : name.head? ≠ some Bytes.quote →
    (∀ c ∈ name, endsName c = false) → endsName c = true →
    Divides (name ++ c :: rest) (some name) rest.trim

/-- A field spells a path as it is, or between quotes if there is no quote in it. -/
inductive Spells : Bytes → Bytes → Prop
  | plain {path : Bytes} : path ≠ [] → path.head? ≠ some Bytes.quote → Spells path path
  | quoted {path : Bytes} : path ≠ [] → Bytes.quote ∉ path →
    Spells (Bytes.quote :: path ++ [Bytes.quote]) path

/-- The line counts, and this is what it names. -/
def Lists (raw : Bytes) (name : Option Bytes) (path : Bytes) : Prop :=
  isSignificant raw = true ∧ ∃ field, Divides raw.trim name field ∧ Spells field path

variable {raw line field path : Bytes} {name : Option Bytes}

private theorem isBlank_of_endsName {c : UInt8} (h : endsName c = true) :
    Bytes.isBlank c = true := by
  rw [endsName, Bool.or_eq_true] at h
  rcases h with h | h
  · simp [Bytes.isBlank, h]
  · simp [Bytes.isBlank, h]

private theorem splitName_of_divides (h : Divides line name field) :
    splitName line = (name, field) := by
  cases h with
  | whole hwhole =>
    rcases hwhole with hsolid | hquote
    · have htaken : line.takeWhile (!endsName ·) = line :=
        List.takeWhile_eq_self_iff.mpr fun c hc => by simp [hsolid c hc]
      simp [splitName, htaken]
    · simp [splitName, hquote]
  | @named name rest c hquote hsolid hc =>
    have htaken : (name ++ c :: rest).takeWhile (!endsName ·) = name := by
      rw [List.takeWhile_append_of_pos fun d hd => by simp [hsolid d hd],
        List.takeWhile_cons_of_neg (by simp [hc]), List.append_nil]
    have hhead : (name ++ c :: rest).head? ≠ some Bytes.quote := by
      cases name with
      | cons d name => exact hquote
      | nil =>
        intro hhead
        rw [List.nil_append, List.head?_cons, Option.some_inj] at hhead
        rw [hhead] at hc
        exact absurd hc (by decide)
    have hlength : (name.length == (name ++ c :: rest).length) = false := by simp
    have htrim := Bytes.trim_cons_of_blank (isBlank_of_endsName hc) rest
    simp only [splitName, htaken, hlength, Bool.or_false, beq_iff_eq, if_neg hhead,
      List.drop_left, htrim]

private theorem exists_divides (line : Bytes) : ∃ name field, Divides line name field := by
  by_cases hwhole : (∀ c ∈ line, endsName c = false) ∨ line.head? = some Bytes.quote
  · exact ⟨none, line, .whole hwhole⟩
  · -- What is left of the line behind the name starts with a byte that ends it.
    obtain ⟨hends, hquote⟩ := not_or.mp hwhole
    have hsplit := List.takeWhile_append_dropWhile (p := (!endsName ·)) (l := line)
    have hname : ∀ c ∈ line.takeWhile (!endsName ·), endsName c = false := by
      intro c hc
      simpa using List.mem_takeWhile_imp hc
    cases hrest : line.dropWhile (!endsName ·) with
    | nil =>
      rw [hrest, List.append_nil] at hsplit
      rw [hsplit] at hname
      exact absurd hname hends
    | cons c rest =>
      have hc : endsName c = true := by
        have hnot := List.head?_dropWhile_not (!endsName ·) line
        simpa [hrest] using hnot
      rw [hrest] at hsplit
      refine ⟨some (line.takeWhile (!endsName ·)), Bytes.trim rest, ?_⟩
      have hhead : (line.takeWhile (!endsName ·)).head? ≠ some Bytes.quote := by
        intro hhead
        rw [← hsplit, List.head?_append, hhead] at hquote
        exact hquote rfl
      have hnamed : Divides (line.takeWhile (!endsName ·) ++ c :: rest) _ (Bytes.trim rest) :=
        .named hhead hname hc
      rwa [hsplit] at hnamed

private theorem spells_iff : Spells field path ↔ unquote? field = some path ∧ path ≠ [] := by
  constructor
  · intro h
    cases h with
    | plain hpath hquote =>
      refine ⟨?_, hpath⟩
      cases field with
      | nil => exact absurd rfl hpath
      | cons c rest =>
        have hc : c ≠ Bytes.quote := fun hc => hquote (by rw [hc]; rfl)
        simp [unquote?, hc]
    | quoted hpath hquote =>
      refine ⟨?_, hpath⟩
      simp [unquote?, hquote]
  · rintro ⟨h, hpath⟩
    rw [unquote?.eq_def] at h
    split at h
    · cases h
      exact absurd rfl hpath
    · rename_i c rest
      split at h
      · rename_i hc
        cases h
        exact .plain hpath (by simpa using hc)
      · rename_i hc
        split at h
        · rename_i hrest
          cases h
          simp only [bne_iff_ne, ne_eq, not_not] at hc
          simp only [Bool.and_eq_true, beq_iff_eq, Bool.not_eq_true', List.contains_eq_mem,
            decide_eq_false_iff_not] at hrest
          have hquoted := Spells.quoted hpath hrest.2
          rwa [List.cons_append, List.dropLast_append_getLast? _ hrest.1, ← hc] at hquoted
        · cases h

private theorem isSignificant_eq (raw : Bytes) :
    isSignificant raw = !(raw.trim.isEmpty || raw.trim.head? == some Bytes.hash) := by
  rw [isSignificant, ← Bytes.head?_trim]
  cases raw.trim with
  | nil => rfl
  | cons c rest => rfl

theorem parse_of_not_significant (h : isSignificant raw = false) : parse raw = .ignored := by
  rw [isSignificant_eq, Bool.not_eq_false'] at h
  simp only [parse, h, if_true]

theorem parse_of_lists (h : Lists raw name path) : parse raw = .entry name path := by
  obtain ⟨hsignificant, field, hdivides, hspells⟩ := h
  rw [isSignificant_eq, Bool.not_eq_true'] at hsignificant
  obtain ⟨hunquote, hpath⟩ := spells_iff.mp hspells
  obtain ⟨c, cs, rfl⟩ := List.exists_cons_of_ne_nil hpath
  simp only [parse, hsignificant, splitName_of_divides hdivides, hunquote]
  rfl

variable {name' : Option Bytes} {path' : Bytes}

theorem Lists.eq_of_parse (h : Lists raw name path) (hparse : parse raw = .entry name' path') :
    name = name' ∧ path = path' :=
  entry.inj ((parse_of_lists h).symm.trans hparse)

theorem Lists.unique (h : Lists raw name path) (h' : Lists raw name' path') :
    name = name' ∧ path = path' := h.eq_of_parse (parse_of_lists h')

theorem parse_of_not_lists (hsignificant : isSignificant raw = true)
    (h : ∀ name path, ¬Lists raw name path) : parse raw = .malformed raw.trim := by
  have hfirst := hsignificant
  rw [isSignificant_eq, Bool.not_eq_true'] at hfirst
  obtain ⟨name, field, hdivides⟩ := exists_divides raw.trim
  simp only [parse, hfirst, splitName_of_divides hdivides, Bool.false_eq_true, if_false]
  split
  · rfl
  · rfl
  · rename_i path hpath hunquote
    exact absurd ⟨hsignificant, field, hdivides, spells_iff.mpr ⟨hunquote, hpath⟩⟩ (h name path)

end EmbeddedApps.ManifestLine
