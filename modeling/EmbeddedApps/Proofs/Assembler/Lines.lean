import EmbeddedApps.Proofs.Assembler.Assembly
import EmbeddedApps.Proofs.Assembler.Reading
import EmbeddedApps.Proofs.Bundle.Symbols
import Mathlib

/-!
# The lines of a bundle

Every line of a listing can be read back from its text, and every symbol that is used in one is
defined in exactly one.
-/

namespace EmbeddedApps

namespace Bundle

variable {b : Bundle} {t : FileTree} {d : Directive} {x : Bytes}

theorem mem_symbols_iff : x ∈ b.symbols ↔ x = b.tableSymbol ∨
    (∃ i < b.programs.length, x = b.startSymbol i ∨ x = b.endSymbol i) ∨ x = b.blobsEndSymbol := by
  simp [symbols]

private theorem lastSymbol_mem_symbols (b : Bundle) : b.lastSymbol ∈ b.symbols := by
  rw [mem_symbols_iff, lastSymbol]
  split
  · exact .inr (.inr rfl)
  · rename_i n hn
    exact .inr (.inl ⟨n, by omega, .inr rfl⟩)

private theorem all_lead (b : Bundle) : b.lead.all isSymbolByte = true := by
  rw [lead]
  split
  · rfl
  · rw [List.all_append, b.all_isSymbolByte]
    rfl

private theorem isSymbol_symbol {name : Bytes} (hall : name.all isSymbolByte = true)
    (hunder : 95 ∈ name) : Assembler.IsSymbol (b.symbol name) ∧ 95 ∈ b.symbol name := by
  rw [symbol_eq]
  refine ⟨⟨?_, ?_⟩, List.mem_append_right _ hunder⟩
  · intro h
    rw [(List.append_eq_nil_iff.mp h).2] at hunder
    cases hunder
  · rw [List.all_append, all_lead, hall, Bool.and_self]

private theorem isSymbol_edgeSymbol (b : Bundle) (i : Nat) {edge : Bytes}
    (hedge : edge.all isSymbolByte = true) :
    Assembler.IsSymbol (b.edgeSymbol i edge) ∧ 95 ∈ b.edgeSymbol i edge := by
  apply isSymbol_symbol
  · have hdecimal : (decimal i).all isSymbolByte = true := by
      rw [List.all_eq_true]
      intro c hc
      obtain ⟨hlow, hhigh⟩ := mem_decimal hc
      simp [isSymbolByte, hlow, hhigh]
    rw [List.all_append, List.all_append, List.all_append, hdecimal, hedge]
    rfl
  · have hname : text "app_" = text "app" ++ [95] := rfl
    simp [hname]

theorem isSymbol_of_mem_symbols (h : x ∈ b.symbols) :
    Assembler.IsSymbol x ∧ Numeral.value? 10 x = none := by
  -- A prefix may start with a digit. It is the underscore that no numeral has.
  suffices hx : Assembler.IsSymbol x ∧ 95 ∈ x from ⟨hx.1, Numeral.value?_eq_none hx.2⟩
  rcases mem_symbols_iff.mp h with rfl | ⟨i, -, rfl | rfl⟩ | rfl
  · have hname : text "_num_app" = 95 :: text "num_app" := rfl
    refine ⟨⟨?_, ?_⟩, ?_⟩
    · simp [tableSymbol, hname]
    · rw [tableSymbol, List.all_append, b.all_isSymbolByte]
      rfl
    · simp [tableSymbol, hname]
  · exact isSymbol_edgeSymbol b i rfl
  · exact isSymbol_edgeSymbol b i rfl
  · exact isSymbol_symbol rfl (by decide)

private theorem mem_directives (h : d ∈ b.directives t) :
    d ∈ b.tableLines ∨ (∃ i < b.programs.length, ∃ path, d ∈ b.programLines i path) ∨
      d ∈ b.closingLines := by
  rw [directives, List.mem_append, List.mem_append] at h
  rcases h with (h | h) | h
  · exact .inl h
  · obtain ⟨ds, hds, hd⟩ := List.mem_flatten.mp h
    obtain ⟨i, hi, rfl⟩ := List.mem_mapIdx.mp hds
    exact .inr (.inl ⟨i, hi, _, hd⟩)
  · exact .inr (.inr h)

private theorem filterMap_defined?_programLines (b : Bundle) (i : Nat) (path : Bytes) :
    (b.programLines i path).filterMap Directive.defined? = [b.startSymbol i, b.endSymbol i] := by
  rw [programLines]
  split <;> rfl

private theorem filterMap_defined?_programs (b : Bundle) (path : Program → Bytes) (k : Nat)
    (ps : List Program) :
    ((ps.mapIdx fun i p => b.programLines (k + i) (path p)).flatten).filterMap Directive.defined? =
      (List.range ps.length).flatMap fun i => [b.startSymbol (k + i), b.endSymbol (k + i)] := by
  -- On the programs, with the number of the first one going up.
  induction ps generalizing k with
  | nil => rfl
  | cons p ps ih =>
    have hrest := ih (k + 1)
    simp only [Nat.add_assoc, Nat.add_comm 1] at hrest
    rw [List.mapIdx_cons, List.flatten_cons, List.filterMap_append, filterMap_defined?_programLines,
      hrest, List.length_cons, List.range_succ_eq_map, List.flatMap_cons, List.flatMap_map]

theorem filterMap_defined?_directives (b : Bundle) (t : FileTree) :
    (b.directives t).filterMap Directive.defined? = b.symbols := by
  have htable : b.tableLines.filterMap Directive.defined? = [b.tableSymbol] := by
    simp [tableLines, List.filterMap_cons, Directive.defined?]
  have hprograms := filterMap_defined?_programs b (fun p => t.fromRoot p.path) 0 b.programs
  simp only [Nat.zero_add] at hprograms
  rw [directives, List.filterMap_append, List.filterMap_append, htable, hprograms]
  rfl

private theorem mem_symbols_of_tableLines (h : d ∈ b.tableLines) (hx : d.used? = some x) :
    x ∈ b.symbols := by
  simp only [tableLines, List.mem_append, List.mem_cons, List.mem_map, List.mem_range,
    List.not_mem_nil, or_false] at h
  rcases h with ((rfl | rfl | rfl | rfl | rfl) | ⟨i, hi, rfl⟩) | rfl
  · cases hx
  · cases hx
  · cases hx
    exact mem_symbols_iff.mpr (.inl rfl)
  · cases hx
  · cases hx
  · cases hx
    exact mem_symbols_iff.mpr (.inr (.inl ⟨i, hi, .inl rfl⟩))
  · cases hx
    exact lastSymbol_mem_symbols b

private theorem mem_symbols_of_programLines {i : Nat} {path : Bytes} (hi : i < b.programs.length)
    (h : d ∈ b.programLines i path) (hx : d.used? = some x) : x ∈ b.symbols := by
  have hused : (b.programLines i path).filterMap Directive.used? =
      [b.startSymbol i, b.endSymbol i] := by
    rw [programLines]
    split <;> rfl
  have hmem : x ∈ (b.programLines i path).filterMap Directive.used? :=
    List.mem_filterMap.mpr ⟨d, h, hx⟩
  rw [hused, List.mem_pair] at hmem
  exact mem_symbols_iff.mpr (.inr (.inl ⟨i, hi, hmem⟩))

theorem mem_symbols_of_used (h : d ∈ b.directives t) (hx : d.used? = some x) : x ∈ b.symbols := by
  rcases mem_directives h with h | ⟨i, hi, path, h⟩ | h
  · exact mem_symbols_of_tableLines h hx
  · exact mem_symbols_of_programLines hi h hx
  · have hused : b.closingLines.filterMap Directive.used? = [b.blobsEndSymbol] := rfl
    have hmem : x ∈ b.closingLines.filterMap Directive.used? := List.mem_filterMap.mpr ⟨d, h, hx⟩
    rw [hused, List.mem_singleton] at hmem
    exact mem_symbols_iff.mpr (.inr (.inr hmem))

theorem mem_symbols_of_defined (h : d ∈ b.directives t) (hx : d.defined? = some x) :
    x ∈ b.symbols := by
  rw [← filterMap_defined?_directives b t]
  exact List.mem_filterMap.mpr ⟨d, h, hx⟩

theorem count_defined_of_used (h : d ∈ b.directives t) (hx : d.used? = some x) :
    ((b.directives t).filterMap Directive.defined?).count x = 1 := by
  rw [filterMap_defined?_directives]
  exact List.count_eq_one_of_mem b.nodup_symbols (mem_symbols_of_used h hx)

private theorem legible_of_mem (h : d ∈ b.directives t) : Assembler.Legible d := by
  cases d with
  | global s => exact (isSymbol_of_mem_symbols (mem_symbols_of_used h rfl)).1
  | label s => exact (isSymbol_of_mem_symbols (mem_symbols_of_defined h rfl)).1
  | addressOf s => exact isSymbol_of_mem_symbols (mem_symbols_of_used h rfl)
  | _ => trivial

theorem read?_listing (b : Bundle) (t : FileTree) :
    Assembler.read? (b.listing t) = some (b.directives t) :=
  Assembler.read?_render fun _ => legible_of_mem

end Bundle

end EmbeddedApps
