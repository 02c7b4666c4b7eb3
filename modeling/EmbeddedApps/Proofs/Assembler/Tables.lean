import EmbeddedApps.Proofs.Assembler.Lines
import Mathlib

/-!
# Tables that are linked together

Several tables can go into one program if no symbol is defined twice in all of their listings. This
is so exactly if each has a prefix of its own, however much the prefixes look like each other or
like parts of a symbol.
-/

namespace EmbeddedApps.Bundle

/-- Tables have a symbol in common only if their prefixes are the same. Then it is at least the
symbol of the table itself. -/
theorem disjoint_symbols_iff (b c : Bundle) :
    b.symbols.Disjoint c.symbols ↔ b.symbolPrefix ≠ c.symbolPrefix := by
  constructor
  · intro hdisjoint hprefix
    have htable : b.tableSymbol = c.tableSymbol := by rw [tableSymbol, tableSymbol, hprefix]
    exact hdisjoint (mem_symbols_iff.mpr (.inl rfl)) (htable ▸ mem_symbols_iff.mpr (.inl rfl))
  · intro hprefix x hb hc
    rw [symbols_eq_map] at hb hc
    obtain ⟨l, -, rfl⟩ := List.mem_map.mp hb
    obtain ⟨l', -, hsymbol⟩ := List.mem_map.mp hc
    exact hprefix (Landmark.symbol_inj hsymbol).1.symm

private theorem nodup_flatMap_symbols_iff (bs : List Bundle) :
    (bs.flatMap symbols).Nodup ↔ (bs.map symbolPrefix).Nodup := by
  have hnodup : ∀ b ∈ bs, b.symbols.Nodup := fun b _ => b.nodup_symbols
  rw [List.nodup_flatMap, and_iff_right hnodup, List.nodup_iff_pairwise_ne, List.pairwise_map]
  exact List.Pairwise.iff fun b c => disjoint_symbols_iff b c

/-- The listings of tables can be read. Each defines the symbol of its table, two for each of its
programs and one behind them, and none of these twice. Two tables have no symbol in common if and
only if their prefixes differ, so in all the listings together no symbol is defined twice if and
only if no prefix is used twice. -/
theorem linked_symbols_nodup_iff (tables : List (Bundle × FileTree)) :
    ∃ texts, tables.mapM (fun b => Assembler.read? (b.1.listing b.2)) = some texts ∧
      texts.map (·.filterMap Directive.defined?) = tables.map (·.1.symbols) ∧
      (∀ b ∈ tables, b.1.symbols.Nodup ∧ ∀ c ∈ tables,
        (b.1.symbols.Disjoint c.1.symbols ↔ b.1.symbolPrefix ≠ c.1.symbolPrefix)) ∧
      ((texts.flatMap (·.filterMap Directive.defined?)).Nodup ↔
        (tables.map (·.1.symbolPrefix)).Nodup) := by
  refine ⟨tables.map fun b => b.1.directives b.2, ?_, ?_, ?_, ?_⟩
  · have hread : (fun b : Bundle × FileTree => Assembler.read? (b.1.listing b.2)) =
        fun b => pure (b.1.directives b.2) := funext fun b => b.1.read?_listing b.2
    rw [hread, List.mapM_pure]
    rfl
  · simp only [List.map_map, Function.comp_def, filterMap_defined?_directives]
  · exact fun b _ => ⟨b.1.nodup_symbols, fun c _ => disjoint_symbols_iff b.1 c.1⟩
  · have hall := nodup_flatMap_symbols_iff (tables.map Prod.fst)
    simpa only [List.flatMap_map, List.map_map, Function.comp_def,
      filterMap_defined?_directives] using hall

/-- A prefix that reads like the beginning of a symbol. -/
example :
    let p : Program := ⟨0, [], [], []⟩
    let b : Bundle := ⟨1, [], [p], rfl, rfl⟩
    let c : Bundle := ⟨1, text "app_0", [p], rfl, rfl⟩
    b.symbols = [text "_num_app", text "app_0_start", text "app_0_end", text "app_blobs_end"] ∧
      c.symbols = [text "app_0_num_app", text "app_0_app_0_start", text "app_0_app_0_end",
        text "app_0_app_blobs_end"] := by decide

end EmbeddedApps.Bundle
