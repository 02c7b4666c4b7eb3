import EmbeddedApps.Proofs.Assembler.Lines
import Mathlib

/-!
# Symbols that an assembler takes

A prefix consists of letters, digits and underscores, and may start with any of them. A symbol may
not start with a digit, as it would be taken for a number. All symbols of a listing start with the
prefix if there is one, so it is the first byte of the prefix that decides about all of them.
-/

namespace EmbeddedApps

namespace Assembler

def isDigit (c : UInt8) : Bool := 48 ≤ c && c ≤ 57

/-- Letters, digits and the underscore, and besides the dot and the dollar sign. -/
def isNameByte (c : UInt8) : Bool := isSymbolByte c || c == Bytes.dot || c == 36

def isName : Bytes → Bool
  | [] => false
  | c :: cs => !isDigit c && (c :: cs).all isNameByte

private theorem isName_iff_of_isSymbol {s : Bytes} (h : IsSymbol s) :
    isName s = true ↔ ∀ c ∈ s.head?, isDigit c = false := by
  obtain ⟨c, cs, rfl⟩ := List.exists_cons_of_ne_nil h.1
  have hall : (c :: cs).all isNameByte = true := by
    refine List.all_eq_true.mpr fun d hd => ?_
    rw [isNameByte, List.all_eq_true.mp h.2 d hd]
    rfl
  simp [isName, hall]

end Assembler

namespace Bundle

open Assembler (isDigit isName)

variable {b : Bundle} {x : Bytes}

private theorem exists_eq_symbolPrefix_append (h : x ∈ b.symbols) :
    ∃ c cs, x = b.symbolPrefix ++ c :: cs ∧ isDigit c = false := by
  have hname (name : Bytes) : ∃ c cs,
      b.symbol (text "app_" ++ name) = b.symbolPrefix ++ c :: cs ∧ isDigit c = false := by
    rw [symbol]
    split
    · rename_i hempty
      rw [List.isEmpty_iff.mp hempty]
      exact ⟨97, text "pp_" ++ name, rfl, by decide⟩
    · exact ⟨95, text "app_" ++ name, by rw [List.append_assoc]; rfl, by decide⟩
  rw [symbols_eq_map] at h
  obtain ⟨l, -, rfl⟩ := List.mem_map.mp h
  cases l with
  | table => exact ⟨95, text "num_app", rfl, by decide⟩
  | start i => simpa [Landmark.symbol, startSymbol, edgeSymbol] using hname _
  | stop i => simpa [Landmark.symbol, endSymbol, edgeSymbol] using hname _
  | blobsEnd => exact hname (text "blobs_end")

private theorem isName_iff_of_mem_symbols (h : x ∈ b.symbols) :
    isName x = true ↔ ∀ c ∈ b.symbolPrefix.head?, isDigit c = false := by
  rw [Assembler.isName_iff_of_isSymbol (isSymbol_of_mem_symbols h).1]
  obtain ⟨c, cs, rfl, hc⟩ := exists_eq_symbolPrefix_append h
  cases b.symbolPrefix with
  | nil => simp [hc]
  | cons d ds => simp

/-- Every symbol that a line of a listing defines or speaks of is one to an assembler, if the prefix
does not start with a digit. If it does, none of them is, the symbol of the table to begin with. -/
theorem listing_names_iff (b : Bundle) (t : FileTree) :
    ∃ ds, Assembler.read? (b.listing t) = some ds ∧
      (∃ d ∈ ds, d.defined? = some b.tableSymbol) ∧
      ∀ d ∈ ds, ∀ x, d.defined? = some x ∨ d.used? = some x →
        (isName x = true ↔ ∀ c ∈ b.symbolPrefix.head?, isDigit c = false) := by
  refine ⟨b.directives t, b.read?_listing t, ?_, ?_⟩
  · have htable : b.tableSymbol ∈ (b.directives t).filterMap Directive.defined? := by
      rw [filterMap_defined?_directives]
      exact mem_symbols_iff.mpr (.inl rfl)
    exact List.mem_filterMap.mp htable
  · rintro d hd x (hx | hx)
    · exact isName_iff_of_mem_symbols (mem_symbols_of_defined hd hx)
    · exact isName_iff_of_mem_symbols (mem_symbols_of_used hd hx)

/-- The prefix 1 is accepted, and the symbol of its table is none to an assembler. -/
theorem accepted_prefix_without_name :
    ∃ b, Bundle.create 1 (text "1") = .ok b ∧
      ∃ ds, Assembler.read? (b.listing (.empty [])) = some ds ∧
        ∃ d ∈ ds, d.defined? = some (text "1_num_app") ∧ isName (text "1_num_app") = false := by
  refine ⟨_, rfl, _, read?_listing _ _, .label (text "1_num_app"), ?_, rfl, by decide⟩
  decide

end Bundle

end EmbeddedApps
