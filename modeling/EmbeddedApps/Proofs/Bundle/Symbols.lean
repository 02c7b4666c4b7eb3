import EmbeddedApps.Bundle.Listing
import EmbeddedApps.Proofs.Text.Numeral
import Mathlib

/-!
# Symbols of a bundle

A symbol tells which prefix it was made with and what it marks: its last two words are different
for each landmark, and what stands in front of them gives the prefix. So the symbols that a listing
defines are different from each other, whatever the prefix.
-/

namespace EmbeddedApps

/-- What stands in front of every symbol but that of the table. -/
def Bundle.lead (b : Bundle) : Bytes :=
  if b.symbolPrefix.isEmpty then [] else b.symbolPrefix ++ text "_"

theorem Bundle.symbol_eq (b : Bundle) (name : Bytes) : b.symbol name = b.lead ++ name := by
  rw [symbol, lead]
  split <;> simp

private theorem Bundle.dropLast_lead (b : Bundle) : b.lead.dropLast = b.symbolPrefix := by
  rw [lead]
  split
  · rename_i hempty
    exact (List.isEmpty_iff.mp hempty).symm
  · exact List.dropLast_concat

/-- A string falls apart at its last underscore in one way only. -/
private theorem append_underscore_inj {xs ys ds es : Bytes} (hd : 95 ∉ ds) (he : 95 ∉ es)
    (h : xs ++ 95 :: ds = ys ++ 95 :: es) : xs = ys ∧ ds = es := by
  have hlast {zs fs : Bytes} (hf : 95 ∉ fs) :
      (zs ++ 95 :: fs).reverse.takeWhile (· != 95) = fs.reverse := by
    rw [List.reverse_append, List.reverse_cons, List.append_assoc, List.takeWhile_append_of_pos,
      List.singleton_append, List.takeWhile_cons_of_neg (by decide), List.append_nil]
    intro c hc
    rw [bne_iff_ne]
    rintro rfl
    exact hf (List.mem_reverse.mp hc)
  have hends : ds = es := by rw [← List.reverse_inj, ← hlast hd, h, hlast he]
  rw [hends] at h
  exact ⟨List.append_cancel_right h, hends⟩

/-- A place that a listing has a symbol for. -/
inductive Landmark
  | table
  | start (i : Nat)
  | stop (i : Nat)
  | blobsEnd

namespace Landmark

variable {b c : Bundle} {l l' : Landmark}

def symbol (b : Bundle) : Landmark → Bytes
  | table => b.tableSymbol
  | start i => b.startSymbol i
  | stop i => b.endSymbol i
  | blobsEnd => b.blobsEndSymbol

def edge : Landmark → Bytes
  | table => text "app"
  | start _ => text "start"
  | stop _ | blobsEnd => text "end"

def subject : Landmark → Bytes
  | table => text "num"
  | start i | stop i => decimal i
  | blobsEnd => text "blobs"

def stem (b : Bundle) : Landmark → Bytes
  | table => b.symbolPrefix
  | _ => b.lead ++ text "app"

private theorem symbol_eq (b : Bundle) (l : Landmark) :
    l.symbol b = (l.stem b ++ 95 :: l.subject) ++ 95 :: l.edge := by
  have hunder : text "_" = [95] := rfl
  have happ : text "app_" = text "app" ++ [95] := rfl
  have hstart (i : Nat) (edge : Bytes) :
      b.edgeSymbol i edge = (b.lead ++ text "app" ++ 95 :: decimal i) ++ 95 :: edge := by
    rw [Bundle.edgeSymbol, Bundle.symbol_eq, hunder, happ]
    simp
  cases l with
  | table =>
    have hname : text "_num_app" = 95 :: (text "num" ++ 95 :: text "app") := rfl
    rw [symbol, Bundle.tableSymbol, hname]
    simp [stem, subject, edge]
  | start i => exact hstart i (text "start")
  | stop i => exact hstart i (text "end")
  | blobsEnd =>
    have hname : text "app_blobs_end" =
        text "app" ++ 95 :: (text "blobs" ++ 95 :: text "end") := rfl
    rw [symbol, Bundle.blobsEndSymbol, Bundle.symbol_eq, hname]
    simp [stem, subject, edge]

private theorem not_mem_decimal {n : Nat} {c : UInt8} (h : 57 < c) : c ∉ decimal n :=
  fun hc => absurd ((mem_decimal hc).2) (UInt8.not_le.mpr h)

private theorem underscore_not_mem_subject (l : Landmark) : 95 ∉ l.subject := by
  cases l with
  | table => decide
  | start i => exact not_mem_decimal (by decide)
  | stop i => exact not_mem_decimal (by decide)
  | blobsEnd => decide

private theorem underscore_not_mem_edge (l : Landmark) : 95 ∉ l.edge := by
  have hedges : 95 ∉ text "app" ∧ 95 ∉ text "start" ∧ 95 ∉ text "end" := by decide
  cases l with
  | table => exact hedges.1
  | start i => exact hedges.2.1
  | stop i => exact hedges.2.2
  | blobsEnd => exact hedges.2.2

private theorem eq_of_words_eq (hsubject : l.subject = l'.subject) (hedge : l.edge = l'.edge) :
    l = l' := by
  have htable : text "app" ≠ text "start" ∧ text "app" ≠ text "end" := by decide
  have hstart : text "start" ≠ text "end" := by decide
  -- No number is spelled with a letter.
  have hblobs (n : Nat) : decimal n ≠ text "blobs" := fun h =>
    not_mem_decimal (n := n) (c := 98) (by decide) (h ▸ by decide)
  cases l <;> cases l' <;>
    simp_all [subject, edge, decimal_injective.eq_iff, htable.1.symm, htable.2.symm, hstart.symm,
      (hblobs _).symm]

private theorem symbolPrefix_eq_of_stem_eq (h : l.stem b = l.stem c) :
    b.symbolPrefix = c.symbolPrefix := by
  cases l with
  | table => exact h
  | _ =>
    have hlead : b.lead = c.lead := List.append_cancel_right h
    rw [← b.dropLast_lead, hlead, c.dropLast_lead]

/-- A symbol gives away the prefix and the landmark that it was made for. -/
theorem symbol_inj (h : l.symbol b = l'.symbol c) : b.symbolPrefix = c.symbolPrefix ∧ l = l' := by
  rw [symbol_eq, symbol_eq] at h
  obtain ⟨hfront, hedge⟩ := append_underscore_inj l.underscore_not_mem_edge
    l'.underscore_not_mem_edge h
  obtain ⟨hstem, hsubject⟩ := append_underscore_inj l.underscore_not_mem_subject
    l'.underscore_not_mem_subject hfront
  obtain rfl := eq_of_words_eq hsubject hedge
  exact ⟨symbolPrefix_eq_of_stem_eq hstem, rfl⟩

end Landmark

namespace Bundle

def symbols (b : Bundle) : List Bytes :=
  b.tableSymbol ::
    ((List.range b.programs.length).flatMap fun i => [b.startSymbol i, b.endSymbol i]) ++
    [b.blobsEndSymbol]

def landmarks (b : Bundle) : List Landmark :=
  .table :: ((List.range b.programs.length).flatMap fun i => [.start i, .stop i]) ++ [.blobsEnd]

theorem symbols_eq_map (b : Bundle) : b.symbols = b.landmarks.map (·.symbol b) := by
  simp [symbols, landmarks, List.map_flatMap, Landmark.symbol]

private theorem nodup_landmarks (b : Bundle) : b.landmarks.Nodup := by
  have hedges : ((List.range b.programs.length).flatMap fun i =>
      [Landmark.start i, Landmark.stop i]).Nodup := by
    rw [List.nodup_flatMap]
    refine ⟨by simp, List.nodup_range.imp fun hij => ?_⟩
    simp [Function.onFun, hij.symm]
  rw [landmarks, List.cons_append, List.nodup_cons, List.nodup_append]
  refine ⟨by simp, hedges, List.nodup_singleton _, ?_⟩
  simp only [List.mem_flatMap, List.mem_pair, List.mem_singleton]
  rintro l ⟨i, -, rfl | rfl⟩ _ rfl <;> nofun

/-- No symbol is defined twice. -/
theorem nodup_symbols (b : Bundle) : b.symbols.Nodup := by
  rw [symbols_eq_map]
  exact b.nodup_landmarks.map fun _ _ h => (Landmark.symbol_inj h).2

end Bundle

end EmbeddedApps
