import EmbeddedApps.Text.Basic
import Mathlib

/-!
# Blanks and lines

Blanks at the ends of a string do not show after trimming, and lines that were put together with
line feeds in between come apart again.
-/

namespace EmbeddedApps.Bytes

variable {s before after : Bytes} {c d : UInt8}

private theorem trim_eq (s : Bytes) : s.trim = (s.dropWhile isBlank).rdropWhile isBlank := rfl

theorem trim_pad (hbefore : ∀ c ∈ before, isBlank c = true)
    (hafter : ∀ c ∈ after, isBlank c = true) : trim (before ++ s ++ after) = s.trim := by
  rw [List.append_assoc, trim, trim, List.dropWhile_append_of_pos hbefore, List.dropWhile_append]
  split
  · rename_i hempty
    rw [List.isEmpty_iff.mp hempty, List.dropWhile_eq_nil_iff.mpr hafter]
  · have hreverse : ∀ c ∈ after.reverse, isBlank c = true := by
      intro c hc
      exact hafter c (List.mem_reverse.mp hc)
    rw [List.reverse_append, List.dropWhile_append_of_pos hreverse]

theorem trim_cons_of_blank (hc : isBlank c = true) (s : Bytes) : trim (c :: s) = s.trim := by
  rw [trim, List.dropWhile_cons_of_pos hc, trim]

theorem head?_trim_cons (hc : isBlank c = false) (s : Bytes) : (trim (c :: s)).head? = some c := by
  have hreverse : trim (c :: s) = (((s.reverse ++ [c]).dropWhile isBlank)).reverse := by
    rw [trim, List.dropWhile_cons_of_neg (by simp [hc]), List.reverse_cons]
  rw [hreverse, List.dropWhile_append, List.dropWhile_cons_of_neg (by simp [hc])]
  split
  · rfl
  · rw [List.reverse_append]
    rfl

theorem head?_trim (s : Bytes) : s.trim.head? = s.find? (!isBlank ·) := by
  induction s with
  | nil => rfl
  | cons c s ih =>
    cases hc : isBlank c with
    | false => rw [head?_trim_cons hc, List.find?_cons_of_pos (by simp [hc])]
    | true => rw [trim_cons_of_blank hc, ih, List.find?_cons_of_neg (by simp [hc])]

theorem trim_of_solid_ends (hc : isBlank c = false) (hd : isBlank d = false) (s : Bytes) :
    trim (c :: s ++ [d]) = c :: s ++ [d] := by
  rw [trim_eq, List.cons_append, List.dropWhile_cons_of_neg (by simp [hc]), ← List.cons_append,
    List.rdropWhile_concat_neg]
  simp [hd]

theorem beforeNul_isPrefix (s t : Bytes) : s.beforeNul <+: beforeNul (s ++ t) := by
  rw [beforeNul, beforeNul, List.takeWhile_append]
  split
  · rename_i hwhole
    rw [(List.takeWhile_prefix _).eq_of_length hwhole]
    exact List.prefix_append _ _
  · exact List.prefix_rfl

theorem splitOn_eq (separator : UInt8) (s : Bytes) :
    s.splitOn separator = List.splitOn separator s := by
  induction s with
  | nil => simp [splitOn]
  | cons c s ih =>
    rw [splitOn, List.foldr_cons, ← splitOn, ih, List.splitOn_cons_eq_if_modifyHead]
    cases hparts : List.splitOn separator s with
    | nil => exact absurd hparts (List.splitOn_ne_nil separator s)
    | cons p ps => rfl

def unlines (ls : List Bytes) : Bytes := [newline].intercalate ls

theorem lines_unlines {ls : List Bytes} (hls : ls ≠ []) (h : ∀ l ∈ ls, newline ∉ l) :
    (unlines ls).lines = ls := by
  rw [lines, splitOn_eq, unlines, List.splitOn_intercalate newline h hls]

end EmbeddedApps.Bytes
