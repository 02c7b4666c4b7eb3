import EmbeddedApps.Text.Numeral
import Mathlib

/-!
# Decimal numerals

A number is read back from its decimal digits.
-/

namespace EmbeddedApps

theorem decimal_ne_nil (n : Nat) : decimal n ≠ [] := by
  rw [decimal_eq]
  simp

theorem mem_decimal {n : Nat} {c : UInt8} (h : c ∈ decimal n) : 48 ≤ c ∧ c ≤ 57 := by
  have hdigit : ∀ d < 10, 48 ≤ 48 + d.toUInt8 ∧ 48 + d.toUInt8 ≤ 57 := by decide
  induction n using Nat.strongRecOn with
  | ind n ih =>
    rw [decimal_eq, List.mem_append, List.mem_singleton] at h
    rcases h with h | rfl
    · split at h
      · cases h
      · exact ih (n / 10) (by omega) h
    · exact hdigit (n % 10) (Nat.mod_lt n (by decide))

theorem zero_notMem_decimal (n : Nat) : 0 ∉ decimal n := by
  intro h
  exact absurd (mem_decimal h).1 (by decide)

theorem zero_notMem_markedHexadecimal (n : Nat) : 0 ∉ markedHexadecimal n := by
  rw [markedHexadecimal]
  split
  · decide
  · rw [List.mem_append, not_or]
    exact ⟨by decide, zero_notMem_hexadecimal n⟩

theorem length_decimal_le {n : Nat} (h : n < 2 ^ 64) : (decimal n).length ≤ 20 := by
  rw [decimal, List.length_map]
  exact Nat.toDigits_length 10 n 20 (by decide) (h.trans (by decide))

theorem length_markedHexadecimal_le {n : Nat} (h : n < 2 ^ 64) :
    (markedHexadecimal n).length ≤ 18 := by
  rw [markedHexadecimal]
  split
  · decide
  · have hmark : (text "0x").length = 2 := by decide
    have hdigits : (hexadecimal n).length ≤ 16 := by
      rw [hexadecimal, List.length_map]
      exact Nat.toDigits_length 16 n 16 (by decide) (h.trans_eq (by decide))
    rw [List.length_append, hmark]
    omega

namespace Numeral

private theorem valueFrom?_append (base value : Nat) (xs ys : Bytes) :
    valueFrom? base value (xs ++ ys) =
      (valueFrom? base value xs).bind fun v => valueFrom? base v ys := by
  induction xs generalizing value with
  | nil => rfl
  | cons x xs ih =>
    rw [List.cons_append, valueFrom?, valueFrom?]
    cases digitIn? base x with
    | none => rfl
    | some d => exact ih _

private theorem valueFrom?_decimal (n : Nat) : valueFrom? 10 0 (decimal n) = some n := by
  have hdigit : ∀ d < 10, digitIn? 10 (48 + d.toUInt8) = some d := by decide
  -- The digits before the last one are those of `n / 10`.
  induction n using Nat.strongRecOn with
  | ind n ih =>
    have hlast := hdigit (n % 10) (Nat.mod_lt n (by decide))
    rw [decimal_eq, valueFrom?_append]
    split
    · rename_i hn
      rw [valueFrom?, Option.bind_some, valueFrom?, hlast, Nat.mod_eq_of_lt hn]
      simp [valueFrom?]
    · rw [ih (n / 10) (by omega), Option.bind_some, valueFrom?, hlast, Option.bind_some,
        valueFrom?, Nat.div_add_mod]

theorem value?_decimal (n : Nat) : value? 10 (decimal n) = some n := by
  rw [value?, valueFrom?_decimal]
  simp [decimal_ne_nil]

theorem value?_eq_none {base : Nat} {s : Bytes} (h : 95 ∈ s) : value? base s = none := by
  have hfrom : ∀ value, valueFrom? base value s = none := by
    induction s with
    | nil => cases h
    | cons c s ih =>
      intro value
      rw [valueFrom?]
      rcases List.mem_cons.mp h with rfl | h
      · rfl
      · cases digitIn? base c with
        | none => rfl
        | some d => exact ih h _
  rw [value?, hfrom]
  simp

end Numeral

theorem decimal_injective : Function.Injective decimal := by
  intro n k h
  have hvalue := congrArg (Numeral.value? 10) h
  rwa [Numeral.value?_decimal, Numeral.value?_decimal, Option.some.injEq] at hvalue

end EmbeddedApps
