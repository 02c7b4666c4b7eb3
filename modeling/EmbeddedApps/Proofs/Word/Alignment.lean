import EmbeddedApps.Proofs.Word.Arithmetic
import Mathlib

/-!
# What alignment comes to on words

The bit formula gives the least multiple that is not below a word, as long as that multiple is a
word itself. Past the last multiple it wraps around to zero, which is a multiple too. So a result
stays where it is when it is aligned again, and it is always less than one alignment ahead, counted
modulo the word size.
-/

namespace EmbeddedApps

variable {v w a : UInt64}

private theorem roundUp_le_two_pow (v : UInt64) (h : isPowerOfTwo a = true) :
    roundUp v.toNat a.toNat ≤ 2 ^ 64 :=
  roundUp_le_of_dvd v.toNat_lt.le (toNat_dvd_two_pow_of_isPowerOfTwo h)

/-- The only multiple past the last word that can come up is the word size, which is cut to zero. -/
theorem toNat_alignUp_eq_ite (v : UInt64) (h : isPowerOfTwo a = true) :
    (alignUp v a).toNat =
      if roundUp v.toNat a.toNat < 2 ^ 64 then roundUp v.toNat a.toNat else 0 := by
  rw [toNat_alignUp v h]
  split
  · rename_i hfit
    exact Nat.mod_eq_of_lt hfit
  · rename_i hfit
    rw [Nat.le_antisymm (roundUp_le_two_pow v h) (Nat.not_lt.mp hfit), Nat.mod_self]

private theorem alignUp_alignUp (v : UInt64) (h : isPowerOfTwo a = true) :
    alignUp (alignUp v a) a = alignUp v a :=
  UInt64.toNat_inj.mp (toNat_alignUp_of_dvd h (dvd_toNat_alignUp v h))

private theorem roundUp_mono {m n k : Nat} (hk : 0 < k) (hmn : m ≤ n) : roundUp m k ≤ roundUp n k :=
  roundUp_le_of_dvd (hmn.trans (le_roundUp n hk)) (dvd_roundUp n k)

private theorem alignUp_le_alignUp (h : isPowerOfTwo a = true) (hvw : v ≤ w)
    (hfit : roundUp w.toNat a.toNat < 2 ^ 64) : alignUp v a ≤ alignUp w a := by
  have hround : roundUp v.toNat a.toNat ≤ roundUp w.toNat a.toNat :=
    roundUp_mono (pos_of_isPowerOfTwo h) (UInt64.le_iff_toNat_le.mp hvw)
  rw [UInt64.le_iff_toNat_le, toNat_alignUp_of_lt h hfit,
    toNat_alignUp_of_lt h (hround.trans_lt hfit)]
  exact hround

private theorem alignUp_sub_lt (v : UInt64) (h : isPowerOfTwo a = true) : alignUp v a - v < a := by
  have hle := le_roundUp v.toNat (pos_of_isPowerOfTwo h)
  have hlt := roundUp_lt_add v.toNat (pos_of_isPowerOfTwo h)
  have hword := v.toNat_lt
  rw [UInt64.lt_iff_toNat_lt, UInt64.toNat_sub, toNat_alignUp_eq_ite v h]
  split
  · omega
  -- What has wrapped around is the word size ahead of zero.
  · have hwrap := roundUp_le_two_pow v h
    omega

/-- The bit test finds the powers of two among the words. For these the bit formula gives the least
multiple that is not below the word, or zero if that multiple is no word. Aligning twice is aligning
once, the order of words is kept where nothing wraps around, and the result is less than one
alignment ahead of the word, modulo the word size. -/
theorem alignUp_least_multiple_or_zero (a : UInt64) :
    (isPowerOfTwo a = true ↔ ∃ k < 64, a.toNat = 2 ^ k) ∧
    ∀ k < 64, a.toNat = 2 ^ k → ∀ v : UInt64,
      (∃ n, IsLeast {x | a.toNat ∣ x ∧ v.toNat ≤ x} n ∧
        (alignUp v a).toNat = if n < 2 ^ 64 then n else 0) ∧
      alignUp (alignUp v a) a = alignUp v a ∧
      (∀ w n, v ≤ w → IsLeast {x | a.toNat ∣ x ∧ w.toNat ≤ x} n → n < 2 ^ 64 →
        alignUp v a ≤ alignUp w a) ∧
      alignUp v a - v < a := by
  refine ⟨isPowerOfTwo_iff a, fun k hk hak v => ?_⟩
  have h : isPowerOfTwo a = true := (isPowerOfTwo_iff a).mpr ⟨k, hk, hak⟩
  have hleast (u : UInt64) : IsLeast {x | a.toNat ∣ x ∧ u.toNat ≤ x} (roundUp u.toNat a.toNat) :=
    isLeast_roundUp u.toNat (pos_of_isPowerOfTwo h)
  refine ⟨⟨_, hleast v, toNat_alignUp_eq_ite v h⟩, alignUp_alignUp v h, ?_, alignUp_sub_lt v h⟩
  intro w n hvw hn hfit
  rw [hn.unique (hleast w)] at hfit
  exact alignUp_le_alignUp h hvw hfit

/-- Behind the last page there is no multiple of the page size that is a word. -/
theorem alignUp_past_last_page :
    IsLeast {x | 4096 ∣ x ∧ 0xfffffffffffff001 ≤ x} (2 ^ 64) ∧
    alignUp 0xfffffffffffff001 4096 = 0 ∧
    alignUp 0xfffffffffffff001 4096 - 0xfffffffffffff001 < 4096 := by
  have hpage : (4096 : UInt64).toNat = 2 ^ 12 := rfl
  obtain ⟨⟨n, hn, hresult⟩, -, -, hahead⟩ :=
    (alignUp_least_multiple_or_zero 4096).2 12 (by decide) hpage 0xfffffffffffff001
  have hleast : IsLeast {x | 4096 ∣ x ∧ 0xfffffffffffff001 ≤ x} (2 ^ 64) :=
    isLeast_roundUp 0xfffffffffffff001 (a := 4096) (by decide)
  obtain rfl : n = 2 ^ 64 := hn.unique hleast
  exact ⟨hleast, UInt64.toNat_inj.mp hresult, hahead⟩

end EmbeddedApps
