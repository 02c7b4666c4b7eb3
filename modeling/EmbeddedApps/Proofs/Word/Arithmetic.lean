import EmbeddedApps.Word.Alignment
import Mathlib

/-!
# Words as natural numbers

Sums of words below the word size, and the bit formula for alignment against rounding up to a
multiple on natural numbers. The latter two agree up to the word size; a multiple that is no word
any more comes out as zero.
-/

namespace EmbeddedApps

theorem toNat_add_of_lt {a b : UInt64} (h : a.toNat + b.toNat < 2 ^ 64) :
    (a + b).toNat = a.toNat + b.toNat := by
  rw [UInt64.toNat_add, Nat.mod_eq_of_lt h]

theorem toNat_mul_of_lt {a b : UInt64} (h : a.toNat * b.toNat < 2 ^ 64) :
    (a * b).toNat = a.toNat * b.toNat := by
  rw [UInt64.toNat_mul, Nat.mod_eq_of_lt h]

theorem toNat_toUInt64_of_lt {n : Nat} (h : n < 2 ^ 64) : n.toUInt64.toNat = n := by
  rw [Nat.toUInt64_eq, UInt64.toNat_ofNat', Nat.mod_eq_of_lt h]

theorem toUInt64_add_one (i : Nat) : i.toUInt64 + 1 = (i + 1).toUInt64 := by simp

theorem toNat_add_toUInt64 {a : UInt64} {n : Nat} (h : a.toNat + n < 2 ^ 64) :
    (a + n.toUInt64).toNat = a.toNat + n := by
  have hn : n.toUInt64.toNat = n := toNat_toUInt64_of_lt (by omega)
  rw [toNat_add_of_lt (by rwa [hn]), hn]

theorem add_toUInt64_add (a : UInt64) (i j : Nat) :
    a + i.toUInt64 + j.toUInt64 = a + (i + j).toUInt64 := by
  rw [UInt64.add_assoc, Nat.toUInt64_eq, Nat.toUInt64_eq, ← UInt64.ofNat_add, Nat.toUInt64_eq]

theorem toNat_add_toUInt64_sub (a : UInt64) {i : Nat} (h : i < 2 ^ 64) :
    (a + i.toUInt64 - a).toNat = i := by
  rw [UInt64.add_comm, UInt64.add_sub_cancel, toNat_toUInt64_of_lt h]

/-- The least multiple of `a` that is not below `v`. -/
def roundUp (v a : Nat) : Nat := (v + a - 1) / a * a

theorem dvd_roundUp (v a : Nat) : a ∣ roundUp v a := Nat.dvd_mul_left a _

theorem le_roundUp (v : Nat) {a : Nat} (ha : 0 < a) : v ≤ roundUp v a := by
  have hmod := Nat.mod_lt (v + a - 1) ha
  have hdiv := Nat.div_add_mod' (v + a - 1) a
  rw [roundUp]
  omega

theorem roundUp_lt_add (v : Nat) {a : Nat} (ha : 0 < a) : roundUp v a < v + a := by
  have hle := Nat.div_mul_le_self (v + a - 1) a
  rw [roundUp]
  omega

theorem roundUp_le_of_dvd {v a w : Nat} (hvw : v ≤ w) (hw : a ∣ w) : roundUp v a ≤ w := by
  rcases Nat.eq_zero_or_pos a with rfl | ha
  · simp [roundUp]
  obtain ⟨q, rfl⟩ := hw
  rw [roundUp, Nat.mul_comm a q]
  apply Nat.mul_le_mul_right
  rw [← Nat.lt_succ_iff, Nat.div_lt_iff_lt_mul ha, Nat.succ_mul, Nat.mul_comm q a]
  omega

theorem isLeast_roundUp (v : Nat) {a : Nat} (ha : 0 < a) :
    IsLeast {x | a ∣ x ∧ v ≤ x} (roundUp v a) :=
  ⟨⟨dvd_roundUp v a, le_roundUp v ha⟩, fun _ hx => roundUp_le_of_dvd hx.2 hx.1⟩

theorem roundUp_of_dvd {v a : Nat} (ha : 0 < a) (h : a ∣ v) : roundUp v a = v :=
  Nat.le_antisymm (roundUp_le_of_dvd le_rfl h) (le_roundUp v ha)

@[simp] theorem roundUp_one (v : Nat) : roundUp v 1 = v := by simp [roundUp]

theorem roundUp_add_of_dvd {s a : Nat} (n : Nat) (ha : 0 < a) (h : a ∣ s) :
    roundUp (s + n) a = s + roundUp n a := by
  obtain ⟨q, rfl⟩ := h
  rw [roundUp, roundUp, show a * q + n + a - 1 = n + a - 1 + a * q by omega,
    Nat.add_mul_div_left _ _ ha, Nat.add_mul, Nat.mul_comm q a]
  omega

theorem roundUp_le_iff {v a w : Nat} (ha : 0 < a) (hw : a ∣ w) : roundUp v a ≤ w ↔ v ≤ w :=
  ⟨fun h => (le_roundUp v ha).trans h, fun h => roundUp_le_of_dvd h hw⟩

theorem isPowerOfTwo_iff (a : UInt64) : isPowerOfTwo a = true ↔ ∃ k < 64, a.toNat = 2 ^ k := by
  have hword : a.toNat < 2 ^ 64 := a.toNat_lt
  have hbits : isPowerOfTwo a = true ↔ a.toNat ≠ 0 ∧ a.toNat &&& (a.toNat - 1) = 0 := by
    rw [isPowerOfTwo, Bool.and_eq_true, decide_eq_true_eq, beq_iff_eq, UInt64.lt_iff_toNat_lt,
      ← UInt64.toNat_inj, UInt64.toNat_and, UInt64.toNat_zero, Nat.pos_iff_ne_zero]
    refine and_congr_right fun h0 => ?_
    have hone : (1 : UInt64) ≤ a := UInt64.le_iff_toNat_le.mpr (Nat.pos_of_ne_zero h0)
    rw [UInt64.toNat_sub_of_le _ _ hone, UInt64.toNat_one]
  rw [hbits, Nat.ne_zero_and_sub_one_eq_zero_iff_isPowerOfTwo]
  constructor
  · rintro ⟨k, hk⟩
    exact ⟨k, (Nat.pow_lt_pow_iff_right (by decide)).mp (hk ▸ hword), hk⟩
  · rintro ⟨k, _, hk⟩
    exact ⟨k, hk⟩

theorem pos_of_isPowerOfTwo {a : UInt64} (h : isPowerOfTwo a = true) : 0 < a.toNat := by
  obtain ⟨k, _, hk⟩ := (isPowerOfTwo_iff a).mp h
  exact hk ▸ Nat.two_pow_pos k

theorem toNat_dvd_two_pow_of_isPowerOfTwo {a : UInt64} (h : isPowerOfTwo a = true) :
    a.toNat ∣ 2 ^ 64 := by
  obtain ⟨k, hk, hak⟩ := (isPowerOfTwo_iff a).mp h
  exact hak ▸ Nat.pow_dvd_pow 2 hk.le

private theorem and_highMask (x k : Nat) (hx : x < 2 ^ 64) :
    x &&& (2 ^ 64 - 1 - (2 ^ k - 1)) = x / 2 ^ k * 2 ^ k := by
  apply Nat.eq_of_testBit_eq
  intro i
  have hpos := Nat.two_pow_pos k
  by_cases hk : 2 ^ k ≤ 2 ^ 64
  · rw [show 2 ^ 64 - 1 - (2 ^ k - 1) = 2 ^ 64 - (2 ^ k - 1 + 1) by omega, Nat.testBit_and,
      Nat.testBit_two_pow_sub_succ (by omega), Nat.testBit_two_pow_sub_one,
      Nat.testBit_mul_two_pow, Nat.testBit_div_two_pow]
    by_cases hik : i < k
    · simp [hik, Nat.not_le.mpr hik]
    · have hki : k ≤ i := Nat.not_lt.mp hik
      rw [Nat.sub_add_cancel hki]
      by_cases hi : i < 64
      · simp [hik, hki, hi]
      · have hxi : x.testBit i = false :=
          Nat.testBit_lt_two_pow (hx.trans_le (Nat.pow_le_pow_right (by decide) (by omega)))
        simp [hxi]
  · rw [show 2 ^ 64 - 1 - (2 ^ k - 1) = 0 by omega, Nat.div_eq_of_lt (by omega)]
    simp

theorem toNat_alignUp (v : UInt64) {a : UInt64} (h : isPowerOfTwo a = true) :
    (alignUp v a).toNat = roundUp v.toNat a.toNat % 2 ^ 64 := by
  obtain ⟨k, hk, hak⟩ := (isPowerOfTwo_iff a).mp h
  have hpos := Nat.two_pow_pos k
  have hle : (1 : UInt64) ≤ a := UInt64.le_iff_toNat_le.mpr (pos_of_isPowerOfTwo h)
  have hmask : (a - 1).toNat = 2 ^ k - 1 := by
    rw [UInt64.toNat_sub_of_le _ _ hle, hak, UInt64.toNat_one]
  have hsum : (v + a - 1).toNat = (v.toNat + 2 ^ k - 1) % 2 ^ 64 := by
    rw [UInt64.toNat_sub, UInt64.toNat_add, hak, UInt64.toNat_one]
    omega
  have hsplit : (2 : Nat) ^ 64 = 2 ^ k * 2 ^ (64 - k) := by
    rw [← Nat.pow_add, Nat.add_sub_cancel' hk.le]
  have hround : (v.toNat + 2 ^ k - 1) % 2 ^ 64 / 2 ^ k * 2 ^ k =
      (v.toNat + 2 ^ k - 1) / 2 ^ k * 2 ^ k % 2 ^ 64 := by
    rw [hsplit, Nat.mod_mul_right_div_self, Nat.mul_comm (2 ^ k) (2 ^ (64 - k)),
      Nat.mul_mod_mul_right]
  rw [alignUp, UInt64.toNat_and, UInt64.toNat_not, hmask, hsum]
  change _ &&& (2 ^ 64 - 1 - (2 ^ k - 1)) = _
  rw [and_highMask _ _ (Nat.mod_lt _ (by decide)), hround, roundUp, hak]

theorem dvd_toNat_alignUp (v : UInt64) {a : UInt64} (h : isPowerOfTwo a = true) :
    a.toNat ∣ (alignUp v a).toNat := by
  rw [toNat_alignUp v h]
  exact (Nat.dvd_mod_iff (toNat_dvd_two_pow_of_isPowerOfTwo h)).mpr (dvd_roundUp _ _)

theorem toNat_alignUp_of_lt {v a : UInt64} (h : isPowerOfTwo a = true)
    (hfit : roundUp v.toNat a.toNat < 2 ^ 64) :
    (alignUp v a).toNat = roundUp v.toNat a.toNat := by
  rw [toNat_alignUp v h, Nat.mod_eq_of_lt hfit]

theorem toNat_alignUp_of_dvd {v a : UInt64} (h : isPowerOfTwo a = true)
    (hdvd : a.toNat ∣ v.toNat) : (alignUp v a).toNat = v.toNat := by
  have hround := roundUp_of_dvd (pos_of_isPowerOfTwo h) hdvd
  rw [toNat_alignUp_of_lt h (by rw [hround]; exact v.toNat_lt), hround]

end EmbeddedApps
