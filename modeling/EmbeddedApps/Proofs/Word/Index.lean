import EmbeddedApps.Proofs.Word.Arithmetic
import Mathlib

/-!
# Signed indices

Apps and slots are numbered by signed words and counted by unsigned ones. An index is within a
count if it is the number of something counted.
-/

namespace EmbeddedApps

theorem toNat_toInt_lt (i : Int64) : i.toInt.toNat < 2 ^ 63 := by
  have hmax : i.toInt < 2 ^ 63 := i.toInt_lt
  omega

theorem ofNat_toNat_toInt {i : Int64} (h : ¬i < 0) : Int64.ofNat i.toInt.toNat = i := by
  have hsign : 0 ≤ i.toInt := Int64.le_iff_toInt_le.mp (Int64.not_lt.mp h)
  apply Int64.toInt_inj.mp
  rw [Int64.toInt_ofNat_of_lt (toNat_toInt_lt i), Int.toNat_of_nonneg hsign]

theorem toNat_toInt_ofNat {k : Nat} (h : k < 2 ^ 63) : (Int64.ofNat k).toInt.toNat = k := by
  rw [Int64.toInt_ofNat_of_lt h, Int.toNat_natCast]

theorem ofNat_outside_iff {k : Nat} (hk : k < 2 ^ 63) (n : UInt64) :
    (Int64.ofNat k < 0 || (Int64.ofNat k).toUInt64 ≥ n) = true ↔ n.toNat ≤ k := by
  have hsign : ¬Int64.ofNat k < 0 := by
    rw [Int64.lt_iff_toInt_lt, Int64.toInt_ofNat_of_lt hk]
    exact Int.not_lt.mpr (Int.natCast_nonneg k)
  rw [Int64.toUInt64_ofNat', Bool.or_eq_true, decide_eq_true_eq, decide_eq_true_eq, ge_iff_le,
    UInt64.le_iff_toNat_le, toNat_toUInt64_of_lt (by omega)]
  exact or_iff_right hsign

theorem exists_of_not_outside {i : Int64} {n : UInt64}
    (h : ¬(i < 0 || i.toUInt64 ≥ n) = true) : ∃ k < n.toNat, k < 2 ^ 63 ∧ i = Int64.ofNat k := by
  have hsign : ¬i < 0 := fun hneg => h (by simp [hneg])
  have hself := ofNat_toNat_toInt hsign
  have hword := toNat_toInt_lt i
  rw [← hself, ofNat_outside_iff hword, Nat.not_le] at h
  exact ⟨i.toInt.toNat, h, hword, hself.symm⟩

end EmbeddedApps
