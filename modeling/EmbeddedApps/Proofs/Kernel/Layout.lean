import EmbeddedApps.Kernel.State
import EmbeddedApps.Proofs.Arena
import Mathlib

/-!
# Where a kernel keeps what it builds

The places of all blocks of a boot, each from the end of the one before, and their distances from
the start of the region.
-/

namespace EmbeddedApps.Kernel

def infoPlace (base : Address) : Address := alignUp (base + Arena.headerSize) 8

def kernelPlace (base : Address) : Address := alignUp (infoPlace base + 24) 8

def objectsPlace (base : Address) : Address := alignUp (kernelPlace base + 56) 8

def directoryPlace (base : Address) : Address := alignUp (objectsPlace base + 24) 8

def slotsPlace (base : Address) : Address := alignUp (directoryPlace base + 24) Limits.slotAlignment

def slotsEnd (base : Address) (n : UInt64) : Address :=
  if n = 0 then directoryPlace base + 24 else slotsPlace base + n * Limits.slotSize

def loaderPlace (base : Address) (n : UInt64) : Address := alignUp (slotsEnd base n) 8

def bootEnd (base n : Nat) : Nat :=
  let fixed := roundUp (base + 32) 8 + 128
  (if n = 0 then fixed else roundUp fixed 4096 + n * 0x20000) + 40

/-- A boot with `n` slots fits into the region. -/
structure Fits (base size n : UInt64) : Prop where
  room : bootEnd base.toNat n.toNat ≤ base.toNat + size.toNat
  bounded : base.toNat + size.toNat < 2 ^ 64

/-- The places as natural numbers. -/
structure Places (base n : UInt64) : Prop where
  bottom : (base + Arena.headerSize).toNat = base.toNat + 32
  info : (infoPlace base).toNat = roundUp (base.toNat + 32) 8
  kernel : (kernelPlace base).toNat = roundUp (base.toNat + 32) 8 + 24
  objects : (objectsPlace base).toNat = roundUp (base.toNat + 32) 8 + 80
  directory : (directoryPlace base).toNat = roundUp (base.toNat + 32) 8 + 104
  slots : n ≠ 0 → (slotsPlace base).toNat = roundUp (roundUp (base.toNat + 32) 8 + 128) 4096
  area : (n * Limits.slotSize).toNat = n.toNat * 0x20000
  top : (slotsEnd base n).toNat + 40 = bootEnd base.toNat n.toNat
  loader : (loaderPlace base n).toNat = (slotsEnd base n).toNat

private theorem next_place {top size : UInt64} (htop : 8 ∣ top.toNat) (hsize : 8 ∣ size.toNat)
    (hfit : top.toNat + size.toNat < 2 ^ 64) :
    (alignUp (top + size) 8).toNat = top.toNat + size.toNat := by
  have hsum := toNat_add_of_lt hfit
  have hdvd : 8 ∣ (top + size).toNat := hsum ▸ Nat.dvd_add htop hsize
  rw [toNat_alignUp_of_dvd (by decide) hdvd, hsum]

private theorem fixed_le_bootEnd (base n : Nat) : roundUp (base + 32) 8 + 168 ≤ bootEnd base n := by
  have hle := le_roundUp (roundUp (base + 32) 8 + 128) (show 0 < 4096 by decide)
  rw [bootEnd]
  split
  · omega
  · omega

theorem bootEnd_of_ne_zero (base : Nat) {n : UInt64} (hn : n ≠ 0) :
    bootEnd base n.toNat = roundUp (roundUp (base + 32) 8 + 128) 4096 + n.toNat * 0x20000 + 40 := by
  have hn' : n.toNat ≠ 0 := fun h => hn (UInt64.toNat_inj.mp h)
  rw [bootEnd, if_neg hn']

/-- What the places are compared with. -/
theorem Fits.bounds {base size n : UInt64} (h : Fits base size n) :
    base.toNat + 32 ≤ roundUp (base.toNat + 32) 8 ∧
      roundUp (base.toNat + 32) 8 + 168 ≤ bootEnd base.toNat n.toNat ∧
      bootEnd base.toNat n.toNat ≤ base.toNat + size.toNat ∧ base.toNat + size.toNat < 2 ^ 64 :=
  ⟨le_roundUp _ (by decide), fixed_le_bootEnd _ _, h.room, h.bounded⟩

private theorem toNat_slotsEnd {base n : UInt64} {fixed : Nat}
    (hend : (directoryPlace base + 24).toNat = fixed)
    (hroom : (if n.toNat = 0 then fixed else roundUp fixed 4096 + n.toNat * 0x20000) < 2 ^ 64) :
    (n ≠ 0 → (slotsPlace base).toNat = roundUp fixed 4096) ∧
      (n * Limits.slotSize).toNat = n.toNat * 0x20000 ∧
      (slotsEnd base n).toNat =
        if n.toNat = 0 then fixed else roundUp fixed 4096 + n.toNat * 0x20000 := by
  have hsize : Limits.slotSize.toNat = 0x20000 := rfl
  by_cases hn : n = 0
  · subst hn
    exact ⟨fun h => absurd rfl h, rfl, hend⟩
  · have hn' : n.toNat ≠ 0 := fun h => hn (UInt64.toNat_inj.mp h)
    rw [if_neg hn'] at hroom ⊢
    have hslots : (slotsPlace base).toNat = roundUp fixed 4096 := by
      rw [slotsPlace, toNat_alignUp_of_lt (by decide), hend]
      · rfl
      · rw [hend]
        change roundUp fixed 4096 < 2 ^ 64
        omega
    have harea : (n * Limits.slotSize).toNat = n.toNat * 0x20000 := by
      rw [toNat_mul_of_lt (by rw [hsize]; omega), hsize]
    refine ⟨fun _ => hslots, harea, ?_⟩
    rw [slotsEnd, if_neg hn, toNat_add_of_lt (by omega), hslots, harea]

theorem Fits.places {base size n : UInt64} (h : Fits base size n) : Places base n := by
  obtain ⟨hle, hfixed, hroom, hbounded⟩ := h.bounds
  have hdvd : 8 ∣ roundUp (base.toNat + 32) 8 := dvd_roundUp _ _
  have hheader : Arena.headerSize.toNat = 32 := rfl
  have hsmall : (24 : UInt64).toNat = 24 := rfl
  have hlarge : (56 : UInt64).toNat = 56 := rfl
  have hword : (8 : UInt64).toNat = 8 := rfl
  have hbottom : (base + Arena.headerSize).toNat = base.toNat + 32 :=
    toNat_add_of_lt (by omega)
  have hinfo : (infoPlace base).toNat = roundUp (base.toNat + 32) 8 := by
    rw [infoPlace, toNat_alignUp_of_lt (by decide) (by rw [hbottom, hword]; omega), hbottom, hword]
  have hkernel : (kernelPlace base).toNat = (infoPlace base).toNat + 24 :=
    next_place (by omega) (by decide) (by omega)
  have hobjects : (objectsPlace base).toNat = (kernelPlace base).toNat + 56 :=
    next_place (by omega) (by decide) (by omega)
  have hdirectory : (directoryPlace base).toNat = (objectsPlace base).toNat + 24 :=
    next_place (by omega) (by decide) (by omega)
  have hend : (directoryPlace base + 24).toNat = roundUp (base.toNat + 32) 8 + 128 := by
    rw [toNat_add_of_lt (by omega)]
    omega
  have hboot : bootEnd base.toNat n.toNat = (if n.toNat = 0 then roundUp (base.toNat + 32) 8 + 128
      else roundUp (roundUp (base.toNat + 32) 8 + 128) 4096 + n.toNat * 0x20000) + 40 := rfl
  obtain ⟨hslots, harea, hslotsEnd⟩ := toNat_slotsEnd (n := n) hend (by omega)
  have hpage : 4096 ∣ roundUp (roundUp (base.toNat + 32) 8 + 128) 4096 := dvd_roundUp _ _
  have hloader : (loaderPlace base n).toNat = (slotsEnd base n).toNat := by
    apply toNat_alignUp_of_dvd (by decide)
    rw [hslotsEnd]
    change 8 ∣ _
    split
    · omega
    · omega
  exact ⟨hbottom, hinfo, by omega, by omega, by omega, hslots, harea, by omega, hloader⟩

end EmbeddedApps.Kernel
