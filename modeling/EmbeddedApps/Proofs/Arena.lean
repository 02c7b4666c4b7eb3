import EmbeddedApps.Arena
import EmbeddedApps.Proofs.Word.Arithmetic
import Mathlib

/-!
# Blocks of an arena

An arena is described by its first free byte. A block that fits starts at the least multiple of
its alignment from there on, and the first free byte is then the one behind it.
-/

namespace EmbeddedApps.Arena

/-- The arena of which `top` is the first byte not taken. -/
def upTo (base : Address) (capacity : UInt64) (top : Address) : Arena :=
  ⟨base, capacity, top - base⟩

private theorem position_upTo (base : Address) (capacity : UInt64) (top : Address) :
    (upTo base capacity top).position = top := by
  rw [position, upTo, UInt64.add_comm, UInt64.sub_add_cancel]

theorem fresh_eq_upTo (base : Address) (capacity : UInt64) :
    fresh base capacity = upTo base capacity base := by
  rw [fresh, upTo, UInt64.sub_self]

theorem eq_fresh_of_ofRegion? {base : Address} {size : UInt64} {a : Arena}
    (h : ofRegion? ⟨some base, size⟩ = some a) :
    headerSize < size ∧ a = fresh (base + headerSize) (size - headerSize) := by
  rw [ofRegion?, Option.bind_some] at h
  split at h
  · cases h
  · rename_i hlarge
    exact ⟨UInt64.not_le.mp hlarge, (Option.some.inj h).symm⟩

private theorem used_after (base top start size : UInt64) :
    top - base + (start - top + size) = start + size - base := by
  apply UInt64.toNat_inj.mp
  have hb := base.toNat_lt
  have ht := top.toNat_lt
  have hs := start.toNat_lt
  have hz := size.toNat_lt
  simp only [UInt64.toNat_sub, UInt64.toNat_add]
  omega

/-- A block of this kind still fits behind what was taken, the skipped bytes included. -/
structure HasRoom (a : Arena) (size alignment : UInt64) : Prop where
  powerOfTwo : isPowerOfTwo alignment = true
  fits : (alignUp a.position alignment - a.position).toNat + size.toNat ≤ a.free.toNat

variable {a : Arena} {size alignment : UInt64}

private theorem fits_iff (a : Arena) (start size : UInt64) :
    ¬(start - a.position > a.free || size > a.free - (start - a.position)) = true ↔
      (start - a.position).toNat + size.toNat ≤ a.free.toNat := by
  rw [Bool.or_eq_true, decide_eq_true_eq, decide_eq_true_eq, not_or, gt_iff_lt, gt_iff_lt,
    UInt64.not_lt, UInt64.not_lt, UInt64.le_iff_toNat_le]
  constructor
  · rintro ⟨hskip, hsize⟩
    rw [UInt64.le_iff_toNat_le,
      UInt64.toNat_sub_of_le _ _ (UInt64.le_iff_toNat_le.mpr hskip)] at hsize
    omega
  · intro h
    have hskip : (start - a.position).toNat ≤ a.free.toNat := by omega
    refine ⟨hskip, ?_⟩
    rw [UInt64.le_iff_toNat_le, UInt64.toNat_sub_of_le _ _ (UInt64.le_iff_toNat_le.mpr hskip)]
    omega

theorem allocate_of_hasRoom (h : a.HasRoom size alignment) :
    a.allocate size alignment = (Address.pointer? (alignUp a.position alignment),
      { a with used := a.used + (alignUp a.position alignment - a.position + size) }) := by
  rw [allocate, if_pos h.powerOfTwo]
  exact if_neg ((fits_iff a _ size).mpr h.fits)

theorem allocate_of_not_hasRoom (h : ¬a.HasRoom size alignment) :
    a.allocate size alignment = (none, a) := by
  rw [allocate]
  by_cases ha : isPowerOfTwo alignment = true
  · rw [if_pos ha]
    apply if_pos
    by_contra hroom
    exact h ⟨ha, (fits_iff a _ size).mp hroom⟩
  · rw [if_neg ha]

def offset (base place : Address) : Nat := (place - base).toNat

def Sound (a : Arena) : Prop := a.used.toNat ≤ a.capacity.toNat

theorem HasRoom.offset_eq (h : a.HasRoom size alignment) (ha : a.Sound) :
    let start := alignUp a.position alignment
    let used := a.used + (start - a.position + size)
    a.used.toNat ≤ offset a.base start ∧ offset a.base start + size.toNat = used.toNat ∧
      used.toNat ≤ a.capacity.toNat := by
  intro start used
  have hfits : (start - (a.base + a.used)).toNat + size.toNat ≤ a.free.toNat := h.fits
  have hfree : a.free.toNat = a.capacity.toNat - a.used.toNat :=
    UInt64.toNat_sub_of_le _ _ (UInt64.le_iff_toNat_le.mpr ha)
  have hused : used = a.used + (start - (a.base + a.used) + size) := rfl
  have hcapacity := a.capacity.toNat_lt
  have hbase := a.base.toNat_lt
  have hstart := start.toNat_lt
  rw [Sound] at ha
  simp only [hused, offset, UInt64.toNat_sub, UInt64.toNat_add] at hfits ⊢
  omega

/-- An arena in which all bytes from `top` up to `limit` are still free, and these addresses do not
wrap around. -/
structure Within (a : Arena) (limit top : Nat) : Prop where
  limit_eq : a.base.toNat + a.capacity.toNat = limit
  top_eq : a.base.toNat + a.used.toNat = top
  top_le : top ≤ limit
  limit_lt : limit < 2 ^ 64

section Within

variable {limit top : Nat}

private theorem Within.toNat_position (h : a.Within limit top) : a.position.toNat = top := by
  obtain ⟨-, htop, hle, hlt⟩ := h
  rw [position, toNat_add_of_lt (by omega), htop]

private theorem Within.toNat_free (h : a.Within limit top) : a.free.toNat = limit - top := by
  obtain ⟨hlimit, htop, hle, -⟩ := h
  rw [free, UInt64.toNat_sub_of_le _ _ (by rw [UInt64.le_iff_toNat_le]; omega)]
  omega

theorem Within.hasRoom_iff (h : a.Within limit top) :
    a.HasRoom size alignment ↔ isPowerOfTwo alignment = true ∧
      roundUp top alignment.toNat + size.toNat ≤ limit := by
  have hposition := h.toNat_position
  have hfree := h.toNat_free
  obtain ⟨-, -, hle, hlt⟩ := h
  have hfits (halign : isPowerOfTwo alignment = true) :
      (alignUp a.position alignment - a.position).toNat + size.toNat ≤ a.free.toNat ↔
        roundUp top alignment.toNat + size.toNat ≤ limit := by
    obtain ⟨k, hk, hpow⟩ := (isPowerOfTwo_iff alignment).mp halign
    have hpos := pos_of_isPowerOfTwo halign
    have hup := le_roundUp top hpos
    have hnear := roundUp_lt_add top hpos
    have hstart := toNat_alignUp a.position halign
    have hsmall : alignment.toNat ≤ 2 ^ 63 := hpow ▸ Nat.pow_le_pow_right (by decide) (by omega)
    -- The last multiple is the word size itself. It comes out as zero, and the padding up to it is
    -- more than any region has left.
    have hword : roundUp top alignment.toNat ≤ 2 ^ 64 :=
      roundUp_le_of_dvd (by omega) (hpow ▸ Nat.pow_dvd_pow 2 hk.le)
    rw [hposition] at hstart
    rw [UInt64.toNat_sub, hstart, hposition, hfree]
    omega
  constructor
  · intro hroom
    exact ⟨hroom.powerOfTwo, (hfits hroom.powerOfTwo).mp hroom.fits⟩
  · rintro ⟨halign, hend⟩
    exact ⟨halign, (hfits halign).mpr hend⟩

private theorem Within.toNat_start (h : a.Within limit top) (hroom : a.HasRoom size alignment) :
    (alignUp a.position alignment).toNat = roundUp top alignment.toNat := by
  obtain ⟨halign, hend⟩ := h.hasRoom_iff.mp hroom
  have hlimit := h.limit_lt
  have hposition := h.toNat_position
  rw [toNat_alignUp_of_lt halign (by rw [hposition]; omega), hposition]

/-- A block for which there is room has a place, unless the region starts at address zero. -/
theorem Within.allocate_of_hasRoom (h : a.Within limit top) (htop : 0 < top)
    (hroom : a.HasRoom size alignment) :
    a.allocate size alignment = (some (alignUp a.position alignment),
      { a with used := a.used + (alignUp a.position alignment - a.position + size) }) := by
  have hup := le_roundUp top (pos_of_isPowerOfTwo hroom.powerOfTwo)
  have hstart := h.toNat_start hroom
  rw [Arena.allocate_of_hasRoom hroom, Address.pointer?, if_neg]
  rw [← UInt64.toNat_inj, hstart, UInt64.toNat_zero]
  omega

/-- A block starts at the least multiple of its alignment, and the bytes behind it are free. -/
theorem Within.allocate {a' : Arena} {p : Address} (h : a.Within limit top)
    (hallocate : a.allocate size alignment = (some p, a')) :
    p.toNat = roundUp top alignment.toNat ∧
      a'.Within limit (roundUp top alignment.toNat + size.toNat) := by
  have hroom : a.HasRoom size alignment := by
    by_contra hnone
    rw [allocate_of_not_hasRoom hnone] at hallocate
    cases hallocate
  have hfits := (h.hasRoom_iff.mp hroom).2
  have hup := le_roundUp top (pos_of_isPowerOfTwo hroom.powerOfTwo)
  have hstart := h.toNat_start hroom
  rw [Arena.allocate_of_hasRoom hroom, Prod.mk.injEq, Address.pointer?] at hallocate
  obtain ⟨hplace, rfl⟩ := hallocate
  split at hplace
  · cases hplace
  obtain rfl := Option.some.inj hplace
  obtain ⟨hlimit, htop, hle, hlt⟩ := h
  have hsound : a.Sound := by
    rw [Sound]
    omega
  obtain ⟨hlow, hend, hhigh⟩ := hroom.offset_eq hsound
  rw [offset, UInt64.toNat_sub_of_le _ _ (by rw [UInt64.le_iff_toNat_le]; omega), hstart]
    at hlow hend
  refine ⟨hstart, hlimit, ?_, hfits, hlt⟩
  dsimp only
  omega

end Within

theorem allocate_of_fits {base top capacity size alignment : UInt64}
    (ha : isPowerOfTwo alignment = true) (htop : base.toNat ≤ top.toNat)
    (hpos : 0 < top.toNat) (hlimit : base.toNat + capacity.toNat < 2 ^ 64)
    (hfit : roundUp top.toNat alignment.toNat + size.toNat ≤ base.toNat + capacity.toNat) :
    (upTo base capacity top).allocate size alignment =
      (some (alignUp top alignment), upTo base capacity (alignUp top alignment + size)) := by
  have hle := le_roundUp top.toNat (pos_of_isPowerOfTwo ha)
  have hused : base.toNat + (top - base).toNat = top.toNat := by
    rw [UInt64.toNat_sub_of_le _ _ (UInt64.le_iff_toNat_le.mpr htop)]
    omega
  have hwithin : (upTo base capacity top).Within (base.toNat + capacity.toNat) top.toNat :=
    ⟨rfl, hused, by omega, hlimit⟩
  rw [hwithin.allocate_of_hasRoom hpos (hwithin.hasRoom_iff.mpr ⟨ha, hfit⟩), position_upTo, upTo,
    used_after]
  rfl

end EmbeddedApps.Arena
