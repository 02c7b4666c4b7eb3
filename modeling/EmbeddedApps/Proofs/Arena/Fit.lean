import EmbeddedApps.Proofs.Arena.Grants
import Mathlib

/-!
# When a block fits

An arena compares words: a padding that was rounded up modulo the word size, and what is left once
it is taken off. In a region that does not wrap around, the outcome is that of the comparison on
natural numbers, whatever the size and the alignment asked for.
-/

namespace EmbeddedApps

namespace Arena

private theorem within_performAll_fresh {base : Address} {capacity : UInt64}
    (hend : base.toNat + capacity.toNat < 2 ^ 64) (qs : List Request) :
    let a := ((fresh base capacity).performAll qs).2
    a.base = base ∧ a.capacity = capacity ∧
      a.Within (base.toNat + capacity.toNat) (base.toNat + a.used.toNat) := by
  intro a
  have h : Served (fresh base capacity) _ a := served_performAll (sound_fresh base capacity) qs
  have hbase : a.base = base := h.base
  have hcapacity : a.capacity = capacity := h.capacity
  have hused : a.used.toNat ≤ capacity.toNat := hcapacity ▸ h.sound
  exact ⟨hbase, hcapacity, by rw [hbase, hcapacity], by rw [hbase], by omega, hend⟩

/-- After any requests, a block is handed out if and only if its alignment is a power of two and
the block ends within the region when it starts at the least multiple of the alignment that is not
below the first free byte. Then it starts there, and all bytes up to its end are taken. Otherwise
nothing changes. -/
theorem allocate_isSome_iff_fits {base : Address} {capacity : UInt64} (hbase : 0 < base.toNat)
    (hend : base.toNat + capacity.toNat < 2 ^ 64) (qs : List Request) (size alignment : UInt64) :
    let a := ((fresh base capacity).performAll qs).2
    let multiples := {x | alignment.toNat ∣ x ∧ base.toNat + a.used.toNat ≤ x}
    let answer := a.allocate size alignment
    (answer.1.isSome = true ↔ (∃ k, alignment.toNat = 2 ^ k) ∧
      ∃ start, IsLeast multiples start ∧ start + size.toNat ≤ base.toNat + capacity.toNat) ∧
    (∀ p, answer.1 = some p → IsLeast multiples p.toNat ∧ answer.2.base = base ∧
      answer.2.capacity = capacity ∧ answer.2.used.toNat = p.toNat + size.toNat - base.toNat) ∧
    (answer.1 = none → answer.2 = a) := by
  intro a multiples answer
  obtain ⟨hstart, hcapacity, hwithin⟩ : a.base = base ∧ a.capacity = capacity ∧ a.Within _ _ :=
    within_performAll_fresh hend qs
  by_cases hroom : a.HasRoom size alignment
  · obtain ⟨p, a', hallocate, hbase', hcapacity'⟩ : ∃ p a',
        a.allocate size alignment = (some p, a') ∧ a'.base = a.base ∧ a'.capacity = a.capacity :=
      ⟨_, _, hwithin.allocate_of_hasRoom (Nat.add_pos_left hbase _) hroom, rfl, rfl⟩
    obtain ⟨hplace, hafter⟩ := hwithin.allocate hallocate
    have hused := hafter.top_eq
    obtain ⟨halign, hfits⟩ := hwithin.hasRoom_iff.mp hroom
    obtain ⟨k, -, hpower⟩ := (isPowerOfTwo_iff alignment).mp halign
    have hleast : IsLeast multiples p.toNat :=
      hplace ▸ isLeast_roundUp _ (pos_of_isPowerOfTwo halign)
    have hanswer : answer = (some p, a') := hallocate
    rw [hanswer]
    refine ⟨iff_of_true rfl ⟨⟨k, hpower⟩, p.toNat, hleast, hplace ▸ hfits⟩, ?_, nofun⟩
    intro p' hp
    obtain rfl := Option.some.inj hp
    refine ⟨hleast, hbase'.trans hstart, hcapacity'.trans hcapacity, ?_⟩
    rw [hbase', hstart] at hused
    dsimp only
    omega
  · have hanswer : answer = (none, a) := allocate_of_not_hasRoom hroom
    rw [hanswer]
    refine ⟨iff_of_false nofun ?_, nofun, fun _ => rfl⟩
    rintro ⟨⟨k, hpower⟩, start, hleast, hfits⟩
    have hword : k < 64 := (Nat.pow_lt_pow_iff_right (by decide)).mp (hpower ▸ alignment.toNat_lt)
    have halign := (isPowerOfTwo_iff alignment).mpr ⟨k, hword, hpower⟩
    obtain rfl := hleast.unique (isLeast_roundUp _ (pos_of_isPowerOfTwo halign))
    exact hroom (hwithin.hasRoom_iff.mpr ⟨halign, hfits⟩)

/-- Five bytes are taken of 64. At a multiple of eight, 56 more bytes are left and not one more. -/
theorem allocate_last_bytes :
    let a := ((fresh 0x1000 64).performAll [.allocate 5 1]).2
    (a.allocate 56 8).1.isSome = true ∧ a.allocate 57 8 = (none, a) := by
  intro a
  have hleast : IsLeast {x | 8 ∣ x ∧ 0x1005 ≤ x} 0x1008 := isLeast_roundUp 0x1005 (by decide)
  have hbase : 0 < (0x1000 : Address).toNat := by decide
  have hend : (0x1000 : Address).toNat + (64 : UInt64).toNat < 2 ^ 64 := by decide
  obtain ⟨hroom, -, -⟩ := allocate_isSome_iff_fits hbase hend [.allocate 5 1] 56 8
  obtain ⟨hnone, -, hsame⟩ := allocate_isSome_iff_fits hbase hend [.allocate 5 1] 57 8
  refine ⟨hroom.mpr ⟨⟨3, rfl⟩, 0x1008, hleast, by decide⟩, ?_⟩
  have hrefused : (a.allocate 57 8).1 = none := by
    rw [← Option.not_isSome_iff_eq_none, hnone]
    rintro ⟨-, start, hstart, hfits⟩
    obtain rfl := hstart.unique hleast
    exact absurd hfits (by decide)
  exact Prod.ext hrefused (hsame hrefused)

end Arena

end EmbeddedApps
