import EmbeddedApps.Proofs.Memory.Window
import Mathlib

/-!
# Copies

A copy goes from the lowest address up and takes each byte as it stands when its turn comes. So if
the target starts inside the source, the copy runs into bytes that it has written itself, and what
lies in front of the target comes again and again. In all other cases a copy might as well have
read everything before it wrote anything.
-/

namespace EmbeddedApps.Memory

/-- The bytes at `n` successive places, from the first place again after each `period` of them.
There is no way back if the period is zero. -/
def readRepeated (m : Memory) (a : Address) (period n : Nat) : Bytes :=
  (List.range n).map fun j => m.read (a + (j % period).toUInt64)

/-- Copies `n` bytes as they were before, wherever the two ranges lie. -/
def move (m : Memory) (target source : Address) (n : Nat) : Memory :=
  m.writeBytes target (m.readBytes source n)

@[simp] theorem length_readRepeated (m : Memory) (a : Address) (period n : Nat) :
    (m.readRepeated a period n).length = n := by simp [readRepeated]

private theorem mod_period_eq {period n j : Nat} (h : period = 0 ∨ n ≤ period) (hj : j < n) :
    j % period = j := by
  rcases h with h | h
  · rw [h, Nat.mod_zero]
  · exact Nat.mod_eq_of_lt (hj.trans_le h)

private theorem readRepeated_of_le (m : Memory) (a : Address) {period n : Nat}
    (h : period = 0 ∨ n ≤ period) : m.readRepeated a period n = m.readBytes a n := by
  apply List.map_congr_left
  intro j hj
  rw [mod_period_eq h (List.mem_range.mp hj)]

/-- Once the first byte is copied, the rest of the repeated source starts one place further on. The
place where the period ends is the target, and it holds the first byte of the source again. -/
private theorem read_write_next (m : Memory) (target source : Address) {j : Nat}
    (hj : j + 1 < 2 ^ 64) :
    (m.write target (m.read source)).read
        (source + 1 + (j % (target - source).toNat).toUInt64) =
      m.read (source + ((j + 1) % (target - source).toNat).toUInt64) := by
  have hword := (target - source).toNat_lt
  have htarget : source + (target - source).toNat.toUInt64 = target := by simp
  generalize (target - source).toNat = d at *
  have hle : j % d ≤ j := Nat.mod_le j d
  have hstep : source + 1 + (j % d).toUInt64 = source + (j % d + 1).toUInt64 := by
    rw [← toUInt64_add_one, UInt64.add_assoc, UInt64.add_comm 1]
  rw [hstep, read_write, ← Nat.mod_add_mod]
  by_cases hlast : j % d + 1 = d
  · rw [hlast, if_pos htarget, Nat.mod_self]
    simp
  · have hnext : (j % d + 1) % d = j % d + 1 := by
      rcases Nat.eq_zero_or_pos d with hd | hd
      · rw [hd, Nat.mod_zero, Nat.mod_zero]
      · have hlt := Nat.mod_lt j hd
        exact Nat.mod_eq_of_lt (by omega)
    have hne : source + (j % d + 1).toUInt64 ≠ target := by
      intro h
      rw [← htarget, UInt64.add_right_inj] at h
      have hnat := congrArg UInt64.toNat h
      rw [toNat_toUInt64_of_lt (by omega), toNat_toUInt64_of_lt hword] at hnat
      exact hlast hnat
    rw [if_neg hne, hnext]

private theorem readRepeated_succ (m : Memory) (target source : Address) {n : Nat}
    (hn : n + 1 ≤ 2 ^ 64) :
    m.readRepeated source (target - source).toNat (n + 1) =
      m.read source :: (m.write target (m.read source)).readRepeated (source + 1)
        (target - source).toNat n := by
  rw [readRepeated, List.range_succ_eq_map, List.map_cons, List.map_map, readRepeated]
  apply congrArg₂ List.cons
  · simp
  · apply List.map_congr_left
    intro j hj
    have hjn : j < n := List.mem_range.mp hj
    exact (read_write_next m target source (by omega)).symm

/-- A copy writes the source, repeated from where the target starts. -/
private theorem copy_eq_writeBytes_readRepeated (m : Memory) (target source : Address) {n : Nat}
    (hn : n ≤ 2 ^ 64) :
    m.copy target source n =
      m.writeBytes target (m.readRepeated source (target - source).toNat n) := by
  -- On the length. The two ends go on together, so their distance is the same all the way.
  induction n generalizing m target source with
  | zero => rfl
  | succ n ih =>
    have hdistance : target + 1 - (source + 1) = target - source := by
      rw [UInt64.sub_eq_iff_eq_add, ← UInt64.add_assoc, UInt64.sub_add_cancel]
    rw [copy, ih _ _ _ (by omega), hdistance, readRepeated_succ m target source hn, writeBytes]

/-- A copy is a move unless its target starts inside its source, behind the first byte. -/
theorem copy_eq_move (m : Memory) (target source : Address) {n : Nat} (hn : n ≤ 2 ^ 64)
    (h : (target - source).toNat = 0 ∨ n ≤ (target - source).toNat) :
    m.copy target source n = m.move target source n := by
  rw [copy_eq_writeBytes_readRepeated m target source hn, readRepeated_of_le m source h, move]

theorem copy_eq_writeBytes (m : Memory) (target source : Address) (n : Nat) (hn : n ≤ 2 ^ 64)
    (h : ∀ c, InWindow source n c → ¬InWindow target n c) :
    m.copy target source n = m.writeBytes target (m.readBytes source n) := by
  apply copy_eq_move m target source hn
  by_contra hnear
  apply h target
  · rw [InWindow]
    omega
  · rw [InWindow, UInt64.sub_self, UInt64.toNat_zero]
    omega

theorem read_copy_of_not_inWindow (m : Memory) {target source c : Address} {n : Nat}
    (hn : n ≤ 2 ^ 64) (h : ¬InWindow target n c) :
    (m.copy target source n).read c = m.read c := by
  rw [copy_eq_writeBytes_readRepeated m target source hn]
  apply read_writeBytes_of_not_inWindow m <;> rwa [length_readRepeated]

private theorem read_copy (m : Memory) (target source : Address) {n j : Nat} (hn : n ≤ 2 ^ 64)
    (hj : j < n) :
    (m.copy target source n).read (target + j.toUInt64) =
      m.read (source + (j % (target - source).toNat).toUInt64) := by
  rw [copy_eq_writeBytes_readRepeated m target source hn,
    read_writeBytes _ _ _ _ (by rwa [length_readRepeated]),
    toNat_add_toUInt64_sub target (hj.trans_le hn)]
  simp [readRepeated, hj]

section Buffer

variable {buffer : Address} {size target source n : Nat}

private theorem distance_of_le (htarget : target < 2 ^ 64) (h : source ≤ target) :
    (buffer + target.toUInt64 - (buffer + source.toUInt64)).toNat = target - source := by
  obtain ⟨d, rfl⟩ := Nat.exists_eq_add_of_le h
  rw [← add_toUInt64_add, toNat_add_toUInt64_sub _ (by omega), Nat.add_sub_cancel_left]

/-- From a source to a target in front of it the way leads around all of memory, which is further
than the copy goes. -/
private theorem distance_far (hbuffer : buffer.toNat + size ≤ 2 ^ 64)
    (htarget : target + n ≤ size) (hsource : source + n ≤ size)
    (hfar : target ≤ source ∨ source + n ≤ target) :
    (buffer + target.toUInt64 - (buffer + source.toUInt64)).toNat = 0 ∨
      n ≤ (buffer + target.toUInt64 - (buffer + source.toUInt64)).toNat := by
  rcases Nat.eq_zero_or_pos n with hn | hn
  · exact .inr (by omega)
  rcases Nat.lt_or_ge target source with hbefore | hbehind
  · right
    rw [UInt64.toNat_sub, toNat_add_toUInt64 (by omega), toNat_add_toUInt64 (by omega)]
    omega
  · rw [distance_of_le (by omega) hbehind]
    omega

/-- A copy inside a buffer. If the target starts no later than the source or behind its end, every
byte comes out as it was, just as in a move. If it starts inside the source, the bytes from the
source to the target come again and again. No other byte of memory changes. -/
theorem copy_moves_or_repeats (m : Memory) (hbuffer : buffer.toNat + size ≤ 2 ^ 64)
    (htarget : target + n ≤ size) (hsource : source + n ≤ size) :
    let place (i : Nat) : Address := buffer + i.toUInt64
    let m' := m.copy (place target) (place source) n
    (target ≤ source ∨ source + n ≤ target →
      (∀ j < n, m'.read (place (target + j)) = m.read (place (source + j))) ∧
        m' = m.move (place target) (place source) n) ∧
    (source < target → target < source + n → ∀ j < n,
      m'.read (place (target + j)) = m.read (place (source + j % (target - source)))) ∧
    ∀ c : Address, c.toNat < buffer.toNat + target ∨ buffer.toNat + target + n ≤ c.toNat →
      m'.read c = m.read c := by
  intro place m'
  have hword : n ≤ 2 ^ 64 := by omega
  have hread : ∀ j < n, m'.read (place (target + j)) =
      m.read (place (source + j % (place target - place source).toNat)) := by
    intro j hj
    have hcopied := read_copy m (place target) (place source) hword hj
    rwa [add_toUInt64_add, add_toUInt64_add] at hcopied
  refine ⟨?_, ?_, ?_⟩
  · intro hfar
    have hdistance := distance_far hbuffer htarget hsource hfar
    refine ⟨?_, copy_eq_move m _ _ hword hdistance⟩
    intro j hj
    rw [hread j hj, mod_period_eq hdistance hj]
  · intro hbehind hinside j hj
    rw [hread j hj, distance_of_le (by omega) hbehind.le]
  · intro c hc
    apply read_copy_of_not_inWindow m hword
    intro hin
    have hn : 0 < n := Nat.zero_lt_of_lt hin
    have hplace : (place target).toNat = buffer.toNat + target := toNat_add_toUInt64 (by omega)
    rw [inWindow_iff (by omega)] at hin
    omega

/-- Two bytes, copied to the place right behind them. -/
theorem copy_repeats_two_bytes :
    (4096 : Address).toNat + 6 ≤ 2 ^ 64 ∧ 2 + 4 ≤ 6 ∧ 0 + 4 ≤ 6 ∧ 0 < 2 ∧ 2 < 0 + 4 ∧
    ∀ j < 4, ((zeroed.writeBytes 4096 (text "abcdef")).copy 4098 4096 4).read
      (4096 + (2 + j).toUInt64) = (text "ababab").getD (2 + j) 0 := by
  have hbuffer : (4096 : Address).toNat + 6 ≤ 2 ^ 64 := by decide
  have htarget : 2 + 4 ≤ 6 := by decide
  have hsource : 0 + 4 ≤ 6 := by decide
  have hbehind : 0 < 2 := by decide
  have hinside : 2 < 0 + 4 := by decide
  refine ⟨hbuffer, htarget, hsource, hbehind, hinside, ?_⟩
  intro j hj
  have hrepeats := copy_moves_or_repeats (zeroed.writeBytes 4096 (text "abcdef")) hbuffer htarget
    hsource
  refine (hrepeats.2.1 hbehind hinside j hj).trans ?_
  interval_cases j <;> decide

end Buffer

end EmbeddedApps.Memory
