import EmbeddedApps.Memory.Lemmas
import EmbeddedApps.Proofs.Word.Arithmetic
import Mathlib

/-!
# Windows of memory

A window is a number of successive places, told apart from all others by their distance from the
first. Filling and clearing are writes of byte strings, and a write of a byte string shows in its
window and nowhere else.
-/

namespace EmbeddedApps.Memory

def InWindow (a : Address) (n : Nat) (c : Address) : Prop := (c - a).toNat < n

theorem inWindow_iff {a c : Address} {n : Nat} (h : a.toNat + n ≤ 2 ^ 64) :
    InWindow a n c ↔ a.toNat ≤ c.toNat ∧ c.toNat < a.toNat + n := by
  have ha := a.toNat_lt
  have hc := c.toNat_lt
  rw [InWindow, UInt64.toNat_sub]
  omega

private theorem inWindow_add {a : Address} {i n : Nat} (hi : i < n) :
    InWindow a n (a + i.toUInt64) := by
  rw [InWindow, UInt64.add_comm, UInt64.add_sub_cancel, Nat.toUInt64_eq, UInt64.toNat_ofNat']
  exact (Nat.mod_le i _).trans_lt hi

theorem read_writeBytes (m : Memory) (a c : Address) (bs : Bytes) (h : bs.length ≤ 2 ^ 64) :
    (m.writeBytes a bs).read c = bs[(c - a).toNat]?.getD (m.read c) := by
  induction bs generalizing m a with
  | nil => rfl
  | cons b bs ih =>
    rw [List.length_cons] at h
    rw [writeBytes, ih _ _ (by omega), read_write]
    have ha := a.toNat_lt
    have hc := c.toNat_lt
    by_cases hca : c = a
    · subst c
      have hlast : bs.length ≤ (a - (a + 1)).toNat := by
        rw [UInt64.toNat_sub, UInt64.toNat_add, UInt64.toNat_one]
        omega
      rw [List.getElem?_eq_none hlast, UInt64.sub_self]
      simp
    · have hstep : (c - a).toNat = (c - (a + 1)).toNat + 1 := by
        have hne := UInt64.toNat_inj.ne.mpr hca
        rw [UInt64.toNat_sub, UInt64.toNat_sub, UInt64.toNat_add, UInt64.toNat_one]
        omega
      rw [hstep, List.getElem?_cons_succ, if_neg hca]

theorem read_writeBytes_of_not_inWindow (m : Memory) {a c : Address} {bs : Bytes}
    (hlen : bs.length ≤ 2 ^ 64) (h : ¬InWindow a bs.length c) :
    (m.writeBytes a bs).read c = m.read c := by
  rw [read_writeBytes _ _ _ _ hlen, List.getElem?_eq_none (Nat.not_lt.mp h)]
  rfl

theorem writeBytes_append (m : Memory) (a : Address) (xs ys : Bytes) :
    m.writeBytes a (xs ++ ys) = (m.writeBytes a xs).writeBytes (a + xs.length.toUInt64) ys := by
  induction xs generalizing m a with
  | nil => simp [writeBytes]
  | cons x xs ih =>
    rw [List.cons_append, writeBytes, writeBytes, ih, List.length_cons]
    simp [UInt64.add_assoc, UInt64.add_comm]

private theorem fill_eq_writeBytes (m : Memory) (a : Address) (b : UInt8) (n : Nat) :
    m.fill a b n = m.writeBytes a (List.replicate n b) := by
  induction n generalizing m a with
  | zero => rfl
  | succ n ih => rw [fill, ih, List.replicate_succ, writeBytes]

theorem zero_eq_writeBytes (m : Memory) (a : Address) (n : Nat) :
    m.zero a n = m.writeBytes a (List.replicate n 0) := fill_eq_writeBytes m a 0 n

@[simp] theorem length_readBytes (m : Memory) (a : Address) (n : Nat) :
    (m.readBytes a n).length = n := by simp [readBytes]

theorem getElem_readBytes (m : Memory) (a : Address) {n i : Nat}
    (h : i < (m.readBytes a n).length) :
    (m.readBytes a n)[i] = m.read (a + i.toUInt64) := by simp [readBytes]

theorem readBytes_add (m : Memory) (a : Address) (n k : Nat) :
    m.readBytes a (n + k) = m.readBytes a n ++ m.readBytes (a + n.toUInt64) k := by
  rw [readBytes, List.range_add, List.map_append, List.map_map, readBytes, readBytes]
  simp [Function.comp_def, UInt64.add_assoc]

theorem take_drop_readBytes (m : Memory) (a : Address) {i k n : Nat} (h : i + k ≤ n) :
    ((m.readBytes a n).drop i).take k = m.readBytes (a + i.toUInt64) k := by
  obtain ⟨j, rfl⟩ := Nat.exists_eq_add_of_le h
  have hi := length_readBytes m a i
  have hk := length_readBytes m (a + i.toUInt64) k
  rw [Nat.add_assoc, readBytes_add, readBytes_add, List.drop_left' hi, List.take_left' hk]

theorem readBytes_congr {m m' : Memory} {a : Address} {n : Nat}
    (h : ∀ c, InWindow a n c → m.read c = m'.read c) : m.readBytes a n = m'.readBytes a n := by
  apply List.map_congr_left
  intro i hi
  exact h _ (inWindow_add (List.mem_range.mp hi))

theorem readBytes_writeBytes_of_disjoint (m : Memory) {a c : Address} {n : Nat} {bs : Bytes}
    (hlen : bs.length ≤ 2 ^ 64) (h : ∀ p, InWindow c n p → ¬InWindow a bs.length p) :
    (m.writeBytes a bs).readBytes c n = m.readBytes c n :=
  readBytes_congr fun p hp => read_writeBytes_of_not_inWindow m hlen (h p hp)

private theorem readBytes_writeBytes (m : Memory) (a : Address) (bs : Bytes) {i n : Nat}
    (hlen : bs.length ≤ 2 ^ 64) (hin : i + n ≤ bs.length) :
    (m.writeBytes a bs).readBytes (a + i.toUInt64) n = (bs.drop i).take n := by
  apply List.ext_getElem
  · rw [length_readBytes, List.length_take, List.length_drop]
    omega
  · intro j hj _
    rw [length_readBytes] at hj
    have hdist : (a + i.toUInt64 + j.toUInt64 - a).toNat = i + j := by
      rw [add_toUInt64_add, toNat_add_toUInt64_sub _ (by omega)]
    rw [getElem_readBytes, read_writeBytes _ _ _ _ hlen, hdist, List.getElem_take,
      List.getElem_drop, List.getElem?_eq_getElem (by omega)]
    rfl

theorem readBytes_writeBytes_self (m : Memory) (a : Address) (bs : Bytes)
    (hlen : bs.length ≤ 2 ^ 64) : (m.writeBytes a bs).readBytes a bs.length = bs := by
  have h := readBytes_writeBytes m a bs hlen (show 0 + bs.length ≤ bs.length by omega)
  simpa using h

theorem length_flatMap_encode (ws : List UInt64) :
    (ws.flatMap LittleEndian.encode).length = 8 * ws.length := by
  induction ws with
  | nil => rfl
  | cons w ws ih => simp [ih, Nat.mul_add, Nat.add_comm]

theorem take_drop_flatMap_encode (ws : List UInt64) {i : Nat} (h : i < ws.length) :
    ((ws.flatMap LittleEndian.encode).drop (8 * i)).take 8 = LittleEndian.encode ws[i] := by
  induction ws generalizing i with
  | nil => simp at h
  | cons w ws ih =>
    cases i with
    | zero => simp [List.take_append]
    | succ i =>
      have hnext : 8 * (i + 1) = (LittleEndian.encode w).length + 8 * i := by
        rw [LittleEndian.length_encode]
        omega
      rw [List.flatMap_cons, hnext, List.drop_length_add_append]
      exact ih (by simpa using h)

end EmbeddedApps.Memory
