import EmbeddedApps.Proofs.Memory.Window
import Mathlib

/-!
# Sequences of writes

What a computation does to memory as byte strings that are written one after the other. Places
that lie outside of all of them keep their bytes.
-/

namespace EmbeddedApps

structure Write where
  start : Address
  bytes : Bytes

def Confined (lo hi : Nat) (ws : List Write) : Prop :=
  ∀ w ∈ ws, lo ≤ w.start.toNat ∧ w.start.toNat + w.bytes.length ≤ hi

namespace Confined

variable {lo hi : Nat} {ws us : List Write}

theorem nil (lo hi : Nat) : Confined lo hi [] := fun w hw => absurd hw (List.not_mem_nil (a := w))

theorem cons {w : Write} (hlo : lo ≤ w.start.toNat) (hhi : w.start.toNat + w.bytes.length ≤ hi)
    (h : Confined lo hi ws) : Confined lo hi (w :: ws) := by
  intro v hv
  rcases List.mem_cons.mp hv with rfl | hv
  · exact ⟨hlo, hhi⟩
  · exact h v hv

theorem append (h : Confined lo hi ws) (h' : Confined lo hi us) : Confined lo hi (ws ++ us) := by
  intro w hw
  rcases List.mem_append.mp hw with hw | hw
  · exact h w hw
  · exact h' w hw

theorem mono {lo' hi' : Nat} (h : Confined lo hi ws) (hlo : lo' ≤ lo) (hhi : hi ≤ hi') :
    Confined lo' hi' ws := fun w hw => ⟨hlo.trans (h w hw).1, (h w hw).2.trans hhi⟩

end Confined

namespace Memory

def writeAll (m : Memory) (ws : List Write) : Memory :=
  ws.foldl (fun m w => m.writeBytes w.start w.bytes) m

@[simp] theorem writeAll_nil (m : Memory) : m.writeAll [] = m := rfl

@[simp] theorem writeAll_cons (m : Memory) (w : Write) (ws : List Write) :
    m.writeAll (w :: ws) = (m.writeBytes w.start w.bytes).writeAll ws := rfl

theorem writeAll_append (m : Memory) (ws us : List Write) :
    m.writeAll (ws ++ us) = (m.writeAll ws).writeAll us := List.foldl_append

private theorem read_writeAll_of_confined {lo hi : Nat} {ws : List Write} (h : Confined lo hi ws)
    (hhi : hi ≤ 2 ^ 64) (m : Memory) {c : Address} (hc : c.toNat < lo ∨ hi ≤ c.toNat) :
    (m.writeAll ws).read c = m.read c := by
  induction ws generalizing m with
  | nil => rfl
  | cons w ws ih =>
    obtain ⟨hlow, hhigh⟩ := h w List.mem_cons_self
    rw [writeAll_cons, ih (fun v hv => h v (List.mem_cons_of_mem w hv))]
    apply read_writeBytes_of_not_inWindow m (by omega)
    rw [inWindow_iff (by omega)]
    omega

/-- Outside of the bounds, the second memory holds what the first one does. -/
def AgreesOutside (lo hi : Nat) (m m' : Memory) : Prop :=
  ∀ p : Address, p.toNat < lo ∨ hi ≤ p.toNat → m'.read p = m.read p

theorem AgreesOutside.refl (lo hi : Nat) (m : Memory) : AgreesOutside lo hi m m := fun _ _ => rfl

theorem AgreesOutside.writeAll {lo hi : Nat} {m m' : Memory} (h : AgreesOutside lo hi m m')
    (hhi : hi ≤ 2 ^ 64) {ws : List Write} (hws : Confined lo hi ws) :
    AgreesOutside lo hi m (m'.writeAll ws) := fun p hp =>
  (read_writeAll_of_confined hws hhi m' hp).trans (h p hp)

theorem readBytes_writeAll_of_confined {lo hi : Nat} {ws : List Write} (h : Confined lo hi ws)
    (hhi : hi ≤ 2 ^ 64) (m : Memory) {a : Address} {n : Nat} (hn : a.toNat + n ≤ 2 ^ 64)
    (ha : a.toNat + n ≤ lo ∨ hi ≤ a.toNat) :
    (m.writeAll ws).readBytes a n = m.readBytes a n := by
  apply readBytes_congr
  intro c hc
  rw [inWindow_iff hn] at hc
  exact read_writeAll_of_confined h hhi m (by omega)

end Memory

end EmbeddedApps
