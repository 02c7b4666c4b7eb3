import EmbeddedApps.Proofs.Arena
import EmbeddedApps.Proofs.Memory.Window
import Mathlib

/-!
# What an arena hands out

Blocks may be asked for and given back in any order, and sizes and alignments are arbitrary words.
A place is told by its distance from the start of the managed bytes, since addresses wrap around.
-/

namespace EmbeddedApps.Arena

variable {a : Arena} {size alignment : UInt64}

inductive Request
  | allocate (size alignment : UInt64)
  | release (block : Option Address) (size : UInt64)

structure Grant where
  place : Address
  size : UInt64
  alignment : UInt64

def perform (a : Arena) : Request → Option Grant × Arena
  | .allocate size alignment =>
    let (p, a) := a.allocate size alignment
    (p.map fun p => ⟨p, size, alignment⟩, a)
  | .release block size => (none, a.release block size)

/-- The blocks that are handed out on requests in order, and the arena after them. -/
def performAll (a : Arena) : List Request → List Grant × Arena
  | [] => ([], a)
  | q :: qs =>
    let (g, a) := a.perform q
    let (gs, a) := a.performAll qs
    (g.toList ++ gs, a)

namespace Grant

def Before (base : Address) (g h : Grant) : Prop :=
  offset base g.place + g.size.toNat ≤ offset base h.place

def Aligned (g : Grant) : Prop :=
  isPowerOfTwo g.alignment = true ∧ g.alignment.toNat ∣ g.place.toNat

def Holds (g : Grant) (p : Address) : Prop := Memory.InWindow g.place g.size.toNat p

theorem Before.not_holds {base : Address} {g h : Grant} (hgh : g.Before base h)
    (hend : offset base h.place + h.size.toNat < 2 ^ 64) {p : Address} (hp : g.Holds p) :
    ¬h.Holds p := by
  intro hp'
  have hbase := base.toNat_lt
  have hplace := p.toNat_lt
  have hfirst := g.place.toNat_lt
  have hsecond := h.place.toNat_lt
  rw [Holds, Memory.InWindow, UInt64.toNat_sub] at hp hp'
  rw [Before] at hgh
  simp only [offset, UInt64.toNat_sub] at hgh hend
  omega

end Grant

/-- What the arena `a'` has in common with the arena `a` from which it came by handing out the
blocks `gs`, and how these blocks lie. -/
structure Served (a : Arena) (gs : List Grant) (a' : Arena) : Prop where
  base : a'.base = a.base
  capacity : a'.capacity = a.capacity
  sound : a'.Sound
  used_le : a.used.toNat ≤ a'.used.toNat
  aligned : ∀ g ∈ gs, g.Aligned
  inside : ∀ g ∈ gs, a.used.toNat ≤ offset a.base g.place ∧
    offset a.base g.place + g.size.toNat ≤ a'.used.toNat
  ordered : gs.Pairwise (Grant.Before a.base)

namespace Served

variable {a' a'' : Arena} {gs hs : List Grant}

theorem nil (h : a.Sound) : Served a [] a :=
  ⟨rfl, rfl, h, le_rfl, by simp, by simp, .nil⟩

theorem append (h : Served a gs a') (h' : Served a' hs a'') : Served a (gs ++ hs) a'' := by
  have hlow := h.used_le
  have hhigh := h'.used_le
  have hlater := h'.inside
  have hordered := h'.ordered
  rw [h.base] at hlater hordered
  refine ⟨h'.base.trans h.base, h'.capacity.trans h.capacity, h'.sound, hlow.trans hhigh,
    ?_, ?_, ?_⟩
  · intro g hg
    rcases List.mem_append.mp hg with hg | hg
    · exact h.aligned g hg
    · exact h'.aligned g hg
  · intro g hg
    rcases List.mem_append.mp hg with hg | hg
    · have hin := h.inside g hg
      omega
    · have hin := hlater g hg
      omega
  · apply List.pairwise_append.mpr
    refine ⟨h.ordered, hordered, ?_⟩
    intro g hg g' hg'
    exact (h.inside g hg).2.trans (hlater g' hg').1

theorem apart (h : Served a gs a') : gs.Pairwise fun g g' => ∀ p, g.Holds p → ¬g'.Holds p := by
  apply h.ordered.imp_of_mem
  intro g g' _ hg' hbefore p
  have hend := (h.inside g' hg').2.trans_lt a'.used.toNat_lt
  exact hbefore.not_holds hend

end Served

theorem served_perform (ha : a.Sound) (q : Request) :
    Served a (a.perform q).1.toList (a.perform q).2 := by
  cases q with
  | release block size => exact Served.nil ha
  | allocate size alignment =>
    by_cases h : a.HasRoom size alignment
    · obtain ⟨hlow, hend, hhigh⟩ := h.offset_eq ha
      have hdvd := dvd_toNat_alignUp a.position h.powerOfTwo
      rw [perform, allocate_of_hasRoom h]
      -- The block is listed unless it starts at address zero; the arena is the same in both cases.
      cases hplace : Address.pointer? (alignUp a.position alignment) with
      | none => exact ⟨rfl, rfl, hhigh, by dsimp only; omega, by simp, by simp, .nil⟩
      | some p =>
        obtain rfl : alignUp a.position alignment = p := by
          rw [Address.pointer?] at hplace
          split at hplace
          · cases hplace
          · exact Option.some.inj hplace
        refine ⟨rfl, rfl, hhigh, by dsimp only; omega, ?_, ?_, List.pairwise_singleton _ _⟩
        · intro g hg
          obtain rfl := List.mem_singleton.mp hg
          exact ⟨h.powerOfTwo, hdvd⟩
        · intro g hg
          obtain rfl := List.mem_singleton.mp hg
          exact ⟨hlow, hend.le⟩
    · rw [perform, allocate_of_not_hasRoom h]
      exact Served.nil ha

theorem served_performAll (ha : a.Sound) (qs : List Request) :
    Served a (a.performAll qs).1 (a.performAll qs).2 := by
  induction qs generalizing a with
  | nil => exact Served.nil ha
  | cons q qs ih =>
    have hfirst := served_perform ha q
    exact hfirst.append (ih hfirst.sound)

theorem sound_fresh (base : Address) (capacity : UInt64) : (fresh base capacity).Sound :=
  Nat.zero_le _

private theorem performAll_append (a : Arena) (qs rs : List Request) :
    a.performAll (qs ++ rs) = ((a.performAll qs).1 ++ ((a.performAll qs).2.performAll rs).1,
      ((a.performAll qs).2.performAll rs).2) := by
  induction qs generalizing a with
  | nil => rfl
  | cons q qs ih => simp only [List.cons_append, performAll, ih, List.append_assoc]

/-- The blocks `gs` are all that was handed out on the way from a fresh arena to the arena `a`. -/
def HandedOut (base : Address) (capacity : UInt64) (gs : List Grant) (a : Arena) : Prop :=
  ∃ qs, (fresh base capacity).performAll qs = (gs, a)

def Refuses (a : Arena) (size alignment : UInt64) (a' : Arena) : Prop :=
  a' = a ∨ a.allocate size alignment = (none, a')

namespace HandedOut

variable {base p : Address} {capacity : UInt64} {gs : List Grant} {a' : Arena}

theorem fresh (base : Address) (capacity : UInt64) :
    HandedOut base capacity [] (Arena.fresh base capacity) := ⟨[], rfl⟩

private theorem snoc (h : HandedOut base capacity gs a) (q : Request) :
    HandedOut base capacity (gs ++ (a.perform q).1.toList) (a.perform q).2 := by
  obtain ⟨qs, hqs⟩ := h
  refine ⟨qs ++ [q], ?_⟩
  rw [performAll_append, hqs]
  simp only [performAll, List.append_nil]

theorem grant (h : HandedOut base capacity gs a)
    (hallocate : a.allocate size alignment = (some p, a')) :
    HandedOut base capacity (gs ++ [⟨p, size, alignment⟩]) a' := by
  have hnext := h.snoc (.allocate size alignment)
  rwa [perform, hallocate] at hnext

theorem refuse (h : HandedOut base capacity gs a) (hrefuses : a.Refuses size alignment a') :
    HandedOut base capacity gs a' := by
  rcases hrefuses with rfl | hallocate
  · exact h
  · have hnext := h.snoc (.allocate size alignment)
    rw [perform, hallocate] at hnext
    simpa using hnext

theorem served (h : HandedOut base capacity gs a) : Served (Arena.fresh base capacity) gs a := by
  obtain ⟨qs, hqs⟩ := h
  have hserved := served_performAll (sound_fresh base capacity) qs
  rwa [hqs] at hserved

end HandedOut

/-- The next request is granted a block if there is room, unless the block would start at zero. -/
private theorem isSome_perform_allocate (a : Arena) (size alignment : UInt64) :
    (a.perform (.allocate size alignment)).1.isSome = true ↔
      a.HasRoom size alignment ∧ alignUp a.position alignment ≠ 0 := by
  rw [perform]
  by_cases h : a.HasRoom size alignment
  · rw [allocate_of_hasRoom h]
    by_cases hzero : alignUp a.position alignment = 0
    · simp [Address.pointer?, hzero]
    · simp [Address.pointer?, hzero, h]
  · rw [allocate_of_not_hasRoom h]
    simp [h]

/-- Whatever an arena is asked for, it keeps its capacity and never takes more than that, and what
it has taken it keeps. A request is granted if and only if the alignment is a power of two, the
block fits and it does not start at address zero. Every block is aligned as asked for, lies within
the capacity and starts at or after the ends of those before it, so that no two of them overlap. -/
theorem performAll_fresh (base : Address) (capacity : UInt64) (qs : List Request) :
    let gs := ((fresh base capacity).performAll qs).1
    let a := ((fresh base capacity).performAll qs).2
    a.base = base ∧ a.capacity = capacity ∧ a.used ≤ capacity ∧
      a.used.toNat + a.free.toNat = capacity.toNat ∧
    (∀ q, a.used ≤ (a.perform q).2.used) ∧
    (∀ block size, a.perform (.release block size) = (none, a)) ∧
    (∀ size alignment, (a.perform (.allocate size alignment)).1.isSome = true ↔
      a.HasRoom size alignment ∧ alignUp a.position alignment ≠ 0) ∧
    (∀ g ∈ gs, isPowerOfTwo g.alignment = true ∧ g.alignment.toNat ∣ g.place.toNat ∧
      offset base g.place + g.size.toNat ≤ capacity.toNat) ∧
    gs.Pairwise (fun g h => offset base g.place + g.size.toNat ≤ offset base h.place) ∧
    gs.Pairwise (fun g h => ∀ p, g.Holds p → ¬h.Holds p) := by
  intro gs a
  have h : Served (fresh base capacity) gs a := served_performAll (sound_fresh base capacity) qs
  have hcapacity : a.capacity = capacity := h.capacity
  have hordered : gs.Pairwise (Grant.Before base) := h.ordered
  have hused : a.used.toNat ≤ capacity.toNat := hcapacity ▸ h.sound
  have hfree : a.free.toNat = capacity.toNat - a.used.toNat := by
    rw [free, hcapacity, UInt64.toNat_sub_of_le _ _ (UInt64.le_iff_toNat_le.mpr hused)]
  have hinside : ∀ g ∈ gs, offset base g.place + g.size.toNat ≤ capacity.toNat := by
    intro g hg
    exact (h.inside g hg).2.trans hused
  refine ⟨h.base, hcapacity, UInt64.le_iff_toNat_le.mpr hused, by omega, ?_, fun _ _ => rfl,
    isSome_perform_allocate a, ?_, hordered, ?_⟩
  · intro q
    exact UInt64.le_iff_toNat_le.mpr (served_perform h.sound q).used_le
  · intro g hg
    exact ⟨(h.aligned g hg).1, (h.aligned g hg).2, hinside g hg⟩
  · exact h.apart

end EmbeddedApps.Arena
