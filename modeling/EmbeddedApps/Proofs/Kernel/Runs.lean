import EmbeddedApps.Proofs.Kernel.Outcomes
import EmbeddedApps.Proofs.Loader.Requests
import Mathlib

/-!
# Runs of a kernel with its loader

A kernel is set up on a fresh arena or by a start. From then on it is asked for steps and its
loader for apps, in any order, while memory and the boot information change as they like.
-/

namespace EmbeddedApps

inductive Event
  | act (a : Action)
  | load (q : LoadRequest)
  | memory (m : Memory)
  | info (i : BootRecord)

namespace System

variable {s t : System} {a : Action} {P : Kernel → Prop}

def load (q : LoadRequest) (s : System) : System :=
  match s.kernel.loader with
  | none => s
  | some l => { s with machine := (l.perform s.machine q).2 }

def handle (s : System) : Event → System
  | .act a => (s.perform a).2
  | .load q => s.load q
  | .memory m => { s with machine := { s.machine with memory := m } }
  | .info i => { s with kernel := { s.kernel with info := i } }

def run (s : System) (es : List Event) : System := es.foldl handle s

/-- A system whose kernel was just set up in a region: on a fresh arena, by a start up to its boot,
or by a whole start. -/
inductive Launched (layout : Region) : System → Prop
  | bare {arena : Arena} (info : BootRecord) (platform : Option Platform) (m : Machine)
      (region : Arena.ofRegion? layout = some arena) :
      Launched layout ⟨.unbooted arena info platform, m⟩
  | placed {arena arena₁ arena₂ : Arena} {i place : Address} (info : BootRecord)
      (platform : Option Platform) (m : Machine) (region : Arena.ofRegion? layout = some arena)
      (first : arena.allocate 24 8 = (some i, arena₁))
      (second : arena₁.allocate 56 8 = (some place, arena₂)) :
      Launched layout ⟨.placed arena₂ info platform i place,
        { m with memory := m.memory.writeBytes i info.content }⟩
  | started {info : BootRecord} {platform : Option Platform} {m t : Machine} {place : Address}
      {k : Kernel} (start : Kernel.start layout info platform m = (.ok (place, k), t)) :
      Launched layout ⟨k, t⟩

theorem perform_of_not_ready (h : s.kernel.isReady a = false) : s.perform a = (.notReady, s) := by
  rw [perform, h]
  rfl

theorem perform_boot (s : System) : s.perform .boot = Answer.conclude (boot s) := by
  simp only [perform, Kernel.isReady, if_true, Action.step, bind, EStateM.bind]
  cases boot s <;> rfl

theorem perform_startObjects (s : System) :
    s.perform .startObjects = Answer.conclude (startObjects s) := by
  simp only [perform, Kernel.isReady, if_true, Action.step, bind, EStateM.bind]
  cases startObjects s <;> rfl

theorem perform_buildDirectory (h : s.kernel.isReady .buildDirectory = true) :
    s.perform .buildDirectory = Answer.conclude (buildDirectory s) := by
  simp only [perform, h, if_true, Action.step, bind, EStateM.bind]
  cases buildDirectory s <;> rfl

theorem perform_buildLoader (h : s.kernel.isReady .buildLoader = true) :
    s.perform .buildLoader = Answer.conclude (buildLoader s) := by
  simp only [perform, h, if_true, Action.step, bind, EStateM.bind]
  cases buildLoader s <;> rfl

theorem perform_loadAll (h : s.kernel.isReady .loadAll = true) :
    s.perform .loadAll = (.done (some s.loadAll.1), s.loadAll.2) := by
  simp only [perform, h, if_true, Action.step]
  rfl

theorem kernel_load (q : LoadRequest) (s : System) : (s.load q).kernel = s.kernel := by
  rw [load]
  cases s.kernel.loader <;> rfl

theorem kernel_loadAll (s : System) : s.loadAll.2.kernel = s.kernel := by
  rw [loadAll]
  cases s.kernel.loader <;> rfl

/-- Lines and a flush are all that sets the step apart from the request to the loader. -/
theorem memory_loadAll (s : System) :
    s.loadAll.2.machine.memory = (s.load .all).machine.memory := by
  rw [loadAll, load]
  cases s.kernel.loader with
  | none => rfl
  | some l =>
    dsimp only [Loader.perform]
    generalize l.loadAll s.machine = r
    obtain ⟨⟨loaded, fault⟩, m⟩ := r
    rcases s.kernel.platform with _ | ⟨name, _ | _⟩ <;> cases fault <;> rfl

/-- No part of a boot and no change from outside breaks the property. -/
structure Kept (P : Kernel → Prop) : Prop where
  objects : ∀ {s r}, Starting s r → P s.kernel → P (Answer.conclude r).2.kernel
  directory : ∀ {s r}, Registration s r → P s.kernel → P (Answer.conclude r).2.kernel
  loader : ∀ {s r}, Equipment s r → P s.kernel → P (Answer.conclude r).2.kernel
  initialized : ∀ k, P k → P { k with initialized := true }
  info : ∀ k i, P k → P { k with info := i }

theorem Kept.boot (h : Kept P) {r : EStateM.Result Panic System Unit} (hboot : Booting s r)
    (hs : P s.kernel) : P (Answer.conclude r).2.kernel := by
  cases hboot with
  | badMagic m magic => exact hs
  | notStarted objects => exact h.objects objects hs
  | notRegistered objects directory => exact h.directory directory (h.objects objects hs)
  | notEquipped objects directory loader =>
    exact h.loader loader (h.directory directory (h.objects objects hs))
  | completed m magic objects directory loader =>
    exact h.initialized _ (h.loader loader (h.directory directory (h.objects objects hs)))

private theorem Kept.perform (h : Kept P) (a : Action) (s : System) (hs : P s.kernel) :
    P (s.perform a).2.kernel := by
  cases hready : s.kernel.isReady a with
  | false => rwa [perform_of_not_ready hready]
  | true =>
    cases a with
    | boot => simpa [perform_boot] using h.boot (booting s) hs
    | startObjects => simpa [perform_startObjects] using h.objects (starting s) hs
    | buildDirectory => simpa [perform_buildDirectory hready] using h.directory (registration s) hs
    | buildLoader => simpa [perform_buildLoader hready] using h.loader (equipment s) hs
    | loadAll => simpa [perform_loadAll hready, kernel_loadAll] using hs

theorem Kept.handle (h : Kept P) (e : Event) (s : System) (hs : P s.kernel) :
    P (s.handle e).kernel := by
  cases e with
  | act a => exact h.perform a s hs
  | load q => simpa [System.handle, kernel_load] using hs
  | memory m => exact hs
  | info i => exact h.info s.kernel i hs

theorem Kept.run (h : Kept P) (es : List Event) (s : System) (hs : P s.kernel) :
    P (s.run es).kernel := by
  induction es generalizing s with
  | nil => exact hs
  | cons e es ih => exact ih (s.handle e) (h.handle e s hs)

end System

end EmbeddedApps
