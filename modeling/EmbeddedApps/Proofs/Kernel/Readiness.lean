import EmbeddedApps.Proofs.Directory.Attempts
import EmbeddedApps.Proofs.Kernel.Holdings
import Mathlib

/-!
# When an initialized kernel is ready

A boot declares the kernel initialized when its directory and its loader are built, and this is
never taken back. A later step may still replace the directory or drop the loader, and from then on
the kernel is initialized but not ready, until a new loader is built.
-/

namespace EmbeddedApps

/-- The kernel has a built directory, and a loader that reads this very directory. -/
def Kernel.Ready (k : Kernel) : Prop :=
  ∃ d l, k.directory = some d ∧ d.isBuilt = true ∧ k.loader = some l ∧
    l.directoryAddress = d.address

namespace System

variable {base : Address} {capacity size : UInt64} {s t : System} {e : Event}
  {r : EStateM.Result Panic System Unit}

def Boots (s : System) (e : Event) : Prop := e = .act .boot ∧ (s.perform .boot).1 = .done none

/-- What makes a kernel ready: a boot, or a new loader for a built directory. -/
def Restores (s : System) : Event → Prop
  | .act .boot => (s.perform .boot).1 = .done none
  | .act .buildLoader => (s.perform .buildLoader).1 = .done none ∧
      ∃ d, s.kernel.directory = some d ∧ d.isBuilt = true
  | _ => False

/-- What leaves a kernel that is not ready: a new directory, whether it is built or not, a loader
for which there is no room, and a boot that gives up once it has looked for room for a directory. -/
def Disrupts (s : System) : Event → Prop
  | .act .boot => ∃ p, (s.perform .boot).1 = .panicked p ∧ (∀ v, p ≠ .badMagic v) ∧
      p ≠ .noRoomForObjects
  | .act .buildDirectory => (s.perform .buildDirectory).1 ≠ .notReady
  | .act .buildLoader => (s.perform .buildLoader).1 = .panicked .noRoomForLoader
  | _ => False

/-- A step that is taken is never answered like one that is not. -/
private theorem conclude_ne_notReady (r : EStateM.Result Panic System Unit) :
    (Answer.conclude r).1 ≠ .notReady := by
  cases r <;> simp [Answer.conclude]

private theorem Starting.same (h : Starting s r) :
    let k := (Answer.conclude r).2.kernel
    k.initialized = s.kernel.initialized ∧ k.directory = s.kernel.directory ∧
      k.loader = s.kernel.loader := by
  cases h with
  | started allocated => exact ⟨rfl, rfl, rfl⟩
  | refused m allocated => exact ⟨rfl, rfl, rfl⟩

private theorem Registration.initialized (h : Registration s r) :
    (Answer.conclude r).2.kernel.initialized = s.kernel.initialized := by
  cases h with
  | built m objects allocated table => rfl
  | rejected f m objects allocated => rfl
  | refused m refuses => rfl

private theorem Equipment.initialized (h : Equipment s r) :
    (Answer.conclude r).2.kernel.initialized = s.kernel.initialized := by
  cases h with
  | unneeded directory => rfl
  | cramped directory slots =>
    cases slots with
    | refused m hn allocated => rfl
  | refused m directory reserved refuses =>
    have hsame := reserved.same.2
    exact hsame
  | built m directory reserved objects allocated =>
    have hsame := reserved.same.2
    exact hsame

private theorem Booting.initialized_iff (h : Booting s r) :
    (Answer.conclude r).2.kernel.initialized = true ↔
      s.kernel.initialized = true ∨ (Answer.conclude r).1 = .done none := by
  -- Where a boot gives up, its last part leaves the flag as it was, and so do those before it.
  cases h with
  | badMagic m magic => simp [Answer.conclude]
  | @notStarted q t objects =>
    have ht : t.kernel.initialized = s.kernel.initialized := objects.same.1
    simp [Answer.conclude, ht]
  | @notRegistered q t u objects directory =>
    have hu : u.kernel.initialized = s.kernel.initialized :=
      directory.initialized.trans objects.same.1
    simp [Answer.conclude, hu]
  | @notEquipped q t u v objects directory loader =>
    have hu : u.kernel.initialized = s.kernel.initialized :=
      directory.initialized.trans objects.same.1
    have hv : v.kernel.initialized = s.kernel.initialized := loader.initialized.trans hu
    simp [Answer.conclude, hv]
  | completed m magic objects directory loader => simp [Answer.conclude]

private theorem initialized_handle (s : System) (e : Event) :
    (s.handle e).kernel.initialized = true ↔ s.kernel.initialized = true ∨ Boots s e := by
  have hother {e : Event} (hsame : (s.handle e).kernel.initialized = s.kernel.initialized)
      (he : e ≠ .act .boot) :
      (s.handle e).kernel.initialized = true ↔ s.kernel.initialized = true ∨ Boots s e := by
    rw [hsame]
    exact ⟨Or.inl, fun h => h.resolve_right fun hboot => he hboot.1⟩
  cases e with
  | load q => exact hother (by rw [handle, kernel_load]) (by simp)
  | memory m => exact hother rfl (by simp)
  | info i => exact hother rfl (by simp)
  | act a =>
    cases hready : s.kernel.isReady a with
    | false =>
      apply hother
      · rw [handle, perform_of_not_ready hready]
      · rintro ⟨⟩
        cases hready
    | true =>
      cases a with
      | boot =>
        rw [handle, Boots, perform_boot, (booting s).initialized_iff]
        simp
      | startObjects =>
        apply hother
        · rw [handle, perform_startObjects]
          exact (starting s).same.1
        · simp
      | buildDirectory =>
        apply hother
        · rw [handle, perform_buildDirectory hready]
          exact (registration s).initialized
        · simp
      | buildLoader =>
        apply hother
        · rw [handle, perform_buildLoader hready]
          exact (equipment s).initialized
        · simp
      | loadAll => exact hother (by rw [handle, perform_loadAll hready, kernel_loadAll]) (by simp)

private theorem ready_congr {k k' : Kernel} (hdirectory : k'.directory = k.directory)
    (hloader : k'.loader = k.loader) : k'.Ready ↔ k.Ready := by
  rw [Kernel.Ready, Kernel.Ready, hdirectory, hloader]

private theorem Starting.ready_iff (hr : Starting s r) :
    (Answer.conclude r).2.kernel.Ready ↔ s.kernel.Ready := ready_congr hr.same.2.1 hr.same.2.2

private theorem Registration.not_ready (hr : Registration s r) (h : s.kernel.Held base capacity) :
    ¬(Answer.conclude r).2.kernel.Ready := by
  cases hr with
  | built m objects allocated table =>
    -- The loader of before reads a directory at another place than the new one's.
    rintro ⟨d', l, ⟨⟩, -, hl, hplace⟩
    exact h.start_ne (q := .directory) allocated (h.loader l hl).directory
      (show 0 < (24 : UInt64).toNat by decide) hplace
  | rejected f m objects allocated =>
    rintro ⟨d', l, ⟨⟩, hbuilt, -⟩
    cases hbuilt
  | refused m refuses =>
    rintro ⟨d', l, hd, -⟩
    cases hd

private theorem Registration.exists_built (hr : Registration s (.ok () t)) :
    ∃ d, t.kernel.directory = some d ∧ d.isBuilt = true := by
  cases hr with
  | built m objects allocated table =>
    obtain ⟨b, -, -, -, rfl⟩ := BuildRequest.buildFromTable_empty_eq_ok_iff.mp table
    exact ⟨_, rfl, rfl⟩

private theorem Equipment.ready_iff (hr : Equipment s r) :
    (Answer.conclude r).2.kernel.Ready ↔
      ((Answer.conclude r).1 = .done none ∧ ∃ d, s.kernel.directory = some d ∧ d.isBuilt = true) ∨
        s.kernel.Ready ∧ (Answer.conclude r).1 ≠ .panicked .noRoomForLoader := by
  cases hr with
  | unneeded directory => simp [Answer.conclude, Kernel.Ready, directory]
  | cramped directory slots =>
    cases slots with
    | refused m hn allocated =>
      simp only [Answer.conclude, reduceCtorEq, false_and, false_or, ne_eq, Answer.panicked.injEq,
        not_false_eq_true, and_true]
      exact ready_congr rfl rfl
  | refused m directory reserved refuses => simp [Answer.conclude, Kernel.Ready]
  | @built d slots t a arena count m directory reserved objects allocated =>
    have hsame := reserved.same.1.trans directory
    simp only [Answer.conclude, Kernel.Ready, directory, hsame]
    constructor
    · rintro ⟨d', l, ⟨⟩, hbuilt, -⟩
      exact .inl ⟨trivial, d, rfl, hbuilt⟩
    · rintro (⟨-, d', ⟨⟩, hbuilt⟩ | ⟨⟨d', l, ⟨⟩, hbuilt, -⟩, -⟩)
      · exact ⟨d, _, rfl, hbuilt, rfl, rfl⟩
      · exact ⟨d, _, rfl, hbuilt, rfl, rfl⟩

private theorem Booting.ready_iff (hr : Booting s r) (h : s.kernel.Held base capacity) :
    (Answer.conclude r).2.kernel.Ready ↔
      (Answer.conclude r).1 = .done none ∨ s.kernel.Ready ∧
        ¬∃ p, (Answer.conclude r).1 = .panicked p ∧ (∀ v, p ≠ .badMagic v) ∧
          p ≠ .noRoomForObjects := by
  cases hr with
  | badMagic m magic => simp [Answer.conclude]
  | @notStarted q t objects =>
    have hready := objects.ready_iff
    cases objects with
    | refused m allocated => simpa [Answer.conclude] using hready
  | @notRegistered q t u objects directory =>
    have hnot := directory.not_ready (objects.held h)
    cases directory with
    | rejected f m objects allocated => simpa [Answer.conclude] using hnot
    | refused m refuses => simpa [Answer.conclude] using hnot
  | @notEquipped q t u v objects directory loader =>
    have hnot : ¬u.kernel.Ready := directory.not_ready (objects.held h)
    have hready := loader.ready_iff
    cases loader with
    | cramped d slots =>
      cases slots with
      | refused m hn allocated => simpa [Answer.conclude, hnot] using hready
    | refused m d reserved refuses => simpa [Answer.conclude, hnot] using hready
  | @completed t u v m magic objects directory loader =>
    have hready := loader.ready_iff.mpr (.inl ⟨rfl, directory.exists_built⟩)
    simp only [Answer.conclude, true_or, iff_true]
    exact hready

/-- One event, whatever it is. -/
theorem ready_handle (h : s.kernel.Held base capacity) (e : Event) :
    (s.handle e).kernel.Ready ↔ Restores s e ∨ s.kernel.Ready ∧ ¬Disrupts s e := by
  have hother {e : Event} (hsame : (s.handle e).kernel.Ready ↔ s.kernel.Ready)
      (hrestores : ¬Restores s e) (hdisrupts : ¬Disrupts s e) :
      (s.handle e).kernel.Ready ↔ Restores s e ∨ s.kernel.Ready ∧ ¬Disrupts s e := by
    simp [hsame, hrestores, hdisrupts]
  cases e with
  | load q => exact hother (by rw [handle, kernel_load]) id id
  | memory m => exact hother Iff.rfl id id
  | info i => exact hother (ready_congr rfl rfl) id id
  | act a =>
    cases hready : s.kernel.isReady a with
    | false =>
      have hanswer := perform_of_not_ready hready
      cases a with
      | boot => cases hready
      | startObjects => cases hready
      | buildDirectory => exact hother (by rw [handle, hanswer]) id (by simp [Disrupts, hanswer])
      | buildLoader =>
        exact hother (by rw [handle, hanswer]) (by simp [Restores, hanswer])
          (by simp [Disrupts, hanswer])
      | loadAll => exact hother (by rw [handle, hanswer]) id id
    | true =>
      cases a with
      | boot =>
        rw [handle, Restores, Disrupts, perform_boot]
        exact (booting s).ready_iff h
      | startObjects =>
        apply hother _ id id
        rw [handle, perform_startObjects]
        exact (starting s).ready_iff
      | buildDirectory =>
        have hnot := (registration s).not_ready h
        have hanswer := conclude_ne_notReady (buildDirectory s)
        simp [handle, Restores, Disrupts, perform_buildDirectory hready, hnot, hanswer]
      | buildLoader =>
        rw [handle, Restores, Disrupts, perform_buildLoader hready]
        exact (equipment s).ready_iff
      | loadAll => exact hother (by rw [handle, perform_loadAll hready, kernel_loadAll]) id id

private theorem Launched.ready (h : Launched ⟨some base, size⟩ s)
    (hinit : s.kernel.initialized = true) :
    s.kernel.Ready := by
  cases h with
  | bare info platform m region => cases hinit
  | placed info platform m region first second => cases hinit
  | @started info platform m t place k start =>
    obtain ⟨arena, arena₁, arena₂, i, hregion, hinfo, hkernel, hboot⟩ :=
      Kernel.exists_of_start start
    obtain ⟨-, rfl⟩ := Arena.eq_fresh_of_ofRegion? hregion
    have hbooting := booting ⟨Kernel.placed arena₂ info platform i place,
      { m with memory := m.memory.writeBytes i info.content }⟩
    rw [hboot] at hbooting
    exact (hbooting.ready_iff (held_placed info platform hinfo hkernel)).mpr (.inl rfl)

private theorem run_concat (s : System) (es : List Event) (e : Event) :
    s.run (es ++ [e]) = (s.run es).handle e := List.foldl_append

/-- An initialized kernel is ready unless something disrupted it. -/
theorem ready_or_disrupted (hs : Launched ⟨some base, size⟩ s) (es : List Event)
    (hinit : (s.run es).kernel.initialized = true) :
    (s.run es).kernel.Ready ∨ ∃ fs f gs, es = fs ++ f :: gs ∧ Disrupts (s.run fs) f := by
  induction es using List.reverseRecOn with
  | nil => exact .inl (hs.ready hinit)
  | append_singleton es e ih =>
    have hheld := (kept_held _ _).run es s hs.held.2
    rw [run_concat] at hinit ⊢
    rw [ready_handle hheld]
    -- The flag was set by the last event, or before it, and then the kernel was ready before.
    by_cases hdisrupts : Disrupts (s.run es) e
    · exact .inr ⟨es, e, [], rfl, hdisrupts⟩
    rcases (initialized_handle _ e).mp hinit with hbefore | ⟨rfl, hboot⟩
    · rcases ih hbefore with hready | ⟨fs, f, gs, rfl, hf⟩
      · exact .inl (.inr ⟨hready, hdisrupts⟩)
      · exact .inr ⟨fs, f, gs ++ [e], by simp, hf⟩
    · exact .inl (.inl hboot)

/-- A kernel is declared initialized by a boot that is completed, and for good. It becomes ready by
such a boot or by a new loader for a built directory, and it is no longer ready once the directory
is replaced or the loader dropped. Unless that has happened, an initialized kernel is ready, and
its loader reads what its directory says. -/
theorem initialized_and_ready (hs : Launched ⟨some base, size⟩ s) (es : List Event) (e : Event) :
    let t := s.run es
    ((t.handle e).kernel.initialized = true ↔ t.kernel.initialized = true ∨ Boots t e) ∧
    ((t.handle e).kernel.Ready ↔ Restores t e ∨ t.kernel.Ready ∧ ¬Disrupts t e) ∧
    (t.kernel.initialized = true →
      t.kernel.Ready ∨ ∃ fs f gs, es = fs ++ f :: gs ∧ Disrupts (s.run fs) f) ∧
    (t.kernel.Ready → ∃ d l, t.kernel.directory = some d ∧ t.kernel.loader = some l ∧
      l.directory = d.toDirectory) := by
  intro t
  have ht := (kept_held _ _).run es s hs.held.2
  refine ⟨initialized_handle t e, ready_handle ht e, ready_or_disrupted hs es, ?_⟩
  rintro ⟨d, l, hd, -, hl, hplace⟩
  exact ⟨d, l, hd, hl, ht.bound d l hd hl hplace⟩

/-- A second directory is built after a boot. The loader still reads the first one. -/
theorem initialized_and_not_ready_after_directory :
    let s : System := ⟨.unbooted (.fresh 0x1020 0xfe0)
      ⟨Limits.bootMagic, Limits.bootVersion, some 0x100000, 0⟩ none, .ofMemory .zeroed⟩
    let t := (s.run [.act .boot]).handle (.act .buildDirectory)
    (t.kernel.directory.map (·.isBuilt)) = some true ∧ t.kernel.initialized = true ∧
      ¬t.kernel.Ready := by
  intro s t
  have hs : Launched ⟨some 0x1000, 0x1000⟩ s := .bare _ _ _ rfl
  obtain ⟨hinit, hready, -⟩ := initialized_and_ready hs [.act .boot] (.act .buildDirectory)
  have hboot : (s.run [.act .boot]).kernel.initialized = true := by decide +kernel
  have hreplaced : Disrupts (s.run [.act .boot]) (.act .buildDirectory) := by
    have hobjects : (s.run [.act .boot]).kernel.isReady .buildDirectory = true := by decide +kernel
    rw [Disrupts, perform_buildDirectory hobjects]
    exact conclude_ne_notReady _
  refine ⟨by decide +kernel, hinit.mpr (.inl hboot), ?_⟩
  rw [hready]
  simp [Restores, hreplaced]

/-- Initialized does not mean ready: after a boot, the table is taken away and a new directory is
asked for. -/
theorem not_ready_of_initialized :
    ¬∀ (layout : Region) (s : System) (es : List Event), Launched layout s →
      (s.run es).kernel.initialized = true → (s.run es).kernel.Ready := by
  intro hclaim
  let info : BootRecord := ⟨Limits.bootMagic, Limits.bootVersion, some 0x200000002000, 0⟩
  let s : System := ⟨.unbooted (.fresh 0x200000000020 0xfe0) info none, .ofMemory .zeroed⟩
  let es : List Event := [.act .boot, .info { info with table := none }, .act .buildDirectory]
  have hinit : (s.run es).kernel.initialized = true := by decide +kernel
  have hempty : (s.run es).kernel.directory.map (·.isBuilt) = some false := by decide +kernel
  obtain ⟨d, l, hd, hbuilt, -⟩ := hclaim ⟨some 0x200000000000, 0x1000⟩ s es (.bare _ _ _ rfl) hinit
  rw [hd, Option.map_some, hbuilt] at hempty
  cases hempty

end System

end EmbeddedApps
