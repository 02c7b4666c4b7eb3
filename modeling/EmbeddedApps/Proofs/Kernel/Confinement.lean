import EmbeddedApps.Proofs.Kernel.Holdings
import EmbeddedApps.Proofs.Kernel.Room
import Mathlib

/-!
# Kernels that keep to their region

A kernel whose table and apps lie outside of its region reads nothing there and writes nothing
elsewhere. So whatever else is written to the region between its steps, it does the same: it ends up
in the same state and logs the same lines.
-/

namespace EmbeddedApps

/-- A region with room for an arena, and a table in memory. Neither the table nor the apps in it lie
in the region. -/
structure Setting where
  base : Address
  size : UInt64
  memory : Memory
  table : Address
  large : Arena.headerSize < size
  bounded : base.toNat + size.toNat < 2 ^ 64
  apart : Kernel.TableApart base size memory table
  apps : ∀ d, Directory.empty.buildFromTable memory (some table) = .ok d → ∀ i e,
    d.rangeOf? memory i = some e →
      e.stop.toNat ≤ base.toNat ∨ base.toNat + size.toNat ≤ e.start.toNat

namespace Setting

variable {c : Setting} {m : Memory} {d : Directory} {i : Int64} {app : Extent}

/-- The memory is that of the setting, but for what the region holds. -/
def Agrees (c : Setting) (m : Memory) : Prop :=
  c.memory.AgreesOutside c.base.toNat (c.base.toNat + c.size.toNat) m

def Confines (c : Setting) (ws : List Write) : Prop :=
  Confined c.base.toNat (c.base.toNat + c.size.toNat) ws

/-- The directory is new, or the table has made it. -/
def Knows (c : Setting) (d : Directory) : Prop :=
  d = .empty ∨ Directory.empty.buildFromTable c.memory (some c.table) = .ok d

theorem agrees_self (c : Setting) : c.Agrees c.memory := Memory.AgreesOutside.refl _ _ _

private theorem Agrees.writeAll (hm : c.Agrees m) {ws : List Write} (hws : c.Confines ws) :
    c.Agrees (m.writeAll ws) := Memory.AgreesOutside.writeAll hm c.bounded.le hws

private theorem buildFromTable_eq (hm : c.Agrees m) :
    Directory.empty.buildFromTable m (some c.table) =
      Directory.empty.buildFromTable c.memory (some c.table) :=
  Kernel.buildFromTable_of_agrees (by rintro a ⟨⟩; exact c.apart) hm

/-- A directory that the table has made, with what it says about the table. -/
private theorem Knows.cases (h : c.Knows d) :
    d = .empty ∨ ((Directory.tableAt c.memory c.table).Ascending c.memory ∧
      (c.memory.readWord c.table).toNat ≤ 65536 ∧
        d = ⟨some (Directory.tableAt c.memory c.table)⟩) := by
  rcases h with h | h
  · exact .inl h
  · obtain ⟨a, ⟨⟩, hcount, hasc, hd⟩ := BuildRequest.buildFromTable_empty_eq_ok_iff.mp h
    exact .inr ⟨hasc, hcount, hd⟩

theorem Knows.table (h : c.Knows d) :
    d.table = none ∨ d.table = some (Directory.tableAt c.memory c.table) := by
  obtain rfl | ⟨-, -, rfl⟩ := h.cases
  · exact .inl rfl
  · exact .inr rfl

private theorem Knows.rangeOf?_eq (h : c.Knows d) (hm : c.Agrees m) (i : Int64) :
    d.rangeOf? m i = d.rangeOf? c.memory i := by
  obtain rfl | ⟨-, hcount, rfl⟩ := h.cases
  · simp only [Directory.rangeOf?, Directory.empty, Option.bind_none]
  · exact (Directory.rangeOf?_congr (c.apart.same hcount hm) i).symm

private theorem Knows.printedLines_eq (h : c.Knows d) (hm : c.Agrees m) :
    d.printedLines m = d.printedLines c.memory := by
  obtain rfl | ⟨-, hcount, rfl⟩ := h.cases
  · rfl
  · exact (Directory.printedLines_congr (c.apart.same hcount hm)).symm

/-- Apps do not wrap around, and they lie outside of the region. -/
private theorem Knows.app_apart (h : c.Knows d) (happ : d.rangeOf? c.memory i = some app) :
    app.start.toNat + app.size.toNat < 2 ^ 64 ∧
      (app.start.toNat + app.size.toNat ≤ c.base.toNat ∨
        c.base.toNat + c.size.toNat ≤ app.start.toNat) := by
  obtain rfl | ⟨hasc, hcount, rfl⟩ := h.cases
  · cases happ
  have hbuild := BuildRequest.buildFromTable_empty_eq_ok_iff.mpr ⟨_, rfl, hcount, hasc, rfl⟩
  have hapart := c.apps _ hbuild i app happ
  obtain ⟨k, hk, hword, rfl⟩ := Directory.exists_of_rangeOf? happ
  rw [Directory.rangeOf?_of_lt _ hk hword] at happ
  obtain rfl := Option.some.inj happ
  have hup := hasc k hk
  have hle := UInt64.le_iff_toNat_le.mp hup
  have hstop := ((Directory.tableAt c.memory c.table).at c.memory (k.toUInt64 + 1)).toNat_lt
  rw [Extent.size, UInt64.toNat_sub_of_le _ _ hup]
  dsimp only at hapart ⊢
  omega

/-- A loader with its slots in the region takes everything from outside of it. -/
theorem shielded {l : Loader} (hd : c.Knows l.directory) (hbounded : l.slots.Bounded)
    (hslots : l.slots.count ≠ 0 → c.base.toNat ≤ l.slots.base.toNat ∧
      l.slots.base.toNat + l.slots.count.toNat * l.slots.size.toNat ≤
        c.base.toNat + c.size.toNat) :
    l.Shielded c.memory c.base.toNat (c.base.toNat + c.size.toNat) := by
  have happ {i source slot} (h : l.plan c.memory i = .ok (source, slot)) :=
    hd.app_apart (Loader.plan_eq_ok_iff.mp h).1
  refine ⟨c.bounded.le, ?_, ?_, ?_⟩
  · intro m hm i
    have hplan : l.plan m i = l.plan c.memory i := by
      rw [Loader.plan, Loader.plan, hd.rangeOf?_eq hm]
    rw [Loader.fetch, Loader.fetch, hplan]
    cases hok : l.plan c.memory i with
    | error f => rfl
    | ok p =>
      obtain ⟨hword, hapart⟩ := happ hok
      have hbytes : p.1.bytes m = p.1.bytes c.memory := by
        apply Extent.bytes_congr
        intro q hq
        rw [Extent.Holds, Memory.inWindow_iff hword.le] at hq
        exact hm q (by omega)
      simp only [Except.map, hbytes]
  · intro i cargo hcargo
    have hslot := (Loader.plan_eq_ok_iff.mp ((Loader.fetch_eq_ok_iff cargo).mp hcargo).1).2.1
    obtain ⟨hsize, hstart, hend⟩ := Slots.start_of_slot? hbounded hslot
    obtain ⟨k, hk, -⟩ := Slots.exists_of_slot? hslot
    have hsome : l.slots.count ≠ 0 := by
      intro hzero
      rw [hzero] at hk
      exact absurd hk (Nat.not_lt_zero k)
    have hin := hslots hsome
    rw [hsize]
    omega
  · intro i cargo hcargo
    obtain ⟨hword, hapart⟩ := happ ((Loader.fetch_eq_ok_iff cargo).mp hcargo).1
    exact ⟨hword.le, hapart⟩

end Setting

/-- A kernel in the region of a setting, with directories that the table of the setting has made. -/
structure Kernel.Grounded (c : Setting) (k : Kernel) : Prop where
  held : k.Held (c.base + Arena.headerSize) (c.size - Arena.headerSize)
  table : k.info.table = some c.table
  platform : ∀ p ∈ k.platform, p.hasInstructionCache = false
  directory : ∀ d, k.directory = some d → c.Knows d.toDirectory
  loader : ∀ l, k.loader = some l → c.Knows l.directory

namespace Kernel.Grounded

variable {c : Setting} {k : Kernel}

theorem bounds (h : k.Grounded c) {b : Block} (hb : b ∈ k.blocks) :
    c.base.toNat + 32 ≤ b.start.toNat ∧
      b.start.toNat + b.size.toNat ≤ c.base.toNat + c.size.toNat :=
  h.held.bounds c.large c.bounded hb

theorem shielded (h : k.Grounded c) {l : PlacedLoader} (hl : k.loader = some l) :
    l.Shielded c.memory c.base.toNat (c.base.toNat + c.size.toNat) := by
  have hhoused := h.held.loader l hl
  apply Setting.shielded (h.loader l hl) (h.held.slots_bounded c.large c.bounded hl)
  intro hne
  have hbounds := h.bounds (hhoused.slots hne)
  rw [← hhoused.width] at hbounds
  have harea := hhoused.area
  dsimp only at hbounds
  omega

private theorem confines_directory (h : k.Grounded c) {a : Address} (d : Directory)
    (ha : ⟨.directory, a, 24⟩ ∈ k.blocks) : c.Confines (PlacedDirectory.writes ⟨d, a⟩) := by
  obtain ⟨hlo, hhi⟩ := h.bounds ha
  exact PlacedDirectory.confined_writes c.bounded _ (Nat.le_of_add_right_le hlo) hhi

private theorem confines_loader (h : k.Grounded c) {l : PlacedLoader} (hl : k.loader = some l) :
    c.Confines l.writes := by
  obtain ⟨hlo, hhi⟩ := h.bounds (h.held.loader l hl).self
  exact l.confined_writes (Nat.le_of_add_right_le hlo) hhi

end Kernel.Grounded

/-- A step that tells nothing, with its end. -/
def Step.ended (p : Option Panic) (s : System) : EStateM.Result Panic System Unit :=
  match p with
  | none => .ok () s
  | some p => .error p s

/-- From the kernel `k`, whatever the region holds, the step ends in the same way, with the same
lines and with the same writes to the region. -/
def Step.Steady (c : Setting) (k : Kernel) (x : Step Unit) : Prop :=
  ∃ (p : Option Panic) (k' : Kernel) (e : Effect), k'.Grounded c ∧ c.Confines e.writes ∧
    ∀ s : Machine, c.Agrees s.memory → x ⟨k, s⟩ = Step.ended p ⟨k', s.after e⟩

namespace System

variable {c : Setting} {k k' : Kernel}

private theorem confines_nil (c : Setting) : c.Confines [] := Confined.nil _ _

private theorem steady_startObjects (hk : k.Grounded c) : Step.Steady c k startObjects := by
  rcases h : k.arena.allocate 24 8 with ⟨_ | a, arena⟩
  · have hheld :=
      (Starting.refused (s := ⟨k, .ofMemory c.memory⟩) (.ofMemory c.memory) h).held hk.held
    refine ⟨some .noRoomForObjects, { k with arena := arena }, ⟨[Panic.noRoomForObjects.line], []⟩,
      ⟨hheld, hk.table, hk.platform, hk.directory, hk.loader⟩, confines_nil c, ?_⟩
    intro s _
    rw [startObjects_of_refused (s := ⟨k, s⟩) h, Machine.say_eq_after]
    rfl
  · have hheld := (Starting.started (s := ⟨k, .ofMemory c.memory⟩) h).held hk.held
    let k' : Kernel := { k with
      arena := arena, objects := some ⟨0⟩, blocks := k.blocks ++ [⟨.objectCount, a, 24⟩] }
    refine ⟨none, k', ⟨[], []⟩, ⟨hheld, hk.table, hk.platform, hk.directory, hk.loader⟩,
      confines_nil c, ?_⟩
    intro s _
    rw [startObjects_of_allocate (s := ⟨k, s⟩) h, Machine.after_nil]
    rfl

/-- The construction of an object in a kernel's arena, which leaves the machine alone. -/
private theorem construct_cases (q : Purpose) (k : Kernel) :
    (∃ count a arena, k.objects = some count ∧
      k.arena.allocate q.footprint.size q.footprint.alignment = (some a, arena)) ∨
    ∃ arena, k.arena.Refuses q.footprint.size q.footprint.alignment arena ∧
      ∀ s, construct q ⟨k, s⟩ = .ok none ⟨{ k with arena := arena }, s⟩ := by
  rcases Option.eq_none_or_eq_some k.objects with hobjects | ⟨count, hobjects⟩
  · exact .inr ⟨k.arena, .inl rfl, fun s => construct_of_no_objects (s := ⟨k, s⟩) q hobjects⟩
  · rcases h : k.arena.allocate q.footprint.size q.footprint.alignment with ⟨_ | a, arena⟩
    · exact .inr ⟨arena, .inr h, fun s => construct_of_refused (s := ⟨k, s⟩) hobjects h⟩
    · exact .inl ⟨count, a, arena, hobjects, rfl⟩

private theorem steady_buildDirectory (hk : k.Grounded c) : Step.Steady c k buildDirectory := by
  rcases construct_cases .directory k with ⟨count, a, arena, hobjects, h⟩ | ⟨arena, hrefuses, h⟩
  · -- The new directory has a block whatever it is built from, so it is written to the region.
    have hgrounded {d : Directory} (hd : c.Knows d) :
        (withDirectory k count arena ⟨d, a⟩).Grounded c :=
      ⟨held_withDirectory hk.held h, hk.table, hk.platform, by rintro d' ⟨⟩; exact hd, hk.loader⟩
    have hblock (d : Directory) :
        ⟨.directory, a, 24⟩ ∈ (withDirectory k count arena ⟨d, a⟩).blocks :=
      List.mem_append_right _ (List.mem_singleton_self _)
    have hempty := hgrounded (.inl rfl)
    have hws (d : Directory) := (hempty.confines_directory .empty (hblock _)).append
      (hempty.confines_directory d (hblock _))
    have hbuild {s : Machine} (hs : c.Agrees s.memory) :
        Directory.empty.buildFromTable (s.memory.writeAll (PlacedDirectory.writes ⟨.empty, a⟩))
          k.info.table = Directory.empty.buildFromTable c.memory (some c.table) := by
      rw [hk.table]
      exact Setting.buildFromTable_eq (hs.writeAll (hempty.confines_directory .empty (hblock _)))
    cases htable : Directory.empty.buildFromTable c.memory (some c.table) with
    | error f =>
      refine ⟨some (.directoryRejected f.status), _,
        ⟨[.error f.message, (Panic.directoryRejected f.status).line], _⟩, hempty, hws .empty,
        fun s hs => ?_⟩
      exact buildDirectory_of_error (s := ⟨k, s⟩) hobjects h ((hbuild hs).trans htable)
    | ok d =>
      have hknown : c.Knows d := .inr htable
      refine ⟨none, _, ⟨d.printedLines c.memory, _⟩, hgrounded hknown, hws d, fun s hs => ?_⟩
      rw [buildDirectory_of_ok (s := ⟨k, s⟩) hobjects h ((hbuild hs).trans htable),
        hknown.printedLines_eq (hs.writeAll (hws d))]
      rfl
  · have hheld := (Registration.refused (s := ⟨k, .ofMemory c.memory⟩) (.ofMemory c.memory)
      hrefuses).held hk.held
    refine ⟨some .noRoomForDirectory, { k with arena := arena, directory := none },
      ⟨[Panic.noRoomForDirectory.line], []⟩,
      ⟨hheld, hk.table, hk.platform, (fun _ hd => nomatch hd), hk.loader⟩, confines_nil c, ?_⟩
    intro s _
    rw [buildDirectory_of_refused (h s), Machine.say_eq_after]
    rfl

/-- The reservation of slots in a kernel's arena, which does nothing to memory. -/
private theorem reserveSlots_cases (n : UInt64) (k : Kernel) :
    (∃ slots arena blocks, ∀ s,
      reserveSlots n ⟨k, s⟩ = .ok slots ⟨{ k with arena := arena, blocks := blocks }, s⟩) ∨
    ∃ arena, ∀ s, reserveSlots n ⟨k, s⟩ =
      .error (.noRoomForSlots n)
        ⟨{ k with arena := arena }, s.say (Panic.noRoomForSlots n).line⟩ := by
  by_cases hn : n = 0
  · subst hn
    exact .inl ⟨_, k.arena, k.blocks, fun s => reserveSlots_zero ⟨k, s⟩⟩
  rcases h : k.arena.allocate (n * Limits.slotSize) Limits.slotAlignment with ⟨_ | a, arena⟩
  · exact .inr ⟨arena, fun s => reserveSlots_of_refused (s := ⟨k, s⟩) hn h⟩
  · exact .inl ⟨⟨a, Limits.slotSize, n⟩, arena, k.blocks ++ [⟨.slots, a, n * Limits.slotSize⟩],
      fun s => reserveSlots_of_allocate (s := ⟨k, s⟩) hn h⟩

private theorem conclude_ended (p : Option Panic) (s : System) :
    (Answer.conclude (Step.ended p s)).2 = s := by cases p <;> rfl

private theorem held_of_buildLoader (hk : k.Grounded c) {p : Option Panic} {e : Effect}
    (h : ∀ s, buildLoader ⟨k, s⟩ = Step.ended p ⟨k', s.after e⟩) :
    k'.Held (c.base + Arena.headerSize) (c.size - Arena.headerSize) := by
  have hheld := (equipment ⟨k, .ofMemory c.memory⟩).held hk.held
  rwa [h, conclude_ended] at hheld

private theorem steady_buildLoader (hk : k.Grounded c) : Step.Steady c k buildLoader := by
  rcases Option.eq_none_or_eq_some k.directory with hdirectory | ⟨d, hdirectory⟩
  · refine ⟨none, k, ⟨[], []⟩, hk, confines_nil c, fun s _ => ?_⟩
    rw [buildLoader_of_no_directory (s := ⟨k, s⟩) hdirectory, Machine.after_nil]
    rfl
  rcases reserveSlots_cases (slotsFor d.count) k with
    ⟨slots, arena, blocks, hslots⟩ | ⟨arena, hslots⟩
  · let k₁ : Kernel := { k with arena := arena, blocks := blocks }
    rcases construct_cases .loader k₁ with ⟨count, a, arena', hobjects, h⟩ | ⟨arena', -, h⟩
    · let l : PlacedLoader := ⟨Loader.ofSlots d.toDirectory slots, a, d.address⟩
      let k₂ : Kernel := { k₁ with
        arena := arena'
        objects := some ⟨count.active + 1⟩
        blocks := blocks ++ [⟨.loader, a, 40⟩]
        loader := some l }
      have heq (s : Machine) : buildLoader ⟨k, s⟩ =
          Step.ended none ⟨k₂, s.after ⟨crowdLines d.count, l.writes⟩⟩ :=
        buildLoader_of_slots (s := ⟨k, s⟩) (t := ⟨k₁, s⟩) hdirectory (hslots s) hobjects h
      have hgrounded : k₂.Grounded c := by
        refine ⟨held_of_buildLoader hk heq, hk.table, hk.platform, hk.directory, ?_⟩
        rintro l' ⟨⟩
        exact hk.directory d hdirectory
      exact ⟨none, k₂, _, hgrounded, hgrounded.confines_loader rfl, fun s _ => heq s⟩
    · let k₂ : Kernel := { k₁ with arena := arena', loader := none }
      have heq (s : Machine) : buildLoader ⟨k, s⟩ = Step.ended (some .noRoomForLoader)
          ⟨k₂, s.after ⟨crowdLines d.count ++ [Panic.noRoomForLoader.line], []⟩⟩ := by
        rw [buildLoader_of_reserved (s := ⟨k, s⟩) hdirectory (hslots s), h]
        dsimp only
        rw [Machine.say_eq_after, ← Machine.after_append]
        rfl
      exact ⟨_, k₂, _, ⟨held_of_buildLoader hk heq, hk.table, hk.platform, hk.directory,
        fun _ hl => nomatch hl⟩, confines_nil c, fun s _ => heq s⟩
  · have heq (s : Machine) :
        buildLoader ⟨k, s⟩ = Step.ended (some (.noRoomForSlots (slotsFor d.count)))
        ⟨{ k with arena := arena },
          s.after ⟨[(Panic.noRoomForSlots (slotsFor d.count)).line], []⟩⟩ := by
      rw [buildLoader_of_cramped (s := ⟨k, s⟩) hdirectory (hslots s), Machine.say_eq_after]
      rfl
    exact ⟨some (.noRoomForSlots (slotsFor d.count)), { k with arena := arena },
      ⟨[(Panic.noRoomForSlots (slotsFor d.count)).line], []⟩,
      ⟨held_of_buildLoader hk heq, hk.table, hk.platform, hk.directory, hk.loader⟩,
      confines_nil c, fun s _ => heq s⟩

/-- A boot is steady as its three parts are. -/
private theorem steady_boot (hk : k.Grounded c) : Step.Steady c k boot := by
  by_cases hmagic : k.info.magic = Limits.bootMagic
  swap
  · refine ⟨some (.badMagic k.info.magic), k, ⟨[(Panic.badMagic k.info.magic).line], []⟩, hk,
      confines_nil c, fun s _ => ?_⟩
    exact (boot_of_bad_magic (s := ⟨k, s⟩) hmagic).trans (by rw [Machine.say_eq_after]; rfl)
  obtain ⟨p, k₁, e₁, hk₁, he₁, hobjects⟩ := steady_startObjects hk
  cases p with
  | some p =>
    exact ⟨some p, k₁, e₁, hk₁, he₁, fun s hs =>
      boot_of_not_started (s := ⟨k, s⟩) hmagic (hobjects s hs)⟩
  | none =>
  obtain ⟨p, k₂, e₂, hk₂, he₂, hdirectory⟩ := steady_buildDirectory hk₁
  have hsecond {s : Machine} (hs : c.Agrees s.memory) : buildDirectory ⟨k₁, s.after e₁⟩ =
      Step.ended p ⟨k₂, s.after (e₁ ++ e₂)⟩ := by
    rw [hdirectory _ (hs.writeAll he₁), Machine.after_append]
  cases p with
  | some p =>
    exact ⟨some p, k₂, e₁ ++ e₂, hk₂, he₁.append he₂, fun s hs =>
      boot_of_rejected (s := ⟨k, s⟩) hmagic (hobjects s hs) (hsecond hs)⟩
  | none =>
  obtain ⟨p, k₃, e₃, hk₃, he₃, hloader⟩ := steady_buildLoader hk₂
  have he := (he₁.append he₂).append he₃
  have hthird {s : Machine} (hs : c.Agrees s.memory) : buildLoader ⟨k₂, s.after (e₁ ++ e₂)⟩ =
      Step.ended p ⟨k₃, s.after (e₁ ++ e₂ ++ e₃)⟩ := by
    rw [hloader _ (hs.writeAll (he₁.append he₂)), Machine.after_append _ (e₁ ++ e₂)]
  cases p with
  | some p =>
    exact ⟨some p, k₃, e₁ ++ e₂ ++ e₃, hk₃, he, fun s hs =>
      boot_of_not_equipped (s := ⟨k, s⟩) hmagic (hobjects s hs) (hsecond hs) (hthird hs)⟩
  | none =>
    refine ⟨none, { k₃ with initialized := true },
      e₁ ++ e₂ ++ e₃ ++ ⟨[initializedLine k₃.platform], []⟩, ?_, he.append (Confined.nil _ _), ?_⟩
    · exact ⟨(kept_held _ _).initialized k₃ hk₃.held, hk₃.table, hk₃.platform, hk₃.directory,
        hk₃.loader⟩
    · intro s hs
      rw [boot_of_steps (s := ⟨k, s⟩) hmagic (hobjects s hs) (hsecond hs) (hthird hs),
        Machine.after_append _ (e₁ ++ e₂ ++ e₃)]
      rfl

/-- Whatever the region holds, a step from a grounded kernel is answered in the same way, leaves the
same kernel behind and has the same effect, with writes to the region only. -/
theorem perform_steady (hk : k.Grounded c) (a : Action) :
    ∃ (answer : Answer) (k' : Kernel) (e : Effect), k'.Grounded c ∧ c.Confines e.writes ∧
      ∀ s : Machine, c.Agrees s.memory → perform a ⟨k, s⟩ = (answer, ⟨k', s.after e⟩) := by
  cases hready : k.isReady a with
  | false =>
    refine ⟨.notReady, k, ⟨[], []⟩, hk, confines_nil c, fun s _ => ?_⟩
    rw [perform_of_not_ready (s := ⟨k, s⟩) hready, Machine.after_nil]
  | true =>
    have hends {x : Step Unit} (hx : Step.Steady c k x)
        (hperform : ∀ s, perform a ⟨k, s⟩ = Answer.conclude (x ⟨k, s⟩)) :
        ∃ (answer : Answer) (k' : Kernel) (e : Effect), k'.Grounded c ∧ c.Confines e.writes ∧
          ∀ s : Machine, c.Agrees s.memory → perform a ⟨k, s⟩ = (answer, ⟨k', s.after e⟩) := by
      obtain ⟨p, k', e, hk', he, heq⟩ := hx
      refine ⟨(Answer.conclude (Step.ended p ⟨k', .ofMemory c.memory⟩)).1, k', e, hk', he, ?_⟩
      intro s hs
      rw [hperform, heq s hs]
      cases p <;> rfl
    cases a with
    | boot => exact hends (steady_boot hk) fun s => perform_boot ⟨k, s⟩
    | startObjects => exact hends (steady_startObjects hk) fun s => perform_startObjects ⟨k, s⟩
    | buildDirectory =>
      exact hends (steady_buildDirectory hk) fun s => perform_buildDirectory (s := ⟨k, s⟩) hready
    | buildLoader =>
      exact hends (steady_buildLoader hk) fun s => perform_buildLoader (s := ⟨k, s⟩) hready
    | loadAll =>
      obtain ⟨l, hl⟩ := Option.isSome_iff_exists.mp hready
      have hshielded := hk.shielded hl
      have hrun {s : Machine} (hs : c.Agrees s.memory) :=
        hshielded.loadFrom_eq l.directory.count.toNat 0 hs
      generalize hloading : Loader.loading (l.fetch c.memory) l.directory.count.toNat 0 = r at hrun
      have hconfined := hshielded.confined_loading l.directory.count.toNat 0
      rw [hloading] at hconfined
      refine ⟨.done (some r.1.loaded), k, r.2 ++ ⟨stopLines r.1, []⟩, hk,
        hconfined.append (Confined.nil _ _), fun s hs => ?_⟩
      have hload : l.loadAll s = (r.1, s.after r.2) := hrun hs
      rw [perform_loadAll (s := ⟨k, s⟩) hready, loadAll_of_loader (s := ⟨k, s⟩) hl hk.platform,
        hload, Machine.after_append]

end System

/-- The event is a step, or all that it changes in memory `m` lies between the bounds. -/
inductive Event.Inside (m : Memory) (lo hi : Nat) : Event → Prop
  | act (a : Action) : Inside m lo hi (.act a)
  | memory {m' : Memory} (agrees : m.AgreesOutside lo hi m') : Inside m lo hi (.memory m')

def Event.isAct : Event → Bool
  | .act _ => true
  | _ => false

namespace System

variable {c : Setting} {k : Kernel}

/-- An object count has a block. -/
theorem kept_objectCount :
    Kept fun k => k.objects.isSome → ∃ a, ⟨.objectCount, a, 24⟩ ∈ k.blocks where
  objects hr h := by
    cases hr with
    | started allocated =>
      intro _
      exact ⟨_, List.mem_append_right _ (List.mem_singleton_self _)⟩
    | refused m allocated => exact h
  directory hr h := by
    cases hr with
    | built m objects allocated table =>
      intro _
      obtain ⟨a, ha⟩ := h (by rw [objects]; rfl)
      exact ⟨a, List.mem_append_left _ ha⟩
    | rejected f m objects allocated =>
      intro _
      obtain ⟨a, ha⟩ := h (by rw [objects]; rfl)
      exact ⟨a, List.mem_append_left _ ha⟩
    | refused m refuses => exact h
  loader hr h := by
    cases hr with
    | unneeded directory => exact h
    | cramped directory slots =>
      cases slots with
      | refused m hn allocated => exact h
    | refused m directory reserved refuses =>
      intro hsome
      obtain ⟨a, ha⟩ := h (by rwa [← reserved.objects])
      exact ⟨a, reserved.prefix_blocks.subset ha⟩
    | built m directory reserved objects allocated =>
      intro _
      obtain ⟨a, ha⟩ := h (by rw [← reserved.objects, objects]; rfl)
      exact ⟨a, List.mem_append_left _ (reserved.prefix_blocks.subset ha)⟩
  initialized _ h := h
  info _ _ h := h

/-- A kernel that was laid out in the region of a setting and told of its table is grounded. -/
theorem grounded_of_layOut? {info : BootRecord} {platform : Option Platform} {place : Address}
    {s : Machine} {t : System} (htable : info.table = some c.table)
    (hplatform : ∀ p ∈ platform, p.hasInstructionCache = false) (hs : c.Agrees s.memory)
    (h : Kernel.layOut? ⟨some c.base, c.size⟩ info platform s = some (place, t)) :
    t.kernel.Grounded c ∧ c.Agrees t.machine.memory ∧ t.kernel.objects = none ∧
      ⟨.kernel, place, 56⟩ ∈ t.kernel.blocks ∧ ∃ i, ⟨.bootInfo, i, 24⟩ ∈ t.kernel.blocks := by
  obtain ⟨arena, arena₁, arena₂, i, hregion, hinfo, hkernel, rfl⟩ := Kernel.exists_of_layOut? h
  obtain ⟨hlarge, rfl⟩ := Arena.eq_fresh_of_ofRegion? hregion
  have hgrounded : (Kernel.placed arena₂ info platform i place).Grounded c :=
    ⟨held_placed info platform hinfo hkernel, htable, hplatform, (fun _ hd => nomatch hd),
      fun _ hl => nomatch hl⟩
  have hfirst : ⟨.bootInfo, i, 24⟩ ∈ (Kernel.placed arena₂ info platform i place).blocks :=
    List.mem_cons_self
  obtain ⟨hlo, hhi⟩ := hgrounded.bounds hfirst
  have hws : c.Confines [⟨i, info.content⟩] :=
    info.confined_content (Nat.le_of_add_right_le hlo) hhi
  have hagrees := hs.writeAll hws
  rw [Memory.writeAll_cons, Memory.writeAll_nil] at hagrees
  dsimp only at hagrees ⊢
  exact ⟨hgrounded, hagrees, rfl, List.mem_cons_of_mem _ (List.mem_singleton_self _), i, hfirst⟩

/-- A kernel keeps to its region, and nothing that happens there between its steps has an influence
on it: kernel and log are those of its steps alone. -/
theorem run_inside (hk : k.Grounded c) {s t : Machine} (hs : c.Agrees s.memory)
    (ht : c.Agrees t.memory) (hlog : s.log = t.log) {es : List Event}
    (hes : ∀ e ∈ es, e.Inside c.memory c.base.toNat (c.base.toNat + c.size.toNat)) :
    let u := run ⟨k, s⟩ es
    let v := run ⟨k, t⟩ (es.filter Event.isAct)
    u.kernel.Grounded c ∧ c.Agrees u.machine.memory ∧ u.kernel = v.kernel ∧
      u.machine.log = v.machine.log := by
  induction es generalizing k s t with
  | nil => exact ⟨hk, hs, rfl, hlog⟩
  | cons e es ih =>
    obtain ⟨he, hmore⟩ := List.forall_mem_cons.mp hes
    cases he with
    | memory hm => exact ih hk hm ht hlog hmore
    | act a =>
      obtain ⟨answer, k', e, hk', hconfined, heq⟩ := perform_steady hk a
      have hfirst (s : Machine) (es : List Event) (hs : c.Agrees s.memory) :
          run ⟨k, s⟩ (.act a :: es) = run ⟨k', s.after e⟩ es := by
        rw [run, List.foldl_cons, handle, heq s hs]
        rfl
      have hlogs : (s.after e).log = (t.after e).log := by rw [Machine.after, Machine.after, hlog]
      rw [List.filter_cons_of_pos rfl, hfirst s _ hs, hfirst t _ ht]
      exact ih hk' (hs.writeAll hconfined) (ht.writeAll hconfined) hlogs hmore

end System

end EmbeddedApps
