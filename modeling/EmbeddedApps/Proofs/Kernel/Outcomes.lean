import EmbeddedApps.Kernel.Action
import EmbeddedApps.Proofs.Arena.Grants
import EmbeddedApps.Proofs.Kernel.Boot
import Mathlib

/-!
# How the steps of a boot end

Each step of a boot with all its outcomes: the answers of the arena and of the table that lead to
one, and the kernel that it leaves behind.
-/

namespace EmbeddedApps

/-- How a step that tells nothing is answered. -/
def Answer.conclude : EStateM.Result Panic System Unit → Answer × System
  | .ok _ t => (.done none, t)
  | .error p t => (.panicked p, t)

namespace System

variable {s t u v : System} {a : Address} {arena : Arena} {count : ObjectCount} {p : Panic}

theorem panic_eq {α : Type} (p : Panic) (s : System) :
    (panic p : Step α) s = .error p { s with machine := s.machine.say p.line } := rfl

private theorem reserve_of_refused {size alignment : UInt64} (q : Purpose)
    (h : s.kernel.arena.allocate size alignment = (none, arena)) :
    reserve q size alignment s =
      .ok none { s with kernel := { s.kernel with arena := arena } } := by
  simp only [reserve, bind, EStateM.bind, get, getThe, MonadStateOf.get, EStateM.get, set,
    MonadStateOf.set, EStateM.set, h]
  rfl

theorem construct_of_refused {q : Purpose} (hobjects : s.kernel.objects = some count)
    (h : s.kernel.arena.allocate q.footprint.size q.footprint.alignment = (none, arena)) :
    construct q s = .ok none { s with kernel := { s.kernel with arena := arena } } := by
  simp only [construct, bind, EStateM.bind, get, getThe, MonadStateOf.get, EStateM.get, hobjects,
    ObjectCount.place, h]
  rw [← hobjects]
  rfl

theorem construct_of_no_objects (q : Purpose) (hobjects : s.kernel.objects = none) :
    construct q s = .ok none s := by
  simp only [construct, bind, EStateM.bind, get, getThe, MonadStateOf.get, EStateM.get, hobjects]
  rfl

inductive Construction (q : Purpose) (s : System) :
    EStateM.Result Panic System (Option Address) → Prop
  | placed {a : Address} {arena : Arena} {count : ObjectCount}
      (objects : s.kernel.objects = some count)
      (allocated : s.kernel.arena.allocate q.footprint.size q.footprint.alignment =
        (some a, arena)) :
      Construction q s (.ok (some a) { s with kernel := { s.kernel with
        arena := arena, objects := some ⟨count.active + 1⟩,
        blocks := s.kernel.blocks ++ [⟨q, a, q.footprint.size⟩] } })
  | refused {arena : Arena}
      (refuses : s.kernel.arena.Refuses q.footprint.size q.footprint.alignment arena) :
      Construction q s (.ok none { s with kernel := { s.kernel with arena := arena } })

private theorem construction (q : Purpose) (s : System) : Construction q s (construct q s) := by
  cases hobjects : s.kernel.objects with
  | none =>
    rw [construct_of_no_objects q hobjects]
    exact .refused (.inl rfl)
  | some count =>
    cases h : s.kernel.arena.allocate q.footprint.size q.footprint.alignment with
    | mk place arena =>
      cases place with
      | none =>
        rw [construct_of_refused hobjects h]
        exact .refused (.inr h)
      | some a =>
        rw [construct_of_allocate hobjects h]
        exact .placed hobjects h

inductive Starting (s : System) : EStateM.Result Panic System Unit → Prop
  | started {a : Address} {arena : Arena}
      (allocated : s.kernel.arena.allocate 24 8 = (some a, arena)) :
      Starting s (.ok () { s with kernel := { s.kernel with
        arena := arena, objects := some ⟨0⟩,
        blocks := s.kernel.blocks ++ [⟨.objectCount, a, 24⟩] } })
  | refused {arena : Arena} (m : Machine)
      (allocated : s.kernel.arena.allocate 24 8 = (none, arena)) :
      Starting s (.error .noRoomForObjects ⟨{ s.kernel with arena := arena }, m⟩)

theorem startObjects_of_refused (h : s.kernel.arena.allocate 24 8 = (none, arena)) :
    startObjects s = .error .noRoomForObjects
      ⟨{ s.kernel with arena := arena }, s.machine.say Panic.noRoomForObjects.line⟩ := by
  have hreserve := reserve_of_refused .objectCount h
  simp only [startObjects, bind, EStateM.bind, Purpose.footprint, hreserve, panic_eq]

theorem starting (s : System) : Starting s (startObjects s) := by
  cases h : s.kernel.arena.allocate 24 8 with
  | mk place arena =>
    cases place with
    | none =>
      rw [startObjects_of_refused h]
      exact .refused _ h
    | some a =>
      rw [startObjects_of_allocate h]
      exact .started h

inductive Registration (s : System) : EStateM.Result Panic System Unit → Prop
  | built {a : Address} {arena : Arena} {count : ObjectCount} {d : Directory} (m : Machine)
      (objects : s.kernel.objects = some count)
      (allocated : s.kernel.arena.allocate 24 8 = (some a, arena))
      (table : Directory.empty.buildFromTable
        (s.machine.memory.writeAll (PlacedDirectory.writes ⟨.empty, a⟩)) s.kernel.info.table =
          .ok d) :
      Registration s (.ok () ⟨withDirectory s.kernel count arena ⟨d, a⟩, m⟩)
  | rejected {a : Address} {arena : Arena} {count : ObjectCount} (f : TableFault) (m : Machine)
      (objects : s.kernel.objects = some count)
      (allocated : s.kernel.arena.allocate 24 8 = (some a, arena)) :
      Registration s (.error (.directoryRejected f.status)
        ⟨withDirectory s.kernel count arena ⟨.empty, a⟩, m⟩)
  | refused {arena : Arena} (m : Machine) (refuses : s.kernel.arena.Refuses 24 8 arena) :
      Registration s (.error .noRoomForDirectory
        ⟨{ s.kernel with arena := arena, directory := none }, m⟩)

theorem buildDirectory_of_refused (h : construct .directory s = .ok none t) :
    buildDirectory s = .error .noRoomForDirectory
      ⟨{ t.kernel with directory := none }, t.machine.say Panic.noRoomForDirectory.line⟩ := by
  simp only [buildDirectory, bind, EStateM.bind, h, modify, modifyGet, MonadStateOf.modifyGet,
    EStateM.modifyGet, panic_eq]

theorem registration (s : System) : Registration s (buildDirectory s) := by
  have hconstruct := construction .directory s
  generalize hr : construct .directory s = r at hconstruct
  cases hconstruct with
  | refused hrefuses =>
    rw [buildDirectory_of_refused hr]
    exact .refused _ hrefuses
  | @placed a arena count hobjects hallocate =>
    cases htable : Directory.empty.buildFromTable
        (s.machine.memory.writeAll (PlacedDirectory.writes ⟨.empty, a⟩)) s.kernel.info.table with
    | ok d =>
      rw [buildDirectory_of_ok hobjects hallocate htable]
      exact .built _ hobjects hallocate htable
    | error f =>
      rw [buildDirectory_of_error hobjects hallocate htable]
      exact .rejected f _ hobjects hallocate

inductive Reservation (n : UInt64) (s : System) : EStateM.Result Panic System Slots → Prop
  | unneeded (count : n = 0) : Reservation n s (.ok ⟨0, Limits.slotSize, n⟩ s)
  | reserved {a : Address} {arena : Arena} (count : n ≠ 0)
      (allocated : s.kernel.arena.allocate (n * Limits.slotSize) Limits.slotAlignment =
        (some a, arena)) :
      Reservation n s (.ok ⟨a, Limits.slotSize, n⟩ { s with kernel := { s.kernel with
        arena := arena, blocks := s.kernel.blocks ++ [⟨.slots, a, n * Limits.slotSize⟩] } })
  | refused {arena : Arena} (m : Machine) (count : n ≠ 0)
      (allocated : s.kernel.arena.allocate (n * Limits.slotSize) Limits.slotAlignment =
        (none, arena)) :
      Reservation n s (.error (.noRoomForSlots n) ⟨{ s.kernel with arena := arena }, m⟩)

theorem reserveSlots_of_refused {n : UInt64} (hn : n ≠ 0)
    (h : s.kernel.arena.allocate (n * Limits.slotSize) Limits.slotAlignment = (none, arena)) :
    reserveSlots n s = .error (.noRoomForSlots n)
      ⟨{ s.kernel with arena := arena }, s.machine.say (Panic.noRoomForSlots n).line⟩ := by
  have hreserve := reserve_of_refused .slots h
  rw [reserveSlots, if_neg hn]
  simp only [bind, EStateM.bind, hreserve, panic_eq]

private theorem reservation (n : UInt64) (s : System) : Reservation n s (reserveSlots n s) := by
  by_cases hn : n = 0
  · subst hn
    exact .unneeded rfl
  cases h : s.kernel.arena.allocate (n * Limits.slotSize) Limits.slotAlignment with
  | mk place arena =>
    cases place with
    | none =>
      rw [reserveSlots_of_refused hn h]
      exact .refused _ hn h
    | some a =>
      rw [reserveSlots_of_allocate hn h]
      exact .reserved hn h

theorem Reservation.objects {n : UInt64} {slots : Slots} (h : Reservation n s (.ok slots t)) :
    t.kernel.objects = s.kernel.objects := by
  cases h with
  | unneeded count => rfl
  | reserved count allocated => rfl

theorem Reservation.same {n : UInt64} {slots : Slots} (h : Reservation n s (.ok slots t)) :
    t.kernel.directory = s.kernel.directory ∧ t.kernel.initialized = s.kernel.initialized := by
  cases h with
  | unneeded count => exact ⟨rfl, rfl⟩
  | reserved count allocated => exact ⟨rfl, rfl⟩

inductive Equipment (s : System) : EStateM.Result Panic System Unit → Prop
  | unneeded (directory : s.kernel.directory = none) : Equipment s (.ok () s)
  | cramped {d : PlacedDirectory} {q : Panic} {t : System} (directory : s.kernel.directory = some d)
      (slots : Reservation (slotsFor d.count) s (.error q t)) : Equipment s (.error q t)
  | refused {d : PlacedDirectory} {slots : Slots} {t : System} {arena : Arena} (m : Machine)
      (directory : s.kernel.directory = some d)
      (reserved : Reservation (slotsFor d.count) s (.ok slots t))
      (refuses : t.kernel.arena.Refuses 40 8 arena) :
      Equipment s (.error .noRoomForLoader ⟨{ t.kernel with arena := arena, loader := none }, m⟩)
  | built {d : PlacedDirectory} {slots : Slots} {t : System} {a : Address} {arena : Arena}
      {count : ObjectCount} (m : Machine) (directory : s.kernel.directory = some d)
      (reserved : Reservation (slotsFor d.count) s (.ok slots t))
      (objects : t.kernel.objects = some count)
      (allocated : t.kernel.arena.allocate 40 8 = (some a, arena)) :
      Equipment s (.ok () ⟨{ t.kernel with
        arena := arena
        objects := some ⟨count.active + 1⟩
        blocks := t.kernel.blocks ++ [⟨.loader, a, 40⟩]
        loader := some ⟨Loader.ofSlots d.toDirectory slots, a, d.address⟩ }, m⟩)

theorem buildLoader_of_no_directory (hdirectory : s.kernel.directory = none) :
    buildLoader s = .ok () s := by
  simp only [buildLoader, bind, EStateM.bind, get, getThe, MonadStateOf.get, EStateM.get,
    hdirectory]
  rfl

theorem buildLoader_of_cramped {d : PlacedDirectory} {q : Panic}
    (hdirectory : s.kernel.directory = some d)
    (hslots : reserveSlots (slotsFor d.count) s = .error q t) : buildLoader s = .error q t := by
  simp only [buildLoader, bind, EStateM.bind, get, getThe, MonadStateOf.get, EStateM.get,
    hdirectory, hslots]

theorem buildLoader_of_reserved {d : PlacedDirectory} {slots : Slots}
    (hdirectory : s.kernel.directory = some d)
    (hslots : reserveSlots (slotsFor d.count) s = .ok slots t) :
    buildLoader s =
      match construct .loader ⟨t.kernel, t.machine.after ⟨crowdLines d.count, []⟩⟩ with
      | .ok (some a) u => .ok () (keepLoader ⟨Loader.ofSlots d.toDirectory slots, a, d.address⟩ u)
      | .ok none u => .error .noRoomForLoader
          ⟨{ u.kernel with loader := none }, u.machine.say Panic.noRoomForLoader.line⟩
      | .error q u => .error q u := by
  simp only [buildLoader, bind, EStateM.bind, get, getThe, MonadStateOf.get, EStateM.get,
    hdirectory, hslots]
  by_cases hcrowd : d.count > Limits.slotCount
  · rw [if_pos hcrowd, crowdLines, if_pos hcrowd]
    simp only [EStateM.bind, say_eq_after]
    generalize construct .loader _ = r
    rcases r with ⟨_ | a, u⟩ | ⟨q, u⟩ <;> rfl
  · rw [if_neg hcrowd, crowdLines, if_neg hcrowd, Machine.after_nil]
    simp only [EStateM.bind]
    generalize construct .loader _ = r
    rcases r with ⟨_ | a, u⟩ | ⟨q, u⟩ <;> rfl

theorem equipment (s : System) : Equipment s (buildLoader s) := by
  cases hdirectory : s.kernel.directory with
  | none =>
    rw [buildLoader_of_no_directory hdirectory]
    exact .unneeded hdirectory
  | some d =>
    have hslots := reservation (slotsFor d.count) s
    cases hr : reserveSlots (slotsFor d.count) s with
    | error q t =>
      rw [hr] at hslots
      rw [buildLoader_of_cramped hdirectory hr]
      exact .cramped hdirectory hslots
    | ok slots t =>
      rw [hr] at hslots
      have hconstruct := construction .loader
        ⟨t.kernel, t.machine.after ⟨crowdLines d.count, []⟩⟩
      rw [buildLoader_of_reserved hdirectory hr]
      generalize construct .loader _ = r at hconstruct ⊢
      cases hconstruct with
      | placed hobjects hallocate => exact .built _ hdirectory hslots hobjects hallocate
      | refused hrefuses => exact Equipment.refused (t := t) _ hdirectory hslots hrefuses

inductive Booting (s : System) : EStateM.Result Panic System Unit → Prop
  | badMagic (m : Machine) (magic : s.kernel.info.magic ≠ Limits.bootMagic) :
      Booting s (.error (.badMagic s.kernel.info.magic) ⟨s.kernel, m⟩)
  | notStarted {q : Panic} {t : System} (objects : Starting s (.error q t)) : Booting s (.error q t)
  | notRegistered {q : Panic} {t u : System} (objects : Starting s (.ok () t))
      (directory : Registration t (.error q u)) : Booting s (.error q u)
  | notEquipped {q : Panic} {t u v : System} (objects : Starting s (.ok () t))
      (directory : Registration t (.ok () u)) (loader : Equipment u (.error q v)) :
      Booting s (.error q v)
  | completed {t u v : System} (m : Machine) (magic : s.kernel.info.magic = Limits.bootMagic)
      (objects : Starting s (.ok () t)) (directory : Registration t (.ok () u))
      (loader : Equipment u (.ok () v)) :
      Booting s (.ok () ⟨{ v.kernel with initialized := true }, m⟩)

theorem boot_of_not_started {q : Panic} (hmagic : s.kernel.info.magic = Limits.bootMagic)
    (hobjects : startObjects s = .error q t) : boot s = .error q t := by
  simp only [boot, bind, EStateM.bind, get, getThe, MonadStateOf.get, EStateM.get]
  rw [if_neg (not_not.mpr hmagic)]
  simp only [EStateM.bind, hobjects]

theorem boot_of_not_equipped {q : Panic} (hmagic : s.kernel.info.magic = Limits.bootMagic)
    (hobjects : startObjects s = .ok () t) (hdirectory : buildDirectory t = .ok () u)
    (hloader : buildLoader u = .error q v) : boot s = .error q v := by
  simp only [boot, bind, EStateM.bind, get, getThe, MonadStateOf.get, EStateM.get]
  rw [if_neg (not_not.mpr hmagic)]
  simp only [EStateM.bind, hobjects, hdirectory, hloader]

theorem boot_of_bad_magic (hmagic : s.kernel.info.magic ≠ Limits.bootMagic) :
    boot s = .error (.badMagic s.kernel.info.magic)
      ⟨s.kernel, s.machine.say (Panic.badMagic s.kernel.info.magic).line⟩ := by
  simp only [boot, bind, EStateM.bind, get, getThe, MonadStateOf.get, EStateM.get]
  rw [if_pos hmagic]
  rfl

theorem booting (s : System) : Booting s (boot s) := by
  by_cases hmagic : s.kernel.info.magic = Limits.bootMagic
  · have hstarting := starting s
    cases hobjects : startObjects s with
    | error q t =>
      rw [hobjects] at hstarting
      rw [boot_of_not_started hmagic hobjects]
      exact .notStarted hstarting
    | ok _ t =>
      rw [hobjects] at hstarting
      have hregistration := registration t
      cases hdirectory : buildDirectory t with
      | error q u =>
        rw [hdirectory] at hregistration
        rw [boot_of_rejected hmagic hobjects hdirectory]
        exact .notRegistered hstarting hregistration
      | ok _ u =>
        rw [hdirectory] at hregistration
        have hequipment := equipment u
        cases hloader : buildLoader u with
        | error q v =>
          rw [hloader] at hequipment
          rw [boot_of_not_equipped hmagic hobjects hdirectory hloader]
          exact .notEquipped hstarting hregistration hequipment
        | ok _ v =>
          rw [hloader] at hequipment
          rw [boot_of_steps hmagic hobjects hdirectory hloader]
          exact .completed _ hmagic hstarting hregistration hequipment
  · rw [boot_of_bad_magic hmagic]
    exact .badMagic _ hmagic

end System

/-- A kernel right before its boot, with the places of the boot information and of itself. -/
def Kernel.placed (arena : Arena) (info : BootRecord) (platform : Option Platform)
    (infoPlace place : Address) : Kernel :=
  { unbooted arena info platform with
    blocks := [⟨.bootInfo, infoPlace, 24⟩, ⟨.kernel, place, 56⟩] }

/-- What a layout that succeeds has done. -/
theorem Kernel.exists_of_layOut? {layout : Region} {info : BootRecord} {platform : Option Platform}
    {m : Machine} {place : Address} {t : System}
    (h : layOut? layout info platform m = some (place, t)) :
    ∃ arena arena₁ arena₂ i, Arena.ofRegion? layout = some arena ∧
      arena.allocate 24 8 = (some i, arena₁) ∧ arena₁.allocate 56 8 = (some place, arena₂) ∧
      t = ⟨placed arena₂ info platform i place,
        { m with memory := m.memory.writeBytes i info.content }⟩ := by
  cases hregion : Arena.ofRegion? layout with
  | none =>
    rw [layOut?, hregion] at h
    cases h
  | some arena =>
    rw [layOut?, hregion] at h
    dsimp only [Purpose.footprint] at h
    rcases hinfo : arena.allocate 24 8 with ⟨infoPlace, arena₁⟩
    rcases hkernel : arena₁.allocate 56 8 with ⟨kernelPlace, arena₂⟩
    rw [hinfo] at h
    dsimp only at h
    rw [hkernel] at h
    cases infoPlace with
    | none => cases h
    | some i =>
      cases kernelPlace with
      | none => cases h
      | some p =>
        cases h
        exact ⟨arena, arena₁, arena₂, i, rfl, hinfo, hkernel, rfl⟩

/-- What a start that succeeds has done. -/
theorem Kernel.exists_of_start {layout : Region} {info : BootRecord} {platform : Option Platform}
    {m m' : Machine} {place : Address} {k : Kernel}
    (h : start layout info platform m = (.ok (place, k), m')) :
    ∃ arena arena₁ arena₂ i, Arena.ofRegion? layout = some arena ∧
      arena.allocate 24 8 = (some i, arena₁) ∧ arena₁.allocate 56 8 = (some place, arena₂) ∧
      System.boot ⟨placed arena₂ info platform i place,
        { m with memory := m.memory.writeBytes i info.content }⟩ = .ok () ⟨k, m'⟩ := by
  rw [start] at h
  cases hlay : layOut? layout info platform m with
  | none =>
    rw [hlay] at h
    cases h
  | some r =>
    obtain ⟨place', t⟩ := r
    rw [hlay] at h
    dsimp only at h
    obtain ⟨arena, arena₁, arena₂, i, hregion, hinfo, hkernel, rfl⟩ := exists_of_layOut? hlay
    generalize hboot : System.boot _ = r at h
    cases r with
    | error q t => cases h
    | ok _ t =>
      cases h
      exact ⟨arena, arena₁, arena₂, i, hregion, hinfo, hkernel, hboot⟩

end EmbeddedApps
