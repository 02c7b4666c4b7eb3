import EmbeddedApps.Kernel.Boot
import EmbeddedApps.Proofs.Arena
import EmbeddedApps.Proofs.Directory.Walks
import Mathlib

/-!
# What the steps of a boot do

Each step of a boot as one equation, given what the arena answers to its requests.
-/

namespace EmbeddedApps

def PlacedDirectory.writes (d : PlacedDirectory) : List Write :=
  [⟨d.address, LittleEndian.encodeHalf d.stage⟩,
    ⟨d.address + 8, LittleEndian.encode d.count ++
      LittleEndian.encode ((d.table.map (·.address)).getD 0)⟩]

private theorem PlacedDirectory.store_eq_writeAll (d : PlacedDirectory) (m : Memory) :
    d.store m = m.writeAll d.writes := by
  simp only [store, writes, Memory.writeAll_cons, Memory.writeAll_nil]

def PlacedLoader.writes (l : PlacedLoader) : List Write := [⟨l.address, l.content⟩]

private theorem PlacedLoader.store_eq_writeAll (l : PlacedLoader) (m : Memory) :
    l.store m = m.writeAll l.writes := by
  simp only [store, writes, Memory.writeAll_cons, Memory.writeAll_nil]

@[simp] theorem PlacedLoader.length_content (l : PlacedLoader) : l.content.length = 40 := by
  rw [content, Memory.length_flatMap_encode]
  rfl

@[simp] theorem BootRecord.length_content (i : BootRecord) : i.content.length = 24 := rfl

section Confined

variable {lo hi : Nat}

/-- A directory writes to its 24 bytes only. -/
theorem PlacedDirectory.confined_writes (hbounded : hi < 2 ^ 64) (d : PlacedDirectory)
    (hlo : lo ≤ d.address.toNat) (hhi : d.address.toNat + 24 ≤ hi) : Confined lo hi d.writes := by
  have hword : (8 : UInt64).toNat = 8 := rfl
  have hnext : (d.address + 8).toNat = d.address.toNat + 8 := toNat_add_of_lt (by omega)
  refine Confined.cons hlo ?_ (Confined.cons ?_ ?_ (Confined.nil _ _))
  · rw [LittleEndian.length_encodeHalf]
    dsimp only
    omega
  · dsimp only
    omega
  · rw [List.length_append, LittleEndian.length_encode, LittleEndian.length_encode]
    dsimp only
    omega

theorem PlacedLoader.confined_writes (l : PlacedLoader) (hlo : lo ≤ l.address.toNat)
    (hhi : l.address.toNat + 40 ≤ hi) : Confined lo hi l.writes :=
  Confined.cons hlo (by rwa [length_content]) (Confined.nil _ _)

theorem BootRecord.confined_content (i : BootRecord) {a : Address} (hlo : lo ≤ a.toNat)
    (hhi : a.toNat + 24 ≤ hi) : Confined lo hi [⟨a, i.content⟩] :=
  Confined.cons hlo (by rwa [length_content]) (Confined.nil _ _)

end Confined

namespace System

variable {s : System} {a : Address} {arena : Arena} {count : ObjectCount}

theorem say_eq_after (l : LogLine) (s : System) :
    say l s = .ok () { s with machine := s.machine.after ⟨[l], []⟩ } := by
  simp only [say, modify, modifyGet, MonadStateOf.modifyGet, EStateM.modifyGet,
    Machine.say_eq_after]

private theorem reserve_of_allocate {size alignment : UInt64} (p : Purpose)
    (h : s.kernel.arena.allocate size alignment = (some a, arena)) :
    reserve p size alignment s = .ok (some a) { s with kernel := { s.kernel with
      arena := arena, blocks := s.kernel.blocks ++ [⟨p, a, size⟩] } } := by
  simp only [reserve, bind, EStateM.bind, get, getThe, MonadStateOf.get, EStateM.get, set,
    MonadStateOf.set, EStateM.set, h]
  rfl

theorem construct_of_allocate {p : Purpose} (hobjects : s.kernel.objects = some count)
    (h : s.kernel.arena.allocate p.footprint.size p.footprint.alignment = (some a, arena)) :
    construct p s = .ok (some a) { s with kernel := { s.kernel with
      arena := arena, objects := some ⟨count.active + 1⟩,
      blocks := s.kernel.blocks ++ [⟨p, a, p.footprint.size⟩] } } := by
  simp only [construct, bind, EStateM.bind, get, getThe, MonadStateOf.get, EStateM.get, hobjects,
    ObjectCount.place, h]
  rfl

theorem startObjects_of_allocate (h : s.kernel.arena.allocate 24 8 = (some a, arena)) :
    startObjects s = .ok () { s with kernel := { s.kernel with
      arena := arena, objects := some ⟨0⟩,
      blocks := s.kernel.blocks ++ [⟨.objectCount, a, 24⟩] } } := by
  have hreserve := reserve_of_allocate .objectCount h
  simp only [startObjects, bind, EStateM.bind, Purpose.footprint, hreserve]
  rfl

private theorem keepDirectory_eq_after (d : PlacedDirectory) (s : System) :
    keepDirectory d s =
      ⟨{ s.kernel with directory := some d }, s.machine.after ⟨[], d.writes⟩⟩ := by
  rw [keepDirectory, PlacedDirectory.store_eq_writeAll, Machine.write_eq_after]

private theorem keepLoader_eq_after (l : PlacedLoader) (s : System) :
    keepLoader l s = ⟨{ s.kernel with loader := some l }, s.machine.after ⟨[], l.writes⟩⟩ := by
  rw [keepLoader, PlacedLoader.store_eq_writeAll, Machine.write_eq_after]

private theorem buildDirectory_of_construct {t : System} {built : Except TableFault Directory}
    (h : construct .directory s = .ok (some a) t)
    (hbuild : Directory.empty.buildFromTable
      (t.machine.memory.writeAll (PlacedDirectory.writes ⟨.empty, a⟩)) t.kernel.info.table =
        built) :
    buildDirectory s =
      match built with
      | .ok d =>
        let u := (t.machine.after ⟨[], PlacedDirectory.writes ⟨.empty, a⟩⟩).after
          ⟨[], PlacedDirectory.writes ⟨d, a⟩⟩
        .ok () ⟨{ t.kernel with directory := some ⟨d, a⟩ }, u.after ⟨d.printedLines u.memory, []⟩⟩
      | .error f =>
        .error (.directoryRejected f.status) ⟨{ t.kernel with directory := some ⟨.empty, a⟩ },
          (((t.machine.after ⟨[], PlacedDirectory.writes ⟨.empty, a⟩⟩).after
            ⟨[.error f.message], []⟩).after ⟨[], PlacedDirectory.writes ⟨.empty, a⟩⟩).after
              ⟨[(Panic.directoryRejected f.status).line], []⟩⟩ := by
  simp only [buildDirectory, bind, EStateM.bind, h, modify, modifyGet, MonadStateOf.modifyGet,
    EStateM.modifyGet, get, getThe, MonadStateOf.get, EStateM.get, set, MonadStateOf.set,
    EStateM.set, keepDirectory_eq_after, Machine.memory_after, hbuild]
  cases built with
  | ok d =>
    rw [Directory.settle, if_pos rfl]
    simp only [EStateM.modifyGet, Directory.print_eq_after, Machine.memory_after]
  | error f =>
    have hstatus : f.status ≠ .ok := by cases f <;> exact fun h => nomatch h
    rw [Directory.settle, if_neg hstatus]
    simp only [panic, say, bind, EStateM.bind, modify, modifyGet, MonadStateOf.modifyGet,
      EStateM.modifyGet, Machine.say_eq_after]
    rfl

/-- The kernel's own state once a directory has its place. -/
def withDirectory (k : Kernel) (count : ObjectCount) (arena : Arena) (d : PlacedDirectory) :
    Kernel :=
  { k with
    arena := arena
    objects := some ⟨count.active + 1⟩
    blocks := k.blocks ++ [⟨.directory, d.address, 24⟩]
    directory := some d }

theorem buildDirectory_of_ok {d : Directory} (hobjects : s.kernel.objects = some count)
    (h : s.kernel.arena.allocate 24 8 = (some a, arena))
    (hbuild : Directory.empty.buildFromTable
      (s.machine.memory.writeAll (PlacedDirectory.writes ⟨.empty, a⟩)) s.kernel.info.table =
        .ok d) :
    let ws := PlacedDirectory.writes ⟨.empty, a⟩ ++ PlacedDirectory.writes ⟨d, a⟩
    buildDirectory s = .ok () ⟨withDirectory s.kernel count arena ⟨d, a⟩,
      s.machine.after ⟨d.printedLines (s.machine.memory.writeAll ws), ws⟩⟩ := by
  have hconstruct := construct_of_allocate (p := .directory) hobjects h
  rw [buildDirectory_of_construct hconstruct hbuild]
  simp only [← Machine.after_append, Machine.memory_after]
  rfl

/-- A refused table leaves an empty directory and two lines. -/
theorem buildDirectory_of_error {f : TableFault} (hobjects : s.kernel.objects = some count)
    (h : s.kernel.arena.allocate 24 8 = (some a, arena))
    (hbuild : Directory.empty.buildFromTable
      (s.machine.memory.writeAll (PlacedDirectory.writes ⟨.empty, a⟩)) s.kernel.info.table =
        .error f) :
    let ws := PlacedDirectory.writes ⟨.empty, a⟩ ++ PlacedDirectory.writes ⟨.empty, a⟩
    buildDirectory s = .error (.directoryRejected f.status)
      ⟨withDirectory s.kernel count arena ⟨.empty, a⟩,
        s.machine.after ⟨[.error f.message, (Panic.directoryRejected f.status).line], ws⟩⟩ := by
  have hconstruct := construct_of_allocate (p := .directory) hobjects h
  rw [buildDirectory_of_construct hconstruct hbuild]
  simp only [← Machine.after_append]
  rfl

theorem toNat_slotsFor (n : UInt64) : (slotsFor n).toNat = min n.toNat 16 := by
  have hlimit : Limits.slotCount.toNat = 16 := rfl
  have hiff : n < Limits.slotCount ↔ n.toNat < 16 := UInt64.lt_iff_toNat_lt
  rw [slotsFor]
  by_cases hn : n < Limits.slotCount
  · rw [if_pos hn]
    rw [hiff] at hn
    omega
  · rw [if_neg hn]
    rw [hiff] at hn
    omega

theorem reserveSlots_zero (s : System) : reserveSlots 0 s = .ok ⟨0, Limits.slotSize, 0⟩ s := rfl

theorem reserveSlots_of_allocate {n : UInt64} (hn : n ≠ 0)
    (h : s.kernel.arena.allocate (n * Limits.slotSize) Limits.slotAlignment = (some a, arena)) :
    reserveSlots n s = .ok ⟨a, Limits.slotSize, n⟩ { s with kernel := { s.kernel with
      arena := arena, blocks := s.kernel.blocks ++ [⟨.slots, a, n * Limits.slotSize⟩] } } := by
  have hreserve := reserve_of_allocate .slots h
  rw [reserveSlots, if_neg hn]
  simp only [bind, EStateM.bind, hreserve]
  rfl

def crowdLines (n : UInt64) : List LogLine :=
  if n > Limits.slotCount then
    [.warn (decimal n.toNat ++ text " apps embedded, only the first " ++
      decimal Limits.slotCount.toNat ++ text " have a slot")]
  else []

theorem buildLoader_of_slots {t : System} {slots : Slots} {d : PlacedDirectory}
    (hdirectory : s.kernel.directory = some d)
    (hslots : reserveSlots (slotsFor d.count) s = .ok slots t)
    (hobjects : t.kernel.objects = some count)
    (h : t.kernel.arena.allocate 40 8 = (some a, arena)) :
    let l : PlacedLoader := ⟨Loader.ofSlots d.toDirectory slots, a, d.address⟩
    buildLoader s = .ok () ⟨{ t.kernel with
        arena := arena
        objects := some ⟨count.active + 1⟩
        blocks := t.kernel.blocks ++ [⟨.loader, a, 40⟩]
        loader := some l },
      t.machine.after ⟨crowdLines d.count, l.writes⟩⟩ := by
  have hconstruct (m : Machine) :=
    construct_of_allocate (p := .loader) (s := ⟨t.kernel, m⟩) hobjects h
  simp only [buildLoader, bind, EStateM.bind, get, getThe, MonadStateOf.get, EStateM.get,
    hdirectory, hslots]
  by_cases hcrowd : d.count > Limits.slotCount
  · rw [if_pos hcrowd, crowdLines, if_pos hcrowd]
    simp only [EStateM.bind, say_eq_after, hconstruct, modify, modifyGet, MonadStateOf.modifyGet,
      EStateM.modifyGet, keepLoader_eq_after, ← Machine.after_append]
    rfl
  · rw [if_neg hcrowd, crowdLines, if_neg hcrowd]
    simp only [EStateM.bind, hconstruct, modify, modifyGet, MonadStateOf.modifyGet,
      EStateM.modifyGet, keepLoader_eq_after]
    rfl

theorem boot_of_steps {t u v : System} (hmagic : s.kernel.info.magic = Limits.bootMagic)
    (hobjects : startObjects s = .ok () t) (hdirectory : buildDirectory t = .ok () u)
    (hloader : buildLoader u = .ok () v) :
    boot s = .ok () ⟨{ v.kernel with initialized := true },
      v.machine.after ⟨[initializedLine v.kernel.platform], []⟩⟩ := by
  simp only [boot, bind, EStateM.bind, get, getThe, MonadStateOf.get, EStateM.get]
  rw [if_neg (not_not.mpr hmagic)]
  simp only [EStateM.bind, hobjects, hdirectory, hloader, modify, modifyGet,
    MonadStateOf.modifyGet, EStateM.modifyGet, say_eq_after]
  rfl

theorem boot_of_rejected {t u : System} {p : Panic}
    (hmagic : s.kernel.info.magic = Limits.bootMagic) (hobjects : startObjects s = .ok () t)
    (hdirectory : buildDirectory t = .error p u) : boot s = .error p u := by
  simp only [boot, bind, EStateM.bind, get, getThe, MonadStateOf.get, EStateM.get]
  rw [if_neg (not_not.mpr hmagic)]
  simp only [EStateM.bind, hobjects, hdirectory]

def stopLines (r : LoadRun) : List LogLine :=
  match r.fault with
  | none => []
  | some _ => [stoppedLine r]

/-- Without an instruction cache, a kernel adds nothing but a line to the run of its loader. -/
theorem loadAll_of_loader {l : PlacedLoader} (hloader : s.kernel.loader = some l)
    (hplatform : ∀ p ∈ s.kernel.platform, p.hasInstructionCache = false) :
    loadAll s = ((l.loadAll s.machine).1.loaded, { s with
      machine := (l.loadAll s.machine).2.after ⟨stopLines (l.loadAll s.machine).1, []⟩ }) := by
  simp only [loadAll, hloader, stopLines]
  cases hfault : (l.loadAll s.machine).1.fault with
  | none =>
    rw [Machine.after_nil]
    cases hp : s.kernel.platform with
    | none => rfl
    | some p => simp only [hplatform p hp, Bool.false_eq_true, if_false]
  | some f =>
    rw [← Machine.say_eq_after]
    cases hp : s.kernel.platform with
    | none => rfl
    | some p => simp only [hplatform p hp, Bool.false_eq_true, if_false]

end System

end EmbeddedApps
