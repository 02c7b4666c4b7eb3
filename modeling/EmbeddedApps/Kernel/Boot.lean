import EmbeddedApps.Directory.View
import EmbeddedApps.Kernel.State

/-!
# Booting a kernel

A boot builds the object count, the directory and the loader, in this order, and declares the
kernel initialized at the end. A step that fails logs a fatal line and gives up; whatever was
set before it stays.
-/

namespace EmbeddedApps

abbrev Step (α : Type) := EStateM Panic System α

namespace System

def say (l : LogLine) : Step Unit := modify fun s => { s with machine := s.machine.say l }

def panic {α : Type} (p : Panic) : Step α := do
  say p.line
  throw p

def record (b : Block) : Step Unit :=
  modify fun s => { s with kernel := { s.kernel with blocks := s.kernel.blocks ++ [b] } }

/-- Takes a block of the arena. -/
def reserve (purpose : Purpose) (size alignment : UInt64) : Step (Option Address) := do
  let s ← get
  let (p, arena) := s.kernel.arena.allocate size alignment
  set { s with kernel := { s.kernel with arena } }
  match p with
  | some a => do
    record ⟨purpose, a, size⟩
    return some a
  | none => return none

/-- Takes the place of one of the kernel's own objects and counts it. A kernel without an object
count has no place for one. -/
def construct (purpose : Purpose) : Step (Option Address) := do
  let s ← get
  match s.kernel.objects with
  | none => return none
  | some count =>
    let (p, count, arena) := count.place s.kernel.arena purpose.footprint
    set { s with kernel := { s.kernel with arena, objects := some count } }
    match p with
    | some a => do
      record ⟨purpose, a, purpose.footprint.size⟩
      return some a
    | none => return none

def startObjects : Step Unit := do
  let f := Purpose.objectCount.footprint
  match ← reserve .objectCount f.size f.alignment with
  | none => panic .noRoomForObjects
  | some _ => modify fun s => { s with kernel := { s.kernel with objects := some ⟨0⟩ } }

/-- Builds a new directory from the table that the boot information names. A refused table leaves
an empty directory behind. -/
def buildDirectory : Step Unit := do
  match ← construct .directory with
  | none =>
    modify fun s => { s with kernel := { s.kernel with directory := none } }
    panic .noRoomForDirectory
  | some address =>
    modify (keepDirectory ⟨.empty, address⟩)
    let s ← get
    let built := Directory.empty.buildFromTable s.machine.memory s.kernel.info.table
    let ((status, d), machine) := Directory.empty.settle built s.machine
    set (keepDirectory ⟨d, address⟩ { s with machine })
    if status = .ok then
      modify fun s => { s with machine := d.print s.machine }
    else
      panic (.directoryRejected status)

/-- The slots that a directory of `n` apps gets, before they have a place. -/
def slotsFor (n : UInt64) : UInt64 := if n < Limits.slotCount then n else Limits.slotCount

/-- Reserves the slot area for `n` slots, which has no place if there are none. -/
def reserveSlots (n : UInt64) : Step Slots := do
  if n = 0 then return ⟨0, Limits.slotSize, n⟩
  match ← reserve .slots (n * Limits.slotSize) Limits.slotAlignment with
  | none => panic (.noRoomForSlots n)
  | some base => return ⟨base, Limits.slotSize, n⟩

/-- Builds a new loader for the directory, with as many slots as there are apps up to the limit.
Without a directory there is nothing to do. -/
def buildLoader : Step Unit := do
  match (← get).kernel.directory with
  | none => return
  | some d => do
    let slots ← reserveSlots (slotsFor d.count)
    if d.count > Limits.slotCount then
      say (.warn (decimal d.count.toNat ++ text " apps embedded, only the first " ++
        decimal Limits.slotCount.toNat ++ text " have a slot"))
    match ← construct .loader with
    | none =>
      modify fun s => { s with kernel := { s.kernel with loader := none } }
      panic .noRoomForLoader
    | some address =>
      modify (keepLoader ⟨Loader.ofSlots d.toDirectory slots, address, d.address⟩)

def initializedLine (p : Option Platform) : LogLine :=
  .info (text "Kernel initialized on " ++ (p.bind (·.name)).getD (text "unknown platform"))

def boot : Step Unit := do
  let info := (← get).kernel.info
  if info.magic ≠ Limits.bootMagic then panic (.badMagic info.magic)
  startObjects
  buildDirectory
  buildLoader
  modify fun s => { s with kernel := { s.kernel with initialized := true } }
  say (initializedLine (← get).kernel.platform)

/-- The line that reports a run that stopped early. -/
def stoppedLine (r : LoadRun) : LogLine :=
  .error (text "Loading stopped after " ++ decimal r.loaded.toNat ++ text " apps: " ++
    r.status.name)

/-- Loads all apps, as far as the first that cannot be loaded, and then flushes the instruction
cache if the platform has one. A kernel without a loader loads none. -/
def loadAll (s : System) : UInt64 × System :=
  match s.kernel.loader with
  | none => (0, s)
  | some l =>
    let (run, machine) := l.loadAll s.machine
    let machine := match run.fault with
      | none => machine
      | some _ => machine.say (stoppedLine run)
    let machine := match s.kernel.platform with
      | some p => if p.hasInstructionCache then machine.flush else machine
      | none => machine
    (run.loaded, { s with machine })

end System

namespace Kernel

def refuse {α : Type} (p : Panic) (s : Machine) : Except Panic α × Machine :=
  (.error p, s.say p.line)

/-- Lays out a kernel in a region: the boot information and the kernel itself are the first blocks
of an arena. The result is the kernel's place and the system that is to be booted. -/
def layOut? (layout : Region) (info : BootRecord) (platform : Option Platform) (s : Machine) :
    Option (Address × System) :=
  match Arena.ofRegion? layout with
  | none => none
  | some arena =>
    let f := Purpose.bootInfo.footprint
    let g := Purpose.kernel.footprint
    let (infoPlace, arena) := arena.allocate f.size f.alignment
    let (kernelPlace, arena) := arena.allocate g.size g.alignment
    match infoPlace, kernelPlace with
    | some i, some k =>
      let kernel := { unbooted arena info platform with
        blocks := [⟨.bootInfo, i, f.size⟩, ⟨.kernel, k, g.size⟩] }
      some (k, ⟨kernel, { s with memory := s.memory.writeBytes i info.content }⟩)
    | _, _ => none

/-- Boots a kernel in a region. The result is the kernel with its place. -/
def start (layout : Region) (info : BootRecord) (platform : Option Platform) (s : Machine) :
    Except Panic (Address × Kernel) × Machine :=
  match layOut? layout info platform s with
  | none => refuse .layoutTooSmall s
  | some (place, t) =>
    match System.boot t with
    | .ok _ t => (.ok (place, t.kernel), t.machine)
    | .error p t => (.error p, t.machine)

end Kernel

end EmbeddedApps
