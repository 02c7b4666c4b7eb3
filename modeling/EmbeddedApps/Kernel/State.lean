import EmbeddedApps.Loader
import EmbeddedApps.Objects.Store

/-!
# The state of a kernel

A kernel lives in an arena at the bottom of its region. There it reserves a block for everything
it builds, and it keeps a map of these blocks. Boot information, directories and loaders have a
form in memory too. Nothing reads it as such, but an app that lies where one of them is built
shares its bytes.

The header of the arena, the kernel and its object count have no form in memory. Most of their
bytes are places of code and of objects elsewhere, and they are read by their own functions only.
So they are kept as values here, and their bytes are among those that may change at any time.
-/

namespace EmbeddedApps

/-- What the boot stage hands to the kernel. -/
structure BootRecord where
  magic : UInt32
  version : UInt32
  table : Option Address
  memorySize : UInt64

def BootRecord.content (i : BootRecord) : Bytes :=
  LittleEndian.encodeHalf i.magic ++ LittleEndian.encodeHalf i.version ++
    LittleEndian.encode (i.table.getD 0) ++ LittleEndian.encode i.memorySize

structure Platform where
  name : Option Bytes
  hasInstructionCache : Bool

/-- What a block of the arena is reserved for. -/
inductive Purpose
  | bootInfo
  | kernel
  | objectCount
  | directory
  | loader
  | slots
  deriving DecidableEq

/-- The size and alignment of each of the kernel's own objects. -/
def Purpose.footprint : Purpose → Footprint
  | bootInfo => ⟨24, 8⟩
  | kernel => ⟨56, 8⟩
  | objectCount => ⟨24, 8⟩
  | directory => ⟨24, 8⟩
  | loader => ⟨40, 8⟩
  | slots => ⟨Limits.slotSize, Limits.slotAlignment⟩

structure Block where
  purpose : Purpose
  start : Address
  size : UInt64

/-- A directory object in the arena. -/
structure PlacedDirectory extends Directory where
  address : Address

/-- How far a directory has come, as a number: a directory is seen either new or built. -/
def PlacedDirectory.stage (d : PlacedDirectory) : UInt32 := if d.isBuilt then 2 else 0

/-- The memory with a directory at its place: the stage, a gap of four bytes that is left as it
was, the number of apps, and the place of the boundaries. -/
def PlacedDirectory.store (d : PlacedDirectory) (m : Memory) : Memory :=
  (m.writeBytes d.address (LittleEndian.encodeHalf d.stage)).writeBytes (d.address + 8)
    (LittleEndian.encode d.count ++ LittleEndian.encode ((d.table.map (·.address)).getD 0))

/-- A loader object in the arena, and the place of the directory that it reads. -/
structure PlacedLoader extends Loader where
  address : Address
  directoryAddress : Address

/-- The bytes of a loader: the place of its directory, its slots and its cursor. -/
def PlacedLoader.content (l : PlacedLoader) : Bytes :=
  [l.directoryAddress, l.slots.base, l.slots.size, l.slots.count, l.cursor].flatMap
    LittleEndian.encode

def PlacedLoader.store (l : PlacedLoader) (m : Memory) : Memory :=
  m.writeBytes l.address l.content

/-- The kernel's own state. Each part is absent until it was built, and absent again after an
attempt to rebuild it found no room. -/
structure Kernel where
  arena : Arena
  info : BootRecord
  platform : Option Platform
  objects : Option ObjectCount
  directory : Option PlacedDirectory
  loader : Option PlacedLoader
  initialized : Bool
  blocks : List Block

/-- A kernel on an arena, with nothing built yet. -/
def Kernel.unbooted (a : Arena) (info : BootRecord) (platform : Option Platform) : Kernel where
  arena := a
  info := info
  platform := platform
  objects := none
  directory := none
  loader := none
  initialized := false
  blocks := []

inductive Panic
  | badMagic (magic : UInt32)
  | noRoomForObjects
  | noRoomForDirectory
  | directoryRejected (status : Status)
  | noRoomForSlots (count : UInt64)
  | noRoomForLoader
  | layoutTooSmall

def Panic.message : Panic → Bytes
  | badMagic m => text "BootInfo magic mismatch: " ++ markedHexadecimal m.toNat
  | noRoomForObjects => text "Out of memory while creating the object builder"
  | noRoomForDirectory => text "Out of memory while creating the app directory"
  | directoryRejected s => text "App directory rejected: " ++ s.name
  | noRoomForSlots n => text "Out of memory while reserving " ++ decimal n.toNat ++
      text " app slots"
  | noRoomForLoader => text "Out of memory while creating the app loader"
  | layoutTooSmall => text "Physical layout too small for the kernel"

/-- The last line that a kernel logs. -/
def Panic.line (p : Panic) : LogLine := .fatal p.message

structure System where
  kernel : Kernel
  machine : Machine

namespace System

/-- Gives the kernel a directory, also in memory. -/
def keepDirectory (d : PlacedDirectory) (s : System) : System where
  kernel := { s.kernel with directory := some d }
  machine := { s.machine with memory := d.store s.machine.memory }

def keepLoader (l : PlacedLoader) (s : System) : System where
  kernel := { s.kernel with loader := some l }
  machine := { s.machine with memory := l.store s.machine.memory }

end System

end EmbeddedApps
