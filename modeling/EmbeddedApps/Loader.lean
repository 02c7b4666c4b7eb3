import EmbeddedApps.Directory

/-!
# Loading apps into slots

A loader copies each app of its directory into the slot with the app's number. A slot is cleared
before its app is copied into it. A request that cannot be met changes no memory.
-/

namespace EmbeddedApps

/-- Slots of one size, one after the other from `base`. -/
structure Slots where
  base : Address
  size : UInt64
  count : UInt64

/-- The extent of slot `i`, if there is one. -/
def Slots.slot? (s : Slots) (i : Int64) : Option Extent :=
  if i < 0 || i.toUInt64 ≥ s.count then none
  else
    let start := s.base + i.toUInt64 * s.size
    some ⟨start, start + s.size⟩

inductive LoadFault
  | unknownProgram (index : Int64)
  | noSlot (index : Int64) (count : UInt64)
  | tooLarge (index : Int64) (size limit : UInt64)

namespace LoadFault

def status : LoadFault → Status
  | unknownProgram _ => .indexOutOfRange
  | noSlot _ _ => .loadOverflow
  | tooLarge _ _ _ => .loadOverflow

def message : LoadFault → Bytes
  | unknownProgram i => text "[loader] unknown program requested: app_" ++ signedDecimal i.toInt
  | noSlot i n => text "[loader] app_" ++ signedDecimal i.toInt ++ text " has no slot (max " ++
      decimal n.toNat ++ text " apps)"
  | tooLarge i size limit => text "[loader] app_" ++ signedDecimal i.toInt ++ text " is " ++
      decimal size.toNat ++ text " bytes, slot limit is " ++ decimal limit.toNat

end LoadFault

/-- A loader reads one directory, fills one row of slots, and has a cursor at the app that is to
run next. -/
structure Loader where
  directory : Directory
  slots : Slots
  cursor : UInt64

/-- The result of loading app after app: how many were loaded, and what stopped it if anything
did. -/
structure LoadRun where
  loaded : UInt64
  fault : Option LoadFault

def LoadRun.status (r : LoadRun) : Status :=
  match r.fault with
  | some f => f.status
  | none => .ok

namespace Loader

/-- A loader that has its cursor at the first app. -/
def ofSlots (d : Directory) (s : Slots) : Loader := ⟨d, s, 0⟩

/-- Where app `i` lies and which slot it goes to, if it can be loaded. -/
def plan (l : Loader) (m : Memory) (i : Int64) : Except LoadFault (Extent × Extent) :=
  match l.directory.rangeOf? m i with
  | none => .error (.unknownProgram i)
  | some source =>
    match l.slots.slot? i with
    | none => .error (.noSlot i l.slots.count)
    | some slot =>
      if source.size > slot.size then .error (.tooLarge i source.size slot.size)
      else .ok (source, slot)

/-- The memory after the slot is cleared and the source is copied to its start. -/
def transfer (m : Memory) (source slot : Extent) : Memory :=
  (m.zero slot.start slot.size.toNat).copy slot.start source.start source.size.toNat

/-- The part of a slot that an app of the given size takes. -/
def occupied (slot : Extent) (size : UInt64) : Extent := ⟨slot.start, slot.start + size⟩

def loadedLine (i : Int64) (e : Extent) : LogLine :=
  .debug (text "[loader] app_" ++ signedDecimal i.toInt ++ text " loaded at " ++
    markedHexadecimal e.start.toNat ++ text " (" ++ decimal e.size.toNat ++ text " bytes)")

def load (l : Loader) (i : Int64) (s : Machine) : Except LoadFault Extent × Machine :=
  match l.plan s.memory i with
  | .error f => (.error f, s.say (.error f.message))
  | .ok (source, slot) =>
    let target := occupied slot source.size
    (.ok target, { s with memory := transfer s.memory source slot }.say (loadedLine i target))

/-- Loads app `i` for a caller who passes in an extent, which is filled in only if the app is
loaded. -/
def loadInto (l : Loader) (i : Int64) (out : Extent) (s : Machine) : (Status × Extent) × Machine :=
  match l.load i s with
  | (.ok target, s) => ((.ok, target), s)
  | (.error f, s) => ((f.status, out), s)

/-- Loads `n` apps from app `i` on, as far as the first that cannot be loaded. -/
def loadFrom (l : Loader) (i : UInt64) : Nat → Machine → LoadRun × Machine
  | 0, s => (⟨i, none⟩, s)
  | n + 1, s =>
    match l.load i.toInt64 s with
    | (.ok _, s) => l.loadFrom (i + 1) n s
    | (.error f, s) => (⟨i, some f⟩, s)

/-- Loads all apps in order, as far as the first that cannot be loaded. -/
def loadAll (l : Loader) (s : Machine) : LoadRun × Machine :=
  l.loadFrom 0 l.directory.count.toNat s

def hasNext (l : Loader) : Bool := l.cursor < l.directory.count

def advance (l : Loader) : Loader := { l with cursor := l.cursor + 1 }

end Loader

end EmbeddedApps
