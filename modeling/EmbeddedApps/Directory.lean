import EmbeddedApps.Extent
import EmbeddedApps.Limits
import EmbeddedApps.Machine
import EmbeddedApps.Status
import EmbeddedApps.Text.Numeral

/-!
# The app directory

A directory says where each app lies. It is built once, from `n + 1` boundaries in memory that do
not decrease: app `i` reaches from boundary `i` to boundary `i + 1`. The boundaries are not copied.
Every question is answered from memory as it is when the question is asked.
-/

namespace EmbeddedApps

/-- Where the boundaries of an accepted table lie, and how many apps they delimit. -/
structure Boundaries where
  address : Address
  count : UInt64

def Boundaries.at (b : Boundaries) (m : Memory) (i : UInt64) : UInt64 :=
  m.readWord (b.address + Limits.entrySize * i)

/-- A directory is empty until it is built. -/
structure Directory where
  table : Option Boundaries

inductive TableFault
  | alreadyBuilt
  | missing
  | claimsTooMany (count : UInt64)
  | tooMany (count : UInt64)
  | wrongLength (expected given : UInt64)
  | decreasing (index left right : UInt64)

namespace TableFault

def status : TableFault → Status
  | alreadyBuilt => .alreadyBuilt
  | _ => .layoutError

def message : TableFault → Bytes
  | alreadyBuilt => text "AppDirectory: build called twice, keeping the existing table"
  | missing => text "AppDirectory: app table is missing"
  | claimsTooMany n => text "AppDirectory: app table claims " ++ decimal n.toNat ++ text " apps"
  | tooMany n => text "AppDirectory: " ++ decimal n.toNat ++ text " apps exceeds the limit of " ++
      decimal Limits.tableCount.toNat
  | wrongLength expected given => text "AppDirectory: expected " ++ decimal expected.toNat ++
      text " boundaries, got " ++ decimal given.toNat
  | decreasing i left right => text "AppDirectory: boundary " ++ decimal i.toNat ++ text " (" ++
      markedHexadecimal left.toNat ++ text ") > boundary " ++ decimal (i.toNat + 1) ++ text " (" ++
      markedHexadecimal right.toNat ++ text ")"

end TableFault

namespace Directory

def empty : Directory := ⟨none⟩

def isBuilt (d : Directory) : Bool := d.table.isSome

def count (d : Directory) : UInt64 :=
  match d.table with
  | some b => b.count
  | none => 0

/-- The first boundary that is greater than the next one. -/
def firstDecrease? (m : Memory) (b : Boundaries) : Option UInt64 :=
  ((List.range b.count.toNat).map Nat.toUInt64).find? fun i => b.at m i > b.at m (i + 1)

/-- Builds the directory from `length` boundaries for `count` apps. A directory that is built
keeps its table. -/
def build (d : Directory) (m : Memory) (count : UInt64) (boundaries : Option Address)
    (length : UInt64) : Except TableFault Directory :=
  if d.isBuilt then .error .alreadyBuilt
  else if count > Limits.tableCount then .error (.tooMany count)
  else match boundaries with
    | none => .error (.wrongLength (count + 1) length)
    | some address =>
      if length == 0 || length - 1 != count then .error (.wrongLength (count + 1) length)
      else match firstDecrease? m ⟨address, count⟩ with
        | some i =>
          .error (.decreasing i (Boundaries.at ⟨address, count⟩ m i)
            (Boundaries.at ⟨address, count⟩ m (i + 1)))
        | none => .ok ⟨some ⟨address, count⟩⟩

/-- Builds the directory from a table that starts with the number of apps. -/
def buildFromTable (d : Directory) (m : Memory) (table : Option Address) :
    Except TableFault Directory :=
  if d.isBuilt then .error .alreadyBuilt
  else match table with
    | none => .error .missing
    | some address =>
      let count := m.readWord address
      if count > Limits.tableCount then .error (.claimsTooMany count)
      else d.build m count (some (address + Limits.entrySize)) (count + 1)

/-- The outcome of a build, with one error line for a refused table. -/
def settle (d : Directory) (built : Except TableFault Directory) (s : Machine) :
    (Status × Directory) × Machine :=
  match built with
  | .ok d' => ((.ok, d'), s)
  | .error f => ((f.status, d), s.say (.error f.message))

/-- Where app `i` lies, if there is one. -/
def rangeOf? (d : Directory) (m : Memory) (i : Int64) : Option Extent :=
  d.table.bind fun b =>
    if i < 0 || i.toUInt64 ≥ b.count then none
    else some ⟨b.at m i.toUInt64, b.at m (i.toUInt64 + 1)⟩

/-- All boundaries in order, one more than there are apps. -/
def boundaries (d : Directory) (m : Memory) : List UInt64 :=
  match d.table with
  | some b => (List.range (b.count.toNat + 1)).map fun i => b.at m i.toUInt64
  | none => []

/-- Where the apps lie, in order: each from one boundary to the next. -/
def ranges (d : Directory) (m : Memory) : List Extent :=
  let bs := d.boundaries m
  List.zipWith Extent.mk bs bs.tail

/-- The bytes from the first boundary to the last, with the padding between apps. -/
def totalSize (d : Directory) (m : Memory) : UInt64 :=
  match d.table with
  | some b => b.at m b.count - b.at m 0
  | none => 0

end Directory

end EmbeddedApps
