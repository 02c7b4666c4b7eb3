import EmbeddedApps.Text.Basic

/-!
# Outcomes of directory and loader calls
-/

namespace EmbeddedApps

inductive Status
  | ok
  | layoutError
  | alreadyBuilt
  | indexOutOfRange
  | loadOverflow
  deriving DecidableEq

namespace Status

def name : Status → Bytes
  | ok => text "OK"
  | layoutError => text "LayoutError"
  | alreadyBuilt => text "ReinitializationError"
  | indexOutOfRange => text "IndexError"
  | loadOverflow => text "LoadOverflow"

def ofNumber? (n : UInt32) : Option Status :=
  match n.toNat with
  | 0 => some ok
  | 1 => some layoutError
  | 2 => some alreadyBuilt
  | 3 => some indexOutOfRange
  | 4 => some loadOverflow
  | _ => none

/-- The printed name of a number, also of one that stands for no outcome. -/
def nameOfNumber (n : UInt32) : Bytes :=
  match ofNumber? n with
  | some s => s.name
  | none => text "Unknown"

end Status

end EmbeddedApps
