import EmbeddedApps.Text.Numeral

/-!
# Command line of the packer
-/

namespace EmbeddedApps.Packer

/-- What a command line asks for. An empty path asks for nothing. -/
structure Options where
  manifest : Bytes
  listing : Bytes
  image : Bytes
  symbolPrefix : Bytes
  alignment : UInt64
  list : Bool
  programs : List Bytes

/-- What is asked for before any argument is read. -/
def Options.initial : Options := ⟨[], [], [], [], 1, false, []⟩

inductive Refusal
  | help
  | badAlignment (given : Bytes)
  | unknownOption (given : Bytes)
  | nothingToDo

namespace Options

def readSingle (o : Options) (argument : Bytes) : Except Refusal Options :=
  if argument = text "--list" then .ok { o with list := true }
  else if argument = text "-h" ∨ argument = text "--help" then .error .help
  else if argument.head? = some Bytes.minus then .error (.unknownOption argument)
  else .ok { o with programs := o.programs ++ [argument] }

/-- An option with the argument that follows it, if it is one that takes a value. -/
def readValued? (o : Options) (option value : Bytes) : Option (Except Refusal Options) :=
  if option = text "--manifest" then some (.ok { o with manifest := value })
  else if option = text "--asm" then some (.ok { o with listing := value })
  else if option = text "--image" then some (.ok { o with image := value })
  else if option = text "--prefix" then some (.ok { o with symbolPrefix := value })
  else if option = text "--align" then
    match Numeral.word? value with
    | some a => some (.ok { o with alignment := a })
    | none => some (.error (.badAlignment value))
  else none

/-- Reads arguments from the left. An option that takes a value is unknown without one. -/
def readAll (o : Options) : List Bytes → Except Refusal Options
  | [] => .ok o
  | [argument] => o.readSingle argument
  | argument :: value :: rest =>
    match o.readValued? argument value with
    | some (.ok o) => o.readAll rest
    | some (.error r) => .error r
    | none =>
      match o.readSingle argument with
      | .ok o => o.readAll (value :: rest)
      | .error r => .error r

def hasTask (o : Options) : Bool := !o.listing.isEmpty || !o.image.isEmpty || o.list

/-- The options of a command line that asks for something. -/
def ofArguments (arguments : List Bytes) : Except Refusal Options :=
  match Options.initial.readAll arguments with
  | .error r => .error r
  | .ok o => if o.hasTask then .ok o else .error .nothingToDo

end Options

end EmbeddedApps.Packer
