import EmbeddedApps.Bundle.Addition
import EmbeddedApps.Bundle.Output
import EmbeddedApps.Log
import EmbeddedApps.Packer.Options

/-!
# The packer

The packer reads a manifest and programs, writes a listing and an image, and lists the layout.
Nothing is opened for writing before everything is read.
-/

namespace EmbeddedApps.Packer

/-- What a run leaves behind: the value it returns, what it printed, and the files. -/
structure Outcome where
  exitCode : Int
  printed : List Printed
  files : FileTree

/-- Bytes with a line feed on the error channel. -/
def complain (line : Bytes) : Printed := .error (line ++ [Bytes.newline])

def usage (tool : Bytes) : Printed :=
  complain (text "usage: " ++ tool ++
    text " [--manifest FILE] [--asm OUT.S] [--image OUT.img] [--prefix SYM] [--align N] [--list]" ++
    text " [program ...]")

def refuse (tool : Bytes) (files : FileTree) : Refusal → Outcome
  | .help => ⟨0, [usage tool], files⟩
  | .badAlignment given => ⟨1, [complain (text "[mkappimg] invalid alignment: " ++ given)], files⟩
  | .unknownOption given =>
    ⟨1, [complain (text "[mkappimg] unknown or incomplete option: " ++ given), usage tool], files⟩
  | .nothingToDo =>
    ⟨1, [complain (text "[mkappimg] nothing to do: pass --asm, --image or --list"), usage tool],
      files⟩

def nameWidth : Nat := 24

def layoutLine (i : Nat) (name : Bytes) (e : Extent) : Bytes :=
  text "app_" ++ decimal i ++ text " " ++ name.padRight nameWidth ++ text " [0x" ++
    hexadecimal e.start.toNat ++ text ", 0x" ++ hexadecimal e.stop.toNat ++ text ") " ++
    decimal e.size.toNat ++ text " bytes"

def layoutLines (b : Bundle) : List Printed :=
  let lines := (b.programs.zip b.layout).mapIdx fun i (p, e) => layoutLine i p.name e
  ((text "num_app = " ++ decimal b.programs.length) :: lines).map
    fun line => .output (line ++ [Bytes.newline])

/-- The calls that add what options name: the manifest first, then the programs one by one. -/
def additions (o : Options) : List Addition :=
  (if o.manifest.isEmpty then [] else [.manifest o.manifest]) ++ o.programs.map (.program [])

def collect (o : Options) (files : FileTree) : Except BuildFault Bundle :=
  match Bundle.create o.alignment o.symbolPrefix with
  | .error f => .error f
  | .ok b =>
    match (additions o).forM (Addition.perform files) b with
    | .error f _ => .error f
    | .ok _ b => .ok b

/-- The paths of all files that are read for options, as far as the files known tell. -/
def sources (o : Options) (files : FileTree) : List Bytes :=
  let listed := ((files.content? o.manifest).getD []).lines.filterMap fun line =>
    match ManifestLine.parse line with
    | .entry _ path => some (Path.join (Path.parent o.manifest) path)
    | _ => none
  o.manifest :: o.programs ++ listed

/-- Writes the outputs that are asked for, the listing first. -/
def writeOutputs (o : Options) (b : Bundle) : Filing Unit := do
  if !o.listing.isEmpty then b.writeListing o.listing
  if !o.image.isEmpty then b.writeImage o.image

def report (files : FileTree) (f : BuildFault) : Outcome :=
  let kind := if f.isBuildError then text "[mkappimg] build error: " else text "[mkappimg] error: "
  ⟨1, [complain (kind ++ f.message)], files⟩

def summary (o : Options) (b : Bundle) : List Printed :=
  (if o.list then layoutLines b else []) ++
    [complain (text "[mkappimg] packed " ++ decimal b.programs.length ++ text " programs")]

def execute (o : Options) (files : FileTree) : Outcome :=
  match collect o files with
  | .error f => report files f
  | .ok b =>
    match writeOutputs o b files with
    | .error f files => report files f
    | .ok _ files => ⟨0, summary o b, files⟩

/-- Runs the tool on a command line, given without the tool's own name. Arguments end at a zero
byte. -/
def run (tool : Bytes) (arguments : List Bytes) (files : FileTree) : Outcome :=
  match Options.ofArguments (arguments.map Bytes.beforeNul) with
  | .error r => refuse tool files r
  | .ok o => execute o files

end EmbeddedApps.Packer
