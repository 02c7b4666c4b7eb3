import EmbeddedApps.Packer.Run
import EmbeddedApps.Simulator

/-!
# The command line

The packer and the simulator on the files of the computer. A run works on a tree of the files that
it can meet, which is gathered before it starts, and the outputs are stored after it.
-/

namespace EmbeddedApps.Console

/-- The text of a path, if it is one. -/
def pathText? (path : Bytes) : Option String := String.fromUTF8? ⟨path.toArray⟩

def inspect (handle : IO.FS.Handle) : IO Node :=
  tryCatch (do return .file (← handle.readBinToEnd).data.toList) fun _ => return .folder

def probe (place : List Bytes) : IO (Option Node) :=
  match pathText? (FileTree.pathOf place) with
  | none => return none
  | some path =>
    tryCatch (do return some (← inspect (← IO.FS.Handle.mk path .read))) fun _ => return none

/-- The tree with all that is found at the given places. -/
def gather (t : FileTree) (places : List (List Bytes)) : IO FileTree :=
  places.foldlM (fun t place => do
    if (t.node place).isSome then return t
    match ← probe place with
    | some n => return t.set place n
    | none => return t) t

/-- The tree of which only the working folder is known. -/
def start : IO FileTree := do
  let folder := (← IO.getEnv "PWD").getD "/"
  return .empty (Path.names (text folder))

def emit (printed : List Printed) : IO Unit := do
  let output ← IO.getStdout
  let error ← IO.getStderr
  for p in printed do
    let stream := match p.channel with
      | .output => output
      | .error => error
    stream.write ⟨p.bytes.toArray⟩
    stream.flush

/-- Stores the file that a run left at a path, unless it was there before. -/
def store (before after : FileTree) (path : Bytes) : IO Unit := do
  if after.content? path = before.content? path then return
  match after.content? path, pathText? path with
  | some content, some name => IO.FS.writeBinFile name ⟨content.toArray⟩
  | _, _ => return

def pack (arguments : List Bytes) : IO UInt32 := do
  let t ← start
  match Packer.Options.ofArguments arguments with
  | .error r =>
    let o := Packer.refuse (text "mkappimg") t r
    emit o.printed
    return o.exitCode.toNat.toUInt32
  | .ok options =>
    let outputs := [options.listing, options.image]
    let t ← gather t (outputs.flatMap t.places)
    let t ← gather t ((Packer.sources options t).flatMap t.places)
    let t ← gather t ((Packer.sources options t).flatMap t.places)
    let o := Packer.execute options t
    outputs.forM (store t o.files)
    emit o.printed
    return o.exitCode.toNat.toUInt32

/-- Runs the simulator. A run that is taken down has the exit code of an abort. -/
def simulate (arguments : List Bytes) : IO UInt32 := do
  let t ← start
  let t ← gather t (t.places (arguments.headD Simulator.defaultImage))
  let o := Simulator.run (some .zeroed) arguments t
  emit o.printed
  match o.ending with
  | .returned 0 => return 0
  | .returned _ => return 255
  | .terminated => return 134

end EmbeddedApps.Console

open EmbeddedApps in
/-- The first argument names the tool. -/
def main (arguments : List String) : IO UInt32 := do
  match arguments with
  | "mkappimg" :: rest => Console.pack (rest.map text)
  | "zk_sim" :: rest => Console.simulate (rest.map text)
  | _ =>
    (← IO.getStderr).putStrLn "usage: mkappimg ARGUMENTS | zk_sim [IMAGE]"
    return 1
