import EmbeddedApps.Bundle.Program

/-!
# Manifests

A manifest lists programs, one on a line: a path, or a name and a path with blanks in between. A
path with blanks in it is put in double quotes. Blank lines count for nothing, nor do lines that
start with a hash sign. A relative path starts from the manifest's own folder.
-/

namespace EmbeddedApps

inductive ManifestLine
  | ignored
  | entry (name : Option Bytes) (path : Bytes)
  | malformed (line : Bytes)
  deriving DecidableEq

namespace ManifestLine

/-- A path without its quotes. A quote at the front needs one at the end and none in between. -/
def unquote? (field : Bytes) : Option Bytes :=
  match field with
  | [] => some []
  | c :: rest =>
    if c != Bytes.quote then some (c :: rest)
    else if rest.getLast? == some Bytes.quote && !rest.dropLast.contains Bytes.quote then
      some rest.dropLast
    else none

/-- Space or tab, which end a name. -/
def endsName (c : UInt8) : Bool := c == Bytes.space || c == Bytes.tab

/-- The name and the path on a trimmed line. A line that starts with a quote has no name. -/
def splitName (line : Bytes) : Option Bytes × Bytes :=
  let name := line.takeWhile (!endsName ·)
  if line.head? == some Bytes.quote || name.length == line.length then (none, line)
  else (some name, Bytes.trim (line.drop name.length))

def parse (raw : Bytes) : ManifestLine :=
  let line := raw.trim
  if line.isEmpty || line.head? == some Bytes.hash then .ignored
  else
    let (name, field) := splitName line
    match unquote? field with
    | none => .malformed line
    | some [] => .malformed line
    | some path => .entry name path

end ManifestLine

namespace Manifest

/-- The program of one entry. Without a name it is called by the stem of its path. -/
def loadEntry (t : FileTree) (manifest : Bytes) (name : Option Bytes) (path : Bytes)
    (index : UInt32) : Except BuildFault Program :=
  let resolved := Path.join (Path.parent manifest) path
  Program.load t (name.getD (Path.stem resolved)) resolved index

/-- A fault that is the builder's own is reported with its line. -/
def located (manifest : Bytes) (number : Nat) (f : BuildFault) : BuildFault :=
  if f.isBuildError then .inManifest manifest number f else f

/-- The programs on the lines from the given number on. The first fault ends it all. -/
def loadLines (t : FileTree) (manifest : Bytes) (number : Nat) (index : UInt32) :
    List Bytes → Except BuildFault (List Program)
  | [] => .ok []
  | raw :: rest =>
    match ManifestLine.parse raw with
    | .ignored => loadLines t manifest (number + 1) index rest
    | .malformed line => .error (.badLine manifest number line)
    | .entry name path =>
      match loadEntry t manifest name path index with
      | .error f => .error (located manifest number f)
      | .ok p =>
        match loadLines t manifest (number + 1) (index + 1) rest with
        | .error f => .error f
        | .ok ps => .ok (p :: ps)

/-- The programs that a manifest lists. Folders and devices read as empty manifests. -/
def load (t : FileTree) (manifest : Bytes) : Except BuildFault (List Program) :=
  match t.open? manifest with
  | none => .error (.noManifest manifest)
  | some (.file content) => loadLines t manifest 1 0 content.lines
  | some .folder => .ok []
  | some (.device _) => .ok []

end Manifest

end EmbeddedApps
