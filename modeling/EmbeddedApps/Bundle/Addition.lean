import EmbeddedApps.Bundle.Basic

/-!
# Filling a bundle

A bundle that is being filled is there all the time: a call that fails leaves behind what it has
done so far. Programs go in one at a time, each with the next number.
-/

namespace EmbeddedApps

abbrev Filling (α : Type) := EStateM BuildFault Bundle α

def Bundle.push (p : Program) : Filling Unit :=
  modify fun b => { b with programs := b.programs ++ [{ p with index := b.nextIndex }] }

inductive Addition
  | manifest (path : Bytes)
  | program (name path : Bytes)

namespace Addition

def perform (t : FileTree) : Addition → Filling Unit
  | manifest path => do
    -- A manifest is read to its end before the first of its programs goes in.
    match Manifest.load t path with
    | .error f => throw f
    | .ok ps => ps.forM Bundle.push
  | program name path => do
    let index := (← get).nextIndex
    match Program.load t (if name.isEmpty then Path.stem path else name) path index with
    | .error f => throw f
    | .ok p => modify fun b => { b with programs := b.programs ++ [p] }

/-- The bundle that a call leaves, whether it has failed or not. -/
def after (t : FileTree) (a : Addition) (b : Bundle) : Bundle :=
  match a.perform t b with
  | .ok _ b => b
  | .error _ b => b

/-- Carries out calls one after the other, each with the files as it finds them, and goes on after
those that fail. -/
def performAll (calls : List (FileTree × Addition)) (b : Bundle) : Bundle :=
  calls.foldl (fun b c => c.2.after c.1 b) b

end Addition

end EmbeddedApps
