import EmbeddedApps.Bundle.Fault
import EmbeddedApps.FileTree.Basic

/-!
# Programs
-/

namespace EmbeddedApps

/-- A program as it goes into a bundle: its number there, a name, where it comes from and its
bytes. -/
structure Program where
  index : UInt32
  name : Bytes
  path : Bytes
  bytes : Bytes

/-- Reads a program from a file, as a whole. -/
def Program.load (t : FileTree) (name path : Bytes) (index : UInt32) :
    Except BuildFault Program :=
  match t.open? path with
  | none => .error (.noProgram name path)
  | some .folder => .error .programIsFolder
  | some (.device .null) => .ok ⟨index, name, path, []⟩
  | some (.device _) => .error .programIsEndless
  | some (.file content) => .ok ⟨index, name, path, content⟩

end EmbeddedApps
