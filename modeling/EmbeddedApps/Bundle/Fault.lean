import EmbeddedApps.Limits
import EmbeddedApps.Text.Numeral

/-!
# Why a bundle is not built
-/

namespace EmbeddedApps

inductive BuildFault
  | badAlignment (value : UInt64)
  | badSymbolPrefix (given : Bytes)
  | noProgram (name path : Bytes)
  | programIsFolder
  | programIsEndless
  | noManifest (path : Bytes)
  | badLine (manifest : Bytes) (number : Nat) (line : Bytes)
  | inManifest (manifest : Bytes) (number : Nat) (cause : BuildFault)
  | noOutput (path : Bytes)
  | incompleteOutput (path : Bytes)
  | noAbsolutePath (path : Bytes)

namespace BuildFault

/-- The place of a manifest line, as messages begin with it. -/
def linePlace (manifest : Bytes) (number : Nat) : Bytes :=
  manifest ++ text ":" ++ decimal number ++ text ": "

/-- The message, which ends at a zero byte wherever that comes from. -/
def message : BuildFault → Bytes
  | badAlignment value =>
    text "alignment must be a power of two no larger than " ++
      decimal Limits.imageAlignment.toNat ++ text ", got " ++ decimal value.toNat
  | badSymbolPrefix given =>
    (text "symbol prefix '" ++ given ++ text "' may only contain [A-Za-z0-9_]").beforeNul
  | noProgram name path =>
    (text "cannot open program '" ++ name ++ text "' at " ++ path).beforeNul
  | programIsFolder => text "basic_filebuf::underflow error reading the file: Is a directory"
  | programIsEndless => text "std::bad_alloc"
  | noManifest path => (text "cannot open manifest " ++ path).beforeNul
  | badLine manifest number line =>
    (linePlace manifest number ++ text "malformed program path: " ++ line).beforeNul
  | inManifest manifest number cause => (linePlace manifest number ++ cause.message).beforeNul
  | noOutput path => (text "cannot write " ++ path).beforeNul
  | incompleteOutput path => (text "failed while writing " ++ path).beforeNul
  | noAbsolutePath path =>
    let reason := if path.isEmpty then text "Invalid argument" else text "No such file or directory"
    (text "filesystem error: cannot make absolute path: " ++ reason ++ text " [" ++ path ++
      text "]").beforeNul

/-- A fault that the builder reports itself. The others come from the system and are passed on as
they are. -/
def isBuildError : BuildFault → Bool
  | programIsFolder => false
  | programIsEndless => false
  | noAbsolutePath _ => false
  | _ => true

end BuildFault

end EmbeddedApps
