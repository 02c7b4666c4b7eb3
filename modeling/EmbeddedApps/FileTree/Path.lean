import EmbeddedApps.Text.Basic

/-!
# Paths

Paths are taken as they are written: joining and cutting them never looks at files, and `.` and
`..` are names like any other.
-/

namespace EmbeddedApps.Path

def isAbsolute (p : Bytes) : Bool := p.head? == some Bytes.slash

/-- What follows the last slash, which is nothing for a path that ends with one. -/
def fileName (p : Bytes) : Bytes := (p.reverse.takeWhile (· != Bytes.slash)).reverse

/-- The path up to and with its last slash. -/
def folder (p : Bytes) : Bytes := p.take (p.length - (fileName p).length)

/-- The file name without its extension, which starts at the last dot. A dot in front of the
whole name starts no extension, and `..` has none. -/
def stem (p : Bytes) : Bytes :=
  let name := fileName p
  let extension := (name.reverse.takeWhile (· != Bytes.dot)).reverse
  let before := name.take (name.length - (extension.length + 1))
  if name.length ≤ 2 && name.head? == some Bytes.dot then name
  else if before.isEmpty then name
  else before

/-- The path of the folder that a path lies in. The root is its own parent. -/
def parent (p : Bytes) : Bytes :=
  let before := ((folder p).reverse.dropWhile (· == Bytes.slash)).reverse
  if before.isEmpty && !(folder p).isEmpty then
    if (fileName p).isEmpty then p else [Bytes.slash]
  else before

/-- A path as seen from a base. An absolute path is taken alone. -/
def join (base p : Bytes) : Bytes :=
  if base.isEmpty || isAbsolute p then p
  else if (fileName base).isEmpty then base ++ p
  else base ++ Bytes.slash :: p

def names (p : Bytes) : List Bytes := (p.splitOn Bytes.slash).filter (!·.isEmpty)

end EmbeddedApps.Path
