import EmbeddedApps.FileTree.Path

/-!
# File trees

A file tree has a node at some places, where a place is the list of names that lead to it from
the root. Paths are resolved name by name, and every folder on the way has to exist. A folder that
was removed while it is the working folder goes by the empty name, which is on no path.
-/

namespace EmbeddedApps

/-- Devices open like files and keep nothing. The null device and the zero device take all that is
written to them, and the full device has no room for any of it. The null device reads as empty, and
there is no end to the zeros that the other two read as. -/
inductive Device
  | null
  | zero
  | full
  deriving DecidableEq

inductive Node
  | file (content : Bytes)
  | folder
  | device (d : Device)

/-- The nodes by place, the place that relative paths start from, and what becomes of content that
is written: how many bytes the file at a place has room for, if there is a limit, and the least
content that a stream passes on at once. Shorter content is held back until the stream is closed,
where a failure goes unnoticed. -/
structure FileTree where
  node : List Bytes → Option Node
  workingFolder : List Bytes
  room : List Bytes → Option Nat := fun _ => none
  directWrite : Nat := 8191

namespace FileTree

def nameLimit : Nat := 255

/-- Paths have to be shorter than this. -/
def pathLimit : Nat := 4096

def pathOf (place : List Bytes) : Bytes :=
  if place.isEmpty then [Bytes.slash] else place.flatMap (Bytes.slash :: ·)

def workingPath (t : FileTree) : Bytes := pathOf t.workingFolder

def isRemoved (place : List Bytes) : Bool := place.contains []

/-- A path from the root that leads where the given one leads. -/
def fromRoot (t : FileTree) (p : Bytes) : Bytes := Path.join t.workingPath p

/-- The same for a path that may have none: a removed folder has no path, nor has the empty path. -/
def absolute? (t : FileTree) (p : Bytes) : Option Bytes :=
  if p.isEmpty || !Path.isAbsolute p && isRemoved t.workingFolder then none
  else some (t.fromRoot p)

def isFolder (t : FileTree) (place : List Bytes) : Bool :=
  match t.node place with
  | some .folder => true
  | _ => false

/-- Follows names from a place. All places on the way are folders; the last may hold nothing. From a
removed folder there is no way but up. -/
def walk (t : FileTree) (place : List Bytes) : List Bytes → Option (List Bytes)
  | [] => some place
  | name :: names =>
    if t.isFolder place then
      if name == text "." then t.walk place names
      else if name == text ".." then t.walk place.dropLast names
      else if name.length > nameLimit || isRemoved place then none
      else t.walk (place ++ [name]) names
    else none

/-- The place that a path leads to. A path ends at a zero byte and is not empty. -/
def resolve? (t : FileTree) (path : Bytes) : Option (List Bytes) :=
  let p := path.beforeNul
  if p.isEmpty || p.length ≥ pathLimit then none
  else t.walk (if Path.isAbsolute p then [] else t.workingFolder) (Path.names p)

/-- A path that ends with a slash leads to folders only. -/
def wantsFolder (path : Bytes) : Bool := path.beforeNul.getLast? == some Bytes.slash

/-- The node that a path opens for reading. -/
def open? (t : FileTree) (path : Bytes) : Option Node :=
  (t.resolve? path).bind fun place =>
    match t.node place with
    | some .folder => some .folder
    | found => if wantsFolder path then none else found

/-- The content of the file that a path leads to. -/
def content? (t : FileTree) (path : Bytes) : Option Bytes :=
  match t.open? path with
  | some (.file content) => some content
  | _ => none

def set (t : FileTree) (place : List Bytes) (n : Node) : FileTree :=
  { t with node := fun q => if q = place then some n else t.node q }

/-- The part of some content that is taken at a place. -/
def taken (t : FileTree) (place : List Bytes) (content : Bytes) : Bytes :=
  match t.node place with
  | some (.device .full) => []
  | some (.device _) => content
  | _ => match t.room place with
    | some n => content.take n
    | none => content

/-- Replaces what a file holds by what it takes of some content. A device stays as it is. -/
def fill (t : FileTree) (place : List Bytes) (content : Bytes) : FileTree :=
  match t.node place with
  | some (.device _) => t
  | _ => t.set place (.file (t.taken place content))

/-- Opens a path for writing, which makes a file or empties the one that is there. Folders are not
written to, and none are made. -/
def openOutput? (t : FileTree) (path : Bytes) : Option (List Bytes × FileTree) :=
  (t.resolve? path).bind fun place =>
    if wantsFolder path || t.isFolder place then none else some (place, t.fill place [])

/-- A loss is noticed only if the content is passed on at once. -/
def noticesLoss (t : FileTree) (place : List Bytes) (content : Bytes) : Bool :=
  (t.taken place content).length < content.length && t.directWrite ≤ content.length

/-- The places that names lead through, from a place on and whatever is there. -/
def passages (place : List Bytes) : List Bytes → List (List Bytes)
  | [] => [place]
  | name :: names =>
    place :: (if name == text "." then passages place names
      else if name == text ".." then passages place.dropLast names
      else passages (place ++ [name]) names)

/-- The places that a path leads through. -/
def places (t : FileTree) (path : Bytes) : List (List Bytes) :=
  passages (if Path.isAbsolute path then [] else t.workingFolder) (Path.names path.beforeNul)

/-- The tree with folders at a place and at all places above it. -/
def makeFolders (t : FileTree) (place : List Bytes) : FileTree :=
  (List.range (place.length + 1)).foldl (fun t n => t.set (place.take n) .folder) t

def deviceName : Device → Bytes
  | .null => text "null"
  | .zero => text "zero"
  | .full => text "full"

def addDevice (t : FileTree) (d : Device) : FileTree :=
  t.set [text "dev", deviceName d] (.device d)

/-- A tree that holds nothing but the working folder and the devices. -/
def empty (workingFolder : List Bytes) : FileTree :=
  let root : FileTree := { node := fun _ => none, workingFolder }
  [.null, .zero, .full].foldl addDevice ((root.makeFolders workingFolder).makeFolders [text "dev"])

end FileTree

end EmbeddedApps
