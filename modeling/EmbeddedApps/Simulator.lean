import EmbeddedApps.FileTree.Basic
import EmbeddedApps.Image.Install
import EmbeddedApps.Kernel.Boot

/-!
# The simulator

The simulator boots a kernel from an image. The kernel gets the lower half of a simulated memory,
and the image goes to the upper half. The simulated memory may start at any address.
-/

namespace EmbeddedApps.Simulator

def memoryBase : Address := 0x200000000000

def memorySize : UInt64 := 0x4000000

def halfSize : UInt64 := 0x2000000

def kernelRegion (base : Address) : Region := ⟨some base, halfSize⟩

def imageRegion (base : Address) : Region := ⟨some (base + halfSize), memorySize - halfSize⟩

/-- The simulated platform, whose instruction cache needs no flush. -/
def platform : Platform := ⟨some (text "posix-simulator"), false⟩

/-- The image that is booted when none is named. -/
def defaultImage : Bytes := text "apps.img"

/-- How a run ends: it returns, or the kernel's panic takes it down. -/
inductive Ending
  | returned (code : Int)
  | terminated
  deriving DecidableEq

structure Outcome where
  ending : Ending
  printed : List Printed

/-- Installs the image that a path leads to. A folder opens but has no header to be read, and a
device is an empty image. -/
def installFile (files : FileTree) (path : Bytes) (r : Region) (m : Memory) :
    Except Image.Fault Image.Installed × Memory :=
  match files.open? path with
  | some (.file image) => Image.install image r m
  | some .folder => (.error (.corruptHeader 0), m)
  | some (.device _) => Image.install [] r m
  | none => (.error (.unreadable path), m)

def bootRecord (table : Address) : BootRecord where
  magic := Limits.bootMagic
  version := Limits.bootVersion
  table := some table
  memorySize := memorySize

def loadedLine (loaded count : UInt64) : Printed :=
  .output (text "[Simulator] " ++ decimal loaded.toNat ++ text "/" ++ decimal count.toNat ++
    text " apps loaded.\n")

def nextLine (i : UInt64) (slot : Extent) : Printed :=
  .output (text "[Simulator] next app_" ++ decimal i.toNat ++ text " -> slot 0x" ++
    hexadecimal slot.start.toNat ++ text "\n")

/-- Goes through at most `n` loaded apps in the order in which they are to run. -/
def schedule (loaded : UInt64) : Nat → Loader → List Printed
  | 0, _ => []
  | n + 1, l =>
    if l.hasNext && l.cursor < loaded then
      match l.slots.slot? l.cursor.toInt64 with
      | some slot => nextLine l.cursor slot :: schedule loaded n l.advance
      | none => schedule loaded n l.advance
    else []

/-- What is printed after a boot: the number of apps, and the loaded ones in order. -/
def announce (loaded : UInt64) (k : Kernel) : List Printed :=
  match k.loader with
  | none => []
  | some l =>
    loadedLine loaded ((k.directory.map (·.count)).getD 0) ::
      schedule loaded loaded.toNat l.toLoader

/-- Boots from the table of an installed image and loads all apps. The result is the number of
loaded apps and the kernel. -/
def bootFrom (base table : Address) (m : Memory) : Except Panic (UInt64 × Kernel) × Machine :=
  match Kernel.start (kernelRegion base) (bootRecord table) (some platform) (.ofMemory m) with
  | (.error p, s) => (.error p, s)
  | (.ok (_, k), s) =>
    let (loaded, t) := System.loadAll ⟨k, s⟩
    (.ok (loaded, t.kernel), t.machine)

/-- What is printed from the first log line on, and how the run ends. -/
def conclude (r : Except Panic (UInt64 × Kernel) × Machine) : Outcome :=
  let logged := r.2.log.toList.map LogLine.print
  match r.1 with
  | .error _ => ⟨.terminated, logged⟩
  | .ok (loaded, k) => ⟨.returned 0, logged ++ announce loaded k⟩

/-- Boots from the image that a path leads to, in a memory that may hold anything before. -/
def runImage (base : Address) (files : FileTree) (path : Bytes) (m : Memory) : Outcome :=
  match installFile files path (imageRegion base) m with
  | (.error f, _) => ⟨.returned (-1), [.error (f.message ++ [Bytes.newline])]⟩
  | (.ok installed, m) =>
    let o := conclude (bootFrom base installed.table m)
    { o with printed := .output (installed.message ++ [Bytes.newline]) :: o.printed }

/-- Runs the simulator on a command line, whose first argument names the image. It needs memory to
simulate with. -/
def run (memory : Option Memory) (arguments : List Bytes) (files : FileTree)
    (base : Address := memoryBase) : Outcome :=
  match memory with
  | none => ⟨.returned (-1), [.error (text "[Simulator] Cannot allocate simulated RAM\n")]⟩
  | some m => runImage base files (arguments.headD defaultImage).beforeNul m

end EmbeddedApps.Simulator
