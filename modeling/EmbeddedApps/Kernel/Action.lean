import EmbeddedApps.Kernel.Boot

/-!
# Runs of a kernel

A kernel may be driven step by step, in any order and repeatedly. A step is taken only if the part
that it works with exists.
-/

namespace EmbeddedApps

inductive Action
  | boot
  | startObjects
  | buildDirectory
  | buildLoader
  | loadAll
  deriving DecidableEq

def Kernel.isReady (k : Kernel) : Action → Bool
  | .boot => true
  | .startObjects => true
  | .buildDirectory => k.objects.isSome
  | .buildLoader => k.directory.isSome
  | .loadAll => k.loader.isSome

/-- The step itself. A step that loads apps tells how many. -/
def Action.step : Action → Step (Option UInt64)
  | .boot => do System.boot; return none
  | .startObjects => do System.startObjects; return none
  | .buildDirectory => do System.buildDirectory; return none
  | .buildLoader => do System.buildLoader; return none
  | .loadAll => modifyGet fun s => (some s.loadAll.1, s.loadAll.2)

inductive Answer
  | notReady
  | done (loaded : Option UInt64)
  | panicked (reason : Panic)

namespace System

/-- Takes a step if the kernel is ready for it. -/
def perform (a : Action) (s : System) : Answer × System :=
  if s.kernel.isReady a then
    match a.step s with
    | .ok loaded t => (.done loaded, t)
    | .error p t => (.panicked p, t)
  else (.notReady, s)

def performAll (as : List Action) (s : System) : System :=
  as.foldl (fun s a => (s.perform a).2) s

end System

end EmbeddedApps
