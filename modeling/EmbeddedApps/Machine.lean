import EmbeddedApps.Log
import EmbeddedApps.Memory.Basic

/-!
# The machine

What the kernel acts on: the memory, the log, and an instruction cache that may be flushed.
-/

namespace EmbeddedApps

/-- The log is kept with its newest line last. For each flush of the instruction cache the
memory is kept as it stood then, since that is what the processor goes on to execute. -/
structure Machine where
  memory : Memory
  log : Array LogLine
  flushes : List Memory

namespace Machine

def ofMemory (m : Memory) : Machine := ⟨m, #[], []⟩

def say (s : Machine) (l : LogLine) : Machine := { s with log := s.log.push l }

def sayAll (s : Machine) (ls : List LogLine) : Machine := { s with log := s.log.appendList ls }

def flush (s : Machine) : Machine := { s with flushes := s.memory :: s.flushes }

end Machine

end EmbeddedApps
