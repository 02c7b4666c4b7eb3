import EmbeddedApps.Machine
import EmbeddedApps.Proofs.Memory.Writes
import Mathlib

/-!
# Effects on a machine

What a computation leaves behind: lines at the end of the log, and writes to memory.
-/

namespace EmbeddedApps

/-- Lines to be logged and byte strings to be written, both in order. -/
structure Effect where
  lines : List LogLine
  writes : List Write

instance : Append Effect := ⟨fun e f => ⟨e.lines ++ f.lines, e.writes ++ f.writes⟩⟩

@[simp] theorem Effect.mk_append_mk (ls ls' : List LogLine) (ws ws' : List Write) :
    (⟨ls, ws⟩ ++ ⟨ls', ws'⟩ : Effect) = ⟨ls ++ ls', ws ++ ws'⟩ := rfl

theorem Effect.writes_append (e f : Effect) : (e ++ f).writes = e.writes ++ f.writes := rfl

namespace Machine

def after (s : Machine) (e : Effect) : Machine :=
  { s with memory := s.memory.writeAll e.writes, log := s.log ++ e.lines }

@[simp] theorem memory_after (s : Machine) (e : Effect) :
    (s.after e).memory = s.memory.writeAll e.writes := rfl

theorem after_append (s : Machine) (e f : Effect) : s.after (e ++ f) = (s.after e).after f := by
  have hlog : s.log ++ (e.lines ++ f.lines) = s.log ++ e.lines ++ f.lines := by
    apply Array.toList_inj.mp
    simp
  rw [after, after, after, ← hlog, ← Memory.writeAll_append]
  rfl

theorem after_nil (s : Machine) : s.after ⟨[], []⟩ = s := by simp [after]

theorem say_eq_after (s : Machine) (l : LogLine) : s.say l = s.after ⟨[l], []⟩ := by
  simp [say, after]

theorem write_eq_after (s : Machine) (ws : List Write) :
    { s with memory := s.memory.writeAll ws } = s.after ⟨[], ws⟩ := by simp [after]

end Machine

end EmbeddedApps
