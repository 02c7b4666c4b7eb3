import EmbeddedApps.Arena

/-!
# Objects in an arena

A store builds objects at places that its arena hands out and keeps count of them. It can be used
in two ways: the accounted way also keeps the number of living objects, the plain way leaves that
number alone.
-/

namespace EmbeddedApps

structure Footprint where
  size : UInt64
  alignment : UInt64

/-- The number of living objects, modulo the word size. -/
structure ObjectCount where
  active : UInt64

namespace ObjectCount

/-- Takes the place of one object and counts it if there is room. -/
def place (c : ObjectCount) (a : Arena) (f : Footprint) :
    Option Address × ObjectCount × Arena :=
  match a.allocate f.size f.alignment with
  | (some p, a) => (some p, ⟨c.active + 1⟩, a)
  | (none, a) => (none, c, a)

end ObjectCount

/-- Whether a call takes part in the count of living objects. -/
inductive Accounting
  | accounted
  | plain

/-- An arena with its memory, the count of living objects, and how many objects were built and
torn down so far. -/
structure ObjectStore where
  arena : Arena
  memory : Memory
  count : ObjectCount
  built : Nat
  tornDown : Nat

namespace ObjectStore

def empty (a : Arena) : ObjectStore := ⟨a, .zeroed, ⟨0⟩, 0, 0⟩

/-- Builds an object with the given bytes, or none if the arena has no room for it. -/
def construct (s : ObjectStore) (way : Accounting) (alignment : UInt64) (content : Bytes) :
    Option Address × ObjectStore :=
  let size := content.length.toUInt64
  let (p, count, arena) := match way with
    | .accounted => s.count.place s.arena ⟨size, alignment⟩
    | .plain => let (p, arena) := s.arena.allocate size alignment
                (p, s.count, arena)
  match p with
  | some a =>
    (p, { s with arena, count, memory := s.memory.writeBytes a content, built := s.built + 1 })
  | none => (p, { s with arena, count })

/-- Tears an object down. Without an object nothing happens. -/
def destroy (s : ObjectStore) (way : Accounting) (object : Option Address) (size : UInt64) :
    ObjectStore :=
  match object with
  | none => s
  | some _ =>
    let count := match way with
      | .accounted => ⟨s.count.active - 1⟩
      | .plain => s.count
    { s with arena := s.arena.release object size, count, tornDown := s.tornDown + 1 }

end ObjectStore

end EmbeddedApps
