import EmbeddedApps.Memory.Basic

/-!
# Extents

A half-open stretch of addresses. Nothing orders its two ends: the size is their difference
modulo the word size.
-/

namespace EmbeddedApps

/-- The addresses from `start` up to, but not including, `stop`. -/
structure Extent where
  start : UInt64
  stop : UInt64
  deriving DecidableEq

namespace Extent

def size (e : Extent) : UInt64 := e.stop - e.start

def isEmpty (e : Extent) : Bool := e.stop == e.start

def data (e : Extent) : Option Address := Address.pointer? e.start

def bytes (e : Extent) (m : Memory) : Bytes := m.readBytes e.start e.size.toNat

end Extent

end EmbeddedApps
