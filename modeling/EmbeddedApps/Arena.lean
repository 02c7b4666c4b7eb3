import EmbeddedApps.Memory.Basic
import EmbeddedApps.Word.Alignment

/-!
# Linear arenas

An arena hands out blocks of one region from the bottom up and never takes one back. A block is
aligned as asked for, and the bytes skipped for its alignment count as used.
-/

namespace EmbeddedApps

/-- The managed bytes start at `base`; the first `used` of its `capacity` bytes are taken. -/
structure Arena where
  base : Address
  capacity : UInt64
  used : UInt64

namespace Arena

/-- The bytes that an arena's own header takes at the bottom of its region. -/
def headerSize : UInt64 := 32

def fresh (base : Address) (capacity : UInt64) : Arena := ⟨base, capacity, 0⟩

/-- The arena over a region, which manages what its header leaves. There is none if the region
has no base or no byte beyond the header. -/
def ofRegion? (r : Region) : Option Arena :=
  r.base.bind fun base =>
    if r.size ≤ headerSize then none
    else some (fresh (base + headerSize) (r.size - headerSize))

def free (a : Arena) : UInt64 := a.capacity - a.used

def position (a : Arena) : Address := a.base + a.used

/-- Takes `size` bytes at the next multiple of `alignment`. Nothing changes when the alignment
is no power of two, or when the skipped and the asked bytes do not both fit. A block that would
start at address zero is taken but is no place. -/
def allocate (a : Arena) (size alignment : UInt64) : Option Address × Arena :=
  if isPowerOfTwo alignment then
    let start := alignUp a.position alignment
    let padding := start - a.position
    if padding > a.free || size > a.free - padding then (none, a)
    else (Address.pointer? start, { a with used := a.used + (padding + size) })
  else (none, a)

/-- Giving a block back has no effect: the arena is released as a whole. -/
def release (a : Arena) (_block : Option Address) (_size : UInt64) : Arena := a

end Arena

end EmbeddedApps
