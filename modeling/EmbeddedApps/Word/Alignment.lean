/-!
# Alignment of machine words

Rounding up to a multiple of a power of two, by the bit formula on 64-bit words. The formula is
applied as it stands, so its result is defined for every word, whether a power of two or not.
-/

namespace EmbeddedApps

/-- A power of two shares no bit with its predecessor. -/
def isPowerOfTwo (v : UInt64) : Bool := 0 < v && v &&& (v - 1) == 0

/-- The least multiple of a power of two at or above `v`, modulo the word size. -/
def alignUp (v alignment : UInt64) : UInt64 := (v + alignment - 1) &&& ~~~(alignment - 1)

/-- The widths at which a value can be aligned. -/
inductive Width
  | w8
  | w16
  | w32
  | w64

/-- The low bits of a word, as many as the width has. -/
def Width.truncate : Width → UInt64 → UInt64
  | w8, v => v.toUInt8.toUInt64
  | w16, v => v.toUInt16.toUInt64
  | w32, v => v.toUInt32.toUInt64
  | w64, v => v

/-- Alignment of a value of the given width, computed on words and cut back to the width. -/
def Width.alignUp (w : Width) (v alignment : UInt64) : UInt64 :=
  w.truncate (EmbeddedApps.alignUp (w.truncate v) alignment)

end EmbeddedApps
