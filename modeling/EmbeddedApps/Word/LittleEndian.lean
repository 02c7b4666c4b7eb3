import EmbeddedApps.Text.Basic

/-!
# Little-endian words

A 64-bit word as eight bytes, least significant first, and back. A half word has four bytes.
-/

namespace EmbeddedApps.LittleEndian

def encode (w : UInt64) : Bytes :=
  [w.toUInt8, (w >>> 8).toUInt8, (w >>> 16).toUInt8, (w >>> 24).toUInt8,
    (w >>> 32).toUInt8, (w >>> 40).toUInt8, (w >>> 48).toUInt8, (w >>> 56).toUInt8]

def encodeHalf (w : UInt32) : Bytes :=
  [w.toUInt8, (w >>> 8).toUInt8, (w >>> 16).toUInt8, (w >>> 24).toUInt8]

/-- The word whose bytes these are. -/
def decode (s : Bytes) : UInt64 := s.foldr (fun c w => w * 256 + c.toUInt64) 0

@[simp] theorem length_encode (w : UInt64) : (encode w).length = 8 := rfl

@[simp] theorem length_encodeHalf (w : UInt32) : (encodeHalf w).length = 4 := rfl

@[simp] theorem decode_encode (w : UInt64) : decode (encode w) = w := by
  apply UInt64.toNat_inj.mp
  have h := w.toNat_lt
  simp only [decode, encode, List.foldr_cons, List.foldr_nil, UInt64.toNat_add, UInt64.toNat_mul,
    UInt8.toNat_toUInt64, UInt64.toNat_toUInt8, UInt64.toNat_shiftRight]
  simp [Nat.shiftRight_eq_div_pow]
  omega

end EmbeddedApps.LittleEndian
