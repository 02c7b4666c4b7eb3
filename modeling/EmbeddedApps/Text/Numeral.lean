import EmbeddedApps.Text.Basic

/-!
# Numerals

Numbers are printed in decimal or in lower-case hexadecimal. They are read in base ten, or in
base eight or sixteen after a leading `0` or `0x`.
-/

namespace EmbeddedApps

private def digitByte (c : Char) : UInt8 := c.toNat.toUInt8

def decimal (n : Nat) : Bytes := (Nat.toDigits 10 n).map digitByte

/-- The last digit comes off the end. -/
theorem decimal_eq (n : Nat) :
    decimal n = (if n < 10 then [] else decimal (n / 10)) ++ [48 + (n % 10).toUInt8] := by
  have hdigit : ∀ d < 10, digitByte (Nat.digitChar d) = 48 + d.toUInt8 := by decide
  have hlast := hdigit (n % 10) (Nat.mod_lt n (by decide))
  rw [decimal, Nat.toDigits_eq_if (by decide)]
  split
  · rename_i hn
    rw [Nat.mod_eq_of_lt hn] at hlast ⊢
    simp [hlast]
  · simp [decimal, hlast]

def signedDecimal : Int → Bytes
  | .ofNat n => decimal n
  | .negSucc n => Bytes.minus :: decimal (n + 1)

def hexadecimal (n : Nat) : Bytes := (Nat.toDigits 16 n).map digitByte

theorem zero_notMem_hexadecimal (n : Nat) : 0 ∉ hexadecimal n := by
  have hdigit : ∀ d < 16, 0 ≠ digitByte (Nat.digitChar d) := by decide
  induction n using Nat.strongRecOn with
  | ind n ih =>
    rw [hexadecimal, Nat.toDigits_eq_if (by decide)]
    split
    · rename_i hn
      simpa using hdigit n hn
    · have hlast := hdigit (n % 16) (Nat.mod_lt n (by decide))
      rw [List.map_append, List.mem_append, List.map_singleton, List.mem_singleton]
      exact fun h => h.elim (ih (n / 16) (by omega)) hlast

/-- Hexadecimal digits after `0x`; zero is the single digit `0`. -/
def markedHexadecimal (n : Nat) : Bytes :=
  if n = 0 then text "0" else text "0x" ++ hexadecimal n

namespace Numeral

/-- Space and the five control characters from tab to carriage return. -/
def isSpace (c : UInt8) : Bool := c == Bytes.space || (9 ≤ c && c ≤ 13)

/-- The value of a digit or letter, which is at most 35. -/
def digit? (c : UInt8) : Option Nat :=
  if 48 ≤ c && c ≤ 57 then some (c.toNat - 48)
  else if 97 ≤ c && c ≤ 122 then some (c.toNat - 87)
  else if 65 ≤ c && c ≤ 90 then some (c.toNat - 55)
  else none

def digitIn? (base : Nat) (c : UInt8) : Option Nat := (digit? c).filter (· < base)

/-- The value of a string of digits, none of which may lie outside the base. -/
def valueFrom? (base value : Nat) : Bytes → Option Nat
  | [] => some value
  | c :: cs => (digitIn? base c).bind fun d => valueFrom? base (base * value + d) cs

def value? (base : Nat) (s : Bytes) : Option Nat :=
  if s.isEmpty then none else valueFrom? base 0 s

/-- An optional sign and what follows it. The flag says that the sign is a minus. -/
def splitSign : Bytes → Bool × Bytes
  | c :: cs =>
    if c == Bytes.minus then (true, cs)
    else if c == 43 then (false, cs)
    else (false, c :: cs)
  | [] => (false, [])

/-- The base that the first digits announce, and the digits to be read in it. A `0x` counts only
if a hexadecimal digit follows. -/
def splitBase : Bytes → Nat × Bytes
  | 48 :: x :: d :: ds =>
    if (x == 120 || x == 88) && (digitIn? 16 d).isSome then (16, d :: ds)
    else (8, 48 :: x :: d :: ds)
  | 48 :: ds => (8, 48 :: ds)
  | ds => (10, ds)

/-- A number modulo the word size, negated after a minus sign. Numbers past the largest word
become that word, whatever their sign. -/
def wordOf (negative : Bool) (n : Nat) : UInt64 :=
  if UInt64.size ≤ n then 0xffffffffffffffff
  else if negative then 0 - n.toUInt64 else n.toUInt64

/-- Reads a whole string as one word: blanks, a sign, a base mark and digits, with nothing after
them. The empty string is zero. The mark `0b` of binary numbers, which the newest C libraries know
too, is left out: a string with it is no number here. -/
def word? (s : Bytes) : Option UInt64 :=
  if s.isEmpty then some 0 else
    let (negative, unsigned) := splitSign (s.dropWhile isSpace)
    let (base, digits) := splitBase unsigned
    (value? base digits).map (wordOf negative)

end Numeral

end EmbeddedApps
