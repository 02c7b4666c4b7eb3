import EmbeddedApps.Word.LittleEndian
import Std.Data.TreeMap

/-!
# Byte-addressed memory

A memory holds one byte at every 64-bit address. It is kept in pages; a page that was never
written to is absent and reads as zeros. Addresses wrap around at the top.
-/

namespace EmbeddedApps

abbrev Address := UInt64

/-- Address zero stands for no place at all. -/
def Address.pointer? (a : Address) : Option Address := if a = 0 then none else some a

/-- The contents of all addresses, by page. -/
structure Memory where
  pages : Std.TreeMap Nat (Vector UInt8 4096)

namespace Memory

def zeroed : Memory := ⟨∅⟩

/-- The number of the page that an address lies in. -/
def page (a : Address) : Nat := a.toNat / 4096

/-- The place of an address inside its page. -/
def offset (a : Address) : Fin 4096 := ⟨a.toNat % 4096, Nat.mod_lt _ (by decide)⟩

def read (m : Memory) (a : Address) : UInt8 :=
  match m.pages[page a]? with
  | some p => p[offset a]
  | none => 0

/-- The memory with one byte replaced. Writing a zero does not bring an absent page about. -/
def write (m : Memory) (a : Address) (b : UInt8) : Memory :=
  if m.pages.contains (page a) then ⟨m.pages.modify (page a) fun p => p.set (offset a) b⟩
  else if b = 0 then m
  else ⟨m.pages.insert (page a) ((Vector.replicate 4096 0).set (offset a) b)⟩

def readBytes (m : Memory) (a : Address) (n : Nat) : Bytes :=
  (List.range n).map fun i => m.read (a + i.toUInt64)

/-- Writes bytes to successive addresses, first to last. -/
def writeBytes (m : Memory) (a : Address) : Bytes → Memory
  | [] => m
  | b :: bs => (m.write a b).writeBytes (a + 1) bs

/-- Writes the same byte to `n` successive addresses. -/
def fill (m : Memory) (a : Address) (b : UInt8) : Nat → Memory
  | 0 => m
  | n + 1 => (m.write a b).fill (a + 1) b n

def zero (m : Memory) (a : Address) (n : Nat) : Memory := m.fill a 0 n

/-- Copies `n` bytes one by one, lowest address first. Where the ranges overlap, bytes that were
already copied are copied again. -/
def copy (m : Memory) (target source : Address) : Nat → Memory
  | 0 => m
  | n + 1 => (m.write target (m.read source)).copy (target + 1) (source + 1) n

def readWord (m : Memory) (a : Address) : UInt64 := LittleEndian.decode (m.readBytes a 8)

def writeWord (m : Memory) (a : Address) (w : UInt64) : Memory :=
  m.writeBytes a (LittleEndian.encode w)

end Memory

/-- A stretch of memory that is handed over as a whole, or none if it has no base. -/
structure Region where
  base : Option Address
  size : UInt64

end EmbeddedApps
