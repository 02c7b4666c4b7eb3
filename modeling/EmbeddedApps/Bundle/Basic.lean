import EmbeddedApps.Bundle.Manifest
import EmbeddedApps.Image.Format

/-!
# Bundles

A bundle collects programs under an alignment and a symbol prefix, from which its image and its
assembly listing are made.
-/

namespace EmbeddedApps

/-- Alignments that programs can have in an image. -/
def isImageAlignment (a : UInt64) : Bool := isPowerOfTwo a && a ≤ Limits.imageAlignment

def isSymbolByte (c : UInt8) : Bool :=
  (97 ≤ c && c ≤ 122) || (65 ≤ c && c ≤ 90) || (48 ≤ c && c ≤ 57) || c == 95

/-- A bundle has an alignment that programs can have in an image, and a prefix made of letters,
digits and underscores. -/
structure Bundle where
  alignment : UInt64
  symbolPrefix : Bytes
  programs : List Program
  isImageAlignment_alignment : isImageAlignment alignment
  all_isSymbolByte : symbolPrefix.all isSymbolByte

/-- Places programs of the given sizes, if the alignment is admitted. -/
def embed (sizes : List UInt64) (base alignment : UInt64) : Except BuildFault (List Extent) :=
  if isImageAlignment alignment then .ok (Placement.place alignment base sizes)
  else .error (.badAlignment alignment)

namespace Bundle

def create (alignment : UInt64) (symbolPrefix : Bytes) : Except BuildFault Bundle :=
  if ha : isImageAlignment alignment then
    if hs : symbolPrefix.all isSymbolByte then .ok ⟨alignment, symbolPrefix, [], ha, hs⟩
    else .error (.badSymbolPrefix symbolPrefix)
  else .error (.badAlignment alignment)

def nextIndex (b : Bundle) : UInt32 := b.programs.length.toUInt32

def contents (b : Bundle) : List Bytes := b.programs.map (·.bytes)

def layout (b : Bundle) : List Extent := Image.layout b.alignment b.contents

def image (b : Bundle) : Bytes := Image.encode b.alignment b.contents

end Bundle

end EmbeddedApps
