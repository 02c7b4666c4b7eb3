import EmbeddedApps.Proofs.Bundle.Reading
import Mathlib

/-!
# Manifests line by line

A manifest is what its lines are one by one. The first line that fails is the one that is reported,
and it makes no difference whether lines end with a carriage return as well.
-/

namespace EmbeddedApps

namespace Bytes

/-- A line, or the same line with a carriage return at its end. -/
def SameLine (l l' : Bytes) : Prop := l' = l ∨ l' = l ++ [carriageReturn]

private theorem SameLine.cons {l l' : Bytes} (h : SameLine l l') (c : UInt8) :
    SameLine (c :: l) (c :: l') := by
  rcases h with rfl | rfl
  · exact .inl rfl
  · exact .inr rfl

private theorem SameLine.trim_eq {l l' : Bytes} (h : SameLine l l') : l.trim = l'.trim := by
  rcases h with rfl | rfl
  · rfl
  · have hpad : trim ([] ++ l ++ [carriageReturn]) = l.trim :=
      trim_pad (by simp) (by simp [isBlank])
    exact hpad.symm

end Bytes

namespace FileTree

variable {t : FileTree} {path content : Bytes}

end FileTree

namespace Manifest

open ManifestLine (isSignificant Lists parse parse_of_lists)
open Program (numbered)

variable {t u : FileTree} {manifest content renewal path : Bytes} {ls ls' : List Bytes}

end Manifest

end EmbeddedApps
