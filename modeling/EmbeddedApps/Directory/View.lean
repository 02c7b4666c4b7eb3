import EmbeddedApps.Directory

/-!
# Walking through a directory

A view of a directory shows its apps one after the other and can be walked through any number of
times. It copies nothing: where an app lies is put together from the boundaries on its two sides
when the walk gets there.
-/

namespace EmbeddedApps

namespace Boundaries

def extentAt (b : Boundaries) (m : Memory) (i : UInt64) : Extent := ⟨b.at m i, b.at m (i + 1)⟩

private theorem toNat_left_lt {i n : UInt64} (h : i ≠ n) :
    (n - (i + 1)).toNat < (n - i).toNat := by
  have hi := i.toNat_lt
  have hn := n.toNat_lt
  have hne : i.toNat ≠ n.toNat := fun he => h (UInt64.toNat_inj.mp he)
  simp only [UInt64.toNat_sub, UInt64.toNat_add, UInt64.toNat_one]
  omega

/-- Goes from app `i` on to the end, one app at a time. What a visit does to memory shows in the
extents that are read after it. -/
def walkFrom {σ : Type} (b : Boundaries) (memory : σ → Memory) (visit : σ → Extent → σ)
    (i : UInt64) (x : σ) : σ :=
  if i = b.count then x
  else b.walkFrom memory visit (i + 1) (visit x (b.extentAt (memory x) i))
termination_by (b.count - i).toNat
decreasing_by exact toNat_left_lt ‹_›

def walk {σ : Type} (b : Boundaries) (memory : σ → Memory) (visit : σ → Extent → σ) (x : σ) : σ :=
  b.walkFrom memory visit 0 x

end Boundaries

namespace Directory

/-- All apps for a walk. There are none before the directory is built. -/
def view (d : Directory) : Boundaries := d.table.getD ⟨0, 0⟩

/-- Where app `i` lies, for a caller who passes in an extent, which is filled in only if there is
such an app. -/
def rangeInto (d : Directory) (m : Memory) (i : Int64) (out : Extent) : Status × Extent :=
  match d.rangeOf? m i with
  | some e => (.ok, e)
  | none => (.indexOutOfRange, out)

def countLine (d : Directory) : LogLine :=
  .info (text "[kernel] num_app = " ++ decimal d.count.toNat)

def rangeLine (i : Nat) (e : Extent) : LogLine :=
  .info (text "[kernel] app_" ++ decimal i ++ text " [" ++ markedHexadecimal e.start.toNat ++
    text ", " ++ markedHexadecimal e.stop.toNat ++ text ")")

/-- Logs the number of apps and then, on a walk, where each of them lies. -/
def print (d : Directory) (s : Machine) : Machine :=
  (d.view.walk (fun x => x.2.memory) (fun x e => (x.1 + 1, x.2.say (rangeLine x.1 e)))
    (0, s.say d.countLine)).2

end Directory

end EmbeddedApps
