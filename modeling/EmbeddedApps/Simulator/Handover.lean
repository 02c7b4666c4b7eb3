import EmbeddedApps.Simulator

/-!
# Handing an image over

Whoever wants an image installed passes in boot information, and a place for the number of used
bytes if that is wanted too. Both are filled in once the image is installed, and they are left as
they are when it is refused.
-/

namespace EmbeddedApps.Simulator

/-- What is to be filled in. The number of used bytes may be of no interest. -/
structure Handover where
  info : BootRecord
  used : Option UInt64

/-- What was passed in, with an installed image filled in. -/
def Handover.receive (h : Handover) (i : Image.Installed) : Handover where
  info := { h.info with table := some i.table }
  used := h.used.map fun _ => i.used

structure Loading where
  accepted : Bool
  handover : Handover
  memory : Memory
  printed : Printed

/-- Installs the image that a path leads to and hands it over, or prints why it is refused. -/
def loadImage (files : FileTree) (path : Bytes) (r : Region) (h : Handover) (m : Memory) :
    Loading :=
  match installFile files path r m with
  | (.ok i, m) => ⟨true, h.receive i, m, .output (i.message ++ [Bytes.newline])⟩
  | (.error f, m) => ⟨false, h, m, .error (f.message ++ [Bytes.newline])⟩

end EmbeddedApps.Simulator
