/-!
# Fixed sizes

The constants that the tables, the image format and the kernel agree on.
-/

namespace EmbeddedApps.Limits

def slotSize : UInt64 := 0x20000

/-- The most apps that get a slot. -/
def slotCount : UInt64 := 16

def slotAlignment : UInt64 := 4096

def entrySize : UInt64 := 8

/-- The most apps that a table may name. -/
def tableCount : UInt64 := 65536

/-- The coarsest alignment of programs in an image. -/
def imageAlignment : UInt64 := 4096

def bootMagic : UInt32 := 0xdeadbeef

def bootVersion : UInt32 := 2

end EmbeddedApps.Limits
