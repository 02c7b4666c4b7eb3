import EmbeddedApps.Bundle.Listing

/-!
# Writing bundles

The listing is made after its file is opened, the image before. Whatever goes wrong then, the files
stay as far as they were written.
-/

namespace EmbeddedApps

abbrev Filing (α : Type) := EStateM BuildFault FileTree α

/-- Opens an output, which is empty then, and finds its place. -/
def openOutput (path : Bytes) : Filing (List Bytes) := do
  match (← get).openOutput? path with
  | none => throw (.noOutput path)
  | some (place, t) =>
    set t
    return place

def fillOutput (path : Bytes) (place : List Bytes) (content : Bytes) : Filing Unit := do
  let t ← get
  set (t.fill place content)
  if t.noticesLoss place content then throw (.incompleteOutput path)

namespace Bundle

def writeListing (b : Bundle) (path : Bytes) : Filing Unit := do
  let place ← openOutput path
  match b.renderListing (← get) with
  | .error f => throw f
  | .ok content => fillOutput path place content

def writeImage (b : Bundle) (path : Bytes) : Filing Unit := do
  let image := b.image
  let place ← openOutput path
  fillOutput path place image

end Bundle

end EmbeddedApps
