import EmbeddedApps.Extent
import EmbeddedApps.Word.Alignment

/-!
# Placing programs

Programs are placed one after the other. Each starts at the first aligned address that is not
before the end of the program placed last.
-/

namespace EmbeddedApps.Placement

/-- The extents of programs of the given sizes, from the cursor on. -/
def place (alignment cursor : UInt64) : List UInt64 → List Extent
  | [] => []
  | size :: sizes =>
    let start := alignUp cursor alignment
    ⟨start, start + size⟩ :: place alignment (start + size) sizes

/-- Where the last program ends, or the cursor if there is none. -/
def finish (cursor : UInt64) (es : List Extent) : UInt64 :=
  match es.getLast? with
  | some e => e.stop
  | none => cursor

@[simp] theorem length_place (alignment cursor : UInt64) (sizes : List UInt64) :
    (place alignment cursor sizes).length = sizes.length := by
  induction sizes generalizing cursor with
  | nil => rfl
  | cons size sizes ih => simp [place, ih]

theorem finish_cons (cursor : UInt64) (e : Extent) (es : List Extent) :
    finish cursor (e :: es) = finish e.stop es := by
  cases es with
  | nil => rfl
  | cons e' es =>
    rw [finish, finish, List.getLast?_cons_cons,
      List.getLast?_eq_some_getLast (List.cons_ne_nil e' es)]

/-- Each extent is as large as its program. -/
theorem map_size_place (alignment cursor : UInt64) (sizes : List UInt64) :
    (place alignment cursor sizes).map Extent.size = sizes := by
  induction sizes generalizing cursor with
  | nil => rfl
  | cons size sizes ih => simp [place, ih, Extent.size, UInt64.add_comm]

end EmbeddedApps.Placement
