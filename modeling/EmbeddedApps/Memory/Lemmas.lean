import EmbeddedApps.Memory.Basic

/-!
# Laws of memory

A read sees the last write to its address and no other. Everything else that memory does is a
sequence of single-byte writes.
-/

namespace EmbeddedApps.Memory

private theorem eq_of_page_of_offset {a c : Address} (hp : page a = page c)
    (ho : offset a = offset c) : a = c := by
  apply UInt64.toNat_inj.mp
  have ho' := congrArg Fin.val ho
  simp only [page, offset] at hp ho'
  omega

private theorem getElem_set_offset {a c : Address} (p : Vector UInt8 4096) (b : UInt8)
    (hp : page a = page c) :
    (p.set (offset a) b)[offset c] = if c = a then b else p[offset c] := by
  by_cases h : c = a
  · simp [h]
  · have ho : (offset a).val ≠ (offset c).val := fun ho =>
      h (eq_of_page_of_offset hp (Fin.val_inj.mp ho)).symm
    simp only [h, if_false, Fin.getElem_fin]
    exact Vector.getElem_set_ne _ _ ho

theorem read_write (m : Memory) (a c : Address) (b : UInt8) :
    (m.write a b).read c = if c = a then b else m.read c := by
  by_cases hp : page a = page c
  · cases hm : m.pages[page c]? with
    | some p =>
      have hc : m.pages.contains (page c) = true := by
        rw [Std.TreeMap.contains_eq_isSome_getElem?, hm]; rfl
      simp [write, read, hp, hc, hm, getElem_set_offset p b hp]
    | none =>
      have hc : m.pages.contains (page c) = false := by
        rw [Std.TreeMap.contains_eq_isSome_getElem?, hm]; rfl
      by_cases hb : b = 0
      · simp [write, read, hp, hc, hm, hb]
      · simp [write, read, hp, hc, hm, hb, getElem_set_offset _ b hp]
  · have hne : c ≠ a := fun h => hp (by rw [h])
    rw [if_neg hne, write]
    split
    · simp [read, Std.TreeMap.getElem?_modify, hp]
    · split
      · rfl
      · simp [read, Std.TreeMap.getElem?_insert, hp]

@[simp] theorem read_zeroed (a : Address) : zeroed.read a = 0 := by
  simp [zeroed, read]

end EmbeddedApps.Memory
