import EmbeddedApps.FileTree.Basic
import Mathlib

/-!
# Writing files

What filling a file does to a file tree. Paths go on leading where they led before, since no folder
comes or goes, and devices stay what they are. A file holds what it has taken, and where it has
taken less than all, this is noticed or not.
-/

namespace EmbeddedApps.FileTree

variable {t : FileTree} {path content : Bytes} {place q : List Bytes}

theorem content?_eq_some_iff :
    t.content? path = some content ↔ t.open? path = some (.file content) := by
  rw [content?]
  split
  · rename_i found hopen
    simp [hopen]
  · rename_i hother
    constructor
    · intro h
      cases h
    · intro hopen
      exact absurd hopen (hother content)

private theorem walk_congr {u : FileTree} (h : ∀ q, t.isFolder q = u.isFolder q)
    (place names : List Bytes) : t.walk place names = u.walk place names := by
  induction names generalizing place with
  | nil => rfl
  | cons name names ih => rw [walk, walk, h, ih, ih, ih]

private theorem isFolder_iff : t.isFolder place = true ↔ t.node place = some .folder := by
  rw [isFolder]
  split
  · rename_i hnode
    simp [hnode]
  · rename_i hother
    exact iff_of_false Bool.false_ne_true hother

theorem open?_of_resolve? (hresolve : t.resolve? path = some place)
    (h : t.isFolder place = false) :
    t.open? path = if wantsFolder path then none else t.node place := by
  rw [open?, hresolve, Option.bind_some]
  split
  · rename_i hfolder
    rw [isFolder_iff.mpr hfolder] at h
    cases h
  · rfl

theorem isFolder_set_file (h : t.isFolder place = false) (content : Bytes) (q : List Bytes) :
    (t.set place (.file content)).isFolder q = t.isFolder q := by
  by_cases hq : q = place
  · rw [hq, h]
    simp [isFolder, set]
  · simp [isFolder, set, hq]

theorem resolve?_set_file (h : t.isFolder place = false) (content path : Bytes) :
    (t.set place (.file content)).resolve? path = t.resolve? path := by
  have hwalk := walk_congr (isFolder_set_file h content)
  simp only [resolve?, hwalk]
  rfl

theorem open?_set_file_self (h : t.isFolder place = false) (hresolve : t.resolve? path = some place)
    (hfile : wantsFolder path = false) (content : Bytes) :
    (t.set place (.file content)).open? path = some (.file content) := by
  have hnew : (t.set place (.file content)).isFolder place = false := by rwa [isFolder_set_file h]
  rw [open?_of_resolve? (by rwa [resolve?_set_file h]) hnew, hfile]
  simp [set]

theorem open?_set_file_of_ne (h : t.isFolder place = false)
    (hresolve : t.resolve? path ≠ some place) (content : Bytes) :
    (t.set place (.file content)).open? path = t.open? path := by
  rw [open?, open?, resolve?_set_file h]
  cases hq : t.resolve? path with
  | none => rfl
  | some q =>
    have hne : q ≠ place := by
      intro heq
      exact hresolve (by rw [hq, heq])
    simp [set, hne]

/-- The path leads to a place where something can be written. -/
structure Writable (t : FileTree) (path : Bytes) (place : List Bytes) : Prop where
  resolve : t.resolve? path = some place
  file : wantsFolder path = false
  noFolder : t.isFolder place = false

theorem openOutput?_eq_some_iff {r : List Bytes × FileTree} :
    t.openOutput? path = some r ↔
      ∃ place, t.Writable path place ∧ r = (place, t.fill place []) := by
  rw [openOutput?, Option.bind_eq_some_iff]
  refine exists_congr fun place => ?_
  constructor
  · rintro ⟨hresolve, h⟩
    split at h
    · cases h
    · rename_i hplain
      obtain ⟨hfile, hfolder⟩ := Bool.or_eq_false_iff.mp (eq_false_of_ne_true hplain)
      exact ⟨⟨hresolve, hfile, hfolder⟩, (Option.some.inj h).symm⟩
  · rintro ⟨⟨hresolve, hfile, hfolder⟩, rfl⟩
    exact ⟨hresolve, by simp [hfile, hfolder]⟩

theorem openOutput?_eq_none_iff :
    t.openOutput? path = none ↔ ∀ place, ¬t.Writable path place := by
  rw [Option.eq_none_iff_forall_ne_some]
  constructor
  · intro h place hplace
    exact h _ (openOutput?_eq_some_iff.mpr ⟨place, hplace, rfl⟩)
  · intro h r hr
    obtain ⟨place, hplace, -⟩ := openOutput?_eq_some_iff.mp hr
    exact h place hplace

theorem Writable.unique (h : t.Writable path place) (h' : t.Writable path q) : place = q :=
  Option.some.inj (h.resolve.symm.trans h'.resolve)

private theorem fill_of_device {d : Device} (h : t.node place = some (.device d))
    (content : Bytes) :
    t.fill place content = t := by
  rw [fill, h]

private theorem fill_of_file (h : ∀ d, t.node place ≠ some (.device d)) (content : Bytes) :
    t.fill place content = t.set place (.file (t.taken place content)) := by
  rw [fill]
  split
  · rename_i d hd
    exact absurd hd (h d)
  · rfl

private theorem taken_of_file (h : ∀ d, t.node place ≠ some (.device d)) (content : Bytes) :
    t.taken place content = match t.room place with
      | some n => content.take n
      | none => content := by
  rw [taken]
  split
  · rename_i hd
    exact absurd hd (h _)
  · rename_i d _ hd
    exact absurd hd (h d)
  · rfl

theorem node_fill_of_ne (h : q ≠ place) (content : Bytes) :
    (t.fill place content).node q = t.node q := by
  rw [fill]
  split
  · rfl
  · simp [set, h]

private theorem node_fill_eq_device_iff (content : Bytes) {d : Device} :
    (t.fill place content).node q = some (.device d) ↔ t.node q = some (.device d) := by
  by_cases hd : ∃ e, t.node place = some (.device e)
  · obtain ⟨e, he⟩ := hd
    rw [fill_of_device he]
  · rw [not_exists] at hd
    rw [fill_of_file hd]
    by_cases hq : q = place
    · simp [set, hq, hd]
    · simp [set, hq]

@[simp] theorem room_fill (content : Bytes) : (t.fill place content).room = t.room := by
  rw [fill]
  split <;> rfl

@[simp] theorem directWrite_fill (content : Bytes) :
    (t.fill place content).directWrite = t.directWrite := by
  rw [fill]
  split <;> rfl

private theorem taken_fill (content other : Bytes) :
    (t.fill place content).taken q other = t.taken q other := by
  by_cases hd : ∃ d, t.node q = some (.device d)
  · obtain ⟨d, hd⟩ := hd
    rw [taken, taken, (node_fill_eq_device_iff content).mpr hd, hd]
    cases d <;> rfl
  · rw [not_exists] at hd
    rw [taken_of_file hd, taken_of_file fun d h => hd d ((node_fill_eq_device_iff content).mp h),
      room_fill]

theorem noticesLoss_fill (content other : Bytes) :
    (t.fill place content).noticesLoss q other = t.noticesLoss q other := by
  rw [noticesLoss, noticesLoss, taken_fill, directWrite_fill]

theorem fill_fill (first content : Bytes) :
    (t.fill place first).fill place content = t.fill place content := by
  by_cases hd : ∃ d, t.node place = some (.device d)
  · obtain ⟨d, hd⟩ := hd
    rw [fill_of_device hd]
  · rw [not_exists] at hd
    rw [fill_of_file (fun d h => hd d ((node_fill_eq_device_iff first).mp h)), taken_fill,
      fill_of_file hd, fill_of_file hd, set, set, set]
    congr 1
    funext q
    by_cases hq : q = place
    · simp [hq]
    · simp [hq]

section Folders

variable (h : t.isFolder place = false)
include h

private theorem isFolder_fill (content : Bytes) (q : List Bytes) :
    (t.fill place content).isFolder q = t.isFolder q := by
  rw [fill]
  split
  · rfl
  · exact isFolder_set_file h _ q

theorem resolve?_fill (content path : Bytes) :
    (t.fill place content).resolve? path = t.resolve? path := by
  rw [fill]
  split
  · rfl
  · exact resolve?_set_file h _ path

theorem open?_fill_of_ne (hresolve : t.resolve? path ≠ some place) (content : Bytes) :
    (t.fill place content).open? path = t.open? path := by
  rw [fill]
  split
  · rfl
  · exact open?_set_file_of_ne h hresolve _

private theorem writable_fill_iff (content : Bytes) :
    (t.fill place content).Writable path q ↔ t.Writable path q := by
  constructor
  · rintro ⟨hresolve, hfile, hfolder⟩
    exact ⟨by rwa [resolve?_fill h] at hresolve, hfile, by rwa [isFolder_fill h] at hfolder⟩
  · rintro ⟨hresolve, hfile, hfolder⟩
    exact ⟨by rwa [resolve?_fill h], hfile, by rwa [isFolder_fill h]⟩

end Folders

/-- Content that is written to the path is not there afterwards, and nobody is told. The null and
the zero device keep nothing. The full device, and a file without room for all of the content, are
noticed as long as the content is not so short that it is held back. -/
inductive Loses (t : FileTree) (path content : Bytes) : Prop
  | discarded {place : List Bytes} {d : Device} : t.Writable path place →
    t.node place = some (.device d) → d ≠ .full → Loses t path content
  | fullDevice {place : List Bytes} : t.Writable path place →
    t.node place = some (.device .full) → content.length < t.directWrite → Loses t path content
  | fullFile {place : List Bytes} {n : Nat} : t.Writable path place →
    (∀ d, t.node place ≠ some (.device d)) → t.room place = some n → n < content.length →
    content.length < t.directWrite → Loses t path content

theorem not_loses_of_not_writable (h : ∀ place, ¬t.Writable path place) :
    ¬t.Loses path content := by
  rintro (⟨hplace, -⟩ | ⟨hplace, -⟩ | ⟨hplace, -⟩)
  all_goals exact h _ hplace

theorem loses_fill_iff (h : t.isFolder place = false) (content other : Bytes) :
    (t.fill place content).Loses path other ↔ t.Loses path other := by
  have hdevice {q : List Bytes} {d : Device} :
      (t.fill place content).node q = some (.device d) ↔ t.node q = some (.device d) :=
    node_fill_eq_device_iff content
  have hplace {q : List Bytes} : (t.fill place content).Writable path q ↔ t.Writable path q :=
    writable_fill_iff h content
  constructor
  · rintro (⟨hq, hd, hne⟩ | ⟨hq, hd, hshort⟩ | ⟨hq, hd, hroom, hless, hshort⟩)
    · exact .discarded (hplace.mp hq) (hdevice.mp hd) hne
    · exact .fullDevice (hplace.mp hq) (hdevice.mp hd) (by rwa [directWrite_fill] at hshort)
    · exact .fullFile (hplace.mp hq) (fun d hd' => hd d (hdevice.mpr hd'))
        (by rwa [room_fill] at hroom) hless (by rwa [directWrite_fill] at hshort)
  · rintro (⟨hq, hd, hne⟩ | ⟨hq, hd, hshort⟩ | ⟨hq, hd, hroom, hless, hshort⟩)
    · exact .discarded (hplace.mpr hq) (hdevice.mpr hd) hne
    · exact .fullDevice (hplace.mpr hq) (hdevice.mpr hd) (by rwa [directWrite_fill])
    · exact .fullFile (hplace.mpr hq) (fun d hd' => hd d (hdevice.mp hd'))
        (by rwa [room_fill]) hless (by rwa [directWrite_fill])

/-- What is not noticed is lost, unless the path holds it all. -/
theorem content?_fill_iff (h : t.Writable path place) (hcontent : content ≠ [])
    (hquiet : t.noticesLoss place content = false) :
    (t.fill place content).content? path = some content ↔ ¬t.Loses path content := by
  have hlength := List.length_pos_iff.mpr hcontent
  simp only [noticesLoss, Bool.and_eq_false_iff, decide_eq_false_iff_not, not_lt, not_le] at hquiet
  rw [content?_eq_some_iff]
  by_cases hd : ∃ d, t.node place = some (.device d)
  · obtain ⟨d, hd⟩ := hd
    rw [fill_of_device hd, open?_of_resolve? h.resolve h.noFolder, h.file, hd]
    refine iff_of_false (by simp) (not_not.mpr ?_)
    by_cases hfull : d = .full
    · subst hfull
      rw [taken, hd] at hquiet
      refine .fullDevice h hd (hquiet.resolve_left ?_)
      rw [List.length_nil]
      omega
    · exact .discarded h hd hfull
  · rw [not_exists] at hd
    have hopen := open?_set_file_self h.noFolder h.resolve h.file (t.taken place content)
    rw [fill_of_file hd, hopen, Option.some_inj, Node.file.injEq]
    rw [taken_of_file hd] at hquiet ⊢
    constructor
    · rintro htaken (⟨hq, hdevice, -⟩ | ⟨hq, hdevice, -⟩ | @⟨q, n, hq, -, hroom, hless, -⟩)
      · exact hd _ (h.unique hq ▸ hdevice)
      · exact hd _ (h.unique hq ▸ hdevice)
      · obtain rfl := h.unique hq
        have htaken := congrArg List.length htaken
        simp only [hroom, List.length_take] at htaken
        omega
    · intro hkeeps
      cases hroom : t.room place with
      | none => rfl
      | some n =>
        rw [hroom] at hquiet
        rw [List.length_take] at hquiet
        by_contra hcut
        rw [List.take_eq_self_iff] at hcut
        exact hkeeps (.fullFile h hd hroom (by omega) (by omega))

theorem not_loses_of_noticesLoss (h : t.Writable path place)
    (hnoticed : t.noticesLoss place content = true) : ¬t.Loses path content := by
  simp only [noticesLoss, Bool.and_eq_true, decide_eq_true_eq] at hnoticed
  rintro (@⟨q, d, hq, hd, hne⟩ | ⟨hq, hd, hshort⟩ | ⟨hq, hd, hroom, hless, hshort⟩)
  · obtain rfl := h.unique hq
    have htaken : t.taken place content = content := by
      rw [taken, hd]
      cases d with
      | full => exact absurd rfl hne
      | _ => rfl
    rw [htaken] at hnoticed
    omega
  · omega
  · omega

end EmbeddedApps.FileTree
