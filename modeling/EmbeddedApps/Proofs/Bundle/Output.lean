import EmbeddedApps.Bundle.Output
import EmbeddedApps.Proofs.FileTree
import Mathlib

/-!
# How writing an output ends

A path that cannot be opened is left alone. After that the file at its place is empty, if there is
nothing to put into it, or it holds what it takes. No other file is touched.
-/

namespace EmbeddedApps

/-- How writing to a path ends, if this is what comes of making the content. -/
inductive Writing (t : FileTree) (path : Bytes) (made : Except BuildFault Bytes) :
    EStateM.Result BuildFault FileTree Unit → Prop
  | refused : (∀ place, ¬t.Writable path place) → Writing t path made (.error (.noOutput path) t)
  | unmade (place : List Bytes) (f : BuildFault) : t.Writable path place → made = .error f →
    Writing t path made (.error f (t.fill place []))
  | incomplete (place : List Bytes) (content : Bytes) : t.Writable path place →
    made = .ok content → t.noticesLoss place content = true →
    Writing t path made (.error (.incompleteOutput path) (t.fill place content))
  | done (place : List Bytes) (content : Bytes) : t.Writable path place → made = .ok content →
    t.noticesLoss place content = false → Writing t path made (.ok () (t.fill place content))

section Steps

variable {t : FileTree} {path content : Bytes} {place : List Bytes}

private theorem openOutput_of_writable (h : t.Writable path place) :
    openOutput path t = .ok place (t.fill place []) := by
  have hopen := FileTree.openOutput?_eq_some_iff.mpr ⟨place, h, rfl⟩
  simp only [openOutput, bind, EStateM.bind, get, getThe, MonadStateOf.get, EStateM.get, hopen]
  rfl

private theorem openOutput_of_not_writable (h : ∀ place, ¬t.Writable path place) :
    openOutput path t = .error (.noOutput path) t := by
  have hopen := FileTree.openOutput?_eq_none_iff.mpr h
  simp only [openOutput, bind, EStateM.bind, get, getThe, MonadStateOf.get, EStateM.get, hopen]
  rfl

private theorem fillOutput_eq (path : Bytes) (place : List Bytes) (content : Bytes)
    (t : FileTree) :
    fillOutput path place content t =
      if t.noticesLoss place content then .error (.incompleteOutput path) (t.fill place content)
      else .ok () (t.fill place content) := by
  simp only [fillOutput, bind, EStateM.bind, get, getThe, MonadStateOf.get, EStateM.get, set,
    EStateM.set]
  split
  · rfl
  · rfl

private theorem writing_of_fillOutput (h : t.Writable path place) :
    Writing t path (.ok content) (fillOutput path place content (t.fill place [])) := by
  rw [fillOutput_eq, FileTree.noticesLoss_fill, FileTree.fill_fill]
  cases hloss : t.noticesLoss place content with
  | true => exact .incomplete place content h rfl hloss
  | false => exact .done place content h rfl hloss

end Steps

namespace Bundle

variable {b : Bundle} {t : FileTree} {content : Bytes}

theorem image_ne_nil (b : Bundle) : b.image ≠ [] := by
  simp [image, Image.encode, Image.tableWords, LittleEndian.encode]

theorem listing_ne_nil (b : Bundle) (t : FileTree) : b.listing t ≠ [] := by
  simp [listing, directives, tableLines]

theorem renderListing_eq_ok_iff : b.renderListing t = .ok content ↔
    (∀ p ∈ b.programs, (t.absolute? p.path).isSome = true) ∧ content = b.listing t := by
  rw [renderListing]
  split
  · rename_i p hp
    have hnone : t.absolute? p.path = none := by simpa using List.find?_some hp
    refine iff_of_false nofun fun h => ?_
    have hsome := h.1 p (List.mem_of_find?_eq_some hp)
    rw [hnone] at hsome
    cases hsome
  · rename_i hall
    have hsome : ∀ p ∈ b.programs, (t.absolute? p.path).isSome = true := by
      simpa [Option.isSome_iff_ne_none] using hall
    rw [Except.ok.injEq, and_iff_right hsome, eq_comm]

theorem of_renderListing_eq_error {f : BuildFault} (h : b.renderListing t = .error f) :
    ∃ p ∈ b.programs, t.absolute? p.path = none ∧ f = .noAbsolutePath p.path := by
  rw [renderListing] at h
  split at h
  · rename_i p hp
    cases h
    exact ⟨p, List.mem_of_find?_eq_some hp, by simpa using List.find?_some hp, rfl⟩
  · cases h

private theorem renderListing_fill (b : Bundle) (t : FileTree) (place : List Bytes)
    (content : Bytes) : b.renderListing (t.fill place content) = b.renderListing t := by
  have hfolder : (t.fill place content).workingFolder = t.workingFolder := by
    rw [FileTree.fill]
    split <;> rfl
  simp only [renderListing, FileTree.absolute?, listing, directives, FileTree.fromRoot,
    FileTree.workingPath, hfolder]

/-- The listing is made when its file is open already, but it is the same as before. -/
theorem writing_writeListing (b : Bundle) (t : FileTree) (path : Bytes) :
    Writing t path (b.renderListing t) (b.writeListing path t) := by
  simp only [writeListing, bind, EStateM.bind]
  by_cases h : ∃ place, t.Writable path place
  · obtain ⟨place, hplace⟩ := h
    rw [openOutput_of_writable hplace]
    simp only [get, getThe, MonadStateOf.get, EStateM.get, renderListing_fill]
    cases hmade : b.renderListing t with
    | error f => exact .unmade place f hplace rfl
    | ok content => exact writing_of_fillOutput hplace
  · rw [not_exists] at h
    rw [openOutput_of_not_writable h]
    exact .refused h

theorem writing_writeImage (b : Bundle) (t : FileTree) (path : Bytes) :
    Writing t path (.ok b.image) (b.writeImage path t) := by
  simp only [writeImage, bind, EStateM.bind]
  by_cases h : ∃ place, t.Writable path place
  · obtain ⟨place, hplace⟩ := h
    rw [openOutput_of_writable hplace]
    exact writing_of_fillOutput hplace
  · rw [not_exists] at h
    rw [openOutput_of_not_writable h]
    exact .refused h

end Bundle

namespace Writing

variable {t : FileTree} {path : Bytes} {made : Except BuildFault Bytes} {q : List Bytes}
  {r : EStateM.Result BuildFault FileTree Unit}

def filesOf : EStateM.Result BuildFault FileTree Unit → FileTree
  | .ok _ u => u
  | .error _ u => u

private theorem eq_or_eq_fill (h : Writing t path made r) :
    filesOf r = t ∨ ∃ place content, t.Writable path place ∧ filesOf r = t.fill place content := by
  cases h with
  | refused => exact .inl rfl
  | unmade place f hplace => exact .inr ⟨place, [], hplace, rfl⟩
  | incomplete place content hplace => exact .inr ⟨place, content, hplace, rfl⟩
  | done place content hplace => exact .inr ⟨place, content, hplace, rfl⟩

theorem node_eq (h : Writing t path made r) (hq : t.resolve? path ≠ some q) :
    (filesOf r).node q = t.node q := by
  rcases h.eq_or_eq_fill with heq | ⟨place, content, hplace, heq⟩
  · rw [heq]
  · have hne : q ≠ place := fun hsame => hq (hsame ▸ hplace.resolve)
    rw [heq, FileTree.node_fill_of_ne hne]

theorem resolve?_eq (h : Writing t path made r) (other : Bytes) :
    (filesOf r).resolve? other = t.resolve? other := by
  rcases h.eq_or_eq_fill with heq | ⟨place, content, hplace, heq⟩
  · rw [heq]
  · rw [heq, FileTree.resolve?_fill hplace.noFolder]

theorem content?_eq {other : Bytes} (h : Writing t path made r)
    (hother : t.resolve? other ≠ t.resolve? path) :
    (filesOf r).content? other = t.content? other := by
  rcases h.eq_or_eq_fill with heq | ⟨place, content, hplace, heq⟩
  · rw [heq]
  · rw [hplace.resolve] at hother
    rw [heq, FileTree.content?, FileTree.content?,
      FileTree.open?_fill_of_ne hplace.noFolder hother]

theorem loses_iff (h : Writing t path made r) (other content : Bytes) :
    (filesOf r).Loses other content ↔ t.Loses other content := by
  rcases h.eq_or_eq_fill with heq | ⟨place, content', hplace, heq⟩
  · rw [heq]
  · rw [heq, FileTree.loses_fill_iff hplace.noFolder]

end Writing

/-- Either the builder has reported that the output failed, or the path holds what was made. -/
def Accounted (path : Bytes) (made : Except BuildFault Bytes) :
    EStateM.Result BuildFault FileTree Unit → Prop
  | .error f _ => f.isBuildError = true
  | .ok _ u => ∃ content, made = .ok content ∧ u.content? path = some content

namespace Writing

variable {t u : FileTree} {path content : Bytes} {made : Except BuildFault Bytes}
  {r : EStateM.Result BuildFault FileTree Unit} {f : BuildFault}

theorem content?_iff (h : Writing t path (.ok content) (.ok () u)) (hcontent : content ≠ []) :
    u.content? path = some content ↔ ¬t.Loses path content := by
  cases h with
  | done place content hplace hmade hquiet =>
    cases hmade
    exact FileTree.content?_fill_iff hplace hcontent hquiet

private theorem not_loses_of_error (h : Writing t path (.ok content) (.error f u)) :
    ¬t.Loses path content := by
  cases h with
  | refused hno => exact FileTree.not_loses_of_not_writable hno
  | unmade place g hplace hmade => cases hmade
  | incomplete place content hplace hmade hnoticed =>
    cases hmade
    exact FileTree.not_loses_of_noticesLoss hplace hnoticed

private theorem accounted_iff_of_made (h : Writing t path (.ok content) r)
    (hcontent : content ≠ []) :
    Accounted path (.ok content) r ↔ ¬t.Loses path content := by
  cases r with
  | error f u =>
    refine iff_of_true ?_ h.not_loses_of_error
    cases h with
    | refused => rfl
    | unmade place g hplace hmade => cases hmade
    | incomplete => rfl
  | ok _ u =>
    rw [← h.content?_iff hcontent]
    simp [Accounted]

private theorem accounted_iff_of_unmade (h : Writing t path (.error f) r)
    (hf : f.isBuildError = false) :
    Accounted path (.error f) r ↔ ∀ place, ¬t.Writable path place := by
  cases h with
  | refused hno => exact iff_of_true rfl hno
  | unmade place g hplace hmade =>
    cases hmade
    refine iff_of_false (fun hg => ?_) fun hno => hno place hplace
    exact Bool.false_ne_true (hf.symm.trans hg)
  | incomplete place content hplace hmade => cases hmade
  | done place content hplace hmade => cases hmade

end Writing

namespace Bundle

variable {t : FileTree} {path : Bytes}

theorem accounted_writeImage_iff (b : Bundle) :
    Accounted path (.ok b.image) (b.writeImage path t) ↔ ¬t.Loses path b.image :=
  (b.writing_writeImage t path).accounted_iff_of_made b.image_ne_nil

theorem accounted_writeListing_iff (b : Bundle) :
    Accounted path (b.renderListing t) (b.writeListing path t) ↔
      (∀ place, ¬t.Writable path place) ∨
        (∀ p ∈ b.programs, (t.absolute? p.path).isSome = true) ∧ ¬t.Loses path (b.listing t) := by
  have hwriting := b.writing_writeListing t path
  cases hmade : b.renderListing t with
  | error f =>
    rw [hmade] at hwriting
    obtain ⟨p, hp, hnone, rfl⟩ := of_renderListing_eq_error hmade
    rw [hwriting.accounted_iff_of_unmade rfl, or_iff_left]
    rintro ⟨hall, -⟩
    have hsome := hall p hp
    rw [hnone] at hsome
    cases hsome
  | ok content =>
    rw [hmade] at hwriting
    obtain ⟨hall, rfl⟩ := renderListing_eq_ok_iff.mp hmade
    rw [hwriting.accounted_iff_of_made (b.listing_ne_nil t), and_iff_right hall]
    exact (or_iff_right_of_imp FileTree.not_loses_of_not_writable).symm

end Bundle

end EmbeddedApps
