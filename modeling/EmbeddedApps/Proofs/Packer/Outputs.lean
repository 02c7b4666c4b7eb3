import EmbeddedApps.Proofs.Packer.Run
import Mathlib

/-!
# Outputs that are reported as written

An output that is reported as written can be read back, unless the end of it was lost when the file
was closed. This happens on the full device and on files without room, as long as the content is
short enough to be held back, and devices that keep nothing lose it in any case.
-/

namespace EmbeddedApps.Packer

section Passes

variable {o : Options} {b : Bundle} {files t u : FileTree}

private theorem writing_of_passes (h : Passes o.image b.writeImage t u) (hpath : o.image ≠ []) :
    Writing t o.image (.ok b.image) (.ok () u) := by
  obtain ⟨hno, -⟩ | ⟨-, himage⟩ := h
  · exact absurd hno hpath
  · exact himage ▸ b.writing_writeImage t o.image

private theorem writing_of_passes_listing (h : Passes o.listing b.writeListing files t)
    (hpath : o.listing ≠ []) :
    Writing files o.listing (.ok (b.listing files)) (.ok () t) := by
  obtain ⟨hno, -⟩ | ⟨-, hlisting⟩ := h
  · exact absurd hno hpath
  · have hwriting := b.writing_writeListing files o.listing
    rw [hlisting] at hwriting
    obtain ⟨content, hmade⟩ : ∃ content, b.renderListing files = .ok content := by
      cases hwriting with
      | done place content hplace hmade => exact ⟨content, hmade⟩
    obtain ⟨-, rfl⟩ := Bundle.renderListing_eq_ok_iff.mp hmade
    rwa [hmade] at hwriting

variable (hlisting : Passes o.listing b.writeListing files t)
  (himage : Passes o.image b.writeImage t u)
include hlisting himage

theorem image_kept_iff (hpath : o.image ≠ []) :
    u.content? o.image = some b.image ↔ ¬files.Loses o.image b.image := by
  rw [(writing_of_passes himage hpath).content?_iff b.image_ne_nil]
  obtain ⟨-, rfl⟩ | ⟨hpath, hwrite⟩ := hlisting
  · rfl
  · have hwriting := b.writing_writeListing files o.listing
    rw [hwrite] at hwriting
    exact not_congr (hwriting.loses_iff o.image b.image)

theorem listing_kept_iff (hpath : o.listing ≠ [])
    (hother : o.image = [] ∨ files.resolve? o.listing ≠ files.resolve? o.image) :
    u.content? o.listing = some (b.listing files) ↔
      ¬files.Loses o.listing (b.listing files) := by
  rw [← (writing_of_passes_listing hlisting hpath).content?_iff (b.listing_ne_nil files)]
  by_cases hnone : o.image = []
  · obtain ⟨-, rfl⟩ | ⟨hpath, -⟩ := himage
    · rfl
    · exact absurd hnone hpath
  · have hwriting := writing_of_passes himage hnone
    have hkept : u.content? o.listing = t.content? o.listing := by
      refine hwriting.content?_eq ?_
      rw [hlisting.resolve?_eq, hlisting.resolve?_eq]
      exact hother.resolve_left hnone
    rw [hkept]

end Passes

/-- Writing an image is reported as failed or leaves it in its file, if and only if it is not lost.
For a listing the paths of the programs must be absolute as well, or else it is some other fault
that ends it. After a run that ends with zero, the image is in its file unless it was lost, and so
is the listing, if the image did not replace it. -/
theorem outputs_kept_unless_lost (b : Bundle) (files : FileTree) (path tool : Bytes)
    (arguments : List Bytes) (o : Options) :
    let r := run tool arguments files
    (Accounted path (.ok b.image) (b.writeImage path files) ↔ ¬files.Loses path b.image) ∧
    (Accounted path (b.renderListing files) (b.writeListing path files) ↔
      (∀ place, ¬files.Writable path place) ∨
        (∀ p ∈ b.programs, (files.absolute? p.path).isSome = true) ∧
          ¬files.Loses path (b.listing files)) ∧
    (Reaches arguments files o b → r.exitCode = 0 →
      (o.image ≠ [] →
        (r.files.content? o.image = some b.image ↔ ¬files.Loses o.image b.image)) ∧
      (o.listing ≠ [] → o.image = [] ∨ files.resolve? o.listing ≠ files.resolve? o.image →
        (r.files.content? o.listing = some (b.listing files) ↔
          ¬files.Loses o.listing (b.listing files)))) := by
  intro r
  refine ⟨b.accounted_writeImage_iff, b.accounted_writeListing_iff, fun hreaches hcode => ?_⟩
  have hhelp : parse arguments ≠ .error .help := by simp [hreaches.1]
  obtain ⟨o', b', t, hreaches', hlisting, himage, -⟩ :=
    (ends_run tool arguments files).of_exitCode_eq_zero hcode hhelp
  obtain ⟨rfl, rfl⟩ := hreaches.unique hreaches'
  exact ⟨image_kept_iff hlisting himage, listing_kept_iff hlisting himage⟩

/-- The least image is lost on the full device, and the run ends with zero all the same. -/
theorem full_device_loses_image :
    let t := FileTree.empty []
    let path := text "/dev/full"
    let b : Bundle := ⟨1, [], [], rfl, rfl⟩
    b.image.length = 16 ∧ ¬Accounted path (.ok b.image) (b.writeImage path t) ∧
      (run (text "mkappimg") [text "--image", path] t).exitCode = 0 := by
  intro t path b
  have hlength : b.image.length = 16 := by decide +kernel
  have hplace : t.Writable path [text "dev", text "full"] :=
    ⟨by decide +kernel, by decide +kernel, by decide +kernel⟩
  have hshort : b.image.length < t.directWrite := by
    rw [hlength]
    decide
  refine ⟨hlength, ?_, by decide +kernel⟩
  rw [b.accounted_writeImage_iff, not_not]
  exact .fullDevice hplace rfl hshort

end EmbeddedApps.Packer
