import EmbeddedApps.Proofs.Directory.Attempts
import EmbeddedApps.Proofs.Image.Resident
import EmbeddedApps.Proofs.Loader
import Mathlib

/-!
# Loading apps from an installed image

Where an installed image lies above the slots, what a loader takes from it is fixed by the image:
it comes out of the bytes of the image, and loading does not change it.
-/

namespace EmbeddedApps.Image

variable {image : Bytes} {r : Region} {base : Address} {m m' : Memory} {slots : Slots} {i : Int64}
  {c : Cargo} {lo hi : Nat}

def appExtent (image : Bytes) (base : Address) (k : Nat) : Extent :=
  ⟨base + offsetAt image k, base + offsetAt image (k + 1)⟩

def imageLoader (image : Bytes) (base : Address) (slots : Slots) : Loader :=
  Loader.ofSlots ⟨some (appBoundaries image base)⟩ slots

theorem Accepted.appExtent_bounds (h : Accepted image r base) (hasc : OffsetsAscending image)
    {k : Nat} (hk : k < (claimedCount image).toNat) :
    (appExtent image base k).start.toNat = base.toNat + (offsetAt image k).toNat ∧
      (appExtent image base k).start.toNat + (appExtent image base k).size.toNat ≤
        base.toNat + image.length := by
  have hstart := h.noWrap k hk.le
  have hstop := h.noWrap (k + 1) hk
  have hin := (h.inside (k + 1) hk).2
  have hle := UInt64.le_iff_toNat_le.mp (hasc k hk)
  have hup : base + offsetAt image k ≤ base + offsetAt image (k + 1) := by
    rw [UInt64.le_iff_toNat_le]
    omega
  have hsize : (appExtent image base k).size.toNat =
      (base + offsetAt image (k + 1)).toNat - (base + offsetAt image k).toNat :=
    UInt64.toNat_sub_of_le _ _ hup
  refine ⟨hstart, ?_⟩
  rw [hsize]
  change (base + offsetAt image k).toNat + _ ≤ _
  omega

private theorem Resident.bytes_appExtent (h : Accepted image r base) (hasc : OffsetsAscending image)
    (hm : Resident image base m) {k : Nat} (hk : k < (claimedCount image).toNat) :
    (appExtent image base k).bytes m = (image.drop (offsetAt image k).toNat).take
      (appExtent image base k).size.toNat := by
  obtain ⟨hstart, hend⟩ := h.appExtent_bounds hasc hk
  exact hm.readBytes (by omega)

/-- Whatever can be loaded is an app of the image and has a slot. -/
theorem Resident.of_plan (h : Accepted image r base) (hm : Resident image base m)
    {source slot : Extent} (hplan : (imageLoader image base slots).plan m i = .ok (source, slot)) :
    ∃ k < (claimedCount image).toNat, i = Int64.ofNat k ∧ k < slots.count.toNat ∧
      source = appExtent image base k ∧ slot = slots.extent k := by
  obtain ⟨happ, hslot, -⟩ := Loader.plan_eq_ok_iff.mp hplan
  obtain ⟨k, hk, hword, rfl⟩ := Directory.exists_of_rangeOf? happ
  have hlt : k < (claimedCount image).toNat := hk
  have hsame := happ.symm.trans (hm.rangeOf? h hlt)
  rw [imageLoader, Loader.ofSlots, Slots.slot?_ofNat _ hword] at hslot
  split at hslot
  · rename_i hfew
    exact ⟨k, hlt, rfl, hfew, Option.some.inj hsame, (Option.some.inj hslot).symm⟩
  · cases hslot

theorem Resident.exists_app (h : Accepted image r base) (hm : Resident image base m) {d : Directory}
    (hbuild : Directory.empty.buildFromTable m (some (tableAddress image base)) = .ok d)
    {app : Extent} (happ : d.rangeOf? m i = some app) :
    OffsetsAscending image ∧ ∃ k < (claimedCount image).toNat, app = appExtent image base k := by
  obtain ⟨a, ha, -, hasc, rfl⟩ := BuildRequest.buildFromTable_empty_eq_ok_iff.mp hbuild
  obtain rfl := Option.some.inj ha
  rw [hm.tableAt_eq] at hasc happ
  obtain ⟨k, hk, -, rfl⟩ := Directory.exists_of_rangeOf? happ
  exact ⟨(hm.ascending_iff h).mp hasc, k, hk, Option.some.inj (happ.symm.trans (hm.rangeOf? h hk))⟩

/-- What there is to load does not depend on the rest of memory. -/
theorem Resident.fetch_congr (h : Accepted image r base) (hasc : OffsetsAscending image)
    (hm : Resident image base m) (hm' : Resident image base m') (i : Int64) :
    (imageLoader image base slots).fetch m i = (imageLoader image base slots).fetch m' i := by
  have hrange := Directory.rangeOf?_congr (hm.same hm') i
  have hplan :
      (imageLoader image base slots).plan m i = (imageLoader image base slots).plan m' i := by
    simp only [Loader.plan, imageLoader, Loader.ofSlots, hrange]
  rw [Loader.fetch, Loader.fetch, hplan]
  cases hok : (imageLoader image base slots).plan m' i with
  | error f => rfl
  | ok p =>
    obtain ⟨source, slot⟩ := p
    obtain ⟨k, hk, -, -, rfl, -⟩ := hm'.of_plan h hok
    simp only [Except.map, hm.bytes_appExtent h hasc hk, hm'.bytes_appExtent h hasc hk]

end EmbeddedApps.Image
