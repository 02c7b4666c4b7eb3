import EmbeddedApps.Proofs.Assembler.Layout
import EmbeddedApps.Proofs.Image.Moved
import Mathlib

/-!
# Linked bundles

Assembled at an address, the listing of a bundle becomes its image, moved to that address.
-/

namespace EmbeddedApps

open Assembler

namespace Bundle

variable {b : Bundle} {t : FileTree}

/-- Where the segments of a bundle meet if its table lies at an address. -/
def meetings (b : Bundle) (address : Nat) : List Nat :=
  Image.boundaries (address + Image.leadingBytes b.alignment.toNat b.programs.length)
    (Image.segments b.alignment.toNat b.contents)

private theorem length_contents (b : Bundle) : b.contents.length = b.programs.length := by
  simp [contents]

private theorem roundUp_first (b : Bundle) {address : Nat} (h : b.alignment.toNat ∣ address) :
    roundUp (address + 8 * (b.programs.length + 2)) b.alignment.toNat =
      address + Image.leadingBytes b.alignment.toNat b.programs.length :=
  roundUp_add_of_dvd _ b.alignment_pos h

private theorem nodup_labelsAt {address : Nat} {address? : Bytes → Option Nat} {s : State}
    (hrun : run address? (.start address b.contents) (b.directives t) = some s)
    (hlabels : s.labels = b.labelsAt address) : ((b.labelsAt address).map Prod.fst).Nodup := by
  have hnames := labels_of_run hrun
  rw [hlabels, filterMap_defined?_directives] at hnames
  rw [hnames]
  exact b.nodup_symbols

private theorem lookup_tableEntries (h : b.programs ≠ []) {address : Nat}
    (haddress : b.alignment.toNat ∣ address)
    (hn : ((b.labelsAt address).map Prod.fst).Nodup) :
    b.tableEntries.map (fun x => (b.labelsAt address).lookup x) =
      (b.meetings address).map some := by
  have hne : b.contents ≠ [] := by simpa [contents] using h
  rw [tableEntries_eq h, List.map_map]
  apply List.ext_getElem
  · simp [meetings, length_contents]
  · intro j hj hj'
    rw [List.length_map] at hj'
    rw [List.getElem_map, List.getElem_map, List.getElem_range, Function.comp_apply]
    apply lookup_of_mem hn
    have hmem := mem_edges b 0 (address + 8 * (b.programs.length + 2)) hne
      (show _ = some (b.meetings address)[j] by
        rw [roundUp_first b haddress]
        exact List.getElem?_eq_getElem hj')
    rw [length_contents] at hmem
    rw [labelsAt]
    exact List.mem_cons_of_mem _ (List.mem_append_left _ hmem)

private theorem placed_contents (b : Bundle) (hne : b.programs ≠ []) {address : Nat}
    (h : b.alignment.toNat ∣ address) :
    placed b.alignment.toNat (address + 8 * (b.programs.length + 2)) b.contents =
      List.replicate (Image.leadingBytes b.alignment.toNat b.programs.length -
        8 * (b.programs.length + 2)) 0 ++
          (Image.segments b.alignment.toNat b.contents).flatten := by
  obtain ⟨p, ps, hcontents⟩ := List.exists_cons_of_ne_nil (l := b.contents) (by simpa [contents])
  rw [hcontents, placed_cons b.alignment_pos, roundUp_first b h, Nat.add_sub_add_left]

/-- The listing and the image of a bundle are one and the same but for where they lie. -/
theorem assemble_directives (b : Bundle) (t : FileTree) (a : Address) (hne : b.programs ≠ [])
    (h8 : 8 ∣ a.toNat) (ha : b.alignment.toNat ∣ a.toNat) (hlen : b.image.length < 2 ^ 64) :
    assemble a.toNat b.contents (b.directives t) = some (Image.movedTo b.image a) := by
  -- The first pass finds the labels whatever it takes their addresses to be.
  obtain ⟨first, hfirst, hlabels, -⟩ := run_directives b t h8 (fun _ => some 0)
    (fun _ => 0) fun _ _ => rfl
  have hn := nodup_labelsAt hfirst hlabels
  have hlookup := lookup_tableEntries hne ha hn
  let value (x : Bytes) : Nat := ((b.labelsAt a.toNat).lookup x).getD 0
  have hvalue : ∀ x ∈ b.tableEntries, (b.labelsAt a.toNat).lookup x = some (value x) := by
    intro x hx
    have hfound := List.mem_map_of_mem (f := fun x => (b.labelsAt a.toNat).lookup x) hx
    rw [hlookup] at hfound
    obtain ⟨place, -, hplace⟩ := List.mem_map.mp hfound
    dsimp only [value]
    rw [← hplace, Option.getD_some]
  have hmeetings : b.tableEntries.map value = b.meetings a.toNat := by
    have hall := congrArg (List.map fun o => o.getD 0) hlookup
    simpa [value, Function.comp_def] using hall
  -- The second emits them, and both sides are the same words, zeros and segments.
  obtain ⟨second, hsecond, -, hemitted⟩ := run_directives b t h8 _ _ hvalue
  rw [assemble, hfirst, Option.bind_some, hlabels, if_pos hn, hsecond, Option.map_some, hemitted]
  have htable : (b.tableEntries.flatMap fun x => LittleEndian.encode (value x).toUInt64) =
      ((b.meetings a.toNat).map Nat.toUInt64).flatMap LittleEndian.encode := by
    rw [← hmeetings, List.flatMap_map, List.flatMap_map]
  have hmoved := Image.movedTo_encode b.isImageAlignment_alignment hlen a
  rw [htable, b.placed_contents hne ha]
  dsimp only at hmoved
  rw [image, hmoved, List.map_cons, List.flatMap_cons, length_contents]
  rfl

private theorem dvd_of_max_dvd (b : Bundle) {n : Nat} (h : max 8 b.alignment.toNat ∣ n) :
    8 ∣ n ∧ b.alignment.toNat ∣ n := by
  have hpow := (Bool.and_eq_true_iff.mp b.isImageAlignment_alignment).1
  obtain ⟨k, -, hk⟩ := (isPowerOfTwo_iff b.alignment).mp hpow
  have height : (8 : Nat) = 2 ^ 3 := rfl
  rw [hk] at h ⊢
  rcases Nat.le_total k 3 with hle | hle
  · have hdvd : 2 ^ k ∣ 8 := height ▸ Nat.pow_dvd_pow 2 hle
    rw [Nat.max_eq_left (Nat.le_of_dvd (by decide) hdvd)] at h
    exact ⟨h, hdvd.trans h⟩
  · have hdvd : 8 ∣ 2 ^ k := height ▸ Nat.pow_dvd_pow 2 hle
    rw [Nat.max_eq_right (Nat.le_of_dvd (Nat.two_pow_pos k) hdvd)] at h
    exact ⟨hdvd.trans h, h⟩

/-- The text of a listing can be read. It defines once whatever it speaks of, and assembled at an
address it becomes the image of the bundle with that address added to every offset in the table.
Linked in there, the image shows the same apps as one that was installed anywhere. -/
theorem listing_assembles_to_image (b : Bundle) (t : FileTree) (a : Address)
    (hne : b.programs ≠ []) (haligned : max 8 b.alignment.toNat ∣ a.toNat)
    (hroom : a.toNat + b.image.length < 2 ^ 64) :
    ∃ ds, read? (b.listing t) = some ds ∧
      (∀ d ∈ ds, ∀ x, d.used? = some x → (ds.filterMap Directive.defined?).count x = 1) ∧
      assemble a.toNat b.contents ds = some (Image.movedTo b.image a) ∧
      ∀ (m : Memory) (base : Address) (size : UInt64) (m₀ m' : Memory) (i : Image.Installed),
        m.readBytes a b.image.length = Image.movedTo b.image a →
        b.image.length < Image.fileLimit → base.toNat + size.toNat < 2 ^ 64 →
        Image.install b.image ⟨some base, size⟩ m₀ = (.ok i, m') →
        ∃ d d', Directory.empty.buildFromTable m (some a) = .ok d ∧
          Directory.empty.buildFromTable m' (some i.table) = .ok d' ∧
          Image.SameApps d d' m m' a base := by
  obtain ⟨h8, ha⟩ := dvd_of_max_dvd b haligned
  refine ⟨b.directives t, read?_listing b t, fun d hd x hx => count_defined_of_used hd hx,
    assemble_directives b t a hne h8 ha (by omega), ?_⟩
  intro m base size m₀ m' i hm hfile hbounded hinstall
  have haccepted := Image.accepted_of_install_at hfile hbounded rfl hinstall
  obtain ⟨htable, -, hresident⟩ := Image.resident_of_install haccepted hinstall
  have hasc := Image.offsetsAscending_encode b.isImageAlignment_alignment hfile
  rw [htable]
  exact ⟨_, _, Image.buildFromTable_of_moved haccepted hasc hroom hm,
    hresident.buildFromTable haccepted hasc, Image.sameApps_of_moved haccepted hasc hresident hm⟩

/-- Two programs of three bytes and one byte, eight bytes apart. -/
theorem listing_assembles_two :
    let b : Bundle := ⟨8, [], [⟨0, [], [97], [65, 66, 67]⟩, ⟨1, [], [98], [68]⟩], rfl, rfl⟩
    ∃ ds, read? (b.listing (.empty [])) = some ds ∧
      assemble 4096 b.contents ds = some ([2, 4128, 4136, 4137].flatMap LittleEndian.encode ++
        [65, 66, 67, 0, 0, 0, 0, 0, 68]) := by
  intro b
  obtain ⟨ds, hread, -, hassemble, -⟩ := listing_assembles_to_image b (.empty []) 4096 (by simp [b])
    (by decide) (by decide)
  have hbytes : Image.movedTo b.image 4096 = [2, 4128, 4136, 4137].flatMap LittleEndian.encode ++
      [65, 66, 67, 0, 0, 0, 0, 0, 68] := by decide
  rw [hbytes] at hassemble
  exact ⟨ds, hread, hassemble⟩

end Bundle

end EmbeddedApps
