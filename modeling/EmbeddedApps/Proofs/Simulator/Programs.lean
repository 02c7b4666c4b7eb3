import EmbeddedApps.Proofs.Image.Encoded
import EmbeddedApps.Proofs.Simulator
import Mathlib

/-!
# Programs in their slots

From the bytes of programs to the contents of slots. A program is loaded with its padding, which
neither makes it too large nor leaves a trace in a slot.
-/

namespace EmbeddedApps

namespace Image

variable {alignment : UInt64} {ps : List Bytes} {r : Region} {base : Address} {m : Memory}
  {slots : Slots} {k : Nat}

private theorem plan_encode (ha : isImageAlignment alignment = true)
    (h : Accepted (encode alignment ps) r base) (hm : Resident (encode alignment ps) base m)
    (hs : k < (segments alignment.toNat ps).length) (slots : Slots) :
    ∃ e, e.size.toNat = (segments alignment.toNat ps)[k].length ∧
      e.bytes m = (segments alignment.toNat ps)[k] ∧
      (imageLoader (encode alignment ps) base slots).plan m (Int64.ofNat k) =
        if k < slots.count.toNat then
          if e.size > slots.size then .error (.tooLarge (Int64.ofNat k) e.size slots.size)
          else .ok (e, slots.extent k)
        else .error (.noSlot (Int64.ofNat k) slots.count) := by
  have hlen := h.short
  have htable := table_le_length_encode ha hlen
  have hi := hs
  rw [length_segments] at hi
  rw [fileLimit] at hlen
  obtain ⟨e, hrange, -, hsize, hbytes⟩ := hm.rangeOf?_encode ha h hs (by simp; omega)
  refine ⟨e, hsize, hbytes, ?_⟩
  simp only [Loader.plan, imageLoader, Loader.ofSlots, hrange]
  rw [Slots.slot?_ofNat _ (by omega)]
  by_cases hk : k < slots.count.toNat
  · rw [if_pos hk, if_pos hk]
    simp only [Slots.size_extent]
  · rw [if_neg hk, if_neg hk]

/-- A program of an installed image can be loaded if and only if it has a slot and, with its
padding, is not larger than that. -/
theorem Resident.exists_fetch_encode_iff (ha : isImageAlignment alignment = true)
    (h : Accepted (encode alignment ps) r base) (hm : Resident (encode alignment ps) base m)
    (hs : k < (segments alignment.toNat ps).length) :
    (∃ c, (imageLoader (encode alignment ps) base slots).fetch m (Int64.ofNat k) = .ok c) ↔
      k < slots.count.toNat ∧ (segments alignment.toNat ps)[k].length ≤ slots.size.toNat := by
  obtain ⟨e, hsize, -, hplan⟩ := plan_encode ha h hm hs slots
  have hfits : ¬e.size > slots.size ↔ e.size.toNat ≤ slots.size.toNat := by
    rw [gt_iff_lt, UInt64.lt_iff_toNat_lt, Nat.not_lt]
  rw [Loader.fetch, hplan, ← hsize, ← hfits]
  by_cases hk : k < slots.count.toNat
  · rw [if_pos hk]
    by_cases hlarge : e.size > slots.size
    · rw [if_pos hlarge]
      simp [Except.map, hlarge]
    · rw [if_neg hlarge]
      simp [Except.map, hk, hlarge]
  · rw [if_neg hk]
    simp [Except.map, hk]

private theorem Resident.of_fetch_encode (ha : isImageAlignment alignment = true)
    (h : Accepted (encode alignment ps) r base) (hm : Resident (encode alignment ps) base m)
    (hs : k < (segments alignment.toNat ps).length) {c : Cargo}
    (hc : (imageLoader (encode alignment ps) base slots).fetch m (Int64.ofNat k) = .ok c) :
    c.slot = slots.extent k ∧ c.content = (segments alignment.toNat ps)[k] := by
  obtain ⟨e, -, hbytes, hplan⟩ := plan_encode ha h hm hs slots
  obtain ⟨hok, hcontent⟩ := (Loader.fetch_eq_ok_iff c).mp hc
  rw [hplan] at hok
  split at hok
  · split at hok
    · cases hok
    · obtain ⟨rfl, hslot⟩ := Prod.mk.inj (Except.ok.inj hok)
      exact ⟨hslot.symm, hcontent.trans hbytes⟩
  · cases hok

end Image

namespace Simulator

open Image

/-- The programs that get loaded: those in front that have a slot, up to the first that is larger
than a slot. -/
def loadable (ps : List Bytes) : List Bytes :=
  (ps.take Limits.slotCount.toNat).takeWhile fun p => p.length ≤ Limits.slotSize.toNat

private theorem loadable_prefix_take (ps : List Bytes) :
    loadable ps <+: ps.take Limits.slotCount.toNat :=
  List.takeWhile_prefix _

private theorem getElem_loadable {ps : List Bytes} {k : Nat} (hk : k < (loadable ps).length) :
    k < Limits.slotCount.toNat ∧ (loadable ps)[k].length ≤ Limits.slotSize.toNat ∧
      ∃ h : k < ps.length, (loadable ps)[k] = ps[k] := by
  have hpre := loadable_prefix_take ps
  have hle := hpre.length_le
  have hsmall := List.mem_takeWhile_imp (List.getElem_mem hk)
  rw [List.length_take] at hle
  refine ⟨by omega, of_decide_eq_true hsmall, by omega, ?_⟩
  rw [hpre.getElem hk, List.getElem_take]

private theorem large_of_length_loadable {ps : List Bytes} (h : (loadable ps).length < ps.length)
    (hslot : (loadable ps).length < Limits.slotCount.toNat) :
    Limits.slotSize.toNat < ps[(loadable ps).length].length := by
  let large : Bytes → Bool := fun p => !decide (p.length ≤ Limits.slotSize.toNat)
  have hsplit : loadable ps = (ps.take Limits.slotCount.toNat).take
      ((ps.take Limits.slotCount.toNat).findIdx large) := List.takeWhile_eq_take_findIdx_not
  have hlength := congrArg List.length hsplit
  have htaken : (ps.take Limits.slotCount.toNat).length = min Limits.slotCount.toNat ps.length :=
    List.length_take
  rw [List.length_take, htaken] at hlength
  have hfound : (ps.take Limits.slotCount.toNat).findIdx large = (loadable ps).length := by omega
  have hlt : (ps.take Limits.slotCount.toNat).findIdx large <
      (ps.take Limits.slotCount.toNat).length := by omega
  have hlarge := List.findIdx_getElem (w := hlt)
  simp only [hfound, List.getElem_take, large, Bool.not_eq_true', decide_eq_false_iff_not] at hlarge
  exact Nat.not_le.mp hlarge

variable {image : Bytes} {base : Address} {m : Memory} {alignment : UInt64} {ps : List Bytes}
  {k : Nat}

private theorem toNat_count_slots (ha : isImageAlignment alignment = true)
    (h : Accepted (encode alignment ps) (imageRegion base) (base + halfSize)) :
    (loaderOf (encode alignment ps) base).slots.count.toNat =
      min ps.length Limits.slotCount.toNat := by
  have hlimit : Limits.slotCount.toNat = 16 := rfl
  rw [loaderOf, imageLoader, Loader.ofSlots, Kernel.count_slotsAt, System.toNat_slotsFor,
    toNat_claimedCount_encode ha h.short, hlimit]

private theorem row (hroom : base.toNat + 0x4000000 < 2 ^ 64)
    (h : Accepted image (imageRegion base) (base + halfSize))
    (hm : Resident image (base + halfSize) m) :
    Loader.Row ((loaderOf image base).fetch m) (claimedCount image).toNat
      (loaderOf image base).slots.base.toNat Limits.slotSize.toNat := by
  intro j hj c hc
  have hfew := h.count
  obtain ⟨k, hk, hjk, hcount, -, hslot⟩ := hm.of_plan h ((Loader.fetch_eq_ok_iff c).mp hc).1
  have hint := congrArg Int64.toInt hjk
  rw [Int64.toInt_ofNat_of_lt (by omega), Int64.toInt_ofNat_of_lt (by omega)] at hint
  obtain rfl : j = k := Int.ofNat_inj.mp hint
  have hbounds := (slots_bounds hroom (claimedCount image)).1
  obtain ⟨hstart, hstop⟩ := Slots.toNat_start_extent hcount hbounds
  obtain ⟨hsize, hlength⟩ := Loader.size_le_of_fetch hc
  rw [hslot, Slots.size_extent] at hsize
  have hplace : c.slot.start.toNat =
      (loaderOf image base).slots.base.toNat + j * Limits.slotSize.toNat := by
    rw [hslot]
    exact hstart
  refine ⟨hplace, ?_, hlength.le.trans hsize, ?_⟩
  · rw [hslot, Slots.size_extent]
    rfl
  · rw [← hplace, hslot]
    exact hstop.trans hbounds.le

private theorem exists_fetch_iff (ha : isImageAlignment alignment = true)
    (h : Accepted (encode alignment ps) (imageRegion base) (base + halfSize))
    (hm : Resident (encode alignment ps) (base + halfSize) m) (hk : k < ps.length) :
    (∃ c, (loaderOf (encode alignment ps) base).fetch m (Int64.ofNat k) = .ok c) ↔
      k < Limits.slotCount.toNat ∧ ps[k].length ≤ Limits.slotSize.toNat := by
  have hpos := pos_of_isPowerOfTwo (Bool.and_eq_true_iff.mp ha).1
  have hdvd : alignment.toNat ∣ Limits.slotSize.toNat :=
    (toNat_dvd_of_isImageAlignment ha).trans (by decide)
  have hcount := toNat_count_slots ha h
  have hs : k < (segments alignment.toNat ps).length := by rwa [length_segments]
  rw [loaderOf, hm.exists_fetch_encode_iff ha h hs]
  refine and_congr ?_ (length_segments_le_iff hpos hdvd ps hk hs)
  change k < (loaderOf (encode alignment ps) base).slots.count.toNat ↔ _
  omega

private theorem loaded_runOf (ha : isImageAlignment alignment = true)
    (h : Accepted (encode alignment ps) (imageRegion base) (base + halfSize))
    (hm : Resident (encode alignment ps) (base + halfSize) m) :
    (runOf (encode alignment ps) base m).1.loaded = (loadable ps).length.toUInt64 := by
  have hcount := toNat_claimedCount_encode ha h.short
  have hle := (loadable_prefix_take ps).length_le
  rw [List.length_take] at hle
  rw [runOf, hcount, Loader.loaded_loading (k := (loadable ps).length) (by omega), Nat.zero_add]
  · intro j hj
    obtain ⟨hslot, hsmall, hlt, hsame⟩ := getElem_loadable hj
    rw [Nat.zero_add, exists_fetch_iff ha h hm hlt, ← hsame]
    exact ⟨hslot, hsmall⟩
  · intro hmore
    rw [Nat.zero_add]
    cases hfetch : (loaderOf (encode alignment ps) base).fetch m
        (Int64.ofNat (loadable ps).length) with
    | error f => exact ⟨f, rfl⟩
    | ok c =>
      obtain ⟨hslot, hsmall⟩ := (exists_fetch_iff ha h hm hmore).mp ⟨c, hfetch⟩
      exact absurd (large_of_length_loadable hmore hslot) hsmall.not_gt

private theorem bytes_slot (hroom : base.toNat + 0x4000000 < 2 ^ 64)
    (ha : isImageAlignment alignment = true)
    (h : Accepted (encode alignment ps) (imageRegion base) (base + halfSize))
    (hm : Resident (encode alignment ps) (base + halfSize) m) (hk : k < (loadable ps).length) :
    ((loaderOf (encode alignment ps) base).slots.extent k).bytes
        (m.writeAll (runEffect (encode alignment ps) base m).writes) =
      (loadable ps)[k] ++ List.replicate (Limits.slotSize.toNat - (loadable ps)[k].length) 0 := by
  have hpos := pos_of_isPowerOfTwo (Bool.and_eq_true_iff.mp ha).1
  have hcount := toNat_claimedCount_encode ha h.short
  obtain ⟨hslot, hsmall, hlt, hsame⟩ := getElem_loadable hk
  have hs : k < (segments alignment.toNat ps).length := by rwa [length_segments]
  rw [hsame] at hsmall
  obtain ⟨c, hc⟩ := (exists_fetch_iff ha h hm hlt).mpr ⟨hslot, hsmall⟩
  obtain ⟨hplace, hcontent⟩ := hm.of_fetch_encode ha h hs hc
  have hfits := ((row hroom h hm) k (by omega) c hc).length
  have hbefore : ∀ j < k, ∃ d, (loaderOf (encode alignment ps) base).fetch m
      (Int64.ofNat (0 + j)) = .ok d := by
    intro j hj
    obtain ⟨hslot', hsmall', hlt', hsame'⟩ := getElem_loadable (hj.trans hk)
    rw [Nat.zero_add, exists_fetch_iff ha h hm hlt', ← hsame']
    exact ⟨hslot', hsmall'⟩
  have hread := (row hroom h hm).readBytes_loading
    (m.writeAll (Kernel.bootWrites base (recordOf (encode alignment ps) base)
      (directoryOf (encode alignment ps) base))) (n := (claimedCount (encode alignment ps)).toNat)
    (i := 0) (by omega) (by omega) hbefore (by rwa [Nat.zero_add])
  rw [hplace, hcontent] at hread
  rw [hcontent] at hfits
  rw [hsame, ← segments_append_zeros hpos ps hlt hs hfits, ← hread, runEffect,
    Effect.writes_append, Effect.writes_append, List.append_nil, Memory.writeAll_append, bootEffect,
    runOf, loaderOf, imageLoader, Loader.ofSlots, Extent.bytes, Slots.size_extent,
    Kernel.size_slotsAt]

/-- From the bytes of programs to the contents of slots. If the image of a bundle is installed, the
kernel boots from it, exactly the loadable programs are loaded, and each of them fills its slot,
followed by zeros. The alignment of the bundle has no influence on that. -/
theorem slots_of_bundle (b : Bundle) (base : Address) (m : Memory)
    (hfile : b.image.length < fileLimit) (hroom : base.toNat + 0x4000000 < 2 ^ 64) :
    ((∃ i m', install b.image (imageRegion base) m = (.ok i, m')) ↔
      b.contents.length ≤ 65536 ∧
        roundUp b.image.length 8 + 8 * (b.contents.length + 2) ≤ 0x2000000) ∧
    ∀ i m', install b.image (imageRegion base) m = (.ok i, m') →
      ∃ k l s, bootFrom base i.table m' = (.ok ((loadable b.contents).length.toUInt64, k), s) ∧
        k.loader = some l ∧
        ∀ j (hj : j < (loadable b.contents).length), ∃ slot,
          l.slots.slot? (Int64.ofNat j) = some slot ∧ slot.size = Limits.slotSize ∧
          slot.bytes s.memory = (loadable b.contents)[j] ++
            List.replicate (Limits.slotSize.toNat - (loadable b.contents)[j].length) 0 := by
  have ha := b.isImageAlignment_alignment
  have hbase := toNat_imageBase hroom
  have hupper : (imageRegion base).size.toNat = 0x2000000 := rfl
  have hbounded : (base + halfSize).toNat + (imageRegion base).size.toNat < 2 ^ 64 := by omega
  have hplace : (imageRegion base).base = some (base + halfSize) := rfl
  constructor
  · rw [install_accepts_iff m hfile hbounded hplace, ← hupper]
    exact accepted_encode_iff ha hfile hbounded hplace
  intro i m' hinstall
  have h := accepted_of_install_at hfile hbounded hplace hinstall
  obtain ⟨htable, -, hm⟩ := resident_of_install h hinstall
  have hboot := bootFrom_of_ascending hroom h (offsetsAscending_encode ha hfile) hm
  have hloaded : (runOf b.image base m').1.loaded = (loadable b.contents).length.toUInt64 :=
    loaded_runOf ha h hm
  rw [hloaded] at hboot
  rw [htable]
  refine ⟨kernelOf b.image base, _, _, hboot, rfl, fun j hj => ?_⟩
  obtain ⟨hslot, -, hlt, -⟩ := getElem_loadable hj
  refine ⟨(loaderOf b.image base).slots.extent j, ?_, Slots.size_extent _ j, ?_⟩
  · have hcount := toNat_count_slots ha h
    change (loaderOf b.image base).slots.slot? _ = _
    change (loaderOf b.image base).slots.count.toNat = _ at hcount
    rw [Slots.slot?_ofNat _ (hslot.trans (by decide)), if_pos (by omega)]
  · rw [Machine.memory_after]
    exact bytes_slot hroom ha h hm hj

theorem slots_of_bundle_two :
    ∃ i m' k l s slot, install (Bundle.image ⟨16, [], [⟨0, [], [], [65, 66, 67]⟩,
        ⟨1, [], [], [68]⟩], rfl, rfl⟩) (imageRegion memoryBase) .zeroed = (.ok i, m') ∧
      bootFrom memoryBase i.table m' = (.ok (2, k), s) ∧ k.loader = some l ∧
      l.slots.slot? (Int64.ofNat 0) = some slot ∧
      slot.bytes s.memory = [65, 66, 67] ++ List.replicate 0x1fffd 0 := by
  obtain ⟨hiff, hslots⟩ := slots_of_bundle
    ⟨16, [], [⟨0, [], [], [65, 66, 67]⟩, ⟨1, [], [], [68]⟩], rfl, rfl⟩ memoryBase .zeroed
    (by decide) (by decide)
  obtain ⟨i, m', h⟩ := hiff.mpr (by decide)
  obtain ⟨k, l, s, hboot, hloader, hread⟩ := hslots i m' h
  obtain ⟨slot, hslot, -, hbytes⟩ := hread 0 (by decide)
  exact ⟨i, m', k, l, s, slot, h, hboot, hloader, hslot, hbytes⟩

end Simulator

end EmbeddedApps
