import EmbeddedApps.Proofs.Directory.Attempts
import EmbeddedApps.Proofs.Kernel.Outcomes
import EmbeddedApps.Proofs.Kernel.Start
import EmbeddedApps.Proofs.Loader.Requests
import Mathlib

/-!
# How much room a kernel takes

A kernel starts if and only if its boot information is valid, its table makes a directory, and the
region reaches as far as the end of the last block. Where that end lies depends on the bottom of the
region and on the number of slots, and not on how much more room there is.
-/

namespace EmbeddedApps

private theorem Arena.Within.allocate_word {a a' : Arena} {limit top : Nat} {size : UInt64}
    {p : Address}
    (h : a.Within limit top) (hdvd : 8 ∣ top) (hallocate : a.allocate size 8 = (some p, a')) :
    p.toNat = top ∧ a'.Within limit (top + size.toNat) := by
  have hnext := h.allocate hallocate
  rwa [show (8 : UInt64).toNat = 8 from rfl, roundUp_of_dvd (by decide) hdvd] at hnext

namespace System

variable {s t : System} {limit top : Nat}

private theorem Starting.within (hr : Starting s (.ok () t)) (h : s.kernel.arena.Within limit top)
    (hdvd : 8 ∣ top) :
    t.kernel.arena.Within limit (top + 24) ∧ t.kernel.info = s.kernel.info ∧
      t.machine = s.machine := by
  cases hr with
  | started allocated => exact ⟨(h.allocate_word hdvd allocated).2, rfl, rfl⟩

private theorem Registration.within (hr : Registration s (.ok () t))
    (h : s.kernel.arena.Within limit top)
    (hdvd : 8 ∣ top) :
    t.kernel.arena.Within limit (top + 24) ∧ ∃ d : PlacedDirectory, t.kernel.directory = some d ∧
      d.address.toNat = top ∧ Directory.empty.buildFromTable (s.machine.memory.writeAll
        (PlacedDirectory.writes ⟨.empty, d.address⟩)) s.kernel.info.table = .ok d.toDirectory := by
  cases hr with
  | built m objects allocated table =>
    obtain ⟨hplace, hwithin⟩ := h.allocate_word hdvd allocated
    exact ⟨hwithin, _, rfl, hplace, table⟩

private theorem Reservation.within {n : UInt64} {slots : Slots} (hr : Reservation n s (.ok slots t))
    (h : s.kernel.arena.Within limit top) (hn : n.toNat ≤ 16) :
    t.kernel.arena.Within limit
      (if n.toNat = 0 then top else roundUp top 4096 + n.toNat * 0x20000) := by
  have hsize : Limits.slotSize.toNat = 0x20000 := rfl
  have harea : (n * Limits.slotSize).toNat = n.toNat * 0x20000 := by
    rw [toNat_mul_of_lt (by rw [hsize]; omega), hsize]
  cases hr with
  | unneeded hzero =>
    rw [hzero]
    exact h
  | reserved hne allocated =>
    have hpos : n.toNat ≠ 0 := fun h => hne (UInt64.toNat_inj.mp h)
    have hnext := (h.allocate allocated).2
    rw [harea] at hnext
    rw [if_neg hpos]
    exact hnext

private theorem Equipment.within {d : PlacedDirectory} (hr : Equipment s (.ok () t))
    (hdirectory : s.kernel.directory = some d) (h : s.kernel.arena.Within limit top)
    (hdvd : 8 ∣ top) :
    let n := (slotsFor d.count).toNat
    t.kernel.arena.Within limit
      ((if n = 0 then top else roundUp top 4096 + n * 0x20000) + 40) := by
  intro n
  have hcount := toNat_slotsFor d.count
  cases hr with
  | unneeded directory =>
    rw [directory] at hdirectory
    cases hdirectory
  | built m directory reserved objects allocated =>
    obtain rfl := Option.some.inj (directory.symm.trans hdirectory)
    have hpage : 4096 ∣ roundUp top 4096 := dvd_roundUp _ _
    have hslots := reserved.within h (by omega)
    refine (hslots.allocate_word ?_ allocated).2
    split
    · exact hdvd
    · omega

end System

namespace Kernel

variable {base size : UInt64} {info : BootRecord} {platform : Option Platform} {s t : Machine}
  {place : Address} {k : Kernel}

private theorem fits_of_start (hbounded : base.toNat + size.toNat < 2 ^ 64)
    (h : start ⟨some base, size⟩ info platform s = (.ok (place, k), t)) :
    info.magic = Limits.bootMagic ∧ ∃ d : Directory, Fits base size (System.slotsFor d.count) ∧
      Directory.empty.buildFromTable (s.memory.writeAll (⟨infoPlace base, info.content⟩ ::
        PlacedDirectory.writes ⟨.empty, directoryPlace base⟩)) info.table = .ok d := by
  obtain ⟨arena, arena₁, arena₂, i, hregion, hinfo, hkernel, hboot⟩ := exists_of_start h
  obtain ⟨hlarge, rfl⟩ := Arena.eq_fresh_of_ofRegion? hregion
  have hheader : Arena.headerSize.toNat = 32 := rfl
  have hsize := UInt64.lt_iff_toNat_lt.mp hlarge
  have hbottom : (base + Arena.headerSize).toNat = base.toNat + 32 := toNat_add_of_lt (by omega)
  have hcapacity : (size - Arena.headerSize).toNat = size.toNat - 32 :=
    UInt64.toNat_sub_of_le _ _ (UInt64.le_of_lt hlarge)
  have hfresh : (Arena.fresh (base + Arena.headerSize) (size - Arena.headerSize)).Within
      (base.toNat + size.toNat) (base.toNat + 32) := by
    refine ⟨?_, hbottom, by omega, hbounded⟩
    change (base + Arena.headerSize).toNat + (size - Arena.headerSize).toNat = _
    omega
  -- Only the first block and the slots can need padding: all sizes are multiples of eight.
  have hdvd : 8 ∣ roundUp (base.toNat + 32) 8 := dvd_roundUp _ _
  obtain ⟨hplace, hfirst⟩ := hfresh.allocate hinfo
  have hsecond : arena₂.Within (base.toNat + size.toNat) (roundUp (base.toNat + 32) 8 + 80) :=
    (hfirst.allocate_word (Nat.dvd_add hdvd (by decide)) hkernel).2
  have hbooting := System.booting ⟨placed arena₂ info platform i place,
    { s with memory := s.memory.writeBytes i info.content }⟩
  rw [hboot] at hbooting
  cases hbooting with
  | completed m magic objects directory loader =>
    obtain ⟨hthird, hsame, hmachine⟩ := objects.within hsecond (by omega)
    obtain ⟨hfourth, d, hd, haddress, htable⟩ := directory.within hthird (by omega)
    have hlast := (loader.within hd hfourth (by omega)).top_le
    rw [Nat.add_assoc, Nat.add_assoc] at hlast
    have hfits : Fits base size (System.slotsFor d.count) := by
      refine ⟨?_, hbounded⟩
      rw [bootEnd]
      exact hlast
    have hi : i = infoPlace base := by
      apply UInt64.toNat_inj.mp
      rw [hfits.places.info]
      exact hplace
    have ha : d.address = directoryPlace base := by
      apply UInt64.toNat_inj.mp
      rw [haddress, hfits.places.directory]
    rw [hsame, hmachine, hi, ha] at htable
    refine ⟨magic, d.toDirectory, hfits, ?_⟩
    dsimp only [placed, unbooted] at htable
    rw [Memory.writeAll_cons]
    exact htable

/-- No byte of the table that a boot looks at lies in the region. -/
structure TableApart (base size : UInt64) (m : Memory) (table : Address) : Prop where
  count : ∀ p, Memory.InWindow table 8 p →
    p.toNat < base.toNat ∨ base.toNat + size.toNat ≤ p.toNat
  boundaries : (m.readWord table).toNat ≤ 65536 → ∀ p, (Directory.tableAt m table).Holds p →
    p.toNat < base.toNat ∨ base.toNat + size.toNat ≤ p.toNat

theorem TableApart.same {table : Address} {m m' : Memory} (h : TableApart base size m table)
    (hcount : (m.readWord table).toNat ≤ 65536)
    (hm' : m.AgreesOutside base.toNat (base.toNat + size.toNat) m') :
    (Directory.tableAt m table).Same m m' := by
  apply Boundaries.same_of_holds
  intro p hp
  exact (hm' p (h.boundaries hcount p hp)).symm

theorem buildFromTable_of_agrees {table : Option Address} {m m' : Memory}
    (h : ∀ a, table = some a → TableApart base size m a)
    (hm' : m.AgreesOutside base.toNat (base.toNat + size.toNat) m') :
    Directory.empty.buildFromTable m' table = Directory.empty.buildFromTable m table := by
  cases table with
  | none => rfl
  | some a =>
    have hword : m'.readWord a = m.readWord a := by
      rw [Memory.readWord, Memory.readWord]
      congr 1
      apply Memory.readBytes_congr
      intro p hp
      exact hm' p ((h a rfl).count p hp)
    -- The boundaries behind a count that is too large are never read, and may lie anywhere.
    by_cases hcount : (m.readWord a).toNat ≤ 65536
    · exact (Directory.buildFromTable_congr hcount hword.symm ((h a rfl).same hcount hm')).symm
    · have hmany : m.readWord a > Limits.tableCount := by
        rw [gt_iff_lt, UInt64.lt_iff_toNat_lt]
        exact Nat.not_le.mp hcount
      simp only [Directory.buildFromTable, hword, if_pos hmany]

def Bootable (base size : UInt64) (info : BootRecord) (m : Memory) : Prop :=
  info.magic = Limits.bootMagic ∧ ∃ d, Directory.empty.buildFromTable m info.table = .ok d ∧
    bootEnd base.toNat (min d.count.toNat 16) ≤ base.toNat + size.toNat

private theorem fits_iff (hbounded : base.toNat + size.toNat < 2 ^ 64) (count : UInt64) :
    Fits base size (System.slotsFor count) ↔
      bootEnd base.toNat (min count.toNat 16) ≤ base.toNat + size.toNat := by
  rw [← System.toNat_slotsFor]
  exact ⟨Fits.room, fun h => ⟨h, hbounded⟩⟩

/-- What a start does if there is room, for a table outside of the region. -/
theorem start_of_bootable {d : Directory} (hbounded : base.toNat + size.toNat < 2 ^ 64)
    (hapart : ∀ a, info.table = some a → TableApart base size s.memory a)
    (hmagic : info.magic = Limits.bootMagic)
    (hbuild : Directory.empty.buildFromTable s.memory info.table = .ok d)
    (hroom : bootEnd base.toNat (min d.count.toNat 16) ≤ base.toNat + size.toNat)
    (platform : Option Platform) :
    start ⟨some base, size⟩ info platform s =
      (.ok (kernelPlace base, booted base size info platform d),
        s.after ⟨d.printedLines (s.memory.writeAll (registryWrites base info d)) ++
            (System.crowdLines d.count ++ [System.initializedLine platform]),
          bootWrites base info d⟩) := by
  have hfits := (fits_iff hbounded d.count).mpr hroom
  have hsame := buildFromTable_of_agrees hapart
    ((Memory.AgreesOutside.refl _ _ _).writeAll hbounded.le (confined_firstWrites hfits info))
  exact start_of_ok hfits hmagic (hsame.trans hbuild)

private theorem bootable_of_start (hbounded : base.toNat + size.toNat < 2 ^ 64)
    (hapart : ∀ a, info.table = some a → TableApart base size s.memory a)
    (h : start ⟨some base, size⟩ info platform s = (.ok (place, k), t)) :
    Bootable base size info s.memory := by
  obtain ⟨hmagic, d, hfits, hbuild⟩ := fits_of_start hbounded h
  have hsame := buildFromTable_of_agrees hapart
    ((Memory.AgreesOutside.refl _ _ _).writeAll hbounded.le (confined_firstWrites hfits info))
  exact ⟨hmagic, d, hsame.symm.trans hbuild, (fits_iff hbounded d.count).mp hfits⟩

/-- A booted kernel: how much of its region it takes, and where its directory and its slots are. -/
structure Settled (base : Nat) (m m' : Memory) (table : Address) (k : Kernel) : Prop where
  initialized : k.initialized = true
  used : k.arena.used.toNat = bootEnd base (min (m.readWord table).toNat 16) - (base + 32)
  objects : k.objects = some ⟨2⟩
  directory : ∃ d, k.directory = some d ∧ d.toDirectory = ⟨some (Directory.tableAt m table)⟩ ∧
    ∀ i, d.rangeOf? m' i = d.rangeOf? m i
  slots : ∃ l, k.loader = some l ∧
    (∀ i < min (m.readWord table).toNat 16, ∃ e, l.slots.slot? (Int64.ofNat i) = some e ∧
      e.start.toNat = roundUp (roundUp (base + 32) 8 + 128) 4096 + i * 0x20000 ∧
      e.stop.toNat = e.start.toNat + 0x20000) ∧
    ∀ i : Int64, i.toInt < 0 ∨ min (m.readWord table).toNat 16 ≤ i.toInt → l.slots.slot? i = none

private theorem used_booted {n : UInt64} (h : Fits base size n) :
    (arenaAt base size (loaderPlace base n + 40)).used.toNat =
      bootEnd base.toNat n.toNat - (base.toNat + 32) := by
  have hbottom := h.places.bottom
  have htop := h.places.top
  have hloader := h.places.loader
  obtain ⟨hle, hfixed, hroom, hbounded⟩ := h.bounds
  have hlast : (loaderPlace base n + 40).toNat = bootEnd base.toNat n.toNat := by
    rw [toNat_add_of_lt (by change (loaderPlace base n).toNat + 40 < _; omega)]
    change (loaderPlace base n).toNat + 40 = _
    omega
  change (loaderPlace base n + 40 - (base + Arena.headerSize)).toNat = _
  rw [UInt64.toNat_sub_of_le _ _ (by rw [UInt64.le_iff_toNat_le]; omega), hlast, hbottom]

private theorem slot?_slotsAt {n : UInt64} (h : Fits base size n) {i : Nat} (hi : i < n.toNat)
    (hn : n.toNat ≤ 16) :
    ∃ e, (slotsAt base n).slot? (Int64.ofNat i) = some e ∧
      e.start.toNat = roundUp (roundUp (base.toNat + 32) 8 + 128) 4096 + i * 0x20000 ∧
      e.stop.toNat = e.start.toNat + 0x20000 := by
  have hne : n ≠ 0 := by
    rintro rfl
    exact absurd hi (Nat.not_lt_zero i)
  have hbounds := (slotsAt_bounds h hne).2
  have hbounded := h.bounded
  have hsize : Limits.slotSize.toNat = 0x20000 := rfl
  have hplace := h.places.slots hne
  have hbase : (slotsAt base n).base = slotsPlace base := if_neg hne
  have hslots := (slotsAt base n).slot?_ofNat (show i < 2 ^ 63 by omega)
  rw [count_slotsAt, if_pos hi] at hslots
  have hroom : (slotsAt base n).base.toNat +
      (slotsAt base n).count.toNat * (slotsAt base n).size.toNat < 2 ^ 64 := by
    rw [count_slotsAt, size_slotsAt, hsize]
    omega
  obtain ⟨hstart, hend⟩ := Slots.toNat_start_extent (s := slotsAt base n) hi hroom
  rw [size_slotsAt, hsize, hbase, hplace] at hstart
  rw [count_slotsAt, size_slotsAt, hsize] at hend
  refine ⟨_, hslots, hstart, ?_⟩
  change (((slotsAt base n).extent i).start + Limits.slotSize).toNat = _
  rw [toNat_add_of_lt (by rw [hsize]; omega), hsize]

private theorem settled_booted {table : Address} {m m' : Memory} (info : BootRecord)
    (platform : Option Platform) (h : Fits base size (System.slotsFor (m.readWord table)))
    (hsame : (Directory.tableAt m table).Same m' m) :
    (booted base size info platform ⟨some (Directory.tableAt m table)⟩).Settled base.toNat m m'
      table := by
  have hcount := System.toNat_slotsFor (m.readWord table)
  have hused := used_booted h
  rw [hcount] at hused
  constructor
  · rfl
  · exact hused
  · rfl
  · exact ⟨_, rfl, rfl, Directory.rangeOf?_congr hsame⟩
  · refine ⟨_, rfl, ?_, ?_⟩
    · intro i hi
      rw [← hcount] at hi
      exact slot?_slotsAt h hi (by omega)
    · intro i hi
      apply Slots.slot?_eq_none
      change _ ∨ ((System.slotsFor (m.readWord table)).toNat : Int) ≤ _
      rwa [hcount]

/-- A kernel starts if and only if it is given valid boot information and a table that makes a
directory, and all blocks fit into the region. Otherwise it panics. If it starts, the blocks end at
the same place whatever the size of the region: more room changes nothing but the capacity of the
arena. -/
theorem start_iff_bootable (hbounded : base.toNat + size.toNat < 2 ^ 64)
    (hapart : ∀ a, info.table = some a → TableApart base size s.memory a) :
    match start ⟨some base, size⟩ info platform s with
    | (.error _, _) => ¬Bootable base size info s.memory
    | (.ok (place, k), t) => Bootable base size info s.memory ∧
      (∃ a, info.table = some a ∧ k.Settled base.toNat s.memory t.memory a) ∧
      ∀ size', size ≤ size' → base.toNat + size'.toNat < 2 ^ 64 →
        (∀ a, info.table = some a → TableApart base size' s.memory a) →
        start ⟨some base, size'⟩ info platform s = (.ok (place, { k with
          arena := { k.arena with capacity := size' - Arena.headerSize } }), t) := by
  by_cases hboot : Bootable base size info s.memory
  · obtain ⟨hmagic, d, hbuild, hroom⟩ := hboot
    have hfits := (fits_iff hbounded d.count).mpr hroom
    obtain ⟨a, htable, hcount, -, rfl⟩ := BuildRequest.buildFromTable_empty_eq_ok_iff.mp hbuild
    rw [start_of_bootable hbounded hapart hmagic hbuild hroom]
    refine ⟨⟨hmagic, _, hbuild, hroom⟩, ⟨a, htable, ?_⟩, ?_⟩
    · apply settled_booted info platform hfits
      rw [Machine.memory_after]
      intro i hi
      have hagrees := (Memory.AgreesOutside.refl _ _ s.memory).writeAll hbounded.le
        (confined_bootWrites hfits info)
      exact ((hapart a htable).same hcount hagrees i hi).symm
    · -- The size of the region is in none of the places, only in the capacity.
      intro size' hsize hbounded' hapart'
      have hroom' := hroom.trans (Nat.add_le_add_left (UInt64.le_iff_toNat_le.mp hsize) _)
      exact start_of_bootable hbounded' hapart' hmagic hbuild hroom' platform
  · cases hstart : start ⟨some base, size⟩ info platform s with
    | mk result t =>
      cases result with
      | error p => exact hboot
      | ok r => exact absurd (bootable_of_start hbounded hapart hstart) hboot

/-- One app of three bytes in a region that is just large enough, and in one that lacks a byte. -/
theorem start_exact_fit :
    let m := Memory.zeroed.writeBytes 0x100000
      ([1, 0x200000, 0x200003].flatMap LittleEndian.encode)
    let info : BootRecord := ⟨Limits.bootMagic, Limits.bootVersion, some 0x100000, 0⟩
    (∃ place k t, start ⟨some 0x1000, 0x21028⟩ info none (.ofMemory m) = (.ok (place, k), t) ∧
      k.arena.used.toNat = 0x21008 ∧
      ∃ l e, k.loader = some l ∧ l.slots.slot? 0 = some e ∧ e.start.toNat = 0x2000 ∧
        l.slots.slot? 1 = none) ∧
    ∃ p t, start ⟨some 0x1000, 0x21027⟩ info none (.ofMemory m) = (.error p, t) := by
  intro m info
  have hcount : m.readWord 0x100000 = 1 := by decide +kernel
  have hbuild : Directory.empty.buildFromTable m info.table =
      .ok ⟨some (Directory.tableAt m 0x100000)⟩ := by
    apply Directory.buildFromTable_of_ascending
    · rw [hcount]
      decide
    · decide +kernel
  have hone : (Directory.tableAt m 0x100000).count = 1 := hcount
  have happs : (Directory.mk (some (Directory.tableAt m 0x100000))).count = 1 := hcount
  have hapart (size : UInt64) (hsize : size.toNat ≤ 0x30000) (a : Address)
      (ha : info.table = some a) : TableApart 0x1000 size m a := by
    obtain rfl := Option.some.inj ha
    have hbase : (0x1000 : UInt64).toNat = 0x1000 := rfl
    constructor
    · intro p hp
      have hin := (Memory.inWindow_iff (by decide)).mp hp
      have hlow : 0x100000 ≤ p.toNat := hin.1
      omega
    · intro _ p hp
      rw [Boundaries.Holds, hone] at hp
      have hin := (Memory.inWindow_iff (by decide)).mp hp
      have hlow : 0x100008 ≤ p.toNat := hin.1
      omega
  have hlarge := @start_iff_bootable 0x1000 0x21028 info none (.ofMemory m) (by decide)
    (hapart 0x21028 (by decide))
  have hsmall := @start_iff_bootable 0x1000 0x21027 info none (.ofMemory m) (by decide)
    (hapart 0x21027 (by decide))
  constructor
  · cases hstart : start ⟨some 0x1000, 0x21028⟩ info none (.ofMemory m) with
    | mk result t =>
      rw [hstart] at hlarge
      cases result with
      | error p => exact absurd ⟨rfl, _, hbuild, by rw [happs]; decide⟩ hlarge
      | ok r =>
        obtain ⟨-, ⟨a, ha, hsettled⟩, -⟩ := hlarge
        obtain rfl := Option.some.inj ha
        obtain ⟨-, hused, -, -, l, hl, hslots, hnone⟩ := hsettled
        change _ = bootEnd _ (min (m.readWord 0x100000).toNat 16) - _ at hused
        change ∀ i < min (m.readWord 0x100000).toNat 16, _ at hslots
        change ∀ i : Int64, _ ∨ ((min (m.readWord 0x100000).toNat 16 : Nat) : Int) ≤ _ → _ at hnone
        rw [hcount] at hused hslots hnone
        obtain ⟨e, he, hplace, -⟩ := hslots 0 (by decide)
        exact ⟨_, _, _, rfl, hused, l, e, hl, he, hplace, hnone 1 (by decide)⟩
  · cases hstart : start ⟨some 0x1000, 0x21027⟩ info none (.ofMemory m) with
    | mk result t =>
      rw [hstart] at hsmall
      cases result with
      | error p => exact ⟨p, t, rfl⟩
      | ok r =>
        obtain ⟨⟨-, d, hd, hroom⟩, -⟩ := hsmall
        obtain rfl := Except.ok.inj (hbuild.symm.trans hd)
        rw [happs] at hroom
        exact absurd hroom (by decide)

end Kernel

end EmbeddedApps
