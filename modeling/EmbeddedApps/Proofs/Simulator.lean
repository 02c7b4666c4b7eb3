import EmbeddedApps.Proofs.Image.Loading
import EmbeddedApps.Proofs.Kernel.Confinement
import EmbeddedApps.Simulator
import Mathlib

/-!
# Boots of the simulator

What a boot does is fixed by the installed image in the upper half of the simulated memory: either
all apps are loaded, as far as they fit, or the kernel refuses the table.
-/

namespace EmbeddedApps.Simulator

open Image

variable {image : Bytes} {base : Address} {m m' : Memory}

theorem toNat_halfSize : halfSize.toNat = 0x2000000 := rfl

theorem toNat_imageBase (hroom : base.toNat + 0x4000000 < 2 ^ 64) :
    (base + halfSize).toNat = base.toNat + 0x2000000 := by
  rw [toNat_add_of_lt (by rw [toNat_halfSize]; omega), toNat_halfSize]

theorem fits (hroom : base.toNat + 0x4000000 < 2 ^ 64) (n : UInt64) :
    Kernel.Fits base halfSize (System.slotsFor n) := by
  have hcount := System.toNat_slotsFor n
  have hword := roundUp_lt_add (base.toNat + 32) (show 0 < 8 by decide)
  have hpage := roundUp_lt_add (roundUp (base.toNat + 32) 8 + 128) (show 0 < 4096 by decide)
  constructor
  · rw [Kernel.bootEnd, toNat_halfSize]
    split
    · omega
    · omega
  · rw [toNat_halfSize]
    omega

def directoryOf (image : Bytes) (base : Address) : Directory :=
  ⟨some (appBoundaries image (base + halfSize))⟩

def recordOf (image : Bytes) (base : Address) : BootRecord :=
  bootRecord (tableAddress image (base + halfSize))

def kernelOf (image : Bytes) (base : Address) : Kernel :=
  Kernel.booted base halfSize (recordOf image base) (some platform) (directoryOf image base)

def loaderOf (image : Bytes) (base : Address) : Loader :=
  imageLoader image (base + halfSize) (Kernel.slotsAt base (System.slotsFor (claimedCount image)))

def runOf (image : Bytes) (base : Address) (m : Memory) : LoadRun × Effect :=
  Loader.loading ((loaderOf image base).fetch m) (claimedCount image).toNat 0

def bootEffect (image : Bytes) (base : Address) (m : Memory) : Effect :=
  ⟨(directoryOf image base).printedLines
      (m.writeAll
        (Kernel.registryWrites base (recordOf image base) (directoryOf image base))) ++
    (System.crowdLines (claimedCount image) ++ [System.initializedLine (some platform)]),
    Kernel.bootWrites base (recordOf image base) (directoryOf image base)⟩

/-- All that a run on an installed image with ordered offsets leaves behind. -/
def runEffect (image : Bytes) (base : Address) (m : Memory) : Effect :=
  bootEffect image base m ++ (runOf image base m).2 ++
    ⟨System.stopLines (runOf image base m).1, []⟩

def refusalEffect (image : Bytes) (base : Address) (f : TableFault) : Effect :=
  ⟨[.error f.message, (Panic.directoryRejected f.status).line],
    Kernel.registryWrites base (recordOf image base) .empty⟩

theorem tableApart_installed (hroom : base.toNat + 0x4000000 < 2 ^ 64)
    (h : Accepted image (imageRegion base) (base + halfSize))
    (hm : Resident image (base + halfSize) m) :
    Kernel.TableApart base halfSize m (tableAddress image (base + halfSize)) := by
  have hbase := toNat_imageBase hroom
  have hplace := h.le_tableAddress
  have hbounded := h.bounded
  have hhalf := toNat_halfSize
  have hword : (8 : UInt64).toNat = 8 := rfl
  have hbehind : (tableAddress image (base + halfSize) + 8).toNat = _ + 8 :=
    toNat_add_of_lt (by omega)
  constructor
  · intro p hp
    rw [Memory.inWindow_iff (by omega)] at hp
    omega
  · intro _ p hp
    rw [hm.tableAt_eq, Boundaries.Holds] at hp
    change Memory.InWindow (tableAddress image (base + halfSize) + 8)
      (8 * ((claimedCount image).toNat + 1)) p at hp
    rw [Memory.inWindow_iff (by omega), hbehind] at hp
    omega

theorem app_apart_installed (hroom : base.toNat + 0x4000000 < 2 ^ 64)
    (h : Accepted image (imageRegion base) (base + halfSize))
    (hm : Resident image (base + halfSize) m) (d : Directory)
    (hbuild : Directory.empty.buildFromTable m (some (tableAddress image (base + halfSize))) =
      .ok d)
    (i : Int64) (app : Extent) (happ : d.rangeOf? m i = some app) :
    app.stop.toNat ≤ base.toNat ∨ base.toNat + halfSize.toNat ≤ app.start.toNat := by
  obtain ⟨hasc, k, hk, rfl⟩ := hm.exists_app h hbuild happ
  have hstart := (h.appExtent_bounds hasc hk).1
  have hbase := toNat_imageBase hroom
  right
  rw [hstart, hbase, toNat_halfSize]
  omega

theorem headerSize_lt_halfSize : Arena.headerSize < halfSize := by decide

theorem bounded_halfSize (hroom : base.toNat + 0x4000000 < 2 ^ 64) :
    base.toNat + halfSize.toNat < 2 ^ 64 := by
  rw [toNat_halfSize]
  omega

/-- The lower half below an installed image. -/
def settingOf (hroom : base.toNat + 0x4000000 < 2 ^ 64)
    (h : Accepted image (imageRegion base) (base + halfSize))
    (hm : Resident image (base + halfSize) m) : Setting where
  base := base
  size := halfSize
  memory := m
  table := tableAddress image (base + halfSize)
  large := headerSize_lt_halfSize
  bounded := bounded_halfSize hroom
  apart := tableApart_installed hroom h hm
  apps := app_apart_installed hroom h hm

theorem resident_of_agrees (hroom : base.toNat + 0x4000000 < 2 ^ 64)
    (h : Accepted image (imageRegion base) (base + halfSize))
    (hm : Resident image (base + halfSize) m)
    (hagrees : m.AgreesOutside base.toNat (base.toNat + halfSize.toNat) m') :
    Resident image (base + halfSize) m' := by
  have hbase := toNat_imageBase hroom
  have hbounded := h.bounded
  have hhalf := toNat_halfSize
  apply hm.congr h
  intro c hc
  rw [Memory.inWindow_iff (by omega)] at hc
  exact (hagrees c (by omega)).symm

private theorem resident_writeAll (hroom : base.toNat + 0x4000000 < 2 ^ 64)
    (h : Accepted image (imageRegion base) (base + halfSize))
    (hm : Resident image (base + halfSize) m) {ws : List Write}
    (hws : Confined base.toNat (base.toNat + halfSize.toNat) ws) :
    Resident image (base + halfSize) (m.writeAll ws) := by
  have hhalf := toNat_halfSize
  exact resident_of_agrees hroom h hm
    ((Memory.AgreesOutside.refl _ _ m).writeAll (by omega) hws)

theorem slots_bounds (hroom : base.toNat + 0x4000000 < 2 ^ 64) (n : UInt64) :
    let slots := Kernel.slotsAt base (System.slotsFor n)
    slots.base.toNat + slots.count.toNat * slots.size.toNat < 2 ^ 64 ∧
      (slots.count ≠ 0 → base.toNat ≤ slots.base.toNat ∧
        slots.base.toNat + slots.count.toNat * slots.size.toNat ≤ base.toNat + 0x2000000) := by
  have hfits := fits hroom n
  have hsize : Limits.slotSize.toNat = 0x20000 := rfl
  have hhalf := toNat_halfSize
  by_cases hn : System.slotsFor n = 0
  · rw [hn]
    refine ⟨?_, fun h => absurd rfl h⟩
    change (0 : UInt64).toNat + (0 : UInt64).toNat * Limits.slotSize.toNat < 2 ^ 64
    decide
  · have hbounds := Kernel.slotsAt_bounds hfits hn
    change _ + (System.slotsFor n).toNat * Limits.slotSize.toNat < _ ∧
      (_ → _ ∧ _ + (System.slotsFor n).toNat * Limits.slotSize.toNat ≤ _)
    rw [hsize]
    omega

private theorem shielded (hroom : base.toNat + 0x4000000 < 2 ^ 64)
    (h : Accepted image (imageRegion base) (base + halfSize)) (hasc : OffsetsAscending image)
    (hm : Resident image (base + halfSize) m) :
    (loaderOf image base).Shielded m base.toNat (base.toNat + halfSize.toNat) := by
  obtain ⟨hword, hslots⟩ := slots_bounds hroom (claimedCount image)
  exact Setting.shielded (c := settingOf hroom h hm) (.inr (hm.buildFromTable h hasc)) hword hslots

private theorem resident_firstWrites (hroom : base.toNat + 0x4000000 < 2 ^ 64)
    (h : Accepted image (imageRegion base) (base + halfSize))
    (hm : Resident image (base + halfSize) m) :
    Resident image (base + halfSize)
      (m.writeAll (Kernel.firstWrites base (recordOf image base))) :=
  resident_writeAll hroom h hm (Kernel.confined_firstWrites (fits hroom 0) _)

theorem bootFrom_of_ascending (hroom : base.toNat + 0x4000000 < 2 ^ 64)
    (h : Accepted image (imageRegion base) (base + halfSize)) (hasc : OffsetsAscending image)
    (hm : Resident image (base + halfSize) m) :
    bootFrom base (tableAddress image (base + halfSize)) m =
      (.ok ((runOf image base m).1.loaded, kernelOf image base),
        (Machine.ofMemory m).after (runEffect image base m)) := by
  have hstart : Kernel.start (kernelRegion base) (bootRecord (tableAddress image (base + halfSize)))
      (some platform) (.ofMemory m) = (.ok (Kernel.kernelPlace base, kernelOf image base),
        (Machine.ofMemory m).after (bootEffect image base m)) :=
    Kernel.start_of_ok (s := .ofMemory m) (d := directoryOf image base)
      (fits hroom (claimedCount image)) rfl
      ((resident_firstWrites hroom h hm).buildFromTable h hasc)
  have hboot := Kernel.confined_bootWrites (d := directoryOf image base)
    (fits hroom (claimedCount image)) (recordOf image base)
  have hagrees : m.AgreesOutside base.toNat (base.toNat + halfSize.toNat)
      ((Machine.ofMemory m).after (bootEffect image base m)).memory := by
    rw [Machine.memory_after]
    exact (Memory.AgreesOutside.refl _ _ m).writeAll (settingOf hroom h hm).bounded.le hboot
  have hrun : (Kernel.bootedLoader base (directoryOf image base)).loadAll
      ((Machine.ofMemory m).after (bootEffect image base m)) =
        ((runOf image base m).1,
          ((Machine.ofMemory m).after (bootEffect image base m)).after (runOf image base m).2) :=
    (shielded hroom h hasc hm).loadFrom_eq (claimedCount image).toNat 0 hagrees
  have hload := System.loadAll_of_loader (s := ⟨kernelOf image base,
    (Machine.ofMemory m).after (bootEffect image base m)⟩) (l := Kernel.bootedLoader base
      (directoryOf image base)) rfl (by rintro p ⟨⟩; rfl)
  dsimp only at hload
  rw [hrun] at hload
  rw [bootFrom, hstart]
  dsimp only
  rw [hload, ← Machine.after_append, ← Machine.after_append, runEffect]

private theorem bootFrom_of_error (hroom : base.toNat + 0x4000000 < 2 ^ 64) {f : TableFault}
    (hbuild : Directory.empty.buildFromTable
      (m.writeAll (Kernel.firstWrites base (recordOf image base)))
      (some (tableAddress image (base + halfSize))) = .error f) :
    bootFrom base (tableAddress image (base + halfSize)) m =
      (.error (.directoryRejected f.status),
        (Machine.ofMemory m).after (refusalEffect image base f)) := by
  have hstart : Kernel.start (kernelRegion base) (bootRecord (tableAddress image (base + halfSize)))
      (some platform) (.ofMemory m) = _ :=
    Kernel.start_of_error (s := .ofMemory m) (fits hroom (claimedCount image)) rfl hbuild
  rw [bootFrom, hstart]
  rfl

private theorem runEffect_congr (hroom : base.toNat + 0x4000000 < 2 ^ 64)
    (h : Accepted image (imageRegion base) (base + halfSize)) (hasc : OffsetsAscending image)
    (hm : Resident image (base + halfSize) m) (hm' : Resident image (base + halfSize) m') :
    runOf image base m = runOf image base m' ∧
      runEffect image base m = runEffect image base m' := by
  have hws := Kernel.confined_registryWrites (fits hroom 0) (recordOf image base)
    (directoryOf image base)
  have hsame := (resident_writeAll hroom h hm hws).same (resident_writeAll hroom h hm' hws)
  have hsummary :
      (directoryOf image base).printedLines _ = (directoryOf image base).printedLines _ :=
    Directory.printedLines_congr hsame
  have hfetch : (loaderOf image base).fetch m = (loaderOf image base).fetch m' :=
    funext (hm.fetch_congr h hasc hm')
  have hrun : runOf image base m = runOf image base m' := by rw [runOf, runOf, hfetch]
  exact ⟨hrun, by rw [runEffect, runEffect, bootEffect, bootEffect, hsummary, hrun]⟩

/-- How a boot from an installed image ends and what it does is fixed by the image, and it writes to
the lower half only. -/
theorem exists_bootFrom_eq (hroom : base.toNat + 0x4000000 < 2 ^ 64)
    (h : Accepted image (imageRegion base) (base + halfSize)) :
    ∃ (result : Except Panic (UInt64 × Kernel)) (e : Effect),
      Confined base.toNat (base.toNat + 0x2000000) e.writes ∧
      (∀ m, Resident image (base + halfSize) m →
        bootFrom base (tableAddress image (base + halfSize)) m =
          (result, (Machine.ofMemory m).after e)) ∧
      (OffsetsAscending image → ∃ loaded, result = .ok (loaded, kernelOf image base)) ∧
      (¬OffsetsAscending image → ∃ p, result = .error p) := by
  obtain ⟨i, m₀, hinstall⟩ := h.exists_install .zeroed
  obtain ⟨-, -, hm₀⟩ := resident_of_install h hinstall
  by_cases hasc : OffsetsAscending image
  · refine ⟨.ok ((runOf image base m₀).1.loaded, kernelOf image base), runEffect image base m₀, ?_,
      fun m hm => ?_, fun _ => ⟨_, rfl⟩, fun hnot => absurd hasc hnot⟩
    · have hrun := (shielded hroom h hasc hm₀).confined_loading (claimedCount image).toNat 0
      have hboot := Kernel.confined_bootWrites (d := directoryOf image base)
        (fits hroom (claimedCount image)) (recordOf image base)
      exact (hboot.append hrun).append (Confined.nil _ _)
    · obtain ⟨hrun, heffect⟩ := runEffect_congr hroom h hasc hm hm₀
      rw [bootFrom_of_ascending hroom h hasc hm, hrun, heffect]
  · obtain ⟨k, left, right, hbuild⟩ :=
      (resident_firstWrites hroom h hm₀).buildFromTable_of_not_ascending h hasc
    refine ⟨.error (.directoryRejected (TableFault.decreasing k left right).status),
      refusalEffect image base (.decreasing k left right), ?_, fun m hm => ?_,
      fun hasc' => absurd hasc' hasc, fun _ => ⟨_, rfl⟩⟩
    · exact Kernel.confined_registryWrites (fits hroom 0) _ _
    · have hcongr := (resident_firstWrites hroom h hm).buildFromTable_congr h
        (resident_firstWrites hroom h hm₀)
      exact bootFrom_of_error hroom (hcongr.trans hbuild)

end EmbeddedApps.Simulator
