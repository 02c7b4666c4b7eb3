import EmbeddedApps.Proofs.Kernel.Boot
import EmbeddedApps.Proofs.Kernel.Layout
import Mathlib

/-!
# Starting a kernel where there is room

If everything fits into the region, the outcome of a start depends on the table alone. All blocks
and all writes stay in the region.
-/

namespace EmbeddedApps.Kernel

def slotsAt (base : Address) (n : UInt64) : Slots :=
  ⟨if n = 0 then 0 else slotsPlace base, Limits.slotSize, n⟩

@[simp] theorem count_slotsAt (base : Address) (n : UInt64) : (slotsAt base n).count = n := rfl

@[simp] theorem size_slotsAt (base : Address) (n : UInt64) :
    (slotsAt base n).size = Limits.slotSize := rfl

/-- The arena of a kernel's region up to its first free byte. -/
def arenaAt (base : Address) (size : UInt64) (top : Address) : Arena :=
  Arena.upTo (base + Arena.headerSize) (size - Arena.headerSize) top

/-- The blocks that a boot with `n` slots reserves. -/
def bootBlocks (base : Address) (n : UInt64) : List Block :=
  [⟨.bootInfo, infoPlace base, 24⟩, ⟨.kernel, kernelPlace base, 56⟩,
    ⟨.objectCount, objectsPlace base, 24⟩, ⟨.directory, directoryPlace base, 24⟩] ++
  (if n = 0 then [] else [⟨.slots, slotsPlace base, n * Limits.slotSize⟩]) ++
  [⟨.loader, loaderPlace base n, 40⟩]

/-- What is written up to the point where a table is accepted or refused. -/
def registryWrites (base : Address) (info : BootRecord) (d : Directory) : List Write :=
  ⟨infoPlace base, info.content⟩ :: (PlacedDirectory.writes ⟨.empty, directoryPlace base⟩ ++
    PlacedDirectory.writes ⟨d, directoryPlace base⟩)

def bootedLoader (base : Address) (d : Directory) : PlacedLoader where
  toLoader := Loader.ofSlots d (slotsAt base (System.slotsFor d.count))
  address := loaderPlace base (System.slotsFor d.count)
  directoryAddress := directoryPlace base

def booted (base : Address) (size : UInt64) (info : BootRecord) (platform : Option Platform)
    (d : Directory) : Kernel where
  arena := arenaAt base size (loaderPlace base (System.slotsFor d.count) + 40)
  info := info
  platform := platform
  objects := some ⟨2⟩
  directory := some ⟨d, directoryPlace base⟩
  loader := some (bootedLoader base d)
  initialized := true
  blocks := bootBlocks base (System.slotsFor d.count)

variable {base size n : UInt64}

private theorem allocate_next {top blockSize alignment : UInt64} (h : Fits base size n)
    (ha : isPowerOfTwo alignment = true) (htop : base.toNat + 32 ≤ top.toNat)
    (hfit : (alignUp top alignment).toNat + blockSize.toNat ≤ base.toNat + size.toNat)
    (hround : roundUp top.toNat alignment.toNat < 2 ^ 64) :
    (arenaAt base size top).allocate blockSize alignment =
      (some (alignUp top alignment), arenaAt base size (alignUp top alignment + blockSize)) := by
  have hbounded := h.bounded
  have hbottom := h.places.bottom
  have hplace := toNat_alignUp_of_lt ha hround
  have hle := le_roundUp top.toNat (pos_of_isPowerOfTwo ha)
  have hheader : Arena.headerSize.toNat = 32 := rfl
  have hcapacity : (size - Arena.headerSize).toNat = size.toNat - 32 := by
    rw [UInt64.toNat_sub_of_le _ _ (by rw [UInt64.le_iff_toNat_le]; omega), hheader]
  apply Arena.allocate_of_fits ha
  · omega
  · omega
  · omega
  · omega

private theorem allocate_word {top blockSize : UInt64} (h : Fits base size n)
    (htop : base.toNat + 32 ≤ top.toNat) (hlow : top.toNat + 8 ≤ 2 ^ 64)
    (hfit : (alignUp top 8).toNat + blockSize.toNat ≤ base.toNat + size.toNat) :
    (arenaAt base size top).allocate blockSize 8 =
      (some (alignUp top 8), arenaAt base size (alignUp top 8 + blockSize)) := by
  have hround := roundUp_lt_add top.toNat (show 0 < 8 by decide)
  exact allocate_next h (by decide) htop hfit (by change roundUp _ 8 < _; omega)

def unbootedAt (base size : UInt64) (info : BootRecord) (platform : Option Platform) : Kernel :=
  { unbooted (arenaAt base size (kernelPlace base + 56)) info platform with
    blocks := [⟨.bootInfo, infoPlace base, 24⟩, ⟨.kernel, kernelPlace base, 56⟩] }

theorem layOut?_eq (h : Fits base size n) (info : BootRecord)
    (platform : Option Platform) (s : Machine) :
    layOut? ⟨some base, size⟩ info platform s =
      some (kernelPlace base, ⟨unbootedAt base size info platform,
        s.after ⟨[], [⟨infoPlace base, info.content⟩]⟩⟩) := by
  have hplaces := h.places
  have hbottom := hplaces.bottom
  have hinfo := hplaces.info
  have hkernel := hplaces.kernel
  obtain ⟨hle, hfixed, hroom, hbounded⟩ := h.bounds
  have hsmall : (24 : UInt64).toNat = 24 := rfl
  have hlarge : (56 : UInt64).toNat = 56 := rfl
  have hheader : Arena.headerSize.toNat = 32 := rfl
  have hnext : (infoPlace base + 24).toNat = (infoPlace base).toNat + 24 :=
    toNat_add_of_lt (by omega)
  have hregion : Arena.ofRegion? ⟨some base, size⟩ =
      some (arenaAt base size (base + Arena.headerSize)) := by
    rw [Arena.ofRegion?, Option.bind_some, if_neg, Arena.fresh_eq_upTo, arenaAt]
    rw [UInt64.le_iff_toNat_le, Nat.not_le]
    change Arena.headerSize.toNat < size.toNat
    omega
  have hfirst : (arenaAt base size (base + Arena.headerSize)).allocate 24 8 =
      (some (infoPlace base), arenaAt base size (infoPlace base + 24)) :=
    allocate_word h (by omega) (by omega) (by change (infoPlace base).toNat + 24 ≤ _; omega)
  have hsecond : (arenaAt base size (infoPlace base + 24)).allocate 56 8 =
      (some (kernelPlace base), arenaAt base size (kernelPlace base + 56)) :=
    allocate_word h (by omega) (by omega) (by change (kernelPlace base).toNat + 56 ≤ _; omega)
  have hmachine : { s with memory := s.memory.writeBytes (infoPlace base) info.content } =
      s.after ⟨[], [⟨infoPlace base, info.content⟩]⟩ := by
    rw [← Machine.write_eq_after, Memory.writeAll_cons, Memory.writeAll_nil]
  rw [layOut?, hregion]
  simp only [Purpose.footprint, hfirst, hsecond, hmachine, unbootedAt]

def countedAt (base size : UInt64) (info : BootRecord) (platform : Option Platform) : Kernel :=
  { unbootedAt base size info platform with
    arena := arenaAt base size (objectsPlace base + 24)
    objects := some ⟨0⟩
    blocks := (unbootedAt base size info platform).blocks ++
      [⟨.objectCount, objectsPlace base, 24⟩] }

private theorem startObjects_unbootedAt (h : Fits base size n) (info : BootRecord)
    (platform : Option Platform) (s : Machine) :
    System.startObjects ⟨unbootedAt base size info platform, s⟩ =
      .ok () ⟨countedAt base size info platform, s⟩ := by
  have hplaces := h.places
  have hkernel := hplaces.kernel
  have hobjects := hplaces.objects
  obtain ⟨hle, hfixed, hroom, hbounded⟩ := h.bounds
  have hsmall : (24 : UInt64).toNat = 24 := rfl
  have hlarge : (56 : UInt64).toNat = 56 := rfl
  have hnext : (kernelPlace base + 56).toNat = (kernelPlace base).toNat + 56 :=
    toNat_add_of_lt (by omega)
  exact System.startObjects_of_allocate (allocate_word h (by omega) (by omega)
    (by change (objectsPlace base).toNat + 24 ≤ _; omega))

private theorem allocate_directory (h : Fits base size n) :
    (arenaAt base size (objectsPlace base + 24)).allocate 24 8 =
      (some (directoryPlace base), arenaAt base size (directoryPlace base + 24)) := by
  have hplaces := h.places
  have hobjects := hplaces.objects
  have hdirectory := hplaces.directory
  obtain ⟨hle, hfixed, hroom, hbounded⟩ := h.bounds
  have hsmall : (24 : UInt64).toNat = 24 := rfl
  have hnext : (objectsPlace base + 24).toNat = (objectsPlace base).toNat + 24 :=
    toNat_add_of_lt (by omega)
  exact allocate_word h (by omega) (by omega)
    (by change (directoryPlace base).toNat + 24 ≤ _; omega)

def registeredAt (base size : UInt64) (info : BootRecord) (platform : Option Platform)
    (d : Directory) : Kernel :=
  System.withDirectory (countedAt base size info platform) ⟨0⟩
    (arenaAt base size (directoryPlace base + 24)) ⟨d, directoryPlace base⟩

def slottedAt (base size : UInt64) (info : BootRecord) (platform : Option Platform)
    (d : Directory) (n : UInt64) : Kernel :=
  { registeredAt base size info platform d with
    arena := arenaAt base size (slotsEnd base n)
    blocks := (registeredAt base size info platform d).blocks ++
      (if n = 0 then [] else [⟨.slots, slotsPlace base, n * Limits.slotSize⟩]) }

private theorem reserveSlots_registeredAt (h : Fits base size n) (info : BootRecord)
    (platform : Option Platform) (d : Directory) (s : Machine) :
    System.reserveSlots n ⟨registeredAt base size info platform d, s⟩ =
      .ok (slotsAt base n) ⟨slottedAt base size info platform d n, s⟩ := by
  by_cases hn : n = 0
  · subst hn
    rw [System.reserveSlots_zero, slotsAt, slottedAt, if_pos rfl, if_pos rfl, List.append_nil,
      slotsEnd, if_pos rfl]
    rfl
  have hplaces := h.places
  have hdirectory := hplaces.directory
  have hslots := hplaces.slots hn
  have harea := hplaces.area
  obtain ⟨hle, hfixed, hroom, hbounded⟩ := h.bounds
  have hend := bootEnd_of_ne_zero base.toNat hn
  have hsmall : (24 : UInt64).toNat = 24 := rfl
  have hpage : Limits.slotAlignment.toNat = 4096 := rfl
  have hnext : (directoryPlace base + 24).toNat = roundUp (base.toNat + 32) 8 + 128 := by
    rw [toNat_add_of_lt (by omega)]
    omega
  have hallocate : (arenaAt base size (directoryPlace base + 24)).allocate (n * Limits.slotSize)
      Limits.slotAlignment =
        (some (slotsPlace base), arenaAt base size (slotsPlace base + n * Limits.slotSize)) :=
    allocate_next h (by decide) (by omega)
      (by change (slotsPlace base).toNat + _ ≤ _; omega) (by rw [hnext, hpage]; omega)
  have hreserve := System.reserveSlots_of_allocate
    (s := ⟨registeredAt base size info platform d, s⟩) hn hallocate
  rw [hreserve, slotsAt, slottedAt, slotsEnd, if_neg hn, if_neg hn, if_neg hn]

private theorem allocate_loader (h : Fits base size n) :
    (arenaAt base size (slotsEnd base n)).allocate 40 8 =
      (some (loaderPlace base n), arenaAt base size (loaderPlace base n + 40)) := by
  have hplaces := h.places
  have htop := hplaces.top
  have hloader := hplaces.loader
  obtain ⟨hle, hfixed, hroom, hbounded⟩ := h.bounds
  have hsize : (40 : UInt64).toNat = 40 := rfl
  exact allocate_word h (by omega) (by omega)
    (by change (loaderPlace base n).toNat + 40 ≤ _; omega)

variable {info : BootRecord} {platform : Option Platform} {s : Machine}

private theorem writeAll_after_one (s : Machine) (w : Write) (ws : List Write) :
    (s.after ⟨[], [w]⟩).memory.writeAll ws = s.memory.writeAll (w :: ws) := by
  rw [Machine.memory_after, ← Memory.writeAll_append, List.singleton_append]

private theorem buildDirectory_countedAt {d : Directory} (h : Fits base size n)
    (platform : Option Platform)
    (hbuild : Directory.empty.buildFromTable (s.memory.writeAll
      (⟨infoPlace base, info.content⟩ :: PlacedDirectory.writes ⟨.empty, directoryPlace base⟩))
        info.table = .ok d) :
    System.buildDirectory ⟨countedAt base size info platform,
        s.after ⟨[], [⟨infoPlace base, info.content⟩]⟩⟩ =
      .ok () ⟨registeredAt base size info platform d,
        (s.after ⟨[], [⟨infoPlace base, info.content⟩]⟩).after
          ⟨d.printedLines (s.memory.writeAll (registryWrites base info d)),
            PlacedDirectory.writes ⟨.empty, directoryPlace base⟩ ++
              PlacedDirectory.writes ⟨d, directoryPlace base⟩⟩⟩ := by
  rw [← writeAll_after_one] at hbuild
  rw [registryWrites, ← writeAll_after_one]
  exact System.buildDirectory_of_ok
    (s := ⟨countedAt base size info platform, s.after ⟨[], [⟨infoPlace base, info.content⟩]⟩⟩)
    rfl (allocate_directory h) hbuild

private theorem buildLoader_registeredAt {d : Directory}
    (h : Fits base size (System.slotsFor d.count)) (info : BootRecord)
    (platform : Option Platform) (s : Machine) :
    System.buildLoader ⟨registeredAt base size info platform d, s⟩ =
      .ok () ⟨{ booted base size info platform d with initialized := false },
        s.after ⟨System.crowdLines d.count, (bootedLoader base d).writes⟩⟩ := by
  have hslots := reserveSlots_registeredAt h info platform d s
  exact System.buildLoader_of_slots (s := ⟨registeredAt base size info platform d, s⟩) rfl hslots
    rfl (allocate_loader h)

/-- Where there is room, a kernel starts with whatever directory its table makes. -/
theorem start_of_ok {d : Directory} (h : Fits base size (System.slotsFor d.count))
    (hmagic : info.magic = Limits.bootMagic)
    (hbuild : Directory.empty.buildFromTable (s.memory.writeAll
      (⟨infoPlace base, info.content⟩ :: PlacedDirectory.writes ⟨.empty, directoryPlace base⟩))
        info.table = .ok d) :
    start ⟨some base, size⟩ info platform s =
      (.ok (kernelPlace base, booted base size info platform d),
        s.after ⟨d.printedLines (s.memory.writeAll (registryWrites base info d)) ++
            (System.crowdLines d.count ++ [System.initializedLine platform]),
          registryWrites base info d ++ (bootedLoader base d).writes⟩) := by
  have hobjects := startObjects_unbootedAt h info platform
    (s.after ⟨[], [⟨infoPlace base, info.content⟩]⟩)
  have hdirectory := buildDirectory_countedAt h platform hbuild
  have hloader := buildLoader_registeredAt h info platform
    ((s.after ⟨[], [⟨infoPlace base, info.content⟩]⟩).after
      ⟨d.printedLines (s.memory.writeAll (registryWrites base info d)),
        PlacedDirectory.writes ⟨.empty, directoryPlace base⟩ ++
          PlacedDirectory.writes ⟨d, directoryPlace base⟩⟩)
  have hboot := System.boot_of_steps hmagic hobjects hdirectory hloader
  rw [start, layOut?_eq h]
  dsimp only
  rw [hboot]
  simp only [← Machine.after_append, Effect.mk_append_mk, registryWrites, List.nil_append,
    List.append_nil, List.cons_append, List.append_assoc]
  rfl

/-- Where there is room, a table that makes no directory is all that keeps a kernel from starting.
-/
theorem start_of_error {f : TableFault} (h : Fits base size n)
    (hmagic : info.magic = Limits.bootMagic)
    (hbuild : Directory.empty.buildFromTable (s.memory.writeAll
      (⟨infoPlace base, info.content⟩ :: PlacedDirectory.writes ⟨.empty, directoryPlace base⟩))
        info.table = .error f) :
    start ⟨some base, size⟩ info platform s = (.error (.directoryRejected f.status),
      s.after ⟨[.error f.message, (Panic.directoryRejected f.status).line],
        registryWrites base info .empty⟩) := by
  rw [← writeAll_after_one] at hbuild
  have hobjects := startObjects_unbootedAt h info platform
    (s.after ⟨[], [⟨infoPlace base, info.content⟩]⟩)
  have hdirectory := System.buildDirectory_of_error
    (s := ⟨countedAt base size info platform, s.after ⟨[], [⟨infoPlace base, info.content⟩]⟩⟩)
    rfl (allocate_directory h) hbuild
  have hboot := System.boot_of_rejected hmagic hobjects hdirectory
  rw [start, layOut?_eq h]
  dsimp only
  rw [hboot]
  simp only [← Machine.after_append]
  rfl

private theorem confined_directory (h : Fits base size n) (d : Directory) :
    Confined base.toNat (base.toNat + size.toNat)
      (PlacedDirectory.writes ⟨d, directoryPlace base⟩) := by
  have hdirectory := h.places.directory
  obtain ⟨hle, hfixed, hroom, hbounded⟩ := h.bounds
  apply PlacedDirectory.confined_writes hbounded
  · dsimp only
    omega
  · dsimp only
    omega

theorem confined_registryWrites (h : Fits base size n) (info : BootRecord) (d : Directory) :
    Confined base.toNat (base.toNat + size.toNat) (registryWrites base info d) := by
  have hinfo := h.places.info
  obtain ⟨hle, hfixed, hroom, -⟩ := h.bounds
  have hfirst : Confined base.toNat (base.toNat + size.toNat) [⟨infoPlace base, info.content⟩] :=
    info.confined_content (by omega) (by omega)
  exact hfirst.append ((confined_directory h .empty).append (confined_directory h d))

private theorem confined_bootedLoader {d : Directory}
    (h : Fits base size (System.slotsFor d.count)) :
    Confined base.toNat (base.toNat + size.toNat) (bootedLoader base d).writes := by
  have htop := h.places.top
  have hloader := h.places.loader
  obtain ⟨hle, hfixed, hroom, -⟩ := h.bounds
  apply PlacedLoader.confined_writes
  · change base.toNat ≤ (loaderPlace base (System.slotsFor d.count)).toNat
    omega
  · change (loaderPlace base (System.slotsFor d.count)).toNat + 40 ≤ _
    omega

/-- What is written before the table is looked at. -/
def firstWrites (base : Address) (info : BootRecord) : List Write :=
  ⟨infoPlace base, info.content⟩ :: PlacedDirectory.writes ⟨.empty, directoryPlace base⟩

theorem confined_firstWrites (h : Fits base size n) (info : BootRecord) :
    Confined base.toNat (base.toNat + size.toNat) (firstWrites base info) := by
  have hws := confined_registryWrites h info .empty
  intro w hw
  apply hws w
  rw [registryWrites, ← List.cons_append]
  exact List.mem_append_left _ hw

/-- What is written up to the end of the boot. -/
def bootWrites (base : Address) (info : BootRecord) (d : Directory) : List Write :=
  registryWrites base info d ++ (bootedLoader base d).writes

theorem confined_bootWrites {d : Directory} (h : Fits base size (System.slotsFor d.count))
    (info : BootRecord) :
    Confined base.toNat (base.toNat + size.toNat) (bootWrites base info d) :=
  (confined_registryWrites h info d).append (confined_bootedLoader h)

theorem slotsAt_bounds (h : Fits base size n) (hn : n ≠ 0) :
    base.toNat ≤ (slotsAt base n).base.toNat ∧
      (slotsAt base n).base.toNat + n.toNat * 0x20000 ≤ base.toNat + size.toNat := by
  have hslots := h.places.slots hn
  obtain ⟨hle, -, hroom, -⟩ := h.bounds
  have hend := bootEnd_of_ne_zero base.toNat hn
  have hpage := le_roundUp (roundUp (base.toNat + 32) 8 + 128) (show 0 < 4096 by decide)
  rw [slotsAt, if_neg hn]
  dsimp only
  omega

end EmbeddedApps.Kernel
