import EmbeddedApps.Proofs.Kernel.Runs
import Mathlib

/-!
# What a kernel holds

Everything that a kernel builds has a block of its own, and blocks lie one behind the other behind
the header of the arena. Loads write to the slots of the loader in use, and so to no other block.
-/

namespace EmbeddedApps

def Block.grant (b : Block) : Arena.Grant := ⟨b.start, b.size, b.purpose.footprint.alignment⟩

def Block.Holds (b : Block) (p : Address) : Prop := Memory.InWindow b.start b.size.toNat p

def Block.Apart (b c : Block) : Prop := ∀ p, b.Holds p → ¬c.Holds p

instance : Std.Symm Block.Apart := ⟨fun _ _ h p hc hb => h p hb hc⟩

/-- A loader, the directory that it reads and its slots have their blocks. -/
structure PlacedLoader.Housed (l : PlacedLoader) (bs : List Block) : Prop where
  self : ⟨.loader, l.address, 40⟩ ∈ bs
  directory : ⟨.directory, l.directoryAddress, 24⟩ ∈ bs
  width : l.slots.size = Limits.slotSize
  count : l.slots.count = System.slotsFor l.directory.count
  slots : l.slots.count ≠ 0 → ⟨.slots, l.slots.base, l.slots.count * Limits.slotSize⟩ ∈ bs

private theorem PlacedLoader.Housed.mono {l : PlacedLoader} {bs cs : List Block} (h : l.Housed bs)
    (hsub : bs ⊆ cs) : l.Housed cs :=
  ⟨hsub h.self, hsub h.directory, h.width, h.count, fun hne => hsub (h.slots hne)⟩

theorem PlacedLoader.Housed.area {l : PlacedLoader} {bs : List Block} (h : l.Housed bs) :
    (l.slots.count * l.slots.size).toNat = l.slots.count.toNat * l.slots.size.toNat := by
  have hcount := System.toNat_slotsFor l.directory.count
  have hsize : Limits.slotSize.toNat = 0x20000 := rfl
  apply toNat_mul_of_lt
  rw [h.width, h.count, hsize]
  omega

/-- The slots that a loader covers are its block's. -/
private theorem PlacedLoader.Housed.exists_block {l : PlacedLoader} {bs : List Block} {p : Address}
    (h : l.Housed bs) (hp : l.slots.Covers p) :
    ∃ b ∈ bs, b.purpose = .slots ∧ b.start = l.slots.base ∧ b.size = l.slots.count * l.slots.size ∧
      b.Holds p := by
  have hne : l.slots.count ≠ 0 := by
    intro hzero
    rw [Slots.Covers, hzero, UInt64.toNat_zero, Nat.zero_mul] at hp
    exact absurd hp (Nat.not_lt_zero _)
  have hblock := h.slots hne
  rw [← h.width] at hblock
  refine ⟨_, hblock, rfl, rfl, rfl, ?_⟩
  rw [Slots.Covers, ← h.area] at hp
  exact hp

namespace Kernel

/-- The kernel's blocks are those that its arena has handed out, and its directory and its loader
are in them. A loader with the place of the directory reads that directory. -/
structure Held (base : Address) (capacity : UInt64) (k : Kernel) : Prop where
  blocks : Arena.HandedOut base capacity (k.blocks.map Block.grant) k.arena
  directory : ∀ d, k.directory = some d → ⟨.directory, d.address, 24⟩ ∈ k.blocks
  loader : ∀ l, k.loader = some l → l.Housed k.blocks
  bound : ∀ d l, k.directory = some d → k.loader = some l → l.directoryAddress = d.address →
    l.directory = d.toDirectory

namespace Held

variable {base p : Address} {capacity size : UInt64} {k : Kernel} {arena : Arena} {q : Purpose}

private theorem grant (h : k.Held base capacity)
    (hallocate : k.arena.allocate size q.footprint.alignment = (some p, arena)) :
    Arena.HandedOut base capacity ((k.blocks ++ [Block.mk q p size]).map Block.grant) arena := by
  rw [List.map_append]
  exact h.blocks.grant hallocate

private theorem grow {k' : Kernel} (h : k.Held base capacity)
    (hallocate : k.arena.allocate size q.footprint.alignment = (some p, k'.arena))
    (hblocks : k'.blocks = k.blocks ++ [⟨q, p, size⟩]) (hdirectory : k'.directory = k.directory)
    (hloader : k'.loader = k.loader) : k'.Held base capacity := by
  have hsub : k.blocks ⊆ k'.blocks := hblocks ▸ List.subset_append_left _ _
  constructor
  · rw [hblocks]
    exact h.grant hallocate
  · intro d hd
    exact hsub (h.directory d (hdirectory ▸ hd))
  · intro l hl
    exact (h.loader l (hloader ▸ hl)).mono hsub
  · intro d l hd hl
    exact h.bound d l (hdirectory ▸ hd) (hloader ▸ hl)

/-- A new block starts where no other block does, except for one that is empty. -/
theorem start_ne (h : k.Held base capacity)
    (hallocate : k.arena.allocate size q.footprint.alignment = (some p, arena)) {b : Block}
    (hb : b ∈ k.blocks) (hsize : 0 < b.size.toNat) : b.start ≠ p := by
  rintro rfl
  have hordered := (h.grant hallocate).served.ordered
  rw [List.map_append, List.pairwise_append] at hordered
  have hbefore := hordered.2.2 b.grant (List.mem_map_of_mem hb) _ (List.mem_singleton_self _)
  change Arena.offset base b.start + b.size.toNat ≤ Arena.offset base b.start at hbefore
  omega

theorem bounds {base size : UInt64} (h : k.Held (base + Arena.headerSize) (size - Arena.headerSize))
    (hlarge : Arena.headerSize < size) (hbounded : base.toNat + size.toNat < 2 ^ 64) {b : Block}
    (hb : b ∈ k.blocks) :
    base.toNat + 32 ≤ b.start.toNat ∧ b.start.toNat + b.size.toNat ≤ base.toNat + size.toNat := by
  have hheader : Arena.headerSize.toNat = 32 := rfl
  have hle := UInt64.lt_iff_toNat_lt.mp hlarge
  have hcapacity : (size - Arena.headerSize).toNat = size.toNat - 32 :=
    UInt64.toNat_sub_of_le _ _ (UInt64.le_of_lt hlarge)
  have hbottom : (base + Arena.headerSize).toNat = base.toNat + 32 := toNat_add_of_lt (by omega)
  have hsound := h.blocks.served.sound
  rw [Arena.Sound, h.blocks.served.capacity] at hsound
  have hinside := (h.blocks.served.inside b.grant (List.mem_map_of_mem hb)).2
  change
    Arena.offset (base + Arena.headerSize) b.start + b.size.toNat ≤ k.arena.used.toNat at hinside
  change k.arena.used.toNat ≤ (size - Arena.headerSize).toNat at hsound
  have hstart := b.start.toNat_lt
  rw [Arena.offset, UInt64.toNat_sub, hbottom] at hinside
  omega

theorem slots_bounded {base size : UInt64} {l : PlacedLoader}
    (h : k.Held (base + Arena.headerSize) (size - Arena.headerSize))
    (hlarge : Arena.headerSize < size) (hbounded : base.toNat + size.toNat < 2 ^ 64)
    (hl : k.loader = some l) : l.slots.Bounded := by
  have hhoused := h.loader l hl
  have harea := hhoused.area
  by_cases hcount : l.slots.count = 0
  · rw [Slots.Bounded, hcount, UInt64.toNat_zero, Nat.zero_mul, Nat.add_zero]
    exact l.slots.base.toNat_lt
  · have hbounds := (h.bounds hlarge hbounded (hhoused.slots hcount)).2
    rw [← hhoused.width] at hbounds
    rw [Slots.Bounded]
    dsimp only at hbounds
    omega

theorem apart (h : k.Held base capacity) : k.blocks.Pairwise Block.Apart := by
  have hsound := h.blocks.served.sound
  have hordered := List.pairwise_map.mp h.blocks.served.ordered
  apply hordered.imp_of_mem
  intro b c _ hc hbefore p
  have hinside := (h.blocks.served.inside c.grant (List.mem_map_of_mem hc)).2
  have hcapacity := k.arena.capacity.toNat_lt
  rw [Arena.Sound] at hsound
  -- Offsets decide as long as the later block does not wrap, and it ends within the capacity.
  apply hbefore.not_holds
  change Arena.offset base c.grant.place + c.grant.size.toNat ≤ _ at hinside
  change Arena.offset base c.grant.place + c.grant.size.toNat < _
  omega

end Held

end Kernel

namespace System

variable {base : Address} {capacity n : UInt64} {s t : System} {slots : Slots}
  {r : EStateM.Result Panic System Unit}

theorem Starting.held (hr : Starting s r) (h : s.kernel.Held base capacity) :
    (Answer.conclude r).2.kernel.Held base capacity := by
  cases hr with
  | started allocated => exact h.grow (q := .objectCount) allocated rfl rfl rfl
  | refused m allocated => exact ⟨h.blocks.refuse (.inr allocated), h.directory, h.loader, h.bound⟩

theorem held_withDirectory {count : ObjectCount} {arena : Arena} {a : Address} {d : Directory}
    {k : Kernel} (h : k.Held base capacity) (hallocate : k.arena.allocate 24 8 = (some a, arena)) :
    (withDirectory k count arena ⟨d, a⟩).Held base capacity := by
  refine ⟨h.grant (q := .directory) hallocate, ?_, ?_, ?_⟩
  · rintro d' ⟨⟩
    exact List.mem_append_right _ (List.mem_singleton_self _)
  · intro l hl
    exact (h.loader l hl).mono (List.subset_append_left _ _)
  · -- A loader that is there already reads a directory at another place than the new one.
    rintro d' l ⟨⟩ hl hplace
    have hne := h.start_ne (q := .directory) hallocate (h.loader l hl).directory
      (show 0 < (24 : UInt64).toNat by decide)
    exact absurd hplace hne

theorem Registration.held (hr : Registration s r) (h : s.kernel.Held base capacity) :
    (Answer.conclude r).2.kernel.Held base capacity := by
  cases hr with
  | built m objects allocated table => exact held_withDirectory h allocated
  | rejected f m objects allocated => exact held_withDirectory h allocated
  | refused m refuses =>
    exact ⟨h.blocks.refuse refuses, (fun _ hd => nomatch hd), h.loader, (fun _ _ hd => nomatch hd)⟩

private theorem Reservation.held (hr : Reservation n s (.ok slots t))
    (h : s.kernel.Held base capacity) :
    t.kernel.Held base capacity ∧ slots.size = Limits.slotSize ∧ slots.count = n ∧
      (n ≠ 0 → ⟨.slots, slots.base, n * Limits.slotSize⟩ ∈ t.kernel.blocks) := by
  cases hr with
  | unneeded hn => exact ⟨h, rfl, rfl, fun hne => absurd hn hne⟩
  | reserved hn allocated =>
    refine ⟨h.grow (q := .slots) allocated rfl rfl rfl, rfl, rfl, ?_⟩
    intro _
    exact List.mem_append_right _ (List.mem_singleton_self _)

theorem Equipment.held (hr : Equipment s r) (h : s.kernel.Held base capacity) :
    (Answer.conclude r).2.kernel.Held base capacity := by
  cases hr with
  | unneeded directory => exact h
  | cramped directory slots =>
    cases slots with
    | refused m hn allocated =>
      exact ⟨h.blocks.refuse (.inr allocated), h.directory, h.loader, h.bound⟩
  | refused m directory reserved refuses =>
    obtain ⟨ht, -⟩ := reserved.held h
    exact ⟨ht.blocks.refuse refuses, ht.directory, (fun _ hl => nomatch hl),
      (fun _ _ _ hl => nomatch hl)⟩
  | @built d slots t a arena count m directory reserved objects allocated =>
    obtain ⟨ht, hwidth, hcount, harea⟩ := reserved.held h
    -- Reserving slots adds a block and leaves the directory as it was.
    rw [← reserved.same.1] at directory
    refine ⟨ht.grant (q := .loader) allocated, ?_, ?_, ?_⟩
    · intro d' hd'
      exact List.mem_append_left _ (ht.directory d' hd')
    · rintro l ⟨⟩
      constructor
      · exact List.mem_append_right _ (List.mem_singleton_self _)
      · exact List.mem_append_left _ (ht.directory d directory)
      · exact hwidth
      · exact hcount
      · intro hne
        change slots.count ≠ 0 at hne
        change Block.mk .slots slots.base (slots.count * Limits.slotSize) ∈ _
        rw [hcount] at hne ⊢
        exact List.mem_append_left _ (harea hne)
    · rintro d' l hd' ⟨⟩ -
      obtain rfl := Option.some.inj (directory.symm.trans hd')
      rfl

/-- What a kernel holds is kept through every run. -/
theorem kept_held (base : Address) (capacity : UInt64) : Kept (Kernel.Held base capacity) where
  objects := Starting.held
  directory := Registration.held
  loader := Equipment.held
  initialized _ h := ⟨h.blocks, h.directory, h.loader, h.bound⟩
  info _ _ h := ⟨h.blocks, h.directory, h.loader, h.bound⟩

theorem Reservation.prefix_blocks (hr : Reservation n s (.ok slots t)) :
    s.kernel.blocks <+: t.kernel.blocks := by
  cases hr with
  | unneeded hn => exact List.prefix_refl _
  | reserved hn allocated => exact List.prefix_append _ _

/-- No block is ever taken off the list. -/
theorem kept_blocks (bs : List Block) : Kept fun k => bs <+: k.blocks where
  objects hr h := by
    cases hr with
    | started allocated => exact h.trans (List.prefix_append _ _)
    | refused m allocated => exact h
  directory hr h := by
    cases hr with
    | built m objects allocated table => exact h.trans (List.prefix_append _ _)
    | rejected f m objects allocated => exact h.trans (List.prefix_append _ _)
    | refused m refuses => exact h
  loader hr h := by
    cases hr with
    | unneeded directory => exact h
    | cramped directory slots =>
      cases slots with
      | refused m hn allocated => exact h
    | refused m directory reserved refuses => exact h.trans reserved.prefix_blocks
    | built m directory reserved objects allocated =>
      exact (h.trans reserved.prefix_blocks).trans (List.prefix_append _ _)
  initialized _ h := h
  info _ _ h := h

private theorem held_unbooted (base : Address) (capacity : UInt64) (info : BootRecord)
    (platform : Option Platform) :
    (Kernel.unbooted (.fresh base capacity) info platform).Held base capacity :=
  ⟨.fresh base capacity, (fun _ hd => nomatch hd), (fun _ hl => nomatch hl),
    (fun _ _ hd => nomatch hd)⟩

theorem held_placed {arena₁ arena₂ : Arena} {i place : Address} (info : BootRecord)
    (platform : Option Platform)
    (hinfo : (Arena.fresh base capacity).allocate 24 8 = (some i, arena₁))
    (hkernel : arena₁.allocate 56 8 = (some place, arena₂)) :
    (Kernel.placed arena₂ info platform i place).Held base capacity := by
  have hblocks := ((Arena.HandedOut.fresh base capacity).grant hinfo).grant hkernel
  exact ⟨hblocks, (fun _ hd => nomatch hd), (fun _ hl => nomatch hl), (fun _ _ hd => nomatch hd)⟩

theorem Launched.held {size : UInt64} (h : Launched ⟨some base, size⟩ s) :
    Arena.headerSize < size ∧
      s.kernel.Held (base + Arena.headerSize) (size - Arena.headerSize) := by
  cases h with
  | bare info platform m region =>
    obtain ⟨hlarge, rfl⟩ := Arena.eq_fresh_of_ofRegion? region
    exact ⟨hlarge, held_unbooted _ _ info platform⟩
  | placed info platform m region first second =>
    obtain ⟨hlarge, rfl⟩ := Arena.eq_fresh_of_ofRegion? region
    exact ⟨hlarge, held_placed info platform first second⟩
  | @started info platform m t place k start =>
    obtain ⟨arena, arena₁, arena₂, i, hregion, hinfo, hkernel, hboot⟩ :=
      Kernel.exists_of_start start
    obtain ⟨hlarge, rfl⟩ := Arena.eq_fresh_of_ofRegion? hregion
    -- A whole start is a boot of a kernel that holds two blocks, and a boot is a step like others.
    have hbooting := booting ⟨Kernel.placed arena₂ info platform i place,
      { m with memory := m.memory.writeBytes i info.content }⟩
    rw [hboot] at hbooting
    exact ⟨hlarge, (kept_held _ _).boot hbooting (held_placed info platform hinfo hkernel)⟩

end System

/-- What asks the loader in use for apps. -/
inductive Event.Loads : Event → Prop
  | all : Loads (.act .loadAll)
  | request (q : LoadRequest) : Loads (.load q)

namespace System

variable {base size : UInt64} {s : System} {e : Event} {p : Address}

private theorem read_load (q : LoadRequest)
    (hp : ∀ l, s.kernel.loader = some l → l.slots.Bounded ∧ ¬l.slots.Covers p) :
    (s.load q).machine.memory.read p = s.machine.memory.read p := by
  rw [load]
  cases hloader : s.kernel.loader with
  | none => rfl
  | some l => exact Loader.read_perform (hp l hloader).1 (hp l hloader).2 s.machine q

/-- Loads change nothing outside the slots of the loader in use. -/
theorem read_handle_of_loads (he : e.Loads)
    (hp : ∀ l, s.kernel.loader = some l → l.slots.Bounded ∧ ¬l.slots.Covers p) :
    (s.handle e).machine.memory.read p = s.machine.memory.read p := by
  cases he with
  | request q => exact read_load q hp
  | all =>
    rw [handle]
    cases hready : s.kernel.isReady .loadAll with
    | false => rw [perform_of_not_ready hready]
    | true =>
      rw [perform_loadAll hready, memory_loadAll]
      exact read_load .all hp

private theorem exists_block_of_read_ne
    (h : s.kernel.Held (base + Arena.headerSize) (size - Arena.headerSize))
    (hlarge : Arena.headerSize < size) (hbounded : base.toNat + size.toNat < 2 ^ 64) (he : e.Loads)
    (hp : (s.handle e).machine.memory.read p ≠ s.machine.memory.read p) :
    ∃ l, s.kernel.loader = some l ∧ ∃ b ∈ s.kernel.blocks, b.purpose = .slots ∧
      b.start = l.slots.base ∧ b.size = l.slots.count * l.slots.size ∧ b.Holds p := by
  by_contra hnone
  apply hp
  apply read_handle_of_loads he
  intro l hl
  refine ⟨h.slots_bounded hlarge hbounded hl, ?_⟩
  intro hcovers
  exact hnone ⟨l, hl, (h.loader l hl).exists_block hcovers⟩

/-- Whatever a kernel is asked for in whatever order, its blocks are all that the arena has handed
out. They lie in the region behind the header of the arena, no two have a place in common, and none
is ever taken back. The directory, the loader and the loader's slots are among them. A load changes
bytes of these slots only, and so none of any other block. -/
theorem loads_keep_to_slots (hbounded : base.toNat + size.toNat < 2 ^ 64)
    (hs : Launched ⟨some base, size⟩ s) (es : List Event) :
    let t := s.run es
    Arena.HandedOut (base + Arena.headerSize) (size - Arena.headerSize)
      (t.kernel.blocks.map Block.grant) t.kernel.arena ∧
    (∀ b ∈ t.kernel.blocks, base.toNat + 32 ≤ b.start.toNat ∧
      b.start.toNat + b.size.toNat ≤ base.toNat + size.toNat) ∧
    t.kernel.blocks.Pairwise Block.Apart ∧
    (∀ e, t.kernel.blocks <+: (t.handle e).kernel.blocks) ∧
    (∀ d, t.kernel.directory = some d → ⟨.directory, d.address, 24⟩ ∈ t.kernel.blocks) ∧
    (∀ l, t.kernel.loader = some l → l.Housed t.kernel.blocks) ∧
    ∀ e, e.Loads →
      (∀ p, (t.handle e).machine.memory.read p ≠ t.machine.memory.read p →
        ∃ l, t.kernel.loader = some l ∧ ∃ b ∈ t.kernel.blocks, b.purpose = .slots ∧
          b.start = l.slots.base ∧ b.size = l.slots.count * l.slots.size ∧ b.Holds p) ∧
      ∀ b ∈ t.kernel.blocks, b.purpose ≠ .slots → ∀ p, b.Holds p →
        (t.handle e).machine.memory.read p = t.machine.memory.read p := by
  intro t
  obtain ⟨hlarge, hheld⟩ := hs.held
  have ht : t.kernel.Held (base + Arena.headerSize) (size - Arena.headerSize) :=
    (kept_held _ _).run es s hheld
  refine ⟨ht.blocks, ?_, ht.apart, ?_, ht.directory, ht.loader, ?_⟩
  · intro b hb
    exact ht.bounds hlarge hbounded hb
  · intro e
    exact (kept_blocks t.kernel.blocks).handle e t (List.prefix_refl _)
  · intro e he
    have hchange (p : Address) := exists_block_of_read_ne (p := p) ht hlarge hbounded he
    refine ⟨hchange, ?_⟩
    -- A byte that changed is in a block of slots, so no other block can hold it too.
    intro b hb hpurpose p hp
    by_contra hread
    obtain ⟨l, -, c, hc, hcpurpose, -, -, hcp⟩ := hchange p hread
    have hne : b ≠ c := by
      rintro rfl
      exact hpurpose hcpurpose
    exact ht.apart.forall hb hc hne p hp hcp

/-- A kernel with one app in a region that is full after its boot, and then without a directory. -/
theorem loads_keep_to_one_slot :
    let m := Memory.zeroed.writeBytes 0x100000
      ([1, 0x200000, 0x200003].flatMap LittleEndian.encode)
    let s : System := ⟨.unbooted (.fresh 0x1020 0x21008)
      ⟨Limits.bootMagic, Limits.bootVersion, some 0x100000, 0⟩ none, .ofMemory m⟩
    let t := s.run [.act .boot, .act .buildDirectory]
    t.kernel.blocks.map (fun b => (b.purpose, b.start, b.size)) =
      [(.objectCount, 0x1020, 24), (.directory, 0x1038, 24), (.slots, 0x2000, 0x20000),
        (.loader, 0x22000, 40)] ∧
    ∀ e, e.Loads → ∀ p, (t.handle e).machine.memory.read p ≠ t.machine.memory.read p →
      0x2000 ≤ p.toNat ∧ p.toNat < 0x22000 := by
  intro m s t
  have hblocks : t.kernel.blocks.map (fun b => (b.purpose, b.start, b.size)) =
      [(.objectCount, 0x1020, 24), (.directory, 0x1038, 24), (.slots, 0x2000, 0x20000),
        (.loader, 0x22000, 40)] := by decide +kernel
  have hs : Launched ⟨some 0x1000, 0x21028⟩ s := .bare _ _ _ rfl
  obtain ⟨-, -, -, -, -, -, hloads⟩ :=
    loads_keep_to_slots (by decide) hs [.act .boot, .act .buildDirectory]
  refine ⟨hblocks, fun e he p hp => ?_⟩
  obtain ⟨l, -, b, hb, hpurpose, -, -, hin⟩ := (hloads e he).1 p hp
  have hmem := List.mem_map_of_mem (f := fun b => (b.purpose, b.start, b.size)) hb
  rw [hblocks] at hmem
  have hplace : b.start = 0x2000 ∧ b.size = 0x20000 := by simpa [hpurpose] using hmem
  rw [Block.Holds, hplace.1, hplace.2, Memory.inWindow_iff (by decide)] at hin
  exact hin

end System

end EmbeddedApps
