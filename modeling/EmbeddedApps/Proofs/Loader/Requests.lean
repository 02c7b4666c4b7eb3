import EmbeddedApps.Proofs.Directory
import EmbeddedApps.Proofs.Loader
import Mathlib

/-!
# Loading in any order

Apps may be loaded one by one or all at once, in any order and repeatedly. Where no slot holds
anything that the loader reads, the outcome depends only on which apps were loaded at all.
-/

namespace EmbeddedApps

def Extent.Holds (e : Extent) (p : Address) : Prop := Memory.InWindow e.start e.size.toNat p

theorem Extent.bytes_congr {e : Extent} {m m' : Memory}
    (h : ∀ p, e.Holds p → m.read p = m'.read p) : e.bytes m = e.bytes m' :=
  Memory.readBytes_congr h

private theorem Extent.read_eq_of_bytes_eq {e : Extent} {m m' : Memory} (h : e.bytes m = e.bytes m')
    {p : Address} (hp : e.Holds p) : m.read p = m'.read p := by
  have hplace : e.start + (p - e.start).toNat.toUInt64 = p := by
    rw [Nat.toUInt64_eq, UInt64.ofNat_toNat, UInt64.add_comm, UInt64.sub_add_cancel]
  have hread (m : Memory) : (e.bytes m)[(p - e.start).toNat]? = some (m.read p) := by
    rw [Extent.bytes, List.getElem?_eq_getElem (by rwa [Memory.length_readBytes]),
      Memory.getElem_readBytes, hplace]
  exact Option.some.inj ((hread m).symm.trans (h ▸ hread m'))

namespace Slots

variable {s : Slots} {i j : Int64} {e e' : Extent} {p : Address}

def Covers (s : Slots) (p : Address) : Prop :=
  Memory.InWindow s.base (s.count.toNat * s.size.toNat) p

/-- The row of slots ends before the last address. -/
def Bounded (s : Slots) : Prop := s.base.toNat + s.count.toNat * s.size.toNat < 2 ^ 64

theorem exists_of_slot? (h : s.slot? i = some e) :
    ∃ k < s.count.toNat, k < 2 ^ 63 ∧ i = Int64.ofNat k ∧ e = s.extent k := by
  have hin : ¬(i < 0 || i.toUInt64 ≥ s.count) = true := by
    intro hout
    rw [slot?, if_pos hout] at h
    cases h
  obtain ⟨k, hk, hword, rfl⟩ := exists_of_not_outside hin
  rw [slot?_ofNat s hword, if_pos hk, Option.some.injEq] at h
  exact ⟨k, hk, hword, rfl, h.symm⟩

theorem slot?_eq_none (h : i.toInt < 0 ∨ s.count.toNat ≤ i.toInt) : s.slot? i = none := by
  by_contra hsome
  obtain ⟨e, he⟩ := Option.ne_none_iff_exists'.mp hsome
  obtain ⟨k, hk, hword, rfl, -⟩ := exists_of_slot? he
  rw [Int64.toInt_ofNat_of_lt hword] at h
  omega

theorem start_of_slot? (hs : s.Bounded) (h : s.slot? i = some e) :
    e.size = s.size ∧ e.start.toNat = s.base.toNat + i.toInt.toNat * s.size.toNat ∧
      e.start.toNat + s.size.toNat ≤ s.base.toNat + s.count.toNat * s.size.toNat := by
  obtain ⟨k, hk, hword, rfl, rfl⟩ := exists_of_slot? h
  rw [toNat_toInt_ofNat hword]
  exact ⟨size_extent s k, toNat_start_extent hk hs⟩

private theorem holds_iff_of_slot? (hs : s.Bounded) (h : s.slot? i = some e) :
    e.Holds p ↔ s.base.toNat + i.toInt.toNat * s.size.toNat ≤ p.toNat ∧
      p.toNat < s.base.toNat + (i.toInt.toNat + 1) * s.size.toNat := by
  obtain ⟨hsize, hstart, hend⟩ := start_of_slot? hs h
  rw [Bounded] at hs
  rw [Extent.Holds, hsize, Memory.inWindow_iff (by omega), hstart, Nat.succ_mul, Nat.add_assoc]

private theorem covers_of_slot? (hs : s.Bounded) (h : s.slot? i = some e) (hp : e.Holds p) :
    s.Covers p := by
  obtain ⟨hsize, hstart, hend⟩ := start_of_slot? hs h
  rw [Bounded] at hs
  rw [Extent.Holds, hsize, Memory.inWindow_iff (by omega)] at hp
  rw [Covers, Memory.inWindow_iff (by omega)]
  omega

private theorem not_holds_of_ne (hs : s.Bounded) (h : s.slot? i = some e) (h' : s.slot? j = some e')
    (hij : i ≠ j) (hp : e.Holds p) : ¬e'.Holds p := by
  intro hp'
  rw [holds_iff_of_slot? hs h] at hp
  rw [holds_iff_of_slot? hs h'] at hp'
  obtain ⟨k, -, hk, rfl, -⟩ := exists_of_slot? h
  obtain ⟨l, -, hl, rfl, -⟩ := exists_of_slot? h'
  rw [toNat_toInt_ofNat hk] at hp
  rw [toNat_toInt_ofNat hl] at hp'
  have hne : k ≠ l := fun hkl => hij (by rw [hkl])
  -- The slot with the smaller number ends at or before the start of the other.
  rcases Nat.lt_or_gt_of_ne hne with hlt | hgt
  · have hle : (k + 1) * s.size.toNat ≤ l * s.size.toNat := Nat.mul_le_mul_right _ hlt
    omega
  · have hle : (l + 1) * s.size.toNat ≤ k * s.size.toNat := Nat.mul_le_mul_right _ hgt
    omega

end Slots

def Boundaries.Holds (b : Boundaries) (p : Address) : Prop :=
  Memory.InWindow b.address (8 * (b.count.toNat + 1)) p

theorem Boundaries.same_of_holds {b : Boundaries} {m m' : Memory}
    (h : ∀ p, b.Holds p → m.read p = m'.read p) : b.Same m m' := by
  intro i hi
  have hword := b.count.toNat_lt
  have hplace : Limits.entrySize * i.toUInt64 = (8 * i).toUInt64 := by
    rw [Nat.toUInt64_eq, Nat.toUInt64_eq, UInt64.ofNat_mul]
    rfl
  rw [Boundaries.at, Boundaries.at, Memory.readWord, Memory.readWord, hplace]
  have hall := Memory.readBytes_congr h
  rw [← Memory.take_drop_readBytes m b.address (show 8 * i + 8 ≤ 8 * (b.count.toNat + 1) by omega),
    ← Memory.take_drop_readBytes m' b.address (show 8 * i + 8 ≤ 8 * (b.count.toNat + 1) by omega),
    hall]

namespace Loader

/-- The loader has a built directory, and neither its boundaries nor its apps reach into the
slots. -/
structure Apart (l : Loader) (b : Boundaries) (m : Memory) : Prop where
  directory : l.directory = ⟨some b⟩
  bounded : l.slots.Bounded
  table : ∀ p, b.Holds p → ¬l.slots.Covers p
  apps : ∀ e ∈ l.directory.ranges m, ∀ p, e.Holds p → ¬l.slots.Covers p

variable {l : Loader} {b : Boundaries} {m m' : Memory} {i : Int64}

private theorem Apart.not_covers_of_rangeOf? (h : l.Apart b m) {app : Extent} {p : Address}
    (happ : l.directory.rangeOf? m i = some app) (hp : app.Holds p) : ¬l.slots.Covers p := by
  refine h.apps app ?_ p hp
  rw [h.directory] at happ ⊢
  obtain ⟨k, hk, hword, rfl⟩ := Directory.exists_of_rangeOf? happ
  rw [Directory.rangeOf?_of_lt m hk hword, Option.some.injEq] at happ
  rw [Directory.ranges_eq]
  exact List.mem_map.mpr ⟨k, List.mem_range.mpr hk, happ⟩

private theorem Apart.rangeOf?_eq (h : l.Apart b m)
    (hout : ∀ p, ¬l.slots.Covers p → m'.read p = m.read p) (i : Int64) :
    l.directory.rangeOf? m' i = l.directory.rangeOf? m i := by
  rw [h.directory]
  exact Directory.rangeOf?_congr (Boundaries.same_of_holds fun p hp => hout p (h.table p hp)) i

private theorem Apart.bytes_eq (h : l.Apart b m)
    (hout : ∀ p, ¬l.slots.Covers p → m'.read p = m.read p)
    {app : Extent} (happ : l.directory.rangeOf? m i = some app) : app.bytes m' = app.bytes m :=
  Extent.bytes_congr fun p hp => hout p (h.not_covers_of_rangeOf? happ hp)

/-- What a slot holds after its app was loaded. -/
def image (app slot : Extent) (m : Memory) : Bytes :=
  app.bytes m ++ List.replicate (slot.size.toNat - app.size.toNat) 0

/-- Memory `m'` is `m` with the numbered apps in their slots. -/
structure Filled (l : Loader) (m : Memory) (is : List Int64) (m' : Memory) : Prop where
  slot : ∀ i ∈ is, ∃ app slot, l.plan m i = .ok (app, slot) ∧ slot.bytes m' = image app slot m
  outside : ∀ p, (∀ i ∈ is, ∀ slot, l.slots.slot? i = some slot → ¬slot.Holds p) →
    m'.read p = m.read p

theorem Filled.nil (l : Loader) (m : Memory) : l.Filled m [] m :=
  ⟨fun _ hi => absurd hi List.not_mem_nil, fun _ _ => rfl⟩

/-- Neither order nor repetition matters. -/
theorem Filled.congr {is js : List Int64} (h : l.Filled m is m') (hmem : ∀ i, i ∈ is ↔ i ∈ js) :
    l.Filled m js m' :=
  ⟨fun i hi => h.slot i ((hmem i).mpr hi),
    fun p hp => h.outside p fun i hi => hp i ((hmem i).mp hi)⟩

private theorem Filled.outside_slots {is : List Int64} (hl : l.slots.Bounded) (h : l.Filled m is m')
    (p : Address) (hp : ¬l.slots.Covers p) : m'.read p = m.read p :=
  h.outside p fun _ _ _ hslot hin => hp (Slots.covers_of_slot? hl hslot hin)

private theorem transfer_eq_writeBytes {app slot : Extent}
    (hsize : app.size.toNat ≤ slot.size.toNat) (hapart : ∀ p, app.Holds p → ¬slot.Holds p)
    (m : Memory) : transfer m app slot =
      (m.writeBytes slot.start (List.replicate slot.size.toNat 0)).writeBytes slot.start
        (app.bytes m) :=
  transfer_eq_writeAll m hsize hapart

/-- Loading an app leaves its bytes and then zeros in its slot. -/
private theorem bytes_transfer {app slot : Extent} (hsize : app.size.toNat ≤ slot.size.toNat)
    (hapart : ∀ p, app.Holds p → ¬slot.Holds p) (m : Memory) :
    slot.bytes (transfer m app slot) = image app slot m := by
  have hlength : (app.bytes m).length = app.size.toNat := Memory.length_readBytes _ _ _
  rw [transfer_eq_writeBytes hsize hapart, Extent.bytes,
    readBytes_cleared m (hlength.trans_le hsize) slot.size.toNat_lt.le, hlength, image]

/-- Loading an app changes nothing outside its slot, wherever the app lies. -/
theorem read_transfer {app slot : Extent} (hsize : app.size.toNat ≤ slot.size.toNat)
    (m : Memory) {p : Address} (hp : ¬slot.Holds p) :
    (transfer m app slot).read p = m.read p := by
  have hword := slot.size.toNat_lt
  have hin : ¬Memory.InWindow slot.start app.size.toNat p := fun hin =>
    hp (lt_of_lt_of_le hin hsize)
  rw [transfer, Memory.read_copy_of_not_inWindow _ (by omega) hin, Memory.zero_eq_writeBytes,
    Memory.read_writeBytes_of_not_inWindow _ (by simpa using hword.le)]
  rwa [List.length_replicate]

private theorem Filled.transfer (h : l.Apart b m) {is : List Int64} (hm : l.Filled m is m')
    {app slot : Extent} (hplan : l.plan m i = .ok (app, slot)) :
    l.Filled m (is ++ [i]) (Loader.transfer m' app slot) := by
  obtain ⟨happ, hslot, hsize⟩ := plan_eq_ok_iff.mp hplan
  have hapart : ∀ p, app.Holds p → ¬slot.Holds p := fun p hp hp' =>
    h.not_covers_of_rangeOf? happ hp (Slots.covers_of_slot? h.bounded hslot hp')
  constructor
  · intro j hj
    -- Slot `i` is filled anew from an app that no load has touched. Other slots are not written.
    by_cases hji : j = i
    · subst hji
      refine ⟨app, slot, hplan, ?_⟩
      rw [bytes_transfer hsize hapart, image, image, h.bytes_eq (hm.outside_slots h.bounded) happ]
    · have hold : j ∈ is := by simpa [hji] using hj
      obtain ⟨app', slot', hplan', hbytes⟩ := hm.slot j hold
      refine ⟨app', slot', hplan', ?_⟩
      have hslot' := (plan_eq_ok_iff.mp hplan').2.1
      rw [← hbytes]
      exact Extent.bytes_congr fun p hp =>
        read_transfer hsize m' (Slots.not_holds_of_ne h.bounded hslot' hslot hji hp)
  · intro p hp
    rw [read_transfer hsize m' (hp i (by simp) slot hslot)]
    exact hm.outside p fun j hj => hp j (List.mem_append_left _ hj)

private theorem exists_of_load {s s' : Machine} {e : Extent} (h : l.load i s = (.ok e, s')) :
    ∃ app slot, l.plan s.memory i = .ok (app, slot) ∧ e = occupied slot app.size ∧
      s'.memory = Loader.transfer s.memory app slot := by
  rw [load.eq_def] at h
  cases hplan : l.plan s.memory i with
  | error f =>
    rw [hplan] at h
    cases h
  | ok c =>
    rw [hplan] at h
    cases h
    exact ⟨c.1, c.2, rfl, rfl, rfl⟩

private theorem memory_of_load_error {s s' : Machine} {f : LoadFault}
    (h : l.load i s = (.error f, s')) :
    s'.memory = s.memory := by
  rw [load.eq_def] at h
  cases hplan : l.plan s.memory i with
  | error f =>
    rw [hplan] at h
    cases h
    rfl
  | ok c =>
    rw [hplan] at h
    cases h

section Frame

variable {p : Address}

private theorem read_load (hl : l.slots.Bounded) (hp : ¬l.slots.Covers p) (i : Int64)
    (s : Machine) :
    (l.load i s).2.memory.read p = s.memory.read p := by
  cases h : l.load i s with
  | mk answer t =>
  cases answer with
  | error f => rw [memory_of_load_error h]
  | ok e =>
    obtain ⟨app, slot, hplan, -, hmemory⟩ := exists_of_load h
    obtain ⟨-, hslot, hsize⟩ := plan_eq_ok_iff.mp hplan
    rw [hmemory]
    exact read_transfer hsize _ fun hin => hp (Slots.covers_of_slot? hl hslot hin)

private theorem read_loadFrom (hl : l.slots.Bounded) (hp : ¬l.slots.Covers p) (n : Nat) (i : UInt64)
    (s : Machine) : (l.loadFrom i n s).2.memory.read p = s.memory.read p := by
  induction n generalizing i s with
  | zero => rfl
  | succ n ih =>
    have hfirst := read_load hl hp i.toInt64 s
    rw [loadFrom]
    cases h : l.load i.toInt64 s with
    | mk answer t =>
    rw [h] at hfirst
    cases answer with
    | error f => exact hfirst
    | ok e => exact (ih (i + 1) t).trans hfirst

end Frame

/-- What can be loaded stays the same while slots are filled. -/
theorem Filled.plan_eq (h : l.Apart b m) {is : List Int64} (hm : l.Filled m is m') (i : Int64) :
    l.plan m' i = l.plan m i := by
  rw [plan, plan, h.rangeOf?_eq (hm.outside_slots h.bounded)]

theorem Filled.load (h : l.Apart b m) {is : List Int64} {s s' : Machine} {e : Extent}
    (hm : l.Filled m is s.memory) (hload : l.load i s = (.ok e, s')) :
    l.Filled m (is ++ [i]) s'.memory := by
  obtain ⟨app, slot, hplan, -, hmemory⟩ := exists_of_load hload
  rw [hmemory]
  rw [hm.plan_eq h] at hplan
  exact hm.transfer h hplan

def firstApps (n : Nat) : List Int64 := (List.range n).map Int64.ofNat

theorem Filled.loadFrom (h : l.Apart b m) {is : List Int64} (n i : Nat) (hword : i + n < 2 ^ 64)
    {s s' : Machine} {run : LoadRun} (hm : l.Filled m (is ++ firstApps i) s.memory)
    (hrun : l.loadFrom i.toUInt64 n s = (run, s')) :
    l.Filled m (is ++ firstApps run.loaded.toNat) s'.memory := by
  -- On the apps that are left. Those before `i` are in their slots already.
  induction n generalizing i s with
  | zero =>
    rw [Loader.loadFrom] at hrun
    cases hrun
    rwa [toNat_toUInt64_of_lt (by omega)]
  | succ n ih =>
    have hindex : i.toUInt64.toInt64 = Int64.ofNat i := by simp
    rw [Loader.loadFrom, hindex] at hrun
    cases hload : l.load (Int64.ofNat i) s with
    | mk answer t =>
    rw [hload] at hrun
    cases answer with
    | error f =>
      cases hrun
      rwa [toNat_toUInt64_of_lt (by omega), memory_of_load_error hload]
    | ok e =>
      dsimp only at hrun
      rw [toUInt64_add_one] at hrun
      refine ih (i + 1) (by omega) ?_ hrun
      have hstep := hm.load h hload
      rwa [List.append_assoc, ← List.map_singleton, firstApps, ← List.map_append,
        ← List.range_succ] at hstep

end Loader

inductive LoadRequest
  | one (i : Int64)
  | all

namespace Loader

def perform (l : Loader) (s : Machine) : LoadRequest → List Int64 × Machine
  | .one i =>
    match l.load i s with
    | (.ok _, s) => ([i], s)
    | (.error _, s) => ([], s)
  | .all =>
    let (run, s) := l.loadAll s
    (firstApps run.loaded.toNat, s)

def performAll (l : Loader) (s : Machine) : List LoadRequest → List Int64 × Machine
  | [] => ([], s)
  | q :: qs =>
    let (is, s) := l.perform s q
    let (js, s) := l.performAll s qs
    (is ++ js, s)

variable {l : Loader} {b : Boundaries} {m : Memory}

theorem read_perform (hl : l.slots.Bounded) {p : Address} (hp : ¬l.slots.Covers p) (s : Machine)
    (q : LoadRequest) : (l.perform s q).2.memory.read p = s.memory.read p := by
  cases q with
  | one i =>
    have hload := read_load hl hp i s
    rw [perform]
    cases h : l.load i s with
    | mk answer t =>
    rw [h] at hload
    cases answer with
    | error f => exact hload
    | ok e => exact hload
  | all => exact read_loadFrom hl hp l.directory.count.toNat 0 s

private theorem Filled.perform (h : l.Apart b m) {is : List Int64} {s : Machine}
    (hm : l.Filled m is s.memory) (q : LoadRequest) :
    l.Filled m (is ++ (l.perform s q).1) (l.perform s q).2.memory := by
  cases q with
  | one i =>
    rw [Loader.perform]
    cases hload : l.load i s with
    | mk answer t =>
    cases answer with
    | error f =>
      rwa [List.append_nil, memory_of_load_error hload]
    | ok e => exact hm.load h hload
  | all =>
    have hcount := l.directory.count.toNat_lt
    rw [Loader.perform, loadAll]
    cases hrun : l.loadFrom 0 l.directory.count.toNat s with
    | mk run t =>
    refine Filled.loadFrom h _ 0 (by omega) ?_ hrun
    simpa [firstApps] using hm

private theorem Filled.performAll (h : l.Apart b m) {is : List Int64} {s : Machine}
    (hm : l.Filled m is s.memory) (qs : List LoadRequest) :
    l.Filled m (is ++ (l.performAll s qs).1) (l.performAll s qs).2.memory := by
  induction qs generalizing is s with
  | nil => rwa [Loader.performAll, List.append_nil]
  | cons q qs ih =>
    rw [Loader.performAll, ← List.append_assoc]
    exact ih (hm.perform h q)

private theorem Filled.read_eq {is : List Int64} {m' m'' : Memory} (h : l.Filled m is m')
    (h' : l.Filled m is m'') (p : Address) : m'.read p = m''.read p := by
  -- Within a filled slot both hold what the slot is filled with, elsewhere both are as `m`.
  by_cases hin : ∃ i ∈ is, ∃ slot, l.slots.slot? i = some slot ∧ slot.Holds p
  · obtain ⟨i, hi, slot, hslot, hp⟩ := hin
    obtain ⟨app, slot₁, hplan, hbytes⟩ := h.slot i hi
    obtain ⟨app', slot₂, hplan', hbytes'⟩ := h'.slot i hi
    obtain ⟨rfl, rfl⟩ := Prod.mk.inj (Except.ok.inj (hplan.symm.trans hplan'))
    obtain rfl := Option.some.inj ((plan_eq_ok_iff.mp hplan).2.1.symm.trans hslot)
    exact Extent.read_eq_of_bytes_eq (hbytes.trans hbytes'.symm) hp
  · have hout : ∀ i ∈ is, ∀ slot, l.slots.slot? i = some slot → ¬slot.Holds p :=
      fun i hi slot hslot hp => hin ⟨i, hi, slot, hslot, hp⟩
    rw [h.outside p hout, h'.outside p hout]

/-- The extent is as long as app `i` and lies at the start of slot `i`. -/
def Reports (l : Loader) (m : Memory) (i : Int64) (e : Extent) : Prop :=
  ∃ app slot, l.directory.rangeOf? m i = some app ∧ l.slots.slot? i = some slot ∧
    e.start.toNat = l.slots.base.toNat + i.toInt.toNat * l.slots.size.toNat ∧
    e.stop.toNat = e.start.toNat + app.size.toNat ∧
    slot.start = e.start ∧ e.stop ≤ slot.stop

private theorem Filled.reports (h : l.Apart b m) {is : List Int64} {s s' : Machine} {i : Int64}
    {e : Extent} (hm : l.Filled m is s.memory) (hload : l.load i s = (.ok e, s')) :
    l.Reports m i e := by
  obtain ⟨app, slot, hplan, rfl, -⟩ := exists_of_load hload
  rw [hm.plan_eq h] at hplan
  obtain ⟨happ, hslot, hfits⟩ := plan_eq_ok_iff.mp hplan
  obtain ⟨hsize, hstart, hend⟩ := Slots.start_of_slot? h.bounded hslot
  have hbounded := h.bounded
  rw [Slots.Bounded] at hbounded
  rw [hsize] at hfits
  have hstop : slot.stop.toNat = slot.start.toNat + l.slots.size.toNat := by
    rw [← toNat_add_of_lt (by omega), ← hsize, Extent.size, UInt64.add_comm, UInt64.sub_add_cancel]
  have htarget : (occupied slot app.size).stop.toNat = slot.start.toNat + app.size.toNat :=
    toNat_add_of_lt (by omega)
  refine ⟨app, slot, happ, hslot, hstart, htarget, rfl, ?_⟩
  rw [UInt64.le_iff_toNat_le, htarget]
  omega

/-- Whatever is requested, each app that was loaded is in its slot, and nothing else has changed.
Other requests leave the same memory if they load the same apps, in whatever order and however
often. The next app to be loaded is reported where its bytes are. -/
theorem performAll_order_independent {s : Machine} (h : l.Apart b s.memory)
    (qs : List LoadRequest) :
    l.Filled s.memory (l.performAll s qs).1 (l.performAll s qs).2.memory ∧
      (∀ rs, (∀ i, i ∈ (l.performAll s qs).1 ↔ i ∈ (l.performAll s rs).1) →
        ∀ p, (l.performAll s qs).2.memory.read p = (l.performAll s rs).2.memory.read p) ∧
      ∀ i e t, l.load i (l.performAll s qs).2 = (.ok e, t) → l.Reports s.memory i e := by
  have hfilled (qs : List LoadRequest) := (Filled.nil l s.memory).performAll h qs
  exact ⟨hfilled qs, fun rs hmem => ((hfilled qs).congr hmem).read_eq (hfilled rs),
    fun i e t hload => (hfilled qs).reports h hload⟩

/-- Two apps of three bytes and one byte, loaded in two different ways into slots of four. -/
theorem performAll_two_apps :
    let m := (Memory.zeroed.writeBytes 0x1000
      ([0x2000, 0x2003, 0x2004].flatMap LittleEndian.encode)).writeBytes 0x2000 [1, 2, 3, 4]
    let s := Machine.ofMemory m
    let l : Loader := ⟨⟨some ⟨0x1000, 2⟩⟩, ⟨0x8000, 4, 2⟩, 0⟩
    (l.performAll s [.one 1, .one 5, .all]).1 = [1, 0, 1] ∧
      (∀ p, (l.performAll s [.one 1, .one 5, .all]).2.memory.read p =
        (l.performAll s [.one 0, .one 1]).2.memory.read p) ∧
      ∃ slot, l.slots.slot? 1 = some slot ∧
        slot.bytes (l.performAll s [.one 1, .one 5, .all]).2.memory = [4, 0, 0, 0] := by
  intro m s l
  have hranges : l.directory.ranges s.memory = [⟨0x2000, 0x2003⟩, ⟨0x2003, 0x2004⟩] := by
    decide +kernel
  have hbounded : l.slots.Bounded := by
    rw [Slots.Bounded]
    decide
  have hcovers (p : Address) : l.slots.Covers p ↔ 0x8000 ≤ p.toNat ∧ p.toNat < 0x8000 + 8 :=
    Memory.inWindow_iff (by decide)
  have happs : ∀ e ∈ l.directory.ranges s.memory, ∀ p, e.Holds p → ¬l.slots.Covers p := by
    intro e he p hp
    rw [hranges] at he
    rw [hcovers]
    rcases List.mem_pair.mp he with rfl | rfl
    · have hin := (Memory.inWindow_iff (by decide)).mp hp
      have hlow : p.toNat < 0x2000 + 3 := hin.2
      omega
    · have hin := (Memory.inWindow_iff (by decide)).mp hp
      have hlow : p.toNat < 0x2003 + 1 := hin.2
      omega
  have htable : ∀ p, (Boundaries.mk 0x1000 2).Holds p → ¬l.slots.Covers p := by
    intro p hp
    have hin := (Memory.inWindow_iff (by decide)).mp hp
    have hlow : p.toNat < 0x1000 + 24 := hin.2
    rw [hcovers]
    omega
  have hloaded : (l.performAll s [.one 1, .one 5, .all]).1 = [1, 0, 1] := by decide +kernel
  have hother : (l.performAll s [.one 0, .one 1]).1 = [0, 1] := by decide +kernel
  have hapart : l.Apart ⟨0x1000, 2⟩ s.memory := ⟨rfl, hbounded, htable, happs⟩
  obtain ⟨hfilled, hsame, -⟩ := performAll_order_independent hapart [.one 1, .one 5, .all]
  refine ⟨hloaded, hsame _ fun i => ?_, ?_⟩
  · rw [hloaded, hother]
    simp [or_left_comm]
  · obtain ⟨app, slot, hplan, hbytes⟩ := hfilled.slot 1 (by rw [hloaded]; simp)
    obtain ⟨happ, hslot, -⟩ := plan_eq_ok_iff.mp hplan
    have hplace : l.directory.rangeOf? s.memory 1 = some ⟨0x2003, 0x2004⟩ := by decide +kernel
    obtain rfl := Option.some.inj (happ.symm.trans hplace)
    have htarget : l.slots.slot? 1 = some ⟨0x8004, 0x8008⟩ := by decide +kernel
    obtain rfl := Option.some.inj (hslot.symm.trans htarget)
    exact ⟨_, hslot, hbytes.trans (by decide +kernel)⟩

end Loader

end EmbeddedApps
