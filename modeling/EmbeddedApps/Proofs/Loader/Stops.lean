import EmbeddedApps.Kernel.Boot
import EmbeddedApps.Proofs.Directory.Attempts
import EmbeddedApps.Proofs.Loader.Requests
import Mathlib

/-!
# Where a run of loads stops

All apps are loaded in order up to the first that has no slot or does not fit into it. Where the
slots hold nothing that the loader reads, the table at the start of the run tells which one this is,
although every load writes to the memory from which the next one reads.
-/

namespace EmbeddedApps

namespace Loader

variable {l : Loader} {b : Boundaries} {m : Memory}

def Admits (l : Loader) (i : Nat) (e : Extent) : Prop :=
  i < l.slots.count.toNat ∧ e.size ≤ l.slots.size

/-- How a run that starts at app `i` ends when it gets as far as app `k`. -/
structure EndsAt (l : Loader) (m : Memory) (n i k : Nat) (r : LoadRun) : Prop where
  loaded : r.loaded = k.toUInt64
  planned : ∀ j, i ≤ j → j < k → ∃ p, l.plan m (Int64.ofNat j) = .ok p
  stopped : if k = n then r.fault = none
    else ∃ f, l.plan m (Int64.ofNat k) = .error f ∧ r.fault = some f

private theorem load_of_plan {i : Int64} {s : Machine} {p : Extent × Extent}
    (h : l.plan s.memory i = .ok p) :
    ∃ e t, l.load i s = (.ok e, t) ∧ t.flushes = s.flushes := by
  rw [load, h]
  exact ⟨_, _, rfl, rfl⟩

private theorem load_of_plan_error {i : Int64} {s : Machine} {f : LoadFault}
    (h : l.plan s.memory i = .error f) :
    l.load i s = (.error f, s.say (.error f.message)) := by
  rw [load, h]

/-- A run gets as far as the first app that cannot be loaded, going by memory as it was before. -/
theorem Filled.exists_endsAt (h : l.Apart b m) {is : List Int64} {s : Machine}
    (hm : l.Filled m is s.memory) (n i : Nat) :
    ∃ k, i ≤ k ∧ k ≤ i + n ∧ l.EndsAt m (i + n) i k (l.loadFrom i.toUInt64 n s).1 ∧
      (l.loadFrom i.toUInt64 n s).2.flushes = s.flushes := by
  -- On the apps that are left. No load changes what can be loaded after it.
  induction n generalizing i is s with
  | zero => exact ⟨i, le_rfl, le_rfl, ⟨rfl, by omega, by simp [Loader.loadFrom]⟩, rfl⟩
  | succ n ih =>
    have hindex : i.toUInt64.toInt64 = Int64.ofNat i := by simp
    have hplan := hm.plan_eq h (Int64.ofNat i)
    rw [Loader.loadFrom, hindex]
    cases hfirst : l.plan m (Int64.ofNat i) with
    | error f =>
      rw [load_of_plan_error (hplan.trans hfirst)]
      refine ⟨i, le_rfl, by omega, ⟨rfl, by omega, ?_⟩, rfl⟩
      rw [if_neg (by omega)]
      exact ⟨f, hfirst, rfl⟩
    | ok p =>
      obtain ⟨e, t, hload, hflushes⟩ := load_of_plan (hplan.trans hfirst)
      obtain ⟨k, hik, hkn, hends, hrest⟩ := ih (hm.load h hload) (i + 1)
      rw [hload]
      dsimp only
      rw [toUInt64_add_one]
      have hlast : i + 1 + n = i + (n + 1) := by omega
      refine ⟨k, by omega, by omega, ⟨hends.loaded, ?_, hlast ▸ hends.stopped⟩,
        hrest.trans hflushes⟩
      intro j hij hjk
      rcases Nat.eq_or_lt_of_le hij with rfl | hlt
      · exact ⟨p, hfirst⟩
      · exact hends.planned j hlt hjk

private theorem Apart.of_below (hdirectory : l.directory = ⟨some b⟩) (hbounded : l.slots.Bounded)
    (htable : b.address.toNat + 8 * (b.count.toNat + 1) ≤ l.slots.base.toNat)
    (happs : ∀ e ∈ l.directory.ranges m, e.start.toNat + e.size.toNat ≤ l.slots.base.toNat) :
    l.Apart b m := by
  have hbase := l.slots.base.toNat_lt
  have hout {a p : Address} {n : Nat} (hbelow : a.toNat + n ≤ l.slots.base.toNat)
      (hp : Memory.InWindow a n p) : ¬l.slots.Covers p := by
    rw [Memory.inWindow_iff (by omega)] at hp
    rw [Slots.Bounded] at hbounded
    rw [Slots.Covers, Memory.inWindow_iff (by omega)]
    omega
  exact ⟨hdirectory, hbounded, fun p => hout htable, fun e he p => hout (happs e he)⟩

section Known

variable {i : Nat} {e : Extent}

private theorem exists_plan_iff (hword : i < 2 ^ 63)
    (he : l.directory.rangeOf? m (Int64.ofNat i) = some e) :
    (∃ p, l.plan m (Int64.ofNat i) = .ok p) ↔ l.Admits i e := by
  constructor
  · rintro ⟨⟨app, slot⟩, hplan⟩
    obtain ⟨happ, hslot, hfits⟩ := plan_eq_ok_iff.mp hplan
    obtain rfl := Option.some.inj (he.symm.trans happ)
    rw [Slots.slot?_ofNat _ hword] at hslot
    split at hslot
    · rename_i hcount
      obtain rfl := Option.some.inj hslot
      rw [Slots.size_extent] at hfits
      exact ⟨hcount, UInt64.le_iff_toNat_le.mpr hfits⟩
    · cases hslot
  · rintro ⟨hcount, hfits⟩
    have hslot := Slots.slot?_ofNat l.slots hword
    rw [if_pos hcount] at hslot
    refine ⟨(e, l.slots.extent i), plan_eq_ok_iff.mpr ⟨he, hslot, ?_⟩⟩
    rw [Slots.size_extent]
    exact UInt64.le_iff_toNat_le.mp hfits

private theorem status_of_plan_error {i : Int64} {f : LoadFault}
    (he : l.directory.rangeOf? m i = some e) (h : l.plan m i = .error f) :
    f.status = .loadOverflow := by
  rw [plan, he] at h
  dsimp only at h
  split at h
  · cases h
    rfl
  split at h
  · cases h
    rfl
  · cases h

private theorem EndsAt.status_eq {n k : Nat} {r : LoadRun} (h : l.EndsAt m n i k r) (hkn : k ≤ n)
    (hknown : k < n → ∃ e, l.directory.rangeOf? m (Int64.ofNat k) = some e) :
    r.status = if k = n then .ok else .loadOverflow := by
  have hstopped := h.stopped
  rw [LoadRun.status]
  by_cases hall : k = n
  · rw [if_pos hall] at hstopped ⊢
    rw [hstopped]
  · rw [if_neg hall] at hstopped ⊢
    obtain ⟨f, hplan, hfault⟩ := hstopped
    obtain ⟨e, he⟩ := hknown (by omega)
    rw [hfault]
    exact status_of_plan_error he hplan

private theorem EndsAt.not_admits {n k : Nat} {r : LoadRun} (h : l.EndsAt m n i k r) (hkn : k < n)
    (hword : k < 2 ^ 63) (he : l.directory.rangeOf? m (Int64.ofNat k) = some e) :
    ¬l.Admits k e := by
  intro hadmits
  obtain ⟨p, hplan⟩ := (exists_plan_iff hword he).mpr hadmits
  have hstopped := h.stopped
  rw [if_neg hkn.ne] at hstopped
  obtain ⟨f, herror, -⟩ := hstopped
  rw [hplan] at herror
  cases herror

end Known

end Loader

namespace System

/-- A kernel that loads its apps adds to the run of its loader one flush of the instruction cache,
if there is one, with the memory as the run left it. -/
theorem loadAll_of_platform {s : System} {l : PlacedLoader} (hloader : s.kernel.loader = some l) :
    let r := l.loadAll s.machine
    s.loadAll.1 = r.1.loaded ∧ s.loadAll.2.machine.memory = r.2.memory ∧
      s.loadAll.2.machine.flushes =
        if s.kernel.platform.any (·.hasInstructionCache) then r.2.memory :: r.2.flushes
        else r.2.flushes := by
  rcases hrun : l.loadAll s.machine with ⟨⟨loaded, fault⟩, m⟩
  simp only [loadAll, hloader, hrun]
  rcases s.kernel.platform with _ | ⟨name, _ | _⟩ <;> cases fault <;>
    exact ⟨trivial, rfl, rfl⟩

end System

/-- A run over all apps stops at the first app that has no slot or does not fit, as the table tells
before the run, or behind the last app. It is a success in the latter case and an overflow in the
former. The apps before that are in their slots, followed by zeros, and all other memory is as it
was. A kernel that loads its apps comes to the same, and flushes an instruction cache once, when
the apps are in their slots. -/
theorem Loader.loadAll_stops_at_first_misfit {q : BuildRequest} {m₀ : Memory} {l : Loader}
    {b : Boundaries} {s : Machine} (hbuilt : q.answer Directory.empty m₀ = .ok l.directory)
    (h : l.Apart b s.memory) :
    let apps := l.directory.ranges s.memory
    let run := (l.loadAll s).1
    let t := (l.loadAll s).2
    ∃ k ≤ l.directory.count.toNat,
      (∀ i < k, ∃ e, apps[i]? = some e ∧ l.Admits i e) ∧ (∀ e, apps[k]? = some e → ¬l.Admits k e) ∧
      run.loaded.toNat = k ∧
      run.status = (if k = l.directory.count.toNat then .ok else .loadOverflow) ∧
      l.Filled s.memory (firstApps k) t.memory ∧
      ∀ (kernel : Kernel) (placed : PlacedLoader), kernel.loader = some placed →
        placed.toLoader = l →
        let r := System.loadAll ⟨kernel, s⟩
        r.1.toNat = k ∧ r.2.machine.memory = t.memory ∧
          r.2.machine.flushes =
            if kernel.platform.any (·.hasInstructionCache) then t.memory :: s.flushes
            else s.flushes := by
  intro apps run t
  obtain ⟨b', hb', hcount, -⟩ := BuildRequest.exists_of_answer_empty hbuilt
  obtain rfl : b = b' := Option.some.inj (Directory.mk.inj (h.directory.symm.trans hb'))
  have hlength : apps.length = l.directory.count.toNat := by
    simp only [apps, hb', Directory.length_ranges]
    rfl
  have hfew : l.directory.count.toNat ≤ 65536 := by rwa [hb']
  have hrange (i : Nat) (hi : i < apps.length) :
      l.directory.rangeOf? s.memory (Int64.ofNat i) = some apps[i] := by
    simp only [apps, hb'] at hi ⊢
    exact Directory.rangeOf?_eq_getElem_ranges hi (by omega)
  obtain ⟨k, -, hk, hends, hflushes⟩ :=
    (Filled.nil l s.memory).exists_endsAt h l.directory.count.toNat 0
  have hnone : l.Filled s.memory ([] ++ firstApps 0) s.memory := Filled.nil l s.memory
  have hfilled : l.Filled s.memory (firstApps run.loaded.toNat) t.memory :=
    hnone.loadFrom h l.directory.count.toNat 0 (by omega) rfl
  have hloaded : run.loaded.toNat = k := by
    rw [show run.loaded = k.toUInt64 from hends.loaded, toNat_toUInt64_of_lt (by omega)]
  rw [Nat.zero_add] at hk hends
  rw [hloaded] at hfilled
  refine ⟨k, hk, ?_, ?_, hloaded, ?_, hfilled, ?_⟩
  · intro i hi
    have hin : i < apps.length := by omega
    exact ⟨apps[i], List.getElem?_eq_getElem hin,
      (exists_plan_iff (by omega) (hrange i hin)).mp (hends.planned i (Nat.zero_le i) hi)⟩
  · intro e he
    obtain ⟨hin, rfl⟩ := List.getElem?_eq_some_iff.mp he
    exact hends.not_admits (by omega) (by omega) (hrange k hin)
  · exact hends.status_eq hk fun hlt => ⟨_, hrange k (by omega)⟩
  · rintro kernel placed hplaced rfl
    obtain ⟨hcount', hmemory, hcache⟩ := System.loadAll_of_platform (s := ⟨kernel, s⟩) hplaced
    have hkept : t.flushes = s.flushes := hflushes
    refine ⟨(congrArg UInt64.toNat hcount').trans hloaded, hmemory, ?_⟩
    rw [← hkept]
    exact hcache

/-- Of three apps the second is too large for its slot. The first is loaded, the third is not, and
the instruction cache is flushed all the same. -/
theorem Loader.loadAll_stops_at_second :
    let m := (Memory.zeroed.writeBytes 0x1000
      ([0x2000, 0x2002, 0x2008, 0x2009].flatMap LittleEndian.encode)).writeBytes 0x2000
        [1, 2, 3, 4, 5, 6, 7, 8, 9]
    let s := Machine.ofMemory m
    let l : Loader := ⟨⟨some ⟨0x1000, 3⟩⟩, ⟨0x8000, 4, 3⟩, 0⟩
    let placed : PlacedLoader := ⟨l, 0x9000, 0x9040⟩
    let kernel : Kernel :=
      { Kernel.unbooted (.fresh 0x9000 0x1000) ⟨Limits.bootMagic, 2, none, 0⟩
          (some ⟨none, true⟩) with
        loader := some placed }
    let r := System.loadAll ⟨kernel, s⟩
    (BuildRequest.boundaries 3 (some 0x1000) 4).answer Directory.empty m = .ok l.directory ∧
      (l.loadAll s).1.status = .loadOverflow ∧ r.1.toNat = 1 ∧
      (l.slots.extent 0).bytes r.2.machine.memory = [1, 2, 0, 0] ∧
      r.2.machine.flushes = [r.2.machine.memory] := by
  intro m s l placed kernel r
  have hbuilt : (BuildRequest.boundaries 3 (some 0x1000) 4).answer Directory.empty m =
      .ok l.directory := BuildRequest.answer_empty_eq_ok_iff.mpr ⟨by decide +kernel, rfl⟩
  have hbounded : l.slots.Bounded := by
    rw [Slots.Bounded]
    decide
  have hapart : l.Apart ⟨0x1000, 3⟩ s.memory :=
    .of_below rfl hbounded (by decide) (by decide +kernel)
  obtain ⟨k, -, -, -, hloaded, hstatus, hfilled, hkernel⟩ :=
    loadAll_stops_at_first_misfit hbuilt hapart
  obtain ⟨hcount, hmemory, hflushes⟩ := hkernel kernel placed rfl rfl
  obtain rfl : k = 1 := hloaded.symm.trans (by decide +kernel)
  obtain ⟨app, slot, hplan, hbytes⟩ := hfilled.slot 0 (by decide)
  obtain ⟨happ, hslot, -⟩ := plan_eq_ok_iff.mp hplan
  have hplace : l.directory.rangeOf? s.memory 0 = some ⟨0x2000, 0x2002⟩ := by decide +kernel
  obtain rfl := Option.some.inj (happ.symm.trans hplace)
  obtain rfl : slot = l.slots.extent 0 := Option.some.inj (hslot.symm.trans (by decide +kernel))
  refine ⟨hbuilt, hstatus, hcount, ?_, ?_⟩
  · rw [hmemory, hbytes]
    decide +kernel
  · rw [hflushes, hmemory]
    rfl

end EmbeddedApps
