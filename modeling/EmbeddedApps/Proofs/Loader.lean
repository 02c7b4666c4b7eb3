import EmbeddedApps.Loader
import EmbeddedApps.Proofs.Machine
import EmbeddedApps.Proofs.Memory.Copy
import EmbeddedApps.Proofs.Word.Index
import Mathlib

/-!
# Runs of a loader

If a loader reads nothing that is written while it runs, all apps are taken from memory as it was
at the start, and the whole run is one effect on the machine.
-/

namespace EmbeddedApps

namespace Slots

def extent (s : Slots) (k : Nat) : Extent :=
  ⟨s.base + k.toUInt64 * s.size, s.base + k.toUInt64 * s.size + s.size⟩

theorem slot?_ofNat (s : Slots) {k : Nat} (hk : k < 2 ^ 63) :
    s.slot? (Int64.ofNat k) = if k < s.count.toNat then some (s.extent k) else none := by
  have hin := ofNat_outside_iff hk s.count
  rw [slot?]
  by_cases hlt : k < s.count.toNat
  · rw [if_pos hlt, if_neg (mt hin.mp hlt.not_ge), Int64.toUInt64_ofNat']
    rfl
  · rw [if_neg hlt, if_pos (hin.mpr (Nat.not_lt.mp hlt))]

@[simp] theorem size_extent (s : Slots) (k : Nat) : (s.extent k).size = s.size := by
  change s.base + k.toUInt64 * s.size + s.size - (s.base + k.toUInt64 * s.size) = s.size
  rw [UInt64.add_comm _ s.size, UInt64.add_sub_cancel]

theorem toNat_start_extent {s : Slots} {k : Nat} (hk : k < s.count.toNat)
    (hroom : s.base.toNat + s.count.toNat * s.size.toNat < 2 ^ 64) :
    (s.extent k).start.toNat = s.base.toNat + k * s.size.toNat ∧
      (s.extent k).start.toNat + s.size.toNat ≤ s.base.toNat + s.count.toNat * s.size.toNat := by
  have hcount := s.count.toNat_lt
  have hword : k.toUInt64.toNat = k := toNat_toUInt64_of_lt (by omega)
  have hend : (k + 1) * s.size.toNat ≤ s.count.toNat * s.size.toNat := Nat.mul_le_mul_right _ hk
  rw [Nat.succ_mul] at hend
  have hdistance : (k.toUInt64 * s.size).toNat = k * s.size.toNat := by
    rw [toNat_mul_of_lt (by rw [hword]; omega), hword]
  have hstart : (s.extent k).start.toNat = s.base.toNat + k * s.size.toNat := by
    rw [extent, toNat_add_of_lt (by omega), hdistance]
  omega

end Slots

/-- An app that can be loaded: where it lies, its slot and its bytes. -/
structure Cargo where
  source : Extent
  slot : Extent
  content : Bytes

namespace Loader

/-- What there is to load for app `i`. -/
def fetch (l : Loader) (m : Memory) (i : Int64) : Except LoadFault Cargo :=
  (l.plan m i).map fun p => ⟨p.1, p.2, p.1.bytes m⟩

def cargoEffect (i : Int64) (c : Cargo) : Effect :=
  ⟨[loadedLine i (occupied c.slot c.source.size)],
    [⟨c.slot.start, List.replicate c.slot.size.toNat 0⟩, ⟨c.slot.start, c.content⟩]⟩

def loading (fetch : Int64 → Except LoadFault Cargo) : Nat → Nat → LoadRun × Effect
  | 0, i => (⟨i.toUInt64, none⟩, ⟨[], []⟩)
  | n + 1, i =>
    match fetch (Int64.ofNat i) with
    | .error f => (⟨i.toUInt64, some f⟩, ⟨[.error f.message], []⟩)
    | .ok c =>
      ((loading fetch n (i + 1)).1, cargoEffect (Int64.ofNat i) c ++ (loading fetch n (i + 1)).2)

private theorem loading_of_ok {fetch : Int64 → Except LoadFault Cargo} {i : Nat} {c : Cargo}
    (n : Nat)
    (h : fetch (Int64.ofNat i) = .ok c) :
    loading fetch (n + 1) i = ((loading fetch n (i + 1)).1,
      cargoEffect (Int64.ofNat i) c ++ (loading fetch n (i + 1)).2) := by rw [loading, h]

private theorem loading_of_error {fetch : Int64 → Except LoadFault Cargo} {i : Nat} {f : LoadFault}
    (n : Nat) (h : fetch (Int64.ofNat i) = .error f) :
    loading fetch (n + 1) i = (⟨i.toUInt64, some f⟩, ⟨[.error f.message], []⟩) := by rw [loading, h]

/-- The slots of a loader lie between two bounds, and nothing that it reads does. -/
structure Shielded (l : Loader) (m : Memory) (lo hi : Nat) : Prop where
  bounded : hi ≤ 2 ^ 64
  steady : ∀ m', m.AgreesOutside lo hi m' → ∀ i, l.fetch m' i = l.fetch m i
  slot : ∀ i c, l.fetch m i = .ok c →
    lo ≤ c.slot.start.toNat ∧ c.slot.start.toNat + c.slot.size.toNat ≤ hi
  source : ∀ i c, l.fetch m i = .ok c → c.source.start.toNat + c.source.size.toNat ≤ 2 ^ 64 ∧
    (c.source.start.toNat + c.source.size.toNat ≤ lo ∨ hi ≤ c.source.start.toNat)

variable {l : Loader} {m : Memory} {i : Int64} {lo hi : Nat}

theorem plan_eq_ok_iff {app slot : Extent} :
    l.plan m i = .ok (app, slot) ↔ l.directory.rangeOf? m i = some app ∧
      l.slots.slot? i = some slot ∧ app.size.toNat ≤ slot.size.toNat := by
  rw [plan.eq_def]
  cases l.directory.rangeOf? m i with
  | none => simp
  | some source =>
    cases l.slots.slot? i with
    | none => simp
    | some target =>
      by_cases hsize : source.size > target.size
      · have hlarge : target.size.toNat < source.size.toNat := UInt64.lt_iff_toNat_lt.mp hsize
        simp only [if_pos hsize, reduceCtorEq, Option.some.injEq, false_iff, not_and]
        rintro rfl rfl
        omega
      · have hfits : source.size.toNat ≤ target.size.toNat :=
          UInt64.le_iff_toNat_le.mp (UInt64.not_lt.mp hsize)
        simp only [if_neg hsize, Except.ok.injEq, Prod.mk.injEq, Option.some.injEq]
        constructor
        · rintro ⟨rfl, rfl⟩
          exact ⟨rfl, rfl, hfits⟩
        · rintro ⟨rfl, rfl, -⟩
          exact ⟨rfl, rfl⟩

theorem fetch_eq_ok_iff (c : Cargo) :
    l.fetch m i = .ok c ↔ l.plan m i = .ok (c.source, c.slot) ∧ c.content = c.source.bytes m := by
  obtain ⟨source, slot, content⟩ := c
  rw [fetch]
  cases l.plan m i with
  | error f => simp [Except.map]
  | ok p =>
    obtain ⟨source', slot'⟩ := p
    simp only [Except.map, Except.ok.injEq, Cargo.mk.injEq, Prod.mk.injEq]
    constructor
    · rintro ⟨rfl, rfl, rfl⟩
      exact ⟨⟨rfl, rfl⟩, rfl⟩
    · rintro ⟨⟨rfl, rfl⟩, rfl⟩
      exact ⟨rfl, rfl, rfl⟩

private theorem fetch_eq_error_iff (f : LoadFault) :
    l.fetch m i = .error f ↔ l.plan m i = .error f := by
  rw [fetch]
  cases l.plan m i with
  | error f => simp [Except.map]
  | ok p => simp [Except.map]

theorem size_le_of_fetch {c : Cargo} (h : l.fetch m i = .ok c) :
    c.source.size.toNat ≤ c.slot.size.toNat ∧ c.content.length = c.source.size.toNat := by
  obtain ⟨hplan, hcontent⟩ := (fetch_eq_ok_iff c).mp h
  rw [hcontent, Extent.bytes, Memory.length_readBytes]
  exact ⟨(plan_eq_ok_iff.mp hplan).2.2, rfl⟩

/-- Clearing a slot and copying an app that lies outside of it are two writes. -/
theorem transfer_eq_writeAll {source slot : Extent} (m : Memory)
    (hsize : source.size.toNat ≤ slot.size.toNat)
    (hapart : ∀ p, Memory.InWindow source.start source.size.toNat p →
      ¬Memory.InWindow slot.start slot.size.toNat p) :
    transfer m source slot =
      m.writeAll
        [⟨slot.start, List.replicate slot.size.toNat 0⟩, ⟨slot.start, source.bytes m⟩] := by
  have hword := slot.size.toNat_lt
  have hkeep : (m.writeBytes slot.start (List.replicate slot.size.toNat 0)).readBytes source.start
      source.size.toNat = source.bytes m := by
    rw [Memory.readBytes_writeBytes_of_disjoint _ (by simpa using hword.le)]
    · rfl
    intro p hp
    rw [List.length_replicate]
    exact hapart p hp
  have hdisjoint : ∀ p, Memory.InWindow source.start source.size.toNat p →
      ¬Memory.InWindow slot.start source.size.toNat p := fun p hp hp' =>
    hapart p hp (lt_of_lt_of_le hp' hsize)
  rw [transfer, Memory.zero_eq_writeBytes, Memory.copy_eq_writeBytes _ _ _ _ (by omega) hdisjoint,
    hkeep, Memory.writeAll_cons, Memory.writeAll_cons, Memory.writeAll_nil]

private theorem confined_cargoEffect {c : Cargo} (hlength : c.content.length ≤ c.slot.size.toNat)
    (hlo : lo ≤ c.slot.start.toNat) (hhi : c.slot.start.toNat + c.slot.size.toNat ≤ hi)
    (j : Int64) : Confined lo hi (cargoEffect j c).writes := by
  apply Confined.cons hlo
  · rwa [List.length_replicate]
  apply Confined.cons hlo
  · dsimp only
    omega
  exact Confined.nil _ _

private theorem Shielded.confined_cargoEffect (h : l.Shielded m lo hi) {c : Cargo}
    (hc : l.fetch m i = .ok c) (j : Int64) : Confined lo hi (cargoEffect j c).writes := by
  obtain ⟨hlo, hhi⟩ := h.slot i c hc
  obtain ⟨hsize, hlength⟩ := size_le_of_fetch hc
  exact Loader.confined_cargoEffect (by omega) hlo hhi j

/-- One request, with everything taken from the memory `m` that the run started with. -/
private theorem Shielded.load_eq (h : l.Shielded m lo hi) {s : Machine}
    (hs : m.AgreesOutside lo hi s.memory) (i : Int64) :
    l.load i s =
      match l.fetch m i with
      | .error f => (.error f, s.after ⟨[.error f.message], []⟩)
      | .ok c => (.ok (occupied c.slot c.source.size), s.after (cargoEffect i c)) := by
  have hsteady := h.steady s.memory hs i
  cases hfetch : l.fetch m i with
  | error f =>
    rw [hfetch, fetch_eq_error_iff] at hsteady
    simp only [load, hsteady, Machine.say_eq_after]
  | ok c =>
    obtain ⟨hlo, hhi⟩ := h.slot i c hfetch
    obtain ⟨hword, hapart⟩ := h.source i c hfetch
    have hsize := (size_le_of_fetch hfetch).1
    have hbounded := h.bounded
    rw [hfetch, fetch_eq_ok_iff] at hsteady
    obtain ⟨hplan, hcontent⟩ := hsteady
    have htransfer := transfer_eq_writeAll s.memory hsize fun p hp hp' => by
      rw [Memory.inWindow_iff hword] at hp
      rw [Memory.inWindow_iff (by omega)] at hp'
      omega
    rw [← hcontent] at htransfer
    simp only [load, hplan, htransfer, Machine.write_eq_after, Machine.say_eq_after,
      ← Machine.after_append]
    rfl

theorem Shielded.loadFrom_eq (h : l.Shielded m lo hi) (n i : Nat) {s : Machine}
    (hs : m.AgreesOutside lo hi s.memory) :
    l.loadFrom i.toUInt64 n s =
      ((loading (l.fetch m) n i).1, s.after (loading (l.fetch m) n i).2) := by
  induction n generalizing i s with
  | zero => rw [loadFrom, loading, Machine.after_nil]
  | succ n ih =>
    have hindex : i.toUInt64.toInt64 = Int64.ofNat i := by simp
    rw [loadFrom, hindex, h.load_eq hs]
    cases hfetch : l.fetch m (Int64.ofNat i) with
    | error f => rw [loading_of_error n hfetch]
    | ok c =>
      have hmore := hs.writeAll h.bounded (h.confined_cargoEffect hfetch (Int64.ofNat i))
      rw [loading_of_ok n hfetch]
      dsimp only
      rw [toUInt64_add_one, ih (i + 1) hmore, Machine.after_append]

theorem Shielded.confined_loading (h : l.Shielded m lo hi) (n i : Nat) :
    Confined lo hi (loading (l.fetch m) n i).2.writes := by
  induction n generalizing i with
  | zero => exact Confined.nil _ _
  | succ n ih =>
    cases hfetch : l.fetch m (Int64.ofNat i) with
    | error f =>
      rw [loading_of_error n hfetch]
      exact Confined.nil _ _
    | ok c =>
      rw [loading_of_ok n hfetch]
      exact (h.confined_cargoEffect hfetch _).append (ih (i + 1))

section Row

variable {fetch : Int64 → Except LoadFault Cargo} {count start width : Nat}

/-- An app fits into slot `j` of a row. -/
structure FitsAt (c : Cargo) (start width j : Nat) : Prop where
  place : c.slot.start.toNat = start + j * width
  size : c.slot.size.toNat = width
  length : c.content.length ≤ width
  bounded : start + j * width + width ≤ 2 ^ 64

/-- Apps go to slots in a row, each to the one with its number. -/
def Row (fetch : Int64 → Except LoadFault Cargo) (count start width : Nat) : Prop :=
  ∀ j < count, ∀ c, fetch (Int64.ofNat j) = .ok c → FitsAt c start width j

private theorem Row.confined_loading (h : Row fetch count start width) {n i : Nat}
    (hcount : i + n ≤ count) :
    Confined (start + i * width) (2 ^ 64) (loading fetch n i).2.writes := by
  induction n generalizing i with
  | zero => exact Confined.nil _ _
  | succ n ih =>
    cases hfetch : fetch (Int64.ofNat i) with
    | error f =>
      rw [loading_of_error n hfetch]
      exact Confined.nil _ _
    | ok c =>
      obtain ⟨hplace, hsize, hlength, hbounded⟩ := h i (by omega) c hfetch
      have hstep : start + i * width ≤ start + (i + 1) * width := by
        rw [Nat.succ_mul]
        omega
      rw [loading_of_ok n hfetch]
      have hfirst : Confined (start + i * width) (2 ^ 64) (cargoEffect (Int64.ofNat i) c).writes :=
        confined_cargoEffect (by omega) hplace.ge (by omega) _
      exact hfirst.append ((ih (by omega)).mono hstep le_rfl)

/-- Cleared and written to from the start, a stretch holds the written bytes and then zeros. -/
theorem readBytes_cleared {a : Address} {bs : Bytes} (m : Memory)
    (hlength : bs.length ≤ width) (hbounded : width ≤ 2 ^ 64) :
    ((m.writeBytes a (List.replicate width 0)).writeBytes a bs).readBytes a width =
      bs ++ List.replicate (width - bs.length) 0 := by
  have hbehind : ((m.writeBytes a (List.replicate width 0)).writeBytes a bs).readBytes
      (a + bs.length.toUInt64) (width - bs.length) = List.replicate (width - bs.length) 0 := by
    apply List.ext_getElem
    · simp
    intro j hj _
    rw [Memory.length_readBytes] at hj
    have hdist : (a + bs.length.toUInt64 + j.toUInt64 - a).toNat = bs.length + j := by
      rw [add_toUInt64_add, toNat_add_toUInt64_sub _ (by omega)]
    rw [Memory.getElem_readBytes, Memory.read_writeBytes _ _ _ _ (by omega), hdist,
      Memory.read_writeBytes _ _ _ _ (by simpa using hbounded), hdist,
      List.getElem?_eq_none (by omega), List.getElem?_eq_getElem (by simp; omega)]
    simp
  obtain ⟨rest, rfl⟩ := Nat.exists_eq_add_of_le hlength
  rw [Nat.add_sub_cancel_left] at hbehind ⊢
  rw [Memory.readBytes_add, hbehind, Memory.readBytes_writeBytes_self _ _ _ (by omega)]

/-- A loaded app fills its slot from the start, and the rest of the slot is zero. -/
theorem Row.readBytes_loading (h : Row fetch count start width) {n i j : Nat} {c : Cargo}
    (m : Memory) (hcount : i + n ≤ count) (hj : j < n)
    (hok : ∀ k < j, ∃ d, fetch (Int64.ofNat (i + k)) = .ok d)
    (hc : fetch (Int64.ofNat (i + j)) = .ok c) :
    (m.writeAll (loading fetch n i).2.writes).readBytes c.slot.start width =
      c.content ++ List.replicate (width - c.content.length) 0 := by
  induction n generalizing i j m with
  | zero => exact absurd hj (Nat.not_lt_zero j)
  | succ n ih =>
    cases j with
    | zero =>
      rw [Nat.add_zero] at hc
      obtain ⟨hplace, hsize, hlength, hbounded⟩ := h i (by omega) c hc
      have hrest := h.confined_loading (n := n) (i := i + 1) (by omega)
      rw [Nat.succ_mul] at hrest
      rw [loading_of_ok n hc, Effect.writes_append, Memory.writeAll_append,
        Memory.readBytes_writeAll_of_confined hrest le_rfl _ (by omega) (by omega), cargoEffect,
        Memory.writeAll_cons, Memory.writeAll_cons, Memory.writeAll_nil, hsize]
      exact readBytes_cleared m hlength (by omega)
    | succ j =>
      obtain ⟨d, hd⟩ := hok 0 (Nat.succ_pos j)
      rw [Nat.add_zero] at hd
      have hmove (k : Nat) : i + 1 + k = i + (k + 1) := by omega
      rw [loading_of_ok n hd, Effect.writes_append, Memory.writeAll_append]
      apply ih _ (by omega) (Nat.lt_of_succ_lt_succ hj)
      · intro k hk
        rw [hmove]
        exact hok (k + 1) (by omega)
      · rwa [hmove]

end Row

theorem loaded_loading {fetch : Int64 → Except LoadFault Cargo} {n i k : Nat} (hk : k ≤ n)
    (hok : ∀ j < k, ∃ c, fetch (Int64.ofNat (i + j)) = .ok c)
    (hstop : k < n → ∃ f, fetch (Int64.ofNat (i + k)) = .error f) :
    (loading fetch n i).1.loaded = (i + k).toUInt64 := by
  induction n generalizing i k with
  | zero =>
    obtain rfl := Nat.le_zero.mp hk
    rfl
  | succ n ih =>
    cases k with
    | zero =>
      obtain ⟨f, hf⟩ := hstop (Nat.succ_pos n)
      rw [Nat.add_zero] at hf
      rw [loading_of_error n hf, Nat.add_zero]
    | succ k =>
      obtain ⟨c, hc⟩ := hok 0 (Nat.succ_pos k)
      rw [Nat.add_zero] at hc
      have hmove (j : Nat) : i + 1 + j = i + (j + 1) := by omega
      rw [loading_of_ok n hc, ← hmove k]
      apply ih (Nat.le_of_succ_le_succ hk)
      · intro j hj
        rw [hmove]
        exact hok (j + 1) (by omega)
      · intro hkn
        rw [hmove]
        exact hstop (by omega)

end Loader

end EmbeddedApps
