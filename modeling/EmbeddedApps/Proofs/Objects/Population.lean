import EmbeddedApps.Objects.Store
import EmbeddedApps.Proofs.Arena.Grants
import Mathlib

/-!
# Populations of objects

A program builds objects in a store and tears them down in any order, each time in either of the
two ways. It tells its objects apart by the order in which it asked for them. What is counted
follows from what every single call comes to. No object is disturbed by calls on others, since
each of these writes into one block only and no two blocks share a place.
-/

namespace EmbeddedApps

deriving instance DecidableEq for Accounting

/-- How much one object adds to the number of living objects. -/
def Accounting.weight : Accounting → UInt64
  | accounted => 1
  | plain => 0

namespace ObjectStore

variable {s : ObjectStore} {way : Accounting} {size alignment : UInt64} {content : Bytes}
  {place : Address} {arena : Arena}

private theorem construct_of_allocate
    (h : s.arena.allocate content.length.toUInt64 alignment = (some place, arena)) :
    s.construct way alignment content = (some place, ⟨arena, s.memory.writeBytes place content,
      ⟨s.count.active + way.weight⟩, s.built + 1, s.tornDown⟩) := by
  cases way <;> simp [construct, ObjectCount.place, Accounting.weight, h]

private theorem construct_of_refused
    (h : s.arena.allocate content.length.toUInt64 alignment = (none, arena)) :
    s.construct way alignment content = (none, { s with arena }) := by
  cases way <;> simp [construct, ObjectCount.place, h]

private theorem construct_fst (s : ObjectStore) (way : Accounting) (alignment : UInt64)
    (content : Bytes) :
    (s.construct way alignment content).1 =
      (s.arena.allocate content.length.toUInt64 alignment).1 := by
  rcases h : s.arena.allocate content.length.toUInt64 alignment with ⟨_ | place, arena⟩
  · rw [construct_of_refused h]
  · rw [construct_of_allocate h]

private theorem destroy_some :
    s.destroy way (some place) size =
      { s with count := ⟨s.count.active - way.weight⟩, tornDown := s.tornDown + 1 } := by
  cases way <;> simp [destroy, Arena.release, Accounting.weight]

end ObjectStore

inductive Deed
  | built (way : Accounting)
  | tornDown (way : Accounting)
  deriving DecidableEq

/-- A call on a store of objects. The object to be torn down is given by the number of the request
that it came from, or is left out. Its destructor may leave any bytes where the object was. -/
inductive ObjectCall
  | construct (way : Accounting) (alignment : UInt64) (content : Bytes)
      (small : content.length < 2 ^ 64)
  | destroy (way : Accounting) (object : Option Nat) (remains : Bytes)

def ObjectCall.Destroys (i : Nat) : ObjectCall → Prop
  | construct .. => False
  | destroy _ object _ => object = some i

/-- A store, and for every object that was ever asked for its block, or none if it did not come
about. -/
structure Population where
  store : ObjectStore
  objects : List (Option Arena.Grant)

namespace Population

open Arena (Grant Served)

def start (a : Arena) (m : Memory) : Population := ⟨{ ObjectStore.empty a with memory := m }, []⟩

def find (p : Population) (object : Option Nat) : Option Grant :=
  object.bind fun i => p.objects[i]?.join

/-- Carries out one call, with what it came to. A request that is refused and a call without an
object come to nothing. -/
def perform (p : Population) : ObjectCall → Option Deed × Population
  | .construct way alignment content _ =>
    let (place, store) := p.store.construct way alignment content
    (place.map fun _ => .built way,
      ⟨store, p.objects ++ [place.map fun a => ⟨a, content.length.toUInt64, alignment⟩]⟩)
  | .destroy way object remains =>
    match p.find object with
    | none => (none, { p with store := p.store.destroy way none 0 })
    | some g =>
      let store := p.store.destroy way (some g.place) g.size
      let memory := store.memory.writeBytes g.place (remains.take g.size.toNat)
      (some (.tornDown way), { p with store := { store with memory } })

/-- What calls in order come to, and the population after them. -/
def performAll (p : Population) : List ObjectCall → List Deed × Population
  | [] => ([], p)
  | c :: cs =>
    let (d, p) := p.perform c
    let (ds, p) := p.performAll cs
    (d.toList ++ ds, p)

variable {a : Arena} {p : Population} {g h : Grant} {i j : Nat} {c : ObjectCall}

inductive Outcome (p : Population) : ObjectCall → Option Deed × Population → Prop
  | built {way : Accounting} {alignment : UInt64} {content : Bytes} {place : Address}
      {arena : Arena} (small : content.length < 2 ^ 64)
      (allocated :
        p.store.arena.allocate content.length.toUInt64 alignment = (some place, arena)) :
      Outcome p (.construct way alignment content small) (some (.built way),
        ⟨⟨arena, p.store.memory.writeBytes place content, ⟨p.store.count.active + way.weight⟩,
          p.store.built + 1, p.store.tornDown⟩,
        p.objects ++ [some ⟨place, content.length.toUInt64, alignment⟩]⟩)
  | refused {way : Accounting} {alignment : UInt64} {content : Bytes} {arena : Arena}
      (small : content.length < 2 ^ 64)
      (allocated : p.store.arena.allocate content.length.toUInt64 alignment = (none, arena)) :
      Outcome p (.construct way alignment content small)
        (none, ⟨{ p.store with arena }, p.objects ++ [none]⟩)
  | tornDown {way : Accounting} {object : Option Nat} {g : Grant} (remains : Bytes)
      (found : p.find object = some g) :
      Outcome p (.destroy way object remains) (some (.tornDown way),
        ⟨{ p.store with
          memory := p.store.memory.writeBytes g.place (remains.take g.size.toNat)
          count := ⟨p.store.count.active - way.weight⟩
          tornDown := p.store.tornDown + 1 }, p.objects⟩)
  | absent {way : Accounting} {object : Option Nat} (remains : Bytes)
      (found : p.find object = none) : Outcome p (.destroy way object remains) (none, p)

private theorem outcome (p : Population) (c : ObjectCall) : Outcome p c (p.perform c) := by
  cases c with
  | construct way alignment content small =>
    rw [perform]
    cases h : p.store.arena.allocate content.length.toUInt64 alignment with
    | mk place arena =>
      cases place with
      | none =>
        rw [ObjectStore.construct_of_refused h]
        exact .refused small h
      | some place =>
        rw [ObjectStore.construct_of_allocate h]
        exact .built small h
  | destroy way object remains =>
    rw [perform]
    cases h : p.find object with
    | none => exact .absent remains h
    | some g =>
      simp only [ObjectStore.destroy_some]
      exact .tornDown remains h

/-- What the store `s'` has counted beyond the store `s` are the deeds `ds`. -/
structure Accounts (s : ObjectStore) (ds : List Deed) (s' : ObjectStore) : Prop where
  active : s'.count.active = s.count.active +
    ((ds.count (.built .accounted)).toUInt64 - (ds.count (.tornDown .accounted)).toUInt64)
  built : s'.built = s.built + (ds.count (.built .accounted) + ds.count (.built .plain))
  tornDown : s'.tornDown =
    s.tornDown + (ds.count (.tornDown .accounted) + ds.count (.tornDown .plain))

namespace Accounts

variable {s s' s'' : ObjectStore} {ds es : List Deed}

private theorem nil (s : ObjectStore) : Accounts s [] s := ⟨by simp, rfl, rfl⟩

private theorem append (h : Accounts s ds s') (h' : Accounts s' es s'') :
    Accounts s (ds ++ es) s'' := by
  refine ⟨?_, ?_, ?_⟩
  · rw [h'.active, h.active]
    simp only [List.count_append, Nat.toUInt64_eq, UInt64.ofNat_add]
    grind
  · rw [h'.built, h.built]
    simp only [List.count_append]
    omega
  · rw [h'.tornDown, h.tornDown]
    simp only [List.count_append]
    omega

end Accounts

private theorem accounts_perform (p : Population) (c : ObjectCall) :
    Accounts p.store (p.perform c).1.toList (p.perform c).2.store := by
  have h := outcome p c
  generalize p.perform c = r at h ⊢
  cases h with
  | @built way => cases way <;> exact ⟨by simp [Accounting.weight], rfl, rfl⟩
  | refused => exact ⟨by simp, rfl, rfl⟩
  | @tornDown way =>
    cases way <;> exact ⟨by simp [Accounting.weight, UInt64.sub_eq_add_neg], rfl, rfl⟩
  | absent => exact Accounts.nil p.store

private theorem accounts_performAll (p : Population) (cs : List ObjectCall) :
    Accounts p.store (p.performAll cs).1 (p.performAll cs).2.store := by
  induction cs generalizing p with
  | nil => exact Accounts.nil p.store
  | cons c cs ih => exact (accounts_perform p c).append (ih _)

def blocks (p : Population) : List Grant := p.objects.reduceOption

private theorem served_concat {found : Option Address} {arena : Arena} {size alignment : UInt64}
    (hp : Served a p.blocks p.store.arena)
    (allocated : p.store.arena.allocate size alignment = (found, arena)) :
    Served a (p.objects ++ [found.map (Grant.mk · size alignment)]).reduceOption arena := by
  have hnext := Arena.served_perform hp.sound (.allocate size alignment)
  rw [Arena.perform, allocated] at hnext
  rw [List.reduceOption_append, List.reduceOption_singleton]
  exact hp.append hnext

private theorem served_perform (hp : Served a p.blocks p.store.arena) (c : ObjectCall) :
    Served a (p.perform c).2.blocks (p.perform c).2.store.arena := by
  have hc := outcome p c
  generalize p.perform c = r at hc ⊢
  cases hc with
  | built _ allocated => exact served_concat hp allocated
  | refused _ allocated => exact served_concat hp allocated
  | tornDown => exact hp
  | absent => exact hp

private theorem served_performAll (hp : Served a p.blocks p.store.arena) (cs : List ObjectCall) :
    Served a (p.performAll cs).2.blocks (p.performAll cs).2.store.arena := by
  induction cs generalizing p with
  | nil => exact hp
  | cons c cs ih => exact ih (served_perform hp c)

private theorem apart (hp : Served a p.blocks p.store.arena) (hij : i ≠ j)
    (hi : p.objects[i]? = some (some g)) (hj : p.objects[j]? = some (some h)) :
    ∀ q, g.Holds q → ¬h.Holds q := by
  have hpairs := List.pairwise_iff_getElem.mp (List.pairwise_filterMap.mp hp.apart)
  obtain ⟨hilt, hg⟩ := List.getElem?_eq_some_iff.mp hi
  obtain ⟨hjlt, hh⟩ := List.getElem?_eq_some_iff.mp hj
  intro q hgq hhq
  rcases Nat.lt_or_gt_of_ne hij with hlt | hgt
  · exact hpairs i j hilt hjlt hlt g hg h hh q hgq hhq
  · exact hpairs j i hjlt hilt hgt h hh g hg q hhq hgq

private theorem objects_perform (c : ObjectCall) (hi : p.objects[i]? = some (some g)) :
    (p.perform c).2.objects[i]? = some (some g) := by
  have hc := outcome p c
  generalize p.perform c = r at hc ⊢
  have hlt := (List.getElem?_eq_some_iff.mp hi).1
  cases hc with
  | built => rw [List.getElem?_append_left hlt, hi]
  | refused => rw [List.getElem?_append_left hlt, hi]
  | tornDown => exact hi
  | absent => exact hi

/-- A call writes into one block at most, that of the object which it builds or tears down. -/
theorem memory_perform (p : Population) (c : ObjectCall) :
    (p.perform c).2.store.memory = p.store.memory ∨
      ∃ j g bs, (p.perform c).2.objects[j]? = some (some g) ∧ bs.length ≤ g.size.toNat ∧
        (j = p.objects.length ∨ c.Destroys j) ∧
        (p.perform c).2.store.memory = p.store.memory.writeBytes g.place bs := by
  have hc := outcome p c
  generalize p.perform c = r at hc ⊢
  cases hc with
  | @built way alignment content place arena small allocated =>
    refine .inr ⟨_, _, content, List.getElem?_concat_length, ?_, .inl rfl, rfl⟩
    rw [Nat.toUInt64_eq, UInt64.toNat_ofNat_of_lt' small]
  | refused => exact .inl rfl
  | @tornDown way object g remains found =>
    obtain ⟨j, hobject, hj⟩ := Option.bind_eq_some_iff.mp found
    exact .inr ⟨j, g, _, Option.join_eq_some_iff.mp hj, List.length_take_le _ _, .inr hobject, rfl⟩
  | absent => exact .inl rfl

private theorem readBytes_perform (hp : Served a p.blocks p.store.arena)
    (hi : p.objects[i]? = some (some g)) (hc : ¬c.Destroys i) :
    (p.perform c).2.store.memory.readBytes g.place g.size.toNat =
      p.store.memory.readBytes g.place g.size.toNat := by
  rcases memory_perform p c with hsame | ⟨j, h, bs, hj, hlen, hown, hwrite⟩
  · rw [hsame]
  have hij : i ≠ j := by
    rintro rfl
    have hlt := (List.getElem?_eq_some_iff.mp hi).1
    rcases hown with hlast | hdestroys
    · exact hlt.ne hlast
    · exact hc hdestroys
  have happart := apart (served_perform hp c) hij (objects_perform c hi) hj
  rw [hwrite]
  apply Memory.readBytes_writeBytes_of_disjoint _ (hlen.trans h.size.toNat_lt.le)
  intro q hg hbs
  exact happart q hg (Nat.lt_of_lt_of_le hbs hlen)

private theorem readBytes_performAll (hp : Served a p.blocks p.store.arena)
    (hi : p.objects[i]? = some (some g)) (cs : List ObjectCall) (hcs : ∀ c ∈ cs, ¬c.Destroys i) :
    (p.performAll cs).2.objects[i]? = some (some g) ∧
      (p.performAll cs).2.store.memory.readBytes g.place g.size.toNat =
        p.store.memory.readBytes g.place g.size.toNat := by
  induction cs generalizing p with
  | nil => exact ⟨hi, rfl⟩
  | cons c cs ih =>
    obtain ⟨hfirst, hrest⟩ := List.forall_mem_cons.mp hcs
    obtain ⟨hobject, hbytes⟩ := ih (served_perform hp c) (objects_perform c hi) hrest
    exact ⟨hobject, hbytes.trans (readBytes_perform hp hi hfirst)⟩

private theorem perform_construct {way : Accounting} {alignment : UInt64} {content : Bytes}
    {place : Address} (small : content.length < 2 ^ 64)
    (hplace : (p.store.construct way alignment content).1 = some place) :
    let q := (p.perform (.construct way alignment content small)).2
    q.objects = p.objects ++ [some ⟨place, content.length.toUInt64, alignment⟩] ∧
      q.store.memory.readBytes place content.length = content := by
  cases h : p.store.arena.allocate content.length.toUInt64 alignment with
  | mk found arena =>
    cases found with
    | none =>
      rw [ObjectStore.construct_of_refused h] at hplace
      cases hplace
    | some a =>
      rw [ObjectStore.construct_of_allocate h] at hplace
      cases hplace
      rw [perform, ObjectStore.construct_of_allocate h]
      exact ⟨rfl, Memory.readBytes_writeBytes_self _ _ _ small.le⟩

private theorem arena_perform_destroy (p : Population) (way : Accounting) (object : Option Nat)
    (remains : Bytes) :
    (p.perform (.destroy way object remains)).2.store.arena = p.store.arena := by
  have hc := outcome p (.destroy way object remains)
  generalize p.perform (.destroy way object remains) = r at hc ⊢
  cases hc with
  | tornDown => rfl
  | absent => rfl

/-- An arena has served any requests when the first object is asked for. After any calls, the number
of living objects is that of the accounted objects built, less that of the accounted objects torn
down; constructors and destructors have run once for each object built and torn down in either way.
Tearing down takes nothing from the arena and gives nothing back. An object comes about exactly if
the arena grants it a block. A new object holds what its constructor left, and every object keeps
its place and its bytes through all later calls, as long as it is not torn down itself. -/
theorem accounted_and_intact (base : Address) (capacity : UInt64) (qs : List Arena.Request)
    (m : Memory) (cs : List ObjectCall) :
    let first := start ((Arena.fresh base capacity).performAll qs).2 m
    let deeds := (first.performAll cs).1
    let p := (first.performAll cs).2
    p.store.count.active =
      (deeds.count (.built .accounted)).toUInt64 - (deeds.count (.tornDown .accounted)).toUInt64 ∧
    p.store.built = deeds.count (.built .accounted) + deeds.count (.built .plain) ∧
    p.store.tornDown = deeds.count (.tornDown .accounted) + deeds.count (.tornDown .plain) ∧
    (∀ way object remains,
      (p.perform (.destroy way object remains)).2.store.arena.used = p.store.arena.used) ∧
    (∀ way alignment content, (p.store.construct way alignment content).1 =
      (p.store.arena.allocate content.length.toUInt64 alignment).1) ∧
    (∀ way alignment content place (small : content.length < 2 ^ 64),
      (p.store.construct way alignment content).1 = some place →
        let q := (p.perform (.construct way alignment content small)).2
        q.objects = p.objects ++ [some ⟨place, content.length.toUInt64, alignment⟩] ∧
          q.store.memory.readBytes place content.length = content) ∧
    (∀ i g, p.objects[i]? = some (some g) → ∀ later, (∀ c ∈ later, ¬c.Destroys i) →
      let q := (p.performAll later).2
      q.objects[i]? = some (some g) ∧
        q.store.memory.readBytes g.place g.size.toNat =
          p.store.memory.readBytes g.place g.size.toNat) := by
  intro first deeds p
  have haccounts : Accounts first.store deeds p.store := accounts_performAll first cs
  have hsound := (Arena.served_performAll (Arena.sound_fresh base capacity) qs).sound
  have hserved : Served _ p.blocks p.store.arena := served_performAll (Served.nil hsound) cs
  refine ⟨?_, ?_, ?_, ?_, p.store.construct_fst, ?_, ?_⟩
  · rw [haccounts.active]
    exact UInt64.zero_add _
  · rw [haccounts.built]
    exact Nat.zero_add _
  · rw [haccounts.tornDown]
    exact Nat.zero_add _
  · intro way object remains
    rw [arena_perform_destroy]
  · intro way alignment content place small hplace
    exact perform_construct small hplace
  · intro i g hi later hlater
    exact readBytes_performAll hserved hi later hlater

/-- An object is built at the bottom of an arena and torn down, which frees no room for a second
one. -/
example :
    let p := start (Arena.fresh 0x1000 24) .zeroed
    let r := p.performAll [.construct .accounted 8 (text "sixteen bytes...") (by decide),
      .destroy .accounted (some 0) [], .construct .plain 8 (text "sixteen bytes...") (by decide)]
    r.1 = [.built .accounted, .tornDown .accounted] ∧ r.2.store.count.active = 0 ∧
      r.2.objects.map (Option.map (·.place)) = [some 0x1000, none] := by decide

end Population

end EmbeddedApps
