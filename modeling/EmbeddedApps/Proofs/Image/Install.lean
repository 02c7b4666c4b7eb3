import EmbeddedApps.Image.Install
import EmbeddedApps.Proofs.Image.Segments
import EmbeddedApps.Proofs.Memory.Writes
import Mathlib

/-!
# What an installation does

The fate of an image is decided by its bytes and the region alone. An accepted image is copied as
it stands, and the table behind it gets its number of programs and then one address for each
offset, up to the first offset that lies outside.
-/

namespace EmbeddedApps.Image

/-- Lengths of files are signed words. -/
def fileLimit : Nat := 2 ^ 63

def offsetAt (image : Bytes) (i : Nat) : UInt64 :=
  LittleEndian.decode ((image.drop (8 * (i + 1))).take 8)

/-- The header is sound, and the image fits into the region with the table behind it. -/
structure Admissible (image : Bytes) (r : Region) : Prop where
  header : 16 ≤ image.length
  count : (claimedCount image).toNat ≤ 65536
  table : 8 * ((claimedCount image).toNat + 2) ≤ image.length
  room : roundUp image.length 8 + 8 * ((claimedCount image).toNat + 2) ≤ r.size.toNat

instance (image : Bytes) (r : Region) : Decidable (Admissible image r) :=
  decidable_of_iff (16 ≤ image.length ∧ (claimedCount image).toNat ≤ 65536 ∧
    8 * ((claimedCount image).toNat + 2) ≤ image.length ∧
      roundUp image.length 8 + 8 * ((claimedCount image).toNat + 2) ≤ r.size.toNat)
    ⟨fun ⟨hheader, hcount, htable, hroom⟩ => ⟨hheader, hcount, htable, hroom⟩,
      fun h => ⟨h.header, h.count, h.table, h.room⟩⟩

/-- All offsets lie between the table of the image and its end. -/
def OffsetsInside (image : Bytes) : Prop :=
  ∀ i ≤ (claimedCount image).toNat,
    8 * ((claimedCount image).toNat + 2) ≤ (offsetAt image i).toNat ∧
    (offsetAt image i).toNat ≤ image.length

def OffsetsAscending (image : Bytes) : Prop :=
  ∀ i < (claimedCount image).toNat, offsetAt image i ≤ offsetAt image (i + 1)

instance (image : Bytes) : Decidable (OffsetsInside image) :=
  inferInstanceAs (Decidable (∀ i ≤ _, _))

instance (image : Bytes) : Decidable (OffsetsAscending image) :=
  inferInstanceAs (Decidable (∀ i < _, _))

/-- What turning `n` offsets from entry `i` on into addresses comes to: how it ends, and the
addresses. -/
def addresses (image : Bytes) (base low high : UInt64) : Nat → Nat → Except Fault Unit × List UInt64
  | 0, _ => (.ok (), [])
  | n + 1, i =>
    let offset := offsetAt image i
    if offset < low || offset > high then (.error (.outside i.toUInt64 offset), [])
    else
      let rest := addresses image base low high n (i + 1)
      (rest.1, (base + offset) :: rest.2)

theorem toNat_tableOffset {image : Bytes} (h : image.length < fileLimit) :
    (tableOffset (sizeOf image)).toNat = roundUp image.length 8 := by
  rw [fileLimit] at h
  have hround := roundUp_lt_add image.length (show 0 < 8 by decide)
  have hsize := toNat_sizeOf (show image.length < 2 ^ 64 by omega)
  have hentry : isPowerOfTwo Limits.entrySize = true := by decide
  rw [tableOffset, toNat_alignUp_of_lt hentry]
  · rw [hsize]
    rfl
  · rw [hsize]
    change roundUp image.length 8 < 2 ^ 64
    omega

theorem toNat_footprint {image : Bytes} {count : UInt64} (h : image.length < fileLimit)
    (hc : count.toNat ≤ 65536) :
    (footprint (sizeOf image) count).toNat = roundUp image.length 8 + 8 * (count.toNat + 2) := by
  have hround := roundUp_lt_add image.length (show 0 < 8 by decide)
  have hbytes := toNat_tableBytes count (by omega)
  have htable := toNat_tableOffset h
  rw [fileLimit] at h
  rw [footprint, toNat_add_of_lt (by omega), htable, hbytes]

private theorem header_ok_iff {image : Bytes} (h : image.length < fileLimit) :
    ¬sizeOf image < tableBytes 0 ↔ 16 ≤ image.length := by
  rw [fileLimit] at h
  rw [UInt64.lt_iff_toNat_lt, toNat_sizeOf (by omega), Nat.not_lt]
  rfl

private theorem table_ok_iff {image : Bytes} (h : image.length < fileLimit) (count : UInt64) :
    ¬(count > Limits.tableCount || tableBytes count > sizeOf image) = true ↔
      count.toNat ≤ 65536 ∧ 8 * (count.toNat + 2) ≤ image.length := by
  have hlimit : Limits.tableCount.toNat = 65536 := rfl
  rw [fileLimit] at h
  rw [Bool.or_eq_true, decide_eq_true_eq, decide_eq_true_eq, not_or, gt_iff_lt, gt_iff_lt,
    UInt64.lt_iff_toNat_lt, UInt64.lt_iff_toNat_lt, hlimit, Nat.not_lt, Nat.not_lt,
    toNat_sizeOf (by omega)]
  apply and_congr_right
  intro hc
  rw [toNat_tableBytes count (by omega)]

theorem accept_eq_ok_iff {image : Bytes} (h : image.length < fileLimit) (r : Region)
    (base : Address) : accept image r = .ok base ↔ r.base = some base ∧ Admissible image r := by
  have hheader := header_ok_iff h
  have htable := table_ok_iff h (claimedCount image)
  have hroom (hc : (claimedCount image).toNat ≤ 65536) :
      ¬footprint (sizeOf image) (claimedCount image) > r.size ↔
        roundUp image.length 8 + 8 * ((claimedCount image).toNat + 2) ≤ r.size.toNat := by
    rw [gt_iff_lt, UInt64.lt_iff_toNat_lt, toNat_footprint h hc, Nat.not_lt]
  constructor
  · intro hok
    simp only [accept] at hok
    split at hok
    · cases hok
    split at hok
    · cases hok
    rename_i hsmall hcorrupt
    obtain ⟨hc, ht⟩ := htable.mp hcorrupt
    cases hbase : r.base with
    | none =>
      rw [hbase] at hok
      cases hok
    | some b =>
      rw [hbase] at hok
      dsimp only at hok
      split at hok
      · cases hok
      · rename_i hfits
        cases hok
        exact ⟨rfl, hheader.mp hsmall, hc, ht, (hroom hc).mp hfits⟩
  · rintro ⟨hbase, hadm⟩
    simp only [accept]
    rw [if_neg (hheader.mpr hadm.header), if_neg (htable.mpr ⟨hadm.count, hadm.table⟩), hbase]
    exact if_neg ((hroom hadm.count).mpr hadm.room)

private theorem entry_address (a : Address) (i : Nat) :
    a + (i.toUInt64 + 1) * Limits.entrySize = a + (8 * (i + 1)).toUInt64 := by
  have hentry : Limits.entrySize = (8 : Nat).toUInt64 := rfl
  rw [hentry, Nat.mul_comm 8]
  simp [UInt64.ofNat_mul, UInt64.ofNat_add]

private theorem readWord_offset {m : Memory} {image : Bytes} {base : Address} {i : Nat}
    (hheld : m.readBytes base image.length = image) (hi : 8 * (i + 2) ≤ image.length) :
    m.readWord (base + Limits.entrySize + i.toUInt64 * Limits.entrySize) = offsetAt image i := by
  have hplace : base + Limits.entrySize + i.toUInt64 * Limits.entrySize =
      base + (8 * (i + 1)).toUInt64 := by
    rw [← entry_address, UInt64.add_assoc, UInt64.add_mul, UInt64.one_mul,
      UInt64.add_comm Limits.entrySize]
  rw [hplace, Memory.readWord, offsetAt]
  rw [← Memory.take_drop_readBytes m base (show 8 * (i + 1) + 8 ≤ image.length by omega), hheld]

/-- The offsets are read from the copy of the image while the table grows behind it. -/
private theorem relocate_eq {image : Bytes} {base : Address} (table : Address) (low high : UInt64)
    (hbehind : base.toNat + image.length ≤ table.toNat) (n i : Nat) (m : Memory)
    (hheld : m.readBytes base image.length = image) (hin : 8 * (i + n + 1) ≤ image.length)
    (hroom : table.toNat + 8 * (i + n + 1) ≤ 2 ^ 64) :
    relocate base table low high n i.toUInt64 m =
      ((addresses image base low high n i).1, m.writeBytes (table + (8 * (i + 1)).toUInt64)
        ((addresses image base low high n i).2.flatMap LittleEndian.encode)) := by
  induction n generalizing i m with
  | zero => rfl
  | succ n ih =>
    rw [relocate, addresses, readWord_offset hheld (by omega)]
    dsimp only
    by_cases hout : (offsetAt image i < low || offsetAt image i > high) = true
    · rw [if_pos hout, if_pos hout]
      rfl
    rw [if_neg hout, if_neg hout, entry_address]
    have hentry : (table + (8 * (i + 1)).toUInt64).toNat = table.toNat + 8 * (i + 1) :=
      toNat_add_toUInt64 (by omega)
    have hkeep : (m.writeWord (table + (8 * (i + 1)).toUInt64)
        (base + offsetAt image i)).readBytes base image.length = image := by
      rw [Memory.writeWord, Memory.readBytes_writeBytes_of_disjoint _ (by simp), hheld]
      intro p hp hq
      rw [Memory.inWindow_iff (by omega)] at hp
      rw [LittleEndian.length_encode, Memory.inWindow_iff (by omega), hentry] at hq
      omega
    have hplace : table + (8 * (i + 1)).toUInt64 + (8 : Nat).toUInt64 =
        table + (8 * (i + 1 + 1)).toUInt64 := by
      rw [add_toUInt64_add, Nat.mul_add 8 (i + 1) 1]
    rw [toUInt64_add_one, ih (i + 1) _ hkeep (by omega) (by omega), List.flatMap_cons,
      Memory.writeBytes_append, LittleEndian.length_encode, hplace, Memory.writeWord]

theorem length_addresses_le (image : Bytes) (base low high : UInt64) (n i : Nat) :
    (addresses image base low high n i).2.length ≤ n := by
  induction n generalizing i with
  | zero => rfl
  | succ n ih =>
    rw [addresses]
    dsimp only
    split
    · exact Nat.zero_le _
    · exact Nat.succ_le_succ (ih (i + 1))

private theorem outside_iff (offset low high : UInt64) :
    ¬(offset < low || offset > high) = true ↔
      low.toNat ≤ offset.toNat ∧ offset.toNat ≤ high.toNat := by
  rw [Bool.or_eq_true, decide_eq_true_eq, decide_eq_true_eq, not_or, gt_iff_lt,
    UInt64.lt_iff_toNat_lt, UInt64.lt_iff_toNat_lt, Nat.not_lt, Nat.not_lt]

private theorem addresses_of_inside {image : Bytes} {low high : UInt64} (base : UInt64) {n i : Nat}
    (h : ∀ j, i ≤ j → j < i + n →
      low.toNat ≤ (offsetAt image j).toNat ∧ (offsetAt image j).toNat ≤ high.toNat) :
    addresses image base low high n i =
      (.ok (), (List.range' i n).map fun j => base + offsetAt image j) := by
  induction n generalizing i with
  | zero => rfl
  | succ n ih =>
    rw [addresses]
    dsimp only
    rw [if_neg ((outside_iff _ _ _).mpr (h i le_rfl (by omega))),
      ih fun j hij hjn => h j (by omega) (by omega), List.range'_succ, List.map_cons]

private theorem inside_of_addresses {image : Bytes} {base low high : UInt64} {n i : Nat}
    (h : (addresses image base low high n i).1 = .ok ()) :
    ∀ j, i ≤ j → j < i + n →
      low.toNat ≤ (offsetAt image j).toNat ∧ (offsetAt image j).toNat ≤ high.toNat := by
  induction n generalizing i with
  | zero =>
    intro j hij hjn
    omega
  | succ n ih =>
    rw [addresses] at h
    dsimp only at h
    split at h
    · cases h
    rename_i hin
    intro j hij hjn
    rcases Nat.eq_or_lt_of_le hij with rfl | hlt
    · exact (outside_iff _ _ _).mp hin
    · exact ih h j hlt (by omega)

theorem install_eq {image : Bytes} {r : Region} {base : Address} (m : Memory)
    (hfile : image.length < fileLimit) (hroom : base.toNat + r.size.toNat < 2 ^ 64)
    (hbase : r.base = some base) (hadm : Admissible image r) :
    let count := claimedCount image
    let table := base + tableOffset (sizeOf image)
    let found := addresses image base (tableBytes count) (sizeOf image) (count.toNat + 1) 0
    install image r m =
      (found.1.map fun _ => ⟨table, footprint (sizeOf image) count, count, sizeOf image⟩,
        (m.writeBytes base image).writeBytes table
          ((count :: found.2).flatMap LittleEndian.encode)) := by
  have hle := le_roundUp image.length (show 0 < 8 by decide)
  have hfits := hadm.room
  have htable : (base + tableOffset (sizeOf image)).toNat =
      base.toNat + roundUp image.length 8 := by
    rw [toNat_add_of_lt (by rw [toNat_tableOffset hfile]; omega), toNat_tableOffset hfile]
  have hheld : ((m.writeBytes base image).writeWord (base + tableOffset (sizeOf image))
      (claimedCount image)).readBytes base image.length = image := by
    rw [Memory.writeWord, Memory.readBytes_writeBytes_of_disjoint _ (by simp),
      Memory.readBytes_writeBytes_self _ _ _ (by omega)]
    intro p hp hq
    rw [Memory.inWindow_iff (by omega)] at hp
    rw [LittleEndian.length_encode, Memory.inWindow_iff (by omega), htable] at hq
    omega
  have htable' := hadm.table
  have hrow := relocate_eq (base + tableOffset (sizeOf image)) (tableBytes (claimedCount image))
    (sizeOf image) (by omega) ((claimedCount image).toNat + 1) 0 _ hheld (by omega) (by omega)
  have hwords (ws : List UInt64) :
      ((m.writeBytes base image).writeWord (base + tableOffset (sizeOf image))
        (claimedCount image)).writeBytes (base + tableOffset (sizeOf image) +
          (8 * (0 + 1)).toUInt64) (ws.flatMap LittleEndian.encode) =
      (m.writeBytes base image).writeBytes (base + tableOffset (sizeOf image))
        ((claimedCount image :: ws).flatMap LittleEndian.encode) := by
    rw [List.flatMap_cons, Memory.writeBytes_append, LittleEndian.length_encode, Memory.writeWord]
  rw [hwords] at hrow
  simp only [install, (accept_eq_ok_iff hfile r base).mpr ⟨hbase, hadm⟩]
  rw [show (0 : UInt64) = (0 : Nat).toUInt64 from rfl, hrow]
  cases (addresses image base (tableBytes (claimedCount image)) (sizeOf image)
    ((claimedCount image).toNat + 1) 0).1 with
  | error f => rfl
  | ok u => rfl

/-- What an installation answers and writes does not depend on memory, and all it writes stays in
the region, whether the image is accepted or not. -/
theorem install_eq_writeAll {image : Bytes} {r : Region} {base : Address}
    (hfile : image.length < fileLimit) (hroom : base.toNat + r.size.toNat < 2 ^ 64)
    (hbase : r.base = some base) :
    ∃ answer ws, Confined base.toNat (base.toNat + r.size.toNat) ws ∧
      ∀ m, install image r m = (answer, m.writeAll ws) := by
  cases hacc : accept image r with
  | error f =>
    refine ⟨.error f, [], Confined.nil _ _, fun m => ?_⟩
    rw [install, hacc, Memory.writeAll_nil]
  | ok base' =>
    obtain ⟨hplace, hadm⟩ := (accept_eq_ok_iff hfile r base').mp hacc
    obtain rfl := Option.some.inj (hbase.symm.trans hplace)
    have hle := le_roundUp image.length (show 0 < 8 by decide)
    have hfits := hadm.room
    have hoffset := toNat_tableOffset hfile
    have htable : (base + tableOffset (sizeOf image)).toNat =
        base.toNat + roundUp image.length 8 := by
      rw [toNat_add_of_lt (by omega), hoffset]
    have hfew := length_addresses_le image base (tableBytes (claimedCount image)) (sizeOf image)
      ((claimedCount image).toNat + 1) 0
    refine ⟨(install image r .zeroed).1, [⟨base, image⟩, ⟨base + tableOffset (sizeOf image),
      (claimedCount image :: (addresses image base (tableBytes (claimedCount image)) (sizeOf image)
        ((claimedCount image).toNat + 1) 0).2).flatMap LittleEndian.encode⟩], ?_, fun m => ?_⟩
    rotate_left
    · rw [install_eq m hfile hroom hbase hadm, install_eq .zeroed hfile hroom hbase hadm,
        Memory.writeAll_cons, Memory.writeAll_cons, Memory.writeAll_nil]
    apply Confined.cons
    · exact le_rfl
    · dsimp only
      omega
    apply Confined.cons
    · dsimp only
      omega
    · rw [Memory.length_flatMap_encode, List.length_cons]
      dsimp only
      omega
    exact Confined.nil _ _

/-- The words of the table behind an installed image. -/
def installedWords (image : Bytes) (base : Address) : List UInt64 :=
  claimedCount image :: (List.range ((claimedCount image).toNat + 1)).map fun i =>
    base + offsetAt image i

@[simp] theorem length_installedWords (image : Bytes) (base : Address) :
    (installedWords image base).length = (claimedCount image).toNat + 2 := by
  simp [installedWords]

def tableAddress (image : Bytes) (base : Address) : Address := base + tableOffset (sizeOf image)

/-- All that makes an image acceptable to a region at `base`. -/
structure Accepted (image : Bytes) (r : Region) (base : Address) : Prop extends
    Admissible image r where
  short : image.length < fileLimit
  place : r.base = some base
  bounded : base.toNat + r.size.toNat < 2 ^ 64
  inside : OffsetsInside image

instance (image : Bytes) (r : Region) (base : Address) : Decidable (Accepted image r base) :=
  decidable_of_iff (Admissible image r ∧ image.length < fileLimit ∧ r.base = some base ∧
    base.toNat + r.size.toNat < 2 ^ 64 ∧ OffsetsInside image)
    ⟨fun ⟨hadm, hshort, hplace, hbounded, hinside⟩ => ⟨hadm, hshort, hplace, hbounded, hinside⟩,
      fun h => ⟨h.toAdmissible, h.short, h.place, h.bounded, h.inside⟩⟩

private theorem table_limits {image : Bytes} {r : Region} (hfile : image.length < fileLimit)
    (hadm : Admissible image r) :
    (tableBytes (claimedCount image)).toNat = 8 * ((claimedCount image).toNat + 2) ∧
      (sizeOf image).toNat = image.length := by
  have hcount := hadm.count
  rw [fileLimit] at hfile
  exact ⟨toNat_tableBytes _ (by omega), toNat_sizeOf (by omega)⟩

theorem install_of_accepted {image : Bytes} {r : Region} {base : Address}
    (h : Accepted image r base) (m : Memory) :
    install image r m =
      (.ok ⟨tableAddress image base, footprint (sizeOf image) (claimedCount image),
          claimedCount image, sizeOf image⟩,
        (m.writeBytes base image).writeBytes (tableAddress image base)
          ((installedWords image base).flatMap LittleEndian.encode)) := by
  obtain ⟨hlow, hhigh⟩ := table_limits h.short h.toAdmissible
  rw [install_eq m h.short h.bounded h.place h.toAdmissible, addresses_of_inside, installedWords,
    List.range_eq_range']
  · rfl
  · intro j _ hj
    rw [hlow, hhigh]
    exact h.inside j (by omega)

theorem accepted_of_install {image : Bytes} {r : Region} {m m' : Memory} {i : Installed}
    (hfile : image.length < fileLimit)
    (hroom : ∀ base ∈ r.base, base.toNat + r.size.toNat < 2 ^ 64)
    (h : install image r m = (.ok i, m')) : ∃ base, Accepted image r base := by
  cases hacc : accept image r with
  | error f =>
    rw [install, hacc] at h
    cases h
  | ok base =>
    obtain ⟨hbase, hadm⟩ := (accept_eq_ok_iff hfile r base).mp hacc
    obtain ⟨hlow, hhigh⟩ := table_limits hfile hadm
    refine ⟨base, hadm, hfile, hbase, hroom base hbase, fun i hi => ?_⟩
    rw [install_eq m hfile (hroom base hbase) hbase hadm] at h
    cases hfound : (addresses image base (tableBytes (claimedCount image)) (sizeOf image)
      ((claimedCount image).toNat + 1) 0).1 with
    | error f =>
      rw [hfound] at h
      cases h
    | ok u =>
      have hin := inside_of_addresses hfound i (Nat.zero_le i) (by omega)
      rwa [hlow, hhigh] at hin

theorem accepted_of_install_at {image : Bytes} {r : Region} {base : Address} {m m' : Memory}
    {i : Installed} (hfile : image.length < fileLimit) (hroom : base.toNat + r.size.toNat < 2 ^ 64)
    (hplace : r.base = some base) (h : install image r m = (.ok i, m')) :
    Accepted image r base := by
  have hplaces : ∀ base' ∈ r.base, base'.toNat + r.size.toNat < 2 ^ 64 := by
    intro base' hplace'
    obtain rfl := Option.some.inj (hplace.symm.trans hplace')
    exact hroom
  obtain ⟨base', hacc⟩ := accepted_of_install hfile hplaces h
  obtain rfl := Option.some.inj (hplace.symm.trans hacc.place)
  exact hacc

theorem Accepted.exists_install {image : Bytes} {r : Region} {base : Address}
    (h : Accepted image r base) (m : Memory) : ∃ i m', install image r m = (.ok i, m') :=
  ⟨_, _, install_of_accepted h m⟩

theorem install_accepts_iff {image : Bytes} {r : Region} {base : Address} (m : Memory)
    (hfile : image.length < fileLimit) (hroom : base.toNat + r.size.toNat < 2 ^ 64)
    (hplace : r.base = some base) :
    (∃ i m', install image r m = (.ok i, m')) ↔ Accepted image r base := by
  constructor
  · rintro ⟨i, m', h⟩
    exact accepted_of_install_at hfile hroom hplace h
  · intro h
    exact h.exists_install m

end EmbeddedApps.Image
