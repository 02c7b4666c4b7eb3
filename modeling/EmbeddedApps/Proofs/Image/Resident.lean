import EmbeddedApps.Proofs.Directory
import EmbeddedApps.Proofs.Image.Install
import Mathlib

/-!
# Installed images in memory

An image is resident while its bytes and the words of the table behind it are in place. What a
directory on that table answers is then read off the image.
-/

namespace EmbeddedApps.Image

/-- The bytes of the image and the words of its table are in memory. -/
structure Resident (image : Bytes) (base : Address) (m : Memory) : Prop where
  bytes : m.readBytes base image.length = image
  words : m.readBytes (tableAddress image base) (8 * ((claimedCount image).toNat + 2)) =
    (installedWords image base).flatMap LittleEndian.encode

variable {image : Bytes} {r : Region} {base : Address} {m m' : Memory}

theorem Accepted.toNat_tableAddress (h : Accepted image r base) :
    (tableAddress image base).toNat = base.toNat + roundUp image.length 8 := by
  have htable := toNat_tableOffset h.short
  have hroom := h.room
  have hbounded := h.bounded
  rw [tableAddress, toNat_add_of_lt (by omega), htable]

/-- Image and table lie in the region, one behind the other. -/
theorem Accepted.le_tableAddress (h : Accepted image r base) :
    base.toNat + image.length ≤ (tableAddress image base).toNat ∧
      (tableAddress image base).toNat + 8 * ((claimedCount image).toNat + 2) ≤
        base.toNat + r.size.toNat := by
  have hplace := h.toNat_tableAddress
  have hle := le_roundUp image.length (show 0 < 8 by decide)
  have hroom := h.room
  omega

private theorem resident_of_accepted (h : Accepted image r base) (m : Memory) :
    Resident image base ((m.writeBytes base image).writeBytes (tableAddress image base)
      ((installedWords image base).flatMap LittleEndian.encode)) := by
  obtain ⟨hbehind, htop⟩ := h.le_tableAddress
  have hbounded := h.bounded
  have hwords := Memory.length_flatMap_encode (installedWords image base)
  rw [length_installedWords] at hwords
  constructor
  · rw [Memory.readBytes_writeBytes_of_disjoint _ (by omega),
      Memory.readBytes_writeBytes_self _ _ _ (by omega)]
    intro p hp hq
    rw [Memory.inWindow_iff (by omega)] at hp
    rw [hwords, Memory.inWindow_iff (by omega)] at hq
    omega
  · rw [← hwords, Memory.readBytes_writeBytes_self _ _ _ (by omega)]

theorem resident_of_install {i : Installed} (h : Accepted image r base)
    (hok : install image r m = (.ok i, m')) :
    i.table = tableAddress image base ∧ i.count = claimedCount image ∧
      Resident image base m' := by
  rw [install_of_accepted h] at hok
  obtain ⟨hi, rfl⟩ := Prod.mk.inj hok
  obtain rfl := Except.ok.inj hi
  exact ⟨rfl, rfl, resident_of_accepted h m⟩

theorem Resident.congr (h : Accepted image r base) (hm : Resident image base m)
    (hsame : ∀ c, Memory.InWindow base r.size.toNat c → m.read c = m'.read c) :
    Resident image base m' := by
  obtain ⟨hbehind, htop⟩ := h.le_tableAddress
  have hbounded := h.bounded
  constructor
  · rw [← Memory.readBytes_congr fun c hc => ?_]
    · exact hm.bytes
    · apply hsame
      rw [Memory.inWindow_iff (by omega)] at hc ⊢
      omega
  · rw [← Memory.readBytes_congr fun c hc => ?_]
    · exact hm.words
    · apply hsame
      rw [Memory.inWindow_iff (by omega)] at hc ⊢
      omega

def HoldsTable (image : Bytes) (base table : Address) (m : Memory) : Prop :=
  m.readBytes table (8 * ((claimedCount image).toNat + 2)) =
    (installedWords image base).flatMap LittleEndian.encode

def tableBoundaries (image : Bytes) (table : Address) : Boundaries :=
  ⟨table + Limits.entrySize, claimedCount image⟩

/-- Added to an address, no offset of the image wraps around. -/
def NoWrap (image : Bytes) (base : Address) : Prop :=
  ∀ i ≤ (claimedCount image).toNat,
    (base + offsetAt image i).toNat = base.toNat + (offsetAt image i).toNat

namespace HoldsTable

variable {table : Address}

private theorem readWord (hm : HoldsTable image base table m) {i : Nat}
    (hi : i < (installedWords image base).length) :
    m.readWord (table + (8 * i).toUInt64) = (installedWords image base)[i] := by
  have hlen := hi
  rw [length_installedWords] at hlen
  rw [Memory.readWord, ← Memory.take_drop_readBytes m _ (show 8 * i + 8 ≤
    8 * ((claimedCount image).toNat + 2) by omega), hm, Memory.take_drop_flatMap_encode _ hi,
    LittleEndian.decode_encode]

theorem readWord_count (hm : HoldsTable image base table m) :
    m.readWord table = claimedCount image := by
  have h := hm.readWord (i := 0) (by simp)
  simpa [installedWords] using h

private theorem tableAt_eq (hm : HoldsTable image base table m) :
    Directory.tableAt m table = tableBoundaries image table := by
  rw [Directory.tableAt, hm.readWord_count, tableBoundaries]

private theorem at_eq (hm : HoldsTable image base table m) {i : Nat}
    (hi : i ≤ (claimedCount image).toNat) :
    (tableBoundaries image table).at m i.toUInt64 = base + offsetAt image i := by
  have hplace : table + Limits.entrySize + Limits.entrySize * i.toUInt64 =
      table + (8 * (i + 1)).toUInt64 := by
    rw [UInt64.add_assoc, Nat.mul_add 8 i 1, Nat.toUInt64_eq, Nat.toUInt64_eq, UInt64.ofNat_add,
      UInt64.ofNat_mul, UInt64.add_comm Limits.entrySize]
    rfl
  rw [Boundaries.at, tableBoundaries, hplace, hm.readWord (by simp; omega)]
  simp [installedWords]

private theorem ascending_iff (hm : HoldsTable image base table m) (h : NoWrap image base) :
    (tableBoundaries image table).Ascending m ↔ OffsetsAscending image := by
  refine forall₂_congr fun i hi => ?_
  have hlt : i < (claimedCount image).toNat := hi
  rw [toUInt64_add_one, hm.at_eq hlt.le, hm.at_eq (i := i + 1) hlt, UInt64.le_iff_toNat_le,
    UInt64.le_iff_toNat_le, h i hlt.le, h (i + 1) hlt]
  omega

theorem rangeOf? (hm : HoldsTable image base table m) {i : Nat}
    (hi : i < (claimedCount image).toNat) (hword : i < 2 ^ 63) :
    (Directory.mk (some (tableBoundaries image table))).rangeOf? m (Int64.ofNat i) =
      some ⟨base + offsetAt image i, base + offsetAt image (i + 1)⟩ := by
  rw [Directory.rangeOf?_of_lt m hi hword, toUInt64_add_one, hm.at_eq (by omega),
    hm.at_eq (by omega)]

theorem buildFromTable (hm : HoldsTable image base table m)
    (hcount : (claimedCount image).toNat ≤ 65536) (h : NoWrap image base)
    (hasc : OffsetsAscending image) :
    Directory.empty.buildFromTable m (some table) = .ok ⟨some (tableBoundaries image table)⟩ := by
  rw [← hm.tableAt_eq]
  apply Directory.buildFromTable_of_ascending
  · rwa [hm.readWord_count]
  · rw [hm.tableAt_eq]
    exact (hm.ascending_iff h).mpr hasc

end HoldsTable

def appBoundaries (image : Bytes) (base : Address) : Boundaries :=
  ⟨tableAddress image base + Limits.entrySize, claimedCount image⟩

theorem Resident.holdsTable (hm : Resident image base m) :
    HoldsTable image base (tableAddress image base) m := hm.words

theorem Resident.tableAt_eq (hm : Resident image base m) :
    Directory.tableAt m (tableAddress image base) = appBoundaries image base :=
  hm.holdsTable.tableAt_eq

private theorem Resident.at_eq (hm : Resident image base m) {i : Nat}
    (hi : i ≤ (claimedCount image).toNat) :
    (appBoundaries image base).at m i.toUInt64 = base + offsetAt image i :=
  hm.holdsTable.at_eq hi

theorem Resident.same (hm : Resident image base m) (hm' : Resident image base m') :
    (appBoundaries image base).Same m m' := by
  intro i hi
  rw [hm.at_eq hi, hm'.at_eq hi]

theorem Accepted.noWrap (h : Accepted image r base) : NoWrap image base := by
  intro i hi
  obtain ⟨-, hhigh⟩ := h.inside i hi
  obtain ⟨hbehind, htop⟩ := h.le_tableAddress
  have hbounded := h.bounded
  rw [toNat_add_of_lt (by omega)]

theorem Resident.ascending_iff (h : Accepted image r base) (hm : Resident image base m) :
    (appBoundaries image base).Ascending m ↔ OffsetsAscending image :=
  hm.holdsTable.ascending_iff h.noWrap

theorem Resident.rangeOf? (h : Accepted image r base) (hm : Resident image base m) {i : Nat}
    (hi : i < (claimedCount image).toNat) :
    (Directory.mk (some (appBoundaries image base))).rangeOf? m (Int64.ofNat i) =
      some ⟨base + offsetAt image i, base + offsetAt image (i + 1)⟩ := by
  have hfew := h.count
  exact hm.holdsTable.rangeOf? hi (by omega)

theorem Resident.readBytes (hm : Resident image base m) {lo : UInt64} {n : Nat}
    (hin : lo.toNat + n ≤ image.length) :
    m.readBytes (base + lo) n = (image.drop lo.toNat).take n := by
  have h := Memory.take_drop_readBytes m base hin
  rw [hm.bytes] at h
  simpa using h.symm

theorem Resident.buildFromTable (h : Accepted image r base) (hm : Resident image base m)
    (hasc : OffsetsAscending image) :
    Directory.empty.buildFromTable m (some (tableAddress image base)) =
      .ok ⟨some (appBoundaries image base)⟩ :=
  hm.holdsTable.buildFromTable h.count h.noWrap hasc

theorem Resident.buildFromTable_congr (h : Accepted image r base) (hm : Resident image base m)
    (hm' : Resident image base m') :
    Directory.empty.buildFromTable m (some (tableAddress image base)) =
      Directory.empty.buildFromTable m' (some (tableAddress image base)) := by
  apply Directory.buildFromTable_congr
  · rw [hm.holdsTable.readWord_count]
    exact h.count
  · rw [hm.holdsTable.readWord_count, hm'.holdsTable.readWord_count]
  · rw [hm.tableAt_eq]
    exact hm.same hm'

theorem Resident.buildFromTable_of_not_ascending (h : Accepted image r base)
    (hm : Resident image base m) (hnot : ¬OffsetsAscending image) :
    ∃ k left right, Directory.empty.buildFromTable m (some (tableAddress image base)) =
      .error (.decreasing k left right) := by
  apply Directory.buildFromTable_of_not_ascending
  · rw [hm.holdsTable.readWord_count]
    exact h.count
  · rw [hm.tableAt_eq]
    exact fun hup => hnot ((hm.ascending_iff h).mp hup)

end EmbeddedApps.Image
