import EmbeddedApps.Bundle.Basic
import EmbeddedApps.Proofs.Memory.Window
import Mathlib

/-!
# Segments of an image

Behind its table an image is a row of segments, one for each program. A segment is the program
with the padding that brings the next one to its alignment; the last program has none. The table
holds the places where the segments meet.
-/

namespace EmbeddedApps.Image

def padded (alignment : Nat) (program : Bytes) : Bytes :=
  program ++ List.replicate (roundUp program.length alignment - program.length) 0

/-- What the programs take up: all but the last are padded. -/
def segments (alignment : Nat) : List Bytes → List Bytes
  | [] => []
  | [p] => [p]
  | p :: q :: ps => padded alignment p :: segments alignment (q :: ps)

/-- The places where segments meet that are laid out from `first` on, with both ends. -/
def boundaries (first : Nat) : List Bytes → List Nat
  | [] => [first]
  | s :: ss => first :: boundaries (first + s.length) ss

theorem length_padded {alignment : Nat} (ha : 0 < alignment) (program : Bytes) :
    (padded alignment program).length = roundUp program.length alignment := by
  have hle := le_roundUp program.length ha
  rw [padded, List.length_append, List.length_replicate]
  omega

@[simp] theorem length_segments (alignment : Nat) (ps : List Bytes) :
    (segments alignment ps).length = ps.length := by
  induction ps with
  | nil => rfl
  | cons p ps ih =>
    cases ps with
    | nil => rfl
    | cons q ps => simpa [segments] using ih

theorem getElem_segments (alignment : Nat) (ps : List Bytes) {i : Nat} (h : i < ps.length)
    (hs : i < (segments alignment ps).length) :
    (segments alignment ps)[i] = if i + 1 < ps.length then padded alignment ps[i] else ps[i] := by
  induction ps generalizing i with
  | nil => simp at h
  | cons p ps ih =>
    cases ps with
    | nil =>
      have hi : i = 0 := by simpa using h
      subst hi
      rfl
    | cons q ps =>
      cases i with
      | zero => simp [segments]
      | succ i => simpa [segments] using ih (by simpa using h) (by simpa using h)

private theorem dvd_length_segments {alignment : Nat} (ha : 0 < alignment) (ps : List Bytes)
    {i : Nat}
    (h : i + 1 < ps.length) (hs : i < (segments alignment ps).length) :
    alignment ∣ (segments alignment ps)[i].length := by
  rw [getElem_segments alignment ps (by omega), if_pos h, length_padded ha]
  exact dvd_roundUp _ _

theorem toNat_dvd_of_isImageAlignment {a : UInt64} (h : isImageAlignment a = true) :
    a.toNat ∣ Limits.imageAlignment.toNat := by
  obtain ⟨hpow, hmax⟩ := Bool.and_eq_true_iff.mp h
  obtain ⟨k, -, hk⟩ := (isPowerOfTwo_iff a).mp hpow
  have hle : a.toNat ≤ 2 ^ 12 := UInt64.le_iff_toNat_le.mp (of_decide_eq_true hmax)
  have hlimit : Limits.imageAlignment.toNat = 2 ^ 12 := rfl
  rw [hk] at hle ⊢
  rw [hlimit]
  exact Nat.pow_dvd_pow 2 ((Nat.pow_le_pow_iff_right (by decide)).mp hle)

/-- Padding never makes a program too large for a limit that is a multiple of the alignment. -/
theorem length_segments_le_iff {alignment limit : Nat} (ha : 0 < alignment)
    (hlimit : alignment ∣ limit) (ps : List Bytes) {i : Nat} (h : i < ps.length)
    (hs : i < (segments alignment ps).length) :
    (segments alignment ps)[i].length ≤ limit ↔ ps[i].length ≤ limit := by
  rw [getElem_segments alignment ps h]
  split
  · rw [length_padded ha, roundUp_le_iff ha hlimit]
  · rfl

/-- Filled up with zeros, a segment is the same as its program. -/
theorem segments_append_zeros {alignment limit : Nat} (ha : 0 < alignment) (ps : List Bytes)
    {i : Nat} (h : i < ps.length) (hs : i < (segments alignment ps).length)
    (hlimit : (segments alignment ps)[i].length ≤ limit) :
    (segments alignment ps)[i] ++ List.replicate (limit - (segments alignment ps)[i].length) 0 =
      ps[i] ++ List.replicate (limit - ps[i].length) 0 := by
  rw [getElem_segments alignment ps h] at hlimit ⊢
  split
  · rename_i hnext
    have hle := le_roundUp ps[i].length ha
    rw [if_pos hnext, length_padded ha] at hlimit
    have hzeros : roundUp ps[i].length alignment - ps[i].length +
        (limit - roundUp ps[i].length alignment) = limit - ps[i].length := by omega
    rw [length_padded ha, padded, List.append_assoc, List.replicate_append_replicate, hzeros]
  · rfl

@[simp] theorem length_boundaries (first : Nat) (ss : List Bytes) :
    (boundaries first ss).length = ss.length + 1 := by
  induction ss generalizing first with
  | nil => rfl
  | cons s ss ih => rw [boundaries, List.length_cons, ih, List.length_cons]

theorem getElem_boundaries (first : Nat) (ss : List Bytes) {i : Nat}
    (h : i < (boundaries first ss).length) :
    (boundaries first ss)[i] = first + (ss.take i).flatten.length := by
  induction ss generalizing first i with
  | nil => simp [boundaries]
  | cons s ss ih =>
    cases i with
    | zero => simp [boundaries]
    | succ i =>
      simp only [boundaries, List.getElem_cons_succ, List.take_succ_cons, List.flatten_cons,
        List.length_append]
      rw [ih, Nat.add_assoc]

theorem getElem_boundaries_succ (first : Nat) (ss : List Bytes) {i : Nat} (h : i < ss.length)
    (hi : i < (boundaries first ss).length) (hn : i + 1 < (boundaries first ss).length) :
    (boundaries first ss)[i + 1] = (boundaries first ss)[i] + ss[i].length := by
  rw [getElem_boundaries, getElem_boundaries, List.take_succ_eq_append_getElem h,
    List.flatten_append, List.length_append]
  simp [Nat.add_assoc]

theorem getElem_boundaries_le (first : Nat) (ss : List Bytes) {i : Nat}
    (h : i < (boundaries first ss).length) :
    (boundaries first ss)[i] ≤ first + ss.flatten.length := by
  have hsplit := congrArg (fun l => (List.flatten l).length) (List.take_append_drop i ss)
  simp only [List.flatten_append, List.length_append] at hsplit
  rw [getElem_boundaries]
  omega

theorem dvd_getElem_boundaries {alignment first : Nat} (ha : 0 < alignment)
    (hfirst : alignment ∣ first) (ps : List Bytes) {i : Nat} (h : i < ps.length)
    (hi : i < (boundaries first (segments alignment ps)).length) :
    alignment ∣ (boundaries first (segments alignment ps))[i] := by
  induction i with
  | zero => simpa [getElem_boundaries] using hfirst
  | succ i ih =>
    rw [getElem_boundaries_succ _ _ (by simp; omega) (by omega)]
    exact Nat.dvd_add (ih (by omega) (by omega)) (dvd_length_segments ha ps h (by simp; omega))

theorem take_drop_boundaries {front : Bytes} {first : Nat} (hfront : front.length = first)
    (ss : List Bytes) {i : Nat} (h : i < ss.length) (hi : i < (boundaries first ss).length) :
    ((front ++ ss.flatten).drop (boundaries first ss)[i]).take ss[i].length = ss[i] := by
  subst hfront
  have hsplit : ss.flatten = (ss.take i).flatten ++ (ss[i] ++ (ss.drop (i + 1)).flatten) := by
    rw [← List.flatten_cons, ← List.drop_eq_getElem_cons h, ← List.flatten_append,
      List.take_append_drop]
  rw [getElem_boundaries, List.drop_length_add_append, hsplit, List.drop_append_length,
    List.take_append_length]

@[simp] theorem toNat_sizeOf {program : Bytes} (h : program.length < 2 ^ 64) :
    (sizeOf program).toNat = program.length := toNat_toUInt64_of_lt h

private theorem alignUp_of_fits {alignment : UInt64} (ha : isPowerOfTwo alignment = true)
    (c : UInt64) (hfit : c.toNat + (alignUp c alignment - c).toNat < 2 ^ 64) :
    (alignUp c alignment).toNat = roundUp c.toNat alignment.toNat ∧
      (alignUp c alignment - c).toNat = roundUp c.toNat alignment.toNat - c.toNat := by
  have hpos := pos_of_isPowerOfTwo ha
  have hle := le_roundUp c.toNat hpos
  have hup := toNat_alignUp c ha
  have hlt := roundUp_lt_add c.toNat hpos
  have hword := alignment.toNat_lt
  have hc := c.toNat_lt
  rw [UInt64.toNat_sub, hup] at hfit
  rw [UInt64.toNat_sub, hup]
  omega

/-- Placed from any cursor on, programs make up their segments behind a gap, and the places they
get are the boundaries of the segments. -/
private theorem blobs_place_cons {alignment : UInt64} (ha : isPowerOfTwo alignment = true)
    (p : Bytes) (ps : List Bytes) (c : UInt64)
    (hfit : c.toNat + (blobs c ((Placement.place alignment c ((p :: ps).map sizeOf)).zip
      (p :: ps))).length < 2 ^ 64) :
    let start := roundUp c.toNat alignment.toNat
    let es := Placement.place alignment c ((p :: ps).map sizeOf)
    blobs c (es.zip (p :: ps)) = List.replicate (start - c.toNat) 0 ++
        (segments alignment.toNat (p :: ps)).flatten ∧
      es.map Extent.start ++ [Placement.finish c es] =
        (boundaries start (segments alignment.toNat (p :: ps))).map Nat.toUInt64 := by
  induction ps generalizing p c with
  | nil =>
    simp only [List.map_cons, List.map_nil, Placement.place, List.zip_cons_cons, List.zip_nil_right,
      blobs, List.append_nil, List.length_append, List.length_replicate] at hfit ⊢
    obtain ⟨hstart, hgap⟩ := alignUp_of_fits ha c (by omega)
    have hsize := toNat_sizeOf (show p.length < 2 ^ 64 by omega)
    refine ⟨by simp [hgap, segments], ?_⟩
    simp [Placement.finish, segments, boundaries, ← hstart, sizeOf]
  | cons q ps ih =>
    rw [List.map_cons, Placement.place, List.zip_cons_cons, blobs, List.length_append,
      List.length_append, List.length_replicate] at hfit
    dsimp only at hfit
    obtain ⟨hstart, hgap⟩ := alignUp_of_fits ha c (by omega)
    have hpos := pos_of_isPowerOfTwo ha
    have hsize := toNat_sizeOf (show p.length < 2 ^ 64 by omega)
    have hle := le_roundUp c.toNat hpos
    have hstop : (alignUp c alignment + sizeOf p).toNat =
        roundUp c.toNat alignment.toNat + p.length := by
      rw [toNat_add_of_lt (by rw [hstart, hsize]; omega), hstart, hsize]
    obtain ⟨hblobs, hbounds⟩ := ih q (alignUp c alignment + sizeOf p) (by rw [hstop]; omega)
    have hnext : roundUp (alignUp c alignment + sizeOf p).toNat alignment.toNat =
        roundUp c.toNat alignment.toNat + roundUp p.length alignment.toNat := by
      rw [hstop, roundUp_add_of_dvd _ hpos (dvd_roundUp _ _)]
    rw [hnext] at hblobs hbounds
    rw [hstop] at hblobs
    refine ⟨?_, ?_⟩
    · rw [List.map_cons, Placement.place, List.zip_cons_cons, blobs, hblobs, hgap, segments,
        List.flatten_cons, padded, Nat.add_sub_add_left, List.append_assoc]
    · rw [List.map_cons, Placement.place, List.map_cons, List.cons_append, Placement.finish_cons,
        hbounds, segments, boundaries, length_padded hpos, List.map_cons, ← hstart]
      simp

private theorem blobs_place {alignment c : UInt64} (ha : isPowerOfTwo alignment = true)
    (hc : alignment.toNat ∣ c.toNat) (ps : List Bytes)
    (hfit : c.toNat + (blobs c ((Placement.place alignment c (ps.map sizeOf)).zip ps)).length <
      2 ^ 64) :
    blobs c ((Placement.place alignment c (ps.map sizeOf)).zip ps) =
        (segments alignment.toNat ps).flatten ∧
      (Placement.place alignment c (ps.map sizeOf)).map Extent.start ++
          [Placement.finish c (Placement.place alignment c (ps.map sizeOf))] =
        (boundaries c.toNat (segments alignment.toNat ps)).map Nat.toUInt64 := by
  cases ps with
  | nil => simp [Placement.place, Placement.finish, blobs, segments, boundaries]
  | cons p ps =>
    have hplaced := blobs_place_cons ha p ps c hfit
    simpa only [roundUp_of_dvd (pos_of_isPowerOfTwo ha) hc, Nat.sub_self, List.replicate_zero,
      List.nil_append] using hplaced

def leadingBytes (alignment count : Nat) : Nat := roundUp (8 * (count + 2)) alignment

theorem toNat_tableBytes (count : UInt64) (h : 8 * (count.toNat + 2) < 2 ^ 64) :
    (tableBytes count).toNat = 8 * (count.toNat + 2) := by
  have hentry : Limits.entrySize.toNat = 8 := rfl
  have hcount : (count + 1).toNat = count.toNat + 1 := by
    rw [toNat_add_of_lt (by rw [UInt64.toNat_one]; omega), UInt64.toNat_one]
  have hentries : ((count + 1) * Limits.entrySize).toNat = (count.toNat + 1) * 8 := by
    rw [toNat_mul_of_lt (by rw [hcount, hentry]; omega), hcount, hentry]
  rw [tableBytes, toNat_add_of_lt (by rw [hentry, hentries]; omega), hentry, hentries]
  omega

/-- An image is its table, a gap, and the segments. -/
theorem encode_eq_segments {alignment : UInt64} (ha : isImageAlignment alignment = true)
    (ps : List Bytes) (hlen : (encode alignment ps).length < 2 ^ 64) :
    let first := leadingBytes alignment.toNat ps.length
    let ss := segments alignment.toNat ps
    encode alignment ps =
      ((ps.length :: boundaries first ss).map Nat.toUInt64).flatMap LittleEndian.encode ++
        (List.replicate (first - 8 * (ps.length + 2)) 0 ++ ss.flatten) := by
  have hpow := (Bool.and_eq_true_iff.mp ha).1
  have htable : ((tableWords alignment ps).flatMap LittleEndian.encode).length =
      8 * (ps.length + 2) := by
    rw [Memory.length_flatMap_encode]
    simp [tableWords, layout]
  rw [encode, List.length_append, htable, List.length_append, List.length_replicate] at hlen
  have hcount : ps.length.toUInt64.toNat = ps.length := toNat_toUInt64_of_lt (by omega)
  have hbytes := toNat_tableBytes ps.length.toUInt64 (by rw [hcount]; omega)
  rw [hcount] at hbytes
  obtain ⟨hfirst, hgap⟩ := alignUp_of_fits hpow (tableBytes ps.length.toUInt64)
    (by rw [firstOffset] at hlen; omega)
  rw [hbytes, ← firstOffset, ← leadingBytes] at hfirst hgap
  have hle : 8 * (ps.length + 2) ≤ leadingBytes alignment.toNat ps.length :=
    le_roundUp _ (pos_of_isPowerOfTwo hpow)
  rw [hgap] at hlen
  have hplaced := blobs_place (c := firstOffset alignment ps.length.toUInt64) hpow
    (hfirst ▸ dvd_roundUp _ _) ps (by rw [← layout, hfirst]; omega)
  rw [hfirst] at hplaced
  rw [encode, tableWords, hgap, layout, List.cons_append, hplaced.2, hplaced.1]
  rfl

end EmbeddedApps.Image
