import EmbeddedApps.Proofs.Image.Resident
import Mathlib

/-!
# Images of programs

What an installation reads off an encoded image: the number of programs, the places where segments
meet as offsets, and each segment behind its offset.
-/

namespace EmbeddedApps.Image

def offsets (alignment : Nat) (ps : List Bytes) : List Nat :=
  boundaries (leadingBytes alignment ps.length) (segments alignment ps)

@[simp] theorem length_offsets (alignment : Nat) (ps : List Bytes) :
    (offsets alignment ps).length = ps.length + 1 := by
  rw [offsets, length_boundaries, length_segments]

variable {alignment : UInt64} {ps : List Bytes} {r : Region} {base : Address} {m : Memory} {i : Nat}

private theorem decode_word (ws : List UInt64) (rest : Bytes) (h : i < ws.length) :
    LittleEndian.decode (((ws.flatMap LittleEndian.encode ++ rest).drop (8 * i)).take 8) =
      ws[i] := by
  have hbytes := Memory.length_flatMap_encode ws
  rw [List.drop_append_of_le_length (by omega), List.take_append_of_le_length (by simp; omega),
    Memory.take_drop_flatMap_encode ws h, LittleEndian.decode_encode]

private theorem length_front (ha : isImageAlignment alignment = true) (ps : List Bytes) :
    ((((ps.length :: offsets alignment.toNat ps).map Nat.toUInt64).flatMap LittleEndian.encode) ++
      List.replicate
        (leadingBytes alignment.toNat ps.length - 8 * (ps.length + 2)) (0 : UInt8)).length =
        leadingBytes alignment.toNat ps.length := by
  have hle : 8 * (ps.length + 2) ≤ leadingBytes alignment.toNat ps.length :=
    le_roundUp _ (pos_of_isPowerOfTwo (Bool.and_eq_true_iff.mp ha).1)
  rw [List.length_append, Memory.length_flatMap_encode, List.length_map, List.length_cons,
    length_offsets, List.length_replicate]
  omega

theorem length_encode (ha : isImageAlignment alignment = true)
    (hlen : (encode alignment ps).length < 2 ^ 64) :
    (encode alignment ps).length =
      leadingBytes alignment.toNat ps.length + (segments alignment.toNat ps).flatten.length := by
  have hfront := length_front ha ps
  rw [offsets] at hfront
  rw [encode_eq_segments ha ps hlen, ← List.append_assoc, List.length_append, hfront]

theorem claimedCount_encode (ha : isImageAlignment alignment = true)
    (hlen : (encode alignment ps).length < 2 ^ 64) :
    claimedCount (encode alignment ps) = ps.length.toUInt64 := by
  have hword := decode_word ((ps.length :: offsets alignment.toNat ps).map Nat.toUInt64)
    (List.replicate (leadingBytes alignment.toNat ps.length - 8 * (ps.length + 2)) 0 ++
      (segments alignment.toNat ps).flatten) (i := 0) (by simp)
  rw [Nat.mul_zero, List.drop_zero] at hword
  rw [claimedCount, encode_eq_segments ha ps hlen, ← offsets, hword, List.getElem_map,
    List.getElem_cons_zero]

theorem offsetAt_encode (ha : isImageAlignment alignment = true)
    (hlen : (encode alignment ps).length < 2 ^ 64)
    (hi : i < (offsets alignment.toNat ps).length) :
    offsetAt (encode alignment ps) i = (offsets alignment.toNat ps)[i].toUInt64 := by
  rw [offsetAt, encode_eq_segments ha ps hlen, ← offsets, decode_word _ _ (by simpa using hi),
    List.getElem_map, List.getElem_cons_succ]

theorem table_le_length_encode (ha : isImageAlignment alignment = true)
    (hlen : (encode alignment ps).length < fileLimit) :
    8 * (ps.length + 2) ≤ (encode alignment ps).length := by
  have hle : 8 * (ps.length + 2) ≤ leadingBytes alignment.toNat ps.length :=
    le_roundUp _ (pos_of_isPowerOfTwo (Bool.and_eq_true_iff.mp ha).1)
  have hall := length_encode ha (hlen.trans (by decide))
  omega

theorem toNat_claimedCount_encode (ha : isImageAlignment alignment = true)
    (hlen : (encode alignment ps).length < fileLimit) :
    (claimedCount (encode alignment ps)).toNat = ps.length := by
  have hfew := table_le_length_encode ha hlen
  rw [claimedCount_encode ha (hlen.trans (by decide)), toNat_toUInt64_of_lt]
  rw [fileLimit] at hlen
  omega

private theorem toNat_offsetAt_encode (ha : isImageAlignment alignment = true)
    (hlen : (encode alignment ps).length < fileLimit)
    (hi : i < (offsets alignment.toNat ps).length) :
    (offsetAt (encode alignment ps) i).toNat = (offsets alignment.toNat ps)[i] := by
  have hword := hlen.trans (show fileLimit < 2 ^ 64 by decide)
  have hend := getElem_boundaries_le _ _ hi
  rw [← length_encode ha hword] at hend
  rw [offsetAt_encode ha hword hi, toNat_toUInt64_of_lt]
  exact hend.trans_lt hword

/-- Behind its offset lies each segment. -/
theorem take_drop_encode (ha : isImageAlignment alignment = true)
    (hlen : (encode alignment ps).length < fileLimit)
    (hi : i < (segments alignment.toNat ps).length) :
    ((encode alignment ps).drop (offsetAt (encode alignment ps) i).toNat).take
      (segments alignment.toNat ps)[i].length = (segments alignment.toNat ps)[i] := by
  have hin := hi
  rw [length_segments] at hin
  rw [toNat_offsetAt_encode ha hlen (by simp; omega),
    encode_eq_segments ha ps (hlen.trans (by decide)), ← offsets,
    ← List.append_assoc]
  exact take_drop_boundaries (length_front ha ps) _ hi _

private theorem offsets_succ (hi : i < (segments alignment.toNat ps).length)
    (hc : i < (offsets alignment.toNat ps).length)
    (hn : i + 1 < (offsets alignment.toNat ps).length) :
    (offsets alignment.toNat ps)[i + 1] =
      (offsets alignment.toNat ps)[i] + (segments alignment.toNat ps)[i].length :=
  getElem_boundaries_succ _ _ hi hc hn

private theorem offsetsInside_encode (ha : isImageAlignment alignment = true)
    (hlen : (encode alignment ps).length < fileLimit) : OffsetsInside (encode alignment ps) := by
  intro i hi
  rw [toNat_claimedCount_encode ha hlen] at hi ⊢
  have hoffset : i < (offsets alignment.toNat ps).length := by
    rw [length_offsets]
    omega
  have hend := getElem_boundaries_le _ _ hoffset
  have hstart : leadingBytes alignment.toNat ps.length ≤ (offsets alignment.toNat ps)[i] := by
    simp only [offsets, getElem_boundaries]
    exact Nat.le_add_right _ _
  have hle : 8 * (ps.length + 2) ≤ leadingBytes alignment.toNat ps.length :=
    le_roundUp _ (pos_of_isPowerOfTwo (Bool.and_eq_true_iff.mp ha).1)
  rw [toNat_offsetAt_encode ha hlen hoffset]
  rw [← length_encode ha (hlen.trans (by decide))] at hend
  exact ⟨hle.trans hstart, hend⟩

theorem offsetsAscending_encode (ha : isImageAlignment alignment = true)
    (hlen : (encode alignment ps).length < fileLimit) : OffsetsAscending (encode alignment ps) := by
  intro i hi
  rw [toNat_claimedCount_encode ha hlen] at hi
  rw [UInt64.le_iff_toNat_le, toNat_offsetAt_encode ha hlen (by simp; omega),
    toNat_offsetAt_encode ha hlen (by simp; omega), offsets_succ (by simpa using hi)]
  exact Nat.le_add_right _ _

theorem accepted_encode_iff (ha : isImageAlignment alignment = true)
    (hlen : (encode alignment ps).length < fileLimit) (hroom : base.toNat + r.size.toNat < 2 ^ 64)
    (hplace : r.base = some base) :
    Accepted (encode alignment ps) r base ↔ ps.length ≤ 65536 ∧
      roundUp (encode alignment ps).length 8 + 8 * (ps.length + 2) ≤ r.size.toNat := by
  have hcount := toNat_claimedCount_encode ha hlen
  have htable := table_le_length_encode ha hlen
  constructor
  · intro h
    have hfits := h.room
    have hfew := h.count
    rw [hcount] at hfits hfew
    exact ⟨hfew, hfits⟩
  · rintro ⟨hfew, hfits⟩
    refine ⟨⟨by omega, ?_, ?_, ?_⟩, hlen, hplace, hroom, offsetsInside_encode ha hlen⟩
    · rwa [hcount]
    · rwa [hcount]
    · rwa [hcount]

theorem Resident.rangeOf?_encode (ha : isImageAlignment alignment = true)
    (h : Accepted (encode alignment ps) r base) (hm : Resident (encode alignment ps) base m)
    (hs : i < (segments alignment.toNat ps).length) (ho : i < (offsets alignment.toNat ps).length) :
    ∃ e, (Directory.mk (some (appBoundaries (encode alignment ps) base))).rangeOf? m
        (Int64.ofNat i) = some e ∧
      e.start.toNat = base.toNat + (offsets alignment.toNat ps)[i] ∧
      e.size.toNat = (segments alignment.toNat ps)[i].length ∧
      e.bytes m = (segments alignment.toNat ps)[i] := by
  have hlen := h.short
  have hi := hs
  rw [length_segments] at hi
  have hcount := toNat_claimedCount_encode ha hlen
  have hlow := toNat_offsetAt_encode ha hlen ho
  have hhigh := toNat_offsetAt_encode ha hlen (i := i + 1) (by simpa using hi)
  have hstart := h.noWrap i (by omega)
  have hstop := h.noWrap (i + 1) (by omega)
  have hin := (h.inside (i + 1) (by omega)).2
  rw [offsets_succ hs ho] at hhigh
  have hsize : ((base + offsetAt (encode alignment ps) (i + 1)) -
      (base + offsetAt (encode alignment ps) i)).toNat =
        (segments alignment.toNat ps)[i].length := by
    rw [UInt64.toNat_sub_of_le _ _ (by rw [UInt64.le_iff_toNat_le]; omega)]
    omega
  refine ⟨_, hm.rangeOf? h (by omega), by rw [hstart, hlow], hsize, ?_⟩
  rw [Extent.bytes, Extent.size, hsize, hm.readBytes (by omega), take_drop_encode ha hlen hs]

end EmbeddedApps.Image
