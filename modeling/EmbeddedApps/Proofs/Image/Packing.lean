import EmbeddedApps.Proofs.Arena.Fit
import EmbeddedApps.Proofs.Image.Segments
import Mathlib

/-!
# Programs placed back to back

As long as no word overflows, each program starts at the first aligned place that is not before the
end of the one placed last. From this everything else follows: the order of the places, that no two
of them meet, the size of the gaps and how far the last program reaches.
-/

namespace EmbeddedApps

namespace Placement

/-- Extents of the given lengths, one after the other from a cursor on. Each starts at the least
multiple of the alignment that is not below the end of the one before. -/
inductive Packed (alignment : Nat) : Nat → List Nat → List Extent → Prop
  | nil (cursor : Nat) : Packed alignment cursor [] []
  | cons {cursor n : Nat} {ns : List Nat} {e : Extent} {es : List Extent} :
    IsLeast {x | alignment ∣ x ∧ cursor ≤ x} e.start.toNat →
    e.stop.toNat = e.start.toNat + n → Packed alignment e.stop.toNat ns es →
    Packed alignment cursor (n :: ns) (e :: es)

/-- Extents that are packed from a base on, with what this comes to. The gap in front of the first
one counts as a gap too. -/
structure BackToBack (alignment : Nat) (base : UInt64) (lengths : List Nat) (es : List Extent) :
    Prop where
  packed : Packed alignment base.toNat lengths es
  sizes : es.map (·.size.toNat) = lengths
  ordered : es.Pairwise fun e f => e.start ≤ f.start ∧ e.stop ≤ f.stop ∧ e.stop ≤ f.start
  gaps : (⟨base, base⟩ :: es).IsChain fun e f =>
    e.stop ≤ f.start ∧ f.start.toNat < e.stop.toNat + alignment
  finish_le : (finish base es).toNat ≤
    base.toNat + lengths.sum + lengths.length * (alignment - 1)

namespace Packed

variable {alignment cursor : Nat} {ns : List Nat} {es : List Extent}

private theorem sizes (h : Packed alignment cursor ns es) : es.map (·.size.toNat) = ns := by
  induction h with
  | nil => rfl
  | @cons cursor n ns e es hstart hstop _ ih =>
    have hle : e.start ≤ e.stop := UInt64.le_iff_toNat_le.mpr (by omega)
    have hsize : e.size.toNat = n := by
      rw [Extent.size, UInt64.toNat_sub_of_le _ _ hle]
      omega
    rw [List.map_cons, hsize, ih]

private theorem bounds (h : Packed alignment cursor ns es) {e : Extent} (he : e ∈ es) :
    cursor ≤ e.start.toNat ∧ e.start.toNat ≤ e.stop.toNat := by
  induction h with
  | nil => cases he
  | cons hstart hstop _ ih =>
    have hcursor := hstart.1.2
    rcases List.mem_cons.mp he with rfl | hmem
    · exact ⟨hcursor, by omega⟩
    · obtain ⟨hbefore, hafter⟩ := ih hmem
      exact ⟨by omega, hafter⟩

private theorem ordered (h : Packed alignment cursor ns es) :
    es.Pairwise fun e f => e.start ≤ f.start ∧ e.stop ≤ f.stop ∧ e.stop ≤ f.start := by
  induction h with
  | nil => exact .nil
  | cons hstart hstop hrest ih =>
    refine .cons (fun f hf => ?_) ih
    obtain ⟨hbefore, hafter⟩ := hrest.bounds hf
    simp only [UInt64.le_iff_toNat_le]
    omega

private theorem gaps (h : Packed alignment cursor ns es) (halignment : 0 < alignment) {d : Extent}
    (hd : d.stop.toNat = cursor) :
    (d :: es).IsChain fun e f => e.stop ≤ f.start ∧ f.start.toNat < e.stop.toNat + alignment := by
  induction h generalizing d with
  | nil => exact .singleton d
  | @cons cursor n ns e es hstart hstop _ ih =>
    refine .cons_cons ⟨?_, ?_⟩ (ih rfl)
    · rw [UInt64.le_iff_toNat_le, hd]
      exact hstart.1.2
    · rw [hd, hstart.unique (isLeast_roundUp cursor halignment)]
      exact roundUp_lt_add cursor halignment

private theorem finish_le (h : Packed alignment cursor ns es) (halignment : 0 < alignment)
    {base : UInt64}
    (hbase : base.toNat = cursor) :
    (finish base es).toNat ≤ cursor + ns.sum + ns.length * (alignment - 1) := by
  induction h generalizing base with
  | nil => simp [finish, hbase]
  | @cons cursor n ns e es hstart hstop _ ih =>
    have hlt := roundUp_lt_add cursor halignment
    rw [← hstart.unique (isLeast_roundUp cursor halignment)] at hlt
    have hrest := ih rfl
    rw [finish_cons, List.sum_cons, List.length_cons, Nat.succ_mul]
    omega

private theorem backToBack {base : UInt64} (h : Packed alignment base.toNat ns es)
    (halignment : 0 < alignment) : BackToBack alignment base ns es :=
  ⟨h, h.sizes, h.ordered, h.gaps halignment rfl, h.finish_le halignment rfl⟩

end Packed

private theorem packed_place {alignment : UInt64} (halignment : isPowerOfTwo alignment = true)
    (sizes : List UInt64) (cursor : UInt64)
    (hroom : cursor.toNat + (sizes.map fun s => s.toNat + alignment.toNat - 1).sum < 2 ^ 64) :
    Packed alignment.toNat cursor.toNat (sizes.map UInt64.toNat)
      (place alignment cursor sizes) := by
  -- Each program takes at most its size and one gap of the room, so the rest has room as well.
  induction sizes generalizing cursor with
  | nil => exact .nil _
  | cons size sizes ih =>
    rw [List.map_cons, List.sum_cons] at hroom
    have hpos := pos_of_isPowerOfTwo halignment
    have hlt := roundUp_lt_add cursor.toNat hpos
    have hstart : (alignUp cursor alignment).toNat = roundUp cursor.toNat alignment.toNat :=
      toNat_alignUp_of_lt halignment (by omega)
    have hstop : (alignUp cursor alignment + size).toNat =
        (alignUp cursor alignment).toNat + size.toNat := toNat_add_of_lt (by omega)
    have hrest := ih (alignUp cursor alignment + size) (by omega)
    exact .cons (hstart ▸ isLeast_roundUp _ hpos) hstop hrest

end Placement

open Placement (BackToBack)

private theorem isImageAlignment_iff (a : UInt64) :
    isImageAlignment a = true ↔ (∃ k, a.toNat = 2 ^ k) ∧ a.toNat ≤ 4096 := by
  have hlimit : Limits.imageAlignment.toNat = 4096 := rfl
  rw [isImageAlignment, Bool.and_eq_true, isPowerOfTwo_iff, decide_eq_true_eq,
    UInt64.le_iff_toNat_le, hlimit]
  refine and_congr_left fun _ => ⟨fun ⟨k, _, hk⟩ => ⟨k, hk⟩, fun ⟨k, hk⟩ => ⟨k, ?_, hk⟩⟩
  exact (Nat.pow_lt_pow_iff_right (by decide)).mp (hk ▸ a.toNat_lt)

private theorem embed_eq_error_iff {sizes : List UInt64} {base alignment : UInt64}
    {f : BuildFault} :
    embed sizes base alignment = .error f ↔
      ¬isImageAlignment alignment = true ∧ f = .badAlignment alignment := by
  rw [embed]
  split
  · simp [*]
  · simp [*, eq_comm]

private theorem embed_backToBack {alignment : UInt64}
    (halignment : isImageAlignment alignment = true)
    (ps : List Bytes) {base : UInt64}
    (hroom : base.toNat + (ps.map fun p => p.length + alignment.toNat - 1).sum < 2 ^ 64) :
    ∃ es, embed (ps.map Image.sizeOf) base alignment = .ok es ∧
      BackToBack alignment.toNat base (ps.map List.length) es := by
  have hpower := (Bool.and_eq_true_iff.mp halignment).1
  have hsize : ∀ p ∈ ps, (Image.sizeOf p).toNat = p.length := by
    intro p hp
    have hle : p.length + alignment.toNat - 1 ≤ _ :=
      List.le_sum_of_mem (List.mem_map_of_mem (f := fun p => p.length + alignment.toNat - 1) hp)
    have hpos := pos_of_isPowerOfTwo hpower
    exact Image.toNat_sizeOf (by omega)
  have hlengths : (ps.map Image.sizeOf).map UInt64.toNat = ps.map List.length := by
    rw [List.map_map]
    exact List.map_congr_left hsize
  have hsum : ((ps.map Image.sizeOf).map fun s => s.toNat + alignment.toNat - 1) =
      ps.map fun p => p.length + alignment.toNat - 1 := by
    rw [List.map_map]
    refine List.map_congr_left fun p hp => ?_
    rw [Function.comp_apply, hsize p hp]
  have hpacked := Placement.packed_place hpower (ps.map Image.sizeOf) base (by rwa [hsum])
  rw [hlengths] at hpacked
  exact ⟨_, if_pos halignment, hpacked.backToBack (pos_of_isPowerOfTwo hpower)⟩

namespace Bundle

variable (b : Bundle)

private theorem isLeast_leadingBytes :
    IsLeast {x | b.alignment.toNat ∣ x ∧ 8 * (b.programs.length + 2) ≤ x}
      (Image.leadingBytes b.alignment.toNat b.programs.length) :=
  isLeast_roundUp _ (pos_of_isPowerOfTwo (Bool.and_eq_true_iff.mp b.isImageAlignment_alignment).1)

private theorem embed_contents
    (hfit : Image.leadingBytes b.alignment.toNat b.programs.length < 2 ^ 64) :
    embed (b.contents.map Image.sizeOf)
      (Image.leadingBytes b.alignment.toNat b.programs.length).toUInt64 b.alignment =
        .ok b.layout := by
  have hpower := (Bool.and_eq_true_iff.mp b.isImageAlignment_alignment).1
  have htable := b.isLeast_leadingBytes.1.2
  have hcount : b.programs.length.toUInt64.toNat = b.programs.length :=
    toNat_toUInt64_of_lt (by omega)
  have hbytes := Image.toNat_tableBytes b.programs.length.toUInt64 (by rw [hcount]; omega)
  rw [hcount] at hbytes
  have hfirst : Image.firstOffset b.alignment b.contents.length.toUInt64 =
      (Image.leadingBytes b.alignment.toNat b.programs.length).toUInt64 := by
    rw [Image.leadingBytes, ← hbytes] at hfit
    rw [← UInt64.toNat_inj, toNat_toUInt64_of_lt (by rwa [Image.leadingBytes, ← hbytes]),
      Image.leadingBytes, ← hbytes, Image.firstOffset, contents, List.length_map,
      toNat_alignUp_of_lt hpower hfit]
  rw [embed, if_pos b.isImageAlignment_alignment, layout, Image.layout, hfirst]

private theorem start_of_head?_layout
    (hfit : Image.leadingBytes b.alignment.toNat b.programs.length < 2 ^ 64) {e : Extent}
    (he : b.layout.head? = some e) :
    e.start.toNat = Image.leadingBytes b.alignment.toNat b.programs.length := by
  have hpower := (Bool.and_eq_true_iff.mp b.isImageAlignment_alignment).1
  have hword := toNat_toUInt64_of_lt hfit
  have hlayout := b.embed_contents hfit
  rw [embed, if_pos b.isImageAlignment_alignment, Except.ok.injEq] at hlayout
  rw [← hlayout] at he
  cases hsizes : b.contents.map Image.sizeOf with
  | nil => simp [hsizes, Placement.place] at he
  | cons size sizes =>
    rw [hsizes, Placement.place, List.head?_cons, Option.some_inj] at he
    rw [← he, toNat_alignUp_of_dvd hpower (by rw [hword]; exact b.isLeast_leadingBytes.1.1), hword]

end Bundle

/-- Programs are refused only for their alignment, and that is when it is no power of two or above
4096. Otherwise, as long as no word overflows, they are placed back to back from the base on. The
image of a bundle has its programs there, from the least aligned offset behind the table on. -/
theorem embed_packs_programs (ps : List Bytes) (base alignment : UInt64) (b : Bundle) :
    let admitted := (∃ k, alignment.toNat = 2 ^ k) ∧ alignment.toNat ≤ 4096
    let answer := embed (ps.map Image.sizeOf) base alignment
    let first := Image.leadingBytes b.alignment.toNat b.programs.length
    (∀ f, answer = .error f ↔ ¬admitted ∧ f = .badAlignment alignment) ∧
    (admitted → base.toNat + (ps.map fun p => p.length + alignment.toNat - 1).sum < 2 ^ 64 →
      ∃ es, answer = .ok es ∧ BackToBack alignment.toNat base (ps.map List.length) es) ∧
    IsLeast {x | b.alignment.toNat ∣ x ∧ 8 * (b.programs.length + 2) ≤ x} first ∧
    (first < 2 ^ 64 →
      embed (b.contents.map Image.sizeOf) first.toUInt64 b.alignment = .ok b.layout ∧
      ∀ e, b.layout.head? = some e → e.start.toNat = first) ∧
    (first + (b.contents.map fun p => p.length + b.alignment.toNat - 1).sum < 2 ^ 64 →
      BackToBack b.alignment.toNat first.toUInt64 (b.contents.map List.length) b.layout) := by
  intro admitted answer first
  have hadmitted : isImageAlignment alignment = true ↔ admitted := isImageAlignment_iff alignment
  have hleast : IsLeast _ first := b.isLeast_leadingBytes
  refine ⟨fun f => ?_, ?_, hleast, ?_, ?_⟩
  · rw [← hadmitted]
    exact embed_eq_error_iff
  · intro h hroom
    exact embed_backToBack (hadmitted.mpr h) ps hroom
  · intro hfit
    exact ⟨b.embed_contents hfit, fun e he => b.start_of_head?_layout hfit he⟩
  · intro hroom
    have hfit : first < 2 ^ 64 := by omega
    have hword : first.toUInt64.toNat = first := toNat_toUInt64_of_lt hfit
    obtain ⟨es, hembed, hplaced⟩ :=
      embed_backToBack b.isImageAlignment_alignment b.contents (by rwa [hword])
    obtain rfl : b.layout = es := Except.ok.inj ((b.embed_contents hfit).symm.trans hembed)
    exact hplaced

/-- Ten bytes, none and four, at multiples of eight: from 100 on, and in an image. -/
theorem embed_packs_three :
    let ps : List Bytes := [List.replicate 10 90, [], [65, 66, 67, 68]]
    let b : Bundle := ⟨8, [], ps.map fun bytes => ⟨0, [], [], bytes⟩, rfl, rfl⟩
    embed (ps.map Image.sizeOf) 100 8 = .ok [⟨104, 114⟩, ⟨120, 120⟩, ⟨120, 124⟩] ∧
      BackToBack 8 100 [10, 0, 4] [⟨104, 114⟩, ⟨120, 120⟩, ⟨120, 124⟩] ∧
      b.layout = [⟨40, 50⟩, ⟨56, 56⟩, ⟨56, 60⟩] ∧ BackToBack 8 40 [10, 0, 4] b.layout := by
  intro ps b
  have hembed : embed (ps.map Image.sizeOf) 100 8 = .ok [⟨104, 114⟩, ⟨120, 120⟩, ⟨120, 124⟩] := rfl
  obtain ⟨-, hplaced, -, -, himage⟩ := embed_packs_programs ps 100 8 b
  obtain ⟨es, hes, hback⟩ := hplaced ⟨⟨3, rfl⟩, by decide⟩ (by decide)
  obtain rfl := Except.ok.inj (hembed.symm.trans hes)
  have hlayout : b.layout = [⟨40, 50⟩, ⟨56, 56⟩, ⟨56, 60⟩] := by decide +kernel
  have hfirst : Image.leadingBytes b.alignment.toNat b.programs.length = 40 := by decide +kernel
  have hlengths : b.contents.map List.length = [10, 0, 4] := by decide +kernel
  rw [hfirst, hlengths] at himage
  exact ⟨hembed, hback, hlayout, himage (by decide +kernel)⟩

end EmbeddedApps
