import EmbeddedApps.Proofs.Assembler.Lines
import EmbeddedApps.Proofs.Image.Segments
import Mathlib

/-!
# Where the lines of a bundle go

The table of a listing takes up the same bytes whatever the addresses in it are. The programs
behind it are laid out as segments, and the symbols in the table are bound to the places where
these meet.
-/

namespace EmbeddedApps

open Assembler

namespace Bundle

variable {address? : Bytes → Option Nat} {s : State} {b : Bundle}

/-- Programs from an address on, each behind zeros up to its alignment. -/
def placed (alignment here : Nat) : List Bytes → Bytes
  | [] => []
  | p :: ps =>
    List.replicate (roundUp here alignment - here) 0 ++
      (p ++ placed alignment (roundUp here alignment + p.length) ps)

def edges (b : Bundle) (k here : Nat) : List Bytes → List (Bytes × Nat)
  | [] => []
  | p :: ps =>
    let start := roundUp here b.alignment.toNat
    (b.startSymbol k, start) :: (b.endSymbol k, start + p.length) ::
      b.edges (k + 1) (start + p.length) ps

theorem alignment_pos (b : Bundle) : 0 < b.alignment.toNat :=
  pos_of_isPowerOfTwo (Bool.and_eq_true_iff.mp b.isImageAlignment_alignment).1

private theorem run_programLines (b : Bundle) (i : Nat) (path : Bytes) {p : Bytes} {ps : List Bytes}
    (hin : s.inData = true) (hfiles : s.files = p :: ps) :
    let start := roundUp s.here b.alignment.toNat
    run address? s (b.programLines i path) =
      some (s.after (List.replicate (start - s.here) 0 ++ p)
        [(b.startSymbol i, start), (b.endSymbol i, start + p.length)] ps) := by
  obtain ⟨inData, here, files, emitted, labels⟩ := s
  obtain rfl : inData = true := hin
  obtain rfl : files = p :: ps := hfiles
  have hpos := b.alignment_pos
  have hle := le_roundUp here hpos
  rw [programLines]
  split
  · have hstart : here + (roundUp here b.alignment.toNat - here) =
        roundUp here b.alignment.toNat := Nat.add_sub_cancel' hle
    simp [run, step, State.emit, State.define, State.after, hstart, ← Nat.add_assoc]
  -- No line asks for an alignment of one, and rounding up to it does nothing.
  · rename_i hone
    have hself : b.alignment.toNat = 1 := by
      have hsmall : b.alignment.toNat ≤ 1 :=
        UInt64.le_iff_toNat_le.mp (UInt64.not_lt.mp hone)
      omega
    simp [run, step, State.emit, State.define, State.after, hself]

private theorem run_programs (address? : Bytes → Option Nat) (b : Bundle) (path : Program → Bytes)
    (k : Nat)
    {ps : List Program} (hin : s.inData = true) (hfiles : s.files = ps.map (·.bytes)) :
    run address? s (ps.mapIdx fun i p => b.programLines (k + i) (path p)).flatten =
      some (s.after (placed b.alignment.toNat s.here (ps.map (·.bytes)))
        (b.edges k s.here (ps.map (·.bytes))) []) := by
  induction ps generalizing k s with
  | nil =>
    have hself := s.after_nil
    rw [hfiles] at hself
    exact congrArg some hself.symm
  | cons p ps ih =>
    have hle := le_roundUp s.here b.alignment_pos
    have hnext : (fun i p => b.programLines (k + (i + 1)) (path p)) =
        fun i p => b.programLines (k + 1 + i) (path p) := by
      funext i p
      rw [Nat.add_assoc, Nat.add_comm 1]
    have hhere : s.here + (List.replicate (roundUp s.here b.alignment.toNat - s.here) (0 : UInt8) ++
        p.bytes).length = roundUp s.here b.alignment.toNat + p.bytes.length := by
      rw [List.length_append, List.length_replicate]
      omega
    rw [List.mapIdx_cons, List.flatten_cons, hnext, run_append,
      run_programLines b (k + 0) (path p) hin hfiles, Option.bind_some,
      ih (k + 1) (s := s.after _ _ (ps.map (·.bytes))) hin rfl, State.after_after]
    simp only [State.after, hhere, List.map_cons, placed, edges, Nat.add_zero, List.append_assoc,
      List.cons_append, List.nil_append]

theorem placed_cons {alignment : Nat} (ha : 0 < alignment) (here : Nat) (p : Bytes)
    (ps : List Bytes) :
    placed alignment here (p :: ps) = List.replicate (roundUp here alignment - here) 0 ++
      (Image.segments alignment (p :: ps)).flatten := by
  induction ps generalizing p here with
  | nil => simp [placed, Image.segments]
  | cons q ps ih =>
    -- The gap in front of `q` depends on the length of `p` only, as `p` starts at a multiple.
    have hnext := roundUp_add_of_dvd p.length ha (dvd_roundUp here alignment)
    rw [placed, ih, hnext, Nat.add_sub_add_left, Image.segments, List.flatten_cons, Image.padded,
      List.append_assoc]

/-- The symbol in entry `j` of a table for `n` programs from number `k` on. -/
def entrySymbol (b : Bundle) (k n j : Nat) : Bytes :=
  if j < n then b.startSymbol (k + j) else b.endSymbol (k + (n - 1))

private theorem entrySymbol_succ (b : Bundle) (k j : Nat) {n : Nat} (hn : 0 < n) :
    b.entrySymbol k (n + 1) (j + 1) = b.entrySymbol (k + 1) n j := by
  have hstart : k + (j + 1) = k + 1 + j := by omega
  have hend : k + (n + 1 - 1) = k + 1 + (n - 1) := by omega
  simp only [entrySymbol, Nat.add_lt_add_iff_right, hstart, hend]

theorem mem_edges (b : Bundle) {ps : List Bytes} (k here : Nat) {j a : Nat} (hne : ps ≠ [])
    (ha : (Image.boundaries (roundUp here b.alignment.toNat)
      (Image.segments b.alignment.toNat ps))[j]? = some a) :
    (b.entrySymbol k ps.length j, a) ∈ b.edges k here ps := by
  induction ps generalizing k here j with
  | nil => exact absurd rfl hne
  | cons p ps ih =>
    rw [edges]
    cases ps with
    | nil =>
      match j with
      | 0 =>
        obtain rfl := Option.some.inj ha
        exact List.mem_cons_self
      | 1 =>
        obtain rfl := Option.some.inj ha
        exact List.mem_cons_of_mem _ List.mem_cons_self
      | j + 2 => cases ha
    | cons q ps =>
      cases j with
      | zero =>
        obtain rfl := Option.some.inj ha
        exact List.mem_cons_self
      | succ j =>
        have hnext := roundUp_add_of_dvd p.length b.alignment_pos
          (dvd_roundUp here b.alignment.toNat)
        rw [Image.segments, Image.boundaries, List.getElem?_cons_succ,
          Image.length_padded b.alignment_pos, ← hnext] at ha
        rw [List.length_cons, entrySymbol_succ b k j (by simp)]
        exact List.mem_cons_of_mem _ (List.mem_cons_of_mem _ (ih _ _ (List.cons_ne_nil q ps) ha))

def tableEntries (b : Bundle) : List Bytes :=
  (List.range b.programs.length).map b.startSymbol ++ [b.lastSymbol]

@[simp] theorem length_tableEntries (b : Bundle) :
    b.tableEntries.length = b.programs.length + 1 := by simp [tableEntries]

theorem tableEntries_eq (h : b.programs ≠ []) : b.tableEntries =
    (List.range (b.programs.length + 1)).map (b.entrySymbol 0 b.programs.length) := by
  have hlast : b.lastSymbol = b.entrySymbol 0 b.programs.length b.programs.length := by
    obtain ⟨n, hn⟩ := Nat.exists_eq_succ_of_ne_zero (mt List.length_eq_zero_iff.mp h)
    rw [lastSymbol, hn]
    simp [entrySymbol]
  rw [tableEntries, List.range_succ, List.map_append, List.map_singleton, hlast]
  congr 1
  apply List.map_congr_left
  intro j hj
  rw [entrySymbol, if_pos (List.mem_range.mp hj), Nat.zero_add]

private theorem run_tableLines (b : Bundle) {address : Nat} (files : List Bytes)
    (haddress : 8 ∣ address)
    {value : Bytes → Nat} (hvalue : ∀ x ∈ b.tableEntries, address? x = some (value x)) :
    run address? (.start address files) b.tableLines =
      some ⟨true, address + 8 * (b.programs.length + 2), files,
        LittleEndian.encode b.programs.length.toUInt64 ++
          b.tableEntries.flatMap fun x => LittleEndian.encode (value x).toUInt64,
        [(b.tableSymbol, address)]⟩ := by
  have hself := roundUp_of_dvd (show 0 < 8 by decide) haddress
  have hsplit : b.tableLines = [.dataSection, .align 8, .global b.tableSymbol, .label b.tableSymbol,
      .number b.programs.length] ++ b.tableEntries.map .addressOf := by
    simp [tableLines, tableEntries]
  have hcount : run address? (.start address files) [.dataSection, .align 8, .global b.tableSymbol,
      .label b.tableSymbol, .number b.programs.length] = some ⟨true, address + 8, files,
        LittleEndian.encode b.programs.length.toUInt64, [(b.tableSymbol, address)]⟩ := by
    simp [run, step, State.start, State.emit, State.define, hself]
  rw [hsplit, run_append, hcount, Option.bind_some, run_addresses rfl hvalue]
  have hwidth : address + 8 + (b.programs.length + 1) * 8 =
      address + 8 * (b.programs.length + 2) := by omega
  simp [State.after, hwidth]

private theorem run_closingLines (b : Bundle) (hin : s.inData = true) :
    run address? s b.closingLines =
      some { s.after [] [(b.blobsEndSymbol, s.here)] s.files with inData := false } := by
  simp only [closingLines, run, step, Option.bind_some, define_of_inData hin]

def labelsAt (b : Bundle) (address : Nat) : List (Bytes × Nat) :=
  let first := address + 8 * (b.programs.length + 2)
  (b.tableSymbol, address) :: b.edges 0 first b.contents ++
    [(b.blobsEndSymbol, first + (placed b.alignment.toNat first b.contents).length)]

/-- A listing puts the addresses in its table and the programs behind it. -/
theorem run_directives (b : Bundle) (t : FileTree) {address : Nat} (haddress : 8 ∣ address)
    (address? : Bytes → Option Nat) (value : Bytes → Nat)
    (hvalue : ∀ x ∈ b.tableEntries, address? x = some (value x)) :
    ∃ s, run address? (.start address b.contents) (b.directives t) = some s ∧
      s.labels = b.labelsAt address ∧
      s.emitted = LittleEndian.encode b.programs.length.toUInt64 ++
        (b.tableEntries.flatMap fun x => LittleEndian.encode (value x).toUInt64) ++
        placed b.alignment.toNat (address + 8 * (b.programs.length + 2)) b.contents := by
  have hprograms (s : State) (hin : s.inData = true) (hfiles : s.files = b.contents) :=
    run_programs address? b (fun p => t.fromRoot p.path) 0 hin hfiles
  simp only [Nat.zero_add] at hprograms
  rw [directives, run_append, run_append, run_tableLines b _ haddress hvalue, Option.bind_some,
    hprograms _ rfl rfl, Option.bind_some, run_closingLines b rfl]
  exact ⟨_, rfl, rfl, by simp [State.after, contents]⟩

end Bundle

end EmbeddedApps
