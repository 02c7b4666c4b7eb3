import EmbeddedApps.Proofs.Image.Resident
import EmbeddedApps.Simulator.Handover
import Mathlib

/-!
# Which files are handed over

A file is handed over as an image exactly if it has the form of one and fits into the region.
What that does to memory is known byte by byte, also when the file is refused.
-/

namespace EmbeddedApps

namespace Image

variable {image : Bytes} {r : Region} {base p : Address} {m : Memory}

private theorem tableAddress_eq (hfile : image.length < fileLimit) (base : Address) :
    tableAddress image base = base + (roundUp image.length 8).toUInt64 := by
  have hround := roundUp_lt_add image.length (show 0 < 8 by decide)
  have hoffset := toNat_tableOffset hfile
  rw [fileLimit] at hfile
  have hword : tableOffset (sizeOf image) = (roundUp image.length 8).toUInt64 := by
    apply UInt64.toNat_inj.mp
    rw [hoffset, toNat_toUInt64_of_lt (by omega)]
  rw [tableAddress, hword]

private theorem memory_install_of_not_admissible (hfile : image.length < fileLimit) (m : Memory)
    (h : ¬(r.base ≠ none ∧ Admissible image r)) : (install image r m).2 = m := by
  cases hacc : accept image r with
  | error f => rw [install, hacc]
  | ok base =>
    obtain ⟨hplace, hadm⟩ := (accept_eq_ok_iff hfile r base).mp hacc
    exact absurd ⟨by simp [hplace], hadm⟩ h

/-- Whether or not all offsets are sound, only the places of the image and its table change. -/
theorem read_install_of_not_inWindow (hfile : image.length < fileLimit)
    (hroom : base.toNat + r.size.toNat < 2 ^ 64) (hplace : r.base = some base)
    (hp : ¬Memory.InWindow base
      (roundUp image.length 8 + 8 * ((claimedCount image).toNat + 2)) p) :
    (install image r m).2.read p = m.read p := by
  by_cases hadm : Admissible image r
  -- With an offset outside, the table ends early: it has at most as many words as announced.
  · have hle := le_roundUp image.length (show 0 < 8 by decide)
    have hfits := hadm.room
    have htable : (tableAddress image base).toNat = base.toNat + roundUp image.length 8 := by
      rw [tableAddress, toNat_add_of_lt (by rw [toNat_tableOffset hfile]; omega),
        toNat_tableOffset hfile]
    have hfew := length_addresses_le image base (tableBytes (claimedCount image)) (sizeOf image)
      ((claimedCount image).toNat + 1) 0
    have hwords := Memory.length_flatMap_encode (claimedCount image ::
      (addresses image base (tableBytes (claimedCount image)) (sizeOf image)
        ((claimedCount image).toNat + 1) 0).2)
    rw [List.length_cons] at hwords
    rw [Memory.inWindow_iff (by omega)] at hp
    rw [install_eq m hfile hroom hplace hadm, ← tableAddress,
      Memory.read_writeBytes_of_not_inWindow _ (by omega),
      Memory.read_writeBytes_of_not_inWindow _ (by omega)]
    · rw [Memory.inWindow_iff (by omega)]
      omega
    · rw [hwords, Memory.inWindow_iff (by omega)]
      omega
  · rw [memory_install_of_not_admissible hfile m fun h => hadm h.2]

private theorem Accepted.read_install (h : Accepted image r base)
    (himage : ¬Memory.InWindow base image.length p)
    (htable : ¬Memory.InWindow (tableAddress image base)
      (8 * ((claimedCount image).toNat + 2)) p) :
    (install image r m).2.read p = m.read p := by
  have hwords := Memory.length_flatMap_encode (installedWords image base)
  have hbounded := h.bounded
  obtain ⟨hbehind, htop⟩ := h.le_tableAddress
  rw [length_installedWords] at hwords
  rw [install_of_accepted h, Memory.read_writeBytes_of_not_inWindow _ (by omega) (by rwa [hwords]),
    Memory.read_writeBytes_of_not_inWindow _ (by omega) himage]

private theorem Accepted.read_install_gap (h : Accepted image r base)
    (hp : Memory.InWindow (base + image.length.toUInt64)
      (roundUp image.length 8 - image.length) p) :
    (install image r m).2.read p = m.read p := by
  have hle := le_roundUp image.length (show 0 < 8 by decide)
  have hfits := h.room
  have hbounded := h.bounded
  have htable := h.toNat_tableAddress
  have hend : (base + image.length.toUInt64).toNat = base.toNat + image.length :=
    toNat_add_toUInt64 (by omega)
  rw [Memory.inWindow_iff (by omega)] at hp
  apply h.read_install
  · rw [Memory.inWindow_iff (by omega)]
    omega
  · rw [Memory.inWindow_iff (by omega)]
    omega

private theorem Accepted.used_of_install {i : Installed} {m' : Memory} (h : Accepted image r base)
    (hok : install image r m = (.ok i, m')) :
    i.used = (roundUp image.length 8 + 8 * ((claimedCount image).toNat + 2)).toUInt64 := by
  have hfits := h.room
  have hbounded := h.bounded
  rw [install_of_accepted h] at hok
  obtain rfl := Except.ok.inj (Prod.mk.inj hok).1
  apply UInt64.toNat_inj.mp
  rw [toNat_footprint h.short h.count, toNat_toUInt64_of_lt (by omega)]

end Image

namespace Simulator

open Image

variable {files : FileTree} {path image : Bytes} {r : Region} {h : Handover} {m : Memory}

private theorem loadImage_of_ok {i : Installed} {m' : Memory}
    (hopen : files.open? path = some (.file image)) (hok : install image r m = (.ok i, m')) :
    loadImage files path r h m =
      ⟨true, h.receive i, m', .output (i.message ++ [Bytes.newline])⟩ := by
  rw [loadImage, installFile, hopen]
  dsimp only
  rw [hok]

private theorem loadImage_of_error {f : Fault} {m' : Memory}
    (hopen : files.open? path = some (.file image)) (herr : install image r m = (.error f, m')) :
    loadImage files path r h m = ⟨false, h, m', .error (f.message ++ [Bytes.newline])⟩ := by
  rw [loadImage, installFile, hopen]
  dsimp only
  rw [herr]

private theorem memory_loadImage (hopen : files.open? path = some (.file image)) (h : Handover)
    (m : Memory) : (loadImage files path r h m).memory = (install image r m).2 := by
  cases hanswer : install image r m with
  | mk answer m' =>
    cases answer with
    | ok i => rw [loadImage_of_ok hopen hanswer]
    | error f => rw [loadImage_of_error hopen hanswer]

private theorem accepted_loadImage_iff (hopen : files.open? path = some (.file image))
    (h : Handover)
    (m : Memory) :
    (loadImage files path r h m).accepted = true ↔ ∃ i m', install image r m = (.ok i, m') := by
  cases hanswer : install image r m with
  | mk answer m' =>
    cases answer with
    | ok i => simp [loadImage_of_ok hopen hanswer]
    | error f => simp [loadImage_of_error hopen hanswer]

/-- A file is handed over as an image if and only if its header is sound, there is a place with
enough room for it and its table, and all offsets lie between the table and the end of the file.
Then the file lies at the start of the region as it is and the table behind it at the next word,
nothing else in memory changes, and table and number of used bytes are filled in. A refused file
changes nothing beyond those places, and nothing at all unless an offset was the reason. -/
theorem loadImage_of_file (files : FileTree) (path image : Bytes) (r : Region) (h : Handover)
    (m : Memory) (hopen : files.open? path = some (.file image)) (hfile : image.length < fileLimit)
    (hroom : ∀ base ∈ r.base, base.toNat + r.size.toNat < 2 ^ 64) :
    let l := loadImage files path r h m
    let count := (claimedCount image).toNat
    let top := roundUp image.length 8
    let need := top + 8 * (count + 2)
    (l.accepted = true ↔ (r.base ≠ none ∧ Admissible image r) ∧ OffsetsInside image) ∧
    (∀ base ∈ r.base, l.accepted = true →
      l.memory.readBytes base image.length = image ∧
      (∀ p, Memory.InWindow (base + image.length.toUInt64) (top - image.length) p →
        l.memory.read p = m.read p) ∧
      l.memory.readBytes (base + top.toUInt64) (8 * (count + 2)) =
        (claimedCount image :: (List.range (count + 1)).map fun i =>
          base + offsetAt image i).flatMap LittleEndian.encode ∧
      (∀ p, ¬Memory.InWindow base need p → l.memory.read p = m.read p) ∧
      l.handover.info = { h.info with table := some (base + top.toUInt64) } ∧
      l.handover.used = h.used.map fun _ => need.toUInt64) ∧
    (l.accepted = false →
      l.handover = h ∧
      (∀ base ∈ r.base, ∀ p, ¬Memory.InWindow base need p → l.memory.read p = m.read p) ∧
      (¬(r.base ≠ none ∧ Admissible image r) → l.memory = m)) := by
  have hmemory : (loadImage files path r h m).memory = (install image r m).2 :=
    memory_loadImage hopen h m
  have houtside : ∀ base ∈ r.base, ∀ p, ¬Memory.InWindow base
      (roundUp image.length 8 + 8 * ((claimedCount image).toNat + 2)) p →
        (loadImage files path r h m).memory.read p = m.read p := by
    intro base hplace p hp
    rw [hmemory]
    exact read_install_of_not_inWindow hfile (hroom base hplace) hplace hp
  refine ⟨?_, ?_, ?_⟩
  · rw [accepted_loadImage_iff hopen h m]
    constructor
    · rintro ⟨i, m', hok⟩
      obtain ⟨base, hacc⟩ := accepted_of_install hfile hroom hok
      exact ⟨⟨by simp [hacc.place], hacc.toAdmissible⟩, hacc.inside⟩
    · rintro ⟨⟨hplace, hadm⟩, hinside⟩
      obtain ⟨base, hbase⟩ := Option.ne_none_iff_exists'.mp hplace
      have hacc : Accepted image r base := ⟨hadm, hfile, hbase, hroom base hbase, hinside⟩
      exact hacc.exists_install m
  · intro base hplace haccepted
    obtain ⟨i, m', hok⟩ := (accepted_loadImage_iff hopen h m).mp haccepted
    have hacc := accepted_of_install_at hfile (hroom base hplace) hplace hok
    obtain ⟨htable, -, hres⟩ := resident_of_install hacc hok
    have haddress := tableAddress_eq hfile base
    have hm : (loadImage files path r h m).memory = m' := by rw [hmemory, hok]
    refine ⟨by rw [hm, hres.bytes], fun p hp => ?_, ?_, houtside base hplace, ?_, ?_⟩
    · rw [hmemory, hacc.read_install_gap hp]
    · rw [hm, ← haddress, hres.words, installedWords]
    · rw [loadImage_of_ok hopen hok, Handover.receive, htable, haddress]
    · rw [loadImage_of_ok hopen hok, Handover.receive, hacc.used_of_install hok]
  · intro hrefused
    refine ⟨?_, houtside, fun hnot => ?_⟩
    · cases hanswer : install image r m with
      | mk answer m' =>
        cases answer with
        | ok i => simp [loadImage_of_ok hopen hanswer] at hrefused
        | error f => rw [loadImage_of_error hopen hanswer]
    · rw [hmemory, memory_install_of_not_admissible hfile m hnot]

/-- Two programs of one byte each in a file of 34 bytes, whose table goes to the 40th. -/
theorem loadImage_two_bytes :
    let image : Bytes := [2, 32, 33, 34].flatMap LittleEndian.encode ++ [65, 66]
    let files : FileTree :=
      { workingFolder := []
        node := fun place => if place = [[97]] then some (.file image) else some .folder }
    ∃ l, loadImage files [97] ⟨some 0x200000000000, 80⟩ ⟨⟨0, 2, none, 0⟩, some 999⟩ .zeroed = l ∧
      l.accepted = true ∧ l.memory.readBytes 0x200000000000 34 = image ∧
      l.memory.readBytes 0x200000000028 32 = [2, 0x200000000020, 0x200000000021,
        0x200000000022].flatMap LittleEndian.encode ∧
      l.handover.info.table = some 0x200000000028 ∧ l.handover.used = some 72 := by
  intro image files
  have hopen : files.open? [97] = some (.file image) := by rfl
  obtain ⟨hiff, hdone, -⟩ := loadImage_of_file _ [97] image ⟨some 0x200000000000, 80⟩
    ⟨⟨0, 2, none, 0⟩, some 999⟩ .zeroed hopen (by decide) (by rintro base ⟨⟩; decide)
  have haccepted := hiff.mpr (by decide)
  obtain ⟨hbytes, -, hwords, -, hinfo, hused⟩ := hdone 0x200000000000 rfl haccepted
  have hlength : image.length = 34 := rfl
  have hcount : claimedCount image = 2 := by decide
  have hplace : (0x200000000000 : UInt64) + Nat.toUInt64 40 = 0x200000000028 := by decide
  have hoffsets : (List.range 3).map (fun i => (0x200000000000 : UInt64) + offsetAt image i) =
      [0x200000000020, 0x200000000021, 0x200000000022] := by decide
  have htop : roundUp 34 8 = 40 := rfl
  have hwidth : 8 * ((2 : UInt64).toNat + 2) = 32 := rfl
  have hcount' : (2 : UInt64).toNat + 1 = 3 := rfl
  rw [hlength] at hbytes
  rw [hlength, hcount, htop, hplace, hwidth, hcount', hoffsets] at hwords
  rw [hlength, htop, hplace] at hinfo
  rw [hlength, hcount, htop, hwidth] at hused
  refine ⟨_, rfl, haccepted, hbytes, hwords, ?_, hused⟩
  rw [hinfo]

end Simulator

end EmbeddedApps
