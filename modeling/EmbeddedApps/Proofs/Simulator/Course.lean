import EmbeddedApps.Proofs.Simulator
import Mathlib

/-!
# Runs of the simulator

Whatever file is given as an image, the run is fixed by it. Installing writes to the upper half of
the simulated memory, and everything after that writes to the lower half, where the kernel has all
its blocks.
-/

namespace EmbeddedApps

namespace System

variable {s t : System} {q : Panic} {r : EStateM.Result Panic System Unit}

private theorem Starting.loader_eq (h : Starting s r) :
    (Answer.conclude r).2.kernel.loader = s.kernel.loader := by
  cases h with
  | started allocated => rfl
  | refused m allocated => rfl

private theorem Registration.loader_eq (h : Registration s r) :
    (Answer.conclude r).2.kernel.loader = s.kernel.loader := by
  cases h with
  | built m objects allocated table => rfl
  | rejected f m objects allocated => rfl
  | refused m refuses => rfl

private theorem Equipment.loader_eq_none (h : Equipment s (.error q t))
    (hs : s.kernel.loader = none) : t.kernel.loader = none := by
  cases h with
  | cramped directory slots =>
    cases slots with
    | refused m hn allocated => exact hs
  | refused m directory reserved refuses => rfl

private theorem Booting.loader_eq_none (h : Booting s (.error q t)) (hs : s.kernel.loader = none) :
    t.kernel.loader = none := by
  cases h with
  | badMagic m magic => exact hs
  | notStarted objects => exact objects.loader_eq.trans hs
  | notRegistered objects directory => exact directory.loader_eq.trans (objects.loader_eq.trans hs)
  | notEquipped objects directory loader =>
    exact loader.loader_eq_none (directory.loader_eq.trans (objects.loader_eq.trans hs))

/-- Without a loader there is nothing to load, so nothing is lost if the step is not taken. -/
private theorem perform_loadAll_eq (s : System) : (s.perform .loadAll).2 = s.loadAll.2 := by
  cases hready : s.kernel.isReady .loadAll with
  | true => rw [perform_loadAll hready]
  | false =>
    have hloader : s.kernel.loader = none :=
      Option.isNone_iff_eq_none.mp (Option.isSome_eq_false_iff.mp hready)
    rw [perform_of_not_ready hready, loadAll, hloader]

end System

namespace Simulator

open Image

variable {image : Bytes} {base : Address} {m m' : Memory}

def requests : List Event := [.act .boot, .act .loadAll]

private theorem bootFrom_eq_run {table place : Address} {s : System}
    (h : Kernel.layOut? (kernelRegion base) (bootRecord table) (some platform) (.ofMemory m) =
      some (place, s)) :
    (bootFrom base table m).2 = (s.run requests).machine ∧
      ∀ loaded k t, bootFrom base table m = (.ok (loaded, k), t) → k = (s.run requests).kernel := by
  have hrun : s.run requests = (System.loadAll (Answer.conclude (System.boot s)).2).2 := by
    rw [← System.perform_loadAll_eq, ← System.perform_boot]
    rfl
  have hnone : s.kernel.loader = none := by
    obtain ⟨arena, arena₁, arena₂, i, -, -, -, rfl⟩ := Kernel.exists_of_layOut? h
    rfl
  have hbooting := System.booting s
  rw [bootFrom, Kernel.start, h, hrun]
  dsimp only
  generalize System.boot s = r at hbooting
  cases r with
  | ok _ t => exact ⟨rfl, by rintro loaded k t' ⟨⟩; rfl⟩
  | error q t =>
    have hloader := hbooting.loader_eq_none hnone
    refine ⟨?_, by rintro loaded k t' ⟨⟩⟩
    change t.machine = (System.loadAll t).2.machine
    rw [System.loadAll, hloader]

def imagePath (arguments : List Bytes) : Bytes := (arguments.headD defaultImage).beforeNul

/-- What runs on a command line come to, whatever memory holds before: the answer of the
installation, what it writes, what is written after it, and the outcome. -/
structure Course (base : Address) (files : FileTree) (arguments : List Bytes) where
  answer : Except Fault Installed
  loading : List Write
  booting : List Write
  outcome : Outcome
  install_eq : ∀ m, installFile files (imagePath arguments) (imageRegion base) m =
    (answer, m.writeAll loading)
  boot_eq : ∀ (m : Memory) (i : Installed), answer = .ok i →
    (bootFrom base i.table (m.writeAll loading)).2.memory = (m.writeAll loading).writeAll booting
  run_eq : ∀ m, run (some m) arguments files base = outcome

/-- In an image's run every source of an app lies in the image, and every slot in the lower half. -/
structure Bounded (base : Address) (image : Bytes) (source slot : Extent) : Prop where
  source_start : base.toNat + 0x2000000 ≤ source.start.toNat
  source_stop : source.start.toNat + source.size.toNat ≤ base.toNat + 0x2000000 + image.length
  slot_start : base.toNat ≤ slot.start.toNat
  slot_stop : slot.start.toNat + slot.size.toNat ≤ base.toNat + 0x2000000

/-- All places of a kernel: the table of an installed image and the apps that are read, the blocks
in the lower half behind the header of the arena, and the slots that are written. -/
structure Placed (base : Address) (image : Bytes) (i : Installed) (place : Address) (t : System) :
    Prop where
  table : t.kernel.info.table = some i.table
  info : ∃ a, ⟨.bootInfo, a, 24⟩ ∈ t.kernel.blocks
  self : ⟨.kernel, place, 56⟩ ∈ t.kernel.blocks
  objects : t.kernel.objects.isSome → ∃ a, ⟨.objectCount, a, 24⟩ ∈ t.kernel.blocks
  directory : ∀ d, t.kernel.directory = some d → ⟨.directory, d.address, 24⟩ ∈ t.kernel.blocks ∧
    (d.table = none ∨ d.table = some ⟨i.table + 8, i.count⟩)
  loader : ∀ l, t.kernel.loader = some l → l.Housed t.kernel.blocks ∧
    (l.directory.table = none ∨ l.directory.table = some ⟨i.table + 8, i.count⟩) ∧
      ∀ j source slot, l.plan t.machine.memory j = .ok (source, slot) →
        Bounded base image source slot
  bounds : ∀ b ∈ t.kernel.blocks, base.toNat + 32 ≤ b.start.toNat ∧
    b.start.toNat + b.size.toNat ≤ base.toNat + 0x2000000
  apart : t.kernel.blocks.Pairwise Block.Apart

private theorem bounded_of_plan {hroom : base.toNat + 0x4000000 < 2 ^ 64}
    {h : Accepted image (imageRegion base) (base + halfSize)}
    {hm : Resident image (base + halfSize) m} {k : Kernel} {l : PlacedLoader}
    (hk : k.Grounded (settingOf hroom h hm)) (hl : k.loader = some l)
    (hm' : (settingOf hroom h hm).Agrees m') {j : Int64} {source slot : Extent}
    (hplan : l.plan m' j = .ok (source, slot)) : Bounded base image source slot := by
  have hbase := toNat_imageBase hroom
  have hhalf := toNat_halfSize
  have hshielded := hk.shielded hl
  have hfetch : l.fetch m j = .ok ⟨source, slot, source.bytes m'⟩ :=
    (hshielded.steady m' hm' j).symm.trans ((Loader.fetch_eq_ok_iff _).mpr ⟨hplan, rfl⟩)
  obtain ⟨hlo, hhi⟩ := hshielded.slot j _ hfetch
  have happ := (Loader.plan_eq_ok_iff.mp ((Loader.fetch_eq_ok_iff _).mp hfetch).1).1
  rcases hk.loader l hl with hempty | hbuild
  · rw [hempty] at happ
    cases happ
  obtain ⟨hasc, k, hk, hsource⟩ := hm.exists_app h hbuild happ
  obtain ⟨hstart, hstop⟩ := h.appExtent_bounds hasc hk
  dsimp only at hsource
  rw [← hsource] at hstart hstop
  constructor
  · omega
  · omega
  · exact hlo
  · exact hhi.trans (by change base.toNat + halfSize.toNat ≤ _; omega)

/-- Whatever is written to the lower half between the steps of a kernel, the kernel has all its
places where they belong. It changes nothing in the upper half, and all else is as if nothing had
been written. -/
theorem placed_of_layOut? (hroom : base.toNat + 0x4000000 < 2 ^ 64)
    (h : Accepted image (imageRegion base) (base + halfSize))
    (hm : Resident image (base + halfSize) m) {i : Installed}
    (htable : i.table = tableAddress image (base + halfSize))
    (hcount : i.count = claimedCount image)
    {place : Address} {s : System}
    (hlay : Kernel.layOut? (kernelRegion base) (bootRecord i.table) (some platform) (.ofMemory m) =
      some (place, s)) {es : List Event}
    (hes : ∀ e ∈ es, e.Inside m base.toNat (base.toNat + 0x2000000)) :
    let t := s.run es
    let quiet := s.run (es.filter Event.isAct)
    Placed base image i place t ∧
      m.AgreesOutside base.toNat (base.toNat + 0x2000000) t.machine.memory ∧
      t.kernel = quiet.kernel ∧ t.machine.log = quiet.machine.log := by
  intro t quiet
  let c := settingOf hroom h hm
  have hknows {d : Directory} (hd : c.Knows d) :
      d.table = none ∨ d.table = some ⟨i.table + 8, i.count⟩ := by
    have hmade := hd.table
    rwa [show Directory.tableAt c.memory c.table = ⟨i.table + 8, i.count⟩ from
      hm.tableAt_eq.trans (by rw [htable, hcount]; rfl)] at hmade
  have htold : (bootRecord c.table).table = some c.table := rfl
  rw [htable] at hlay
  obtain ⟨hs, hagrees, hobjects, hself, a, hinfo⟩ :=
    System.grounded_of_layOut? htold (by rintro p ⟨⟩; rfl) c.agrees_self hlay
  obtain ⟨ht, hmemory, hkernel, hlog⟩ := System.run_inside hs hagrees hagrees rfl hes
  have hblocks := (System.kept_blocks s.kernel.blocks).run es s (List.prefix_refl _)
  refine ⟨?_, hmemory, hkernel, hlog⟩
  constructor
  · rw [ht.table, htable]
    rfl
  · exact ⟨a, hblocks.subset hinfo⟩
  · exact hblocks.subset hself
  · refine System.kept_objectCount.run es s fun hsome => ?_
    rw [hobjects] at hsome
    cases hsome
  · intro d hd
    exact ⟨ht.held.directory d hd, hknows (ht.directory d hd)⟩
  · intro l hl
    exact ⟨ht.held.loader l hl, hknows (ht.loader l hl),
      fun j source slot => bounded_of_plan ht hl hmemory⟩
  · exact fun b hb => ht.bounds hb
  · exact ht.held.apart

private theorem exists_layOut (hroom : base.toNat + 0x4000000 < 2 ^ 64)
    (h : Accepted image (imageRegion base) (base + halfSize))
    (hm : Resident image (base + halfSize) m) {i : Installed}
    (htable : i.table = tableAddress image (base + halfSize))
    (hcount : i.count = claimedCount image) :
    ∃ place s, Kernel.layOut? (kernelRegion base) (bootRecord i.table) (some platform)
        (.ofMemory m) = some (place, s) ∧
      (bootFrom base i.table m).2 = (s.run requests).machine ∧
      (∀ loaded k t, bootFrom base i.table m = (.ok (loaded, k), t) →
        k = (s.run requests).kernel ∧ k.loader.isSome) ∧
      ∀ es : List Event, (∀ e ∈ es, e.Inside m base.toNat (base.toNat + 0x2000000)) →
        let t := s.run es
        let quiet := s.run (es.filter Event.isAct)
        Placed base image i place t ∧
          m.AgreesOutside base.toNat (base.toNat + 0x2000000) t.machine.memory ∧
          t.kernel = quiet.kernel ∧ t.machine.log = quiet.machine.log := by
  have hlay := Kernel.layOut?_eq (fits hroom 0) (bootRecord i.table) (some platform) (.ofMemory m)
  obtain ⟨hmachine, hkernel⟩ := bootFrom_eq_run hlay
  refine ⟨_, _, hlay, hmachine, ?_, ?_⟩
  · intro loaded k t hok
    refine ⟨hkernel loaded k t hok, ?_⟩
    obtain ⟨result, e, -, hboot, hup, hdown⟩ := exists_bootFrom_eq hroom h
    rw [htable, hboot m hm] at hok
    by_cases hasc : OffsetsAscending image
    · obtain ⟨loaded, rfl⟩ := hup hasc
      cases hok
      rfl
    · obtain ⟨p, rfl⟩ := hdown hasc
      cases hok
  · intro es hes
    exact placed_of_layOut? hroom h hm htable hcount hlay hes

/-- Whatever file is given as an image, a run ends in one of three ways: it returns -1 if the
installation rejects the file, it is taken down by the kernel if the file is installed but its
offsets are not in order, and it returns 0 otherwise. Installing writes to the upper half of the
simulated memory, everything after that writes to the lower half, and no byte that was in memory
before has an influence. In a run of either kind that boots a kernel, and in any other run of that
kernel, the table that is read is the one behind the image, apps are read from the bytes of the
image, and the kernel has its blocks and its slots in the lower half. This is so whatever else is
written to the lower half between the steps, such as the bytes of the arena's header and of the
kernel itself: it has no influence either. -/
theorem exists_course (files : FileTree) (arguments : List Bytes) (image : Bytes) (base : Address)
    (hfile : files.open? (imagePath arguments) = some (.file image))
    (hlength : image.length < fileLimit) (hroom : base.toNat + 0x4000000 < 2 ^ 64) :
    ∃ c : Course base files arguments,
      c.outcome.ending = (match c.answer with
        | .error _ => .returned (-1)
        | .ok _ => if OffsetsAscending image then .returned 0 else .terminated) ∧
      Confined (base.toNat + 0x2000000) (base.toNat + 0x4000000) c.loading ∧
      Confined base.toNat (base.toNat + 0x2000000) c.booting ∧
      ∀ i, c.answer = .ok i →
        (base.toNat + 0x2000000 + image.length ≤ i.table.toNat ∧
          i.table.toNat + 8 * (i.count.toNat + 2) ≤ base.toNat + 0x4000000) ∧
        ∀ m : Memory,
          let installed := m.writeAll c.loading
          installed.readWord i.table = i.count ∧
          ∃ place s, Kernel.layOut? (kernelRegion base) (bootRecord i.table) (some platform)
              (.ofMemory installed) = some (place, s) ∧
            (bootFrom base i.table installed).2 = (s.run requests).machine ∧
            (∀ loaded k t, bootFrom base i.table installed = (.ok (loaded, k), t) →
              k = (s.run requests).kernel ∧ k.loader.isSome) ∧
            ∀ es : List Event,
              (∀ e ∈ es, e.Inside installed base.toNat (base.toNat + 0x2000000)) →
              let t := s.run es
              let quiet := s.run (es.filter Event.isAct)
              Placed base image i place t ∧
                installed.AgreesOutside base.toNat (base.toNat + 0x2000000) t.machine.memory ∧
                t.kernel = quiet.kernel ∧ t.machine.log = quiet.machine.log := by
  have hbase := toNat_imageBase hroom
  have hupper : (memorySize - halfSize).toNat = 0x2000000 := rfl
  have hregion : (base + halfSize).toNat + (imageRegion base).size.toNat =
      base.toNat + 0x4000000 := by
    change _ + (memorySize - halfSize).toNat = _
    omega
  have hplace : (imageRegion base).base = some (base + halfSize) := rfl
  obtain ⟨answer, loading, hloading, hinstall⟩ := install_eq_writeAll hlength (by omega) hplace
  rw [hregion, hbase] at hloading
  have hopen (m : Memory) : installFile files (imagePath arguments) (imageRegion base) m =
      (answer, m.writeAll loading) := by
    rw [installFile, hfile]
    exact hinstall m
  cases answer with
  | error f =>
    refine ⟨⟨.error f, loading, [], ⟨.returned (-1), [.error (f.message ++ [Bytes.newline])]⟩,
      hopen, ?_, ?_⟩, rfl, hloading, Confined.nil _ _, ?_⟩
    · intro m i hi
      cases hi
    · intro m
      rw [run, runImage, ← imagePath, hopen]
    · intro i hi
      cases hi
  | ok i =>
    have h := accepted_of_install_at hlength (by omega) hplace (hinstall .zeroed)
    have htable := (resident_of_install h (hinstall .zeroed)).1
    have hcount := (resident_of_install h (hinstall .zeroed)).2.1
    have hm (m : Memory) := (resident_of_install h (hinstall m)).2.2
    obtain ⟨result, e, hconfined, hboot, hup, hdown⟩ := exists_bootFrom_eq hroom h
    rw [← htable] at hboot
    let o := conclude (result, (Machine.ofMemory .zeroed).after e)
    refine ⟨⟨.ok i, loading, e.writes, { o with
      printed := .output (i.message ++ [Bytes.newline]) :: o.printed }, hopen, ?_, ?_⟩, ?_,
      hloading, hconfined, ?_⟩
    · rintro m i' ⟨⟩
      rw [hboot _ (hm m)]
      exact Machine.memory_after _ _
    · intro m
      rw [run, runImage, ← imagePath, hopen]
      dsimp only
      rw [hboot _ (hm m)]
      rfl
    · by_cases hasc : OffsetsAscending image
      · obtain ⟨loaded, rfl⟩ := hup hasc
        rw [if_pos hasc]
        rfl
      · obtain ⟨p, rfl⟩ := hdown hasc
        rw [if_neg hasc]
        rfl
    · rintro i' ⟨⟩
      have hbounds := h.le_tableAddress
      refine ⟨by rw [htable, hcount]; omega, fun m => ⟨?_, ?_⟩⟩
      · have hword := (hm m).holdsTable.readWord_count
        rwa [← htable, ← hcount] at hword
      · exact exists_layOut hroom h (hm m) htable hcount

def treeOf (image : Bytes) : FileTree where
  workingFolder := []
  node := fun place => if place = [[97]] then some (.file image) else some .folder

private theorem exists_answer {files : FileTree} {arguments : List Bytes}
    (c : Course base files arguments)
    (hfile : files.open? (imagePath arguments) = some (.file image))
    (h : Accepted image (imageRegion base) (base + halfSize)) :
    ∃ i m, c.answer = .ok i ∧ install image (imageRegion base) .zeroed = (.ok i, m) ∧
      m = Memory.zeroed.writeAll c.loading := by
  obtain ⟨i, m, hinstall⟩ := h.exists_install .zeroed
  have heq := c.install_eq .zeroed
  rw [installFile, hfile] at heq
  obtain ⟨hanswer, hmemory⟩ := Prod.mk.inj (heq.symm.trans hinstall)
  exact ⟨i, m, hanswer, hinstall, hmemory.symm⟩

/-- A kernel laid out below an image that was installed in an empty memory. -/
def LaidOut (image : Bytes) (i : Installed) (place : Address) (s : System) : Prop :=
  ∃ m, install image (imageRegion memoryBase) .zeroed = (.ok i, m) ∧
    Kernel.layOut? (kernelRegion memoryBase) (bootRecord i.table) (some platform) (.ofMemory m) =
      some (place, s)

/-- Two apps of a byte each. With the offsets in order they are loaded, and a kernel that refuses
them has its blocks in the lower half too. -/
theorem run_ordered_and_unordered :
    let ordered : Bytes := [2, 32, 33, 34].flatMap LittleEndian.encode ++ [65, 66]
    let unordered : Bytes := [2, 34, 33, 34].flatMap LittleEndian.encode ++ [65, 66]
    ((run (some .zeroed) [[97]] (treeOf ordered)).ending = .returned 0 ∧
      ∃ i place s l source slot, LaidOut ordered i place s ∧
        Placed memoryBase ordered i place (s.run requests) ∧
        (s.run requests).kernel.loader = some l ∧
        l.plan (s.run requests).machine.memory 1 = .ok (source, slot) ∧
        Bounded memoryBase ordered source slot) ∧
    (run (some .zeroed) [[97]] (treeOf unordered)).ending = .terminated ∧
      ∃ i place s, LaidOut unordered i place s ∧
        Placed memoryBase unordered i place (s.run requests) := by
  intro ordered unordered
  have hsteps (m : Memory) (lo hi : Nat) : ∀ e ∈ requests, e.Inside m lo hi := by
    intro e he
    simp only [requests, List.mem_cons, List.not_mem_nil, or_false] at he
    rcases he with rfl | rfl
    · exact .act _
    · exact .act _
  constructor
  · have hopen : (treeOf ordered).open? (imagePath [[97]]) = some (.file ordered) := by rfl
    have hacc : Accepted ordered (imageRegion memoryBase) (memoryBase + halfSize) := by decide
    have hasc : OffsetsAscending ordered := by decide
    have hroom : memoryBase.toNat + 0x4000000 < 2 ^ 64 := by decide
    obtain ⟨c, hending, -, -, hcourse⟩ :=
      exists_course (treeOf ordered) [[97]] ordered memoryBase hopen (by decide) hroom
    obtain ⟨i, m, hanswer, hinstall, rfl⟩ := exists_answer c hopen hacc
    rw [hanswer] at hending
    dsimp only at hending
    rw [if_pos hasc] at hending
    refine ⟨(congrArg Outcome.ending (c.run_eq .zeroed)).trans hending, ?_⟩
    obtain ⟨-, hbooted⟩ := hcourse i hanswer
    obtain ⟨-, place, s, hlay, -, hkernel, hplaced⟩ := hbooted .zeroed
    obtain ⟨hin, hagrees, -⟩ := hplaced requests (hsteps _ _ _)
    obtain ⟨htable, -, hm⟩ := resident_of_install hacc hinstall
    have hboot := bootFrom_of_ascending hroom hacc hasc hm
    rw [← htable] at hboot
    obtain ⟨hk, -⟩ := hkernel _ _ _ hboot
    have hl : (s.run requests).kernel.loader =
        some (Kernel.bootedLoader memoryBase (directoryOf ordered memoryBase)) := by
      rw [← hk]
      rfl
    have hm' := resident_of_agrees hroom hacc hm hagrees
    have hplan : (Kernel.bootedLoader memoryBase (directoryOf ordered memoryBase)).plan
        (s.run requests).machine.memory 1 = .ok (appExtent ordered (memoryBase + halfSize) 1,
          (loaderOf ordered memoryBase).slots.extent 1) := by
      refine Loader.plan_eq_ok_iff.mpr ⟨hm'.rangeOf? (i := 1) hacc (by decide), ?_, by decide⟩
      exact (Slots.slot?_ofNat _ (k := 1) (by decide)).trans (if_pos (by decide))
    exact ⟨i, place, s, _, _, _, ⟨_, hinstall, hlay⟩, hin, hl, hplan,
      (hin.loader _ hl).2.2 _ _ _ hplan⟩
  · have hopen : (treeOf unordered).open? (imagePath [[97]]) = some (.file unordered) := by rfl
    have hacc : Accepted unordered (imageRegion memoryBase) (memoryBase + halfSize) := by decide
    have hasc : ¬OffsetsAscending unordered := by decide
    obtain ⟨c, hending, -, -, hcourse⟩ :=
      exists_course (treeOf unordered) [[97]] unordered memoryBase hopen (by decide) (by decide)
    obtain ⟨i, m, hanswer, hinstall, rfl⟩ := exists_answer c hopen hacc
    rw [hanswer] at hending
    dsimp only at hending
    rw [if_neg hasc] at hending
    obtain ⟨-, hbooted⟩ := hcourse i hanswer
    obtain ⟨-, place, s, hlay, -, -, hplaced⟩ := hbooted .zeroed
    obtain ⟨hin, -⟩ := hplaced requests (hsteps _ _ _)
    exact ⟨(congrArg Outcome.ending (c.run_eq .zeroed)).trans hending, i, place, s,
      ⟨_, hinstall, hlay⟩, hin⟩

end Simulator

end EmbeddedApps
