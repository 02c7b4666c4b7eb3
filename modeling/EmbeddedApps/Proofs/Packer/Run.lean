import EmbeddedApps.Packer.Run
import EmbeddedApps.Proofs.Bundle.Additions
import EmbeddedApps.Proofs.Bundle.Output
import Mathlib

/-!
# Runs of the packer

A run reads all that it is told to read before it opens an output. Whatever it is refused for, and
whatever cannot be read, no file has changed by then. The listing is made only when its file is
open, so where it cannot be made its file is empty. And where its end is lost unnoticed, the run
goes on with the image.
-/

namespace EmbeddedApps

private theorem Bundle.exists_create_iff (alignment : UInt64) (symbolPrefix : Bytes) :
    (∃ b, create alignment symbolPrefix = .ok b) ↔
      isImageAlignment alignment = true ∧ symbolPrefix.all isSymbolByte = true := by
  rw [create]
  split
  · split
    · simp [*]
    · simp [*]
  · simp [*]

namespace Packer

variable {tool : Bytes} {arguments : List Bytes} {files t u : FileTree} {o : Options} {b : Bundle}
  {f : BuildFault}

/-- All that options name can be read, and alignment and prefix are admitted. -/
structure Acceptable (o : Options) (files : FileTree) : Prop where
  alignment : isImageAlignment o.alignment = true
  symbolPrefix : o.symbolPrefix.all isSymbolByte = true
  manifest : o.manifest = [] ∨ ∃ ps, Manifest.load files o.manifest = .ok ps
  programs : ∀ path ∈ o.programs, files.Readable path

private theorem exists_read_program_iff (path : Bytes) :
    (∃ ps, (Addition.program [] path).read files = .ok ps) ↔ files.Readable path := by
  rw [← Program.exists_load_iff (Path.stem path) 0]
  simp only [Addition.read, List.isEmpty_nil, if_true, map_eq_ok_iff]
  constructor
  · rintro ⟨ps, p, hload, -⟩
    exact ⟨p, hload⟩
  · rintro ⟨p, hload⟩
    exact ⟨[p], p, hload, rfl⟩

private theorem forall_additions_iff (o : Options) (files : FileTree) :
    (∀ a ∈ additions o, ∃ ps, a.read files = .ok ps) ↔
      (o.manifest = [] ∨ ∃ ps, Manifest.load files o.manifest = .ok ps) ∧
        ∀ path ∈ o.programs, files.Readable path := by
  rw [additions, List.forall_mem_append, List.forall_mem_map]
  simp only [exists_read_program_iff]
  refine and_congr_left' ?_
  cases o.manifest with
  | nil => simp
  | cons c cs => simp [Addition.read]

theorem collect_eq_ok_iff : collect o files = .ok b ↔
    ∃ b₀, Bundle.create o.alignment o.symbolPrefix = .ok b₀ ∧
      ((additions o).forM (Addition.perform files) : Filling Unit) b₀ = .ok () b := by
  rw [collect]
  cases Bundle.create o.alignment o.symbolPrefix with
  | error f => simp
  | ok b₀ =>
    simp only [Except.ok.injEq, exists_eq_left']
    split
    · simp [*]
    · simp [*]

private theorem exists_collect_iff (o : Options) (files : FileTree) :
    (∃ b, collect o files = .ok b) ↔ Acceptable o files := by
  have hcreate := Bundle.exists_create_iff o.alignment o.symbolPrefix
  have hreads := forall_additions_iff o files
  simp only [collect_eq_ok_iff]
  constructor
  · rintro ⟨b, b₀, hb₀, hb⟩
    obtain ⟨halignment, hprefix⟩ := hcreate.mp ⟨b₀, hb₀⟩
    obtain ⟨hmanifest, hprograms⟩ := hreads.mp (Addition.exists_forM_perform_iff.mp ⟨b, hb⟩)
    exact ⟨halignment, hprefix, hmanifest, hprograms⟩
  · intro h
    obtain ⟨b₀, hb₀⟩ := hcreate.mpr ⟨h.alignment, h.symbolPrefix⟩
    obtain ⟨b, hb⟩ := Addition.exists_forM_perform_iff.mpr (hreads.mpr ⟨h.manifest, h.programs⟩)
    exact ⟨b, b₀, hb₀, hb⟩

/-- The options of a command line, of which each argument ends at a zero byte. -/
def parse (arguments : List Bytes) : Except Refusal Options :=
  Options.ofArguments (arguments.map Bytes.beforeNul)

/-- The command line is refused for another reason than that it asks for help. -/
def Refused (arguments : List Bytes) : Prop := ∃ r, parse arguments = .error r ∧ r ≠ .help

/-- The command line is read, but what it names is not. -/
def Unread (arguments : List Bytes) (files : FileTree) : Prop :=
  ∃ o, parse arguments = .ok o ∧ ¬Acceptable o files

def Reaches (arguments : List Bytes) (files : FileTree) (o : Options) (b : Bundle) : Prop :=
  parse arguments = .ok o ∧ collect o files = .ok b

theorem Reaches.unique {o' : Options} {b' : Bundle} (h : Reaches arguments files o b)
    (h' : Reaches arguments files o' b') : o = o' ∧ b = b' := by
  obtain ⟨hparse, hcollect⟩ := h
  obtain ⟨hparse', hcollect'⟩ := h'
  obtain rfl := Except.ok.inj (hparse.symm.trans hparse')
  exact ⟨rfl, Except.ok.inj (hcollect.symm.trans hcollect')⟩

def Passes (path : Bytes) (write : Bytes → Filing Unit) (t u : FileTree) : Prop :=
  path = [] ∧ u = t ∨ path ≠ [] ∧ write path t = .ok () u

/-- The run gets to the listing, which fails and leaves these files. -/
def ListingFails (arguments : List Bytes) (files : FileTree) (f : BuildFault) (u : FileTree) :
    Prop :=
  ∃ o b, Reaches arguments files o b ∧ o.listing ≠ [] ∧ b.writeListing o.listing files = .error f u

/-- The run gets to the image, which fails and leaves these files. -/
def ImageFails (arguments : List Bytes) (files : FileTree) (f : BuildFault) (u : FileTree) : Prop :=
  ∃ o b t, Reaches arguments files o b ∧ Passes o.listing b.writeListing files t ∧
    o.image ≠ [] ∧ b.writeImage o.image t = .error f u

section Outputs

variable {path : Bytes} {write : Bytes → Filing Unit}

private def writeIfAsked (path : Bytes) (write : Bytes → Filing Unit) : Filing Unit := do
  if !path.isEmpty then write path

private theorem writeIfAsked_of_passes (h : Passes path write t u) :
    writeIfAsked path write t = .ok () u := by
  rcases h with ⟨rfl, rfl⟩ | ⟨hpath, hwrite⟩
  · rfl
  · simpa [writeIfAsked, hpath] using hwrite

private theorem writeIfAsked_of_error (hpath : path ≠ []) (h : write path t = .error f u) :
    writeIfAsked path write t = .error f u := by
  simpa [writeIfAsked, hpath] using h

private theorem passes_or_error (path : Bytes) (write : Bytes → Filing Unit) (t : FileTree) :
    (∃ u, Passes path write t u) ∨ path ≠ [] ∧ ∃ f u, write path t = .error f u := by
  by_cases hpath : path = []
  · exact .inl ⟨t, .inl ⟨hpath, rfl⟩⟩
  · cases hwrite : write path t with
    | ok _ u => exact .inl ⟨u, .inr ⟨hpath, hwrite⟩⟩
    | error f u => exact .inr ⟨hpath, f, u, rfl⟩

private theorem writeOutputs_eq (o : Options) (b : Bundle) (files : FileTree) :
    writeOutputs o b files =
      match writeIfAsked o.listing b.writeListing files with
      | .ok _ t => writeIfAsked o.image b.writeImage t
      | .error f t => .error f t := by
  rw [writeOutputs]
  cases hlisting : o.listing with
  | nil => rfl
  | cons c cs =>
    simp only [writeIfAsked, List.isEmpty_cons, Bool.not_false, if_true, bind, EStateM.bind]
    cases b.writeListing (c :: cs) files with
    | ok _ t => rfl
    | error f t => rfl

end Outputs

inductive Ends (tool : Bytes) (arguments : List Bytes) (files : FileTree) : Outcome → Prop
  | refused (r : Refusal) : parse arguments = .error r →
    Ends tool arguments files (refuse tool files r)
  | unread (f : BuildFault) : Unread arguments files → Ends tool arguments files (report files f)
  | noListing (f : BuildFault) (u : FileTree) : ListingFails arguments files f u →
    Ends tool arguments files (report u f)
  | noImage (f : BuildFault) (u : FileTree) : ImageFails arguments files f u →
    Ends tool arguments files (report u f)
  | done (o : Options) (b : Bundle) (t u : FileTree) : Reaches arguments files o b →
    Passes o.listing b.writeListing files t → Passes o.image b.writeImage t u →
    Ends tool arguments files ⟨0, summary o b, u⟩

section Stages

variable (tool)

private theorem run_of_refusal {r : Refusal} (h : parse arguments = .error r) :
    run tool arguments files = refuse tool files r := by
  rw [run, ← parse, h]

private theorem run_of_unread (h : Unread arguments files) :
    ∃ f, run tool arguments files = report files f := by
  obtain ⟨o, hparse, hnot⟩ := h
  cases hcollect : collect o files with
  | error f =>
    refine ⟨f, ?_⟩
    rw [run, ← parse, hparse]
    dsimp only
    rw [execute, hcollect]
  | ok b => exact absurd ((exists_collect_iff o files).mp ⟨b, hcollect⟩) hnot

/-- Once everything is read, the run depends only on what can be written. -/
private theorem run_of_reaches (h : Reaches arguments files o b) :
    run tool arguments files =
      match writeOutputs o b files with
      | .error f u => report u f
      | .ok _ u => ⟨0, summary o b, u⟩ := by
  obtain ⟨hparse, hcollect⟩ := h
  rw [run, ← parse, hparse]
  cases hwrite : writeOutputs o b files with
  | error f u => simp only [execute, hcollect, hwrite]
  | ok _ u => simp only [execute, hcollect, hwrite]

private theorem run_of_listing_fails (h : ListingFails arguments files f u) :
    run tool arguments files = report u f := by
  obtain ⟨o, b, hreaches, hpath, hlisting⟩ := h
  rw [run_of_reaches tool hreaches, writeOutputs_eq, writeIfAsked_of_error hpath hlisting]

private theorem run_of_image_fails (h : ImageFails arguments files f u) :
    run tool arguments files = report u f := by
  obtain ⟨o, b, t, hreaches, hlisting, hpath, himage⟩ := h
  rw [run_of_reaches tool hreaches, writeOutputs_eq, writeIfAsked_of_passes hlisting]
  dsimp only
  rw [writeIfAsked_of_error hpath himage]

private theorem run_of_passes (h : Reaches arguments files o b)
    (hlisting : Passes o.listing b.writeListing files t)
    (himage : Passes o.image b.writeImage t u) :
    run tool arguments files = ⟨0, summary o b, u⟩ := by
  rw [run_of_reaches tool h, writeOutputs_eq, writeIfAsked_of_passes hlisting]
  dsimp only
  rw [writeIfAsked_of_passes himage]

theorem ends_run (arguments : List Bytes) (files : FileTree) :
    Ends tool arguments files (run tool arguments files) := by
  cases hparse : parse arguments with
  | error r => exact run_of_refusal tool hparse ▸ .refused r hparse
  | ok o =>
    by_cases hacceptable : Acceptable o files
    · obtain ⟨b, hcollect⟩ := (exists_collect_iff o files).mpr hacceptable
      have hreaches : Reaches arguments files o b := ⟨hparse, hcollect⟩
      rcases passes_or_error o.listing b.writeListing files with
        ⟨t, hlisting⟩ | ⟨hpath, f, u, hlisting⟩
      · rcases passes_or_error o.image b.writeImage t with ⟨u, himage⟩ | ⟨hpath, f, u, himage⟩
        · exact run_of_passes tool hreaches hlisting himage ▸ .done o b t u hreaches hlisting himage
        · have hfails : ImageFails arguments files f u :=
            ⟨o, b, t, hreaches, hlisting, hpath, himage⟩
          exact run_of_image_fails tool hfails ▸ .noImage f u hfails
      · have hfails : ListingFails arguments files f u := ⟨o, b, hreaches, hpath, hlisting⟩
        exact run_of_listing_fails tool hfails ▸ .noListing f u hfails
    · have hunread : Unread arguments files := ⟨o, hparse, hacceptable⟩
      obtain ⟨f, hrun⟩ := run_of_unread tool hunread
      exact hrun ▸ .unread f hunread

end Stages

private theorem exitCode_refuse (tool : Bytes) (files : FileTree) {r : Refusal} (h : r ≠ .help) :
    (refuse tool files r).exitCode = 1 := by
  cases r with
  | help => exact absurd rfl h
  | _ => rfl

private theorem files_refuse (tool : Bytes) (files : FileTree) (r : Refusal) :
    (refuse tool files r).files = files := by
  cases r with
  | _ => rfl

namespace Ends

variable {r : Outcome} (h : Ends tool arguments files r)
include h

private theorem exitCode_eq_zero_or_one : r.exitCode = 0 ∨ r.exitCode = 1 := by
  cases h with
  | refused refusal =>
    cases refusal with
    | help => exact .inl rfl
    | _ => exact .inr rfl
  | done => exact .inl rfl
  | _ => exact .inr rfl

private theorem cause_of_failed (hcode : r.exitCode = 1) :
    Refused arguments ∨ Unread arguments files ∨
      (∃ f u, ListingFails arguments files f u) ∨ ∃ f u, ImageFails arguments files f u := by
  cases h with
  | refused refusal hparse =>
    -- Asking for help is the one refusal that ends with zero.
    refine .inl ⟨refusal, hparse, ?_⟩
    intro hhelp
    rw [hhelp] at hcode
    cases hcode
  | unread f hunread => exact .inr (.inl hunread)
  | noListing f u hlisting => exact .inr (.inr (.inl ⟨f, u, hlisting⟩))
  | noImage f u himage => exact .inr (.inr (.inr ⟨f, u, himage⟩))
  | done => cases hcode

theorem of_exitCode_eq_zero (hcode : r.exitCode = 0) (hhelp : parse arguments ≠ .error .help) :
    ∃ o b t, Reaches arguments files o b ∧ Passes o.listing b.writeListing files t ∧
      Passes o.image b.writeImage t r.files ∧ r.printed = summary o b := by
  cases h with
  | refused refusal hparse =>
    have hrefusal : refusal ≠ .help := fun heq => hhelp (heq ▸ hparse)
    rw [exitCode_refuse tool files hrefusal] at hcode
    cases hcode
  | done o b t u hreaches hlisting himage => exact ⟨o, b, t, hreaches, hlisting, himage, rfl⟩
  | _ => cases hcode

end Ends

private theorem exitCode_run_eq_one_iff (tool : Bytes) (arguments : List Bytes) (files : FileTree) :
    (run tool arguments files).exitCode = 1 ↔ Refused arguments ∨ Unread arguments files ∨
      (∃ f u, ListingFails arguments files f u) ∨ ∃ f u, ImageFails arguments files f u := by
  refine ⟨(ends_run tool arguments files).cause_of_failed, ?_⟩
  rintro (⟨r, hparse, hhelp⟩ | h | ⟨f, u, h⟩ | ⟨f, u, h⟩)
  · rw [run_of_refusal tool hparse]
    exact exitCode_refuse tool files hhelp
  · obtain ⟨f, hrun⟩ := run_of_unread tool h
    rw [hrun, report]
  · rw [run_of_listing_fails tool h, report]
  · rw [run_of_image_fails tool h, report]

private theorem files_run_of_refused_or_unread (tool : Bytes)
    (h : Refused arguments ∨ Unread arguments files) :
    (run tool arguments files).files = files := by
  rcases h with ⟨r, hparse, -⟩ | hunread
  · rw [run_of_refusal tool hparse]
    exact files_refuse tool files r
  · obtain ⟨f, hrun⟩ := run_of_unread tool hunread
    rw [hrun, report]

theorem Passes.resolve?_eq (h : Passes o.listing b.writeListing files t) (path : Bytes) :
    t.resolve? path = files.resolve? path := by
  rcases h with ⟨-, rfl⟩ | ⟨-, hlisting⟩
  · rfl
  · exact (hlisting ▸ b.writing_writeListing files o.listing).resolve?_eq path

private theorem Passes.node_eq {place : List Bytes}
    (h : Passes o.listing b.writeListing files t)
    (hplace : files.resolve? o.listing ≠ some place) : t.node place = files.node place := by
  rcases h with ⟨-, rfl⟩ | ⟨-, hlisting⟩
  · rfl
  · exact (hlisting ▸ b.writing_writeListing files o.listing).node_eq hplace

private theorem ListingFails.left (h : ListingFails arguments files f u) :
    ∃ o, parse arguments = .ok o ∧ (f = .noOutput o.listing ∧ u = files ∨
      ∃ place, files.Writable o.listing place ∧
        ((∃ content, f = .incompleteOutput o.listing ∧ u = files.fill place content) ∨
          ∃ path, files.absolute? path = none ∧ f = .noAbsolutePath path ∧
            u = files.fill place [])) := by
  obtain ⟨o, b, ⟨hparse, -⟩, -, hlisting⟩ := h
  have hwriting := b.writing_writeListing files o.listing
  refine ⟨o, hparse, ?_⟩
  rw [hlisting] at hwriting
  cases hwriting with
  | refused => exact .inl ⟨rfl, rfl⟩
  | unmade place f hplace hmade =>
    obtain ⟨p, -, hnone, rfl⟩ := Bundle.of_renderListing_eq_error hmade
    exact .inr ⟨place, hplace, .inr ⟨p.path, hnone, rfl, rfl⟩⟩
  | incomplete place content hplace =>
    exact .inr ⟨place, hplace, .inl ⟨content, rfl, rfl⟩⟩

private theorem ImageFails.left (h : ImageFails arguments files f u) :
    ∃ o, parse arguments = .ok o ∧ (f = .noOutput o.image ∨ f = .incompleteOutput o.image) ∧
      ∀ place, files.resolve? o.listing ≠ some place → files.resolve? o.image ≠ some place →
        u.node place = files.node place := by
  obtain ⟨o, b, t, ⟨hparse, -⟩, hlisting, -, himage⟩ := h
  have hwriting := b.writing_writeImage t o.image
  rw [himage] at hwriting
  refine ⟨o, hparse, ?_, fun place hfirst hsecond => ?_⟩
  · cases hwriting with
    | refused => exact .inl rfl
    | unmade place f hplace hmade => cases hmade
    | incomplete => exact .inr rfl
  · rw [← hlisting.node_eq hfirst]
    exact hwriting.node_eq (by rwa [hlisting.resolve?_eq])

/-- A run ends with one if its command line is refused, if something that it names cannot be read
or is not admitted, or if an output fails, and otherwise it ends with zero. In the first two cases
all files are as they were. A listing that fails changes at most its own file, and no image is
begun: its path does not open, its file has not taken all of it, or it could not be made and its
file is empty by then. An image that fails leaves all but the two outputs alone. -/
theorem run_reads_before_writing (tool : Bytes) (arguments : List Bytes) (files : FileTree) :
    let r := run tool arguments files
    (r.exitCode = 0 ∨ r.exitCode = 1) ∧
    (r.exitCode = 1 ↔ Refused arguments ∨ Unread arguments files ∨
      (∃ f u, ListingFails arguments files f u) ∨ ∃ f u, ImageFails arguments files f u) ∧
    (Refused arguments ∨ Unread arguments files → r.files = files) ∧
    (∀ f u, ListingFails arguments files f u → r.files = u ∧
      ∃ o, parse arguments = .ok o ∧ (f = .noOutput o.listing ∧ u = files ∨
        ∃ place, files.Writable o.listing place ∧
          ((∃ content, f = .incompleteOutput o.listing ∧ u = files.fill place content) ∨
            ∃ path, files.absolute? path = none ∧ f = .noAbsolutePath path ∧
              u = files.fill place []))) ∧
    (∀ f u, ImageFails arguments files f u → r.files = u ∧
      ∃ o, parse arguments = .ok o ∧ (f = .noOutput o.image ∨ f = .incompleteOutput o.image) ∧
        ∀ place, files.resolve? o.listing ≠ some place → files.resolve? o.image ≠ some place →
          u.node place = files.node place) := by
  intro r
  refine ⟨(ends_run tool arguments files).exitCode_eq_zero_or_one,
    exitCode_run_eq_one_iff tool arguments files, files_run_of_refused_or_unread tool, ?_, ?_⟩
  · intro f u hfails
    exact ⟨congrArg Outcome.files (run_of_listing_fails tool hfails), hfails.left⟩
  · intro f u hfails
    exact ⟨congrArg Outcome.files (run_of_image_fails tool hfails), hfails.left⟩

/-- The full device takes nothing of a short listing, but it is closed before anyone asks, so the
image is written and the run ends with zero. And in a working folder that was removed the listing
cannot be made, which empties the file that it was meant for. -/
theorem run_writes_before_failing :
    (let t := FileTree.empty []
      let r := run (text "mkappimg")
        [text "--asm", text "/dev/full", text "--image", text "/out.img"] t
      (∃ b, collect
          { Options.initial with listing := text "/dev/full", image := text "/out.img" } t = .ok b ∧
        t.Loses (text "/dev/full") (b.listing t)) ∧
      t.content? (text "/out.img") = none ∧ r.exitCode = 0 ∧
      (r.files.content? (text "/out.img")).isSome = true) ∧
    (let t : FileTree :=
      { workingFolder := [text "d", []]
        node := fun place =>
          if place = [text "prog"] then some (.file [7])
          else if place = [text "out.S"] then some (.file [1, 2, 3])
          else some .folder }
      let r := run (text "mkappimg") [text "--asm", text "../../out.S", text "../../prog"] t
      t.content? (text "/out.S") = some [1, 2, 3] ∧ r.exitCode = 1 ∧
      r.printed = [.error (text "[mkappimg] error: filesystem error: cannot make absolute path: " ++
        text "No such file or directory [../../prog]\n")] ∧
      r.files.content? (text "/out.S") = some []) := by
  refine ⟨?_, ?_⟩
  · intro t r
    refine ⟨⟨⟨1, [], [], rfl, rfl⟩, rfl, ?_⟩, by decide +kernel, by decide +kernel,
      by decide +kernel⟩
    refine @FileTree.Loses.fullDevice _ _ _ [text "dev", text "full"] ?_ rfl ?_
    · exact ⟨by decide +kernel, by decide +kernel, by decide +kernel⟩
    · decide +kernel
  · intro t r
    exact ⟨by decide +kernel, by decide +kernel, by decide +kernel, by decide +kernel⟩

end Packer

end EmbeddedApps
