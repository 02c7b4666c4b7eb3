import EmbeddedApps.Proofs.Packer.Outputs
import Mathlib

/-!
# The order of options

A command line is a list of groups: an option with its value, the option that stands alone, or a
program. What a command line asks for can be said without going through the groups in order, but for
the order of the programs. So groups can be put in any order that keeps the programs in theirs.
-/

namespace EmbeddedApps.Packer

inductive ValueOption
  | manifest
  | listing
  | image
  | symbolPrefix
  | alignment
  deriving DecidableEq

def readAlignment (value : Bytes) : Except Refusal UInt64 :=
  match Numeral.word? value with
  | some a => .ok a
  | none => .error (.badAlignment value)

namespace ValueOption

def flag : ValueOption → Bytes
  | manifest => text "--manifest"
  | listing => text "--asm"
  | image => text "--image"
  | symbolPrefix => text "--prefix"
  | alignment => text "--align"

def set (o : Options) (value : Bytes) : ValueOption → Except Refusal Options
  | manifest => .ok { o with manifest := value }
  | listing => .ok { o with listing := value }
  | image => .ok { o with image := value }
  | symbolPrefix => .ok { o with symbolPrefix := value }
  | alignment => (readAlignment value).map fun a => { o with alignment := a }

private theorem readValued?_flag (o : Options) (k : ValueOption) (value : Bytes) :
    o.readValued? k.flag value = some (k.set o value) := by
  cases k with
  | alignment =>
    have hread : o.readValued? alignment.flag value =
        match Numeral.word? value with
        | some a => some (.ok { o with alignment := a })
        | none => some (.error (.badAlignment value)) := rfl
    rw [hread, set, readAlignment]
    cases Numeral.word? value with
    | none => rfl
    | some a => rfl
  | _ => rfl

end ValueOption

/-- A part of a command line that belongs together. -/
inductive ArgumentGroup
  | list
  | valued (option : ValueOption) (value : Bytes)
  | program (path : Bytes)
  deriving DecidableEq

namespace ArgumentGroup

def arguments : ArgumentGroup → List Bytes
  | list => [text "--list"]
  | valued k value => [k.flag, value]
  | program path => [path]

/-- The option and the value of a group that has one. The value ends at a zero byte. -/
def setting? : ArgumentGroup → Option (Σ _ : ValueOption, Bytes)
  | valued k value => some ⟨k, value.beforeNul⟩
  | _ => none

/-- The path of a group that is a program. It ends at a zero byte. -/
def program? : ArgumentGroup → Option Bytes
  | program path => some path.beforeNul
  | _ => none

def isList : ArgumentGroup → Bool
  | list => true
  | _ => false

def read (o : Options) : ArgumentGroup → Except Refusal Options
  | list => .ok { o with list := true }
  | valued k value => k.set o value.beforeNul
  | program path => .ok { o with programs := o.programs ++ [path.beforeNul] }

end ArgumentGroup

def commandLine (gs : List ArgumentGroup) : List Bytes := gs.flatMap ArgumentGroup.arguments

/-- The values of options, with the option that each belongs to. -/
def settings (gs : List ArgumentGroup) : List (Σ _ : ValueOption, Bytes) :=
  gs.filterMap ArgumentGroup.setting?

def valueOf (gs : List ArgumentGroup) (k : ValueOption) : Bytes :=
  ((settings gs).dlookup k).getD []

def programs (gs : List ArgumentGroup) : List Bytes := gs.filterMap ArgumentGroup.program?

/-- The options that have these values where there is one, and are as before otherwise. -/
def fill (o : Options) (value? : ValueOption → Option Bytes) (list : Bool) (paths : List Bytes) :
    Except Refusal Options :=
  ((value? .alignment).elim (.ok o.alignment) readAlignment).map fun a =>
    { manifest := (value? .manifest).getD o.manifest
      listing := (value? .listing).getD o.listing
      image := (value? .image).getD o.image
      symbolPrefix := (value? .symbolPrefix).getD o.symbolPrefix
      alignment := a
      list := o.list || list
      programs := o.programs ++ paths }

/-- What groups ask for after some options. Of their order only that of the programs counts. -/
def asked (o : Options) (gs : List ArgumentGroup) : Except Refusal Options :=
  fill o (fun k => (settings gs).dlookup k) (gs.any ArgumentGroup.isList) (programs gs)

section Reading

variable {o : Options} {gs gs' : List ArgumentGroup}

private theorem readAll_cons {argument : Bytes} (h : ∀ value, o.readValued? argument value = none)
    (rest : List Bytes) :
    o.readAll (argument :: rest) = o.readSingle argument >>= fun o => o.readAll rest := by
  cases rest with
  | nil =>
    rw [Options.readAll]
    cases o.readSingle argument with
    | error r => rfl
    | ok o => rfl
  | cons value rest =>
    rw [Options.readAll, h]
    cases o.readSingle argument with
    | error r => rfl
    | ok o => rfl

private theorem readAll_flag (k : ValueOption) (value : Bytes) (rest : List Bytes) :
    o.readAll (k.flag :: value :: rest) = k.set o value >>= fun o => o.readAll rest := by
  rw [Options.readAll, k.readValued?_flag]
  cases k.set o value with
  | error r => rfl
  | ok o => rfl

private theorem read_program {path : Bytes} (h : path.head? ≠ some Bytes.minus) :
    (∀ value, o.readValued? path value = none) ∧
      o.readSingle path = .ok { o with programs := o.programs ++ [path] } := by
  have hne (flag : Bytes) (hflag : flag.head? = some Bytes.minus) : path ≠ flag := by
    rintro rfl
    exact h hflag
  constructor
  · intro value
    simp only [Options.readValued?, hne (text "--manifest") rfl, hne (text "--asm") rfl,
      hne (text "--image") rfl, hne (text "--prefix") rfl, hne (text "--align") rfl, if_false]
  · simp only [Options.readSingle, hne (text "--list") rfl, hne (text "-h") rfl,
      hne (text "--help") rfl, h, or_self, if_false]

private theorem readAll_commandLine (hplain : ∀ path ∈ programs gs, path.head? ≠ some Bytes.minus) :
    o.readAll ((commandLine gs).map Bytes.beforeNul) = gs.foldlM ArgumentGroup.read o := by
  induction gs generalizing o with
  | nil => rfl
  | cons g gs ih =>
    rw [commandLine, List.flatMap_cons, ← commandLine, List.map_append, List.foldlM_cons]
    cases g with
    | list =>
      have hlist : (text "--list").beforeNul = text "--list" := by decide
      simp only [ArgumentGroup.arguments, List.map_cons, List.map_nil, hlist, List.singleton_append]
      rw [readAll_cons fun _ => rfl]
      exact ih hplain
    | valued k value =>
      have hflag : k.flag.beforeNul = k.flag := by cases k <;> decide
      simp only [ArgumentGroup.arguments, List.map_cons, List.map_nil, hflag, List.cons_append,
        List.nil_append, readAll_flag, ArgumentGroup.read]
      congr 1
      funext o
      exact ih hplain
    | program path =>
      have hpath := read_program (o := o) (hplain _ List.mem_cons_self)
      simp only [ArgumentGroup.arguments, List.map_cons, List.map_nil, List.singleton_append]
      rw [readAll_cons hpath.1, hpath.2]
      exact ih fun p hp => hplain p (List.mem_cons_of_mem _ hp)

private theorem fill_update (o : Options) {value? : ValueOption → Option Bytes} {k : ValueOption}
    (h : value? k = none) (value : Bytes) (list : Bool) (paths : List Bytes) :
    fill o (Function.update value? k (some value)) list paths =
      k.set o value >>= fun o => fill o value? list paths := by
  cases k with
  | alignment =>
    rw [fill, Function.update_self, Option.elim_some, ValueOption.set]
    cases readAlignment value with
    | error r => rfl
    | ok a => simp [fill, h, Except.map, bind, Except.bind]
  | _ => simp [fill, h, ValueOption.set, bind, Except.bind]

private theorem of_fill_eq_ok {o o' : Options} {value? : ValueOption → Option Bytes} {list : Bool}
    {paths : List Bytes} (h : fill o value? list paths = .ok o') :
    o'.manifest = (value? .manifest).getD o.manifest ∧
    o'.listing = (value? .listing).getD o.listing ∧ o'.image = (value? .image).getD o.image ∧
    o'.list = (o.list || list) ∧ o'.programs = o.programs ++ paths := by
  rw [fill] at h
  obtain ⟨a, -, rfl⟩ := map_eq_ok_iff.mp h
  exact ⟨rfl, rfl, rfl, rfl, rfl⟩

private theorem ne_help_of_fill_eq_error {o : Options} {value? : ValueOption → Option Bytes}
    {list : Bool}
    {paths : List Bytes} {r : Refusal} (h : fill o value? list paths = .error r) : r ≠ .help := by
  rw [fill] at h
  cases hvalue : value? .alignment with
  | none =>
    rw [hvalue] at h
    cases h
  | some value =>
    rw [hvalue, Option.elim_some, readAlignment] at h
    cases hword : Numeral.word? value with
    | none =>
      rw [hword] at h
      cases h
      nofun
    | some a =>
      rw [hword] at h
      cases h

private theorem asked_list (o : Options) (gs : List ArgumentGroup) :
    asked o (.list :: gs) = asked { o with list := true } gs := by
  simp only [asked, fill, List.any_cons, ArgumentGroup.isList, Bool.true_or, Bool.or_true]
  rfl

private theorem asked_program (o : Options) (path : Bytes) (gs : List ArgumentGroup) :
    asked o (.program path :: gs) =
      asked { o with programs := o.programs ++ [path.beforeNul] } gs := by
  have hprograms : programs (.program path :: gs) = path.beforeNul :: programs gs := rfl
  simp only [asked, fill, hprograms, List.append_assoc, List.singleton_append]
  rfl

private theorem asked_valued (o : Options) {k : ValueOption} {value : Bytes}
    {gs : List ArgumentGroup}
    (honce : (settings (.valued k value :: gs)).NodupKeys) :
    asked o (.valued k value :: gs) = k.set o value.beforeNul >>= fun o => asked o gs := by
  have hsettings : settings (.valued k value :: gs) = ⟨k, value.beforeNul⟩ :: settings gs := rfl
  rw [hsettings, List.nodupKeys_cons] at honce
  -- The option is not given again, so its value remains.
  have hkey : (settings gs).dlookup k = none := List.dlookup_eq_none.mpr honce.1
  have hvalues : (fun k' => (settings (.valued k value :: gs)).dlookup k') =
      Function.update (fun k' => (settings gs).dlookup k') k (some value.beforeNul) := by
    funext k'
    rw [hsettings]
    by_cases h : k' = k
    · subst h
      rw [List.dlookup_cons_eq, Function.update_self]
    · rw [List.dlookup_cons_ne _ _ h, Function.update_of_ne h]
  rw [asked, hvalues, fill_update o hkey]
  rfl

/-- As long as no option is given twice, reading group by group comes to what is asked for. -/
theorem foldlM_read (honce : (settings gs).NodupKeys) :
    gs.foldlM ArgumentGroup.read o = asked o gs := by
  induction gs generalizing o with
  | nil => simp [asked, fill, settings, programs, pure, Except.pure, Except.map]
  | cons g gs ih =>
    rw [List.foldlM_cons]
    cases g with
    | list =>
      rw [asked_list]
      exact ih honce
    | program path =>
      rw [asked_program]
      exact ih honce
    | valued k value =>
      rw [asked_valued o honce]
      congr 1
      funext o
      exact ih (List.nodupKeys_cons.mp honce).2

private theorem asked_of_perm (o : Options) (hperm : gs.Perm gs') (honce : (settings gs).NodupKeys)
    (horder : programs gs = programs gs') : asked o gs = asked o gs' := by
  have hsettings : (settings gs).Perm (settings gs') := hperm.filterMap ArgumentGroup.setting?
  have hvalues : (fun k => (settings gs).dlookup k) = fun k => (settings gs').dlookup k :=
    funext fun k => List.perm_dlookup k honce hsettings
  rw [asked, asked, hvalues, horder, hperm.any_eq]

variable (honce : (settings gs).NodupKeys)
  (hplain : ∀ path ∈ programs gs, path.head? ≠ some Bytes.minus)
include honce hplain

private theorem parse_commandLine :
    parse (commandLine gs) =
      match asked .initial gs with
      | .error r => .error r
      | .ok o => if o.hasTask then .ok o else .error .nothingToDo := by
  rw [← foldlM_read honce, ← readAll_commandLine hplain]
  rfl

private theorem eq_of_parse_commandLine (h : parse (commandLine gs) = .ok o) :
    o.manifest = valueOf gs .manifest ∧ o.listing = valueOf gs .listing ∧
    o.image = valueOf gs .image ∧ o.list = gs.any ArgumentGroup.isList ∧
    o.programs = programs gs := by
  rw [parse_commandLine honce hplain] at h
  split at h
  · cases h
  · split at h
    · cases h
      exact of_fill_eq_ok ‹_›
    · cases h

private theorem parse_commandLine_ne_help : parse (commandLine gs) ≠ .error .help := by
  intro h
  rw [parse_commandLine honce hplain] at h
  split at h
  · cases h
    exact ne_help_of_fill_eq_error ‹_› rfl
  · split at h
    · cases h
    · cases h

end Reading

section Collecting

variable {files : FileTree} {b b' : Bundle}

/-- A bundle holds the programs that a manifest lists, in the order of its lines, and behind them
those that come one by one from paths, all numbered through. -/
def Holds (files : FileTree) (manifest : Bytes) (paths : List Bytes) (b : Bundle) : Prop :=
  ∃ ps qs, (if manifest = [] then ps = [] else Manifest.load files manifest = .ok ps) ∧
    List.Forall₂ (fun path p => Program.load files (Path.stem path) path 0 = .ok p) paths qs ∧
    b.programs = Program.numbered 0 (ps ++ qs)

private theorem exists_loads {paths : List Bytes} {pss : List (List Program)}
    (h : List.Forall₂ (fun path ps => (Addition.program [] path).read files = .ok ps) paths pss) :
    ∃ qs, List.Forall₂ (fun path p => Program.load files (Path.stem path) path 0 = .ok p) paths qs ∧
      pss.flatten = qs := by
  induction h with
  | nil => exact ⟨[], .nil, rfl⟩
  | cons hfirst _ ih =>
    obtain ⟨qs, hqs, hflatten⟩ := ih
    obtain ⟨p, hload, rfl⟩ := map_eq_ok_iff.mp hfirst
    exact ⟨p :: qs, .cons hload hqs, by rw [List.flatten_cons, hflatten, List.singleton_append]⟩

private theorem holds_of_collect {o : Options} (h : collect o files = .ok b) :
    Holds files o.manifest o.programs b := by
  obtain ⟨b₀, hcreate, hread⟩ := collect_eq_ok_iff.mp h
  obtain ⟨-, -, hempty⟩ := Bundle.eq_of_create hcreate
  obtain ⟨pss, hall, rfl⟩ := Addition.forM_perform_eq_ok_iff.mp hread
  have hnumbered (ps : List Program) : (b₀.add ps).programs = Program.numbered 0 ps := by
    rw [b₀.programs_add, Bundle.nextIndex, hempty]
    rfl
  rw [additions] at hall
  split at hall
  · rename_i hno
    rw [List.nil_append, List.forall₂_map_left_iff] at hall
    obtain ⟨qs, hqs, rfl⟩ := exists_loads hall
    exact ⟨[], pss.flatten, by rw [if_pos (List.isEmpty_iff.mp hno)], hqs, hnumbered _⟩
  · rename_i hpath
    rw [List.singleton_append] at hall
    obtain _ | @⟨_, ps, _, pss, hmanifest, hrest⟩ := hall
    rw [List.forall₂_map_left_iff] at hrest
    obtain ⟨qs, hqs, rfl⟩ := exists_loads hrest
    rw [List.isEmpty_iff] at hpath
    exact ⟨ps, pss.flatten, by rwa [if_neg hpath], hqs, hnumbered _⟩

end Collecting

/-- On a command line each option is given at most once, and no program starts with a minus sign.
Its groups are put in another order that keeps the programs in theirs. Then both runs return the
same value, print the same and leave the same files. A run that ends with zero has made a bundle,
which is the same for both, and it holds the programs of the manifest in its order and behind them
those of the command line in theirs. What is printed is the layout of this bundle, if asked for,
and how many programs it has, and the outputs are its image and its listing unless they are lost. -/
theorem run_of_reordered_groups (tool : Bytes) (files : FileTree) {gs gs' : List ArgumentGroup}
    (hperm : gs.Perm gs') (horder : programs gs = programs gs')
    (honce : (settings gs).NodupKeys)
    (hplain : ∀ path ∈ programs gs, path.head? ≠ some Bytes.minus) :
    let r := run tool (commandLine gs) files
    let image := valueOf gs .image
    let listing := valueOf gs .listing
    r = run tool (commandLine gs') files ∧
    (r.exitCode = 0 → ∃ o b, Reaches (commandLine gs) files o b ∧
      r.printed = (if gs.any ArgumentGroup.isList then layoutLines b else []) ++
        [.error (text "[mkappimg] packed " ++ decimal b.programs.length ++ text " programs\n")] ∧
      (image ≠ [] → (r.files.content? image = some b.image ↔ ¬files.Loses image b.image)) ∧
      (listing ≠ [] → image = [] ∨ files.resolve? listing ≠ files.resolve? image →
        (r.files.content? listing = some (b.listing files) ↔
          ¬files.Loses listing (b.listing files)))) ∧
    ∀ o b, (Reaches (commandLine gs) files o b ↔ Reaches (commandLine gs') files o b) ∧
      (Reaches (commandLine gs) files o b →
        Holds files (valueOf gs .manifest) (programs gs) b) := by
  intro r image listing
  have honce' : (settings gs').NodupKeys :=
    (List.perm_nodupKeys (hperm.filterMap ArgumentGroup.setting?)).mp honce
  have hparse : parse (commandLine gs) = parse (commandLine gs') := by
    rw [parse_commandLine honce hplain, parse_commandLine honce' (horder ▸ hplain),
      asked_of_perm .initial hperm honce horder]
  have hasked {o b} (hreaches : Reaches (commandLine gs) files o b) :=
    eq_of_parse_commandLine honce hplain hreaches.1
  refine ⟨?_, ?_, fun o b => ⟨?_, ?_⟩⟩
  · simp only [r]
    rw [run, run, ← parse, ← parse, hparse]
  · intro hcode
    obtain ⟨o, b, t, hreaches, hlisting, himage, hprinted⟩ :=
      (ends_run tool (commandLine gs) files).of_exitCode_eq_zero hcode
        (parse_commandLine_ne_help honce hplain)
    obtain ⟨-, hlistingPath, himagePath, hlist, -⟩ := hasked hreaches
    have hkept := image_kept_iff hlisting himage
    have hkeptListing := listing_kept_iff hlisting himage
    rw [himagePath] at hkept hkeptListing
    rw [hlistingPath] at hkeptListing
    refine ⟨o, b, hreaches, ?_, hkept, hkeptListing⟩
    have hline : text " programs\n" = text " programs" ++ [Bytes.newline] := by decide
    rw [hprinted, summary, hlist, complain, hline, ← List.append_assoc _ (text " programs")]
  · rw [Reaches, Reaches, hparse]
  · intro hreaches
    obtain ⟨hmanifest, -, -, -, hprograms⟩ := hasked hreaches
    rw [← hmanifest, ← hprograms]
    exact holds_of_collect hreaches.2

/-- The listing goes into a file that is called like an option, and the manifest comes first or
last. -/
theorem run_of_reordered_command_line :
    let t : FileTree :=
      { workingFolder := []
        node := fun place =>
          if place = [] then some .folder
          else if place = [text "m"] then some (.file (text "c"))
          else some (.file [7]) }
    let first := [text "--align", text "8", text "a", text "--list", text "--asm", text "--image",
      text "b", text "--manifest", text "m"]
    let second := [text "--manifest", text "m", text "--asm", text "--image", text "a", text "b",
      text "--list", text "--align", text "8"]
    let r := run (text "mkappimg") first t
    r = run (text "mkappimg") second t ∧ r.exitCode = 0 ∧
    ∃ o b, Reaches first t o b ∧ Reaches second t o b ∧
      b.programs.map (·.name) = [text "c", text "a", text "b"] ∧
      r.printed.getLast? = some (.error (text "[mkappimg] packed 3 programs\n")) ∧
      r.files.content? (text "--image") = some (b.listing t) := by
  intro t first second r
  let gs : List ArgumentGroup := [.valued .alignment (text "8"), .program (text "a"), .list,
    .valued .listing (text "--image"), .program (text "b"), .valued .manifest (text "m")]
  let gs' : List ArgumentGroup := [.valued .manifest (text "m"), .valued .listing (text "--image"),
    .program (text "a"), .program (text "b"), .list, .valued .alignment (text "8")]
  have hperm : gs.Perm gs' := by decide
  have honce : (settings gs).keys.Nodup := by decide
  have hplain : ∀ path ∈ programs gs, path.head? ≠ some Bytes.minus := by decide
  obtain ⟨hrun, hzero, hreaches⟩ :=
    run_of_reordered_groups (text "mkappimg") t hperm rfl honce hplain
  have hcode : r.exitCode = 0 := by decide +kernel
  obtain ⟨o, b, hfirst, hprinted, -, hlisting⟩ := hzero hcode
  obtain ⟨hboth, hholds⟩ := hreaches o b
  obtain ⟨ps, qs, hps, hqs, hprograms⟩ := hholds hfirst
  have hmanifest : Manifest.load t (text "m") = .ok [⟨0, text "c", text "c", [7]⟩] := by
    decide +kernel
  have hload : Program.load t (Path.stem (text "a")) (text "a") 0 =
      .ok ⟨0, text "a", text "a", [7]⟩ ∧ Program.load t (Path.stem (text "b")) (text "b") 0 =
      .ok ⟨0, text "b", text "b", [7]⟩ := by decide +kernel
  cases hmanifest.symm.trans hps
  obtain _ | ⟨ha, _ | ⟨hb, _ | _⟩⟩ := hqs
  cases hload.1.symm.trans ha
  cases hload.2.symm.trans hb
  have hthree : b.programs.length = 3 := by rw [hprograms]; rfl
  have hkeeps : ¬t.Loses (text "--image") (b.listing t) := by
    have hplace : t.Writable (text "--image") [text "--image"] :=
      ⟨by decide +kernel, by decide +kernel, by decide +kernel⟩
    rintro (⟨hq, hdevice, -⟩ | ⟨hq, hdevice, -⟩ | ⟨-, -, hroom, -⟩)
    · cases hplace.unique hq ▸ hdevice
    · cases hplace.unique hq ▸ hdevice
    · cases hroom
  refine ⟨hrun, hcode, o, b, hfirst, hboth.mp hfirst, ?_, ?_, ?_⟩
  · rw [hprograms]
    rfl
  · rw [show r.printed = _ from hprinted, List.getLast?_append_of_ne_nil _ (List.cons_ne_nil _ _),
      hthree]
    decide +kernel
  · exact (hlisting (by decide) (.inl (by decide))).mpr hkeeps

end EmbeddedApps.Packer
