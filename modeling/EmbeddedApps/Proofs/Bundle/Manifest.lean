import EmbeddedApps.Bundle.Manifest
import EmbeddedApps.Proofs.FileTree
import EmbeddedApps.Proofs.Text.Lines
import Mathlib

/-!
# Written manifests

How a list of programs is written as a manifest: a line for each, with its path in quotes, and any
blank lines and comments in between. Reading gives back exactly the programs that were written.
-/

namespace EmbeddedApps.Manifest

/-- A name has no blanks in it, and it starts neither a comment nor a quoted path. -/
def IsName (name : Bytes) : Prop :=
  name ≠ [] ∧ (∀ c ∈ name, Bytes.isBlank c = false) ∧
    name.head? ≠ some Bytes.quote ∧ name.head? ≠ some Bytes.hash

/-- A path that can stand in quotes on a line. -/
def IsPath (path : Bytes) : Prop := path ≠ [] ∧ Bytes.quote ∉ path ∧ Bytes.newline ∉ path

instance (name : Bytes) : Decidable (IsName name) := inferInstanceAs (Decidable (_ ∧ _ ∧ _ ∧ _))

instance (path : Bytes) : Decidable (IsPath path) := inferInstanceAs (Decidable (_ ∧ _ ∧ _))

structure Entry where
  name : Option Bytes
  path : Bytes
  isName : ∀ n ∈ name, IsName n
  isPath : IsPath path

namespace Entry

def quotedPath (e : Entry) : Bytes := Bytes.quote :: e.path ++ [Bytes.quote]

/-- The name, if there is one, and the path in quotes. -/
def text (e : Entry) : Bytes :=
  match e.name with
  | none => e.quotedPath
  | some name => name ++ Bytes.space :: e.quotedPath

/-- The path as seen from the folder of the manifest. -/
def resolved (e : Entry) (manifest : Bytes) : Bytes := Path.join (Path.parent manifest) e.path

def title (e : Entry) (manifest : Bytes) : Bytes := e.name.getD (Path.stem (e.resolved manifest))

end Entry

/-- What stands on a line between its blanks. -/
inductive LineContent
  | nothing
  | comment (words : Bytes) (h : Bytes.newline ∉ words)
  | entry (e : Entry)

def LineContent.text : LineContent → Bytes
  | nothing => []
  | comment words _ => Bytes.hash :: words
  | entry e => e.text

def LineContent.entry? : LineContent → Option Entry
  | entry e => some e
  | _ => none

/-- A line with blanks around what it says. These may be spaces, tabs and carriage returns, so that
a line can also end with a carriage return and a line feed. -/
structure Line where
  before : Bytes
  content : LineContent
  after : Bytes
  isBlank_before : ∀ c ∈ before, Bytes.isBlank c = true ∧ c ≠ Bytes.newline
  isBlank_after : ∀ c ∈ after, Bytes.isBlank c = true ∧ c ≠ Bytes.newline

def Line.text (l : Line) : Bytes := l.before ++ l.content.text ++ l.after

/-- The text of a manifest. It ends with a line feed if nothing stands on its last line. -/
def written (ls : List Line) : Bytes := Bytes.unlines (ls.map Line.text)

def entries (ls : List Line) : List Entry := ls.filterMap (·.content.entry?)

private theorem endsName_of_not_blank {c : UInt8} (h : Bytes.isBlank c = false) :
    ManifestLine.endsName c = false := by
  simp only [Bytes.isBlank, Bool.or_eq_false_iff] at h
  simp [ManifestLine.endsName, h]

namespace Entry

variable (e : Entry)

private theorem unquote?_quotedPath : ManifestLine.unquote? e.quotedPath = some e.path := by
  have hinner : Bytes.quote ∉ e.path := e.isPath.2.1
  simp [quotedPath, ManifestLine.unquote?, hinner]

private theorem trim_quotedPath : e.quotedPath.trim = e.quotedPath :=
  Bytes.trim_of_solid_ends rfl rfl e.path

private theorem exists_text_eq : ∃ c rest, e.text = c :: rest ++ [Bytes.quote] ∧
    Bytes.isBlank c = false ∧ c ≠ Bytes.hash := by
  rw [text]
  cases hname : e.name with
  | none => exact ⟨Bytes.quote, e.path, rfl, rfl, by decide⟩
  | some name =>
    obtain ⟨hne, hsolid, -, hhash⟩ := e.isName name hname
    cases name with
    | nil => exact absurd rfl hne
    | cons c rest =>
      refine ⟨c, rest ++ Bytes.space :: Bytes.quote :: e.path, ?_, hsolid c (by simp), ?_⟩
      · simp [quotedPath]
      · intro hc
        exact hhash (by rw [hc]; rfl)

private theorem trim_text : e.text.trim = e.text := by
  obtain ⟨c, rest, htext, hc, -⟩ := e.exists_text_eq
  rw [htext, Bytes.trim_of_solid_ends hc rfl]

private theorem newline_not_mem_text : Bytes.newline ∉ e.text := by
  have hquoted : Bytes.newline ∉ e.quotedPath := by
    have hpath : Bytes.newline ∉ e.path := e.isPath.2.2
    have hquote : Bytes.newline ≠ Bytes.quote := by decide
    simp [quotedPath, hpath, hquote]
  rw [text]
  cases hname : e.name with
  | none => exact hquoted
  | some name =>
    have hsolid : Bytes.newline ∉ name := by
      intro hmem
      exact absurd ((e.isName name hname).2.1 _ hmem) (by decide)
    have hspace : Bytes.newline ≠ Bytes.space := by decide
    simp [hsolid, hspace, hquoted]

private theorem splitName_text : ManifestLine.splitName e.text = (e.name, e.quotedPath) := by
  rw [text]
  cases hname : e.name with
  | none => simp [ManifestLine.splitName, quotedPath]
  | some name =>
    obtain ⟨hne, hsolid, hquote, -⟩ := e.isName name hname
    have htaken : (name ++ Bytes.space :: e.quotedPath).takeWhile
        (fun c => !ManifestLine.endsName c) = name := by
      rw [List.takeWhile_append_of_pos]
      · simp [ManifestLine.endsName]
      · intro c hc
        simp [endsName_of_not_blank (hsolid c hc)]
    have hhead : (name ++ Bytes.space :: e.quotedPath).head? = name.head? :=
      List.head?_append_of_ne_nil _ hne
    have hpath : Bytes.trim (Bytes.space :: e.quotedPath) = e.quotedPath := by
      have hpad : Bytes.trim ([Bytes.space] ++ e.quotedPath ++ []) = e.quotedPath.trim :=
        Bytes.trim_pad (by simp [Bytes.isBlank]) (by simp)
      simpa [e.trim_quotedPath] using hpad
    simp [ManifestLine.splitName, htaken, hhead, hquote, hpath]

end Entry

namespace Line

variable (l : Line)

private theorem trim_text : l.text.trim = l.content.text.trim :=
  Bytes.trim_pad (fun c hc => (l.isBlank_before c hc).1) fun c hc => (l.isBlank_after c hc).1

private theorem newline_not_mem_text : Bytes.newline ∉ l.text := by
  have hbefore : Bytes.newline ∉ l.before := fun h => (l.isBlank_before _ h).2 rfl
  have hafter : Bytes.newline ∉ l.after := fun h => (l.isBlank_after _ h).2 rfl
  have hcontent : Bytes.newline ∉ l.content.text := by
    cases l.content with
    | nothing => simp [LineContent.text]
    | comment words h =>
      have hhash : Bytes.newline ≠ Bytes.hash := by decide
      simp [LineContent.text, hhash, h]
    | entry e => exact e.newline_not_mem_text
  simp [text, hbefore, hcontent, hafter]

private theorem content_of_entry? {e : Entry} (h : l.content.entry? = some e) :
    l.content = .entry e := by
  cases hcontent : l.content with
  | entry d =>
    rw [hcontent] at h
    rw [Option.some.inj h]
  | _ => simp [hcontent, LineContent.entry?] at h

private theorem parse_of_entry {e : Entry} (h : l.content.entry? = some e) :
    ManifestLine.parse l.text = .entry e.name e.path := by
  obtain ⟨c, rest, htext, -, hhash⟩ := e.exists_text_eq
  obtain ⟨d, ds, hpath⟩ := List.exists_cons_of_ne_nil e.isPath.1
  have htrim : l.text.trim = e.text := by
    rw [l.trim_text, l.content_of_entry? h, LineContent.text, e.trim_text]
  have hfirst : (e.text.isEmpty || e.text.head? == some Bytes.hash) = false := by
    rw [htext]
    simp [hhash]
  simp only [ManifestLine.parse, htrim, hfirst, e.splitName_text, e.unquote?_quotedPath, hpath]
  rfl

private theorem parse_of_no_entry (h : l.content.entry? = none) :
    ManifestLine.parse l.text = .ignored := by
  have hfirst : (l.text.trim.isEmpty || l.text.trim.head? == some Bytes.hash) = true := by
    rw [l.trim_text]
    cases hcontent : l.content with
    | nothing => rfl
    | comment words _ =>
      have hhead := Bytes.head?_trim_cons (c := Bytes.hash) rfl words
      simp [LineContent.text, hhead]
    | entry e => simp [hcontent, LineContent.entry?] at h
  simp only [ManifestLine.parse, hfirst, if_true]

end Line

def Entry.program (e : Entry) (manifest : Bytes) (index : Nat) (bytes : Bytes) : Program :=
  ⟨index.toUInt32, e.title manifest, e.resolved manifest, bytes⟩

private theorem loadEntry_of_content {t : FileTree} {manifest bytes : Bytes} {e : Entry}
    (h : t.content? (e.resolved manifest) = some bytes) (index : Nat) :
    loadEntry t manifest e.name e.path index.toUInt32 = .ok (e.program manifest index bytes) := by
  have hopen := FileTree.content?_eq_some_iff.mp h
  rw [Entry.resolved] at hopen
  simp only [loadEntry, Program.load, hopen]
  rfl

private theorem loadLines_written {t : FileTree} {manifest : Bytes} {content : Entry → Bytes}
    {ls : List Line} (h : ∀ e ∈ entries ls, t.content? (e.resolved manifest) = some (content e))
    (number index : Nat) :
    loadLines t manifest number index.toUInt32 (ls.map Line.text) =
      .ok ((entries ls).mapIdx fun i e => e.program manifest (index + i) (content e)) := by
  -- Every line moves the line number on, but only an entry moves the number of the next program.
  induction ls generalizing number index with
  | nil => rfl
  | cons l ls ih =>
    rw [List.map_cons, loadLines]
    cases hentry : l.content.entry? with
    | none =>
      have hentries : entries (l :: ls) = entries ls := List.filterMap_cons_none hentry
      rw [hentries] at h ⊢
      simp only [l.parse_of_no_entry hentry]
      exact ih h (number + 1) index
    | some e =>
      have hentries : entries (l :: ls) = e :: entries ls := List.filterMap_cons_some hentry
      have hnext : index.toUInt32 + 1 = (index + 1).toUInt32 := by simp
      rw [hentries] at h ⊢
      have hfirst := loadEntry_of_content (h e List.mem_cons_self) index
      have hrest := ih (fun d hd => h d (List.mem_cons_of_mem e hd)) (number + 1) (index + 1)
      simp only [l.parse_of_entry hentry, hfirst, hnext, hrest, List.mapIdx_cons]
      simp [Nat.add_assoc, Nat.add_comm 1]

/-- Whatever blanks, blank lines and comments a list of programs is written with, reading the
manifest gives the programs in order: each has its number, its name or else the stem of its path,
the path as seen from the folder of the manifest, and the bytes of its file. -/
theorem load_written (t : FileTree) (manifest : Bytes) (ls : List Line) (content : Entry → Bytes)
    (hmanifest : t.content? manifest = some (written ls))
    (hprograms : ∀ e ∈ entries ls, t.content? (e.resolved manifest) = some (content e)) :
    load t manifest = .ok ((entries ls).mapIdx fun i e =>
      ⟨i.toUInt32, e.name.getD (Path.stem (e.resolved manifest)), e.resolved manifest,
        content e⟩) := by
  have hopen := FileTree.content?_eq_some_iff.mp hmanifest
  have hload := loadLines_written hprograms 1 0
  rw [load, hopen]
  cases ls with
  | nil => rfl
  | cons l ls =>
    have hlines : (written (l :: ls)).lines = (l :: ls).map Line.text := by
      apply Bytes.lines_unlines (by simp)
      intro line hline
      obtain ⟨l', -, rfl⟩ := List.mem_map.mp hline
      exact l'.newline_not_mem_text
    simp only [hlines, Nat.zero_add] at hload ⊢
    exact hload

/-- A comment, a blank line, a named program whose path has a blank in it and one without a name. -/
theorem load_written_two :
    let one : Entry := ⟨some (text "one"), text "a b", by decide +kernel, by decide +kernel⟩
    let other : Entry := ⟨none, text "/c.bin", by decide +kernel, by decide +kernel⟩
    let ls : List Line := [⟨[], .comment (text " apps") (by decide +kernel), [], nofun, nofun⟩,
      ⟨[], .nothing, [], nofun, nofun⟩,
      ⟨text " ", .entry one, text "\t\r", by decide +kernel, by decide +kernel⟩,
      ⟨[], .entry other, [], nofun, nofun⟩]
    let t : FileTree :=
      { workingFolder := []
        node := fun place =>
          if place = [text "d", text "m"] then some (.file (written ls))
          else if place = [text "d", text "a b"] then some (.file [65])
          else if place = [text "c.bin"] then some (.file [66, 67])
          else some .folder }
    written ls = text "# apps\n\n one \"a b\"\t\r\n\"/c.bin\"" ∧
      load t (text "d/m") = .ok [⟨0, text "one", text "d/a b", [65]⟩,
        ⟨1, text "c", text "/c.bin", [66, 67]⟩] := by
  intro one other ls t
  refine ⟨rfl, ?_⟩
  refine (load_written t (text "d/m") ls
    (fun e => if e.path = text "a b" then [65] else [66, 67]) rfl ?_).trans rfl
  intro e he
  have hentries : entries ls = [one, other] := rfl
  rw [hentries] at he
  rcases List.mem_pair.mp he with rfl | rfl
  · rfl
  · rfl

end EmbeddedApps.Manifest
