import EmbeddedApps.Bundle.Listing
import EmbeddedApps.Proofs.Text.Numeral
import Mathlib

/-!
# Reading listings

How an assembler reads the text of a listing. A line feed ends a statement unless it stands in
quotes. A statement is a label, or a word and an operand with a space in between. Whatever a
listing is rendered from can be read back from its text.
-/

namespace EmbeddedApps.Assembler

/-- Where a reader is with regard to quotes. -/
inductive Mode
  | plain
  | quoted
  | escaped
  deriving DecidableEq

def Mode.next : Mode → UInt8 → Mode
  | plain, c => if c = Bytes.quote then quoted else plain
  | quoted, c => if c = Bytes.backslash then escaped else if c = Bytes.quote then plain else quoted
  | escaped, _ => quoted

/-- The statements of a text, without the line feeds that end them. -/
def statements : Mode → Bytes → List Bytes
  | _, [] => []
  | mode, c :: cs =>
    if mode = .plain ∧ c = Bytes.newline then [] :: statements .plain cs
    else match statements (mode.next c) cs with
      | [] => [[c]]
      | s :: ss => (c :: s) :: ss

/-- The bytes of a literal up to its closing quote, and what follows. -/
def literal : Mode → Bytes → Option (Bytes × Bytes)
  | _, [] => none
  | mode, c :: cs =>
    match mode.next c with
    | .plain => some ([], cs)
    | .escaped => literal .escaped cs
    | .quoted => (literal .quoted cs).map fun r => (c :: r.1, r.2)

def path? : Bytes → Option Bytes
  | [] => none
  | c :: cs =>
    if c = Bytes.quote then (literal .quoted cs).bind fun r => if r.2 = [] then some r.1 else none
    else none

/-- A symbol has at least one byte. -/
def symbol? (s : Bytes) : Option Bytes := if s ≠ [] ∧ s.all isSymbolByte then some s else none

/-- A word of data: a number, or the address of a symbol. -/
def quad? (operand : Bytes) : Option Directive :=
  match Numeral.value? 10 operand with
  | some n => some (.number n)
  | none => (symbol? operand).map .addressOf

def directive? (word operand : Bytes) : Option Directive :=
  if word = text ".section" then
    if operand = text ".data" then some .dataSection
    else if operand = text ".note.GNU-stack,\"\",%progbits" then some .stackNote
    else none
  else if word = text ".balign" then (Numeral.value? 10 operand).map .align
  else if word = text ".global" then (symbol? operand).map .global
  else if word = text ".quad" then quad? operand
  else if word = text ".incbin" then (path? operand).map .includeFile
  else none

/-- What a statement says. Spaces in front of it do not count. -/
def statement? (s : Bytes) : Option Directive :=
  let s := s.dropWhile (· == Bytes.space)
  let word := s.takeWhile (· != Bytes.space)
  let operand := (s.dropWhile (· != Bytes.space)).drop 1
  if s = [] then some .blank
  else if s.getLast? = some 58 then (symbol? s.dropLast).map .label
  else directive? word operand

/-- What a text says, if all of it can be read. -/
def read? (s : Bytes) : Option (List Directive) := (statements .plain s).mapM statement?

/-- The mode after a string that ends no statement. -/
def scan (mode : Mode) : Bytes → Option Mode
  | [] => some mode
  | c :: cs => if mode = .plain ∧ c = Bytes.newline then none else scan (mode.next c) cs

private theorem scan_append (mode : Mode) (xs ys : Bytes) :
    scan mode (xs ++ ys) = (scan mode xs).bind fun mode => scan mode ys := by
  induction xs generalizing mode with
  | nil => rfl
  | cons x xs ih =>
    rw [List.cons_append, scan, scan]
    split
    · rfl
    · exact ih _

/-- A string that opens and closes its quotes makes a statement with the next line feed. -/
private theorem statements_append {mode : Mode} {s : Bytes} (h : scan mode s = some .plain)
    (rest : Bytes) :
    statements mode (s ++ Bytes.newline :: rest) = s :: statements .plain rest := by
  induction s generalizing mode with
  | nil =>
    obtain rfl := Option.some.inj h
    rfl
  | cons c s ih =>
    rw [scan] at h
    split at h
    · cases h
    · rename_i hin
      rw [List.cons_append, statements, if_neg hin, ih h]

private theorem scan_plain {s : Bytes} (h : ∀ c ∈ s, c ≠ Bytes.newline ∧ c ≠ Bytes.quote) :
    scan .plain s = some .plain := by
  induction s with
  | nil => rfl
  | cons c s ih =>
    obtain ⟨hnewline, hquote⟩ := h c List.mem_cons_self
    have hstay : Mode.plain.next c = .plain := if_neg hquote
    rw [scan, if_neg (fun hboth => hnewline hboth.2), hstay]
    exact ih fun d hd => h d (List.mem_cons_of_mem c hd)

/-- A path with a backslash in front of each quote and each backslash. -/
def escape (p : Bytes) : Bytes :=
  p.flatMap fun c => if c == Bytes.backslash || c == Bytes.quote then [Bytes.backslash, c] else [c]

theorem quoted_eq (p : Bytes) : Directive.quoted p = Bytes.quote :: (escape p ++ [Bytes.quote]) :=
  rfl

private theorem escape_cons (c : UInt8) (p : Bytes) :
    escape (c :: p) = Bytes.backslash :: c :: escape p ∨
      Mode.quoted.next c = .quoted ∧ escape (c :: p) = c :: escape p := by
  rw [escape, List.flatMap_cons]
  split
  · exact .inl rfl
  · rename_i h
    rw [Bool.or_eq_true, beq_iff_eq, beq_iff_eq, not_or] at h
    refine .inr ⟨?_, rfl⟩
    rw [Mode.next, if_neg h.1, if_neg h.2]

private theorem scan_escape (p : Bytes) :
    scan .quoted (escape p ++ [Bytes.quote]) = some .plain := by
  induction p with
  | nil => rfl
  | cons c p ih =>
    rcases escape_cons c p with h | ⟨hstay, h⟩
    · rw [h]
      exact ih
    · rw [h, List.cons_append, scan, if_neg (by simp), hstay]
      exact ih

theorem literal_escape (p rest : Bytes) :
    literal .quoted (escape p ++ Bytes.quote :: rest) = some (p, rest) := by
  induction p with
  | nil => rfl
  | cons c p ih =>
    rcases escape_cons c p with h | ⟨hstay, h⟩
    -- Behind a backslash a byte is taken as it is, also a quote.
    · have hback : Mode.quoted.next Bytes.backslash = .escaped := rfl
      have hnext : Mode.escaped.next c = .quoted := rfl
      rw [h, List.cons_append, List.cons_append, literal, hback]
      dsimp only
      rw [literal, hnext]
      dsimp only
      rw [ih]
      rfl
    · rw [h, List.cons_append, literal, hstay]
      dsimp only
      rw [ih]
      rfl

private theorem statement?_of_word {word operand : Bytes} (hword : word ≠ [])
    (hspace : word.all (· != Bytes.space)) (hoperand : operand ≠ [])
    (hlast : operand.getLast? ≠ some 58) :
    statement? (text "    " ++ (word ++ Bytes.space :: operand)) = directive? word operand := by
  obtain ⟨c, cs, rfl⟩ := List.exists_cons_of_ne_nil hword
  have hall := List.all_eq_true.mp hspace
  have htrim : (text "    " ++ (c :: cs ++ Bytes.space :: operand)).dropWhile (· == Bytes.space) =
      c :: cs ++ Bytes.space :: operand := by
    change (List.replicate 4 Bytes.space ++ _).dropWhile _ = _
    rw [List.dropWhile_append_of_pos (by simp), List.cons_append,
      List.dropWhile_cons_of_neg (by simpa using hall c List.mem_cons_self)]
  have hend : (c :: cs ++ Bytes.space :: operand).getLast? = operand.getLast? := by
    obtain ⟨operand, d, rfl⟩ := (List.eq_nil_or_concat operand).resolve_left hoperand
    have hsplit : c :: cs ++ Bytes.space :: (operand ++ [d]) =
        (c :: cs ++ Bytes.space :: operand) ++ [d] := by simp
    rw [List.concat_eq_append, hsplit, List.getLast?_concat, List.getLast?_concat]
  rw [statement?.eq_def]
  dsimp only
  rw [htrim, if_neg (by simp), hend, if_neg hlast, List.takeWhile_append_of_pos hall,
    List.dropWhile_append_of_pos hall, List.takeWhile_cons_of_neg (by simp),
    List.dropWhile_cons_of_neg (by simp), List.append_nil, List.drop_one, List.tail_cons]

/-- A symbol that an assembler takes as it is. -/
def IsSymbol (s : Bytes) : Prop := s ≠ [] ∧ s.all isSymbolByte

/-- The symbols are symbols, and those that stand for addresses are no numbers. -/
def Legible : Directive → Prop
  | .global s | .label s => IsSymbol s
  | .addressOf s => IsSymbol s ∧ Numeral.value? 10 s = none
  | _ => True

private theorem bland_of_all {s : Bytes} (h : s.all isSymbolByte) {c : UInt8} (hc : c ∈ s) :
    c ≠ Bytes.newline ∧ c ≠ Bytes.quote ∧ c ≠ Bytes.space ∧ c ≠ 58 := by
  have hbyte := List.all_eq_true.mp h c hc
  refine ⟨?_, ?_, ?_, ?_⟩ <;> (rintro rfl; exact absurd hbyte (by decide))

private theorem bland_decimal {n : Nat} {c : UInt8} (hc : c ∈ decimal n) :
    c ≠ Bytes.newline ∧ c ≠ Bytes.quote ∧ c ≠ 58 := by
  obtain ⟨hlow, hhigh⟩ := mem_decimal hc
  refine ⟨?_, ?_, ?_⟩
  · rintro rfl
    exact absurd hlow (by decide)
  · rintro rfl
    exact absurd hlow (by decide)
  · rintro rfl
    exact absurd hhigh (by decide)

private theorem symbol?_of_isSymbol {s : Bytes} (h : IsSymbol s) : symbol? s = some s := if_pos h

private theorem getLast?_ne_of_forall {s : Bytes} (h : ∀ c ∈ s, c ≠ 58) : s.getLast? ≠ some 58 :=
  fun hlast => h 58 (List.mem_of_getLast? hlast) rfl

private theorem path?_quoted (p : Bytes) : path? (Directive.quoted p) = some p := by
  rw [quoted_eq, path?, if_pos rfl, literal_escape]
  rfl

private theorem statement?_label {s : Bytes} (h : IsSymbol s) :
    statement? (s ++ [58]) = some (.label s) := by
  obtain ⟨c, cs, rfl⟩ := List.exists_cons_of_ne_nil h.1
  have hc := (bland_of_all h.2 List.mem_cons_self).2.2.1
  have htrim : (c :: cs ++ [58]).dropWhile (· == Bytes.space) = c :: cs ++ [58] := by
    rw [List.cons_append, List.dropWhile_cons_of_neg (by simpa using hc)]
  rw [statement?.eq_def]
  dsimp only
  rw [htrim, if_neg (by simp), if_pos List.getLast?_concat, List.dropLast_concat,
    symbol?_of_isSymbol h]
  rfl

private theorem statement?_render {d : Directive} (h : Legible d) :
    statement? d.render = some d := by
  cases d with
  | blank => rfl
  | dataSection => rfl
  | stackNote => rfl
  | label s => exact statement?_label h
  | align n =>
    change statement? (text "    " ++ (text ".balign" ++ Bytes.space :: decimal n)) = _
    rw [statement?_of_word (by decide) rfl (decimal_ne_nil n)
      (getLast?_ne_of_forall fun c hc => (bland_decimal hc).2.2)]
    change (Numeral.value? 10 (decimal n)).map Directive.align = _
    rw [Numeral.value?_decimal, Option.map_some]
  | number n =>
    change statement? (text "    " ++ (text ".quad" ++ Bytes.space :: decimal n)) = _
    rw [statement?_of_word (by decide) rfl (decimal_ne_nil n)
      (getLast?_ne_of_forall fun c hc => (bland_decimal hc).2.2)]
    change quad? (decimal n) = _
    rw [quad?, Numeral.value?_decimal]
  | global s =>
    change statement? (text "    " ++ (text ".global" ++ Bytes.space :: s)) = _
    rw [statement?_of_word (by decide) rfl h.1
      (getLast?_ne_of_forall fun c hc => (bland_of_all h.2 hc).2.2.2)]
    change (symbol? s).map Directive.global = _
    rw [symbol?_of_isSymbol h, Option.map_some]
  | addressOf s =>
    obtain ⟨hsymbol, hnumber⟩ := h
    change statement? (text "    " ++ (text ".quad" ++ Bytes.space :: s)) = _
    rw [statement?_of_word (by decide) rfl hsymbol.1
      (getLast?_ne_of_forall fun c hc => (bland_of_all hsymbol.2 hc).2.2.2)]
    change quad? s = _
    rw [quad?, hnumber, symbol?_of_isSymbol hsymbol]
    rfl
  | includeFile p =>
    change statement? (text "    " ++ (text ".incbin" ++ Bytes.space :: Directive.quoted p)) = _
    have hlast : (Directive.quoted p).getLast? = some Bytes.quote := by
      rw [quoted_eq, ← List.cons_append, List.getLast?_concat]
    rw [statement?_of_word (by decide) rfl (by simp [quoted_eq])
      (by rw [hlast]; decide)]
    change (path? (Directive.quoted p)).map Directive.includeFile = _
    rw [path?_quoted, Option.map_some]

private theorem scan_append_plain {xs ys : Bytes} (h : scan .plain xs = some .plain)
    (hys : ∀ c ∈ ys, c ≠ Bytes.newline ∧ c ≠ Bytes.quote) :
    scan .plain (xs ++ ys) = some .plain := by
  rw [scan_append, h, Option.bind_some, scan_plain hys]

private theorem scan_render {d : Directive} (h : Legible d) :
    scan .plain d.render = some .plain := by
  have hsymbol {s : Bytes} (hs : IsSymbol s) : ∀ c ∈ s, c ≠ Bytes.newline ∧ c ≠ Bytes.quote :=
    fun c hc => ⟨(bland_of_all hs.2 hc).1, (bland_of_all hs.2 hc).2.1⟩
  have hdecimal (n : Nat) : ∀ c ∈ decimal n, c ≠ Bytes.newline ∧ c ≠ Bytes.quote :=
    fun c hc => ⟨(bland_decimal hc).1, (bland_decimal hc).2.1⟩
  cases d with
  | blank => rfl
  | dataSection => rfl
  | stackNote => rfl
  | align n => exact scan_append_plain rfl (hdecimal n)
  | number n => exact scan_append_plain rfl (hdecimal n)
  | global s => exact scan_append_plain rfl (hsymbol h)
  | addressOf s => exact scan_append_plain rfl (hsymbol h.1)
  | label s =>
    rw [Directive.render, scan_append, scan_plain (hsymbol h)]
    rfl
  | includeFile p =>
    rw [Directive.render, quoted_eq, scan_append]
    exact scan_escape p

/-- What a listing is rendered from is read back from its text. -/
theorem read?_render {ds : List Directive} (h : ∀ d ∈ ds, Legible d) :
    read? (ds.flatMap fun d => d.render ++ [Bytes.newline]) = some ds := by
  induction ds with
  | nil => rfl
  | cons d ds ih =>
    have hd := h d List.mem_cons_self
    rw [read?] at ih ⊢
    rw [List.flatMap_cons, List.append_assoc, List.singleton_append,
      statements_append (scan_render hd), List.mapM_cons, statement?_render hd,
      ih fun e he => h e (List.mem_cons_of_mem d he)]
    rfl

end EmbeddedApps.Assembler
