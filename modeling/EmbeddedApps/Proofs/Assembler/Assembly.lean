import EmbeddedApps.Bundle.Listing
import EmbeddedApps.Proofs.Word.Arithmetic
import Mathlib

/-!
# Assembling listings

What an assembler makes of the lines of a listing. It goes through them twice: once to find the
address of every label, and once more with these addresses to emit the data section. Both times a
line takes up the same number of bytes.
-/

namespace EmbeddedApps

def Directive.defined? : Directive → Option Bytes
  | label s => some s
  | _ => none

/-- The symbol that a line speaks of without defining it. -/
def Directive.used? : Directive → Option Bytes
  | addressOf s => some s
  | global s => some s
  | _ => none

namespace Assembler

/-- An assembler at work: whether it is in the data section, the address it has come to, the
files that are left to be included, the bytes it has emitted and the labels it has met. -/
structure State where
  inData : Bool
  here : Nat
  files : List Bytes
  emitted : Bytes
  labels : List (Bytes × Nat)

namespace State

def start (address : Nat) (files : List Bytes) : State := ⟨false, address, files, [], []⟩

/-- Nothing can be emitted outside the data section. -/
def emit (s : State) (bs : Bytes) : Option State :=
  if s.inData then some { s with here := s.here + bs.length, emitted := s.emitted ++ bs } else none

def define (s : State) (symbol : Bytes) : Option State :=
  if s.inData then some { s with labels := s.labels ++ [(symbol, s.here)] } else none

end State

def step (address? : Bytes → Option Nat) (s : State) : Directive → Option State
  | .blank => some s
  | .global _ => some s
  | .dataSection => some { s with inData := true }
  | .stackNote => some { s with inData := false }
  | .align n => s.emit (List.replicate (roundUp s.here n - s.here) 0)
  | .label symbol => s.define symbol
  | .number n => s.emit (LittleEndian.encode n.toUInt64)
  | .addressOf symbol =>
    (address? symbol).bind fun a => s.emit (LittleEndian.encode a.toUInt64)
  | .includeFile _ =>
    match s.files with
    | [] => none
    | f :: fs => { s with files := fs }.emit f

def run (address? : Bytes → Option Nat) (s : State) : List Directive → Option State
  | [] => some s
  | d :: ds => (step address? s d).bind fun s => run address? s ds

/-- The data section at an address, if every symbol that is used is defined and none twice. -/
def assemble (address : Nat) (files : List Bytes) (ds : List Directive) : Option Bytes :=
  (run (fun _ => some 0) (.start address files) ds).bind fun first =>
    if (first.labels.map Prod.fst).Nodup then
      (run (fun x => first.labels.lookup x) (.start address files) ds).map State.emitted
    else none

variable {address? : Bytes → Option Nat} {s s' : State}

theorem run_append (s : State) (ds es : List Directive) :
    run address? s (ds ++ es) = (run address? s ds).bind fun s => run address? s es := by
  induction ds generalizing s with
  | nil => rfl
  | cons d ds ih =>
    rw [List.cons_append, run, run]
    cases step address? s d with
    | none => rfl
    | some s => exact ih s

/-- The state after more bytes and labels, with other files left. -/
def State.after (s : State) (bs : Bytes) (labels : List (Bytes × Nat)) (files : List Bytes) :
    State :=
  ⟨s.inData, s.here + bs.length, files, s.emitted ++ bs, s.labels ++ labels⟩

theorem State.after_nil (s : State) : s.after [] [] s.files = s := by
  simp [after]

theorem State.after_after (s : State) (bs bs' : Bytes) (ls ls' : List (Bytes × Nat))
    (fs fs' : List Bytes) :
    (s.after bs ls fs).after bs' ls' fs' = s.after (bs ++ bs') (ls ++ ls') fs' := by
  simp [after, Nat.add_assoc]

private theorem emit_of_inData (h : s.inData = true) (bs : Bytes) :
    s.emit bs = some (s.after bs [] s.files) := by
  rw [State.emit, if_pos h]
  simp [State.after]

theorem define_of_inData (h : s.inData = true) (symbol : Bytes) :
    s.define symbol = some (s.after [] [(symbol, s.here)] s.files) := by
  rw [State.define, if_pos h]
  simp [State.after]

theorem run_addresses (h : s.inData = true) {value : Bytes → Nat} {symbols : List Bytes}
    (hvalue : ∀ x ∈ symbols, address? x = some (value x)) :
    run address? s (symbols.map .addressOf) =
      some (s.after (symbols.flatMap fun x => LittleEndian.encode (value x).toUInt64) []
        s.files) := by
  induction symbols generalizing s with
  | nil => rw [List.map_nil, run, List.flatMap_nil, s.after_nil]
  | cons x xs ih =>
    rw [List.map_cons, run, step, hvalue x List.mem_cons_self, Option.bind_some,
      emit_of_inData h, Option.bind_some,
      ih (s := s.after _ [] s.files) h fun y hy => hvalue y (List.mem_cons_of_mem x hy),
      State.after_after]
    rfl

theorem lookup_of_mem {labels : List (Bytes × Nat)} (hn : (labels.map Prod.fst).Nodup)
    {symbol : Bytes} {a : Nat} (h : (symbol, a) ∈ labels) : labels.lookup symbol = some a := by
  induction labels with
  | nil => cases h
  | cons l ls ih =>
    rw [List.map_cons, List.nodup_cons] at hn
    rcases List.mem_cons.mp h with rfl | h
    · exact List.lookup_cons_self
    · have hne : symbol ≠ l.1 := by
        rintro rfl
        exact hn.1 (List.mem_map.mpr ⟨(l.1, a), h, rfl⟩)
      rw [List.lookup_cons, beq_false_of_ne hne]
      exact ih hn.2 h

private theorem labels_of_step {d : Directive} (h : step address? s d = some s') :
    s'.labels.map Prod.fst = s.labels.map Prod.fst ++ d.defined?.toList := by
  have hemit {s : State} {bs : Bytes} (h : s.emit bs = some s') : s'.labels = s.labels := by
    rw [State.emit] at h
    split at h
    · obtain rfl := Option.some.inj h
      rfl
    · cases h
  cases d with
  | blank => cases h; simp [Directive.defined?]
  | global x => cases h; simp [Directive.defined?]
  | dataSection => cases h; simp [Directive.defined?]
  | stackNote => cases h; simp [Directive.defined?]
  | align n => simp [hemit h, Directive.defined?]
  | number n => simp [hemit h, Directive.defined?]
  | addressOf x =>
    obtain ⟨a, -, h⟩ := Option.bind_eq_some_iff.mp h
    simp [hemit h, Directive.defined?]
  | includeFile path =>
    rw [step] at h
    split at h
    · cases h
    · simp [hemit h, Directive.defined?]
  | label x =>
    rw [step, State.define] at h
    split at h
    · obtain rfl := Option.some.inj h
      simp [Directive.defined?]
    · cases h

/-- The labels that were met are those that the lines define. -/
theorem labels_of_run {ds : List Directive} (h : run address? s ds = some s') :
    s'.labels.map Prod.fst = s.labels.map Prod.fst ++ ds.filterMap Directive.defined? := by
  induction ds generalizing s with
  | nil =>
    obtain rfl := Option.some.inj h
    simp
  | cons d ds ih =>
    obtain ⟨s'', hstep, hrun⟩ := Option.bind_eq_some_iff.mp h
    rw [ih hrun, labels_of_step hstep, List.append_assoc, List.filterMap_cons]
    cases d.defined? with
    | none => rfl
    | some x => rfl

end Assembler

end EmbeddedApps
