import EmbeddedApps.Bundle.Basic

/-!
# Assembly listings

A bundle as a listing for an assembler: the table of the image with labels in place of offsets,
and each program included from its file between two labels.
-/

namespace EmbeddedApps

inductive Directive
  | blank
  | dataSection
  | align (boundary : Nat)
  | global (symbol : Bytes)
  | label (symbol : Bytes)
  | number (value : Nat)
  | addressOf (symbol : Bytes)
  | includeFile (path : Bytes)
  | stackNote
  deriving DecidableEq

namespace Directive

/-- A path in double quotes. Quotes and backslashes in it get a backslash in front. -/
def quoted (path : Bytes) : Bytes :=
  Bytes.quote :: path.flatMap (fun c =>
    if c == Bytes.backslash || c == Bytes.quote then [Bytes.backslash, c] else [c]) ++
    [Bytes.quote]

def render : Directive → Bytes
  | blank => []
  | dataSection => text "    .section .data"
  | align n => text "    .balign " ++ decimal n
  | global s => text "    .global " ++ s
  | label s => s ++ text ":"
  | number n => text "    .quad " ++ decimal n
  | addressOf s => text "    .quad " ++ s
  | includeFile p => text "    .incbin " ++ quoted p
  | stackNote => text "    .section .note.GNU-stack,\"\",%progbits"

end Directive

namespace Bundle

/-- A name after the bundle's prefix, if it has one. -/
def symbol (b : Bundle) (name : Bytes) : Bytes :=
  if b.symbolPrefix.isEmpty then name else b.symbolPrefix ++ text "_" ++ name

/-- The symbol of the table. Its own underscore joins it to the prefix. -/
def tableSymbol (b : Bundle) : Bytes := b.symbolPrefix ++ text "_num_app"

def edgeSymbol (b : Bundle) (i : Nat) (edge : Bytes) : Bytes :=
  b.symbol (text "app_" ++ decimal i ++ text "_" ++ edge)

def startSymbol (b : Bundle) (i : Nat) : Bytes := b.edgeSymbol i (text "start")
def endSymbol (b : Bundle) (i : Nat) : Bytes := b.edgeSymbol i (text "end")

def blobsEndSymbol (b : Bundle) : Bytes := b.symbol (text "app_blobs_end")

/-- The symbol whose address closes the table. -/
def lastSymbol (b : Bundle) : Bytes :=
  match b.programs.length with
  | 0 => b.blobsEndSymbol
  | n + 1 => b.endSymbol n

def tableLines (b : Bundle) : List Directive :=
  [.dataSection, .align 8, .global b.tableSymbol, .label b.tableSymbol,
    .number b.programs.length] ++
  (List.range b.programs.length).map (fun i => .addressOf (b.startSymbol i)) ++
  [.addressOf b.lastSymbol]

/-- The lines of program `i`, which comes from an absolute path. -/
def programLines (b : Bundle) (i : Nat) (path : Bytes) : List Directive :=
  [.blank, .dataSection, .global (b.startSymbol i), .global (b.endSymbol i)] ++
  (if b.alignment > 1 then [.align b.alignment.toNat] else []) ++
  [.label (b.startSymbol i), .includeFile path, .label (b.endSymbol i)]

def closingLines (b : Bundle) : List Directive :=
  [.blank, .global b.blobsEndSymbol, .label b.blobsEndSymbol, .blank, .stackNote]

def directives (b : Bundle) (t : FileTree) : List Directive :=
  b.tableLines ++
  (b.programs.mapIdx fun i p => b.programLines i (t.fromRoot p.path)).flatten ++
  b.closingLines

def listing (b : Bundle) (t : FileTree) : Bytes :=
  (b.directives t).flatMap fun d => d.render ++ [Bytes.newline]

/-- Makes the listing. The first program whose path cannot be made absolute ends it. -/
def renderListing (b : Bundle) (t : FileTree) : Except BuildFault Bytes :=
  match b.programs.find? fun p => (t.absolute? p.path).isNone with
  | some p => .error (.noAbsolutePath p.path)
  | none => .ok (b.listing t)

end Bundle

end EmbeddedApps
