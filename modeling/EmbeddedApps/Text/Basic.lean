/-!
# Byte strings

Names, paths, messages and file contents are all byte strings: lengths, widths and cuts count
bytes, and a string need not be valid in any character encoding.
-/

namespace EmbeddedApps

abbrev Bytes := List UInt8

/-- The bytes of a literal, in UTF-8. -/
def text (s : String) : Bytes := s.toList.flatMap String.utf8EncodeChar

namespace Bytes

def newline : UInt8 := 10
def tab : UInt8 := 9
def carriageReturn : UInt8 := 13
def space : UInt8 := 32
def quote : UInt8 := 34
def hash : UInt8 := 35
def minus : UInt8 := 45
def dot : UInt8 := 46
def slash : UInt8 := 47
def backslash : UInt8 := 92

/-- The part before the first zero byte, which is all that a zero-terminated reader sees. -/
def beforeNul (s : Bytes) : Bytes := s.takeWhile (· != 0)

/-- Space, tab, carriage return and line feed. -/
def isBlank (c : UInt8) : Bool :=
  c == space || c == tab || c == carriageReturn || c == newline

/-- The string without blanks at its ends. -/
def trim (s : Bytes) : Bytes :=
  ((s.dropWhile isBlank).reverse.dropWhile isBlank).reverse

/-- The parts between separators. There is one part more than there are separators. -/
def splitOn (separator : UInt8) (s : Bytes) : List Bytes :=
  s.foldr (fun c parts => if c == separator then [] :: parts else
    match parts with
    | [] => [[c]]
    | p :: ps => (c :: p) :: ps) [[]]

/-- The lines of a text, without their line feeds. What follows the last line feed is a line
too, also when it is empty. -/
def lines (s : Bytes) : List Bytes := s.splitOn newline

/-- Extended on the right with spaces to at least `width` bytes. -/
def padRight (width : Nat) (s : Bytes) : Bytes :=
  s ++ List.replicate (width - s.length) space

end Bytes

end EmbeddedApps
