import EmbeddedApps.Text.Basic

/-!
# Log lines and console output

A log line has a level and a text of at most 1023 bytes. On a console, lines from warnings up go
to the error channel and the others to the output channel.
-/

namespace EmbeddedApps

inductive LogLevel
  | debug
  | info
  | warn
  | error
  | fatal
  deriving DecidableEq

def LogLevel.name : LogLevel → Bytes
  | debug => text "DEBUG"
  | info => text "INFO"
  | warn => text "WARN"
  | error => text "ERROR"
  | fatal => text "FATAL"

/-- Lines of these levels are for the error channel. -/
def LogLevel.isAlarm : LogLevel → Bool
  | debug => false
  | info => false
  | warn => true
  | error => true
  | fatal => true

structure LogLine where
  level : LogLevel
  message : Bytes
  deriving DecidableEq

namespace LogLine

def limit : Nat := 1023

/-- A message as it is logged: it ends at a zero byte and after the limit. -/
def cut (message : Bytes) : Bytes := message.beforeNul.take limit

def debug (message : Bytes) : LogLine := ⟨.debug, cut message⟩
def info (message : Bytes) : LogLine := ⟨.info, cut message⟩
def warn (message : Bytes) : LogLine := ⟨.warn, cut message⟩
def error (message : Bytes) : LogLine := ⟨.error, cut message⟩
def fatal (message : Bytes) : LogLine := ⟨.fatal, cut message⟩

/-- A failed assertion is an error line; one that holds leaves no trace. -/
def assertion? (holds : Bool) (message : Bytes) : Option LogLine :=
  if holds then none else some (error (text "ASSERT FAILED: " ++ message))

end LogLine

inductive Channel
  | output
  | error
  deriving DecidableEq

structure Printed where
  channel : Channel
  bytes : Bytes
  deriving DecidableEq

namespace Printed

def output (bytes : Bytes) : Printed := ⟨.output, bytes⟩
def error (bytes : Bytes) : Printed := ⟨.error, bytes⟩

/-- All that was printed on a channel, in order. -/
def on (channel : Channel) (ps : List Printed) : Bytes :=
  (ps.filter (·.channel = channel)).flatMap (·.bytes)

end Printed

/-- The console form of a log line: its level in brackets, its message and a line feed. -/
def LogLine.print (l : LogLine) : Printed :=
  ⟨if l.level.isAlarm then .error else .output,
    text "[" ++ l.level.name ++ text "] " ++ l.message ++ text "\n"⟩

end EmbeddedApps
