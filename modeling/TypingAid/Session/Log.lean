/-!
# Log lines

What the parts of the program note down for whoever reads the log. A line has a level, and a reader
may ask to see only what is at least as grave as a given level.
-/

namespace TypingAid

/-- How grave a log line is. -/
inductive LogLevel where
  | debug
  | info
  | warning
  | error
deriving DecidableEq, Repr

namespace LogLevel

/-- The written name. -/
def name : LogLevel → String
  | debug => "DEBUG"
  | info => "INFO"
  | warning => "WARNING"
  | error => "ERROR"

/-- The higher, the graver. -/
def weight : LogLevel → Nat
  | debug => 0
  | info => 1
  | warning => 2
  | error => 3

end LogLevel

/-- A line of the log. -/
structure LogLine where
  level : LogLevel
  message : String
deriving DecidableEq, Repr

namespace LogLine

/-- The line as it is written. -/
def text (l : LogLine) : String := l.level.name ++ " " ++ l.message

/-- A line for every message, at the lowest level. -/
def debugAll (messages : List String) : List LogLine := messages.map (⟨.debug, ·⟩)

/-- The lines that are at least as grave as a level. -/
def atLeast (level : LogLevel) (lines : List LogLine) : List LogLine :=
  lines.filter fun l => level.weight ≤ l.level.weight

end LogLine

end TypingAid
