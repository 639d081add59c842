import Dataplane.Enumerated

/-!
# Log lines

A log line has a level and a message. Where the lines go decides how a level is spelled: the
engine's own lines carry a bracketed label, a structured logger a short name.
-/

namespace Dataplane

/-- How serious a log line is. -/
inductive LogLevel where
  | note
  | warn
  | error
  deriving DecidableEq

namespace LogLevel

instance : Enumerated LogLevel where
  all := [note, warn, error]
  name
    | note => "Note"
    | warn => "Warn"
    | error => "Error"

/-- The label of a level. -/
def text : LogLevel → String
  | note => "[NOTE]"
  | warn => "[WARN]"
  | error => "[ERROR]"

/-- The name a structured logger gives a level. -/
def shortText : LogLevel → String
  | note => "INFO"
  | warn => "WARN"
  | error => "ERRO"

end LogLevel

/-- A log line. -/
structure LogLine where
  level : LogLevel
  msg : String
  deriving DecidableEq

/-- The line with its label. -/
def LogLine.text (l : LogLine) : String := s!"{l.level.text} {l.msg}"

/-- The line as a structured logger writes it. -/
def LogLine.structured (l : LogLine) : String := s!"{l.level.shortText} {l.msg}"

end Dataplane
