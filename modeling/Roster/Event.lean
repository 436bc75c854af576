/-!
# Log events

What a program writes to its log: a level, a message and named texts.
-/

namespace Roster

/-- How much an event matters. -/
inductive Level where
  /-- Of interest when something is looked into. -/
  | debug
  /-- A step in the usual course. -/
  | info
  /-- A request that was refused. -/
  | warn
  /-- Something that should not have happened. -/
  | error
  deriving DecidableEq, Repr

/-- The name of a level in the log. -/
def Level.name : Level → String
  | debug => "DEBUG"
  | info => "INFO"
  | warn => "WARN"
  | error => "ERROR"

/-- An event in the log. -/
structure Event where
  /-- How much it matters. -/
  level : Level
  /-- What happened. -/
  message : String
  /-- What it happened to. -/
  fields : List (String × String)
  deriving DecidableEq, Repr

end Roster
