import ComponentMarkup.Problem
import ComponentMarkup.Text.CodePoint

/-!
# The log of a run

A line is logged for the problems of a run at any verbosity, and for what the run does at a
verbosity of at least the level of the line.
-/

namespace ComponentMarkup

/-- How much a line of the log matters. -/
inductive Severity where
  | debug
  | warning
  | error
  deriving DecidableEq, Repr

/-- A line of the log; the level is the least verbosity at which it appears, if there is one. -/
structure LogLine where
  severity : Severity
  level : Option Nat
  message : Text
  deriving DecidableEq

namespace LogLine

/-- A debug line, if the verbosity is at least its level. -/
def debug (verbosity : Int) (level : Nat) (message : Text) : List LogLine :=
  if level ≤ verbosity then [⟨.debug, some level, message⟩] else []

/-- A debug line that appears at any verbosity. -/
def always (message : Text) : LogLine := ⟨.debug, none, message⟩

/-- The warning about a problem. -/
def warning (p : Problem) : LogLine := ⟨.warning, none, Text.ofChars p.text⟩

/-- A line about what ended a run. -/
def failure (message : String) : LogLine := ⟨.error, none, Text.ofString message⟩

end LogLine

/-- The decimal digits of a natural number. -/
def countText (n : Nat) : Text := Text.ofString (toString n)

end ComponentMarkup
