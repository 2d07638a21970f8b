import ComponentMarkup.Text.Place

/-!
# Problems

A problem is a message about one file, with a place in it where one is known. Problems are advice:
they are gathered and reported, and stop nothing.
-/

namespace ComponentMarkup

/-- A message about a file; the path is empty if no file is to blame. -/
structure Problem where
  description : List Char
  path : List Char := []
  place : Place := .unknown
  deriving DecidableEq

/-- The decimal digits of an integer. -/
def integerText (n : Int) : List Char := (toString n).toList

/-- A path and a place, with colons between path, line and column. -/
def locationText (path : List Char) (place : Place) : List Char :=
  path ++ ':' :: integerText place.line ++ ':' :: integerText place.column

namespace Problem

/-- Where a problem is. -/
def location (p : Problem) : List Char := locationText p.path p.place

/-- A problem on one line. -/
def text (p : Problem) : List Char := p.description ++ " at ".toList ++ p.location

/-- A problem with its location on a line of its own. -/
def brokenText (p : Problem) : List Char := p.description ++ "\n  at ".toList ++ p.location

/-- The report of problems: a line for each. -/
def report (problems : List Problem) : List Char := problems.flatMap fun p => p.text ++ ['\n']

end Problem

end ComponentMarkup
