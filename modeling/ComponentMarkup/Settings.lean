import ComponentMarkup.Path
import ComponentMarkup.Text.Lowercase

/-!
# Settings

What a run takes as given: the marker, the suffixes by which files are recognised, the category of
compiled components and the number of workers.
-/

namespace ComponentMarkup

/-- How a file is scanned: a script for markup in its comments, any other file as it is. -/
inductive SourceKind where
  | script
  | markupOnly
  deriving DecidableEq, Repr

/-- The settings of a run. -/
structure Settings where
  marker : List Char := "#DCECOMP".toList
  scriptExtensions : List Text := [Text.ofString ".js", Text.ofString ".ts"]
  markupExtensions : List Text := [Text.ofString ".dcecomp"]
  category : List Char := "Custom".toList
  workers : Int := 1
  deriving DecidableEq

/-- Is a suffix among some extensions, the case of letters not counted? -/
def hasExtension (extensions : List Text) (suffix : List Char) : Bool :=
  extensions.any fun e => lowercase e = lowercase (Text.ofChars suffix)

namespace Settings

/-- The kind of a file, by its suffix. -/
def kindOf (s : Settings) (path : List Char) : SourceKind :=
  if hasExtension s.scriptExtensions (pathSuffix path) then .script else .markupOnly

/-- The extensions of the files that are looked for. -/
def candidateExtensions (s : Settings) : List Text := s.scriptExtensions ++ s.markupExtensions

end Settings

end ComponentMarkup
