import ComponentMarkup.Path

/-!
# Import paths

A component of a script is imported by the path of the script from the project root, without the
script's suffix and with slashes for backslashes.
-/

namespace ComponentMarkup

/-- Why there is no import path. -/
inductive ImportFault where
  /-- The path is empty. -/
  | noPath
  /-- The path leads to the root itself. -/
  | emptyName
  deriving DecidableEq, Repr

/-- The message for a fault of an import path. -/
def ImportFault.message : ImportFault → String
  | noPath => "no path specified"
  | emptyName => "PurePosixPath('.') has an empty name"

/-- Names of which the last one has lost its suffix. -/
def dropLastSuffix (names : List Name) : List Name :=
  match names.getLast? with
  | some name => names.dropLast ++ [(splitSuffix name).1]
  | none => []

/-- A slash in place of a backslash. -/
def slashForBackslash (c : Char) : Char := if c = '\\' then '/' else c

/-- The import path of a script; the root is the working directory if none is given. -/
def importPath (workingDirectory : List Name) (path : List Char) (root : Option (List Char)) :
    Except ImportFault (List Char) :=
  if path = [] then .error .noPath
  else
    let names := relativeNames (absoluteNames workingDirectory path)
      (absoluteNames workingDirectory (root.getD []))
    if names = [] then .error .emptyName
    else .ok ((joinNames (dropLastSuffix names)).map slashForBackslash)

end ComponentMarkup
