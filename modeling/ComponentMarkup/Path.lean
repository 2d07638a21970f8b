/-!
# Paths

A path is a text cut at its slashes; nothing here looks at a file. Relative paths are read from a
working directory, which is given by the names that lead to it from the root.
-/

namespace ComponentMarkup

/-- One name of a path, without slashes. -/
abbrev Name := List Char

/-- The name of the directory itself. -/
def Name.here : Name := ['.']

/-- The name of the directory above. -/
def Name.up : Name := ['.', '.']

/-! ## Names and separators -/

/-- The parts of a text between its slashes. -/
def splitSlashes : List Char → List Name
  | [] => [[]]
  | c :: cs =>
      match splitSlashes cs with
      | [] => [[]]
      | name :: names => if c = '/' then [] :: name :: names else (c :: name) :: names

/-- Names with slashes between them. -/
def joinNames (names : List Name) : List Char := ['/'].intercalate names

/-- The names of a path; empty ones and those of the directory itself say nothing. -/
def pathNames (path : List Char) : List Name :=
  (splitSlashes path).filter fun name => name ≠ [] ∧ name ≠ Name.here

/-! ## Suffixes -/

/-- A name cut before its last point, if this is neither its first nor its last character. -/
def splitSuffix (name : Name) : Name × List Char :=
  let extension := (name.reverse.takeWhile (· ≠ '.')).reverse
  let stem := name.take (name.length - extension.length - 1)
  if extension = [] ∨ stem = [] then (name, []) else (stem, '.' :: extension)

/-- The suffix of the last name of a path. -/
def pathSuffix (path : List Char) : List Char :=
  match (pathNames path).getLast? with
  | some name => (splitSuffix name).2
  | none => []

/-! ## Paths in their plainest form -/

/-- A path without superfluous slashes and names: how many slashes it starts with, of which two
differ from any other number, and its names. -/
structure Path where
  slashes : Nat
  names : List Name
  deriving DecidableEq

namespace Path

/-- Reads a path. -/
def ofText (text : List Char) : Path :=
  let slashes := (text.takeWhile (· = '/')).length
  ⟨if slashes > 2 then 1 else slashes, pathNames text⟩

/-- Writes a path; the directory itself is a point. -/
def text (p : Path) : List Char :=
  if p.slashes = 0 ∧ p.names = [] then Name.here
  else List.replicate p.slashes '/' ++ joinNames p.names

/-- A path read from another one; one that starts with a slash counts alone. -/
def join (p q : Path) : Path :=
  if q.slashes > 0 then q else ⟨p.slashes, p.names ++ q.names⟩

/-- The path of the directory that holds this one; a path without names is its own. -/
def parent (p : Path) : Path := ⟨p.slashes, p.names.dropLast⟩

/-- The suffix of the last name. -/
def suffix (p : Path) : List Char :=
  match p.names.getLast? with
  | some name => (splitSuffix name).2
  | none => []

/-- A path as its parts: what it starts with, if anything, and its names. -/
def parts (p : Path) : List Name :=
  if p.slashes = 0 then p.names else List.replicate p.slashes '/' :: p.names

end Path

/-! ## Absolute and relative paths -/

/-- Follows a name: up leads to the directory above, and from the root to itself. -/
def followName (names : List Name) (name : Name) : List Name :=
  if name = Name.up then names.dropLast else names ++ [name]

/-- The names that lead from the root to where a path leads from a working directory. -/
def absoluteNames (workingDirectory : List Name) (path : List Char) : List Name :=
  let start := if path.head? = some '/' then [] else workingDirectory
  (start ++ pathNames path).foldl followName []

/-- The names that lead from a root to a target: up from what only the root has, then down. -/
def relativeNames : List Name → List Name → List Name
  | target :: targets, root :: roots =>
      if target = root then relativeNames targets roots
      else List.replicate (root :: roots).length Name.up ++ target :: targets
  | targets, roots => List.replicate roots.length Name.up ++ targets

end ComponentMarkup
