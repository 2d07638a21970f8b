import ComponentMarkup.Files
import ComponentMarkup.Markup
import ComponentMarkup.Registry

/-!
# Compiling files

Files are read for themselves, in any order; then, in the order of their paths, their problems are
gathered and their definitions stored. So the result depends neither on the number of workers nor
on the order in which they finish, and of two definitions of one name the later wins. Problems stop
nothing; only a path that no file can have ends a run before anything is stored.

Several workers read several files on the threads of a pool; else the files are read on the thread
that runs the compiler. How many calls a thread may have in progress is limited, and what it has
left of the limit when a fragment is decoded depends on what called it.
-/

namespace ComponentMarkup

/-- What a compiler reads, and the room that fragments are decoded in: on the thread that runs the
compiler, and on the threads of a pool. Import paths are made from the working directory, by its
name. -/
structure Environment where
  settings : Settings
  files : Files
  workingDirectory : List Name
  room : Nat
  poolRoom : Nat

/-- How files are compiled, and how many definitions have been stored. -/
structure Compiler where
  root : Option (List Char)
  workers : Int
  marker : List Char
  category : List Char
  upserts : Nat := 0

namespace Compiler

/-- A compiler as the settings say. -/
def ofSettings (settings : Settings) (root : Option (List Char)) : Compiler :=
  { root, workers := settings.workers, marker := settings.marker, category := settings.category }

/-- What the reading of markup depends on. -/
def scope (c : Compiler) (env : Environment) : Scope :=
  ⟨c.marker, c.root, env.workingDirectory, env.room⟩

/-- The room on the threads on which some files are read. -/
def readingRoom (c : Compiler) (env : Environment) (count : Nat) : Nat :=
  if c.workers > 1 ∧ count > 1 then env.poolRoom else env.room

/-- The environment of the threads on which some files are read. -/
def readingEnvironment (c : Compiler) (env : Environment) (count : Nat) : Environment :=
  { env with room := c.readingRoom env count }

end Compiler

/-! ## One file -/

/-- What became of a file. -/
structure FileReport where
  path : List Char
  definitions : List Definition
  problems : List Problem
  deriving DecidableEq

/-- Reads a file as a source. -/
def Environment.readSource (env : Environment) (path : List Char) : Except FileFault Source := do
  let bytes ← env.files.read path
  match Utf8.decode bytes with
  | .ok text => return ⟨path, env.settings.kindOf path, text⟩
  | .error fault => throw (.notText fault)

/-- The definition of a markup, or the problem with it. -/
def Markup.check (m : Markup) : Except Problem Definition :=
  (checkComponent m.root).mapError (Violation.problem m.path)

/-- The definitions and problems of a source: first the occurrences that are no JSON objects, then
those that break the schema. -/
def Source.report (scope : Scope) (s : Source) : FileReport :=
  match s.parse scope with
  | .error fault => ⟨s.path, [], [⟨fault.message.toList, s.path, .unknown⟩]⟩
  | .ok parsed =>
      let checked := parsed.markups.map Markup.check
      { path := s.path
        definitions := checked.filterMap Except.toOption
        problems := parsed.problems ++ checked.filterMap fun
          | .error p => some p
          | .ok _ => none }

/-- The lines that the reading of a source logs. -/
def Source.lines (verbosity : Int) (scope : Scope) (s : Source) : List LogLine :=
  LogLine.debug verbosity 3
      (Text.ofString "Read " ++ countText s.text.length ++ Text.ofString " characters from " ++
        Text.ofChars s.path) ++
    s.parseLines verbosity scope ++
    match s.parse scope with
    | .error _ => [LogLine.always (Text.ofChars s.path ++ Text.ofString ": processing failed")]
    | .ok _ => []

namespace Compiler

/-- Compiles one file. A file that cannot be read is a problem; only a path with a null character
is a fault. -/
def fileReport (c : Compiler) (env : Environment) (path : List Char) :
    Except FileFault FileReport :=
  match env.readSource path with
  | .ok source => .ok (source.report (c.scope env))
  | .error .nullByte => .error .nullByte
  | .error fault => .ok ⟨path, [], [⟨fault.message, path, .unknown⟩]⟩

/-- The lines that the compilation of one file logs. -/
def fileLines (verbosity : Int) (c : Compiler) (env : Environment) (path : List Char) :
    List LogLine :=
  match env.readSource path with
  | .ok source => source.lines verbosity (c.scope env)
  | .error _ => []

end Compiler

/-! ## Workers -/

/-- The results of tasks that finish in some order, in the order in which the tasks were given:
each finished task fills its own slot. -/
def gather {α β : Type} (task : α → β) (inputs : List α) (completion : List Nat) : List β :=
  let slots := completion.foldl
    (fun slots i => slots.set i (inputs[i]?.map task)) (List.replicate inputs.length none)
  slots.filterMap id

/-- The results of all tasks, or the first fault among them. -/
def firstFault {α ε : Type} : List (Except ε α) → Except ε (List α)
  | [] => .ok []
  | .error fault :: _ => .error fault
  | .ok a :: rest => (firstFault rest).map (a :: ·)

/-! ## All files -/

/-- What a run of the compiler leaves. -/
structure Compilation where
  compiler : Compiler
  registry : Registry
  problems : List Problem
  lines : List LogLine

namespace Compiler

/-- The line about an entry that is replaced. -/
def replacingLines (verbosity : Int) (registry : Registry) (key : Text) : List LogLine :=
  if registry.contains key then
    LogLine.debug verbosity 2
      (Text.ofString "Replacing component '" ++ key ++ Text.ofString "'")
  else []

/-- The entry that is stored for a definition. -/
def entryOf (c : Compiler) (d : Definition) : RegistryEntry :=
  ⟨d, Text.ofChars c.category, true⟩

/-- Stores a definition under the name of its component. -/
def register (c : Compiler) (registry : Registry) (d : Definition) : Compiler × Registry :=
  ({ c with upserts := c.upserts + 1 }, registry.upsert d.componentName (c.entryOf d))

/-- The lines about a definition that is stored. -/
def registerLines (verbosity : Int) (registry : Registry) (d : Definition) : List LogLine :=
  replacingLines verbosity registry d.componentName ++
    LogLine.debug verbosity 2
      (Text.ofString "Registered component '" ++ d.componentName ++ Text.ofString "' from " ++
        d.importPath)

/-- Stores definitions in their order. -/
def registerAll (c : Compiler) (registry : Registry) :
    List Definition → Compiler × Registry
  | [] => (c, registry)
  | d :: ds =>
      let (c, registry) := c.register registry d
      c.registerAll registry ds

/-- The lines about definitions that are stored. -/
def registerAllLines (verbosity : Int) (c : Compiler) (registry : Registry) :
    List Definition → List LogLine
  | [] => []
  | d :: ds =>
      registerLines verbosity registry d ++
        registerAllLines verbosity c (c.register registry d).2 ds

/-- Paths in the order in which their files count. -/
def processingOrder (paths : List (List Char)) : List (List Char) :=
  sortBy charsBefore paths

/-- What becomes of the files, by the order of their paths. `completion` is the order in which the
workers finish, if there are several. -/
def reports (c : Compiler) (env : Environment) (completion : List Nat)
    (ordered : List (List Char)) : Except FileFault (List FileReport) :=
  if c.workers > 1 ∧ ordered.length > 1 then
    firstFault (gather (c.fileReport env) ordered completion)
  else firstFault (ordered.map (c.fileReport env))

/-- The lines about all files up to one that ends the run. -/
def allFileLines (verbosity : Int) (c : Compiler) (env : Environment)
    (ordered : List (List Char)) : List LogLine :=
  (ordered.takeWhile fun path => (c.fileReport env path).isOk).flatMap
    (c.fileLines verbosity env)

/-- The line with which a run starts. -/
def startLines (verbosity : Int) (count : Nat) : List LogLine :=
  LogLine.debug verbosity 2
    (Text.ofString "Compiling markup from " ++ countText count ++ Text.ofString " file(s)")

/-- What a run leaves that ends early, with the reason as its only problem. -/
def aborted (c : Compiler) (registry : Registry) (reason : List Char) (lines : List LogLine) :
    Compilation :=
  { compiler := c
    registry := registry
    problems := [⟨reason, [], .unknown⟩]
    lines := lines ++ [LogLine.failure "Markup compilation aborted"] }

/-- Compiles files into a registry, with workers that finish in a given order. -/
def compileIn (completion : List Nat) (verbosity : Int) (c : Compiler) (env : Environment)
    (registry : Registry) (paths : List (List Char)) : Compilation :=
  let ordered := processingOrder paths
  let reading := c.readingEnvironment env ordered.length
  let started := startLines verbosity ordered.length ++ c.allFileLines verbosity reading ordered
  match c.reports reading completion ordered with
  | .error fault => c.aborted registry fault.message started
  | .ok reports =>
      let definitions := reports.flatMap FileReport.definitions
      let problems := reports.flatMap FileReport.problems
      let (c', registry') := c.registerAll registry definitions
      { compiler := c'
        registry := registry'
        problems := problems
        lines := started ++ registerAllLines verbosity c registry definitions ++
          problems.map LogLine.warning ++
          LogLine.debug verbosity 2
            (countText c'.upserts ++ Text.ofString " component(s) registered, " ++
              countText problems.length ++ Text.ofString " problem(s)") }

/-- Compiles files into a registry. -/
def compile (verbosity : Int) (c : Compiler) (env : Environment) (registry : Registry)
    (paths : List (List Char)) : Compilation :=
  c.compileIn (List.range paths.length) verbosity env registry paths

end Compiler

end ComponentMarkup
