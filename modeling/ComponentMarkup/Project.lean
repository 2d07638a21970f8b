import ComponentMarkup.Compiler
import ComponentMarkup.Json.Printer

/-!
# Compiling a project

A run goes through four stages: the directories are checked, the candidate files are found, their
markup is compiled, and the catalog and the report of problems are written. A stage either ends
with a new state or stops the run; the files that it changed before stay changed.
-/

namespace ComponentMarkup

/-- How many workers a run has. -/
inductive WorkerChoice where
  /-- As many as the settings say. -/
  | asSettings
  | number (count : Int)
  /-- The option for them is there, but names no number. -/
  | unnamed
  deriving DecidableEq, Repr

/-- What is asked of a run, the directories apart. An option for a file may be there without naming
one. -/
structure RunOptions where
  verbosity : Int := 1
  outputFile : Option (List Char) := some "components.json".toList
  problemsFile : Option (List Char) := some "problems.txt".toList
  workers : WorkerChoice := .asSettings

/-- The state of a run. -/
structure RunState where
  inputDirectory : Option Path
  outputDirectory : Path
  options : RunOptions
  environmentChecked : Bool := false
  candidates : List Path := []
  registry : Option Registry := none
  problems : List Problem := []

/-- The stages of a run. -/
inductive Stage where
  | checkEnvironment
  | findSources
  | compileMarkup
  | reportResults
  deriving DecidableEq, Repr

/-- What a run needs and is not given. -/
inductive Lack where
  /-- There is no directory to be searched. -/
  | inputDirectory
  /-- A directory is asked for without a name. -/
  | directoryName
  /-- A file is asked for without a name. -/
  | fileName
  deriving DecidableEq, Repr

/-- The message about what is not given. -/
def Lack.message : Lack → String
  | inputDirectory => "'NoneType' object has no attribute 'rglob'"
  | directoryName => "expected str, bytes or os.PathLike object, not list"
  | fileName => "unsupported operand type(s) for /: 'PosixPath' and 'list'"

/-- Why a run stops. -/
inductive Stop where
  /-- The run ends with an exit code and a message. -/
  | exit (code : Nat) (message : List Char)
  /-- A file or directory could not be made. -/
  | failure (fault : FileFault)
  /-- Something is not given. -/
  | lack (what : Lack)

/-- What a stage leaves: the files, the lines it logged, and the new state unless the run stops. -/
structure StageResult where
  files : Files
  lines : List LogLine
  outcome : Except Stop RunState

/-! ## Directories -/

/-- The title that a verbose run starts with. -/
def displayTitle : String :=
  "\n      _\n" ++
  "   __| | ___ ___  ___ ___  _ __ ___  _ __\n" ++
  "  / _` |/ __/ _ \\/ __/ _ \\| '_ ` _ \\| '_ \\\n" ++
  " | (_| | (_|  __/ (_| (_) | | | | | | |_) |\n" ++
  "  \\__,_|\\___\\___|\\___\\___/|_| |_| |_| .__/\n" ++
  "                                    |_|\n" ++
  "  Component markup compiler\n"

/-- The message about an input directory that is not there. -/
def inputMissingMessage (input : Option Path) : List Char :=
  "Error: Input directory not found: ".toList ++ (input.map Path.text).getD "None".toList

/-- Checks the input directory and makes the output directory. -/
def checkEnvironment (env : Environment) (state : RunState) : StageResult :=
  let v := state.options.verbosity
  let started :=
    LogLine.debug v 2 (Text.ofString displayTitle) ++
      LogLine.debug v 2 (Text.ofString "Checking environment...")
  let files := env.files
  match state.inputDirectory with
  | none => ⟨files, started, .error (.exit 1 (inputMissingMessage none))⟩
  | some input =>
      match files.isDirectory input.text with
      | .error fault => ⟨files, started, .error (.failure fault)⟩
      | .ok false => ⟨files, started, .error (.exit 1 (inputMissingMessage input))⟩
      | .ok true =>
          match files.makeDirectories state.outputDirectory with
          | (files, .error fault) => ⟨files, started, .error (.failure fault)⟩
          | (files, .ok ()) =>
              { files
                lines := started ++
                  LogLine.debug v 2
                    (Text.ofString "Project root: " ++ Text.ofChars input.text) ++
                  LogLine.debug v 2
                    (Text.ofString "Output directory: " ++
                      Text.ofChars state.outputDirectory.text)
                outcome := .ok { state with environmentChecked := true } }

/-! ## Sources -/

/-- Finds the candidate files below the input directory. -/
def findSources (env : Environment) (state : RunState) : StageResult :=
  let v := state.options.verbosity
  let started := LogLine.debug v 1 (Text.ofString "Searching for candidate files...")
  match state.inputDirectory with
  | none => ⟨env.files, started, .error (.lack .inputDirectory)⟩
  | some input =>
      match env.files.candidates input env.settings.candidateExtensions with
      | .error fault => ⟨env.files, started, .error (.failure fault)⟩
      | .ok candidates =>
          { files := env.files
            lines := started ++
              LogLine.debug v 2
                (Text.ofString "Found " ++ countText candidates.length ++
                  Text.ofString " candidate file(s)")
            outcome := .ok { state with candidates } }

/-! ## Markup -/

/-- The number of workers that a choice names, or that of the settings. -/
def WorkerChoice.count (choice : WorkerChoice) (settings : Settings) : Int :=
  match choice with
  | number n => n
  | _ => settings.workers

/-- The compiler of a run. -/
def RunState.compiler (state : RunState) (settings : Settings) : Compiler :=
  { root := state.inputDirectory.map Path.text
    workers := state.options.workers.count settings
    marker := settings.marker
    category := settings.category }

/-- The message about workers without a number. -/
def unnamedWorkersMessage : List Char :=
  "'>' not supported between instances of 'list' and 'int'".toList

/-- Compiles the candidate files of a run. Without a number of workers this ends before a file is
read. -/
def RunState.compile (state : RunState) (env : Environment) : Compilation :=
  let v := state.options.verbosity
  let c := state.compiler env.settings
  if state.options.workers = .unnamed then
    c.aborted .empty unnamedWorkersMessage (Compiler.startLines v state.candidates.length)
  else c.compile v env .empty (state.candidates.map Path.text)

/-- Compiles the candidate files into a new registry. -/
def compileMarkup (env : Environment) (state : RunState) : StageResult :=
  let v := state.options.verbosity
  let result := state.compile env
  { files := env.files
    lines := LogLine.debug v 1 (Text.ofString "Compiling component markup...") ++ result.lines
    outcome := .ok { state with registry := some result.registry, problems := result.problems } }

/-! ## Results -/

/-- The object of an entry in the catalog. -/
def RegistryEntry.toValue (e : RegistryEntry) : Value :=
  objectValue
    [("category", stringValue e.category), ("visibleInMenu", .leaf () (.bool e.visibleInMenu)),
      ("definition", e.definition.toValue)]

/-- The catalog of a registry: its entries in the order of their keys. -/
def Registry.toValue (r : Registry) : Value := .array () (r.entries.map RegistryEntry.toValue)

/-- The text of the catalog. -/
def Registry.catalogText (r : Registry) : List Char := printJson r.toValue ++ ['\n']

/-- The message about results without a compilation. -/
def noRegistryMessage : List Char := "Error: Compilation failed".toList

/-- The lines about the files written. -/
def resultLines (verbosity : Int) (catalog report : Path) (components problems : Nat) :
    List LogLine :=
  LogLine.debug verbosity 1 (Text.ofString "\n✓ Compilation finished") ++
    LogLine.debug verbosity 1
      (Text.ofString "  Components: " ++ countText components ++ Text.ofString " -> " ++
        Text.ofChars catalog.text) ++
    LogLine.debug verbosity 1
      (Text.ofString "  Problems:   " ++ countText problems ++ Text.ofString " -> " ++
        Text.ofChars report.text)

/-- The path of a file of results. -/
def RunState.resultPath (state : RunState) (name : Option (List Char)) : Except Stop Path :=
  match name with
  | some name => .ok (state.outputDirectory.join (.ofText name))
  | none => .error (.lack .fileName)

/-- Writes a file of results, and gives its path. -/
def RunState.writeResult (state : RunState) (files : Files) (name : Option (List Char))
    (text : List Char) : Except Stop (Files × Path) := do
  let path ← state.resultPath name
  match files.write path.text (Utf8.encode text) with
  | .ok files => return (files, path)
  | .error fault => throw (.failure fault)

/-- Writes the catalog and then the report of problems. -/
def reportResults (env : Environment) (state : RunState) : StageResult :=
  let files := env.files
  match state.registry with
  | none => ⟨files, [], .error (.exit 1 noRegistryMessage)⟩
  | some registry =>
      match state.writeResult files state.options.outputFile registry.catalogText with
      | .error stop => ⟨files, [], .error stop⟩
      | .ok (files, catalog) =>
          match state.writeResult files state.options.problemsFile
              (Problem.report state.problems) with
          | .error stop => ⟨files, [], .error stop⟩
          | .ok (files, report) =>
              { files
                lines := resultLines state.options.verbosity catalog report registry.size
                  state.problems.length
                outcome := .ok state }

/-! ## Runs -/

/-- Goes through a stage. -/
def Stage.run (stage : Stage) (env : Environment) (state : RunState) : StageResult :=
  match stage with
  | checkEnvironment => ComponentMarkup.checkEnvironment env state
  | findSources => ComponentMarkup.findSources env state
  | compileMarkup => ComponentMarkup.compileMarkup env state
  | reportResults => ComponentMarkup.reportResults env state

/-- Goes through stages one after another, up to one that stops the run. -/
def runStages (env : Environment) (state : RunState) : List Stage → StageResult
  | [] => ⟨env.files, [], .ok state⟩
  | stage :: stages =>
      let result := stage.run env state
      match result.outcome with
      | .error stop => ⟨result.files, result.lines, .error stop⟩
      | .ok state =>
          let rest := runStages { env with files := result.files } state stages
          { rest with lines := result.lines ++ rest.lines }

/-- All stages in their order. -/
def allStages : List Stage := [.checkEnvironment, .findSources, .compileMarkup, .reportResults]

end ComponentMarkup
