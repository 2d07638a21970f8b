import ComponentMarkup.CommandLine.Arguments

/-!
# The command

The command reads its arguments, makes the output directory, looks for the input directory and goes
through all stages of a run.
-/

namespace ComponentMarkup

/-- The name of the command. -/
def commandName : String := "dcecomp"

/-- The version of the command. -/
def commandVersion : String := "1.0.0"

/-- The short help of the command. -/
def usageText : String := "usage: " ++ commandName ++ " [options] inputdir outputdir\n"

/-- What the command leaves: the files, the lines it logged, its output, and why it stopped if it
did not come to its end. -/
structure CommandResult where
  files : Files
  lines : List LogLine := []
  output : List Char := []
  outcome : Except Stop Unit

/-- The exit code of the command for arguments that are refused. -/
def usageExitCode : Nat := 2

/-- The message about arguments that are refused. -/
def usageMessage (fault : UsageFault) : List Char :=
  (commandName ++ ": error: ").toList ++ fault.message

/-- The message about a path that leads to no directory. -/
def notDirectoryMessage (path : Path) : List Char := "Not a directory: ".toList ++ path.text

/-- Makes the output directory unless it is there. -/
def prepareOutput (files : Files) (output : Path) : Files × Except Stop Unit :=
  match files.lookUp output.text with
  | .error fault => (files, .error (.failure fault))
  | .ok (some .directory) => (files, .ok ())
  | .ok (some _) => (files, .error (.exit 1 (notDirectoryMessage output)))
  | .ok none =>
      match files.makeNewDirectory output with
      | (files, .error fault) => (files, .error (.failure fault))
      | (files, .ok ()) => (files, .ok ())

/-- Makes the output directory and looks for the input directory. -/
def prepareDirectories (files : Files) (input output : Path) : Files × Except Stop Unit :=
  match prepareOutput files output with
  | (files, .error stop) => (files, .error stop)
  | (files, .ok ()) =>
      match files.isDirectory input.text with
      | .error fault => (files, .error (.failure fault))
      | .ok false => (files, .error (.exit 1 (notDirectoryMessage input)))
      | .ok true => (files, .ok ())

/-- Compiles the project in one directory into another one. -/
def runProject (env : Environment) (input output : Path) (options : RunOptions) : CommandResult :=
  match prepareDirectories env.files input output with
  | (files, .error stop) => { files, outcome := .error stop }
  | (files, .ok ()) =>
      let state : RunState := { inputDirectory := some input, outputDirectory := output, options }
      let result := runStages { env with files } state allStages
      { files := result.files
        lines := result.lines
        outcome := result.outcome.map fun _ => () }

/-- Runs the command with its arguments. -/
def runCommand (env : Environment) (arguments : List (List Char)) : CommandResult :=
  match readArguments arguments with
  | .error fault =>
      { files := env.files
        outcome := .error (.exit usageExitCode (usageMessage fault)) }
  | .ok .showVersion =>
      { files := env.files
        output := (commandName ++ " " ++ commandVersion ++ "\n").toList
        outcome := .ok () }
  | .ok .showHelp => { files := env.files, output := usageText.toList, outcome := .ok () }
  | .ok (.run (some input) (some output) options) =>
      runProject env (.ofText input) (.ofText output) options
  | .ok (.run ..) => { files := env.files, outcome := .error (.lack .directoryName) }

end ComponentMarkup
