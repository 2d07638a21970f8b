import ComponentMarkup.CommandLine.Command
import ComponentMarkup.Settings.Environment

/-!
# The program

The files that a run can read are taken from disk, the command runs on them, and what it changed is
written back.
-/

namespace ComponentMarkup.Program

/-- The names of an absolute path, as the system spells it. -/
def systemNames (path : String) : List Name := pathNames path.toList

/-- The path of a location, as the system spells it. -/
def systemPath (location : List Name) : String := String.ofList ('/' :: joinNames location)

/-- The text of a list of code points; a surrogate has none. -/
def shownText (t : Text) : String :=
  String.ofList (t.map fun p => p.toChar?.getD '\uFFFD')

/-- The variables of the process. -/
def readVariables : IO (List (List Char × List Char)) := do
  let bytes ← try IO.FS.readBinFile "/proc/self/environ" catch _ => pure .empty
  match Utf8.decode bytes.toList with
  | .error _ => return []
  | .ok text =>
      let lines := (String.ofList text).splitOn "\x00"
      return lines.filterMap fun line =>
        match Argument.splitEquals line.toList with
        | (name, some value) => some (name, value)
        | _ => none

/-- What comes of an action on the disk, if it does not fail. -/
def attempt {α : Type} (action : IO α) : IO (Option α) := do
  try return some (← action) catch _ => return none

/-- Takes what there is at a location, but not what is below it, nor what a file holds. A link is
taken with what there is on the way to its target; one that leads nowhere is left out. -/
partial def loadLocation (files : Files) (location : List Name) : IO Files := do
  if (files.find? location).isSome then return files
  let path := (← IO.currentDir) / systemPath location
  match ← attempt (return (← path.symlinkMetadata).type) with
  | none => return files
  | some IO.FS.FileType.dir => return files.set location .directory
  | some IO.FS.FileType.symlink =>
      match ← attempt (IO.FS.realPath path) with
      | none => return files
      | some target =>
          let names := systemNames target.toString
          (List.range names.length).foldlM (fun files n => loadLocation files (names.take (n + 1)))
            (files.set location (.link target.toString.toList))
  | some _ => return files.set location (.file files.freshNumber)

/-- Takes what there is at all locations to which names lead from a location. -/
def loadNames (files : Files) (here : List Name) : List Name → IO Files
  | [] => return files
  | name :: names => do
      if name = Name.up then loadNames files here.dropLast names
      else
        let files ← loadLocation files (here ++ [name])
        match files.find? (here ++ [name]) with
        | some (.link target) => loadNames files (pathNames target) names
        | _ => loadNames files (here ++ [name]) names

/-- Takes what there is on the way to a path. -/
def loadWay (files : Files) (path : List Char) : IO Files :=
  loadNames files (Files.startFrom files.workingDirectory path) (pathNames path)

/-- Takes all that there is below a location, and what the candidates hold. -/
partial def loadTree (settings : Settings) (files : Files) (location : List Name) : IO Files := do
  let mut files := files
  for entry in ← ((← IO.currentDir) / systemPath location).readDir do
    let name := entry.fileName.toList
    let below := location ++ [name]
    files ← loadLocation files below
    if files.find? below = some .directory then
      files ← loadTree settings files below
    else if hasExtension settings.candidateExtensions (splitSuffix name).2 then
      if let .ok (some number) := files.fileAt (systemPath below).toList then
        files := files.fill number (← IO.FS.readBinFile entry.path).toList
  return files

/-- Takes the files that a run with the given arguments can read. -/
def loadFiles (settings : Settings) (workingDirectory : List Name)
    (arguments : List (List Char)) : IO Files := do
  let files := Files.emptyAt workingDirectory
  match readArguments arguments with
  | .ok (.run (some input) (some output) options) =>
      let out := Path.ofText output
      let results := [options.outputFile, options.problemsFile].filterMap id
      let mut files ← loadWay files input
      if let .ok location := files.locate input then
        if files.find? location = some .directory then
          files ← loadTree settings files location
      files ← loadWay files output
      results.foldlM (fun files name => loadWay files (out.join (.ofText name)).text) files
  | _ => return files

/-- Makes the new directories, and writes the files that are not as they were. -/
def storeChanges (before after : Files) : IO Unit := do
  for (location, entry) in after.bindings do
    let isNew := (before.find? location).isNone
    match entry with
    | .directory => if isNew then IO.FS.createDirAll (systemPath location)
    | .file number =>
        let bytes := Files.findBinding number after.contents
        if isNew ∨ bytes ≠ Files.findBinding number before.contents then
          IO.FS.writeBinFile (systemPath location) ⟨(after.content number).toArray⟩
    | .link _ => pure ()

/-- The room for decoding on the thread that runs the command: of a thousand calls eleven are in
progress when it comes to a fragment, and a scalar takes eight. -/
def commandRoom : Nat := 981

/-- The room for decoding on a thread of a pool, which comes to a fragment with nine calls. -/
def poolRoom : Nat := 983

/-- The word for a severity. -/
def severityWord : Severity → String
  | .debug => "DEBUG"
  | .warning => "WARNING"
  | .error => "ERROR"

/-- Runs the command and gives its exit code. -/
def run (arguments : List String) : IO UInt32 := do
  let arguments := arguments.map String.toList
  match Settings.ofVariables (levelLimit commandRoom) (← readVariables) with
  | .error _ =>
      IO.eprintln "The settings in the environment are not valid."
      return 1
  | .ok settings =>
      let workingDirectory := systemNames (← IO.currentDir).toString
      let files ← loadFiles settings workingDirectory arguments
      let env : Environment := ⟨settings, files, workingDirectory, commandRoom, poolRoom⟩
      let result := runCommand env arguments
      storeChanges files result.files
      for line in result.lines do
        IO.eprintln (severityWord line.severity ++ " " ++ shownText line.message)
      IO.print (String.ofList result.output)
      match result.outcome with
      | .ok () => return 0
      | .error (.exit code message) =>
          IO.eprintln (String.ofList message)
          return UInt32.ofNat code
      | .error (.failure fault) =>
          IO.eprintln (String.ofList fault.message)
          return 1
      | .error (.lack what) =>
          IO.eprintln what.message
          return 1

end ComponentMarkup.Program

/-- Runs the command. -/
def main (arguments : List String) : IO UInt32 := ComponentMarkup.Program.run arguments
