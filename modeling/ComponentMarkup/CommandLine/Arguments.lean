import ComponentMarkup.Number.IntegerText
import ComponentMarkup.Path
import ComponentMarkup.Project

/-!
# Arguments of the command line

Arguments are options or positional. A long option may be shortened as long as it stays unique, and
have its value behind an equals sign or in the next argument; short options may be written in one
argument. Behind two hyphens everything is positional.
-/

namespace ComponentMarkup

/-- What an option does. -/
inductive OptionEffect where
  | help
  | outputFile
  | problemsFile
  | workers
  | verbosity
  | version
  | ignored
  deriving DecidableEq, Repr

/-- An option with its names. -/
structure OptionSpec where
  names : List (List Char)
  effect : OptionEffect
  deriving DecidableEq

namespace OptionSpec

/-- All options. -/
def all : List OptionSpec :=
  [⟨["-h".toList, "--help".toList], .help⟩, ⟨["--outputFile".toList], .outputFile⟩,
    ⟨["--problemsFile".toList], .problemsFile⟩, ⟨["--workers".toList], .workers⟩,
    ⟨["-v".toList, "--verbosity".toList], .verbosity⟩,
    ⟨["-V".toList, "--version".toList], .version⟩, ⟨["--saveinputmeta".toList], .ignored⟩,
    ⟨["--saveoutputmeta".toList], .ignored⟩]

/-- Does an option have a value? -/
def takesValue (o : OptionSpec) : Bool :=
  o.effect = .outputFile || o.effect = .problemsFile || o.effect = .workers

/-- All names of an option. -/
def title (o : OptionSpec) : List Char := ['/'].intercalate o.names

/-- The names of all options, each with its option. -/
def named : List (List Char × OptionSpec) :=
  all.flatMap fun o => o.names.map fun name => (name, o)

/-- The option with a name. -/
def ofName? (name : List Char) : Option OptionSpec :=
  (named.find? fun n => n.1 = name).map Prod.snd

end OptionSpec

/-! ## Faults -/

/-- Why arguments are refused. -/
inductive UsageFault where
  | ambiguous (argument : List Char) (names : List (List Char))
  | noValue (option : OptionSpec)
  | superfluousValue (option : OptionSpec) (value : List Char)
  | notInteger (option : OptionSpec) (value : List Char)
  | missing (names : List String)
  | unrecognized (arguments : List (List Char))

namespace UsageFault

/-- The message about one option. -/
def about (o : OptionSpec) (message : List Char) : List Char :=
  "argument ".toList ++ o.title ++ ": ".toList ++ message

/-- The message about refused arguments. -/
def message : UsageFault → List Char
  | ambiguous argument names =>
      "ambiguous option: ".toList ++ argument ++ " could match ".toList ++
        [',', ' '].intercalate names
  | noValue o => about o "expected one argument".toList
  | superfluousValue o value => about o ("ignored explicit argument ".toList ++ quoted value)
  | notInteger o value => about o ("invalid int value: ".toList ++ quoted value)
  | missing names =>
      ("the following arguments are required: " ++ ", ".intercalate names).toList
  | unrecognized arguments =>
      "unrecognized arguments: ".toList ++ [' '].intercalate arguments

end UsageFault

/-! ## Kinds of arguments -/

/-- An argument by its kind. An option may have its value in the same argument. -/
inductive Argument where
  | positional (text : List Char)
  | option (spec : OptionSpec) (name : List Char) (value : Option (List Char))
  /-- An argument that looks like an option and is none. -/
  | unknown (text : List Char)

/-- The text that separates options from positional arguments. -/
def twoHyphens : List Char := ['-', '-']

namespace Argument

/-- A text cut at the first equals sign, if there is one. -/
def splitEquals (text : List Char) : List Char × Option (List Char) :=
  let name := text.takeWhile (· ≠ '=')
  match text.drop name.length with
  | [] => (name, none)
  | _ :: value => (name, some value)

/-- The options that an argument may abbreviate. -/
def abbreviated (text : List Char) : List (OptionSpec × List Char × Option (List Char)) :=
  if twoHyphens.isPrefixOf text then
    let (start, value) := splitEquals text
    (OptionSpec.named.filter fun n => start.isPrefixOf n.1).map fun n => (n.2, n.1, value)
  else
    OptionSpec.named.filterMap fun n =>
      if n.1 = text.take 2 then some (n.2, n.1, some (text.drop 2))
      else if text.isPrefixOf n.1 then some (n.2, n.1, none)
      else none

/-- Is a text a negative number, in decimal digits of any script? -/
def isNegativeNumber (text : List Char) : Bool :=
  let isDecimal (c : Char) : Bool := (decimalDigit? c).isSome
  match (if text.getLast? = some '\n' then text.dropLast else text) with
  | '-' :: cs =>
      let whole := cs.takeWhile isDecimal
      match cs.drop whole.length with
      | [] => whole ≠ []
      | '.' :: fraction => fraction ≠ [] && fraction.all isDecimal
      | _ => false
  | _ => false

/-- The kind of an argument in front of the separator. -/
def classify (text : List Char) : Except UsageFault Argument :=
  if text.head? ≠ some '-' then .ok (.positional text)
  else
    match OptionSpec.ofName? text with
    | some o => .ok (.option o text none)
    | none =>
        if text.length = 1 then .ok (.positional text)
        else
          match splitEquals text with
          | (name, some value) =>
              match OptionSpec.ofName? name with
              | some o => .ok (.option o name (some value))
              | none => choose text
          | _ => choose text
where
  choose (text : List Char) : Except UsageFault Argument :=
    match abbreviated text with
    | [(o, name, value)] => .ok (.option o name value)
    | [] =>
        if isNegativeNumber text ∨ ' ' ∈ text then .ok (.positional text)
        else .ok (.unknown text)
    | several => .error (.ambiguous text (several.map fun s => s.2.1))

/-- The kinds of the arguments in front of the separator, and what is behind it, if there is one. -/
def classifyAll : List (List Char) → Except UsageFault (List Argument × Option (List (List Char)))
  | [] => .ok ([], none)
  | text :: texts =>
      if text = twoHyphens then .ok ([], some texts)
      else do
        let argument ← classify text
        let (arguments, behind) ← classifyAll texts
        return (argument :: arguments, behind)

end Argument

/-! ## Reading arguments -/

/-- What arguments ask for. -/
inductive CommandRequest where
  /-- A run from the first directory to the second, either of which may be without a name. -/
  | run (input output : Option (List Char)) (options : RunOptions)
  | showVersion
  | showHelp

/-- What is read of the arguments so far. -/
structure ArgumentState where
  positionals : List (Option (List Char)) := []
  options : RunOptions := {}
  extras : List (List Char) := []

/-- Why the reading of arguments ends early. -/
inductive EarlyEnd where
  | fault (fault : UsageFault)
  | showVersion
  | showHelp

namespace ArgumentState

/-- What a text names as a value: two hyphens name nothing. -/
def named? (text : List Char) : Option (List Char) := if text = twoHyphens then none else some text

/-- Applies an option with its value. -/
def apply (s : ArgumentState) (o : OptionSpec) (value : List Char) :
    Except EarlyEnd ArgumentState :=
  match o.effect with
  | .help => .error .showHelp
  | .version => .error .showVersion
  | .ignored => .ok s
  | .outputFile => .ok { s with options := { s.options with outputFile := named? value } }
  | .problemsFile => .ok { s with options := { s.options with problemsFile := named? value } }
  | .verbosity =>
      .ok { s with options := { s.options with verbosity := s.options.verbosity + 1 } }
  | .workers =>
      match named? value with
      | none => .ok { s with options := { s.options with workers := .unnamed } }
      | some text =>
          match integerOfText? text with
          | some n => .ok { s with options := { s.options with workers := .number n } }
          | none => .error (.fault (.notInteger o text))

/-- Applies options without values. -/
def applyAll (s : ArgumentState) : List OptionSpec → Except EarlyEnd ArgumentState
  | [] => .ok s
  | o :: os => do (← s.apply o []).applyAll os

/-- Applies the short options whose letters follow one of them in the same argument. `before` are
the options that come before it. -/
def applyJoined (s : ArgumentState) (before : List OptionSpec) (o : OptionSpec) :
    List Char → Except EarlyEnd ArgumentState
  | [] => s.applyAll (before ++ [o])
  | c :: cs =>
      match OptionSpec.ofName? ['-', c] with
      | none => .error (.fault (.superfluousValue o (c :: cs)))
      | some next => s.applyJoined (before ++ [o]) next cs

/-- Is this a name of one hyphen and a letter? -/
def isShort (name : List Char) : Bool := !twoHyphens.isPrefixOf name

/-- Applies an option with the value in its own argument. Behind a short option without values
there are letters of others. -/
def applyValue (s : ArgumentState) (o : OptionSpec) (name value : List Char) :
    Except EarlyEnd ArgumentState :=
  if o.takesValue then s.apply o value
  else if isShort name ∧ value ≠ [] then s.applyJoined [] o value
  else .error (.fault (.superfluousValue o value))

/-- The number of positional arguments. -/
def positionalLimit : Nat := 2

/-- Takes a positional argument for the value that it names, or keeps it as one too many. -/
def addPositional (s : ArgumentState) (text : List Char) (value : Option (List Char)) :
    ArgumentState :=
  if s.positionals.length < positionalLimit then
    { s with positionals := s.positionals ++ [value] }
  else { s with extras := s.extras ++ [text] }

/-- Takes positional arguments. -/
def addPositionals (s : ArgumentState) (texts : List (List Char)) : ArgumentState :=
  texts.foldl (fun s text => s.addPositional text (named? text)) s

/-- Takes what is behind the separator. The separator belongs to a positional argument beside it
that counts, first to one in front of it. One behind it may then be two hyphens itself. A separator
that belongs to none is one argument too many. -/
def addBehind (s : ArgumentState) (beside : Bool) (texts : List (List Char)) : ArgumentState :=
  if beside then s.addPositionals texts
  else
    match texts with
    | text :: rest =>
        if s.positionals.length < positionalLimit then
          (s.addPositional text (some text)).addPositionals rest
        else { s with extras := s.extras ++ twoHyphens :: texts }
    | [] => { s with extras := s.extras ++ [twoHyphens] }

/-- Reads the arguments in front of the separator and then what is behind it. `beside` tells
whether the argument before was a positional one that counts. -/
def readAll (s : ArgumentState) (beside : Bool) (behind : Option (List (List Char))) :
    List Argument → Except EarlyEnd ArgumentState
  | [] => .ok ((behind.map (s.addBehind beside)).getD s)
  | .positional text :: rest =>
      (s.addPositional text (some text)).readAll (s.positionals.length < positionalLimit) behind
        rest
  | .unknown text :: rest => readAll { s with extras := s.extras ++ [text] } false behind rest
  | .option o name (some value) :: rest => do
      (← s.applyValue o name value).readAll false behind rest
  | .option o _ none :: rest =>
      if o.takesValue then
        match rest with
        | .positional text :: rest => do (← s.apply o text).readAll false behind rest
        | _ => .error (.fault (.noValue o))
      else do (← s.apply o []).readAll false behind rest

/-- What the arguments ask for, once all are read. -/
def finish (s : ArgumentState) : Except UsageFault CommandRequest :=
  match s.positionals with
  | input :: output :: _ =>
      if s.extras = [] then .ok (.run input output s.options) else .error (.unrecognized s.extras)
  | positionals => .error (.missing (["inputdir", "outputdir"].drop positionals.length))

end ArgumentState

/-- Reads the arguments of the command line. -/
def readArguments (arguments : List (List Char)) : Except UsageFault CommandRequest := do
  let (classified, behind) ← Argument.classifyAll arguments
  match ArgumentState.readAll {} false behind classified with
  | .ok state => state.finish
  | .error (.fault fault) => .error fault
  | .error .showVersion => .ok .showVersion
  | .error .showHelp => .ok .showHelp

end ComponentMarkup
