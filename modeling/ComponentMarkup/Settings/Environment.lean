import ComponentMarkup.Json.Reader
import ComponentMarkup.Number.IntegerText
import ComponentMarkup.Settings

/-!
# Settings from environment variables

Every setting can be given by a variable, whose name may be in any case. Extensions are given as a
JSON array of strings. Of several faults all are told, unless a variable holds no JSON.
-/

namespace ComponentMarkup

/-- What is wrong with the value of a setting. -/
inductive FieldCause where
  | notList
  | notString
  | notInteger
  | hugeInteger
  | tooSmall
  deriving DecidableEq, Repr

/-- A fault of a setting, or of one element of it. -/
structure FieldFault where
  field : String
  index : Option Nat
  cause : FieldCause
  deriving DecidableEq

/-- Why variables give no settings. -/
inductive SettingsFault where
  /-- A variable that should hold JSON does not. -/
  | notJson (field : String)
  /-- The JSON in a variable is nested too deep. -/
  | tooDeep
  /-- Some settings have values that do not fit. -/
  | invalid (faults : List FieldFault)
  deriving DecidableEq

namespace Settings

/-- The name of the variable of a setting, in lower case. -/
def variableName (field : String) : Text := Text.ofString ("dcecomp_" ++ field)

/-- The value of the variable of a setting; of several names that differ in case the last counts. -/
def valueOf? (given : List (List Char × List Char)) (field : String) : Option (List Char) :=
  Tree.lastMember? (variableName field)
    (given.map fun v => (lowercase (Text.ofChars v.1), v.2))

/-! ## Extensions -/

/-- A string, unless the value is another one. -/
def string? : SpelledTree → Option Text
  | .leaf _ (.string t) => some t
  | _ => none

/-- The faults of values that are no strings. -/
def stringFaults (field : String) (items : List SpelledTree) : List FieldFault :=
  items.zipIdx.filterMap fun item =>
    if (string? item.1).isNone then some ⟨field, some item.2, .notString⟩ else none

/-- The extensions that a JSON text lists, or the faults of the list. The word `null` leaves the
setting as it is. -/
def extensionsOfTree (field : String) (unchanged : List Text) :
    SpelledTree → Except (List FieldFault) (List Text)
  | .leaf _ .null => .ok unchanged
  | .array _ items =>
      match stringFaults field items with
      | [] => .ok (items.filterMap string?)
      | faults => .error faults
  | _ => .error [⟨field, none, .notList⟩]

/-- Reads the JSON in the variable of a setting, if there is one, the containers of which may be
nested `levels` deep. -/
def readVariable (levels : Nat) (given : List (List Char × List Char)) (field : String) :
    Except SettingsFault (Option SpelledTree) :=
  match valueOf? given field with
  | none => .ok none
  | some text =>
      match readSpelled levels text with
      | .ok tree => .ok (some tree)
      | .error (.tooDeep _) => .error .tooDeep
      | .error _ => .error (.notJson field)

/-- The extensions that a variable gives. -/
def extensions (field : String) (unchanged : List Text) :
    Option SpelledTree → Except (List FieldFault) (List Text)
  | none => .ok unchanged
  | some tree => extensionsOfTree field unchanged tree

/-! ## Integers -/

/-- A text without one plus sign in front. -/
def dropPlus : List Char → List Char
  | '+' :: cs => if cs.head? = some '-' then '+' :: cs else cs
  | cs => cs

/-- Digits without the zeros in front, the last of which stays if no other digit follows; among
the zeros there may be underscores. -/
def dropZeros : List Char → List Char
  | '0' :: cs =>
      let zeros := cs.takeWhile fun c => c = '0' || c = '_'
      match cs.drop zeros.length with
      | [] => [zeros.getLastD '0']
      | '.' :: rest => zeros.getLastD '0' :: '.' :: rest
      | rest => rest
  | cs => cs

/-- A number without a fraction of zeros, of which there is at least one. -/
def dropFraction (cs : List Char) : List Char :=
  let whole := cs.takeWhile (· ≠ '.')
  match cs.drop whole.length with
  | '.' :: '0' :: zeros => if zeros.all (· = '0') then whole else cs
  | _ => cs

/-- The integer that plain digits spell, of which the first is no superfluous zero, with at most a
minus sign in front. Too many digits are told even if something else follows them. -/
def integerOfPlain (text : List Char) : Except FieldCause Int :=
  let negative := text.head? = some '-'
  let unsigned := if negative then text.drop 1 else text
  let digits := unsigned.takeWhile isDigit
  let leadingZero := digits.head? = some '0'
  if ¬leadingZero ∧ digits.length > integerDigitLimit then .error .hugeInteger
  else if digits = [] ∨ digits ≠ unsigned ∨ leadingZero ∧ digits.length > 1 then
    .error .notInteger
  else
    let magnitude : Nat := digitsValue digits
    .ok (if negative then -magnitude else magnitude)

/-- A number without the zeros in front, the fraction of zeros and the underscores in it. -/
def plainNumber (cs : List Char) : List Char := dropUnderscores (dropFraction (dropZeros cs))

/-- The plain spelling of an integer: without the blanks around it and a plus sign. -/
def plainSpelling (text : List Char) : List Char :=
  match dropPlus (trimmed isSurroundingBlank text) with
  | '-' :: cs => '-' :: plainNumber cs
  | cs => plainNumber cs

/-- The integer that a text spells: there may be blanks around it, a sign, zeros in front, single
underscores between digits, and a fraction of zeros. Only a text that is plain as it stands can have
too many digits. -/
def integerOfText (text : List Char) : Except FieldCause Int :=
  match integerOfPlain text with
  | .error .notInteger => (integerOfPlain (plainSpelling text)).mapError fun _ => .notInteger
  | result => result

/-- The number of workers that a variable gives, at least one. -/
def workersOf (unchanged : Int) : Option (List Char) → Except (List FieldFault) Int
  | none => .ok unchanged
  | some text =>
      match integerOfText text with
      | .error cause => .error [⟨"workers", none, cause⟩]
      | .ok n => if n < 1 then .error [⟨"workers", none, .tooSmall⟩] else .ok n

/-! ## All settings -/

/-- The faults of a setting. -/
def faultsOf {α : Type} : Except (List FieldFault) α → List FieldFault
  | .ok _ => []
  | .error faults => faults

/-- The settings that variables give, in which containers may be nested `levels` deep; those without
a variable have their defaults. -/
def ofVariables (levels : Nat) (given : List (List Char × List Char)) :
    Except SettingsFault Settings := do
  let defaults : Settings := {}
  let scriptTree ← readVariable levels given "script_extensions"
  let markupTree ← readVariable levels given "markup_extensions"
  let script := extensions "script_extensions" defaults.scriptExtensions scriptTree
  let markup := extensions "markup_extensions" defaults.markupExtensions markupTree
  let workers := workersOf defaults.workers (valueOf? given "workers")
  match script, markup, workers with
  | .ok script, .ok markup, .ok workers =>
      return {
        marker := (valueOf? given "marker").getD defaults.marker
        scriptExtensions := script
        markupExtensions := markup
        category := (valueOf? given "registry_category").getD defaults.category
        workers := workers }
  | _, _, _ => throw (.invalid (faultsOf script ++ faultsOf markup ++ faultsOf workers))

end Settings

end ComponentMarkup
