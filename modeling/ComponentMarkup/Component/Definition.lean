import ComponentMarkup.Json.Tree
import ComponentMarkup.Text.Quoted

/-!
# Component definitions

A component has a class, a name, a path to import it from and typed properties with defaults.
-/

namespace ComponentMarkup

/-! ## Property types -/

/-- The types of properties. Authors can choose among strings, doubles and vectors. -/
inductive PropertyType where
  | none
  | string
  | int
  | float
  | boolean
  | vector3
  | quaternion
  | asset
  deriving DecidableEq, Repr

namespace PropertyType

/-- The name of a property type in a catalog. -/
def name : PropertyType → String
  | none => "none"
  | string => "string"
  | int => "int"
  | float => "float"
  | boolean => "boolean"
  | vector3 => "vector3"
  | quaternion => "quaternion"
  | asset => "asset"

/-- The names by which authors choose a property type. -/
def authorNames : List (String × PropertyType) :=
  [("string", string), ("number", float), ("vector3", vector3)]

/-- The property type that an author chooses by a name. -/
def ofAuthorName? (name : Text) : Option PropertyType :=
  (authorNames.find? fun n => Text.ofString n.1 = name).map Prod.snd

end PropertyType

/-! ## Property values -/

/-- An identifier of 128 bits. -/
abbrev Uuid := Fin 0x100000000000000000000000000000000

namespace Uuid

/-- The lengths of the groups of digits of an identifier. -/
def groups : List Nat := [8, 4, 4, 4, 12]

/-- Digits cut into groups of the given lengths. -/
def cutGroups : List Nat → List Char → List (List Char)
  | [], _ => []
  | n :: ns, digits => digits.take n :: cutGroups ns (digits.drop n)

/-- The text of an identifier: lower-case hexadecimal digits in groups. -/
def text (id : Uuid) : List Char :=
  ['-'].intercalate (cutGroups groups (paddedHex 32 id.val))

end Uuid

/-- The default of a property. -/
inductive PropertyValue where
  | none
  | string (value : Text)
  | int (value : Int)
  | float (value : Double)
  | boolean (value : Bool)
  | vector3 (x y z : Double)
  | quaternion (x y z w : Double)
  | asset (id : Uuid)
  deriving DecidableEq

namespace PropertyValue

/-- A value as JSON: vectors and quaternions are arrays, an identifier is its text. -/
def toValue : PropertyValue → Value
  | none => .leaf () .null
  | string t => .leaf () (.string t)
  | int n => .leaf () (.integer n)
  | float d => .leaf () (.float d)
  | boolean b => .leaf () (.bool b)
  | vector3 x y z => .array () ([x, y, z].map fun d => .leaf () (.float d))
  | quaternion x y z w => .array () ([x, y, z, w].map fun d => .leaf () (.float d))
  | asset id => .leaf () (.string (Text.ofChars id.text))

end PropertyValue

/-! ## Definitions -/

/-- A property: its name, its type and its default. -/
structure Property where
  name : Text
  type : PropertyType
  default : PropertyValue
  deriving DecidableEq

/-- The definition of a component; its properties are in the order of their declaration. -/
structure Definition where
  className : Text
  componentName : Text
  importPath : Text
  properties : List Property
  deriving DecidableEq

/-- A JSON string. -/
def stringValue (t : Text) : Value := .leaf () (.string t)

/-- A JSON object with the given members. -/
def objectValue (members : List (String × Value)) : Value :=
  .object () (members.map fun m => (Text.ofString m.1, m.2))

/-- A property as JSON. -/
def Property.toValue (p : Property) : Value :=
  objectValue
    [("name", stringValue p.name), ("type", stringValue (Text.ofString p.type.name)),
      ("default", p.default.toValue)]

/-- A definition as JSON. -/
def Definition.toValue (d : Definition) : Value :=
  objectValue
    [("class", stringValue d.className), ("component", stringValue d.componentName),
      ("import-file", stringValue d.importPath),
      ("properties", .array () (d.properties.map Property.toValue))]

end ComponentMarkup
