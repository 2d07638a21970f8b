import ComponentMarkup.Component.Definition
import ComponentMarkup.Json.Decode
import ComponentMarkup.Problem

/-!
# The component schema

A decoded tree is a component if it follows the rules of the schema. They are checked in a fixed
order, and the first one that is broken is reported with the place of the value that breaks it, or
of the object in which a value is missing.
-/

namespace ComponentMarkup

/-- The rules of the schema, each by what it asks for. -/
inductive SchemaRule where
  | classPresent
  | classString
  | componentString
  | importFilePresent
  | importFileString
  | propertiesArray
  | propertyObject
  | propertyNamePresent
  | propertyNameString
  | propertyTypePresent
  | propertyTypeString
  | propertyTypeOption
  | defaultString
  | defaultInt
  | defaultNumber
  | defaultBool
  | defaultVector3
  deriving DecidableEq, Repr

/-- The message about a broken rule. -/
def SchemaRule.message : SchemaRule → String
  | classPresent =>
      "A component has to have a class, that contains the name of the component class"
  | classString => "Class has to be a string, that contains the class name of the component"
  | componentString => "Component has to be a string, that contains the component name"
  | importFilePresent =>
      "A component in a .dcecomp file has to have a import-file property, that contains " ++
        "the path to the file to import the component from relative to the project root"
  | importFileString =>
      "Import file has to be a string, that contains the path to the file to import " ++
        "the component from relative to the project root"
  | propertiesArray => "Properties has to be an array of property definitions"
  | propertyObject => "A property has to be an object, that contains a name and a type"
  | propertyNamePresent => "The property has to have a name"
  | propertyNameString => "The property name has to be a string"
  | propertyTypePresent => "The property has to have a type"
  | propertyTypeString => "The property type has to be a string"
  | propertyTypeOption =>
      "Type has to be one of the following values: \"string\", \"number\", \"vector3\""
  | defaultString => "The default of a property of type string has to be a string"
  | defaultInt => "The default of a property of type int has to be an number"
  | defaultNumber => "The default of a property of type number has to be a number"
  | defaultBool => "The default of a property of type bool has to be a bool"
  | defaultVector3 =>
      "The default of a property of type vector3 has to be an array of three numbers"

/-- A broken rule and the place of what breaks it. -/
structure Violation where
  rule : SchemaRule
  place : Place
  deriving DecidableEq

/-- A violation as a problem of a file. -/
def Violation.problem (path : List Char) (v : Violation) : Problem :=
  ⟨v.rule.message.toList, path, v.place⟩

/-! ## Defaults -/

/-- The default of a property whose author gives none. -/
def PropertyType.zero : PropertyType → PropertyValue
  | none => .none
  | string => .string []
  | int => .int 0
  | float => .float .zero
  | boolean => .boolean false
  | vector3 => .vector3 .zero .zero .zero
  | quaternion => .quaternion .zero .zero .zero .one
  | asset => .asset ⟨0, by decide⟩

/-- Is a value a number? -/
def isNumber : LocatedTree → Bool
  | .leaf _ (.integer _) => true
  | .leaf _ (.float _) => true
  | _ => false

/-- The double nearest to a number, unless this is past the greatest one. -/
def double? : LocatedTree → Option Double
  | .leaf _ (.integer n) => Double.ofInt? n
  | .leaf _ (.float d) => some d
  | _ => none

/-- The integer part of a finite number. -/
def integer? : LocatedTree → Option Int
  | .leaf _ (.integer n) => some n
  | .leaf _ (.float d) => d.toInt?
  | _ => none

/-- Reads three numbers as a vector. The first element that is no number is to blame; a number out
of range is blamed on the array. -/
def coerceVector3 (token : LocatedTree) : Except Violation PropertyValue :=
  match token with
  | .array place [x, y, z] =>
      match [x, y, z].find? fun t => !isNumber t with
      | some t => .error ⟨.defaultVector3, t.mark⟩
      | none =>
          match double? x, double? y, double? z with
          | some x, some y, some z => .ok (.vector3 x y z)
          | _, _, _ => .error ⟨.defaultVector3, place⟩
  | t => .error ⟨.defaultVector3, t.mark⟩

/-- Reads an author's default as a value of a type. Authors cannot choose quaternions and assets,
whose defaults do not depend on what is given. -/
def PropertyType.coerce (type : PropertyType) (token : LocatedTree) :
    Except Violation PropertyValue :=
  match type with
  | none => .ok .none
  | string =>
      match token with
      | .leaf _ (.string t) => .ok (.string t)
      | t => .error ⟨.defaultString, t.mark⟩
  | int =>
      match integer? token with
      | some n => .ok (.int n)
      | .none => .error ⟨.defaultInt, token.mark⟩
  | float =>
      match double? token with
      | some d => .ok (.float d)
      | .none => .error ⟨.defaultNumber, token.mark⟩
  | boolean =>
      match token with
      | .leaf _ (.bool b) => .ok (.boolean b)
      | t => .error ⟨.defaultBool, t.mark⟩
  | vector3 => coerceVector3 token
  | quaternion => .ok quaternion.zero
  | asset => .ok asset.zero

/-- The author's default if there is one, the type's own otherwise. -/
def PropertyType.resolveDefault (type : PropertyType) :
    Option LocatedTree → Except Violation PropertyValue
  | some token => type.coerce token
  | .none => .ok type.zero

/-! ## Components -/

/-- The member `class` of a component. -/
def classKey : Text := Text.ofString "class"

/-- The member `component` of a component. -/
def componentKey : Text := Text.ofString "component"

/-- The member `import-file` of a component. -/
def importFileKey : Text := Text.ofString "import-file"

/-- The member `properties` of a component. -/
def propertiesKey : Text := Text.ofString "properties"

/-- The member `name` of a property. -/
def nameKey : Text := Text.ofString "name"

/-- The member `type` of a property. -/
def typeKey : Text := Text.ofString "type"

/-- The member `default` of a property. -/
def defaultKey : Text := Text.ofString "default"

/-- A string, or the violation of the rule that asks for one. -/
def checkString (rule : SchemaRule) : LocatedTree → Except Violation Text
  | .leaf _ (.string t) => .ok t
  | token => .error ⟨rule, token.mark⟩

/-- A member that has to be there and to be a string. -/
def requireString (data : LocatedTree) (key : Text) (present isString : SchemaRule) :
    Except Violation Text :=
  match data.find? key with
  | some token => checkString isString token
  | none => .error ⟨present, data.mark⟩

/-- The type that an author chooses. -/
def checkType (token : LocatedTree) : Except Violation PropertyType := do
  let name ← checkString .propertyTypeString token
  match PropertyType.ofAuthorName? name with
  | some type => .ok type
  | none => .error ⟨.propertyTypeOption, token.mark⟩

/-- An element of the properties of a component. -/
def checkProperty (data : LocatedTree) : Except Violation Property :=
  if data.isObject then do
    let name ← requireString data nameKey .propertyNamePresent .propertyNameString
    let type ←
      match data.find? typeKey with
      | some token => checkType token
      | none => .error ⟨.propertyTypePresent, data.mark⟩
    let value ← type.resolveDefault (data.find? defaultKey)
    return ⟨name, type, value⟩
  else .error ⟨.propertyObject, data.mark⟩

/-- The properties of a component, up to the first that breaks a rule. -/
def checkProperties : Option LocatedTree → Except Violation (List Property)
  | some (.array _ items) => items.mapM checkProperty
  | some token => .error ⟨.propertiesArray, token.mark⟩
  | none => .ok []

/-- The component that a tree defines, or the first rule that it breaks. -/
def checkComponent (data : LocatedTree) : Except Violation Definition := do
  let className ← requireString data classKey .classPresent .classString
  let componentName ←
    match data.find? componentKey with
    | some token => checkString .componentString token
    | none => .ok className
  let importPath ← requireString data importFileKey .importFilePresent .importFileString
  let properties ← checkProperties (data.find? propertiesKey)
  return ⟨className, componentName, importPath, properties⟩

end ComponentMarkup
