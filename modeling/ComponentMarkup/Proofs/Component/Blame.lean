import ComponentMarkup.Component.Schema
import ComponentMarkup.Proofs.Json.Subtree

/-!
# Who is to blame

Which node of a tree breaks which rule of the schema, as relations that know nothing of the order
in which rules are checked. A node to blame is the tree itself or a node within it
(`Blames.subtree`).
-/

namespace ComponentMarkup

open ComponentMarkup.Tree (Subtree)

/-! ## Rules and nodes -/

/-- Is a value a string? -/
def IsString (token : LocatedTree) : Prop := ∃ place t, token = .leaf place (.string t)

/-- An object without a member that has to be a string is to blame, or else a member that is no
string. -/
inductive BlamesString (data : LocatedTree) (key : Text) (present isString : SchemaRule) :
    SchemaRule → LocatedTree → Prop where
  | missing (h : data.find? key = none) : BlamesString data key present isString present data
  | noString {token : LocatedTree} (h : data.find? key = some token) (hs : ¬ IsString token) :
      BlamesString data key present isString isString token

/-- A default is to blame if it is none of its type; of a vector, an element that is no number. -/
inductive BlamesDefault : PropertyType → LocatedTree → SchemaRule → LocatedTree → Prop where
  | string {token : LocatedTree} (h : ¬ IsString token) :
      BlamesDefault .string token .defaultString token
  | number {token : LocatedTree} (h : double? token = none) :
      BlamesDefault .float token .defaultNumber token
  | notThree {token : LocatedTree} (h : ∀ place x y z, token ≠ .array place [x, y, z]) :
      BlamesDefault .vector3 token .defaultVector3 token
  | element {place : Place} {x y z t : LocatedTree} (ht : t ∈ [x, y, z])
      (h : isNumber t = false) :
      BlamesDefault .vector3 (.array place [x, y, z]) .defaultVector3 t
  | outOfRange {place : Place} {x y z t : LocatedTree} (ht : t ∈ [x, y, z])
      (h : double? t = none) (hall : ∀ u ∈ [x, y, z], isNumber u = true) :
      BlamesDefault .vector3 (.array place [x, y, z]) .defaultVector3 (.array place [x, y, z])

/-- What breaks a rule for an element of the properties. -/
inductive BlamesProperty (item : LocatedTree) : SchemaRule → LocatedTree → Prop where
  | notObject (h : item.isObject = false) : BlamesProperty item .propertyObject item
  | name {rule : SchemaRule} {node : LocatedTree}
      (h : BlamesString item nameKey .propertyNamePresent .propertyNameString rule node) :
      BlamesProperty item rule node
  | type {rule : SchemaRule} {node : LocatedTree}
      (h : BlamesString item typeKey .propertyTypePresent .propertyTypeString rule node) :
      BlamesProperty item rule node
  | noOption {place : Place} {name : Text}
      (h : item.find? typeKey = some (.leaf place (.string name)))
      (hname : PropertyType.ofAuthorName? name = none) :
      BlamesProperty item .propertyTypeOption (.leaf place (.string name))
  | default {place : Place} {name : Text} {type : PropertyType} {token node : LocatedTree}
      {rule : SchemaRule} (h : item.find? typeKey = some (.leaf place (.string name)))
      (htype : PropertyType.ofAuthorName? name = some type)
      (hdefault : item.find? defaultKey = some token) (hnode : BlamesDefault type token rule node) :
      BlamesProperty item rule node

/-- What breaks a rule for a component. -/
inductive Blames (data : LocatedTree) : SchemaRule → LocatedTree → Prop where
  | className {rule : SchemaRule} {node : LocatedTree}
      (h : BlamesString data classKey .classPresent .classString rule node) : Blames data rule node
  | componentName {token : LocatedTree} (h : data.find? componentKey = some token)
      (hs : ¬ IsString token) : Blames data .componentString token
  | importFile {rule : SchemaRule} {node : LocatedTree}
      (h : BlamesString data importFileKey .importFilePresent .importFileString rule node) :
      Blames data rule node
  | properties {token : LocatedTree} (h : data.find? propertiesKey = some token)
      (harray : token.isArray = false) : Blames data .propertiesArray token
  | property {place : Place} {items : List LocatedTree} {item node : LocatedTree}
      {rule : SchemaRule} (h : data.find? propertiesKey = some (.array place items))
      (hitem : item ∈ items) (hnode : BlamesProperty item rule node) : Blames data rule node

/-- A violation that reports a node to blame, by its place. -/
def Violation.Reports (v : Violation) (blames : SchemaRule → LocatedTree → Prop) : Prop :=
  ∃ node, blames v.rule node ∧ v.place = node.mark

theorem Violation.Reports.imp {v : Violation} {p q : SchemaRule → LocatedTree → Prop}
    (h : v.Reports p) (hpq : ∀ rule node, p rule node → q rule node) : v.Reports q := by
  rcases h with ⟨node, hnode, hplace⟩
  exact ⟨node, hpq _ _ hnode, hplace⟩

theorem blamesString_iff_of_absent {data node : LocatedTree} {key : Text}
    {present isString rule : SchemaRule} (h : data.find? key = none) :
    BlamesString data key present isString rule node ↔ rule = present ∧ node = data := by
  constructor
  · intro hblames
    cases hblames with
    | missing => exact ⟨rfl, rfl⟩
    | noString htoken => cases h.symm.trans htoken
  · rintro ⟨rfl, rfl⟩
    exact .missing h

theorem blamesString_iff_of_present {data token node : LocatedTree} {key : Text}
    {present isString rule : SchemaRule} (h : data.find? key = some token) :
    BlamesString data key present isString rule node ↔
      ¬ IsString token ∧ rule = isString ∧ node = token := by
  constructor
  · intro hblames
    cases hblames with
    | missing hnone => cases h.symm.trans hnone
    | noString htoken hs =>
        obtain rfl := Option.some.inj (h.symm.trans htoken)
        exact ⟨hs, rfl, rfl⟩
  · rintro ⟨hs, rfl, rfl⟩
    exact .noString h hs

/-! ## Nodes to blame stand in the tree -/

theorem BlamesString.subtree {data node : LocatedTree} {key : Text}
    {present isString rule : SchemaRule} (h : BlamesString data key present isString rule node) :
    Subtree node data := by
  cases h with
  | missing => exact .self
  | noString htoken => exact .of_find? htoken

theorem BlamesDefault.subtree {type : PropertyType} {token node : LocatedTree} {rule : SchemaRule}
    (h : BlamesDefault type token rule node) : Subtree node token := by
  cases h with
  | string | number | notThree | outOfRange => exact .self
  | element ht => exact .item ht .self

theorem BlamesProperty.subtree {item node : LocatedTree} {rule : SchemaRule}
    (h : BlamesProperty item rule node) : Subtree node item := by
  cases h with
  | notObject => exact .self
  | name h | type h => exact h.subtree
  | noOption htoken => exact .of_find? htoken
  | default _ _ hdefault hnode => exact hnode.subtree.trans (.of_find? hdefault)

/-- A node to blame is one of the tree. -/
theorem Blames.subtree {data node : LocatedTree} {rule : SchemaRule} (h : Blames data rule node) :
    Subtree node data := by
  cases h with
  | className h | importFile h => exact h.subtree
  | componentName htoken | properties htoken => exact .of_find? htoken
  | @property place items item node rule hitems hitem hnode =>
      have harray : Subtree (.array place items) data := .of_find? hitems
      have hinside : Subtree item (.array place items) := .item hitem .self
      exact hnode.subtree.trans (hinside.trans harray)

end ComponentMarkup
