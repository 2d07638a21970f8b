import ComponentMarkup.Compiler
import ComponentMarkup.Proofs.Component.Order
import ComponentMarkup.Proofs.Except
import Mathlib.Data.List.Forall2

/-!
# The schema

Which trees are components, and of which definitions (`Conforms`), apart from any check. A markup is
accepted if its tree conforms to the schema, and has the definition that this one gives it; of any
other markup, the first broken rule is reported (`Markup.check_spec`).
-/

namespace ComponentMarkup

/-! ## What the schema asks for -/

/-- A member that is a string. -/
def HasString (data : LocatedTree) (key : String) (t : Text) : Prop :=
  ∃ place, data.find? (Text.ofString key) = some (.leaf place (.string t))

/-- A number and the double nearest to it, if it is in range. -/
inductive Converts : LocatedTree → Double → Prop where
  | float {place d} : Converts (.leaf place (.float d)) d
  | integer {place n d} (h : Double.ofInt? n = some d) : Converts (.leaf place (.integer n)) d

/-- What may be given as the default of a property, and what it is. If nothing is given, it is the
zero of the type. -/
inductive FitsType : PropertyType → Option LocatedTree → PropertyValue → Prop where
  | emptyString : FitsType .string none (.string [])
  | zero : FitsType .float none (.float .zero)
  | origin : FitsType .vector3 none (.vector3 .zero .zero .zero)
  | string {place t} : FitsType .string (some (.leaf place (.string t))) (.string t)
  | number {token d} (h : Converts token d) : FitsType .float (some token) (.float d)
  | vector3 {place x y z a b c} (hx : Converts x a) (hy : Converts y b) (hz : Converts z c) :
      FitsType .vector3 (some (.array place [x, y, z])) (.vector3 a b c)

/-- An element of the properties, and the property that it defines. -/
structure ConformsProperty (item : LocatedTree) (p : Property) : Prop where
  isObject : item.isObject = true
  name : HasString item "name" p.name
  type : ∃ word, HasString item "type" word ∧ IsChoice word p.type
  default : FitsType p.type (item.find? (Text.ofString "default")) p.default

/-- What may be given as the properties of a component, and what they are. -/
inductive ConformsProperties : Option LocatedTree → List Property → Prop where
  | absent : ConformsProperties none []
  | array {place items ps} (h : List.Forall₂ ConformsProperty items ps) :
      ConformsProperties (some (.array place items)) ps

/-- A tree that is a component, and its definition. The name of the class is that of the component
only if there is no other one, not even an empty one. -/
structure Conforms (data : LocatedTree) (d : Definition) : Prop where
  className : HasString data "class" d.className
  componentName : HasString data "component" d.componentName ∨
    data.find? (Text.ofString "component") = none ∧ d.componentName = d.className
  importPath : HasString data "import-file" d.importPath
  properties : ConformsProperties (data.find? (Text.ofString "properties")) d.properties

/-! ## What the checks accept -/

theorem checkString_eq_ok_iff {rule : SchemaRule} {token : LocatedTree} {t : Text} :
    checkString rule token = .ok t ↔ ∃ place, token = .leaf place (.string t) := by
  unfold checkString
  split
  · next place t' => simp
  · next hne =>
    refine iff_of_false (fun h => nomatch h) ?_
    rintro ⟨place, rfl⟩
    exact hne place t rfl

theorem requireString_eq_ok_iff {data : LocatedTree} {key : String} {present isString : SchemaRule}
    {t : Text} :
    requireString data (Text.ofString key) present isString = .ok t ↔ HasString data key t := by
  unfold requireString HasString
  cases data.find? (Text.ofString key) with
  | none => simp
  | some token => simp [checkString_eq_ok_iff]

theorem nameOrClass_eq_ok_iff {data : LocatedTree} {className t : Text} :
    nameOrClass data className = .ok t ↔ HasString data "component" t ∨
      data.find? (Text.ofString "component") = none ∧ t = className := by
  unfold nameOrClass HasString componentKey
  cases data.find? (Text.ofString "component") with
  | none => simp [eq_comm]
  | some token => simp [checkString_eq_ok_iff]

theorem double?_eq_some_iff {token : LocatedTree} {d : Double} :
    double? token = some d ↔ Converts token d := by
  constructor
  · intro h
    unfold double? at h
    split at h
    · exact .integer h
    · obtain rfl := Option.some.inj h
      exact .float
    · cases h
  · intro h
    cases h with
    | float => rfl
    | integer h => exact h

theorem Converts.isNumber {token : LocatedTree} {d : Double} (h : Converts token d) :
    isNumber token = true := by
  cases h <;> rfl

theorem coerceVector3_eq_ok_iff {token : LocatedTree} {value : PropertyValue} :
    coerceVector3 token = .ok value ↔ FitsType .vector3 (some token) value := by
  constructor
  · intro h
    unfold coerceVector3 at h
    split at h
    · -- the checks in their order: an array of three, all numbers, all in range
      split at h
      · cases h
      · split at h
        · next hx hy hz =>
          obtain rfl := Except.ok.inj h
          exact .vector3 (double?_eq_some_iff.1 hx) (double?_eq_some_iff.1 hy)
            (double?_eq_some_iff.1 hz)
        · cases h
    · cases h
  · intro h
    cases h with
    | @vector3 place x y z a b c hx hy hz =>
        -- three fitting numbers pass the first check, as none of them fails to be a number
        have hnone : [x, y, z].find? (fun t => !isNumber t) = none := by
          simp [hx.isNumber, hy.isNumber, hz.isNumber]
        simp only [coerceVector3, hnone, double?_eq_some_iff.2 hx, double?_eq_some_iff.2 hy,
          double?_eq_some_iff.2 hz]

theorem coerce_string_eq_ok_iff {token : LocatedTree} {value : PropertyValue} :
    PropertyType.string.coerce token = .ok value ↔ FitsType .string (some token) value := by
  unfold PropertyType.coerce
  dsimp only
  split
  · next place t =>
    rw [Except.ok.injEq]
    constructor
    · rintro rfl
      exact .string
    · intro h
      cases h
      rfl
  · next hne =>
    -- anything but a string leaf is refused, and no string fits it
    refine iff_of_false (by simp) fun h => ?_
    cases h with
    | @string place t => exact hne place t rfl

theorem coerce_float_eq_ok_iff {token : LocatedTree} {value : PropertyValue} :
    PropertyType.float.coerce token = .ok value ↔ FitsType .float (some token) value := by
  unfold PropertyType.coerce
  dsimp only
  split
  · next d hdouble =>
    rw [Except.ok.injEq]
    constructor
    · rintro rfl
      exact .number (double?_eq_some_iff.1 hdouble)
    · intro h
      cases h with
      | number h => rw [Option.some.inj (hdouble.symm.trans (double?_eq_some_iff.2 h))]
  · -- out of range or no number at all: no double fits
    next hdouble =>
    refine iff_of_false (by simp) fun h => ?_
    cases h with
    | number h => cases hdouble.symm.trans (double?_eq_some_iff.2 h)

/-- The default of a property, given or not. -/
theorem resolveDefault_eq_ok_iff {word : Text} {type : PropertyType} {given : Option LocatedTree}
    {value : PropertyValue} (htype : IsChoice word type) :
    type.resolveDefault given = .ok value ↔ FitsType type given value := by
  cases given with
  | none =>
      cases htype with
      | string | number | vector3 =>
          -- the zero of the type, by the one constructor for a default that is not given
          constructor
          · intro h
            obtain rfl := Except.ok.inj h
            constructor
          · intro h
            cases h
            rfl
  | some token =>
      cases htype with
      | string => exact coerce_string_eq_ok_iff
      | number => exact coerce_float_eq_ok_iff
      | vector3 => exact coerceVector3_eq_ok_iff

theorem requireObject_eq_ok_iff {item : LocatedTree} {u : Unit} :
    requireObject item = .ok u ↔ item.isObject = true := by
  unfold requireObject
  split
  · next h => exact iff_of_true rfl h
  · next h => exact iff_of_false (fun heq => nomatch heq) h

theorem checkProperty_eq_ok_iff {item : LocatedTree} {p : Property} :
    checkProperty item = .ok p ↔ ConformsProperty item p := by
  rw [checkProperty_eq]
  simp only [Except.bind_eq_ok_iff]
  constructor
  · rintro ⟨_, hobject, name, hname, type, htype, value, hvalue, heq⟩
    obtain rfl := Except.ok.inj heq
    rcases chosenType_eq_ok_iff.1 htype with ⟨place, word, hword, hchoice⟩
    exact ⟨requireObject_eq_ok_iff.1 hobject, requireString_eq_ok_iff.1 hname,
      ⟨word, ⟨place, hword⟩, hchoice⟩, (resolveDefault_eq_ok_iff hchoice).1 hvalue⟩
  · rintro ⟨hobject, hname, ⟨word, ⟨place, hword⟩, hchoice⟩, hdefault⟩
    exact ⟨(), requireObject_eq_ok_iff.2 hobject, p.name, requireString_eq_ok_iff.2 hname, p.type,
      chosenType_eq_ok_iff.2 ⟨place, word, hword, hchoice⟩, p.default,
      (resolveDefault_eq_ok_iff hchoice).2 hdefault, rfl⟩

/-- A traversal succeeds if it does so on every element. -/
theorem mapM_eq_ok_iff {α β ε : Type} {f : α → Except ε β} {xs : List α} {ys : List β} :
    xs.mapM f = .ok ys ↔ List.Forall₂ (fun x y => f x = .ok y) xs ys := by
  induction xs generalizing ys with
  | nil => simp [pure, Except.pure, eq_comm]
  | cons x xs ih =>
      simp only [List.mapM_cons, Except.bind_eq_ok_iff, ih, List.forall₂_cons_left_iff]
      simp [pure, Except.pure, eq_comm]

theorem checkProperties_eq_ok_iff {given : Option LocatedTree} {ps : List Property} :
    checkProperties given = .ok ps ↔ ConformsProperties given ps := by
  constructor
  · intro h
    unfold checkProperties at h
    split at h
    · -- item by item, since `mapM` succeeds exactly when every item does
      have hall := mapM_eq_ok_iff.1 h
      exact .array (hall.imp fun item p => checkProperty_eq_ok_iff.1)
    · cases h
    · obtain rfl := Except.ok.inj h
      exact .absent
  · intro h
    cases h with
    | absent => rfl
    | array hall =>
        have h := hall.imp fun item p => checkProperty_eq_ok_iff.2
        exact mapM_eq_ok_iff.2 h

/-- A tree is accepted if it conforms to the schema. -/
theorem checkComponent_eq_ok_iff {data : LocatedTree} {d : Definition} :
    checkComponent data = .ok d ↔ Conforms data d := by
  rw [checkComponent_eq]
  simp only [Except.bind_eq_ok_iff]
  constructor
  · rintro ⟨className, hclass, name, hname, path, hpath, ps, hps, heq⟩
    obtain rfl := Except.ok.inj heq
    exact ⟨requireString_eq_ok_iff.1 hclass, nameOrClass_eq_ok_iff.1 hname,
      requireString_eq_ok_iff.1 hpath, checkProperties_eq_ok_iff.1 hps⟩
  · rintro ⟨hclass, hname, hpath, hps⟩
    exact ⟨d.className, requireString_eq_ok_iff.2 hclass, d.componentName,
      nameOrClass_eq_ok_iff.2 hname, d.importPath, requireString_eq_ok_iff.2 hpath, d.properties,
      checkProperties_eq_ok_iff.2 hps, rfl⟩

/-- A markup is accepted if its tree conforms to the schema. -/
theorem Markup.check_eq_ok_iff {m : Markup} {d : Definition} :
    m.check = .ok d ↔ Conforms m.root d := by
  rw [Markup.check, Except.mapError_eq_ok_iff, checkComponent_eq_ok_iff]

/-- A markup is refused with the violation that comes first. -/
theorem Markup.check_eq_error_iff {m : Markup} {p : Problem} :
    m.check = .error p ↔ ∃ n rule node, Breaks m.root n rule node ∧
      (∀ n' rule' node', Breaks m.root n' rule' node' → n ≤ n') ∧
      p = ⟨rule.message.toList, m.path, node.mark⟩ := by
  rw [Markup.check, Except.mapError_eq_error_iff]
  constructor
  · rintro ⟨v, hv, rfl⟩
    rcases (checkComponent_judges m.root).eq_error_iff.1 hv with
      ⟨n, rule, node, hbad, hfirst, rfl⟩
    exact ⟨n, rule, node, hbad, hfirst, rfl⟩
  · rintro ⟨n, rule, node, hbad, hfirst, rfl⟩
    have hv := (checkComponent_judges m.root).eq_error_iff.2 ⟨n, rule, node, hbad, hfirst, rfl⟩
    exact ⟨_, hv, rfl⟩

/-- A markup that breaks a rule is refused, and with this rule if it is the first. -/
theorem Markup.check_of_breaks {m : Markup} {k : Nat} {rule : SchemaRule} {node : LocatedTree}
    (h : Breaks m.root k rule node) :
    (∀ d, m.check ≠ .ok d) ∧
      ((∀ k' rule' node', Breaks m.root k' rule' node' → k ≤ k') →
        m.check = .error ⟨rule.message.toList, m.path, node.mark⟩) := by
  constructor
  · intro d hd
    have hjudges := checkComponent_judges m.root
    rw [Markup.check, Except.mapError_eq_ok_iff] at hd
    rw [hd] at hjudges
    exact hjudges k rule node (Nat.zero_le k) h
  · intro hfirst
    exact Markup.check_eq_error_iff.2 ⟨k, rule, node, h, hfirst, rfl⟩

/-- A markup is accepted, with a definition, if its tree conforms to the schema and has this
definition. It is refused with the violation that comes first in the order of the rules. -/
theorem Markup.check_spec (m : Markup) :
    (∀ d, m.check = .ok d ↔ Conforms m.root d) ∧
      ∀ p, m.check = .error p ↔ ∃ n rule node, Breaks m.root n rule node ∧
        (∀ n' rule' node', Breaks m.root n' rule' node' → n ≤ n') ∧
        p = ⟨rule.message.toList, m.path, node.mark⟩ := by
  constructor
  · intro d
    exact check_eq_ok_iff
  · intro p
    exact check_eq_error_iff

end ComponentMarkup
