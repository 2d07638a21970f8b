import ComponentMarkup.Proofs.Project

/-!
# Finite numbers

Two ways lead from a number of the author to a double of the catalog. An integer comes to the checks
of the schema as it is, and they refuse it out of range (`GivesDefault.check_of_isOutOfRange`). A
number with a fraction or an exponent is a double before it comes to them: out of range it is
infinite, and they accept it. No other infinite double is accepted
(`Source.Accepts.isFinite_or_infinity`), and the catalog is a document of JSON if and only if none
is registered (`doubles_spec`).
-/

namespace ComponentMarkup

/-! ## Doubles of a default -/

/-- A double of a default: the default itself or an element of it. -/
def PropertyValue.HasDouble (value : PropertyValue) (x : Double) : Prop :=
  value.toValue.HasLeaf (.float x)

namespace PropertyValue

variable {x a b c : Double}

theorem not_hasDouble_string {t : Text} : ¬ (string t).HasDouble x := by
  simp [HasDouble, toValue]

theorem hasDouble_float : (float a).HasDouble x ↔ x = a := by
  simp [HasDouble, toValue]

theorem hasDouble_vector3 : (vector3 a b c).HasDouble x ↔ x = a ∨ x = b ∨ x = c := by
  simp [HasDouble, toValue]

end PropertyValue

/-- A converted integer is finite, and any other double was given. -/
theorem Converts.isFinite_or_hasLeaf {token : LocatedTree} {d : Double} (h : Converts token d) :
    d.isFinite = true ∨ token.HasLeaf (.float d) := by
  cases h with
  | float => exact .inr (Tree.hasLeaf_leaf.2 rfl)
  | integer h =>
      unfold Double.ofInt? at h
      dsimp only at h
      split at h
      · obtain rfl := Option.some.inj h
        exact .inl rfl
      · cases h

theorem FitsType.isFinite_or_hasLeaf {type : PropertyType} {given : Option LocatedTree}
    {value : PropertyValue} {x : Double} (h : FitsType type given value) (hx : value.HasDouble x) :
    x.isFinite = true ∨ ∃ token ∈ given, token.HasLeaf (.float x) := by
  -- the only doubles in a value are the fixed ones and those converted from a token
  cases h with
  | emptyString | string => exact absurd hx PropertyValue.not_hasDouble_string
  -- a default that was not given is zero, which is finite
  | zero =>
      rw [PropertyValue.hasDouble_float.1 hx]
      exact .inl rfl
  | origin =>
      rcases PropertyValue.hasDouble_vector3.1 hx with rfl | rfl | rfl
      all_goals exact .inl rfl
  | number h =>
      rw [PropertyValue.hasDouble_float.1 hx]
      rcases h.isFinite_or_hasLeaf with hfinite | hleaf
      · exact .inl hfinite
      · exact .inr ⟨_, rfl, hleaf⟩
  -- each coordinate comes from the element at its position
  | @vector3 place u v w a b c ha hb hc =>
      have helement : ∀ t ∈ [u, v, w], Converts t x →
          x.isFinite = true ∨ ∃ token ∈ some (Tree.array place [u, v, w]),
            token.HasLeaf (.float x) := by
        intro t ht h
        rcases h.isFinite_or_hasLeaf with hfinite | hleaf
        · exact .inl hfinite
        · exact .inr ⟨_, rfl, Tree.hasLeaf_array.2 ⟨t, ht, hleaf⟩⟩
      rcases PropertyValue.hasDouble_vector3.1 hx with rfl | rfl | rfl
      · exact helement u (by simp) ha
      · exact helement v (by simp) hb
      · exact helement w (by simp) hc

/-- A double of a definition that is not finite was given. -/
theorem Conforms.isFinite_or_hasLeaf {data : LocatedTree} {d : Definition} {p : Property}
    {x : Double} (h : Conforms data d) (hp : p ∈ d.properties) (hx : p.default.HasDouble x) :
    x.isFinite = true ∨ data.HasLeaf (.float x) := by
  rcases h.exists_item hp with ⟨item, hitem, hconforms⟩
  rcases hconforms.default.isFinite_or_hasLeaf hx with hfinite | ⟨token, htoken, mark, hsub⟩
  · exact .inl hfinite
  · exact .inr ⟨mark, (hsub.trans (.of_find? htoken)).trans hitem⟩

/-! ## Doubles of a source -/

/-- A number that stands behind a marker of a source. -/
def Source.HasNumeral (scope : Scope) (s : Source) (n : Numeral) : Prop :=
  ∃ offset ∈ s.offsets scope, ∃ tree : SpelledTree,
    readSpelled (levelLimit scope.room) (s.fragmentBehind scope offset) = .ok tree ∧
      tree.HasLeaf (.number n)

/-- A double of a decoded text stands there as a number with a fraction or an exponent. -/
theorem exists_numeral_of_decodeJson {room : Nat} {text : List Char} {root : LocatedTree}
    {x : Double} (h : decodeJson room text = .ok root) (hleaf : root.HasLeaf (.float x)) :
    ∃ (tree : SpelledTree) (n : Numeral), readSpelled (levelLimit room) text = .ok tree ∧
      tree.HasLeaf (.number n) ∧ n.isInteger = false ∧ x = n.toDouble := by
  rcases exists_leaf_of_decodeJson h hleaf with ⟨tree, literal, hread, hliteral, hs⟩
  -- no word is decoded to a double, and an integer stays one
  cases literal with
  | number n =>
      simp only [Literal.scalar?, Numeral.toScalar] at hs
      split at hs
      · cases hs
      · split at hs
        · cases hs
        · next hinteger =>
          cases hs
          exact ⟨tree, n, hread, hliteral, by simpa using hinteger, rfl⟩
  | null | bool | string | infinity | nan => cases hs

/-- A double of a markup stands behind a marker, as a number with a fraction or an exponent. -/
theorem Source.exists_numeral {scope : Scope} {s : Source} {parsed : ParsedSource} {m : Markup}
    {x : Double} (h : s.parse scope = .ok parsed) (hm : m ∈ parsed.markups)
    (hleaf : m.root.HasLeaf (.float x)) :
    ∃ n, s.HasNumeral scope n ∧ n.isInteger = false ∧ x = n.toDouble := by
  rcases exists_leaf_of_mem_markups h hm hleaf with
    ⟨path, heq⟩ | ⟨offset, hoffset, authored, hdecoded, hauthored⟩
  · cases heq
  · rcases exists_numeral_of_decodeJson hdecoded hauthored with
      ⟨tree, n, hread, hliteral, hinteger, hx⟩
    exact ⟨n, ⟨offset, hoffset, tree, hread, hliteral⟩, hinteger, hx⟩

/-- A double that is accepted is finite, or infinite for a number with a fraction or an exponent
that is out of range. -/
theorem Source.Accepts.isFinite_or_infinity {scope : Scope} {s : Source} {d : Definition}
    {p : Property} {x : Double} (h : s.Accepts scope d) (hp : p ∈ d.properties)
    (hx : p.default.HasDouble x) :
    x.isFinite = true ∨ ∃ n, s.HasNumeral scope n ∧ n.isInteger = false ∧
      Double.outOfRange ≤ n.magnitude ∧ x = .infinity n.negative := by
  rcases h with ⟨parsed, m, hparsed, hm, hcheck⟩
  rcases (Markup.check_eq_ok_iff.1 hcheck).isFinite_or_hasLeaf hp hx with hfinite | hleaf
  · exact .inl hfinite
  · rcases exists_numeral hparsed hm hleaf with ⟨n, hn, hinteger, rfl⟩
    have hrounded := n.isRounded_toDouble
    by_cases hfinite : n.toDouble.isFinite = true
    · exact .inl hfinite
    · have hout := hrounded.isFinite_iff.not.1 hfinite
      exact .inr ⟨n, hn, hinteger, not_lt.1 hout, hrounded.eq_infinity hfinite⟩

/-! ## Integers out of range -/

/-- An element of the properties of a component that gives a default of a type. -/
def GivesDefault (data : LocatedTree) (i : Nat) (type : PropertyType) (token : LocatedTree) :
    Prop :=
  ∃ place items item word, data.find? (Text.ofString "properties") = some (.array place items) ∧
    items[i]? = some item ∧ HasString item "type" word ∧ IsChoice word type ∧
    item.find? (Text.ofString "default") = some token

/-- An integer that is out of range, and the rule that it breaks. -/
inductive IsOutOfRange : PropertyType → LocatedTree → SchemaRule → Prop where
  | number {place n} (h : Double.outOfRange ≤ n.natAbs) :
      IsOutOfRange .float (.leaf place (.integer n)) .defaultNumber
  | vector3 {place x y z mark n} (hnumbers : ∀ t ∈ [x, y, z], isNumber t = true)
      (hmem : Tree.leaf mark (.integer n) ∈ [x, y, z]) (h : Double.outOfRange ≤ n.natAbs) :
      IsOutOfRange .vector3 (.array place [x, y, z]) .defaultVector3

theorem IsOutOfRange.breaksDefault {type : PropertyType} {token : LocatedTree} {rule : SchemaRule}
    (h : IsOutOfRange type token rule) : BreaksDefault type token rule token := by
  have hinteger : ∀ {place : Place} {n : Int}, Double.outOfRange ≤ n.natAbs →
      ¬ IsInRange (.leaf place (.integer n)) := by
    intro place n hout hrange
    cases hrange with
    | integer hin => exact absurd hin (Nat.not_lt.2 hout)
  cases h with
  | number h => exact .number (hinteger h)
  | vector3 hnumbers hmem h => exact .outOfRange hnumbers hmem (hinteger h)

/-- An integer out of range is refused. -/
theorem GivesDefault.check_of_isOutOfRange {m : Markup} {i : Nat} {type : PropertyType}
    {token : LocatedTree} {rule : SchemaRule} (h : GivesDefault m.root i type token)
    (hout : IsOutOfRange type token rule) :
    (∀ d, m.check ≠ .ok d) ∧
      ((∀ k rule' node, Breaks m.root k rule' node → 4 * i + 7 ≤ k) →
        m.check = .error ⟨rule.message.toList, m.path, token.mark⟩) := by
  rcases h with ⟨place, items, item, word, hitems, hitem, ⟨typePlace, hword⟩, hchoice, hdefault⟩
  -- the default of an element is the last of its four checks
  have hbreaks := BreaksProperty.default hword hchoice hdefault hout.breaksDefault
  exact Markup.check_of_breaks (.property hitems hitem hbreaks)

/-! ## The catalog -/

theorem hasLeaf_objectValue {members : List (String × Value)} {s : Scalar} :
    (objectValue members).HasLeaf s ↔ ∃ m ∈ members, m.2.HasLeaf s := by
  rw [objectValue, Tree.hasLeaf_object]
  constructor
  · rintro ⟨m, hm, hleaf⟩
    rcases List.mem_map.1 hm with ⟨m', hm', rfl⟩
    exact ⟨m', hm', hleaf⟩
  · rintro ⟨m, hm, hleaf⟩
    exact ⟨_, List.mem_map_of_mem hm, hleaf⟩

/-- The doubles of a catalog are those of its defaults. -/
theorem Registry.hasLeaf_float_iff {r : Registry} {x : Double} :
    r.toValue.HasLeaf (.float x) ↔
      ∃ e ∈ r.entries, ∃ p ∈ e.definition.properties, p.default.HasDouble x := by
  simp [Registry.toValue, RegistryEntry.toValue, Definition.toValue, Property.toValue,
    hasLeaf_objectValue, stringValue, PropertyValue.HasDouble]

/-- All doubles of the definitions that a run registers are finite. -/
def RunState.RegistersFinite (state : RunState) (env : Environment) : Prop :=
  ∀ d, state.Registers env d → ∀ p ∈ d.properties, ∀ x, p.default.HasDouble x → x.isFinite = true

section

variable (state : RunState) (env : Environment)

theorem RunState.registersFinite_iff :
    state.RegistersFinite env ↔
      ∀ s, (state.compile env).registry.toValue.HasLeaf s → s.isFinite = true := by
  constructor
  · intro hfinite s hs
    cases s with
    | float x =>
        rcases Registry.hasLeaf_float_iff.1 hs with ⟨e, he, p, hp, hx⟩
        rcases ((state.registry_compile env).2 e).1 he with ⟨d, hd, rfl⟩
        exact hfinite d hd p hp x hx
    | null | bool | string | integer => rfl
  · intro hall d hd p hp x hx
    have he := ((state.registry_compile env).2 _).2 ⟨d, hd, rfl⟩
    exact hall _ (Registry.hasLeaf_float_iff.2 ⟨_, he, p, hp, hx⟩)

/-- The catalog of a run is a document of JSON only if all doubles that it registers are finite. -/
theorem RunState.registersFinite_of_isJson {numbers : Numeral → Prop} {room : Nat}
    (h : IsJson IsStringBody numbers room .padded (state.compile env).registry.catalogText) :
    state.RegistersFinite env := by
  apply (state.registersFinite_iff env).2
  intro s hs
  exact isFinite_of_isJson_printJson
    (Registry.isPrintable_toValue (state.isPrintable_entries env) 0) h hs

theorem RunState.isJson_of_registersFinite (h : state.RegistersFinite env) :
    IsJson IsStringBody Numeral.IsWithinLimit 6 .padded
      (state.compile env).registry.catalogText :=
  isJson_printJson (Registry.isPrintable_toValue (state.isPrintable_entries env) 0)
    ((state.registersFinite_iff env).1 h)

end

/-- What becomes of the numbers of authors as doubles of a catalog:

* a double that is accepted is finite, or infinite for a number with a fraction or an exponent that
  is out of range;
* a number with a fraction or an exponent is converted in range and out of range, and its double is
  finite only in range;
* an integer that is out of range is refused, with the rule for its type if no check before that of
  this default finds a broken rule;
* the catalog of a run is a document of JSON, whatever limits there are, only if all doubles that
  the run registers are finite, and then it is one with the limits of the reader and six containers
  deep at most. -/
theorem doubles_spec (scope : Scope) (s : Source) (m : Markup) (state : RunState)
    (env : Environment) :
    (∀ d, s.Accepts scope d → ∀ p ∈ d.properties, ∀ x, p.default.HasDouble x →
        x.isFinite = true ∨ ∃ n, s.HasNumeral scope n ∧ n.isInteger = false ∧
          Double.outOfRange ≤ n.magnitude ∧ x = .infinity n.negative) ∧
      (∀ (n : Numeral) place, n.isInteger = false →
        Converts (.leaf place n.toScalar) n.toDouble ∧
          (n.toDouble.isFinite = true ↔ n.magnitude < Double.outOfRange)) ∧
      (∀ i type token rule, GivesDefault m.root i type token → IsOutOfRange type token rule →
        (∀ d, m.check ≠ .ok d) ∧
          ((∀ k rule' node, Breaks m.root k rule' node → 4 * i + 7 ≤ k) →
            m.check = .error ⟨rule.message.toList, m.path, token.mark⟩)) ∧
      (∀ numbers room,
        IsJson IsStringBody numbers room .padded (state.compile env).registry.catalogText →
        state.RegistersFinite env) ∧
      (state.RegistersFinite env →
        IsJson IsStringBody Numeral.IsWithinLimit 6 .padded
          (state.compile env).registry.catalogText) := by
  -- one lemma for each of the five parts
  refine ⟨?_, ?_, ?_, ?_, ?_⟩
  · intro d h p hp x hx
    exact h.isFinite_or_infinity hp hx
  · intro n place hinteger
    rw [Numeral.toScalar, hinteger, if_neg Bool.false_ne_true]
    exact ⟨.float, n.isRounded_toDouble.isFinite_iff⟩
  · intro i type token rule h hout
    exact h.check_of_isOutOfRange hout
  · intro numbers room h
    exact state.registersFinite_of_isJson env h
  · exact state.isJson_of_registersFinite env

/-- A number with an exponent that is out of range is accepted as infinity, and the catalog is no
document of JSON. -/
theorem exists_infinite_default :
    let text := ("#DCECOMP \x7b\"class\": \"A\", \"import-file\": \"a\", \"properties\": " ++
      "[\x7b\"name\": \"n\", \"type\": \"number\", \"default\": 1e400\x7d]\x7d").toList
    let env : Environment :=
      { settings := {}
        files := ⟨[(["a.dcecomp".toList], .file 0)], [(0, Utf8.encode text)], []⟩
        workingDirectory := []
        room := 981
        poolRoom := 983 }
    let state : RunState :=
      { inputDirectory := none
        outputDirectory := .ofText "out".toList
        options := {}
        candidates := [.ofText "a.dcecomp".toList] }
    let source : Source := ⟨"a.dcecomp".toList, .markupOnly, text⟩
    (∃ d p x, source.Accepts ((state.compiler env.settings).scope env) d ∧ p ∈ d.properties ∧
        p.default.HasDouble x ∧ x.isFinite = false) ∧
      ∀ numbers room,
        ¬ IsJson IsStringBody numbers room .padded (state.compile env).registry.catalogText := by
  intro text env state source
  -- both are named, so that the searches below compute them once
  obtain ⟨p, hp⟩ : ∃ p : Property,
      p = ⟨Text.ofString "n", .float, .float (.infinity false)⟩ := ⟨_, rfl⟩
  obtain ⟨d, hd⟩ : ∃ d : Definition,
      d = ⟨Text.ofString "A", Text.ofString "A", Text.ofString "a", [p]⟩ := ⟨_, rfl⟩
  have hmem : p ∈ d.properties := by
    rw [hd]
    exact List.mem_singleton_self p
  have hdouble : p.default.HasDouble (.infinity false) := by
    rw [hp]
    exact PropertyValue.hasDouble_float.2 rfl
  constructor
  · -- the source alone accepts the definition with its infinite default
    have hreport : d ∈ (source.report ((state.compiler env.settings).scope env)).definitions := by
      rw [hd, hp]
      decide +kernel
    exact ⟨d, p, _, Source.mem_definitions_report_iff.1 hreport, hmem, hdouble, rfl⟩
  · -- the project registers it, so no JSON grammar has the catalog
    have hfind : (((Compiler.processingOrder (state.candidates.map Path.text)).flatMap fun path =>
        ((state.compiler env.settings).reportOf env path).definitions).reverse.find?
          fun d' => d'.componentName = d.componentName) = some d := by
      rw [hd, hp]
      decide +kernel
    have hregisters : state.Registers env d :=
      ⟨by decide, by decide, Compiler.isLastDefined_iff_find?.2 hfind⟩
    intro numbers room hjson
    cases state.registersFinite_of_isJson env hjson d hregisters p hmem _ hdouble

end ComponentMarkup
