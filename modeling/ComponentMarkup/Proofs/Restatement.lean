import ComponentMarkup.Proofs.Finite

/-!
# Definitions as markup

The value of a definition, as a catalog has it, is nearly one that an author could write: only the
types of properties have other names there. With the names of authors it is accepted wherever it
stands, and defines the same component again (`Markup.check_restated`). A definition says all that
the schema asks for: a name, even an empty one, is not taken for a missing one, a default that was
not given is given now, and a number that was converted to a double is this double.
-/

namespace ComponentMarkup

/-! ## The names of authors -/

namespace Tree

variable {ι σ : Type}

/-- Changes the members of one name in an object. -/
def mapMember (key : Text) (f : Tree ι σ → Tree ι σ) : Tree ι σ → Tree ι σ
  | .object m members => .object m (members.map fun p => (p.1, if p.1 = key then f p.2 else p.2))
  | t => t

/-- Changes the elements of an array. -/
def mapItems (f : Tree ι σ → Tree ι σ) : Tree ι σ → Tree ι σ
  | .array m items => .array m (items.map f)
  | t => t

end Tree

open ComponentMarkup.Tree (mapItems mapMember)

/-- The name by which authors choose the type that has a name in a catalog. -/
def PropertyType.authorName (name : Text) : Text :=
  match authorNames.find? fun n => Text.ofString n.2.name = name with
  | some n => Text.ofString n.1
  | .none => name

/-- A string, the name of a type in a catalog, with the name of authors in its place. -/
def Value.withAuthorName : Value → Value
  | .leaf m (.string name) => .leaf m (.string (PropertyType.authorName name))
  | v => v

/-- The value of a property with the name of authors for its type. -/
def Property.restated (p : Property) : Value := p.toValue.mapMember typeKey Value.withAuthorName

/-- The value of a definition with the names of authors for the types of its properties. -/
def Definition.restated (d : Definition) : Value :=
  d.toValue.mapMember propertiesKey (mapItems (mapMember typeKey Value.withAuthorName))

theorem IsChoice.authorName_eq {word : Text} {type : PropertyType} (h : IsChoice word type) :
    PropertyType.authorName (Text.ofString type.name) = word := by
  cases h with
  | string | number | vector3 => decide +kernel

theorem mapMember_objectValue (key : String) (f : Value → Value)
    (members : List (String × Value)) :
    (objectValue members).mapMember (Text.ofString key) f =
      objectValue (members.map fun m => (m.1, if m.1 = key then f m.2 else m.2)) := by
  simp [objectValue, mapMember, Text.ofString_injective.eq_iff]

theorem Property.restated_eq (p : Property) :
    p.restated = objectValue
      [("name", stringValue p.name),
        ("type", stringValue (PropertyType.authorName (Text.ofString p.type.name))),
        ("default", p.default.toValue)] := by
  rw [restated, toValue, typeKey, mapMember_objectValue]
  rfl

theorem Definition.restated_eq (d : Definition) :
    d.restated = objectValue
      [("class", stringValue d.className), ("component", stringValue d.componentName),
        ("import-file", stringValue d.importPath),
        ("properties", .array () (d.properties.map Property.restated))] := by
  have hitems : mapItems (mapMember typeKey Value.withAuthorName)
      (.array () (d.properties.map Property.toValue)) =
        .array () (d.properties.map Property.restated) := by
    rw [mapItems, List.map_map]
    rfl
  rw [restated, toValue, propertiesKey, mapMember_objectValue, ← hitems]
  rfl

/-! ## Trees of a value -/

section

variable {token : LocatedTree}

theorem eq_leaf_of_plain {s : Scalar} (h : token.plain = .leaf () s) :
    ∃ place, token = .leaf place s := by
  cases token with
  | leaf place value =>
      obtain ⟨-, rfl⟩ := Tree.leaf.inj h
      exact ⟨place, rfl⟩
  | array | object => simp [Tree.plain] at h

theorem eq_array_of_plain {values : List Value} (h : token.plain = .array () values) :
    ∃ place items, token = .array place items ∧ items.map Tree.plain = values := by
  cases token with
  | array place items =>
      rw [Tree.plain, Tree.mapMark_array] at h
      obtain ⟨-, hitems⟩ := Tree.array.inj h
      exact ⟨place, items, rfl, hitems⟩
  | leaf | object => simp [Tree.plain] at h

theorem find?_objectValue {members : List (String × Value)} {key : String} {value : Value}
    (hnodup : (members.map Prod.fst).Nodup) (hmem : (key, value) ∈ members) :
    (objectValue members).find? (Text.ofString key) = some value := by
  have hnames := hnodup.map Text.ofString_injective
  rw [List.map_map] at hnames
  rw [objectValue, Tree.find?]
  apply (Tree.keepsLast_distinctMembers _).values (Text.ofString key, value)
  rw [Tree.distinctMembers_of_nodup]
  · exact List.mem_map_of_mem (f := fun m => (Text.ofString m.1, m.2)) hmem
  · rw [List.map_map]
    exact hnames

/-- A tree of an object has each member of the object. -/
theorem exists_find?_of_plain {members : List (String × Value)} {key : String} {value : Value}
    (h : token.plain = objectValue members) (hnodup : (members.map Prod.fst).Nodup)
    (hmem : (key, value) ∈ members) :
    ∃ t, token.find? (Text.ofString key) = some t ∧ t.plain = value := by
  have hfind := find?_objectValue hnodup hmem
  rw [← h, Tree.plain, Tree.find?_mapMark] at hfind
  exact Option.map_eq_some_iff.1 hfind

theorem hasString_of_plain {members : List (String × Value)} {key : String} {t : Text}
    (h : token.plain = objectValue members) (hnodup : (members.map Prod.fst).Nodup)
    (hmem : (key, stringValue t) ∈ members) : HasString token key t := by
  rcases exists_find?_of_plain h hnodup hmem with ⟨u, hfind, hu⟩
  rcases eq_leaf_of_plain hu with ⟨place, rfl⟩
  exact ⟨place, hfind⟩

/-! ## Restated definitions -/

/-- Three doubles fit the type of vectors. -/
theorem fitsType_of_plain_vector3 {a b c : Double}
    (h : token.plain = (PropertyValue.vector3 a b c).toValue) :
    FitsType .vector3 (some token) (.vector3 a b c) := by
  rcases eq_array_of_plain h with ⟨place, items, rfl, hitems⟩
  rcases List.map_eq_cons_iff.1 hitems with ⟨x, items, rfl, hx, hitems⟩
  rcases List.map_eq_cons_iff.1 hitems with ⟨y, items, rfl, hy, hitems⟩
  rcases List.map_eq_cons_iff.1 hitems with ⟨z, items, rfl, hz, hitems⟩
  obtain rfl := List.map_eq_nil_iff.1 hitems
  rcases eq_leaf_of_plain hx with ⟨_, rfl⟩
  rcases eq_leaf_of_plain hy with ⟨_, rfl⟩
  rcases eq_leaf_of_plain hz with ⟨_, rfl⟩
  exact .vector3 .float .float .float

/-- What is the default of a property can be given as its default. -/
theorem FitsType.restated {type : PropertyType} {given : Option LocatedTree}
    {value : PropertyValue} (h : FitsType type given value) (htoken : token.plain = value.toValue) :
    FitsType type (some token) value := by
  cases h with
  | emptyString | string =>
      rcases eq_leaf_of_plain htoken with ⟨place, rfl⟩
      exact .string
  | zero | number =>
      -- a double is converted to itself
      rcases eq_leaf_of_plain htoken with ⟨place, rfl⟩
      exact .number .float
  | origin | vector3 => exact fitsType_of_plain_vector3 htoken

theorem ConformsProperty.restated {item : LocatedTree} {p : Property}
    (h : ConformsProperty item p) (htoken : token.plain = p.restated) :
    ConformsProperty token p := by
  rcases h.type with ⟨word, -, hchoice⟩
  rw [p.restated_eq, hchoice.authorName_eq] at htoken
  have hnames : ["name", "type", "default"].Nodup := by decide
  -- the default is always written out, so the restated property has a token for it
  obtain ⟨given, hgiven, hdefault⟩ : ∃ given, token.find? (Text.ofString "default") = some given ∧
      given.plain = p.default.toValue := exists_find?_of_plain htoken hnames (by simp)
  have hobject : token.plain.isObject = true := by
    rw [htoken]
    rfl
  constructor
  · rwa [Tree.plain, Tree.isObject_mapMark] at hobject
  · exact hasString_of_plain htoken hnames (by simp)
  · exact ⟨word, hasString_of_plain htoken hnames (by simp), hchoice⟩
  · rw [hgiven]
    exact h.default.restated hdefault

/-- What defines a component can be written as its definition says. -/
theorem Conforms.restated {data : LocatedTree} {d : Definition} (h : Conforms data d)
    (htoken : token.plain = d.restated) : Conforms token d := by
  rw [d.restated_eq] at htoken
  have hnames : ["class", "component", "import-file", "properties"].Nodup := by decide
  obtain ⟨given, hgiven, hplain⟩ : ∃ given,
      token.find? (Text.ofString "properties") = some given ∧
        given.plain = .array () (d.properties.map Property.restated) :=
    exists_find?_of_plain htoken hnames (by simp)
  -- the properties are an array of the same length, whose items are the restated properties in
  -- order
  rcases eq_array_of_plain hplain with ⟨place, items, rfl, hitems⟩
  constructor
  · exact hasString_of_plain htoken hnames (by simp)
  · exact .inl (hasString_of_plain htoken hnames (by simp))
  · exact hasString_of_plain htoken hnames (by simp)
  · rw [hgiven]
    have hall : List.Forall₂ (fun item p => item.plain = p.restated) items d.properties := by
      rw [← List.forall₂_map_right_iff, ← List.forall₂_map_left_iff, hitems, List.forall₂_same]
      exact fun _ _ => rfl
    rw [List.forall₂_iff_zip] at hall
    refine .array (List.forall₂_iff_zip.2 ⟨hall.1, ?_⟩)
    intro item p hmem
    -- each property conformed to an authored item, and so conforms to the restated one
    rcases h.exists_item (List.of_mem_zip hmem).2 with ⟨authored, -, hconforms⟩
    exact hconforms.restated (hall.2 hmem)

end

/-! ## Decoded markup -/

/-- A markup that comes from a text: a text that is decoded, or an object behind a marker, in a
script with an import path. -/
inductive Markup.IsDecoded (m : Markup) : Prop where
  | text {room : Nat} {text : List Char} (h : decodeJson room text = .ok m.root)
  | source {scope : Scope} {s : Source} {parsed : ParsedSource} (h : s.parse scope = .ok parsed)
      (hm : m ∈ parsed.markups)

theorem Numeral.toDouble_ne_nan (n : Numeral) : n.toDouble ≠ .nan := by
  intro hnan
  have hinfinite : ¬ n.toDouble.isFinite = true := by
    rw [hnan]
    exact Bool.false_ne_true
  have hinfinity := n.isRounded_toDouble.eq_infinity hinfinite
  rw [hnan] at hinfinity
  cases hinfinity

/-- Every double of a decoded markup is a number. -/
theorem Markup.IsDecoded.not_hasLeaf_nan {m : Markup} (h : m.IsDecoded) :
    ¬ m.root.HasLeaf (.float .nan) := by
  intro hleaf
  cases h with
  | text h =>
      rcases exists_numeral_of_decodeJson h hleaf with ⟨_, n, -, -, -, hnan⟩
      exact n.toDouble_ne_nan hnan.symm
  | source h hm =>
      rcases Source.exists_numeral h hm hleaf with ⟨n, -, -, hnan⟩
      exact n.toDouble_ne_nan hnan.symm

/-- The definition of a decoded markup, written with the names of authors for its types, is accepted
at any places and in any source, and defines the same. Its doubles are numbers, so none of them
differs from itself. -/
theorem Markup.check_restated {m : Markup} {d : Definition} (hdecoded : m.IsDecoded)
    (h : m.check = .ok d) :
    (∀ m' : Markup, m'.root.plain = d.restated → m'.check = .ok d) ∧
      ∀ p ∈ d.properties, ¬ p.default.HasDouble .nan := by
  have hconforms := Markup.check_eq_ok_iff.1 h
  constructor
  · intro m' hplain
    exact Markup.check_eq_ok_iff.2 (hconforms.restated hplain)
  · intro p hp hnan
    rcases hconforms.isFinite_or_hasLeaf hp hnan with hfinite | hleaf
    · cases hfinite
    · exact hdecoded.not_hasLeaf_nan hleaf

/-- An empty name, a default that is not given, a default of converted integers, and one that is a
negative zero. -/
theorem Markup.check_restated_empty_name :
    let text := "\x7b\"class\":\"A\",\"component\":\"\",\"import-file\":\"a\",".toList ++
      "\"properties\":[\x7b\"type\":\"string\",\"name\":\"s\"\x7d,".toList ++
      "\x7b\"name\":\"v\",\"type\":\"vector3\",\"default\":[1,0,1.0]\x7d,".toList ++
      "\x7b\"name\":\"n\",\"type\":\"number\",\"default\":-0.0\x7d]\x7d".toList
    let d : Definition :=
      ⟨Text.ofString "A", [], Text.ofString "a",
        [⟨Text.ofString "s", .string, .string []⟩,
          ⟨Text.ofString "v", .vector3, .vector3 .one .zero .one⟩,
          ⟨Text.ofString "n", .float, .float (.ofRank true 0)⟩]⟩
    ∃ m : Markup, m.IsDecoded ∧ decodeJson 900 text = .ok m.root ∧ m.check = .ok d ∧
      (∀ m' : Markup, m'.root.plain = d.restated → m'.check = .ok d) ∧
      ∀ p ∈ d.properties, ¬ p.default.HasDouble .nan := by
  intro text d
  -- reading and checking are evaluated together, once
  have hdefines : (decodeJson 900 text).toOption.bind (fun root => (checkComponent root).toOption) =
      some d := by decide +kernel
  rcases Option.bind_eq_some_iff.1 hdefines with ⟨root, hread, hchecked⟩
  have hroot : decodeJson 900 text = .ok root := Except.eq_ok_of_toOption hread
  let m : Markup := ⟨root, "a".toList, .markupOnly⟩
  have hcheck : m.check = .ok d := by
    rw [Markup.check, Except.mapError_eq_ok_iff]
    exact Except.eq_ok_of_toOption hchecked
  have hdecoded : m.IsDecoded := .text hroot
  exact ⟨m, hdecoded, hroot, hcheck, Markup.check_restated hdecoded hcheck⟩

end ComponentMarkup
