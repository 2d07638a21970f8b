import ComponentMarkup.Project
import ComponentMarkup.Proofs.Component.Conformance
import ComponentMarkup.Proofs.Json.Printer
import ComponentMarkup.Proofs.Verdict

/-!
# The catalog

The catalog of a registry is read back as the value that was printed
(`Registry.readLoosely_catalogText`), if it is made of definitions that come from markup. Their
strings are decoded ones or import paths, so that no two surrogates in them would join when they are
read again.
-/

namespace ComponentMarkup

open ComponentMarkup.Tree (Subtree)

/-! ## Definitions -/

/-- A definition whose text is read back. -/
structure Definition.IsPrintable (d : Definition) : Prop where
  className : d.className.IsJoined
  componentName : d.componentName.IsJoined
  importPath : d.importPath.IsJoined
  names : ∀ p ∈ d.properties, p.name.IsJoined
  defaults : ∀ p ∈ d.properties, ∀ room, Value.IsPrintable (room + 1) p.default.toValue

theorem HasString.isJoined {data : LocatedTree} {key : String} {t : Text}
    (hdata : ∀ t, data.HasLeaf (.string t) → t.IsJoined) (h : HasString data key t) :
    t.IsJoined := by
  rcases h with ⟨place, hfind⟩
  exact hdata t (Tree.HasLeaf.of_find? (Tree.hasLeaf_leaf.2 rfl) hfind)

/-- A default that fits is a string that was given, a double or three of them. -/
theorem FitsType.isPrintable {type : PropertyType} {given : Option LocatedTree}
    {value : PropertyValue} (h : FitsType type given value)
    (hgiven : ∀ token ∈ given, ∀ t, token.HasLeaf (.string t) → t.IsJoined) (room : Nat) :
    Value.IsPrintable (room + 1) value.toValue := by
  cases h with
  | emptyString => exact .leaf (.nil : Text.IsJoined [])
  | string => exact .leaf (hgiven _ rfl _ (Tree.hasLeaf_leaf.2 rfl))
  | zero | number => exact .leaf trivial
  | origin | vector3 =>
      apply Value.IsPrintable.array
      simp only [List.map_cons, List.map_nil, List.forall_mem_cons, List.not_mem_nil,
        false_imp_iff, implies_true, and_true]
      exact ⟨.leaf trivial, .leaf trivial, .leaf trivial⟩

theorem exists_of_mem_right {α β : Type} {R : α → β → Prop} {xs : List α} {ys : List β}
    (h : List.Forall₂ R xs ys) {y : β} (hy : y ∈ ys) : ∃ x ∈ xs, R x y := by
  induction h with
  | nil => cases hy
  | cons hxy _ ih =>
      rcases List.mem_cons.1 hy with rfl | hy
      · exact ⟨_, List.mem_cons_self .., hxy⟩
      · rcases ih hy with ⟨x, hx, hxy⟩
        exact ⟨x, List.mem_cons_of_mem _ hx, hxy⟩

/-- The property that stands behind one of the definition's. -/
theorem Conforms.exists_item {data : LocatedTree} {d : Definition} (h : Conforms data d)
    {p : Property} (hp : p ∈ d.properties) :
    ∃ item, Subtree item data ∧ ConformsProperty item p := by
  have hproperties := h.properties
  generalize hgiven : data.find? (Text.ofString "properties") = given at hproperties
  generalize d.properties = ps at hp hproperties
  cases hproperties with
  | absent => cases hp
  | array hitems =>
      rcases exists_of_mem_right hitems hp with ⟨item, hitem, hconforms⟩
      exact ⟨item, .trans (.item hitem .self) (.of_find? hgiven), hconforms⟩

theorem Conforms.isPrintable {data : LocatedTree} {d : Definition} (h : Conforms data d)
    (hdata : ∀ t, data.HasLeaf (.string t) → t.IsJoined) : d.IsPrintable where
  className := h.className.isJoined hdata
  componentName := by
    rcases h.componentName with hname | ⟨-, hname⟩
    · exact hname.isJoined hdata
    · rw [hname]
      exact h.className.isJoined hdata
  importPath := h.importPath.isJoined hdata
  names := by
    -- a property stems from an item of the data, whose strings are strings of the data
    intro p hp
    rcases h.exists_item hp with ⟨item, hitem, hconforms⟩
    have hleaves : ∀ t, item.HasLeaf (.string t) → t.IsJoined := by
      rintro t ⟨mark, hsub⟩
      exact hdata t ⟨mark, hsub.trans hitem⟩
    exact hconforms.name.isJoined hleaves
  defaults := by
    intro p hp
    rcases h.exists_item hp with ⟨item, hitem, hconforms⟩
    apply hconforms.default.isPrintable
    rintro token htoken t ⟨mark, hsub⟩
    exact hdata t ⟨mark, (hsub.trans (.of_find? htoken)).trans hitem⟩

/-! ## Markup -/

theorem hasLeaf_addMember {key value : Text} {tree : LocatedTree} {s : Scalar}
    (h : (addMember key value tree).HasLeaf s) : s = .string value ∨ tree.HasLeaf s := by
  cases tree with
  | leaf | array => exact .inr h
  | object place members =>
      rw [addMember, Tree.hasLeaf_object] at h
      rcases h with ⟨m, hm, hleaf⟩
      rcases List.mem_append.1 hm with hm | hm
      · exact .inr (Tree.hasLeaf_object.2 ⟨m, hm, hleaf⟩)
      · obtain rfl := List.mem_singleton.1 hm
        exact .inl (Tree.hasLeaf_leaf.1 hleaf)

/-- A scalar of a markup stands behind a marker, unless it is an import path that was added. -/
theorem Source.exists_leaf_of_mem_markups {scope : Scope} {s : Source} {parsed : ParsedSource}
    {m : Markup} {scalar : Scalar} (h : s.parse scope = .ok parsed) (hm : m ∈ parsed.markups)
    (hleaf : m.root.HasLeaf scalar) :
    (∃ path, scalar = .string (Text.ofChars path)) ∨
      ∃ offset ∈ s.offsets scope, ∃ authored,
        decodeJson scope.room (s.fragmentBehind scope offset) = .ok authored ∧
          authored.HasLeaf scalar := by
  rcases exists_of_mem_markups h hm with ⟨offset, hoffset, authored, hdecoded, hcompletes, -⟩
  generalize m.root = root at hleaf hcompletes
  cases hcompletes with
  | asWritten => exact .inr ⟨offset, hoffset, authored, hdecoded, hleaf⟩
  | withImportPath =>
      -- the added member is the only one that stands in no text
      rcases hasLeaf_addMember hleaf with heq | hleaf
      · exact .inl ⟨_, heq⟩
      · exact .inr ⟨offset, hoffset, authored, hdecoded, hleaf⟩

/-- All pairs are joined in the strings of a markup. -/
theorem Source.isJoined_of_mem_markups {scope : Scope} {s : Source} {parsed : ParsedSource}
    {m : Markup} {t : Text} (h : s.parse scope = .ok parsed) (hm : m ∈ parsed.markups)
    (hleaf : m.root.HasLeaf (.string t)) : t.IsJoined := by
  rcases exists_leaf_of_mem_markups h hm hleaf with
    ⟨path, heq⟩ | ⟨offset, -, authored, hdecoded, hleaf⟩
  · cases heq
    exact Text.isJoined_ofChars _
  · exact isJoined_of_decodeJson hdecoded hleaf

/-- A definition that is accepted is read back. -/
theorem Source.Accepts.isPrintable {scope : Scope} {s : Source} {d : Definition}
    (h : s.Accepts scope d) : d.IsPrintable := by
  rcases h with ⟨parsed, m, hparsed, hm, hcheck⟩
  have hconforms := Markup.check_eq_ok_iff.1 hcheck
  exact hconforms.isPrintable fun t hleaf => isJoined_of_mem_markups hparsed hm hleaf

/-! ## The value of a registry -/

theorem Text.ofString_injective : Function.Injective Text.ofString := by
  intro a b h
  have hchar : Function.Injective CodePoint.ofChar := fun c d => CodePoint.ofChar_injective
  exact String.toList_injective (List.map_injective_iff.2 hchar h)

/-- An object with different names for its members. -/
theorem isPrintable_objectValue {room : Nat} {members : List (String × Value)}
    (hnodup : (members.map Prod.fst).Nodup)
    (hvalues : ∀ m ∈ members, Value.IsPrintable room m.2) :
    Value.IsPrintable (room + 1) (objectValue members) := by
  apply Value.IsPrintable.object
  · have hnames := hnodup.map Text.ofString_injective
    rw [List.map_map] at hnames
    rw [List.map_map]
    exact hnames
  · rw [List.forall_mem_map]
    exact fun m _ => Text.isJoined_ofChars _
  · rw [List.forall_mem_map]
    exact hvalues

theorem isPrintable_stringValue {room : Nat} {t : Text} (h : t.IsJoined) :
    Value.IsPrintable room (stringValue t) :=
  .leaf h

theorem Definition.IsPrintable.toValue {d : Definition} (h : d.IsPrintable) (room : Nat) :
    Value.IsPrintable (room + 4) d.toValue := by
  -- two levels of fixed keys, different from one another; the values below are printable by `h`
  have hnames : ["class", "component", "import-file", "properties"].Nodup := by decide
  have hnames' : ["name", "type", "default"].Nodup := by decide
  apply isPrintable_objectValue
  · exact hnames
  · simp only [List.forall_mem_cons, List.not_mem_nil, false_imp_iff, implies_true, and_true]
    refine ⟨isPrintable_stringValue h.className, isPrintable_stringValue h.componentName,
      isPrintable_stringValue h.importPath, .array ?_⟩
    rw [List.forall_mem_map]
    intro p hp
    apply isPrintable_objectValue
    · exact hnames'
    · simp only [List.forall_mem_cons, List.not_mem_nil, false_imp_iff, implies_true, and_true]
      exact ⟨isPrintable_stringValue (h.names p hp),
        isPrintable_stringValue (Text.isJoined_ofChars _), h.defaults p hp room⟩

/-- The value of a registry is at most six containers deep. -/
theorem Registry.isPrintable_toValue {r : Registry}
    (h : ∀ e ∈ r.entries, e.category.IsJoined ∧ e.definition.IsPrintable) (room : Nat) :
    Value.IsPrintable (room + 6) r.toValue := by
  have hnames : ["category", "visibleInMenu", "definition"].Nodup := by decide
  have hentries : ∀ v ∈ r.entries.map RegistryEntry.toValue, Value.IsPrintable (room + 5) v := by
    rw [List.forall_mem_map]
    intro e he
    rcases h e he with ⟨hcategory, hdefinition⟩
    apply isPrintable_objectValue
    · exact hnames
    · simp only [List.forall_mem_cons, List.not_mem_nil, false_imp_iff, implies_true, and_true]
      exact ⟨isPrintable_stringValue hcategory, .leaf trivial, hdefinition.toValue room⟩
  exact .array hentries

/-- The catalog of a registry is read back by whatever reads containers six levels deep. -/
theorem Registry.readLoosely_catalogText {r : Registry}
    (h : ∀ e ∈ r.entries, e.category.IsJoined ∧ e.definition.IsPrintable) (levels : Nat) :
    readLoosely (levels + 6) r.catalogText = .ok r.toValue :=
  readLoosely_printJson (Registry.isPrintable_toValue h levels)

end ComponentMarkup
