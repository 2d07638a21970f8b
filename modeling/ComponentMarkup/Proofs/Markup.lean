import ComponentMarkup.Markup
import ComponentMarkup.Proofs.Component.Blame
import ComponentMarkup.Proofs.Fragment

/-!
# Markup and what an author wrote

The markup of a source consists of the objects behind the markers, where an object of a script that
names no file to import from gets an import path (`Source.Completes`). The added member stands in
no text, and is never to blame (`Blames.of_completes`).
-/

namespace ComponentMarkup

/-! ## Import paths -/

/-- How the tree of a markup comes from the one that stands in the text: it is this one, or in a
script that names no file to import from, this one with an import path. -/
inductive Source.Completes (scope : Scope) (s : Source) (authored : LocatedTree) :
    LocatedTree → Prop where
  | asWritten (h : s.kind = .script → authored.find? importFileKey ≠ none) :
      Completes scope s authored authored
  | withImportPath {path : List Char} (hkind : s.kind = .script)
      (hnone : authored.find? importFileKey = none)
      (hpath : importPath scope.workingDirectory s.path scope.root = .ok path) :
      Completes scope s authored (addMember importFileKey (Text.ofChars path) authored)

theorem Source.completes_of_completed {scope : Scope} {s : Source} {authored root : LocatedTree}
    (h : s.completed scope authored = .ok root) : s.Completes scope authored root := by
  unfold completed at h
  split at h
  · -- the import path is added exactly when a script markup has none
    next hlacks =>
    cases hpath : importPath scope.workingDirectory s.path scope.root with
    | error fault =>
        rw [hpath] at h
        cases h
    | ok path =>
        rw [hpath] at h
        obtain rfl := Except.ok.inj h
        exact .withImportPath hlacks.1 (by simpa using hlacks.2) hpath
  · next hhas =>
    obtain rfl := Except.ok.inj h
    refine .asWritten fun hkind hnone => hhas ⟨hkind, ?_⟩
    rw [hnone]
    rfl

/-- An object with one more member has this one besides its own. -/
theorem find?_addMember {tree : LocatedTree} (h : tree.isObject = true) (key value name : Text) :
    (addMember key value tree).find? name =
      if name = key then some (.leaf .unknown (.string value)) else tree.find? name := by
  cases tree with
  | leaf | array => cases h
  | object place members =>
      rw [addMember, Tree.find?, Tree.find?, Tree.lastMember?, Tree.lastMember?,
        List.reverse_append, List.reverse_singleton, List.singleton_append, List.find?_cons]
      by_cases hname : name = key
      · simp [hname]
      · simp [hname, Ne.symm hname]

@[simp] theorem mark_addMember (key value : Text) (tree : LocatedTree) :
    (addMember key value tree).mark = tree.mark := by
  cases tree <;> rfl

/-- Whether a member is missing or no string does not change with members of other names. -/
theorem BlamesString.of_find?_eq {data data' node : LocatedTree} {key : Text}
    {present isString rule : SchemaRule} (hfind : data'.find? key = data.find? key)
    (hmark : data'.mark = data.mark) (h : BlamesString data' key present isString rule node) :
    ∃ node', BlamesString data key present isString rule node' ∧ node'.mark = node.mark := by
  cases h with
  | missing hnone => exact ⟨data, .missing (hfind ▸ hnone), hmark.symm⟩
  | noString htoken hs => exact ⟨node, .noString (hfind ▸ htoken) hs, rfl⟩

/-- What is to blame in the tree of a markup is to blame in the tree that stands in the text. -/
theorem Blames.of_completes {scope : Scope} {s : Source} {authored root node : LocatedTree}
    {rule : SchemaRule} (hobject : authored.isObject = true)
    (hroot : s.Completes scope authored root) (h : Blames root rule node) :
    ∃ node', Blames authored rule node' ∧ node'.mark = node.mark := by
  cases hroot with
  | asWritten => exact ⟨node, h, rfl⟩
  | @withImportPath path hkind hnone hpath =>
      have hadded := find?_addMember hobject importFileKey (Text.ofChars path)
      have hclass : (addMember importFileKey (Text.ofChars path) authored).find? classKey =
          authored.find? classKey := (hadded classKey).trans (if_neg (by decide))
      have hcomponent : (addMember importFileKey (Text.ofChars path) authored).find? componentKey =
          authored.find? componentKey := (hadded componentKey).trans (if_neg (by decide))
      have hproperties :
          (addMember importFileKey (Text.ofChars path) authored).find? propertiesKey =
            authored.find? propertiesKey := (hadded propertiesKey).trans (if_neg (by decide))
      cases h with
      | className h =>
          rcases h.of_find?_eq hclass (mark_addMember ..) with ⟨node', hnode, hmark⟩
          exact ⟨node', .className hnode, hmark⟩
      | componentName htoken hs => exact ⟨node, .componentName (hcomponent ▸ htoken) hs, rfl⟩
      | importFile h =>
          -- the added member is there, and a string
          exfalso
          have himport := (hadded importFileKey).trans (if_pos rfl)
          cases h with
          | missing hnone' =>
              rw [himport] at hnone'
              cases hnone'
          | noString htoken hs =>
              rw [himport] at htoken
              obtain rfl := Option.some.inj htoken
              exact hs ⟨_, _, rfl⟩
      | properties htoken harray =>
          exact ⟨node, .properties (hproperties ▸ htoken) harray, rfl⟩
      | property hitems hitem hnode =>
          exact ⟨node, .property (hproperties ▸ hitems) hitem hnode, rfl⟩

/-! ## Occurrences -/

/-- What a fragment decodes to is an object. -/
theorem isObject_of_decode_fragment {room : Nat} {text : List Char} {start : Int}
    {root : LocatedTree} (h : decodeJson room (fragmentAt text start) = .ok root) :
    root.isObject = true := by
  rcases exists_objectAt h with ⟨b, -, ⟨o⟩⟩
  exact o.isObject_root

/-- The fragment behind the occurrence of the marker at an offset. -/
def Source.fragmentBehind (scope : Scope) (s : Source) (offset : Nat) : List Char :=
  fragmentAt s.scannedText (offset + scope.marker.length : Nat)

theorem Source.parse_eq_ok {scope : Scope} {s : Source} {parsed : ParsedSource}
    (h : s.parse scope = .ok parsed) :
    parsed.markups = ((s.outcomes scope).filterMap Outcome.tree?).map (⟨·, s.path, s.kind⟩) ∧
      parsed.problems = ((s.outcomes scope).filter Outcome.isInvalid).map fun _ =>
        ⟨invalidJsonMessage, s.path, .unknown⟩ := by
  unfold parse at h
  dsimp only at h
  split at h
  · cases h
  · obtain rfl := Except.ok.inj h
    exact ⟨rfl, rfl⟩

/-- Each markup of a source comes from an object behind a marker. -/
theorem Source.exists_of_mem_markups {scope : Scope} {s : Source} {parsed : ParsedSource}
    {m : Markup} (h : s.parse scope = .ok parsed) (hm : m ∈ parsed.markups) :
    ∃ offset ∈ s.offsets scope, ∃ authored,
      decodeJson scope.room (s.fragmentBehind scope offset) = .ok authored ∧
      s.Completes scope authored m.root ∧ m.path = s.path := by
  rw [(parse_eq_ok h).1] at hm
  rcases List.mem_map.1 hm with ⟨root, hroot, rfl⟩
  rcases List.mem_filterMap.1 hroot with ⟨outcome, houtcome, htree⟩
  rcases List.mem_map.1 houtcome with ⟨offset, hoffset, rfl⟩
  -- undo the parse: the markup is the tree of some occurrence, and only a decoded object has one
  refine ⟨offset, hoffset, ?_⟩
  unfold outcomeOf at htree
  split at htree
  · cases htree
  · next authored hdecode =>
    split at htree
    · split at htree
      · next hcompleted =>
        obtain rfl := Option.some.inj htree
        exact ⟨authored, hdecode, completes_of_completed hcompleted, rfl⟩
      · cases htree
    · cases htree

end ComponentMarkup
