import ComponentMarkup.Proofs.Json.Document
import ComponentMarkup.Proofs.Json.Translation
import ComponentMarkup.Proofs.Number.Decimal

/-!
# What a rendering denotes

A value as it is written may repeat names and spells its numbers in decimal; what it denotes does
neither. This is stated apart from the decoder, as a relation between the two trees (`Denotes`): of
each name the last value counts, at the place of the first one; a number without fraction and
exponent is that integer, and any other the nearest double. We show that decoding a rendering gives
what the rendered value denotes, every node with its place (`decodeJson_rendering`).
-/

namespace ComponentMarkup

open ComponentMarkup.Tree (collapse distinctMembers lastMember? mapLeaves? mapMark setMember)

/-! ## Repeated names -/

namespace Tree

variable {α : Type}

/-- Of members that may repeat names these are kept: each name where it comes first, with the value
that comes last. -/
structure KeepsLast (members kept : List (Text × α)) : Prop where
  names : kept.map Prod.fst = (members.map Prod.fst).eraseDups
  values : ∀ p ∈ kept, lastMember? p.1 members = some p.2

theorem names_setMember (name : Text) (value : α) (members : List (Text × α)) :
    (setMember name value members).map Prod.fst =
      if name ∈ members.map Prod.fst then members.map Prod.fst
      else members.map Prod.fst ++ [name] := by
  induction members with
  | nil => rfl
  | cons m ms ih =>
      rcases m with ⟨k, v⟩
      rw [setMember]
      -- the value is replaced where the name stands, else the name goes to the end
      by_cases hk : k = name
      · simp [hk]
      · have hk' : ¬ name = k := fun h => hk h.symm
        rw [if_neg hk, List.map_cons, ih]
        simp only [List.map_cons, List.mem_cons, hk', false_or]
        split <;> rfl

/-- Where no name is repeated, no other member of the name is left. -/
theorem of_mem_setMember {name : Text} {value : α} {p : Text × α} {members : List (Text × α)}
    (hnodup : (members.map Prod.fst).Nodup) (h : p ∈ setMember name value members) :
    p = (name, value) ∨ p ∈ members ∧ p.1 ≠ name := by
  induction members with
  | nil => exact .inl (List.mem_singleton.1 h)
  | cons m ms ih =>
      rcases m with ⟨k, v⟩
      rw [List.map_cons, List.nodup_cons] at hnodup
      rw [setMember] at h
      -- behind the place of the name it does not occur again, since names differ
      by_cases hk : k = name
      · rw [if_pos hk] at h
        rcases List.mem_cons.1 h with h | h
        · exact .inl h
        · refine .inr ⟨List.mem_cons_of_mem _ h, ?_⟩
          intro hname
          have hmem : p.1 ∈ ms.map Prod.fst := List.mem_map_of_mem h
          rw [hname, ← hk] at hmem
          exact hnodup.1 hmem
      · rw [if_neg hk] at h
        rcases List.mem_cons.1 h with rfl | h
        · exact .inr ⟨List.mem_cons_self .., hk⟩
        · rcases ih hnodup.2 h with h | ⟨h, hname⟩
          · exact .inl h
          · exact .inr ⟨List.mem_cons_of_mem _ h, hname⟩

theorem distinctMembers_concat (members : List (Text × α)) (m : Text × α) :
    distinctMembers (members ++ [m]) = setMember m.1 m.2 (distinctMembers members) := by
  rw [distinctMembers, List.foldl_append]
  rfl

theorem lastMember?_concat (name : Text) (members : List (Text × α)) (m : Text × α) :
    lastMember? name (members ++ [m]) =
      if m.1 = name then some m.2 else lastMember? name members := by
  rw [lastMember?, lastMember?, List.reverse_append, List.reverse_singleton,
    List.singleton_append, List.find?_cons]
  by_cases hm : m.1 = name <;> simp [hm]

/-- No name is repeated among distinct members. -/
theorem nodup_distinctMembers (members : List (Text × α)) :
    ((distinctMembers members).map Prod.fst).Nodup := by
  induction members using List.reverseRecOn with
  | nil => exact List.nodup_nil
  | append_singleton members m ih =>
      rw [distinctMembers_concat, names_setMember]
      split
      · exact ih
      · next hnew =>
        refine List.nodup_append.2 ⟨ih, List.pairwise_singleton .., ?_⟩
        intro a ha b hb heq
        obtain rfl := List.mem_singleton.1 hb
        exact hnew (heq ▸ ha)

theorem setMember_of_notMem {name : Text} {value : α} {members : List (Text × α)}
    (h : name ∉ members.map Prod.fst) :
    setMember name value members = members ++ [(name, value)] := by
  induction members with
  | nil => rfl
  | cons m ms ih =>
      rw [List.map_cons, List.mem_cons, not_or] at h
      rw [setMember, if_neg (Ne.symm h.1), ih h.2]
      rfl

/-- Where no name is repeated, all members are left. -/
theorem distinctMembers_of_nodup {members : List (Text × α)}
    (h : (members.map Prod.fst).Nodup) : distinctMembers members = members := by
  induction members using List.reverseRecOn with
  | nil => rfl
  | append_singleton members m ih =>
      rw [List.map_append, List.nodup_append] at h
      rcases h with ⟨hmembers, -, hnew⟩
      rw [distinctMembers_concat, ih hmembers, setMember_of_notMem]
      intro hm
      exact hnew _ hm _ (List.mem_singleton_self _) rfl

/-- The last value of each name is kept, where the name came first. -/
theorem keepsLast_distinctMembers (members : List (Text × α)) :
    KeepsLast members (distinctMembers members) := by
  -- the members are collected from the first on, so the induction takes off the last one
  induction members using List.reverseRecOn with
  | nil => exact ⟨rfl, by simp [distinctMembers]⟩
  | append_singleton members m ih =>
      have hnames : (members ++ [m]).map Prod.fst = members.map Prod.fst ++ [m.1] := by simp
      constructor
      · rw [distinctMembers_concat, names_setMember, ih.names, hnames, List.eraseDups_append]
        by_cases hm : m.1 ∈ members.map Prod.fst
        · rw [if_pos (List.mem_eraseDups.2 hm)]
          simp [List.removeAll, hm]
        · rw [if_neg (fun h => hm (List.mem_eraseDups.1 h))]
          simp [List.removeAll, hm, List.eraseDups_cons]
      · intro p hp
        rw [distinctMembers_concat] at hp
        rw [lastMember?_concat]
        -- the last member is what was set, the others keep the value that was the last before
        rcases of_mem_setMember (nodup_distinctMembers members) hp with rfl | ⟨hp, hname⟩
        · exact if_pos rfl
        · rw [if_neg (Ne.symm hname)]
          exact ih.values p hp

/-- What is kept is settled by the members. -/
theorem KeepsLast.unique {members kept kept' : List (Text × α)} (h : KeepsLast members kept)
    (h' : KeepsLast members kept') : kept = kept' := by
  have hlast {list : List (Text × α)} (hlist : KeepsLast members list) :
      (list.map Prod.snd).map some =
        (members.map Prod.fst).eraseDups.map (lastMember? · members) := by
    rw [← hlist.names, List.map_map, List.map_map]
    exact List.map_congr_left fun p hp => (hlist.values p hp).symm
  have hvalues : kept.map Prod.snd = kept'.map Prod.snd :=
    List.map_injective_iff.2 (Option.some_injective α) ((hlast h).trans (hlast h').symm)
  exact (List.zip_of_prod (h.names.trans h'.names.symm) hvalues).trans
    (List.zip_of_prod rfl rfl).symm

variable {ι σ τ : Type}

/-- Changes every leaf. -/
def mapLeaves (f : σ → τ) : Tree ι σ → Tree ι τ := fold (fun m v => .leaf m (f v)) .array .object

@[simp] theorem mapLeaves_leaf (f : σ → τ) (m : ι) (v : σ) :
    mapLeaves f (.leaf m v) = .leaf m (f v) := rfl

@[simp] theorem mapLeaves_array (f : σ → τ) (m : ι) (items : List (Tree ι σ)) :
    mapLeaves f (.array m items) = .array m (items.map (mapLeaves f)) := by
  simp [mapLeaves]

@[simp] theorem mapLeaves_object (f : σ → τ) (m : ι) (members : List (Text × Tree ι σ)) :
    mapLeaves f (.object m members) =
      .object m (members.map fun p => (p.1, mapLeaves f p.2)) := by
  simp [mapLeaves]

/-- Where changing the leaves does not fail, it is changing them one by one. -/
theorem mapLeaves?_eq_some {f : σ → Option τ} {g : σ → τ} (hfg : ∀ v w, f v = some w → w = g v)
    {t : Tree ι σ} (h : (mapLeaves? f t).isSome = true) :
    mapLeaves? f t = some (mapLeaves g t) := by
  induction t using nodeInduction with
  | leaf m v =>
      rw [mapLeaves?_leaf, Option.isSome_map] at h
      rcases Option.isSome_iff_exists.1 h with ⟨w, hw⟩
      rw [mapLeaves?_leaf, hw, hfg v w hw]
      rfl
  -- all items have a meaning, so that of the array is made of theirs
  | array m items ih =>
      have hitems : items.map (mapLeaves? f) = (items.map (mapLeaves g)).map some := by
        rw [List.map_map]
        exact List.map_congr_left fun t ht => ih t ht (isSome_mapLeaves?_array.1 h t ht)
      rw [mapLeaves?_array, sequenceItems_eq_some_iff.2 hitems, mapLeaves_array]
      rfl
  | object m members ih =>
      have hmembers : members.map (fun p => (p.1, mapLeaves? f p.2)) =
          (members.map fun p => (p.1, mapLeaves g p.2)).map fun p => (p.1, some p.2) := by
        rw [List.map_map]
        refine List.map_congr_left fun p hp => congrArg (Prod.mk p.1) ?_
        exact ih p hp (isSome_mapLeaves?_object.1 h p hp)
      rw [mapLeaves?_object, sequenceMembers_eq_some_iff.2 hmembers, mapLeaves_object]
      rfl

end Tree

/-! ## Values -/

/-- The scalar that a literal stands for, where the words for infinity and for no number count
too. -/
def Literal.looseScalar : Literal → Scalar
  | null => .null
  | bool b => .bool b
  | string t => .string t
  | number n => n.toScalar
  | infinity negative => .float (.infinity negative)
  | nan => .float .nan

/-- A literal denotes a scalar. -/
inductive Literal.Denotes : Literal → Scalar → Prop where
  | null : Denotes .null .null
  | bool {b} : Denotes (.bool b) (.bool b)
  | string {t} : Denotes (.string t) (.string t)
  | number {n : Numeral} {scalar} : n.Denotes scalar → Denotes (.number n) scalar
  | infinity {negative} : Denotes (.infinity negative) (.float (.infinity negative))
  | nan : Denotes .nan (.float .nan)

theorem Literal.denotes_looseScalar (value : Literal) : value.Denotes value.looseScalar := by
  cases value with
  | null => exact .null
  | bool => exact .bool
  | string => exact .string
  | number n => exact .number n.denotes_toScalar
  | infinity => exact .infinity
  | nan => exact .nan

/-- A literal denotes one scalar. -/
theorem Literal.Denotes.unique {value : Literal} {a b : Scalar} (ha : value.Denotes a)
    (hb : value.Denotes b) : a = b := by
  cases ha with
  | null | bool | string | infinity | nan =>
      cases hb
      rfl
  | number ha =>
      cases hb with
      | number hb => exact ha.unique hb

theorem Literal.eq_looseScalar {value : Literal} {scalar : Scalar}
    (h : value.scalar? = some scalar) : scalar = value.looseScalar := by
  cases value with
  | null | bool | string => exact (Option.some.inj h).symm
  | number n =>
      rw [scalar?] at h
      split at h
      · cases h
      · exact (Option.some.inj h).symm
  | infinity | nan => cases h

/-- A value as written denotes a value, every node of which is marked by a function of the offset at
which it is written. -/
inductive Denotes {κ : Type} (mark : Nat → κ) : SpelledTree → Tree κ Scalar → Prop where
  | leaf {offset value scalar} :
      value.Denotes scalar → Denotes mark (.leaf offset value) (.leaf (mark offset) scalar)
  | array {offset trees values} :
      List.Forall₂ (Denotes mark) trees values →
      Denotes mark (.array offset trees) (.array (mark offset) values)
  | object {offset members kept values} :
      Tree.KeepsLast members kept → values.map Prod.fst = kept.map Prod.fst →
      List.Forall₂ (Denotes mark) (kept.map Prod.snd) (values.map Prod.snd) →
      Denotes mark (.object offset members) (.object (mark offset) values)

theorem eq_of_forall₂ {α β : Type} {R : α → β → Prop} {xs : List α} {ys zs : List β}
    (hunique : ∀ x ∈ xs, ∀ y z, R x y → R x z → y = z) (hys : List.Forall₂ R xs ys)
    (hzs : List.Forall₂ R xs zs) : ys = zs := by
  induction hys generalizing zs with
  | nil =>
      cases hzs
      rfl
  | cons hy _ ih =>
      cases hzs with
      | cons hz hzs =>
          rw [hunique _ (List.mem_cons_self ..) _ _ hy hz,
            ih (fun x hx => hunique x (List.mem_cons_of_mem _ hx)) hzs]

/-- A value as written denotes one value. -/
theorem Denotes.unique {κ : Type} {mark : Nat → κ} {tree : SpelledTree} {a b : Tree κ Scalar}
    (ha : Denotes mark tree a) (hb : Denotes mark tree b) : a = b := by
  induction tree using Tree.nodeInduction generalizing a b with
  | leaf offset value =>
      cases ha with
      | leaf ha =>
          cases hb with
          | leaf hb => rw [ha.unique hb]
  | array offset trees ih =>
      cases ha with
      | array ha =>
          cases hb with
          | array hb => rw [eq_of_forall₂ (fun t ht _ _ => ih t ht) ha hb]
  | object offset members ih =>
      cases ha with
      | object hkept hnames ha =>
          cases hb with
          | object hkept' hnames' hb =>
              -- the kept members are the same, and their names; their values are by induction
              obtain rfl := hkept.unique hkept'
              have hvalues := eq_of_forall₂ (fun t ht v w hv hw => by
                rcases List.mem_map.1 ht with ⟨p, hp, rfl⟩
                exact ih p (Tree.mem_of_lastMember? (hkept.values p hp)) hv hw) ha hb
              rw [List.zip_of_prod (hnames.trans hnames'.symm) hvalues,
                ← List.zip_of_prod rfl rfl]

/-- The value that a text spells, where the words for infinity and for no number count too. -/
def Tree.looseMeaning (tree : SpelledTree) : Tree Nat Scalar :=
  (tree.mapLeaves Literal.looseScalar).collapse

namespace Tree

theorem looseMeaning_array (offset : Nat) (trees : List SpelledTree) :
    looseMeaning (.array offset trees) = .array offset (trees.map looseMeaning) := by
  rw [looseMeaning, mapLeaves_array, collapse_array, List.map_map]
  rfl

theorem looseMeaning_object (offset : Nat) (members : List (Text × SpelledTree)) :
    looseMeaning (.object offset members) =
      .object offset ((distinctMembers members).map fun p => (p.1, looseMeaning p.2)) := by
  rw [looseMeaning, mapLeaves_object, collapse_object, List.map_map, ← distinctMembers_map]
  rfl

/-- A scalar of what a tree means is what one of its literals stands for. -/
theorem exists_leaf_of_looseMeaning {tree : SpelledTree} {s : Scalar}
    (h : tree.looseMeaning.HasLeaf s) :
    ∃ literal, tree.HasLeaf literal ∧ literal.looseScalar = s := by
  induction tree using nodeInduction with
  | leaf offset literal =>
      obtain rfl := hasLeaf_leaf.1 h
      exact ⟨literal, hasLeaf_leaf.2 rfl, rfl⟩
  | array offset trees ih =>
      rw [looseMeaning_array, hasLeaf_array] at h
      rcases h with ⟨v, hv, hleaf⟩
      rcases List.mem_map.1 hv with ⟨t, ht, rfl⟩
      rcases ih t ht hleaf with ⟨literal, hliteral, hs⟩
      exact ⟨literal, hasLeaf_array.2 ⟨t, ht, hliteral⟩, hs⟩
  | object offset list ih =>
      rw [looseMeaning_object, hasLeaf_object] at h
      rcases h with ⟨m, hm, hleaf⟩
      rcases List.mem_map.1 hm with ⟨p, hp, rfl⟩
      -- the members that are kept are members
      have hp' := mem_of_mem_distinctMembers hp
      rcases ih p hp' hleaf with ⟨literal, hliteral, hs⟩
      exact ⟨literal, hasLeaf_object.2 ⟨p, hp', hliteral⟩, hs⟩

/-- The value that a tree spells is the one that it denotes. -/
theorem denotes_looseMeaning {κ : Type} (mark : Nat → κ) (tree : SpelledTree) :
    Denotes mark tree (tree.looseMeaning.mapMark mark) := by
  induction tree using nodeInduction with
  | leaf offset value => exact .leaf value.denotes_looseScalar
  | array offset trees ih =>
      rw [looseMeaning_array, mapMark_array, List.map_map]
      apply Denotes.array
      rw [List.forall₂_map_right_iff, List.forall₂_same]
      exact ih
  | object offset members ih =>
      rw [looseMeaning_object, mapMark_object, List.map_map]
      refine .object (keepsLast_distinctMembers members) ?_ ?_
      · rw [List.map_map]
        rfl
      · -- kept members are members, so the induction covers their values
        rw [List.map_map, List.forall₂_map_left_iff, List.forall₂_map_right_iff, List.forall₂_same]
        intro p hp
        exact ih p (mem_of_mem_distinctMembers hp)

theorem denotes_iff {κ : Type} {mark : Nat → κ} {tree : SpelledTree} {value : Tree κ Scalar} :
    Denotes mark tree value ↔ value = tree.looseMeaning.mapMark mark := by
  have hdenotes := tree.denotes_looseMeaning mark
  constructor
  · exact fun hvalue => hvalue.unique hdenotes
  · rintro rfl
    exact hdenotes

/-- What a tree means is what it means loosely, if its literals mean anything. -/
theorem meaning?_eq_looseMeaning {tree : SpelledTree}
    (h : (mapLeaves? Literal.scalar? tree).isSome = true) :
    tree.meaning? = some tree.looseMeaning := by
  rw [meaning?, mapLeaves?_eq_some (fun _ _ => Literal.eq_looseScalar) h]
  rfl

end Tree

/-! ## Decoding -/

/-- Any rendering of a value, with room enough for it, is decoded to the one tree that the value
denotes, every node with the place at which it stands; of a repeated name this is the place of its
last value. Without places it is the one plain value that the value denotes. -/
theorem decodeJson_rendering {room : Nat} {tree : SpelledTree} {text : List Char}
    (h : IsRendering (Literal.IsJson Numeral.IsDecoded) (levelLimit room) 0 (.padded tree) text)
    (hcalls : tree.calls ≤ callLimit room) :
    ∃ root, decodeJson room text = .ok root ∧
      (∀ value, Denotes (placeAt .anyBreak text) tree value ↔ value = root) ∧
      ∀ value, Denotes (fun _ => ()) tree value ↔ value = root.plain := by
  -- every leaf of a rendering can be decoded, so there is a meaning
  have hmeant : (mapLeaves? Literal.scalar? tree).isSome = true :=
    h.hasMeaning fun value hvalue => hvalue.isSome_scalar?
  have hdecoded : decodeJson room text = .ok (locate text tree.looseMeaning) := by
    rw [decodeJson, h.readSpelled_eq]
    simp only [Tree.meaning?_eq_looseMeaning hmeant, if_pos hcalls]
  rw [locate_eq_mapMark] at hdecoded
  refine ⟨_, hdecoded, ?_, ?_⟩
  · exact fun value => Tree.denotes_iff
  · rw [Tree.plain_mapMark]
    exact fun value => Tree.denotes_iff

/-- A name that is repeated in another spelling, a number out of range, and two surrogates that do
not make a pair, with no more room than they take. -/
theorem decodeJson_rendering_repeated_name :
    let text := " \x7b\"a\":1,\"\\u0061\" : [2.5e400,\"\\udE00\\ud83d\"]\x7d".toList
    let tree : SpelledTree := .object 1
      [(Text.ofString "a", .leaf 6 (.number ⟨false, ['1'], none, none⟩)),
        (Text.ofString "a", .array 19
          [.leaf 20 (.number ⟨false, ['2'], some ['5'], some ⟨'e', none, ['4', '0', '0']⟩⟩),
            .leaf 28 (.string [0xDE00, 0xD83D])])]
    IsRendering (Literal.IsJson Numeral.IsDecoded) (levelLimit 3) 0 (.padded tree) text ∧
      tree.calls ≤ callLimit 3 ∧ ∃ root, decodeJson 3 text = .ok root ∧
        (∀ value, Denotes (placeAt .anyBreak text) tree value ↔ value = root) ∧
        ∀ value, Denotes (fun _ => ()) tree value ↔ value = root.plain := by
  intro text tree
  -- the parts of the text: numbers that the grammar admits and that are decoded, names, and a
  -- string
  have hblank : IsBlankText [' '] := by simp [IsBlankText, isBlank]
  have hnumber : Numeral.WellFormed ⟨false, ['1'], none, none⟩ := {
    whole := .inr ⟨⟨by simp, by simp [isDigit]⟩, by simp⟩
    fraction := by simp
    exponent := by simp }
  have hlarge :
      Numeral.WellFormed ⟨false, ['2'], some ['5'], some ⟨'e', none, ['4', '0', '0']⟩⟩ := {
    whole := .inr ⟨⟨by simp, by simp [isDigit]⟩, by simp⟩
    fraction := by simp [IsDigits, isDigit]
    exponent := by
      intro e he
      obtain rfl := Option.some.inj he
      exact ⟨.inl rfl, by simp, by simp, by simp [isDigit]⟩ }
  have hdecoded : Numeral.IsDecoded ⟨false, ['1'], none, none⟩ :=
    ⟨fun _ => by decide, by simp⟩
  have hdecoded' :
      Numeral.IsDecoded ⟨false, ['2'], some ['5'], some ⟨'e', none, ['4', '0', '0']⟩⟩ := {
    digits := by
      intro hinteger
      cases hinteger
    sign := by simp }
  have hplain : Text.IsName (Text.ofString "a") "\"a\"".toList :=
    ⟨[], ['a'], [], rfl, isBlankText_nil, .plain (by decide) (by decide) (by decide) .nil,
      isBlankText_nil⟩
  have hescaped : Text.IsName (Text.ofString "a") "\"\\u0061\" ".toList :=
    ⟨[], "\\u0061".toList, [' '], rfl, isBlankText_nil,
      .unicode rfl (by decide) .nil, hblank⟩
  have hlone : Text.IsSpelled [0xDE00, 0xD83D]
      ['\\', 'u', 'd', 'E', '0', '0', '\\', 'u', 'd', '8', '3', 'd'] :=
    .unicode rfl (by decide) (.unicode rfl (by simp) .nil)
  have hfirst : IsRendering (Literal.IsJson Numeral.IsDecoded) 3 20
      (.padded (.leaf 20
        (.number ⟨false, ['2'], some ['5'], some ⟨'e', none, ['4', '0', '0']⟩⟩)))
      ['2', '.', '5', 'e', '4', '0', '0'] :=
    .padded isBlankText_nil (.leaf hdecoded' (.number hlarge hdecoded'.digits)) isBlankText_nil
  have hsecond : IsRendering (Literal.IsJson Numeral.IsDecoded) 3 28
      (.padded (.leaf 28 (.string [0xDE00, 0xD83D])))
      ('"' :: (['\\', 'u', 'd', 'E', '0', '0', '\\', 'u', 'd', '8', '3', 'd'] ++ ['"'])) :=
    .padded isBlankText_nil (.leaf trivial (.string hlone)) isBlankText_nil
  have hitems := IsRendering.nextElement hfirst (.lastElement hsecond)
  have hone : IsRendering (Literal.IsJson Numeral.IsDecoded) 4 6
      (.padded (.leaf 6 (.number ⟨false, ['1'], none, none⟩))) ['1'] :=
    .padded isBlankText_nil (.leaf hdecoded (.number hnumber hdecoded.digits)) isBlankText_nil
  have hrendering :
      IsRendering (Literal.IsJson Numeral.IsDecoded) (levelLimit 3) 0 (.padded tree) text :=
    .padded hblank (.object (.nextMember hplain hone
      (.lastMember hescaped (.padded hblank (.array hitems) isBlankText_nil)))) isBlankText_nil
  have hcalls : tree.calls ≤ callLimit 3 := by decide
  exact ⟨hrendering, hcalls, decodeJson_rendering hrendering hcalls⟩

end ComponentMarkup
