import ComponentMarkup.Json.Decode
import ComponentMarkup.Proofs.Json.Grammar

/-!
# Subtrees

The nodes of a tree, each with all that is below it, and what the passes over a tree do to them. A
node of a decoded tree is the meaning of a node of the tree as spelled (`Subtree.of_meaning?`), and
its lexemes stand together among those of the whole tree (`Spells.exists_subtree`).
-/

namespace ComponentMarkup

namespace Tree

variable {ι κ σ τ α β : Type}

/-- Induction over the nodes of a tree, from the leaves up. -/
@[elab_as_elim]
theorem nodeInduction {P : Tree ι σ → Prop} (leaf : ∀ mark value, P (.leaf mark value))
    (array : ∀ mark items, (∀ t ∈ items, P t) → P (.array mark items))
    (object : ∀ mark members, (∀ m ∈ members, P m.2) → P (.object mark members)) :
    ∀ t, P t
  | .leaf mark value => leaf mark value
  | .array mark items => array mark items fun t _ => nodeInduction leaf array object t
  | .object mark members => object mark members fun m _ => nodeInduction leaf array object m.2
termination_by t => sizeOf t
decreasing_by
  · have hlt := List.sizeOf_lt_of_mem ‹_›
    simp only [Tree.array.sizeOf_spec]
    omega
  · have hlt := List.sizeOf_lt_of_mem ‹m ∈ members›
    rcases m with ⟨name, t⟩
    simp only [Tree.object.sizeOf_spec, Prod.mk.sizeOf_spec] at hlt ⊢
    omega

/-- A node of a tree, with all that is below it. -/
inductive Subtree (u : Tree ι σ) : Tree ι σ → Prop where
  | self : Subtree u u
  | item {mark items t} : t ∈ items → Subtree u t → Subtree u (.array mark items)
  | member {mark members name t} :
      (name, t) ∈ members → Subtree u t → Subtree u (.object mark members)

theorem Subtree.trans {t u v : Tree ι σ} (h : Subtree u v) (hv : Subtree v t) : Subtree u t := by
  induction hv with
  | self => exact h
  | item hmem _ ih => exact .item hmem ih
  | member hmem _ ih => exact .member hmem ih

theorem mem_of_lastMember? {name : Text} {value : α} {members : List (Text × α)}
    (h : lastMember? name members = some value) : (name, value) ∈ members := by
  rcases Option.map_eq_some_iff.1 h with ⟨⟨k, v⟩, hfind, rfl⟩
  have hname : k = name := by simpa using List.find?_some hfind
  rw [← hname]
  exact List.mem_reverse.1 (List.mem_of_find?_eq_some hfind)

theorem Subtree.of_find? {t u : Tree ι σ} {name : Text} (h : t.find? name = some u) :
    Subtree u t := by
  cases t with
  | leaf | array => cases h
  | object mark members => exact .member (mem_of_lastMember? h) .self

/-- A value stands at one of the leaves of a tree. -/
def HasLeaf (t : Tree ι σ) (value : σ) : Prop := ∃ mark, Subtree (.leaf mark value) t

@[simp] theorem hasLeaf_leaf {m : ι} {v w : σ} : HasLeaf (.leaf m v) w ↔ w = v := by
  constructor
  · rintro ⟨mark, hsub⟩
    cases hsub
    rfl
  · rintro rfl
    exact ⟨m, .self⟩

@[simp] theorem hasLeaf_array {m : ι} {items : List (Tree ι σ)} {w : σ} :
    HasLeaf (.array m items) w ↔ ∃ t ∈ items, t.HasLeaf w := by
  constructor
  · rintro ⟨mark, hsub⟩
    cases hsub with
    | item hmem hsub => exact ⟨_, hmem, mark, hsub⟩
  · rintro ⟨t, ht, mark, hsub⟩
    exact ⟨mark, .item ht hsub⟩

@[simp] theorem hasLeaf_object {m : ι} {members : List (Text × Tree ι σ)} {w : σ} :
    HasLeaf (.object m members) w ↔ ∃ p ∈ members, p.2.HasLeaf w := by
  constructor
  · rintro ⟨mark, hsub⟩
    cases hsub with
    | member hmem hsub => exact ⟨_, hmem, mark, hsub⟩
  · rintro ⟨⟨name, t⟩, ht, mark, hsub⟩
    exact ⟨mark, .member ht hsub⟩

theorem HasLeaf.of_find? {t u : Tree ι σ} {name : Text} {value : σ} (h : u.HasLeaf value)
    (hfind : t.find? name = some u) : t.HasLeaf value := by
  rcases h with ⟨mark, hsub⟩
  exact ⟨mark, hsub.trans (.of_find? hfind)⟩

/-! ## Marks -/

@[simp] theorem mapMark_leaf (f : ι → κ) (m : ι) (v : σ) :
    mapMark f (.leaf m v) = .leaf (f m) v := rfl

@[simp] theorem mapMark_array (f : ι → κ) (m : ι) (items : List (Tree ι σ)) :
    mapMark f (.array m items) = .array (f m) (items.map (mapMark f)) := by
  simp [mapMark]

@[simp] theorem mapMark_object (f : ι → κ) (m : ι) (members : List (Text × Tree ι σ)) :
    mapMark f (.object m members) =
      .object (f m) (members.map fun p => (p.1, mapMark f p.2)) := by
  simp [mapMark]

@[simp] theorem mark_mapMark (f : ι → κ) (t : Tree ι σ) : (mapMark f t).mark = f t.mark := by
  cases t <;> simp [mark]

@[simp] theorem isObject_mapMark (f : ι → κ) (t : Tree ι σ) :
    (mapMark f t).isObject = t.isObject := by
  cases t <;> simp [isObject]

theorem mapMark_mapMark {μ : Type} (g : κ → μ) (f : ι → κ) (t : Tree ι σ) :
    mapMark g (mapMark f t) = mapMark (g ∘ f) t := by
  induction t using nodeInduction with
  | leaf => simp
  | array m items ih =>
      simp only [mapMark_array, List.map_map, Function.comp_apply, array.injEq, true_and]
      exact List.map_congr_left ih
  | object m members ih =>
      simp only [mapMark_object, List.map_map, Function.comp_apply, object.injEq, true_and]
      apply List.map_congr_left
      intro p hp
      simp only [Function.comp_apply]
      rw [ih p hp]

theorem find?_mapMark {ι κ σ : Type} (f : ι → κ) (name : Text) (t : Tree ι σ) :
    (t.mapMark f).find? name = (t.find? name).map (mapMark f) := by
  cases t with
  | leaf | array => simp [Tree.find?]
  | object m members =>
      rw [Tree.mapMark_object, Tree.find?, Tree.find?, Tree.lastMember?, Tree.lastMember?,
        ← List.map_reverse, List.find?_map, Option.map_map, Option.map_map]
      rfl

/-- What a tree means does not depend on its marks. -/
@[simp] theorem plain_mapMark (f : ι → κ) (t : Tree ι σ) : (mapMark f t).plain = t.plain :=
  mapMark_mapMark _ _ t

/-- Two ways to mark a tree agree if they agree on the marks of its nodes. -/
theorem mapMark_congr {f g : ι → κ} {t : Tree ι σ}
    (h : ∀ u, Subtree u t → f u.mark = g u.mark) : mapMark f t = mapMark g t := by
  induction t using nodeInduction with
  | leaf m v => simpa [mark] using h _ .self
  | array m items ih =>
      have hm : f m = g m := h _ .self
      simp only [mapMark_array, hm, array.injEq, true_and]
      exact List.map_congr_left fun t ht => ih t ht fun u hu => h u (.item ht hu)
  | object m members ih =>
      have hm : f m = g m := h _ .self
      simp only [mapMark_object, hm, object.injEq, true_and]
      apply List.map_congr_left
      rintro ⟨name, t⟩ hp
      rw [ih (name, t) hp fun u hu => h u (.member hp hu)]

@[simp] theorem hasLeaf_mapMark {f : ι → κ} {t : Tree ι σ} {v : σ} :
    (mapMark f t).HasLeaf v ↔ t.HasLeaf v := by
  -- relabelling keeps the shape, so a leaf of a child is a leaf of the relabelled child and back
  induction t using nodeInduction with
  | leaf => simp
  | array m items ih =>
      rw [mapMark_array, hasLeaf_array, hasLeaf_array]
      constructor
      · rintro ⟨u, hu, hleaf⟩
        rcases List.mem_map.1 hu with ⟨t, ht, rfl⟩
        exact ⟨t, ht, (ih t ht).1 hleaf⟩
      · rintro ⟨t, ht, hleaf⟩
        exact ⟨_, List.mem_map_of_mem ht, (ih t ht).2 hleaf⟩
  | object m members ih =>
      rw [mapMark_object, hasLeaf_object, hasLeaf_object]
      constructor
      · rintro ⟨u, hu, hleaf⟩
        rcases List.mem_map.1 hu with ⟨p, hp, rfl⟩
        exact ⟨p, hp, (ih p hp).1 hleaf⟩
      · rintro ⟨p, hp, hleaf⟩
        exact ⟨_, List.mem_map_of_mem hp, (ih p hp).2 hleaf⟩

/-- The nodes of a tree with other marks are those of the tree, with other marks. -/
theorem Subtree.of_mapMark {f : ι → κ} {t : Tree ι σ} {v : Tree κ σ}
    (h : Subtree v (mapMark f t)) : ∃ u, Subtree u t ∧ v = mapMark f u := by
  -- induction on the tree that is relabelled; a subtree is the tree itself or lies in one child
  induction t using nodeInduction with
  | leaf m w =>
      cases h
      exact ⟨_, .self, rfl⟩
  | array m items ih =>
      rw [mapMark_array] at h
      cases h with
      | self => exact ⟨_, .self, (mapMark_array ..).symm⟩
      | item hmem hsub =>
          rcases List.mem_map.1 hmem with ⟨t, ht, rfl⟩
          rcases ih t ht hsub with ⟨u, hu, rfl⟩
          exact ⟨u, .item ht hu, rfl⟩
  | object m members ih =>
      rw [mapMark_object] at h
      cases h with
      | self => exact ⟨_, .self, (mapMark_object ..).symm⟩
      | member hmem hsub =>
          rcases List.mem_map.1 hmem with ⟨⟨name, t⟩, ht, heq⟩
          cases heq
          rcases ih (name, t) ht hsub with ⟨u, hu, rfl⟩
          exact ⟨u, .member ht hu, rfl⟩

/-! ## Repeated members -/

@[simp] theorem collapse_leaf (m : ι) (v : σ) : collapse (.leaf m v) = .leaf m v := rfl

@[simp] theorem collapse_array (m : ι) (items : List (Tree ι σ)) :
    collapse (.array m items) = .array m (items.map collapse) := by
  simp [collapse]

@[simp] theorem collapse_object (m : ι) (members : List (Text × Tree ι σ)) :
    collapse (.object m members) =
      .object m (distinctMembers (members.map fun p => (p.1, collapse p.2))) := by
  simp [collapse]

@[simp] theorem mark_collapse (t : Tree ι σ) : (collapse t).mark = t.mark := by
  cases t <;> simp [mark]

theorem mem_setMember {name : Text} {value : α} {p : Text × α} {members : List (Text × α)}
    (h : p ∈ setMember name value members) : p = (name, value) ∨ p ∈ members := by
  -- the replaced entry is the new one; all others were there before
  induction members with
  | nil => simpa [setMember] using h
  | cons m ms ih =>
      rcases m with ⟨k, v⟩
      simp only [setMember] at h
      split at h
      · rcases List.mem_cons.1 h with h | h
        · exact .inl h
        · exact .inr (List.mem_cons_of_mem _ h)
      · rcases List.mem_cons.1 h with h | h
        · exact .inr (by simp [h])
        · rcases ih h with h | h
          · exact .inl h
          · exact .inr (List.mem_cons_of_mem _ h)

/-- No member comes from nowhere. -/
theorem mem_of_mem_distinctMembers {p : Text × α} {members : List (Text × α)}
    (h : p ∈ distinctMembers members) : p ∈ members := by
  -- generalised over the members already collected, since the fold starts from any of them
  have hall : ∀ acc : List (Text × α),
      p ∈ members.foldl (fun acc m => setMember m.1 m.2 acc) acc → p ∈ acc ∨ p ∈ members := by
    clear h
    induction members with
    | nil => exact fun acc h => .inl h
    | cons m ms ih =>
        intro acc h
        rcases ih _ h with h | h
        · rcases mem_setMember h with rfl | h
          · exact .inr (List.mem_cons_self ..)
          · exact .inl h
        · exact .inr (List.mem_cons_of_mem _ h)
  simpa using hall [] h

/-- The nodes of a collapsed tree are collapsed nodes of the tree. -/
theorem Subtree.of_collapse {t v : Tree ι σ} (h : Subtree v (collapse t)) :
    ∃ u, Subtree u t ∧ v = collapse u := by
  induction t using nodeInduction with
  | leaf m w =>
      cases h
      exact ⟨_, .self, rfl⟩
  | array m items ih =>
      rw [collapse_array] at h
      cases h with
      | self => exact ⟨_, .self, (collapse_array ..).symm⟩
      | item hmem hsub =>
          rcases List.mem_map.1 hmem with ⟨t, ht, rfl⟩
          rcases ih t ht hsub with ⟨u, hu, rfl⟩
          exact ⟨u, .item ht hu, rfl⟩
  | object m members ih =>
      rw [collapse_object] at h
      cases h with
      | self => exact ⟨_, .self, (collapse_object ..).symm⟩
      | member hmem hsub =>
          -- members may be dropped for later ones of their name, but none is made up
          rcases List.mem_map.1 (mem_of_mem_distinctMembers hmem) with ⟨⟨name, t⟩, ht, heq⟩
          cases heq
          rcases ih (name, t) ht hsub with ⟨u, hu, rfl⟩
          exact ⟨u, .member ht hu, rfl⟩

/-! ## Leaves -/

theorem sequenceItems_eq_some_iff {vs : List α} {os : List (Option α)} :
    sequenceItems os = some vs ↔ os = vs.map some := by
  -- induction on the options; one missing value makes the whole list missing
  induction os generalizing vs with
  | nil => cases vs <;> simp [sequenceItems]
  | cons o os ih =>
      cases o with
      | none => cases vs <;> simp [sequenceItems]
      | some v =>
          cases vs with
          | nil => simp [sequenceItems, Option.bind_eq_some_iff]
          | cons w ws =>
              simp only [sequenceItems, Option.bind_eq_bind, Option.bind_eq_some_iff,
                Option.pure_def, Option.some.injEq, ih, List.cons.injEq, List.map_cons]
              constructor
              · rintro ⟨_, rfl, us, rfl, rfl, rfl⟩
                exact ⟨rfl, rfl⟩
              · rintro ⟨rfl, rfl⟩
                exact ⟨_, rfl, _, rfl, rfl, rfl⟩

theorem isSome_sequenceItems {os : List (Option α)} :
    (sequenceItems os).isSome = true ↔ ∀ o ∈ os, o.isSome = true := by
  induction os with
  | nil => simp [sequenceItems]
  | cons o os ih =>
      cases o with
      | none => simp [sequenceItems]
      | some v => simp [sequenceItems, ← ih, Option.isSome_bind]

theorem isSome_sequenceMembers {os : List (Text × Option α)} :
    (sequenceMembers os).isSome = true ↔ ∀ o ∈ os, o.2.isSome = true := by
  induction os with
  | nil => simp [sequenceMembers]
  | cons o os ih =>
      rcases o with ⟨name, o⟩
      cases o with
      | none => simp [sequenceMembers]
      | some v => simp [sequenceMembers, ih, Option.isSome_bind]

theorem sequenceMembers_eq_some_iff {vs : List (Text × α)} {os : List (Text × Option α)} :
    sequenceMembers os = some vs ↔ os = vs.map fun p => (p.1, some p.2) := by
  -- as for items, with the name carried along
  induction os generalizing vs with
  | nil => cases vs <;> simp [sequenceMembers]
  | cons o os ih =>
      rcases o with ⟨name, o⟩
      cases o with
      | none => cases vs <;> simp [sequenceMembers]
      | some v =>
          cases vs with
          | nil => simp [sequenceMembers, Option.bind_eq_some_iff]
          | cons w ws =>
              rcases w with ⟨name', w⟩
              simp only [sequenceMembers, Option.bind_eq_bind, Option.bind_eq_some_iff,
                Option.pure_def, Option.some.injEq, ih, List.cons.injEq, List.map_cons,
                Prod.mk.injEq]
              constructor
              · rintro ⟨_, rfl, us, rfl, ⟨rfl, rfl⟩, rfl⟩
                exact ⟨⟨rfl, rfl⟩, rfl⟩
              · rintro ⟨⟨rfl, rfl⟩, rfl⟩
                exact ⟨_, rfl, _, rfl, ⟨rfl, rfl⟩, rfl⟩

section

variable {f : σ → Option τ}

theorem mapLeaves?_leaf (m : ι) (v : σ) : mapLeaves? f (.leaf m v) = (f v).map (.leaf m) := rfl

theorem mapLeaves?_array (m : ι) (items : List (Tree ι σ)) :
    mapLeaves? f (.array m items) =
      (sequenceItems (items.map (mapLeaves? f))).map (.array m) := by
  simp [mapLeaves?]

theorem mapLeaves?_object (m : ι) (members : List (Text × Tree ι σ)) :
    mapLeaves? f (.object m members) =
      (sequenceMembers (members.map fun p => (p.1, mapLeaves? f p.2))).map (.object m) := by
  simp [mapLeaves?]

theorem isSome_mapLeaves?_array {m : ι} {items : List (Tree ι σ)} :
    (mapLeaves? f (.array m items)).isSome = true ↔
      ∀ t ∈ items, (mapLeaves? f t).isSome = true := by
  rw [mapLeaves?_array, Option.isSome_map, isSome_sequenceItems]
  simp only [List.forall_mem_map]

theorem isSome_mapLeaves?_object {m : ι} {members : List (Text × Tree ι σ)} :
    (mapLeaves? f (.object m members)).isSome = true ↔
      ∀ p ∈ members, (mapLeaves? f p.2).isSome = true := by
  rw [mapLeaves?_object, Option.isSome_map, isSome_sequenceMembers]
  simp only [List.forall_mem_map]

theorem mark_of_mapLeaves? {t : Tree ι σ} {v : Tree ι τ} (h : mapLeaves? f t = some v) :
    v.mark = t.mark := by
  -- the root keeps its constructor and its mark; only leaf values change
  cases t with
  | leaf m w =>
      rw [mapLeaves?_leaf] at h
      rcases Option.map_eq_some_iff.1 h with ⟨w', -, rfl⟩
      rfl
  | array m items =>
      rw [mapLeaves?_array] at h
      rcases Option.map_eq_some_iff.1 h with ⟨vs, -, rfl⟩
      rfl
  | object m members =>
      rw [mapLeaves?_object] at h
      rcases Option.map_eq_some_iff.1 h with ⟨vs, -, rfl⟩
      rfl

/-- Where all leaves can be changed, the nodes are those of the tree with their leaves changed. -/
theorem Subtree.of_mapLeaves? {t : Tree ι σ} {t' v : Tree ι τ} (h : mapLeaves? f t = some t')
    (hsub : Subtree v t') : ∃ u, Subtree u t ∧ mapLeaves? f u = some v := by
  -- induction on the original tree; a child of the result came from the child at the same position
  induction t using nodeInduction generalizing t' with
  | leaf m w =>
      rcases Option.map_eq_some_iff.1 (mapLeaves?_leaf (f := f) m w ▸ h) with ⟨w', -, rfl⟩
      cases hsub
      exact ⟨_, .self, h⟩
  | array m items ih =>
      rcases Option.map_eq_some_iff.1 (mapLeaves?_array (f := f) m items ▸ h) with ⟨vs, hvs, rfl⟩
      cases hsub with
      | self => exact ⟨_, .self, h⟩
      | @item _ _ w hmem hsub =>
          -- the child of the result is among the changed items, so it is the change of some item
          have hw : some w ∈ items.map (mapLeaves? f) := by
            rw [sequenceItems_eq_some_iff.1 hvs]
            exact List.mem_map_of_mem hmem
          rcases List.mem_map.1 hw with ⟨t, ht, hchanged⟩
          rcases ih t ht hchanged hsub with ⟨u, hu, heq⟩
          exact ⟨u, .item ht hu, heq⟩
  | object m members ih =>
      rcases Option.map_eq_some_iff.1 (mapLeaves?_object (f := f) m members ▸ h) with ⟨vs, hvs, rfl⟩
      cases hsub with
      | self => exact ⟨_, .self, h⟩
      | @member _ _ name w hmem hsub =>
          -- the same for a member, whose name the change keeps
          have hw : (name, some w) ∈ members.map fun p => (p.1, mapLeaves? f p.2) := by
            rw [sequenceMembers_eq_some_iff.1 hvs]
            exact List.mem_map_of_mem (f := fun p : Text × Tree ι τ => (p.1, some p.2)) hmem
          rcases List.mem_map.1 hw with ⟨⟨key, t⟩, ht, heq⟩
          rcases Prod.mk.inj heq with ⟨rfl, hchanged⟩
          rcases ih (key, t) ht hchanged hsub with ⟨u, hu, heq⟩
          exact ⟨u, .member ht hu, heq⟩

end

/-! ## Meaning -/

theorem mark_of_meaning? {t : SpelledTree} {v : Tree Nat Scalar} (h : t.meaning? = some v) :
    v.mark = t.mark := by
  rcases Option.map_eq_some_iff.1 h with ⟨changed, hchanged, rfl⟩
  rw [mark_collapse, mark_of_mapLeaves? hchanged]

theorem isObject_of_meaning? {t : SpelledTree} {v : Tree Nat Scalar} (h : t.meaning? = some v)
    (hobject : t.isObject = true) : v.isObject = true := by
  rcases Option.map_eq_some_iff.1 h with ⟨changed, hchanged, rfl⟩
  cases t with
  | leaf | array => cases hobject
  | object m members =>
      rw [mapLeaves?_object] at hchanged
      rcases Option.map_eq_some_iff.1 hchanged with ⟨vs, -, rfl⟩
      rw [collapse_object]
      rfl

/-- A node of what a tree means is what a node of the tree means. -/
theorem Subtree.of_meaning? {t : SpelledTree} {t' v : Tree Nat Scalar}
    (h : t.meaning? = some t') (hsub : Subtree v t') :
    ∃ u, Subtree u t ∧ u.meaning? = some v := by
  rcases Option.map_eq_some_iff.1 h with ⟨changed, hchanged, rfl⟩
  rcases Subtree.of_collapse hsub with ⟨w, hw, rfl⟩
  rcases Subtree.of_mapLeaves? hchanged hw with ⟨u, hu, heq⟩
  exact ⟨u, hu, by simp [meaning?, heq]⟩

/-- What stands at a leaf of what a tree means is what a literal of the tree stands for. -/
theorem exists_leaf_of_meaning? {t : SpelledTree} {v : Tree Nat Scalar} {s : Scalar}
    (h : t.meaning? = some v) (hleaf : v.HasLeaf s) :
    ∃ literal, t.HasLeaf literal ∧ literal.scalar? = some s := by
  rcases hleaf with ⟨mark, hsub⟩
  rcases Subtree.of_meaning? h hsub with ⟨u, hu, hmeans⟩
  -- collapsing repeated names never turns an inner node into a leaf, so the node was a leaf before
  rcases Option.map_eq_some_iff.1 hmeans with ⟨changed, hchanged, hcollapse⟩
  cases u with
  | leaf m literal =>
      rcases Option.map_eq_some_iff.1 hchanged with ⟨s', hs', rfl⟩
      obtain ⟨-, rfl⟩ := Tree.leaf.inj hcollapse
      exact ⟨literal, ⟨m, hu⟩, hs'⟩
  | array m items =>
      rw [mapLeaves?_array] at hchanged
      rcases Option.map_eq_some_iff.1 hchanged with ⟨vs, -, rfl⟩
      rw [collapse_array] at hcollapse
      cases hcollapse
  | object m members =>
      rw [mapLeaves?_object] at hchanged
      rcases Option.map_eq_some_iff.1 hchanged with ⟨vs, -, rfl⟩
      rw [collapse_object] at hcollapse
      cases hcollapse

end Tree

/-! ## The lexemes of a subtree -/

open ComponentMarkup.Tree (Subtree)

/-- Is this a node of one of the values of a phrase? -/
def Phrase.Holds (u : SpelledTree) : Phrase → Prop
  | .value tree => Subtree u tree
  | .items trees => ∃ t ∈ trees, Subtree u t
  | .members list => ∃ m ∈ list, Subtree u m.2

/-- The lexemes of a node stand together among those of the phrase that holds it. -/
theorem Spells.exists_subtree {room : Nat} {ls : List Lexeme} {p : Phrase} {u : SpelledTree}
    (h : Spells room ls p) (hu : p.Holds u) :
    ∃ before used after, ls = before ++ used ++ after ∧ Spells room used (.value u) := by
  -- what stands in a container was spelled with less room, and fits into that of the container
  induction h with
  | leaf =>
      cases hu
      exact ⟨[], _, [], rfl, .leaf⟩
  | emptyArray =>
      cases hu with
      | self => exact ⟨[], _, [], rfl, .emptyArray⟩
      | item hmem => cases hmem
  | @array room start ls trees hs ih =>
      cases hu with
      | self => exact ⟨[], _, [], by simp, .array hs⟩
      | item hmem hsub =>
          rcases ih ⟨_, hmem, hsub⟩ with ⟨before, used, after, rfl, hused⟩
          exact ⟨⟨start, .openArray⟩ :: before, used, after, by simp, hused.mono (by omega)⟩
  | emptyObject =>
      cases hu with
      | self => exact ⟨[], _, [], rfl, .emptyObject⟩
      | member hmem => cases hmem
  | @object room start nameAt colonAt ls name tree list hs ih =>
      cases hu with
      | self => exact ⟨[], _, [], (List.append_nil _).symm, .object hs⟩
      | member hmem hsub =>
          rcases ih ⟨_, hmem, hsub⟩ with ⟨before, used, after, rfl, hused⟩
          exact ⟨⟨start, .openObject⟩ :: ⟨nameAt, .literal (.string name)⟩ :: ⟨colonAt, .colon⟩ ::
            before, used, after, by simp, hused.mono (by omega)⟩
  | @lastItem room last ls tree hs ih =>
      rcases hu with ⟨t, ht, hsub⟩
      obtain rfl := List.mem_singleton.1 ht
      rcases ih hsub with ⟨before, used, after, rfl, hused⟩
      exact ⟨before, used, after ++ [⟨last, .closeArray⟩], by simp, hused⟩
  | @nextItem room commaAt ls more tree trees hs hmore ih ihmore =>
      rcases hu with ⟨t, ht, hsub⟩
      rcases List.mem_cons.1 ht with rfl | ht
      · rcases ih hsub with ⟨before, used, after, rfl, hused⟩
        exact ⟨before, used, after ++ ⟨commaAt, .comma⟩ :: more, by simp, hused⟩
      · rcases ihmore ⟨t, ht, hsub⟩ with ⟨before, used, after, rfl, hused⟩
        exact ⟨ls ++ ⟨commaAt, .comma⟩ :: before, used, after, by simp, hused⟩
  | @lastMember room last ls name tree hs ih =>
      rcases hu with ⟨m, hm, hsub⟩
      obtain rfl := List.mem_singleton.1 hm
      rcases ih hsub with ⟨before, used, after, rfl, hused⟩
      exact ⟨before, used, after ++ [⟨last, .closeObject⟩], by simp, hused⟩
  | @nextMember _ commaAt nameAt colonAt ls more name tree next nextTree list hs hmore ih ihmore =>
      rcases hu with ⟨m, hm, hsub⟩
      rcases List.mem_cons.1 hm with rfl | hm
      · rcases ih hsub with ⟨before, used, after, rfl, hused⟩
        exact ⟨before, used, after ++ ⟨commaAt, .comma⟩ :: ⟨nameAt, .literal (.string next)⟩ ::
          ⟨colonAt, .colon⟩ :: more, by simp, hused⟩
      · rcases ihmore ⟨m, hm, hsub⟩ with ⟨before, used, after, rfl, hused⟩
        exact ⟨ls ++ ⟨commaAt, .comma⟩ :: ⟨nameAt, .literal (.string next)⟩ ::
          ⟨colonAt, .colon⟩ :: before, used, after, by simp, hused⟩

end ComponentMarkup
