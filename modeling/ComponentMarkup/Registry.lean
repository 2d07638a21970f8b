import ComponentMarkup.Component.Definition
import ComponentMarkup.Text.Order

/-!
# The registry of components

Entries are kept under keys in ascending order of their code points; the last write to a key wins.
-/

namespace ComponentMarkup

/-- What the registry knows of a component. -/
structure RegistryEntry where
  definition : Definition
  category : Text
  visibleInMenu : Bool
  deriving DecidableEq

/-- The name of the component. -/
def RegistryEntry.key (e : RegistryEntry) : Text := e.definition.componentName

/-- Entries under ascending keys. -/
structure Registry where
  bindings : List (Text × RegistryEntry)
  ascending : bindings.Pairwise fun a b => Text.before a.1 b.1 = true

namespace Registry

/-- The registry without entries. -/
def empty : Registry := ⟨[], .nil⟩

/-- Puts an entry in its place among ascending keys, in place of one with the same key. -/
def insertBinding (key : Text) (entry : RegistryEntry) :
    List (Text × RegistryEntry) → List (Text × RegistryEntry)
  | [] => [(key, entry)]
  | b :: bs =>
      if Text.before key b.1 then (key, entry) :: b :: bs
      else if key = b.1 then (key, entry) :: bs
      else b :: insertBinding key entry bs

theorem mem_insertBinding {key : Text} {entry : RegistryEntry} {b : Text × RegistryEntry}
    {bindings : List (Text × RegistryEntry)} (h : b ∈ insertBinding key entry bindings) :
    b = (key, entry) ∨ b ∈ bindings := by
  induction bindings with
  | nil => simpa [insertBinding] using h
  | cons a as ih =>
    simp only [insertBinding] at h
    split at h
    · simpa using h
    · split at h
      · rcases List.mem_cons.1 h with h | h
        · exact .inl h
        · exact .inr (List.mem_cons_of_mem _ h)
      · rcases List.mem_cons.1 h with h | h
        · exact .inr (by simp [h])
        · rcases ih h with h | h
          · exact .inl h
          · exact .inr (List.mem_cons_of_mem _ h)

theorem ascending_insertBinding (key : Text) (entry : RegistryEntry)
    {bindings : List (Text × RegistryEntry)}
    (h : bindings.Pairwise fun a b => Text.before a.1 b.1 = true) :
    (insertBinding key entry bindings).Pairwise fun a b => Text.before a.1 b.1 = true := by
  induction bindings with
  | nil => simp [insertBinding]
  | cons a as ih =>
    obtain ⟨hhead, htail⟩ := List.pairwise_cons.1 h
    simp only [insertBinding]
    split
    · next hlt =>
      refine List.pairwise_cons.2 ⟨fun b hb => ?_, h⟩
      rcases List.mem_cons.1 hb with rfl | hb
      · exact hlt
      · exact Text.isLinear_before.trans hlt (hhead b hb)
    · next hnlt =>
      split
      · next heq =>
        refine List.pairwise_cons.2 ⟨fun b hb => ?_, htail⟩
        exact heq ▸ hhead b hb
      · next hne =>
        refine List.pairwise_cons.2 ⟨fun b hb => ?_, ih htail⟩
        rcases mem_insertBinding hb with rfl | hb
        · cases hafter : Text.before a.1 key with
          | true => rfl
          | false =>
            have hbefore : Text.before key a.1 = false := by simpa using hnlt
            exact absurd (Text.isLinear_before.total hbefore hafter) hne
        · exact hhead b hb

/-- Stores an entry under a key, in place of the one stored before. -/
def upsert (r : Registry) (key : Text) (entry : RegistryEntry) : Registry :=
  ⟨insertBinding key entry r.bindings, ascending_insertBinding key entry r.ascending⟩

/-- The entry under a key. -/
def find? (r : Registry) (key : Text) : Option RegistryEntry :=
  (r.bindings.find? fun b => b.1 = key).map Prod.snd

/-- Is there an entry under a key? -/
def contains (r : Registry) (key : Text) : Bool := r.bindings.any fun b => b.1 = key

theorem contains_eq_isSome_find? (r : Registry) (key : Text) :
    r.contains key = (r.find? key).isSome := by
  rw [contains, find?, Option.isSome_map, Bool.eq_iff_iff]
  simp

/-- A stored entry is under its key, and what is under other keys stays. -/
theorem find?_upsert (r : Registry) (key : Text) (entry : RegistryEntry) (k : Text) :
    (r.upsert key entry).find? k = if k = key then some entry else r.find? k := by
  simp only [find?, upsert]
  induction r.bindings with
  | nil => by_cases hk : key = k <;> simp [insertBinding, hk, eq_comm]
  | cons b bs ih =>
    simp only [insertBinding]
    split
    · by_cases hk : key = k <;> simp [hk, eq_comm]
    · split
      · next hb =>
        subst hb
        by_cases hk : b.1 = k
        · simp [hk]
        · simp [hk, Ne.symm hk]
      · next hb =>
        by_cases hk : b.1 = k
        · subst hk
          simp [Ne.symm hb]
        · simpa [hk] using ih

/-- The number of entries. -/
def size (r : Registry) : Nat := r.bindings.length

/-- The entries in the order of their keys. -/
def entries (r : Registry) : List RegistryEntry := r.bindings.map Prod.snd

/-- The entries of a category in the order of their keys. -/
def entriesOf (r : Registry) (category : Text) : List RegistryEntry :=
  r.entries.filter fun e => e.category = category

end Registry

end ComponentMarkup
