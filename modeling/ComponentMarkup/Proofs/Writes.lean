import ComponentMarkup.Registry
import ComponentMarkup.Proofs.Text.Order
import Mathlib.Data.List.Dedup

/-!
# Writes to a registry

What a sequence of writes leaves. Under each key stands the entry that was written last
(`Registry.find?_writeAll`), and a registry is what stands under its keys
(`Registry.eq_of_find?_eq`). So nothing counts but the order of the writes to each single key
(`Registry.writeAll_eq_of_filter_eq`), and all that can be asked of the registry can be answered
from the writes (`Registry.holdsLatest_writeAll`).
-/

namespace ComponentMarkup

/-- An entry to be stored under a key. -/
structure Write where
  key : Text
  entry : RegistryEntry
  deriving DecidableEq

namespace Registry

/-- Stores the entry of a write. -/
def write (r : Registry) (w : Write) : Registry := r.upsert w.key w.entry

/-- Stores the entries of writes, one after another. -/
def writeAll (r : Registry) (writes : List Write) : Registry := writes.foldl write r

/-! ## What stands under the keys -/

/-- There is one entry under a key. -/
theorem find?_eq_some_iff {r : Registry} {key : Text} {entry : RegistryEntry} :
    r.find? key = some entry ↔ (key, entry) ∈ r.bindings := by
  rcases r with ⟨bindings, ascending⟩
  simp only [find?]
  -- induction on the ascending bindings: a key found first does not occur again
  induction bindings with
  | nil => simp
  | cons b bs ih =>
      rcases List.pairwise_cons.1 ascending with ⟨hfirst, hrest⟩
      rw [List.find?_cons, List.mem_cons]
      by_cases hkey : b.1 = key
      · have hlater : (key, entry) ∉ bs := fun hmem =>
          Text.isLinear_before.ne (hfirst _ hmem) hkey
        simp [hkey, hlater, Prod.ext_iff, eq_comm]
      · have hnot : (key, entry) ≠ b := by
          rintro rfl
          exact hkey rfl
        simpa [hkey, hnot] using ih hrest

/-- The keys of a registry, in its order. -/
def keys (r : Registry) : List Text := r.bindings.map Prod.fst

theorem ascending_keys (r : Registry) : r.keys.Pairwise fun a b => Text.before a b = true :=
  List.pairwise_map.2 r.ascending

theorem nodup_keys (r : Registry) : r.keys.Nodup :=
  r.ascending_keys.imp fun hbefore => Text.isLinear_before.ne hbefore

theorem mem_keys_iff {r : Registry} {key : Text} : key ∈ r.keys ↔ r.find? key ≠ none := by
  rw [Option.ne_none_iff_exists']
  constructor
  · intro h
    rcases List.mem_map.1 h with ⟨⟨_, entry⟩, hmem, rfl⟩
    exact ⟨entry, find?_eq_some_iff.2 hmem⟩
  · rintro ⟨entry, hfind⟩
    exact List.mem_map.2 ⟨(key, entry), find?_eq_some_iff.1 hfind, rfl⟩

theorem contains_iff {r : Registry} {key : Text} :
    r.contains key = true ↔ r.find? key ≠ none := by
  rw [contains_eq_isSome_find?, Option.isSome_iff_ne_none]

/-- The entries of a registry are what stands under its keys. -/
theorem map_find?_keys (r : Registry) : r.keys.map r.find? = r.entries.map some := by
  rw [keys, entries, List.map_map, List.map_map]
  apply List.map_congr_left
  intro b hb
  exact find?_eq_some_iff.2 hb

/-- A registry is what stands under its keys. -/
theorem eq_of_find?_eq {r r' : Registry} (h : ∀ key, r.find? key = r'.find? key) : r = r' := by
  have hordered : ∀ q : Registry, q.bindings.Pairwise fun a b => Text.before a.1 b.1 = true :=
    ascending
  have hnodup : ∀ q : Registry, q.bindings.Nodup := by
    intro q
    refine (hordered q).imp ?_
    rintro a b hbefore rfl
    exact Text.isLinear_before.ne hbefore rfl
  -- the same bindings belong to both, and an ascending list is determined by its members
  have hmem : ∀ b, b ∈ r.bindings ↔ b ∈ r'.bindings := by
    rintro ⟨key, entry⟩
    rw [← find?_eq_some_iff, ← find?_eq_some_iff, h key]
  have hperm : r.bindings.Perm r'.bindings :=
    (List.perm_ext_iff_of_nodup (hnodup r) (hnodup r')).2 hmem
  have heq : r.bindings = r'.bindings := by
    refine hperm.eq_of_pairwise ?_ (hordered r) (hordered r')
    intro a b _ _ hab hba
    rw [Text.isLinear_before.asymm hab] at hba
    cases hba
  cases r
  cases r'
  cases heq
  rfl

/-! ## Sequences of writes -/

theorem writeAll_append (r : Registry) (writes more : List Write) :
    r.writeAll (writes ++ more) = (r.writeAll writes).writeAll more :=
  List.foldl_append ..

/-- Under a key stands the entry that was written last, and what was there before if none was. -/
theorem find?_writeAll (r : Registry) (writes : List Write) (key : Text) :
    (r.writeAll writes).find? key =
      ((writes.reverse.find? fun w => w.key = key).map Write.entry).or (r.find? key) := by
  induction writes generalizing r with
  | nil => rfl
  | cons w ws ih =>
      rw [writeAll, List.foldl_cons, ← writeAll, ih, write, find?_upsert, List.reverse_cons,
        List.find?_append]
      cases hlater : ws.reverse.find? fun w => w.key = key with
      | some w' => rfl
      | none =>
          by_cases hkey : key = w.key
          · simp [hkey]
          · simp [hkey, Ne.symm hkey]

/-- Only the order of the writes to each single key counts. -/
theorem writeAll_eq_of_filter_eq (r : Registry) {writes writes' : List Write}
    (h : ∀ key, writes.filter (fun w => w.key = key) = writes'.filter fun w => w.key = key) :
    r.writeAll writes = r.writeAll writes' := by
  apply eq_of_find?_eq
  intro key
  have hlast : ∀ ws : List Write,
      ws.reverse.find? (fun w => w.key = key) = (ws.filter fun w => w.key = key).getLast? := by
    intro ws
    rw [← List.head?_filter, List.filter_reverse, List.head?_reverse]
  rw [find?_writeAll, find?_writeAll, hlast, hlast, h key]

/-- A registry holds of each key what was written last, and lists this in the order of the keys. -/
structure HoldsLatest (r : Registry) (writes : List Write) : Prop where
  latest : ∀ key, r.find? key = (writes.reverse.find? fun w => w.key = key).map Write.entry
  contains : ∀ key, r.contains key = true ↔ r.find? key ≠ none
  size : r.size = (writes.map Write.key).dedup.length
  listing : ∃ keys : List Text, keys.Pairwise (fun a b => Text.before a b = true) ∧
    (∀ key, key ∈ keys ↔ key ∈ writes.map Write.key) ∧
    r.entries.map some = keys.map r.find? ∧
    ∀ category, r.entriesOf category =
      keys.filterMap fun key => (r.find? key).filter fun e => e.category = category

/-- What was written to a registry that was empty is all that it holds. -/
theorem holdsLatest_writeAll (writes : List Write) :
    (empty.writeAll writes).HoldsLatest writes := by
  have hlatest : ∀ key, (empty.writeAll writes).find? key =
      (writes.reverse.find? fun w => w.key = key).map Write.entry := by
    intro key
    have hempty : empty.find? key = none := rfl
    rw [find?_writeAll, hempty, Option.or_none]
  have hkeys : ∀ key, key ∈ (empty.writeAll writes).keys ↔ key ∈ writes.map Write.key := by
    intro key
    rw [mem_keys_iff, hlatest]
    simp [List.find?_eq_none]
  -- only what is found and which keys there are is used from here on
  generalize empty.writeAll writes = r at hlatest hkeys
  refine ⟨hlatest, fun key => contains_iff, ?_, r.keys, r.ascending_keys, hkeys,
    r.map_find?_keys.symm, ?_⟩
  · have hperm : r.keys.Perm (writes.map Write.key).dedup := by
      rw [List.perm_ext_iff_of_nodup r.nodup_keys (List.nodup_dedup _)]
      intro key
      rw [hkeys, List.mem_dedup]
    rw [← hperm.length_eq, size, keys, List.length_map]
  · -- the entries of a category are those of all entries, filtered, in the order of the keys
    intro category
    have hfilter : r.entriesOf category =
        (r.entries.map some).filterMap (Option.filter fun e => e.category = category) := by
      rw [List.filterMap_map, entriesOf, ← List.filterMap_eq_filter]
      rfl
    rw [hfilter, ← r.map_find?_keys, List.filterMap_map]
    rfl

end Registry

end ComponentMarkup
