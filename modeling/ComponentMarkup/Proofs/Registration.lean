import ComponentMarkup.Compiler
import ComponentMarkup.Proofs.Writes

/-!
# Storing definitions

Definitions are stored one after another, so the last one with a name stays under it and other
names keep what they had (`Compiler.find?_foldl_upsert`); each counts as one write. What was stored
in an empty registry are the last definitions of their names, in the order of the names
(`Compiler.mem_entries_foldl_upsert`, `Compiler.keys_foldl_upsert`).
-/

namespace ComponentMarkup

/-- The last element that a test picks from a list in order: whatever else is picked stands before
it. -/
theorem exists_latest {α β : Type} {R : α → α → Prop} {xs : List α} (hordered : xs.Pairwise R)
    {f : α → Option β} {b : β} (h : xs.reverse.findSome? f = some b) :
    ∃ a ∈ xs, f a = some b ∧ ∀ x ∈ xs, f x ≠ none → R x a ∨ x = a := by
  -- searching from the back splits the list at the element found; everything behind it was passed
  -- over
  rcases List.findSome?_eq_some_iff.1 h with ⟨later, a, earlier, hxs, ha, hlater⟩
  obtain rfl : xs = earlier.reverse ++ a :: later.reverse := by
    rw [← List.reverse_reverse xs, hxs]
    simp
  rcases List.pairwise_append.1 hordered with ⟨-, -, hbefore⟩
  refine ⟨a, List.mem_append_right _ (List.mem_cons_self ..), ha, ?_⟩
  intro x hx hpicked
  -- in front of it, itself, or behind it, where `f` gives nothing
  rcases List.mem_append.1 hx with hx | hx
  · exact .inl (hbefore x hx a (List.mem_cons_self ..))
  · rcases List.mem_cons.1 hx with rfl | hx
    · exact .inr rfl
    · exact absurd (hlater x (List.mem_reverse.1 hx)) hpicked

namespace Compiler

/-- Storing definitions is a fold of single writes, each of which is counted. -/
theorem registerAll_eq_foldl (c : Compiler) (registry : Registry) (ds : List Definition) :
    c.registerAll registry ds =
      ({ c with upserts := c.upserts + ds.length },
        ds.foldl (fun r d => r.upsert d.componentName (c.entryOf d)) registry) := by
  induction ds generalizing c registry with
  | nil => rfl
  | cons d ds ih =>
      rw [registerAll, register]
      dsimp only
      rw [ih, List.length_cons, List.foldl_cons, Nat.add_assoc, Nat.add_comm 1]
      rfl

/-- The write that stores a definition. -/
def writeOf (c : Compiler) (d : Definition) : Write := ⟨d.componentName, c.entryOf d⟩

theorem foldl_upsert_eq_writeAll (c : Compiler) (registry : Registry) (ds : List Definition) :
    ds.foldl (fun r d => r.upsert d.componentName (c.entryOf d)) registry =
      registry.writeAll (ds.map c.writeOf) := by
  rw [Registry.writeAll, List.foldl_map]
  rfl

/-- After definitions have been stored, a name has the last one among them, if one has this name,
and otherwise what it had before. -/
theorem find?_foldl_upsert (c : Compiler) (registry : Registry) (ds : List Definition)
    (name : Text) :
    (ds.foldl (fun r d => r.upsert d.componentName (c.entryOf d)) registry).find? name =
      ((ds.reverse.find? fun d => d.componentName = name).map c.entryOf).or
        (registry.find? name) := by
  rw [foldl_upsert_eq_writeAll, Registry.find?_writeAll, ← List.map_reverse, List.find?_map,
    Option.map_map]
  rfl

theorem mem_bindings_foldl_upsert (c : Compiler) (registry : Registry) (ds : List Definition)
    (b : Text × RegistryEntry)
    (h : b ∈ (ds.foldl (fun r d => r.upsert d.componentName (c.entryOf d)) registry).bindings) :
    b ∈ registry.bindings ∨ ∃ d ∈ ds, b = (d.componentName, c.entryOf d) := by
  rcases b with ⟨key, entry⟩
  rw [← Registry.find?_eq_some_iff, find?_foldl_upsert, Option.or_eq_some_iff] at h
  rcases h with hnew | ⟨-, hold⟩
  · rcases Option.map_eq_some_iff.1 hnew with ⟨d, hd, rfl⟩
    have hkey : d.componentName = key := by simpa using List.find?_some hd
    exact .inr ⟨d, List.mem_reverse.1 (List.mem_of_find?_eq_some hd), by rw [hkey]⟩
  · exact .inl (Registry.find?_eq_some_iff.1 hold)

/-- What is stored in an empty registry are the last definitions of their names. -/
theorem mem_entries_foldl_upsert (c : Compiler) (ds : List Definition) (e : RegistryEntry) :
    e ∈ (ds.foldl (fun r d => r.upsert d.componentName (c.entryOf d)) Registry.empty).entries ↔
      ∃ d, ds.reverse.find? (fun d' => d'.componentName = d.componentName) = some d ∧
        e = c.entryOf d := by
  have hfind := c.find?_foldl_upsert .empty ds
  generalize ds.foldl (fun r d => r.upsert d.componentName (c.entryOf d)) Registry.empty = registry
    at hfind
  -- an entry is found under its key, and so was written by the last definition of that name
  constructor
  · intro he
    rcases List.mem_map.1 he with ⟨⟨key, e⟩, hmem, rfl⟩
    have hlast := (hfind key).symm.trans (Registry.find?_eq_some_iff.2 hmem)
    cases hd : ds.reverse.find? fun d => d.componentName = key with
    | none =>
        rw [hd] at hlast
        cases hlast
    | some d =>
        rw [hd] at hlast
        obtain rfl : d.componentName = key := by simpa using List.find?_some hd
        exact ⟨d, hd, (Option.some.inj hlast).symm⟩
  · rintro ⟨d, hd, rfl⟩
    have hentry := hfind d.componentName
    rw [hd] at hentry
    exact List.mem_map.2 ⟨_, Registry.find?_eq_some_iff.1 hentry, rfl⟩

/-- What is stored in an empty registry is in the order of the names. -/
theorem keys_foldl_upsert (c : Compiler) (ds : List Definition) :
    ((ds.foldl (fun r d => r.upsert d.componentName (c.entryOf d)) Registry.empty).entries.map
      RegistryEntry.key).Pairwise fun a b => Text.before a b = true := by
  have hmem := c.mem_bindings_foldl_upsert .empty ds
  generalize ds.foldl (fun r d => r.upsert d.componentName (c.entryOf d)) Registry.empty = registry
    at hmem
  -- the fold starts from the empty registry, so each entry stands under its own name
  have hkeys : registry.entries.map RegistryEntry.key = registry.bindings.map Prod.fst := by
    rw [Registry.entries, List.map_map]
    apply List.map_congr_left
    intro b hb
    rcases hmem b hb with hempty | ⟨d, -, rfl⟩
    · cases hempty
    · rfl
  rw [hkeys, List.pairwise_map]
  exact registry.ascending

end Compiler

end ComponentMarkup
