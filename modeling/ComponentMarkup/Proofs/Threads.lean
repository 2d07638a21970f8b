import ComponentMarkup.Proofs.Writes
import Mathlib.Data.List.Induction
import Mathlib.Logic.Function.Basic

/-!
# Threads that share a registry

Threads write to one registry, each its own sequence of entries. The lock of the registry makes a
write one step, so a run is an interleaving of these sequences, and every interleaving is a run
(`SharedRegistry.reaches_iff`). In every state that is reached the registry holds what was written
last under each key; which thread wrote in between leaves no trace, as long as the writes to each
single key come in one order (`SharedRegistry.reaches_holdsLatest`).
-/

namespace ComponentMarkup

/-- A registry that threads share, and what each of them has still to write. -/
structure SharedRegistry (ι : Type) where
  registry : Registry
  pending : ι → List Write

namespace SharedRegistry

variable {ι : Type} [DecidableEq ι]

/-- A thread that holds the lock writes what is its next. -/
inductive Step (i : ι) (w : Write) : SharedRegistry ι → SharedRegistry ι → Prop where
  | write {registry : Registry} {pending : ι → List Write} {rest : List Write}
      (hnext : pending i = w :: rest) :
      Step i w ⟨registry, pending⟩ ⟨registry.write w, Function.update pending i rest⟩

/-- The states that threads with these programs reach from an empty registry, and the writes up to
there, each with its thread. -/
inductive Reaches (programs : ι → List Write) : List (ι × Write) → SharedRegistry ι → Prop where
  | start : Reaches programs [] ⟨.empty, programs⟩
  | step {history : List (ι × Write)} {s s' : SharedRegistry ι} {i : ι} {w : Write} :
      Reaches programs history s → Step i w s s' → Reaches programs (history ++ [(i, w)]) s'

section

variable {programs programs' : ι → List Write} {history history' : List (ι × Write)}
  {s s' : SharedRegistry ι} {i : ι} {w : Write}

/-- What a thread has written, in order. -/
def writesOf (history : List (ι × Write)) (i : ι) : List Write :=
  (history.filter fun p => p.1 = i).map Prod.snd

theorem writesOf_append_singleton (history : List (ι × Write)) (i : ι) (w : Write) (j : ι) :
    writesOf (history ++ [(i, w)]) j =
      if i = j then writesOf history j ++ [w] else writesOf history j := by
  unfold writesOf
  rw [List.filter_append, List.map_append]
  split
  · next heq =>
    subst heq
    simp
  · next hne => simp [hne]

/-! ## Runs are interleavings -/

/-- A write adds to the history of its thread what it takes from what the thread has to write. -/
theorem Step.writesOf_append_pending (h : s.Step i w s') (history : List (ι × Write)) (j : ι) :
    writesOf (history ++ [(i, w)]) j ++ s'.pending j = writesOf history j ++ s.pending j := by
  cases h with
  | @write registry pending rest hnext =>
      rw [writesOf_append_singleton]
      by_cases hij : i = j
      · subst hij
        simp [hnext]
      · simp [hij, Function.update_of_ne (Ne.symm hij)]

/-- A state is reached by the interleavings of what the threads have written so far, and by nothing
else. -/
theorem reaches_iff :
    Reaches programs history s ↔
      s.registry = Registry.empty.writeAll (history.map Prod.snd) ∧
        ∀ i, writesOf history i ++ s.pending i = programs i := by
  constructor
  · intro h
    induction h with
    | start => exact ⟨rfl, fun i => rfl⟩
    | @step history s i w s' _ hstep ih =>
        rcases ih with ⟨hregistry, hprograms⟩
        refine ⟨?_, fun j => (hstep.writesOf_append_pending history j).trans (hprograms j)⟩
        cases hstep with
        | write hnext =>
            rw [List.map_append, Registry.writeAll_append, ← hregistry]
            rfl
  · rintro ⟨hregistry, hprograms⟩
    induction history using List.reverseRecOn generalizing s with
    | nil =>
        rcases s with ⟨registry, pending⟩
        obtain rfl : pending = programs := funext hprograms
        subst hregistry
        exact .start
    | append_singleton history p ih =>
        rcases p with ⟨i, w⟩
        -- before its last write a thread had this write still to do
        let before : SharedRegistry ι :=
          { registry := Registry.empty.writeAll (history.map Prod.snd)
            pending := Function.update s.pending i (w :: s.pending i) }
        have hstep : Step i w before s := by
          have hnext : before.pending i = w :: s.pending i := Function.update_self ..
          have hafter : s = ⟨before.registry.write w,
              Function.update before.pending i (s.pending i)⟩ := by
            rw [Function.update_idem, Function.update_eq_self]
            rcases s with ⟨registry, pending⟩
            subst hregistry
            rw [List.map_append, Registry.writeAll_append]
            rfl
          rw [hafter]
          exact .write hnext
        refine .step (ih rfl ?_) hstep
        intro j
        exact (hstep.writesOf_append_pending history j).symm.trans (hprograms j)

/-! ## Keys -/

/-- What is written is what its thread has to write. -/
theorem Reaches.mem_program (h : Reaches programs history s) (hmem : (i, w) ∈ history) :
    w ∈ programs i := by
  rcases reaches_iff.1 h with ⟨-, hprograms⟩
  rw [← hprograms i]
  apply List.mem_append_left
  exact List.mem_map.2 ⟨(i, w), List.mem_filter.2 ⟨hmem, decide_eq_true rfl⟩, rfl⟩

/-- If one thread alone writes to a key, all that is written to the key is what this thread writes
to it. -/
theorem filter_key_of_owner {key : Text} (howner : ∀ p ∈ history, p.2.key = key → p.1 = i) :
    (history.map Prod.snd).filter (fun w => w.key = key) =
      (writesOf history i).filter fun w => w.key = key := by
  rw [writesOf, List.filter_map, List.filter_map, List.filter_filter]
  apply congrArg (List.map Prod.snd)
  apply List.filter_congr
  intro p hp
  by_cases hkey : p.2.key = key
  · simp [hkey, howner p hp hkey]
  · simp [hkey]

/-- The keys of different threads are different. -/
def DisjointKeys (programs : ι → List Write) : Prop :=
  ∀ i j, i ≠ j → ∀ w ∈ programs i, ∀ w' ∈ programs j, w.key ≠ w'.key

/-- All threads have written what they had to write. -/
def IsDone (s : SharedRegistry ι) : Prop := ∀ i, s.pending i = []

/-- When threads on keys of their own are done, what was written to a key is what its thread had to
write to it. -/
theorem Reaches.filter_key_of_mem (h : Reaches programs history s) (hdone : s.IsDone)
    (hkeys : DisjointKeys programs) (hw : w ∈ programs i) :
    (history.map Prod.snd).filter (fun w' => w'.key = w.key) =
      (programs i).filter fun w' => w'.key = w.key := by
  have howner : ∀ p ∈ history, p.2.key = w.key → p.1 = i := by
    rintro ⟨j, w'⟩ hp hkey
    by_contra hne
    exact hkeys j i hne w' (h.mem_program hp) w hw hkey
  have hprogram : writesOf history i = programs i := by
    have hsplit := (reaches_iff.1 h).2 i
    rwa [hdone i, List.append_nil] at hsplit
  rw [filter_key_of_owner howner, hprogram]

theorem Reaches.filter_key_of_not_mem {key : Text} (h : Reaches programs history s)
    (hnone : ∀ i, ∀ w ∈ programs i, w.key ≠ key) :
    (history.map Prod.snd).filter (fun w => w.key = key) = [] := by
  rw [List.filter_map, List.map_eq_nil_iff, List.filter_eq_nil_iff]
  rintro ⟨i, w⟩ hp
  have hne := hnone i w (h.mem_program hp)
  simpa using hne

/-! ## The registry -/

/-- In every state that threads reach, whatever the order in which they write, the registry holds of
each key what was written last. Two runs in which the writes to each single key come in one order
leave one registry, and so one listing. In particular all runs of threads on keys of their own do,
when the threads are done. -/
theorem reaches_holdsLatest (programs : ι → List Write) :
    (∀ history s, Reaches programs history s →
      s.registry.HoldsLatest (history.map Prod.snd)) ∧
    (∀ history history' s s', Reaches programs history s → Reaches programs history' s' →
      (∀ key, (history.map Prod.snd).filter (fun w => w.key = key) =
        (history'.map Prod.snd).filter fun w => w.key = key) →
      s.registry = s'.registry ∧ s.registry.entries = s'.registry.entries) ∧
    (DisjointKeys programs → ∀ history history' s s', Reaches programs history s →
      Reaches programs history' s' → s.IsDone → s'.IsDone →
      s.registry = s'.registry ∧ s.registry.entries = s'.registry.entries) := by
  -- a registry is the fold of its history, and per key only the order of that key matters
  have hsame : ∀ history history' s s', Reaches programs history s →
      Reaches programs history' s' →
      (∀ key, (history.map Prod.snd).filter (fun w => w.key = key) =
        (history'.map Prod.snd).filter fun w => w.key = key) →
      s.registry = s'.registry ∧ s.registry.entries = s'.registry.entries := by
    intro history history' s s' h h' hkeys
    have hregistry : s.registry = s'.registry := by
      rw [(reaches_iff.1 h).1, (reaches_iff.1 h').1]
      exact Registry.writeAll_eq_of_filter_eq .empty hkeys
    exact ⟨hregistry, congrArg Registry.entries hregistry⟩
  refine ⟨?_, hsame, ?_⟩
  · intro history s h
    rw [(reaches_iff.1 h).1]
    exact Registry.holdsLatest_writeAll _
  · -- with keys apart, the writes of a key come from one thread, in its own order
    intro hdisjoint history history' s s' h h' hdone hdone'
    apply hsame history history' s s' h h'
    intro key
    by_cases hsome : ∃ i, ∃ w ∈ programs i, w.key = key
    · rcases hsome with ⟨i, w, hw, rfl⟩
      rw [h.filter_key_of_mem hdone hdisjoint hw, h'.filter_key_of_mem hdone' hdisjoint hw]
    · -- a key no thread writes has an empty history in both runs
      have hnone : ∀ i, ∀ w ∈ programs i, w.key ≠ key := by
        intro i w hw hkey
        exact hsome ⟨i, w, hw, hkey⟩
      rw [h.filter_key_of_not_mem hnone, h'.filter_key_of_not_mem hnone]

end

/-- One thread overwrites its entry, another one writes to its own key before or in between. -/
theorem reaches_holdsLatest_two_threads :
    let a : Text := Text.ofString "a"
    let b : Text := Text.ofString "b"
    let write (key file : Text) : Write := ⟨key, ⟨⟨key, key, file, []⟩, [], true⟩⟩
    let programs (thread : Bool) : List Write :=
      if thread then [write b a, write b b] else [write a a]
    let history := [(true, write b a), (false, write a a), (true, write b b)]
    let history' := [(false, write a a), (true, write b a), (true, write b b)]
    DisjointKeys programs ∧ ∃ s s',
      Reaches programs history s ∧ Reaches programs history' s' ∧ s.IsDone ∧ s'.IsDone ∧
      s.registry.HoldsLatest (history.map Prod.snd) ∧
      s.registry = s'.registry ∧ s.registry.entries = s'.registry.entries := by
  intro a b write programs history history'
  have hdisjoint : DisjointKeys programs := by
    unfold DisjointKeys
    decide
  let s : SharedRegistry Bool := ⟨Registry.empty.writeAll (history.map Prod.snd), fun _ => []⟩
  let s' : SharedRegistry Bool := ⟨Registry.empty.writeAll (history'.map Prod.snd), fun _ => []⟩
  have h : Reaches programs history s := by
    refine reaches_iff.2 ⟨rfl, ?_⟩
    decide
  have h' : Reaches programs history' s' := by
    refine reaches_iff.2 ⟨rfl, ?_⟩
    decide
  have hdone : s.IsDone := fun _ => rfl
  have hdone' : s'.IsDone := fun _ => rfl
  rcases reaches_holdsLatest programs with ⟨hlatest, -, hdone_eq⟩
  exact ⟨hdisjoint, s, s', h, h', hdone, hdone', hlatest history s h,
    hdone_eq hdisjoint history history' s s' h h' hdone hdone'⟩

end SharedRegistry

end ComponentMarkup
