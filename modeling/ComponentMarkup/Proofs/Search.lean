import ComponentMarkup.Marker
import Mathlib.Computability.StateTransition

/-!
# The search for a marker

The search looks for the next occurrence of a marker, lists it, and looks again from one character
further on. We show that it comes to an end and has then listed every offset at which the marker
stands, in ascending order and therefore none twice (`markerOffsets_exact`). That nothing is
skipped is an invariant of the steps: what is listed are the occurrences in front of the next one
(`MarkerSearch.Invariant`), so once there is no next one, it is all of them. A text may be a list of
characters of any type.
-/

namespace ComponentMarkup

variable {α : Type} [DecidableEq α]

/-! ## The next occurrence -/

/-- An offset is that of the first occurrence of a word in a text at or behind `start`. -/
structure IsNextOccurrence (word text : List α) (start offset : Nat) : Prop where
  behind : start ≤ offset
  le : offset ≤ text.length
  occurs : word <+: text.drop offset
  first : ∀ i, start ≤ i → i < offset → ¬ word <+: text.drop i

section

variable {word text : List α} {start offset : Nat}

theorem nextOccurrence?_eq_some_iff :
    nextOccurrence? word text start = some offset ↔ IsNextOccurrence word text start offset := by
  rw [nextOccurrence?_eq_find?, List.find?_range'_eq_some, List.mem_range'_1]
  simp only [Bool.not_eq_true', ← Bool.not_eq_true, List.isPrefixOf_iff_prefix]
  constructor
  · rintro ⟨hoccurs, ⟨hbehind, hlt⟩, hfirst⟩
    exact ⟨hbehind, by omega, hoccurs, hfirst⟩
  · rintro ⟨hbehind, hle, hoccurs, hfirst⟩
    exact ⟨hoccurs, ⟨hbehind, by omega⟩, hfirst⟩

theorem nextOccurrence?_eq_none_iff :
    nextOccurrence? word text start = none ↔
      ∀ i, start ≤ i → i ≤ text.length → ¬ word <+: text.drop i := by
  rw [nextOccurrence?_eq_find?, List.find?_range'_eq_none]
  simp only [Bool.not_eq_true', ← Bool.not_eq_true, List.isPrefixOf_iff_prefix]
  constructor
  · intro hnone i hi hle
    exact hnone i hi (by omega)
  · intro hnone i hi hlt
    exact hnone i hi (by omega)

end

section

variable {marker text : List α}

omit [DecidableEq α] in
/-- A marker does not stand at or behind the end of a text. -/
theorem lt_length_of_isPrefix_drop (hmarker : marker ≠ []) {i : Nat}
    (h : marker <+: text.drop i) : i < text.length := by
  apply Nat.lt_of_not_le
  intro hle
  rw [List.drop_eq_nil_of_le hle, List.prefix_nil] at h
  exact hmarker h

/-- In front of the next occurrence there is none, and none at all if there is no next one. -/
theorem not_isPrefix_drop_of_lt_next (hmarker : marker ≠ []) {start i : Nat} (hi : start ≤ i)
    (hlt : ∀ next ∈ nextOccurrence? marker text start, i < next) : ¬ marker <+: text.drop i := by
  intro hoccurs
  cases hnext : nextOccurrence? marker text start with
  | none =>
      have hle := Nat.le_of_lt (lt_length_of_isPrefix_drop hmarker hoccurs)
      exact nextOccurrence?_eq_none_iff.1 hnext i hi hle hoccurs
  | some next =>
      exact (nextOccurrence?_eq_some_iff.1 hnext).first i hi (hlt next hnext) hoccurs

/-! ## What a step keeps -/

namespace MarkerSearch

/-- What is listed are the occurrences in front of the next one, or all of them if there is no next
one. -/
structure Invariant (marker text : List α) (s : MarkerSearch) : Prop where
  ascending : s.listed.Pairwise (· < ·)
  occurs : ∀ next ∈ s.next?, marker <+: text.drop next
  mem_listed : ∀ i, i ∈ s.listed ↔ marker <+: text.drop i ∧ ∀ next ∈ s.next?, i < next

variable {s s' : MarkerSearch}

theorem invariant_start (hmarker : marker ≠ []) : (start marker text).Invariant marker text := by
  refine ⟨.nil, ?_, ?_⟩
  · intro next hnext
    have hfound : nextOccurrence? marker text 0 = some next := hnext
    exact (nextOccurrence?_eq_some_iff.1 hfound).occurs
  · intro i
    constructor
    · intro hi
      cases hi
    · rintro ⟨hoccurs, hlt⟩
      exact absurd hoccurs (not_isPrefix_drop_of_lt_next hmarker (Nat.zero_le i) hlt)

theorem Invariant.step (hmarker : marker ≠ []) (h : s.Invariant marker text)
    (hstep : s.step marker text = some s') : s'.Invariant marker text := by
  rcases exists_of_step hstep with ⟨listed, next, rfl, rfl⟩
  have hbefore : ∀ i ∈ listed, i < next := by
    intro i hi
    exact ((h.mem_listed i).1 hi).2 next rfl
  have hafter : ∀ next' ∈ nextOccurrence? marker text (next + 1),
      IsNextOccurrence marker text (next + 1) next' := by
    intro next' hnext'
    exact nextOccurrence?_eq_some_iff.1 hnext'
  refine ⟨?_, fun next' hnext' => (hafter next' hnext').occurs, ?_⟩
  · rw [List.pairwise_append]
    refine ⟨h.ascending, List.pairwise_singleton .., ?_⟩
    intro i hi j hj
    rw [List.mem_singleton.1 hj]
    exact hbefore i hi
  · intro i
    rw [List.mem_append, List.mem_singleton]
    constructor
    · rintro (hi | rfl)
      · rcases (h.mem_listed i).1 hi with ⟨hoccurs, -⟩
        refine ⟨hoccurs, ?_⟩
        intro next' hnext'
        exact Nat.lt_trans (hbefore i hi) (hafter next' hnext').behind
      · exact ⟨h.occurs i rfl, fun next' hnext' => (hafter next' hnext').behind⟩
    · rintro ⟨hoccurs, hlt⟩
      rcases Nat.lt_trichotomy i next with hfront | heq | hbehind
      · refine .inl ((h.mem_listed i).2 ⟨hoccurs, ?_⟩)
        intro n hn
        obtain rfl : next = n := Option.some.inj hn
        exact hfront
      · exact .inr heq
      · -- the search goes on directly behind the start of the one that is listed now
        exact absurd hoccurs (not_isPrefix_drop_of_lt_next hmarker hbehind hlt)

theorem Invariant.reaches (hmarker : marker ≠ []) (h : s.Invariant marker text)
    (hreaches : StateTransition.Reaches (MarkerSearch.step marker text) s s') :
    s'.Invariant marker text := by
  induction hreaches with
  | refl => exact h
  | tail _ hstep ih => exact ih.step hmarker hstep

/-! ## The whole search -/

/-- The search ends, and it ends with what `run` returns. -/
theorem run_mem_eval (marker text : List α) (s : MarkerSearch) :
    s.run marker text ∈ StateTransition.eval (MarkerSearch.step marker text) s := by
  fun_induction run marker text s with
  | case1 s hend => exact StateTransition.mem_eval.2 ⟨.refl, hend⟩
  | case2 s s' hstep ih =>
      rcases StateTransition.mem_eval.1 ih with ⟨hreaches, hend⟩
      exact StateTransition.mem_eval.2 ⟨.head hstep hreaches, hend⟩

theorem next?_run (marker text : List α) (s : MarkerSearch) : (s.run marker text).next? = none :=
  Option.map_eq_none_iff.1 (StateTransition.mem_eval.1 (run_mem_eval marker text s)).2

theorem Invariant.run (hmarker : marker ≠ []) (h : s.Invariant marker text) :
    (s.run marker text).Invariant marker text :=
  h.reaches hmarker (StateTransition.mem_eval.1 (run_mem_eval marker text s)).1

end MarkerSearch

theorem markerOffsets_of_ne_nil (hmarker : marker ≠ []) (text : List α) :
    markerOffsets marker text = ((MarkerSearch.start marker text).run marker text).listed :=
  if_neg hmarker

theorem mem_markerOffsets_iff (hmarker : marker ≠ []) {offset : Nat} :
    offset ∈ markerOffsets marker text ↔ marker <+: text.drop offset := by
  have hinvariant : ((MarkerSearch.start marker text).run marker text).Invariant marker text :=
    (MarkerSearch.invariant_start hmarker).run hmarker
  rw [markerOffsets_of_ne_nil hmarker, hinvariant.mem_listed, MarkerSearch.next?_run]
  constructor
  · intro h
    exact h.1
  · intro hoccurs
    refine ⟨hoccurs, ?_⟩
    intro next hnext
    cases hnext

end

theorem pairwise_markerOffsets (marker text : List α) :
    (markerOffsets marker text).Pairwise (· < ·) := by
  by_cases hmarker : marker = []
  · rw [hmarker, markerOffsets_nil]
    exact .nil
  · rw [markerOffsets_of_ne_nil hmarker]
    exact ((MarkerSearch.invariant_start hmarker).run hmarker).ascending

/-- The search for a marker ends. The offsets that it has listed then ascend, so none is listed
twice, and they are exactly those at which the marker stands, however its occurrences overlap. -/
theorem markerOffsets_exact (marker text : List α) (hmarker : marker ≠ []) :
    (∃ last ∈ StateTransition.eval (MarkerSearch.step marker text)
        (MarkerSearch.start marker text), last.listed = markerOffsets marker text) ∧
      (markerOffsets marker text).Pairwise (· < ·) ∧
      ∀ offset, offset ∈ markerOffsets marker text ↔
        (text.drop offset).take marker.length = marker := by
  refine ⟨?_, pairwise_markerOffsets marker text, ?_⟩
  · exact ⟨_, MarkerSearch.run_mem_eval marker text _, (markerOffsets_of_ne_nil hmarker text).symm⟩
  · intro offset
    rw [mem_markerOffsets_iff hmarker, List.prefix_iff_eq_take, eq_comm]

/-- A marker that overlaps itself and stands at the end of the text as well. -/
theorem markerOffsets_exact_overlapping :
    "aba".toList ≠ [] ∧ markerOffsets "aba".toList "ababa aba".toList = [0, 2, 6] ∧
      (∃ last ∈ StateTransition.eval (MarkerSearch.step "aba".toList "ababa aba".toList)
          (MarkerSearch.start "aba".toList "ababa aba".toList), last.listed = [0, 2, 6]) ∧
      [0, 2, 6].Pairwise (· < ·) ∧
      ∀ offset, offset ∈ [0, 2, 6] ↔
        ("ababa aba".toList.drop offset).take "aba".toList.length = "aba".toList := by
  have hmarker : "aba".toList ≠ [] := by decide
  have hoffsets : markerOffsets "aba".toList "ababa aba".toList = [0, 2, 6] := by decide
  have hexact := markerOffsets_exact "aba".toList "ababa aba".toList hmarker
  rw [hoffsets] at hexact
  exact ⟨hmarker, hoffsets, hexact⟩

end ComponentMarkup
