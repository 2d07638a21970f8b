import ComponentMarkup.Compiler

/-!
# Workers

Each task fills a slot of its own, so the slots hold the same results in whatever order the tasks
finish (`gather_eq_map`).
-/

namespace ComponentMarkup

variable {α β : Type}

/-- After some tasks have finished, their slots are filled and the others are as before. -/
theorem getElem?_foldl_set (result : Nat → Option β) (completion : List Nat)
    (slots : List (Option β)) (i : Nat) (hi : i < slots.length) :
    (completion.foldl (fun slots j => slots.set j (result j)) slots)[i]? =
      if i ∈ completion then some (result i) else slots[i]? := by
  induction completion generalizing slots with
  | nil => simp
  | cons j completion ih =>
      have hlen : i < (slots.set j (result j)).length := by simpa using hi
      rw [List.foldl_cons, ih _ hlen, List.getElem?_set]
      by_cases hmem : i ∈ completion
      · -- a task that finishes later leaves the same result again
        rw [if_pos hmem, if_pos (List.mem_cons_of_mem j hmem)]
      · by_cases hj : j = i
        · subst hj
          rw [if_neg hmem, if_pos rfl, if_pos hi, if_pos (List.mem_cons_self ..)]
        · have hcons : i ∉ j :: completion := by
            simp only [List.mem_cons, not_or]
            exact ⟨Ne.symm hj, hmem⟩
          rw [if_neg hmem, if_neg hj, if_neg hcons]

theorem length_foldl_set (result : Nat → Option β) (completion : List Nat)
    (slots : List (Option β)) :
    (completion.foldl (fun slots j => slots.set j (result j)) slots).length = slots.length := by
  induction completion generalizing slots with
  | nil => rfl
  | cons j completion ih => rw [List.foldl_cons, ih, List.length_set]

/-- Once all tasks have finished, the slots hold the results in the order of the tasks. -/
theorem gather_eq_map (task : α → β) (inputs : List α) {completion : List Nat}
    (h : completion.Perm (List.range inputs.length)) :
    gather task inputs completion = inputs.map task := by
  -- after all have completed, in whatever order, every slot has been filled with its own result
  have hfilled : completion.foldl (fun slots j => slots.set j (inputs[j]?.map task))
      (List.replicate inputs.length none) = (inputs.map task).map some := by
    apply List.ext_getElem?
    intro i
    by_cases hi : i < inputs.length
    · -- each index completes, as the completion is a permutation of all of them
      have hmem : i ∈ completion := h.mem_iff.2 (List.mem_range.2 hi)
      have hslot : i < (List.replicate inputs.length (none : Option β)).length := by
        rwa [List.length_replicate]
      rw [getElem?_foldl_set _ _ _ _ hslot, if_pos hmem]
      simp [hi]
    · have hlen : inputs.length ≤ i := Nat.le_of_not_lt hi
      rw [List.getElem?_eq_none, List.getElem?_eq_none]
      · rwa [List.length_map, List.length_map]
      · rwa [length_foldl_set, List.length_replicate]
  rw [gather, hfilled, List.filterMap_map]
  simp

end ComponentMarkup
