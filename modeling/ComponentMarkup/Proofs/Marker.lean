import ComponentMarkup.Proofs.Search
import ComponentMarkup.Text.Place
import Mathlib.Data.List.Sort

/-!
# Where markers are found

The offsets that the search lists are those one finds by looking at every offset of the text once
(`markerOffsets_eq_filter`), or in one pass over its characters (`markerOffsets_eq_pass`). A marker
without spaces and newline characters never reaches over one of these
(`HasNoGap.isPrefix_of_append`).
-/

namespace ComponentMarkup

/-- Does a marker occur at an offset of a text? An empty marker occurs nowhere. -/
def occursAt (marker text : List Char) (offset : Nat) : Bool :=
  !marker.isEmpty && marker.isPrefixOf (text.drop offset)

theorem occursAt_of_ne_nil {marker : List Char} (hmarker : marker ≠ []) (text : List Char) :
    occursAt marker text = fun i => marker.isPrefixOf (text.drop i) := by
  funext i
  simp [occursAt, hmarker]

/-- The offsets that are found are those at which the marker occurs, in ascending order. -/
theorem markerOffsets_eq_filter (marker text : List Char) :
    markerOffsets marker text = (List.range text.length).filter (occursAt marker text) := by
  by_cases hmarker : marker = []
  · subst hmarker
    rw [markerOffsets_nil]
    exact (List.filter_eq_nil_iff.2 fun i _ => Bool.false_ne_true).symm
  · have hrange : ((List.range text.length).filter (occursAt marker text)).Pairwise (· < ·) :=
      List.pairwise_lt_range.filter _
    refine (pairwise_markerOffsets marker text).eq_of_mem_iff hrange ?_
    intro i
    rw [mem_markerOffsets_iff hmarker, List.mem_filter, List.mem_range,
      occursAt_of_ne_nil hmarker, List.isPrefixOf_iff_prefix]
    exact ⟨fun h => ⟨lt_length_of_isPrefix_drop hmarker h, h⟩, And.right⟩

@[simp] theorem markerOffsets_of_text_nil (marker : List Char) : markerOffsets marker [] = [] :=
  markerOffsets_eq_filter marker []

/-- The offsets at which a marker starts in a text whose first character has the given offset, read
off in one pass. -/
def markerOffsetsFrom (marker : List Char) (offset : Nat) : List Char → List Nat
  | [] => []
  | c :: cs =>
      if marker.isPrefixOf (c :: cs) then offset :: markerOffsetsFrom marker (offset + 1) cs
      else markerOffsetsFrom marker (offset + 1) cs

theorem markerOffsetsFrom_eq_filter (marker : List Char) (offset : Nat) (text : List Char) :
    markerOffsetsFrom marker offset text =
      ((List.range text.length).filter fun i => marker.isPrefixOf (text.drop i)).map
        (offset + ·) := by
  -- induction on the text: the offset zero is this character, all others are those of the rest
  -- moved by one
  induction text generalizing offset with
  | nil => rfl
  | cons c cs ih =>
      have hshift : (fun i => offset + 1 + i) = (fun i => offset + i) ∘ Nat.succ := by
        funext i
        simp only [Function.comp_apply]
        omega
      have htail : (fun i => marker.isPrefixOf ((c :: cs).drop i)) ∘ Nat.succ =
          fun i => marker.isPrefixOf (cs.drop i) := rfl
      rw [markerOffsetsFrom, ih, List.length_cons, List.range_succ_eq_map, List.filter_cons,
        List.drop_zero, List.filter_map, htail]
      split
      · rw [List.map_cons, List.map_map, hshift, Nat.add_zero]
      · rw [List.map_map, hshift]

theorem markerOffsets_eq_pass {marker : List Char} (hmarker : marker ≠ []) (text : List Char) :
    markerOffsets marker text = markerOffsetsFrom marker 0 text := by
  have hshift : (fun i => 0 + i) = id := funext Nat.zero_add
  rw [markerOffsets_eq_filter, markerOffsetsFrom_eq_filter, occursAt_of_ne_nil hmarker, hshift,
    List.map_id]

theorem filter_append_of_lt {xs ys : List Nat} {n : Nat} (hxs : ∀ x ∈ xs, x < n)
    (hys : ∀ y ∈ ys, n ≤ y) :
    (xs ++ ys).filter (· < n) = xs ∧ (xs ++ ys).filter (n ≤ ·) = ys := by
  have hleft : xs.filter (· < n) = xs ∧ xs.filter (n ≤ ·) = [] := by
    rw [List.filter_eq_self, List.filter_eq_nil_iff]
    exact ⟨fun x hx => by simpa using hxs x hx, fun x hx => by simpa using hxs x hx⟩
  have hright : ys.filter (· < n) = [] ∧ ys.filter (n ≤ ·) = ys := by
    rw [List.filter_eq_self, List.filter_eq_nil_iff]
    exact ⟨fun y hy => by simpa using hys y hy, fun y hy => by simpa using hys y hy⟩
  constructor
  · rw [List.filter_append, hleft.1, hright.1, List.append_nil]
  · rw [List.filter_append, hleft.2, hright.2, List.nil_append]

/-- A marker occurs behind a text where it does without this text, so many characters further. -/
theorem markerOffsets_append (marker before text : List Char) :
    (markerOffsets marker (before ++ text)).filter (before.length ≤ ·) =
        (markerOffsets marker text).map (before.length + ·) ∧
      markerOffsets marker (before ++ text) =
        (markerOffsets marker (before ++ text)).filter (· < before.length) ++
          (markerOffsets marker text).map (before.length + ·) := by
  -- behind `before` the marker occurs where it occurs in the text alone
  have hbehind : occursAt marker (before ++ text) ∘ (before.length + ·) =
      occursAt marker text := by
    funext i
    rw [Function.comp_apply, occursAt, occursAt, List.drop_length_add_append]
  -- the range of offsets is split at the end of `before`
  have hall : markerOffsets marker (before ++ text) =
      (List.range before.length).filter (occursAt marker (before ++ text)) ++
        (markerOffsets marker text).map (before.length + ·) := by
    rw [markerOffsets_eq_filter, markerOffsets_eq_filter marker text, List.length_append,
      List.range_add, List.filter_append, List.filter_map, hbehind]
  have hfront : ∀ i ∈ (List.range before.length).filter (occursAt marker (before ++ text)),
      i < before.length := by
    intro i hi
    exact List.mem_range.1 (List.mem_filter.1 hi).1
  have hrest : ∀ i ∈ (markerOffsets marker text).map (before.length + ·), before.length ≤ i := by
    intro i hi
    rcases List.mem_map.1 hi with ⟨k, -, rfl⟩
    exact Nat.le_add_right _ _
  rcases filter_append_of_lt hfront hrest with ⟨hlower, hupper⟩
  rw [← hall] at hlower hupper
  rw [hlower]
  exact ⟨hupper, hall⟩

/-! ## Gaps -/

/-- A text without spaces and newline characters. -/
def HasNoGap (cs : List Char) : Prop := ∀ c ∈ cs, c ≠ ' ' ∧ isNewline c = false

instance (cs : List Char) : Decidable (HasNoGap cs) := List.decidableBAll _ cs

/-- The first character of a text, if there is one, is a space or a newline character. -/
def StartsWithGap (cs : List Char) : Prop := ∀ c ∈ cs.head?, c = ' ' ∨ isNewline c = true

/-- What has no gaps and stands in front of a text with a gap does not reach into it. -/
theorem HasNoGap.isPrefix_of_append {word body rest : List Char} (h : HasNoGap word)
    (hrest : StartsWithGap rest) (hword : word <+: body ++ rest) : word <+: body := by
  rcases hword with ⟨more, heq⟩
  rcases List.append_eq_append_iff.1 heq with ⟨l, hbody, -⟩ | ⟨l, hword, hl⟩
  · exact ⟨l, hbody.symm⟩
  · cases l with
    | nil => exact ⟨[], by simpa using hword⟩
    | cons c l =>
        have hc : c ≠ ' ' ∧ isNewline c = false := h c (by simp [hword])
        rcases hrest c (by simp [hl]) with hspace | hnewline
        · exact absurd hspace hc.1
        · rw [hc.2] at hnewline
          cases hnewline

theorem HasNoGap.isPrefixOf_append {word front rest : List Char} (h : HasNoGap word)
    (hrest : StartsWithGap rest) : word.isPrefixOf (front ++ rest) = word.isPrefixOf front := by
  rw [Bool.eq_iff_iff, List.isPrefixOf_iff_prefix, List.isPrefixOf_iff_prefix]
  exact ⟨h.isPrefix_of_append hrest, fun hfront => hfront.trans (List.prefix_append ..)⟩

end ComponentMarkup
