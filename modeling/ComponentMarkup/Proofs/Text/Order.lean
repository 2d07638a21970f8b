import ComponentMarkup.Text.Order

/-!
# Sorting

In a linear order there is one way only to sort a list, so the order in which its elements were
given leaves no trace (`sortBy_eq_of_perm`), and of two elements the one that is less stands first
(`pair_sublist_sortBy_iff`).
-/

namespace ComponentMarkup

variable {α : Type} {before : α → α → Bool}

theorem sortBy_perm (before : α → α → Bool) (items : List α) : (sortBy before items).Perm items :=
  List.mergeSort_perm items _

/-- No element of a sorted list comes before an earlier one. -/
theorem IsLinear.pairwise_sortBy (h : IsLinear before) (items : List α) :
    (sortBy before items).Pairwise fun a b => before b a = false := by
  have htrans : ∀ a b c, (!before b a) = true → (!before c b) = true → (!before c a) = true := by
    intro a b c hba hcb
    simp only [Bool.not_eq_true'] at hba hcb ⊢
    cases hca : before c a with
    | false => rfl
    | true =>
        -- either `b` comes before `a`, or `c` before `b`, or all three are one
        exfalso
        cases hab : before a b with
        | true =>
            have hcb' : before c b = true := h.trans hca hab
            rw [hcb] at hcb'
            cases hcb'
        | false =>
            obtain rfl := h.total hab hba
            rw [hcb] at hca
            cases hca
  have htotal : ∀ a b, ((!before b a) || !before a b) = true := by
    intro a b
    cases hba : before b a with
    | false => rfl
    | true => simp [h.asymm hba]
  have hsorted := List.pairwise_mergeSort htrans htotal items
  exact hsorted.imp fun hab => by simpa using hab

/-- Two sorted lists of the same elements are one. -/
theorem IsLinear.eq_of_perm (h : IsLinear before) {a b : List α} (hperm : a.Perm b)
    (ha : a.Pairwise fun x y => before y x = false)
    (hb : b.Pairwise fun x y => before y x = false) : a = b :=
  hperm.eq_of_pairwise (fun _ _ _ _ hxy hyx => h.total hyx hxy) ha hb

/-- A list is in order if and only if sorting leaves it as it is. -/
theorem IsLinear.sortBy_eq_self_iff (h : IsLinear before) {items : List α} :
    sortBy before items = items ↔ items.Pairwise fun a b => before b a = false := by
  constructor
  · intro heq
    rw [← heq]
    exact h.pairwise_sortBy items
  · exact h.eq_of_perm (sortBy_perm before items) (h.pairwise_sortBy items)

/-! ## Sorting by an image -/

section

variable {β : Type} {f : β → α} {items : List β} {a b : β}

/-- What is sorted by an image is in the order of the images. -/
theorem IsLinear.pairwise_sortBy_map (h : IsLinear before) (f : β → α) (items : List β) :
    (sortBy (fun x y => before (f x) (f y)) items).Pairwise
      fun x y => before (f y) (f x) = false := by
  have hmap : (sortBy (fun x y => before (f x) (f y)) items).map f = sortBy before (items.map f) :=
    List.map_mergeSort fun _ _ _ _ => rfl
  have hsorted := h.pairwise_sortBy (items.map f)
  rw [← hmap] at hsorted
  exact List.pairwise_map.1 hsorted

theorem pair_sublist_of_mem (ha : a ∈ items) (hb : b ∈ items) (hne : a ≠ b) :
    [a, b].Sublist items ∨ [b, a].Sublist items := by
  -- the other one stands in front of the first, or behind it
  rcases List.append_of_mem ha with ⟨front, back, rfl⟩
  rcases List.mem_append.1 hb with hb | hb
  · exact .inr ((List.singleton_sublist.2 hb).append
      (List.singleton_sublist.2 (List.mem_cons_self ..)))
  · have hback : b ∈ back := (List.mem_cons.1 hb).resolve_left (Ne.symm hne)
    exact .inl (((List.singleton_sublist.2 hback).cons_cons a).trans
      (List.sublist_append_right ..))

/-- Of two elements of a list that is sorted by an image the one with the lesser image stands
first. -/
theorem IsLinear.pair_sublist_iff (h : IsLinear before)
    (hsorted : items.Pairwise fun x y => before (f y) (f x) = false) (ha : a ∈ items)
    (hb : b ∈ items) (hne : f a ≠ f b) :
    [a, b].Sublist items ↔ before (f a) (f b) = true := by
  have hfirst {x y : β} (hpair : [x, y].Sublist items) : before (f y) (f x) = false := by
    simpa using hsorted.sublist hpair
  constructor
  · intro hpair
    cases hab : before (f a) (f b) with
    | true => rfl
    | false => exact absurd (h.total hab (hfirst hpair)) hne
  · -- the pair stands in the list one way or the other, and the other way contradicts the order
    intro hbefore
    have hab : a ≠ b := fun heq => hne (congrArg f heq)
    refine (pair_sublist_of_mem ha hb hab).resolve_right fun hpair => ?_
    rw [hfirst hpair] at hbefore
    cases hbefore

end

theorem IsLinear.pair_sublist_sortBy_iff (h : IsLinear before) {items : List α} {a b : α}
    (ha : a ∈ items) (hb : b ∈ items) (hne : a ≠ b) :
    [a, b].Sublist (sortBy before items) ↔ before a b = true := by
  have hmem {x : α} (hx : x ∈ items) : x ∈ sortBy before items :=
    (sortBy_perm before items).mem_iff.2 hx
  exact h.pair_sublist_iff (f := id) (h.pairwise_sortBy items) (hmem ha) (hmem hb) hne

theorem IsLinear.before_iff_not (h : IsLinear before) {a b : α} (hne : a ≠ b) :
    before b a = true ↔ ¬ before a b = true := by
  constructor
  · intro hba hab
    rw [h.asymm hab] at hba
    cases hba
  · intro hnot
    cases hba : before b a with
    | true => rfl
    | false => exact absurd (h.total (Bool.eq_false_iff.2 hnot) hba) hne

/-! ## What lists have in front -/

theorem lexBefore_append_left (hirrefl : ∀ a, before a a = false) (front as bs : List α) :
    lexBefore before (front ++ as) (front ++ bs) = lexBefore before as bs := by
  induction front with
  | nil => rfl
  | cons a front ih => simp [lexBefore, hirrefl, ih]

theorem charsBefore_append_left (front as bs : List Char) :
    charsBefore (front ++ as) (front ++ bs) = charsBefore as bs :=
  lexBefore_append_left (by simp) front as bs

theorem namesBefore_append_left (front as bs : List (List Char)) :
    namesBefore (front ++ as) (front ++ bs) = namesBefore as bs :=
  lexBefore_append_left isLinear_charsBefore.irrefl front as bs

theorem charsBefore_cons_of_lt {c d : Char} (h : c.toNat < d.toNat) (as bs : List Char) :
    charsBefore (c :: as) (d :: bs) = true := by
  simp only [charsBefore, lexBefore, h, decide_true, Bool.true_or]

end ComponentMarkup
