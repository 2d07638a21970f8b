import ComponentMarkup.Text.CodePoint

/-!
# Lexicographic order

Texts are ordered by the code points of their characters, a text before all that it begins. The
same rule orders lists of texts by their elements. Main statement: if the elements are ordered
linearly, so are the lists.
-/

namespace ComponentMarkup

variable {α : Type}

/-- A strict linear order, as a test. -/
structure IsLinear (before : α → α → Bool) : Prop where
  irrefl : ∀ a, before a a = false
  trans : ∀ {a b c}, before a b = true → before b c = true → before a c = true
  total : ∀ {a b}, before a b = false → before b a = false → a = b

namespace IsLinear

variable {before : α → α → Bool}

theorem asymm (h : IsLinear before) {a b : α} (hab : before a b = true) : before b a = false := by
  cases hba : before b a with
  | false => rfl
  | true =>
    have haa : before a a = true := h.trans hab hba
    rw [h.irrefl a] at haa
    exact absurd haa Bool.false_ne_true

theorem ne (h : IsLinear before) {a b : α} (hab : before a b = true) : a ≠ b := by
  rintro rfl
  rw [h.irrefl a] at hab
  exact Bool.false_ne_true hab

end IsLinear

/-- Does a list come before another one, by the first elements that differ? -/
def lexBefore (before : α → α → Bool) : List α → List α → Bool
  | _, [] => false
  | [], _ :: _ => true
  | a :: as, b :: bs => before a b || !before b a && lexBefore before as bs

/-- The lexicographic order of a linear order is linear. -/
theorem IsLinear.lexBefore {before : α → α → Bool} (h : IsLinear before) :
    IsLinear (lexBefore before) where
  irrefl as := by
    induction as with
    | nil => rfl
    | cons a as ih => simp [ComponentMarkup.lexBefore, h.irrefl, ih]
  trans {as bs cs} hab hbc := by
    induction as generalizing bs cs with
    | nil => cases cs <;> cases bs <;> simp_all [ComponentMarkup.lexBefore]
    | cons a as ih =>
      cases bs with
      | nil => simp [ComponentMarkup.lexBefore] at hab
      | cons b bs =>
        cases cs with
        | nil => simp [ComponentMarkup.lexBefore] at hbc
        | cons c cs =>
          simp only [ComponentMarkup.lexBefore, Bool.or_eq_true, Bool.and_eq_true,
            Bool.not_eq_true'] at hab hbc ⊢
          rcases hab with hab | ⟨hba, has⟩
          · rcases hbc with hbc | ⟨hcb, hbs⟩
            · exact .inl (h.trans hab hbc)
            · cases hbc' : before b c with
              | true => exact .inl (h.trans hab hbc')
              | false => exact .inl (h.total hbc' hcb ▸ hab)
          · cases hab' : before a b with
            | true =>
              rcases hbc with hbc | ⟨hcb, hbs⟩
              · exact .inl (h.trans hab' hbc)
              · cases hbc' : before b c with
                | true => exact .inl (h.trans hab' hbc')
                | false => exact .inl (h.total hbc' hcb ▸ hab')
            | false =>
              obtain rfl := h.total hab' hba
              rcases hbc with hbc | ⟨hcb, hbs⟩
              · exact .inl hbc
              · exact .inr ⟨hcb, ih has hbs⟩
  total {as bs} hab hba := by
    induction as generalizing bs with
    | nil => cases bs <;> simp_all [ComponentMarkup.lexBefore]
    | cons a as ih =>
      cases bs with
      | nil => simp [ComponentMarkup.lexBefore] at hba
      | cons b bs =>
        simp only [ComponentMarkup.lexBefore, Bool.or_eq_false_iff, Bool.and_eq_false_iff,
          Bool.not_eq_false'] at hab hba
        obtain rfl := h.total hab.1 hba.1
        have has : ComponentMarkup.lexBefore before as bs = false := by
          rcases hab.2 with haa | has
          · rw [h.irrefl a] at haa
            exact absurd haa Bool.false_ne_true
          · exact has
        have hbs : ComponentMarkup.lexBefore before bs as = false := by
          rcases hba.2 with haa | hbs
          · rw [h.irrefl a] at haa
            exact absurd haa Bool.false_ne_true
          · exact hbs
        rw [ih has hbs]

/-! ## The orders of texts -/

/-- Is a code point less than another one? -/
def CodePoint.before (p q : CodePoint) : Bool := decide (p.val < q.val)

/-- Does a text come before another one? -/
def Text.before : Text → Text → Bool := lexBefore CodePoint.before

/-- Does a list of characters come before another one? -/
def charsBefore : List Char → List Char → Bool :=
  lexBefore fun c d => decide (c.toNat < d.toNat)

/-- Does a list of names come before another one? -/
def namesBefore : List (List Char) → List (List Char) → Bool := lexBefore charsBefore

theorem CodePoint.isLinear_before : IsLinear CodePoint.before where
  irrefl p := by simp [CodePoint.before]
  trans hab hbc := by
    simp only [CodePoint.before, decide_eq_true_eq] at hab hbc ⊢
    omega
  total hab hba := by
    simp only [CodePoint.before, decide_eq_false_iff_not] at hab hba
    exact Fin.ext (by omega)

theorem Text.isLinear_before : IsLinear Text.before := CodePoint.isLinear_before.lexBefore

theorem isLinear_charsBefore : IsLinear charsBefore := by
  refine IsLinear.lexBefore ⟨fun c => by simp, fun hab hbc => ?_, fun hab hba => ?_⟩
  · simp only [decide_eq_true_eq] at hab hbc ⊢
    omega
  · simp only [decide_eq_false_iff_not] at hab hba
    exact Char.ext (UInt32.toNat_inj.1 (Nat.le_antisymm (Nat.not_lt.1 hba) (Nat.not_lt.1 hab)))

theorem isLinear_namesBefore : IsLinear namesBefore := isLinear_charsBefore.lexBefore

/-- A list in ascending order; elements of which neither comes before the other keep theirs. -/
def sortBy (before : α → α → Bool) (items : List α) : List α :=
  items.mergeSort fun a b => !before b a

end ComponentMarkup
