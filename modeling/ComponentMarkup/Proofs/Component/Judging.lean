import ComponentMarkup.Proofs.Component.Blame

/-!
# Checks one after another

A chain of checks looks for violations in the order of their numbers. What it reports is the
violation with the least number (`JudgesFrom.eq_error_iff`); a chain judges if each of its checks
finds the violations of its own number (`JudgesFrom.step`).
-/

namespace ComponentMarkup

section

variable {α β : Type} {k : Nat} {bad : Nat → SchemaRule → LocatedTree → Prop}

/-- A check judges violations from a number on: it succeeds if there are none, and else reports the
one with the least number. -/
def JudgesFrom (k : Nat) (bad : Nat → SchemaRule → LocatedTree → Prop) : Except Violation α → Prop
  | .ok _ => ∀ n rule node, k ≤ n → ¬ bad n rule node
  | .error v => ∃ n, k ≤ n ∧ (∀ w : Violation, w.Reports (bad n) ↔ w = v) ∧
      ∀ n' rule node, k ≤ n' → bad n' rule node → n ≤ n'

theorem Violation.reports_iff {v : Violation} {blames : SchemaRule → LocatedTree → Prop} :
    v.Reports blames ↔ ∃ rule node, blames rule node ∧ v = ⟨rule, node.mark⟩ := by
  constructor
  · rintro ⟨node, hnode, hplace⟩
    exact ⟨v.rule, node, hnode, by rw [← hplace]⟩
  · rintro ⟨rule, node, hnode, rfl⟩
    exact ⟨node, hnode, rfl⟩

theorem JudgesFrom.congr {bad' : Nat → SchemaRule → LocatedTree → Prop} {x : Except Violation α}
    (h : JudgesFrom k bad x) (hbad : ∀ n rule node, bad' n rule node ↔ bad n rule node) :
    JudgesFrom k bad' x := by
  have hsame : bad' = bad := by
    funext n rule node
    exact propext (hbad n rule node)
  rw [hsame]
  exact h

/-- The same violations with greater numbers, and maybe others in front of them. -/
theorem JudgesFrom.shift {bad' : Nat → SchemaRule → LocatedTree → Prop} {x : Except Violation α}
    (h : JudgesFrom k bad x) (d : Nat)
    (hbad : ∀ n rule node, bad' (n + d) rule node ↔ bad n rule node) :
    JudgesFrom (k + d) bad' x := by
  -- every rule violated at stage `k + d` or later comes from a stage `k` or later before the shift
  have hback : ∀ n rule node, k + d ≤ n → bad' n rule node →
      ∃ m, n = m + d ∧ k ≤ m ∧ bad m rule node := by
    intro n rule node hle h'
    rcases Nat.exists_eq_add_of_le' (Nat.le_of_add_left_le hle) with ⟨m, rfl⟩
    exact ⟨m, rfl, Nat.le_of_add_le_add_right hle, (hbad m rule node).1 h'⟩
  cases x with
  | ok a =>
      intro n rule node hle h'
      rcases hback n rule node hle h' with ⟨m, -, hle', h''⟩
      exact h m rule node hle' h''
  | error v =>
      -- the least violated stage moves by `d` along with all others
      rcases h with ⟨n, hle, hreports, hleast⟩
      have hsame : bad' (n + d) = bad n := by
        funext rule node
        exact propext (hbad n rule node)
      refine ⟨n + d, Nat.add_le_add_right hle d, hsame ▸ hreports, ?_⟩
      intro n' rule node hle' h'
      rcases hback n' rule node hle' h' with ⟨m, rfl, hle'', h''⟩
      exact Nat.add_le_add_right (hleast m rule node hle'' h'') d

theorem Violation.reports_congr {v : Violation} {p q : SchemaRule → LocatedTree → Prop}
    (h : ∀ rule node, p rule node ↔ q rule node) : v.Reports p ↔ v.Reports q :=
  ⟨fun hp => hp.imp fun rule node => (h rule node).1,
    fun hq => hq.imp fun rule node => (h rule node).2⟩

/-- A check for the violations below a number, and a check for those from this number on. -/
theorem JudgesFrom.bind {k' : Nat} {x : Except Violation α} {f : α → Except Violation β}
    (hk : k ≤ k') (hx : JudgesFrom k (fun n rule node => n < k' ∧ bad n rule node) x)
    (hf : ∀ a, x = .ok a → JudgesFrom k' bad (f a)) : JudgesFrom k bad (x >>= f) := by
  cases hcheck : x with
  | error v =>
      rw [hcheck] at hx
      rcases hx with ⟨n, hle, hreports, hleast⟩
      rcases (hreports v).2 rfl with ⟨node, ⟨hlt, -⟩, -⟩
      refine ⟨n, hle, ?_, ?_⟩
      · simpa only [hlt, true_and] using hreports
      · intro n' rule node' hle' hbad
        rcases Nat.lt_or_ge n' k' with hlt' | hge
        · exact hleast n' rule node' hle' ⟨hlt', hbad⟩
        · exact Nat.le_trans (Nat.le_of_lt hlt) hge
  | ok a =>
      -- the violations that the first check looks for are not there
      rw [hcheck] at hx
      have hlater : ∀ n rule node, k ≤ n → bad n rule node → k' ≤ n := by
        intro n rule node hle hbad
        rcases Nat.lt_or_ge n k' with hlt | hge
        · exact absurd ⟨hlt, hbad⟩ (hx n rule node hle)
        · exact hge
      have hrest := hf a hcheck
      show JudgesFrom k bad (f a)
      cases hfa : f a with
      | ok b =>
          rw [hfa] at hrest
          exact fun n rule node hle hbad =>
            hrest n rule node (hlater n rule node hle hbad) hbad
      | error v =>
          rw [hfa] at hrest
          rcases hrest with ⟨n, hle, hreports, hleast⟩
          exact ⟨n, Nat.le_trans hk hle, hreports, fun n' rule node hle' hbad =>
            hleast n' rule node (hlater n' rule node hle' hbad) hbad⟩

/-- A check for the violations of one number, and a check for those behind it. -/
theorem JudgesFrom.step {x : Except Violation α} {f : α → Except Violation β}
    (hx : ∀ v, x = .error v ↔ v.Reports (bad k))
    (hf : ∀ a, x = .ok a → JudgesFrom (k + 1) bad (f a)) : JudgesFrom k bad (x >>= f) := by
  refine .bind (Nat.le_succ k) ?_ hf
  -- either the check of stage `k` fails, and `k` is the least stage there is, or nothing is
  -- violated at it and the later stages decide
  cases hcheck : x with
  | error v =>
      refine ⟨k, Nat.le_refl k, ?_, fun _ _ _ hle _ => hle⟩
      intro w
      simp only [Nat.lt_succ_self, true_and]
      rw [← hx, hcheck, Except.error.injEq, eq_comm]
  | ok a =>
      rintro n rule node hle ⟨hlt, hbad⟩
      obtain rfl : n = k := by omega
      have herror := (hx ⟨rule, node.mark⟩).2 ⟨node, hbad, rfl⟩
      rw [hcheck] at herror
      cases herror

/-- Where there are no violations left, a check that succeeds judges them. -/
theorem JudgesFrom.ok {a : α} (h : ∀ n rule node, bad n rule node → n < k) :
    JudgesFrom k bad (.ok a) := fun n rule node hle hbad =>
  absurd (h n rule node hbad) (Nat.not_lt.2 hle)

/-- What is made of the result does not matter. -/
theorem JudgesFrom.map {x : Except Violation α} (f : α → β) (h : JudgesFrom k bad x) :
    JudgesFrom k bad (x >>= fun a => pure (f a)) := by
  cases x with
  | ok a => exact h
  | error v => exact h

/-- The violation that a check from the first number on reports is the first one. -/
theorem JudgesFrom.eq_error_iff {x : Except Violation α} (h : JudgesFrom 0 bad x) {v : Violation} :
    x = .error v ↔ ∃ n rule node, bad n rule node ∧
      (∀ n' rule' node', bad n' rule' node' → n ≤ n') ∧ v = ⟨rule, node.mark⟩ := by
  cases hx : x with
  | ok a =>
      rw [hx] at h
      refine iff_of_false (fun heq => nomatch heq) ?_
      rintro ⟨n, rule, node, hbad, -⟩
      exact h n rule node (Nat.zero_le n) hbad
  | error w =>
      rw [hx] at h
      rcases h with ⟨n, -, hreports, hleast⟩
      rw [Except.error.injEq]
      constructor
      · rintro rfl
        rcases Violation.reports_iff.1 ((hreports w).2 rfl) with ⟨rule, node, hbad, hw⟩
        have hfirst : ∀ n' rule' node', bad n' rule' node' → n ≤ n' := fun n' rule' node' =>
          hleast n' rule' node' (Nat.zero_le n')
        exact ⟨n, rule, node, hbad, hfirst, hw⟩
      · rintro ⟨n', rule, node, hbad, hleast', rfl⟩
        -- both are the first, so they have the same number
        rcases (hreports w).2 rfl with ⟨node', hbad', -⟩
        have hle := hleast n' rule node (Nat.zero_le n') hbad
        have hle' := hleast' n w.rule node' hbad'
        obtain rfl : n = n' := Nat.le_antisymm hle hle'
        exact ((hreports _).1 ⟨node, hbad, rfl⟩).symm

end

/-! ## One check -/

/-- A check that fails reports what breaks its rule, and nothing else does. -/
theorem error_eq_error_iff {α : Type} {v w : Violation} {bad : SchemaRule → LocatedTree → Prop}
    (hw : w.Reports bad) (honly : ∀ rule node, bad rule node → w = ⟨rule, node.mark⟩) :
    (.error w : Except Violation α) = .error v ↔ v.Reports bad := by
  rw [Except.error.injEq]
  constructor
  · rintro rfl
    exact hw
  · intro hv
    rcases Violation.reports_iff.1 hv with ⟨rule, node, hbad, rfl⟩
    exact honly rule node hbad

/-- A check that succeeds reports nothing, and there is nothing to report. -/
theorem ok_eq_error_iff {α : Type} {a : α} {v : Violation} {bad : SchemaRule → LocatedTree → Prop}
    (hnone : ∀ rule node, ¬ bad rule node) :
    (.ok a : Except Violation α) = .error v ↔ v.Reports bad := by
  refine iff_of_false (fun h => nomatch h) ?_
  rintro ⟨node, hbad, -⟩
  exact hnone _ node hbad

end ComponentMarkup
