import ComponentMarkup.Proofs.Fragment

/-!
# Where a fragment ends

From the first opening brace on, a fragment is the text up to where as many braces are closed as
were opened, and the rest of the text if this is nowhere so. We show that it is cut at the first
such offset and at no other one (`fragmentAt_exact`). While the capture runs, its depth is the
number of braces that are still open, so both facts are about a text that is read at some depth:
no part of the capture closes all that is open (`captureBraces_leavesOpen`), but the whole does, or
the text is at its end (`captureBraces_ends`).
-/

namespace ComponentMarkup

/-- A text opens more braces than it closes. -/
def LeavesOpen (cs : List Char) : Prop := cs.count '\x7d' < cs.count '\x7b'

/-- A text closes as many braces as it opens. -/
def ClosesAll (cs : List Char) : Prop := cs.count '\x7d' = cs.count '\x7b'

/-! ## Counting at a depth -/

theorem count_cons_open (cs : List Char) :
    ('\x7b' :: cs).count '\x7b' = cs.count '\x7b' + 1 ∧
      ('\x7b' :: cs).count '\x7d' = cs.count '\x7d' :=
  ⟨List.count_cons_self, List.count_cons_of_ne (by decide)⟩

theorem count_cons_close (cs : List Char) :
    ('\x7d' :: cs).count '\x7b' = cs.count '\x7b' ∧
      ('\x7d' :: cs).count '\x7d' = cs.count '\x7d' + 1 :=
  ⟨List.count_cons_of_ne (by decide), List.count_cons_self⟩

/-- A part of what is captured does not close all the open braces. -/
theorem captureBraces_leavesOpen {depth : Nat} {cs p : List Char} (hdepth : 1 ≤ depth)
    (hp : p <+: captureBraces depth cs) (hne : p ≠ captureBraces depth cs) :
    p.count '\x7d' < depth + p.count '\x7b' := by
  fun_induction captureBraces depth cs generalizing p with
  | case1 depth => exact absurd (List.prefix_nil.1 hp) hne
  | case2 depth cs ih =>
      cases p with
      | nil => exact hdepth
      | cons d p =>
          rcases List.cons_prefix_cons.1 hp with ⟨rfl, hp'⟩
          have hrest := ih (Nat.le_succ_of_le hdepth) hp' fun heq => hne (congrArg _ heq)
          rcases count_cons_open p with ⟨hopen, hclose⟩
          omega
  | case3 depth cs ih =>
      cases p with
      | nil => exact hdepth
      | cons d p =>
          rcases List.cons_prefix_cons.1 hp with ⟨rfl, hp'⟩
          by_cases hone : depth = 1
          · -- this brace closes the last one, so the capture ends with it
            rw [if_pos hone] at hp' hne
            exact absurd (congrArg _ (List.prefix_nil.1 hp')) hne
          · rw [if_neg hone] at hp' hne
            have hrest := ih (by omega) hp' fun heq => hne (congrArg _ heq)
            rcases count_cons_close p with ⟨hopen, hclose⟩
            omega
  | case4 depth c cs hopen hclose ih =>
      cases p with
      | nil => exact hdepth
      | cons d p =>
          rcases List.cons_prefix_cons.1 hp with ⟨rfl, hp'⟩
          have hrest := ih hdepth hp' fun heq => hne (congrArg _ heq)
          rwa [List.count_cons_of_ne hopen, List.count_cons_of_ne hclose]

/-- What is captured ends with the brace that closes the last open one, or with the text. -/
theorem captureBraces_ends {depth : Nat} (hdepth : 1 ≤ depth) (cs : List Char) :
    (captureBraces depth cs).count '\x7d' = depth + (captureBraces depth cs).count '\x7b' ∧
        (captureBraces depth cs).getLast? = some '\x7d' ∨
      captureBraces depth cs = cs ∧ cs.count '\x7d' < depth + cs.count '\x7b' := by
  -- along the scan with its depth: either the depth comes down to zero, which balances the count,
  -- or the text ends first with braces still open
  fun_induction captureBraces depth cs with
  | case1 depth => exact .inr ⟨rfl, hdepth⟩
  | case2 depth cs ih =>
      rcases ih (Nat.le_succ_of_le hdepth) with ⟨hcount, hlast⟩ | ⟨heq, hcount⟩
      · rcases count_cons_open (captureBraces (depth + 1) cs) with ⟨hopen, hclose⟩
        exact .inl ⟨by omega, by rw [List.getLast?_cons, hlast]; rfl⟩
      · rcases count_cons_open cs with ⟨hopen, hclose⟩
        exact .inr ⟨by rw [heq], by omega⟩
  | case3 depth cs ih =>
      -- at depth one this brace closes the first one and ends the capture
      by_cases hone : depth = 1
      · rw [if_pos hone, hone]
        exact .inl ⟨rfl, rfl⟩
      · rw [if_neg hone]
        rcases ih (by omega) with ⟨hcount, hlast⟩ | ⟨heq, hcount⟩
        · rcases count_cons_close (captureBraces (depth - 1) cs) with ⟨hopen, hclose⟩
          exact .inl ⟨by omega, by rw [List.getLast?_cons, hlast]; rfl⟩
        · rcases count_cons_close cs with ⟨hopen, hclose⟩
          exact .inr ⟨by rw [heq], by omega⟩
  | case4 depth c cs hopen hclose ih =>
      rw [List.count_cons_of_ne hopen, List.count_cons_of_ne hclose, List.count_cons_of_ne hopen,
        List.count_cons_of_ne hclose]
      rcases ih hdepth with ⟨hcount, hlast⟩ | ⟨heq, hcount⟩
      · exact .inl ⟨hcount, by rw [List.getLast?_cons, hlast]; rfl⟩
      · exact .inr ⟨by rw [heq], hcount⟩

/-! ## The object behind an opening brace -/

/-- A part of what is captured from an opening brace on leaves braces open. -/
theorem leavesOpen_of_isPrefix {cs p : List Char} (hp : p <+: '\x7b' :: captureBraces 1 cs)
    (hnil : p ≠ []) (hne : p ≠ '\x7b' :: captureBraces 1 cs) : LeavesOpen p := by
  cases p with
  | nil => exact absurd rfl hnil
  | cons c p =>
      rcases List.cons_prefix_cons.1 hp with ⟨rfl, hp'⟩
      have hinner := captureBraces_leavesOpen (Nat.le_refl 1) hp' fun heq => hne (congrArg _ heq)
      rcases count_cons_open p with ⟨hopen, hclose⟩
      show ('\x7b' :: p).count '\x7d' < ('\x7b' :: p).count '\x7b'
      omega

/-- What is captured from an opening brace on closes all that it opens, or is the rest of the
text. -/
theorem closesAll_or_leavesOpen (cs : List Char) :
    ClosesAll ('\x7b' :: captureBraces 1 cs) ∧
        ('\x7b' :: captureBraces 1 cs).getLast? = some '\x7d' ∨
      captureBraces 1 cs = cs ∧ LeavesOpen ('\x7b' :: captureBraces 1 cs) := by
  -- the opening brace of the fragment adds one to the count of opening braces, which is the depth
  -- the capture starts at
  rcases count_cons_open (captureBraces 1 cs) with ⟨hopen, hclose⟩
  rcases captureBraces_ends (Nat.le_refl 1) cs with ⟨hcount, hlast⟩ | ⟨heq, hcount⟩
  · refine .inl ⟨?_, ?_⟩
    · show ('\x7b' :: captureBraces 1 cs).count '\x7d' = _
      omega
    · rw [List.getLast?_cons, hlast]
      rfl
  · refine .inr ⟨heq, ?_⟩
    rw [← heq] at hcount
    show ('\x7b' :: captureBraces 1 cs).count '\x7d' < _
    omega

/-! ## The cut -/

/-- A fragment of a text ends in front of `stop`: up to the brace at `first` it is the text blanked,
from there on it is the text as it stands, no part of the object that starts there closes all its
braces, and the object does, or the text ends within it. -/
structure IsCutAt (text fragment : List Char) (first stop : Nat) : Prop where
  lt : first < stop
  le : stop ≤ text.length
  length : fragment.length = stop
  blanked : fragment.take first = (text.take first).map blankOut
  asWritten : fragment.drop first = (text.take stop).drop first
  inside : ∀ p, p <+: fragment.drop first → p ≠ [] → p ≠ fragment.drop first → LeavesOpen p
  ends : ClosesAll (fragment.drop first) ∧ (fragment.drop first).getLast? = some '\x7d' ∨
    stop = text.length ∧ LeavesOpen (fragment.drop first)

theorem IsFirstBrace.unique {text : List Char} {start : Int} {a b : Nat}
    (ha : IsFirstBrace text start a) (hb : IsFirstBrace text start b) : a = b := by
  rcases Nat.lt_trichotomy a b with hlt | heq | hlt
  · exact absurd ha.brace (hb.first a hlt ha.behind)
  · exact heq
  · exact absurd hb.brace (ha.first b hlt hb.behind)

/-- The capture from an opening brace on is cut where the braces balance. -/
theorem isCutAt_captureBraces {text : List Char} {first : Nat}
    (hbrace : text[first]? = some '\x7b') :
    IsCutAt text ((text.take first).map blankOut ++ captureBraces 0 (text.drop first)) first
      (first + (captureBraces 0 (text.drop first)).length) := by
  rcases List.getElem?_eq_some_iff.1 hbrace with ⟨hlt, hget⟩
  have hdrop : text.drop first = '\x7b' :: text.drop (first + 1) := by
    rw [List.drop_eq_getElem_cons hlt, hget]
  -- the first brace is open for all of what is captured behind it
  have hcapture : captureBraces 0 (text.drop first) =
      '\x7b' :: captureBraces 1 (text.drop (first + 1)) := by
    rw [hdrop, captureBraces]
  have hprefix := captureBraces_isPrefix 0 (text.drop first)
  have hfront : ((text.take first).map blankOut).length = first := by
    rw [List.length_map, List.length_take]
    omega
  refine {
    lt := ?_
    le := ?_
    length := ?_
    blanked := ?_
    asWritten := ?_
    inside := ?_
    ends := ?_ }
  · rw [hcapture, List.length_cons]
    omega
  · have hle := hprefix.length_le
    rw [List.length_drop] at hle
    omega
  · rw [List.length_append, hfront]
  · exact List.take_left' hfront
  · rw [List.drop_left' hfront, List.drop_take, Nat.add_sub_cancel_left]
    exact List.prefix_iff_eq_take.1 hprefix
  · intro p hp hnil hne
    rw [List.drop_left' hfront, hcapture] at hp hne
    exact leavesOpen_of_isPrefix hp hnil hne
  · rw [List.drop_left' hfront, hcapture]
    rcases closesAll_or_leavesOpen (text.drop (first + 1)) with hcloses | ⟨heq, hopen⟩
    · exact .inl hcloses
    · refine .inr ⟨?_, hopen⟩
      rw [List.length_cons, heq, List.length_drop]
      omega

/-- Nowhere in front of the cut do the braces balance. -/
theorem IsCutAt.le_of_closesAll {text fragment : List Char} {first stop k : Nat}
    (h : IsCutAt text fragment first stop) (hk : first < k)
    (hcloses : ClosesAll ((text.take k).drop first)) : stop ≤ k := by
  apply Nat.le_of_not_lt
  -- were `stop` behind `k`, the text up to `k` would be a proper part of the fragment that closes
  -- all braces, which `h.inside` excludes
  intro hlt
  have hlen : ((text.take k).drop first).length = k - first := by
    have hle := h.le
    rw [List.length_drop, List.length_take]
    omega
  have hp : (text.take k).drop first <+: fragment.drop first := by
    rw [h.asWritten, List.drop_take, List.drop_take]
    exact List.take_prefix_take_left (by omega)
  have hnil : (text.take k).drop first ≠ [] := by
    apply List.ne_nil_of_length_pos
    omega
  have hne : (text.take k).drop first ≠ fragment.drop first := by
    intro heq
    have hlen' := congrArg List.length heq
    rw [hlen, List.length_drop, h.length] at hlen'
    omega
  exact absurd hcloses (Nat.ne_of_lt (h.inside _ hp hnil hne))

/-- A fragment is the text blanked, if no opening brace follows the offset. Otherwise it is cut
where the braces balance, counted from the first brace on, and at no later place; or at the end of
the text, if they do not. The offset matters only for which brace is the first. -/
theorem fragmentAt_exact (text : List Char) (start : Int) :
    ((∀ i : Nat, start ≤ i → text[i]? ≠ some '\x7b') ∧
        fragmentAt text start = text.map blankOut ∨
      ∃ first stop, IsFirstBrace text start first ∧
        IsCutAt text (fragmentAt text start) first stop ∧
        ∀ k, first < k → k ≤ text.length → ClosesAll ((text.take k).drop first) → stop ≤ k) ∧
      ∀ start', (∀ b, IsFirstBrace text start' b ↔ IsFirstBrace text start b) →
        fragmentAt text start' = fragmentAt text start := by
  constructor
  · rcases fragmentAt_eq text start with hblank | ⟨b, hb, heq⟩
    · exact .inl hblank
    · have hcut := isCutAt_captureBraces hb.brace
      rw [← heq] at hcut
      exact .inr ⟨b, _, hb, hcut, fun k hk _ hcloses => hcut.le_of_closesAll hk hcloses⟩
  · -- the fragment depends on `start` only through the first brace at or behind it
    intro start' hsame
    rcases fragmentAt_eq text start with ⟨hnone, hblank⟩ | ⟨b, hb, heq⟩
    · rcases fragmentAt_eq text start' with ⟨-, hblank'⟩ | ⟨b', hb', -⟩
      · rw [hblank, hblank']
      · -- a first brace for one of them is one for the other
        have hfirst := (hsame b').1 hb'
        exact absurd hfirst.brace (hnone b' hfirst.behind)
    · rcases fragmentAt_eq text start' with ⟨hnone', -⟩ | ⟨b', hb', heq'⟩
      · have hfirst := (hsame b).2 hb
        exact absurd hfirst.brace (hnone' b hfirst.behind)
      · obtain rfl := ((hsame b').1 hb').unique hb
        rw [heq, heq']

end ComponentMarkup
