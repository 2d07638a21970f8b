import ComponentMarkup.Proofs.Json.Document
import ComponentMarkup.Proofs.Json.Translation
import ComponentMarkup.Proofs.Verdict

/-!
# Well-formed markup is captured whole

A fragment ends where the braces balance, those within strings counted too. We show that an object
whose strings hold no braces is captured whole, whatever stands around it, and that it is decoded as
it would be alone, but for its place (`Source.outcomeAt_object`). The reason is that outside of
strings the braces of a document balance (`IsJson.balanced`).
-/

namespace ComponentMarkup

/-! ## Braces that balance -/

/-- A text without braces. -/
def HasNoBraces (cs : List Char) : Prop := ∀ c ∈ cs, c ≠ '\x7b' ∧ c ≠ '\x7d'

instance (cs : List Char) : Decidable (HasNoBraces cs) :=
  List.decidableBAll (fun c => c ≠ '\x7b' ∧ c ≠ '\x7d') cs

/-- A text in which every brace has a counterpart. -/
inductive Balanced : List Char → Prop where
  | nil : Balanced []
  | char {c cs} : c ≠ '\x7b' → c ≠ '\x7d' → Balanced cs → Balanced (c :: cs)
  | braces {inner cs} :
      Balanced inner → Balanced cs → Balanced ('\x7b' :: (inner ++ '\x7d' :: cs))

namespace Balanced

variable {cs ds : List Char}

theorem append (h : Balanced cs) (hds : Balanced ds) : Balanced (cs ++ ds) := by
  induction h with
  | nil => exact hds
  | char hopen hclose _ ih => exact .char hopen hclose ih
  | braces hinner _ _ ih =>
      rw [List.cons_append, List.append_assoc, List.cons_append]
      exact .braces hinner ih

theorem of_hasNoBraces (h : HasNoBraces cs) : Balanced cs := by
  induction cs with
  | nil => exact .nil
  | cons c cs ih =>
      rcases h c (List.mem_cons_self ..) with ⟨hopen, hclose⟩
      exact .char hopen hclose (ih fun d hd => h d (List.mem_cons_of_mem _ hd))

/-- Within an open brace the capture gets over a text in which the braces balance. -/
theorem captureBraces_append (h : Balanced cs) {depth : Nat} (hdepth : 1 ≤ depth)
    (rest : List Char) : captureBraces depth (cs ++ rest) = cs ++ captureBraces depth rest := by
  induction h generalizing depth rest with
  | nil => rfl
  | @char c cs hopen hclose _ ih =>
      rw [List.cons_append, captureBraces, ih hdepth, List.cons_append]
      · exact hopen
      · exact hclose
  | @braces inner cs _ _ ih ih' =>
      have hne : depth + 1 ≠ 1 := by omega
      rw [List.cons_append, captureBraces, List.append_assoc, List.cons_append,
        ih (Nat.le_add_left 1 depth), captureBraces, if_neg hne, Nat.add_sub_cancel,
        ih' hdepth, List.cons_append, List.append_assoc, List.cons_append]

/-- What stands between two braces is captured with them, and nothing behind them is. -/
theorem captureBraces_object (h : Balanced cs) (rest : List Char) :
    captureBraces 0 ('\x7b' :: (cs ++ ['\x7d']) ++ rest) = '\x7b' :: (cs ++ ['\x7d']) := by
  rw [List.cons_append, captureBraces, List.append_assoc, h.captureBraces_append (Nat.le_refl 1),
    List.singleton_append, captureBraces, if_pos rfl]

end Balanced

/-! ## Braces of documents -/

/-- Characters of a kind that no brace is of. -/
theorem hasNoBraces_of_kind {kind : Char → Bool} (hopen : kind '\x7b' = false)
    (hclose : kind '\x7d' = false) {cs : List Char} (h : ∀ c ∈ cs, kind c = true) :
    HasNoBraces cs := by
  intro c hc
  have hkind := h c hc
  constructor
  · rintro rfl
    rw [hopen] at hkind
    cases hkind
  · rintro rfl
    rw [hclose] at hkind
    cases hkind

theorem IsBlankText.hasNoBraces {cs : List Char} (h : IsBlankText cs) : HasNoBraces cs :=
  hasNoBraces_of_kind rfl rfl h

theorem HasNoBraces.append {cs ds : List Char} (h : HasNoBraces cs) (hds : HasNoBraces ds) :
    HasNoBraces (cs ++ ds) := List.forall_mem_append.2 ⟨h, hds⟩

theorem HasNoBraces.cons {c : Char} {cs : List Char} (hopen : c ≠ '\x7b') (hclose : c ≠ '\x7d')
    (h : HasNoBraces cs) : HasNoBraces (c :: cs) := List.forall_mem_cons.2 ⟨⟨hopen, hclose⟩, h⟩

theorem Numeral.WellFormed.hasNoBraces {n : Numeral} (h : n.WellFormed) :
    HasNoBraces n.spelling :=
  hasNoBraces_of_kind rfl rfl h.isNumeralChar

/-- A quoted text without braces, with white space around it or none. -/
theorem hasNoBraces_quoted {before body after : List Char} (hbefore : IsBlankText before)
    (h : HasNoBraces body) (hafter : IsBlankText after) :
    HasNoBraces (before ++ '"' :: (body ++ '"' :: after)) :=
  hbefore.hasNoBraces.append
    ((h.append (hafter.hasNoBraces.cons (by decide) (by decide))).cons (by decide) (by decide))

/-- The braces of a document balance, if its strings have none. -/
theorem IsJson.balanced {numbers : Numeral → Prop} {room : Nat} {part : JsonPart} {cs : List Char}
    (h : IsJson HasNoBraces numbers room part cs) : Balanced cs := by
  have hname : ∀ name, IsMemberName HasNoBraces name → Balanced name := by
    rintro name ⟨before, body, after, rfl, hbefore, hbody, hafter⟩
    exact .of_hasNoBraces (hasNoBraces_quoted hbefore hbody hafter)
  have hnone : IsBlankText [] := by simp [IsBlankText]
  -- induction on the grammar; only objects open and close braces; everything else is balanced
  -- because it has none, or because its parts are
  induction h with
  | word hword =>
      simp only [List.mem_cons, List.not_mem_nil, or_false] at hword
      rcases hword with rfl | rfl | rfl
      all_goals exact .of_hasNoBraces (by decide)
  | string hbody => exact .of_hasNoBraces (hasNoBraces_quoted hnone hbody hnone)
  | number hn _ => exact .of_hasNoBraces hn.hasNoBraces
  | emptyArray hblanks =>
      refine .char (by decide) (by decide) (.append ?_ ?_)
      · exact .of_hasNoBraces hblanks.hasNoBraces
      · exact .of_hasNoBraces (by decide)
  | array _ ih => exact .char (by decide) (by decide) (ih.append (.of_hasNoBraces (by decide)))
  | emptyObject hblanks => exact .braces (.of_hasNoBraces hblanks.hasNoBraces) .nil
  | object _ ih => exact .braces ih .nil
  -- blanks have no braces, so padding keeps the balance
  | padded hbefore _ hafter ih =>
      have hbehind := ih.append (.of_hasNoBraces hafter.hasNoBraces)
      exact .append (.of_hasNoBraces hbefore.hasNoBraces) hbehind
  | lastElement _ ih => exact ih
  | nextElement _ _ ih ihmore => exact ih.append (ihmore.char (by decide) (by decide))
  | lastMember hmember _ ih => exact (hname _ hmember).append (ih.char (by decide) (by decide))
  | nextMember hmember _ _ ih ihmore =>
      have hrest := ih.append (ihmore.char (c := ',') (by decide) (by decide))
      exact (hname _ hmember).append (hrest.char (by decide) (by decide))

/-- A document that starts with an opening brace and ends with a closing one is an object. -/
theorem IsJson.exists_inner {numbers : Numeral → Prop} {room : Nat} {text : List Char}
    (h : IsJson HasNoBraces numbers room .padded text) (hopen : text.head? = some '\x7b')
    (hclose : text.getLast? = some '\x7d') :
    ∃ inner, text = '\x7b' :: (inner ++ ['\x7d']) ∧ Balanced inner := by
  cases h with
  | @padded room before cs after hbefore hvalue hafter =>
  -- the braces are no white space, so the value is all there is
  have hfront : before = [] := by
    cases before with
    | nil => rfl
    | cons b bs =>
        obtain rfl : b = '\x7b' := by simpa using hopen
        cases hbefore '\x7b' (List.mem_cons_self ..)
  have hback : after = [] := by
    rcases List.eq_nil_or_concat after with hnil | ⟨as, a, rfl⟩
    · exact hnil
    · obtain rfl : a = '\x7d' := by simpa [List.getLast?_append] using hclose
      cases hafter '\x7d' (by simp)
  subst hfront hback
  rw [List.nil_append, List.append_nil] at hopen ⊢
  cases hvalue with
  | word hword =>
      simp only [List.mem_cons, List.not_mem_nil, or_false] at hword
      rcases hword with rfl | rfl | rfl
      all_goals cases hopen
  | string | emptyArray | array => cases hopen
  | number hn _ =>
      rcases hn.exists_cons with ⟨c, cs, heq, -, hmark⟩
      rw [heq] at hopen
      obtain rfl := Option.some.inj hopen
      exact absurd (by decide) hmark
  | @emptyObject room blanks hblanks => exact ⟨blanks, rfl, .of_hasNoBraces hblanks.hasNoBraces⟩
  | @object room cs hmembers => exact ⟨cs, rfl, hmembers.balanced⟩

/-! ## Capture -/

/-- Is this a string literal? -/
def Token.isString : Token → Bool
  | literal (.string _) => true
  | _ => false

/-- No string literal of a text holds a brace. -/
def StringsHaveNoBraces (text : List Char) : Prop :=
  ∀ l ∈ lexemes text, l.token.isString = true → HasNoBraces (l.spelling text)

instance (text : List Char) : Decidable (StringsHaveNoBraces text) :=
  inferInstanceAs (Decidable (∀ l ∈ lexemes text, _ → _))

/-- A fragment starts at the first opening brace behind the characters that are skipped. -/
theorem cutFragment_append {skip : Nat} {before : List Char} (cs : List Char)
    (hskip : skip ≤ before.length) (hgap : '\x7b' ∉ before.drop skip) :
    cutFragment skip (before ++ '\x7b' :: cs) =
      before.map blankOut ++ captureBraces 0 ('\x7b' :: cs) := by
  induction before generalizing skip with
  | nil =>
      obtain rfl : skip = 0 := Nat.le_zero.1 hskip
      rfl
  | cons b bs ih =>
      -- whether in front of the offset or behind it, `before` has no brace that counts, so it is
      -- blanked
      cases skip with
      | zero =>
          rw [List.drop_zero, List.mem_cons, not_or] at hgap
          have hb : '\x7b' ≠ b := hgap.1
          rw [List.cons_append, cutFragment, ih (Nat.zero_le _) hgap.2]
          · rfl
          · exact fun _ heq => hb heq.symm
      | succ skip =>
          rw [List.cons_append, cutFragment, Nat.add_sub_cancel,
            ih (Nat.le_of_succ_le_succ hskip) hgap]
          · rfl
          · simp

/-- An object whose strings hold no braces is cut out of a text as a whole, and nothing behind it
is. -/
theorem fragmentAt_object {room : Nat} {obj : List Char} {root : LocatedTree}
    (h : decodeJson room obj = .ok root) (hopen : obj.head? = some '\x7b')
    (hclose : obj.getLast? = some '\x7d') (hstrings : StringsHaveNoBraces obj)
    (before gap rest : List Char) (hgap : '\x7b' ∉ gap) :
    fragmentAt (before ++ (gap ++ (obj ++ rest))) before.length =
      (before ++ gap).map blankOut ++ obj := by
  -- the decoded object is JSON by the grammar, hence balanced up to its closing brace
  have hjson : IsJson HasNoBraces Numeral.IsDecoded (levelLimit room) .padded obj := by
    apply isJson_of_decodeJson h
    intro l hl t ht body hbody _ c hc
    have hstring : l.token.isString = true := by
      rw [ht]
      rfl
    exact hstrings l hl hstring c (by simp [hbody, hc])
  rcases hjson.exists_inner hopen hclose with ⟨inner, rfl, hinner⟩
  have hlen : min ((before.length : Int)).toNat
      (before ++ (gap ++ ('\x7b' :: (inner ++ ['\x7d']) ++ rest))).length = before.length := by
    simp
  have hnone : '\x7b' ∉ (before ++ gap).drop before.length := by
    rwa [List.drop_left]
  have hcut := hinner.captureBraces_object rest
  rw [List.cons_append] at hcut
  rw [fragmentAt, hlen, ← List.append_assoc, List.cons_append,
    cutFragment_append _ (by simp) hnone, hcut]

/-- An object whose strings hold no braces, behind a marker of a source that is nothing but markup
and a gap without opening braces: the marker is found there, the fragment behind it is the blanked
text in front of the object and the object, and it decodes to what the object decodes to alone,
every node moved to where it stands in the source. -/
theorem Source.outcomeAt_object {scope : Scope} {s : Source} {before gap obj rest : List Char}
    {root : LocatedTree} (hkind : s.kind = .markupOnly) (hmarker : scope.marker ≠ [])
    (htext : s.text = before ++ (scope.marker ++ (gap ++ (obj ++ rest)))) (hgap : '\x7b' ∉ gap)
    (hopen : obj.head? = some '\x7b') (hclose : obj.getLast? = some '\x7d')
    (hdecode : decodeJson scope.room obj = .ok root) (hstrings : StringsHaveNoBraces obj) :
    let front := before ++ (scope.marker ++ gap)
    before.length ∈ s.offsets scope ∧
      s.fragmentBehind scope before.length = front.map blankOut ++ obj ∧
      decodeJson scope.room (front.map blankOut ++ obj) = .ok (root.mapMark (Place.behind front)) ∧
      s.outcomeAt scope before.length = .decoded (root.mapMark (Place.behind front)) := by
  intro front
  -- a markup-only source is scanned as written
  have hscanned : s.scannedText = s.text := by
    rw [scannedText, hkind]
  have hfragment : s.fragmentBehind scope before.length = front.map blankOut ++ obj := by
    have hcut := fragmentAt_object hdecode hopen hclose hstrings (before ++ scope.marker) gap rest
      hgap
    rw [List.length_append, List.append_assoc, List.append_assoc] at hcut
    rw [fragmentBehind, hscanned, htext, hcut]
  have hdecoded : decodeJson scope.room (front.map blankOut ++ obj) =
      .ok (root.mapMark (Place.behind front)) := by
    -- blanked characters are blanks to the decoder, so the object moves as blanks in front move it
    have hblank : ∀ c ∈ front.map blankOut, isBlank c = true := by
      intro c hc
      rcases List.mem_map.1 hc with ⟨d, -, rfl⟩
      exact isBlank_blankOut d
    have hhead : obj.head? ≠ some '\n' := by simp [hopen]
    rw [decodeJson_blank_append hblank hhead hdecode, Place.behind_map_blankOut]
  refine ⟨?_, hfragment, hdecoded, ?_⟩
  · -- the marker stands at that offset, and an occurrence is what the scan looks for
    have hpos : 0 < scope.marker.length := List.length_pos_iff.2 hmarker
    rw [offsets, hscanned, markerOffsets_eq_filter, List.mem_filter, List.mem_range, htext]
    refine ⟨by simp only [List.length_append]; omega, ?_⟩
    simp [occursAt, hmarker]
  · -- a decoded object is passed on as it is, since a markup-only source is completed by nothing
    have hobject : (root.mapMark (Place.behind front)).isObject = true :=
      isObject_of_decode_fragment (hfragment ▸ hdecoded)
    have hcomplete : s.completed scope (root.mapMark (Place.behind front)) =
        .ok (root.mapMark (Place.behind front)) := by
      rw [completed, if_neg]
      rintro ⟨hscript, -⟩
      rw [hkind] at hscript
      cases hscript
    rw [outcomeAt, outcomeOf, hfragment, hdecoded]
    simp only [hobject, if_true, hcomplete]

/-- An object on two lines, behind a carriage return, a line feed and both together, and in front of
another brace. -/
theorem Source.outcomeAt_object_two_lines :
    let scope : Scope :=
      { marker := "#M".toList, root := none, workingDirectory := [], room := 981 }
    let before := "1\r\n2\r".toList
    let gap := "\n ".toList
    let obj := "\x7b\"class\":\n [\x7b\x7d]\x7d".toList
    let s : Source :=
      { path := "a".toList, kind := .markupOnly,
        text := before ++ (scope.marker ++ (gap ++ (obj ++ " \x7d".toList))) }
    let front := before ++ (scope.marker ++ gap)
    scope.marker ≠ [] ∧ '\x7b' ∉ gap ∧ obj.head? = some '\x7b' ∧ obj.getLast? = some '\x7d' ∧
      StringsHaveNoBraces obj ∧ ∃ root, decodeJson scope.room obj = .ok root ∧
        before.length ∈ s.offsets scope ∧
        s.fragmentBehind scope before.length = front.map blankOut ++ obj ∧
        decodeJson scope.room (front.map blankOut ++ obj) =
          .ok (root.mapMark (Place.behind front)) ∧
        s.outcomeAt scope before.length = .decoded (root.mapMark (Place.behind front)) := by
  intro scope before gap obj s front
  have hmarker : scope.marker ≠ [] := by decide
  have hgap : '\x7b' ∉ gap := by decide
  have hopen : obj.head? = some '\x7b' := rfl
  have hclose : obj.getLast? = some '\x7d' := rfl
  have hstrings : StringsHaveNoBraces obj := by decide
  have hdecoded : (decodeJson scope.room obj).toBool = true := by decide +kernel
  rcases Except.exists_of_toBool hdecoded with ⟨root, hdecode⟩
  have hall := outcomeAt_object (s := s) rfl hmarker rfl hgap hopen hclose hdecode hstrings
  exact ⟨hmarker, hgap, hopen, hclose, hstrings, root, hdecode, hall⟩

end ComponentMarkup
