import ComponentMarkup.Proofs.Json.Document

/-!
# Outside of strings

Infinity and no number are printed as words that JSON does not have. They have a capital letter
that stands in no string, and no document has such a letter, whatever limits there are for its
numbers and its depth. So a text that renders a tree with such a literal is no document
(`IsJson.not_isForeign`).
-/

namespace ComponentMarkup

/-- Does JSON lack a word for this literal? -/
def Literal.isForeign : Literal → Bool
  | infinity _ | nan => true
  | null | bool _ | string _ | number _ => false

/-- The first letters of the words for infinity and for no number. -/
def isForeignCapital (c : Char) : Bool := c = 'I' || c = 'N'

/-! ## Characters outside of strings -/

/-- The characters of a text that stand outside of its strings, if it starts within one or not. -/
def bareFrom : Bool → List Char → List Char
  | _, [] => []
  | false, c :: cs => if c = '"' then bareFrom true cs else c :: bareFrom false cs
  | true, '\\' :: _ :: cs => bareFrom true cs
  | true, c :: cs => bareFrom (c ≠ '"') cs

/-- A part of a text that starts and ends outside of strings, and its characters that stand
there. -/
def IsBare (cs bare : List Char) : Prop :=
  ∀ rest, bareFrom false (cs ++ rest) = bare ++ bareFrom false rest

namespace IsBare

variable {cs ds bare bare' : List Char}

theorem nil : IsBare [] [] := fun _ => rfl

theorem cons {c : Char} (hc : c ≠ '"') (h : IsBare cs bare) : IsBare (c :: cs) (c :: bare) := by
  intro rest
  rw [List.cons_append, bareFrom, if_neg hc, h rest]
  rfl

theorem append (h : IsBare cs bare) (hds : IsBare ds bare') :
    IsBare (cs ++ ds) (bare ++ bare') := by
  intro rest
  rw [List.append_assoc, h, hds, List.append_assoc]

/-- Without quotes all characters stand outside of strings. -/
theorem of_no_quote (h : ∀ c ∈ cs, c ≠ '"') : IsBare cs cs := by
  induction cs with
  | nil => exact nil
  | cons c cs ih =>
      rw [List.forall_mem_cons] at h
      exact cons h.1 (ih h.2)

theorem unique (h : IsBare cs bare) (h' : IsBare cs bare') : bare = bare' := by
  simpa [bareFrom] using (h []).symm.trans (h' [])

end IsBare

/-- A string ends with the first quote that is not escaped. -/
theorem IsStringBody.bareFrom_eq {body : List Char} (h : IsStringBody body) (rest : List Char) :
    bareFrom true (body ++ '"' :: rest) = bareFrom false rest := by
  induction h with
  | nil => simp [bareFrom]
  | plain _ hquote hslash _ ih => simp [bareFrom, hquote, hslash, ih]
  | short _ _ ih => simp [bareFrom, ih]
  | @unicode a b c d cs h _ ih =>
      -- the scan skips the letter of the escape only, and the digits end no string
      have hplain : ∀ x ∈ [a, b, c, d], x ≠ '"' ∧ x ≠ '\\' := by
        intro x hx
        have hhex := h x hx
        constructor
        · rintro rfl
          revert hhex
          decide
        · rintro rfl
          revert hhex
          decide
      simp only [List.forall_mem_cons] at hplain
      simp [bareFrom, hplain, ih]

/-- A string between its quotes. -/
theorem isBare_quoted {body : List Char} (h : IsStringBody body) :
    IsBare ('"' :: (body ++ ['"'])) [] := by
  intro rest
  rw [List.cons_append, List.append_assoc, List.singleton_append, bareFrom, if_pos rfl,
    h.bareFrom_eq]
  rfl

/-! ## Documents -/

/-- A text that starts and ends outside of strings, without a foreign capital between them. -/
def IsPlain (cs : List Char) : Prop :=
  ∃ bare, IsBare cs bare ∧ ∀ c ∈ bare, isForeignCapital c = false

namespace IsPlain

variable {cs ds : List Char}

theorem nil : IsPlain [] := ⟨[], .nil, List.forall_mem_nil _⟩

theorem cons {c : Char} (hc : c ≠ '"') (hcapital : isForeignCapital c = false) (h : IsPlain cs) :
    IsPlain (c :: cs) := by
  rcases h with ⟨bare, hbare, hplain⟩
  exact ⟨c :: bare, hbare.cons hc, List.forall_mem_cons.2 ⟨hcapital, hplain⟩⟩

theorem append (h : IsPlain cs) (hds : IsPlain ds) : IsPlain (cs ++ ds) := by
  rcases h with ⟨bare, hbare, hplain⟩
  rcases hds with ⟨bare', hbare', hplain'⟩
  exact ⟨bare ++ bare', hbare.append hbare', List.forall_mem_append.2 ⟨hplain, hplain'⟩⟩

/-- Characters of a kind that neither quotes nor foreign capitals are of. -/
theorem of_kind (kind : Char → Bool) (hquote : kind '"' = false) (hI : kind 'I' = false)
    (hN : kind 'N' = false) (h : ∀ c ∈ cs, kind c = true) : IsPlain cs := by
  have hne : ∀ c ∈ cs, ∀ d, kind d = false → c ≠ d := by
    rintro c hc d hd rfl
    cases hd.symm.trans (h c hc)
  refine ⟨cs, .of_no_quote fun c hc => hne c hc _ hquote, ?_⟩
  intro c hc
  simp [isForeignCapital, hne c hc _ hI, hne c hc _ hN]

theorem quoted {body : List Char} (h : IsStringBody body) : IsPlain ('"' :: (body ++ ['"'])) :=
  ⟨[], isBare_quoted h, List.forall_mem_nil _⟩

end IsPlain

theorem IsBlankText.isPlain {cs : List Char} (h : IsBlankText cs) : IsPlain cs :=
  .of_kind isBlank rfl rfl rfl h

theorem IsMemberName.isPlain {cs : List Char} (h : IsMemberName IsStringBody cs) : IsPlain cs := by
  rcases h with ⟨before, body, after, rfl, hbefore, hbody, hafter⟩
  have hquoted := (IsPlain.quoted hbody).append hafter.isPlain
  rw [List.cons_append, List.append_assoc, List.singleton_append] at hquoted
  exact hbefore.isPlain.append hquoted

/-- In a document there are no foreign capitals outside of strings. -/
theorem IsJson.isPlain {numbers : Numeral → Prop} {room : Nat} {part : JsonPart} {cs : List Char}
    (h : IsJson IsStringBody numbers room part cs) : IsPlain cs := by
  -- quotes stand around strings only, so every part starts and ends outside of them
  induction h with
  | word hword =>
      simp only [List.mem_cons, List.not_mem_nil, or_false] at hword
      rcases hword with rfl | rfl | rfl
      all_goals exact .of_kind Char.isLower rfl rfl rfl (List.all_eq_true.1 rfl)
  | string hbody => exact .quoted hbody
  | number hn _ => exact .of_kind isNumeralChar rfl rfl rfl hn.isNumeralChar
  | emptyArray hblanks | emptyObject hblanks =>
      exact (hblanks.isPlain.append (.cons (by decide) rfl .nil)).cons (by decide) rfl
  | array _ ih | object _ ih =>
      exact (ih.append (.cons (by decide) rfl .nil)).cons (by decide) rfl
  | padded hbefore _ hafter ih => exact hbefore.isPlain.append (ih.append hafter.isPlain)
  | lastElement _ ih => exact ih
  | nextElement _ _ ih ihmore => exact ih.append (ihmore.cons (by decide) rfl)
  | lastMember hname _ ih => exact hname.isPlain.append (ih.cons (by decide) rfl)
  | nextMember hname _ _ ih ihmore =>
      have hrest := ih.append (ihmore.cons (c := ',') (by decide) rfl)
      exact hname.isPlain.append (hrest.cons (by decide) rfl)

/-! ## Renderings -/

/-- A text that starts and ends outside of strings, with a foreign capital between them if something
is the case. -/
def Shows (cs : List Char) (p : Prop) : Prop :=
  ∃ bare, IsBare cs bare ∧ (p → ∃ c ∈ bare, isForeignCapital c = true)

namespace Shows

variable {cs ds : List Char} {p q : Prop}

theorem mono (hpq : q → p) (h : Shows cs p) : Shows cs q := by
  rcases h with ⟨bare, hbare, hcapital⟩
  exact ⟨bare, hbare, fun hq => hcapital (hpq hq)⟩

theorem append (h : Shows cs p) (hds : Shows ds q) : Shows (cs ++ ds) (p ∨ q) := by
  rcases h with ⟨bare, hbare, hcapital⟩
  rcases hds with ⟨bare', hbare', hcapital'⟩
  refine ⟨bare ++ bare', hbare.append hbare', ?_⟩
  rintro (hp | hq)
  · rcases hcapital hp with ⟨c, hc, h⟩
    exact ⟨c, List.mem_append_left _ hc, h⟩
  · rcases hcapital' hq with ⟨c, hc, h⟩
    exact ⟨c, List.mem_append_right _ hc, h⟩

theorem cons {c : Char} (hc : c ≠ '"') (h : Shows cs p) : Shows (c :: cs) p := by
  rcases h with ⟨bare, hbare, hcapital⟩
  refine ⟨c :: bare, hbare.cons hc, fun hp => ?_⟩
  rcases hcapital hp with ⟨d, hd, h⟩
  exact ⟨d, List.mem_cons_of_mem _ hd, h⟩

theorem of_isPlain (h : IsPlain cs) : Shows cs False := by
  rcases h with ⟨bare, hbare, -⟩
  exact ⟨bare, hbare, False.elim⟩

/-- A text between two others that are plain. -/
theorem between {before after : List Char} (hbefore : IsPlain before) (h : Shows cs p)
    (hafter : IsPlain after) : Shows (before ++ (cs ++ after)) p := by
  have hall := (of_isPlain hbefore).append (h.append (of_isPlain hafter))
  exact hall.mono fun hp => .inr (.inl hp)

end Shows

theorem Literal.IsSpelled.shows {value : Literal} {cs : List Char} (h : value.IsSpelled cs) :
    Shows cs (value.isForeign = true) := by
  cases h with
  | word hw =>
      -- the three words with capitals are the foreign ones
      have hquotes : ∀ w ∈ literalWords, w.1.all (· ≠ '"') = true := by decide
      have hcapitals : ∀ w ∈ literalWords, w.2.isForeign = true →
          w.1.any isForeignCapital = true := by decide
      refine ⟨_, .of_no_quote ?_, fun hforeign => List.any_eq_true.1 (hcapitals _ hw hforeign)⟩
      simpa using hquotes _ hw
  | string ht => exact ⟨[], isBare_quoted ht.isStringBody, fun hforeign => nomatch hforeign⟩
  | number hn _ =>
      have hplain : IsPlain _ := .of_kind isNumeralChar rfl rfl rfl hn.isNumeralChar
      exact (Shows.of_isPlain hplain).mono fun hforeign => nomatch hforeign

/-- One of the literals that a part of a rendering renders is foreign. -/
def Content.IsForeign (content : Content) : Prop :=
  ∃ literal, content.HasLeaf literal ∧ literal.isForeign = true

/-- A rendering shows whether one of its literals is foreign. -/
theorem IsRendering.shows {literals : Literal → Prop} {room offset : Nat} {content : Content}
    {cs : List Char} (h : IsRendering literals room offset content cs) :
    Shows cs content.IsForeign := by
  have hclose : ∀ c, c ≠ '"' → isForeignCapital c = false → IsPlain [c] :=
    fun c hc hcapital => .cons hc hcapital .nil
  -- each construct is made of its parts and of characters that show nothing: what is shown inside
  -- is shown outside, and a leaf of a part is a leaf of the whole
  induction h with
  | leaf _ hspelled =>
      apply hspelled.shows.mono
      rintro ⟨literal, hleaf, hforeign⟩
      obtain rfl := Tree.hasLeaf_leaf.1 hleaf
      exact hforeign
  | emptyArray hblanks =>
      have hplain := hblanks.isPlain.append (hclose ']' (by decide) rfl)
      apply ((Shows.of_isPlain hplain).cons (c := '[') (by decide)).mono
      rintro ⟨literal, hleaf, -⟩
      simp [Content.HasLeaf] at hleaf
  | emptyObject hblanks =>
      have hplain := hblanks.isPlain.append (hclose '\x7d' (by decide) rfl)
      apply ((Shows.of_isPlain hplain).cons (c := '\x7b') (by decide)).mono
      rintro ⟨literal, hleaf, -⟩
      simp [Content.HasLeaf] at hleaf
  | array _ ih =>
      have hall := ih.between .nil (hclose ']' (by decide) rfl)
      apply (hall.cons (by decide)).mono
      rintro ⟨literal, hleaf, hforeign⟩
      exact ⟨literal, Tree.hasLeaf_array.1 hleaf, hforeign⟩
  | object _ ih =>
      have hall := ih.between .nil (hclose '\x7d' (by decide) rfl)
      apply (hall.cons (by decide)).mono
      rintro ⟨literal, hleaf, hforeign⟩
      exact ⟨literal, Tree.hasLeaf_object.1 hleaf, hforeign⟩
  | padded hbefore _ hafter ih => exact ih.between hbefore.isPlain hafter.isPlain
  | lastElement _ ih =>
      apply ih.mono
      rintro ⟨literal, ⟨t, ht, hleaf⟩, hforeign⟩
      obtain rfl := List.mem_singleton.1 ht
      exact ⟨literal, hleaf, hforeign⟩
  | nextElement _ _ ih ihmore =>
      apply (ih.append (ihmore.cons (by decide))).mono
      rintro ⟨literal, ⟨t, ht, hleaf⟩, hforeign⟩
      rcases List.mem_cons.1 ht with rfl | ht
      · exact .inl ⟨literal, hleaf, hforeign⟩
      · exact .inr ⟨literal, ⟨t, ht, hleaf⟩, hforeign⟩
  | lastMember hname _ ih =>
      have hkey := Shows.of_isPlain hname.isMemberName.isPlain
      apply (hkey.append (ih.cons (by decide))).mono
      rintro ⟨literal, ⟨m, hm, hleaf⟩, hforeign⟩
      obtain rfl := List.mem_singleton.1 hm
      exact .inr ⟨literal, hleaf, hforeign⟩
  | nextMember hname _ _ ih ihmore =>
      have hkey := Shows.of_isPlain hname.isMemberName.isPlain
      have hrest := ih.append (ihmore.cons (c := ',') (by decide))
      apply (hkey.append (hrest.cons (by decide))).mono
      rintro ⟨literal, ⟨m, hm, hleaf⟩, hforeign⟩
      rcases List.mem_cons.1 hm with rfl | hm
      · exact .inr (.inl ⟨literal, hleaf, hforeign⟩)
      · exact .inr (.inr ⟨literal, ⟨m, hm, hleaf⟩, hforeign⟩)

/-- What a document renders has no foreign literal. -/
theorem IsJson.not_isForeign {literals : Literal → Prop} {numbers : Numeral → Prop}
    {room room' offset : Nat} {content : Content} {part : JsonPart} {cs : List Char}
    (h : IsJson IsStringBody numbers room part cs)
    (hrendering : IsRendering literals room' offset content cs) : ¬ content.IsForeign := by
  intro hforeign
  rcases h.isPlain with ⟨bare, hbare, hplain⟩
  rcases hrendering.shows with ⟨bare', hbare', hcapital⟩
  -- what stands outside of strings depends on the text alone
  obtain rfl := hbare.unique hbare'
  rcases hcapital hforeign with ⟨c, hc, hshown⟩
  cases (hplain c hc).symm.trans hshown

end ComponentMarkup
