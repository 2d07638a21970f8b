import ComponentMarkup.Proofs.Capture

/-!
# Occurrences do not interfere

Two sources that are nothing but markup may share no more than a marker and the text behind it, up
to where the braces balance. We show that the occurrence they share comes to the same end in both
(`Source.yieldsAt_independent`): either it yields no object in either of them, or the same one, with
every place behind what stands in front of the object. So nothing that stands elsewhere in a source,
however broken, hides an occurrence, alters it or moves it.

The fragment is the blanked text in front of the object and the object (`fragmentAt_closed`), the
capture of the object takes no notice of what follows it (`captureBraces_closed`), and the blanked
text moves the places and does nothing else (`decodeJson_behind_iff`).
-/

namespace ComponentMarkup

/-! ## What is captured -/

/-- The braces of a text return to depth zero at an offset, if they are counted from the first
opening one. -/
structure ClosesAt (text : List Char) (first last : Nat) : Prop where
  brace : IsFirstBrace text 0 first
  le : first ≤ last
  lt : last < text.length
  closed : ((text.take (last + 1)).drop first).count '\x7b' =
    ((text.take (last + 1)).drop first).count '\x7d'

/-- Once the open braces are closed, the capture does not depend on what follows. -/
theorem captureBraces_closed {depth : Nat} {cs : List Char} (hdepth : 1 ≤ depth)
    (hclosed : depth + cs.count '\x7b' ≤ cs.count '\x7d') (rest : List Char) :
    captureBraces depth (cs ++ rest) = captureBraces depth cs := by
  fun_induction captureBraces depth cs with
  | case1 depth =>
      -- there is no brace left that could close the open ones
      simp only [List.count_nil] at hclosed
      omega
  | case2 depth cs ih =>
      have hrest : depth + 1 + cs.count '\x7b' ≤ cs.count '\x7d' := by
        simp only [List.count_cons_self, List.count_cons_of_ne (by decide : '\x7b' ≠ '\x7d')]
          at hclosed
        omega
      rw [List.cons_append, captureBraces, ih (by omega) hrest]
  | case3 depth cs ih =>
      rw [List.cons_append, captureBraces]
      by_cases hone : depth = 1
      · rw [if_pos hone, if_pos hone]
      · have hrest : depth - 1 + cs.count '\x7b' ≤ cs.count '\x7d' := by
          simp only [List.count_cons_self, List.count_cons_of_ne (by decide : '\x7d' ≠ '\x7b')]
            at hclosed
          omega
        rw [if_neg hone, if_neg hone, ih (by omega) hrest]
  | case4 depth c cs hopen hclose ih =>
      have hrest : depth + cs.count '\x7b' ≤ cs.count '\x7d' := by
        rwa [List.count_cons_of_ne hopen, List.count_cons_of_ne hclose] at hclosed
      rw [List.cons_append, captureBraces, ih hdepth hrest]
      · exact hopen
      · exact hclose

namespace ClosesAt

variable {text text' : List Char} {first last : Nat}

/-- The text up to where its braces balance: a gap without opening braces, and an object. -/
theorem exists_object (h : ClosesAt text first last) :
    ∃ inner, text.take (last + 1) = text.take first ++ '\x7b' :: inner ∧
      '\x7b' ∉ text.take first ∧ 1 + inner.count '\x7b' ≤ inner.count '\x7d' := by
  rcases List.getElem?_eq_some_iff.1 h.brace.brace with ⟨hfirst, hbrace⟩
  have hle := h.le
  -- the brace at `first` is still there when the text is cut behind `last`
  have hlt : first < (text.take (last + 1)).length := by
    rw [List.length_take]
    omega
  have hdrop : (text.take (last + 1)).drop first =
      '\x7b' :: (text.take (last + 1)).drop (first + 1) := by
    rw [List.drop_eq_getElem_cons hlt, List.getElem_take, hbrace]
  refine ⟨(text.take (last + 1)).drop (first + 1), ?_, ?_, ?_⟩
  · have hmin : min first (last + 1) = first := by omega
    rw [← hdrop, ← hmin, ← List.take_take, hmin, List.take_append_drop]
  · -- a brace further in front would be the first one
    intro hmem
    rcases List.mem_iff_getElem?.1 hmem with ⟨i, hi⟩
    rw [List.getElem?_take] at hi
    split at hi
    · next hlt => exact h.brace.first i hlt (by omega) hi
    · cases hi
  · -- the count of braces is that of `h.closed`, less the opening brace itself
    have hclosed := h.closed
    rw [hdrop, List.count_cons_self, List.count_cons_of_ne (by decide)] at hclosed
    omega

end ClosesAt

/-- The fragment of an object with balanced braces is the object, behind blanks. -/
theorem fragmentAt_closed {gap inner : List Char} (hgap : '\x7b' ∉ gap)
    (hclosed : 1 + inner.count '\x7b' ≤ inner.count '\x7d') (before rest : List Char) :
    fragmentAt (before ++ (gap ++ '\x7b' :: (inner ++ rest))) before.length =
      (before ++ gap).map blankOut ++ captureBraces 0 ('\x7b' :: inner) := by
  have hlen : min ((before.length : Int)).toNat
      (before ++ (gap ++ '\x7b' :: (inner ++ rest))).length = before.length := by
    simp
  have hnone : '\x7b' ∉ (before ++ gap).drop before.length := by
    rwa [List.drop_left]
  have hskip : before.length ≤ (before ++ gap).length := by simp
  rw [fragmentAt, hlen, ← List.append_assoc, cutFragment_append _ hskip hnone, captureBraces,
    captureBraces, Nat.zero_add, captureBraces_closed (Nat.le_refl 1) hclosed]

/-- What decodes behind a blanked text decodes alone, so it is enough to know what a blanked text
makes of that which does. -/
theorem decodeJson_blanked_iff {room : Nat} {front object : List Char}
    {f : LocatedTree → LocatedTree}
    (h : ∀ alone, decodeJson room object = .ok alone →
      decodeJson room (front.map blankOut ++ object) = .ok (f alone)) {root : LocatedTree} :
    decodeJson room (front.map blankOut ++ object) = .ok root ↔
      ∃ alone, decodeJson room object = .ok alone ∧ root = f alone := by
  constructor
  · intro hroot
    rcases exists_decodeJson_of_blank_append isBlank_of_mem_map_blankOut hroot with ⟨alone, halone⟩
    have hsame := (h alone halone).symm.trans hroot
    exact ⟨alone, halone, (Except.ok.inj hsame).symm⟩
  · rintro ⟨alone, halone, rfl⟩
    exact h alone halone

/-- Behind a blanked text an object decodes if it does alone, to the same tree with every place
behind the text. -/
theorem decodeJson_behind_iff {room : Nat} {front object : List Char} {root : LocatedTree}
    (hhead : object.head? ≠ some '\n') :
    decodeJson room (front.map blankOut ++ object) = .ok root ↔
      ∃ alone, decodeJson room object = .ok alone ∧ root = alone.mapMark (Place.behind front) := by
  apply decodeJson_blanked_iff
  intro alone halone
  rw [decodeJson_blank_append isBlank_of_mem_map_blankOut hhead halone, Place.behind_map_blankOut]

/-! ## What an occurrence yields -/

namespace Source

variable {scope scope' : Scope} {s s' : Source}

/-- A source is nothing but markup, and its text is a marker between two texts. -/
structure SplitsAt (scope : Scope) (s : Source) (before after : List Char) : Prop where
  kind : s.kind = .markupOnly
  text : s.text = before ++ (scope.marker ++ after)

/-- The occurrence of the marker at an offset is found, and decodes to an object that is among the
markup of the source. -/
structure YieldsAt (scope : Scope) (s : Source) (offset : Nat) (root : LocatedTree) : Prop where
  found : offset ∈ s.offsets scope
  decoded : s.outcomeAt scope offset = .decoded root
  listed : ∃ parsed, s.parse scope = .ok parsed ∧ ⟨root, s.path, s.kind⟩ ∈ parsed.markups

/-- Only objects of scripts are completed. -/
theorem completed_of_markupOnly (hkind : s.kind = .markupOnly) (root : LocatedTree) :
    s.completed scope root = .ok root := by
  rw [completed, if_neg]
  rintro ⟨hscript, -⟩
  rw [hkind] at hscript
  cases hscript

/-- What an occurrence decodes to is what the fragment behind it decodes to. -/
theorem outcomeAt_eq_decoded_iff (hkind : s.kind = .markupOnly) {offset : Nat}
    {root : LocatedTree} :
    s.outcomeAt scope offset = .decoded root ↔
      decodeJson scope.room (s.fragmentBehind scope offset) = .ok root := by
  rw [outcomeAt, outcomeOf]
  cases hdecode : decodeJson scope.room (s.fragmentBehind scope offset) with
  | error fault => simp
  | ok authored =>
      have hobject : authored.isObject = true := isObject_of_decode_fragment hdecode
      simp [hobject, completed_of_markupOnly hkind]

/-- A source that is nothing but markup is parsed, whatever it holds. -/
theorem exists_parse_of_markupOnly (scope : Scope) (hkind : s.kind = .markupOnly) :
    ∃ parsed, s.parse scope = .ok parsed := by
  refine exists_parse_eq_ok_iff.2 ?_
  intro offset _
  rw [verdict]
  cases decodeJson scope.room (s.fragmentBehind scope offset) with
  | error fault => rfl
  | ok authored =>
      simp only [completed_of_markupOnly hkind]
      cases checkComponent authored <;> rfl

/-- A marker stands where the text in front of it ends. -/
theorem SplitsAt.mem_offsets {before after : List Char} (h : s.SplitsAt scope before after)
    (hmarker : scope.marker ≠ []) : before.length ∈ s.offsets scope := by
  have hpos : 0 < scope.marker.length := List.length_pos_iff.2 hmarker
  rw [offsets, scannedText, h.kind, markerOffsets_eq_filter, List.mem_filter, List.mem_range,
    h.text]
  refine ⟨by simp only [List.length_append]; omega, ?_⟩
  simp [occursAt, hmarker]

/-- An occurrence yields an object if its fragment decodes to it. -/
theorem SplitsAt.yieldsAt_iff {before after : List Char} (h : s.SplitsAt scope before after)
    (hmarker : scope.marker ≠ []) {root : LocatedTree} :
    s.YieldsAt scope before.length root ↔
      decodeJson scope.room (s.fragmentBehind scope before.length) = .ok root := by
  rw [← outcomeAt_eq_decoded_iff h.kind]
  constructor
  · exact YieldsAt.decoded
  · intro hdecoded
    rcases exists_parse_of_markupOnly scope h.kind with ⟨parsed, hparse⟩
    have hfound := h.mem_offsets hmarker
    refine ⟨hfound, hdecoded, parsed, hparse, ?_⟩
    rw [(parse_eq_ok hparse).1, outcomes_eq_map]
    refine List.mem_map.2 ⟨root, List.mem_filterMap.2 ⟨.decoded root, ?_, rfl⟩, rfl⟩
    exact List.mem_map.2 ⟨before.length, hfound, hdecoded⟩

/-- An occurrence in front of balanced braces yields what the object decodes to alone, with every
place behind the text in front of the object. -/
theorem SplitsAt.yieldsAt_iff_object {before gap inner rest : List Char}
    (h : s.SplitsAt scope before (gap ++ '\x7b' :: (inner ++ rest))) (hmarker : scope.marker ≠ [])
    (hgap : '\x7b' ∉ gap) (hclosed : 1 + inner.count '\x7b' ≤ inner.count '\x7d')
    (root : LocatedTree) :
    s.YieldsAt scope before.length root ↔
      ∃ alone, decodeJson scope.room (captureBraces 0 ('\x7b' :: inner)) = .ok alone ∧
        root = alone.mapMark (Place.behind (before ++ (scope.marker ++ gap))) := by
  -- the capture ends within `inner`, so what follows in the source has no influence
  have hfragment : s.fragmentBehind scope before.length =
      (before ++ (scope.marker ++ gap)).map blankOut ++ captureBraces 0 ('\x7b' :: inner) := by
    have hcut := fragmentAt_closed hgap hclosed (before ++ scope.marker) rest
    rw [List.length_append, List.append_assoc, List.append_assoc] at hcut
    rw [fragmentBehind, scannedText, h.kind, h.text, hcut]
  have hhead : (captureBraces 0 ('\x7b' :: inner)).head? ≠ some '\n' := by
    rw [captureBraces]
    simp
  rw [h.yieldsAt_iff hmarker, hfragment, decodeJson_behind_iff hhead]

/-- Places move alike behind texts of one length with the same newline characters. -/
theorem behind_eq_of_same_newlines {before before' : List Char}
    (hlength : before.length = before'.length)
    (hnewlines : ∀ (i : Nat) (c : Char), isNewline c = true →
      (before[i]? = some c ↔ before'[i]? = some c))
    (more : List Char) : Place.behind (before ++ more) = Place.behind (before' ++ more) := by
  -- the two fronts have their line ends at the same offsets, so they are blanked to the same text
  have hblank : before.map blankOut = before'.map blankOut := by
    apply List.ext_getElem (by simpa using hlength)
    intro i hi hi'
    rw [List.length_map] at hi hi'
    have hsame := hnewlines i
    rw [List.getElem?_eq_getElem hi, List.getElem?_eq_getElem hi'] at hsame
    rw [List.getElem_map, List.getElem_map]
    -- a line end of one is the same line end of the other; all other characters become blanks
    by_cases hc : isNewline before[i] = true
    · have heq : before'[i] = before[i] := Option.some.inj ((hsame _ hc).1 rfl)
      rw [heq]
    · by_cases hc' : isNewline before'[i] = true
      · have heq : before[i] = before'[i] := Option.some.inj ((hsame _ hc').2 rfl)
        rw [heq]
      · rw [blankOut, blankOut, if_neg hc, if_neg hc']
  rw [← Place.behind_map_blankOut, ← Place.behind_map_blankOut (before' ++ more), List.map_append,
    List.map_append, hblank]

/-- Two sources that are nothing but markup, read with the same room, hold the same marker in front
of texts that agree up to where the braces balance. The occurrence is found in both; it yields an
object in one if and only if it does in the other, and then the objects are the one that the braces
hold, alone, with every place behind the respective front. They are equal if the texts in front of
the marker have one length and the same newline characters. -/
theorem yieldsAt_independent {before before' after after' : List Char} {first last : Nat}
    (hmarker : scope.marker ≠ []) (hsame : scope'.marker = scope.marker)
    (hroom : scope'.room = scope.room)
    (hs : s.SplitsAt scope before after) (hs' : s'.SplitsAt scope' before' after')
    (hcloses : ClosesAt after first last)
    (hagree : after'.take (last + 1) = after.take (last + 1)) :
    before.length ∈ s.offsets scope ∧ before'.length ∈ s'.offsets scope' ∧
      ((∃ root, s.YieldsAt scope before.length root) ↔
        ∃ root, s'.YieldsAt scope' before'.length root) ∧
      ∀ root root', s.YieldsAt scope before.length root →
        s'.YieldsAt scope' before'.length root' →
          (∃ alone, decodeJson scope.room (captureBraces 0 (after.drop first)) = .ok alone ∧
            root = alone.mapMark
              (Place.behind (before ++ (scope.marker ++ after.take first))) ∧
            root' = alone.mapMark
              (Place.behind (before' ++ (scope.marker ++ after.take first)))) ∧
          (before.length = before'.length →
            (∀ (i : Nat) (c : Char), isNewline c = true →
              (before[i]? = some c ↔ before'[i]? = some c)) →
            root = root') := by
  rcases hcloses.exists_object with ⟨inner, hobject, hgap, hclosed⟩
  -- both texts behind the marker are the gap, the object and a rest of their own
  have hafter : after = after.take first ++ '\x7b' :: (inner ++ after.drop (last + 1)) := by
    rw [← List.cons_append, ← List.append_assoc, ← hobject, List.take_append_drop]
  have hafter' : after' = after.take first ++ '\x7b' :: (inner ++ after'.drop (last + 1)) := by
    rw [← List.cons_append, ← List.append_assoc, ← hobject, ← hagree, List.take_append_drop]
  have hcapture : captureBraces 0 (after.drop first) = captureBraces 0 ('\x7b' :: inner) := by
    have hdrop : after.drop first = '\x7b' :: (inner ++ after.drop (last + 1)) :=
      List.append_cancel_left ((List.take_append_drop first after).trans hafter)
    rw [hdrop, captureBraces, captureBraces, Nat.zero_add,
      captureBraces_closed (Nat.le_refl 1) hclosed]
  have hmarker' : scope'.marker ≠ [] := hsame ▸ hmarker
  have hsplits : s.SplitsAt scope before
      (after.take first ++ '\x7b' :: (inner ++ after.drop (last + 1))) := by
    rwa [← hafter]
  have hsplits' : s'.SplitsAt scope' before'
      (after.take first ++ '\x7b' :: (inner ++ after'.drop (last + 1))) := by
    rwa [← hafter']
  have hyields := hsplits.yieldsAt_iff_object hmarker hgap hclosed
  have hyields' := hsplits'.yieldsAt_iff_object hmarker' hgap hclosed
  simp only [hsame, hroom] at hyields'
  refine ⟨hs.mem_offsets hmarker, hs'.mem_offsets hmarker', ?_, ?_⟩
  · constructor
    · rintro ⟨root, hroot⟩
      rcases (hyields root).1 hroot with ⟨alone, halone, -⟩
      exact ⟨_, (hyields' _).2 ⟨alone, halone, rfl⟩⟩
    · rintro ⟨root, hroot⟩
      rcases (hyields' root).1 hroot with ⟨alone, halone, -⟩
      exact ⟨_, (hyields _).2 ⟨alone, halone, rfl⟩⟩
  · intro root root' hroot hroot'
    rcases (hyields root).1 hroot with ⟨alone, halone, rfl⟩
    rcases (hyields' root').1 hroot' with ⟨alone', halone', rfl⟩
    obtain rfl : alone = alone' := Except.ok.inj (halone.symm.trans halone')
    refine ⟨⟨alone, hcapture ▸ halone, rfl, rfl⟩, ?_⟩
    intro hlength hnewlines
    rw [behind_eq_of_same_newlines hlength hnewlines]

/-- Behind an unclosed brace, a quote and a marker with nothing behind it, an occurrence yields what
it yields behind a line feed and in front of a broken occurrence. -/
theorem yieldsAt_independent_broken_neighbours :
    let scope : Scope :=
      { marker := "#M".toList, root := none, workingDirectory := [], room := 981 }
    let before := "\x7b\" #M [".toList
    let after := " \x7b\"a\": 1\x7d]".toList
    let before' := "\n".toList
    let after' := " \x7b\"a\": 1\x7d #M \x7b\x7b".toList
    let s : Source :=
      { path := "a".toList, kind := .markupOnly, text := before ++ (scope.marker ++ after) }
    let s' : Source :=
      { path := "b".toList, kind := .markupOnly, text := before' ++ (scope.marker ++ after') }
    scope.marker ≠ [] ∧ ClosesAt after 1 8 ∧ after'.take 9 = after.take 9 ∧
      ∃ (root root' alone : LocatedTree), s.YieldsAt scope before.length root ∧
        s'.YieldsAt scope before'.length root' ∧
        root = alone.mapMark (Place.behind (before ++ (scope.marker ++ after.take 1))) ∧
        root' = alone.mapMark (Place.behind (before' ++ (scope.marker ++ after.take 1))) := by
  intro scope before after before' after' s s'
  have hmarker : scope.marker ≠ [] := by decide
  -- the brace behind the blank is the first one
  have hfirst : IsFirstBrace after 0 1 := by
    refine ⟨rfl, by decide, ?_⟩
    intro i hi _
    obtain rfl : i = 0 := by omega
    decide
  have hcloses : ClosesAt after 1 8 := ⟨hfirst, by decide, by decide, by decide⟩
  have hagree : after'.take 9 = after.take 9 := by decide
  have hs : s.SplitsAt scope before after := ⟨rfl, rfl⟩
  have hs' : s'.SplitsAt scope before' after' := ⟨rfl, rfl⟩
  -- the neighbours are broken JSON on purpose: the fragment does not look at them
  have hall := yieldsAt_independent hmarker rfl rfl hs hs' hcloses hagree
  have hdecoded : (decodeJson scope.room (s.fragmentBehind scope before.length)).toBool = true := by
    decide +kernel
  rcases Except.exists_of_toBool hdecoded with ⟨root, hdecode⟩
  have hroot : s.YieldsAt scope before.length root := (hs.yieldsAt_iff hmarker).2 hdecode
  rcases hall.2.2.1.1 ⟨root, hroot⟩ with ⟨root', hroot'⟩
  rcases (hall.2.2.2 root root' hroot hroot').1 with ⟨alone, -, heq, heq'⟩
  exact ⟨hmarker, hcloses, hagree, root, root', alone, hroot, hroot', heq, heq'⟩

end Source

end ComponentMarkup
