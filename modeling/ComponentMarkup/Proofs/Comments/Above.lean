import ComponentMarkup.Proofs.Comments.Cut
import ComponentMarkup.Proofs.Indentation

/-!
# Scripts below other lines

Lines above a script move it down and do nothing else, if a script that consists of them ends
outside of comments (`EndsInCode`). Whatever they hold, complete comments, markers or braces that
are never closed, the script is reduced to what it is reduced to alone, and each marker in it yields
what it yields alone, so many lines further down (`Source.parse_below`). The argument goes along the
passes: the reading of comments stands at the end of the lines where it stands at the start of a
script, a fragment has the lines blanked in front of it, and blanked lines move the places of an
object.
-/

namespace ComponentMarkup

open ComponentMarkup.Tree (Subtree mapMark)

/-! ## Comments -/

/-- A delimiter that a text does not start with does not start it with more behind it, unless all
there is of the text is the first character of the delimiter. -/
theorem not_delimiter_append {a b c : Char} {cs : List Char} (h : ¬ [a, b] <+: c :: cs)
    (hlast : ∀ d ∈ (c :: cs).getLast?, d ≠ a) (text : List Char) :
    ¬ [a, b] <+: c :: (cs ++ text) := by
  intro hmore
  cases cs with
  | nil =>
      have hc : a = c := (List.cons_prefix_cons.1 hmore).1
      exact hlast c rfl hc.symm
  | cons e es =>
      apply h
      simpa using hmore

/-- Two texts are read one after the other, in the mode that the first one leaves, unless a
delimiter might reach over its end. -/
theorem readComments_append {mode : CommentMode} {front : List Char}
    (hlast : ∀ c ∈ front.getLast?, c ≠ '/' ∧ c ≠ '*') (text : List Char) :
    readComments mode (front ++ text) =
      (readComments (readComments mode front).mode text).behind (readComments mode front).text := by
  -- along the reader's own recursion on the front; the text behind could only change the reading by
  -- completing a delimiter that the last character of the front begins; `hlast` excludes that
  fun_induction readComments mode front with
  | case1 mode => rfl
  | case2 cs ih | case3 cs ih | case5 cs ih =>
      have hcs := ih (forall_getLast?_of_cons (forall_getLast?_of_cons hlast))
      rw [List.cons_append, List.cons_append, readComments, hcs]
      rfl
  | case4 c cs hblock hline ih =>
      have hslash : ∀ d ∈ (c :: cs).getLast?, d ≠ '/' := fun d hd => (hlast d hd).1
      -- no delimiter begins here in the front alone, so none begins once the text stands behind
      have hblock' : ¬ ['/', '*'] <+: c :: cs := by
        rintro ⟨rest, hrest⟩
        obtain ⟨hc, hcs⟩ := List.cons.inj hrest
        exact hblock rest hc.symm hcs.symm
      have hline' : ¬ ['/', '/'] <+: c :: cs := by
        rintro ⟨rest, hrest⟩
        obtain ⟨hc, hcs⟩ := List.cons.inj hrest
        exact hline rest hc.symm hcs.symm
      rw [List.cons_append, readComments_code (not_delimiter_append hblock' hslash text)
        (not_delimiter_append hline' hslash text), ih (forall_getLast?_of_cons hlast)]
      rfl
  | case6 c cs hclose ih =>
      have hstar : ∀ d ∈ (c :: cs).getLast?, d ≠ '*' := fun d hd => (hlast d hd).2
      have hclose' : ¬ ['*', '/'] <+: c :: cs := by
        rintro ⟨rest, hrest⟩
        obtain ⟨hc, hcs⟩ := List.cons.inj hrest
        exact hclose rest hc.symm hcs.symm
      rw [List.cons_append, readComments_block_cons (not_delimiter_append hclose' hstar text),
        ih (forall_getLast?_of_cons hlast)]
      rfl
  | case7 c cs ih =>
      rw [List.cons_append, readComments, ih (forall_getLast?_of_cons hlast)]
      rfl

/-- A text that ends a line and leaves the reading of a script outside of comments. -/
structure EndsInCode (front : List Char) : Prop where
  lineFeed : front.getLast? = some '\n'
  mode : (readComments .code front).mode = .code

theorem EndsInCode.forall_getLast? {front : List Char} (h : EndsInCode front) :
    ∀ c ∈ front.getLast?, c = '\n' := by
  intro c hc
  rw [h.lineFeed] at hc
  exact (Option.some.inj hc).symm

/-- What is left of a script below such a text does not depend on it. -/
theorem EndsInCode.keepComments_append {front : List Char} (h : EndsInCode front)
    (text : List Char) :
    keepComments (front ++ text) = keepComments front ++ keepComments text := by
  have hlast : ∀ c ∈ front.getLast?, c ≠ '/' ∧ c ≠ '*' := by
    intro c hc
    rw [h.forall_getLast? c hc]
    decide
  unfold keepComments
  rw [readComments_append hlast, h.mode, CommentReading.text_behind]

/-! ## Fragments -/

/-- What is decoded stands in the text. -/
theorem one_le_line_of_decodeJson {room : Nat} {text : List Char} {root u : LocatedTree}
    (h : decodeJson room text = .ok root) (hu : Subtree u root) : 1 ≤ u.mark.line := by
  rcases decodeJson_eq_ok_iff.1 h with ⟨tree, meaning, hspells, -, hmeans, rfl⟩
  rw [locate_eq_mapMark] at hu
  rcases Subtree.of_mapMark hu with ⟨w, hw, rfl⟩
  rw [Tree.mark_mapMark]
  exact (offset?_placeAt (mark_lt_of_meaning? hspells hmeans hw)).2.1

/-- A fragment that can be decoded is an object behind blanks. -/
theorem exists_object_of_decode_fragment {room : Nat} {text : List Char} {start : Int}
    {root : LocatedTree} (h : decodeJson room (fragmentAt text start) = .ok root) :
    ∃ gap object : List Char, fragmentAt text start = gap.map blankOut ++ object ∧
      object.head? = some '\x7b' := by
  rcases fragmentAt_eq text start with ⟨-, hall⟩ | ⟨b, hb, heq⟩
  · -- a blank text ends with no brace
    exfalso
    rcases exists_objectAt h with ⟨b, -, ⟨o⟩⟩
    rcases o.exists_last with ⟨l, -, last, c, -, hc, hblank, -⟩
    rw [hall] at hc
    rcases List.mem_map.1 (List.mem_of_getElem? hc) with ⟨d, -, rfl⟩
    rw [isBlank_blankOut] at hblank
    cases hblank
  · refine ⟨_, _, heq, ?_⟩
    rw [head?_captureBraces, List.head?_drop, hb.brace]

theorem cutFragment_behind_append (front text : List Char) (skip : Nat) :
    cutFragment (front.length + skip) (front ++ text) =
      front.map blankOut ++ cutFragment skip text := by
  induction front with
  | nil => rw [List.length_nil, Nat.zero_add, List.nil_append, List.map_nil, List.nil_append]
  | cons c cs ih =>
      have hpos : ¬ ((c :: cs).length + skip = 0 ∧ c = '\x7b') := by
        rintro ⟨hzero, -⟩
        rw [List.length_cons] at hzero
        omega
      have hskip : (c :: cs).length + skip - 1 = cs.length + skip := by
        rw [List.length_cons]
        omega
      rw [List.cons_append, cutFragment_behind hpos, hskip, ih, List.map_cons, List.cons_append]

/-- Below ended lines a fragment decodes if it does alone, to the same tree further down. -/
theorem decodeJson_below_iff {room : Nat} {front text : List Char} {start : Int}
    {root : LocatedTree} (hlast : ∀ c ∈ front.getLast?, c = '\n') :
    decodeJson room (front.map blankOut ++ fragmentAt text start) = .ok root ↔
      ∃ alone, decodeJson room (fragmentAt text start) = .ok alone ∧
        root = alone.mapMark (Place.below (lineBreaks front)) := by
  -- put the blanked front and the gap before the brace together: both are blanks in front of one
  -- object
  apply decodeJson_blanked_iff
  intro alone halone
  rcases exists_object_of_decode_fragment halone with ⟨gap, object, hfragment, hopen⟩
  have hhead : object.head? ≠ some '\n' := by simp [hopen]
  rw [hfragment] at halone ⊢
  rcases (decodeJson_behind_iff hhead).1 halone with ⟨bare, hbare, rfl⟩
  rw [← List.append_assoc, ← List.map_append]
  refine (decodeJson_behind_iff hhead).2 ⟨bare, hbare, ?_⟩
  -- moving behind the gap and then below the front is moving behind both
  rw [Tree.mapMark_mapMark]
  apply Tree.mapMark_congr
  intro u hu
  exact (Place.behind_append hlast gap (one_le_line_of_decodeJson hbare hu)).symm

/-! ## Sources -/

/-- An import path stands in no text, so it stays when an object moves. -/
theorem withImportFile_mapMark {f : Place → Place} (hf : f .unknown = .unknown)
    (path : List Char) (root : LocatedTree) :
    withImportFile path (root.mapMark f) = (withImportFile path root).mapMark f := by
  unfold withImportFile
  rw [Tree.find?_mapMark, Option.isNone_map]
  split
  · cases root with
    | leaf | array => simp [addMember]
    | object place members => simp [addMember, hf]
  · rfl

namespace Outcome

/-- The same comes of two occurrences the second of which stands so many lines further down: they
decode to the same object, or neither is one. -/
inductive IsBelow (lines : Nat) : Outcome → Outcome → Prop where
  | decoded (root : LocatedTree) :
      IsBelow lines (.decoded root) (.decoded (root.mapMark (Place.below lines)))
  | invalid {o o' : Outcome} (h : o.isInvalid = true) (h' : o'.isInvalid = true) :
      IsBelow lines o o'

variable {lines : Nat} {o o' : Outcome}

theorem IsBelow.tree?_eq (h : o.IsBelow lines o') :
    o'.tree? = o.tree?.map (mapMark (Place.below lines)) := by
  have hnone : ∀ {o : Outcome}, o.isInvalid = true → o.tree? = none := by
    intro o ho
    cases o with
    | decoded | noImportPath => cases ho
    | refused | notObject => rfl
  cases h with
  | decoded root => rfl
  | invalid ho ho' => rw [hnone ho, hnone ho', Option.map_none]

theorem IsBelow.isInvalid_eq (h : o.IsBelow lines o') : o'.isInvalid = o.isInvalid := by
  cases h with
  | decoded root => rfl
  | invalid ho ho' => rw [ho, ho']

end Outcome

namespace Source

variable {scope : Scope} {s : Source} {importAs front : List Char}

/-- The source with other lines above it. -/
def below (front : List Char) (s : Source) : Source := { s with text := front ++ s.text }

/-- What is scanned of a script below other lines. -/
theorem scannedText_below (hkind : s.kind = .script) (h : EndsInCode front) :
    (s.below front).scannedText = keepComments front ++ keepComments s.text := by
  have hbelow : (s.below front).kind = .script := hkind
  rw [scannedText_of_script hbelow]
  exact h.keepComments_append s.text

/-- The occurrences of the marker below other lines are those of the script, and those in front of
them stand in these lines. -/
theorem offsets_below (hkind : s.kind = .script) (h : EndsInCode front) (scope : Scope) :
    ((s.below front).offsets scope).filter (front.length ≤ ·) =
        (s.offsets scope).map (front.length + ·) ∧
      (s.below front).offsets scope =
        ((s.below front).offsets scope).filter (· < front.length) ++
          (s.offsets scope).map (front.length + ·) := by
  have hoffsets := markerOffsets_append scope.marker (keepComments front) (keepComments s.text)
  rw [← scannedText_below hkind h, ← scannedText_of_script hkind, length_keepComments] at hoffsets
  exact hoffsets

/-- The fragments of a script below other lines have these lines blanked in front. -/
theorem fragmentBehind_below (hkind : s.kind = .script) (h : EndsInCode front) (scope : Scope)
    (offset : Nat) :
    (s.below front).fragmentBehind scope (front.length + offset) =
      front.map blankOut ++ s.fragmentBehind scope offset := by
  have hlength : front.length + offset + scope.marker.length =
      (keepComments front).length + (offset + scope.marker.length) := by
    rw [length_keepComments, Nat.add_assoc]
  rw [fragmentBehind, fragmentBehind, scannedText_below hkind h, scannedText_of_script hkind,
    hlength, fragmentAt_natCast, fragmentAt_natCast, cutFragment_behind_append,
    map_blankOut_keepComments]

/-- An occurrence below other lines comes to the same, so many lines further down. -/
theorem isBelow_outcomeAt (hkind : s.kind = .script) (h : EndsInCode front)
    (himport : importPath scope.workingDirectory s.path scope.root = .ok importAs)
    (offset : Nat) :
    (s.outcomeAt scope offset).IsBelow (lineBreaks front)
      ((s.below front).outcomeAt scope (front.length + offset)) := by
  have hbelow : ∀ root,
      decodeJson scope.room (front.map blankOut ++ s.fragmentBehind scope offset) = .ok root ↔ _ :=
    fun root => decodeJson_below_iff h.forall_getLast?
  have hkind' : (s.below front).kind = .script := hkind
  have himport' : importPath scope.workingDirectory (s.below front).path scope.root =
      .ok importAs := himport
  rw [outcomeAt_of_script hkind himport, outcomeAt_of_script hkind' himport',
    fragmentBehind_below hkind h]
  -- the fragment decodes in both texts or in neither; the place of an error is not part of the
  -- outcome
  cases hdecode : decodeJson scope.room (s.fragmentBehind scope offset) with
  | ok root =>
      rw [(hbelow _).2 ⟨root, hdecode, rfl⟩]
      dsimp only
      rw [withImportFile_mapMark rfl]
      exact .decoded _
  | error fault =>
      cases hdecode' :
          decodeJson scope.room (front.map blankOut ++ s.fragmentBehind scope offset) with
      | ok root =>
          rcases (hbelow root).1 hdecode' with ⟨alone, halone, -⟩
          cases hdecode.symm.trans halone
      | error fault' => exact .invalid rfl rfl

/-- Lines above a script that end outside of comments only move it down. The comments that are kept
are those of the lines and those of the script. If an import path can be made, the occurrences of a
marker in the script are those it has alone, and each comes to the same object so many lines further
down, or to none. The markups and the problems are those of the occurrences in the lines above, and
behind them those that the script has alone. -/
theorem parse_below (h : EndsInCode front) :
    (∀ text, keepComments (front ++ text) = keepComments front ++ keepComments text) ∧
    ∀ (scope : Scope) (s : Source) (importAs : List Char), s.kind = .script →
      importPath scope.workingDirectory s.path scope.root = .ok importAs →
      let moved := s.below front
      let above := ((moved.offsets scope).filter (· < front.length)).map (moved.outcomeAt scope)
      (moved.offsets scope).filter (front.length ≤ ·) =
        (s.offsets scope).map (front.length + ·) ∧
      (∀ offset ∈ s.offsets scope, (s.outcomeAt scope offset).IsBelow (lineBreaks front)
        (moved.outcomeAt scope (front.length + offset))) ∧
      ∃ parsed, s.parse scope = .ok parsed ∧ moved.parse scope = .ok
        { markups := (above.filterMap Outcome.tree?).map (⟨·, s.path, .script⟩) ++
            parsed.markups.map fun markup =>
              { markup with root := markup.root.mapMark (Place.below (lineBreaks front)) }
          problems := (above.filter Outcome.isInvalid).map
              (fun _ => ⟨invalidJsonMessage, s.path, .unknown⟩) ++ parsed.problems } := by
  refine ⟨h.keepComments_append, ?_⟩
  intro scope s importAs hkind himport moved above
  have hbelow : ∀ offset, (s.outcomeAt scope offset).IsBelow (lineBreaks front)
      (moved.outcomeAt scope (front.length + offset)) := isBelow_outcomeAt hkind h himport
  rcases offsets_below hkind h scope with ⟨hupper, hsplit⟩
  -- the outcomes of the moved source are those above, then one for each of the original
  let rest := (s.offsets scope).map fun offset => moved.outcomeAt scope (front.length + offset)
  have houtcomes : moved.outcomes scope = above ++ rest := by
    rw [outcomes_eq_map, hsplit, List.map_append, List.map_map]
    rfl
  -- above and below contribute separately to the trees and to the problems
  have htrees : rest.filterMap Outcome.tree? =
      ((s.outcomes scope).filterMap Outcome.tree?).map
        (mapMark (Place.below (lineBreaks front))) := by
    rw [outcomes_eq_map, List.filterMap_map, List.filterMap_map, List.map_filterMap]
    exact List.filterMap_congr fun offset _ => (hbelow offset).tree?_eq
  have hinvalid : ∀ problem : Problem, (rest.filter Outcome.isInvalid).map (fun _ => problem) =
      ((s.outcomes scope).filter Outcome.isInvalid).map fun _ => problem := by
    intro problem
    rw [outcomes_eq_map, List.filter_map, List.filter_map, List.map_map, List.map_map]
    exact congrArg (List.map fun _ => problem)
      (List.filter_congr fun offset _ => (hbelow offset).isInvalid_eq)
  rcases exists_parse_of_script hkind himport with ⟨parsed, hparsed⟩
  have hmoved : moved.kind = .script := hkind
  rcases exists_parse_of_script hmoved himport with ⟨parsed', hparsed'⟩
  rcases parse_eq_ok hparsed with ⟨hmarkups, hproblems⟩
  rcases parse_eq_ok hparsed' with ⟨hmarkups', hproblems'⟩
  refine ⟨hupper, fun offset _ => hbelow offset, parsed, hparsed, ?_⟩
  rw [hparsed', Except.ok.injEq, ParsedSource.mk.injEq]
  constructor
  · rw [hmarkups', hmarkups, houtcomes, List.filterMap_append, List.map_append, htrees,
      List.map_map, List.map_map, ← hkind]
    rfl
  · rw [hproblems', hproblems, houtcomes, List.filter_append, List.map_append, hinvalid]
    rfl

/-- Lines that end in different ways hold a brace that is never closed and an object, and the script
below them an object on two lines and a marker with nothing behind it. -/
theorem parse_below_unclosed_brace :
    let scope : Scope :=
      { marker := "#M".toList, root := none, workingDirectory := [], room := 981 }
    let front := "/* #M\x7b */ \"x\r\n//#M\x7b\x7d\n".toList
    let s : Source :=
      { path := "a".toList, kind := .script, text := "\n/*#M\x7b\"a\":\r\n1\x7d#M[*/".toList }
    let moved := s.below front
    let above := ((moved.offsets scope).filter (· < front.length)).map (moved.outcomeAt scope)
    EndsInCode front ∧ importPath scope.workingDirectory s.path scope.root = .ok "a".toList ∧
    lineBreaks front = 2 ∧ above.map Outcome.isInvalid = [true, false] ∧
    (s.outcomes scope).map Outcome.isInvalid = [false, true] ∧
    (∀ text, keepComments (front ++ text) = keepComments front ++ keepComments text) ∧
    (moved.offsets scope).filter (front.length ≤ ·) =
      (s.offsets scope).map (front.length + ·) ∧
    (∀ offset ∈ s.offsets scope, (s.outcomeAt scope offset).IsBelow (lineBreaks front)
      (moved.outcomeAt scope (front.length + offset))) ∧
    ∃ parsed, s.parse scope = .ok parsed ∧ moved.parse scope = .ok
      { markups := (above.filterMap Outcome.tree?).map (⟨·, s.path, .script⟩) ++
          parsed.markups.map fun markup =>
            { markup with root := markup.root.mapMark (Place.below (lineBreaks front)) }
        problems := (above.filter Outcome.isInvalid).map
            (fun _ => ⟨invalidJsonMessage, s.path, .unknown⟩) ++ parsed.problems } := by
  intro scope front s moved above
  have hfront : EndsInCode front := ⟨rfl, rfl⟩
  have himport : importPath scope.workingDirectory s.path scope.root = .ok "a".toList := rfl
  have habove : above.map Outcome.isInvalid = [true, false] := by decide +kernel
  have houtcomes : (s.outcomes scope).map Outcome.isInvalid = [false, true] := by decide +kernel
  rcases parse_below hfront with ⟨hcomments, hparse⟩
  exact ⟨hfront, himport, rfl, habove, houtcomes, hcomments, hparse scope s _ rfl himport⟩

end Source

end ComponentMarkup
