import ComponentMarkup.Proofs.Json.Indent
import ComponentMarkup.Proofs.Noninterference
import Mathlib.Data.List.Basic

/-!
# Scripts that scan like indented markup

What is left of a script may be an indented text. Then the script has the occurrences of this text,
problems with the same ones, and the same markups (`Source.parse_indent`); only their places are
further to the right, and import paths are added. The argument follows an occurrence: the marker is
found where it stands in the indented text, the fragment behind it is indented too, and decodes to
the same object.
-/

namespace ComponentMarkup

section

variable {gap : List Char} {next : Nat} {cs cs' : List Char}

/-! ## Fragments -/

theorem captureBraces_inner {c : Char} (hopen : c ≠ '\x7b') (hclose : c ≠ '\x7d') (depth : Nat)
    (cs : List Char) : captureBraces depth (c :: cs) = c :: captureBraces depth cs := by
  rw [captureBraces]
  · exact hopen
  · exact hclose

/-- Where no fragment starts a character is blanked. -/
theorem cutFragment_behind {skip : Nat} {c : Char} (h : ¬ (skip = 0 ∧ c = '\x7b'))
    (cs : List Char) : cutFragment skip (c :: cs) = blankOut c :: cutFragment (skip - 1) cs := by
  rw [cutFragment]
  intro hskip hc
  exact h ⟨hskip, hc⟩

theorem head?_captureBraces (depth : Nat) (cs : List Char) :
    (captureBraces depth cs).head? = cs.head? := by
  fun_cases captureBraces depth cs <;> rfl

theorem captureBraces_spaces (depth n : Nat) (cs : List Char) :
    captureBraces depth (List.replicate n ' ' ++ cs) =
      List.replicate n ' ' ++ captureBraces depth cs := by
  induction n with
  | zero => rfl
  | succ n ih => exact congrArg (' ' :: ·) ih

theorem cutFragment_spaces (skip n : Nat) (cs : List Char) :
    cutFragment skip (List.replicate n ' ' ++ cs) =
      List.replicate n ' ' ++ cutFragment (skip - n) cs := by
  induction n generalizing skip with
  | zero => rfl
  | succ n ih =>
      have hspace : ¬ (skip = 0 ∧ ' ' = '\x7b') := by
        rintro ⟨-, hc⟩
        cases hc
      rw [List.replicate_succ, List.cons_append, cutFragment_behind hspace, ih, Nat.sub_sub,
        Nat.add_comm 1]
      rfl

/-- An offset behind a text cuts it like the one at its end. -/
theorem cutFragment_min (skip : Nat) (cs : List Char) :
    cutFragment (min skip cs.length) cs = cutFragment skip cs := by
  induction cs generalizing skip with
  | nil => rfl
  | cons c cs ih =>
      cases skip with
      | zero => rw [Nat.zero_min]
      | succ skip =>
          have hbehind : ∀ k, ¬ (k + 1 = 0 ∧ c = '\x7b') := by
            rintro k ⟨hk, -⟩
            cases hk
          rw [List.length_cons, Nat.succ_min_succ, cutFragment_behind (hbehind _),
            cutFragment_behind (hbehind _), Nat.succ_sub_one, Nat.succ_sub_one, ih]

theorem fragmentAt_natCast (text : List Char) (k : Nat) : fragmentAt text k = cutFragment k text :=
  cutFragment_min k text

/-- Blanking a character keeps whether it ends its line. -/
theorem anyBreak_blankOut (c : Char) (cs : List Char) :
    LineEnd.anyBreak (blankOut c) cs = LineEnd.anyBreak c cs := by
  have hfeed : blankOut c = '\n' ↔ c = '\n' := blankOut_eq_iff rfl
  have hreturn : blankOut c = '\r' ↔ c = '\r' := blankOut_eq_iff rfl
  simp only [LineEnd.anyBreak, hfeed, hreturn]

theorem anyBreak_captureBraces (c : Char) (depth : Nat) (cs : List Char) :
    LineEnd.anyBreak c (captureBraces depth cs) = LineEnd.anyBreak c cs := by
  simp only [LineEnd.anyBreak, head?_captureBraces]

theorem anyBreak_cutFragment (c : Char) (skip : Nat) (cs : List Char) :
    LineEnd.anyBreak c (cutFragment skip cs) = LineEnd.anyBreak c cs := by
  have hhead : (cutFragment skip cs).head? = some '\n' ↔ cs.head? = some '\n' := by
    fun_cases cutFragment skip cs with
    | case1 => rfl
    | case2 cs => rw [head?_captureBraces]
    | case3 skip d cs =>
        simp only [List.head?_cons, Option.some.injEq]
        exact blankOut_eq_iff rfl
  simp only [LineEnd.anyBreak, ne_eq, hhead]

theorem ne_brace_of_isNewline {c : Char} (h : isNewline c = true) : c ≠ '\x7b' ∧ c ≠ '\x7d' := by
  constructor
  · rintro rfl
    cases h
  · rintro rfl
    cases h

/-- What is captured of an indented text is what is captured of the text, indented. -/
theorem Indents.capture (h : Indents (List.replicate next ' ') cs cs') (depth : Nat) :
    Indents (List.replicate next ' ') (captureBraces depth cs) (captureBraces depth cs') := by
  -- induction on the relation of the two texts, for every depth: a captured line end is followed by
  -- the same spaces, and spaces neither open nor close
  induction h generalizing depth with
  | nil n =>
      have hspaces := captureBraces_spaces depth n []
      rw [List.append_nil] at hspaces
      rw [hspaces, captureBraces, List.append_nil]
      exact .nil n
  -- a character that stays: the two captures go on at the same depth, which this character may
  -- change
  | @stay c cs cs' hstay _ ih =>
      have hcapture : ∀ d, Indents (List.replicate next ' ') (c :: captureBraces d cs)
          (c :: captureBraces d cs') := by
        intro d
        exact .stay ((anyBreak_captureBraces c d cs).trans hstay) (ih d)
      by_cases hopen : c = '\x7b'
      · subst hopen
        exact hcapture (depth + 1)
      · by_cases hclose : c = '\x7d'
        · subst hclose
          rw [captureBraces, captureBraces]
          -- at depth one the closing brace ends both captures here
          split
          · exact .stay rfl (.nil 0)
          · exact hcapture (depth - 1)
        · rw [captureBraces_inner hopen hclose, captureBraces_inner hopen hclose]
          exact hcapture depth
  -- a line end is no brace, and the capture passes the spaces behind it
  | @lineEnd c cs cs' hend _ ih =>
      have hc := ne_brace_of_isNewline (isNewline_of_anyBreak hend)
      rw [captureBraces_inner hc.1 hc.2, captureBraces_inner hc.1 hc.2, captureBraces_spaces]
      exact .lineEnd ((anyBreak_captureBraces c depth cs).trans hend) (ih depth)
  | @lastEnd c hend =>
      have hc := ne_brace_of_isNewline (isNewline_of_anyBreak hend)
      rw [captureBraces_inner hc.1 hc.2, captureBraces]
      exact .lastEnd hend

/-- A fragment of an indented text is the fragment of the text, indented. -/
theorem Indents.cut (h : Indents (List.replicate next ' ') cs cs') (skip : Nat) :
    Indents (List.replicate next ' ') (cutFragment skip cs)
      (cutFragment (indentedOffset next cs skip) cs') := by
  -- induction on the relation, for every number of characters to skip; the number moves along with
  -- the text: it is the indented offset of the original one
  induction h generalizing skip with
  | nil n =>
      have hspaces := cutFragment_spaces (indentedOffset next [] skip) n []
      rw [List.append_nil] at hspaces
      rw [hspaces, cutFragment, cutFragment, List.append_nil]
      exact .nil n
  -- a character that stays: skipped, blanked, or the brace at which the capture begins
  | @stay c cs cs' hstay hrest ih =>
      have hskip : indentedOffset next (c :: cs) skip - 1 = indentedOffset next cs (skip - 1) := by
        cases skip with
        | zero => simp
        | succ skip => simp [indentedOffset, hstay]
      -- capture begins at the same character in both texts, as no offset but zero is moved to zero
      by_cases hopen : skip = 0 ∧ c = '\x7b'
      · rcases hopen with ⟨rfl, rfl⟩
        rw [indentedOffset_zero]
        have hcons : Indents (List.replicate next ' ') ('\x7b' :: cs) ('\x7b' :: cs') :=
          .stay hstay hrest
        exact hcons.capture 0
      · have hopen' : ¬ (indentedOffset next (c :: cs) skip = 0 ∧ c = '\x7b') := by
          rintro ⟨hzero, hc⟩
          refine hopen ⟨indentedOffset_injective next (c :: cs) ?_, hc⟩
          rw [hzero, indentedOffset_zero]
        -- otherwise it is blanked on both sides, and the number goes down by one
        rw [cutFragment_behind hopen, cutFragment_behind hopen', hskip]
        refine .stay ?_ (ih (skip - 1))
        rw [anyBreak_blankOut, anyBreak_cutFragment, hstay]
  -- a line end is blanked to itself; behind it the moved number also counts off the new spaces
  | @lineEnd c cs cs' hend _ ih =>
      have hnewline := isNewline_of_anyBreak hend
      have hc := ne_brace_of_isNewline hnewline
      have hskip : indentedOffset next (c :: cs) skip - 1 - next =
          indentedOffset next cs (skip - 1) := by
        cases skip with
        | zero => simp
        | succ skip =>
            simp only [indentedOffset, if_pos hend, Nat.add_sub_cancel]
            omega
      have hinner : ∀ k ds, cutFragment k (c :: ds) = blankOut c :: cutFragment (k - 1) ds :=
        fun k ds => cutFragment_behind (fun hopen => hc.1 hopen.2) ds
      rw [hinner, hinner, cutFragment_spaces, hskip, blankOut,
        if_pos hnewline]
      exact .lineEnd ((anyBreak_cutFragment c (skip - 1) cs).trans hend) (ih (skip - 1))
  -- the last line end has nothing behind it, so no spaces are added
  | @lastEnd c hend =>
      have hnewline := isNewline_of_anyBreak hend
      have hc := ne_brace_of_isNewline hnewline
      have hinner : ∀ k ds, cutFragment k (c :: ds) = blankOut c :: cutFragment (k - 1) ds :=
        fun k ds => cutFragment_behind (fun hopen => hc.1 hopen.2) ds
      rw [hinner, hinner, cutFragment, cutFragment, blankOut,
        if_pos hnewline]
      exact .lastEnd hend

end

/-- A fragment of an indented text, behind where a character stands there, is the fragment of the
text behind this character, indented. -/
theorem Indent.Applies.fragment {m : Indent} {text text' : List Char} (h : m.Applies text text')
    (k : Nat) : m.Applies (fragmentAt text k) (fragmentAt text' (m.offset text k : Nat)) := by
  rcases h with ⟨body, hbody, rfl⟩
  rw [fragmentAt_natCast, fragmentAt_natCast]
  refine ⟨_, hbody.cut k, ?_⟩
  rw [cutFragment_spaces, Indent.offset, Nat.add_sub_cancel_left]

/-! ## Markers -/

section

variable {marker : List Char}

/-- No marker starts with a gap. -/
theorem isPrefixOf_gap (hmarker : marker ≠ []) (hgap : HasNoGap marker) {cs : List Char}
    (hcs : StartsWithGap cs) : marker.isPrefixOf cs = false := by
  have hnil : marker.isPrefixOf ([] ++ cs) = marker.isPrefixOf [] := hgap.isPrefixOf_append hcs
  cases marker with
  | nil => exact absurd rfl hmarker
  | cons c marker => exact hnil

theorem markerOffsetsFrom_spaces (hmarker : marker ≠ []) (hgap : HasNoGap marker)
    (offset n : Nat) (cs : List Char) :
    markerOffsetsFrom marker offset (List.replicate n ' ' ++ cs) =
      markerOffsetsFrom marker (offset + n) cs := by
  induction n generalizing offset with
  | zero => rfl
  | succ n ih =>
      have hnone : marker.isPrefixOf (' ' :: (List.replicate n ' ' ++ cs)) = false := by
        apply isPrefixOf_gap hmarker hgap
        simp [StartsWithGap]
      rw [List.replicate_succ, List.cons_append, markerOffsetsFrom, hnone,
        if_neg Bool.false_ne_true, ih, Nat.add_right_comm, Nat.add_assoc]

/-- A marker starts an indented text just if it starts the text. -/
theorem Indents.isPrefixOf_eq {gap cs cs' : List Char} (hgap : HasNoGap marker)
    (h : Indents gap cs cs') : marker.isPrefixOf cs' = marker.isPrefixOf cs := by
  rcases h.exists_front with ⟨front, rest, rest', rfl, rfl, hrest, hrest'⟩
  rw [hgap.isPrefixOf_append hrest, hgap.isPrefixOf_append hrest']

/-- Markers are found in an indented text where the characters of the text stand with which they
start in the text. -/
theorem Indents.markerOffsetsFrom_eq {f : Nat → Nat} {offset offset' next : Nat}
    {cs cs' : List Char} (hmarker : marker ≠ []) (hgap : HasNoGap marker)
    (h : Indents (List.replicate next ' ') cs cs')
    (hf : ∀ i, f (offset + i) = offset' + indentedOffset next cs i) :
    markerOffsetsFrom marker offset' cs' = (markerOffsetsFrom marker offset cs).map f := by
  -- no marker begins at a line end, as markers have none
  have hnewline : ∀ {c}, isNewline c = true → ∀ ds, marker.isPrefixOf (c :: ds) = false := by
    intro c hc ds
    apply isPrefixOf_gap hmarker hgap
    intro d hd
    obtain rfl : c = d := Option.some.inj hd
    exact .inr hc
  -- induction on the relation, with the map of offsets shifted along
  induction h generalizing offset offset' with
  | nil n =>
      have hspaces := markerOffsetsFrom_spaces hmarker hgap offset' n []
      rw [List.append_nil] at hspaces
      rw [hspaces]
      rfl
  -- a character that stays: a marker begins here in both texts or in neither
  | @stay c cs cs' hstay hrest ih =>
      have hstart : f offset = offset' := by simpa using hf 0
      have hnext : ∀ i, f (offset + 1 + i) = offset' + 1 + indentedOffset next cs i := by
        intro i
        have hi := hf (i + 1)
        rw [indentedOffset, hstay, if_neg Bool.false_ne_true] at hi
        rw [Nat.add_assoc, Nat.add_comm 1, hi]
        omega
      have hcons : Indents (List.replicate next ' ') (c :: cs) (c :: cs') := .stay hstay hrest
      rw [markerOffsetsFrom, markerOffsetsFrom, hcons.isPrefixOf_eq hgap, ih hnext]
      split
      · rw [List.map_cons, hstart]
      · rfl
  -- a line end: the scan passes the new spaces, where no marker begins either
  | @lineEnd c cs cs' hend _ ih =>
      have hc := isNewline_of_anyBreak hend
      have hnext : ∀ i, f (offset + 1 + i) = offset' + 1 + next + indentedOffset next cs i := by
        intro i
        have hi := hf (i + 1)
        rw [indentedOffset, if_pos hend] at hi
        rw [Nat.add_assoc, Nat.add_comm 1, hi]
        omega
      rw [markerOffsetsFrom, markerOffsetsFrom, hnewline hc, hnewline hc,
        if_neg Bool.false_ne_true, if_neg Bool.false_ne_true,
        markerOffsetsFrom_spaces hmarker hgap, ih hnext]
  | @lastEnd c hend =>
      have hnone : ∀ k, markerOffsetsFrom marker k [c] = [] := by
        intro k
        rw [markerOffsetsFrom, hnewline (isNewline_of_anyBreak hend), if_neg Bool.false_ne_true]
        rfl
      rw [hnone, hnone]
      rfl

theorem Indent.Applies.markerOffsets_eq {m : Indent} {text text' : List Char}
    (h : m.Applies text text') (hmarker : marker ≠ []) (hgap : HasNoGap marker) :
    markerOffsets marker text' = (markerOffsets marker text).map (m.offset text) := by
  rcases h with ⟨body, hbody, rfl⟩
  rw [markerOffsets_eq_pass hmarker, markerOffsets_eq_pass hmarker,
    markerOffsetsFrom_spaces hmarker hgap]
  refine hbody.markerOffsetsFrom_eq hmarker hgap ?_
  intro i
  rw [Nat.zero_add, Nat.zero_add]
  rfl

/-- Within an occurrence of a marker no spaces are inserted. -/
theorem Indent.offset_add (m : Indent) {text : List Char} (hgap : HasNoGap marker) {i : Nat}
    (hi : marker <+: text.drop i) :
    m.offset text i + marker.length = m.offset text (i + marker.length) := by
  have hline : ∀ c ∈ marker, isNewline c = false := fun c hc => (hgap c hc).2
  rw [Indent.offset, Indent.offset, indentedOffset_add hline hi, Nat.add_assoc]

end

/-! ## Sources -/

/-- An object with an import path, if it names no file itself. -/
def withImportFile (path : List Char) (root : LocatedTree) : LocatedTree :=
  if (root.find? importFileKey).isNone then addMember importFileKey (Text.ofChars path) root
  else root

namespace Source

variable {scope : Scope} {bare script : Source} {m : Indent} {importAs : List Char}

/-- In a script an object is completed, if an import path can be made. -/
theorem completed_of_script (hkind : script.kind = .script)
    (himport : importPath scope.workingDirectory script.path scope.root = .ok importAs)
    (root : LocatedTree) :
    script.completed scope root = .ok (withImportFile importAs root) := by
  unfold completed withImportFile
  simp only [hkind, true_and, himport]
  split <;> rfl

/-- What becomes of an occurrence in a script, if an import path can be made. -/
theorem outcomeAt_of_script (hkind : script.kind = .script)
    (himport : importPath scope.workingDirectory script.path scope.root = .ok importAs)
    (offset : Nat) :
    script.outcomeAt scope offset =
      match decodeJson scope.room (script.fragmentBehind scope offset) with
      | .error fault => .refused fault (script.fragmentBehind scope offset)
      | .ok root => .decoded (withImportFile importAs root) := by
  unfold outcomeAt outcomeOf
  cases hdecode : decodeJson scope.room (script.fragmentBehind scope offset) with
  | error fault => rfl
  | ok root =>
      have hobject : root.isObject = true := isObject_of_decode_fragment hdecode
      simp only [hobject, if_true, completed_of_script hkind himport]

/-- A script has markups and problems, if an import path can be made. -/
theorem exists_parse_of_script (hkind : script.kind = .script)
    (himport : importPath scope.workingDirectory script.path scope.root = .ok importAs) :
    ∃ parsed, script.parse scope = .ok parsed := by
  have hfault : (script.outcomes scope).findSome? Outcome.importFault? = none := by
    rw [List.findSome?_eq_none_iff, outcomes_eq_map, List.forall_mem_map]
    intro offset _
    rw [outcomeAt_of_script hkind himport]
    split <;> rfl
  unfold parse
  dsimp only
  rw [hfault]
  exact ⟨_, rfl⟩

theorem scannedText_of_script (hkind : script.kind = .script) :
    script.scannedText = keepComments script.text := by
  simp only [scannedText, hkind]

theorem scannedText_of_markupOnly (hbare : bare.kind = .markupOnly) :
    bare.scannedText = bare.text := by
  simp only [scannedText, hbare]

/-- The fragment behind an occurrence stands indented in a script that scans like the source,
indented. -/
theorem fragmentBehind_indent (hbare : bare.kind = .markupOnly)
    (h : m.Applies bare.text script.scannedText) (hgap : HasNoGap scope.marker) {offset : Nat}
    (hoffset : scope.marker <+: bare.text.drop offset) :
    m.Applies (bare.fragmentBehind scope offset)
      (script.fragmentBehind scope (m.offset bare.text offset)) := by
  rw [fragmentBehind, fragmentBehind, scannedText_of_markupOnly hbare, m.offset_add hgap hoffset]
  exact h.fragment _

/-- An occurrence comes to the same in a script that scans like the source, indented: the same
object, with a place further to the right and an import path, or none. -/
theorem outcomeAt_indent (hbare : bare.kind = .markupOnly) (hscript : script.kind = .script)
    (himport : importPath scope.workingDirectory script.path scope.root = .ok importAs)
    (h : m.Applies bare.text script.scannedText) (hgap : HasNoGap scope.marker) {offset : Nat}
    (hoffset : scope.marker <+: bare.text.drop offset) :
    (script.outcomeAt scope (m.offset bare.text offset)).tree? =
        (bare.outcomeAt scope offset).tree?.map
          (fun root => withImportFile importAs (root.mapMark m.place)) ∧
      (script.outcomeAt scope (m.offset bare.text offset)).isInvalid =
        (bare.outcomeAt scope offset).isInvalid := by
  -- the fragments are related by the indentation, so one decodes exactly when the other does
  have hfragment := fragmentBehind_indent hbare h hgap hoffset
  rw [outcomeAt_of_script hscript himport]
  unfold outcomeAt outcomeOf
  cases hdecode : decodeJson scope.room (bare.fragmentBehind scope offset) with
  | ok root =>
      have hobject : root.isObject = true := isObject_of_decode_fragment hdecode
      have hdecode' := (decodeJson_indent_iff hfragment).2 ⟨root, hdecode, rfl⟩
      simp only [hdecode', hobject, if_true, completed_of_markupOnly hbare]
      exact ⟨rfl, rfl⟩
  | error fault =>
      cases hdecode' :
          decodeJson scope.room (script.fragmentBehind scope (m.offset bare.text offset)) with
      | ok root' =>
          rcases (decodeJson_indent_iff hfragment).1 hdecode' with ⟨root, hroot, -⟩
          cases hdecode.symm.trans hroot
      | error fault' => exact ⟨rfl, rfl⟩

/-- A script that scans like a source that is nothing but markup, indented, has the occurrences of
the marker that this source has, one problem for each problem of it, and its markups in the same
order, with places further to the right and with import paths. -/
theorem parse_indent (hbare : bare.kind = .markupOnly) (hscript : script.kind = .script)
    (hpath : script.path = bare.path)
    (himport : importPath scope.workingDirectory script.path scope.root = .ok importAs)
    (hmarker : scope.marker ≠ []) (hgap : HasNoGap scope.marker)
    (h : m.Applies bare.text script.scannedText) :
    script.offsets scope = (bare.offsets scope).map (m.offset bare.text) ∧
      ∃ parsed, bare.parse scope = .ok parsed ∧ script.parse scope = .ok
        { markups := parsed.markups.map fun markup =>
            ⟨withImportFile importAs (markup.root.mapMark m.place), script.path, .script⟩
          problems := parsed.problems } := by
  -- the occurrences correspond one to one; then each outcome does
  have hoffsets : script.offsets scope = (bare.offsets scope).map (m.offset bare.text) := by
    rw [offsets, offsets, scannedText_of_markupOnly hbare, h.markerOffsets_eq hmarker hgap]
  have hat : ∀ offset ∈ bare.offsets scope, scope.marker <+: bare.text.drop offset := by
    intro offset hoffset
    rw [offsets, scannedText_of_markupOnly hbare] at hoffset
    exact (mem_markerOffsets_iff hmarker).1 hoffset
  have houtcome := fun offset hoffset =>
    outcomeAt_indent hbare hscript himport h hgap (hat offset hoffset)
  have htrees : (script.outcomes scope).filterMap Outcome.tree? =
      ((bare.outcomes scope).filterMap Outcome.tree?).map
        fun root => withImportFile importAs (root.mapMark m.place) := by
    rw [outcomes_eq_map, outcomes_eq_map, hoffsets, List.map_map, List.filterMap_map,
      List.filterMap_map, List.map_filterMap]
    exact List.filterMap_congr fun offset hoffset => (houtcome offset hoffset).1
  have hinvalid : ((script.outcomes scope).filter Outcome.isInvalid).length =
      ((bare.outcomes scope).filter Outcome.isInvalid).length := by
    rw [outcomes_eq_map, outcomes_eq_map, hoffsets, List.map_map, List.filter_map, List.filter_map,
      List.length_map, List.length_map]
    exact congrArg List.length
      (List.filter_congr fun offset hoffset => (houtcome offset hoffset).2)
  -- neither parse is refused, so trees and problems can be compared as lists
  rcases exists_parse_of_markupOnly scope hbare with ⟨parsed, hparsed⟩
  rcases exists_parse_of_script hscript himport with ⟨parsed', hparsed'⟩
  rcases parse_eq_ok hparsed with ⟨hmarkups, hproblems⟩
  rcases parse_eq_ok hparsed' with ⟨hmarkups', hproblems'⟩
  refine ⟨hoffsets, parsed, hparsed, ?_⟩
  rw [hparsed', Except.ok.injEq, ParsedSource.mk.injEq]
  constructor
  · rw [hmarkups', hmarkups, htrees, hscript, List.map_map, List.map_map]
    rfl
  · rw [hproblems', hproblems, List.map_const', List.map_const', hinvalid, hpath]

end Source

end ComponentMarkup
