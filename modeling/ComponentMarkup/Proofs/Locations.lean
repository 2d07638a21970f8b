import ComponentMarkup.Compiler
import ComponentMarkup.Proofs.Comments
import ComponentMarkup.Proofs.Component.Order
import ComponentMarkup.Proofs.Except
import ComponentMarkup.Proofs.Markup

/-!
# Locations

Four stages lie between a source and the place that a problem reports: comments are kept, the text
in front of an object is blanked, offsets become lines and columns, and a check picks a node. None
of them moves anything, so every node of a markup stands where its place says, in the text as the
author wrote it (`Source.parse_places`).
-/

namespace ComponentMarkup

open ComponentMarkup.Tree (Subtree)

namespace Source

/-! ## The scanned text -/

/-- A source and its scanned text have the same newline characters at the same offsets. -/
theorem map_blankOut_scannedText (s : Source) :
    s.scannedText.map blankOut = s.text.map blankOut := by
  unfold scannedText
  split
  · exact map_blankOut_keepComments s.text
  · rfl

theorem length_scannedText (s : Source) : s.scannedText.length = s.text.length := by
  simpa using congrArg List.length s.map_blankOut_scannedText

/-- A scanned character that is not blank is a character of the source. -/
theorem getElem?_of_scannedText {s : Source} {i : Nat} {c : Char}
    (h : s.scannedText[i]? = some c) (hblank : isBlank c = false) : s.text[i]? = some c := by
  unfold scannedText at h
  split at h
  · apply getElem?_of_keepComments h
    intro heq
    rw [← heq, isBlank_blankOut] at hblank
    cases hblank
  · exact h

/-- Places in the scanned text are those in the source. -/
theorem placeAt_scannedText {s : Source} {i : Nat} (h : i < s.text.length) :
    placeAt .anyBreak s.scannedText i = placeAt .anyBreak s.text i :=
  placeAt_congr (s.length_scannedText ▸ h) h (by rw [s.map_blankOut_scannedText])

/-! ## Nodes stand in the source -/

/-- A node of a tree stands at an offset of a source: its line and column count from one and name
this offset in the text as written, the character there is the first one of the value, and reading
one value from there in the scanned text, with containers nested at most `levels` deep, gives the
value of the node. -/
structure StandsAt (levels : Nat) (s : Source) (node : LocatedTree) (offset : Nat) : Prop where
  line : 1 ≤ node.mark.line
  column : 1 ≤ node.mark.column
  named : node.mark.offset? s.text = some offset
  first : ∃ c, isBlank c = false ∧ s.text[offset]? = some c ∧ s.scannedText[offset]? = some c
  reads : ∃ value stop, valueAt? levels s.scannedText offset = some (value, stop) ∧
    value.mark = offset ∧ value.plain = node.plain

/-- Every node of an object behind a marker stands in the source. -/
theorem exists_standsAt {scope : Scope} {s : Source} {start : Nat} {authored node : LocatedTree}
    (h : decodeJson scope.room (s.fragmentBehind scope start) = .ok authored)
    (hnode : Subtree node authored) : ∃ offset, s.StandsAt (levelLimit scope.room) node offset := by
  rcases exists_objectAt h with ⟨b, -, ⟨o⟩⟩
  -- from the located node to the one with an offset, which the scanned text has there
  rw [o.located, locate_eq_mapMark] at hnode
  rcases Subtree.of_mapMark hnode with ⟨u, hu, rfl⟩
  rcases o.exists_valueAt? hu with ⟨stop, hread⟩
  rcases getElem?_of_valueAt? hread with ⟨hmark, c, hc, hblank⟩
  have htext : s.text[u.mark]? = some c := getElem?_of_scannedText hc hblank
  have hlt : u.mark < s.text.length := (List.getElem?_eq_some_iff.1 htext).1
  -- no stage moves the offset: the fragment, the scanned text and the source have the same place
  have hplace : (u.mapMark (placeAt .anyBreak (fragmentAt s.scannedText
      (start + scope.marker.length : Nat)))).mark = placeAt .anyBreak s.text u.mark := by
    rw [Tree.mark_mapMark, placeAt_fragmentAt (o.mark_lt hu), placeAt_scannedText hlt]
  rcases offset?_placeAt hlt with ⟨hnamed, hline, hcolumn⟩
  refine ⟨u.mark, ?_, ?_, ?_, ⟨c, hblank, htext, hc⟩, ⟨u, stop, hread, hmark, ?_⟩⟩
  · exact hplace ▸ hline
  · exact hplace ▸ hcolumn
  · exact hplace ▸ hnamed
  · exact (Tree.plain_mapMark ..).symm

/-- What a check of an object behind a marker reports is the place of a node to blame, which stands
in the source. -/
theorem exists_blames_standsAt {scope : Scope} {s : Source} {start : Nat}
    {authored root : LocatedTree} {v : Violation}
    (h : decodeJson scope.room (s.fragmentBehind scope start) = .ok authored)
    (hroot : s.Completes scope authored root) (hcheck : checkComponent root = .error v) :
    ∃ node offset, v.place = node.mark ∧ Blames authored v.rule node ∧
      Subtree node authored ∧
            s.StandsAt (levelLimit scope.room) node offset := by
  -- the completed object was checked, but what is to blame in it stands in the authored one
  rcases reports_of_checkComponent hcheck with ⟨node, hblames, hplace⟩
  rcases hblames.of_completes (isObject_of_decode_fragment h) hroot with ⟨node', hblames', hmark⟩
  rcases exists_standsAt h hblames'.subtree with ⟨offset, hstands⟩
  exact ⟨node', offset, hplace.trans hmark.symm, hblames', hblames'.subtree, hstands⟩

/-- Every node of a markup, but for an import path that was added, stands in the source where its
place says, and so does the node that a problem with the markup is about: a value that breaks a
rule of the schema, or an object in which one is missing. -/
theorem parse_places {scope : Scope} {s : Source} {parsed : ParsedSource} {m : Markup}
    (h : s.parse scope = .ok parsed) (hm : m ∈ parsed.markups) :
    ∃ authored, s.Completes scope authored m.root ∧
      (∀ node, Subtree node authored → ∃ offset, s.StandsAt (levelLimit scope.room) node offset) ∧
      ∀ problem, m.check = .error problem →
        ∃ rule node offset, problem = ⟨rule.message.toList, s.path, node.mark⟩ ∧
          Blames authored rule node ∧ Subtree node authored ∧
            s.StandsAt (levelLimit scope.room) node offset := by
  rcases exists_of_mem_markups h hm with ⟨start, -, authored, hdecode, hcompletes, hpath⟩
  refine ⟨authored, hcompletes, fun node hnode => exists_standsAt hdecode hnode, ?_⟩
  intro problem hproblem
  -- a schema problem is a violation with the path of its markup; the blamed node is one of the
  -- authored tree
  rcases Except.of_mapError_eq_error hproblem with ⟨v, hv, rfl⟩
  rcases exists_blames_standsAt hdecode hcompletes hv with
    ⟨node, offset, hplace, hblames, hsubtree, hstands⟩
  refine ⟨v.rule, node, offset, ?_, hblames, hsubtree, hstands⟩
  rw [Violation.problem, hplace, hpath]

/-- An object without members in two line comments of a script, whose lines end at CR and CR LF: the
class that it lacks is missed at its brace, on the second line. -/
theorem parse_places_two_line_comments :
    ∃ (scope : Scope) (s : Source) (parsed : ParsedSource) (m : Markup),
      s.text = "\r//M\x7b\r\n//\x7d".toList ∧ s.parse scope = .ok parsed ∧ m ∈ parsed.markups ∧
      ∃ authored, s.Completes scope authored m.root ∧
        (∀ node, Subtree node authored → ∃ offset, s.StandsAt (levelLimit scope.room) node offset) ∧
        ∀ problem, m.check = .error problem →
          ∃ rule node offset, problem = ⟨rule.message.toList, s.path, node.mark⟩ ∧
            Blames authored rule node ∧ Subtree node authored ∧
            s.StandsAt (levelLimit scope.room) node offset := by
  let m : Markup :=
    ⟨.object ⟨2, 4⟩ [(importFileKey, .leaf .unknown (.string (Text.ofString "a")))],
      "a".toList, .script⟩
  have h : Source.parse ⟨"M".toList, none, [], 900⟩
      ⟨"a".toList, .script, "\r//M\x7b\r\n//\x7d".toList⟩ = .ok ⟨[m], []⟩ := rfl
  have hm : m ∈ [m] := List.mem_singleton_self m
  exact ⟨_, _, _, m, rfl, h, hm, parse_places h hm⟩

end Source

end ComponentMarkup
