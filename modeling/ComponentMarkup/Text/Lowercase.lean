import ComponentMarkup.Text.CaseTable
import ComponentMarkup.Text.CodePoint

/-!
# Lower case

Every character has one lower-case letter, with two exceptions: a capital I with a dot becomes two
characters, and a capital sigma depends on whether it ends a word.
-/

namespace ComponentMarkup

/-- The lower-case letter of a code point that has a single one, the code point itself otherwise. -/
def lowercaseLetter (p : CodePoint) : CodePoint :=
  let n := p.val
  match caseRuns.find? fun r => r.first ≤ n && n ≤ r.last && (n - r.first) % r.step = 0 with
  | some run => Fin.ofNat 0x110000 (n + run.shift).toNat
  | none => p

/-- A letter that has a case, as the neighbour of a capital sigma. -/
def isCased (p : CodePoint) : Bool := inRanges casedRanges p.val

/-- A character that does not count as the neighbour of a capital sigma. -/
def isCaseIgnorable (p : CodePoint) : Bool := inRanges caseIgnorableRanges p.val

/-- Does a text start with a letter that has a case, ignorable characters not counted? -/
def startsCased (text : Text) : Bool :=
  (text.find? fun p => !isCaseIgnorable p).any isCased

/-- The lower-case form of a text; `inWord` tells whether a letter with a case precedes it. -/
def lowercaseFrom (inWord : Bool) : Text → Text
  | [] => []
  | p :: ps =>
      let inWord' := if isCaseIgnorable p then inWord else isCased p
      let lower :=
        if p = CodePoint.ofChar '\u0130' then Text.ofChars ['i', '\u0307']
        else if p = CodePoint.ofChar 'Σ' then
          Text.ofChars (if inWord && !startsCased ps then ['ς'] else ['σ'])
        else [lowercaseLetter p]
      lower ++ lowercaseFrom inWord' ps

/-- The lower-case form of a text. -/
def lowercase (text : Text) : Text := lowercaseFrom false text

end ComponentMarkup
