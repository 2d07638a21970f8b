import ComponentMarkup.Comments
import ComponentMarkup.Component.Schema
import ComponentMarkup.Fragment
import ComponentMarkup.ImportPath
import ComponentMarkup.Log
import ComponentMarkup.Marker
import ComponentMarkup.Settings

/-!
# Markup in a source

Every occurrence of the marker in a source is read for itself: the fragment behind it is decoded,
and in a script a missing import path is added. An occurrence that is no JSON object is a problem
and hides no other; only an import path that cannot be made spoils the whole source.
-/

namespace ComponentMarkup

/-- A text to be scanned for markup. -/
structure Source where
  path : List Char
  kind : SourceKind
  text : List Char

/-- What the reading of markup depends on besides the source. The root is the directory that import
paths start from; it is the working directory if none is given. The room is that of the thread on
which the source is read. -/
structure Scope where
  marker : List Char
  root : Option (List Char)
  workingDirectory : List Name
  room : Nat

/-- A decoded object and the source it comes from. -/
structure Markup where
  root : LocatedTree
  path : List Char
  kind : SourceKind

/-- What becomes of an occurrence of the marker. -/
inductive Outcome where
  /-- An object, in a script with an import path. -/
  | decoded (root : LocatedTree)
  /-- The fragment is no JSON. -/
  | refused (fault : Fault) (fragment : List Char)
  /-- The fragment is JSON, but no object. -/
  | notObject
  /-- The object lacks an import path, and none can be made. -/
  | noImportPath (fault : ImportFault)

/-- The message about an occurrence that is no JSON object. -/
def invalidJsonMessage : List Char := "A #DCECOMP marker was not followed by valid JSON".toList

/-- An object with a member added at the end; it stands in no text. -/
def addMember (key : Text) (value : Text) : LocatedTree → LocatedTree
  | .object place members => .object place (members ++ [(key, .leaf .unknown (.string value))])
  | tree => tree

namespace Source

/-- The text in which markers count: of a script, its comments. -/
def scannedText (s : Source) : List Char :=
  match s.kind with
  | .script => keepComments s.text
  | .markupOnly => s.text

/-- The offsets of the occurrences of the marker. -/
def offsets (scope : Scope) (s : Source) : List Nat := markerOffsets scope.marker s.scannedText

/-- Adds an import path to an object of a script that has none. -/
def completed (scope : Scope) (s : Source) (root : LocatedTree) : Except ImportFault LocatedTree :=
  if s.kind = .script ∧ (root.find? importFileKey).isNone then
    (importPath scope.workingDirectory s.path scope.root).map fun path =>
      addMember importFileKey (Text.ofChars path) root
  else .ok root

/-- What becomes of a fragment. -/
def outcomeOf (scope : Scope) (s : Source) (fragment : List Char) : Outcome :=
  match decodeJson scope.room fragment with
  | .error fault => .refused fault fragment
  | .ok root =>
      if root.isObject then
        match s.completed scope root with
        | .ok root => .decoded root
        | .error fault => .noImportPath fault
      else .notObject

/-- What becomes of the occurrences of the marker, in order. -/
def outcomes (scope : Scope) (s : Source) : List Outcome :=
  let text := s.scannedText
  (s.offsets scope).map fun offset =>
    s.outcomeOf scope (fragmentAt text (offset + scope.marker.length : Nat))

end Source

namespace Outcome

/-- The object, if there is one. -/
def tree? : Outcome → Option LocatedTree
  | decoded root => some root
  | _ => none

/-- Is this an occurrence that is no JSON object? -/
def isInvalid : Outcome → Bool
  | refused .. => true
  | notObject => true
  | _ => false

/-- The fault of an import path that cannot be made. -/
def importFault? : Outcome → Option ImportFault
  | noImportPath fault => some fault
  | _ => none

/-- The line about a fragment that is no JSON. -/
def lines (verbosity : Int) (path : List Char) : Outcome → List LogLine
  | refused fault fragment =>
      let cause :=
        match fault with
        | .tooDeep _ | .outOfCalls => ": JSON after marker nested too deeply: "
        | _ => ": invalid JSON after marker: "
      LogLine.debug verbosity 3
        (Text.ofChars path ++ Text.ofString (cause ++ fault.message fragment))
  | _ => []

end Outcome

/-- The markup of a source, and a problem for each occurrence that is no JSON object. -/
structure ParsedSource where
  markups : List Markup
  problems : List Problem

namespace Source

/-- The markup of a source, unless an import path cannot be made. -/
def parse (scope : Scope) (s : Source) : Except ImportFault ParsedSource :=
  let outcomes := s.outcomes scope
  match outcomes.findSome? Outcome.importFault? with
  | some fault => .error fault
  | none => .ok
      { markups := (outcomes.filterMap Outcome.tree?).map fun root => ⟨root, s.path, s.kind⟩
        problems := (outcomes.filter Outcome.isInvalid).map fun _ =>
          ⟨invalidJsonMessage, s.path, .unknown⟩ }

/-- The lines that the reading of a source logs; an import path that cannot be made ends it. -/
def parseLines (verbosity : Int) (scope : Scope) (s : Source) : List LogLine :=
  let outcomes := s.outcomes scope
  LogLine.debug verbosity 3
      (Text.ofChars s.path ++ Text.ofString ": " ++ countText outcomes.length ++
        Text.ofString " marker(s)") ++
    (outcomes.takeWhile fun o => o.importFault?.isNone).flatMap (Outcome.lines verbosity s.path)

end Source

end ComponentMarkup
