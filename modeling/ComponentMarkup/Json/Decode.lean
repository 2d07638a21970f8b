import ComponentMarkup.Json.Reader

/-!
# Decoding JSON

A text is decoded to a tree of places: it is read as spelled, spellings that are none of JSON are
refused, and of repeated members the last one counts.

Both the reading and the conversion of what was read call themselves for what is nested, and how
many calls may be in progress is limited. What is left of the limit is the room of the decoding: so
many calls more than a scalar takes.
-/

namespace ComponentMarkup

/-- A JSON value with the place of every node. -/
abbrev LocatedTree := Tree Place Scalar

/-- The scalar that a literal spells, if JSON has this spelling. -/
def Literal.scalar? : Literal → Option Scalar
  | null => some .null
  | bool b => some (.bool b)
  | string t => some (.string t)
  | number n => if n.exponent.any (·.sign = some '+') then none else some n.toScalar
  | infinity _ => none
  | nan => none

/-- The tree with places for offsets. -/
def locate (text : List Char) (tree : Tree Nat Scalar) : LocatedTree :=
  let table := (places .anyBreak text).toArray
  tree.mapMark fun offset => table[offset]?.getD .unknown

/-- The value of a tree as spelled, every node with its offset. -/
def Tree.meaning? (tree : SpelledTree) : Option (Tree Nat Scalar) :=
  (tree.mapLeaves? Literal.scalar?).map Tree.collapse

/-! ## Calls -/

/-- How deep the containers of a text may be nested that is read with some room. -/
def levelLimit (room : Nat) : Nat := room + 2

/-- How many calls the conversion of a value may take with some room. -/
def callLimit (room : Nat) : Nat := room + 6

/-- How many calls are in progress at once when a value is converted: two for each array around
another value and one for each object, and within them those that a scalar, the name of a member or
a container itself takes. Repeated members count too. -/
def Tree.calls {ι σ : Type} : Tree ι σ → Nat :=
  fold (fun _ _ => 6) (fun _ items => items.foldr (fun n most => max (n + 2) most) 3)
    (fun _ members => members.foldr (fun m most => max (max 6 (m.2 + 1)) most) 3)

/-! ## Decoding -/

/-- Decodes a text that is one JSON value, with room for some calls. The interpreter may add to the
fault of a value that takes too many what it was about to do. -/
def decodeJson (room : Nat) (text : List Char) : Except Fault LocatedTree :=
  match readSpelled (levelLimit room) text with
  | .error fault => .error fault
  | .ok tree =>
      match tree.meaning? with
      | none => .error .foreignSpelling
      | some meaning =>
          if tree.calls ≤ callLimit room then .ok (locate text meaning) else .error .outOfCalls

/-- Locating by table is locating by place. -/
theorem locate_eq_mapMark (text : List Char) (tree : Tree Nat Scalar) :
    locate text tree = tree.mapMark (placeAt .anyBreak text) := by
  simp only [locate, List.getElem?_toArray]
  rfl

end ComponentMarkup
