import ComponentMarkup.Text.CodePoint
import ComponentMarkup.Number.Double

/-!
# Trees of JSON values

One type of tree serves every stage: its nodes carry marks of a type `ι` (an offset, a place,
nothing) and its leaves hold scalars of a type `σ` (as spelled, or as meant). All passes over a
tree are instances of one fold.
-/

namespace ComponentMarkup

/-- A JSON value with a mark on every node; the members of an object are in order. -/
inductive Tree (ι σ : Type) where
  | leaf (mark : ι) (value : σ)
  | array (mark : ι) (items : List (Tree ι σ))
  | object (mark : ι) (members : List (Text × Tree ι σ))

namespace Tree

variable {ι κ σ τ α : Type}

/-- The mark of the root. -/
def mark : Tree ι σ → ι
  | .leaf m _ => m
  | .array m _ => m
  | .object m _ => m

instance [Inhabited ι] [Inhabited σ] : Inhabited (Tree ι σ) := ⟨.leaf default default⟩

section Fold

variable (leaf : ι → σ → α) (array : ι → List α → α) (object : ι → List (Text × α) → α)

mutual

/-- Replaces every node, from the leaves up. -/
def fold : Tree ι σ → α
  | .leaf m v => leaf m v
  | .array m items => array m (foldItems items)
  | .object m members => object m (foldMembers members)

/-- The folds of the elements of an array. -/
def foldItems : List (Tree ι σ) → List α
  | [] => []
  | t :: ts => fold t :: foldItems ts

/-- The folds of the members of an object. -/
def foldMembers : List (Text × Tree ι σ) → List (Text × α)
  | [] => []
  | (k, t) :: ms => (k, fold t) :: foldMembers ms

end

theorem foldItems_eq_map (items : List (Tree ι σ)) :
    foldItems leaf array object items = items.map (fold leaf array object) := by
  induction items with
  | nil => rfl
  | cons t ts ih => simp [foldItems, ih]

theorem foldMembers_eq_map (members : List (Text × Tree ι σ)) :
    foldMembers leaf array object members =
      members.map fun m => (m.1, fold leaf array object m.2) := by
  induction members with
  | nil => rfl
  | cons m ms ih => simp [foldMembers, ih]

@[simp] theorem fold_leaf (m : ι) (v : σ) : fold leaf array object (.leaf m v) = leaf m v := rfl

@[simp] theorem fold_array (m : ι) (items : List (Tree ι σ)) :
    fold leaf array object (.array m items) = array m (items.map (fold leaf array object)) := by
  simp [fold, foldItems_eq_map]

@[simp] theorem fold_object (m : ι) (members : List (Text × Tree ι σ)) :
    fold leaf array object (.object m members) =
      object m (members.map fun p => (p.1, fold leaf array object p.2)) := by
  simp [fold, foldMembers_eq_map]

end Fold

/-! ## Members -/

/-- The value of a member of a list of members: that of the last one with the name. -/
def lastMember? (name : Text) (members : List (Text × α)) : Option α :=
  (members.reverse.find? fun m => m.1 = name).map Prod.snd

/-- The members of an object by name, none of anything else. -/
def find? (name : Text) : Tree ι σ → Option (Tree ι σ)
  | .object _ members => lastMember? name members
  | _ => none

/-- Is this an object? -/
def isObject : Tree ι σ → Bool
  | .object .. => true
  | _ => false

/-- Is this an array? -/
def isArray : Tree ι σ → Bool
  | .array .. => true
  | _ => false

/-! ## Passes -/

/-- Changes every mark. -/
def mapMark (f : ι → κ) : Tree ι σ → Tree κ σ :=
  fold (fun m v => .leaf (f m) v) (fun m items => .array (f m) items)
    (fun m members => .object (f m) members)

/-- The members that are there, if all are. -/
def sequenceMembers : List (Text × Option α) → Option (List (Text × α))
  | [] => some []
  | (k, v) :: ms => do
      let v ← v
      let ms ← sequenceMembers ms
      return (k, v) :: ms

/-- The elements that are there, if all are. -/
def sequenceItems : List (Option α) → Option (List α)
  | [] => some []
  | v :: vs => do
      let v ← v
      let vs ← sequenceItems vs
      return v :: vs

/-- Changes every leaf, or gives nothing if this fails for one of them. -/
def mapLeaves? (f : σ → Option τ) : Tree ι σ → Option (Tree ι τ) :=
  fold (fun m v => (f v).map (.leaf m)) (fun m items => (sequenceItems items).map (.array m))
    (fun m members => (sequenceMembers members).map (.object m))

/-- Sets a member: in its place if the name is there, else at the end. -/
def setMember (name : Text) (value : α) : List (Text × α) → List (Text × α)
  | [] => [(name, value)]
  | (k, v) :: ms => if k = name then (name, value) :: ms else (k, v) :: setMember name value ms

/-- Members without repeated names: each stands where its name came first and has the value that
came last. -/
def distinctMembers (members : List (Text × α)) : List (Text × α) :=
  members.foldl (fun acc m => setMember m.1 m.2 acc) []

/-- Leaves one member of each name in every object. -/
def collapse : Tree ι σ → Tree ι σ :=
  fold .leaf .array fun m members => .object m (distinctMembers members)

/-- Forgets the marks. -/
def plain : Tree ι σ → Tree Unit σ := mapMark fun _ => ()

end Tree

/-! ## Scalars -/

/-- A JSON scalar. A number without fraction and exponent is an integer, any other a double. -/
inductive Scalar where
  | null
  | bool (value : Bool)
  | string (value : Text)
  | integer (value : Int)
  | float (value : Double)
  deriving DecidableEq, Inhabited

/-- A JSON value with nothing but its content. -/
abbrev Value := Tree Unit Scalar

end ComponentMarkup
