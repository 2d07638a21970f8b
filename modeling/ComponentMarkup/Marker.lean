/-!
# Markers

A marker is a literal token that announces markup. All its occurrences count, overlapping ones too:
the search for the next one starts one character behind the start of the last.
-/

namespace ComponentMarkup

variable {α : Type} [DecidableEq α]

/-- The offset of the first occurrence of a word in a text whose first character has the given
offset. An empty word occurs everywhere, at the end of the text too. -/
def firstOccurrenceFrom (word : List α) (offset : Nat) : List α → Option Nat
  | [] => if word = [] then some offset else none
  | c :: cs =>
      if word.isPrefixOf (c :: cs) then some offset else firstOccurrenceFrom word (offset + 1) cs

/-- The offset of the first occurrence of a word in a text at or behind `start`. -/
def nextOccurrence? (word text : List α) (start : Nat) : Option Nat :=
  if start ≤ text.length then firstOccurrenceFrom word start (text.drop start) else none

/-- In the rest of a text behind `offset`, one offset after the other is tried. -/
theorem firstOccurrenceFrom_drop (word text : List α) {offset : Nat} (h : offset ≤ text.length) :
    firstOccurrenceFrom word offset (text.drop offset) =
      (List.range' offset (text.length + 1 - offset)).find? fun i =>
        word.isPrefixOf (text.drop i) := by
  generalize hcs : text.drop offset = cs
  induction cs generalizing offset with
  | nil =>
      have hlast : text.length + 1 - offset = 1 := by
        have hle := List.drop_eq_nil_iff.1 hcs
        omega
      rw [hlast, List.range'_one, List.find?_singleton, hcs]
      cases word <;> rfl
  | cons c cs ih =>
      have hlt : offset < text.length := by
        apply Nat.lt_of_not_le
        intro hle
        rw [List.drop_eq_nil_of_le hle] at hcs
        cases hcs
      have hrest : text.drop (offset + 1) = cs := by
        rw [← List.tail_drop, hcs, List.tail_cons]
      have hrange : text.length + 1 - offset = text.length + 1 - (offset + 1) + 1 := by omega
      rw [hrange, List.range'_succ, List.find?_cons, hcs, firstOccurrenceFrom, ih hlt hrest]
      cases word.isPrefixOf (c :: cs) <;> rfl

/-- The next occurrence is the first offset from `start` on at which the word stands. -/
theorem nextOccurrence?_eq_find? (word text : List α) (start : Nat) :
    nextOccurrence? word text start =
      (List.range' start (text.length + 1 - start)).find? fun i =>
        word.isPrefixOf (text.drop i) := by
  unfold nextOccurrence?
  split
  · next hle => exact firstOccurrenceFrom_drop word text hle
  · next hlt =>
    have hnone : text.length + 1 - start = 0 := by omega
    rw [hnone]
    rfl

theorem nextOccurrence?_bounds {word text : List α} {start next : Nat}
    (h : nextOccurrence? word text start = some next) : start ≤ next ∧ next ≤ text.length := by
  rw [nextOccurrence?_eq_find?] at h
  have hmem := List.mem_range'_1.1 (List.mem_of_find?_eq_some h)
  omega

/-- Where the search for a marker stands: the occurrences that are listed, and the next one, if
there is any. -/
structure MarkerSearch where
  listed : List Nat
  next? : Option Nat
  deriving DecidableEq, Repr

namespace MarkerSearch

/-- The search with nothing listed. -/
def start (marker text : List α) : MarkerSearch := ⟨[], nextOccurrence? marker text 0⟩

/-- Lists the next occurrence, and looks for another one from one character further on. -/
def step (marker text : List α) (s : MarkerSearch) : Option MarkerSearch :=
  s.next?.map fun next => ⟨s.listed ++ [next], nextOccurrence? marker text (next + 1)⟩

/-- How many steps there can be at most. -/
def remaining (text : List α) (s : MarkerSearch) : Nat :=
  match s.next? with
  | none => 0
  | some next => text.length - next + 1

omit [DecidableEq α] in
@[simp] theorem remaining_none (text : List α) (listed : List Nat) :
    remaining text ⟨listed, none⟩ = 0 := rfl

omit [DecidableEq α] in
@[simp] theorem remaining_some (text : List α) (listed : List Nat) (next : Nat) :
    remaining text ⟨listed, some next⟩ = text.length - next + 1 := rfl

theorem exists_of_step {marker text : List α} {s s' : MarkerSearch}
    (h : s.step marker text = some s') :
    ∃ listed next, s = ⟨listed, some next⟩ ∧
      s' = ⟨listed ++ [next], nextOccurrence? marker text (next + 1)⟩ := by
  rcases s with ⟨listed, _ | next⟩
  · cases h
  · exact ⟨listed, next, rfl, (Option.some.inj h).symm⟩

/-- A step brings the search nearer to the end of the text. -/
theorem remaining_of_step {marker text : List α} {s s' : MarkerSearch}
    (h : s.step marker text = some s') : s'.remaining text < s.remaining text := by
  rcases exists_of_step h with ⟨listed, next, rfl, rfl⟩
  cases hnext : nextOccurrence? marker text (next + 1) with
  | none =>
      rw [remaining_none, remaining_some]
      exact Nat.succ_pos _
  | some next' =>
      have hbounds := nextOccurrence?_bounds hnext
      rw [remaining_some, remaining_some]
      omega

/-- Searches until there is no occurrence left. It may be unfolded, so that closed searches
compute. -/
@[semireducible] def run (marker text : List α) (s : MarkerSearch) : MarkerSearch :=
  match _ : s.step marker text with
  | none => s
  | some s' => s'.run marker text
termination_by s.remaining text
decreasing_by exact remaining_of_step ‹_›

end MarkerSearch

/-- The offsets of all occurrences of a marker, ascending; an empty marker occurs nowhere. -/
def markerOffsets (marker text : List α) : List Nat :=
  if marker = [] then [] else ((MarkerSearch.start marker text).run marker text).listed

@[simp] theorem markerOffsets_nil (text : List α) : markerOffsets [] text = [] := by
  simp [markerOffsets]

end ComponentMarkup
