import ComponentMarkup.Json.Reader

/-!
# The grammar of lexemes

Which lexemes spell which trees, as a relation, and how deep the trees are nested. The reader keeps
a stack of open containers and never looks back; we show that it accepts exactly what the grammar
derives:

* `Spells.isRead`: what the grammar derives is read, whatever lexemes follow it;
* `readValue_eq_ok_iff`: what is read is derived, from the lexemes that the reader has used up.
-/

namespace ComponentMarkup

/-- What a run of lexemes may spell. -/
inductive Phrase where
  /-- A value. -/
  | value (tree : SpelledTree)
  /-- The elements of an array that has some, and the bracket behind them. -/
  | items (trees : List SpelledTree)
  /-- The members of an object that has some, from behind the first colon on, and the brace behind
  them. -/
  | members (list : List (Text × SpelledTree))

/-- These lexemes spell a phrase, the values of which are nested at most `room` deep. -/
inductive Spells : Nat → List Lexeme → Phrase → Prop where
  | leaf {room start value} :
      Spells room [⟨start, .literal value⟩] (.value (.leaf start value))
  | emptyArray {room start last} :
      Spells (room + 1) [⟨start, .openArray⟩, ⟨last, .closeArray⟩] (.value (.array start []))
  | array {room start ls trees} :
      Spells room ls (.items trees) →
      Spells (room + 1) (⟨start, .openArray⟩ :: ls) (.value (.array start trees))
  | emptyObject {room start last} :
      Spells (room + 1) [⟨start, .openObject⟩, ⟨last, .closeObject⟩] (.value (.object start []))
  | object {room start nameAt colonAt ls name tree list} :
      Spells room ls (.members ((name, tree) :: list)) →
      Spells (room + 1)
        (⟨start, .openObject⟩ :: ⟨nameAt, .literal (.string name)⟩ :: ⟨colonAt, .colon⟩ :: ls)
        (.value (.object start ((name, tree) :: list)))
  | lastItem {room last ls tree} :
      Spells room ls (.value tree) →
      Spells room (ls ++ [⟨last, .closeArray⟩]) (.items [tree])
  | nextItem {room commaAt ls more tree trees} :
      Spells room ls (.value tree) → Spells room more (.items trees) →
      Spells room (ls ++ ⟨commaAt, .comma⟩ :: more) (.items (tree :: trees))
  | lastMember {room last ls name tree} :
      Spells room ls (.value tree) →
      Spells room (ls ++ [⟨last, .closeObject⟩]) (.members [(name, tree)])
  | nextMember {room commaAt nameAt colonAt ls more name tree next nextTree list} :
      Spells room ls (.value tree) → Spells room more (.members ((next, nextTree) :: list)) →
      Spells room
        (ls ++ ⟨commaAt, .comma⟩ :: ⟨nameAt, .literal (.string next)⟩ :: ⟨colonAt, .colon⟩ :: more)
        (.members ((name, tree) :: (next, nextTree) :: list))

namespace Spells

variable {room : Nat} {ls : List Lexeme} {p : Phrase} {tree : SpelledTree}

/-- What fits into some room fits into more of it. -/
theorem mono {more : Nat} (h : Spells room ls p) (hle : room ≤ more) : Spells more ls p := by
  induction h generalizing more with
  | leaf => exact .leaf
  | emptyArray =>
      rcases Nat.exists_eq_add_of_le' hle with ⟨n, rfl⟩
      exact .emptyArray
  | @array room _ _ _ _ ih =>
      -- a container takes one level of the room, and leaves the others to what it holds
      rcases Nat.exists_eq_add_of_le' hle with ⟨n, rfl⟩
      have hinner : room ≤ n + room := Nat.le_add_left ..
      exact .array (ih hinner)
  | emptyObject =>
      rcases Nat.exists_eq_add_of_le' hle with ⟨n, rfl⟩
      exact .emptyObject
  | @object room _ _ _ _ _ _ _ _ ih =>
      rcases Nat.exists_eq_add_of_le' hle with ⟨n, rfl⟩
      have hinner : room ≤ n + room := Nat.le_add_left ..
      exact .object (ih hinner)
  | lastItem _ ih => exact .lastItem (ih hle)
  | nextItem _ _ ih ihmore => exact .nextItem (ih hle) (ihmore hle)
  | lastMember _ ih => exact .lastMember (ih hle)
  | nextMember _ _ ih ihmore => exact .nextMember (ih hle) (ihmore hle)

/-- A phrase starts with a lexeme, and not with a closing bracket. -/
theorem exists_head (h : Spells room ls p) :
    ∃ l more, ls = l :: more ∧ l.token ≠ .closeArray := by
  induction h with
  | leaf => exact ⟨_, _, rfl, by simp⟩
  | emptyArray => exact ⟨_, _, rfl, by simp⟩
  | array => exact ⟨_, _, rfl, by simp⟩
  | emptyObject => exact ⟨_, _, rfl, by simp⟩
  | object => exact ⟨_, _, rfl, by simp⟩
  | lastItem _ ih | lastMember _ ih | nextItem _ _ ih _ | nextMember _ _ ih _ =>
      rcases ih with ⟨l, more, rfl, hl⟩
      exact ⟨l, _, rfl, hl⟩

/-- The first lexeme of a value stands at the mark of the value. -/
theorem head_start (h : Spells room ls (.value tree)) :
    ∃ token more, ls = ⟨tree.mark, token⟩ :: more := by
  cases h <;> exact ⟨_, _, rfl⟩

/-- The members of an object end with a brace. -/
theorem getLast?_members (h : Spells room ls p) {list : List (Text × SpelledTree)}
    (hp : p = .members list) : ∃ last, ls.getLast? = some ⟨last, .closeObject⟩ := by
  induction h generalizing list with
  | leaf | emptyArray | array | emptyObject | object | lastItem | nextItem => cases hp
  | @lastMember room last ls name tree _ _ => exact ⟨last, by simp⟩
  | @nextMember room commaAt nameAt colonAt ls more name tree next nextTree list _ hmore _ ih =>
      rcases ih rfl with ⟨last, hlast⟩
      exact ⟨last, by simp [List.getLast?_append, List.getLast?_cons, hlast]⟩

/-- An object ends with a brace. -/
theorem getLast?_object (h : Spells room ls (.value tree)) (hobject : tree.isObject = true) :
    ∃ last, ls.getLast? = some ⟨last, .closeObject⟩ := by
  cases h with
  | leaf | emptyArray | array => cases hobject
  | @emptyObject room start last => exact ⟨last, rfl⟩
  | @object room start nameAt colonAt ls name tree list h =>
      rcases h.getLast?_members rfl with ⟨last, hlast⟩
      exact ⟨last, by simp [List.getLast?_cons, hlast]⟩

end Spells

/-! ## The reader accepts what is spelled -/

/-- The reader, with some containers open, gets over the lexemes of a phrase and stands in front of
`rest` with all that the phrase holds. -/
def Phrase.IsRead (levels stop room : Nat) (ls rest : List Lexeme) (stack : List Frame) :
    Phrase → Prop
  | .value tree =>
      stack.length + room ≤ levels →
        readValue levels stop stack (ls ++ rest) = readAfter levels stop tree stack rest
  | .items trees =>
      stack.length + 1 + room ≤ levels → ∀ start done,
        readValue levels stop (.array start done :: stack) (ls ++ rest) =
          readAfter levels stop (.array start (done.reverse ++ trees)) stack rest
  | .members list =>
      stack.length + 1 + room ≤ levels → ∀ start done name tree more,
        list = (name, tree) :: more →
        readValue levels stop (.object start done name :: stack) (ls ++ rest) =
          readAfter levels stop (.object start (done.reverse ++ list)) stack rest

theorem Spells.isRead {room : Nat} {ls : List Lexeme} {p : Phrase} (h : Spells room ls p)
    (levels stop : Nat) (rest : List Lexeme) (stack : List Frame) :
    p.IsRead levels stop room ls rest stack := by
  induction h generalizing rest stack with
  | leaf =>
      intro _
      simp [readValue]
  | emptyArray =>
      intro hroom
      have hopen : ¬ stack.length ≥ levels := by omega
      simp [readValue, hopen]
  | @array room start ls trees hs ih =>
      intro hroom
      have hopen : ¬ stack.length ≥ levels := by omega
      have hinner : stack.length + 1 + room ≤ levels := by omega
      rcases hs.exists_head with ⟨l, more, rfl, hl⟩
      have hread := ih rest stack hinner start []
      rw [List.reverse_nil, List.nil_append] at hread
      rw [List.cons_append, readValue, if_neg hopen, ← hread]
      -- the array is not taken for an empty one, as no element starts with a closing bracket
      intro last others heq
      rw [List.cons_append, List.cons.injEq] at heq
      apply hl
      rw [heq.1]
  | emptyObject =>
      intro hroom
      have hopen : ¬ stack.length ≥ levels := by omega
      simp [readValue, hopen]
  | @object room start nameAt colonAt ls name tree list hs ih =>
      intro hroom
      have hopen : ¬ stack.length ≥ levels := by omega
      have hinner : stack.length + 1 + room ≤ levels := by omega
      have hread := ih rest stack hinner start [] name tree list rfl
      rw [List.reverse_nil, List.nil_append] at hread
      rw [← hread]
      simp [readValue, hopen]
  | @lastItem room last ls tree _ ih =>
      intro hroom start done
      have hread := ih (⟨last, .closeArray⟩ :: rest) (.array start done :: stack) hroom
      rw [List.append_assoc, List.singleton_append, hread, readAfter]
      simp
  | @nextItem room commaAt ls more tree trees _ _ ih ihmore =>
      intro hroom start done
      have hread := ih (⟨commaAt, .comma⟩ :: (more ++ rest)) (.array start done :: stack) hroom
      rw [List.append_assoc, List.cons_append, hread, readAfter, ihmore rest stack hroom]
      simp
  | @lastMember room last ls key value _ ih =>
      intro hroom start done name tree others hlist
      cases hlist
      have hread := ih (⟨last, .closeObject⟩ :: rest) (.object start done key :: stack) hroom
      rw [List.append_assoc, List.singleton_append, hread, readAfter]
      simp
  | @nextMember room commaAt nameAt colonAt ls more key value next nextTree list _ _ ih ihmore =>
      intro hroom start done name tree others hlist
      cases hlist
      have hread := ih
        (⟨commaAt, .comma⟩ :: ⟨nameAt, .literal (.string next)⟩ :: ⟨colonAt, .colon⟩ ::
          (more ++ rest))
        (.object start done key :: stack) hroom
      have hmore := ihmore rest stack hroom start ((key, value) :: done) next nextTree list rfl
      simp only [List.append_assoc, List.cons_append]
      rw [hread]
      simp only [readAfter]
      rw [hmore]
      simp

/-! ## What is read is spelled -/

/-- Reading with some containers open gets over a value and goes on behind it. -/
def ReadsValue (levels stop : Nat) (ls : List Lexeme) : Prop :=
  ∀ stack result, readValue levels stop stack ls = .ok result →
    ∃ tree used left, ls = used ++ left ∧
      Spells (levels - stack.length) used (.value tree) ∧
      readAfter levels stop tree stack left = .ok result

section

variable {levels stop start : Nat} {stack : List Frame} {result : SpelledTree × List Lexeme}

/-- Behind an element of an array the reader gets over the other elements and the bracket. -/
theorem exists_items_of_readAfter {n : Nat} (hread : ∀ ls : List Lexeme, ls.length < n →
    ReadsValue levels stop ls) {ls : List Lexeme} (hlen : ls.length ≤ n) {tree : SpelledTree}
    {seen : List Lexeme} {done : List SpelledTree}
    (hseen : Spells (levels - (stack.length + 1)) seen (.value tree))
    (h : readAfter levels stop tree (.array start done :: stack) ls = .ok result) :
    ∃ trees used left, ls = used ++ left ∧
      Spells (levels - (stack.length + 1)) (seen ++ used) (.items (tree :: trees)) ∧
      readAfter levels stop (.array start (done.reverse ++ tree :: trees)) stack left =
        .ok result := by
  -- each round gets over a comma and the element behind it, so the lexemes become fewer
  induction hn : ls.length using Nat.strongRecOn generalizing ls tree seen done with
  | _ k ih =>
      subst hn
      cases ls with
      | nil => simp [readAfter] at h
      | cons l more =>
          rcases l with ⟨offset, token⟩
          cases token with
          | comma =>
              rw [readAfter] at h
              have hmore : more.length < n := hlen
              rcases hread more hmore _ _ h with ⟨next, used, left, rfl, hnext, hafter⟩
              rw [List.length_append] at hmore
              have hshorter : left.length < (used ++ left).length + 1 := by
                rw [List.length_append]
                omega
              have hle : left.length ≤ n := by omega
              rcases ih left.length hshorter hle hnext hafter rfl with
                ⟨trees, used', left', rfl, hitems, hrest⟩
              refine ⟨next :: trees, ⟨offset, .comma⟩ :: (used ++ used'), left', by simp, ?_, ?_⟩
              · exact .nextItem hseen hitems
              · simpa using hrest
          | closeArray =>
              rw [readAfter] at h
              exact ⟨[], [⟨offset, .closeArray⟩], more, rfl, .lastItem hseen, by simpa using h⟩
          | _ => simp [readAfter] at h

/-- Behind a member of an object the reader gets over the other members and the brace. -/
theorem exists_members_of_readAfter {n : Nat} (hread : ∀ ls : List Lexeme, ls.length < n →
    ReadsValue levels stop ls) {ls : List Lexeme} (hlen : ls.length ≤ n) {tree : SpelledTree}
    {seen : List Lexeme} {name : Text} {done : List (Text × SpelledTree)}
    (hseen : Spells (levels - (stack.length + 1)) seen (.value tree))
    (h : readAfter levels stop tree (.object start done name :: stack) ls = .ok result) :
    ∃ list used left, ls = used ++ left ∧
      Spells (levels - (stack.length + 1)) (seen ++ used) (.members ((name, tree) :: list)) ∧
      readAfter levels stop (.object start (done.reverse ++ (name, tree) :: list)) stack left =
        .ok result := by
  -- as for elements, but a round gets over a comma, a name and a colon
  induction hn : ls.length using Nat.strongRecOn generalizing ls tree seen name done with
  | _ k ih =>
      subst hn
      cases ls with
      | nil => simp [readAfter] at h
      | cons l more =>
          rcases l with ⟨offset, token⟩
          cases token with
          | comma =>
              unfold readAfter at h
              split at h
              · next nameAt next colonAt more =>
                have hmore : more.length < n := by
                  simp only [List.length_cons] at hlen
                  omega
                rcases hread more hmore _ _ h with ⟨value, used, left, rfl, hvalue, hafter⟩
                rw [List.length_append] at hmore
                have hshorter : left.length < (used ++ left).length + 3 := by
                  rw [List.length_append]
                  omega
                have hle : left.length ≤ n := by omega
                rcases ih left.length hshorter hle hvalue hafter rfl with
                  ⟨list, used', left', rfl, hmembers, hrest⟩
                refine ⟨(next, value) :: list, ⟨offset, .comma⟩ ::
                  ⟨nameAt, .literal (.string next)⟩ :: ⟨colonAt, .colon⟩ :: (used ++ used'), left',
                  by simp, ?_, ?_⟩
                · exact .nextMember hseen hmembers
                · simpa using hrest
              · cases h
          | closeObject =>
              rw [readAfter] at h
              exact ⟨[], [⟨offset, .closeObject⟩], more, rfl, .lastMember hseen, by simpa using h⟩
          | _ => simp [readAfter] at h

end

/-- Where another container may be opened, there is room for one level more. -/
theorem exists_room {levels : Nat} {stack : List Frame} (h : ¬ stack.length ≥ levels) :
    ∃ room, levels - stack.length = room + 1 ∧ levels - (stack.length + 1) = room :=
  ⟨levels - stack.length - 1, by omega, by omega⟩

/-- Whatever containers are open, reading gets over a value or fails. -/
theorem readsValue (levels stop : Nat) (ls : List Lexeme) : ReadsValue levels stop ls := by
  -- the lexemes are used up one by one, so those behind the first one are read by induction
  induction hn : ls.length using Nat.strongRecOn generalizing ls with
  | _ n ih =>
      subst hn
      have hread : ∀ more : List Lexeme, more.length < ls.length → ReadsValue levels stop more := by
        intro more hlt
        exact ih more.length hlt more rfl
      intro stack result h
      unfold readValue at h
      split at h
      · next offset value more =>
        exact ⟨.leaf offset value, [⟨offset, .literal value⟩], more, rfl, .leaf, h⟩
      · next offset more =>
        split at h
        · cases h
        · next hopen =>
          rcases exists_room hopen with ⟨room, hroom, hinner⟩
          rw [hroom]
          split at h
          · next last more =>
            exact ⟨.array offset [], [⟨offset, .openArray⟩, ⟨last, .closeArray⟩], more, rfl,
              .emptyArray, h⟩
          · have hmore : more.length < more.length + 1 := Nat.lt_succ_self _
            rcases hread more hmore _ _ h with ⟨tree, used, left, rfl, htree, hafter⟩
            have hle : left.length ≤ (used ++ left).length + 1 := by
              rw [List.length_append]
              omega
            rcases exists_items_of_readAfter hread hle htree hafter with
              ⟨trees, used', left', rfl, hitems, hrest⟩
            rw [hinner] at hitems
            exact ⟨.array offset (tree :: trees), ⟨offset, .openArray⟩ :: (used ++ used'), left',
              by simp, .array hitems, by simpa using hrest⟩
      · next offset more =>
        split at h
        · cases h
        · next hopen =>
          rcases exists_room hopen with ⟨room, hroom, hinner⟩
          rw [hroom]
          split at h
          · next last more =>
            exact ⟨.object offset [], [⟨offset, .openObject⟩, ⟨last, .closeObject⟩], more, rfl,
              .emptyObject, h⟩
          · next nameAt name colonAt more =>
            have hmore : more.length < more.length + 3 := by omega
            rcases hread more hmore _ _ h with ⟨tree, used, left, rfl, htree, hafter⟩
            have hle : left.length ≤ (used ++ left).length + 3 := by
              rw [List.length_append]
              omega
            rcases exists_members_of_readAfter hread hle htree hafter with
              ⟨list, used', left', rfl, hmembers, hrest⟩
            rw [hinner] at hmembers
            exact ⟨.object offset ((name, tree) :: list),
              ⟨offset, .openObject⟩ :: ⟨nameAt, .literal (.string name)⟩ :: ⟨colonAt, .colon⟩ ::
                (used ++ used'), left', by simp, .object hmembers, by simpa using hrest⟩
          · cases h
      · cases h

/-- A value is read, with some lexemes left, if and only if the lexemes before those spell it. -/
theorem readValue_eq_ok_iff {levels stop : Nat} {ls left : List Lexeme} {tree : SpelledTree} :
    readValue levels stop [] ls = .ok (tree, left) ↔
      ∃ used, ls = used ++ left ∧ Spells levels used (.value tree) := by
  constructor
  · intro h
    rcases readsValue levels stop ls [] _ h with ⟨value, used, more, rfl, hspells, hafter⟩
    rw [readAfter, Except.ok.injEq, Prod.mk.injEq] at hafter
    rcases hafter with ⟨rfl, rfl⟩
    exact ⟨used, rfl, hspells⟩
  · rintro ⟨used, rfl, hspells⟩
    have hroom : 0 + levels ≤ levels := Nat.le_of_eq (Nat.zero_add _)
    have hread := hspells.isRead levels stop left [] hroom
    rw [hread, readAfter]

end ComponentMarkup
