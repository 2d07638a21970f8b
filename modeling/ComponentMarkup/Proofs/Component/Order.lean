import ComponentMarkup.Proofs.Component.Judging
import ComponentMarkup.Proofs.Number.Double

/-!
# The first broken rule

The rules of the schema have an order: those for the members of a component come first, then those
for its properties, one after another. Each violation is numbered by the check that looks for it
(`Breaks`), and what a check reports is the violation with the least number
(`checkComponent_judges`).
-/

namespace ComponentMarkup

/-! ## Rules in order -/

/-- The types that an author can choose, by their words. -/
inductive IsChoice : Text → PropertyType → Prop where
  | string : IsChoice (Text.ofString "string") .string
  | number : IsChoice (Text.ofString "number") .float
  | vector3 : IsChoice (Text.ofString "vector3") .vector3

/-- A number that is not out of range. -/
inductive IsInRange : LocatedTree → Prop where
  | float {place d} : IsInRange (.leaf place (.float d))
  | integer {place n} (h : n.natAbs < Double.outOfRange) : IsInRange (.leaf place (.integer n))

/-- A default that does not fit its type, with the node to blame: of three elements, the first that
is no number, or all of them, if one is out of range. -/
inductive BreaksDefault : PropertyType → LocatedTree → SchemaRule → LocatedTree → Prop where
  | string {token} (h : ¬ IsString token) : BreaksDefault .string token .defaultString token
  | number {token} (h : ¬ IsInRange token) : BreaksDefault .float token .defaultNumber token
  | notThree {token} (h : ∀ place x y z, token ≠ .array place [x, y, z]) :
      BreaksDefault .vector3 token .defaultVector3 token
  | element {place items before t after} (hitems : items = before ++ t :: after)
      (hlen : items.length = 3) (hbefore : ∀ u ∈ before, isNumber u = true)
      (ht : isNumber t = false) :
      BreaksDefault .vector3 (.array place items) .defaultVector3 t
  | outOfRange {place x y z t} (hnumbers : ∀ u ∈ [x, y, z], isNumber u = true)
      (ht : t ∈ [x, y, z]) (h : ¬ IsInRange t) :
      BreaksDefault .vector3 (.array place [x, y, z]) .defaultVector3 (.array place [x, y, z])

/-- What breaks a rule for an element of the properties, by the number of the check. -/
inductive BreaksProperty (item : LocatedTree) : Nat → SchemaRule → LocatedTree → Prop where
  | notObject (h : item.isObject = false) : BreaksProperty item 0 .propertyObject item
  | name {rule node}
      (h : BlamesString item nameKey .propertyNamePresent .propertyNameString rule node) :
      BreaksProperty item 1 rule node
  | type {rule node}
      (h : BlamesString item typeKey .propertyTypePresent .propertyTypeString rule node) :
      BreaksProperty item 2 rule node
  | noOption {place word} (h : item.find? typeKey = some (.leaf place (.string word)))
      (hword : ∀ type, ¬ IsChoice word type) :
      BreaksProperty item 2 .propertyTypeOption (.leaf place (.string word))
  | default {place word type token rule node}
      (h : item.find? typeKey = some (.leaf place (.string word))) (htype : IsChoice word type)
      (hdefault : item.find? defaultKey = some token)
      (hnode : BreaksDefault type token rule node) : BreaksProperty item 3 rule node

/-- What breaks a rule for a component, by the number of the check: each element of the properties
takes four checks. -/
inductive Breaks (data : LocatedTree) : Nat → SchemaRule → LocatedTree → Prop where
  | className {rule node}
      (h : BlamesString data classKey .classPresent .classString rule node) :
      Breaks data 0 rule node
  | componentName {token} (h : data.find? componentKey = some token) (hs : ¬ IsString token) :
      Breaks data 1 .componentString token
  | importFile {rule node}
      (h : BlamesString data importFileKey .importFilePresent .importFileString rule node) :
      Breaks data 2 rule node
  | properties {token} (h : data.find? propertiesKey = some token)
      (harray : token.isArray = false) : Breaks data 3 .propertiesArray token
  | property {place items i item step rule node}
      (h : data.find? propertiesKey = some (.array place items)) (hitem : items[i]? = some item)
      (hnode : BreaksProperty item step rule node) : Breaks data (4 * i + step + 4) rule node

/-! ## What each check reports -/

theorem checkString_eq_error_iff {rule : SchemaRule} {token : LocatedTree} {v : Violation} :
    checkString rule token = .error v ↔ ¬ IsString token ∧ v = ⟨rule, token.mark⟩ := by
  unfold checkString
  split
  · next place t =>
    have hstring : IsString (.leaf place (.string t)) := ⟨place, t, rfl⟩
    simp [hstring]
  · next hne =>
    have hno : ¬ IsString token := by
      rintro ⟨place, t, rfl⟩
      exact hne place t rfl
    simp [hno, eq_comm]

theorem requireString_eq_error_iff {data : LocatedTree} {key : Text}
    {present isString : SchemaRule} {v : Violation} :
    requireString data key present isString = .error v ↔
      v.Reports (BlamesString data key present isString) := by
  unfold requireString
  cases hfind : data.find? key with
  -- no member of that name: the only blame is that it is missing
  | none =>
      apply error_eq_error_iff ⟨data, .missing hfind, rfl⟩
      intro rule node hbad
      rcases (blamesString_iff_of_absent hfind).1 hbad with ⟨rfl, rfl⟩
      rfl
  | some token =>
      -- the member is there, so only its being a string is left to judge
      dsimp only
      rw [checkString_eq_error_iff, Violation.reports_iff]
      simp only [blamesString_iff_of_present hfind]
      constructor
      · rintro ⟨hs, rfl⟩
        exact ⟨isString, token, ⟨hs, rfl, rfl⟩, rfl⟩
      · rintro ⟨rule, node, ⟨hs, rfl, rfl⟩, rfl⟩
        exact ⟨hs, rfl⟩

theorem ofAuthorName?_eq_some_iff {word : Text} {type : PropertyType} :
    PropertyType.ofAuthorName? word = some type ↔ IsChoice word type := by
  constructor
  · intro h
    rcases Option.map_eq_some_iff.1 h with ⟨n, hn, rfl⟩
    have hword : Text.ofString n.1 = word := by simpa using List.find?_some hn
    have hmem := List.mem_of_find?_eq_some hn
    simp only [PropertyType.authorNames, List.mem_cons, List.not_mem_nil, or_false] at hmem
    rcases hmem with rfl | rfl | rfl
    · exact hword ▸ .string
    · exact hword ▸ .number
    · exact hword ▸ .vector3
  · intro h
    cases h <;> decide

/-- The numbers in range are those that are converted to doubles. -/
theorem isSome_double?_iff {token : LocatedTree} :
    (double? token).isSome = true ↔ IsInRange token := by
  constructor
  · intro h
    unfold double? at h
    split at h
    · exact .integer ((Double.isSome_ofInt?_iff _).1 h)
    · exact .float
    · cases h
  · intro h
    -- floats are always in range; for integers the range is the one of `Double.ofInt?`
    cases h with
    | float => rfl
    | @integer place n h =>
        rw [double?, Double.isSome_ofInt?_iff]
        exact h

theorem double?_eq_none_iff {token : LocatedTree} : double? token = none ↔ ¬ IsInRange token := by
  rw [← isSome_double?_iff, Option.not_isSome_iff_eq_none]

/-- The type that an author chooses for a property. -/
def chosenType (item : LocatedTree) : Except Violation PropertyType :=
  match item.find? typeKey with
  | some token => checkType token
  | none => .error ⟨.propertyTypePresent, item.mark⟩

theorem checkType_of_string (place : Place) (word : Text) :
    checkType (.leaf place (.string word)) =
      match PropertyType.ofAuthorName? word with
      | some type => .ok type
      | none => .error ⟨.propertyTypeOption, place⟩ := rfl

theorem checkType_of_not_string {token : LocatedTree} (hs : ¬ IsString token) :
    checkType token = .error ⟨.propertyTypeString, token.mark⟩ := by
  have hcheck : checkString .propertyTypeString token = .error ⟨.propertyTypeString, token.mark⟩ :=
    checkString_eq_error_iff.2 ⟨hs, rfl⟩
  rw [checkType, hcheck]
  rfl

/-- What is wrong with the type of a property: it is no string, or a word that is no type. -/
theorem breaksProperty_type_iff {item node : LocatedTree} {rule : SchemaRule} :
    BreaksProperty item 2 rule node ↔
      BlamesString item typeKey .propertyTypePresent .propertyTypeString rule node ∨
        ∃ place word, item.find? typeKey = some (.leaf place (.string word)) ∧
          (∀ type, ¬ IsChoice word type) ∧ rule = .propertyTypeOption ∧
          node = .leaf place (.string word) := by
  constructor
  · intro hbad
    cases hbad with
    | type h => exact .inl h
    | noOption h hword => exact .inr ⟨_, _, h, hword, rfl, rfl⟩
  · rintro (h | ⟨place, word, h, hword, rfl, rfl⟩)
    · exact .type h
    · exact .noOption h hword

theorem chosenType_eq_error_iff {item : LocatedTree} {v : Violation} :
    chosenType item = .error v ↔ v.Reports (BreaksProperty item 2) := by
  rw [Violation.reports_congr fun rule node => breaksProperty_type_iff]
  unfold chosenType
  cases hfind : item.find? typeKey with
  -- four situations, each blamed once: no member, no string, an unknown word, a choice of the table
  | none =>
      apply error_eq_error_iff ⟨item, .inl (.missing hfind), rfl⟩
      rintro rule node (h | ⟨_, _, htoken, -⟩)
      · rcases (blamesString_iff_of_absent hfind).1 h with ⟨rfl, rfl⟩
        rfl
      · cases htoken
  | some token =>
      dsimp only
      by_cases hs : IsString token
      · rcases hs with ⟨place, word, rfl⟩
        rw [checkType_of_string]
        cases hchoice : PropertyType.ofAuthorName? word with
        -- a string that is no choice: the blame lies on the word
        | none =>
            have hword : ∀ type, ¬ IsChoice word type := fun type h =>
              nomatch hchoice.symm.trans (ofAuthorName?_eq_some_iff.2 h)
            apply error_eq_error_iff ⟨_, .inr ⟨place, word, rfl, hword, rfl, rfl⟩, rfl⟩
            rintro rule node (h | ⟨_, _, htoken, -, rfl, rfl⟩)
            · exact absurd ⟨place, word, rfl⟩ ((blamesString_iff_of_present hfind).1 h).1
            · cases htoken
              rfl
        | some type =>
            apply ok_eq_error_iff
            rintro rule node (h | ⟨_, _, htoken, hword, -⟩)
            · exact ((blamesString_iff_of_present hfind).1 h).1 ⟨place, word, rfl⟩
            · cases htoken
              exact hword type (ofAuthorName?_eq_some_iff.1 hchoice)
      · -- present but no string: the word cannot be judged, and the blame is the missing string
        rw [checkType_of_not_string hs]
        apply error_eq_error_iff ⟨token, .inl (.noString hfind hs), rfl⟩
        rintro rule node (h | ⟨place, word, htoken, -⟩)
        · rcases (blamesString_iff_of_present hfind).1 h with ⟨-, rfl, rfl⟩
          rfl
        · exact absurd ⟨place, word, Option.some.inj htoken⟩ hs

/-- If not all of three elements are numbers, the first that is none is to blame. -/
theorem breaksDefault_iff_of_find? {place : Place} {x y z t node : LocatedTree} {rule : SchemaRule}
    (ht : [x, y, z].find? (fun t => !isNumber t) = some t) :
    BreaksDefault .vector3 (.array place [x, y, z]) rule node ↔
      rule = .defaultVector3 ∧ node = t := by
  constructor
  · -- the rules are ordered: all three must be numbers before a range is looked at
    intro hbad
    cases hbad with
    | notThree h => exact absurd rfl (h place x y z)
    -- the blamed element is the first that is no number, which `find?` returns
    | element hitems _ hbefore hnode =>
        have hfirst : [x, y, z].find? (fun t => !isNumber t) = some node :=
          List.find?_eq_some_iff_append.2
            ⟨by simpa using hnode, _, _, hitems, by simpa using hbefore⟩
        exact ⟨rfl, Option.some.inj (hfirst.symm.trans ht)⟩
    | outOfRange hnumbers =>
        have hno := List.find?_some ht
        have hnumber := hnumbers t (List.mem_of_find?_eq_some ht)
        simp [hnumber] at hno
  · rintro ⟨rfl, rfl⟩
    -- the elements before the found one are numbers, so it is the first violation
    rcases List.find?_eq_some_iff_append.1 ht with ⟨hno, before, after, hitems, hbefore⟩
    exact .element hitems rfl (by simpa using hbefore) (by simpa using hno)

/-- Three numbers are to blame together, and only if one of them is out of range. -/
theorem breaksDefault_iff_of_numbers {place : Place} {x y z node : LocatedTree} {rule : SchemaRule}
    (hnumbers : ∀ u ∈ [x, y, z], isNumber u = true) :
    BreaksDefault .vector3 (.array place [x, y, z]) rule node ↔
      (∃ t ∈ [x, y, z], double? t = none) ∧ rule = .defaultVector3 ∧
        node = .array place [x, y, z] := by
  constructor
  · intro hbad
    -- with three numbers only the range can be violated, and the whole array is blamed for it
    cases hbad with
    | notThree h => exact absurd rfl (h place x y z)
    | element hitems _ _ ht =>
        have hnumber := hnumbers node (by rw [hitems]; simp)
        cases ht.symm.trans hnumber
    | outOfRange _ ht h => exact ⟨⟨_, ht, double?_eq_none_iff.2 h⟩, rfl, rfl⟩
  · rintro ⟨⟨t, ht, h⟩, rfl, rfl⟩
    exact .outOfRange hnumbers ht (double?_eq_none_iff.1 h)

theorem coerceVector3_eq_error_iff {token : LocatedTree} {v : Violation} :
    coerceVector3 token = .error v ↔ v.Reports (BreaksDefault .vector3 token) := by
  unfold coerceVector3
  split
  · next place x y z =>
    split
    · next t ht =>
      apply error_eq_error_iff ⟨t, (breaksDefault_iff_of_find? ht).2 ⟨rfl, rfl⟩, rfl⟩
      intro rule node hbad
      rcases (breaksDefault_iff_of_find? ht).1 hbad with ⟨rfl, rfl⟩
      rfl
    · next hnone =>
      have hnumbers : ∀ u ∈ [x, y, z], isNumber u = true := by simpa using hnone
      split
      · next hx hy hz =>
        apply ok_eq_error_iff
        intro rule node hbad
        rcases (breaksDefault_iff_of_numbers hnumbers).1 hbad with ⟨⟨t, ht, hdouble⟩, -⟩
        simp only [List.mem_cons, List.not_mem_nil, or_false] at ht
        rcases ht with rfl | rfl | rfl
        · cases hdouble.symm.trans hx
        · cases hdouble.symm.trans hy
        · cases hdouble.symm.trans hz
      · next hout =>
        -- one of the three numbers is past the greatest double
        have hsome : ∃ t ∈ [x, y, z], double? t = none := by
          cases hx : double? x with
          | none => exact ⟨x, by simp, hx⟩
          | some a =>
              cases hy : double? y with
              | none => exact ⟨y, by simp, hy⟩
              | some b =>
                  cases hz : double? z with
                  | none => exact ⟨z, by simp, hz⟩
                  | some c => exact absurd hz (hout a b c hx hy)
        apply error_eq_error_iff
          ⟨_, (breaksDefault_iff_of_numbers hnumbers).2 ⟨hsome, rfl, rfl⟩, rfl⟩
        intro rule node hbad
        rcases (breaksDefault_iff_of_numbers hnumbers).1 hbad with ⟨-, rfl, rfl⟩
        rfl
  · next hne =>
    apply error_eq_error_iff ⟨token, .notThree hne, rfl⟩
    intro rule node hbad
    cases hbad with
    | notThree => rfl
    | @element place items _ _ _ _ hlen =>
        match items, hlen with
        | [x, y, z], _ => exact absurd rfl (hne place x y z)
    | @outOfRange place x y z => exact absurd rfl (hne place x y z)

theorem coerce_eq_error_iff {word : Text} {type : PropertyType} {token : LocatedTree}
    {v : Violation} (htype : IsChoice word type) :
    type.coerce token = .error v ↔ v.Reports (BreaksDefault type token) := by
  -- one case for each choice of the table; the two scalar types judge alike, the vector has its own
  -- lemma
  cases htype with
  | string =>
      by_cases hs : IsString token
      · rcases hs with ⟨place, t, rfl⟩
        apply ok_eq_error_iff
        intro rule node hbad
        cases hbad with
        | string h => exact h ⟨place, t, rfl⟩
      · have hcoerce : PropertyType.string.coerce token = .error ⟨.defaultString, token.mark⟩ := by
          unfold PropertyType.coerce
          dsimp only
          split
          · next place t => exact absurd ⟨place, t, rfl⟩ hs
          · rfl
        rw [hcoerce]
        apply error_eq_error_iff ⟨token, .string hs, rfl⟩
        intro rule node hbad
        cases hbad with
        | string => rfl
  | number =>
      cases hdouble : double? token with
      | some d =>
          have hcoerce : PropertyType.float.coerce token = .ok (.float d) := by
            simp only [PropertyType.coerce, hdouble]
          rw [hcoerce]
          apply ok_eq_error_iff
          intro rule node hbad
          cases hbad with
          | number h => exact h (isSome_double?_iff.1 (by rw [hdouble]; rfl))
      | none =>
          have hcoerce : PropertyType.float.coerce token = .error ⟨.defaultNumber, token.mark⟩ := by
            simp only [PropertyType.coerce, hdouble]
          rw [hcoerce]
          apply error_eq_error_iff ⟨token, .number (double?_eq_none_iff.1 hdouble), rfl⟩
          intro rule node hbad
          cases hbad with
          | number => rfl
  | vector3 => exact coerceVector3_eq_error_iff

/-! ## Properties -/

theorem chosenType_eq_ok_iff {item : LocatedTree} {type : PropertyType} :
    chosenType item = .ok type ↔
      ∃ place word, item.find? typeKey = some (.leaf place (.string word)) ∧
        IsChoice word type := by
  unfold chosenType
  cases hfind : item.find? typeKey with
  | none => simp
  | some token =>
      dsimp only
      -- a word fits exactly one choice of the table, so the check and the relation agree on strings
      by_cases hs : IsString token
      · rcases hs with ⟨place, word, rfl⟩
        have hword : checkType (.leaf place (.string word)) = .ok type ↔ IsChoice word type := by
          rw [← ofAuthorName?_eq_some_iff, checkType_of_string]
          cases PropertyType.ofAuthorName? word <;> simp
        rw [hword]
        constructor
        · exact fun h => ⟨place, word, rfl, h⟩
        · rintro ⟨place', word', heq, h⟩
          cases heq
          exact h
      · -- no string is no choice
        rw [checkType_of_not_string hs]
        refine iff_of_false (fun h => nomatch h) ?_
        rintro ⟨place, word, heq, -⟩
        obtain rfl := Option.some.inj heq
        exact hs ⟨place, word, rfl⟩

/-- The default of a property whose type is chosen. -/
theorem resolveDefault_eq_error_iff {item : LocatedTree} {type : PropertyType} {v : Violation}
    (htype : chosenType item = .ok type) :
    type.resolveDefault (item.find? defaultKey) = .error v ↔
      v.Reports (BreaksProperty item 3) := by
  rcases chosenType_eq_ok_iff.1 htype with ⟨place, word, hword, hchoice⟩
  cases hfind : item.find? defaultKey with
  | none =>
      apply ok_eq_error_iff
      intro rule node hbad
      cases hbad with
      | default _ _ htoken =>
          cases hfind.symm.trans htoken
  | some token =>
      refine (coerce_eq_error_iff hchoice).trans ?_
      constructor
      · exact fun h => h.imp fun rule node hnode => .default hword hchoice hfind hnode
      · intro h
        apply h.imp
        intro rule node hbad
        cases hbad with
        | default hword' hchoice' htoken hnode =>
            -- the type and the default are those of the property
            have htype' := chosenType_eq_ok_iff.2 ⟨_, _, hword', hchoice'⟩
            rw [htype, Except.ok.injEq] at htype'
            rw [hfind, Option.some.injEq] at htoken
            subst htype' htoken
            exact hnode

/-- An element of the properties has to be an object. -/
def requireObject (item : LocatedTree) : Except Violation Unit :=
  if item.isObject then .ok () else .error ⟨.propertyObject, item.mark⟩

theorem requireObject_eq_error_iff {item : LocatedTree} {v : Violation} :
    requireObject item = .error v ↔ v.Reports (BreaksProperty item 0) := by
  unfold requireObject
  split
  · -- an object passes and breaks nothing at this stage
    next hobject =>
    apply ok_eq_error_iff
    intro rule node hbad
    cases hbad with
    | notObject h =>
        rw [h] at hobject
        cases hobject
  · next hobject =>
    apply error_eq_error_iff ⟨item, .notObject (by simpa using hobject), rfl⟩
    intro rule node hbad
    cases hbad with
    | notObject => rfl

theorem checkProperty_eq (item : LocatedTree) :
    checkProperty item =
      requireObject item >>= fun _ =>
        requireString item nameKey .propertyNamePresent .propertyNameString >>= fun name =>
          chosenType item >>= fun type =>
            type.resolveDefault (item.find? defaultKey) >>= fun value =>
              pure ⟨name, type, value⟩ := by
  unfold checkProperty requireObject chosenType
  split
  · cases item.find? typeKey <;> rfl
  · rfl

theorem BreaksProperty.lt {item node : LocatedTree} {step : Nat} {rule : SchemaRule}
    (h : BreaksProperty item step rule node) : step < 4 := by
  cases h <;> decide

/-- The check of a property reports the first rule that it breaks. -/
theorem checkProperty_judges (item : LocatedTree) :
    JudgesFrom 0 (BreaksProperty item) (checkProperty item) := by
  -- stage 1 of the schema is the rule on the name, so the lemma on required strings applies to it
  have hname : ∀ rule node, BreaksProperty item 1 rule node ↔
      BlamesString item nameKey .propertyNamePresent .propertyNameString rule node := by
    intro rule node
    constructor
    · intro hbad
      cases hbad with
      | name h => exact h
    · exact .name
  -- the four stages in the order of the schema
  rw [checkProperty_eq]
  refine .step (fun v => requireObject_eq_error_iff) fun _ _ => ?_
  refine .step (fun v => ?_) fun name _ => ?_
  · rw [requireString_eq_error_iff, Violation.reports_congr hname]
  refine .step (fun v => chosenType_eq_error_iff) fun type htype => ?_
  refine .step (fun v => resolveDefault_eq_error_iff htype) fun value _ => ?_
  exact .ok fun n rule node hbad => hbad.lt

/-- What breaks a rule for one of some elements. -/
def BreaksItem (items : List LocatedTree) (n : Nat) (rule : SchemaRule) (node : LocatedTree) :
    Prop :=
  ∃ i item step, items[i]? = some item ∧ BreaksProperty item step rule node ∧ n = 4 * i + step

/-- The first four checks are those of the first element. -/
theorem breaksItem_cons_lt {item node : LocatedTree} {items : List LocatedTree} {n : Nat}
    {rule : SchemaRule} (hn : n < 4) :
    BreaksItem (item :: items) n rule node ↔ BreaksProperty item n rule node := by
  constructor
  · rintro ⟨i, item', step, hitem, hbad, rfl⟩
    obtain rfl : i = 0 := by omega
    obtain rfl := Option.some.inj hitem
    simpa using hbad
  · exact fun h => ⟨0, item, n, rfl, h, by omega⟩

theorem breaksItem_cons_add {item node : LocatedTree} {items : List LocatedTree} {n : Nat}
    {rule : SchemaRule} :
    BreaksItem (item :: items) (n + 4) rule node ↔ BreaksItem items n rule node := by
  constructor
  · rintro ⟨i, item', step, hitem, hbad, heq⟩
    -- the checks of the first element have numbers below four, so this is another element
    have hlt := hbad.lt
    rcases Nat.exists_eq_succ_of_ne_zero (by omega : i ≠ 0) with ⟨j, rfl⟩
    exact ⟨j, item', step, hitem, hbad, by omega⟩
  · rintro ⟨i, item', step, hitem, hbad, rfl⟩
    exact ⟨i + 1, item', step, hitem, hbad, by omega⟩

/-- The check of all elements reports the first rule that one of them breaks. -/
theorem mapM_checkProperty_judges (items : List LocatedTree) :
    JudgesFrom 0 (BreaksItem items) (items.mapM checkProperty) := by
  induction items with
  | nil =>
      rintro n rule node - ⟨i, item, step, hitem, -⟩
      cases hitem
  | cons item items ih =>
      rw [List.mapM_cons]
      -- four checks are for this element, and those for the others are four numbers behind
      refine .bind (Nat.zero_le 4) ?_ fun p _ => ?_
      · apply (checkProperty_judges item).congr
        intro n rule node
        constructor
        · rintro ⟨hlt, hbad⟩
          exact (breaksItem_cons_lt hlt).1 hbad
        · intro hbad
          exact ⟨hbad.lt, (breaksItem_cons_lt hbad.lt).2 hbad⟩
      · exact .map _ (ih.shift 4 fun n rule node => breaksItem_cons_add)

/-! ## Components -/

/-- The name of a component: its class, if no other is given. -/
def nameOrClass (data : LocatedTree) (className : Text) : Except Violation Text :=
  match data.find? componentKey with
  | some token => checkString .componentString token
  | none => .ok className

theorem nameOrClass_eq_error_iff {data : LocatedTree} {className : Text} {v : Violation} :
    nameOrClass data className = .error v ↔ v.Reports (Breaks data 1) := by
  unfold nameOrClass
  cases hfind : data.find? componentKey with
  -- without a component name the class name stands in, and no rule speaks of it
  | none =>
      apply ok_eq_error_iff
      intro rule node hbad
      cases hbad with
      | componentName htoken =>
          cases hfind.symm.trans htoken
  -- a component name that is given must be a string
  | some token =>
      dsimp only
      rw [checkString_eq_error_iff, Violation.reports_iff]
      constructor
      · rintro ⟨hs, rfl⟩
        exact ⟨_, token, .componentName hfind hs, rfl⟩
      · rintro ⟨rule, node, hbad, rfl⟩
        cases hbad with
        | componentName htoken hs =>
            obtain rfl := Option.some.inj (hfind.symm.trans htoken)
            exact ⟨hs, rfl⟩

theorem checkComponent_eq (data : LocatedTree) :
    checkComponent data =
      requireString data classKey .classPresent .classString >>= fun className =>
        nameOrClass data className >>= fun componentName =>
          requireString data importFileKey .importFilePresent .importFileString >>=
            fun importPath =>
              checkProperties (data.find? propertiesKey) >>= fun properties =>
                pure ⟨className, componentName, importPath, properties⟩ := by
  unfold checkComponent nameOrClass
  cases data.find? componentKey <;> rfl

/-- Behind the checks of the members there are those of the properties, if they are an array. -/
theorem breaks_add_iff {data : LocatedTree} {place : Place} {items : List LocatedTree}
    (h : data.find? propertiesKey = some (.array place items)) {n : Nat} {rule : SchemaRule}
    {node : LocatedTree} : Breaks data (n + 4) rule node ↔ BreaksItem items n rule node := by
  constructor
  · intro hbad
    cases hbad with
    | property h' hitem hnode =>
        rw [h] at h'
        cases h'
        exact ⟨_, _, _, hitem, hnode, rfl⟩
  · rintro ⟨i, item, step, hitem, hbad, rfl⟩
    exact .property h hitem hbad

/-- The check of the properties reports the first rule that they break. -/
theorem checkProperties_judges (data : LocatedTree) :
    JudgesFrom 3 (Breaks data) (checkProperties (data.find? propertiesKey)) := by
  cases hfind : data.find? propertiesKey with
  | none =>
      apply JudgesFrom.ok
      intro n rule node hbad
      cases hbad with
      | className | componentName | importFile => decide
      | properties h | property h =>
          cases hfind.symm.trans h
  | some token =>
      cases harray : token.isArray with
      | false =>
          have hcheck : checkProperties (some token) = .error ⟨.propertiesArray, token.mark⟩ := by
            cases token with
            | array => cases harray
            | leaf | object => rfl
          rw [hcheck]
          refine ⟨3, Nat.le_refl 3, fun w => ?_, fun _ _ _ hle _ => hle⟩
          constructor
          · intro hw
            rcases Violation.reports_iff.1 hw with ⟨rule, node, hbad, rfl⟩
            cases hbad with
            | properties h =>
                obtain rfl := Option.some.inj (hfind.symm.trans h)
                rfl
          · rintro rfl
            exact ⟨token, .properties hfind harray, rfl⟩
      | true =>
          cases token with
          | leaf | object => cases harray
          | array place items =>
              have hitems := (mapM_checkProperty_judges items).shift 4
                fun n rule node => breaks_add_iff hfind
              -- an array breaks no rule itself
              refine .step (x := .ok ()) (fun v => ok_eq_error_iff ?_) fun _ _ => hitems
              intro rule node hbad
              cases hbad with
              | properties h harray =>
                  obtain rfl := Option.some.inj (hfind.symm.trans h)
                  cases harray

/-- The check of a component reports the first rule that it breaks. -/
theorem checkComponent_judges (data : LocatedTree) :
    JudgesFrom 0 (Breaks data) (checkComponent data) := by
  -- stages 0 and 2 are rules on required strings
  have hclass : ∀ rule node, Breaks data 0 rule node ↔
      BlamesString data classKey .classPresent .classString rule node := by
    intro rule node
    constructor
    · intro hbad
      cases hbad with
      | className h => exact h
    · exact .className
  have hfile : ∀ rule node, Breaks data 2 rule node ↔
      BlamesString data importFileKey .importFilePresent .importFileString rule node := by
    intro rule node
    constructor
    · intro hbad
      cases hbad with
      | importFile h => exact h
    · exact .importFile
  -- the stages in the order of the schema; the properties come last and carry stages of their own
  rw [checkComponent_eq]
  refine .step (fun v => ?_) fun className _ => ?_
  · rw [requireString_eq_error_iff, Violation.reports_congr hclass]
  refine .step (fun v => nameOrClass_eq_error_iff) fun componentName _ => ?_
  refine .step (fun v => ?_) fun importPath _ => ?_
  · rw [requireString_eq_error_iff, Violation.reports_congr hfile]
  exact .map _ (checkProperties_judges data)

/-! ## Blame without order -/

theorem BreaksDefault.blames {type : PropertyType} {token node : LocatedTree} {rule : SchemaRule}
    (h : BreaksDefault type token rule node) : BlamesDefault type token rule node := by
  cases h with
  | string h => exact .string h
  | number h => exact .number (double?_eq_none_iff.2 h)
  | notThree h => exact .notThree h
  | @element place items before _ after hitems hlen _ ht =>
      match items, hlen with
      | [x, y, z], _ => exact .element (by rw [hitems]; simp) ht
  | outOfRange hnumbers ht h => exact .outOfRange ht (double?_eq_none_iff.2 h) hnumbers

theorem BreaksProperty.blames {item node : LocatedTree} {step : Nat} {rule : SchemaRule}
    (h : BreaksProperty item step rule node) : BlamesProperty item rule node := by
  cases h with
  | notObject h => exact .notObject h
  | name h => exact .name h
  | type h => exact .type h
  | noOption h hword =>
      refine .noOption h (Option.eq_none_iff_forall_ne_some.2 fun type htype => ?_)
      exact hword type (ofAuthorName?_eq_some_iff.1 htype)
  | default h htype hdefault hnode =>
      exact .default h (ofAuthorName?_eq_some_iff.2 htype) hdefault hnode.blames

theorem Breaks.blames {data node : LocatedTree} {n : Nat} {rule : SchemaRule}
    (h : Breaks data n rule node) : Blames data rule node := by
  cases h with
  | className h => exact .className h
  | componentName h hs => exact .componentName h hs
  | importFile h => exact .importFile h
  | properties h harray => exact .properties h harray
  | property h hitem hnode => exact .property h (List.mem_of_getElem? hitem) hnode.blames

/-- A tree that is no component has a node to blame, and its place is reported. -/
theorem reports_of_checkComponent {data : LocatedTree} {v : Violation}
    (h : checkComponent data = .error v) : v.Reports (Blames data) := by
  rcases (checkComponent_judges data).eq_error_iff.1 h with ⟨n, rule, node, hbad, -, rfl⟩
  exact ⟨node, hbad.blames, rfl⟩

end ComponentMarkup
