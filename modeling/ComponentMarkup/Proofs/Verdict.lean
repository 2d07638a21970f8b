import ComponentMarkup.Proofs.ImportPath
import ComponentMarkup.Proofs.Locations
import ComponentMarkup.Proofs.Marker

/-!
# Verdicts

Each occurrence of a marker comes to one of four ends (`Source.verdict`), whatever becomes of the
others. The report of a source puts together what its occurrences come to (`Source.report_eq`),
unless one of them lacks an import path and none can be made: then it says only this, and defines
nothing (`Source.report_of_importFault`).
-/

namespace ComponentMarkup

/-- What an occurrence of the marker comes to. -/
inductive Verdict where
  /-- There is no JSON object behind the marker. -/
  | invalid
  /-- The object lacks an import path, and none can be made. -/
  | noImportPath (fault : ImportFault)
  /-- The object breaks a rule of the schema. -/
  | breaksRule (violation : Violation)
  /-- The object defines a component. -/
  | defines (definition : Definition)

namespace Verdict

def isInvalid : Verdict → Bool
  | invalid => true
  | _ => false

def importFault? : Verdict → Option ImportFault
  | noImportPath fault => some fault
  | _ => none

def violation? : Verdict → Option Violation
  | breaksRule v => some v
  | _ => none

def definition? : Verdict → Option Definition
  | defines d => some d
  | _ => none

theorem definition?_eq_some_iff {v : Verdict} {d : Definition} :
    v.definition? = some d ↔ v = .defines d := by
  cases v <;> simp [definition?]

/-- Where no import path is missing, each verdict is of one of the three other kinds. -/
theorem length_kinds {α : Type} {xs : List α} {verdict : α → Verdict}
    (h : ∀ x ∈ xs, (verdict x).importFault? = none) :
    (xs.filter fun x => (verdict x).isInvalid).length +
        (xs.filterMap fun x => (verdict x).violation?).length +
        (xs.filterMap fun x => (verdict x).definition?).length = xs.length := by
  -- induction on the list: every verdict counts in exactly one of the three
  induction xs with
  | nil => rfl
  | cons x xs ih =>
      have hrest := ih fun y hy => h y (List.mem_cons_of_mem x hy)
      have hx := h x (List.mem_cons_self ..)
      cases hv : verdict x with
      | noImportPath fault =>
          rw [hv] at hx
          cases hx
      | invalid =>
          rw [List.filter_cons_of_pos (by rw [hv]; rfl),
            List.filterMap_cons_none (by rw [hv]; rfl), List.filterMap_cons_none (by rw [hv]; rfl),
            List.length_cons, List.length_cons]
          omega
      | breaksRule v =>
          rw [List.filter_cons_of_neg (by rw [hv]; exact Bool.false_ne_true),
            List.filterMap_cons_some (b := v) (by rw [hv]; rfl),
            List.filterMap_cons_none (by rw [hv]; rfl), List.length_cons, List.length_cons]
          omega
      | defines d =>
          rw [List.filter_cons_of_neg (by rw [hv]; exact Bool.false_ne_true),
            List.filterMap_cons_none (by rw [hv]; rfl),
            List.filterMap_cons_some (b := d) (by rw [hv]; rfl), List.length_cons, List.length_cons]
          omega

end Verdict

/-- What an outcome comes to, once an object has been checked. -/
def Outcome.verdict : Outcome → Verdict
  | decoded root =>
      match checkComponent root with
      | .error violation => .breaksRule violation
      | .ok d => .defines d
  | refused .. => .invalid
  | notObject => .invalid
  | noImportPath fault => .noImportPath fault

namespace Outcome

theorem isInvalid_verdict (o : Outcome) : o.verdict.isInvalid = o.isInvalid := by
  cases o with
  | decoded root => cases h : checkComponent root <;> simp only [verdict, h] <;> rfl
  | refused | notObject | noImportPath => rfl

theorem importFault?_verdict (o : Outcome) : o.verdict.importFault? = o.importFault? := by
  cases o with
  | decoded root => cases h : checkComponent root <;> simp only [verdict, h] <;> rfl
  | refused | notObject | noImportPath => rfl

theorem definition?_verdict (o : Outcome) (path : List Char) (kind : SourceKind) :
    o.verdict.definition? =
      o.tree?.bind fun root => (Markup.check ⟨root, path, kind⟩).toOption := by
  cases o with
  | decoded root =>
      cases h : checkComponent root <;>
        simp only [verdict, h, tree?, Option.bind_some, Markup.check] <;> rfl
  | refused | notObject | noImportPath => rfl

/-- The problem with what was checked, if there is one. -/
def problem? : Except Problem Definition → Option Problem
  | .error p => some p
  | .ok _ => none

theorem violation?_verdict (o : Outcome) (path : List Char) (kind : SourceKind) :
    o.verdict.violation?.map (Violation.problem path) =
      o.tree?.bind fun root => problem? (Markup.check ⟨root, path, kind⟩) := by
  cases o with
  | decoded root =>
      cases h : checkComponent root <;>
        simp only [verdict, h, tree?, Option.bind_some, Markup.check] <;> rfl
  | refused | notObject | noImportPath => rfl

end Outcome

namespace Source

/-- What the occurrence of the marker at an offset comes to. -/
def verdict (scope : Scope) (s : Source) (offset : Nat) : Verdict :=
  match decodeJson scope.room (s.fragmentBehind scope offset) with
  | .error _ => .invalid
  | .ok authored =>
      match s.completed scope authored with
      | .error fault => .noImportPath fault
      | .ok root =>
          match checkComponent root with
          | .error violation => .breaksRule violation
          | .ok d => .defines d

/-- What becomes of the occurrence of the marker at an offset. -/
def outcomeAt (scope : Scope) (s : Source) (offset : Nat) : Outcome :=
  s.outcomeOf scope (s.fragmentBehind scope offset)

theorem outcomes_eq_map (scope : Scope) (s : Source) :
    s.outcomes scope = (s.offsets scope).map (s.outcomeAt scope) := rfl

theorem verdict_outcomeAt (scope : Scope) (s : Source) (offset : Nat) :
    (s.outcomeAt scope offset).verdict = s.verdict scope offset := by
  unfold verdict outcomeAt outcomeOf
  cases hdecode : decodeJson scope.room (s.fragmentBehind scope offset) with
  | error fault => rfl
  | ok authored =>
      -- a fragment holds an object or cannot be decoded, so none is refused for another value
      dsimp only
      rw [if_pos (isObject_of_decode_fragment hdecode)]
      cases s.completed scope authored <;> rfl

/-- Where import paths can be made, none is missing. -/
theorem importFault?_verdict_eq_none {scope : Scope} {s : Source} (hpath : s.path ≠ [])
    (hroot : absoluteNames scope.workingDirectory s.path ≠
      absoluteNames scope.workingDirectory (scope.root.getD [])) (offset : Nat) :
    (s.verdict scope offset).importFault? = none := by
  rcases exists_importPath hpath hroot with ⟨p, hp⟩
  -- the path of a file that was read always has an import path
  have hcompleted : ∀ authored, ∃ root, s.completed scope authored = .ok root := by
    intro authored
    unfold completed
    split
    · rw [hp]
      exact ⟨_, rfl⟩
    · exact ⟨_, rfl⟩
  unfold verdict
  split
  · rfl
  · next authored hdecode =>
    rcases hcompleted authored with ⟨root, hroot⟩
    rw [hroot]
    dsimp only
    split <;> rfl

/-- A broken rule is reported with a place in the source. -/
theorem place_of_breaksRule {scope : Scope} {s : Source} {offset : Nat} {v : Violation}
    (h : s.verdict scope offset = .breaksRule v) :
    ∃ node start, v.place = node.mark ∧ s.StandsAt (levelLimit scope.room) node start := by
  unfold verdict at h
  split at h
  · cases h
  · next authored hdecode =>
    split at h
    · cases h
    · next root hcompleted =>
      -- only a violated rule is left of the verdicts
      split at h
      · next violation hcheck =>
        obtain rfl := Verdict.breaksRule.inj h
        rcases exists_blames_standsAt hdecode (completes_of_completed hcompleted) hcheck with
          ⟨node, start, hplace, -, -, hstands⟩
        exact ⟨node, start, hplace, hstands⟩
      · cases h

/-! ## Reports -/

variable {scope : Scope} {s : Source}

/-- The fault of the first import path that is missing and cannot be made, if there is one. -/
theorem findSome?_importFault? (scope : Scope) (s : Source) :
    (s.outcomes scope).findSome? Outcome.importFault? =
      (s.offsets scope).findSome? fun i => (s.verdict scope i).importFault? := by
  rw [outcomes_eq_map, List.findSome?_map]
  refine congrArg (List.findSome? · _) (funext fun i => ?_)
  rw [← verdict_outcomeAt, Outcome.importFault?_verdict]
  rfl

/-- A source is parsed if no import path is missing that cannot be made. -/
theorem exists_parse_eq_ok_iff :
    (∃ parsed, s.parse scope = .ok parsed) ↔
      ∀ offset ∈ s.offsets scope, (s.verdict scope offset).importFault? = none := by
  rw [← List.findSome?_eq_none_iff, ← findSome?_importFault?]
  unfold parse
  dsimp only
  constructor
  · rintro ⟨parsed, h⟩
    split at h
    · cases h
    · assumption
  · intro h
    rw [h]
    exact ⟨_, rfl⟩

/-- What is picked from the markups of a source is picked from its occurrences. -/
theorem filterMap_markups {β : Type} (f : Markup → Option β) :
    (((s.outcomes scope).filterMap Outcome.tree?).map (⟨·, s.path, s.kind⟩)).filterMap f =
      (s.offsets scope).filterMap fun i =>
        (s.outcomeAt scope i).tree?.bind fun root => f ⟨root, s.path, s.kind⟩ := by
  rw [List.filterMap_map, List.filterMap_filterMap, outcomes_eq_map, List.filterMap_map]
  rfl

/-- The problem that an occurrence is no JSON object. -/
def invalidProblem (s : Source) : Problem := ⟨invalidJsonMessage, s.path, .unknown⟩

/-- A source that is parsed reports the definitions among its occurrences in order, and problems
with the others: first those that are no JSON objects, then those that break a rule, in order. -/
theorem report_eq {parsed : ParsedSource} (h : s.parse scope = .ok parsed) :
    s.report scope =
      { path := s.path
        definitions := (s.offsets scope).filterMap fun i => (s.verdict scope i).definition?
        problems :=
          ((s.offsets scope).filter fun i => (s.verdict scope i).isInvalid).map
              (fun _ => s.invalidProblem) ++
            (s.offsets scope).filterMap fun i =>
              (s.verdict scope i).violation?.map (Violation.problem s.path) } := by
  rcases parse_eq_ok h with ⟨hmarkups, hproblems⟩
  have hinvalid : (fun i => (s.verdict scope i).isInvalid) =
      Outcome.isInvalid ∘ s.outcomeAt scope := by
    funext i
    rw [← verdict_outcomeAt, Outcome.isInvalid_verdict]
    rfl
  simp only [report, h, FileReport.mk.injEq, true_and]
  rw [List.filterMap_map, List.filterMap_map, hmarkups, hproblems, filterMap_markups,
    filterMap_markups, hinvalid, outcomes_eq_map, List.filter_map, List.map_map]
  -- of each occurrence the outcome is checked, which is what its verdict says
  constructor
  · refine congrArg (List.filterMap · _) (funext fun i => ?_)
    rw [← verdict_outcomeAt, Outcome.definition?_verdict _ s.path s.kind]
    rfl
  · refine congrArg (_ ++ List.filterMap · _) (funext fun i => ?_)
    rw [← verdict_outcomeAt, Outcome.violation?_verdict _ s.path s.kind]
    rfl

/-- A source with an import path that cannot be made defines nothing. -/
theorem report_of_importFault {fault : ImportFault} (h : s.parse scope = .error fault) :
    s.report scope = ⟨s.path, [], [⟨fault.message.toList, s.path, .unknown⟩]⟩ := by
  simp only [report, h]

/-- A definition is that of a markup of the source. -/
def Accepts (scope : Scope) (s : Source) (d : Definition) : Prop :=
  ∃ parsed m, s.parse scope = .ok parsed ∧ m ∈ parsed.markups ∧ m.check = .ok d

/-- What a source reports are the definitions of its markup. -/
theorem mem_definitions_report_iff {d : Definition} :
    d ∈ (s.report scope).definitions ↔ s.Accepts scope d := by
  cases hparsed : s.parse scope with
  | error fault =>
      rw [report_of_importFault hparsed]
      refine iff_of_false List.not_mem_nil ?_
      rintro ⟨parsed, m, hok, -⟩
      cases hparsed.symm.trans hok
  | ok parsed =>
      -- a definition is reported for each markup that passes its check
      simp only [report, hparsed, List.mem_filterMap, List.mem_map]
      constructor
      · rintro ⟨checked, ⟨m, hm, rfl⟩, hd⟩
        refine ⟨parsed, m, hparsed, hm, ?_⟩
        cases hcheck : m.check with
        | ok d' =>
            rw [hcheck] at hd
            rw [Option.some.inj hd]
        | error p =>
            rw [hcheck] at hd
            cases hd
      · rintro ⟨parsed', m, hok, hm, hcheck⟩
        obtain rfl := Except.ok.inj (hparsed.symm.trans hok)
        refine ⟨m.check, ⟨m, hm, rfl⟩, ?_⟩
        rw [hcheck]
        rfl

end Source

end ComponentMarkup
