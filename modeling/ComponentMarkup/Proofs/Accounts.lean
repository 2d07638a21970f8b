import ComponentMarkup.Proofs.Compilation

/-!
# Every occurrence is accounted for

Each occurrence of the marker in a file that is read becomes one problem or one definition, and a
run neither loses nor repeats any of them (`Compiler.compileIn_accounts`).
-/

namespace ComponentMarkup

namespace Source

/-- The offsets at which the marker occurs in the scanned text. -/
def occurrences (scope : Scope) (s : Source) : List Nat :=
  (List.range s.scannedText.length).filter (occursAt scope.marker s.scannedText)

theorem offsets_eq_occurrences (scope : Scope) (s : Source) :
    s.offsets scope = s.occurrences scope := markerOffsets_eq_filter ..

/-- Problems and definitions account for the occurrences of a source: there is one of them for each.
Those that are no JSON object have a problem without a place and come first; the others stand in
the order of their occurrences, those that break a rule with a place, and the rest are defined. -/
structure Accounts (scope : Scope) (s : Source) (problems : List Problem)
    (definitions : List Definition) : Prop where
  count : problems.length + definitions.length = (s.occurrences scope).length
  problems : problems =
    ((s.occurrences scope).filter fun i => (s.verdict scope i).isInvalid).map
        (fun _ => ⟨invalidJsonMessage, s.path, .unknown⟩) ++
      (s.occurrences scope).filterMap fun i =>
        (s.verdict scope i).violation?.map (Violation.problem s.path)
  located : ∀ i v, s.verdict scope i = .breaksRule v → 1 ≤ v.place.line ∧ 1 ≤ v.place.column
  definitions : definitions =
    (s.occurrences scope).filterMap fun i => (s.verdict scope i).definition?

/-- The report of a source whose import paths can be made accounts for its occurrences. -/
theorem accounts_report {scope : Scope} {s : Source} {parsed : ParsedSource}
    (h : s.parse scope = .ok parsed) :
    s.Accounts scope (s.report scope).problems (s.report scope).definitions := by
  have hnone := exists_parse_eq_ok_iff.1 ⟨parsed, h⟩
  rw [report_eq h]
  simp only [offsets_eq_occurrences] at hnone ⊢
  refine ⟨?_, rfl, ?_, rfl⟩
  · -- each kind of verdict makes one problem or one definition
    rw [← Verdict.length_kinds hnone, List.length_append, List.length_map]
    have hmap : ((s.occurrences scope).filterMap fun i =>
        (s.verdict scope i).violation?.map (Violation.problem s.path)).length =
        ((s.occurrences scope).filterMap fun i => (s.verdict scope i).violation?).length := by
      rw [← List.map_filterMap, List.length_map]
    rw [hmap]
  · intro i v hv
    rcases place_of_breaksRule hv with ⟨node, offset, hplace, hstands⟩
    exact hplace ▸ ⟨hstands.line, hstands.column⟩

end Source

namespace Compiler

/-- What a file contributes to a run: a problem without a place if it is not read, and else what
accounts for the occurrences of its source. -/
inductive Contributes (c : Compiler) (env : Environment) (path : List Char) :
    List Problem → List Definition → Prop where
  | unread {fault : FileFault} (h : env.readSource path = .error fault) :
      Contributes c env path [⟨fault.message, path, .unknown⟩] []
  | read {s : Source} {problems : List Problem} {definitions : List Definition}
      (h : env.readSource path = .ok s) (hpath : s.path = path)
      (haccounts : s.Accounts (c.scope env) problems definitions) :
      Contributes c env path problems definitions

theorem contributes_reportOf {c : Compiler} {env : Environment} {path : List Char}
    (hroot : ∀ s, env.readSource path = .ok s → absoluteNames env.workingDirectory path ≠
      absoluteNames env.workingDirectory (c.root.getD [])) :
    c.Contributes env path (c.reportOf env path).problems (c.reportOf env path).definitions := by
  unfold reportOf
  -- an unreadable file is one problem; a source is accounted for occurrence by occurrence
  cases hread : env.readSource path with
  | error fault => exact .unread hread
  | ok s =>
      rcases Environment.path_of_readSource hread with ⟨rfl, hne⟩
      -- no occurrence fails to find its import path, so the parse as a whole succeeds
      have hnone : ∀ i ∈ s.offsets (c.scope env),
          (s.verdict (c.scope env) i).importFault? = none := by
        intro i _
        exact Source.importFault?_verdict_eq_none hne (hroot s hread) i
      rcases Source.exists_parse_eq_ok_iff.2 hnone with ⟨parsed, hparsed⟩
      exact .read hread rfl (Source.accounts_report hparsed)

/-- Unless a path has a null character or a file that is read is the root itself, a run puts
together what the files contribute on the threads on which they are read, in the order of their
paths: its problems are theirs, and it stores their definitions one after another and counts each of
them once. -/
theorem compileIn_accounts (c : Compiler) (env : Environment) (registry : Registry)
    {paths : List (List Char)} {completion : List Nat} (verbosity : Int)
    (hnull : ∀ p ∈ paths, '\x00' ∉ p)
    (hroot : ∀ p ∈ paths, ∀ s, env.readSource p = .ok s →
      absoluteNames env.workingDirectory p ≠ absoluteNames env.workingDirectory (c.root.getD []))
    (hcompletion : completion.Perm (List.range paths.length)) :
    let run := c.compileIn completion verbosity env registry paths
    let reading := c.readingEnvironment env paths.length
    ∃ (ordered : List (List Char)) (problems : List Char → List Problem)
      (definitions : List Char → List Definition),
      ordered.Perm paths ∧ ordered.Pairwise (fun p q => charsBefore q p = false) ∧
      run.problems = ordered.flatMap problems ∧
      run.registry = (ordered.flatMap definitions).foldl
        (fun r d => r.upsert d.componentName (c.entryOf d)) registry ∧
      run.compiler.upserts = c.upserts + (ordered.flatMap definitions).length ∧
      ∀ p ∈ paths, c.Contributes reading p (problems p) (definitions p) := by
  intro run reading
  rcases c.compileIn_of_not_null env verbosity registry hcompletion hnull with
    ⟨hproblems, hregistry, hupserts⟩
  have hcontributes : ∀ p ∈ paths, c.Contributes reading p (c.reportOf reading p).problems
      (c.reportOf reading p).definitions := by
    intro p hp
    exact contributes_reportOf (hroot p hp)
  -- the order is that of processing, and what each path contributes is read off its report
  exact ⟨processingOrder paths, fun p => (c.reportOf reading p).problems,
    fun p => (c.reportOf reading p).definitions, sortBy_perm charsBefore paths,
    isLinear_charsBefore.pairwise_sortBy paths, hproblems, hregistry, hupserts, hcontributes⟩

/-- A script with an occurrence that is no JSON, one that breaks a rule and one that defines a
component, and a path that leads nowhere. -/
theorem compileIn_accounts_script :
    let c : Compiler := { root := none, workers := 2, marker := "#C".toList, category := [] }
    let script := "/* #C #C \x7b\x7d\n#C \x7b\"class\": \"D\"\x7d */".toList
    let env : Environment :=
      { settings := {}
        files := ⟨[(["a.js".toList], .file 0)], [(0, Utf8.encode script)], []⟩
        workingDirectory := []
        room := 981
        poolRoom := 983 }
    let paths := ["b".toList, "a.js".toList]
    (∀ p ∈ paths, '\x00' ∉ p) ∧
      (∀ p ∈ paths, absoluteNames [] p ≠ absoluteNames [] []) ∧
      let run := c.compileIn [1, 0] 0 env .empty paths
      let reading := c.readingEnvironment env paths.length
      ∃ (ordered : List (List Char)) (problems : List Char → List Problem)
        (definitions : List Char → List Definition),
        ordered.Perm paths ∧ ordered.Pairwise (fun p q => charsBefore q p = false) ∧
        run.problems = ordered.flatMap problems ∧
        run.registry = (ordered.flatMap definitions).foldl
          (fun r d => r.upsert d.componentName (c.entryOf d)) .empty ∧
        run.compiler.upserts = c.upserts + (ordered.flatMap definitions).length ∧
        ∀ p ∈ paths, c.Contributes reading p (problems p) (definitions p) := by
  intro c script env paths
  have hnull : ∀ p ∈ paths, '\x00' ∉ p := by decide
  have hroot : ∀ p ∈ paths, absoluteNames [] p ≠ absoluteNames [] [] := by decide
  have hcompletion : [1, 0].Perm (List.range 2) := .swap 0 1 []
  exact ⟨hnull, hroot,
    compileIn_accounts c env .empty 0 hnull (fun p hp _ _ => hroot p hp) hcompletion⟩

end Compiler

end ComponentMarkup
