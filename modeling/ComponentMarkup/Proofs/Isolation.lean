import ComponentMarkup.Proofs.Accounts

/-!
# One bad path and the others

What a file yields depends on this file and the thread that reads it: a file that is not read, or
for the objects of which no import path can be made, yields one problem of its own and takes nothing
from the others. There is one exception: a path with a null character, which no file can have, is
taken for a fault of the whole run (`Compiler.compileIn_isolates`), so that nothing is defined at
all (`Compiler.exists_definition_lost`).
-/

namespace ComponentMarkup

/-- The line with which a run ends early. -/
def abortLine : LogLine := .failure "Markup compilation aborted"

/-- A run has ended early, and says so in its log. -/
def Compilation.IsAborted (run : Compilation) : Prop := abortLine ∈ run.lines

/-! ## The log of an ordinary run -/

/-- These lines tell what a run does, and of no problems or errors. -/
def OnlyDebug (lines : List LogLine) : Prop := ∀ l ∈ lines, l.severity = .debug

namespace OnlyDebug

variable {lines more : List LogLine}

theorem nil : OnlyDebug [] := fun _ hl => nomatch hl

theorem append (h : OnlyDebug lines) (hmore : OnlyDebug more) : OnlyDebug (lines ++ more) :=
  List.forall_mem_append.2 ⟨h, hmore⟩

theorem flatMap {α : Type} {xs : List α} {f : α → List LogLine} (h : ∀ x ∈ xs, OnlyDebug (f x)) :
    OnlyDebug (xs.flatMap f) := by
  intro l hl
  rcases List.mem_flatMap.1 hl with ⟨x, hx, hl⟩
  exact h x hx l hl

theorem debug (verbosity : Int) (level : Nat) (message : Text) :
    OnlyDebug (LogLine.debug verbosity level message) := by
  intro l hl
  unfold LogLine.debug at hl
  split at hl
  · rw [List.mem_singleton.1 hl]
  · cases hl

theorem abortLine_not_mem (h : OnlyDebug lines) : abortLine ∉ lines := by
  intro hmem
  cases h abortLine hmem

end OnlyDebug

/-- Reading a source is no matter of errors, not even if an import path cannot be made. -/
theorem Source.onlyDebug_lines (verbosity : Int) (scope : Scope) (s : Source) :
    OnlyDebug (s.lines verbosity scope) := by
  -- of all outcomes only a refused one is logged, at the level of debugging
  have houtcomes : OnlyDebug (((s.outcomes scope).takeWhile fun o =>
      o.importFault?.isNone).flatMap (Outcome.lines verbosity s.path)) := by
    apply OnlyDebug.flatMap
    intro o _
    cases o with
    | refused => exact .debug _ _ _
    | decoded | notObject | noImportPath => exact .nil
  have hparse : OnlyDebug (s.parseLines verbosity scope) := .append (.debug _ _ _) houtcomes
  refine .append (.append (.debug _ _ _) hparse) ?_
  -- the last line, if there is one, is for debugging too
  split
  · intro l hl
    rw [List.mem_singleton.1 hl]
    rfl
  · exact .nil

namespace Compiler

/-- Up to where it stores definitions or ends early a run logs what it does. -/
theorem onlyDebug_started (verbosity : Int) (c : Compiler) (env : Environment)
    (ordered : List (List Char)) :
    OnlyDebug (startLines verbosity ordered.length ++ c.allFileLines verbosity env ordered) := by
  refine .append (.debug _ _ _) (.flatMap ?_)
  intro path _
  unfold fileLines
  split
  · exact Source.onlyDebug_lines _ _ _
  · exact .nil

theorem onlyDebug_registerAllLines (verbosity : Int) (c : Compiler) (registry : Registry)
    (ds : List Definition) : OnlyDebug (registerAllLines verbosity c registry ds) := by
  induction ds generalizing registry with
  | nil => exact .nil
  | cons d ds ih =>
      refine .append (.append ?_ (.debug _ _ _)) (ih _)
      unfold replacingLines
      split
      · exact .debug _ _ _
      · exact .nil

variable {completion : List Nat} {paths : List (List Char)}

/-- A run ends early if and only if it is given a path with a null character. -/
theorem isAborted_compileIn_iff (c : Compiler) (env : Environment) (verbosity : Int)
    (registry : Registry) (h : completion.Perm (List.range paths.length)) :
    (c.compileIn completion verbosity env registry paths).IsAborted ↔ ∃ p ∈ paths, '\x00' ∈ p := by
  have hreports := c.reports_processingOrder (c.readingEnvironment env paths.length) h
  by_cases hnull : ∀ p ∈ paths, '\x00' ∉ p
  · -- an ordinary run logs no errors, so its log has no line that says it ended early
    rw [if_pos hnull] at hreports
    refine iff_of_false ?_ fun ⟨p, hp, hmem⟩ => hnull p hp hmem
    unfold Compilation.IsAborted compileIn
    dsimp only
    rw [length_processingOrder, hreports]
    have hstarted := onlyDebug_started verbosity c (c.readingEnvironment env paths.length)
      (processingOrder paths)
    rw [length_processingOrder] at hstarted
    have hstored := onlyDebug_registerAllLines verbosity c registry
    intro hmem
    rcases List.mem_append.1 hmem with hmem | hmem
    · rcases List.mem_append.1 hmem with hmem | hmem
      · exact (hstarted.append (hstored _)).abortLine_not_mem hmem
      · rcases List.mem_map.1 hmem with ⟨p, -, heq⟩
        cases heq
    · exact OnlyDebug.abortLine_not_mem (.debug _ _ _) hmem
  · rw [if_neg hnull] at hreports
    refine iff_of_true ?_ (by simpa using hnull)
    unfold Compilation.IsAborted compileIn
    dsimp only
    rw [length_processingOrder, hreports]
    exact List.mem_append_right _ (List.mem_singleton_self _)

/-! ## What a file yields -/

/-- What a file yields: what it contributes as a file that is not read or whose occurrences are
accounted for, or else one problem without a place, if an object in it lacks an import path and none
can be made. -/
inductive Yields (c : Compiler) (env : Environment) (path : List Char) :
    List Problem → List Definition → Prop where
  | contributes {problems definitions} (h : c.Contributes env path problems definitions) :
      Yields c env path problems definitions
  | spoiled {s : Source} {fault : ImportFault} (h : env.readSource path = .ok s)
      (hpath : s.path = path) (hparse : s.parse (c.scope env) = .error fault) :
      Yields c env path [⟨fault.message.toList, path, .unknown⟩] []

theorem yields_reportOf (c : Compiler) (env : Environment) (path : List Char) :
    c.Yields env path (c.reportOf env path).problems (c.reportOf env path).definitions := by
  unfold reportOf
  cases hread : env.readSource path with
  | error fault => exact .contributes (.unread hread)
  | ok s =>
      rcases Environment.path_of_readSource hread with ⟨rfl, -⟩
      cases hparse : s.parse (c.scope env) with
      | ok parsed => exact .contributes (.read hread rfl (Source.accounts_report hparse))
      | error fault =>
          dsimp only
          rw [Source.report_of_importFault hparse]
          exact .spoiled hread rfl hparse

/-- What a file yields depends on the room that it is read in, but not on the other files. A run
puts together what its files yield, in the order of their paths, and stores all their definitions,
unless one of its paths has a null character: then, and only then, it ends early, with one problem
that names no path, and stores nothing. -/
theorem compileIn_isolates (c : Compiler) (env : Environment) :
    ∃ (problems : Nat → List Char → List Problem)
      (definitions : Nat → List Char → List Definition),
      (∀ room p, c.Yields { env with room := room } p (problems room p) (definitions room p)) ∧
      ∀ (registry : Registry) (verbosity : Int) (paths : List (List Char)) (completion : List Nat),
        completion.Perm (List.range paths.length) →
        let run := c.compileIn completion verbosity env registry paths
        let ordered := processingOrder paths
        let room := c.readingRoom env paths.length
        (run.IsAborted ↔ ∃ p ∈ paths, '\x00' ∈ p) ∧
        (run.IsAborted → run.problems = [⟨FileFault.nullByte.message, [], .unknown⟩] ∧
          run.registry = registry ∧ run.compiler.upserts = c.upserts) ∧
        (¬ run.IsAborted → run.problems = ordered.flatMap (problems room) ∧
          run.registry = (ordered.flatMap (definitions room)).foldl
            (fun r d => r.upsert d.componentName (c.entryOf d)) registry ∧
          run.compiler.upserts = c.upserts + (ordered.flatMap (definitions room)).length) := by
  refine ⟨fun room p => (c.reportOf { env with room := room } p).problems,
    fun room p => (c.reportOf { env with room := room } p).definitions,
    fun room p => c.yields_reportOf { env with room := room } p, ?_⟩
  intro registry verbosity paths completion hcompletion run ordered room
  have haborted := c.isAborted_compileIn_iff env verbosity registry hcompletion
  refine ⟨haborted, ?_, ?_⟩
  · -- the fault of the null character is the only one that gets out of a file
    intro h
    apply c.compileIn_of_null env verbosity registry hcompletion
    intro hall
    rcases haborted.1 h with ⟨p, hp, hmem⟩
    exact hall p hp hmem
  · intro h
    apply c.compileIn_of_not_null env verbosity registry hcompletion
    intro p hp hmem
    exact h (haborted.2 ⟨p, hp, hmem⟩)

/-- A file that defines a component and a path that leads nowhere, read by two workers. -/
theorem compileIn_isolates_two_paths :
    let c : Compiler := { root := none, workers := 2, marker := "#C".toList, category := [] }
    let text := "#C \x7b\"class\": \"D\", \"import-file\": \"d\"\x7d".toList
    let env : Environment :=
      { settings := {}
        files := ⟨[(["a".toList], .file 0)], [(0, Utf8.encode text)], []⟩
        workingDirectory := []
        room := 981
        poolRoom := 983 }
    let paths := ["b".toList, "a".toList]
    let run := c.compileIn [1, 0] 0 env .empty paths
    let room := c.readingRoom env paths.length
    [1, 0].Perm (List.range paths.length) ∧ ¬ run.IsAborted ∧
      ∃ (problems : Nat → List Char → List Problem)
        (definitions : Nat → List Char → List Definition),
        (∀ room p, c.Yields { env with room := room } p (problems room p) (definitions room p)) ∧
        run.problems = (processingOrder paths).flatMap (problems room) ∧
        run.registry = ((processingOrder paths).flatMap (definitions room)).foldl
          (fun r d => r.upsert d.componentName (c.entryOf d)) .empty ∧
        run.compiler.upserts =
          c.upserts + ((processingOrder paths).flatMap (definitions room)).length := by
  intro c text env paths run room
  have hcompletion : [1, 0].Perm (List.range paths.length) := .swap 0 1 []
  have hnull : ¬ ∃ p ∈ paths, '\x00' ∈ p := by decide
  rcases compileIn_isolates c env with ⟨problems, definitions, hyields, hruns⟩
  rcases hruns .empty 0 paths [1, 0] hcompletion with ⟨haborted, -, hordinary⟩
  have hnot : ¬ run.IsAborted := fun h => hnull (haborted.1 h)
  exact ⟨hcompletion, hnot, problems, definitions, hyields, hordinary hnot⟩

/-- A path with a null character next to a file that defines a component: the run ends early and
stores nothing, though the file alone defines its component. -/
theorem exists_definition_lost :
    let c : Compiler := { root := none, workers := 1, marker := "#C".toList, category := [] }
    let text := "#C \x7b\"class\": \"D\", \"import-file\": \"d\"\x7d".toList
    let env : Environment :=
      { settings := {}
        files := ⟨[(["a".toList], .file 0)], [(0, Utf8.encode text)], []⟩
        workingDirectory := []
        room := 981
        poolRoom := 983 }
    let run := c.compile 0 env .empty ["a".toList, "\x00".toList]
    run.IsAborted ∧ run.problems = [⟨FileFault.nullByte.message, [], .unknown⟩] ∧
      run.registry = .empty ∧ (c.compile 0 env .empty ["a".toList]).compiler.upserts = 1 := by
  intro c text env run
  have hcompletion : [0, 1].Perm (List.range 2) := .refl _
  have hnull : ¬ ∀ p ∈ ["a".toList, "\x00".toList], '\x00' ∉ p := by decide
  -- a null byte in the second path aborts the run, while the first path alone is compiled
  have haborted : run.IsAborted :=
    (c.isAborted_compileIn_iff env 0 .empty hcompletion).2 ⟨"\x00".toList, by simp, by decide⟩
  rcases c.compileIn_of_null env 0 .empty hcompletion hnull with ⟨hproblems, hregistry, -⟩
  have halone : (c.compile 0 env .empty ["a".toList]).compiler.upserts = 1 := by decide +kernel
  exact ⟨haborted, hproblems, hregistry, halone⟩

end Compiler

end ComponentMarkup
