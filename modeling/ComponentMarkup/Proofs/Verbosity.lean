import ComponentMarkup.Proofs.Isolation
import ComponentMarkup.Proofs.Project

/-!
# What the verbosity of a run does

The verbosity of a run selects debug lines and does nothing else. We follow the log through the
parts of a run: what each of them logs at a verbosity is what it logs at any greater one, without
the debug lines of a greater level (`Selects`), and what it leaves otherwise does not depend on the
verbosity (`OnlySelects`). The warnings are not selected: they are the problems that a run reports
(`Compiler.warnings_compileIn`). Lines are logged in the order of one worker.
-/

namespace ComponentMarkup

/-! ## Selected lines -/

/-- Is this a debug line of a level greater than a verbosity? -/
def LogLine.isAbove (verbosity : Int) (l : LogLine) : Bool :=
  decide (l.severity = .debug) && l.level.any fun level => decide (verbosity < level)

/-- What is logged at a verbosity is what is logged at any greater one, without the debug lines of
a level greater than the lesser verbosity. -/
def Selects (lines : Int → List LogLine) : Prop :=
  ∀ v w : Int, v ≤ w → lines v = (lines w).filter fun l => !l.isAbove v

namespace Selects

variable {lines more : Int → List LogLine}

theorem append (h : Selects lines) (hmore : Selects more) :
    Selects fun v => lines v ++ more v := by
  intro v w hle
  dsimp only
  rw [List.filter_append, ← h v w hle, ← hmore v w hle]

theorem flatMap {α : Type} {xs : List α} {f : Int → α → List LogLine}
    (h : ∀ x ∈ xs, Selects fun v => f v x) : Selects fun v => xs.flatMap (f v) := by
  intro v w hle
  dsimp only
  rw [List.filter_flatMap]
  exact List.flatMap_congr fun x hx => h x hx v w hle

/-- Lines that appear at any verbosity. -/
theorem const {ls : List LogLine} (h : ∀ l ∈ ls, l.level = none) : Selects fun _ => ls := by
  intro v w _
  refine (List.filter_eq_self.2 ?_).symm
  intro l hl
  simp [LogLine.isAbove, h l hl]

theorem nil : Selects fun _ => [] := fun _ _ _ => rfl

theorem debug (level : Nat) (message : Text) :
    Selects fun v => LogLine.debug v level message := by
  intro v w hle
  dsimp only [LogLine.debug]
  by_cases hv : (level : Int) ≤ v
  · have hw : (level : Int) ≤ w := hv.trans hle
    have hshown : ¬ v < level := not_lt.2 hv
    simp [hv, hw, LogLine.isAbove, hshown]
  · have hhidden : v < level := not_le.1 hv
    rw [if_neg hv]
    split
    · simp [LogLine.isAbove, hhidden]
    · rfl

end Selects

/-! ## Runs of the compiler -/

theorem Outcome.selects_lines (path : List Char) (o : Outcome) :
    Selects fun v => o.lines v path := by
  cases o with
  | refused fault fragment => exact .debug _ _
  | decoded | notObject | noImportPath => exact .nil

theorem Source.selects_lines (scope : Scope) (s : Source) : Selects fun v => s.lines v scope := by
  have hparse : Selects fun v => s.parseLines v scope :=
    .append (.debug _ _) (.flatMap fun o _ => o.selects_lines s.path)
  refine .append (.append (.debug _ _) hparse) (.const ?_)
  cases s.parse scope with
  | ok parsed => exact fun l hl => nomatch hl
  | error fault => exact List.forall_mem_singleton.2 rfl

namespace Compiler

theorem selects_allFileLines (c : Compiler) (env : Environment) (ordered : List (List Char)) :
    Selects fun v => c.allFileLines v env ordered := by
  apply Selects.flatMap
  intro path _
  unfold fileLines
  cases env.readSource path with
  | ok source => exact source.selects_lines (c.scope env)
  | error fault => exact .nil

theorem selects_registerLines (registry : Registry) (d : Definition) :
    Selects fun v => registerLines v registry d := by
  refine .append ?_ (.debug _ _)
  unfold replacingLines
  cases registry.contains d.componentName with
  | false => exact .nil
  | true => exact .debug _ _

theorem selects_registerAllLines (c : Compiler) (registry : Registry) (ds : List Definition) :
    Selects fun v => registerAllLines v c registry ds := by
  induction ds generalizing registry with
  | nil => exact .nil
  | cons d ds ih => exact (selects_registerLines registry d).append (ih _)

/-- The verbosity of a run selects its debug lines, and changes nothing that the run leaves. -/
theorem compileIn_selects (completion : List Nat) (c : Compiler) (env : Environment)
    (registry : Registry) (paths : List (List Char)) :
    (∀ v w, (c.compileIn completion v env registry paths).problems =
        (c.compileIn completion w env registry paths).problems ∧
      (c.compileIn completion v env registry paths).registry =
        (c.compileIn completion w env registry paths).registry ∧
      (c.compileIn completion v env registry paths).compiler =
        (c.compileIn completion w env registry paths).compiler) ∧
    Selects fun v => (c.compileIn completion v env registry paths).lines := by
  unfold compileIn
  dsimp only
  -- the files are read on the same threads whatever the verbosity
  generalize c.readingEnvironment env (processingOrder paths).length = reading
  have hstarted : Selects fun v => startLines v (processingOrder paths).length ++
      c.allFileLines v reading (processingOrder paths) :=
    .append (.debug _ _) (selects_allFileLines c reading _)
  cases c.reports reading completion (processingOrder paths) with
  | error fault =>
      exact ⟨fun v w => ⟨rfl, rfl, rfl⟩,
        hstarted.append (.const (List.forall_mem_singleton.2 rfl))⟩
  | ok reports =>
      refine ⟨fun v w => ⟨rfl, rfl, rfl⟩, ?_⟩
      refine .append (.append (hstarted.append (selects_registerAllLines c registry _)) ?_)
        (.debug _ _)
      exact .const (List.forall_mem_map.2 fun p _ => rfl)

end Compiler

/-! ## Stages -/

/-- A run with another verbosity. -/
def RunState.withVerbosity (state : RunState) (verbosity : Int) : RunState :=
  { state with options := { state.options with verbosity } }

/-- The verbosity selects debug lines, and changes neither files nor what is done with them. -/
structure OnlySelects (result : Int → StageResult) : Prop where
  files : ∀ v w, (result v).files = (result w).files
  outcome : ∀ v w, (result v).outcome = (result w).outcome.map (·.withVerbosity v)
  lines : Selects fun v => (result v).lines

/-- A stage that stops the run, for a reason that does not depend on the verbosity. -/
theorem OnlySelects.stop {lines : Int → List LogLine} (h : Selects lines) (files : Files)
    (stop : Stop) : OnlySelects fun v => ⟨files, lines v, .error stop⟩ :=
  ⟨fun _ _ => rfl, fun _ _ => rfl, h⟩

/-- A stage that ends with a new state, which depends on the verbosity only in what is asked. -/
theorem OnlySelects.next {lines : Int → List LogLine} (h : Selects lines) (files : Files)
    (state : RunState) : OnlySelects fun v => ⟨files, lines v, .ok (state.withVerbosity v)⟩ :=
  ⟨fun _ _ => rfl, fun _ _ => rfl, h⟩

section

variable (env : Environment) (state : RunState)

theorem onlySelects_checkEnvironment :
    OnlySelects fun v => checkEnvironment env (state.withVerbosity v) := by
  have hstarted : Selects fun v =>
      LogLine.debug v 2 (Text.ofString displayTitle) ++
        LogLine.debug v 2 (Text.ofString "Checking environment...") :=
    .append (.debug _ _) (.debug _ _)
  -- the state is taken apart, so that its verbosity is the only thing that differs: every check
  -- stops at all verbosities or at none
  rcases state with ⟨inputDirectory, outputDirectory, options⟩
  unfold checkEnvironment
  dsimp only [RunState.withVerbosity]
  cases inputDirectory with
  | none => exact .stop hstarted _ _
  | some input =>
      dsimp only
      cases env.files.isDirectory input.text with
      | error fault => exact .stop hstarted _ _
      | ok found =>
          cases found with
          | false => exact .stop hstarted _ _
          | true =>
              rcases env.files.makeDirectories outputDirectory with ⟨files, fault | -⟩
              · exact .stop hstarted _ _
              · exact ⟨fun v w => rfl, fun v w => rfl,
                  .append (.append hstarted (.debug _ _)) (.debug _ _)⟩

theorem onlySelects_findSources :
    OnlySelects fun v => findSources env (state.withVerbosity v) := by
  rcases state with ⟨inputDirectory, outputDirectory, options⟩
  unfold findSources
  dsimp only [RunState.withVerbosity]
  cases inputDirectory with
  | none => exact .stop (.debug _ _) _ _
  | some input =>
      dsimp only
      cases env.files.candidates input env.settings.candidateExtensions with
      | error fault => exact .stop (.debug _ _) _ _
      | ok candidates =>
          exact ⟨fun v w => rfl, fun v w => rfl, .append (.debug _ _) (.debug _ _)⟩

/-- The compiler of a run leaves the same at any verbosity, and logs what this selects. -/
theorem RunState.compile_selects :
    (∀ v w, ((state.withVerbosity v).compile env).problems =
        ((state.withVerbosity w).compile env).problems ∧
      ((state.withVerbosity v).compile env).registry =
        ((state.withVerbosity w).compile env).registry) ∧
    Selects fun v => ((state.withVerbosity v).compile env).lines := by
  -- an unnamed number of workers aborts the run before anything is compiled
  by_cases hworkers : state.options.workers = .unnamed
  · have hcompile : ∀ v, (state.withVerbosity v).compile env =
        (state.compiler env.settings).aborted .empty unnamedWorkersMessage
          (Compiler.startLines v state.candidates.length) := fun v => if_pos hworkers
    simp only [hcompile]
    exact ⟨fun v w => ⟨rfl, rfl⟩,
      .append (.debug _ _) (.const (List.forall_mem_singleton.2 rfl))⟩
  · have hcompile : ∀ v, (state.withVerbosity v).compile env =
        (state.compiler env.settings).compile v env .empty (state.candidates.map Path.text) :=
      fun v => if_neg hworkers
    simp only [hcompile]
    rcases (state.compiler env.settings).compileIn_selects
      (List.range (state.candidates.map Path.text).length) env .empty
      (state.candidates.map Path.text) with ⟨hsame, hlines⟩
    exact ⟨fun v w => ⟨(hsame v w).1, (hsame v w).2.1⟩, hlines⟩

theorem onlySelects_compileMarkup :
    OnlySelects fun v => compileMarkup env (state.withVerbosity v) := by
  rcases state.compile_selects env with ⟨hsame, hlines⟩
  refine ⟨fun v w => rfl, ?_, .append (.debug _ _) hlines⟩
  intro v w
  rcases hsame v w with ⟨hproblems, hregistry⟩
  dsimp only [compileMarkup, Except.map]
  rw [hproblems, hregistry]
  rfl

theorem onlySelects_reportResults :
    OnlySelects fun v => reportResults env (state.withVerbosity v) := by
  have hwrite : ∀ v, (state.withVerbosity v).writeResult = state.writeResult := fun v => rfl
  have hregistry : ∀ v, (state.withVerbosity v).registry = state.registry := fun v => rfl
  have hoptions : ∀ v, (state.withVerbosity v).options =
      { state.options with verbosity := v } := fun v => rfl
  have hproblems : ∀ v, (state.withVerbosity v).problems = state.problems := fun v => rfl
  -- nothing but the logged lines looks at the verbosity
  simp only [reportResults, hwrite, hregistry, hoptions, hproblems]
  cases state.registry with
  | none => exact .stop .nil _ _
  | some registry =>
      dsimp only
      cases state.writeResult env.files state.options.outputFile registry.catalogText with
      | error stop => exact .stop .nil _ _
      | ok written =>
          dsimp only
          cases state.writeResult written.1 state.options.problemsFile
              (Problem.report state.problems) with
          | error stop => exact .stop .nil _ _
          | ok reported =>
              exact .next (.append (.append (.debug _ _) (.debug _ _)) (.debug _ _)) _ state

/-- In every stage the verbosity only selects debug lines. -/
theorem Stage.onlySelects_run (stage : Stage) :
    OnlySelects fun v => stage.run env (state.withVerbosity v) := by
  cases stage with
  | checkEnvironment => exact onlySelects_checkEnvironment env state
  | findSources => exact onlySelects_findSources env state
  | compileMarkup => exact onlySelects_compileMarkup env state
  | reportResults => exact onlySelects_reportResults env state

/-- In a run of stages the verbosity only selects debug lines. -/
theorem onlySelects_runStages (stages : List Stage) :
    OnlySelects fun v => runStages env (state.withVerbosity v) stages := by
  induction stages generalizing env state with
  | nil => exact .next .nil env.files state
  | cons stage stages ih =>
      have hstage := stage.onlySelects_run env state
      -- what the stage does at one verbosity tells what it does at any
      obtain ⟨files, hfiles⟩ : ∃ files, ∀ v,
          (stage.run env (state.withVerbosity v)).files = files := ⟨_, fun v => hstage.files v 0⟩
      obtain ⟨outcome, houtcome⟩ : ∃ outcome : Except Stop RunState, ∀ v,
          (stage.run env (state.withVerbosity v)).outcome = outcome.map (·.withVerbosity v) :=
        ⟨_, fun v => hstage.outcome v 0⟩
      simp only [runStages, houtcome, hfiles]
      cases outcome with
      | error stop => exact .stop hstage.lines files stop
      | ok next =>
          have hrest := ih { env with files } next
          exact ⟨hrest.files, hrest.outcome, .append hstage.lines hrest.lines⟩

end

/-! ## Warnings -/

/-- The messages of the warnings among some lines. -/
def warnings (lines : List LogLine) : List Text :=
  (lines.filter fun l => l.severity = .warning).map LogLine.message

theorem warnings_append (lines more : List LogLine) :
    warnings (lines ++ more) = warnings lines ++ warnings more := by
  rw [warnings, List.filter_append, List.map_append]
  rfl

theorem OnlyDebug.warnings_eq_nil {lines : List LogLine} (h : OnlyDebug lines) :
    warnings lines = [] := by
  rw [warnings, List.map_eq_nil_iff, List.filter_eq_nil_iff]
  intro l hl
  rw [h l hl]
  exact of_decide_eq_false rfl

theorem warnings_map_warning (problems : List Problem) :
    warnings (problems.map LogLine.warning) = problems.map fun p => Text.ofChars p.text := by
  have hall : (problems.map LogLine.warning).filter (fun l => l.severity = .warning) =
      problems.map LogLine.warning := by
    rw [List.filter_eq_self, List.forall_mem_map]
    exact fun p _ => rfl
  rw [warnings, hall, List.map_map]
  rfl

/-- Unless a run ends early, it warns of the problems that it leaves, in their order. -/
theorem Compiler.warnings_compileIn {c : Compiler} {env : Environment} {registry : Registry}
    {completion : List Nat} {verbosity : Int} {paths : List (List Char)}
    (h : ¬ (c.compileIn completion verbosity env registry paths).IsAborted) :
    warnings (c.compileIn completion verbosity env registry paths).lines =
      (c.compileIn completion verbosity env registry paths).problems.map fun p =>
        Text.ofChars p.text := by
  have hstored := onlyDebug_registerAllLines verbosity c registry
  unfold Compilation.IsAborted compileIn at h
  unfold compileIn
  dsimp only at h ⊢
  generalize c.readingEnvironment env (processingOrder paths).length = reading at h ⊢
  have hstarted := onlyDebug_started verbosity c reading (processingOrder paths)
  -- an aborted run has the abort line, which `h` excludes; otherwise the warnings are the problems
  cases hreports : c.reports reading completion (processingOrder paths) with
  | error fault =>
      rw [hreports] at h
      exact absurd (List.mem_append_right _ (List.mem_singleton_self _)) h
  | ok reports =>
      dsimp only
      rw [warnings_append, warnings_append, (hstarted.append (hstored _)).warnings_eq_nil,
        warnings_map_warning, OnlyDebug.warnings_eq_nil (.debug _ _ _), List.nil_append,
        List.append_nil]

section

variable {env : Environment} {state next final : RunState}

theorem RunState.warnings_compile (h : ¬ (state.compile env).IsAborted) :
    warnings (state.compile env).lines =
      (state.compile env).problems.map fun p => Text.ofChars p.text := by
  unfold compile at h ⊢
  dsimp only at h ⊢
  by_cases hworkers : state.options.workers = .unnamed
  · rw [if_pos hworkers] at h
    exact absurd (List.mem_append_right _ (List.mem_singleton_self _)) h
  · rw [if_neg hworkers] at h ⊢
    exact Compiler.warnings_compileIn h

/-- No stage but one warns. -/
theorem Stage.onlyDebug_run {stage : Stage} (hstage : stage ≠ .compileMarkup) :
    OnlyDebug (stage.run env state).lines := by
  have hdebug : ∀ {lines level message}, OnlyDebug lines →
      OnlyDebug (lines ++ LogLine.debug state.options.verbosity level message) :=
    fun hlines => hlines.append (.debug _ _ _)
  -- every other stage logs for debugging only, wherever it stops
  cases stage with
  | checkEnvironment =>
      have hstarted : OnlyDebug
          (LogLine.debug state.options.verbosity 2 (Text.ofString displayTitle) ++
            LogLine.debug state.options.verbosity 2 (Text.ofString "Checking environment...")) :=
        hdebug (.debug _ _ _)
      simp only [run, ComponentMarkup.checkEnvironment]
      split
      · exact hstarted
      · split
        · exact hstarted
        · exact hstarted
        · split
          · exact hstarted
          · exact hdebug (hdebug hstarted)
  | findSources =>
      simp only [run, ComponentMarkup.findSources]
      split
      · exact .debug _ _ _
      · split
        · exact .debug _ _ _
        · exact hdebug (.debug _ _ _)
  | compileMarkup => exact absurd rfl hstage
  | reportResults =>
      simp only [run, ComponentMarkup.reportResults]
      split
      · exact .nil
      · split
        · exact .nil
        · split
          · exact .nil
          · exact hdebug (hdebug (.debug _ _ _))

/-- A run that compiles nothing warns of nothing, and leaves the problems as they are. -/
theorem onlyDebug_runStages {stages : List Stage} (hstages : .compileMarkup ∉ stages)
    (hrun : (runStages env state stages).outcome = .ok final) :
    OnlyDebug (runStages env state stages).lines ∧ final.problems = state.problems := by
  -- induction on the stages; each hands on the problems as it got them
  induction stages generalizing env state with
  | nil =>
      obtain rfl := Except.ok.inj hrun
      exact ⟨.nil, rfl⟩
  | cons stage stages ih =>
      rw [List.mem_cons, not_or] at hstages
      rcases hstages with ⟨hstage, hstages⟩
      rcases runStages_cons hrun with ⟨env', next, -, hnext, hrest, -, hlines⟩
      rcases ih hstages hrest with ⟨hquiet, hproblems⟩
      rw [hlines]
      exact ⟨(Stage.onlyDebug_run (Ne.symm hstage)).append hquiet,
        hproblems.trans ((Stage.frame_run hnext).2 (Ne.symm hstage))⟩

/-- A completed run that compiles once, and does not end early there, warns of the problems that it
leaves. -/
theorem warnings_runStages {before after : List Stage} (hbefore : .compileMarkup ∉ before)
    (hafter : .compileMarkup ∉ after)
    (hrun : (runStages env state (before ++ .compileMarkup :: after)).outcome = .ok final)
    (habort : abortLine ∉ (runStages env state (before ++ .compileMarkup :: after)).lines) :
    warnings (runStages env state (before ++ .compileMarkup :: after)).lines =
      final.problems.map fun p => Text.ofChars p.text := by
  -- induction on the stages before the compilation, which add no warnings
  induction before generalizing env state with
  | nil =>
      rw [List.nil_append] at hrun habort ⊢
      rcases runStages_cons hrun with ⟨env', next, -, hnext, hrest, -, hlines⟩
      -- behind it the problems stay as they are and nothing is warned of either
      rcases onlyDebug_runStages hafter hrest with ⟨hquiet, hproblems⟩
      have hcompiled : ¬ (state.compile env).IsAborted := by
        intro h
        apply habort
        rw [hlines]
        exact List.mem_append_left _ (List.mem_append_right _ h)
      have hcompile : (Stage.run .compileMarkup env state).lines =
          LogLine.debug state.options.verbosity 1 (Text.ofString "Compiling component markup...") ++
            (state.compile env).lines := rfl
      have hreturned : next.problems = (state.compile env).problems := by
        obtain rfl := Except.ok.inj hnext
        rfl
      rw [hlines, warnings_append, hquiet.warnings_eq_nil, List.append_nil, hcompile,
        warnings_append, OnlyDebug.warnings_eq_nil (.debug _ _ _), List.nil_append, hproblems,
        hreturned]
      exact RunState.warnings_compile hcompiled
  | cons stage before ih =>
      rw [List.mem_cons, not_or] at hbefore
      rcases hbefore with ⟨hstage, hbefore⟩
      rw [List.cons_append] at hrun habort ⊢
      rcases runStages_cons hrun with ⟨env', next, -, -, hrest, -, hlines⟩
      rw [hlines, List.mem_append, not_or] at habort
      rw [hlines, warnings_append, (Stage.onlyDebug_run (Ne.symm hstage)).warnings_eq_nil,
        List.nil_append]
      exact ih hbefore hrest habort.2

/-! ## The verbosity -/

/-- The verbosity selects debug lines and does nothing else. Of a run of the compiler and of a run
of all stages the lesser of two verbosities leaves the same problems, registry and files, and the
log without the debug lines of a level greater than it. At any verbosity a run that does not end
early warns of the problems that it leaves, and the report of a run of all stages holds the same
texts, each ended by a line feed. -/
theorem verbosity_selects :
    (∀ (c : Compiler) (env : Environment) (registry : Registry) (paths : List (List Char))
        (completion : List Nat) (v w : Int), v ≤ w →
      let low := c.compileIn completion v env registry paths
      let high := c.compileIn completion w env registry paths
      low.problems = high.problems ∧ low.registry = high.registry ∧
      low.compiler = high.compiler ∧ (low.lines = high.lines.filter fun l => !l.isAbove v) ∧
      (¬ low.IsAborted → warnings low.lines = low.problems.map fun p => Text.ofChars p.text)) ∧
    ∀ (env : Environment) (state : RunState) (v w : Int), v ≤ w →
      let low := runStages env (state.withVerbosity v) allStages
      let high := runStages env (state.withVerbosity w) allStages
      low.files = high.files ∧ low.outcome = high.outcome.map (·.withVerbosity v) ∧
      (low.lines = high.lines.filter fun l => !l.isAbove v) ∧
      ∀ final, low.outcome = .ok final → abortLine ∉ low.lines →
        ∃ report, state.resultPath state.options.problemsFile = .ok report ∧
          let texts := final.problems.map Problem.text
          warnings low.lines = texts.map Text.ofChars ∧
          low.files.read report.text = .ok (Utf8.encode (texts.flatMap fun t => t ++ ['\n'])) := by
  constructor
  · intro c env registry paths completion v w hle low high
    rcases c.compileIn_selects completion env registry paths with ⟨hsame, hlines⟩
    rcases hsame v w with ⟨hproblems, hregistry, hcompiler⟩
    exact ⟨hproblems, hregistry, hcompiler, hlines v w hle, Compiler.warnings_compileIn⟩
  · intro env state v w hle low high
    have hselects := onlySelects_runStages env state allStages
    refine ⟨hselects.files v w, hselects.outcome v w, hselects.lines v w hle, ?_⟩
    intro final hrun habort
    have hbefore : Stage.compileMarkup ∉ [Stage.checkEnvironment, .findSources] := by decide
    have hafter : Stage.compileMarkup ∉ [Stage.reportResults] := by decide
    -- the compilation is the third of the four stages
    have hwarnings := warnings_runStages hbefore hafter hrun habort
    rcases read_report hrun with ⟨report, hpath, hread⟩
    refine ⟨report, hpath, ?_, ?_⟩
    · rw [List.map_map]
      exact hwarnings
    · rw [List.flatMap_map]
      exact hread

end

/-- A file that defines a component and has a marker with nothing behind it, at the verbosities one
and three. -/
theorem verbosity_selects_one_file :
    let markup := "#DCECOMP \x7b\"class\": \"A\", \"import-file\": \"a\"\x7d #DCECOMP".toList
    let env : Environment :=
      { settings := {}
        files := ⟨[(["in".toList], .directory),
          (["in".toList, "a.dcecomp".toList], .file 0)], [(0, Utf8.encode markup)], []⟩
        workingDirectory := []
        room := 981
        poolRoom := 983 }
    let state : RunState :=
      { inputDirectory := some (.ofText "in".toList)
        outputDirectory := .ofText "out".toList
        options := { workers := .number 1 } }
    let low := runStages env (state.withVerbosity 1) allStages
    let high := runStages env (state.withVerbosity 3) allStages
    (1 : Int) ≤ 3 ∧ low.lines.length < high.lines.length ∧ abortLine ∉ low.lines ∧
      low.files = high.files ∧ low.outcome = high.outcome.map (·.withVerbosity 1) ∧
      (low.lines = high.lines.filter fun l => !l.isAbove 1) ∧
      ∃ final, low.outcome = .ok final ∧ final.problems.length = 1 ∧
        ∃ report, state.resultPath state.options.problemsFile = .ok report ∧
          let texts := final.problems.map Problem.text
          warnings low.lines = texts.map Text.ofChars ∧
          low.files.read report.text = .ok (Utf8.encode (texts.flatMap fun t => t ++ ['\n'])) := by
  intro markup env state low high
  have hle : (1 : Int) ≤ 3 := by decide
  have hfewer : low.lines.length < high.lines.length := by decide +kernel
  have habort : abortLine ∉ low.lines := by decide +kernel
  have hproblems : (low.outcome.toOption.map fun final => final.problems.length) = some 1 := by
    decide +kernel
  rcases verbosity_selects with ⟨-, hruns⟩
  rcases hruns env state 1 3 hle with ⟨hfiles, houtcome, hlines, hreport⟩
  refine ⟨hle, hfewer, habort, hfiles, houtcome, hlines, ?_⟩
  cases hfinal : low.outcome with
  | error stop =>
      rw [hfinal] at hproblems
      cases hproblems
  | ok final =>
      rw [hfinal] at hproblems
      exact ⟨final, rfl, Option.some.inj hproblems, hreport final hfinal habort⟩

end ComponentMarkup
