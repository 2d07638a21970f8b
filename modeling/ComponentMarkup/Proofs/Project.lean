import ComponentMarkup.Proofs.Catalog
import ComponentMarkup.Proofs.Compilation
import ComponentMarkup.Proofs.Text.Utf8

/-!
# Runs of all stages

What the stages of a completed run leave to one another: which files are changed, and that the
catalog is written from the registry that was compiled. If the two result files are different ones,
the catalog that is found after the run is read back as the registry, which holds the last
definition of each name (`runStages_catalog`).
-/

namespace ComponentMarkup

variable {env : Environment} {state next final : RunState}

/-! ## Stages -/

/-- A run goes on behind a stage with the files and the state that this one leaves. -/
theorem runStages_cons {stage : Stage} {stages : List Stage}
    (h : (runStages env state (stage :: stages)).outcome = .ok final) :
    ∃ env' next, env' = { env with files := (stage.run env state).files } ∧
      (stage.run env state).outcome = .ok next ∧ (runStages env' next stages).outcome = .ok final ∧
      (runStages env state (stage :: stages)).files = (runStages env' next stages).files ∧
      (runStages env state (stage :: stages)).lines =
        (stage.run env state).lines ++ (runStages env' next stages).lines := by
  rw [runStages] at h ⊢
  -- a stage that stops would have ended the run
  cases hstage : (stage.run env state).outcome with
  | error stop =>
      rw [hstage] at h
      cases h
  | ok next =>
      rw [hstage] at h
      exact ⟨_, next, rfl, rfl, h, rfl, rfl⟩

/-- The same is asked of two runs. -/
structure RunState.SameRequest (a b : RunState) : Prop where
  inputDirectory : a.inputDirectory = b.inputDirectory
  outputDirectory : a.outputDirectory = b.outputDirectory
  options : a.options = b.options

theorem RunState.SameRequest.resultPath {a b : RunState} (h : a.SameRequest b)
    (name : Option (List Char)) : a.resultPath name = b.resultPath name := by
  unfold RunState.resultPath
  rw [h.outputDirectory]

/-- No stage changes what is asked of the run, and only one changes the problems. -/
theorem Stage.frame_run {stage : Stage} (h : (stage.run env state).outcome = .ok next) :
    next.SameRequest state ∧ (stage ≠ .compileMarkup → next.problems = state.problems) := by
  -- each stage that goes on hands the state on with its own result only
  cases stage with
  | checkEnvironment =>
      simp only [run, ComponentMarkup.checkEnvironment] at h
      split at h
      · cases h
      · split at h
        · cases h
        · cases h
        · split at h
          · cases h
          · obtain rfl := Except.ok.inj h
            exact ⟨⟨rfl, rfl, rfl⟩, fun _ => rfl⟩
  | findSources =>
      simp only [run, ComponentMarkup.findSources] at h
      split at h
      · cases h
      · split at h
        · cases h
        · obtain rfl := Except.ok.inj h
          exact ⟨⟨rfl, rfl, rfl⟩, fun _ => rfl⟩
  | compileMarkup =>
      -- the compilation is the stage that sets the problems
      obtain rfl := Except.ok.inj h
      exact ⟨⟨rfl, rfl, rfl⟩, fun hne => absurd rfl hne⟩
  | reportResults =>
      simp only [run, ComponentMarkup.reportResults] at h
      split at h
      · cases h
      · split at h
        · cases h
        · split at h
          · cases h
          · obtain rfl := Except.ok.inj h
            exact ⟨⟨rfl, rfl, rfl⟩, fun _ => rfl⟩

/-- What is asked of a run stays. -/
theorem sameRequest_of_runStages {stages : List Stage}
    (h : (runStages env state stages).outcome = .ok final) : final.SameRequest state := by
  induction stages generalizing env state with
  | nil =>
      obtain rfl := Except.ok.inj h
      exact ⟨rfl, rfl, rfl⟩
  | cons stage stages ih =>
      rcases runStages_cons h with ⟨env', next, -, hstage, hrest, -⟩
      have hsame := (Stage.frame_run hstage).1
      have hsame' := ih hrest
      exact ⟨hsame'.inputDirectory.trans hsame.inputDirectory,
        hsame'.outputDirectory.trans hsame.outputDirectory, hsame'.options.trans hsame.options⟩

/-- Searching changes no file. -/
theorem of_findSources (h : (findSources env state).outcome = .ok next) :
    (findSources env state).files = env.files := by
  unfold findSources at h ⊢
  dsimp only at h ⊢
  split at h
  · cases h
  · split at h
    · cases h
    · rfl

theorem of_writeResult {files written : Files} {name : Option (List Char)} {text : List Char}
    {path : Path} (h : state.writeResult files name text = .ok (written, path)) :
    state.resultPath name = .ok path ∧ files.write path.text (Utf8.encode text) = .ok written := by
  rcases Except.of_bind_eq_ok h with ⟨path', hpath, h⟩
  cases hwritten : files.write path'.text (Utf8.encode text) with
  | error fault =>
      rw [hwritten] at h
      cases h
  | ok files' =>
      rw [hwritten] at h
      cases h
      exact ⟨hpath, hwritten⟩

/-- The catalog of the registry is written, and then the report. -/
theorem of_reportResults (h : (reportResults env state).outcome = .ok next) :
    next = state ∧ ∃ registry catalog report written, state.registry = some registry ∧
      state.resultPath state.options.outputFile = .ok catalog ∧
      state.resultPath state.options.problemsFile = .ok report ∧
      env.files.write catalog.text (Utf8.encode registry.catalogText) = .ok written ∧
      written.write report.text (Utf8.encode (Problem.report state.problems)) =
        .ok (reportResults env state).files := by
  unfold reportResults at h ⊢
  dsimp only at h ⊢
  -- every failure ends the stage, so both files were written, the report behind the catalog
  split at h
  · cases h
  · next registry hregistry =>
    split at h
    · cases h
    · next written catalog hcatalog =>
      split at h
      · cases h
      · next files report hreport =>
        rcases of_writeResult hcatalog with ⟨hpath, hwrite⟩
        rcases of_writeResult hreport with ⟨hpath', hwrite'⟩
        exact ⟨(Except.ok.inj h).symm, registry, catalog, report, written, hregistry, hpath, hpath',
          hwrite, hwrite'⟩

/-- The states that the stages of a completed run leave to one another. Only the first stage and the
last one change files. -/
theorem exists_stages (hrun : (runStages env state allStages).outcome = .ok final) :
    let checked : Environment := { env with files := (checkEnvironment env state).files }
    ∃ started found, (checkEnvironment env state).outcome = .ok started ∧
      (findSources checked started).outcome = .ok found ∧
      (compileMarkup checked found).outcome = .ok final ∧
      (reportResults checked final).outcome = .ok final ∧
      (runStages env state allStages).files = (reportResults checked final).files := by
  intro checked
  -- one stage after the other; only the first and the last touch the files
  rcases runStages_cons hrun with ⟨env₁, started, henv₁, hstart, hrun, hfiles₁, -⟩
  obtain rfl : env₁ = checked := henv₁
  rcases runStages_cons hrun with ⟨env₂, found, henv₂, hfind, hrun, hfiles₂, -⟩
  obtain rfl : env₂ = checked := by rw [henv₂, Stage.run, of_findSources hfind]
  rcases runStages_cons hrun with ⟨env₃, compiled, henv₃, hcompile, hrun, hfiles₃, -⟩
  obtain rfl : env₃ = checked := henv₃
  rcases runStages_cons hrun with ⟨env₄, reported, henv₄, hreport, hrun, hfiles₄, -⟩
  obtain rfl : compiled = reported := (of_reportResults hreport).1.symm
  obtain rfl : compiled = final := Except.ok.inj hrun
  refine ⟨started, found, hstart, hfind, hcompile, hreport, ?_⟩
  rw [allStages, hfiles₁, hfiles₂, hfiles₃, hfiles₄, henv₄]
  rfl

/-- A completed run compiles what it finds in the files that are there when the environment has been
checked, and reports this. -/
theorem of_runStages (hrun : (runStages env state allStages).outcome = .ok final) :
    let checked : Environment := { env with files := (checkEnvironment env state).files }
    ∃ found : RunState,
      final =
        { found with
          registry := some (found.compile checked).registry
          problems := (found.compile checked).problems } ∧
      (reportResults checked final).outcome = .ok final ∧
      (runStages env state allStages).files = (reportResults checked final).files := by
  intro checked
  rcases exists_stages hrun with ⟨started, found, -, -, hcompile, hreport, hfiles⟩
  exact ⟨found, (Except.ok.inj hcompile).symm, hreport, hfiles⟩

/-- After a completed run the report holds the problems that the run leaves, one behind the
other. -/
theorem read_report (hrun : (runStages env state allStages).outcome = .ok final) :
    ∃ report, state.resultPath state.options.problemsFile = .ok report ∧
      (runStages env state allStages).files.read report.text =
        .ok (Utf8.encode (Problem.report final.problems)) := by
  have hsame := sameRequest_of_runStages hrun
  rcases of_runStages hrun with ⟨found, -, hreport, hfiles⟩
  rcases of_reportResults hreport with
    ⟨-, registry, catalog, report, written, -, -, hpath, -, hwrite⟩
  refine ⟨report, ?_, ?_⟩
  · rw [← hsame.resultPath, ← hsame.options]
    exact hpath
  · rw [hfiles]
    exact Files.read_of_write hwrite

/-! ## The registry of a run -/

/-- A run with this state registers a definition, and no later one of the name: its files can be
read, and the definition is the last one of its name in them, on the threads on which they are
read. -/
structure RunState.Registers (state : RunState) (env : Environment) (d : Definition) : Prop where
  workers : state.options.workers ≠ .unnamed
  paths : ∀ p ∈ state.candidates.map Path.text, '\x00' ∉ p
  last : (state.compiler env.settings).IsLastDefined
    ((state.compiler env.settings).readingEnvironment env state.candidates.length)
    (state.candidates.map Path.text) d.componentName d

/-- The registry of a run holds the definitions that it registers, in the order of their names. -/
theorem RunState.registry_compile (state : RunState) (env : Environment) :
    ((state.compile env).registry.entries.map RegistryEntry.key).Pairwise
        (fun a b => Text.before a b = true) ∧
      ∀ e, e ∈ (state.compile env).registry.entries ↔
        ∃ d, state.Registers env d ∧ e = (state.compiler env.settings).entryOf d := by
  -- nothing is registered when the compilation is aborted, for either reason
  have hnothing (hregistry : (state.compile env).registry = .empty)
      (hnone : ∀ d, ¬ state.Registers env d) :
      ((state.compile env).registry.entries.map RegistryEntry.key).Pairwise
          (fun a b => Text.before a b = true) ∧
        ∀ e, e ∈ (state.compile env).registry.entries ↔
          ∃ d, state.Registers env d ∧ e = (state.compiler env.settings).entryOf d := by
    rw [hregistry]
    refine ⟨.nil, fun e => iff_of_false List.not_mem_nil ?_⟩
    rintro ⟨d, hd, -⟩
    exact hnone d hd
  by_cases hworkers : state.options.workers = .unnamed
  · apply hnothing
    · rw [compile, if_pos hworkers]
      rfl
    · exact fun d hd => hd.workers hworkers
  · have hcompile : state.compile env = (state.compiler env.settings).compile
        state.options.verbosity env .empty (state.candidates.map Path.text) := by
      rw [compile, if_neg hworkers]
    have hrange := List.Perm.refl (List.range (state.candidates.map Path.text).length)
    by_cases hnull : ∀ p ∈ state.candidates.map Path.text, '\x00' ∉ p
    · have hregistry := ((state.compiler env.settings).compileIn_of_not_null env
        state.options.verbosity .empty hrange hnull).2.1
      rw [List.length_map] at hregistry
      rw [hcompile, Compiler.compile, List.length_map, hregistry]
      -- the entries are those of the last definitions of their names, by the lemma on the fold
      refine ⟨Compiler.keys_foldl_upsert .., ?_⟩
      intro e
      rw [Compiler.mem_entries_foldl_upsert]
      apply exists_congr
      intro d
      apply and_congr_left
      intro _
      rw [← Compiler.isLastDefined_iff_find?]
      exact ⟨fun hlast => ⟨hworkers, hnull, hlast⟩, fun hd => hd.last⟩
    · apply hnothing
      · rw [hcompile]
        exact ((state.compiler env.settings).compileIn_of_null env state.options.verbosity .empty
          hrange hnull).2.1
      · exact fun d hd => hnull hd.paths

/-- What a run registers is accepted from a source. -/
theorem RunState.Registers.exists_accepts {d : Definition} (h : state.Registers env d) :
    ∃ (room : Nat) (s : Source),
      s.Accepts ((state.compiler env.settings).scope { env with room := room }) d := by
  rcases h.last with ⟨path, -, offset, hdefines, -⟩
  rcases Compiler.exists_accepts_of_mem hdefines.mem with ⟨s, -, hs⟩
  exact ⟨_, s, hs⟩

/-- What a run registers is read back. -/
theorem RunState.Registers.isPrintable {d : Definition} (h : state.Registers env d) :
    d.IsPrintable := by
  rcases h.exists_accepts with ⟨_, s, hs⟩
  exact hs.isPrintable

theorem RunState.isPrintable_entries (state : RunState) (env : Environment) :
    ∀ e ∈ (state.compile env).registry.entries,
      e.category.IsJoined ∧ e.definition.IsPrintable := by
  intro e he
  rcases ((state.registry_compile env).2 e).1 he with ⟨d, hd, rfl⟩
  exact ⟨Text.isJoined_ofChars _, hd.isPrintable⟩

/-! ## The files of a run -/

/-- The catalog and the report of a run are different files. -/
def RunState.HasTwoResults (state : RunState) (files : Files) : Prop :=
  ∀ catalog report, state.resultPath state.options.outputFile = .ok catalog →
    state.resultPath state.options.problemsFile = .ok report →
    ¬ files.SameFile catalog.text report.text

/-- After a completed run, the text of the catalog is read back, wherever six levels can be read, as
the registry of the run: one object for each name that it registers, in the order of the names, with
the last definition of this name. What was compiled are the files that were there when the
environment had been checked. -/
theorem runStages_catalog (hrun : (runStages env state allStages).outcome = .ok final)
    (htwo : state.HasTwoResults (runStages env state allStages).files) :
    let checked : Environment := { env with files := (checkEnvironment env state).files }
    ∃ registry catalog bytes text, final.registry = some registry ∧
      state.resultPath state.options.outputFile = .ok catalog ∧
      (runStages env state allStages).files.read catalog.text = .ok bytes ∧
      Utf8.decode bytes = .ok text ∧
      (∀ levels, readLoosely (levels + 6) text = .ok registry.toValue) ∧
      (registry.entries.map RegistryEntry.key).Pairwise (fun a b => Text.before a b = true) ∧
      ∀ e, e ∈ registry.entries ↔
        ∃ d, final.Registers checked d ∧ e = (final.compiler env.settings).entryOf d := by
  intro checked
  have hsame := sameRequest_of_runStages hrun
  have hpaths : ∀ name, final.resultPath name = state.resultPath name := by
    intro name
    unfold RunState.resultPath
    rw [hsame.outputDirectory]
  rcases of_runStages hrun with ⟨found, hfinal, hreport, hfiles⟩
  rcases of_reportResults hreport with
    ⟨-, registry, catalog, report, written, hregistry, hcatalog, hpath, hwrite, hwrite'⟩
  rw [hpaths, hsame.options] at hcatalog hpath
  obtain rfl : registry = (found.compile checked).registry := by
    rw [hfinal] at hregistry
    exact (Option.some.inj hregistry).symm
  have hread := Files.read_of_write_of_write hwrite hwrite'
    (hfiles ▸ htwo catalog report hcatalog hpath)
  rcases found.registry_compile checked with ⟨hkeys, hentries⟩
  -- what is registered depends on the options and the candidates, which stay
  have hregisters : ∀ d, final.Registers checked d ↔ found.Registers checked d := by
    intro d
    rw [hfinal]
    exact ⟨fun h => ⟨h.workers, h.paths, h.last⟩, fun h => ⟨h.workers, h.paths, h.last⟩⟩
  have hcompiler : final.compiler env.settings = found.compiler env.settings := by
    rw [hfinal]
    rfl
  refine ⟨_, catalog, _, _, hregistry, hcatalog, hfiles ▸ hread, Utf8.decode_encode _,
    Registry.readLoosely_catalogText (found.isPrintable_entries checked), hkeys, ?_⟩
  simp only [hregisters, hcompiler]
  exact hentries

/-- A component whose name holds a quote and a surrogate without a partner. -/
theorem runStages_catalog_one_file :
    let markup := "#DCECOMP \x7b\"class\": \"A\\\"\\ud83d\", \"import-file\": \"a\"\x7d".toList
    let env : Environment :=
      { settings := {}
        files := ⟨[(["in".toList], .directory),
          (["in".toList, "a.dcecomp".toList], .file 0)], [(0, Utf8.encode markup)], []⟩
        workingDirectory := []
        room := 981
        poolRoom := 983 }
    let state : RunState :=
      { inputDirectory := some (.ofText "in".toList)
        outputDirectory := .ofText "out".toList
        options := {} }
    let checked : Environment := { env with files := (checkEnvironment env state).files }
    ∃ final, (runStages env state allStages).outcome = .ok final ∧
      state.HasTwoResults (runStages env state allStages).files ∧
      ∃ registry catalog bytes text, final.registry = some registry ∧
        state.resultPath state.options.outputFile = .ok catalog ∧
        (runStages env state allStages).files.read catalog.text = .ok bytes ∧
        Utf8.decode bytes = .ok text ∧
        (∀ levels, readLoosely (levels + 6) text = .ok registry.toValue) ∧
        (registry.entries.map RegistryEntry.key).Pairwise (fun a b => Text.before a b = true) ∧
        ∀ e, e ∈ registry.entries ↔
          ∃ d, final.Registers checked d ∧ e = (final.compiler env.settings).entryOf d := by
  intro markup env state checked
  -- the run is evaluated once; what it proves of the files comes from the theorem
  have hcompleted : (runStages env state allStages).outcome.toBool = true := by decide +kernel
  rcases Except.exists_of_toBool hcompleted with ⟨final, hrun⟩
  have htwo : state.HasTwoResults (runStages env state allStages).files := by
    intro catalog report hcatalog hreport
    obtain rfl := Except.ok.inj hcatalog
    obtain rfl := Except.ok.inj hreport
    decide +kernel
  exact ⟨final, hrun, htwo, runStages_catalog hrun htwo⟩

/-- Two names that differ may lead to one file. Then the report takes the place of the catalog, and
without problems an empty file is left. -/
theorem exists_catalog_overwritten :
    let markup := "#DCECOMP \x7b\"class\": \"A\", \"import-file\": \"a\"\x7d".toList
    let env : Environment :=
      { settings := {}
        files := ⟨[(["in".toList], .directory),
          (["in".toList, "a.dcecomp".toList], .file 0)], [(0, Utf8.encode markup)], []⟩
        workingDirectory := []
        room := 981
        poolRoom := 983 }
    let state : RunState :=
      { inputDirectory := some (.ofText "in".toList)
        outputDirectory := .ofText "out".toList
        options := { problemsFile := some "./components.json".toList } }
    state.options.outputFile ≠ state.options.problemsFile ∧
      ∃ final registry catalog, (runStages env state allStages).outcome = .ok final ∧
        final.registry = some registry ∧
        state.resultPath state.options.outputFile = .ok catalog ∧
        ∀ bytes text, (runStages env state allStages).files.read catalog.text = .ok bytes →
          Utf8.decode bytes = .ok text →
            ∀ levels, readLoosely levels text ≠ .ok registry.toValue := by
  intro markup env state
  have hcompleted : (runStages env state allStages).outcome.toBool = true := by decide +kernel
  rcases Except.exists_of_toBool hcompleted with ⟨final, hrun⟩
  rcases of_runStages hrun with ⟨found, rfl, -, -⟩
  refine ⟨by decide, _, _, .ofText "out/components.json".toList, hrun, rfl, rfl, ?_⟩
  intro bytes text hread htext levels hloose
  -- the report has overwritten the catalog, and without problems it is empty
  have hempty : ((runStages env state allStages).files.read
      (Path.ofText "out/components.json".toList).text).toOption = some [] := by decide +kernel
  rw [hread] at hempty
  obtain rfl : bytes = [] := Option.some.inj hempty
  obtain rfl : text = [] := (Except.ok.inj htext).symm
  cases hloose

end ComponentMarkup
