import ComponentMarkup.Proofs.Discovery

/-!
# Files that are written to

When some paths have been written to, what is new are files where these paths lead, and what is held
has changed only in files to which they lead (`Files.WrittenAt`). No path leads on through a new
file, so every other path leads to what it led to (`WrittenAt.fileAt_cases`). A search that finds
none of the files that have been written to finds what was found before
(`WrittenAt.candidates`), and what it finds holds what it held (`WrittenAt.read`).
-/

namespace ComponentMarkup

namespace Files

/-- Files of which some paths have been written to: all that is new are files where one of the paths
leads, and a file of which one does not lead to it holds what it held. -/
structure WrittenAt (outputs : List Char → Prop) (files files' : Files) : Prop where
  workingDirectory : files'.workingDirectory = files.workingDirectory
  bindings : ∃ more, files'.bindings = files.bindings ++ more ∧
    ∀ b ∈ more, ∃ number output, b.2 = .file number ∧ outputs output ∧
      files'.locate output = .ok b.1 ∧ files'.fileAt output = .ok (some number)
  content : ∀ n, files'.content n = files.content n ∨
    ∃ output, outputs output ∧ files'.fileAt output = .ok (some n)

variable {files files' files'' : Files} {location here : List Name} {path : List Char}
variable {outputs : List Char → Prop}

namespace WrittenAt

/-- What there is was there before, or is a file to which an output leads. -/
theorem frame (h : files.WrittenAt outputs files') (l : List Name) :
    files'.find? l = files.find? l ∨
      files.find? l = none ∧ ∃ number output, outputs output ∧ files'.locate output = .ok l ∧
        files'.fileAt output = .ok (some number) ∧ files'.find? l = some (.file number) := by
  rcases h.bindings with ⟨more, hbindings, hmore⟩
  unfold find?
  by_cases hl : l = []
  · simp only [if_pos hl, true_or]
  · simp only [if_neg hl]
    rw [hbindings, findBinding_append]
    -- looked up in the old bindings first: a new one bears only on a free location
    cases hold : findBinding l files.bindings with
    | some entry => exact .inl rfl
    | none =>
        cases hnew : findBinding l more with
        | none => exact .inl rfl
        | some entry =>
            rcases hmore _ (mem_of_findBinding hnew) with
              ⟨number, output, rfl, houtput, hlocate, hfile⟩
            exact .inr ⟨rfl, number, output, houtput, hlocate, hfile, rfl⟩

theorem grows (h : files.WrittenAt outputs files') : files.Grows files' where
  workingDirectory := h.workingDirectory
  entry {l entry} hl := by
    rcases h.frame l with hsame | ⟨hfree, -⟩
    · exact hsame.trans hl
    · rw [hfree] at hl
      cases hl
  link {l target} hl := by
    rcases h.frame l with hsame | ⟨-, number, output, -, -, -, hfile⟩
    · exact hsame.symm.trans hl
    · rw [hfile] at hl
      cases hl

theorem trans (h : files.WrittenAt outputs files') (h' : files'.WrittenAt outputs files'') :
    files.WrittenAt outputs files'' where
  workingDirectory := h'.workingDirectory.trans h.workingDirectory
  bindings := by
    rcases h.bindings with ⟨more, hbindings, hmore⟩
    rcases h'.bindings with ⟨more', hbindings', hmore'⟩
    refine ⟨more ++ more', by rw [hbindings', hbindings, List.append_assoc], fun b hb => ?_⟩
    -- a binding that is new comes from one of the two steps
    rcases List.mem_append.1 hb with hb | hb
    · rcases hmore b hb with ⟨number, output, hentry, houtput, hlocate, hfile⟩
      exact ⟨number, output, hentry, houtput, h'.grows.locate_eq_ok hlocate,
        h'.grows.fileAt hfile⟩
    · exact hmore' b hb
  content n := by
    -- the later step counts; where it wrote nothing, the earlier one does
    rcases h'.content n with hsame | hwritten
    · rw [hsame]
      rcases h.content n with hsame | ⟨output, houtput, hfile⟩
      · exact .inl hsame
      · exact .inr ⟨output, houtput, h'.grows.fileAt hfile⟩
    · exact .inr hwritten

/-! ## Where other paths lead -/

/-- Where something was missing a walk still does not lead on, at most into a new file. -/
theorem walk_of_missing (h : files.WrittenAt outputs files') {names : List Name}
    (hwalk : files.walk here names = .error .missing) :
    files'.walk here names = .error .missing ∨ files'.walk here names = .error .notDirectory := by
  -- along the walk: up to the missing name everything exists and stays as it is
  fun_induction walk files here names with
  | case1 | case3 | case4 | case5 => cases hwalk
  | case2 here name names hhere =>
      rw [walk]
      -- the missing name may be an output by now, and then it is a file on the way
      rcases h.frame here with hsame | ⟨-, number, output, -, -, -, hfile⟩
      · rw [hsame, hhere]
        exact .inl rfl
      · rw [hfile]
        exact .inr rfl
  | case6 here name names hhere hlength hstays ih =>
      rw [walk, h.grows.entry hhere]
      simp only [if_neg hlength, if_pos hstays]
      exact ih hwalk
  | case7 here names hhere hlength hstays ih =>
      rw [walk, h.grows.entry hhere]
      simp only [if_neg hlength, if_neg hstays, if_true]
      exact ih hwalk
  | case8 here name names hhere hlength hstays hup ih =>
      rw [walk, h.grows.entry hhere]
      simp only [if_neg hlength, if_neg hstays, if_neg hup]
      exact ih hwalk

theorem follow_of_missing (h : files.WrittenAt outputs files') {last : Bool} {links : Nat}
    {names : List Name} (hfollow : files.follow last links here names = .error .missing) :
    files'.follow last links here names = .error .missing ∨
      files'.follow last links here names = .error .notDirectory := by
  -- along the resolution; the links before the missing name lead to where they led
  fun_induction follow files last links here names with
  | case1 links here names cause hwalk =>
      obtain rfl := Except.error.inj hfollow
      rw [follow]
      rcases h.walk_of_missing hwalk with hwalk' | hwalk'
      · exact .inl (by rw [hwalk'])
      · exact .inr (by rw [hwalk'])
  | case2 | case3 => cases hfollow
  | case4 here names there hwalk target links hlink ih =>
      rw [follow, h.grows.walk_eq_ok hwalk]
      simp only [h.grows.pendingLink_eq, hlink]
      exact ih hfollow

theorem locate_of_missing (h : files.WrittenAt outputs files')
    (hlocate : files.locate path = .error .missing) :
    files'.locate path = .error .missing ∨ files'.locate path = .error .notDirectory := by
  unfold locate resolve at hlocate ⊢
  split
  · exact .inl rfl
  · next hne =>
    -- the limits on the path do not depend on the file system
    rw [if_neg hne] at hlocate
    split
    · next hlength =>
      rw [if_pos hlength] at hlocate
      cases hlocate
    · next hlength =>
      rw [if_neg hlength] at hlocate
      rw [h.workingDirectory]
      exact h.follow_of_missing hlocate

/-- A path leads to what it led to, or to a file that is new and to which an output leads. -/
theorem fileAt_cases (h : files.WrittenAt outputs files') {found : Option Nat}
    (hfound : files'.fileAt path = .ok found) :
    files.fileAt path = .ok found ∨
      files.fileAt path = .ok none ∧ ∃ number output, found = some number ∧ outputs output ∧
        files'.fileAt output = .ok (some number) := by
  unfold fileAt at hfound ⊢
  by_cases hnull : '\x00' ∈ path
  · rw [lookUp_of_null hnull] at hfound ⊢
    exact .inl hfound
  · cases hlocate : files.locate path with
    | ok location =>
        rw [lookUp_of_locate_eq_ok hnull (h.grows.locate_eq_ok hlocate)] at hfound
        rw [lookUp_of_locate_eq_ok hnull hlocate]
        rcases h.frame location with hsame | ⟨hfree, number, output, houtput, -, hfile, hnew⟩
        · exact .inl (hsame ▸ hfound)
        · rw [hnew] at hfound
          rw [hfree]
          exact .inr ⟨rfl, number, output, (Except.ok.inj hfound).symm, houtput, hfile⟩
    | error cause =>
        rw [lookUp_of_locate_eq_error hnull hlocate]
        by_cases hmissing : cause = .missing
        · -- nothing is found, with or without the new files
          subst hmissing
          have hnone : files'.lookUp path = .ok none := by
            rcases h.locate_of_missing hlocate with hlocate' | hlocate'
            · exact lookUp_of_locate_eq_error hnull hlocate'
            · exact lookUp_of_locate_eq_error hnull hlocate'
          rw [hnone] at hfound
          exact .inl hfound
        · have hlocate' : files'.locate path = .error cause :=
            (h.grows.resolve_eq (by rw [← locate, hlocate]; simpa using hmissing)).trans hlocate
          rw [lookUp_of_locate_eq_error hnull hlocate'] at hfound
          exact .inl hfound

/-! ## What is found -/

variable {root : Path} {extensions : List Text} {found : List Path}

/-- What is found now and is no output was a file that held the same. -/
theorem read (h : files.WrittenAt outputs files')
    (hfound : files'.candidates root extensions = .ok found) {p : Path} (hp : p ∈ found)
    (hapart : ∀ output, outputs output → ¬ files'.SameFile p.text output) :
    files'.read p.text = files.read p.text := by
  rcases of_mem_candidates hfound hp with ⟨-, -, -, number, -, -, -, -, -, hfile, -⟩
  have hbytes := read_eq_ok_iff.2 ⟨number, hfile, rfl⟩
  rcases h.fileAt_cases hfile with hbefore | ⟨-, n, output, hn, houtput, hwritten⟩
  · rcases h.content number with hsame | ⟨output, houtput, hwritten⟩
    · rw [hbytes, read_eq_ok_iff.2 ⟨number, hbefore, hsame.symm⟩]
    · exact absurd ⟨number, hfile, hwritten⟩ (hapart output houtput)
  · obtain rfl := Option.some.inj hn
    exact absurd ⟨number, hfile, hwritten⟩ (hapart output houtput)

/-- A search that finds no output finds what was found before. -/
theorem candidates (h : files.WrittenAt outputs files') (htree : files'.IsTree)
    (hroot : files.isDirectory root.text = .ok true)
    (hfound : files'.candidates root extensions = .ok found)
    (hapart : ∀ p ∈ found, ∀ output, outputs output → ¬ files'.SameFile p.text output) :
    files.candidates root extensions = .ok found := by
  rcases isDirectory_eq_ok_true_iff.1 hroot with ⟨location, hnull, hlocate, hdirectory⟩
  have hlocate' := h.grows.locate_eq_ok hlocate
  rcases (candidates_eq_ok_iff hnull hlocate' (h.grows.entry hdirectory)).1 hfound with
    ⟨hall, hpaths⟩
  -- a wanted path that leads to a file is found, so no output leads to this file
  have hkept : ∀ p ∈ files'.pathsBelow root location, hasExtension extensions p.suffix = true →
      ∀ number, files'.fileAt p.text = .ok (some number) →
        ∀ output, outputs output → files'.fileAt output ≠ .ok (some number) := by
    intro p hp hwanted number hfile output houtput hwritten
    refine hapart p ?_ output houtput ⟨number, hfile, hwritten⟩
    rw [hpaths]
    exact (sortBy_perm _ _).mem_iff.2
      (List.mem_filter.2 ⟨List.mem_filter.2 ⟨hp, leadsToFile_iff.2 ⟨number, hfile⟩⟩, hwanted⟩)
  rcases h.bindings with ⟨more, hbindings, hmore⟩
  have hbelow : files'.pathsBelow root location = files.pathsBelow root location ++
      (Files.mk more [] []).pathsBelow root location := by
    unfold pathsBelow namesBelow
    rw [hbindings, List.filterMap_append, List.map_append]
  refine (candidates_eq_ok_iff hnull hlocate hdirectory).2 ⟨fun p hp => ?_, ?_⟩
  · rcases hall p (hbelow ▸ List.mem_append_left _ hp) with ⟨found, hfile⟩
    rcases h.fileAt_cases hfile with hbefore | ⟨hnone, -⟩
    · exact ⟨found, hbefore⟩
    · exact ⟨none, hnone⟩
  · rw [hpaths]
    congr 1
    rw [List.filter_filter, List.filter_filter, hbelow, List.filter_append]
    have hold : (files.pathsBelow root location).filter (fun p =>
          hasExtension extensions p.suffix && files'.leadsToFile p) =
        (files.pathsBelow root location).filter (fun p =>
          hasExtension extensions p.suffix && files.leadsToFile p) := by
      refine List.filter_congr fun p hp => ?_
      have hp' : p ∈ files'.pathsBelow root location := hbelow ▸ List.mem_append_left _ hp
      rcases hall p hp' with ⟨found, hfile⟩
      rcases h.fileAt_cases hfile with hbefore | ⟨-, number, output, rfl, houtput, hwritten⟩
      · rw [leadsToFile, leadsToFile, hfile, hbefore]
      · have hunwanted : hasExtension extensions p.suffix = false := by
          by_contra hwanted
          exact hkept p hp' (by simpa using hwanted) number hfile output houtput hwritten
        rw [hunwanted, Bool.false_and, Bool.false_and]
    have hnew : ((Files.mk more [] []).pathsBelow root location).filter (fun p =>
          hasExtension extensions p.suffix && files'.leadsToFile p) = [] := by
      refine List.filter_eq_nil_iff.2 fun p hp hwanted => ?_
      have hp' : p ∈ files'.pathsBelow root location := hbelow ▸ List.mem_append_right _ hp
      rw [Bool.and_eq_true] at hwanted
      rcases leadsToFile_iff.1 hwanted.2 with ⟨n, hfile⟩
      rcases List.mem_map.1 hp with ⟨names, hnames, rfl⟩
      rcases mem_namesBelow_iff.1 hnames with ⟨hne, entry, hmem⟩
      rcases hmore _ hmem with ⟨number, output, rfl, houtput, hl, hwritten⟩
      -- the path leads straight down to the new file, to which the output leads
      rcases fileAt_eq_ok_some_iff.1 hwritten with ⟨l, -, hl', hentry⟩
      obtain rfl : location ++ names = l := Except.ok.inj (hl.symm.trans hl')
      rcases fileAt_eq_ok_some_iff.1 hfile with ⟨l, -, hp'', hentry'⟩
      rcases htree.locate_join hlocate' hne hentry rfl with hway | hway
      · obtain rfl : location ++ names = l := Except.ok.inj (hway.symm.trans hp'')
        obtain rfl : number = n := by simpa using hentry.symm.trans hentry'
        exact hkept _ hp' hwanted.1 number hfile output houtput hwritten
      · rw [hway] at hp''
        cases hp''
    rw [hold, hnew, List.append_nil]

end WrittenAt

end Files

end ComponentMarkup
