import ComponentMarkup.Proofs.ImportPath
import ComponentMarkup.Proofs.Path

/-!
# The way back along an import path

An import path is the path from the root to the script, less the suffix of its last name. We show
that nothing else is lost (`importPath_leadsBack`): with its suffix it leads up from what only the
root has and then down to the script, so joined to the root it leads back to where the script is.
It depends on nothing but the names behind those that root and script have in common, and the suffix
that it lacks is the one by which the kind of the script was chosen.

Three facts carry the proof. The names of an absolute path lead nowhere up, so following them is
appending them (`foldl_followName_of_ne_up`); writing a path and reading it again changes nothing
(`Path.ofText_text`); and a name is its stem and its suffix (`splitSuffix_append`).
-/

namespace ComponentMarkup

/-! ## Names that say something -/

/-- A name between two slashes that is not skipped. -/
structure Name.IsPlain (name : Name) : Prop where
  ne_nil : name ≠ []
  ne_here : name ≠ Name.here
  slash : '/' ∉ name

theorem Name.isPlain_iff {name : Name} :
    name.IsPlain ↔ name ≠ [] ∧ name ≠ here ∧ '/' ∉ name :=
  ⟨fun h => ⟨h.1, h.2, h.3⟩, fun ⟨h₁, h₂, h₃⟩ => ⟨h₁, h₂, h₃⟩⟩

instance : DecidablePred Name.IsPlain := fun _ => decidable_of_iff _ Name.isPlain_iff.symm

theorem isPlain_of_mem_pathNames {path : List Char} {name : Name} (h : name ∈ pathNames path) :
    name.IsPlain := by
  have hproper : name ≠ [] ∧ name ≠ Name.here := by simpa using (List.mem_filter.1 h).2
  exact ⟨hproper.1, hproper.2, not_mem_slash_of_mem_pathNames h⟩

/-! ## Following names -/

/-- Names that do not lead up are appended. -/
theorem foldl_followName_of_ne_up {names : List Name} (h : ∀ name ∈ names, name ≠ Name.up)
    (start : List Name) : names.foldl followName start = start ++ names := by
  induction names generalizing start with
  | nil => simp
  | cons name names ih =>
      have hname : name ≠ Name.up := h name (List.mem_cons_self ..)
      have hnames : ∀ n ∈ names, n ≠ Name.up := fun n hn => h n (List.mem_cons_of_mem _ hn)
      rw [List.foldl_cons, followName, if_neg hname, ih hnames, List.append_assoc,
        List.singleton_append]

/-- One step up for each of the last names leads to those in front of them. -/
theorem foldl_followName_replicate_up (names last : List Name) :
    (List.replicate last.length Name.up).foldl followName (names ++ last) = names := by
  induction last generalizing names with
  | nil => simp
  | cons name last ih =>
      have hinner := ih (names ++ [name])
      rw [List.append_assoc, List.singleton_append] at hinner
      rw [List.length_cons, List.replicate_succ', List.foldl_append, hinner, List.foldl_cons,
        List.foldl_nil, followName, if_pos rfl, List.dropLast_concat]

/-- Whatever is followed, the names that are left lead nowhere up. -/
theorem of_mem_foldl_followName {p : Name → Prop} {names start : List Name}
    (hstart : ∀ name ∈ start, p name ∧ name ≠ Name.up) (hnames : ∀ name ∈ names, p name) :
    ∀ name ∈ names.foldl followName start, p name ∧ name ≠ Name.up := by
  -- induction on the names that are followed; `..` removes a name and never adds one
  induction names generalizing start with
  | nil => exact hstart
  | cons name names ih =>
      refine ih ?_ fun n hn => hnames n (List.mem_cons_of_mem _ hn)
      intro n hn
      -- the name was kept from the start, or it is the one just followed
      unfold followName at hn
      split at hn
      · exact hstart n (List.dropLast_subset _ hn)
      · next hne =>
        rcases List.mem_append.1 hn with hn | hn
        · exact hstart n hn
        · obtain rfl := List.mem_singleton.1 hn
          exact ⟨hnames n (List.mem_cons_self ..), hne⟩

/-- The names of an absolute path are plain and lead nowhere up. -/
theorem of_mem_absoluteNames {workingDirectory : List Name}
    (hdirectory : ∀ name ∈ workingDirectory, name.IsPlain) {path : List Char} :
    ∀ name ∈ absoluteNames workingDirectory path, name.IsPlain ∧ name ≠ Name.up := by
  apply of_mem_foldl_followName
  · intro name hname
    cases hname
  · intro name hname
    rcases List.mem_append.1 hname with hname | hname
    · split at hname
      · cases hname
      · exact hdirectory name hname
    · exact isPlain_of_mem_pathNames hname

/-! ## Reading what is written -/

theorem head?_joinNames_ne_slash {names : List Name} (h : ∀ name ∈ names, name.IsPlain) :
    (joinNames names).head? ≠ some '/' := by
  cases names with
  | nil => simp [joinNames]
  | cons name names =>
      have hname := h name (List.mem_cons_self ..)
      rw [head?_joinNames hname.ne_nil]
      intro hhead
      exact hname.slash (List.mem_of_mem_head? hhead)

/-- The names of a path that is written are read again. -/
theorem pathNames_replicate_append {names : List Name} (h : ∀ name ∈ names, name.IsPlain)
    (slashes : Nat) : pathNames (List.replicate slashes '/' ++ joinNames names) = names := by
  have hempty : (List.replicate slashes ([] : Name)).filter
      (fun name => name ≠ [] ∧ name ≠ Name.here) = [] := by
    rw [List.filter_eq_nil_iff]
    intro name hname
    simp [List.eq_of_mem_replicate hname]
  rw [pathNames, splitSlashes_replicate_append, List.filter_append, hempty, List.nil_append]
  by_cases hnil : names = []
  · rw [hnil]
    rfl
  · rw [splitSlashes_joinNames (fun name hname => (h name hname).slash) hnil, List.filter_eq_self]
    intro name hname
    simpa using ⟨(h name hname).ne_nil, (h name hname).ne_here⟩

theorem takeWhile_replicate_append {slashes : Nat} {rest : List Char}
    (h : rest.head? ≠ some '/') :
    (List.replicate slashes '/' ++ rest).takeWhile (· = '/') = List.replicate slashes '/' := by
  have hslashes : ∀ c ∈ List.replicate slashes '/', decide (c = '/') = true := by
    intro c hc
    exact decide_eq_true (List.eq_of_mem_replicate hc)
  have hrest : rest.takeWhile (· = '/') = [] := by
    cases rest with
    | nil => rfl
    | cons c cs =>
        have hc : c ≠ '/' := fun heq => h (by rw [heq]; rfl)
        simp [hc]
  rw [List.takeWhile_append_of_pos hslashes, hrest, List.append_nil]

/-- A path is read as it was written. -/
theorem Path.ofText_text {p : Path} (hslashes : p.slashes ≤ 2)
    (hnames : ∀ name ∈ p.names, name.IsPlain) : ofText p.text = p := by
  rcases p with ⟨slashes, names⟩
  unfold text
  split
  · next hnone =>
    obtain ⟨rfl, rfl⟩ : slashes = 0 ∧ names = [] := hnone
    rfl
  · have hmany : ¬ slashes > 2 := Nat.not_lt.2 hslashes
    simp only [ofText, takeWhile_replicate_append (head?_joinNames_ne_slash hnames),
      pathNames_replicate_append hnames, List.length_replicate, if_neg hmany]

/-- Names that are joined are read as a path that starts with no slash. -/
theorem Path.ofText_joinNames {names : List Name} (hne : names ≠ [])
    (hnames : ∀ name ∈ names, name.IsPlain) : ofText (joinNames names) = ⟨0, names⟩ := by
  have hwritten : text ⟨0, names⟩ = joinNames names := by
    rw [text, if_neg fun hnone => hne hnone.2]
    rfl
  rw [← hwritten]
  exact ofText_text (Nat.zero_le 2) hnames

theorem Path.slashes_ofText_le (path : List Char) : (ofText path).slashes ≤ 2 := by
  unfold ofText
  dsimp only
  split <;> omega

theorem Path.slashes_ofText_eq_zero_iff {path : List Char} :
    (ofText path).slashes = 0 ↔ path.head? ≠ some '/' := by
  cases path with
  | nil => simp [ofText]
  | cons c cs =>
      by_cases hc : c = '/'
      · have hpos : 0 < ((c :: cs).takeWhile (· = '/')).length := by simp [hc]
        refine iff_of_false ?_ (by simp [hc])
        unfold ofText
        dsimp only
        split <;> omega
      · simp [ofText, hc]

/-! ## Absolute paths -/

/-- A path in its plainest form, read from a working directory. -/
def absolutePath (workingDirectory : List Name) (path : List Char) : Path :=
  ⟨if (Path.ofText path).slashes = 2 then 2 else 1, absoluteNames workingDirectory path⟩

theorem absoluteNames_eq (workingDirectory : List Name) (path : List Char) :
    absoluteNames workingDirectory path =
      ((if (Path.ofText path).slashes = 0 then workingDirectory else []) ++
        (Path.ofText path).names).foldl followName [] := by
  unfold absoluteNames
  by_cases hhead : path.head? = some '/'
  · have hzero : ¬ (Path.ofText path).slashes = 0 :=
      fun hzero => Path.slashes_ofText_eq_zero_iff.1 hzero hhead
    rw [if_pos hhead, if_neg hzero]
    rfl
  · rw [if_neg hhead, if_pos (Path.slashes_ofText_eq_zero_iff.2 hhead)]
    rfl

/-- Names that are joined to a path are followed from where the path leads. -/
theorem absolutePath_join (workingDirectory : List Name) (path : List Char) {names : List Name}
    (hnames : ∀ name ∈ names, name.IsPlain) :
    absolutePath workingDirectory ((Path.ofText path).join ⟨0, names⟩).text =
      ⟨(absolutePath workingDirectory path).slashes,
        names.foldl followName (absoluteNames workingDirectory path)⟩ := by
  have hplain : ∀ name ∈ (Path.ofText path).names ++ names, name.IsPlain := by
    intro name hname
    rcases List.mem_append.1 hname with hname | hname
    · exact isPlain_of_mem_pathNames hname
    · exact hnames name hname
  have hread : Path.ofText ((Path.ofText path).join ⟨0, names⟩).text =
      ⟨(Path.ofText path).slashes, (Path.ofText path).names ++ names⟩ :=
    Path.ofText_text (Path.slashes_ofText_le path) hplain
  simp only [absolutePath, absoluteNames_eq, hread, ← List.append_assoc, List.foldl_append]

/-! ## Where paths part -/

/-- Two lists of names part behind the longest list that both start with. -/
structure IsParting (target root common down up : List Name) : Prop where
  eq_target : target = common ++ down
  eq_root : root = common ++ up
  longest : ∀ names, names <+: target → names <+: root → names.length ≤ common.length

theorem exists_isParting (target root : List Name) :
    ∃ common down up, IsParting target root common down up := by
  -- both paths are compared name by name until they part or one of them ends
  induction target generalizing root with
  | nil => exact ⟨[], [], root, rfl, rfl, fun names htarget _ => htarget.length_le⟩
  | cons name target ih =>
      cases root with
      | nil => exact ⟨[], name :: target, [], rfl, rfl, fun names _ hroot => hroot.length_le⟩
      | cons name' root =>
          -- a shared name extends the common part by one
          by_cases heq : name = name'
          · subst heq
            rcases ih root with ⟨common, down, up, htarget, hroot, hlongest⟩
            refine ⟨name :: common, down, up, congrArg _ htarget, congrArg _ hroot, ?_⟩
            intro names hnames hnames'
            cases names with
            | nil => exact Nat.zero_le _
            | cons first names =>
                have hle := hlongest names (List.cons_prefix_cons.1 hnames).2
                  (List.cons_prefix_cons.1 hnames').2
                exact Nat.succ_le_succ hle
          · -- different first names: nothing is shared
            refine ⟨[], name :: target, name' :: root, rfl, rfl, ?_⟩
            intro names hnames hnames'
            cases names with
            | nil => exact Nat.le_refl 0
            | cons first names =>
                have hfirst := (List.cons_prefix_cons.1 hnames).1
                have hfirst' := (List.cons_prefix_cons.1 hnames').1
                exact absurd (hfirst.symm.trans hfirst') heq

theorem relativeNames_append (common down up : List Name) :
    relativeNames (common ++ down) (common ++ up) = relativeNames down up := by
  induction common with
  | nil => rfl
  | cons name common ih => rw [List.cons_append, List.cons_append, relativeNames, if_pos rfl, ih]

/-- The way from the root to the target leads up to where they part, and down from there. -/
theorem IsParting.relativeNames_eq {target root common down up : List Name}
    (h : IsParting target root common down up) :
    relativeNames target root = List.replicate up.length Name.up ++ down := by
  rw [h.eq_target, h.eq_root, relativeNames_append]
  unfold relativeNames
  split
  · next name down name' up =>
    -- a name that both go on with would be one more that they have in common
    have hne : ¬ name = name' := by
      rintro rfl
      have htarget : common ++ [name] <+: target := ⟨down, by rw [h.eq_target]; simp⟩
      have hroot : common ++ [name] <+: root := ⟨up, by rw [h.eq_root]; simp⟩
      have hle := h.longest _ htarget hroot
      rw [List.length_append, List.length_singleton] at hle
      omega
    rw [if_neg hne]
  · rfl

/-! ## Suffixes -/

/-- A name is its stem and its suffix. -/
theorem splitSuffix_append (name : Name) : (splitSuffix name).1 ++ (splitSuffix name).2 = name := by
  -- the extension is what stands behind the last point
  have hsplit := List.takeWhile_append_dropWhile (p := (· ≠ '.')) (l := name.reverse)
  generalize hback : name.reverse.takeWhile (· ≠ '.') = back at hsplit
  unfold splitSuffix
  simp only [hback]
  split
  · exact List.append_nil name
  · next hsome =>
    cases hrest : name.reverse.dropWhile (· ≠ '.') with
    | nil =>
        rw [hrest, List.append_nil] at hsplit
        refine absurd (.inr ?_) hsome
        rw [hsplit, List.length_reverse, List.length_reverse, Nat.sub_self, Nat.zero_sub,
          List.take_zero]
    | cons c rest =>
        have hpoint : c = '.' := by
          have hhead := List.head?_dropWhile_not (p := (· ≠ '.')) name.reverse
          rw [hrest] at hhead
          simpa using hhead
        have hname : name = rest.reverse ++ '.' :: back.reverse := by
          rw [hrest, hpoint] at hsplit
          rw [← List.reverse_reverse name, ← hsplit]
          simp
        have hlen : name.length - back.reverse.length - 1 = rest.reverse.length := by
          rw [hname, List.length_append, List.length_cons]
          omega
        dsimp only
        rw [hlen]
        conv => lhs; rw [hname]
        rw [List.take_left]
        exact hname.symm

theorem splitSuffix_up : splitSuffix Name.up = (Name.up, []) := rfl

theorem joinNames_append_suffix (names : List Name) (stem suffix : Name) :
    joinNames (names ++ [stem]) ++ suffix = joinNames (names ++ [stem ++ suffix]) := by
  by_cases hnil : names = []
  · rw [hnil, List.nil_append, List.nil_append, joinNames_singleton, joinNames_singleton]
  · rw [joinNames_append hnil (List.cons_ne_nil stem []),
      joinNames_append hnil (List.cons_ne_nil (stem ++ suffix) []), List.append_assoc,
      List.cons_append, joinNames_singleton, joinNames_singleton]

/-- A path with a suffix leads to a name with this suffix. -/
theorem getLast?_absoluteNames {path : List Char} (h : pathSuffix path ≠ [])
    (workingDirectory : List Name) :
    ∃ name, (absoluteNames workingDirectory path).getLast? = some name ∧
      (splitSuffix name).2 = pathSuffix path := by
  unfold pathSuffix at h ⊢
  split at h
  · next name hlast =>
    rcases List.getLast?_eq_some_iff.1 hlast with ⟨names, hnames⟩
    have hup : name ≠ Name.up := by
      rintro rfl
      -- a last name `..` has no suffix
      exact h (by rw [splitSuffix_up])
    refine ⟨name, ?_, rfl⟩
    -- followed last, it is kept as it is
    unfold absoluteNames
    dsimp only
    rw [hnames, ← List.append_assoc, List.foldl_append, List.foldl_cons, List.foldl_nil, followName,
      if_neg hup, List.getLast?_concat]
  · exact absurd rfl h

/-! ## Import paths -/

section

variable {workingDirectory : List Name} {path : List Char} {root : Option (List Char)}

/-- The import path is the path from the root, without the suffix of its last name. -/
theorem importPath_eq {names : List Name} {name : Name} (hpath : path ≠ [])
    (hnames : relativeNames (absoluteNames workingDirectory path)
      (absoluteNames workingDirectory (root.getD [])) = names ++ [name]) :
    importPath workingDirectory path root =
      .ok ((joinNames (names ++ [(splitSuffix name).1])).map slashForBackslash) := by
  have hne : names ++ [name] ≠ [] := by simp
  unfold importPath
  dsimp only
  rw [if_neg hpath, hnames, if_neg hne, dropLastSuffix, List.getLast?_concat]
  dsimp only
  rw [List.dropLast_concat]

/-- The import path depends on the path from the root only. -/
theorem importPath_congr {workingDirectory' : List Name} {path' : List Char}
    {root' : Option (List Char)} (hpath : path ≠ []) (hpath' : path' ≠ [])
    (h : relativeNames (absoluteNames workingDirectory' path')
        (absoluteNames workingDirectory' (root'.getD [])) =
      relativeNames (absoluteNames workingDirectory path)
        (absoluteNames workingDirectory (root.getD []))) :
    importPath workingDirectory' path' root' = importPath workingDirectory path root := by
  unfold importPath
  rw [if_neg hpath, if_neg hpath', h]

/-- An import path and the suffix that it lacks are a way from the root to the script, and back from
the way to the script nothing is lost. -/
structure LeadsBack (workingDirectory : List Name) (path : List Char) (root : Option (List Char))
    (p s : List Char) : Prop where
  /-- But for its backslashes this is the import path. -/
  imported : importPath workingDirectory path root = .ok (p.map slashForBackslash)
  /-- What was dropped is the suffix of the last name. -/
  dropped : pathSuffix (p ++ s) = s
  /-- The way leads up from what only the root has and then down to what only the script has, and
  the import path depends on these names alone. -/
  way : ∃ common down up,
    IsParting (absoluteNames workingDirectory path)
      (absoluteNames workingDirectory (root.getD [])) common down up ∧
    Path.ofText (p ++ s) = ⟨0, List.replicate up.length Name.up ++ down⟩ ∧
    ∀ workingDirectory' path' root' common', path' ≠ [] →
      IsParting (absoluteNames workingDirectory' path')
        (absoluteNames workingDirectory' (root'.getD [])) common' down up →
      importPath workingDirectory' path' root' = importPath workingDirectory path root
  /-- Joined to the root, which may start with two slashes, the way leads to the script. -/
  back : absolutePath workingDirectory
      ((Path.ofText (root.getD [])).join (Path.ofText (p ++ s))).text =
    { absolutePath workingDirectory path with
      slashes := (absolutePath workingDirectory (root.getD [])).slashes }
  /-- If the path has a suffix, and does not lead to a directory above the root, then this suffix is
  what was dropped. -/
  suffix : pathSuffix path ≠ [] →
    ¬ absoluteNames workingDirectory path <+: absoluteNames workingDirectory (root.getD []) →
    s = pathSuffix path

/-- The names on the way from one path to another one are plain. -/
theorem IsParting.isPlain (hdirectory : ∀ name ∈ workingDirectory, name.IsPlain)
    {target common down up : List Name}
    (h : IsParting (absoluteNames workingDirectory path) target common down up) :
    (∀ name ∈ List.replicate up.length Name.up ++ down, name.IsPlain) ∧
      ∀ name ∈ down, name ≠ Name.up := by
  -- the names down are names of the path itself, which is normal and plain
  have hdown : ∀ name ∈ down, name.IsPlain ∧ name ≠ Name.up := by
    intro name hname
    have hmem : name ∈ absoluteNames workingDirectory path := by
      rw [h.eq_target]
      exact List.mem_append_right common hname
    exact of_mem_absoluteNames hdirectory name hmem
  constructor
  · intro name hname
    rcases List.mem_append.1 hname with hname | hname
    · rw [List.eq_of_mem_replicate hname]
      decide
    · exact (hdown name hname).1
  · intro name hname
    exact (hdown name hname).2

/-- Joined to the root, the way to where two paths part and on to the target leads to the target. -/
theorem IsParting.absolutePath_join (hdirectory : ∀ name ∈ workingDirectory, name.IsPlain)
    {from' : List Char} {common down up : List Name}
    (h : IsParting (absoluteNames workingDirectory path) (absoluteNames workingDirectory from')
      common down up) :
    absolutePath workingDirectory
        ((Path.ofText from').join ⟨0, List.replicate up.length Name.up ++ down⟩).text =
      { absolutePath workingDirectory path with
        slashes := (absolutePath workingDirectory from').slashes } := by
  rcases h.isPlain hdirectory with ⟨hplain, hdown⟩
  -- the steps up lead to where the paths part, and the names behind them lead down
  rw [ComponentMarkup.absolutePath_join workingDirectory from' hplain, h.eq_root,
    List.foldl_append, foldl_followName_replicate_up, foldl_followName_of_ne_up hdown,
    ← h.eq_target]
  rfl

/-- The last name on the way to a path that has a suffix is that of the path, unless the way only
leads up. -/
theorem IsParting.splitSuffix_eq {target common down up names : List Name} {name : Name}
    (h : IsParting (absoluteNames workingDirectory path) target common down up)
    (hway : List.replicate up.length Name.up ++ down = names ++ [name])
    (hsuffix : pathSuffix path ≠ []) (hbelow : ¬ absoluteNames workingDirectory path <+: target) :
    (splitSuffix name).2 = pathSuffix path := by
  rcases getLast?_absoluteNames hsuffix workingDirectory with ⟨name', hlast', hname'⟩
  -- the way has names below the common part, so its last name is that of the path
  have hdown : down ≠ [] := by
    rintro rfl
    apply hbelow
    rw [h.eq_target, h.eq_root, List.append_nil]
    exact List.prefix_append common up
  -- compare the last names of both descriptions
  have hofTarget := congrArg List.getLast? h.eq_target
  have hofNames := congrArg List.getLast? hway
  rw [hlast', List.getLast?_append, List.getLast?_eq_some_getLast hdown,
    Option.some_or] at hofTarget
  rw [List.getLast?_append, List.getLast?_eq_some_getLast hdown, Option.some_or,
    List.getLast?_concat] at hofNames
  obtain rfl := Option.some.inj (hofTarget.trans hofNames)
  exact hname'

/-- A path has an import path, unless it is empty or leads to the root itself, and this import path
leads back to it. -/
theorem importPath_leadsBack (hdirectory : ∀ name ∈ workingDirectory, name.IsPlain)
    (hpath : path ≠ [])
    (hroot : absoluteNames workingDirectory path ≠
      absoluteNames workingDirectory (root.getD [])) :
    ∃ p s, LeadsBack workingDirectory path root p s := by
  rcases exists_isParting (absoluteNames workingDirectory path)
    (absoluteNames workingDirectory (root.getD [])) with ⟨common, down, up, hparting⟩
  have hnames := hparting.relativeNames_eq
  have hne : List.replicate up.length Name.up ++ down ≠ [] := by
    intro hnil
    rw [hnil] at hnames
    exact hroot (eq_of_relativeNames_eq_nil hnames)
  -- the last name on the way is cut in two
  rcases List.eq_nil_or_concat (List.replicate up.length Name.up ++ down) with
    hnil | ⟨names, name, hlast⟩
  · exact absurd hnil hne
  rw [List.concat_eq_append] at hlast
  have htext : joinNames (names ++ [(splitSuffix name).1]) ++ (splitSuffix name).2 =
      joinNames (List.replicate up.length Name.up ++ down) := by
    rw [joinNames_append_suffix, splitSuffix_append, ← hlast]
  have hread : Path.ofText (joinNames (List.replicate up.length Name.up ++ down)) =
      ⟨0, List.replicate up.length Name.up ++ down⟩ :=
    Path.ofText_joinNames hne (hparting.isPlain hdirectory).1
  refine ⟨joinNames (names ++ [(splitSuffix name).1]), (splitSuffix name).2, ?_⟩
  refine {
    imported := importPath_eq hpath (hnames.trans hlast)
    dropped := ?_
    way := ⟨common, down, up, hparting, by rw [htext, hread], ?_⟩
    back := ?_
    suffix := hparting.splitSuffix_eq hlast }
  · have hpathNames : pathNames (joinNames (List.replicate up.length Name.up ++ down)) =
        names ++ [name] := (congrArg Path.names hread).trans hlast
    rw [htext, pathSuffix, hpathNames, List.getLast?_concat]
  · intro workingDirectory' path' root' common' hpath' hparting'
    exact importPath_congr hpath hpath' (hparting'.relativeNames_eq.trans hnames.symm)
  · rw [htext, hread]
    exact hparting.absolutePath_join hdirectory

/-- From a root beside the working directory: two steps up, a name with a backslash and a suffix, of
which the name keeps the first part. -/
theorem importPath_leadsBack_beside_root :
    ∃ (workingDirectory : List Name) (path : List Char) (root : Option (List Char)),
      workingDirectory = ["w".toList] ∧ path = "./src//x\\y.d.ts".toList ∧
      root = some "../lib/sub/.".toList ∧
      importPath workingDirectory path root = .ok "../../w/src/x/y.d".toList ∧
      (∀ name ∈ workingDirectory, name.IsPlain) ∧ path ≠ [] ∧
      absoluteNames workingDirectory path ≠ absoluteNames workingDirectory (root.getD []) ∧
      ∃ p s, LeadsBack workingDirectory path root p s := by
  have hdirectory : ∀ name ∈ ["w".toList], Name.IsPlain name := by decide
  have hpath : "./src//x\\y.d.ts".toList ≠ [] := by decide
  have hroot : absoluteNames ["w".toList] "./src//x\\y.d.ts".toList ≠
      absoluteNames ["w".toList] ((some "../lib/sub/.".toList).getD []) := by decide
  exact ⟨_, _, _, rfl, rfl, rfl, rfl, hdirectory, hpath, hroot,
    importPath_leadsBack hdirectory hpath hroot⟩

end

end ComponentMarkup
