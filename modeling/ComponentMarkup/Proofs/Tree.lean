import ComponentMarkup.Proofs.Files
import ComponentMarkup.Proofs.Path

/-!
# File trees

In a file tree everything stands in a directory, under a proper name. What a path leads to can be
put there without breaking the tree (`IsTree.isPlace_of_resolve`, `IsTree.set`), and the path from a
directory down to a file is missing nowhere on its way (`IsTree.locate_join`). The links on the way
to the directory are followed first, whatever comes behind it (`exists_follow_append`).
-/

namespace ComponentMarkup

/-- A name that a file or a directory can have. -/
structure Name.IsProper (name : Name) : Prop where
  ne_nil : name ≠ []
  ne_here : name ≠ Name.here
  ne_up : name ≠ Name.up
  slash : '/' ∉ name
  null : '\x00' ∉ name

theorem Name.isProper_iff {name : Name} :
    name.IsProper ↔ name ≠ [] ∧ name ≠ here ∧ name ≠ up ∧ '/' ∉ name ∧ '\x00' ∉ name :=
  ⟨fun h => ⟨h.1, h.2, h.3, h.4, h.5⟩, fun ⟨h₁, h₂, h₃, h₄, h₅⟩ => ⟨h₁, h₂, h₃, h₄, h₅⟩⟩

instance : DecidablePred Name.IsProper := fun _ => decidable_of_iff _ Name.isProper_iff.symm

/-- The target of an entry, if it is a link. -/
def FileEntry.target? : FileEntry → Option (List Char)
  | .link target => some target
  | _ => none

namespace Files

/-- All that there is stands in a directory, under a proper name, and links lead to paths that may
be passed on to the file system. The working directory is no link. -/
structure IsTree (files : Files) : Prop where
  ne_nil : ∀ b ∈ files.bindings, b.1 ≠ []
  proper : ∀ b ∈ files.bindings, ∀ name ∈ b.1, name.IsProper
  held : ∀ b ∈ files.bindings, files.find? b.1.dropLast = some .directory
  targets : ∀ b ∈ files.bindings, ∀ target ∈ b.2.target?, '\x00' ∉ target
  workingDirectory : (files.find? files.workingDirectory).bind FileEntry.target? = none

/-- A location where something is or can be: one with proper names, in a directory. -/
structure IsPlace (files : Files) (location : List Name) : Prop where
  proper : ∀ name ∈ location, name.IsProper
  held : files.find? location.dropLast = some .directory

variable {files : Files} {location here : List Name} {there : List Name × List Name}
variable {entry : FileEntry} {path : List Char} {last : Bool} {links : Nat}

theorem mem_bindings_of_find? (h : files.find? location = some entry) (hne : location ≠ []) :
    (location, entry) ∈ files.bindings := by
  rw [find?, if_neg hne] at h
  exact mem_of_findBinding h

theorem isPlace_nil : files.IsPlace [] := ⟨fun _ hname => (List.not_mem_nil hname).elim, rfl⟩

namespace IsTree

theorem isPlace (h : files.IsTree) (hfind : files.find? location = some entry) :
    files.IsPlace location := by
  by_cases hne : location = []
  · subst hne
    exact isPlace_nil
  · have hmem := mem_bindings_of_find? hfind hne
    exact ⟨h.proper _ hmem, h.held _ hmem⟩

theorem null_of_link (h : files.IsTree) {target : List Char}
    (hlink : files.find? location = some (.link target)) : '\x00' ∉ target := by
  have hne : location ≠ [] := by
    rintro rfl
    cases hlink
  exact h.targets _ (mem_bindings_of_find? hlink hne) target rfl

/-- What something is below is a directory. -/
theorem directory_of_append (h : files.IsTree) {names : List Name}
    (hfind : files.find? (location ++ names) = some entry) (hne : names ≠ []) :
    files.find? location = some .directory := by
  -- what is one name further down is a directory or the end of the way, and stands in this one
  induction names generalizing location with
  | nil => exact absurd rfl hne
  | cons name names ih =>
      have hbelow : ∃ e, files.find? (location ++ [name]) = some e := by
        by_cases hnames : names = []
        · exact ⟨entry, hnames ▸ hfind⟩
        · rw [List.append_cons] at hfind
          exact ⟨.directory, ih hfind hnames⟩
      rcases hbelow with ⟨e, he⟩
      have hheld := (h.isPlace he).held
      rwa [List.dropLast_concat] at hheld

end IsTree

/-! ## Walks -/

/-- A walk with names starts at something. -/
theorem exists_find?_of_walk {names : List Name} (hne : names ≠ [])
    (h : files.walk here names = .ok there) : ∃ entry, files.find? here = some entry := by
  cases names with
  | nil => exact absurd rfl hne
  | cons name names =>
      rw [walk] at h
      split at h
      · cases h
      · cases h
      · exact ⟨_, by assumption⟩
      · exact ⟨_, by assumption⟩

/-- A walk stops before its end at a link only. -/
theorem exists_link_of_walk {names : List Name} (h : files.walk here names = .ok there)
    (hrest : there.2 ≠ []) : ∃ target, files.find? there.1 = some (.link target) := by
  fun_induction walk files here names with
  | case1 =>
      obtain rfl := Except.ok.inj h
      exact absurd rfl hrest
  | case2 | case3 | case5 => cases h
  | case4 here name names target hhere =>
      obtain rfl := Except.ok.inj h
      exact ⟨target, hhere⟩
  | case6 here name names hhere hlength hstays ih => exact ih h
  | case7 here names hhere hlength hstays ih => exact ih h
  | case8 here name names hhere hlength hstays hup ih => exact ih h

/-- A walk goes on with further names where it stopped. -/
theorem walk_append {names : List Name} (h : files.walk here names = .ok there)
    (more : List Name) :
    files.walk here (names ++ more) = files.walk there.1 (there.2 ++ more) := by
  -- along the walk itself; a link or the end of the names stops it, and then the rest is what is
  -- left
  fun_induction walk files here names with
  | case1 here =>
      obtain rfl := Except.ok.inj h
      rfl
  | case2 | case3 | case5 => cases h
  | case4 here name names target hhere =>
      obtain rfl := Except.ok.inj h
      rfl
  | case6 here name names hhere hlength hstays ih =>
      rw [List.cons_append, walk, hhere]
      simp only [if_neg hlength, if_pos hstays]
      exact ih h
  | case7 here names hhere hlength hstays ih =>
      rw [List.cons_append, walk, hhere]
      simp only [if_neg hlength, if_neg hstays, if_true]
      exact ih h
  | case8 here name names hhere hlength hstays hup ih =>
      rw [List.cons_append, walk, hhere]
      simp only [if_neg hlength, if_neg hstays, if_neg hup]
      exact ih h

theorem walk_of_link {target : List Char} (hlink : files.find? here = some (.link target))
    {names : List Name} (hne : names ≠ []) : files.walk here names = .ok (here, names) := by
  cases names with
  | nil => exact absurd rfl hne
  | cons name names => rw [walk, hlink]

/-- An empty name and that of the directory itself lead nowhere else. -/
theorem walk_cons_of_stays {name : Name} (hhere : files.find? here = some .directory)
    (hname : name = [] ∨ name = Name.here) (names : List Name) :
    files.walk here (name :: names) = files.walk here names := by
  have hlength : ¬ (Utf8.encode name).length > nameLimit := by
    rcases hname with rfl | rfl <;> decide
  rw [walk, hhere]
  simp only [if_neg hlength, if_pos hname]

theorem walk_replicate_nil (n : Nat) (names : List Name) :
    files.walk [] (List.replicate n [] ++ names) = files.walk [] names := by
  induction n with
  | zero => rfl
  | succ n ih =>
      rw [List.replicate_succ, List.cons_append, walk_cons_of_stays rfl (.inl rfl), ih]

/-- A walk leads from a place to a place, with names that were given to it. -/
theorem IsTree.of_walk (h : files.IsTree) {names : List Name}
    (hnames : ∀ name ∈ names, '/' ∉ name ∧ '\x00' ∉ name) (hhere : files.IsPlace here)
    (hwalk : files.walk here names = .ok there) :
    files.IsPlace there.1 ∧ ∀ name ∈ there.2, '/' ∉ name ∧ '\x00' ∉ name := by
  -- along the walk; only a step down makes a new place, and its name is proper, as the other kinds
  -- were handled before
  fun_induction walk files here names with
  | case1 here =>
      obtain rfl := Except.ok.inj hwalk
      exact ⟨hhere, hnames⟩
  | case2 | case3 | case5 => cases hwalk
  | case4 here name names target hfind =>
      obtain rfl := Except.ok.inj hwalk
      exact ⟨hhere, hnames⟩
  | case6 here name names hfind hlength hstays ih =>
      exact ih (fun n hn => hnames n (.tail name hn)) hhere hwalk
  | case7 here names hfind hlength hstays ih =>
      -- one up from a place is a place, since its directory is held in a directory
      exact ih (fun n hn => hnames n (.tail _ hn)) (h.isPlace hhere.held) hwalk
  | case8 here name names hfind hlength hstays hup ih =>
      rw [not_or] at hstays
      rcases hnames name (List.mem_cons_self ..) with ⟨hslash, hnull⟩
      -- one down: the name is neither empty nor a dot, and the location above is the directory just
      -- found
      refine ih (fun n hn => hnames n (.tail name hn)) ⟨?_, ?_⟩ hwalk
      · intro n hn
        rcases List.mem_append.1 hn with hn | hn
        · exact hhere.proper n hn
        · obtain rfl := List.mem_singleton.1 hn
          exact ⟨hstays.1, hstays.2, hup, hslash, hnull⟩
      · rw [List.dropLast_concat, hfind]

/-- A walk leads straight down to what there is, unless a name is too long. -/
theorem IsTree.walk_of_find? (h : files.IsTree) {names : List Name}
    (hfind : files.find? (here ++ names) = some entry) :
    files.walk here names = .ok (here ++ names, []) ∨
      files.walk here names = .error .nameTooLong := by
  -- induction on the names below: everything above the entry is a directory, so the walk never
  -- meets a link
  induction names generalizing here with
  | nil => exact .inl (by rw [walk, List.append_nil])
  | cons name names ih =>
      have hhere := h.directory_of_append hfind (List.cons_ne_nil name names)
      have hname : name.IsProper := (h.isPlace hfind).proper name (by simp)
      rw [walk, hhere]
      dsimp only
      split
      · -- a name that is too long is refused before it is looked up
        exact .inr rfl
      · rw [if_neg (not_or.2 ⟨hname.ne_nil, hname.ne_here⟩), if_neg hname.ne_up]
        have happend : here ++ name :: names = (here ++ [name]) ++ names := by simp
        rw [happend] at hfind ⊢
        exact ih hfind

/-! ## Where paths lead -/

theorem pendingLink_eq_none (hentry : (files.find? there.1).bind FileEntry.target? = none) :
    files.pendingLink last there = none := by
  unfold pendingLink
  split
  · next target hlink =>
    rw [hlink] at hentry
    cases hentry
  · rfl

theorem of_pendingLink {target : List Char} (h : files.pendingLink last there = some target) :
    files.find? there.1 = some (.link target) := by
  unfold pendingLink at h
  split at h
  · next target' hlink =>
    split at h
    · cases h
    · rw [hlink, Option.some.inj h]
  · cases h

theorem pendingLink_of_names {target : List Char}
    (hlink : files.find? there.1 = some (.link target)) (hrest : there.2 ≠ []) :
    files.pendingLink last there = some target := by
  rw [pendingLink, hlink]
  exact if_neg fun h => hrest h.1

/-- Names lead to where a walk leads with them, if there is no link. -/
theorem follow_of_walk {names : List Name} (hwalk : files.walk here names = .ok there)
    (hentry : (files.find? there.1).bind FileEntry.target? = none) :
    files.follow last links here names = .ok there.1 := by
  rw [follow, hwalk]
  simp only [pendingLink_eq_none hentry]

/-- Slashes lead to the root. -/
theorem follow_slashes (start : List Name) (n : Nat) :
    files.follow last links (startFrom start (List.replicate (n + 1) '/' ++ []))
      (splitSlashes (List.replicate (n + 1) '/' ++ [])) = .ok [] := by
  have hstart : startFrom start (List.replicate (n + 1) '/' ++ []) = [] := if_pos rfl
  have hempty : splitSlashes [] = [[]] := rfl
  have hwalk : files.walk [] (List.replicate (n + 1) [] ++ [[]]) = .ok ([], []) := by
    rw [walk_replicate_nil, walk_cons_of_stays rfl (.inl rfl), walk]
  rw [hstart, splitSlashes_replicate_append, hempty, follow_of_walk hwalk rfl]

theorem follow_congr {here' : List Name} {names names' : List Name}
    (h : files.walk here names = files.walk here' names') :
    files.follow last links here names = files.follow last links here' names' := by
  rw [follow, h, ← follow]

/-- Names that lead somewhere with all links followed lead on from there, with the links that may
be followed still. -/
theorem exists_follow_append {names more : List Name} (hmore : more ≠ [])
    (h : files.follow true links here names = .ok location) :
    ∃ left, ∀ last, files.follow last links here (names ++ more) =
      files.follow last left location more := by
  -- the induction is on the links that are followed; one at the end of the names is passed too
  fun_induction follow files true links here names with
  | case1 | case3 => cases h
  | case2 links here names there hwalk hnone =>
      obtain rfl := Except.ok.inj h
      have hrest : there.2 = [] := by
        by_cases hrest : there.2 = []
        · exact hrest
        · rcases exists_link_of_walk hwalk hrest with ⟨target, hlink⟩
          rw [pendingLink_of_names hlink hrest] at hnone
          cases hnone
      refine ⟨links, fun last => follow_congr ?_⟩
      rw [walk_append hwalk, hrest, List.nil_append]
  | case4 here names there hwalk target links hlink ih =>
      have hfind := of_pendingLink hlink
      have hne : there.2 ++ more ≠ [] := by simp [hmore]
      rcases ih h with ⟨left, hleft⟩
      refine ⟨left, fun last => ?_⟩
      have hpending : files.pendingLink last (there.1, there.2 ++ more) = some target :=
        pendingLink_of_names hfind hne
      rw [follow, walk_append hwalk, walk_of_link hfind hne]
      simp only [hpending]
      rw [← hleft last, List.append_assoc]

theorem exists_walk_of_follow {names : List Name}
    (h : files.follow last links here names = .ok location) :
    ∃ there, files.walk here names = .ok there := by
  rw [follow] at h
  split at h
  · cases h
  · exact ⟨_, by assumption⟩

theorem follow_of_resolve (h : files.resolve last path = .ok location) :
    path ≠ [] ∧ files.follow last linkLimit (startFrom files.workingDirectory path)
      (splitSlashes path) = .ok location := by
  unfold resolve at h
  split at h
  · cases h
  · next hne =>
    split at h
    · cases h
    · exact ⟨hne, h⟩

namespace IsTree

theorem isPlace_of_follow (h : files.IsTree) {names : List Name}
    (hnames : ∀ name ∈ names, '/' ∉ name ∧ '\x00' ∉ name) (hhere : files.IsPlace here)
    (hfollow : files.follow last links here names = .ok location) : files.IsPlace location := by
  fun_induction follow files last links here names with
  | case1 | case3 => cases hfollow
  | case2 links here names there hwalk hnone =>
      obtain rfl := Except.ok.inj hfollow
      exact (h.of_walk hnames hhere hwalk).1
  | case4 here names there hwalk target links hlink ih =>
      rcases h.of_walk hnames hhere hwalk with ⟨hplace, hrest⟩
      have hnull := h.null_of_link (of_pendingLink hlink)
      refine ih (fun name hname => ?_) ?_ hfollow
      · rcases List.mem_append.1 hname with hname | hname
        · exact ⟨fun hslash => (mem_of_mem_splitSlashes hname hslash).2 rfl,
            fun hnull' => hnull (mem_of_mem_splitSlashes hname hnull').1⟩
        · exact hrest name hname
      · -- a link leads on from the root or from the directory that holds it
        unfold startFrom
        split
        · exact isPlace_nil
        · exact h.isPlace hplace.held

/-- What files hold does not matter to a tree. -/
theorem fill (h : files.IsTree) (number : Nat) (bytes : List UInt8) :
    (files.fill number bytes).IsTree :=
  ⟨h.ne_nil, h.proper, h.held, h.targets, h.workingDirectory⟩

theorem isPlace_of_resolve (h : files.IsTree) (hnull : '\x00' ∉ path)
    (hresolve : files.resolve last path = .ok location) : files.IsPlace location := by
  have hfollow := (follow_of_resolve hresolve).2
  rcases exists_walk_of_follow hfollow with ⟨there, hwalk⟩
  rcases exists_find?_of_walk (splitSlashes_ne_nil path) hwalk with ⟨entry, hentry⟩
  refine h.isPlace_of_follow ?_ (h.isPlace hentry) hfollow
  intro name hname
  exact ⟨fun hslash => (mem_of_mem_splitSlashes hname hslash).2 rfl,
    fun hnull' => hnull (mem_of_mem_splitSlashes hname hnull').1⟩

/-- A place in a tree can take an entry, unless a directory is there. -/
theorem set (h : files.IsTree) (hplace : files.IsPlace location)
    (hfree : files.find? location ≠ some .directory) {entry : FileEntry}
    (hentry : entry.target? = none) : (files.set location entry).IsTree := by
  have hne : location ≠ [] := by
    rintro rfl
    exact hfree rfl
  -- every binding is the new one or an old one, and directories stay what they are
  have hmem {b : List Name × FileEntry} (hb : b ∈ (files.set location entry).bindings) :
      b = (location, entry) ∨ b ∈ files.bindings := mem_setBinding hb
  have hdirectory {l : List Name} (hl : files.find? l = some .directory) :
      (files.set location entry).find? l = some .directory := by
    have hother : l ≠ location := by
      rintro rfl
      exact hfree hl
    rw [find?_set files hne, if_neg hother, hl]
  refine ⟨fun b hb => ?_, fun b hb => ?_, fun b hb => ?_, fun b hb => ?_, ?_⟩
  · rcases hmem hb with rfl | hb
    · exact hne
    · exact h.ne_nil b hb
  · rcases hmem hb with rfl | hb
    · exact hplace.proper
    · exact h.proper b hb
  · rcases hmem hb with rfl | hb
    · exact hdirectory hplace.held
    · exact hdirectory (h.held b hb)
  · rcases hmem hb with rfl | hb
    · intro target htarget
      rw [hentry] at htarget
      cases htarget
    · exact h.targets b hb
  · -- the working directory is the root of the relative paths and must not become a link
    have hworking : (files.set location entry).workingDirectory = files.workingDirectory := rfl
    rw [hworking, find?_set files hne]
    split
    · exact hentry
    · exact h.workingDirectory

theorem write (h : files.IsTree) {written : Files} {bytes : List UInt8}
    (hwrite : files.write path bytes = .ok written) : written.IsTree := by
  rcases exists_hasWritten hwrite with ⟨location, number, hwritten⟩
  rw [hwritten.after]
  refine (h.set (h.isPlace_of_resolve hwritten.null hwritten.locate) ?_ rfl).fill number bytes
  rcases hwritten.before with hfile | ⟨hfree, -⟩
  · simp [hfile]
  · simp [hfree]

end IsTree

/-! ## The way down to what there is -/

/-- The names behind the text of a path to a directory lead on from this one. -/
theorem IsTree.exists_follow_front (h : files.IsTree) {root : Path} {names : List Name}
    (hroot : files.locate root.text = .ok here) (hne : names ≠ [])
    (hsplit : splitSlashes (joinNames names) = names)
    (hhead : (joinNames names).head? ≠ some '/') :
    ∃ left, ∀ last, files.follow last linkLimit
        (startFrom files.workingDirectory (root.front ++ joinNames names))
        (splitSlashes (root.front ++ joinNames names)) = files.follow last left here names := by
  rcases follow_of_resolve hroot with ⟨hrootne, hfollow⟩
  by_cases hnames : root.names = []
  · have hfront : root.front = List.replicate root.slashes '/' := if_pos hnames
    cases hslashes : root.slashes with
    | zero =>
        -- the working directory, which is no link
        have htext : root.text = Name.here := if_pos ⟨hslashes, hnames⟩
        have hcut : splitSlashes Name.here = [Name.here] := splitSlashes_of_not_mem (by decide)
        have hstart : startFrom files.workingDirectory Name.here = files.workingDirectory := rfl
        rw [htext, hcut, hstart] at hfollow
        rcases exists_walk_of_follow hfollow with ⟨there, hwalk⟩
        rcases exists_find?_of_walk (List.cons_ne_nil _ _) hwalk with ⟨entry, hentry⟩
        have hdirectory : files.find? files.workingDirectory = some .directory := by
          cases entry with
          | directory => exact hentry
          | file number =>
              rw [walk, hentry] at hwalk
              cases hwalk
          | link target =>
              have hlink := h.workingDirectory
              rw [hentry] at hlink
              cases hlink
        have hstays := walk_cons_of_stays hdirectory (.inr rfl) []
        rw [walk] at hstays
        rw [follow_of_walk hstays h.workingDirectory] at hfollow
        obtain rfl := Except.ok.inj hfollow
        refine ⟨linkLimit, fun last => ?_⟩
        rw [hfront, hslashes, List.replicate_zero, List.nil_append, startFrom, if_neg hhead, hsplit]
    | succ n =>
        -- the root
        have htext : root.text = List.replicate (n + 1) '/' ++ [] := by
          rw [Path.text, if_neg (by simp [hslashes]), hnames, hslashes]
          rfl
        have hstart (more : List Char) : startFrom files.workingDirectory
            (List.replicate (n + 1) '/' ++ more) = [] := if_pos rfl
        rw [htext, follow_slashes] at hfollow
        obtain rfl := Except.ok.inj hfollow
        refine ⟨linkLimit, fun last => follow_congr ?_⟩
        rw [hfront, hslashes, hstart, splitSlashes_replicate_append, hsplit, walk_replicate_nil]
  · have hfront : root.front ++ joinNames names = root.text ++ '/' :: joinNames names := by
      rw [Path.front, if_neg hnames, List.append_assoc, List.singleton_append]
    have hstart : startFrom files.workingDirectory (root.text ++ '/' :: joinNames names) =
        startFrom files.workingDirectory root.text := by
      cases htext : root.text with
      | nil => exact absurd htext hrootne
      | cons c cs => rfl
    rw [hfront, hstart, splitSlashes_append, hsplit]
    exact exists_follow_append hne hfollow

/-- The path from a directory down to what there is leads there, if its text and its names are not
too long and it is no link. -/
theorem IsTree.locate_join (h : files.IsTree) {root : Path} {names : List Name}
    (hroot : files.locate root.text = .ok here) (hne : names ≠ [])
    (hfind : files.find? (here ++ names) = some entry) (hentry : entry.target? = none) :
    files.locate (root.join ⟨0, names⟩).text = .ok (here ++ names) ∨
      files.locate (root.join ⟨0, names⟩).text = .error .nameTooLong := by
  have hproper : ∀ name ∈ names, name.IsProper := fun name hname =>
    (h.isPlace hfind).proper name (List.mem_append_right here hname)
  -- the names below begin with no slash, so joining them does not make the path absolute
  have hhead : ∃ c, (joinNames names).head? = some c ∧ c ≠ '/' := by
    cases names with
    | nil => exact absurd rfl hne
    | cons name names =>
        have hname := hproper name (List.mem_cons_self ..)
        refine ⟨name.head hname.ne_nil, ?_, fun hslash => hname.slash ?_⟩
        · rw [head?_joinNames hname.ne_nil, List.head?_eq_some_head hname.ne_nil]
        · exact hslash ▸ List.head_mem hname.ne_nil
  rcases hhead with ⟨c, hc, hslash⟩
  have hsplit := splitSlashes_joinNames (fun name hname => (hproper name hname).slash) hne
  -- the joined path first leads where the root does, with the links left that the root did not use
  rcases h.exists_follow_front hroot hne hsplit (by simp [hc, hslash]) with ⟨left, hleft⟩
  have htext : root.front ++ joinNames names ≠ [] := by
    intro hnil
    rw [(List.append_eq_nil_iff.1 hnil).2] at hc
    cases hc
  rw [Path.text_join_names root hne, locate, resolve, if_neg htext]
  split
  · exact .inr rfl
  · rw [hleft]
    rcases h.walk_of_find? hfind with hwalk | hwalk
    · exact .inl (follow_of_walk hwalk (by rw [hfind]; exact hentry))
    · rw [follow, hwalk]
      exact .inr rfl

end Files

end ComponentMarkup
