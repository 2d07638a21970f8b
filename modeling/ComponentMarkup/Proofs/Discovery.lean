import ComponentMarkup.Project
import ComponentMarkup.Proofs.Compilation
import ComponentMarkup.Proofs.Tree

/-!
# The order of candidates

Candidates are found in the order of their names, one name after another; they are compiled in the
order of the texts of their paths. A slash comes behind some characters, so the two orders are not
the same: of two candidates the one that is found first is compiled last just if the other one
overtakes it (`IsOvertakenBy`), as `a-b.js` overtakes `a/c.js`.
-/

namespace ComponentMarkup

/-! ## Names and texts -/

/-- Names that lead below a directory are overtaken by names that go on, where the name of this
directory ends, with a character before the slash. -/
def IsOvertakenBy (as bs : List Name) : Prop :=
  ∃ front directory below c rest after, below ≠ [] ∧ as = front ++ directory :: below ∧
    bs = front ++ (directory ++ c :: rest) :: after ∧ c.toNat < '/'.toNat

section

variable {a b : Name} {as bs : List Name}

theorem isOvertakenBy_cons_self : IsOvertakenBy (a :: as) (a :: bs) ↔ IsOvertakenBy as bs := by
  constructor
  · rintro ⟨front, directory, below, c, rest, after, hbelow, has, hbs, hc⟩
    cases front with
    | nil =>
        -- the first names are the same, and one would be longer
        obtain ⟨rfl, -⟩ := List.cons.inj has
        have hlonger := congrArg List.length (List.cons.inj hbs).1
        simp at hlonger
    | cons name front =>
        exact ⟨front, directory, below, c, rest, after, hbelow, (List.cons.inj has).2,
          (List.cons.inj hbs).2, hc⟩
  · rintro ⟨front, directory, below, c, rest, after, hbelow, rfl, rfl, hc⟩
    exact ⟨a :: front, directory, below, c, rest, after, hbelow, rfl, rfl, hc⟩

theorem isOvertakenBy_append_left (front : List Name) :
    IsOvertakenBy (front ++ as) (front ++ bs) ↔ IsOvertakenBy as bs := by
  induction front with
  | nil => rfl
  | cons name front ih => rw [List.cons_append, List.cons_append, isOvertakenBy_cons_self, ih]

theorem isOvertakenBy_cons_of_ne (hne : a ≠ b) :
    IsOvertakenBy (a :: as) (b :: bs) ↔
      as ≠ [] ∧ ∃ c rest, b = a ++ c :: rest ∧ c.toNat < '/'.toNat := by
  constructor
  · rintro ⟨front, directory, below, c, rest, after, hbelow, has, hbs, hc⟩
    cases front with
    | nil =>
        obtain ⟨rfl, rfl⟩ := List.cons.inj has
        exact ⟨hbelow, c, rest, (List.cons.inj hbs).1, hc⟩
    | cons name front =>
        exact absurd ((List.cons.inj has).1.trans (List.cons.inj hbs).1.symm) hne
  · rintro ⟨has, c, rest, rfl, hc⟩
    exact ⟨[], a, as, c, rest, bs, has, rfl, rfl, hc⟩

/-- What is overtaken comes first by its names. -/
theorem IsOvertakenBy.namesBefore (h : IsOvertakenBy as bs) : namesBefore as bs = true := by
  rcases h with ⟨front, directory, below, c, rest, after, -, rfl, rfl, -⟩
  have hlonger : charsBefore (directory ++ []) (directory ++ c :: rest) = true := by
    rw [charsBefore_append_left]
    rfl
  rw [List.append_nil] at hlonger
  rw [namesBefore_append_left, ComponentMarkup.namesBefore, lexBefore, hlonger, Bool.true_or]

/-- A name that comes before another one does so also in front of what follows, unless a slash
follows and the other name goes on with a character before it. -/
theorem charsBefore_append_iff {more more' : List Char} (h : charsBefore a b = true)
    (hslash : '/' ∉ b) (hmore : more = [] ∨ ∃ names, more = '/' :: names) :
    charsBefore (a ++ more) (b ++ more') = true ↔
      ¬ (more ≠ [] ∧ ∃ c rest, b = a ++ c :: rest ∧ c.toNat < '/'.toNat) := by
  induction a generalizing b with
  | nil =>
      cases b with
      | nil => cases h
      | cons c b =>
          -- the first name ends here, so a slash or nothing is compared with `c`
          have hc : c.toNat ≠ '/'.toNat := fun heq =>
            hslash (Char.toNat_inj.1 heq ▸ List.mem_cons_self ..)
          rcases hmore with rfl | ⟨names, rfl⟩
          · simp [charsBefore, lexBefore]
          · rcases Nat.lt_or_gt_of_ne hc with hlt | hgt
            · have hafter : charsBefore ([] ++ '/' :: names) (c :: b ++ more') = false :=
                isLinear_charsBefore.asymm (charsBefore_cons_of_lt hlt _ _)
              rw [hafter]
              exact iff_of_false Bool.false_ne_true
                (not_not_intro ⟨by simp, c, b, rfl, hlt⟩)
            · refine iff_of_true (charsBefore_cons_of_lt hgt _ _) ?_
              rintro ⟨-, c', rest, heq, hlt⟩
              obtain ⟨rfl, -⟩ := List.cons.inj heq
              exact Nat.lt_asymm hlt hgt
  | cons x a ih =>
      cases b with
      | nil => cases h
      | cons y b =>
          rw [List.mem_cons, not_or] at hslash
          rcases Nat.lt_trichotomy x.toNat y.toNat with hlt | heq | hgt
          · refine iff_of_true (charsBefore_cons_of_lt hlt _ _) ?_
            rintro ⟨-, c, rest, heq, -⟩
            obtain ⟨rfl, -⟩ := List.cons.inj heq
            exact Nat.lt_irrefl _ hlt
          · obtain rfl := Char.toNat_inj.1 heq
            have hself (as bs : List Char) : charsBefore (x :: as) (x :: bs) = charsBefore as bs :=
              charsBefore_append_left [x] as bs
            rw [hself] at h
            rw [List.cons_append, List.cons_append, hself, ih h hslash.2]
            simp
          · exact absurd h (Bool.eq_false_iff.1
              (isLinear_charsBefore.asymm (charsBefore_cons_of_lt hgt _ _)))

theorem joinNames_eq_append (a : Name) (as : List Name) :
    ∃ more, joinNames (a :: as) = a ++ more ∧ (more ≠ [] ↔ as ≠ []) ∧
      (more = [] ∨ ∃ names, more = '/' :: names) := by
  by_cases has : as = []
  · exact ⟨[], by rw [has, joinNames_singleton, List.append_nil], by simp [has],
      .inl rfl⟩
  · exact ⟨'/' :: joinNames as, joinNames_cons_of_ne_nil a has, by simp [has], .inr ⟨_, rfl⟩⟩

/-- Where the first names differ, they decide. -/
theorem charsBefore_of_namesBefore (h : namesBefore (a :: as) (b :: bs) = true) (hne : a ≠ b) :
    charsBefore a b = true := by
  rw [namesBefore, lexBefore, Bool.or_eq_true, Bool.and_eq_true, Bool.not_eq_true'] at h
  rcases h with h | ⟨h, -⟩
  · exact h
  · by_contra hnot
    exact hne (isLinear_charsBefore.total (Bool.eq_false_iff.2 hnot) h)

/-- Of lists of names the first one comes first as a text too, unless the other one overtakes it. -/
theorem charsBefore_joinNames_iff (h : namesBefore as bs = true) (has : as ≠ [])
    (hslash : ∀ b ∈ bs, '/' ∉ b) :
    charsBefore (joinNames as) (joinNames bs) = true ↔ ¬ IsOvertakenBy as bs := by
  induction as generalizing bs with
  | nil => exact absurd rfl has
  | cons a as ih =>
      cases bs with
      | nil => cases h
      | cons b bs =>
          rw [List.forall_mem_cons] at hslash
          by_cases hab : a = b
          · -- the names part further down
            subst hab
            have hbelow : namesBefore as bs = true := by
              rwa [← List.singleton_append, ← List.singleton_append (l := bs),
                namesBefore_append_left] at h
            have hbs : bs ≠ [] := by
              rintro rfl
              cases as <;> cases hbelow
            rw [isOvertakenBy_cons_self, joinNames_cons_of_ne_nil a hbs]
            by_cases hnone : as = []
            · subst hnone
              rw [joinNames_singleton, ← List.append_nil a, List.append_assoc,
                charsBefore_append_left]
              refine iff_of_true rfl ?_
              rintro ⟨front, directory, below, c, rest, after, -, hnil, -⟩
              simp at hnil
            · rw [joinNames_cons_of_ne_nil a hnone, charsBefore_append_left]
              exact (congrArg (· = true) (charsBefore_append_left ['/'] _ _)).to_iff.trans
                (ih hbelow hnone hslash.2)
          · -- they part here, and what is behind the names starts with a slash if at all
            have hfirst := charsBefore_of_namesBefore h hab
            rcases joinNames_eq_append a as with ⟨more, hmore, hne, hform⟩
            rcases joinNames_eq_append b bs with ⟨more', hmore', -⟩
            rw [hmore, hmore', charsBefore_append_iff hfirst hslash.1 hform,
              isOvertakenBy_cons_of_ne hab, hne]

end

/-! ## Candidates -/

namespace Files

variable {files : Files} {location : List Name} {root : Path} {extensions : List Text}

/-- What is found below a location is there, by the names that lead on to it. -/
theorem mem_namesBelow_iff {names : List Name} :
    names ∈ files.namesBelow location ↔
      names ≠ [] ∧ ∃ entry, (location ++ names, entry) ∈ files.bindings := by
  unfold namesBelow
  rw [List.mem_filterMap]
  constructor
  · rintro ⟨⟨l, entry⟩, hmem, h⟩
    dsimp only at h
    split at h
    · next hbelow =>
      rcases List.isPrefixOf_iff_prefix.1 hbelow.1 with ⟨names', rfl⟩
      -- the names are what stands behind the location in the binding
      obtain rfl : names' = names := by simpa using Option.some.inj h
      refine ⟨?_, entry, hmem⟩
      rintro rfl
      exact hbelow.2 (List.append_nil location)
    · cases h
  · rintro ⟨hne, entry, hmem⟩
    refine ⟨_, hmem, ?_⟩
    simp [hne]

/-- Does a path lead to a file? -/
def leadsToFile (files : Files) (p : Path) : Bool := (files.fileAt p.text).toOption.join.isSome

theorem leadsToFile_iff {p : Path} :
    files.leadsToFile p = true ↔ ∃ number, files.fileAt p.text = .ok (some number) := by
  unfold leadsToFile
  rcases files.fileAt p.text with fault | (_ | number) <;> simp [Except.toOption]

/-- Paths are searched for files if none of them is refused. -/
theorem filesAmong_eq_ok_iff {paths found : List Path} :
    files.filesAmong paths = .ok found ↔
      (∀ p ∈ paths, ∃ number, files.fileAt p.text = .ok number) ∧
        found = paths.filter files.leadsToFile := by
  -- path by path: one that cannot be looked up ends the listing, one that is no file is left out
  induction paths generalizing found with
  | nil => simp [filesAmong, pure, Except.pure, eq_comm]
  | cons p paths ih =>
      rw [filesAmong, List.forall_mem_cons, and_assoc]
      cases hp : files.fileAt p.text with
      | error fault => simp [bind, Except.bind]
      | ok number =>
          cases number with
          | none =>
              have hnone : files.leadsToFile p = false := by simp [leadsToFile, hp, Except.toOption]
              rw [List.filter_cons_of_neg (by simp [hnone])]
              simpa [bind, Except.bind] using ih
          | some number =>
              have hsome : files.leadsToFile p = true := leadsToFile_iff.2 ⟨number, hp⟩
              -- a file is listed in front of what the rest lists
              rw [List.filter_cons_of_pos hsome]
              constructor
              · intro h
                change files.filesAmong paths >>= (fun rest => pure (p :: rest)) = _ at h
                rcases Except.of_bind_eq_ok h with ⟨rest, hrest, h⟩
                obtain rfl := Except.ok.inj h
                rcases ih.1 hrest with ⟨hall, rfl⟩
                exact ⟨⟨_, rfl⟩, hall, rfl⟩
              · rintro ⟨-, hall, rfl⟩
                dsimp only [bind, Except.bind]
                rw [ih.2 ⟨hall, rfl⟩]
                rfl

/-- The paths down from a root to all that there is below a location. -/
def pathsBelow (files : Files) (root : Path) (location : List Name) : List Path :=
  (files.namesBelow location).map fun names => root.join ⟨0, names⟩

/-- The candidates below a directory: the wanted ones of the paths that lead to files, if no path is
refused. -/
theorem candidates_eq_ok_iff {paths : List Path} (hnull : '\x00' ∉ root.text)
    (hlocate : files.locate root.text = .ok location)
    (hdirectory : files.find? location = some .directory) :
    files.candidates root extensions = .ok paths ↔
      (∀ p ∈ files.pathsBelow root location, ∃ number, files.fileAt p.text = .ok number) ∧
        paths = sortBy (fun p q => namesBefore p.parts q.parts)
          (((files.pathsBelow root location).filter files.leadsToFile).filter
            fun p => hasExtension extensions p.suffix) := by
  unfold candidates
  rw [isDirectory_eq_ok_true_iff.2 ⟨location, hnull, hlocate, hdirectory⟩,
    checked_eq_ok_iff.2 ⟨hnull, hlocate⟩]
  -- the root is a directory, so the candidates are the files below, sorted
  constructor
  · intro h
    change files.filesAmong (files.pathsBelow root location) >>= _ = _ at h
    rcases Except.of_bind_eq_ok h with ⟨found, hfound, h⟩
    rcases filesAmong_eq_ok_iff.1 hfound with ⟨hall, rfl⟩
    exact ⟨hall, (Except.ok.inj h).symm⟩
  · rintro ⟨hall, rfl⟩
    have hfound := filesAmong_eq_ok_iff.2 ⟨hall, rfl⟩
    unfold pathsBelow at hfound
    dsimp only [bind, Except.bind, if_true]
    rw [hfound]
    rfl

/-- A candidate is a path from the root down to what is there. It leads to a file, and has one of
the extensions. -/
theorem of_mem_candidates {paths : List Path} {p : Path}
    (h : files.candidates root extensions = .ok paths) (hp : p ∈ paths) :
    ∃ location names entry number, '\x00' ∉ root.text ∧ files.locate root.text = .ok location ∧
      names ≠ [] ∧ (location ++ names, entry) ∈ files.bindings ∧ p = root.join ⟨0, names⟩ ∧
      files.fileAt p.text = .ok (some number) ∧ hasExtension extensions p.suffix = true := by
  have hcase := h
  rcases Except.of_bind_eq_ok hcase with ⟨isdir, hisdir, hcase⟩
  -- without a directory there are no candidates
  cases isdir with
  | false =>
      obtain rfl := Except.ok.inj hcase
      cases hp
  | true =>
      rcases isDirectory_eq_ok_true_iff.1 hisdir with ⟨location, hnull, hlocate, hdirectory⟩
      rcases (candidates_eq_ok_iff hnull hlocate hdirectory).1 h with ⟨-, rfl⟩
      -- undo the listing step by step: sorted, with a wanted suffix, a file, below the root
      have hwanted := (sortBy_perm _ _).mem_iff.1 hp
      rcases List.mem_filter.1 hwanted with ⟨hfile, hsuffix⟩
      rcases List.mem_filter.1 hfile with ⟨hpath, hfile⟩
      rcases leadsToFile_iff.1 hfile with ⟨number, hnumber⟩
      rcases List.mem_map.1 hpath with ⟨names, hnames, rfl⟩
      rcases mem_namesBelow_iff.1 hnames with ⟨hne, entry, hmem⟩
      exact ⟨location, names, entry, number, hnull, hlocate, hne, hmem, rfl, hnumber, hsuffix⟩

/-- Candidates are in the order of their parts. -/
theorem pairwise_candidates {paths : List Path}
    (h : files.candidates root extensions = .ok paths) :
    paths.Pairwise fun p q => namesBefore q.parts p.parts = false := by
  rcases Except.of_bind_eq_ok h with ⟨isdir, -, h⟩
  cases isdir with
  | false =>
      obtain rfl := Except.ok.inj h
      exact .nil
  | true =>
      rcases Except.of_bind_eq_ok h with ⟨location, -, h⟩
      rcases Except.of_bind_eq_ok h with ⟨found, -, h⟩
      obtain rfl := Except.ok.inj h
      exact isLinear_namesBefore.pairwise_sortBy_map Path.parts _

end Files

/-- Paths that lead down from a root, by proper names. -/
def Path.IsBelow (root p : Path) : Prop :=
  ∃ names, names ≠ [] ∧ (∀ name ∈ names, Name.IsProper name) ∧ p = root.join ⟨0, names⟩

section

variable {root p q : Path}

theorem Path.IsBelow.text_ne (hp : root.IsBelow p) (hq : root.IsBelow q) (hne : p ≠ q) :
    p.text ≠ q.text := by
  rcases hp with ⟨as, has, hproper, rfl⟩
  rcases hq with ⟨bs, hbs, hproper', rfl⟩
  intro htext
  rw [root.text_join_names has, root.text_join_names hbs, List.append_cancel_left_eq] at htext
  have hnames := congrArg splitSlashes htext
  rw [splitSlashes_joinNames (fun name hname => (hproper name hname).slash) has,
    splitSlashes_joinNames (fun name hname => (hproper' name hname).slash) hbs] at hnames
  exact hne (by rw [hnames])

theorem Path.IsBelow.parts_ne (hp : root.IsBelow p) (hq : root.IsBelow q) (hne : p ≠ q) :
    p.parts ≠ q.parts := by
  rcases hp with ⟨as, -, -, rfl⟩
  rcases hq with ⟨bs, -, -, rfl⟩
  intro hparts
  rw [parts_join_names, parts_join_names, List.append_cancel_left_eq] at hparts
  exact hne (by rw [hparts])

theorem Path.IsBelow.namesBefore_of_isOvertakenBy (hp : root.IsBelow p) (hq : root.IsBelow q)
    (h : IsOvertakenBy p.names q.names) : namesBefore p.parts q.parts = true := by
  rcases hp with ⟨as, -, -, rfl⟩
  rcases hq with ⟨bs, -, -, rfl⟩
  rw [names_join_names, names_join_names, isOvertakenBy_append_left] at h
  rw [parts_join_names, parts_join_names, namesBefore_append_left]
  exact h.namesBefore

/-- Of paths that lead down from the same root, the first by its parts comes first as a text too,
unless the other one overtakes it. -/
theorem Path.IsBelow.charsBefore_iff (hp : root.IsBelow p) (hq : root.IsBelow q)
    (h : namesBefore p.parts q.parts = true) :
    charsBefore p.text q.text = true ↔ ¬ IsOvertakenBy p.names q.names := by
  rcases hp with ⟨as, has, -, rfl⟩
  rcases hq with ⟨bs, hbs, hproper, rfl⟩
  rw [parts_join_names, parts_join_names, namesBefore_append_left] at h
  rw [root.text_join_names has, root.text_join_names hbs, charsBefore_append_left,
    names_join_names, names_join_names, isOvertakenBy_append_left]
  exact charsBefore_joinNames_iff h has fun name hname => (hproper name hname).slash

end

/-- Paths as they are found: they lead down from one root, in the order of their parts, and hold no
null character. -/
structure IsListing (root : Path) (paths : List Path) : Prop where
  below : ∀ p ∈ paths, root.IsBelow p
  null : ∀ p ∈ paths, '\x00' ∉ p.text
  sorted : paths.Pairwise fun p q => namesBefore q.parts p.parts = false

theorem Path.IsBelow.not_mem_null {root p : Path} (h : root.IsBelow p)
    (hroot : '\x00' ∉ root.text) : '\x00' ∉ p.text := by
  rcases h with ⟨names, hne, hproper, rfl⟩
  rw [root.text_join_names hne, List.mem_append]
  rintro (hfront | hnames)
  · exact hroot (root.mem_text_of_mem_front hfront (by decide))
  · rcases of_mem_joinNames hnames with hslash | ⟨name, hname, hnull⟩
    · cases hslash
    · exact (hproper name hname).null hnull

theorem Files.IsTree.isListing {files : Files} (h : files.IsTree) {root : Path}
    {extensions : List Text} {paths : List Path}
    (hfound : files.candidates root extensions = .ok paths) : IsListing root paths := by
  have hbelow : ∀ p ∈ paths, '\x00' ∉ root.text ∧ root.IsBelow p := by
    intro p hp
    rcases of_mem_candidates hfound hp with
      ⟨location, names, entry, number, hnull, -, hne, hmem, rfl, -⟩
    exact ⟨hnull, names, hne, fun name hname =>
      h.proper _ hmem name (List.mem_append_right location hname), rfl⟩
  exact ⟨fun p hp => (hbelow p hp).2, fun p hp => (hbelow p hp).2.not_mem_null (hbelow p hp).1,
    pairwise_candidates hfound⟩

namespace IsListing

variable {root : Path} {paths : List Path} {p q : Path}

/-- Of two paths the one that is found first is the first by its parts. -/
theorem namesBefore_iff (h : IsListing root paths) (hp : p ∈ paths) (hq : q ∈ paths)
    (hne : p ≠ q) : [p, q].Sublist paths ↔ namesBefore p.parts q.parts = true :=
  isLinear_namesBefore.pair_sublist_iff h.sorted hp hq ((h.below p hp).parts_ne (h.below q hq) hne)

/-- Of two paths the one that is found first is compiled first, unless the other one overtakes
it. -/
theorem pair_sublist_iff (h : IsListing root paths) (hne : p ≠ q)
    (hpair : [p, q].Sublist paths) :
    ([p.text, q.text].Sublist (Compiler.processingOrder (paths.map Path.text)) ↔
        ¬ IsOvertakenBy p.names q.names) ∧
      ([q.text, p.text].Sublist (Compiler.processingOrder (paths.map Path.text)) ↔
        IsOvertakenBy p.names q.names) := by
  have hp : p ∈ paths := hpair.subset (by simp)
  have hq : q ∈ paths := hpair.subset (by simp)
  have htext := (h.below p hp).text_ne (h.below q hq) hne
  have hmem {p : Path} (hp : p ∈ paths) : p.text ∈ paths.map Path.text := List.mem_map_of_mem hp
  have hiff := (h.below p hp).charsBefore_iff (h.below q hq) ((h.namesBefore_iff hp hq hne).1 hpair)
  unfold Compiler.processingOrder
  -- both orders are linear, so a pair is sorted the same way unless one overtakes the other as a
  -- string
  rw [isLinear_charsBefore.pair_sublist_sortBy_iff (hmem hp) (hmem hq) htext,
    isLinear_charsBefore.pair_sublist_sortBy_iff (hmem hq) (hmem hp) (Ne.symm htext),
    isLinear_charsBefore.before_iff_not htext, hiff, not_not]
  exact ⟨Iff.rfl, Iff.rfl⟩

/-- Paths are compiled in the order in which they are found if and only if none overtakes another
one. -/
theorem processingOrder_eq_iff (h : IsListing root paths) :
    Compiler.processingOrder (paths.map Path.text) = paths.map Path.text ↔
      ∀ p ∈ paths, ∀ q ∈ paths, ¬ IsOvertakenBy p.names q.names := by
  constructor
  · -- what is overtaken is found first, but compiled last
    intro heq p hp q hq hovertaken
    have hbefore := (h.below p hp).namesBefore_of_isOvertakenBy (h.below q hq) hovertaken
    have hne : p ≠ q := fun heq => isLinear_namesBefore.ne hbefore (congrArg Path.parts heq)
    have hpair := (h.namesBefore_iff hp hq hne).2 hbefore
    apply (h.pair_sublist_iff hne hpair).1.1 _ hovertaken
    rw [heq]
    exact hpair.map Path.text
  · intro hnone
    apply isLinear_charsBefore.sortBy_eq_self_iff.2
    rw [List.pairwise_map, List.pairwise_iff_forall_sublist]
    intro p q hpair
    by_cases hne : p = q
    · rw [hne]
      exact isLinear_charsBefore.irrefl _
    · have hp : p ∈ paths := hpair.subset (by simp)
      have hq : q ∈ paths := hpair.subset (by simp)
      exact isLinear_charsBefore.asymm (((h.below p hp).charsBefore_iff (h.below q hq)
        ((h.namesBefore_iff hp hq hne).1 hpair)).2 (hnone p hp q hq))

end IsListing

/-! ## Finding and compiling -/

variable {env : Environment} {state found : RunState}

theorem exists_candidates_of_findSources (h : (findSources env state).outcome = .ok found) :
    ∃ root, state.inputDirectory = some root ∧
      env.files.candidates root env.settings.candidateExtensions = .ok found.candidates := by
  unfold findSources at h
  dsimp only at h
  split at h
  · cases h
  · next root hroot =>
    split at h
    · cases h
    · next paths hpaths =>
      obtain rfl := Except.ok.inj h
      exact ⟨root, hroot, hpaths⟩

/-- The files that are compiled are the candidates, in the order of the texts of their paths. Two
candidates are compiled in the order in which they are found, unless the second one overtakes the
first one; so all are compiled in the order in which they are found if and only if none overtakes
another one. -/
theorem processingOrder_candidates (htree : env.files.IsTree)
    (hfind : (findSources env state).outcome = .ok found) :
    let texts := found.candidates.map Path.text
    let order := Compiler.processingOrder texts
    let c := found.compiler env.settings
    let reading := c.readingEnvironment env texts.length
    found.candidates.Pairwise (fun p q => namesBefore q.parts p.parts = false) ∧
      (found.options.workers ≠ .unnamed →
        (found.compile env).problems =
            order.flatMap (fun path => (c.reportOf reading path).problems) ∧
          (found.compile env).registry =
            (order.flatMap fun path => (c.reportOf reading path).definitions).foldl
              (fun registry d => registry.upsert d.componentName (c.entryOf d)) .empty) ∧
      order.Perm texts ∧
      (∀ p q, p ≠ q → [p, q].Sublist found.candidates →
        ([p.text, q.text].Sublist order ↔ ¬ IsOvertakenBy p.names q.names) ∧
          ([q.text, p.text].Sublist order ↔ IsOvertakenBy p.names q.names)) ∧
      (order = texts ↔
        ∀ p ∈ found.candidates, ∀ q ∈ found.candidates, ¬ IsOvertakenBy p.names q.names) := by
  intro texts order c reading
  rcases exists_candidates_of_findSources hfind with ⟨root, -, hroot⟩
  have hlisting := htree.isListing hroot
  refine ⟨hlisting.sorted, fun hworkers => ?_, sortBy_perm _ _,
    fun p q hne hpair => hlisting.pair_sublist_iff hne hpair, hlisting.processingOrder_eq_iff⟩
  -- file names have no null byte, so the compilation is the ordinary one
  have hnull : ∀ path ∈ texts, '\x00' ∉ path := List.forall_mem_map.2 hlisting.null
  rcases c.compileIn_of_not_null env found.options.verbosity .empty (.refl _) hnull with
    ⟨hproblems, hregistry, -⟩
  rw [RunState.compile, if_neg hworkers]
  exact ⟨hproblems, hregistry⟩

/-- A directory, and beside it a file whose name goes on with a hyphen. -/
def Files.overtaken : Files :=
  ⟨[(["in".toList], .directory), (["in".toList, "a".toList], .directory),
    (["in".toList, "a".toList, "x.dcecomp".toList], .file 0),
    (["in".toList, "a-b.dcecomp".toList], .file 1)], [(0, []), (1, [])], []⟩

theorem Files.candidates_overtaken :
    overtaken.candidates (.ofText "in".toList) ({} : Settings).candidateExtensions =
      .ok [.ofText "in/a/x.dcecomp".toList, .ofText "in/a-b.dcecomp".toList] := by
  have hlocate : overtaken.locate (Path.ofText "in".toList).text = .ok ["in".toList] := by rfl
  have hall : ∀ p ∈ overtaken.pathsBelow (.ofText "in".toList) ["in".toList],
      (overtaken.fileAt p.text).toBool = true := by decide +kernel
  have hwanted : ((overtaken.pathsBelow (.ofText "in".toList) ["in".toList]).filter
        overtaken.leadsToFile).filter
          (fun p => hasExtension ({} : Settings).candidateExtensions p.suffix) =
      [.ofText "in/a/x.dcecomp".toList, .ofText "in/a-b.dcecomp".toList] := by decide +kernel
  refine (candidates_eq_ok_iff (by decide +kernel) hlocate rfl).2
    ⟨fun p hp => Except.exists_of_toBool (hall p hp), ?_⟩
  rw [hwanted, sortBy, List.mergeSort_of_pairwise (by decide +kernel)]

theorem Files.isTree_overtaken : overtaken.IsTree :=
  ⟨by decide +kernel, by decide +kernel, by decide +kernel, by decide +kernel, rfl⟩

theorem findSources_overtaken :
    let env : Environment :=
      { settings := {}, files := .overtaken, workingDirectory := [], room := 981, poolRoom := 983 }
    let state : RunState :=
      { inputDirectory := some (.ofText "in".toList)
        outputDirectory := .ofText "out".toList
        options := {} }
    (findSources env state).outcome =
      .ok { state with
        candidates := [.ofText "in/a/x.dcecomp".toList, .ofText "in/a-b.dcecomp".toList] } := by
  intro env state
  have hcandidates : env.files.candidates (.ofText "in".toList) env.settings.candidateExtensions =
      .ok [.ofText "in/a/x.dcecomp".toList, .ofText "in/a-b.dcecomp".toList] :=
    Files.candidates_overtaken
  simp only [findSources, state, hcandidates]

/-- The file beside the directory overtakes the one in it. -/
theorem processingOrder_candidates_of_overtaken :
    let env : Environment :=
      { settings := {}, files := .overtaken, workingDirectory := [], room := 981, poolRoom := 983 }
    let state : RunState :=
      { inputDirectory := some (.ofText "in".toList)
        outputDirectory := .ofText "out".toList
        options := {} }
    ∃ found, env.files.IsTree ∧ (findSources env state).outcome = .ok found ∧
      ["in/a-b.dcecomp".toList, "in/a/x.dcecomp".toList].Sublist
        (Compiler.processingOrder (found.candidates.map Path.text)) := by
  intro env state
  refine ⟨_, Files.isTree_overtaken, findSources_overtaken, ?_⟩
  -- the directory comes first by path; the character behind the shared name decides the string
  -- order
  have hfound : (findSources env state).outcome = _ := findSources_overtaken
  rcases processingOrder_candidates Files.isTree_overtaken hfound with ⟨-, -, -, hpairs, -⟩
  refine (hpairs (.ofText "in/a/x.dcecomp".toList) (.ofText "in/a-b.dcecomp".toList)
    (by decide +kernel) (.refl _)).2.2 ?_
  exact ⟨["in".toList], "a".toList, ["x.dcecomp".toList], '-', "b.dcecomp".toList, [], by decide,
    by decide +kernel, by decide +kernel, by decide⟩

/-- So the order in which files are found is not the one in which they are compiled. -/
theorem processingOrder_ne_candidates :
    let env : Environment :=
      { settings := {}, files := .overtaken, workingDirectory := [], room := 981, poolRoom := 983 }
    let state : RunState :=
      { inputDirectory := some (.ofText "in".toList)
        outputDirectory := .ofText "out".toList
        options := {} }
    ∃ found, env.files.IsTree ∧ (findSources env state).outcome = .ok found ∧
      found.candidates.map Path.text = ["in/a/x.dcecomp".toList, "in/a-b.dcecomp".toList] ∧
      Compiler.processingOrder (found.candidates.map Path.text) =
        ["in/a-b.dcecomp".toList, "in/a/x.dcecomp".toList] := by
  intro env state
  refine ⟨_, Files.isTree_overtaken, findSources_overtaken, by decide +kernel, ?_⟩
  refine isLinear_charsBefore.eq_of_perm ((sortBy_perm _ _).trans (by decide +kernel))
    (isLinear_charsBefore.pairwise_sortBy _) (by decide +kernel)

end ComponentMarkup
