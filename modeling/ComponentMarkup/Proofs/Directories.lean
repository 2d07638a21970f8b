import ComponentMarkup.Proofs.Tree

/-!
# Making directories

Making a directory with those that hold it is a sequence of steps, each of which puts a directory
where nothing was (`Files.Makes`). The steps keep a file tree, and all that was there before. Once
the directory is there, making it again changes nothing (`makeDirectories_of_isDirectory`).
-/

namespace ComponentMarkup

namespace Files

variable {files files' files'' : Files} {location : List Name} {ways : List Char → Prop}

/-- Names lead to the same location whether or not a link there is followed, if there is none. -/
theorem follow_true_of_false {here names : List Name} {links : Nat}
    (h : files.follow false links here names = .ok location)
    (hentry : (files.find? location).bind FileEntry.target? = none) :
    files.follow true links here names = .ok location := by
  -- along the resolution that does not follow the last link; it differs from the other in that
  -- link alone, and `hentry` says that there is none
  fun_induction follow files false links here names with
  | case1 | case3 => cases h
  | case2 links here names there hwalk hnone =>
      obtain rfl := Except.ok.inj h
      exact follow_of_walk hwalk hentry
  | case4 here names there hwalk target links hlink ih =>
      -- a link followed here is not the last name, so the other resolution follows it too
      have hfollowed : files.pendingLink true there = some target := by
        rw [pendingLink, of_pendingLink hlink]
        exact if_neg fun hlast => by cases hlast.2
      rw [follow, hwalk]
      simp only [hfollowed]
      exact ih h

theorem locate_of_locateEntry {path : List Char} (h : files.locateEntry path = .ok location)
    (hentry : (files.find? location).bind FileEntry.target? = none) :
    files.locate path = .ok location := by
  -- the checks in front of the resolution are the same for both
  unfold locateEntry at h
  unfold locate
  unfold resolve at h ⊢
  split at h
  · cases h
  · next hne =>
    rw [if_neg hne]
    split at h
    · cases h
    · next hlength =>
      rw [if_neg hlength]
      exact follow_true_of_false h hentry

/-- A directory that is made stands where its path leads. -/
theorem locate_set_directory {path : List Char} (hlocate : files.locateEntry path = .ok location)
    (hfree : files.find? location = none) :
    (files.set location .directory).locate path = .ok location := by
  apply locate_of_locateEntry
  · exact ((grows_set_directory hfree).resolve_eq (by rw [← locateEntry, hlocate]; simp)).trans
      hlocate
  · rw [find?_set files (ne_nil_of_free hfree), if_pos rfl]
    rfl

/-- Directories are made one after another, each where one of some ways leads and nothing is. -/
inductive Makes (ways : List Char → Prop) : Files → Files → Prop
  | refl (files : Files) : Makes ways files files
  | step {files files' : Files} {way : List Char} {location : List Name} (hway : ways way)
      (hnull : '\x00' ∉ way) (hlocate : files.locateEntry way = .ok location)
      (hfree : files.find? location = none)
      (rest : Makes ways (files.set location .directory) files') : Makes ways files files'

namespace Makes

theorem trans (h : Makes ways files files') (h' : Makes ways files' files'') :
    Makes ways files files'' := by
  induction h with
  | refl => exact h'
  | step hway hnull hlocate hfree _ ih => exact .step hway hnull hlocate hfree (ih h')

theorem grows (h : Makes ways files files') : files.Grows files' := by
  induction h with
  | refl files => exact .refl files
  | step _ _ _ hfree _ ih => exact (grows_set_directory hfree).trans ih

theorem content (h : Makes ways files files') (n : Nat) : files'.content n = files.content n := by
  induction h with
  | refl => rfl
  | step _ _ _ _ _ ih => exact ih

/-- All that is new is directories, where the ways lead. -/
theorem frame (h : Makes ways files files') (l : List Name) :
    files'.find? l = files.find? l ∨
      files.find? l = none ∧ files'.find? l = some .directory ∧
        ∃ way, ways way ∧ files'.locate way = .ok l := by
  induction h with
  | refl => exact .inl rfl
  | @step files files' way location hway hnull hlocate hfree rest ih =>
      have hset := find?_set files (ne_nil_of_free hfree) .directory l
      by_cases hl : l = location
      · -- once it is made it stays, and the way still leads there
        subst hl
        rw [if_pos rfl] at hset
        exact .inr ⟨hfree, rest.grows.entry hset, way, hway,
          rest.grows.locate_eq_ok (locate_set_directory hlocate hfree)⟩
      · rw [if_neg hl] at hset
        rw [hset] at ih
        exact ih

end Makes

/-! ## One directory -/

end Files

end ComponentMarkup
