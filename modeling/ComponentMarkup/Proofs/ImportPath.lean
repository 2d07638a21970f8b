import ComponentMarkup.ImportPath

/-!
# When there is an import path

There is an import path unless the path of the script is empty or leads to the root itself.
-/

namespace ComponentMarkup

/-- There is nothing to follow from a root to itself only. -/
theorem eq_of_relativeNames_eq_nil {target root : List Name}
    (h : relativeNames target root = []) : target = root := by
  fun_induction relativeNames target root with
  | case1 names target root ih => rw [ih h]
  | case2 names target root roots hne => simp at h
  | case3 target root hne =>
      rcases List.append_eq_nil_iff.1 h with ⟨hroot, rfl⟩
      cases root with
      | nil => rfl
      | cons name names => simp at hroot

theorem exists_importPath {workingDirectory : List Name} {path : List Char}
    {root : Option (List Char)} (hpath : path ≠ [])
    (hroot : absoluteNames workingDirectory path ≠
      absoluteNames workingDirectory (root.getD [])) :
    ∃ p, importPath workingDirectory path root = .ok p := by
  have hnames : relativeNames (absoluteNames workingDirectory path)
      (absoluteNames workingDirectory (root.getD [])) ≠ [] := by
    intro h
    exact hroot (eq_of_relativeNames_eq_nil h)
  unfold importPath
  rw [if_neg hpath]
  dsimp only
  rw [if_neg hnames]
  exact ⟨_, rfl⟩

end ComponentMarkup
