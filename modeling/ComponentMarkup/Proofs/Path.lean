import ComponentMarkup.Path

/-!
# Names and the texts of paths

Cutting a text at its slashes undoes joining names without slashes. So the text of a path that leads
down from another one is cut into the names that lead to there and those that lead on
(`Path.text_join_names`, `splitSlashes_joinNames`).
-/

namespace ComponentMarkup

/-! ## Cutting and joining -/

/-- Cutting at slashes is the library's splitting at a separator. -/
theorem splitSlashes_eq_splitOn (path : List Char) : splitSlashes path = path.splitOn '/' := by
  induction path with
  | nil => rfl
  | cons c cs ih =>
      rw [splitSlashes, ih, List.splitOn_cons_eq_if_modifyHead]
      cases hcut : cs.splitOn '/' with
      | nil => exact absurd hcut (List.splitOn_ne_nil '/' cs)
      | cons name names => by_cases hc : c = '/' <;> simp [hc]

theorem splitSlashes_ne_nil (path : List Char) : splitSlashes path ≠ [] := by
  rw [splitSlashes_eq_splitOn]
  exact List.splitOn_ne_nil '/' path

theorem splitSlashes_of_not_mem {name : Name} (h : '/' ∉ name) : splitSlashes name = [name] := by
  rw [splitSlashes_eq_splitOn, List.splitOn_eq_singleton h]

theorem splitSlashes_append (front rest : List Char) :
    splitSlashes (front ++ '/' :: rest) = splitSlashes front ++ splitSlashes rest := by
  simp only [splitSlashes_eq_splitOn, List.splitOn_append_cons_self]

theorem splitSlashes_replicate_append (n : Nat) (rest : List Char) :
    splitSlashes (List.replicate n '/' ++ rest) = List.replicate n [] ++ splitSlashes rest := by
  induction n with
  | zero => rfl
  | succ n ih =>
      rw [List.replicate_succ, List.cons_append, ← List.nil_append ('/' :: _), splitSlashes_append,
        ih]
      rfl

theorem splitSlashes_joinNames {names : List Name} (hslash : ∀ name ∈ names, '/' ∉ name)
    (hne : names ≠ []) : splitSlashes (joinNames names) = names := by
  rw [splitSlashes_eq_splitOn, joinNames, List.splitOn_intercalate '/' hslash hne]

/-- The characters of the names in a path are characters of the path, and no slashes. -/
theorem mem_of_mem_splitSlashes {path : List Char} {name : Name} (h : name ∈ splitSlashes path)
    {c : Char} (hc : c ∈ name) : c ∈ path ∧ c ≠ '/' := by
  induction path generalizing name with
  | nil =>
      obtain rfl := List.mem_singleton.1 h
      cases hc
  | cons d path ih =>
      have hstays {n : Name} (hn : n ∈ splitSlashes path) (hcn : c ∈ n) :
          c ∈ d :: path ∧ c ≠ '/' := ⟨List.mem_cons_of_mem d (ih hn hcn).1, (ih hn hcn).2⟩
      cases hcut : splitSlashes path with
      | nil => exact absurd hcut (splitSlashes_ne_nil path)
      | cons first names =>
          rw [hcut] at hstays
          simp only [splitSlashes, hcut] at h
          -- a slash starts a new name, any other character goes on with the first one
          split at h
          · rcases List.mem_cons.1 h with rfl | h
            · cases hc
            · exact hstays h hc
          · next hd =>
            rcases List.mem_cons.1 h with rfl | h
            · rcases List.mem_cons.1 hc with rfl | hc
              · exact ⟨List.mem_cons_self .., hd⟩
              · exact hstays (List.mem_cons_self ..) hc
            · exact hstays (List.mem_cons_of_mem first h) hc

theorem not_mem_slash_of_mem_pathNames {path : List Char} {name : Name}
    (h : name ∈ pathNames path) : '/' ∉ name :=
  fun hslash => (mem_of_mem_splitSlashes (List.mem_filter.1 h).1 hslash).2 rfl

theorem joinNames_singleton (name : Name) : joinNames [name] = name :=
  List.intercalate_singleton

theorem joinNames_append {front names : List Name} (hfront : front ≠ []) (hnames : names ≠ []) :
    joinNames (front ++ names) = joinNames front ++ '/' :: joinNames names := by
  unfold joinNames
  -- induction on the names in front; the last of them is where the slash between the two parts
  -- stands
  induction front with
  | nil => exact absurd rfl hfront
  | cons name front ih =>
      cases front with
      | nil =>
          rw [List.singleton_append, List.intercalate_cons_of_ne_nil hnames,
            List.intercalate_singleton, List.append_assoc, List.singleton_append]
      | cons name' front =>
          rw [List.cons_append, List.intercalate_cons_of_ne_nil (by simp),
            ih (List.cons_ne_nil name' front),
            List.intercalate_cons_of_ne_nil (List.cons_ne_nil name' front)]
          simp

theorem joinNames_cons_of_ne_nil (name : Name) {names : List Name} (h : names ≠ []) :
    joinNames (name :: names) = name ++ '/' :: joinNames names := by
  rw [← List.singleton_append, joinNames_append (List.cons_ne_nil name []) h, joinNames_singleton]

/-- The characters of joined names are slashes and those of the names. -/
theorem of_mem_joinNames {names : List Name} {c : Char} (h : c ∈ joinNames names) :
    c = '/' ∨ ∃ name ∈ names, c ∈ name := by
  -- a character of the joined text is a slash between names or stands in one of them
  induction names with
  | nil => cases h
  | cons name names ih =>
      by_cases hnames : names = []
      · rw [hnames, joinNames_singleton] at h
        exact .inr ⟨name, List.mem_cons_self .., h⟩
      · rw [joinNames_cons_of_ne_nil name hnames, List.mem_append, List.mem_cons] at h
        rcases h with h | rfl | h
        · exact .inr ⟨name, List.mem_cons_self .., h⟩
        · exact .inl rfl
        · rcases ih h with hc | ⟨name', hname', hc⟩
          · exact .inl hc
          · exact .inr ⟨name', List.mem_cons_of_mem name hname', hc⟩

/-- Joined names start with the first character of the first one. -/
theorem head?_joinNames {name : Name} (h : name ≠ []) (names : List Name) :
    (joinNames (name :: names)).head? = name.head? := by
  cases name with
  | nil => exact absurd rfl h
  | cons c cs =>
      unfold joinNames
      cases names with
      | nil => rw [List.intercalate_singleton]
      | cons name' names => rw [List.intercalate_cons_of_ne_nil (List.cons_ne_nil name' names)]; rfl

/-! ## Paths that lead down -/

namespace Path

/-- What the texts of paths that lead down from a path start with. -/
def front (p : Path) : List Char :=
  if p.names = [] then List.replicate p.slashes '/' else p.text ++ ['/']

theorem mem_text_of_mem_front (p : Path) {c : Char} (h : c ∈ p.front) (hc : c ≠ '/') :
    c ∈ p.text := by
  unfold front at h
  split at h
  · exact absurd (List.eq_of_mem_replicate h) hc
  · exact (List.mem_append.1 h).resolve_right fun hslash => hc (List.mem_singleton.1 hslash)

theorem text_join_names (p : Path) {names : List Name} (h : names ≠ []) :
    (p.join ⟨0, names⟩).text = p.front ++ joinNames names := by
  have hjoin : p.join ⟨0, names⟩ = ⟨p.slashes, p.names ++ names⟩ := rfl
  have hne : p.names ++ names ≠ [] := by simp [h]
  rw [hjoin, text, if_neg (fun hnone => hne hnone.2), front]
  by_cases hp : p.names = []
  · rw [if_pos hp, hp, List.nil_append]
  · rw [if_neg hp, text, if_neg (fun hnone => hp hnone.2), joinNames_append hp h]
    simp

theorem parts_join_names (p : Path) (names : List Name) :
    (p.join ⟨0, names⟩).parts = p.parts ++ names := by
  have hjoin : p.join ⟨0, names⟩ = ⟨p.slashes, p.names ++ names⟩ := rfl
  rw [hjoin, parts, parts]
  split <;> rfl

theorem names_join_names (p : Path) (names : List Name) :
    (p.join ⟨0, names⟩).names = p.names ++ names := rfl

end Path

end ComponentMarkup
