import ComponentMarkup.Compiler
import ComponentMarkup.Proofs.Except

/-!
# Reading and writing files

Reading a file fails in a way that ends a run for a path with a null character only
(`readSource_eq_nullByte_iff`); an empty path leads nowhere. Files grow when a file is written or a
directory is made (`Files.Grows`): nothing goes away and there are no new links, so paths lead where
they led, unless something was missing. What is written is held by the file to which the path leads,
under all its names (`Files.HasWritten`). It is read again after a second file has been written, if
this is another one (`Files.read_of_write_of_write`).
-/

namespace ComponentMarkup

namespace Files

/-! ## Bindings -/

section

variable {κ α : Type} [DecidableEq κ]

/-- Nothing changes when a key is bound to what it is bound to. -/
theorem setBinding_of_findBinding {key : κ} {value : α} {bindings : List (κ × α)}
    (h : findBinding key bindings = some value) : setBinding key value bindings = bindings := by
  induction bindings with
  | nil => cases h
  | cons b bs ih =>
      rw [findBinding_cons] at h
      rw [setBinding]
      split
      · next hb =>
        rw [if_pos hb] at h
        rw [← Option.some.inj h, ← hb]
      · next hb =>
        rw [if_neg hb] at h
        rw [ih h]

theorem findBinding_append (key : κ) (bindings more : List (κ × α)) :
    findBinding key (bindings ++ more) =
      (findBinding key bindings).or (findBinding key more) := by
  induction bindings with
  | nil => rfl
  | cons b bs ih =>
      rw [List.cons_append, findBinding_cons, findBinding_cons, ih]
      split <;> rfl

theorem mem_of_findBinding {key : κ} {value : α} {bindings : List (κ × α)}
    (h : findBinding key bindings = some value) : (key, value) ∈ bindings := by
  rcases Option.map_eq_some_iff.1 h with ⟨b, hb, rfl⟩
  obtain rfl : b.1 = key := by simpa using List.find?_some hb
  exact List.mem_of_find?_eq_some hb

/-- A binding is what was set, or was there before. -/
theorem mem_setBinding {key : κ} {value : α} {bindings : List (κ × α)} {b : κ × α}
    (h : b ∈ setBinding key value bindings) : b = (key, value) ∨ b ∈ bindings := by
  induction bindings with
  | nil => exact .inl (List.mem_singleton.1 h)
  | cons b' bs ih =>
      rw [setBinding] at h
      split at h
      · exact (List.mem_cons.1 h).imp_right (.tail b')
      · rcases List.mem_cons.1 h with rfl | h
        · exact .inr (List.mem_cons_self ..)
        · exact (ih h).imp_right (.tail b')

end

variable {files files' files'' : Files} {location here : List Name} {path : List Char}

/-- An entry that is there is not changed by putting it there. -/
theorem set_of_find? {entry : FileEntry} (h : files.find? location = some entry)
    (hne : entry ≠ .directory) : files.set location entry = files := by
  unfold find? at h
  split at h
  · exact absurd (Option.some.inj h).symm hne
  · rw [set, setBinding_of_findBinding h]

theorem ne_nil_of_free (hfree : files.find? location = none) : location ≠ [] := by
  rintro rfl
  cases hfree

/-! ## What is refused -/

theorem checked_eq_ok_iff {α : Type} {result : Except FileCause α} {a : α} :
    checked path result = .ok a ↔ '\x00' ∉ path ∧ result = .ok a := by
  unfold checked
  split
  · next hnull => simp [hnull]
  · next hnull => simp [hnull, Except.mapError_eq_ok_iff]

theorem checked_eq_error {α : Type} {result : Except FileCause α} {fault : FileFault}
    (hnull : '\x00' ∉ path) (h : checked path result = .error fault) :
    ∃ cause, fault = .refused cause path := by
  rw [checked, if_neg hnull] at h
  rcases Except.of_mapError_eq_error h with ⟨cause, -, rfl⟩
  exact ⟨cause, rfl⟩

theorem read_of_null (h : '\x00' ∈ path) : files.read path = .error .nullByte := by
  have hlocate : checked path (files.locate path) = .error .nullByte := if_pos h
  unfold read
  rw [hlocate]
  rfl

/-- A path without a null character is refused for a cause, if it is not read. -/
theorem read_eq_error {fault : FileFault} (hnull : '\x00' ∉ path)
    (h : files.read path = .error fault) : ∃ cause, fault = .refused cause path := by
  rcases Except.of_bind_eq_error h with hlocate | ⟨location, -, h⟩
  · exact checked_eq_error hnull hlocate
  · split at h
    · cases h
    · exact ⟨_, (Except.error.inj h).symm⟩
    · exact ⟨_, (Except.error.inj h).symm⟩

theorem read_nil (files : Files) : files.read [] = .error (.refused .missing []) := rfl

/-! ## What there is -/

theorem lookUp_eq_ok_some_iff {entry : FileEntry} :
    files.lookUp path = .ok (some entry) ↔
      ∃ location, '\x00' ∉ path ∧ files.locate path = .ok location ∧
        files.find? location = some entry := by
  unfold lookUp
  constructor
  · -- the path is checked, then resolved; only a location without a fault is looked at
    intro h
    split at h
    · next location hlocate =>
      rcases checked_eq_ok_iff.1 hlocate with ⟨hnull, hlocate⟩
      exact ⟨location, hnull, hlocate, Except.ok.inj h⟩
    · cases h
    · cases h
  · rintro ⟨location, hnull, hlocate, hfind⟩
    rw [checked_eq_ok_iff.2 ⟨hnull, hlocate⟩]
    exact congrArg Except.ok hfind

theorem lookUp_of_null (hnull : '\x00' ∈ path) : files.lookUp path = .ok none := by
  unfold lookUp checked
  rw [if_pos hnull]

theorem lookUp_of_locate_eq_ok (hnull : '\x00' ∉ path)
    (hlocate : files.locate path = .ok location) :
    files.lookUp path = .ok (files.find? location) := by
  unfold lookUp
  rw [checked_eq_ok_iff.2 ⟨hnull, hlocate⟩]

theorem lookUp_of_locate_eq_error (hnull : '\x00' ∉ path) {cause : FileCause}
    (hlocate : files.locate path = .error cause) :
    files.lookUp path =
      if cause = .nameTooLong then .error (.refused .nameTooLong path) else .ok none := by
  unfold lookUp checked
  rw [if_neg hnull, hlocate]
  cases cause <;> rfl

theorem isDirectory_eq_ok_true_iff :
    files.isDirectory path = .ok true ↔
      ∃ location, '\x00' ∉ path ∧ files.locate path = .ok location ∧
        files.find? location = some .directory := by
  rw [← lookUp_eq_ok_some_iff, isDirectory]
  cases files.lookUp path <;> simp [Except.map]

theorem fileAt_eq_ok_some_iff {number : Nat} :
    files.fileAt path = .ok (some number) ↔
      ∃ location, '\x00' ∉ path ∧ files.locate path = .ok location ∧
        files.find? location = some (.file number) := by
  rw [← lookUp_eq_ok_some_iff, fileAt]
  cases files.lookUp path with
  | error fault => simp [Except.map]
  | ok entry => rcases entry with _ | (_ | _ | _) <;> simp [Except.map, FileEntry.number?]

theorem read_eq_ok_iff {bytes : List UInt8} :
    files.read path = .ok bytes ↔
      ∃ number, files.fileAt path = .ok (some number) ∧ files.content number = bytes := by
  simp only [fileAt_eq_ok_some_iff]
  constructor
  · intro h
    rcases Except.of_bind_eq_ok h with ⟨location, hlocate, h⟩
    rcases checked_eq_ok_iff.1 hlocate with ⟨hnull, hlocate⟩
    -- the location holds a file, a directory or nothing; only a file has bytes
    split at h
    · next number hfile => exact ⟨number, ⟨location, hnull, hlocate, hfile⟩, Except.ok.inj h⟩
    · cases h
    · cases h
  · rintro ⟨number, ⟨location, hnull, hlocate, hfile⟩, rfl⟩
    unfold read
    rw [checked_eq_ok_iff.2 ⟨hnull, hlocate⟩]
    dsimp only [bind, Except.bind]
    rw [hfile]
    rfl

/-- Two paths lead to one file, at one location or at two. -/
def SameFile (files : Files) (path path' : List Char) : Prop :=
  ∃ number, files.fileAt path = .ok (some number) ∧ files.fileAt path' = .ok (some number)

instance (files : Files) (path path' : List Char) : Decidable (files.SameFile path path') :=
  match h : files.fileAt path with
  | .ok (some number) =>
      match h' : files.fileAt path' with
      | .ok (some number') =>
          decidable_of_iff (number = number') (by simp [SameFile, h, h', eq_comm])
      | .ok none => .isFalse (by simp [SameFile, h'])
      | .error _ => .isFalse (by simp [SameFile, h'])
  | .ok none => .isFalse (by simp [SameFile, h])
  | .error _ => .isFalse (by simp [SameFile, h])

/-! ## Files that grow -/

/-- Files that have grown: nothing is gone, and there are no new links. What files hold may have
changed. -/
structure Grows (files files' : Files) : Prop where
  workingDirectory : files'.workingDirectory = files.workingDirectory
  entry : ∀ {l entry}, files.find? l = some entry → files'.find? l = some entry
  link : ∀ {l target}, files'.find? l = some (.link target) →
    files.find? l = some (.link target)

/-- Files grow by an entry where nothing was, if it is no link. -/
theorem grows_set {entry : FileEntry} (hfree : files.find? location = none)
    (hlink : ∀ target, entry ≠ .link target) : files.Grows (files.set location entry) where
  workingDirectory := rfl
  entry {l old} hl := by
    have hne : l ≠ location := by
      rintro rfl
      rw [hfree] at hl
      cases hl
    rw [find?_set _ (ne_nil_of_free hfree), if_neg hne, hl]
  link {l target} hl := by
    rw [find?_set _ (ne_nil_of_free hfree)] at hl
    split at hl
    · exact absurd (Option.some.inj hl) (hlink target)
    · exact hl

theorem grows_set_directory (hfree : files.find? location = none) :
    files.Grows (files.set location .directory) := grows_set hfree fun _ => by simp

namespace Grows

theorem refl (files : Files) : files.Grows files := ⟨rfl, id, id⟩

theorem trans (h : files.Grows files') (h' : files'.Grows files'') : files.Grows files'' where
  workingDirectory := h'.workingDirectory.trans h.workingDirectory
  entry hl := h'.entry (h.entry hl)
  link hl := h.link (h'.link hl)

/-- A walk goes on as it went, or is refused as it was, unless something was missing. -/
theorem walk_eq (h : files.Grows files') {names : List Name}
    (hfound : files.walk here names ≠ .error .missing) :
    files'.walk here names = files.walk here names := by
  -- the names are looked up in entries that are there still
  fun_induction walk files here names with
  | case1 here => rfl
  | case2 => exact absurd rfl hfound
  | case3 here name names number hhere => rw [walk, h.entry hhere]
  | case4 here name names target hhere => rw [walk, h.entry hhere]
  | case5 here name names hhere hlength =>
      rw [walk, h.entry hhere]
      exact if_pos hlength
  | case6 here name names hhere hlength hstays ih =>
      rw [walk, h.entry hhere]
      simp only [if_neg hlength, if_pos hstays]
      exact ih hfound
  | case7 here names hhere hlength hstays ih =>
      rw [walk, h.entry hhere]
      simp only [if_neg hlength, if_neg hstays, if_true]
      exact ih hfound
  | case8 here name names hhere hlength hstays hup ih =>
      rw [walk, h.entry hhere]
      simp only [if_neg hlength, if_neg hstays, if_neg hup]
      exact ih hfound

theorem walk_eq_ok (h : files.Grows files') {names : List Name} {there : List Name × List Name}
    (hwalk : files.walk here names = .ok there) : files'.walk here names = .ok there :=
  (h.walk_eq (by simp [hwalk])).trans hwalk

/-- The links to be followed are those that were there. -/
theorem pendingLink_eq (h : files.Grows files') (last : Bool) (there : List Name × List Name) :
    files'.pendingLink last there = files.pendingLink last there := by
  unfold pendingLink
  cases hfind : files.find? there.1 with
  | some entry => rw [h.entry hfind]
  | none =>
      split
      · next target hlink =>
        rw [h.link hlink] at hfind
        cases hfind
      · rfl

/-- Names lead where they led, or are refused as they were, unless something was missing. -/
theorem follow_eq (h : files.Grows files') {last : Bool} {links : Nat} {names : List Name}
    (hfound : files.follow last links here names ≠ .error .missing) :
    files'.follow last links here names = files.follow last links here names := by
  -- along the resolution: every name it passes exists, and what exists has not changed
  fun_induction follow files last links here names with
  | case1 links here names cause hwalk =>
      have hcause : cause ≠ .missing := fun heq => hfound (congrArg _ heq)
      have hwalk' : files'.walk here names = files.walk here names :=
        h.walk_eq (by simpa [hwalk] using hcause)
      rw [follow, hwalk', hwalk]
  | case2 links here names there hwalk hlink | case3 here names there hwalk target hlink =>
      rw [follow, h.walk_eq_ok hwalk]
      simp only [h.pendingLink_eq, hlink]
  -- a link leads to the same target, from which the resolution goes on alike
  | case4 here names there hwalk target links hlink ih =>
      rw [follow, h.walk_eq_ok hwalk]
      simp only [h.pendingLink_eq, hlink]
      exact ih hfound

theorem resolve_eq (h : files.Grows files') {last : Bool}
    (hfound : files.resolve last path ≠ .error .missing) :
    files'.resolve last path = files.resolve last path := by
  unfold resolve at hfound ⊢
  split
  · rfl
  · next hne =>
    rw [if_neg hne] at hfound
    split
    · rfl
    · next hlength =>
      rw [if_neg hlength] at hfound
      rw [h.workingDirectory]
      exact h.follow_eq hfound

theorem locate_eq_ok (h : files.Grows files') (hlocate : files.locate path = .ok location) :
    files'.locate path = .ok location :=
  (h.resolve_eq (by rw [← locate, hlocate]; simp)).trans hlocate

theorem isDirectory (h : files.Grows files') (hdirectory : files.isDirectory path = .ok true) :
    files'.isDirectory path = .ok true := by
  rcases isDirectory_eq_ok_true_iff.1 hdirectory with ⟨location, hnull, hlocate, hfind⟩
  exact isDirectory_eq_ok_true_iff.2 ⟨location, hnull, h.locate_eq_ok hlocate, h.entry hfind⟩

theorem fileAt (h : files.Grows files') {number : Nat}
    (hfile : files.fileAt path = .ok (some number)) : files'.fileAt path = .ok (some number) := by
  rcases fileAt_eq_ok_some_iff.1 hfile with ⟨location, hnull, hlocate, hfind⟩
  exact fileAt_eq_ok_some_iff.2 ⟨location, hnull, h.locate_eq_ok hlocate, h.entry hfind⟩

end Grows

/-! ## Writing -/

/-- Files after bytes have been written to a file: one that was there, or a new one where a path
leads. -/
structure HasWritten (files written : Files) (path : List Char) (bytes : List UInt8)
    (location : List Name) (number : Nat) : Prop where
  null : '\x00' ∉ path
  locate : files.locate path = .ok location
  before : files.find? location = some (.file number) ∨
    files.find? location = none ∧ number = files.freshNumber
  after : written = (files.set location (.file number)).fill number bytes

/-- A file is written where the path leads, and there only. -/
theorem exists_hasWritten {written : Files} {bytes : List UInt8}
    (h : files.write path bytes = .ok written) :
    ∃ location number, files.HasWritten written path bytes location number := by
  rcases Except.of_bind_eq_ok h with ⟨location, hlocate, h⟩
  rcases checked_eq_ok_iff.1 hlocate with ⟨hnull, hlocate⟩
  split at h
  · next number hfile =>
    obtain rfl := Except.ok.inj h
    exact ⟨location, number, hnull, hlocate, .inl hfile, by rw [set_of_find? hfile (by simp)]⟩
  · cases h
  · next hfree =>
    obtain rfl := Except.ok.inj h
    exact ⟨location, files.freshNumber, hnull, hlocate, .inr ⟨hfree, rfl⟩, rfl⟩

namespace HasWritten

variable {written : Files} {bytes : List UInt8} {number : Nat}

theorem ne_nil (h : files.HasWritten written path bytes location number) : location ≠ [] := by
  rintro rfl
  rcases h.before with hfile | ⟨hfree, -⟩
  · cases hfile
  · cases hfree

theorem find?_eq (h : files.HasWritten written path bytes location number) (l : List Name) :
    written.find? l = if l = location then some (.file number) else files.find? l := by
  rw [h.after, find?_fill, find?_set files h.ne_nil]

theorem content_eq (h : files.HasWritten written path bytes location number) (n : Nat) :
    written.content n = if n = number then bytes else files.content n := by
  rw [h.after, content_fill, content_set]

theorem grows (h : files.HasWritten written path bytes location number) : files.Grows written where
  workingDirectory := by rw [h.after]; rfl
  entry {l entry} hl := by
    rw [h.find?_eq]
    split
    · next heq =>
      -- a file that was there has its number still
      subst heq
      rcases h.before with hfile | ⟨hfree, -⟩
      · exact hfile.symm.trans hl
      · rw [hfree] at hl
        cases hl
    · exact hl
  link {l target} hl := by
    rw [h.find?_eq] at hl
    split at hl
    · cases hl
    · exact hl

/-- The path leads to what was written. -/
theorem fileAt (h : files.HasWritten written path bytes location number) :
    written.fileAt path = .ok (some number) :=
  fileAt_eq_ok_some_iff.2
    ⟨location, h.null, h.grows.locate_eq_ok h.locate, by rw [h.find?_eq, if_pos rfl]⟩

end HasWritten

/-- What was written is read. -/
theorem read_of_write {written : Files} {bytes : List UInt8}
    (h : files.write path bytes = .ok written) : written.read path = .ok bytes := by
  rcases exists_hasWritten h with ⟨location, number, hwritten⟩
  exact read_eq_ok_iff.2 ⟨number, hwritten.fileAt, by rw [hwritten.content_eq, if_pos rfl]⟩

/-- What was written is read, also after another file has been written. -/
theorem read_of_write_of_write {first second : Files} {path' : List Char}
    {bytes bytes' : List UInt8} (h : files.write path bytes = .ok first)
    (h' : first.write path' bytes' = .ok second) (hapart : ¬ second.SameFile path path') :
    second.read path = .ok bytes := by
  rcases exists_hasWritten h with ⟨location, number, hwritten⟩
  rcases exists_hasWritten h' with ⟨location', number', hwritten'⟩
  have hfile := hwritten'.grows.fileAt hwritten.fileAt
  have hne : number ≠ number' := by
    rintro rfl
    exact hapart ⟨number, hfile, hwritten'.fileAt⟩
  refine read_eq_ok_iff.2 ⟨number, hfile, ?_⟩
  rw [hwritten'.content_eq, if_neg hne, hwritten.content_eq, if_pos rfl]

/-! ## Writing again -/

end Files

namespace Environment

variable {env : Environment} {path : List Char}

theorem readSource_eq_nullByte_iff : env.readSource path = .error .nullByte ↔ '\x00' ∈ path := by
  constructor
  · intro h
    by_cases hnull : '\x00' ∈ path
    · exact hnull
    · exfalso
      rcases Except.of_bind_eq_error h with hread | ⟨bytes, -, h⟩
      · rcases Files.read_eq_error hnull hread with ⟨cause, hcause⟩
        cases hcause
      · split at h <;> cases h
  · intro hnull
    unfold readSource
    rw [Files.read_of_null hnull]
    rfl

/-- What is read from a path is a source of this path, and the path is not empty. -/
theorem path_of_readSource {s : Source} (h : env.readSource path = .ok s) :
    s.path = path ∧ path ≠ [] := by
  rcases Except.of_bind_eq_ok h with ⟨bytes, hread, h⟩
  constructor
  · split at h
    · obtain rfl := Except.ok.inj h
      rfl
    · cases h
  · rintro rfl
    rw [Files.read_nil] at hread
    cases hread

end Environment

end ComponentMarkup
