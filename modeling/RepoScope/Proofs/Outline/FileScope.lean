import RepoScope.Proofs.Outline.Imports
import RepoScope.Proofs.Outline.Indented.Imports

/-!
# Imports at file scope

An outline is to show every import at the top of its text, with the lines up to the one that closes what it
opens. In an indented language it does. In a language with braces it does so below anything but a header that
may go on: below a declaration that ends with no semicolon, an import is lost unless it is itself read as a
declaration, or as the next line of the header.

* **`outline_keepsImports`**: which imports are shown, in each layout.
* **`exists_import_lost`**: an import below a constant without a semicolon.
-/

namespace RepoScope.Outline

open Text

/-- Whether an outline shows the imports of a text, as far as outlines of this layout do. -/
def Layout.KeepsImports : Layout → List Char → Selection → Prop
  | .braces lexis => Braces.KeepsImports lexis
  | .indented lexis => Indented.KeepsImports lexis

/--
An outline is that of a selection which shows the imports of the text as outlines of its layout do. What that is
differs between the layouts, and so does the proof; only the selection is found for both at once.
-/
theorem outline_keepsImports {extension : String} {layout : Layout} {text out : List Char}
    (hlayout : layout? extension = some layout) (hout : outline? text (some extension) = some out) :
    ∃ selection, select? layout text = some selection ∧ selection.finish text = out ∧
      layout.KeepsImports text selection := by
  obtain ⟨selection, hselect, hfinish⟩ := (outline?_eq_some_iff hlayout).mp hout
  refine ⟨selection, hselect, hfinish, ?_⟩
  cases layout with
  | braces lexis => exact Braces.keepsImports_of_select? hselect
  | indented lexis => exact Indented.keepsImports_of_select? hselect

/-- An import of three lines. -/
def importText : List Char := "import \x7b\n  b,\n\x7d from 'b';\nexport const c = b;\n".toList

/-- What the outline selects: all lines. -/
def importSelection : Selection :=
  { kept := [⟨3, "export const c = b;".toList⟩, ⟨2, "\x7d from 'b';".toList⟩, ⟨1, "  b,".toList⟩,
      ⟨0, "import \x7b".toList⟩]
    waiting := [] }

/-- The import is shown up to the line that closes its brace. -/
theorem outline_keepsImports_sample :
    importSelection.ShowsGroup Braces.Closes .slashesAndBackticks importText 0 := by
  have hlayout : layout? "ts" = some (.braces .slashesAndBackticks) := by decide +kernel
  have hout : outline? importText (some "ts") = some importText := by decide +kernel
  have hselection : select? (.braces .slashesAndBackticks) importText = some importSelection := by
    decide +kernel
  obtain ⟨selection, hselect, -, hkeeps⟩ := outline_keepsImports hlayout hout
  rw [hselection, Option.some.injEq] at hselect
  subst hselect
  have himports : Braces.ImportsAt .slashesAndBackticks importText 0 "import \x7b".toList :=
    ⟨by decide +kernel, ⟨by decide, rfl⟩, by decide +kernel⟩
  obtain ⟨s, r, hread, -, hshown⟩ := hkeeps 0 _ himports
  have hs : s = Braces.State.initial := (Option.some.inj (Braces.readAt?_eq_some.mp hread).1).symm
  subst hs
  exact (hshown rfl rfl).2 rfl

/-- A constant without a semicolon, and an import below it. -/
def lostImportText : List Char := "export const a = 1\nimport b from 'b'\n".toList

/-- The import is lost: the constant may go on, so the line is not read as an import. -/
theorem exists_import_lost :
    ∃ selection row line s r,
      layout? "ts" = some (.braces .slashesAndBackticks) ∧
      select? (.braces .slashesAndBackticks) lostImportText = some selection ∧
      outline? lostImportText (some "ts") = some (selection.finish lostImportText) ∧
      selection.finish lostImportText ≠ lostImportText ∧
      Braces.ImportsAt .slashesAndBackticks lostImportText row line ∧
      Braces.readAt? .slashesAndBackticks lostImportText row = some (s, r) ∧
      s.isInValue r = false ∧ s.elidesValue r = false ∧ ⟨row, line⟩ ∉ selection.lines := by
  refine ⟨{ kept := [⟨0, "export const a = 1".toList⟩], waiting := [] }, 1,
    "import b from 'b'".toList,
    { Braces.State.initial with
      header := some ⟨false, false, 0, false, false, 0⟩
      selection := { kept := [⟨0, "export const a = 1".toList⟩], waiting := [] } },
    { line := ⟨1, "import b from 'b'".toList⟩, trimmed := "import b from 'b'".toList,
      startsInside := false, inside := .code, start := 0, depth := 0, parens := 0, openAt := none },
    by decide +kernel, by decide +kernel, by decide +kernel, by decide +kernel, ?_, by decide +kernel,
    rfl, by decide +kernel, by decide +kernel⟩
  exact ⟨by decide +kernel, ⟨by decide +kernel, by decide +kernel⟩, by decide +kernel⟩

end RepoScope.Outline
