import ReferencePages.Proofs.Snippet.Asides.Breaks
import ReferencePages.Proofs.Snippet.Asides.Lines
import ReferencePages.Proofs.Snippet.FormattedLines

/-!
# Formatting keeps comments and templates

Formatting loses a blank line of a template where several follow each other
(`snippetAsides_formatSnippet_gap`): blank lines collapse whatever they stand in. Where each pass
changes nothing but code and the blanks of comments (`KeepsAsides`), the comments and templates of
the formatted snippet are those of the source (`snippetAsides_formatSnippet`).
-/

namespace ReferencePages

/-- The comments and templates of a snippet. -/
def snippetAsides (source : String) : List Lexeme := lineAsides .code (lines source.toList)

/-- The lines of a snippet before a semicolon is put behind them. -/
def collapsedLines (o : FormatOptions) (source : List Char) : List (List Char) :=
  collapseBlanks false false
    ((keptLines o (indentLines o 0 (spaceLines o .code (lines source)))).map SnippetLine.text)

/-- Lines that are left as they are, or broken where their lexemes allow it. -/
def KeepsBreaks (o : FormatOptions) (m : Mode) : List (List Char) → Prop
  | [] => True
  | line :: rest => KeepsBreak o m line ∧ KeepsBreaks o (endsIn m line) rest

instance decidableKeepsBreaks (o : FormatOptions) :
    ∀ (m : Mode) (ls : List (List Char)), Decidable (KeepsBreaks o m ls)
  | _, [] => isTrue trivial
  | m, line :: rest =>
    have := decidableKeepsBreaks o (endsIn m line) rest
    inferInstanceAs (Decidable (_ ∧ _))

/-- A snippet of which formatting changes nothing but code and the blanks of comments. -/
structure KeepsAsides (o : FormatOptions) (source : List Char) : Prop where
  kept : KeepsLines o .code (lines source)
  gaps : KeepsGaps .code (lines source)
  /-- A semicolon is put behind code alone. -/
  last : layoutLines o source = collapsedLines o source ∨
    endsInLines .code (lines source) = .code
  breaks : KeepsBreaks o .code (layoutLines o source)
  /-- No line of a template ends with a carriage return. -/
  returns : ∀ line ∈ formatLines o source, line.getLast? ≠ some '\r'

instance (o : FormatOptions) (source : List Char) : Decidable (KeepsAsides o source) :=
  decidable_of_iff
    (KeepsLines o .code (lines source) ∧ KeepsGaps .code (lines source) ∧
      (layoutLines o source = collapsedLines o source ∨
        endsInLines .code (lines source) = .code) ∧
      KeepsBreaks o .code (layoutLines o source) ∧
      ∀ line ∈ formatLines o source, line.getLast? ≠ some '\r')
    ⟨fun ⟨h₁, h₂, h₃, h₄, h₅⟩ => ⟨h₁, h₂, h₃, h₄, h₅⟩,
      fun ⟨h₁, h₂, h₃, h₄, h₅⟩ => ⟨h₁, h₂, h₃, h₄, h₅⟩⟩

section

variable {o : FormatOptions} {m : Mode} {ls : List (List Char)} {source : List Char}

/-- Lines that are broken where their lexemes allow it are like the lines as they were. -/
theorem KeepsBreaks.alikeLines (h : KeepsBreaks o m ls) :
    AlikeLines m ls (ls.flatMap (breakLine o)) := by
  induction ls generalizing m with
  | nil => exact .refl m []
  | cons line rest ih =>
    obtain ⟨hline, hrest⟩ := h
    exact hline.alikeLines.append (ih hrest)

/-- The formatted lines of a snippet are like its lines. -/
theorem KeepsAsides.alikeLines (h : KeepsAsides o source) :
    AlikeLines .code (lines source) (formatLines o source) := by
  have hkept : EachAlike .code (lines source)
      ((keptLines o (indentLines o 0 (spaceLines o .code (lines source)))).map SnippetLine.text) :=
    h.kept.eachAlike
  have hcollapsed : AlikeLines .code (lines source) (collapsedLines o source) :=
    hkept.alikeLines.trans
      (alikeLines_collapseBlanks false false (hkept.keepsGaps h.gaps) nofun nofun)
  have hlayout : AlikeLines .code (lines source) (layoutLines o source) := by
    refine hcollapsed.trans (alikeLines_terminate ?_)
    exact h.last.imp_right fun hend => hcollapsed.ends_eq ▸ hend
  exact hlayout.trans h.breaks.alikeLines

end

/-- The comments and templates of a formatted snippet are those of the source. -/
theorem snippetAsides_formatSnippet {o : FormatOptions} {source : String}
    (h : KeepsAsides o source.toList) :
    snippetAsides (formatSnippet o source) = snippetAsides source := by
  rw [snippetAsides, snippetAsides, lines_formatSnippet h.returns, h.alikeLines.asides_eq]

/-- A function with comments and a template. -/
def commentedFunction : String :=
  "/**\n* Loads  `a`, *\n  page.\n\n\n*/\n" ++
    "export function load(first_argument:string /* one, two */,retries:number):\x7b" ++
    " // why, what\n\n\na: `b,  'c'\n\n d`,\x7d\n"

/-- A line is broken within a comment, comments are indented, a comma is dropped behind a template
and blank lines collapse. -/
theorem snippetAsides_formatSnippet_commentedFunction :
    KeepsAsides {} commentedFunction.toList ∧
      snippetAsides (formatSnippet {} commentedFunction) = snippetAsides commentedFunction := by
  have h : KeepsAsides {} commentedFunction.toList := by decide +kernel
  exact ⟨h, snippetAsides_formatSnippet h⟩

/-- One of two blank lines of a template is lost. -/
theorem snippetAsides_formatSnippet_gap :
    let source := "const a = `x\n\n\ny`;"
    formatSnippet {} source = "const a = `x\n\ny`;" ∧
      snippetAsides (formatSnippet {} source) ≠ snippetAsides source := by
  decide +kernel

end ReferencePages
