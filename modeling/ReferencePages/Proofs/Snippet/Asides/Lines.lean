import ReferencePages.Proofs.Snippet.Asides.Row
import ReferencePages.Proofs.Snippet.Ending
import ReferencePages.Proofs.Snippet.Laid

/-!
# Asides of laid out lines

Indentation, dropped commas, collapsed lines and the last semicolon are made of whole lines, which
may begin or end within a comment or a template. Each pass keeps the asides where what it changes is
not one of a template, nor a comma or a semicolon of a comment: a comma is dropped from a line that
ends in code (`KeepsLines`), a blank line of a template is neither dropped nor emptied
(`KeepsGaps`), and a semicolon is put behind code (`alikeLines_terminate`).
-/

namespace ReferencePages

variable {o : FormatOptions} {m : Mode} {depth : Int} {line : List Char}
  {ks ls : List (List Char)}

/-! ## Line by line -/

/-- Lines of which each one is like the other. -/
inductive EachAlike : Mode → List (List Char) → List (List Char) → Prop
  | nil {m : Mode} : EachAlike m [] []
  | cons {m : Mode} {k l : List Char} {ks ls : List (List Char)} (h : Alike m k l)
      (hrest : EachAlike (endsIn m k) ks ls) : EachAlike m (k :: ks) (l :: ls)

theorem EachAlike.alikeLines (h : EachAlike m ks ls) : AlikeLines m ks ls := by
  induction h with
  | nil => exact .refl _ []
  | cons h hrest ih => exact .cons h ih

/-- The mode behind a line is that behind its scanned text. -/
theorem endsIn_scannedText (m : Mode) (line : List Char) :
    modeAfterAll m (scan m (scannedText m line)) = endsIn m line := by
  rw [scannedText]
  split
  · rfl
  · next hm => exact endsIn_trim hm line

/-- Indentation is no part of a comment or a template. -/
theorem alike_indentLine (o : FormatOptions) (depth : Int) (line : SnippetLine) :
    Alike line.opensIn line.text (indentLine o depth line) := by
  obtain ⟨pre, hpre, hline, htemplate⟩ := exists_indentLine o depth line
  rw [hline]
  by_cases hm : line.opensIn = .template
  · rw [htemplate hm]
    exact .refl _ _
  · exact (alike_append (isBlank_of_indent hpre) hm line.text).symm

/-- Lines that can be set and lose their commas without loss: a line that begins a template has no
blanks at its end, and a line that loses its comma ends in code. -/
def KeepsLines (o : FormatOptions) (m : Mode) : List (List Char) → Prop
  | [] => True
  | line :: rest =>
    (m ≠ .template → endsIn m line = .template → trimEnd line = line) ∧
      (Loses o (spaceLine o m line) ((spaceLines o (endsIn m line) rest).map SnippetLine.text) →
        endsIn m line = .code) ∧
      KeepsLines o (endsIn m line) rest

instance decidableKeepsLines (o : FormatOptions) :
    ∀ (m : Mode) (ls : List (List Char)), Decidable (KeepsLines o m ls)
  | _, [] => isTrue trivial
  | m, line :: rest =>
    have := decidableKeepsLines o (endsIn m line) rest
    inferInstanceAs (Decidable (_ ∧ _ ∧ _))

/-- A line without the comma at its end is like the line if that ends in code. -/
theorem alike_dropLast (hlast : line.getLast? = some ',')
    (hslashes : contains ['/', '/'] line = false) (hend : endsIn m line = .code) :
    Alike m line line.dropLast := by
  obtain ⟨init, rfl⟩ := List.getLast?_eq_some_iff.1 hlast
  rw [List.dropLast_concat]
  rw [endsIn_concat rfl] at hend
  rw [contains_eq_false_iff] at hslashes
  exact alike_concat_of_code rfl hend fun h =>
    hslashes (h.trans (List.prefix_append init [',']).isInfix)

/-- Lines with their indentation and the commas that are kept are like those of the source. -/
theorem KeepsLines.eachAlike (h : KeepsLines o m ls) :
    EachAlike m ls
      ((keptLines o (indentLines o depth (spaceLines o m ls))).map SnippetLine.text) := by
  induction ls generalizing m depth with
  | nil =>
    rw [spaceLines, indentLines, keptLines_nil]
    exact .nil
  | cons line rest ih =>
    obtain ⟨htight, hcomma, hrest⟩ := h
    have hspace : Alike m line (spaceLine o m line).text := alike_spaceLine o htight
    have hindent : Alike m line (indentLine o depth (spaceLine o m line)) :=
      hspace.trans (alike_indentLine o depth (spaceLine o m line))
    rw [spaceLines, endsIn_scannedText, indentLines, keptLines_cons, List.map_cons]
    refine .cons ?_ (ih hrest)
    split
    · next hloses =>
      have hend := hcomma ((loses_indentLine_iff o depth _ _ _).1 hloses)
      obtain ⟨-, -, hlast, hslashes, -⟩ := hloses
      exact hindent.trans (alike_dropLast hlast hslashes (hindent.endsIn_eq ▸ hend))
    · exact hindent

/-! ## Blank lines -/

/-- Each blank line of a template is empty, and the next line is not blank. -/
def KeepsGaps (m : Mode) : List (List Char) → Prop
  | [] => True
  | line :: rest =>
    (m = .template → trim line = [] →
      line = [] ∧ rest.head?.any (fun next => trim next != []) = true) ∧
      KeepsGaps (endsIn m line) rest

instance decidableKeepsGaps : ∀ (m : Mode) (ls : List (List Char)), Decidable (KeepsGaps m ls)
  | _, [] => isTrue trivial
  | m, line :: rest =>
    have := decidableKeepsGaps (endsIn m line) rest
    inferInstanceAs (Decidable (_ ∧ _))

/-- A line that is like a blank one within a template is that line. -/
theorem Alike.eq_of_blank {l : List Char} (h : Alike .template line l) (hl : trim l = []) :
    line = l := by
  have hplain : ∀ c ∈ l, isPlain c = true := fun c hc =>
    isPlain_of_isBlank (trim_eq_nil_iff.1 hl c hc)
  refine eq_of_asides_template (h.asides_eq.trans ?_)
  rw [asides, scan_of_isPlain hplain, List.filterMap_map]
  exact congrFun (List.filterMap_eq_map (f := Lexeme.templateChar)) l

theorem EachAlike.keepsGaps (h : EachAlike m ks ls) (hgaps : KeepsGaps m ks) :
    KeepsGaps m ls := by
  induction h with
  | nil => trivial
  | @cons m k l ks ls h hrest ih =>
    obtain ⟨hgap, hgaps⟩ := hgaps
    refine ⟨?_, h.endsIn_eq ▸ ih hgaps⟩
    rintro rfl hl
    obtain rfl := h.eq_of_blank hl
    obtain ⟨rfl, hnext⟩ := hgap rfl hl
    refine ⟨rfl, ?_⟩
    rw [endsIn_nil] at hrest
    cases hrest with
    | nil => cases hnext
    | cons h hrest =>
      simp only [List.head?_cons, Option.any_some, bne_iff_ne, ne_eq] at hnext ⊢
      exact fun hblank => hnext (h.eq_of_blank hblank ▸ hblank)

/-- Lines are collapsed without loss if no blank line of a template is. -/
theorem alikeLines_collapseBlanks (seen gap : Bool) (hgaps : KeepsGaps m ls)
    (hseen : m = .template → seen = true)
    (hgap : m = .template → gap = true → ls.head?.any (fun next => trim next != []) = true) :
    AlikeLines m ((if gap then [[]] else []) ++ ls) (collapseBlanks seen gap ls) := by
  have hneutral {m : Mode} (hm : m ≠ .template) (gap : Bool) (ls : List (List Char)) :
      AlikeLines m ((if gap then [[]] else []) ++ ls) ls := by
    cases gap with
    | false => exact .refl m ls
    | true => exact alikeLines_cons_of_blank hm rfl ls
  induction ls generalizing m seen gap with
  | nil =>
    by_cases hm : m = .template
    · cases gap with
      | false => exact .refl m []
      | true => cases hgap hm rfl
    · exact hneutral hm gap []
  | cons line rest ih =>
    obtain ⟨hblank, hgaps⟩ := hgaps
    by_cases hline : trim line = []
    · rw [collapseBlanks_cons_of_blank hline]
      by_cases hm : m = .template
      · -- The blank line is the one that collapsing leaves between two others.
        obtain ⟨rfl, hnext⟩ := hblank hm hline
        obtain rfl : gap = false := Bool.eq_false_iff.2 fun htrue => by
          have hne : trim [] ≠ [] := by simpa using hgap hm htrue
          exact hne rfl
        rw [endsIn_nil] at hgaps
        have hrest := ih seen true hgaps hseen fun _ _ => hnext
        rwa [hseen hm] at hrest ⊢
      · rw [endsIn_of_blank hm hline] at hgaps
        exact (hneutral hm gap _).trans ((alikeLines_cons_of_blank hm hline rest).trans
          ((hneutral hm seen rest).symm.trans
            (ih seen seen hgaps (fun h => absurd h hm) fun h => absurd h hm)))
    · rw [collapseBlanks_cons_of_ne_nil hline]
      refine (AlikeLines.refl m _).append (.cons (.refl _ line) ?_)
      have hpending : endsInLines m (if gap then [[]] else []) = m := by
        cases gap with
        | false => rfl
        | true => exact endsIn_nil m
      rw [hpending]
      exact ih true false hgaps (fun _ => rfl) fun _ h => nomatch h

/-! ## The end of the statement -/

/-- The semicolon that is put behind code is no aside. -/
theorem alikeLines_terminate (h : terminate ls = ls ∨ endsInLines m ls = .code) :
    AlikeLines m ls (terminate ls) := by
  rcases terminate_cases ls with ⟨hsame, -⟩ | ⟨init, last, rfl, hlines, word, hneeds⟩
  · rw [hsame]
    exact .refl m ls
  · rcases h with h | h
    · rw [h]
      exact .refl m _
    · rw [endsInLines_append] at h
      have hslashes := contains_eq_false_iff.1 (contains_slashes_of_needsSemicolon hneeds)
      rw [hlines]
      exact (AlikeLines.refl m init).append (alike_concat_of_code rfl h hslashes).symm.lines

end ReferencePages
