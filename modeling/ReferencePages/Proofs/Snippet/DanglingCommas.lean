import ReferencePages.Proofs.Snippet.FormattedLines
import ReferencePages.Proofs.Snippet.Outline.Breaks
import ReferencePages.Proofs.Snippet.Significant

/-!
# Dangling commas of a snippet

Without trailing commas, a formatted snippet has no comma of code before a closing bracket, on the
same line or the next ones (`not_dangling_formatSnippet`). The commas are dropped before long lines
are broken (`outline_layoutLines`), and no break brings one before a bracket
(`safeFor_flatMap_breakLine`).

This is asked of sources of code alone that have no two commas in a row. Besides, a comma at the end
of a line is not seen behind two slashes, even those of a literal (`formatSnippet_urlMember`), the
cuts take an escaped backslash at the end of a literal for one that escapes the quote, and the bars
that a union may lose must not part a comma from a bracket.
-/

namespace ReferencePages

/-- The outlines of the lines of a snippet, one after the other. -/
def snippetOutline (source : String) : List Char := (lines source.toList).flatMap outline

section

variable {o : FormatOptions} {source : String} {line : List Char} {ls : List (List Char)}

theorem flatMap_outline_collapseBlanks (seen gap : Bool) (ls : List (List Char)) :
    (collapseBlanks seen gap ls).flatMap outline = ls.flatMap outline := by
  induction ls generalizing seen gap with
  | nil => rfl
  | cons line ls ih =>
    by_cases hline : trim line = []
    · rw [collapseBlanks_cons_of_blank hline, ih, List.flatMap_cons, ← outline_trim line, hline,
        outline_nil, List.nil_append]
    · rw [collapseBlanks_cons_of_ne_nil hline, List.flatMap_append, List.flatMap_cons, ih]
      cases gap <;> simp

theorem mem_collapseBlanks {seen gap : Bool} (h : line ∈ collapseBlanks seen gap ls) :
    line = [] ∨ line ∈ ls := by
  induction ls generalizing seen gap with
  | nil => cases h
  | cons l ls ih =>
    by_cases hl : trim l = []
    · rw [collapseBlanks_cons_of_blank hl] at h
      exact (ih h).imp_right (List.mem_cons_of_mem l)
    · rw [collapseBlanks_cons_of_ne_nil hl] at h
      rcases List.mem_append.1 h with h | h
      · cases gap with
        | false => cases h
        | true => exact Or.inl (List.mem_singleton.1 h)
      · rcases List.mem_cons.1 h with rfl | h
        · exact Or.inr List.mem_cons_self
        · exact (ih h).imp_right (List.mem_cons_of_mem l)

/-- A line of code that can be broken. -/
structure Breakable (line : List Char) : Prop where
  orderly : Orderly line
  /-- No comma stands before a bar. -/
  bars : ¬[',', '|'] <:+: outline line

theorem Breakable.nil : Breakable [] :=
  ⟨orderly_nil, fun h => absurd h.length_le (by simp)⟩

theorem Breakable.concat_semicolon (h : Breakable line) :
    Breakable (line ++ [';']) ∧
      (outline (line ++ [';']) = outline line ++ [';'] ∨
        outline (line ++ [';']) = outline line) := by
  have hcases := outline_concat_cases (c := ';') rfl h.orderly.asides
  rw [Lexeme.outline_code rfl] at hcases
  refine ⟨⟨(orderly_concat_iff rfl).2 h.orderly, fun hbar => ?_⟩, hcases.imp_right And.left⟩
  rcases hcases with hout | ⟨hout, -⟩
  · rw [hout] at hbar
    rcases pair_infix_append hbar with hbar | ⟨-, hhead⟩ | hbar
    · exact h.bars hbar
    · cases hhead
    · exact absurd hbar.length_le (by simp)
  · exact h.bars (hout ▸ hbar)

/-- The lines before long ones are broken have the outline of the source, undangled, but for a
semicolon at the end. -/
theorem outline_layoutLines (ho : o.trailingComma = false) {source : List Char}
    (hlines : ∀ line ∈ lines source, Breakable line) (hshow : CommasShow (lines source))
    (hcommas : ¬[',', ','] <:+: (lines source).flatMap outline) :
    ((layoutLines o source).flatMap outline = undangle none ((lines source).flatMap outline) ∨
      (layoutLines o source).flatMap outline =
        undangle none ((lines source).flatMap outline) ++ [';']) ∧
      ∀ line ∈ layoutLines o source, Breakable line := by
  obtain ⟨hout, hkept⟩ := outline_keptRows ho 0 (fun line hline => (hlines line hline).orderly)
    hshow hcommas
  have hcollapsed : collapsedLines o source =
      collapseBlanks false false (keptRows o 0 (lines source)) :=
    collapsedLines_of_code o fun line hline => endsIn_of_asides (hlines line hline).orderly.asides
  have hmem : ∀ line ∈ collapsedLines o source, Breakable line := fun line hline => by
    rw [hcollapsed] at hline
    rcases mem_collapseBlanks hline with rfl | hline
    · exact .nil
    · obtain ⟨horderly, hsub⟩ := hkept line hline
      refine ⟨horderly, fun hbar => ?_⟩
      obtain ⟨l, hl, hlbar⟩ := hsub '|' rfl hbar
      exact (hlines l hl).bars hlbar
  have hflat : (collapsedLines o source).flatMap outline =
      undangle none ((lines source).flatMap outline) := by
    rw [hcollapsed, flatMap_outline_collapseBlanks, hout]
  have hlayout : layoutLines o source = terminate (collapsedLines o source) := rfl
  rw [hlayout, ← hflat]
  rcases terminate_cases (collapsedLines o source) with
    ⟨hsame, -⟩ | ⟨init, last, hinit, hlast, -⟩
  · rw [hsame]
    exact ⟨Or.inl rfl, hmem⟩
  · rw [hinit, List.forall_mem_append, List.forall_mem_singleton] at hmem
    obtain ⟨hstop, hcases⟩ := hmem.2.concat_semicolon
    rw [hlast, hinit, List.forall_mem_append, List.forall_mem_singleton, List.flatMap_append,
      List.flatMap_append, List.flatMap_singleton, List.flatMap_singleton]
    refine ⟨?_, hmem.1, hstop⟩
    rcases hcases with hcase | hcase
    · exact Or.inr (by rw [hcase, List.append_assoc])
    · exact Or.inl (by rw [hcase])

/-- Lines that are broken have a comma before a closing bracket only where they had. -/
theorem safeFor_flatMap_breakLine (ho : o.trailingComma = false)
    (h : ∀ line ∈ ls, Breakable line) :
    SafeFor (ls.flatMap outline) ((ls.flatMap (breakLine o)).flatMap outline) := by
  induction ls with
  | nil => exact .refl _
  | cons line ls ih =>
    obtain ⟨hline, hls⟩ := List.forall_mem_cons.1 h
    rw [List.flatMap_cons, List.flatMap_cons, List.flatMap_append]
    exact (safeFor_breakLine ho hline.orderly hline.bars).append (ih hls)

/-- The lines of joined lines have their outlines. -/
theorem flatMap_outline_lines (h : ∀ line ∈ ls, '\n' ∉ line) :
    (lines (joinLines ls)).flatMap outline = ls.flatMap outline := by
  have hsplit : (splitLines (joinLines ls)).flatMap outline = ls.flatMap outline := by
    rw [splitLines_joinLines h]
    split
    · next hnil =>
      rw [hnil, List.flatMap_singleton, outline_nil]
      rfl
    · rfl
  rw [← hsplit]
  exact flatMap_lines outline_dropCarriageReturn outline_nil _

/-- No comma of code stands before a closing bracket in a snippet that is formatted without trailing
commas. -/
theorem not_dangling_formatSnippet (ho : o.trailingComma = false)
    (hasides : snippetAsides source = []) (hcommas : ¬[',', ','] <:+: snippetOutline source)
    (hshow : CommasShow (lines source.toList))
    (hends : ∀ line ∈ lines source.toList, ∀ l ∈ scan .code line, ¬l.EndsInBackslash)
    (hbars : ∀ line ∈ lines source.toList, ¬[',', '|'] <:+: outline line) :
    ∀ c, isCloser c = true → ¬[',', c] <:+: snippetOutline (formatSnippet o source) := by
  intro c hc hsub
  have hlines : ∀ line ∈ lines source.toList, Breakable line := fun line hline =>
    ⟨⟨(asides_of_lineAsides hasides line hline).1, hends line hline⟩, hbars line hline⟩
  obtain ⟨hout, hlayout⟩ := outline_layoutLines ho hlines hshow hcommas
  rw [snippetOutline, formatSnippet, String.toList_ofList,
    flatMap_outline_lines (feed_formatLines o _)] at hsub
  have hpair := (safeFor_flatMap_breakLine ho hlayout).pairs c hc hsub
  have hnot := not_infix_undangle hcommas hc
  rcases hout with hout | hout
  · exact hnot (hout ▸ hpair)
  · rw [hout] at hpair
    rcases pair_infix_append hpair with hpair | ⟨-, hhead⟩ | hpair
    · exact hnot hpair
    · obtain rfl : ';' = c := Option.some.inj hhead
      cases hc
    · exact absurd hpair.length_le (by simp)

/-- An object type that is broken, with an address in a literal and with commas before brackets on
the same line and behind a blank one. -/
theorem not_dangling_formatSnippet_routes :
    let source := "type Routes = \x7b\n\turls: ['http://a', 'it\\'s',],\n\t" ++
      "load: (event: RequestEvent, resolve: Resolve, kind: 'a, b',) => Promise<Response>,\n\n\x7d"
    (({} : FormatOptions).trailingComma = false ∧ snippetAsides source = [] ∧
      ¬[',', ','] <:+: snippetOutline source ∧ CommasShow (lines source.toList) ∧
      (∀ line ∈ lines source.toList, ∀ l ∈ scan .code line, ¬l.EndsInBackslash) ∧
      ∀ line ∈ lines source.toList, ¬[',', '|'] <:+: outline line) ∧
      ∀ c, isCloser c = true → ¬[',', c] <:+: snippetOutline (formatSnippet {} source) := by
  intro source
  have hsource : snippetAsides source = [] ∧ ¬[',', ','] <:+: snippetOutline source ∧
      CommasShow (lines source.toList) := by decide +kernel
  have hescaped : ∀ line ∈ lines source.toList, ∀ l ∈ scan .code line,
      l.text.dropLast.getLast? ≠ some '\\' := by decide +kernel
  have hends : ∀ line ∈ lines source.toList, ∀ l ∈ scan .code line, ¬l.EndsInBackslash :=
    fun line hline l hl h => hescaped line hline l hl h.getLast?_dropLast
  have hbars : ∀ line ∈ lines source.toList, ¬[',', '|'] <:+: outline line := by decide +kernel
  clear_value source
  exact ⟨⟨rfl, hsource.1, hsource.2.1, hsource.2.2, hends, hbars⟩,
    not_dangling_formatSnippet rfl hsource.1 hsource.2.1 hsource.2.2 hends hbars⟩

/-- An address in a literal keeps the comma behind it before the brace. -/
theorem formatSnippet_urlMember :
    let source := "type X = \x7b\n\ta: 'http://x',\n\x7d"
    snippetAsides source = [] ∧ ¬[',', ','] <:+: snippetOutline source ∧
      [',', '\x7d'] <:+: snippetOutline (formatSnippet {} source) := by
  decide +kernel

end

end ReferencePages
