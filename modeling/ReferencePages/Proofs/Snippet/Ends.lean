import ReferencePages.Proofs.Snippet.Asides.Kept
import ReferencePages.Proofs.Snippet.Keyword

/-!
# The first and the last line of a snippet

Lines that all end in code are set one by one (`spaceLines_of_code`), and blank ones are left out
at either end. So the laid out lines end with the last line that is not blank, as it is set behind
its indentation (`exists_getLast?_collapsedLines`), and begin with the keyword of the first one
(`exists_head?_collapsedLines`), although that one may have lost a comma at its end, or all of
itself if it is a comma.
-/

namespace ReferencePages

/-! ## The end of a row -/

namespace Row

variable {o : FormatOptions} {r : Row} {m : Mode} {t : List Char} {c : Char}

theorem exists_placeAll_append (o : FormatOptions) (r : Row) (ls ks : List Lexeme) :
    ∃ r' : Row, r.placeAll o (ls ++ ks) = r'.placeAll o ks := by
  induction ls generalizing r with
  | nil => exact ⟨r, rfl⟩
  | cons l ls ih => exact ih _

/-- The last lexeme is set at the very end. -/
theorem exists_text_placeAll_concat (o : FormatOptions) (r : Row) (ls : List Lexeme)
    (l : Lexeme) : ∃ before, (r.placeAll o (ls ++ [l])).text = before ++ l.shown o := by
  obtain ⟨r', hplace⟩ := exists_placeAll_append o r ls [l]
  obtain ⟨gap, gap', -, -, hnone, htext⟩ := exists_text_place o r' l none
  refine ⟨(r'.base o l).text ++ gap, ?_⟩
  rw [hplace]
  exact htext.trans (by rw [hnone rfl, List.append_nil])

end Row

section

variable {o : FormatOptions} {r : Row} {m : Mode} {l : Lexeme} {line t : List Char} {c : Char}

/-- A literal in the preferred quotes ends as it did, unless its quotes have been replaced. -/
theorem getLast?_requote {s : List Char} (h : s.getLast? = some c) :
    (requote o s).getLast? = some c ∨ c = o.otherQuote ∧ (requote o s).getLast? = some o.quote := by
  unfold requote
  split
  · next q rest =>
    dsimp only
    split
    · next hcond =>
      obtain ⟨-, hlast, -⟩ := hcond
      have hs : (q :: rest).getLast? = some o.otherQuote := by
        rw [List.getLast?_cons, hlast, Option.getD_some]
      exact Or.inr ⟨Option.some.inj (h.symm.trans hs), List.getLast?_concat⟩
    · exact Or.inl h
  · cases h

theorem Lexeme.getLast?_shown (hc : isBlank c = false) (h : l.text.getLast? = some c) :
    (l.shown o).getLast? = some c ∨ c = o.otherQuote ∧ (l.shown o).getLast? = some o.quote := by
  cases l with
  | code d =>
    obtain rfl : d = c := Option.some.inj h
    have hsolid : ¬(d = ' ' ∨ d = '\t') := by
      rintro (rfl | rfl) <;> cases hc
    refine Or.inl ?_
    rw [Lexeme.shown, if_neg hsolid]
    rfl
  | literal s => exact getLast?_requote h
  | _ => exact Or.inl h

/-- A row ends as its text does, unless that ends with a quote that has been replaced. -/
theorem getLast?_placeAll_cases (o : FormatOptions) (r : Row) (hc : isBlank c = false)
    (h : t.getLast? = some c) :
    (r.placeAll o (scan m t)).text.getLast? = some c ∨
      c = o.otherQuote ∧ (r.placeAll o (scan m t)).text.getLast? = some o.quote := by
  rw [← getLast?_scan m t] at h
  obtain ⟨l, hl, hlast⟩ := Option.bind_eq_some_iff.1 h
  obtain ⟨init, hinit⟩ := List.getLast?_eq_some_iff.1 hl
  obtain ⟨before, htext⟩ := Row.exists_text_placeAll_concat o r init l
  have hshown := Lexeme.getLast?_shown (o := o) hc hlast
  have hne : l.shown o ≠ [] := by
    rintro hnil
    rcases hshown with hlast | ⟨-, hlast⟩ <;> rw [hnil] at hlast <;> cases hlast
  rw [hinit, htext, List.getLast?_append_of_ne_nil _ hne]
  exact hshown

/-! ## Set lines -/

theorem exists_getLast?_trim (h : trim line ≠ []) :
    ∃ c, (trim line).getLast? = some c ∧ isBlank c = false := by
  obtain ⟨c, hc⟩ := Option.isSome_iff_exists.1 (List.getLast?_isSome.2 h)
  exact ⟨c, hc, (trim_eq_self_iff_forall.1 (trim_trim line)).2 c hc⟩

theorem text_spaceLine (o : FormatOptions) (h : trim line ≠ []) :
    (spaceLine o .code line).text = (({} : Row).placeAll o (scan .code (trim line))).text := by
  obtain ⟨c, hlast, hc⟩ := exists_getLast?_trim h
  refine trimEnd_eq_self_iff.2 fun d hd => ?_
  rcases getLast?_placeAll_cases o {} hc hlast with hrow | ⟨-, hrow⟩
  · exact Option.some.inj (hrow.symm.trans hd) ▸ hc
  · exact Option.some.inj (hrow.symm.trans hd) ▸ isBlank_quote o

theorem text_spaceLine_of_blank (o : FormatOptions) (h : trim line = []) :
    (spaceLine o .code line).text = [] := by
  have hscanned : scannedText .code line = [] := (if_neg nofun).trans h
  rw [spaceLine, hscanned, scan]
  rfl

/-- A set line ends as the line does, unless that ends with a quote that has been replaced. -/
theorem getLast?_text_spaceLine (o : FormatOptions) (h : (trim line).getLast? = some c) :
    (spaceLine o .code line).text.getLast? = some c ∨
      c = o.otherQuote ∧ (spaceLine o .code line).text.getLast? = some o.quote := by
  have hne : trim line ≠ [] := fun hnil => by
    rw [hnil] at h
    cases h
  obtain ⟨d, hd, hsolid⟩ := exists_getLast?_trim hne
  obtain rfl := Option.some.inj (hd.symm.trans h)
  rw [text_spaceLine o hne]
  exact getLast?_placeAll_cases o {} hsolid h

/-- What is no quote stands at the end of a set line where it does in the line. -/
theorem getLast?_text_spaceLine_iff (o : FormatOptions) (hc : ¬IsQuote c) :
    (spaceLine o .code line).text.getLast? = some c ↔ (trim line).getLast? = some c := by
  by_cases hline : trim line = []
  · rw [text_spaceLine_of_blank o hline, hline]
  · obtain ⟨d, hd, -⟩ := exists_getLast?_trim hline
    rw [hd]
    rcases getLast?_text_spaceLine o hd with hrow | ⟨rfl, hrow⟩ <;> rw [hrow]
    exact iff_of_false (fun h => ne_quote o hc (Option.some.inj h).symm)
      fun h => hc (Option.some.inj h ▸ isQuote_otherQuote o)

theorem trim_text_spaceLine_eq_nil_iff (o : FormatOptions) :
    trim (spaceLine o .code line).text = [] ↔ trim line = [] := by
  refine ⟨fun h => ?_, fun h => by rw [text_spaceLine_of_blank o h]; rfl⟩
  by_contra hne
  obtain ⟨c, hc, hsolid⟩ := exists_getLast?_trim hne
  rcases getLast?_text_spaceLine o hc with hlast | ⟨-, hlast⟩
  · exact trim_ne_nil_of_mem (List.mem_of_getLast? hlast) hsolid h
  · exact trim_ne_nil_of_mem (List.mem_of_getLast? hlast) (isBlank_quote o) h

/-- Lines that end in code are set one by one. -/
theorem spaceLines_of_code (o : FormatOptions) {ls : List (List Char)}
    (h : ∀ line ∈ ls, endsIn .code line = .code) :
    spaceLines o .code ls = ls.map (spaceLine o .code) := by
  induction ls with
  | nil => rfl
  | cons line ls ih =>
    obtain ⟨hline, hls⟩ := List.forall_mem_cons.1 h
    rw [spaceLines, endsIn_scannedText, hline, ih hls, List.map_cons]

end

/-! ## Lines that are not blank -/

section

variable {o : FormatOptions} {ls ks : List (List Char)} {line first last : List Char}

/-- The lines that are not blank. -/
def contentLines (ls : List (List Char)) : List (List Char) :=
  ls.filter fun line => !(trim line).isEmpty

theorem contentLines_cons_of_blank (h : trim line = []) (ls : List (List Char)) :
    contentLines (line :: ls) = contentLines ls :=
  List.filter_cons_of_neg (by simp [h])

theorem contentLines_cons_of_ne_nil (h : trim line ≠ []) (ls : List (List Char)) :
    contentLines (line :: ls) = line :: contentLines ls :=
  List.filter_cons_of_pos (by simpa using h)

theorem mem_contentLines : line ∈ contentLines ls ↔ line ∈ ls ∧ trim line ≠ [] := by
  simp [contentLines]

theorem getLast?_collapseBlanks (seen gap : Bool) (ls : List (List Char)) :
    (collapseBlanks seen gap ls).getLast? = (contentLines ls).getLast? := by
  induction ls generalizing seen gap with
  | nil => rfl
  | cons line ls ih =>
    by_cases hline : trim line = []
    · rw [collapseBlanks_cons_of_blank hline, contentLines_cons_of_blank hline, ih]
    · rw [collapseBlanks_cons_of_ne_nil hline, contentLines_cons_of_ne_nil hline,
        List.getLast?_append_of_ne_nil _ (List.cons_ne_nil _ _), List.getLast?_cons,
        List.getLast?_cons, ih]

theorem head?_collapseBlanks (ls : List (List Char)) :
    (collapseBlanks false false ls).head? = (contentLines ls).head? := by
  induction ls with
  | nil => rfl
  | cons line ls ih =>
    by_cases hline : trim line = []
    · rw [collapseBlanks_cons_of_blank hline, contentLines_cons_of_blank hline, ih]
    · rw [collapseBlanks_cons_of_ne_nil hline, contentLines_cons_of_ne_nil hline]
      rfl

theorem leadChar_eq_head? (ls : List (List Char)) :
    leadChar ls = (contentLines ls).head?.bind fun line => (trim line).head? := by
  induction ls with
  | nil => rfl
  | cons line ls ih =>
    by_cases hline : trim line = []
    · rw [leadChar_cons_of_blank hline, contentLines_cons_of_blank hline, ih]
    · rw [leadChar_cons_of_ne_nil hline, contentLines_cons_of_ne_nil hline]
      rfl

end

/-! ## Kept lines -/

section

variable {o : FormatOptions} {depth : Int} {ls : List (List Char)} {line first last : List Char}

/-- The lines of code with their spacing, their indentation and their commas settled. -/
def keptRows (o : FormatOptions) (depth : Int) (ls : List (List Char)) : List (List Char) :=
  (keptLines o (indentLines o depth (ls.map (spaceLine o .code)))).map SnippetLine.text

/-- A kept line is a set line behind its indentation, less a comma that it loses. -/
theorem keptRows_cons (o : FormatOptions) (depth : Int) (line : List Char)
    (ls : List (List Char)) :
    ∃ depth' pre, (∀ c ∈ pre, isBlank c = true) ∧
      keptRows o depth (line :: ls) =
        (if Loses o (spaceLine o .code line) (ls.map fun line => (spaceLine o .code line).text)
          then (pre ++ (spaceLine o .code line).text).dropLast
          else pre ++ (spaceLine o .code line).text) :: keptRows o depth' ls := by
  obtain ⟨pre, hpre, hindent, -⟩ := exists_indentLine o depth (spaceLine o .code line)
  have hrest : (ls.map (spaceLine o .code)).map SnippetLine.text =
      ls.map fun line => (spaceLine o .code line).text := List.map_map
  refine ⟨depth + (spaceLine o .code line).delta, pre, isBlank_of_indent hpre, ?_⟩
  rw [keptRows, List.map_cons, indentLines, keptLines_cons, List.map_cons, ← hrest, ← hindent]
  simp only [loses_indentLine_iff]
  split <;> rfl

theorem exists_keptRows_cons (o : FormatOptions) (depth : Int) (line : List Char)
    (ls : List (List Char)) :
    ∃ kept depth' pre, (∀ c ∈ pre, isBlank c = true) ∧
      keptRows o depth (line :: ls) = kept :: keptRows o depth' ls ∧
      (kept = pre ++ (spaceLine o .code line).text ∨
        pre ++ (spaceLine o .code line).text = kept ++ [','] ∧
          (leadChar (ls.map fun line => (spaceLine o .code line).text)).any isCloser = true) := by
  obtain ⟨depth', pre, hpre, hcons⟩ := keptRows_cons o depth line ls
  refine ⟨_, depth', pre, hpre, hcons, ?_⟩
  split
  · next hloses =>
    obtain ⟨-, -, hlast, -, hcloser⟩ := hloses
    have hne : (spaceLine o .code line).text ≠ [] := fun hnil => by
      rw [hnil] at hlast
      cases hlast
    refine Or.inr ⟨(List.dropLast_append_getLast? ',' ?_).symm, hcloser⟩
    rw [List.getLast?_append_of_ne_nil _ hne, hlast]
    rfl
  · exact Or.inl rfl

theorem leadChar_of_contentLines_eq_nil (h : contentLines ls = []) : leadChar ls = none := by
  rw [leadChar_eq_head?, h]
  rfl

theorem contentLines_map_spaceLine (o : FormatOptions) (ls : List (List Char)) :
    contentLines (ls.map fun line => (spaceLine o .code line).text) =
      (contentLines ls).map fun line => (spaceLine o .code line).text := by
  induction ls with
  | nil => rfl
  | cons line ls ih =>
    rw [List.map_cons]
    by_cases hline : trim line = []
    · rw [contentLines_cons_of_blank hline,
        contentLines_cons_of_blank ((trim_text_spaceLine_eq_nil_iff o).2 hline), ih]
    · rw [contentLines_cons_of_ne_nil hline,
        contentLines_cons_of_ne_nil (mt (trim_text_spaceLine_eq_nil_iff o).1 hline), ih,
        List.map_cons]

/-- What is left of a blank line is blank. -/
theorem trim_eq_nil_of_kept {kept pre : List Char} (hpre : ∀ c ∈ pre, isBlank c = true)
    (hline : trim line = []) (hkept : kept = pre ++ (spaceLine o .code line).text ∨
      pre ++ (spaceLine o .code line).text = kept ++ [',']) : trim kept = [] := by
  rw [text_spaceLine_of_blank o hline, List.append_nil] at hkept
  rcases hkept with rfl | rfl
  · exact trim_eq_nil_iff.2 hpre
  · exact trim_eq_nil_iff.2 fun c hc => hpre c (List.mem_append_left _ hc)

/-- Blank lines are kept blank. -/
theorem contentLines_keptRows_eq_nil (o : FormatOptions) (depth : Int)
    (h : contentLines ls = []) : contentLines (keptRows o depth ls) = [] := by
  induction ls generalizing depth with
  | nil =>
    rw [keptRows, List.map_nil, indentLines, keptLines_nil]
    rfl
  | cons line ls ih =>
    obtain ⟨kept, depth', pre, hpre, hcons, hkept⟩ := exists_keptRows_cons o depth line ls
    have hline : trim line = [] := by
      by_contra hne
      rw [contentLines_cons_of_ne_nil hne] at h
      cases h
    rw [contentLines_cons_of_blank hline] at h
    rw [hcons, contentLines_cons_of_blank
      (trim_eq_nil_of_kept hpre hline (hkept.imp_right And.left)), ih depth' h]

theorem getLast?_contentLines_cons (h : contentLines ls ≠ []) (line : List Char) :
    (contentLines (line :: ls)).getLast? = (contentLines ls).getLast? := by
  by_cases hline : trim line = []
  · rw [contentLines_cons_of_blank hline]
  · rw [contentLines_cons_of_ne_nil hline, List.getLast?_cons_of_ne_nil h]

/-- The last line that is not blank is kept as it is set. -/
theorem getLast?_contentLines_keptRows (o : FormatOptions) (depth : Int)
    (h : last ∈ (contentLines ls).getLast?) :
    ∃ pre, (∀ c ∈ pre, isBlank c = true) ∧ (contentLines (keptRows o depth ls)).getLast? =
      some (pre ++ (spaceLine o .code last).text) := by
  induction ls generalizing depth with
  | nil => cases h
  | cons line ls ih =>
    obtain ⟨kept, depth', pre, hpre, hcons, hkept⟩ := exists_keptRows_cons o depth line ls
    rw [hcons]
    by_cases hrest : contentLines ls = []
    · -- The line is the last one, and what follows it begins with no bracket.
      have hlead : leadChar (ls.map fun line => (spaceLine o .code line).text) = none := by
        refine leadChar_of_contentLines_eq_nil ?_
        rw [contentLines_map_spaceLine, hrest, List.map_nil]
      rw [hlead] at hkept
      obtain rfl : kept = pre ++ (spaceLine o .code line).text :=
        hkept.resolve_right fun h => Bool.false_ne_true h.2
      have hline : trim line ≠ [] := fun hblank => by
        rw [contentLines_cons_of_blank hblank, hrest] at h
        cases h
      have hsolid : trim (pre ++ (spaceLine o .code line).text) ≠ [] := by
        rwa [trim_append_of_blank hpre, Ne, trim_text_spaceLine_eq_nil_iff]
      rw [contentLines_cons_of_ne_nil hline, hrest] at h
      obtain rfl : line = last := Option.some.inj h
      rw [contentLines_cons_of_ne_nil hsolid, contentLines_keptRows_eq_nil o depth' hrest]
      exact ⟨pre, hpre, rfl⟩
    · rw [getLast?_contentLines_cons hrest] at h
      obtain ⟨pre', hpre', hget⟩ := ih depth' h
      refine ⟨pre', hpre', ?_⟩
      rw [getLast?_contentLines_cons fun hnone => ?_, hget]
      rw [hnone] at hget
      cases hget

/-! ## Keywords -/

theorem keyword_of_blank (h : trim line = []) : keyword line = [] := by
  have hstart : trimStart line = [] := List.dropWhile_eq_nil_iff.2 (trim_eq_nil_iff.1 h)
  rw [keyword, hstart]
  rfl

theorem keyword_append_of_blank {pre : List Char} (hpre : ∀ c ∈ pre, isBlank c = true)
    (line : List Char) : keyword (pre ++ line) = keyword line := by
  have hstart : trimStart (pre ++ line) = trimStart line := List.dropWhile_append_of_pos hpre
  rw [keyword, keyword, hstart]

/-- A line that begins with a closing bracket has no keyword. -/
theorem keyword_of_closer {c : Char} (h : (trim line).head? = some c) (hc : isCloser c = true) :
    keyword line = [] := by
  rw [head?_trim, List.find?_eq_some_iff_append] at h
  obtain ⟨hsolid, b, rest, rfl, hb⟩ := h
  have hblank : trim b = [] := trim_eq_nil_iff.2 (by simpa using hb)
  have hword : isAlphanumeric c = false := by
    rcases isCloser_iff.1 hc with rfl | rfl | rfl <;> decide
  rw [keyword_append_cons (by simpa using hsolid) hword, keyword_of_blank hblank]

/-- The keyword of a set line is the word that the line declares. -/
theorem keyword_spaceLine_iff (o : FormatOptions) {word : List Char} (hword : IsKeyword word)
    (hne : trim line ≠ []) (hfeed : '\n' ∉ line) :
    keyword (spaceLine o .code line).text = word ↔ Declares word (trim line) := by
  rw [text_spaceLine o hne]
  exact keyword_placeAll_iff o hword (trim_eq_self_iff.1 (trim_trim line)).1 fun hmem =>
    hfeed (trim_subset line hmem)

/-- A bracket that closes next is still the next character. -/
theorem exists_head?_keptRows_of_closer (o : FormatOptions) (depth : Int) {ls : List (List Char)}
    (h : (leadChar (ls.map fun line => (spaceLine o .code line).text)).any isCloser = true) :
    ∃ first ∈ (contentLines (keptRows o depth ls)).head?,
      ∃ c, (trim first).head? = some c ∧ isCloser c = true := by
  induction ls generalizing depth with
  | nil => cases h
  | cons line ls ih =>
    obtain ⟨kept, depth', pre, hpre, hcons, hkept⟩ := exists_keptRows_cons o depth line ls
    rw [List.map_cons] at h
    rw [hcons]
    by_cases hline : trim line = []
    · rw [leadChar_cons_of_blank ((trim_text_spaceLine_eq_nil_iff o).2 hline)] at h
      rw [contentLines_cons_of_blank (trim_eq_nil_of_kept hpre hline (hkept.imp_right And.left))]
      exact ih depth' h
    · rw [leadChar_cons_of_ne_nil (mt (trim_text_spaceLine_eq_nil_iff o).1 hline)] at h
      obtain ⟨c, hlead, hc⟩ := (Option.any_eq_true _ _).1 h
      have hhead : (trim kept).head? = some c := by
        rw [← trim_append_of_blank hpre] at hlead
        rcases hkept with rfl | ⟨hlost, -⟩
        · exact hlead
        · rw [hlost, head?_trim, List.find?_append] at hlead
          rw [head?_trim]
          cases hfind : kept.find? fun c => !isBlank c with
          | some d => rwa [hfind] at hlead
          | none =>
            rw [hfind] at hlead
            obtain rfl : ',' = c := Option.some.inj hlead
            cases hc
      have hne : trim kept ≠ [] := fun hnil => by
        rw [hnil] at hhead
        cases hhead
      rw [contentLines_cons_of_ne_nil hne]
      exact ⟨kept, rfl, c, hhead, hc⟩

/-- The first kept line has the keyword of the first line that is not blank. -/
theorem exists_head?_keptRows (o : FormatOptions) (depth : Int) {ls : List (List Char)}
    (h : first ∈ (contentLines ls).head?) :
    ∃ first' ∈ (contentLines (keptRows o depth ls)).head?,
      keyword first' = keyword (spaceLine o .code first).text := by
  induction ls generalizing depth with
  | nil => cases h
  | cons line ls ih =>
    obtain ⟨kept, depth', pre, hpre, hcons, hkept⟩ := exists_keptRows_cons o depth line ls
    rw [hcons]
    by_cases hline : trim line = []
    · rw [contentLines_cons_of_blank hline] at h
      rw [contentLines_cons_of_blank (trim_eq_nil_of_kept hpre hline (hkept.imp_right And.left))]
      exact ih depth' h
    rw [contentLines_cons_of_ne_nil hline] at h
    obtain rfl : line = first := Option.some.inj h
    have hkeyword : keyword kept = keyword (spaceLine o .code line).text := by
      rw [← keyword_append_of_blank hpre (spaceLine o .code line).text]
      rcases hkept with rfl | ⟨hlost, -⟩
      · rfl
      · rw [hlost, keyword_append_cons rfl (by decide)]
    by_cases hblank : trim kept = []
    · rcases hkept with rfl | ⟨-, hcloser⟩
      · rw [trim_append_of_blank hpre, trim_text_spaceLine_eq_nil_iff] at hblank
        exact absurd hblank hline
      · obtain ⟨first', hfirst', c, hc, hcloses⟩ :=
          exists_head?_keptRows_of_closer o depth' hcloser
        rw [contentLines_cons_of_blank hblank]
        refine ⟨first', hfirst', ?_⟩
        rw [keyword_of_closer hc hcloses, ← hkeyword, keyword_of_blank hblank]
    · rw [contentLines_cons_of_ne_nil hblank]
      exact ⟨kept, rfl, hkeyword⟩

/-! ## The laid out lines -/

variable {source : List Char}

theorem collapsedLines_of_code (o : FormatOptions)
    (h : ∀ line ∈ lines source, endsIn .code line = .code) :
    collapsedLines o source = collapseBlanks false false (keptRows o 0 (lines source)) := by
  rw [collapsedLines, spaceLines_of_code o h]
  rfl

/-- The laid out lines begin with the keyword of the first line that is not blank, and end with
the last line that is not blank, as it is set. -/
theorem exists_ends_collapsedLines (o : FormatOptions)
    (h : ∀ line ∈ lines source, endsIn .code line = .code)
    (hfirst : first ∈ (contentLines (lines source)).head?)
    (hlast : last ∈ (contentLines (lines source)).getLast?) :
    ∃ first' ∈ (collapsedLines o source).head?,
      keyword first' = keyword (spaceLine o .code first).text ∧
      ∃ init pre, (∀ c ∈ pre, isBlank c = true) ∧
        collapsedLines o source = init ++ [pre ++ (spaceLine o .code last).text] := by
  obtain ⟨first', hfirst', hkeyword⟩ := exists_head?_keptRows o 0 hfirst
  obtain ⟨pre, hpre, hget⟩ := getLast?_contentLines_keptRows o 0 hlast
  rw [collapsedLines_of_code o h, head?_collapseBlanks]
  rw [← getLast?_collapseBlanks false false] at hget
  obtain ⟨init, hinit⟩ := List.getLast?_eq_some_iff.1 hget
  exact ⟨first', hfirst', hkeyword, init, pre, hpre, hinit⟩

end

/-! ## The last piece of a broken line -/

section

variable {o : FormatOptions} {indent body left side close line : List Char}
  {ls members : List (List Char)}

theorem getLast?_memberLines (pre stop : List Char) {member : List Char}
    (h : members.getLast? = some member) :
    (memberLines pre members stop).getLast? = some (pre ++ ['|', ' '] ++ member ++ stop) := by
  rw [memberLines, h]
  exact List.getLast?_concat

theorem getLast?_filter_of_pos {α : Type} {p : α → Bool} {xs : List α} {x : α}
    (h : xs.getLast? = some x) (hx : p x = true) : (xs.filter p).getLast? = some x := by
  obtain ⟨init, rfl⟩ := List.getLast?_eq_some_iff.1 h
  rw [List.filter_append, List.filter_cons_of_pos hx]
  exact List.getLast?_concat

/-- The last line of a union ends with its last member and what stands behind that. -/
theorem exists_getLast?_of_breakUnion (h : breakUnion o indent body = some ls) :
    ∃ left side pre member, body = left ++ '=' :: side ∧
      (((unionParts side).map trim).filter (!·.isEmpty)).getLast? = some member ∧
      ls.getLast? = some (pre ++ member ++ (splitStop (trim side)).2) := by
  obtain ⟨left, side, -, hbody, hlength, rfl⟩ := exists_of_breakUnion_eq_some h
  have hne : ((unionParts side).map trim).filter (!·.isEmpty) ≠ [] :=
    List.ne_nil_of_length_pos (Nat.lt_of_lt_of_le Nat.two_pos hlength)
  obtain ⟨member, hmember⟩ := Option.isSome_iff_exists.1 (List.getLast?_isSome.2 hne)
  refine ⟨left, side, indent ++ o.unit ++ ['|', ' '], member, hbody, hmember, ?_⟩
  rw [List.getLast?_cons, getLast?_memberLines _ _ hmember, Option.getD_some]

/-- The last line around parentheses begins with the bracket that closes them. -/
theorem exists_getLast?_of_breakParens (h : breakParens o indent body = some ls) :
    ∃ left inside close, body = left ++ '(' :: (inside ++ close) ∧
      cutClose? {} ('(' :: (inside ++ close)) = some ('(' :: inside, close) ∧
      ls.getLast? = some (indent ++ close) := by
  obtain ⟨left, inside, close, -, hclose, hbody, rfl⟩ := exists_of_breakParens_eq_some h
  refine ⟨left, inside, close, hbody, hclose, ?_⟩
  rw [← List.cons_append]
  exact List.getLast?_concat

/-- The semicolon at the end of a line stays at the end. -/
theorem exists_getLast?_breakLine_semicolon (o : FormatOptions) (line : List Char) :
    ∃ piece ∈ (breakLine o (line ++ [';'])).getLast?, piece.getLast? = some ';' := by
  have hbody : trimStart (line ++ [';']) = trimStart line ++ [';'] :=
    trimStart_append_cons rfl line []
  rcases breakLine_cases o (line ++ [';']) with hsame | hunion | ⟨-, hparens⟩
  · rw [hsame]
    exact ⟨_, rfl, List.getLast?_concat⟩
  · obtain ⟨left, side, pre, member, hcut, -, hlast⟩ := exists_getLast?_of_breakUnion hunion
    refine ⟨_, hlast, ?_⟩
    rw [hbody] at hcut
    obtain ⟨r, rfl, -⟩ := exists_of_append_cons_eq_append hcut.symm (by decide)
    have hside : trim (r ++ [';']) = trimStart r ++ [';'] := by
      rw [trim, trimStart_append_cons rfl, trimEnd_concat rfl]
    have hstop : (splitStop (trim (r ++ [';']))).2 = [';'] := by
      rw [hside, splitStop, dropSuffix?_eq_some_iff.2 rfl]
    rw [hstop]
    exact List.getLast?_concat
  · obtain ⟨left, inside, close, hcut, hclose, hlast⟩ := exists_getLast?_of_breakParens hparens
    refine ⟨_, hlast, ?_⟩
    obtain ⟨c, t, rfl, -⟩ := cutClose?_closer hclose
    rw [hbody, ← List.cons_append, ← List.append_assoc] at hcut
    rw [List.getLast?_append_of_ne_nil _ (List.cons_ne_nil c t)]
    rw [← List.getLast?_append_of_ne_nil _ (List.cons_ne_nil c t), ← hcut, List.getLast?_concat]

end

end ReferencePages
