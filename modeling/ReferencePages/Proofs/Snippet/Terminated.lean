import ReferencePages.Proofs.Snippet.Asides.Row
import ReferencePages.Proofs.Snippet.Ends

/-!
# Terminated statements

Whether a semicolon belongs behind a statement is told from its last line as a text: one that ends
with a semicolon, holds two slashes or ends with the end of a comment gets none. In a snippet
without comments the slashes stand in a literal (`exists_literal_of_slashes`), and the row of a line
has them where the line does (`slashes_of_placeAll`, `commentEnd_of_placeAll`). So a statement is
terminated unless its last line has them (`getLast?_formatSnippet_semicolon`), and a literal with an
address leaves it open (`formatSnippet_urlAlias`).
-/

namespace ReferencePages

/-! ## Slashes in code -/

section

variable {o : FormatOptions} {m : Mode} {st : List Lexeme} {l : Lexeme} {next : Option Char}
  {q : Char} {s t : List Char}

/-- What is read before a slash does not end with one. -/
theorem Lexeme.Reads.getLast?_ne_slash (hread : l.Reads .code (some '/')) (h : l.aside? = none) :
    l.text.getLast? ≠ some '/' := by
  rcases hread.cases_of_aside? h with ⟨c, rfl⟩ | rfl | ⟨s, rfl⟩
  · intro hlast
    exact (hread.2.2.2.1 (Option.some.inj hlast)).1 rfl
  · decide
  · obtain ⟨-, q, a, closed, rfl, hq, hrest, hclosed⟩ := hread
    cases closed with
    | false => cases hclosed rfl
    | true =>
      have hlast : (Lexeme.literal (q :: a)).text.getLast? = some q := by
        rw [Lexeme.text, List.getLast?_cons, hrest.getLast?, Option.getD_some]
      rw [hlast]
      rcases hq with rfl | rfl <;> decide

/-- Lexemes without asides hold two slashes in a row in a literal only. -/
theorem exists_literal_of_slashes (hread : ReadBack .code next st)
    (hst : st.filterMap Lexeme.aside? = []) (h : ['/', '/'] <:+: (Row.ofStack st).text) :
    ∃ s, .literal s ∈ st ∧ ['/', '/'] <:+: s := by
  induction st generalizing next with
  | nil => simp [Row.ofStack, Row.text] at h
  | cons l st ih =>
    have hmode {st : List Lexeme} (hst : st.filterMap Lexeme.aside? = []) :
        modeAfterAll .code st.reverse = .code :=
      modeAfterAll_of_asides (by rw [List.filterMap_reverse, hst, List.reverse_nil])
    obtain ⟨hl, hback⟩ := hread
    rw [List.filterMap_eq_nil_iff, List.forall_mem_cons, ← List.filterMap_eq_nil_iff] at hst
    obtain ⟨hlnone, hst⟩ := hst
    rw [hmode hst] at hl
    rw [Row.text_ofStack_cons] at h
    rcases pair_infix_append h with h | ⟨hlast, hhead⟩ | h
    · obtain ⟨s, hs, hslashes⟩ := ih hback hst h
      exact ⟨s, List.mem_cons_of_mem l hs, hslashes⟩
    · cases st with
      | nil => cases hlast
      | cons l' st =>
        rw [List.filterMap_eq_nil_iff, List.forall_mem_cons, ← List.filterMap_eq_nil_iff] at hst
        rw [hhead] at hback
        have hl' := hback.1
        rw [Row.text_ofStack_cons, List.getLast?_append_of_ne_nil _ hl'.text_ne_nil] at hlast
        rw [hmode hst.2] at hl'
        exact absurd hlast (hl'.getLast?_ne_slash hst.1)
    · rcases hl.cases_of_aside? hlnone with ⟨c, rfl⟩ | rfl | ⟨s, rfl⟩
      · exact absurd h.length_le (by simp [Lexeme.text])
      · exact absurd h (by decide)
      · exact ⟨s, List.mem_cons_self, h⟩

/-! ## Slashes on a row -/

theorem head?_unescapeQuote (hq : IsQuote q) (h : (unescapeQuote q s).head? = some '/') :
    s.head? = some '/' := by
  cases s with
  | nil => rwa [unescapeQuote_nil] at h
  | cons c s =>
    by_cases hescape : ['\\', q] <+: c :: s
    · obtain ⟨r, hr⟩ := hescape
      rw [← hr, List.cons_append, List.singleton_append, unescapeQuote_escaped] at h
      obtain rfl : q = '/' := Option.some.inj h
      rcases hq with hq | hq <;> cases hq
    · rwa [unescapeQuote_cons hescape] at h

theorem slashes_of_unescapeQuote (hq : IsQuote q) : ∀ {s : List Char},
    ['/', '/'] <:+: unescapeQuote q s → ['/', '/'] <:+: s
  | [], h => by rwa [unescapeQuote_nil] at h
  | [c], h => by rwa [unescapeQuote_cons (by simp), unescapeQuote_nil] at h
  | c :: d :: s, h => by
    by_cases hescape : ['\\', q] <+: c :: d :: s
    · obtain ⟨rfl, hquote⟩ := List.cons_prefix_cons.1 hescape
      obtain rfl := (List.cons_prefix_cons.1 hquote).1
      rw [unescapeQuote_escaped, pair_infix_cons_iff] at h
      refine pair_infix_cons_iff.2 (Or.inr (pair_infix_cons_iff.2 ?_))
      exact h.imp (And.imp_right (head?_unescapeQuote hq)) (slashes_of_unescapeQuote hq)
    · rw [unescapeQuote_cons hescape, pair_infix_cons_iff] at h
      refine pair_infix_cons_iff.2 ?_
      exact h.imp (And.imp_right (head?_unescapeQuote hq)) (slashes_of_unescapeQuote hq)

theorem slashes_of_requote (h : ['/', '/'] <:+: requote o s) : ['/', '/'] <:+: s := by
  have hquote : o.quote ≠ '/' := (ne_quote o (by decide)).symm
  rcases requote_eq o s with hs | hs
  · rwa [hs] at h
  · rw [hs, pair_infix_cons_iff] at h
    rcases h with ⟨hc, -⟩ | h
    · exact absurd hc hquote
    · rcases pair_infix_append h with h | ⟨-, hhead⟩ | h
      · refine (slashes_of_unescapeQuote (isQuote_otherQuote o) h).trans ?_
        exact (List.dropLast_prefix _).isInfix.trans (List.tail_suffix s).isInfix
      · exact absurd (Option.some.inj hhead) hquote
      · exact absurd h.length_le (by simp)

theorem infix_of_mem_scan (h : l ∈ scan m t) : l.text <:+: t := by
  obtain ⟨a, b, hab⟩ := List.append_of_mem h
  rw [← scan_flatten m t, hab, List.flatMap_append, List.flatMap_cons, ← List.append_assoc]
  exact ⟨_, _, rfl⟩

/-- The row of a line without asides has two slashes in a row only if the line has. -/
theorem slashes_of_placeAll (ht : asides .code t = [])
    (h : ['/', '/'] <:+: (({} : Row).placeAll o (scan .code t)).text) : ['/', '/'] <:+: t := by
  obtain ⟨st, hrow, hread, hcarries⟩ := carriesTo_placeAll o .code t
  have hst : st.filterMap Lexeme.aside? = [] := by
    rw [hcarries.asides, List.filterMap_reverse]
    exact congrArg List.reverse ht
  rw [Row.text, hrow] at h
  obtain ⟨s, hs, hslashes⟩ := exists_literal_of_slashes hread hst h
  rcases hcarries.mem _ hs with hspace | ⟨l, hl, heq⟩
  · cases hspace
  · cases l <;> cases heq
    exact (slashes_of_requote hslashes).trans (infix_of_mem_scan (List.mem_reverse.1 hl))

/-! ## The end of a comment on a row -/

theorem Lexeme.getLast?_of_shown {c : Char} (hc : c ≠ o.quote)
    (h : (l.shown o).getLast? = some c) : l.text.getLast? = some c := by
  have hrequoted (h : (l.requoted o).text.getLast? = some c) : l.text.getLast? = some c := by
    rcases l.getLast?_text_requoted (o := o) with hlast | hlast
    · exact hlast.symm.trans h
    · exact absurd (Option.some.inj (h.symm.trans hlast)) hc
  cases l with
  | code d =>
    unfold Lexeme.shown at h
    dsimp only at h
    split at h
    · cases h
    · exact h
  | _ => exact hrequoted h

/-- What is not blank stands at the end of a row only if the last lexeme ends with it. -/
theorem Row.getLast?_of_place {r : Row} {c : Char} (hl : l.text ≠ []) (hc : c ≠ o.quote)
    (hsolid : isBlank c = false) (h : (r.place o l next).text.getLast? = some c) :
    l.text.getLast? = some c := by
  by_cases hspace : l = .code ' ' ∨ l = .code '\t'
  · have hpad : (r.place o l next).text = r.pad.text := by rcases hspace with rfl | rfl <;> rfl
    have hlast : r.pad.text.getLast? = none ∨ r.pad.text.getLast? = some ' ' := by
      rw [pad_eq]
      split
      · next hpadded =>
        rw [text, List.getLast?_reverse]
        cases hr : r.reversed with
        | nil => exact Or.inl rfl
        | cons d s => exact Or.inr (by simpa [isPadded, hr] using hpadded)
      · exact Or.inr (by rw [text_push, List.getLast?_concat])
    rw [hpad] at h
    rcases hlast with hlast | hlast <;> cases h.symm.trans hlast
    cases hsolid
  · obtain ⟨gap, gap', -, hgap', -, htext⟩ := exists_text_place o r l next
    have hrequoted : (l.requoted o).text ≠ [] := fun hnil => by
      rcases l.head?_text_requoted (o := o) with hhead | hhead <;> rw [hnil] at hhead
      · exact hl (List.head?_eq_none_iff.1 hhead.symm)
      · cases hhead
    have hne : l.shown o ≠ [] := by
      cases l with
      | code d =>
        unfold Lexeme.shown
        dsimp only
        rw [if_neg fun hd => hspace (hd.imp (congrArg _) (congrArg _))]
        exact List.cons_ne_nil _ _
      | _ => exact hrequoted
    rcases hgap' with rfl | rfl
    · rw [htext, List.append_nil, List.getLast?_append_of_ne_nil _ hne] at h
      exact l.getLast?_of_shown hc h
    · rw [htext, List.getLast?_concat] at h
      obtain rfl := Option.some.inj h
      cases hsolid

/-- A literal behind which a row ends with the end of a comment ends with it itself. -/
theorem commentEnd_of_literal {r : Row} (hq : IsQuote q)
    (h : ['*', '/'] <:+ (r.place o (.literal (q :: s)) none).text) : ['*', '/'] <:+ q :: s := by
  have htext : (r.place o (.literal (q :: s)) none).text = r.text ++ requote o (q :: s) :=
    Row.text_append r _
  have hlast : (r.place o (.literal (q :: s)) none).text.getLast? = some '/' :=
    suffix_singleton_iff.1 ((List.suffix_cons '*' ['/']).trans h)
  have hsame : requote o (q :: s) = q :: s := by
    refine (requote_eq o (q :: s)).resolve_right fun hs => ?_
    rw [htext, hs, ← List.cons_append, ← List.append_assoc, List.getLast?_concat] at hlast
    exact ne_quote o (by decide) (Option.some.inj hlast).symm
  rw [htext, hsame] at h hlast
  have hlong : s ≠ [] := by
    rintro rfl
    rw [List.getLast?_concat] at hlast
    obtain rfl : q = '/' := Option.some.inj hlast
    rcases hq with hq | hq <;> cases hq
  refine List.suffix_of_suffix_length_le h (List.suffix_append _ _) ?_
  have hpos := List.length_pos_iff.2 hlong
  simp only [List.length_cons, List.length_nil]
  omega

/-- A slash behind which a row ends with the end of a comment is set behind a star. -/
theorem commentEnd_of_slash {init : List Lexeme}
    (hback : ReadBack .code (some '/') init.reverse)
    (h : ['*', '/'] <:+ (({} : Row).placeAll o (init ++ [.code '/'])).text) :
    ['*'] <:+ init.flatMap Lexeme.text := by
  rcases List.eq_nil_or_concat' init with rfl | ⟨init, l, rfl⟩
  · have htext : (({} : Row).placeAll o ([] ++ [.code '/'])).text = ['/'] := rfl
    rw [htext] at h
    exact absurd h.length_le (by decide)
  obtain ⟨r, hplace⟩ := Row.exists_placeAll_append o {} init [l, .code '/']
  have htext : (r.placeAll o [l, .code '/']).text = (r.place o l (some '/')).text ++ ['/'] :=
    Row.text_push _ '/'
  rw [List.append_assoc, List.singleton_append, hplace, htext] at h
  obtain ⟨x, hx⟩ := h
  have hstar : (r.place o l (some '/')).text.getLast? = some '*' := by
    rw [List.append_cons] at hx
    rw [← List.append_cancel_right hx, List.getLast?_concat]
  rw [List.reverse_append, List.reverse_singleton, List.singleton_append] at hback
  have hl := Row.getLast?_of_place hback.1.text_ne_nil (ne_quote o (by decide)) rfl hstar
  rw [List.flatMap_append, List.flatMap_singleton]
  exact (suffix_singleton_iff.2 hl).trans (List.suffix_append _ _)

/-- The row of a line of code ends with the end of a comment only if the line does. -/
theorem commentEnd_of_placeAll (ht : asides .code t = [])
    (h : ['*', '/'] <:+ (({} : Row).placeAll o (scan .code t)).text) : ['*', '/'] <:+ t := by
  have hflat := scan_flatten .code t
  have hback := readBack_scan .code t
  unfold asides at ht
  generalize scan .code t = ls at h ht hflat hback
  rcases List.eq_nil_or_concat' ls with rfl | ⟨init, l, rfl⟩
  · simp [Row.placeAll, Row.text] at h
  rw [List.filterMap_eq_nil_iff, List.forall_mem_append, List.forall_mem_singleton,
    ← List.filterMap_eq_nil_iff] at ht
  rw [List.reverse_append, List.reverse_singleton, List.singleton_append] at hback
  obtain ⟨hread, hback⟩ := hback
  rw [List.reverse_reverse, modeAfterAll_of_asides ht.1] at hread
  rw [List.flatMap_append, List.flatMap_singleton] at hflat
  obtain ⟨r, hplace⟩ := Row.exists_placeAll_append o {} init [l]
  have hrow : ['*', '/'] <:+ (r.place o l none).text := by rwa [hplace] at h
  have hlast : (r.place o l none).text.getLast? = some '/' :=
    suffix_singleton_iff.1 ((List.suffix_cons '*' ['/']).trans hrow)
  have hslash := Row.getLast?_of_place hread.text_ne_nil (ne_quote o (by decide)) rfl hlast
  rcases hread.cases_of_aside? ht.2 with ⟨c, rfl⟩ | rfl | ⟨s, rfl⟩
  · obtain rfl : c = '/' := Option.some.inj hslash
    obtain ⟨x, hx⟩ := commentEnd_of_slash hback h
    rw [← hflat, ← hx]
    exact ⟨x, List.append_cons x '*' ['/']⟩
  · cases hslash
  · obtain ⟨-, q, a, -, rfl, hq, -, -⟩ := hread
    rw [← hflat]
    exact (commentEnd_of_literal hq hrow).trans (List.suffix_append _ _)

end

/-! ## Statements -/

section

variable {o : FormatOptions} {source : String} {first last line pre word : List Char}

/-- A semicolon belongs behind a line of code as it is set, unless the line says otherwise. -/
theorem needsSemicolon_spaceLine (o : FormatOptions) (hasides : asides .code line = [])
    (hpre : ∀ c ∈ pre, isBlank c = true) (hne : trim line ≠ []) (hsemicolon : ¬[';'] <:+ trim line)
    (hslashes : ¬['/', '/'] <:+: line) (hcomment : ¬['*', '/'] <:+ trim line)
    (hblock : ['\x7d'] <:+ trim line → blockKeywords.contains (String.ofList word) = false) :
    needsSemicolon word (pre ++ (spaceLine o .code line).text) = true := by
  have hmode : endsIn .code line = .code := modeAfterAll_of_asides hasides
  have htrim : asides .code (trim line) = [] := by
    rw [← (alike_trim (m := .code) nofun (by rw [hmode]; exact nofun)).asides_eq, hasides]
  obtain ⟨d, hd, hsolid⟩ := exists_getLast?_trim hne
  have hends {c : Char} (hc : ¬IsQuote c) (h : [c] <:+ (spaceLine o .code line).text) :
      [c] <:+ trim line := by
    rwa [suffix_singleton_iff, getLast?_text_spaceLine_iff o hc, ← suffix_singleton_iff] at h
  have hend : trimEnd (pre ++ (spaceLine o .code line).text) =
      pre ++ (spaceLine o .code line).text := by
    refine trimEnd_eq_self_iff.2 fun c hc => ?_
    have hlast := getLast?_text_spaceLine o hd
    rw [List.getLast?_append_of_ne_nil _ fun hnil => by simp [hnil] at hlast] at hc
    rcases hlast with hlast | ⟨-, hlast⟩
    · exact Option.some.inj (hlast.symm.trans hc) ▸ hsolid
    · exact Option.some.inj (hlast.symm.trans hc) ▸ isBlank_quote o
  rw [← Bool.not_eq_false]
  intro hnone
  rw [needsSemicolon_eq_false_iff, hend] at hnone
  rcases hnone with h | h | h | ⟨h, hword⟩
  · exact hsemicolon (hends (by decide) (suffix_of_append_blank hpre (by simp [isBlank]) h))
  · have hrow := infix_append_of_blank hpre (by simp [isBlank]) h
    rw [text_spaceLine o hne] at hrow
    obtain ⟨b, b', -, -, hline⟩ := exists_eq_append_trim line
    exact hslashes ((slashes_of_placeAll htrim hrow).trans ⟨b, b', hline.symm⟩)
  · have hrow := suffix_of_append_blank hpre (by simp [isBlank]) h
    rw [text_spaceLine o hne] at hrow
    exact hcomment (commentEnd_of_placeAll htrim hrow)
  · have hbrace := hends (by decide) (suffix_of_append_blank hpre (by simp [isBlank]) h)
    exact Bool.false_ne_true ((hblock hbrace).symm.trans hword)

/-- The last line of such a statement ends with a semicolon before it is broken. -/
theorem exists_layoutLines_semicolon (o : FormatOptions) {source : List Char}
    (hasides : lineAsides .code (lines source) = [])
    (hfirst : first ∈ (contentLines (lines source)).head?)
    (hlast : last ∈ (contentLines (lines source)).getLast?)
    (hblock : ¬(['\x7d'] <:+ trim last ∧
      ∃ word ∈ blockKeywords, Declares word.toList (trim first)))
    (hends : [';'] <:+ trim last ∨ ¬['/', '/'] <:+: last ∧ ¬['*', '/'] <:+ trim last) :
    ∃ init line, layoutLines o source = init ++ [line ++ [';']] := by
  have hlines := asides_of_lineAsides hasides
  obtain ⟨first', hfirst', hkeyword, init, pre, hpre, hcollapsed⟩ :=
    exists_ends_collapsedLines o (fun line hline => (hlines line hline).2) hfirst hlast
  obtain ⟨hfirstMem, hfirstNe⟩ := mem_contentLines.1 (List.mem_of_mem_head? hfirst)
  obtain ⟨hlastMem, hlastNe⟩ := mem_contentLines.1 (List.mem_of_mem_getLast? hlast)
  change ∃ init line, terminate (collapsedLines o source) = init ++ [line ++ [';']]
  rw [hcollapsed] at hfirst' ⊢
  rw [terminate_concat hfirst']
  by_cases hsemicolon : [';'] <:+ trim last
  · have hrow : (spaceLine o .code last).text.getLast? = some ';' :=
      (getLast?_text_spaceLine_iff o (by decide)).2 (suffix_singleton_iff.1 hsemicolon)
    obtain ⟨x, hx⟩ := List.getLast?_eq_some_iff.1 hrow
    have hline : pre ++ (spaceLine o .code last).text = pre ++ x ++ [';'] := by
      rw [hx, List.append_assoc]
    rw [hline, if_neg (Bool.eq_false_iff.1 (needsSemicolon_concat _ _))]
    exact ⟨init, pre ++ x, rfl⟩
  · obtain ⟨hslashes, hcomment⟩ := hends.resolve_left hsemicolon
    have hword (hbrace : ['\x7d'] <:+ trim last) :
        blockKeywords.contains (String.ofList (keyword first')) = false := by
      refine Bool.eq_false_iff.2 fun hcontains => hblock ⟨hbrace, ?_⟩
      have hmem := List.contains_iff_mem.1 hcontains
      refine ⟨_, hmem, (keyword_spaceLine_iff o (isKeyword_of_mem_blockKeywords _ hmem) hfirstNe
        (not_mem_of_mem_lines _ first hfirstMem)).1 ?_⟩
      rw [← hkeyword, String.toList_ofList]
    rw [if_pos (needsSemicolon_spaceLine o (hlines last hlastMem).1 hpre hlastNe hsemicolon
      hslashes hcomment hword)]
    exact ⟨init, _, rfl⟩

/-- A statement without comments and templates ends with a semicolon, unless it is a declaration
with a body, if its last line does or if nothing in that line looks like a comment. -/
theorem getLast?_formatSnippet_semicolon (hasides : snippetAsides source = [])
    (hfirst : first ∈ (contentLines (lines source.toList)).head?)
    (hlast : last ∈ (contentLines (lines source.toList)).getLast?)
    (hblock : ¬(['\x7d'] <:+ trim last ∧
      ∃ word ∈ blockKeywords, Declares word.toList (trim first)))
    (hends : [';'] <:+ trim last ∨ ¬['/', '/'] <:+: last ∧ ¬['*', '/'] <:+ trim last) :
    (formatSnippet o source).toList.getLast? = some ';' := by
  obtain ⟨init, line, hlayout⟩ :=
    exists_layoutLines_semicolon o hasides hfirst hlast hblock hends
  obtain ⟨piece, hpiece, hend⟩ := exists_getLast?_breakLine_semicolon o line
  obtain ⟨pieces, hpieces⟩ := List.getLast?_eq_some_iff.1 hpiece
  have hformat : formatLines o source.toList =
      init.flatMap (breakLine o) ++ pieces ++ [piece] := by
    rw [formatLines, hlayout, List.flatMap_append, List.flatMap_singleton, hpieces,
      List.append_assoc]
  obtain ⟨before, hjoin⟩ := exists_joinLines_concat (init.flatMap (breakLine o) ++ pieces) piece
  rw [formatSnippet, String.toList_ofList, hformat, hjoin, List.getLast?_append_of_ne_nil _, hend]
  rintro rfl
  cases hend

/-- A type alias that ends with a brace, and holds an address on a line before. -/
theorem getLast?_formatSnippet_semicolon_linkAlias :
    let source := "type Link =\n\t| 'http://a'\n\t| \x7bto: 'b;'\x7d\n"
    let first := "type Link =".toList
    let last := "\t| \x7bto: 'b;'\x7d".toList
    (snippetAsides source = [] ∧ first ∈ (contentLines (lines source.toList)).head? ∧
      last ∈ (contentLines (lines source.toList)).getLast? ∧
      ¬(['\x7d'] <:+ trim last ∧ ∃ word ∈ blockKeywords, Declares word.toList (trim first)) ∧
      (¬['/', '/'] <:+: last ∧ ¬['*', '/'] <:+ trim last)) ∧
      (formatSnippet {} source).toList.getLast? = some ';' := by
  intro source first last
  have hasides : snippetAsides source = [] := by decide +kernel
  have hfirst : first ∈ (contentLines (lines source.toList)).head? := by decide +kernel
  have hlast : last ∈ (contentLines (lines source.toList)).getLast? := by decide +kernel
  have hkeyword : keyword (spaceLine {} .code first).text = "type".toList := by decide +kernel
  have hblock :
      ¬(['\x7d'] <:+ trim last ∧ ∃ word ∈ blockKeywords, Declares word.toList (trim first)) := by
    rintro ⟨-, word, hword, hdeclares⟩
    have hsame := (keyword_spaceLine_iff {} (isKeyword_of_mem_blockKeywords word hword)
      (by decide +kernel) (by decide +kernel)).2 hdeclares
    obtain rfl : "type" = word := String.toList_inj.1 (hkeyword.symm.trans hsame)
    exact absurd hword (by decide)
  have hends : ¬['/', '/'] <:+: last ∧ ¬['*', '/'] <:+ trim last := by decide +kernel
  exact ⟨⟨hasides, hfirst, hlast, hblock, hends⟩,
    getLast?_formatSnippet_semicolon hasides hfirst hlast hblock (Or.inr hends)⟩

/-- A literal that holds an address leaves the statement open. -/
theorem formatSnippet_urlAlias :
    let source := "type Url = 'http://a'"
    snippetAsides source = [] ∧ contentLines (lines source.toList) = [source.toList] ∧
      ¬['\x7d'] <:+ trim source.toList ∧ formatSnippet {} source = source ∧
      (formatSnippet {} source).toList.getLast? ≠ some ';' := by
  decide +kernel

end

end ReferencePages
