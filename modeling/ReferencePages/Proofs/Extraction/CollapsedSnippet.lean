import ReferencePages.Extraction.Declaration
import ReferencePages.Proofs.Snippet.Conservation
import ReferencePages.Proofs.Snippet.Ends
import ReferencePages.Proofs.Snippet.Nesting

/-!
# Snippets with a collapsed body

The mark of a collapsed body is a comment in braces, and formatting treats it as one: nothing is
set inside (`Row.exists_text_placeAll_collapsedBraces`), no semicolon belongs behind a body in
braces (`exists_layoutLines_collapsedBraces`), and neither way of breaking a line cuts it
(`exists_getLast?_breakLine_collapsedBraces`). So the snippet of a header with a collapsed body
ends with that body and shows it once (`declarationSnippet_collapsedBraces`).
-/

namespace ReferencePages

/-- A collapsed body in its braces. -/
def collapsedBraces : List Char := '\x7b' :: (collapsedBody ++ ['\x7d'])

theorem append_collapsedBraces (s : List Char) :
    s ++ collapsedBraces = s ++ '\x7b' :: collapsedBody ++ ['\x7d'] :=
  (List.append_assoc s ('\x7b' :: collapsedBody) ['\x7d']).symm

/-- A character that begins neither a literal nor a template nor a comment. -/
def isBare (c : Char) : Bool := !(c == '\'' || c == '"' || c == '`' || c == '/')

section

variable {c : Char} {s t u : List Char}

theorem isBare_iff : isBare c = true ↔ ¬(c = '\'' ∨ c = '"' ∨ c = '`') ∧ c ≠ '/' := by
  simp [isBare, and_assoc]

theorem isBare_of_isBlank (hc : isBlank c = true) : isBare c = true := by
  rw [isBare_iff]
  refine ⟨?_, ?_⟩
  · rintro (rfl | rfl | rfl) <;> cases hc
  · rintro rfl
    cases hc

/-! ## Texts without literals and comments -/

/-- A lexeme of such a text. -/
def Lexeme.IsBare (l : Lexeme) : Prop := l = .arrow ∨ ∃ c, l = .code c ∧ isBare c = true

theorem nextLexeme_of_isBare (hc : isBare c = true) (h : ¬(c = '=' ∧ s.head? = some '>')) :
    nextLexeme .code c s = (.code c, s) := by
  unfold nextLexeme
  split <;> simp_all [isBare]

theorem scan_append_of_isBare (ht : t.head? ≠ some '>') : ∀ {u : List Char},
    (∀ c ∈ u, isBare c = true) →
      scan .code (u ++ t) = scan .code u ++ scan .code t ∧ ∀ l ∈ scan .code u, l.IsBare
  | [], _ => ⟨by rw [scan.eq_def .code []]; rfl, by rw [scan]; exact List.forall_mem_nil _⟩
  | c :: u, hcu => by
    obtain ⟨hc, hu⟩ := List.forall_mem_cons.1 hcu
    by_cases harrow : c = '=' ∧ u.head? = some '>'
    · obtain ⟨rfl, hhead⟩ := harrow
      obtain ⟨u', rfl⟩ := List.head?_eq_some_iff.1 hhead
      have hscan (s : List Char) : scan .code ('=' :: '>' :: s) = .arrow :: scan .code s := by
        rw [scan]
        rfl
      obtain ⟨ih, hbare⟩ := scan_append_of_isBare ht (u := u') (List.forall_mem_cons.1 hu).2
      rw [List.cons_append, List.cons_append, hscan, hscan, ih]
      exact ⟨rfl, List.forall_mem_cons.2 ⟨Or.inl rfl, hbare⟩⟩
    · have hscan {s : List Char} (hs : ¬(c = '=' ∧ s.head? = some '>')) :
          scan .code (c :: s) = .code c :: scan .code s := by
        rw [scan, nextLexeme_of_isBare hc hs]
        rfl
      have happend : ¬(c = '=' ∧ (u ++ t).head? = some '>') := by
        cases u with
        | nil => exact fun h => ht h.2
        | cons d u => exact harrow
      obtain ⟨ih, hbare⟩ := scan_append_of_isBare ht hu
      rw [List.cons_append, hscan happend, hscan harrow, ih]
      exact ⟨rfl, List.forall_mem_cons.2 ⟨Or.inr ⟨c, rfl, hc⟩, hbare⟩⟩
termination_by u => u.length

theorem modeAfterAll_of_isBare {ls : List Lexeme} (h : ∀ l ∈ ls, l.IsBare) :
    modeAfterAll .code ls = .code := by
  induction ls with
  | nil => rfl
  | cons l ls ih =>
    obtain ⟨hl, hls⟩ := List.forall_mem_cons.1 h
    rcases hl with rfl | ⟨c, rfl, -⟩ <;> exact ih hls

theorem endsIn_of_isBare (hu : ∀ c ∈ u, isBare c = true) : endsIn .code u = .code :=
  modeAfterAll_of_isBare (scan_append_of_isBare (t := []) nofun hu).2

theorem scan_collapsedBraces : scan .code collapsedBraces =
    [.code '\x7b', .openComment, .commentChar '…', .closeComment, .code '\x7d'] := by
  decide +kernel

/-! ## Rows -/

namespace Row

variable {o : FormatOptions} {r : Row} {l : Lexeme} {next : Option Char}

theorem isBare_base (hr : ∀ c ∈ r.text, isBare c = true) :
    ∀ c ∈ (r.base o l).text, isBare c = true := by
  unfold base
  split
  · rcases r.dropComma_cases with ⟨htext, -⟩ | ⟨b, b', -, -, htext, -⟩
    · rwa [htext]
    · rw [htext, List.append_assoc] at hr
      exact fun c hc => hr c (List.mem_append_left _ hc)
  · exact hr

theorem isBare_place (hl : l.IsBare) (hr : ∀ c ∈ r.text, isBare c = true) :
    ∀ c ∈ (r.place o l next).text, isBare c = true := by
  obtain ⟨gap, gap', hgap, hgap', -, htext⟩ := exists_text_place o r l next
  have hshown : ∀ c ∈ l.shown o, isBare c = true := by
    rcases hl with rfl | ⟨c, rfl, hc⟩
    · exact List.forall_mem_cons.2 ⟨rfl, List.forall_mem_singleton.2 rfl⟩
    · unfold Lexeme.shown
      dsimp only
      split
      · exact nofun
      · exact List.forall_mem_singleton.2 hc
  rw [htext]
  simp only [List.forall_mem_append]
  exact ⟨⟨⟨isBare_base hr, fun c hc => isBare_of_isBlank (hgap.isBlank c hc)⟩, hshown⟩,
    fun c hc => isBare_of_isBlank (hgap'.isBlank c hc)⟩

theorem exists_placeAll_of_isBare (o : FormatOptions) {ls : List Lexeme} (ks : List Lexeme)
    (hls : ∀ l ∈ ls, l.IsBare) (hr : ∀ c ∈ r.text, isBare c = true) :
    ∃ r' : Row, (∀ c ∈ r'.text, isBare c = true) ∧ r.placeAll o (ls ++ ks) = r'.placeAll o ks := by
  induction ls generalizing r with
  | nil => exact ⟨r, hr, rfl⟩
  | cons l ls ih =>
    obtain ⟨hl, hls⟩ := List.forall_mem_cons.1 hls
    exact ih hls (isBare_place hl hr)

/-- A collapsed body is set as it is, behind a space at most. -/
theorem exists_text_placeAll_collapsedBraces (o : FormatOptions) (r : Row) :
    ∃ gap, IsPadding gap ∧ (r.placeAll o (scan .code collapsedBraces)).text =
      r.text ++ gap ++ collapsedBraces := by
  have hbody (r : Row) :
      (r.placeAll o [.openComment, .commentChar '…', .closeComment, .code '\x7d']).text =
        r.text ++ (collapsedBody ++ ['\x7d']) := by
    have hreversed :
        (r.placeAll o [.openComment, .commentChar '…', .closeComment, .code '\x7d']).reversed =
          (collapsedBody ++ ['\x7d']).reverse ++ r.reversed := by
      obtain ⟨width, tabs, single, trailing⟩ := o
      cases trailing <;> rfl
    rw [text, hreversed, List.reverse_append, List.reverse_reverse]
    rfl
  obtain ⟨gap, hgap, hopen⟩ : ∃ gap, IsPadding gap ∧
      (r.place o (.code '\x7b') (some '/')).text = r.text ++ gap ++ ['\x7b'] := by
    change ∃ gap, IsPadding gap ∧ (r.openBrace (some '/')).text = _
    rw [openBrace_eq]
    dsimp only
    rw [if_pos (show (some '/').all isBraceEnd = true from rfl), text_push]
    split
    · exact ⟨[' '], Or.inr rfl, by rw [text_push]⟩
    · exact ⟨[], Or.inl rfl, by rw [List.append_nil]⟩
  refine ⟨gap, hgap, ?_⟩
  rw [scan_collapsedBraces, placeAll]
  refine (hbody (r.place o (.code '\x7b') (some '/'))).trans ?_
  rw [hopen, List.append_assoc _ ['\x7b']]
  rfl

end Row

end

/-! ## Lines -/

section

variable {o : FormatOptions} {word : String} {header before s p : List Char}

/-- What is put behind a text without a line feed stands at the end of its last line. -/
theorem exists_lines_append (hp : '\n' ∉ p) (hne : p ≠ []) (s : List Char) :
    ∃ init tail, lines (s ++ p) = init ++ [tail ++ p] ∧ tail ⊆ s ∧ ∀ line ∈ init, line ⊆ s := by
  induction s using lineInduction with
  | last s hs =>
    refine ⟨[], s, ?_, List.Subset.refl s, nofun⟩
    rw [lines_of_not_mem (List.not_mem_append hs hp), if_neg (by simp [hne])]
    rfl
  | line x s hx ih =>
    obtain ⟨init, tail, hlines, htail, hinit⟩ := ih
    have hs : s ⊆ x ++ '\n' :: s := fun c hc =>
      List.mem_append_right x (List.mem_cons_of_mem _ hc)
    refine ⟨dropCarriageReturn x :: init, tail, ?_, List.Subset.trans htail hs,
      List.forall_mem_cons.2 ⟨?_, fun line hline => List.Subset.trans (hinit line hline) hs⟩⟩
    · rw [List.append_assoc, List.cons_append, lines_append_cons hx, hlines]
      rfl
    · exact fun c hc => List.mem_append_left _ (dropCarriageReturn_subset x hc)

theorem trim_dropCarriageReturn (s : List Char) : trim (dropCarriageReturn s) = trim s := by
  unfold dropCarriageReturn
  split
  · next h =>
    conv => rhs; rw [← List.dropLast_append_getLast? '\r' h, trim_concat rfl]
  · rfl

/-- The first line declares what the header does. -/
theorem exists_head?_lines_of_declares (hword : IsKeyword word.toList)
    (h : Declares word.toList header) :
    ∃ first ∈ (lines (header ++ collapsedBraces)).head?, Declares word.toList (trim first) := by
  by_cases hfeed : '\n' ∈ header
  · obtain ⟨x, rest, rfl, hx⟩ := List.eq_append_cons_of_mem hfeed
    rw [List.append_assoc, List.cons_append, lines_append_cons hx]
    refine ⟨_, rfl, ?_⟩
    rw [trim_dropCarriageReturn]
    exact (h.of_line hword).trim hword
  · have hall : '\n' ∉ header ++ collapsedBraces := List.not_mem_append hfeed (by decide)
    have hne : header ++ collapsedBraces ≠ [] := List.append_ne_nil_of_right_ne_nil _ nofun
    rw [lines_of_not_mem hall, if_neg hne]
    exact ⟨_, rfl, (h.append_cons (by decide) _).trim hword⟩

theorem trim_append_collapsedBraces (s : List Char) :
    trim (s ++ collapsedBraces) = trimStart s ++ collapsedBraces := by
  rw [trim, collapsedBraces, trimStart_append_cons rfl, ← collapsedBraces, append_collapsedBraces]
  exact trimEnd_concat rfl _

theorem exists_text_spaceLine_collapsedBraces (o : FormatOptions)
    (h : ∀ c ∈ s, isBare c = true) : ∃ before, (∀ c ∈ before, isBare c = true) ∧
      (spaceLine o .code (s ++ collapsedBraces)).text = before ++ collapsedBraces := by
  have hstart : ∀ c ∈ trimStart s, isBare c = true := fun c hc =>
    h c ((isSuffix_trimStart s).subset hc)
  have htrim := trim_append_collapsedBraces s
  obtain ⟨hscan, hls⟩ := scan_append_of_isBare (t := collapsedBraces) (by decide) hstart
  obtain ⟨r, hr, hplace⟩ := Row.exists_placeAll_of_isBare o (r := {}) (scan .code collapsedBraces)
    hls nofun
  obtain ⟨gap, hgap, htext⟩ := r.exists_text_placeAll_collapsedBraces o
  refine ⟨r.text ++ gap, List.forall_mem_append.2 ⟨hr, fun c hc =>
    isBare_of_isBlank (hgap.isBlank c hc)⟩, ?_⟩
  rw [text_spaceLine o (by rw [htrim]; exact List.append_ne_nil_of_right_ne_nil _ nofun), htrim,
    hscan, hplace, htext]

/-- Lines that begin with the word of a block and end with braces need no semicolon. -/
theorem ended_of_collapsedBraces {first line : List Char} {ls : List (List Char)}
    (hword : word ∈ blockKeywords) (hfirst : first ∈ (ls ++ [line ++ collapsedBraces]).head?)
    (hkeyword : keyword first = word.toList) : Ended (ls ++ [line ++ collapsedBraces]) := by
  intro first' hfirst' last hlast
  obtain rfl := Option.some.inj (Eq.trans (Eq.symm hfirst) hfirst')
  rw [List.getLast?_concat] at hlast
  obtain rfl := Option.some.inj hlast
  refine needsSemicolon_eq_false_iff.2 (Or.inr (Or.inr (Or.inr ⟨?_, ?_⟩)))
  · rw [append_collapsedBraces, trimEnd_concat rfl]
    exact List.suffix_append _ _
  · rw [hkeyword, String.ofList_toList]
    exact List.contains_iff_mem.2 hword

/-- No semicolon belongs behind a collapsed body. -/
theorem exists_layoutLines_collapsedBraces (o : FormatOptions) (hword : word ∈ blockKeywords)
    (h : Declares word.toList header) (hbare : ∀ c ∈ header, isBare c = true) :
    ∃ init before, layoutLines o (header ++ collapsedBraces) = init ++ [before ++ collapsedBraces] ∧
      ∀ c ∈ before, isBare c = true := by
  have hkeyword := isKeyword_of_mem_blockKeywords word hword
  obtain ⟨first, hfirst, hdeclares⟩ := exists_head?_lines_of_declares hkeyword h
  obtain ⟨linit, tail, hlines, htail, hinit⟩ :=
    exists_lines_append (p := collapsedBraces) (by decide) (by decide) header
  have htailBare : ∀ c ∈ tail, isBare c = true := fun c hc => hbare c (htail hc)
  have hcode : ∀ line ∈ lines (header ++ collapsedBraces), endsIn .code line = .code := by
    rw [hlines, List.forall_mem_append]
    refine ⟨fun line hline => endsIn_of_isBare fun c hc => hbare c (hinit line hline hc),
      List.forall_mem_singleton.2 ?_⟩
    obtain ⟨hscan, hls⟩ := scan_append_of_isBare (t := collapsedBraces) (by decide) htailBare
    rw [endsIn, hscan, modeAfterAll_append, modeAfterAll_of_isBare hls, scan_collapsedBraces]
    rfl
  have hfirst' : first ∈ (contentLines (lines (header ++ collapsedBraces))).head? := by
    obtain ⟨rest, hrest⟩ := List.head?_eq_some_iff.1 hfirst
    obtain ⟨c, s, hs, -⟩ := hdeclares.exists_head? hkeyword
    rw [hrest, contentLines_cons_of_ne_nil (hs ▸ List.cons_ne_nil c s)]
    rfl
  have hlast : tail ++ collapsedBraces ∈
      (contentLines (lines (header ++ collapsedBraces))).getLast? := by
    refine getLast?_filter_of_pos (by rw [hlines, List.getLast?_concat]) ?_
    rw [trim_append_collapsedBraces]
    simp [collapsedBraces]
  obtain ⟨first', hhead, hsame, init, pre, hpre, hcollapsed⟩ :=
    exists_ends_collapsedLines o hcode hfirst' hlast
  obtain ⟨before, hbefore, htext⟩ := exists_text_spaceLine_collapsedBraces o htailBare
  rw [htext, ← List.append_assoc] at hcollapsed
  refine ⟨init, pre ++ before, ?_, List.forall_mem_append.2
    ⟨fun c hc => isBare_of_isBlank (hpre c hc), hbefore⟩⟩
  have hended : Ended (collapsedLines o (header ++ collapsedBraces)) := by
    have hne : trim first ≠ [] := (mem_contentLines.1 (List.mem_of_mem_head? hfirst')).2
    have hfeed : '\n' ∉ first := not_mem_of_mem_lines _ first (List.mem_of_mem_head? hfirst)
    rw [hcollapsed] at hhead ⊢
    exact ended_of_collapsedBraces hword hhead
      (hsame.trans ((keyword_spaceLine_iff o hkeyword hne hfeed).2 hdeclares))
  rw [← hcollapsed]
  exact hended.terminate_eq

end

/-! ## Broken lines -/

section

variable {o : FormatOptions} {n : Nesting} {before s p inner close : List Char} {c : Char}

/-- An end without marks stands at the end of the last part between bars. -/
theorem exists_getLast?_splitTop (h : ∀ c ∈ p, Nesting.isMark c = false) (n : Nesting)
    (s : List Char) : ∃ z, (splitTop '|' n (s ++ p)).getLast? = some (z ++ p) := by
  induction s generalizing n with
  | nil =>
    have hnone : '|' ∉ n.marks p := by
      rw [Nesting.marks_eq_nil h]
      exact List.not_mem_nil
    exact ⟨[], by rw [List.nil_append, Nesting.splitTop_of_not_mem hnone]; rfl⟩
  | cons c s ih =>
    rw [List.cons_append, splitTop]
    split
    · obtain ⟨z, hz⟩ := ih { n with previous := c }
      exact ⟨z, by rw [List.getLast?_cons, hz]; rfl⟩
    · obtain ⟨z, hz⟩ := ih (n.step true c)
      obtain ⟨part, parts, hparts⟩ :=
        List.exists_cons_of_ne_nil (splitTop_ne_nil '|' (n.step true c) (s ++ p))
      rw [hparts] at hz ⊢
      rw [List.modifyHead_cons]
      cases parts with
      | nil => exact ⟨c :: z, congrArg (some <| c :: ·) (Option.some.inj hz)⟩
      | cons part' parts => exact ⟨z, hz⟩

/-- Outside literals, a character that opens none leads inside no brackets less at most. -/
theorem step_of_isBare (hquote : n.quote = none) (hc : isBare c = true) :
    (n.step false c).quote = none ∧ n.depth - 1 ≤ (n.step false c).depth := by
  rw [isBare_iff] at hc
  unfold Nesting.step
  rw [hquote]
  dsimp only
  rw [if_neg hc.1]
  split
  · exact ⟨rfl, by dsimp only; omega⟩
  · split
    · exact ⟨rfl, Nat.le_refl _⟩
    · exact ⟨rfl, Nat.sub_le _ _⟩

/-- A collapsed body is not cut by the bracket that closes an earlier one. -/
theorem exists_of_cutClose?_append (hquote : n.quote = none) (hdepth : 0 < n.depth)
    (hs : ∀ c ∈ s, isBare c = true)
    (h : cutClose? n (s ++ collapsedBraces) = some (inner, close)) :
    ∃ t, close = t ++ collapsedBraces := by
  induction s generalizing n inner with
  | nil =>
    obtain ⟨depth, quote, previous⟩ := n
    obtain ⟨depth, rfl⟩ := Nat.exists_eq_succ_of_ne_zero (Nat.ne_of_gt hdepth)
    obtain rfl : quote = none := hquote
    simp [collapsedBraces, collapsedBody, cutClose?, Nesting.step] at h
  | cons c s ih =>
    obtain ⟨hc, hs⟩ := List.forall_mem_cons.1 hs
    obtain ⟨hquote', hdepth'⟩ := step_of_isBare hquote hc
    unfold cutClose? at h
    dsimp only [List.cons_append] at h
    split at h
    · cases h
      exact ⟨c :: s, rfl⟩
    · next hcut =>
      obtain ⟨⟨inner', close'⟩, hrest, hpair⟩ := Option.map_eq_some_iff.1 h
      cases hpair
      refine ih hquote' ?_ hs hrest
      by_contra hzero
      exact hcut ⟨hquote, by omega, by omega⟩

/-- However a line is broken, a collapsed body stays at its end. -/
theorem exists_getLast?_breakLine_collapsedBraces (o : FormatOptions)
    (h : ∀ c ∈ before, isBare c = true) :
    ∃ z, (breakLine o (before ++ collapsedBraces)).getLast? = some (z ++ collapsedBraces) := by
  have hbody : trimStart (before ++ collapsedBraces) = trimStart before ++ collapsedBraces :=
    trimStart_append_cons rfl before _
  rcases breakLine_cases o (before ++ collapsedBraces) with hsame | hunion | ⟨-, hparens⟩
  · exact ⟨before, by rw [hsame]; rfl⟩
  · obtain ⟨left, side, pre, member, hcut, hmember, hlast⟩ := exists_getLast?_of_breakUnion hunion
    rw [hbody] at hcut
    obtain ⟨r, rfl, -⟩ := exists_of_append_cons_eq_append hcut.symm (by decide)
    have hstop : splitStop (trim (r ++ collapsedBraces)) =
        (trimStart r ++ collapsedBraces, []) := by
      have hnone : dropSuffix? [';'] (trimStart r ++ collapsedBraces) = none := by
        refine Option.eq_none_iff_forall_ne_some.2 fun rest hrest => ?_
        have hlast := congrArg List.getLast? (dropSuffix?_eq_some_iff.1 hrest)
        rw [append_collapsedBraces, List.getLast?_concat, List.getLast?_concat] at hlast
        cases hlast
      rw [trim_append_collapsedBraces, splitStop, hnone]
    obtain ⟨z, hz⟩ := exists_getLast?_splitTop (p := collapsedBraces)
      (by simp [collapsedBraces, collapsedBody, Nesting.isMark]) {} (trimStart r)
    have hparts : (((unionParts (r ++ collapsedBraces)).map trim).filter (!·.isEmpty)).getLast? =
        some (trimStart z ++ collapsedBraces) := by
      refine getLast?_filter_of_pos ?_ (by simp [collapsedBraces])
      rw [List.getLast?_map, unionParts, hstop, hz, Option.map_some, trim_append_collapsedBraces]
    rw [hparts] at hmember
    obtain rfl := Option.some.inj hmember
    exact ⟨pre ++ trimStart z, by rw [hlast, hstop]; simp only [List.append_assoc, List.append_nil]⟩
  · obtain ⟨left, inside, close, hcut, hclose, hlast⟩ := exists_getLast?_of_breakParens hparens
    rw [hbody] at hcut
    obtain ⟨r, hr, hbefore⟩ := exists_of_append_cons_eq_append hcut.symm (by decide)
    have hbare : ∀ c ∈ r, isBare c = true := fun c hc => by
      refine h c ((isSuffix_trimStart before).subset ?_)
      rw [hbefore]
      exact List.mem_append_right left (List.mem_cons_of_mem _ hc)
    unfold cutClose? at hclose
    obtain ⟨⟨inside', close'⟩, hrest, hpair⟩ := Option.map_eq_some_iff.1 hclose
    cases hpair
    rw [hr] at hrest
    obtain ⟨t, rfl⟩ := exists_of_cutClose?_append (n := Nesting.step false {} '(') rfl
      (by decide) hbare hrest
    exact ⟨_ ++ t, by rw [hlast, List.append_assoc]⟩

end

/-! ## The snippet -/

section

variable {word : String} {header before a b : List Char} {c : Char}

/-- Formatting keeps the number of a character that is not settled between authors. -/
theorem count_formatSnippet (o : FormatOptions) (source : String) (hc : isFiller c = false)
    (hsemicolon : c ≠ ';') :
    (formatSnippet o source).toList.count c = source.toList.count c := by
  have hcount (s : List Char) : (significant s).count c = s.count c :=
    List.count_filter (by simp [hc])
  have hbroken : significant (formatSnippet o source).toList =
      (layoutLines o source.toList).flatMap significant := by
    rw [formatSnippet, String.toList_ofList, significant_joinLines, formatLines,
      List.flatMap_assoc, funext flatMap_significant_breakLine]
  rw [← hcount, hbroken, ← hcount source.toList]
  rcases flatMap_significant_layoutLines (o := o) source.toList with hsame | hended
  · rw [hsame]
  · rw [hended, List.count_append, List.count_singleton, beq_eq_false_iff_ne.2 hsemicolon.symm]
    rfl

/-- A formatted header with a collapsed body ends with that body. -/
theorem exists_formatSnippet_collapsedBraces (o : FormatOptions) (hword : word ∈ blockKeywords)
    (h : Declares word.toList header) (hbare : ∀ c ∈ header, isBare c = true) :
    ∃ before, (formatSnippet o (String.ofList (header ++ collapsedBraces))).toList =
      before ++ collapsedBraces ∧ '/' ∉ before := by
  have hslash : '/' ∉ header := fun hmem => absurd (hbare _ hmem) (by decide)
  obtain ⟨init, last, hlayout, hlast⟩ := exists_layoutLines_collapsedBraces o hword h hbare
  obtain ⟨z, hz⟩ := exists_getLast?_breakLine_collapsedBraces o hlast
  obtain ⟨pieces, hpieces⟩ := List.getLast?_eq_some_iff.1 hz
  have hlines : formatLines o (header ++ collapsedBraces) =
      init.flatMap (breakLine o) ++ pieces ++ [z ++ collapsedBraces] := by
    rw [formatLines, hlayout, List.flatMap_append, List.flatMap_singleton, hpieces,
      List.append_assoc]
  obtain ⟨before, hbefore⟩ : ∃ before, (formatSnippet o
      (String.ofList (header ++ collapsedBraces))).toList = before ++ collapsedBraces := by
    rw [formatSnippet, String.toList_ofList, String.toList_ofList, hlines]
    obtain ⟨pre, hpre⟩ := exists_joinLines_concat (init.flatMap (breakLine o) ++ pieces)
      (z ++ collapsedBraces)
    exact ⟨pre ++ z, by rw [hpre, List.append_assoc]⟩
  refine ⟨before, hbefore, List.count_eq_zero.1 ?_⟩
  have hcount := count_formatSnippet o (String.ofList (header ++ collapsedBraces)) (c := '/') rfl
    (by decide)
  rw [hbefore, String.toList_ofList, List.count_append, List.count_append,
    List.count_eq_zero.2 hslash] at hcount
  exact Nat.add_right_cancel hcount

/-- No blank stands beside a body in braces. -/
theorem tightenBody_append_collapsedBraces (h : '/' ∉ before) :
    tightenBody (before ++ collapsedBraces) = before ++ collapsedBraces := by
  have hnone : ∀ u v, before ++ ['\x7b'] = u ++ v → v ≠ [] →
      paddedBody (v ++ (collapsedBody ++ ['\x7d'])) = none := by
    intro u v huv hv
    obtain ⟨v, rfl, rfl⟩ := exists_of_concat_eq_append huv hv
    rw [paddedBody, List.append_assoc]
    have hstart : trimStart (v ++ (['\x7b'] ++ (collapsedBody ++ ['\x7d']))) =
        trimStart v ++ collapsedBraces := trimStart_append_cons rfl v _
    have hprefix : dropPrefix? collapsedBody (trimStart v ++ collapsedBraces) = none := by
      refine Option.eq_none_iff_forall_ne_some.2 fun rest hrest => ?_
      have hhead := congrArg List.head? (dropPrefix?_eq_some_iff.1 hrest)
      cases hv : trimStart v with
      | nil =>
        rw [hv] at hhead
        cases hhead
      | cons d v' =>
        rw [hv] at hhead
        obtain rfl : d = '/' := Option.some.inj hhead
        have hmem : '/' ∈ v := (isSuffix_trimStart v).subset (hv ▸ List.mem_cons_self)
        exact h (List.mem_append_right u hmem)
    rw [hstart, hprefix]
    rfl
  have hmatch : paddedBody (collapsedBody ++ ['\x7d']) = some ((), 4) := by decide +kernel
  have hrest : replaceMatches paddedBody (fun _ => collapsedBody) ['\x7d'] = ['\x7d'] := by
    rw [replaceMatches_cons_of_none (by decide +kernel), replaceMatches_nil]
  have hsplit : before ++ collapsedBraces =
      before ++ ['\x7b'] ++ (collapsedBody ++ ['\x7d']) := by
    rw [List.append_assoc]
    rfl
  rw [tightenBody, hsplit, replaceMatches_append_of_none hnone,
    replaceMatches_append_of_some hmatch rfl, hrest]

/-- The mark of a collapsed body stands where its slashes do. -/
theorem eq_of_append_collapsedBody (h : '/' ∉ before)
    (heq : before ++ collapsedBraces = a ++ collapsedBody ++ b) :
    a = before ++ ['\x7b'] ∧ b = ['\x7d'] := by
  have hcount := congrArg (List.count '/') heq
  have hbraces : collapsedBraces.count '/' = 2 := by decide
  have hbody : collapsedBody.count '/' = 2 := by decide
  rw [List.count_append, List.count_append, List.count_append, List.count_eq_zero.2 h, hbraces,
    hbody] at hcount
  have ha : '/' ∉ a := List.count_eq_zero.1 (by omega)
  have hbrace : '/' ∉ before ++ ['\x7b'] := List.not_mem_append h (by decide)
  have hsplit : before ++ ['\x7b'] ++ '/' :: (['*', '…', '*', '/'] ++ ['\x7d']) =
      a ++ '/' :: (['*', '…', '*', '/'] ++ b) := by
    rw [List.append_assoc] at heq ⊢
    exact heq
  obtain ⟨hbefore, hb⟩ := append_cons_inj hbrace ha hsplit
  exact ⟨hbefore.symm, (List.append_cancel_left hb).symm⟩

/-- The snippet of a declaration that ends with a collapsed body ends with that body, behind which
no semicolon is put, and holds its mark once. -/
theorem declarationSnippet_collapsedBraces (o : FormatOptions) (hword : word ∈ blockKeywords)
    (h : Declares word.toList header)
    (hheader : ∀ c ∈ header, c ≠ '\'' ∧ c ≠ '"' ∧ c ≠ '`' ∧ c ≠ '/') :
    ∃ before, (declarationSnippet o (header ++ collapsedBraces)).toList =
        before ++ collapsedBraces ∧
      ∀ a b, (declarationSnippet o (header ++ collapsedBraces)).toList = a ++ collapsedBody ++ b →
        a = before ++ ['\x7b'] ∧ b = ['\x7d'] := by
  have hbare : ∀ c ∈ header, isBare c = true := fun c hc => by
    obtain ⟨h₁, h₂, h₃, h₄⟩ := hheader c hc
    exact isBare_iff.2 ⟨not_or.2 ⟨h₁, not_or.2 ⟨h₂, h₃⟩⟩, h₄⟩
  obtain ⟨d, s, rfl, hd⟩ := h.exists_head? (isKeyword_of_mem_blockKeywords word hword)
  have htrim : trim (d :: s ++ collapsedBraces) = d :: s ++ collapsedBraces := by
    have hstart : trimStart (d :: s) = d :: s :=
      List.dropWhile_cons_of_neg (by simp [not_isBlank_of_isAlphanumeric hd])
    rw [trim_append_collapsedBraces, hstart]
  obtain ⟨before, hbefore, hslash⟩ := exists_formatSnippet_collapsedBraces o hword h hbare
  have hsnippet : (declarationSnippet o (d :: s ++ collapsedBraces)).toList =
      trimStart before ++ collapsedBraces := by
    rw [declarationSnippet, String.toList_ofList, htrim, hbefore,
      tightenBody_append_collapsedBraces hslash, trim_append_collapsedBraces]
  have hslash' : '/' ∉ trimStart before := fun hmem =>
    hslash ((isSuffix_trimStart before).subset hmem)
  refine ⟨trimStart before, hsnippet, fun a b heq => ?_⟩
  exact eq_of_append_collapsedBody hslash' (hsnippet.symm.trans heq)

/-- A class whose last line is broken around its parentheses. -/
theorem declarationSnippet_collapsedBraces_class :
    let header := ("declare class Cache<Key>\n  extends " ++
      "Mixed(first_mixin, second_mixin, third_mixin, fourth_mixin) ").toList
    "class" ∈ blockKeywords ∧ Declares "class".toList header ∧
      (∀ c ∈ header, c ≠ '\'' ∧ c ≠ '"' ∧ c ≠ '`' ∧ c ≠ '/') ∧
      ∃ before, (declarationSnippet {} (header ++ collapsedBraces)).toList =
          before ++ collapsedBraces ∧
        ∀ a b, (declarationSnippet {} (header ++ collapsedBraces)).toList =
            a ++ collapsedBody ++ b → a = before ++ ['\x7b'] ∧ b = ['\x7d'] := by
  intro header
  have hword : "class" ∈ blockKeywords := by decide
  have hgap : IsGap [' '] := ⟨' ', [], rfl, Or.inl rfl, nofun⟩
  have hdeclares : Declares "class".toList header :=
    .modifier (m := "declare") (by decide) hgap (.keyword fun c hc => by
      obtain rfl := Option.some.inj hc
      rfl)
  have hheader : header.all (fun c => c != '\'' && c != '"' && c != '`' && c != '/') = true := by
    decide +kernel
  simp only [List.all_eq_true, Bool.and_eq_true, bne_iff_ne, and_assoc] at hheader
  exact ⟨hword, hdeclares, hheader,
    declarationSnippet_collapsedBraces {} hword hdeclares hheader⟩

end

end ReferencePages
