import ReferencePages.Proofs.Snippet.SetLine

/-!
# Parts of a set line

A text is scanned by itself, whatever is behind it, if a comma there would be one of code
(`scan_append_of_getLast?`). The lexemes of a part of a set line are settled by themselves if they
do not continue an operator or a comment before them (`Settled.of_append`). So a part of a set line
is a set line of its own (`Settled.setLine`).
-/

namespace ReferencePages

/-! ## Scanning parts -/

section

variable {m : Mode} {t r : List Char} {c : Char}

/-- Blanks of code are lexemes each. -/
theorem scan_append_of_blank {b : List Char} (hb : ∀ c ∈ b, isBlank c = true) (r : List Char) :
    scan .code (b ++ r) = b.map .code ++ scan .code r :=
  scan_append_of_isPlain (fun c hc => isPlain_of_isBlank (hb c hc)) .code r

theorem modeAfterAll_map_code (m : Mode) (s : List Char) :
    modeAfterAll m (s.map .code) = m := by
  induction s with
  | nil => rfl
  | cons c s ih => exact ih

/-- Blanks of code do not change the mode. -/
theorem modeAfterAll_append_blank (m : Mode) (b : List Char) (below : List Lexeme) :
    modeAfterAll m ((b.map Lexeme.code).reverse ++ below).reverse =
      modeAfterAll m below.reverse := by
  rw [List.reverse_append, List.reverse_reverse, modeAfterAll_append, modeAfterAll_map_code]

/-- A text is scanned by itself before a character that would be one of code, and before all that
separate or close. -/
theorem scan_append_of_getLast? {m : Mode} {t r : List Char} {c : Char}
    (h : (scan m (t ++ [c])).getLast? = some (.code c))
    (hr : r.head? = some c ∨ r.head?.all isQuiet = true) :
    scan m (t ++ r) = scan m t ++ scan .code r ∧ modeAfterAll m (scan m t) = .code := by
  obtain ⟨init, hscan⟩ := List.getLast?_eq_some_iff.1 h
  have hback := readBack_scan m (t ++ [c])
  rw [hscan, List.reverse_concat] at hback
  obtain ⟨hcode, hback⟩ := hback
  rw [List.reverse_reverse] at hcode
  have hback : ReadBack m (some c) init.reverse := hback
  have htext : (Row.ofStack init.reverse).text = t := by
    have hflat := scan_flatten m (t ++ [c])
    rw [hscan, List.flatMap_append, List.flatMap_singleton] at hflat
    rw [Row.text_ofStack_reverse]
    exact List.append_cancel_right hflat
  have hinit : scan m t = init := by
    have hnone : ReadBack m none init.reverse := hback.of_apart rfl
    have htail := hnone.scan_text
    rwa [htext, List.reverse_reverse] at htail
  rw [← hinit] at hback hcode
  have hnext : ReadBack m r.head? (scan m t).reverse := by
    rcases hr with hr | hr
    · rwa [hr]
    · exact hback.of_apart (apart_of_quiet hr)
  have hmode : modeAfterAll m (scan m t) = .code := hcode.mode_eq
  exact ⟨by rw [scan_append_of_readBack hnext, endsIn, hmode], hmode⟩

/-! ## Settled parts -/

variable {o : FormatOptions} {st below : List Lexeme} {next : Option Char}

/-- Settled lexemes are settled before those behind them. -/
theorem Settled.of_append_left {ks : List Lexeme} (h : Settled o m next (ks ++ st)) :
    Settled o m ((ks.getLast?.bind (·.text.head?)).or next) st := by
  induction ks generalizing next with
  | nil => exact h
  | cons k ks ih =>
    have hst := ih h.2.2
    cases hlast : ks.getLast? with
    | none =>
      obtain rfl := List.getLast?_eq_none_iff.1 hlast
      obtain ⟨c, s, htext⟩ := List.exists_cons_of_ne_nil h.1.text_ne_nil
      rw [htext] at hst
      rw [List.getLast?_singleton]
      simpa [htext] using hst
    | some l =>
      have hmem : l ∈ k :: ks := List.mem_cons_of_mem _ (List.mem_of_getLast? hlast)
      have hl : l.text ≠ [] := h.text_ne_nil l (List.mem_append_left st hmem)
      obtain ⟨c, s, htext⟩ := List.exists_cons_of_ne_nil hl
      rw [hlast] at hst
      rw [List.getLast?_cons, hlast]
      simpa [htext] using hst

/-- Settled lexemes are settled before the text behind them. -/
theorem Settled.of_scan {m' : Mode} (h : Settled o m none ((scan m' r).reverse ++ st)) :
    Settled o m r.head? st := by
  have hst := Settled.of_append_left h
  rwa [List.getLast?_reverse, head?_scan, Option.or_none] at hst

theorem Row.dropComma_eq_self_iff {row : Row} :
    row.dropComma = row ↔ (row.reversed.dropWhile isBlank).head? ≠ some ',' := by
  constructor
  · intro h hcomma
    obtain ⟨rest, hrest⟩ := List.head?_eq_some_iff.1 hcomma
    rw [dropComma, hrest] at h
    have hsame : rest.dropWhile isBlank = row.reversed := congrArg Row.reversed h
    have hlong : (row.reversed.dropWhile isBlank).length ≤ row.reversed.length :=
      (List.dropWhile_suffix isBlank).length_le
    have hshort : (rest.dropWhile isBlank).length ≤ rest.length :=
      (List.dropWhile_suffix isBlank).length_le
    rw [hrest, List.length_cons, ← hsame] at hlong
    omega
  · intro h
    rw [dropComma]
    split
    · next rest hrest =>
      rw [hrest] at h
      exact absurd rfl h
    · rfl

/-- A row that is not empty keeps what it keeps behind another text, unless an end of a comment
stands across. -/
theorem Row.Keeps.of_append {row part : Row} {s : List Char} {l : Lexeme}
    (h : row.Keeps o next l) (hrow : row.reversed = part.reversed ++ s) (hne : part.reversed ≠ [])
    (hcode : part.hasCode = true → row.hasCode = true)
    (hcomment : startsWith ['/', '*'] row.reversed = true →
      startsWith ['/', '*'] part.reversed = true) : part.Keeps o next l := by
  have hhead : row.reversed.head? = part.reversed.head? := by
    rw [hrow, List.head?_append_of_ne_nil _ hne]
  have hpadded : row.isPadded = part.isPadded := by rw [isPadded, hhead, isPadded]
  have hoperator : row.afterOperator = part.afterOperator := by
    rw [afterOperator, hhead, afterOperator]
  have hparts : row.partsBrace = part.partsBrace := by rw [partsBrace, hhead, partsBrace]
  refine ⟨h.tab, hpadded ▸ h.space, hparts ▸ h.brace, fun hl => ?_, ?_, h.separator,
    hpadded ▸ h.arrow, h.literal⟩
  · obtain ⟨hcomma, hhold⟩ := h.closer hl
    refine ⟨fun ht => ?_, fun hbrace hpart => ?_⟩
    · have hlast := dropComma_eq_self_iff.1 (hcomma ht)
      refine dropComma_eq_self_iff.2 fun hcomma => hlast ?_
      rw [hrow, List.dropWhile_append]
      split
      · next hempty =>
        rw [List.isEmpty_iff.1 hempty] at hcomma
        cases hcomma
      · next hempty => rw [List.head?_append_of_ne_nil _ (by simpa using hempty), hcomma]
    · have hhold := hhold hbrace (hcode hpart)
      rw [holdsBrace, hhead, Bool.or_eq_true] at hhold
      rw [holdsBrace, Bool.or_eq_true]
      exact hhold.imp_left hcomment
  · intro hequals
    rw [← hoperator, ← hpadded]
    exact h.equals hequals

/-- Behind the text no operator goes on, and no end of a comment does. -/
def Row.isFresh (r : Row) : Bool :=
  r.reversed.head?.all fun c => !(c == '=' || c == '!' || c == '<' || c == '*')

theorem Row.isFresh_iff {r : Row} : r.isFresh = true ↔
    r.afterOperator = false ∧ r.reversed.head? ≠ some '*' := by
  unfold isFresh afterOperator
  cases r.reversed.head? with
  | none => simp
  | some c => simp [and_assoc]

/-- The first lexeme of a part is set at the start of a line. -/
theorem Row.Keeps.of_first {row : Row} {l : Lexeme} (h : row.Keeps o next l) (hl : l ≠ .code ' ')
    (hfresh : l.closes = true ∨ row.isFresh = true) : ({} : Row).Keeps o next l where
  tab := h.tab
  space heq := absurd heq hl
  brace heq := ⟨rfl, (h.brace heq).2⟩
  closer _ := ⟨fun _ => rfl, fun _ hcode => nomatch hcode⟩
  equals heq := by
    subst heq
    have hfresh := (isFresh_iff.1 (hfresh.resolve_left (by decide))).1
    rcases h.equals rfl with hnext | hoperator | ⟨-, hquiet⟩
    · exact Or.inl hnext
    · exact nomatch hfresh.symm.trans hoperator
    · exact Or.inr (Or.inr ⟨rfl, hquiet⟩)
  separator := h.separator
  arrow heq := ⟨rfl, (h.arrow heq).2⟩
  literal := h.literal

/-- Lexemes that are settled behind others are settled by themselves. -/
theorem Settled.of_append (h : Settled o m next (st ++ below))
    (hmode : modeAfterAll m below.reverse = .code)
    (hstart : ∀ l ∈ st.getLast?, l ≠ .code ' ' ∧
      (l.closes = true ∨ (Row.ofStack below).isFresh = true)) : Settled o .code next st := by
  induction st generalizing next with
  | nil => trivial
  | cons l st ih =>
    rw [List.cons_append] at h
    obtain ⟨hreads, hkeeps, hrest⟩ := h
    have hreads : l.Reads (modeAfterAll .code st.reverse) next := by
      rwa [List.reverse_append, modeAfterAll_append, hmode] at hreads
    by_cases hnil : st = []
    · subst hnil
      obtain ⟨hspace, hfresh⟩ := hstart l rfl
      exact ⟨hreads, hkeeps.of_first hspace hfresh, trivial⟩
    · rw [List.getLast?_cons_of_ne_nil hnil] at hstart
      have hst := ih hrest hstart
      have hrow : (Row.ofStack (st ++ below)).reversed =
          (Row.ofStack st).reversed ++ (Row.ofStack below).reversed := by
        rw [Row.reversed_ofStack, List.flatMap_append, ← Row.reversed_ofStack,
          ← Row.reversed_ofStack]
      have hne : (Row.ofStack st).reversed ≠ [] := by
        obtain ⟨k, st, rfl⟩ := List.exists_cons_of_ne_nil hnil
        rw [Row.reversed_ofStack, List.flatMap_cons]
        exact List.append_ne_nil_of_left_ne_nil (by simpa using hst.1.text_ne_nil) _
      refine ⟨hreads, hkeeps.of_append hrow hne (fun hcode => ?_) (fun hcomment => ?_), hst⟩
      · rw [Row.hasCode_ofStack] at hcode ⊢
        rw [List.any_append, hcode, Bool.true_or]
      · rw [startsWith_iff] at hcomment ⊢
        obtain ⟨rest, hcomment⟩ := hcomment
        rw [hrow] at hcomment
        rcases hreversed : (Row.ofStack st).reversed with _ | ⟨c, _ | ⟨d, s⟩⟩
        · exact absurd hreversed hne
        · -- The slash would be the whole part, and the star before it stand across.
          rw [hreversed] at hcomment
          obtain ⟨rfl, hstar⟩ := List.cons.inj hcomment
          have htext : (Row.ofStack st).text = ['/'] := by rw [Row.text, hreversed]; rfl
          have hhead := hst.head?_text
          rw [htext, List.head?_cons, eq_comm, Option.bind_eq_some_iff] at hhead
          obtain ⟨k, hk, hslash⟩ := hhead
          rcases (hstart k hk).2 with hcloses | hfresh
          · cases k with
            | code c =>
              obtain rfl : c = '/' := Option.some.inj hslash
              cases hcloses
            | _ => cases hcloses
          · refine absurd ?_ (Row.isFresh_iff.1 hfresh).2
            exact congrArg List.head? hstar
        · rw [hreversed] at hcomment
          obtain ⟨rfl, hstar⟩ := List.cons.inj hcomment
          obtain rfl := (List.cons.inj hstar).1
          exact ⟨s, rfl⟩

/-- Settled lexemes are a set line if their text is trimmed and has no line feed. -/
theorem Settled.setLine (h : Settled o .code none st)
    (htrim : trim (lineOf .code st).text = (lineOf .code st).text)
    (hfeed : '\n' ∉ (lineOf .code st).text) : SetLine o .code st where
  settled := h
  trimmed _ := htrim
  feed := hfeed
  carriage heq := absurd ((trim_eq_self_iff_forall.1 htrim).2 _ heq) (by decide)

end

end ReferencePages
