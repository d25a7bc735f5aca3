import Mathlib.Data.List.Infix
import ReferencePages.Proofs.Snippet.Asides.Row
import ReferencePages.Proofs.Snippet.Nesting

/-!
# The marks of a row

A row keeps the marks of the line that it sets (`marks_placeAll`): a space, a blank or a comma is
no mark, and where it stands changes neither the brackets nor the literals around it
(`NestsAlike.space`, `NestsAlike.skip`); a lexeme that is set as it stands keeps its own
(`NestsAlike.push`), and a literal has none, whatever its quotes are (`NestsAlike.literal`).

Nesting and the lexemes need not have the same literals: nesting takes a quote in a comment for the
start of one, and a quote behind two backslashes for an escaped one. So this is about lines that are
outside of literals to nesting wherever their lexemes are code (`ReadsLiterals`).
-/

namespace ReferencePages

open Nesting

variable {o : FormatOptions} {m : Mode} {src st : List Lexeme} {l : Lexeme} {n n' : Nesting}
  {a s t : List Char} {c q : Char} {closed : Bool} {next next' : Option Char}

/-! ## Literals -/

theorem Nesting.marks_cons_of_quote (hquote : n.quote = some q) (c : Char) (s : List Char) :
    n.marks (c :: s) = (n.step true c).marks s :=
  if_neg fun h => by
    have hnone := (isTop_iff.1 h.1).2
    rw [hquote] at hnone
    cases hnone

theorem Nesting.previous_run (n : Nesting) (s : List Char) :
    (n.run s).previous = s.getLast?.getD n.previous := by
  induction s using List.reverseRecOn with
  | nil => rfl
  | append_singleton s c ih =>
    rw [run_concat, previous_step, List.getLast?_concat, Option.getD_some]

/-- A literal is one to the end: its quotes are escaped but for the last one. -/
theorem LiteralRest.exists_run (h : LiteralRest q closed a) (hq : IsQuote q) :
    ∃ s, a = s ++ (if closed then [q] else []) ∧ ∀ n : Nesting, n.quote = some q →
      (n.run s).quote = some q ∧ (n.run s).depth = n.depth ∧ n.marks a = [] := by
  induction h with
  | unclosed => exact ⟨[], rfl, fun n hn => ⟨hn, rfl, rfl⟩⟩
  | unclosedEscape =>
    refine ⟨['\\'], rfl, fun n hn => ?_⟩
    rw [run_cons, step_of_quote hn fun h => absurd h.symm hq.ne_backslash,
      marks_cons_of_quote hn]
    exact ⟨hn, rfl, rfl⟩
  | close => exact ⟨[], rfl, fun n hn => ⟨hn, rfl, marks_cons_of_quote hn q []⟩⟩
  | @escape closed s c h ih =>
    obtain ⟨s, rfl, hs⟩ := ih
    refine ⟨'\\' :: c :: s, rfl, fun n hn => ?_⟩
    have hback : n.step true '\\' = { n with previous := '\\' } :=
      step_of_quote hn fun h => absurd h.symm hq.ne_backslash
    have hescaped :
        ({ n with previous := '\\' } : Nesting).step true c = { n with previous := c } :=
      step_of_quote hn fun _ => rfl
    have hmarks (t : List Char) :
        n.marks ('\\' :: c :: t) = ({ n with previous := c } : Nesting).marks t := by
      rw [marks_cons_of_quote hn, hback, ← hescaped]
      exact marks_cons_of_quote (n := { n with previous := '\\' }) hn c t
    rw [run_cons, run_cons, hback, hescaped, hmarks]
    exact hs { n with previous := c } hn
  | @char closed s c hc hquote h ih =>
    obtain ⟨s, rfl, hs⟩ := ih
    refine ⟨c :: s, rfl, fun n hn => ?_⟩
    rw [run_cons, marks_cons_of_quote hn, step_of_quote hn fun h => absurd h hquote]
    exact hs _ hn

theorem getLast?_unescapeQuote (q : Char) : ∀ s : List Char,
    (unescapeQuote q s).getLast? = s.getLast?
  | [] => by rw [unescapeQuote_nil]
  | [c] => by rw [unescapeQuote_cons (by simp), unescapeQuote_nil]
  | c :: d :: s => by
    by_cases hescape : ['\\', q] <+: c :: d :: s
    · obtain ⟨rfl, hquote⟩ := List.cons_prefix_cons.1 hescape
      obtain rfl := (List.cons_prefix_cons.1 hquote).1
      rw [unescapeQuote_escaped, List.getLast?_cons, getLast?_unescapeQuote q s,
        List.getLast?_cons_cons, List.getLast?_cons]
    · rw [unescapeQuote_cons hescape, List.getLast?_cons, getLast?_unescapeQuote q (d :: s),
        List.getLast?_cons_cons, List.getLast?_cons, Option.getD_some]

/-- A literal has no marks, and is over at its end unless there is a backslash before the quote
there. -/
theorem LiteralRest.run (h : LiteralRest q closed a) (hq : IsQuote q) (hn : n.quote = none) :
    n.marks (q :: a) = [] ∧ (n.run (q :: a)).depth = n.depth ∧
      ((n.run (q :: a)).quote = none ↔ closed = true ∧ a.dropLast.getLast? ≠ some '\\') := by
  obtain ⟨s, rfl, hs⟩ := h.exists_run hq
  have hopen : n.step true q = { n with quote := some q, previous := q } :=
    step_quote hn (hq.elim (fun h => Or.inr (Or.inl h)) Or.inl)
  have hmark : ¬(n.isTop = true ∧ isMark q = true) := fun h => by
    rcases hq with rfl | rfl <;> cases h.2
  obtain ⟨hquote, hdepth, hmarks⟩ := hs { n with quote := some q, previous := q } rfl
  rw [marks, if_neg hmark, run_cons, hopen]
  refine ⟨hmarks, ?_⟩
  cases closed with
  | false =>
    rw [if_neg Bool.false_ne_true, List.append_nil, hquote]
    exact ⟨hdepth, by simp⟩
  | true =>
    have hlast : s.getLast?.getD q = '\\' ↔ s.getLast? = some '\\' := by
      cases s.getLast? with
      | none => simpa using hq.ne_backslash
      | some c => simp
    rw [if_pos rfl, run_concat, depth_step_of_quote hquote, quote_step_of_quote hquote,
      previous_run, List.dropLast_concat, ne_eq, hlast]
    exact ⟨hdepth, by simp⟩

/-! ## Behind lexemes -/

namespace Nesting

/-- Behind some lexemes, the last one first. -/
def behind (st : List Lexeme) : Nesting := ({} : Nesting).run (Row.ofStack st).text

/-- The marks of some lexemes, the last one first. -/
def marksOf (st : List Lexeme) : List Char := ({} : Nesting).marks (Row.ofStack st).text

theorem behind_cons (l : Lexeme) (st : List Lexeme) :
    behind (l :: st) = (behind st).run l.text := by
  rw [behind, Row.text_ofStack_cons, run_append]
  rfl

theorem marksOf_cons (l : Lexeme) (st : List Lexeme) :
    marksOf (l :: st) = marksOf st ++ (behind st).marks l.text := by
  rw [marksOf, Row.text_ofStack_cons, marks_append]
  rfl

end Nesting

/-- Wherever the lexemes of a text are code, the brackets are counted outside of literals. -/
def ReadsLiterals (ls : List Lexeme) : Prop :=
  ∀ init, init <+: ls → modeAfterAll .code init = .code →
    (({} : Nesting).run (init.flatMap Lexeme.text)).quote = none

instance (ls : List Lexeme) : Decidable (ReadsLiterals ls) :=
  decidable_of_iff (∀ init ∈ ls.inits, modeAfterAll .code init = .code →
    (({} : Nesting).run (init.flatMap Lexeme.text)).quote = none)
    (forall_congr' fun init => imp_congr_left (List.mem_inits init ls))

theorem ReadsLiterals.of_cons (h : ReadsLiterals (l :: st).reverse) : ReadsLiterals st.reverse := by
  rw [List.reverse_cons] at h
  exact fun init hinit => h init (hinit.trans (List.prefix_append _ _))

theorem ReadsLiterals.quote (h : ReadsLiterals st.reverse)
    (hmode : modeAfterAll .code st.reverse = .code) : (behind st).quote = none := by
  rw [behind, Row.text_ofStack]
  exact h _ (List.prefix_refl _) hmode

/-- Only literals are set with other quotes. -/
theorem Lexeme.requoted_cases (o : FormatOptions) (l : Lexeme) :
    (∃ s, l = .literal s) ∨ l.requoted o = l := by
  cases l with
  | literal s => exact Or.inl ⟨s, rfl⟩
  | _ => exact Or.inr rfl

/-- What stands before a `>` of code ends with no equals sign, or it would be an arrow. -/
theorem Lexeme.Reads.getLast?_ne (h : l.Reads m (some '>')) (hmode : l.modeAfter m = .code) :
    l.text.getLast? ≠ some '=' := by
  cases l with
  | code c =>
    obtain ⟨-, -, -, -, hequals⟩ := h
    exact fun hlast => hequals (Option.some.inj hlast) rfl
  | literal s =>
    obtain ⟨-, q, a, closed, rfl, hq, hrest, hend⟩ := h
    cases closed with
    | false => cases hend rfl
    | true =>
      rw [text, List.getLast?_cons, hrest.getLast?, Option.getD_some]
      rcases hq with rfl | rfl <;> decide
  | lineComment s => cases h.2.1
  | commentChar c => cases (show m = .comment from h.1).symm.trans hmode
  | templateChar c => cases (show m = .template from h.1).symm.trans hmode
  | templateEscape c => cases (show m = .template from h).symm.trans hmode
  | _ => decide

theorem ReadBack.previous_ne (h : ReadBack .code (some '>') st)
    (hmode : modeAfterAll .code st.reverse = .code) : (behind st).previous ≠ '=' := by
  cases st with
  | nil => exact (by decide : '\x00' ≠ '=')
  | cons l st =>
    rw [modeAfterAll_reverse_cons] at hmode
    have hlast := h.1.getLast?_ne hmode
    obtain ⟨c, hc⟩ := Option.isSome_iff_exists.1 (List.getLast?_isSome.2 h.1.text_ne_nil)
    rw [behind_cons, previous_run, hc]
    exact fun heq => hlast (hc.trans (congrArg some heq))

/-! ## Lexemes with the same marks -/

/-- Lexemes `st` with the marks of the lexemes `src`, both the last one first, that end in the same
brackets and literal. -/
structure NestsAlike (src st : List Lexeme) : Prop where
  marks : marksOf st = marksOf src
  depth : (behind st).depth = (behind src).depth
  quote : (behind st).quote = (behind src).quote
  /-- Inside a comment or a template, also the character before is the same. -/
  previous : modeAfterAll .code src.reverse ≠ .code → (behind st).previous = (behind src).previous

namespace NestsAlike

theorem nil : NestsAlike [] [] := ⟨rfl, rfl, rfl, fun _ => rfl⟩

theorem space (h : NestsAlike src st) (hquote : (behind src).quote = none)
    (hmode : modeAfterAll .code src.reverse = .code) : NestsAlike src (.code ' ' :: st) := by
  have hstep : (behind st).step true ' ' = { behind st with previous := ' ' } :=
    step_of_not_mem (h.quote.trans hquote) (by decide)
  have hbehind : behind (.code ' ' :: st) = { behind st with previous := ' ' } :=
    (behind_cons _ st).trans hstep
  have hmarks : marksOf (.code ' ' :: st) = marksOf st := by
    rw [marksOf_cons, Lexeme.text, marks_eq_nil (List.forall_mem_singleton.2 rfl),
      List.append_nil]
  exact ⟨hmarks.trans h.marks, hbehind ▸ h.depth, hbehind ▸ h.quote, fun hne => absurd hmode hne⟩

/-- A blank or a comma can be missing. -/
theorem skip (h : NestsAlike src st) (hquote : (behind src).quote = none)
    (hmode : modeAfterAll .code src.reverse = .code) (hc : isBlank c = true ∨ c = ',') :
    NestsAlike (.code c :: src) st := by
  have hdelimiter : c ∉ delimiters :=
    hc.elim not_mem_delimiters_of_isBlank fun hcomma => hcomma ▸ by decide
  have hmark : isMark c = false := hc.elim isMark_of_isBlank fun hcomma => hcomma ▸ rfl
  have hbehind : behind (.code c :: src) = { behind src with previous := c } :=
    (behind_cons _ src).trans (step_of_not_mem hquote hdelimiter)
  have hmarks : marksOf (.code c :: src) = marksOf src := by
    rw [marksOf_cons, Lexeme.text, marks_eq_nil (List.forall_mem_singleton.2 hmark),
      List.append_nil]
  refine ⟨h.marks.trans hmarks.symm, hbehind ▸ h.depth, hbehind ▸ h.quote, fun hne => ?_⟩
  exact absurd ((modeAfterAll_reverse_cons .code (.code c) src).trans hmode) hne

/-- A lexeme that is set as it stands. -/
theorem push (h : NestsAlike src st) (htext : l.text = c :: s)
    (hstep : (behind st).step true c = (behind src).step true c) :
    NestsAlike (l :: src) (l :: st) := by
  have hbehind : behind (l :: st) = behind (l :: src) := by
    rw [behind_cons, behind_cons, htext, run_cons, run_cons, hstep]
  have hmarks : (behind st).marks l.text = (behind src).marks l.text := by
    rw [htext, Nesting.marks, Nesting.marks, hstep, isTop, isTop, h.depth, h.quote]
  refine ⟨?_, congrArg Nesting.depth hbehind, congrArg Nesting.quote hbehind,
    fun _ => congrArg Nesting.previous hbehind⟩
  rw [marksOf_cons, marksOf_cons, h.marks, hmarks]

/-- A literal, whatever its quotes are. -/
theorem literal (h : NestsAlike src st) (hreads : (Lexeme.literal s).Reads m next)
    (hmode : modeAfterAll .code src.reverse = .code) (hquote : (behind src).quote = none)
    (hafter : (behind (.literal s :: src)).quote = none) :
    NestsAlike (.literal s :: src) (.literal (requote o s) :: st) := by
  obtain ⟨-, q, a, closed, rfl, hq, hrest, -⟩ := hreads
  obtain ⟨q', a', hset, hq', hrest', -⟩ := hrest.exists_requote (o := o) hq
  obtain ⟨hmarks, hdepth, hend⟩ := hrest.run hq hquote
  obtain ⟨hmarks', hdepth', hend'⟩ := hrest'.run hq' (h.quote.trans hquote)
  rw [behind_cons, Lexeme.text] at hafter
  have hlast : a'.dropLast.getLast? = a.dropLast.getLast? := by
    rcases requote_eq o (q :: a) with hsame | hchanged
    · rw [(List.cons.inj (hset.symm.trans hsame)).2]
    · rw [(List.cons.inj (hset.symm.trans hchanged)).2, List.dropLast_concat,
        getLast?_unescapeQuote, List.tail_cons]
  have hafter' : (behind (.literal (requote o (q :: a)) :: st)).quote = none := by
    rw [behind_cons, Lexeme.text, hset]
    exact hend'.2 (hlast ▸ hend.1 hafter)
  refine ⟨?_, ?_, hafter'.trans (by rw [behind_cons]; exact hafter.symm), fun hne => ?_⟩
  · rw [marksOf_cons, marksOf_cons, Lexeme.text, Lexeme.text, hset, hmarks, hmarks', h.marks]
  · rw [behind_cons, behind_cons, Lexeme.text, Lexeme.text, hset, hdepth, hdepth', h.depth]
  · exact absurd ((modeAfterAll_reverse_cons .code (.literal _) src).trans hmode) hne

/-- What stands before a character is no literal to one and code to the other. -/
theorem step_eq (h : NestsAlike src st) (hsrc : ReadBack .code (some c) src)
    (hst : ReadBack .code (some c) st) (hread : ReadsLiterals src.reverse)
    (hmode : modeAfterAll .code st.reverse = modeAfterAll .code src.reverse) :
    (behind st).step true c = (behind src).step true c := by
  by_cases hcode : modeAfterAll .code src.reverse = .code
  · refine step_congr h.depth h.quote (Or.inr ⟨h.quote.trans (hread.quote hcode), ?_⟩)
    rintro rfl
    exact ⟨hst.previous_ne (hmode.trans hcode), hsrc.previous_ne hcode⟩
  · exact step_congr h.depth h.quote (Or.inl (h.previous hcode))

end NestsAlike

/-- What a row has set has the marks of the line. -/
theorem Carries.nestsAlike (h : Carries o src st) (hsrc : ReadBack .code next src)
    (hst : ReadBack .code next' st) (hread : ReadsLiterals src.reverse) : NestsAlike src st := by
  induction h generalizing next next' with
  | nil => exact .nil
  | @space src st h ih =>
    have hmode : modeAfterAll .code src.reverse = .code := (h.mode .code).symm.trans hst.1.mode_eq
    exact (ih hsrc hst.2 hread).space (hread.quote hmode) hmode
  | @skip src st c h hc ih =>
    have hmode : modeAfterAll .code src.reverse = .code := hsrc.1.mode_eq
    exact (ih hsrc.2 hst hread.of_cons).skip (hread.of_cons.quote hmode) hmode hc
  | @push src st h l ih =>
    have hbelow := ih hsrc.2 hst.2 hread.of_cons
    rcases l.requoted_cases o with ⟨s, rfl⟩ | hsame
    · have hmode : modeAfterAll .code src.reverse = .code := hsrc.1.1
      refine hbelow.literal hsrc.1 hmode (hread.of_cons.quote hmode) (hread.quote ?_)
      exact (modeAfterAll_reverse_cons .code _ src).trans hmode
    · obtain ⟨c, s, htext⟩ := List.exists_cons_of_ne_nil hsrc.1.text_ne_nil
      have hsrc := hsrc.2
      have hst := hst.2
      rw [hsame, htext] at hst
      rw [htext] at hsrc
      rw [hsame]
      exact hbelow.push htext (hbelow.step_eq hsrc hst hread.of_cons (h.mode .code))

/-- The row of a line has its marks. -/
theorem marks_placeAll (o : FormatOptions) {t : List Char} (h : ReadsLiterals (scan .code t)) :
    ({} : Nesting).marks (({} : Row).placeAll o (scan .code t)).text = ({} : Nesting).marks t := by
  obtain ⟨st, hr, hback, hst⟩ := carriesTo_placeAll o .code t
  have hmarks : marksOf st = marksOf (scan .code t).reverse :=
    (hst.nestsAlike (readBack_scan .code t) hback (by rwa [List.reverse_reverse])).marks
  rwa [marksOf, marksOf, Row.text_ofStack_scan, Row.text, ← hr] at hmarks

end ReferencePages
