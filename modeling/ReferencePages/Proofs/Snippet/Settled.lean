import Mathlib.Algebra.Ring.Int.Defs
import ReferencePages.Proofs.Snippet.Lexing

/-!
# Settled lexemes

A row sets a lexeme as it stands if what is before and behind it leaves nothing to change
(`Row.Keeps`). Lexemes are settled if each one is set as it stands and is read back before the next
one (`Settled`). The text of lexemes that are read back is scanned into them (`ReadBack.scan_text`),
and settled ones are set as they are (`Settled.placeAll_reverse`), so setting them again changes
nothing.

The lexemes that have been set are kept as a stack, the last one first: a row adds and takes back
lexemes at its end.
-/

namespace ReferencePages

/-! ## What lexemes add to a row -/

namespace Lexeme

/-- A blank of code. -/
def isSpacing : Lexeme → Bool
  | .code c => isBlank c
  | _ => false

/-- A closing bracket of code. -/
def closes : Lexeme → Bool
  | .code c => isCloser c
  | _ => false

/-- Whether closing brackets behind the lexeme do not lead the line. -/
def setsCode : Lexeme → Bool
  | .code c => !(c == ' ' || c == '\t' || isCloser c)
  | .arrow | .literal _ | .openComment | .openTemplate => true
  | .lineComment _ | .commentChar _ | .closeComment => false
  | .templateChar _ | .templateEscape _ | .closeTemplate => false

/-- The brackets that a lexeme opens, less those it closes. -/
def delta : Lexeme → Int
  | .code c => if c = '\x7b' ∨ c = '(' ∨ c = '[' then 1 else if isCloser c then -1 else 0
  | _ => 0

end Lexeme

/-- A character that separators are not parted from. -/
def isQuiet (c : Char) : Bool := isBlank c || isCloser c || c == ',' || c == ';'

/-- What may stand behind an opening brace without being parted from it. -/
def isBraceEnd (c : Char) : Bool := isBlank c || c == '\x7d' || c == '/'

theorem isCloser_iff {c : Char} : isCloser c = true ↔ c = '\x7d' ∨ c = ')' ∨ c = ']' := by
  simp only [isCloser, Bool.or_eq_true, beq_iff_eq, or_assoc]

theorem Lexeme.delta_of_closes {l : Lexeme} (h : l.closes = true) : l.delta = -1 := by
  cases l with
  | code c => rcases isCloser_iff.1 h with rfl | rfl | rfl <;> rfl
  | _ => cases h

namespace Row

variable {o : FormatOptions} {r : Row} {l : Lexeme} {next : Option Char} {c : Char}

/-- Set a lexeme as it stands. -/
def keep (r : Row) (l : Lexeme) : Row where
  reversed := l.text.reverse ++ r.reversed
  closers := if !r.hasCode && l.closes then r.closers + 1 else r.closers
  delta := r.delta + l.delta
  hasCode := r.hasCode || l.setsCode

/-- Nothing is before the next character, or a space. -/
def isPadded (r : Row) : Bool := r.reversed.head?.all (· == ' ')

/-- An equals sign behind the text is part of a longer operator. -/
def afterOperator (r : Row) : Bool := r.reversed.head?.any fun p => p == '=' || p == '!' || p == '<'

/-- An opening brace is parted from the text. -/
def partsBrace (r : Row) : Bool :=
  r.reversed.head?.any fun p => isAlphanumeric p || p == '>' || p == ')' || p == ']'

/-- A closing brace stays where it is behind the text. -/
def holdsBrace (r : Row) : Bool :=
  startsWith ['/', '*'] r.reversed || r.reversed.head?.any fun p => p == ' ' || p == '\x7b'

/-- The row sets a lexeme before a character as it stands. -/
structure Keeps (o : FormatOptions) (r : Row) (next : Option Char) (l : Lexeme) : Prop where
  tab : l ≠ .code '\t'
  space : l = .code ' ' → r.isPadded = false
  brace : l = .code '\x7b' → r.partsBrace = false ∧
    next.all isBraceEnd = true
  closer : l.closes = true → (o.trailingComma = false → r.dropComma = r) ∧
    (l = .code '\x7d' → r.hasCode = true → r.holdsBrace = true)
  equals : l = .code '=' → next = some '=' ∨ r.afterOperator = true ∨
    r.isPadded = true ∧ next.all isQuiet = true
  separator : l = .code ':' ∨ l = .code ',' ∨ l = .code ';' → next.all isQuiet = true
  arrow : l = .arrow → r.isPadded = true ∧ next.all isQuiet = true
  literal : ∀ s, l = .literal s → requote o s = s

theorem pad_eq (r : Row) : r.pad = if r.isPadded then r else r.push ' ' := by
  unfold pad isPadded
  split
  · next h => simp [h]
  · next h => simp [h]

theorem spaceAfter_eq (r : Row) (next : Option Char) :
    r.spaceAfter next = if next.all isQuiet then r else r.push ' ' := by
  cases next <;> rfl

theorem openBrace_eq (r : Row) (next : Option Char) :
    r.openBrace next =
      let q := (if r.partsBrace then r.push ' ' else r).push '\x7b'
      if next.all isBraceEnd then q else q.push ' ' := by
  unfold openBrace partsBrace
  cases next <;> cases r.reversed <;> rfl

theorem padClose_eq (r : Row) :
    (match r.reversed with
      | '/' :: '*' :: _ => r
      | p :: _ => if p == ' ' || p == '\x7b' then r else r.push ' '
      | [] => r.push ' ') = if r.holdsBrace then r else r.push ' ' := by
  unfold holdsBrace
  split
  · next h => simp [h, startsWith, dropPrefix?]
  · next p rest hcomment h =>
    have hstart : startsWith ['/', '*'] (p :: rest) = false := by
      rw [Bool.eq_false_iff, ne_eq, startsWith_iff]
      rintro ⟨rest', hrest⟩
      obtain ⟨rfl, rfl⟩ := List.cons.inj hrest
      exact hcomment rest' rfl rfl
    rw [h, hstart]
    rfl
  · next h => simp [h, startsWith, dropPrefix?]

theorem close_eq (o : FormatOptions) (r : Row) (c : Char) :
    r.close o c =
      let q := if o.trailingComma then r else r.dropComma
      let p :=
        if q.hasCode = false then { q with closers := q.closers + 1 }
        else if c = '\x7d' ∧ q.holdsBrace = false then q.push ' '
        else q
      { p.push c with delta := p.delta - 1 } := by
  unfold close
  generalize (if o.trailingComma then r else r.dropComma) = q
  refine congrArg (fun p : Row => { p.push c with delta := p.delta - 1 }) ?_
  by_cases hcode : q.hasCode = false
  · rw [if_pos (by simp [hcode]), if_pos hcode]
  · rw [if_neg (by simpa using hcode), if_neg hcode]
    by_cases hc : c = '\x7d'
    · rw [if_pos hc]
      refine (padClose_eq q).trans ?_
      cases q.holdsBrace <;> simp [hc]
    · rw [if_neg hc, if_neg fun h => hc h.1]

theorem equals_eq (r : Row) (next : Option Char) :
    r.equals next =
      if next = some '=' ∨ r.afterOperator = true then r.push '='
      else
        let q := (if r.isPadded then r else r.push ' ').push '='
        if next.all isQuiet then q else q.push ' ' := by
  unfold equals
  rw [spaceAfter_eq, pad_eq]
  cases hop : r.afterOperator <;> unfold afterOperator at hop <;> simp [hop]

theorem keep_code (hc : isCloser c = false) :
    r.keep (.code c) =
      { r.push c with
        delta := r.delta + Lexeme.delta (.code c)
        hasCode := r.hasCode || Lexeme.setsCode (.code c) } := by
  simp [keep, Lexeme.closes, hc, push, Lexeme.text]

/-- A character of code that is kept is set as it stands. -/
theorem Keeps.code_eq (h : r.Keeps o next (.code c)) : r.code o c next = r.keep (.code c) := by
  unfold code
  split
  · next hc =>
    obtain rfl : c = ' ' := hc.resolve_right fun hc => h.tab (hc ▸ rfl)
    rw [pad_eq, if_neg (by simp [h.space rfl]), keep_code rfl]
    simp [push, Lexeme.delta, Lexeme.setsCode, isCloser]
  split
  · next hc =>
    subst hc
    obtain ⟨hparts, hnext⟩ := h.brace rfl
    rw [openBrace_eq, keep_code rfl]
    simp [hparts, hnext, push, withCode, Lexeme.delta, Lexeme.setsCode, isCloser]
  split
  · next hc =>
    rcases hc with rfl | rfl
    · rw [keep_code rfl]
      simp [push, withCode, Lexeme.delta, Lexeme.setsCode, isCloser]
    · rw [keep_code rfl]
      simp [push, withCode, Lexeme.delta, Lexeme.setsCode, isCloser]
  split
  · next hspace hbrace hopen hc =>
    obtain ⟨hcomma, hhold⟩ := h.closer hc
    have hq : (if o.trailingComma then r else r.dropComma) = r := by
      split
      · rfl
      · next ht => exact hcomma (by simpa using ht)
    have hcode : Lexeme.setsCode (.code c) = false := by simp [Lexeme.setsCode, hc]
    rw [close_eq, hq, keep, Lexeme.delta_of_closes (l := .code c) hc, hcode]
    cases hset : r.hasCode with
    | false => simp [push, Lexeme.closes, hc, hset, Lexeme.text, Int.sub_eq_add_neg]
    | true =>
      have hpad : ¬(c = '\x7d' ∧ r.holdsBrace = false) := by
        rintro ⟨rfl, hfalse⟩
        simp [hhold rfl hset] at hfalse
      simp [push, Lexeme.closes, hset, hpad, Lexeme.text, Int.sub_eq_add_neg]
  split
  · next hc =>
    subst hc
    have hkeep : r.equals next = r.push '=' := by
      rw [equals_eq]
      rcases h.equals rfl with heq | hop | ⟨hpad, hnext⟩
      · rw [if_pos (Or.inl heq)]
      · rw [if_pos (Or.inr hop)]
      · by_cases hlong : next = some '=' ∨ r.afterOperator = true
        · rw [if_pos hlong]
        · rw [if_neg hlong, if_pos hpad]
          exact if_pos hnext
    rw [hkeep, keep_code rfl]
    simp [push, withCode, Lexeme.delta, Lexeme.setsCode, isCloser]
  split
  · next hc =>
    rw [spaceAfter_eq, if_pos (h.separator (by simpa using hc))]
    rcases hc with rfl | rfl | rfl
    · rw [keep_code rfl]
      simp [push, withCode, Lexeme.delta, Lexeme.setsCode, isCloser]
    · rw [keep_code rfl]
      simp [push, withCode, Lexeme.delta, Lexeme.setsCode, isCloser]
    · rw [keep_code rfl]
      simp [push, withCode, Lexeme.delta, Lexeme.setsCode, isCloser]
  · next hspace hbrace hopen hcloser hequals hseparator =>
    obtain ⟨hspace, htab⟩ := not_or.1 hspace
    obtain ⟨hparen, hbracket⟩ := not_or.1 hopen
    rw [keep_code (by simpa using hcloser)]
    simp [push, withCode, Lexeme.delta, Lexeme.setsCode, hspace, htab, hbrace, hparen, hbracket,
      hcloser]

/-- A lexeme that neither opens nor closes a bracket and is no code adds its text alone. -/
theorem keep_eq_append (hcloses : l.closes = false) (hdelta : l.delta = 0)
    (hcode : l.setsCode = false) : r.keep l = r.append l.text := by
  simp [keep, append, hcloses, hdelta, hcode]

theorem keep_eq_withCode (hcloses : l.closes = false) (hdelta : l.delta = 0)
    (hcode : l.setsCode = true) : r.keep l = (r.append l.text).withCode := by
  simp [keep, append, withCode, hcloses, hdelta, hcode]

theorem place_arrow : r.place o .arrow next =
    ((r.pad.append ['=', '>']).spaceAfter next).withCode := rfl

theorem place_literal (s : List Char) :
    r.place o (.literal s) next = (r.append (requote o s)).withCode := rfl

/-- A lexeme that is kept is set as it stands. -/
theorem Keeps.place_eq (h : r.Keeps o next l) : r.place o l next = r.keep l := by
  cases l with
  | code c => exact h.code_eq
  | arrow =>
    obtain ⟨hpad, hnext⟩ := h.arrow rfl
    rw [place_arrow, pad_eq, if_pos hpad, spaceAfter_eq, keep_eq_withCode rfl rfl rfl]
    exact congrArg withCode (if_pos hnext)
  | literal s => rw [place_literal, h.literal s rfl, keep_eq_withCode rfl rfl rfl, Lexeme.text]
  | openComment => exact (keep_eq_withCode rfl rfl rfl).symm
  | openTemplate => exact (keep_eq_withCode rfl rfl rfl).symm
  | _ => exact (keep_eq_append rfl rfl rfl).symm

/-! ## Rows of kept lexemes -/

/-- The row that sets lexemes as they stand, the last one first. -/
def ofStack : List Lexeme → Row
  | [] => {}
  | l :: st => (ofStack st).keep l

theorem reversed_ofStack (st : List Lexeme) :
    (ofStack st).reversed = st.flatMap fun l => l.text.reverse := by
  induction st with
  | nil => rfl
  | cons l st ih => rw [ofStack, keep, ih, List.flatMap_cons]

theorem text_ofStack (st : List Lexeme) :
    (ofStack st).text = st.reverse.flatMap Lexeme.text := by
  rw [text, reversed_ofStack]
  induction st with
  | nil => rfl
  | cons l st ih => simp [List.flatMap_append, ih]

theorem hasCode_ofStack (st : List Lexeme) : (ofStack st).hasCode = st.any Lexeme.setsCode := by
  induction st with
  | nil => rfl
  | cons l st ih => rw [ofStack, keep, ih, List.any_cons, Bool.or_comm]

theorem delta_ofStack (st : List Lexeme) : (ofStack st).delta = (st.map Lexeme.delta).sum := by
  induction st with
  | nil => rfl
  | cons l st ih => rw [ofStack, keep, ih, List.map_cons, List.sum_cons, Int.add_comm]

end Row

/-! ## Settled lexemes -/

theorem modeAfterAll_append (m : Mode) (ks ls : List Lexeme) :
    modeAfterAll m (ks ++ ls) = modeAfterAll (modeAfterAll m ks) ls :=
  List.foldl_append

theorem modeAfterAll_reverse_cons (m : Mode) (l : Lexeme) (st : List Lexeme) :
    modeAfterAll m (l :: st).reverse = l.modeAfter (modeAfterAll m st.reverse) := by
  rw [List.reverse_cons, modeAfterAll_append]
  rfl

/-- Lexemes, the last one first, that are set as they stand and read back before `next`. -/
def Settled (o : FormatOptions) (m : Mode) : Option Char → List Lexeme → Prop
  | _, [] => True
  | next, l :: st =>
    l.Reads (modeAfterAll m st.reverse) next ∧ (Row.ofStack st).Keeps o next l ∧
      Settled o m l.text.head? st

section

variable {o : FormatOptions} {m : Mode} {st : List Lexeme}

theorem Lexeme.Reads.text_ne_nil {l : Lexeme} {next : Option Char} (h : l.Reads m next) :
    l.text ≠ [] := by
  cases l with
  | literal s =>
    obtain ⟨-, q, a, -, rfl, -⟩ := h
    exact List.cons_ne_nil _ _
  | lineComment s =>
    obtain ⟨-, -, t, rfl⟩ := h
    exact List.cons_ne_nil _ _
  | _ => exact List.cons_ne_nil _ _

theorem scan_append_text {l : Lexeme} {t : List Char} (h : l.Reads m t.head?) :
    scan m (l.text ++ t) = l :: scan (l.modeAfter m) t := by
  obtain ⟨c, s, htext, hnext⟩ := nextLexeme_of_reads h
  rw [htext, scan, hnext]

/-- Lexemes, the last one first, that are read back before `next`. -/
def ReadBack (m : Mode) : Option Char → List Lexeme → Prop
  | _, [] => True
  | next, l :: st => l.Reads (modeAfterAll m st.reverse) next ∧ ReadBack m l.text.head? st

/-- Lexemes that are read back are the first ones of their text and what follows it. -/
theorem ReadBack.scan_append {t : List Char} (h : ReadBack m t.head? st) :
    scan m ((Row.ofStack st).text ++ t) = st.reverse ++ scan (modeAfterAll m st.reverse) t := by
  induction st generalizing t with
  | nil => rfl
  | cons l st ih =>
    obtain ⟨hreads, hst⟩ := h
    have hhead : (l.text ++ t).head? = l.text.head? :=
      List.head?_append_of_ne_nil l.text hreads.text_ne_nil
    rw [Row.text_ofStack, List.reverse_cons, List.flatMap_append, List.flatMap_singleton,
      List.append_assoc, ← Row.text_ofStack, ih (hhead ▸ hst), scan_append_text hreads,
      modeAfterAll_append, List.append_assoc]
    rfl

/-- The text of lexemes that are read back is scanned into them. -/
theorem ReadBack.scan_text (h : ReadBack m none st) :
    scan m (Row.ofStack st).text = st.reverse := by
  have hscan := ReadBack.scan_append (t := []) h
  rwa [List.append_nil, scan, List.append_nil] at hscan

theorem Settled.readBack {next : Option Char} (h : Settled o m next st) : ReadBack m next st := by
  induction st generalizing next with
  | nil => trivial
  | cons l st ih => exact ⟨h.1, ih h.2.2⟩

theorem Settled.scan_text (h : Settled o m none st) :
    scan m (Row.ofStack st).text = st.reverse :=
  h.readBack.scan_text

/-- Settled lexemes are set as they stand. -/
theorem Settled.placeAll_append {ls : List Lexeme}
    (h : Settled o m (ls.head?.bind (·.text.head?)) st) :
    ({} : Row).placeAll o (st.reverse ++ ls) = (Row.ofStack st).placeAll o ls := by
  induction st generalizing ls with
  | nil => rfl
  | cons l st ih =>
    obtain ⟨-, hkeeps, hst⟩ := h
    have hrest : ({} : Row).placeAll o (st.reverse ++ l :: ls) =
        (Row.ofStack st).placeAll o (l :: ls) := ih hst
    rw [List.reverse_cons, List.append_assoc, List.singleton_append, hrest, Row.placeAll,
      hkeeps.place_eq]
    rfl

theorem Settled.placeAll_reverse (h : Settled o m none st) :
    ({} : Row).placeAll o st.reverse = Row.ofStack st := by
  have hplace : ({} : Row).placeAll o (st.reverse ++ []) = (Row.ofStack st).placeAll o [] :=
    Settled.placeAll_append h
  rwa [List.append_nil] at hplace

/-! ## Another character behind settled lexemes -/

variable {l : Lexeme} {n : Char} {next : Option Char}

/-- A character that can join the one before it. -/
def joins (c : Char) : Bool := c == '/' || c == '*' || c == '>'

/-- What is read before a character is so before any that does not join it. -/
theorem Lexeme.Reads.of_apart (h : l.Reads m (some n))
    (hnext : next.all (fun c => !joins c) = true) : l.Reads m next := by
  have hne {c : Char} (hc : joins c = true) : next ≠ some c := by
    rintro rfl
    simp [hc] at hnext
  cases l with
  | code c =>
    obtain ⟨hmode, htemplate, hquote, -, -⟩ := h
    exact ⟨hmode, htemplate, hquote, fun _ => ⟨hne rfl, hne rfl⟩, fun _ => hne rfl⟩
  | literal s =>
    obtain ⟨hmode, q, a, closed, hs, hq, hrest, hend⟩ := h
    exact ⟨hmode, q, a, closed, hs, hq, hrest, fun hopen => nomatch hend hopen⟩
  | lineComment s => exact nomatch h.2.1
  | commentChar c => exact ⟨h.1, fun _ => hne rfl⟩
  | templateChar c => exact ⟨h.1, h.2.1, fun hc => nomatch h.2.2 hc⟩
  | _ => exact h

theorem apart_of_quiet (h : next.all isQuiet = true) : next.all (fun c => !joins c) = true := by
  cases next with
  | none => rfl
  | some c =>
    by_contra hjoins
    simp only [joins, Option.all_some, Bool.not_eq_true, Bool.not_eq_false', Bool.or_eq_true,
      beq_iff_eq] at hjoins
    rcases hjoins with (rfl | rfl) | rfl <;> cases h

theorem Lexeme.Reads.of_quiet (h : l.Reads m (some n)) (hnext : next.all isQuiet = true) :
    l.Reads m next :=
  h.of_apart (apart_of_quiet hnext)

theorem Row.Keeps.mono {r : Row} {next' : Option Char} (h : r.Keeps o next l)
    (hquiet : next.all isQuiet = true → next'.all isQuiet = true)
    (hbrace : l = .code '\x7b' → next.all isBraceEnd = true → next'.all isBraceEnd = true)
    (hequals : l = .code '=' → next = some '=' → next' = some '=') : r.Keeps o next' l where
  tab := h.tab
  space := h.space
  brace hl := ⟨(h.brace hl).1, hbrace hl (h.brace hl).2⟩
  closer := h.closer
  equals hl := (h.equals hl).imp (hequals hl) (Or.imp_right fun h => ⟨h.1, hquiet h.2⟩)
  separator hl := hquiet (h.separator hl)
  arrow hl := ⟨(h.arrow hl).1, hquiet (h.arrow hl).2⟩
  literal := h.literal

/-- Settled lexemes are settled before another character too if their last one is kept there. -/
theorem Settled.mono {next' : Option Char} (h : Settled o m next st)
    (hreads : ∀ l ∈ st.head?, ∀ m', l.Reads m' next → l.Reads m' next')
    (hquiet : next.all isQuiet = true → next'.all isQuiet = true)
    (hbrace : st.head? = some (.code '\x7b') → next.all isBraceEnd = true →
      next'.all isBraceEnd = true)
    (hequals : st.head? = some (.code '=') → next = some '=' → next' = some '=') :
    Settled o m next' st := by
  cases st with
  | nil => trivial
  | cons l st =>
    obtain ⟨hl, hkeeps, hst⟩ := h
    refine ⟨hreads l rfl _ hl, hkeeps.mono hquiet ?_ ?_, hst⟩
    · exact fun hl => hbrace (hl ▸ rfl)
    · exact fun hl => hequals (hl ▸ rfl)

theorem Settled.of_quiet (h : Settled o m (some n) st) (hnext : next.all isQuiet = true)
    (hbrace : st.head? = some (.code '\x7b') → next.all isBraceEnd = true)
    (hequals : st.head? = some (.code '=') → n ≠ '=') : Settled o m next st :=
  h.mono (fun _ _ _ hl => hl.of_quiet hnext) (fun _ => hnext) (fun hst _ => hbrace hst)
    fun hst hn => absurd (Option.some.inj hn) (hequals hst)

/-! ## The end of settled lexemes -/

theorem LiteralRest.getLast? {q : Char} {a : List Char} (h : LiteralRest q true a) :
    a.getLast? = some q := by
  generalize hclosed : true = closed at h
  induction h with
  | unclosed => cases hclosed
  | unclosedEscape => cases hclosed
  | close => rfl
  | escape c h ih =>
    rw [List.getLast?_cons_of_ne_nil (List.cons_ne_nil _ _), List.getLast?_cons, ih hclosed]
    rfl
  | char hc hquote h ih => rw [List.getLast?_cons, ih hclosed]; rfl

/-- A lexeme of code that is no single character ends with one that is neither blank nor a
comma. -/
theorem Lexeme.Reads.exists_reverse (h : l.Reads m (some n)) (hmode : l.modeAfter m = .code) :
    (∃ c, l = .code c) ∨ ∃ c s, l.text.reverse = c :: s ∧ isBlank c = false ∧ c ≠ ',' := by
  cases l with
  | code c => exact Or.inl ⟨c, rfl⟩
  | arrow => exact Or.inr ⟨'>', _, rfl, rfl, by decide⟩
  | literal s =>
    obtain ⟨-, q, a, closed, rfl, hq, hrest, hend⟩ := h
    cases closed with
    | false => cases hend rfl
    | true =>
      obtain ⟨init, hinit⟩ := List.getLast?_eq_some_iff.1 hrest.getLast?
      refine Or.inr ⟨q, init.reverse ++ [q], by simp [text, hinit], ?_, ?_⟩
      · rcases hq with rfl | rfl <;> rfl
      · rcases hq with rfl | rfl <;> decide
  | lineComment s => cases h.2.1
  | openComment => cases show Mode.comment = .code from hmode
  | commentChar c => cases (show m = .comment from h.1).symm.trans hmode
  | closeComment => exact Or.inr ⟨'/', _, rfl, rfl, by decide⟩
  | openTemplate => cases show Mode.template = .code from hmode
  | templateChar c => cases (show m = .template from h.1).symm.trans hmode
  | templateEscape c => cases (show m = .template from h).symm.trans hmode
  | closeTemplate => exact Or.inr ⟨'`', _, rfl, rfl, by decide⟩

end

end ReferencePages
