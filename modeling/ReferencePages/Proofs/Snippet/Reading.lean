import Mathlib.Data.List.Induction
import ReferencePages.Proofs.Snippet.Settled

/-!
# Texts read lexeme by lexeme

Lexemes that are read back one before the other (`ReadBack`) are those of their text, and the
lexemes of a text are read back so (`readBack_scan`). Settled lexemes are; here nothing is asked of
how a row sets them.

Only `/`, `*` and `>` can join the character before them. So what stands before any other character
reads the same as at the end of a text, unless it is a literal, a comment or an escape that goes on
over the character (`readBack_or_extends`).
-/

namespace ReferencePages

variable {m : Mode} {l : Lexeme} {st : List Lexeme} {t : List Char} {c n : Char}
  {next : Option Char}

/-- The mode behind a text. -/
def endsIn (m : Mode) (t : List Char) : Mode := modeAfterAll m (scan m t)

@[simp] theorem endsIn_nil (m : Mode) : endsIn m [] = m := by
  rw [endsIn, scan]
  rfl

/-! ## Lexemes read back -/

theorem nextLexeme_fst_text_head? (m : Mode) (c : Char) (s : List Char) :
    (nextLexeme m c s).1.text.head? = some c := by
  have happend := congrArg List.head? (nextLexeme_append m c s)
  rwa [List.head?_append_of_ne_nil _ (reads_nextLexeme m c s).text_ne_nil] at happend

theorem Row.text_ofStack_reverse (ls : List Lexeme) :
    (ofStack ls.reverse).text = ls.flatMap Lexeme.text := by
  rw [text_ofStack, List.reverse_reverse]

theorem Row.text_ofStack_scan (m : Mode) (t : List Char) :
    (ofStack (scan m t).reverse).text = t := by
  rw [text_ofStack_reverse, scan_flatten]

theorem readBack_append_scan {m' : Mode} : ∀ {st : List Lexeme},
    modeAfterAll m st.reverse = m' → ReadBack m t.head? st →
      ReadBack m none ((scan m' t).reverse ++ st) := by
  fun_induction scan m' t with
  | case1 => exact fun _ h => h
  | case2 m' c s next =>
    rename_i ih
    intro st hmode h
    rw [List.reverse_cons, List.append_assoc, List.singleton_append]
    refine ih (by rw [modeAfterAll_reverse_cons, hmode]) ⟨hmode ▸ reads_nextLexeme m' c s, ?_⟩
    rw [nextLexeme_fst_text_head? m' c s]
    exact h

/-- The lexemes of a text are read back. -/
theorem readBack_scan (m : Mode) (t : List Char) : ReadBack m none (scan m t).reverse := by
  have h : ReadBack m none ((scan m t).reverse ++ []) := readBack_append_scan rfl trivial
  rwa [List.append_nil] at h

/-- A text whose lexemes are read back before what follows is read on its own. -/
theorem scan_append_of_readBack {s : List Char} (h : ReadBack m s.head? (scan m t).reverse) :
    scan m (t ++ s) = scan m t ++ scan (endsIn m t) s := by
  have hscan := h.scan_append
  rwa [Row.text_ofStack_scan, List.reverse_reverse] at hscan

theorem endsIn_append {s : List Char} (h : ReadBack m s.head? (scan m t).reverse) :
    endsIn m (t ++ s) = endsIn (endsIn m t) s := by
  rw [endsIn, scan_append_of_readBack h, modeAfterAll_append]
  rfl

/-! ## Another character behind -/

/-- What is read back before a character is so before any that does not join it. -/
theorem ReadBack.of_apart (h : ReadBack m (some n) st)
    (hnext : next.all (fun c => !joins c) = true) : ReadBack m next st := by
  cases st with
  | nil => trivial
  | cons l st => exact ⟨h.1.of_apart hnext, h.2⟩

/-! ## Plain characters -/

/-- A character that means nothing beyond itself in any mode. -/
def isPlain (c : Char) : Bool :=
  !(joins c || c == '=' || c == '"' || c == '\'' || c == '`' || c == '\\')

/-- The lexeme of a plain character. -/
def Mode.char (m : Mode) (c : Char) : Lexeme :=
  match m with
  | .code => .code c
  | .comment => .commentChar c
  | .template => .templateChar c

@[simp] theorem Mode.text_char (m : Mode) (c : Char) : (m.char c).text = [c] := by
  cases m <;> rfl

@[simp] theorem Mode.modeAfter_char (m m' : Mode) (c : Char) : (m.char c).modeAfter m' = m' := by
  cases m <;> rfl

theorem modeAfterAll_map_char (m m' : Mode) (s : List Char) :
    modeAfterAll m' (s.map m.char) = m' := by
  induction s with
  | nil => rfl
  | cons c s ih =>
    rw [List.map_cons]
    exact (congrArg (modeAfterAll · _) (m.modeAfter_char m' c)).trans ih

theorem joins_of_isPlain (hc : isPlain c = true) : joins c = false := by
  simp_all [isPlain]

theorem isPlain_of_isBlank (hc : isBlank c = true) : isPlain c = true := by
  have hne {d : Char} (hd : isBlank d = false) : (c == d) = false :=
    beq_eq_false_iff_ne.2 fun h => Bool.false_ne_true (hd.symm.trans (h ▸ hc))
  simp only [isPlain, joins, hne (d := '/') rfl, hne (d := '*') rfl, hne (d := '>') rfl,
    hne (d := '=') rfl, hne (d := '"') rfl, hne (d := '\'') rfl, hne (d := '`') rfl,
    hne (d := '\\') rfl, Bool.or_self, Bool.not_false]

/-- A plain character is read alone, whatever is behind it. -/
theorem Lexeme.reads_char (hc : isPlain c = true) (m : Mode) (next : Option Char) :
    (m.char c).Reads m next := by
  simp only [isPlain, joins, Bool.not_eq_true', Bool.or_eq_false_iff, beq_eq_false_iff_ne] at hc
  obtain ⟨⟨⟨⟨⟨⟨⟨hslash, hstar⟩, harrow⟩, hequals⟩, hdouble⟩, hsingle⟩, htick⟩, hback⟩ := hc
  cases m with
  | code =>
    exact ⟨rfl, htick, fun h => h.elim hdouble hsingle, fun h => absurd h hslash,
      fun h => absurd h hequals⟩
  | comment => exact ⟨rfl, fun h => absurd h hstar⟩
  | template => exact ⟨rfl, htick, fun h => absurd h hback⟩

theorem scan_cons_of_isPlain (hc : isPlain c = true) (m : Mode) (t : List Char) :
    scan m (c :: t) = m.char c :: scan m t := by
  have hscan := scan_append_text (t := t) (Lexeme.reads_char hc m _)
  rwa [m.text_char, m.modeAfter_char] at hscan

theorem endsIn_cons_of_isPlain (hc : isPlain c = true) (m : Mode) (t : List Char) :
    endsIn m (c :: t) = endsIn m t := by
  rw [endsIn, scan_cons_of_isPlain hc, modeAfterAll, List.foldl_cons, m.modeAfter_char]
  rfl

theorem scan_append_of_isPlain {b : List Char} (hb : ∀ c ∈ b, isPlain c = true) (m : Mode)
    (t : List Char) : scan m (b ++ t) = b.map m.char ++ scan m t := by
  induction b with
  | nil => rfl
  | cons c b ih =>
    obtain ⟨hc, hb⟩ := List.forall_mem_cons.1 hb
    rw [List.cons_append, scan_cons_of_isPlain hc, ih hb]
    rfl

theorem scan_of_isPlain {b : List Char} (hb : ∀ c ∈ b, isPlain c = true) (m : Mode) :
    scan m b = b.map m.char := by
  have hscan := scan_append_of_isPlain hb m []
  rwa [List.append_nil, scan, List.append_nil] at hscan

/-- Plain characters are read back whatever is behind them. -/
theorem readBack_of_isPlain {b : List Char} (hb : ∀ c ∈ b, isPlain c = true) (m : Mode)
    (next : Option Char) : ReadBack m next (b.map m.char).reverse := by
  induction b using List.reverseRecOn generalizing next with
  | nil => trivial
  | append_singleton b c ih =>
    obtain ⟨hb, hc⟩ := List.forall_mem_append.1 hb
    rw [List.map_append, List.map_singleton, List.reverse_concat]
    refine ⟨?_, ih hb _⟩
    rw [List.reverse_reverse, modeAfterAll_map_char]
    exact Lexeme.reads_char (hc c (List.mem_singleton_self c)) m next

/-! ## A plain character at the end -/

/-- A lexeme that goes on over a character at the end of a text. -/
inductive Lexeme.Extends (c : Char) : Lexeme → Lexeme → Prop
  | literal (s : List Char) : Extends c (.literal s) (.literal (s ++ [c]))
  | lineComment (s : List Char) : Extends c (.lineComment s) (.lineComment (s ++ [c]))
  | escape : Extends c (.templateChar '\\') (.templateEscape c)

/-- The last lexeme of a text stays before a plain character, or goes on over it. -/
theorem Lexeme.Reads.exists_extends (h : l.Reads m none) (hc : isPlain c = true) :
    l.Reads m (some c) ∨ ∃ l', l.Extends c l' ∧ l'.Reads m none := by
  have hplain := hc
  simp only [isPlain, joins, Bool.not_eq_true', Bool.or_eq_false_iff, beq_eq_false_iff_ne] at hc
  obtain ⟨⟨⟨⟨⟨⟨⟨hslash, hstar⟩, harrow⟩, -⟩, hdouble⟩, hsingle⟩, -⟩, -⟩ := hc
  cases l with
  | code d =>
    obtain ⟨hmode, htemplate, hquote, -, -⟩ := h
    exact Or.inl ⟨hmode, htemplate, hquote, fun _ => ⟨by simpa using hslash, by simpa using hstar⟩,
      fun _ => by simpa using harrow⟩
  | literal s =>
    obtain ⟨hmode, q, a, closed, rfl, hq, hrest, -⟩ := h
    cases closed with
    | true => exact Or.inl ⟨hmode, q, a, true, rfl, hq, hrest, fun hopen => by cases hopen⟩
    | false =>
      have hne : c ≠ q := by
        rintro rfl
        exact hq.elim hdouble hsingle
      exact Or.inr ⟨_, .literal _, hmode, q, a ++ [c], false, rfl, hq, hrest.concat hne,
        fun _ => rfl⟩
  | lineComment s =>
    obtain ⟨hmode, -, s, rfl⟩ := h
    exact Or.inr ⟨_, .lineComment _, hmode, rfl, s ++ [c], rfl⟩
  | commentChar d => exact Or.inl ⟨h.1, fun _ => by simpa using hslash⟩
  | templateChar d =>
    by_cases hd : d = '\\'
    · subst hd
      exact Or.inr ⟨_, .escape, h.1⟩
    · exact Or.inl ⟨h.1, h.2.1, fun hback => absurd hback hd⟩
  | _ => exact Or.inl h

theorem Lexeme.Extends.text_eq {l' : Lexeme} (h : l.Extends c l') : l'.text = l.text ++ [c] := by
  cases h <;> rfl

theorem Lexeme.Extends.modeAfter_eq {l' : Lexeme} (h : l.Extends c l') (m : Mode) :
    l'.modeAfter m = l.modeAfter m := by
  cases h <;> rfl

/-- The lexemes of a text are read back before a plain character, or the last one goes on over
it. -/
theorem readBack_or_extends (hc : isPlain c = true) (m : Mode) (t : List Char) :
    ReadBack m (some c) (scan m t).reverse ∨
      ∃ init l l', l.Extends c l' ∧ l.Reads (modeAfterAll m init) none ∧
        scan m t = init ++ [l] ∧ scan m (t ++ [c]) = init ++ [l'] := by
  have hback := readBack_scan m t
  have htext := Row.text_ofStack_scan m t
  rcases hls : (scan m t).reverse with _ | ⟨l, st⟩
  · exact Or.inl trivial
  · rw [hls] at hback htext
    rcases hback.1.exists_extends hc with hreads | ⟨l', hext, hreads⟩
    · exact Or.inl ⟨hreads, hback.2⟩
    · have hscan : scan m t = st.reverse ++ [l] := by
        rw [← List.reverse_reverse (scan m t), hls, List.reverse_cons]
      refine Or.inr ⟨st.reverse, l, l', hext, hback.1, hscan, ?_⟩
      have ht : t ++ [c] = (Row.ofStack st).text ++ l'.text := by
        rw [hext.text_eq, ← htext, Row.text_ofStack, Row.text_ofStack, List.reverse_cons,
          List.flatMap_append, List.flatMap_singleton, List.append_assoc]
      have hhead : l'.text.head? = l.text.head? := by
        rw [hext.text_eq, List.head?_append_of_ne_nil _ hback.1.text_ne_nil]
      have htail : scan (modeAfterAll m st.reverse) l'.text = [l'] := by
        have htail := scan_append_text (t := []) hreads
        rwa [List.append_nil, scan] at htail
      rw [ht, ReadBack.scan_append (by rw [hhead]; exact hback.2), htail]

theorem endsIn_concat (hc : isPlain c = true) (m : Mode) (t : List Char) :
    endsIn m (t ++ [c]) = endsIn m t := by
  rcases readBack_or_extends hc m t with hback | ⟨init, l, l', hext, -, hscan, hscan'⟩
  · have hscan : scan (endsIn m t) [c] = [(endsIn m t).char c] := by
      rw [scan_cons_of_isPlain hc, scan]
    rw [endsIn_append hback, endsIn, hscan]
    exact Mode.modeAfter_char _ _ c
  · rw [endsIn, endsIn, hscan, hscan', modeAfterAll_append, modeAfterAll_append]
    exact hext.modeAfter_eq _

/-- Plain characters at the end of a text do not change where it ends. -/
theorem endsIn_append_of_isPlain {b : List Char} (hb : ∀ c ∈ b, isPlain c = true) (m : Mode)
    (t : List Char) : endsIn m (t ++ b) = endsIn m t := by
  induction b generalizing t with
  | nil => rw [List.append_nil]
  | cons c b ih =>
    obtain ⟨hc, hb⟩ := List.forall_mem_cons.1 hb
    rw [← List.singleton_append, ← List.append_assoc, ih hb, endsIn_concat hc]

end ReferencePages
