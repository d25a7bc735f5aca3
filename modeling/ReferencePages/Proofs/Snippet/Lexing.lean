import Mathlib.Data.List.Basic
import ReferencePages.Proofs.Text.Search
import ReferencePages.Snippet.Spacing

/-!
# Lexemes are read back

Whether a lexeme is found again at the start of a text depends on the mode and on the character
behind it, and on nothing further (`Lexeme.Reads`). The lexemes of a text are read so
(`reads_nextLexeme`), and lexemes that are read so are those of their text
(`nextLexeme_of_reads`). A literal whose quotes are changed is still one literal
(`LiteralRest.exists_requote`), which keeps its quotes from then on.
-/

namespace ReferencePages

/-! ## Literals -/

/-- What stands behind the opening quote of a literal: characters and escapes, up to the quote
that closes it or, if none does, to the end of the line. -/
inductive LiteralRest (quote : Char) : Bool → List Char → Prop
  | unclosed : LiteralRest quote false []
  | unclosedEscape : LiteralRest quote false ['\\']
  | close : LiteralRest quote true [quote]
  | escape {closed : Bool} {s : List Char} (c : Char) (h : LiteralRest quote closed s) :
      LiteralRest quote closed ('\\' :: c :: s)
  | char {closed : Bool} {s : List Char} {c : Char} (hc : c ≠ '\\') (hquote : c ≠ quote)
      (h : LiteralRest quote closed s) : LiteralRest quote closed (c :: s)

/-- A character that opens a literal. -/
def IsQuote (q : Char) : Prop := q = '"' ∨ q = '\''

instance (q : Char) : Decidable (IsQuote q) := inferInstanceAs (Decidable (_ ∨ _))

section

variable {q x : Char} {a s t : List Char} {closed : Bool}

theorem IsQuote.ne_backslash (hq : IsQuote q) : q ≠ '\\' := by
  rcases hq with rfl | rfl <;> decide

theorem exists_literalRest_cutLiteral (q : Char) (s : List Char) :
    ∃ closed, LiteralRest q closed (cutLiteral q s).1 ∧
      (closed = false → (cutLiteral q s).2 = []) := by
  fun_induction cutLiteral q s with
  | case1 => exact ⟨false, .unclosed, fun _ => rfl⟩
  | case2 c s inside rest hcut ih =>
    obtain ⟨closed, hrest, hend⟩ := ih
    rw [hcut] at hrest hend
    exact ⟨closed, .escape c hrest, hend⟩
  | case3 s => exact ⟨true, .close, by simp⟩
  | case4 c s hescape hc inside rest hcut ih =>
    obtain ⟨closed, hrest, hend⟩ := ih
    rw [hcut] at hrest hend
    by_cases hback : c = '\\'
    · subst hback
      obtain rfl : s = [] := List.eq_nil_iff_forall_not_mem.2 fun d hd => by
        obtain ⟨e, s', rfl⟩ := List.exists_cons_of_ne_nil (List.ne_nil_of_mem hd)
        exact hescape e s' rfl rfl
      cases hcut
      exact ⟨false, .unclosedEscape, fun _ => rfl⟩
    · exact ⟨closed, .char hback hc hrest, hend⟩

theorem cutLiteral_char (hc : x ≠ '\\') (hquote : x ≠ q) (s : List Char) :
    cutLiteral q (x :: s) = (x :: (cutLiteral q s).1, (cutLiteral q s).2) := by
  rw [cutLiteral, if_neg hquote]
  rintro c s' rfl
  exact absurd rfl hc

theorem LiteralRest.cutLiteral_append (h : LiteralRest q true a) (hq : IsQuote q)
    (t : List Char) : cutLiteral q (a ++ t) = (a, t) := by
  generalize hclosed : true = closed at h
  induction h with
  | unclosed => cases hclosed
  | unclosedEscape => cases hclosed
  | close =>
    rw [List.singleton_append, cutLiteral, if_pos rfl]
    rintro c s rfl
    exact absurd rfl hq.ne_backslash
  | escape c h ih =>
    rw [List.cons_append, List.cons_append, cutLiteral, ih hclosed]
  | char hc hquote h ih =>
    rw [List.cons_append, cutLiteral_char hc hquote, ih hclosed]

theorem LiteralRest.cutLiteral_self (h : LiteralRest q closed a) (hq : IsQuote q) :
    cutLiteral q a = (a, []) := by
  induction h with
  | unclosed => rfl
  | unclosedEscape =>
    rw [cutLiteral, if_neg hq.ne_backslash.symm]
    · rfl
    · intro c s _ h
      cases h
  | close =>
    rw [cutLiteral, if_pos rfl]
    rintro c s - h
    cases h
  | escape c h ih => rw [cutLiteral, ih]
  | char hc hquote h ih => rw [cutLiteral_char hc hquote, ih]

/-- A quote that no backslash escapes is the last character. -/
theorem LiteralRest.eq_nil_of_quote (h : LiteralRest q closed (q :: s)) (hq : IsQuote q) :
    s = [] := by
  generalize hquote : q :: s = a at h
  cases h with
  | unclosed => cases hquote
  | unclosedEscape => exact (List.cons.inj hquote).2
  | close => exact (List.cons.inj hquote).2
  | escape c h => exact absurd (List.cons.inj hquote).1 hq.ne_backslash
  | char hc hne h => exact absurd (List.cons.inj hquote).1.symm hne

/-- A literal that is not closed goes on over another character. -/
theorem LiteralRest.concat (h : LiteralRest q false a) (hx : x ≠ q) :
    LiteralRest q false (a ++ [x]) := by
  generalize hopen : false = closed at h ⊢
  induction h with
  | unclosed =>
    by_cases hback : x = '\\'
    · exact hback ▸ .unclosedEscape
    · exact .char hback hx .unclosed
  | unclosedEscape => exact .escape x .unclosed
  | close => cases hopen
  | escape c h ih => exact .escape c (ih hopen)
  | char hc hquote h ih => exact .char hc hquote (ih hopen)

end

/-! ## Quotes -/

section

variable {o : FormatOptions} {q c : Char} {a s : List Char} {closed : Bool}

theorem isQuote_quote (o : FormatOptions) : IsQuote o.quote := by
  unfold FormatOptions.quote
  split
  · exact Or.inr rfl
  · exact Or.inl rfl

theorem ne_quote (o : FormatOptions) (hx : ¬IsQuote x) : x ≠ o.quote := fun h =>
  hx (h ▸ isQuote_quote o)

theorem quote_ne_otherQuote (o : FormatOptions) : o.quote ≠ o.otherQuote := by
  unfold FormatOptions.quote FormatOptions.otherQuote
  split <;> decide

theorem isQuote_otherQuote (o : FormatOptions) : IsQuote o.otherQuote := by
  unfold FormatOptions.otherQuote
  split
  · exact Or.inl rfl
  · exact Or.inr rfl

theorem unescapeQuote_nil (q : Char) : unescapeQuote q [] = [] := by
  simp [unescapeQuote, replaceAll, replaceMatches]

theorem unescapeQuote_escaped (q : Char) (s : List Char) :
    unescapeQuote q ('\\' :: q :: s) = q :: unescapeQuote q s := by
  have hmatch : exactly ['\\', q] ('\\' :: q :: s) = some ((), 1) := by
    simp [exactly, dropPrefix?]
  rw [unescapeQuote, replaceAll, replaceMatches, pieces_cons_of_some hmatch, List.flatMap_cons]
  rfl

theorem unescapeQuote_cons (h : ¬['\\', q] <+: c :: s) :
    unescapeQuote q (c :: s) = c :: unescapeQuote q s := by
  have hnone : exactly ['\\', q] (c :: s) = none := by
    rw [exactly, if_neg (by simp), Option.map_eq_none_iff, Option.eq_none_iff_forall_ne_some]
    exact fun rest hrest => h ⟨rest, (dropPrefix?_eq_some_iff.1 hrest).symm⟩
  rw [unescapeQuote, replaceAll, replaceMatches, pieces_cons_of_none hnone, List.flatMap_cons]
  rfl

theorem unescapeQuote_cons_of_ne (hc : c ≠ '\\') (s : List Char) :
    unescapeQuote q (c :: s) = c :: unescapeQuote q s :=
  unescapeQuote_cons fun h => hc (List.cons_prefix_cons.1 h).1.symm

/-- An escape of another character stays, unless the quote itself stands behind it. -/
theorem unescapeQuote_escape (hc : c ≠ q) (hs : s.head? ≠ some q) :
    unescapeQuote q ('\\' :: c :: s) = '\\' :: c :: unescapeQuote q s := by
  have hnext : ¬['\\', q] <+: c :: s := by
    intro hstart
    obtain ⟨rest, rfl⟩ := (List.cons_prefix_cons.1 hstart).2
    exact hs rfl
  rw [unescapeQuote_cons (by simpa using Ne.symm hc), unescapeQuote_cons hnext]

/-- With other quotes around it, what stands in a literal is that of a literal still: only
escapes of the old quote lose their backslash. -/
theorem LiteralRest.unescapeQuote (h : LiteralRest o.otherQuote closed a)
    (hlast : a.getLast? = some o.otherQuote) (hquote : o.quote ∉ a.dropLast) :
    LiteralRest o.quote closed (unescapeQuote o.otherQuote a.dropLast ++ [o.quote]) := by
  induction h with
  | unclosed => cases hlast
  | unclosedEscape => exact absurd (Option.some.inj hlast) (isQuote_otherQuote o).ne_backslash.symm
  | close =>
    rw [List.dropLast_singleton, unescapeQuote_nil]
    exact .close
  | @escape closed s c h ih =>
    rcases List.eq_nil_or_concat' s with rfl | ⟨init, d, rfl⟩
    · obtain rfl : closed = false := by cases h; rfl
      rw [List.dropLast_cons_cons, List.dropLast_singleton,
        unescapeQuote_cons (by simp), unescapeQuote_nil]
      exact .escape o.quote .unclosed
    · have hdrop : ('\\' :: c :: (init ++ [d])).dropLast = '\\' :: c :: init :=
        @List.dropLast_concat _ ('\\' :: c :: init) d
      have hinit : (init ++ [d]).getLast? = some o.otherQuote := by
        rwa [List.getLast?_cons_cons, List.getLast?_cons_of_ne_nil (by simp)] at hlast
      rw [hdrop] at hquote ⊢
      rw [List.dropLast_concat] at ih
      have ih := ih hinit fun hmem =>
        hquote (List.mem_cons_of_mem _ (List.mem_cons_of_mem _ hmem))
      by_cases hc : c = o.otherQuote
      · subst hc
        rw [unescapeQuote_escaped]
        exact .char (isQuote_otherQuote o).ne_backslash (quote_ne_otherQuote o).symm ih
      · -- No quote stands behind the escape, where it would close the literal.
        have hinit : init.head? ≠ some o.otherQuote := by
          intro hhead
          obtain ⟨rest, rfl⟩ := List.head?_eq_some_iff.1 hhead
          have hnil := h.eq_nil_of_quote (isQuote_otherQuote o)
          simp at hnil
        rw [unescapeQuote_escape hc hinit]
        exact .escape c ih
  | @char closed s c hc hother h ih =>
    rcases List.eq_nil_or_concat' s with rfl | ⟨init, d, rfl⟩
    · exact absurd (Option.some.inj hlast) hother
    · have hdrop : (c :: (init ++ [d])).dropLast = c :: init :=
        @List.dropLast_concat _ (c :: init) d
      have hinit : (init ++ [d]).getLast? = some o.otherQuote := by
        rwa [List.getLast?_cons_of_ne_nil (by simp)] at hlast
      rw [hdrop] at hquote ⊢
      rw [List.dropLast_concat] at ih
      obtain ⟨hne, hquote⟩ := not_or.1 (List.mem_cons.not.1 hquote)
      rw [unescapeQuote_cons_of_ne hc]
      exact .char hc (Ne.symm hne) (ih hinit hquote)

theorem requote_of_quote_ne (hq : q ≠ o.otherQuote) (a : List Char) :
    requote o (q :: a) = q :: a :=
  if_neg fun h => hq h.1

/-- Whatever its quotes are, a literal is set as a literal, which is set as it is. -/
theorem LiteralRest.exists_requote (h : LiteralRest q closed a) (hq : IsQuote q) :
    ∃ q' a', requote o (q :: a) = q' :: a' ∧ IsQuote q' ∧ LiteralRest q' closed a' ∧
      requote o (q' :: a') = q' :: a' := by
  by_cases hchange : q = o.otherQuote ∧ a.getLast? = some o.otherQuote ∧ o.quote ∉ a.dropLast
  · obtain ⟨rfl, hlast, hquote⟩ := hchange
    refine ⟨o.quote, _, if_pos ⟨rfl, hlast, hquote⟩, isQuote_quote o,
      h.unescapeQuote hlast hquote, requote_of_quote_ne (quote_ne_otherQuote o) _⟩
  · exact ⟨q, a, if_neg hchange, hq, h, if_neg hchange⟩

end

/-! ## Lexemes -/

namespace Lexeme

/-- Whether a lexeme is what is read in a mode before a character. -/
def Reads (m : Mode) (next : Option Char) : Lexeme → Prop
  | .code c => m = .code ∧ c ≠ '`' ∧ ¬IsQuote c ∧
      (c = '/' → next ≠ some '/' ∧ next ≠ some '*') ∧ (c = '=' → next ≠ some '>')
  | .arrow => m = .code
  | .literal s => m = .code ∧ ∃ q a closed, s = q :: a ∧ IsQuote q ∧ LiteralRest q closed a ∧
      (closed = false → next = none)
  | .lineComment s => m = .code ∧ next = none ∧ ∃ t, s = '/' :: '/' :: t
  | .openComment => m = .code
  | .commentChar c => m = .comment ∧ (c = '*' → next ≠ some '/')
  | .closeComment => m = .comment
  | .openTemplate => m = .code
  | .templateChar c => m = .template ∧ c ≠ '`' ∧ (c = '\\' → next = none)
  | .templateEscape _ => m = .template
  | .closeTemplate => m = .template

end Lexeme

theorem reads_nextLexeme (m : Mode) (c : Char) (s : List Char) :
    (nextLexeme m c s).1.Reads m (nextLexeme m c s).2.head? := by
  have hliteral {q : Char} (hq : IsQuote q) : (Lexeme.literal (q :: (cutLiteral q s).1)).Reads .code
      (cutLiteral q s).2.head? := by
    obtain ⟨closed, hrest, hend⟩ := exists_literalRest_cutLiteral q s
    exact ⟨rfl, q, _, closed, rfl, hq, hrest, fun hopen => by rw [hend hopen]; rfl⟩
  unfold nextLexeme
  split
  · rfl
  · next hclose =>
    refine ⟨rfl, ?_⟩
    rintro rfl hslash
    obtain ⟨t, rfl⟩ := List.head?_eq_some_iff.1 hslash
    exact hclose t rfl rfl
  · rfl
  · rfl
  · next hclose hescape =>
    refine ⟨rfl, fun hc => hclose hc, ?_⟩
    rintro rfl
    cases s with
    | nil => rfl
    | cons d t => exact (hescape d t rfl rfl).elim
  · exact ⟨rfl, rfl, _, rfl⟩
  · rfl
  · rfl
  · rfl
  · exact hliteral (Or.inl rfl)
  · exact hliteral (Or.inr rfl)
  · next htemplate hdouble hsingle hline hblock harrow =>
    refine ⟨rfl, fun hc => htemplate hc, ?_, ?_, ?_⟩
    · rintro (rfl | rfl)
      · exact hdouble rfl
      · exact hsingle rfl
    · rintro rfl
      refine ⟨fun h => ?_, fun h => ?_⟩
      · obtain ⟨t, rfl⟩ := List.head?_eq_some_iff.1 h
        exact hline t rfl rfl
      · obtain ⟨t, rfl⟩ := List.head?_eq_some_iff.1 h
        exact hblock t rfl rfl
    · rintro rfl h
      obtain ⟨t, rfl⟩ := List.head?_eq_some_iff.1 h
      exact harrow t rfl rfl

/-- A lexeme that is read before what follows is the first one there. -/
theorem nextLexeme_of_reads {m : Mode} {l : Lexeme} {t : List Char} (h : l.Reads m t.head?) :
    ∃ c s, l.text ++ t = c :: s ∧ nextLexeme m c s = (l, t) := by
  cases l with
  | code c =>
    obtain ⟨rfl, htemplate, hquote, hslash, hequals⟩ := h
    refine ⟨c, t, rfl, ?_⟩
    unfold nextLexeme
    split <;> simp_all [IsQuote]
  | arrow =>
    obtain rfl : m = .code := h
    exact ⟨_, _, rfl, rfl⟩
  | literal s =>
    obtain ⟨rfl, q, a, closed, rfl, hq, hrest, hend⟩ := h
    have hcut : cutLiteral q (a ++ t) = (a, t) := by
      cases closed with
      | false =>
        obtain rfl : t = [] := List.head?_eq_none_iff.1 (hend rfl)
        rw [List.append_nil]
        exact hrest.cutLiteral_self hq
      | true => exact hrest.cutLiteral_append hq t
    refine ⟨q, a ++ t, rfl, ?_⟩
    rcases hq with rfl | rfl
    · rw [nextLexeme, hcut]
    · rw [nextLexeme, hcut]
  | lineComment s =>
    obtain ⟨rfl, hend, a, rfl⟩ := h
    obtain rfl : t = [] := List.head?_eq_none_iff.1 hend
    exact ⟨'/', '/' :: a, by simp [Lexeme.text], rfl⟩
  | openComment =>
    obtain rfl : m = .code := h
    exact ⟨_, _, rfl, rfl⟩
  | commentChar c =>
    obtain ⟨rfl, hclose⟩ := h
    refine ⟨c, t, rfl, ?_⟩
    unfold nextLexeme
    split <;> simp_all
  | closeComment =>
    obtain rfl : m = .comment := h
    exact ⟨_, _, rfl, rfl⟩
  | openTemplate =>
    obtain rfl : m = .code := h
    exact ⟨_, _, rfl, rfl⟩
  | templateChar c =>
    obtain ⟨rfl, hclose, hescape⟩ := h
    refine ⟨c, t, rfl, ?_⟩
    unfold nextLexeme
    split <;> simp_all
  | templateEscape c =>
    obtain rfl : m = .template := h
    exact ⟨_, _, rfl, rfl⟩
  | closeTemplate =>
    obtain rfl : m = .template := h
    exact ⟨_, _, rfl, rfl⟩

end ReferencePages
