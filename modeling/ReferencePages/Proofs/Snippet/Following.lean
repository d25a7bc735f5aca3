import ReferencePages.Proofs.Snippet.Settled

/-!
# What has been set of a line

The lexemes that are set for those of a line differ from them by their quotes, by spaces and by
commas that have been dropped (`Follows`). While they are settled before the next character
(`SetBefore`), a space can be set behind them (`Follows.exists_pad`), and a lexeme with or without
a space behind it (`Follows.exists_spaceAfter`).
-/

namespace ReferencePages

/-! ## Lexemes with the preferred quotes -/

namespace Lexeme

variable {o : FormatOptions} {l : Lexeme} {m : Mode} {next : Option Char}

/-- A lexeme as it is set. -/
def requoted (o : FormatOptions) : Lexeme → Lexeme
  | .literal s => .literal (requote o s)
  | l => l

theorem isSpacing_requoted (l : Lexeme) : (l.requoted o).isSpacing = l.isSpacing := by
  cases l <;> rfl

theorem setsCode_requoted (l : Lexeme) : (l.requoted o).setsCode = l.setsCode := by
  cases l <;> rfl

theorem modeAfter_requoted (l : Lexeme) (m : Mode) :
    (l.requoted o).modeAfter m = l.modeAfter m := by
  cases l <;> rfl

theorem requoted_eq_code {c : Char} : l.requoted o = .code c ↔ l = .code c := by
  cases l <;> simp [requoted]

theorem requoted_of_closes (h : l.closes = true) : l.requoted o = l := by
  cases l <;> first | rfl | cases h

theorem Reads.requoted (h : l.Reads m next) : (l.requoted o).Reads m next := by
  cases l with
  | literal s =>
    obtain ⟨hmode, q, a, closed, rfl, hq, hrest, hend⟩ := h
    obtain ⟨q', a', hset, hq', hrest', -⟩ := hrest.exists_requote (o := o) hq
    exact ⟨hmode, q', a', closed, hset, hq', hrest', hend⟩
  | _ => exact h

theorem Reads.requote_requote {s : List Char} (h : (Lexeme.literal s).Reads m next) :
    requote o (requote o s) = requote o s := by
  obtain ⟨-, q, a, closed, rfl, hq, hrest, -⟩ := h
  obtain ⟨q', a', hset, -, -, hsame⟩ := hrest.exists_requote (o := o) hq
  rw [hset, hsame]

end Lexeme

/-! ## What has been set -/

/-- The lexemes that are set for those of a line, both without blanks and the last one first: a
comma before a closing bracket may be gone. -/
inductive Mirrors (o : FormatOptions) : List Lexeme → List Lexeme → Prop
  | nil : Mirrors o [] []
  | push {src st : List Lexeme} (l : Lexeme) (h : Mirrors o src st) :
      Mirrors o (l :: src) (l.requoted o :: st)
  | drop {src st : List Lexeme} {l : Lexeme} (hl : l.closes = true)
      (hcode : src.any (·.setsCode) = true) (h : Mirrors o src st) :
      Mirrors o (l :: .code ',' :: src) (l :: st)

namespace Mirrors

variable {o : FormatOptions} {src st : List Lexeme}

theorem head?_eq (h : Mirrors o src st) : st.head? = src.head?.map (·.requoted o) := by
  cases h with
  | nil => rfl
  | push l h => rfl
  | drop hl hcode h => simp [Lexeme.requoted_of_closes hl]

theorem exists_of_comma (h : Mirrors o (.code ',' :: src) st) :
    ∃ st', st = .code ',' :: st' ∧ Mirrors o src st' := by
  cases h with
  | push l h => exact ⟨_, rfl, h⟩
  | drop hl hcode h => exact absurd hl (by decide)

theorem any_setsCode (h : Mirrors o src st) (hcode : src.any (·.setsCode) = true) :
    st.any (·.setsCode) = true := by
  induction h with
  | nil => exact hcode
  | push l h ih =>
    rw [List.any_cons, Bool.or_eq_true] at hcode ⊢
    exact hcode.imp (fun hl => (Lexeme.setsCode_requoted l).trans hl) ih
  | drop hl hany h ih =>
    rw [List.any_cons, ih hany, Bool.or_true]

end Mirrors

/-- A lexeme other than a blank of code. -/
def isSolid (l : Lexeme) : Bool := !l.isSpacing

/-- What has been set of the lexemes `src` of a line, as the stack `st`. -/
structure Follows (o : FormatOptions) (m : Mode) (src st : List Lexeme) : Prop where
  mode : modeAfterAll m st.reverse = modeAfterAll m src.reverse
  mirrors : Mirrors o (src.filter isSolid) (st.filter isSolid)
  last : st.head? = src.head?.map (·.requoted o) ∨ st.head? = some (.code ' ')
  first : st.getLast? = src.getLast?.map (·.requoted o)
  mem : ∀ l ∈ st, l = .code ' ' ∨ ∃ l' ∈ src, l = l'.requoted o

namespace Follows

variable {o : FormatOptions} {m : Mode} {src st : List Lexeme} {l : Lexeme}

theorem eq_nil_iff (h : Follows o m src st) : st = [] ↔ src = [] := by
  rw [← List.getLast?_eq_none_iff, h.first, Option.map_eq_none_iff, List.getLast?_eq_none_iff]

theorem mem_cons (h : Follows o m src st) (l : Lexeme) :
    ∀ k ∈ st, k = .code ' ' ∨ ∃ l' ∈ l :: src, k = l'.requoted o := fun k hk =>
  (h.mem k hk).imp_right fun ⟨l', hl', hk⟩ => ⟨l', List.mem_cons_of_mem _ hl', hk⟩

theorem space (h : Follows o m src st) (hne : st ≠ []) : Follows o m src (.code ' ' :: st) where
  mode := (modeAfterAll_reverse_cons m _ st).trans h.mode
  mirrors := h.mirrors
  last := Or.inr rfl
  first := (List.getLast?_cons_of_ne_nil hne).trans h.first
  mem := List.forall_mem_cons.2 ⟨Or.inl rfl, h.mem⟩

/-- A blank behind a space is not set. -/
theorem absorb (h : Follows o m src st) (hst : st.head? = some (.code ' '))
    (hl : l = .code ' ' ∨ l = .code '\t') : Follows o m (l :: src) st where
  mode := by
    rw [h.mode, modeAfterAll_reverse_cons]
    rcases hl with rfl | rfl <;> rfl
  mirrors := by
    have hspacing : isSolid l = false := by rcases hl with rfl | rfl <;> rfl
    rw [List.filter_cons_of_neg (by simp [hspacing])]
    exact h.mirrors
  last := Or.inr hst
  first := by
    have hne : src ≠ [] := fun hnil => by
      rw [h.eq_nil_iff.2 hnil] at hst
      cases hst
    rw [List.getLast?_cons_of_ne_nil hne, h.first]
  mem := h.mem_cons l

theorem push (h : Follows o m src st) (l : Lexeme) :
    Follows o m (l :: src) (l.requoted o :: st) where
  mode := by
    rw [modeAfterAll_reverse_cons, modeAfterAll_reverse_cons, Lexeme.modeAfter_requoted, h.mode]
  mirrors := by
    have hsame : isSolid (l.requoted o) = isSolid l := by
      rw [isSolid, Lexeme.isSpacing_requoted, isSolid]
    cases hsolid : isSolid l with
    | false =>
      rw [hsolid] at hsame
      rw [List.filter_cons_of_neg (by simp [hsolid]), List.filter_cons_of_neg (by simp [hsame])]
      exact h.mirrors
    | true =>
      rw [hsolid] at hsame
      rw [List.filter_cons_of_pos hsolid, List.filter_cons_of_pos hsame]
      exact .push l h.mirrors
  last := Or.inl rfl
  first := by
    by_cases hnil : src = []
    · rw [h.eq_nil_iff.2 hnil, hnil]
      rfl
    · rw [List.getLast?_cons_of_ne_nil (fun hst => hnil (h.eq_nil_iff.1 hst)),
        List.getLast?_cons_of_ne_nil hnil, h.first]
  mem := List.forall_mem_cons.2 ⟨Or.inr ⟨l, List.mem_cons_self, rfl⟩, h.mem_cons l⟩

end Follows

/-! ## One lexeme -/

/-- A row after the lexemes `src` of a line, before a character: its lexemes are settled. -/
structure SetBefore (o : FormatOptions) (m : Mode) (src : List Lexeme) (next : Option Char)
    (r : Row) (st : List Lexeme) : Prop where
  row : r = Row.ofStack st
  settled : Settled o m next st
  follows : Follows o m src st
  last : next = none → (∀ l ∈ src.head?, isSolid l = true) → st.head? = src.head?.map (·.requoted o)

section

variable {o : FormatOptions} {m : Mode} {src st : List Lexeme} {l : Lexeme} {n : Char}
  {next : Option Char}

theorem Row.keep_space (r : Row) : r.keep (.code ' ') = r.push ' ' := by
  simp [keep_code (show isCloser ' ' = false from rfl), push, Lexeme.delta, Lexeme.setsCode,
    isCloser]

theorem Row.keeps_space {r : Row} (h : r.isPadded = false) (next : Option Char) :
    r.Keeps o next (.code ' ') := by
  constructor <;> simp [h, Lexeme.closes, isCloser]

theorem Lexeme.reads_space (next : Option Char) : (Lexeme.code ' ').Reads .code next :=
  ⟨rfl, by decide, by simp [IsQuote], fun h => absurd h (by decide), fun h => absurd h (by decide)⟩

/-- A space behind settled lexemes. -/
theorem Settled.space (h : Settled o m (some ' ') st) (hmode : modeAfterAll m st.reverse = .code)
    (hpad : (Row.ofStack st).isPadded = false) (next : Option Char) :
    Settled o m next (.code ' ' :: st) :=
  ⟨hmode ▸ Lexeme.reads_space next, Row.keeps_space hpad next, h⟩

/-- Nothing is before the next character of code, or a space is. -/
theorem ReadBack.isPadded_iff (h : ReadBack m (some n) st)
    (hmode : modeAfterAll m st.reverse = .code) :
    (Row.ofStack st).isPadded = true ↔ st = [] ∨ st.head? = some (.code ' ') := by
  cases st with
  | nil => simp [Row.isPadded, Row.ofStack]
  | cons l st =>
    rw [modeAfterAll_reverse_cons] at hmode
    rw [Row.isPadded, Row.ofStack, Row.keep]
    rcases h.1.exists_reverse hmode with ⟨c, rfl⟩ | ⟨c, s, hs, hc, -⟩
    · simp [Lexeme.text]
    · have hne : c ≠ ' ' := by
        rintro rfl
        cases hc
      have hcode : l ≠ .code ' ' := by
        rintro rfl
        exact hne (List.cons.inj hs).1.symm
      simp [hs, hne, hcode]

/-- A space is set behind settled lexemes unless there is one. -/
theorem Follows.exists_pad (hf : Follows o m src st) (h : Settled o m (some n) st)
    (hmode : modeAfterAll m st.reverse = .code)
    (hequals : st.head? = some (.code '=') → n ≠ '=') :
    ∃ st', (Row.ofStack st).pad = Row.ofStack st' ∧ (∀ next, Settled o m next st') ∧
      Follows o m src st' ∧ (st' = [] ∨ st'.head? = some (.code ' ')) := by
  by_cases hpad : (Row.ofStack st).isPadded = true
  · have hst := (h.readBack.isPadded_iff hmode).1 hpad
    refine ⟨st, by rw [Row.pad_eq, if_pos hpad], fun next => ?_, hf, hst⟩
    rcases hst with rfl | hst
    · trivial
    · obtain ⟨st₀, rfl⟩ := List.head?_eq_some_iff.1 hst
      rw [modeAfterAll_reverse_cons] at hmode
      exact ⟨h.1.1 ▸ Lexeme.reads_space next,
        Row.keeps_space (by simpa using h.2.1.space rfl) next, h.2.2⟩
  · have hpad : (Row.ofStack st).isPadded = false := by simpa using hpad
    have hne : st ≠ [] := fun hnil => by
      rw [(h.readBack.isPadded_iff hmode).2 (Or.inl hnil)] at hpad
      cases hpad
    refine ⟨.code ' ' :: st, ?_, fun next => ?_, hf.space hne, Or.inr rfl⟩
    · rw [Row.pad_eq, hpad, Row.ofStack, Row.keep_space]
      rfl
    · exact (h.of_quiet rfl (fun _ => rfl) hequals).space hmode hpad next

/-- A lexeme that is kept. -/
theorem Follows.setBefore_keep (hf : Follows o m src st)
    (h : Settled o m (l.requoted o).text.head? st)
    (hreads : l.Reads (modeAfterAll m src.reverse) next)
    (hkeeps : (Row.ofStack st).Keeps o next (l.requoted o)) :
    SetBefore o m (l :: src) next ((Row.ofStack st).keep (l.requoted o)) (l.requoted o :: st) where
  row := rfl
  settled := ⟨hf.mode ▸ hreads.requoted, hkeeps, h⟩
  follows := hf.push l
  last _ _ := rfl

/-- A lexeme with a space behind it. -/
theorem Follows.setBefore_spaced {c : Char} (hf : Follows o m src st)
    (h : Settled o m (l.requoted o).text.head? st)
    (hreads : l.Reads (modeAfterAll m src.reverse) (some ' '))
    (hmode : l.modeAfter (modeAfterAll m src.reverse) = .code)
    (hkeeps : (Row.ofStack st).Keeps o (some ' ') (l.requoted o))
    (hlast : (l.requoted o).text.getLast? = some c) (hc : c ≠ ' ') (hnext : next ≠ none) :
    SetBefore o m (l :: src) next (((Row.ofStack st).keep (l.requoted o)).push ' ')
      (.code ' ' :: l.requoted o :: st) where
  row := by
    rw [← Row.keep_space]
    rfl
  settled := by
    have hset := (hf.setBefore_keep h hreads hkeeps).settled
    have hpad : (Row.ofStack (l.requoted o :: st)).isPadded = false := by
      obtain ⟨init, hinit⟩ := List.getLast?_eq_some_iff.1 hlast
      simp [Row.isPadded, Row.ofStack, Row.keep, hinit, hc]
    refine hset.space ?_ hpad next
    rwa [modeAfterAll_reverse_cons, hf.mode, Lexeme.modeAfter_requoted]
  follows := (hf.push l).space (List.cons_ne_nil _ _)
  last hnone := absurd hnone hnext

/-- A lexeme before a character that it is parted from unless `q` holds of that. -/
theorem Follows.exists_spaceAfter {c : Char} {q : Char → Bool} (hf : Follows o m src st)
    (h : Settled o m (l.requoted o).text.head? st)
    (hreads : l.Reads (modeAfterAll m src.reverse) next)
    (hspace : l.Reads (modeAfterAll m src.reverse) (some ' '))
    (hmode : l.modeAfter (modeAfterAll m src.reverse) = .code) (hq : q ' ' = true)
    (hkeeps : ∀ n, n.all q = true → (Row.ofStack st).Keeps o n (l.requoted o))
    (hlast : (l.requoted o).text.getLast? = some c) (hc : c ≠ ' ') :
    ∃ st', SetBefore o m (l :: src) next
      (if next.all q then (Row.ofStack st).keep (l.requoted o)
        else ((Row.ofStack st).keep (l.requoted o)).push ' ') st' := by
  split
  · next hnext => exact ⟨_, hf.setBefore_keep h hreads (hkeeps next hnext)⟩
  · next hnext =>
    refine ⟨_, hf.setBefore_spaced h hspace hmode (hkeeps _ hq) hlast hc ?_⟩
    rintro rfl
    exact hnext rfl

theorem Lexeme.Reads.mode_eq {c : Char} (h : (Lexeme.code c).Reads m next) : m = .code :=
  h.1

end

end ReferencePages
