import ReferencePages.Proofs.Snippet.Closing
import ReferencePages.Proofs.Snippet.Reading

/-!
# Set lexemes are settled

While a line is set, the lexemes on its row are settled (`Follows.exists_place`, one step), and so
are those of the whole line (`exists_settled_placeAll`). Two things would spoil this: a comma that
cannot be dropped (`dropsCleanly`), and an equals sign that touches an arrow (`IsApart`). That would
be taken for a longer operator, and is no more once it is parted from the arrow.
-/

namespace ReferencePages

/-! ## Lines that are set for good -/

/-- Whether each closing bracket can be set behind the lexemes before it, of which `before` are
those without blanks so far, the last one first. -/
def dropsCleanly (before : List Lexeme) : List Lexeme → Bool
  | [] => true
  | l :: ls =>
    if l.isSpacing then dropsCleanly before ls
    else (!l.closes || closesCleanly l before) && dropsCleanly (l :: before) ls

/-- An equals sign does not touch an arrow. -/
def IsApart (l l' : Lexeme) : Prop := ¬(l = .code '=' ∧ l' = .arrow)

instance : DecidableRel IsApart := fun _ _ => inferInstanceAs (Decidable ¬(_ ∧ _))

section

variable {o : FormatOptions} {m : Mode} {src st : List Lexeme} {l : Lexeme} {n : Char}
  {next : Option Char}

/-! ## One lexeme -/

/-- A blank of code. -/
theorem Follows.exists_pad_place (hf : Follows o m src st) (h : Settled o m (some n) st)
    (hn : n = ' ' ∨ n = '\t') (hmode : modeAfterAll m src.reverse = .code) (hfirst : src ≠ []) :
    ∃ st', SetBefore o m (.code n :: src) next (Row.ofStack st).pad st' := by
  obtain ⟨st', hrow, hset, hf', hst'⟩ := hf.exists_pad h (hf.mode.trans hmode) (by
    rintro - rfl
    rcases hn with hn | hn <;> cases hn)
  have hst' := hst'.resolve_left fun hnil => hfirst (hf'.eq_nil_iff.1 hnil)
  refine ⟨st', hrow, hset next, hf'.absorb hst' (by simpa using hn), fun _ hsolid => ?_⟩
  have hblank : isSolid (.code n) = false := by rcases hn with rfl | rfl <;> rfl
  simp [hblank] at hsolid

namespace Row

variable {r : Row} {c : Char}

theorem code_blank (hc : c = ' ' ∨ c = '\t') : r.code o c next = r.pad :=
  if_pos hc

theorem code_separator (hc : c = ':' ∨ c = ',' ∨ c = ';') :
    r.code o c next =
      if next.all isQuiet then r.keep (.code c) else (r.keep (.code c)).push ' ' := by
  have hkeep : r.keep (.code c) = (r.push c).withCode := by
    rcases hc with rfl | rfl | rfl <;>
      simp [keep_code, isCloser, withCode, push, Lexeme.delta, Lexeme.setsCode]
  have hcode : r.code o c next = ((r.push c).spaceAfter next).withCode := by
    rcases hc with rfl | rfl | rfl <;> rfl
  rw [hcode, hkeep, spaceAfter_eq]
  split <;> rfl

theorem code_equals (hnext : next ≠ some '=') (hop : r.afterOperator = false) :
    r.code o '=' next =
      if next.all isQuiet then r.pad.keep (.code '=') else (r.pad.keep (.code '=')).push ' ' := by
  have hkeep : r.pad.keep (.code '=') = (r.pad.push '=').withCode := by
    simp [keep_code, isCloser, withCode, push, Lexeme.delta, Lexeme.setsCode]
  have hcode : r.code o '=' next = (r.equals next).withCode := rfl
  rw [hcode, hkeep, equals_eq, if_neg (by simp [hnext, hop]), ← pad_eq]
  dsimp only
  split <;> rfl

theorem place_arrow_keep :
    r.place o .arrow next =
      if next.all isQuiet then r.pad.keep .arrow else (r.pad.keep .arrow).push ' ' := by
  rw [place_arrow, keep_eq_withCode rfl rfl rfl, spaceAfter_eq]
  split <;> rfl

theorem code_brace :
    r.code o '\x7b' next =
      let q := if r.partsBrace then r.pad else r
      if next.all isBraceEnd then q.keep (.code '\x7b') else (q.keep (.code '\x7b')).push ' ' := by
  have hparts : (if r.partsBrace then r.push ' ' else r) = if r.partsBrace then r.pad else r := by
    split
    · next h =>
      rw [pad_eq, if_neg]
      intro hpad
      cases hr : r.reversed with
      | nil => simp [partsBrace, hr] at h
      | cons p s =>
        obtain rfl : p = ' ' := by simpa [isPadded, hr] using hpad
        simp only [partsBrace, hr, List.head?_cons, Option.any_some] at h
        exact absurd h (by decide)
    · rfl
  have hcode : r.code o '\x7b' next =
      { (r.openBrace next).withCode with delta := r.delta + 1 } := rfl
  rw [hcode, openBrace_eq, hparts]
  have hdelta : (if r.partsBrace then r.pad else r).delta = r.delta := by
    split
    · rw [pad_eq]
      split <;> rfl
    · rfl
  generalize (if r.partsBrace then r.pad else r) = q at hdelta ⊢
  have hkeep : q.keep (.code '\x7b') = { (q.push '\x7b').withCode with delta := r.delta + 1 } := by
    simp [keep_code, isCloser, withCode, push, Lexeme.delta, Lexeme.setsCode, hdelta]
  dsimp only
  rw [hkeep]
  split <;> rfl

end Row

theorem Row.isPadded_ofStack (h : st = [] ∨ st.head? = some (.code ' ')) :
    (ofStack st).isPadded = true := by
  rcases h with rfl | h
  · rfl
  · obtain ⟨st', rfl⟩ := List.head?_eq_some_iff.1 h
    rfl

theorem Row.partsBrace_ofStack (h : st = [] ∨ st.head? = some (.code ' ')) :
    (ofStack st).partsBrace = false := by
  rcases h with rfl | h
  · rfl
  · obtain ⟨st', rfl⟩ := List.head?_eq_some_iff.1 h
    exact show (isAlphanumeric ' ' || ' ' == '>' || ' ' == ')' || ' ' == ']') = false by decide

theorem Row.keeps_code {r : Row} {c : Char} (hblank : ¬(c = ' ' ∨ c = '\t'))
    (hcloser : isCloser c = false)
    (hbrace : c = '\x7b' → r.partsBrace = false ∧ next.all isBraceEnd = true)
    (hequals : c = '=' → next = some '=' ∨ r.afterOperator = true ∨
      r.isPadded = true ∧ next.all isQuiet = true)
    (hseparator : c = ':' ∨ c = ',' ∨ c = ';' → next.all isQuiet = true) :
    r.Keeps o next (.code c) where
  tab h := hblank (Or.inr (Lexeme.code.inj h))
  space h := absurd (Or.inl (Lexeme.code.inj h)) hblank
  brace h := hbrace (Lexeme.code.inj h)
  closer h := nomatch hcloser.symm.trans h
  equals h := hequals (Lexeme.code.inj h)
  separator h := hseparator (by simpa using h)
  arrow h := nomatch h
  literal s h := nomatch h

/-- A character of code that is neither a closing bracket nor a blank that is set as a space. -/
theorem Follows.exists_code {c : Char} (hf : Follows o m src st) (h : Settled o m (some c) st)
    (hreads : (Lexeme.code c).Reads (modeAfterAll m src.reverse) next)
    (hblank : ¬(c = ' ' ∨ c = '\t')) (hcloser : isCloser c = false) :
    ∃ st', SetBefore o m (.code c :: src) next ((Row.ofStack st).code o c next) st' := by
  have hmode := hreads.mode_eq
  have hspace : (Lexeme.code c).Reads (modeAfterAll m src.reverse) (some ' ') :=
    ⟨hmode, hreads.2.1, hreads.2.2.1, fun _ => by decide, fun _ => by decide⟩
  have hne : c ≠ ' ' := fun hc => hblank (Or.inl hc)
  by_cases hbrace : c = '\x7b'
  · subst hbrace
    have hkeeps {st : List Lexeme} (hparts : (Row.ofStack st).partsBrace = false) (n : Option Char)
        (hn : n.all isBraceEnd = true) : (Row.ofStack st).Keeps o n (.code '\x7b') :=
      Row.keeps_code hblank hcloser (fun _ => ⟨hparts, hn⟩) (by simp) (by simp)
    rw [Row.code_brace]
    dsimp only
    by_cases hparts : (Row.ofStack st).partsBrace = true
    · obtain ⟨st', hrow, hset, hf', hpadded⟩ := hf.exists_pad h (hf.mode.trans hmode)
        fun _ => by decide
      rw [if_pos hparts, hrow]
      exact hf'.exists_spaceAfter (l := .code '\x7b') (q := isBraceEnd) (hset _) hreads hspace hmode
        rfl (hkeeps (Row.partsBrace_ofStack hpadded)) rfl hne
    · rw [if_neg hparts]
      exact hf.exists_spaceAfter (l := .code '\x7b') (q := isBraceEnd) h hreads hspace hmode rfl
        (hkeeps (by simpa using hparts)) rfl hne
  by_cases hequals : c = '='
  · subst hequals
    by_cases hlong : next = some '=' ∨ (Row.ofStack st).afterOperator = true
    · have hkeeps : (Row.ofStack st).Keeps o next (.code '=') :=
        Row.keeps_code hblank hcloser (by simp) (fun _ => hlong.imp_right Or.inl) (by simp)
      rw [hkeeps.code_eq]
      exact ⟨_, hf.setBefore_keep (l := .code '=') h hreads hkeeps⟩
    · obtain ⟨hnext, hop⟩ := not_or.1 hlong
      obtain ⟨st', hrow, hset, hf', hpadded⟩ := hf.exists_pad h (hf.mode.trans hmode) fun hst => by
        obtain ⟨st', rfl⟩ := List.head?_eq_some_iff.1 hst
        exact absurd rfl hop
      rw [Row.code_equals hnext (by simpa using hop), hrow]
      exact hf'.exists_spaceAfter (l := .code '=') (q := isQuiet) (hset _) hreads hspace hmode rfl
        (fun n hn => Row.keeps_code hblank hcloser (by simp)
          (fun _ => Or.inr (Or.inr ⟨Row.isPadded_ofStack hpadded, hn⟩)) (by simp)) rfl hne
  by_cases hseparator : c = ':' ∨ c = ',' ∨ c = ';'
  · rw [Row.code_separator hseparator]
    exact hf.exists_spaceAfter (l := .code c) (q := isQuiet) h hreads hspace hmode rfl
      (fun n hn => Row.keeps_code hblank hcloser (fun hc => absurd hc hbrace)
        (fun hc => absurd hc hequals) fun _ => hn) rfl hne
  · have hkeeps : (Row.ofStack st).Keeps o next (.code c) :=
      Row.keeps_code hblank hcloser (fun hc => absurd hc hbrace) (fun hc => absurd hc hequals)
        fun hc => absurd hc hseparator
    rw [hkeeps.code_eq]
    exact ⟨_, hf.setBefore_keep (l := .code c) h hreads hkeeps⟩

/-- The arrow of a function. -/
theorem Follows.exists_arrow (hf : Follows o m src st) (h : Settled o m (some '=') st)
    (hmode : modeAfterAll m src.reverse = .code) (hapart : src.head? ≠ some (.code '=')) :
    ∃ st', SetBefore o m (.arrow :: src) next ((Row.ofStack st).place o .arrow next) st' := by
  obtain ⟨st', hrow, hset, hf', hpadded⟩ := hf.exists_pad h (hf.mode.trans hmode) fun hst => by
    rcases hf.last with hlast | hlast
    · rw [hst, eq_comm, Option.map_eq_some_iff] at hlast
      obtain ⟨l, hl, hcode⟩ := hlast
      rw [Lexeme.requoted_eq_code] at hcode
      exact absurd (hcode ▸ hl) hapart
    · rw [hst] at hlast
      cases hlast
  rw [Row.place_arrow_keep, hrow]
  refine hf'.exists_spaceAfter (l := .arrow) (q := isQuiet) (hset _) hmode hmode hmode rfl
    (fun n hn => ?_) rfl (show '>' ≠ ' ' by decide)
  constructor <;> simp [Row.isPadded_ofStack hpadded, hn, Lexeme.closes, Lexeme.requoted]

/-- What stands before one quote can stand before the other. -/
theorem Settled.of_isQuote {n' : Char} (h : Settled o m (some n) st) (hn : IsQuote n)
    (hn' : IsQuote n') : Settled o m (some n') st := by
  have hquiet : isQuiet n = false := by rcases hn with rfl | rfl <;> rfl
  have hbrace : isBraceEnd n = false := by rcases hn with rfl | rfl <;> rfl
  have hjoins : (some n').all (fun c => !joins c) = true := by rcases hn' with rfl | rfl <;> rfl
  refine h.mono (fun l _ m' hl => hl.of_apart hjoins) (fun hq => ?_) (fun _ hb => ?_)
    fun _ heq => ?_
  · cases hquiet.symm.trans hq
  · cases hbrace.symm.trans hb
  · obtain rfl := Option.some.inj heq
    simp [IsQuote] at hn

theorem Lexeme.Reads.head?_literal {s : List Char} (h : (Lexeme.literal s).Reads m next) :
    ∃ q, (Lexeme.literal s).text.head? = some q ∧ IsQuote q := by
  obtain ⟨-, q, a, -, rfl, hq, -⟩ := h
  exact ⟨q, rfl, hq⟩

/-- A literal. -/
theorem Follows.setBefore_literal {s : List Char} (hf : Follows o m src st)
    (h : Settled o m (Lexeme.literal s).text.head? st)
    (hreads : (Lexeme.literal s).Reads (modeAfterAll m src.reverse) next) :
    SetBefore o m (.literal s :: src) next ((Row.ofStack st).place o (.literal s) next)
      (.literal (requote o s) :: st) := by
  have hplace : (Row.ofStack st).place o (.literal s) next =
      (Row.ofStack st).keep (.literal (requote o s)) := by
    rw [Row.place_literal, Row.keep_eq_withCode rfl rfl rfl, Lexeme.text]
  have hkeeps : (Row.ofStack st).Keeps o next (.literal (requote o s)) := by
    constructor <;> simp [Lexeme.closes, hreads.requote_requote]
  have hset : Settled o m (Lexeme.literal (requote o s)).text.head? st := by
    obtain ⟨q, hhead, hq⟩ := hreads.head?_literal
    obtain ⟨q', hhead', hq'⟩ := (hreads.requoted (o := o)).head?_literal
    have hhead' : (Lexeme.literal (requote o s)).text.head? = some q' := hhead'
    rw [hhead']
    exact Settled.of_isQuote (hhead ▸ h) hq hq'
  rw [hplace]
  exact hf.setBefore_keep (l := .literal s) hset hreads hkeeps

/-- A lexeme that is always kept. -/
theorem Follows.setBefore_other (hf : Follows o m src st) (h : Settled o m l.text.head? st)
    (hreads : l.Reads (modeAfterAll m src.reverse) next) (hrequoted : l.requoted o = l)
    (hkeeps : (Row.ofStack st).Keeps o next l) :
    SetBefore o m (l :: src) next ((Row.ofStack st).place o l next) (l :: st) := by
  have hset := hf.setBefore_keep (l := l) (by rwa [hrequoted]) hreads (by rwa [hrequoted])
  rwa [hrequoted, ← hkeeps.place_eq] at hset

/-- One lexeme is set before a character: the lexemes of the row are settled again. -/
theorem Follows.exists_place (hf : Follows o m src st) (h : Settled o m l.text.head? st)
    (hreads : l.Reads (modeAfterAll m src.reverse) next) (hfirst : src = [] → isSolid l = true)
    (hclean : o.trailingComma = false → l.closes = true →
      closesCleanly l (src.filter isSolid) = true)
    (hapart : ∀ p ∈ src.head?, IsApart p l) :
    ∃ st', SetBefore o m (l :: src) next ((Row.ofStack st).place o l next) st' := by
  cases l with
  | code c =>
    by_cases hblank : c = ' ' ∨ c = '\t'
    · have hsrc : src ≠ [] := fun hnil => by
        have hsolid := hfirst hnil
        rcases hblank with rfl | rfl <;> cases hsolid
      have hplace : (Row.ofStack st).place o (.code c) next = (Row.ofStack st).pad :=
        Row.code_blank hblank
      rw [hplace]
      exact hf.exists_pad_place h hblank hreads.mode_eq hsrc
    · cases hcloser : isCloser c with
      | false => exact hf.exists_code h hreads hblank hcloser
      | true => exact hf.exists_close h hreads.mode_eq hcloser fun ht => hclean ht hcloser
  | arrow => exact hf.exists_arrow h hreads fun hp => hapart _ hp ⟨rfl, rfl⟩
  | literal s => exact ⟨_, hf.setBefore_literal h hreads⟩
  | _ => exact ⟨_, hf.setBefore_other h hreads rfl (by constructor <;> simp [Lexeme.closes])⟩

/-! ## All lexemes of a line -/

theorem head?_scan (m : Mode) (t : List Char) :
    (scan m t).head?.bind (·.text.head?) = t.head? := by
  cases t with
  | nil => rw [scan]; rfl
  | cons c s =>
    rw [scan]
    exact nextLexeme_fst_text_head? m c s

theorem dropsCleanly_cons (before : List Lexeme) (l : Lexeme) (ls : List Lexeme)
    (h : dropsCleanly (before.filter isSolid) (l :: ls) = true) :
    (l.closes = true → closesCleanly l (before.filter isSolid) = true) ∧
      dropsCleanly ((l :: before).filter isSolid) ls = true := by
  rw [dropsCleanly] at h
  split at h
  · next hl =>
    rw [List.filter_cons_of_neg (by simp [isSolid, hl])]
    refine ⟨fun hcloses => ?_, h⟩
    rw [Lexeme.closes_of_isSpacing hl] at hcloses
    cases hcloses
  · next hl =>
    obtain ⟨hcloses, hrest⟩ := Bool.and_eq_true_iff.1 h
    rw [List.filter_cons_of_pos (by simpa [isSolid] using hl)]
    exact ⟨fun hl => by simpa [hl] using hcloses, hrest⟩

/-- The lexemes of a text are set: those of the row are settled again. -/
theorem SetBefore.exists_placeAll {m' : Mode} {t : List Char} {r : Row}
    (h : SetBefore o m src t.head? r st) (hmode : modeAfterAll m src.reverse = m')
    (hfirst : src = [] → ∀ l ∈ (scan m' t).head?, isSolid l = true)
    (hclean : o.trailingComma = false → dropsCleanly (src.filter isSolid) (scan m' t) = true)
    (hapart : (src.head?.toList ++ scan m' t).IsChain IsApart) :
    ∃ st', SetBefore o m ((scan m' t).reverse ++ src) none (r.placeAll o (scan m' t)) st' := by
  fun_induction scan m' t generalizing src st r with
  | case1 => exact ⟨st, h⟩
  | case2 m' c s p =>
    rename_i ih
    have hhead : p.1.text.head? = some c := nextLexeme_fst_text_head? m' c s
    have hnext : (scan (p.1.modeAfter m') p.2).head?.bind (·.text.head?) = p.2.head? :=
      head?_scan _ _
    have hreads : p.1.Reads (modeAfterAll m src.reverse) p.2.head? :=
      hmode ▸ reads_nextLexeme m' c s
    have hset : Settled o m p.1.text.head? st := by
      rw [hhead]
      exact h.settled
    have hisolated : ∀ q ∈ src.head?, IsApart q p.1 := fun q hq => by
      rw [hq, Option.toList_some, List.singleton_append, List.isChain_cons_cons] at hapart
      exact hapart.1
    have hrest : ((p.1 :: src).head?.toList ++ scan (p.1.modeAfter m') p.2).IsChain IsApart := by
      cases hsrc : src.head? with
      | none => simpa [hsrc] using hapart
      | some q =>
        rw [hsrc, Option.toList_some, List.singleton_append, List.isChain_cons_cons] at hapart
        exact hapart.2
    obtain ⟨st', hst'⟩ := h.follows.exists_place hset hreads
      (fun hnil => hfirst hnil _ rfl)
      (fun ht => (dropsCleanly_cons src _ _ (hclean ht)).1) hisolated
    rw [← h.row] at hst'
    obtain ⟨st'', hst''⟩ := ih hst' (by rw [modeAfterAll_reverse_cons, hmode])
      (fun hnil => absurd hnil (List.cons_ne_nil _ _))
      (fun ht => (dropsCleanly_cons src _ _ (hclean ht)).2) hrest
    refine ⟨st'', ?_⟩
    rw [Row.placeAll, hnext, List.reverse_cons, List.append_assoc, List.singleton_append]
    exact hst''

/-- The lexemes of a line are set so that those of its row are settled. -/
theorem exists_settled_placeAll (o : FormatOptions) (m : Mode) (t : List Char)
    (hfirst : ∀ l ∈ (scan m t).head?, isSolid l = true)
    (hclean : o.trailingComma = false → dropsCleanly [] (scan m t) = true)
    (hapart : (scan m t).IsChain IsApart) :
    ∃ st, SetBefore o m (scan m t).reverse none (({} : Row).placeAll o (scan m t)) st := by
  have hstart : SetBefore o m [] t.head? {} [] :=
    ⟨rfl, trivial, ⟨rfl, .nil, Or.inl rfl, rfl, by simp⟩, fun _ _ => rfl⟩
  have hmode : modeAfterAll m ([] : List Lexeme).reverse = m := rfl
  obtain ⟨st, hst⟩ := hstart.exists_placeAll hmode (fun _ => hfirst) hclean hapart
  exact ⟨st, by simpa using hst⟩

end

end ReferencePages
