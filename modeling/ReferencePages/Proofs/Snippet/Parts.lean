import Mathlib.Data.List.Infix
import ReferencePages.Proofs.Snippet.Breaking
import ReferencePages.Proofs.Snippet.Segment

/-!
# The parts of a broken line

A line that is broken around the items of its first parentheses has settled lexemes before, in and
behind the items. An item whose brackets are balanced is a set line of its own
(`Settled.setLine_item`), and so is what stands before and behind the items.
-/

namespace ReferencePages

/-! ## Balanced brackets -/

/-- No bracket closes before it opens, and each one closes. -/
def Balanced (ls : List Lexeme) : Prop :=
  (∀ ks ∈ ls.inits, 0 ≤ (ks.map (·.delta)).sum) ∧ (ls.map (·.delta)).sum = 0

instance (ls : List Lexeme) : Decidable (Balanced ls) :=
  inferInstanceAs (Decidable (_ ∧ _))

section

variable {ls st : List Lexeme} {l : Lexeme}

theorem Lexeme.delta_nonpos_of_setsCode (h : l.setsCode = false) : l.delta ≤ 0 := by
  cases l with
  | code c =>
    rw [delta]
    split
    · next hopen => rcases hopen with rfl | rfl | rfl <;> cases h
    · split <;> decide
  | _ => exact Int.le_refl 0

/-- Without code there are only closing brackets. -/
theorem Row.delta_nonpos_of_hasCode (h : (ofStack st).hasCode = false) :
    (ofStack st).delta ≤ 0 := by
  rw [hasCode_ofStack, List.any_eq_false] at h
  rw [delta_ofStack]
  induction st with
  | nil => exact Int.le_refl 0
  | cons l st ih =>
    obtain ⟨hl, hst⟩ := List.forall_mem_cons.1 h
    have hdelta := Lexeme.delta_nonpos_of_setsCode (by simpa using hl)
    have hsum := ih hst
    rw [List.map_cons, List.sum_cons]
    omega

/-- No closing brackets lead lexemes that never close more than they open. -/
theorem Row.closers_eq_zero (h : ∀ st', st' <:+ st → 0 ≤ (ofStack st').delta) :
    (ofStack st).closers = 0 := by
  induction st with
  | nil => rfl
  | cons l st ih =>
    have hst := ih fun st' hst' => h st' (hst'.trans (List.suffix_cons l st))
    rw [ofStack, keep]
    refine (if_neg fun hlead => ?_).trans hst
    rw [Bool.and_eq_true, Bool.not_eq_true'] at hlead
    have hall : 0 ≤ (ofStack st).delta + l.delta := h (l :: st) List.suffix_rfl
    have hnone := delta_nonpos_of_hasCode hlead.1
    rw [Lexeme.delta_of_closes hlead.2] at hall
    omega

theorem Row.delta_ofStack_reverse (ls : List Lexeme) :
    (ofStack ls.reverse).delta = (ls.map (·.delta)).sum := by
  rw [delta_ofStack, List.map_reverse, List.sum_reverse]

theorem Balanced.delta (h : Balanced ls) : (Row.ofStack ls.reverse).delta = 0 := by
  rw [Row.delta_ofStack_reverse, h.2]

theorem Balanced.closers (h : Balanced ls) : (Row.ofStack ls.reverse).closers = 0 := by
  refine Row.closers_eq_zero fun st' hst' => ?_
  rw [← List.reverse_reverse st', Row.delta_ofStack_reverse]
  refine h.1 _ ((List.mem_inits _ _).2 ?_)
  rw [← List.reverse_reverse ls]
  exact List.reverse_prefix.2 hst'

/-- Balanced lexemes do not start with a closing bracket. -/
theorem Balanced.head? (h : Balanced ls) : ∀ l ∈ ls.head?, l.closes = false := by
  intro l hl
  obtain ⟨rest, rfl⟩ := List.head?_eq_some_iff.1 hl
  refine Bool.eq_false_iff.2 fun hcloses => ?_
  have hfirst := h.1 [l] ((List.mem_inits _ _).2 ⟨rest, rfl⟩)
  rw [List.map_singleton, List.sum_singleton, Lexeme.delta_of_closes hcloses] at hfirst
  exact absurd hfirst (by decide)

/-- Balanced lexemes do not end with an opening brace. -/
theorem Balanced.getLast? (h : Balanced ls) : ls.getLast? ≠ some (.code '\x7b') := by
  intro hlast
  obtain ⟨init, rfl⟩ := List.getLast?_eq_some_iff.1 hlast
  have hinit := h.1 init ((List.mem_inits _ _).2 ⟨_, rfl⟩)
  have hall := h.2
  rw [List.map_append, List.sum_append, List.map_singleton, List.sum_singleton] at hall
  have hopen : (Lexeme.code '\x7b').delta = 1 := rfl
  omega

end

/-! ## Items -/

/-- An item that can be set by itself. -/
structure SteadyItem (item : List Char) : Prop where
  ne_nil : item ≠ []
  /-- The comma behind the item is one of code. -/
  ends : (scan .code (item ++ [','])).getLast? = some (.code ',')
  balanced : Balanced (scan .code item)

instance (item : List Char) : Decidable (SteadyItem item) :=
  decidable_of_iff (item ≠ [] ∧ (scan .code (item ++ [','])).getLast? = some (.code ',') ∧
    Balanced (scan .code item))
    ⟨fun ⟨h₁, h₂, h₃⟩ => ⟨h₁, h₂, h₃⟩, fun ⟨h₁, h₂, h₃⟩ => ⟨h₁, h₂, h₃⟩⟩

section

variable {o : FormatOptions} {below : List Lexeme} {item r : List Char}

theorem Row.text_ofStack_append (st below : List Lexeme) :
    (ofStack (st ++ below)).text = (ofStack below).text ++ (ofStack st).text := by
  rw [text_ofStack, List.reverse_append, List.flatMap_append, ← text_ofStack, ← text_ofStack]

theorem Row.delta_ofStack_append (st below : List Lexeme) :
    (ofStack (st ++ below)).delta = (ofStack st).delta + (ofStack below).delta := by
  rw [delta_ofStack, List.map_append, List.sum_append, ← delta_ofStack, ← delta_ofStack]

theorem text_lineOf_scan (m : Mode) (t : List Char) : (lineOf m (scan m t).reverse).text = t :=
  Row.text_ofStack_scan m t

theorem Row.text_ofStack_map_code (s : List Char) :
    (ofStack (s.map Lexeme.code).reverse).text = s := by
  rw [text_ofStack_reverse]
  induction s with
  | nil => rfl
  | cons c s ih => exact congrArg (c :: ·) ih

theorem Row.isFresh_concat {c : Char} {row : Row} {s : List Char} (hrow : row.text = s ++ [c])
    (hc : c ≠ '=' ∧ c ≠ '!' ∧ c ≠ '<' ∧ c ≠ '*') : row.isFresh = true := by
  have hreversed : row.reversed = c :: s.reverse := by
    rw [← List.reverse_inj, List.reverse_cons, List.reverse_reverse]
    exact hrow
  obtain ⟨hequals, hnot, hless, hstar⟩ := hc
  simp [isFresh, hreversed, hequals, hnot, hless, hstar]

/-- Blanks behind a text that nothing goes on behind. -/
theorem Row.isFresh_append_blank {b : List Char} (hb : ∀ c ∈ b, isBlank c = true)
    (h : (ofStack below).isFresh = true) :
    (ofStack ((b.map Lexeme.code).reverse ++ below)).isFresh = true := by
  rcases List.eq_nil_or_concat' b with rfl | ⟨init, c, rfl⟩
  · exact h
  · have hc := hb c (by simp)
    have htext : (ofStack (((init ++ [c]).map Lexeme.code).reverse ++ below)).text =
        ((ofStack below).text ++ init) ++ [c] := by
      rw [text_ofStack_append, text_ofStack_map_code, List.append_assoc]
    refine isFresh_concat htext ⟨?_, ?_, ?_, ?_⟩ <;>
    · rintro rfl
      cases hc

/-- Blanks and what is behind them start with a character that separators are not parted from. -/
theorem exists_head?_append_blank {b : List Char} (hb : ∀ c ∈ b, isBlank c = true)
    (hr : ∃ c, r.head? = some c ∧ isQuiet c = true) :
    ∃ c, (b ++ r).head? = some c ∧ isQuiet c = true := by
  cases b with
  | nil => exact hr
  | cons c b => exact ⟨c, rfl, by simp [isQuiet, hb c List.mem_cons_self]⟩

/-- The lexemes of an item and of what is behind it. -/
theorem SteadyItem.scan_append (h : SteadyItem (trim item)) (hr : r.head?.all isQuiet = true) :
    ∃ b b', (∀ c ∈ b, isBlank c = true) ∧ (∀ c ∈ b', isBlank c = true) ∧
      item = b ++ trim item ++ b' ∧
      scan .code (item ++ r) =
        b.map .code ++ (scan .code (trim item) ++ scan .code (b' ++ r)) ∧
      modeAfterAll .code (scan .code (trim item)) = .code := by
  obtain ⟨b, b', hb, hb', hitem⟩ := exists_eq_append_trim item
  have hquiet : (b' ++ r).head?.all isQuiet = true := by
    cases b' with
    | nil => exact hr
    | cons c b' => simp [isQuiet, hb' c List.mem_cons_self]
  obtain ⟨hscan, hmode⟩ := scan_append_of_getLast? h.ends (Or.inr hquiet)
  refine ⟨b, b', hb, hb', hitem, ?_, hmode⟩
  conv => lhs; rw [hitem]
  rw [List.append_assoc, List.append_assoc, scan_append_of_blank hb, hscan]

/-- An item of a set line is a set line of its own, with a comma behind it. -/
theorem SteadyItem.setLine (h : SteadyItem (trim item))
    (hr : ∃ c, r.head? = some c ∧ isQuiet c = true)
    (hset : Settled o .code none ((scan .code (item ++ r)).reverse ++ below))
    (hmode : modeAfterAll .code below.reverse = .code)
    (hfresh : (Row.ofStack below).isFresh = true) (hfeed : '\n' ∉ item) :
    SetLine o .code (.code ',' :: (scan .code (trim item)).reverse) := by
  have hquiet : r.head?.all isQuiet = true := by
    obtain ⟨q, hq, hquiet⟩ := hr
    rw [hq]
    exact hquiet
  obtain ⟨b, b', hb, hb', hitem, hscan, hitemMode⟩ := h.scan_append hquiet
  rw [hscan, List.reverse_append, List.reverse_append, List.append_assoc, List.append_assoc] at hset
  have hpart := Settled.of_scan hset
  have hbelow := (modeAfterAll_append_blank .code b below).trans hmode
  have htrim : trim (trim item) = trim item := trim_trim item
  have hitemSet : Settled o .code (b' ++ r).head? (scan .code (trim item)).reverse := by
    refine hpart.of_append hbelow fun l hl => ⟨?_, Or.inr (Row.isFresh_append_blank hb hfresh)⟩
    rintro rfl
    rw [List.getLast?_reverse] at hl
    have hsolid := isSolid_head?_scan (fun _ => (trim_eq_self_iff_forall.1 htrim).1) _ hl
    cases hsolid
  obtain ⟨n, hn, hnquiet⟩ := exists_head?_append_blank hb' hr
  rw [hn] at hitemSet
  have hsettled : Settled o .code (some ',') (scan .code (trim item)).reverse := by
    refine hitemSet.of_quiet rfl (fun hbrace => ?_) fun _ => ?_
    · rw [List.head?_reverse] at hbrace
      exact absurd hbrace h.balanced.getLast?
    · rintro rfl
      cases hnquiet
  have hcomma : Settled o .code none (.code ',' :: (scan .code (trim item)).reverse) := by
    refine ⟨?_, ?_, hsettled⟩
    · rw [List.reverse_reverse, hitemMode]
      exact Lexeme.reads_char rfl .code none
    · exact Row.keeps_code (by decide) rfl (fun h => absurd h (by decide))
        (fun h => absurd h (by decide)) fun _ => rfl
  have htext : (lineOf .code (.code ',' :: (scan .code (trim item)).reverse)).text =
      trim item ++ [','] := by
    rw [text_lineOf_cons, text_lineOf_scan, Lexeme.text]
  refine hcomma.setLine ?_ ?_
  · rw [htext, trim_eq_self_iff_forall, List.head?_append_of_ne_nil _ h.ne_nil,
      List.getLast?_concat]
    exact ⟨(trim_eq_self_iff_forall.1 htrim).1, fun c hc => Option.some.inj hc ▸ rfl⟩
  · rw [htext, List.mem_append, List.mem_singleton]
    refine not_or.2 ⟨fun hmem => ?_, by decide⟩
    rw [hitem] at hfeed
    exact hfeed (List.mem_append_left _ (List.mem_append_right _ hmem))

theorem Row.delta_ofStack_blank {b : List Char} (hb : ∀ c ∈ b, isBlank c = true) :
    (ofStack (b.map Lexeme.code).reverse).delta = 0 := by
  rw [delta_ofStack_reverse]
  induction b with
  | nil => rfl
  | cons c b ih =>
    obtain ⟨hc, hb⟩ := List.forall_mem_cons.1 hb
    have hdelta : (Lexeme.code c).delta = 0 := Lexeme.delta_of_isSpacing hc
    rw [List.map_cons, List.map_cons, List.sum_cons, ih hb, hdelta]
    rfl

/-- What is behind an item is behind lexemes that leave the depth of brackets as it was. -/
theorem SteadyItem.exists_below (h : SteadyItem (trim item)) (hr : r.head?.all isQuiet = true)
    (hmode : modeAfterAll .code below.reverse = .code) :
    ∃ below', (scan .code (item ++ r)).reverse ++ below = (scan .code r).reverse ++ below' ∧
      modeAfterAll .code below'.reverse = .code ∧
      (Row.ofStack below').delta = (Row.ofStack below).delta ∧
      (Row.ofStack below').text = (Row.ofStack below).text ++ item := by
  obtain ⟨b, b', hb, hb', hitem, hscan, hitemMode⟩ := h.scan_append hr
  refine ⟨(b'.map .code).reverse ++ ((scan .code (trim item)).reverse ++
    ((b.map .code).reverse ++ below)), ?_, ?_, ?_, ?_⟩
  · rw [hscan, scan_append_of_blank hb']
    simp only [List.reverse_append, List.append_assoc]
  · simp only [List.reverse_append, List.reverse_reverse, modeAfterAll_append, hmode,
      modeAfterAll_map_code, hitemMode]
  · simp only [Row.delta_ofStack_append, Row.delta_ofStack_blank hb, Row.delta_ofStack_blank hb',
      h.balanced.delta, Int.zero_add]
  · rw [Row.text_ofStack_append, Row.text_ofStack_append, Row.text_ofStack_append,
      Row.text_ofStack_map_code, Row.text_ofStack_map_code, Row.text_ofStack_scan,
      List.append_assoc, List.append_assoc]
    conv => rhs; rw [hitem]
    rw [List.append_assoc]

/-- All items of a set line are set lines, with commas behind them, and what follows them is behind
lexemes that leave the depth of brackets as it was. -/
theorem setLine_items {items : List (List Char)} (hne : items ≠ [])
    (hitems : ∀ item ∈ items, SteadyItem (trim item))
    (hr : ∃ c, r.head? = some c ∧ isQuiet c = true)
    (hset : Settled o .code none ((scan .code (joinWith [','] items ++ r)).reverse ++ below))
    (hmode : modeAfterAll .code below.reverse = .code)
    (hfresh : (Row.ofStack below).isFresh = true) (hfeed : '\n' ∉ joinWith [','] items) :
    (∀ item ∈ items, SetLine o .code (.code ',' :: (scan .code (trim item)).reverse)) ∧
      ∃ below', (scan .code (joinWith [','] items ++ r)).reverse ++ below =
          (scan .code r).reverse ++ below' ∧
        modeAfterAll .code below'.reverse = .code ∧
        (Row.ofStack below').delta = (Row.ofStack below).delta ∧
        (Row.ofStack below').text = (Row.ofStack below).text ++ joinWith [','] items := by
  induction items generalizing below with
  | nil => exact absurd rfl hne
  | cons item rest ih =>
    obtain ⟨hitem, hrest⟩ := List.forall_mem_cons.1 hitems
    by_cases hnil : rest = []
    · subst hnil
      have hjoin : joinWith [','] [item] = item := List.intercalate_singleton
      rw [hjoin] at hset hfeed ⊢
      obtain ⟨q, hq, hquiet⟩ := hr
      have hset' := hitem.setLine ⟨q, hq, hquiet⟩ hset hmode hfresh hfeed
      exact ⟨fun x hx => List.mem_singleton.1 hx ▸ hset',
        hitem.exists_below (by rw [hq]; exact hquiet) hmode⟩
    · have hjoin : joinWith [','] (item :: rest) ++ r =
          item ++ ([','] ++ (joinWith [','] rest ++ r)) := by
        rw [joinWith, List.intercalate_cons_of_ne_nil hnil]
        simp only [List.append_assoc]
        rfl
      have hfeedJoin : joinWith [','] (item :: rest) = item ++ ([','] ++ joinWith [','] rest) := by
        rw [joinWith, List.intercalate_cons_of_ne_nil hnil, List.append_assoc]
        rfl
      rw [hfeedJoin, List.mem_append, List.mem_append, not_or, not_or] at hfeed
      rw [hjoin] at hset ⊢
      have hset' := hitem.setLine ⟨',', rfl, rfl⟩ hset hmode hfresh hfeed.1
      obtain ⟨below₁, heq, hmode₁, hdelta₁, htext₁⟩ :=
        hitem.exists_below (r := [','] ++ (joinWith [','] rest ++ r)) rfl hmode
      have hcomma : scan .code ([','] ++ (joinWith [','] rest ++ r)) =
          .code ',' :: scan .code (joinWith [','] rest ++ r) :=
        scan_cons_of_isPlain rfl .code _
      have htext : (Row.ofStack (.code ',' :: below₁)).text =
          ((Row.ofStack below).text ++ item) ++ [','] := by
        rw [Row.text_ofStack_cons, htext₁]
        rfl
      rw [heq, hcomma, List.reverse_cons, List.append_assoc, List.singleton_append] at hset
      obtain ⟨hall, below', heq', hmode', hdelta', htext'⟩ := ih hnil hrest hset
        ((modeAfterAll_reverse_cons _ _ _).trans hmode₁)
        (Row.isFresh_concat htext (by decide)) hfeed.2.2
      refine ⟨List.forall_mem_cons.2 ⟨hset', hall⟩, below', ?_, hmode', ?_, ?_⟩
      · rw [heq, hcomma, List.reverse_cons, List.append_assoc, List.singleton_append, heq']
      · rw [hdelta', Row.ofStack, Row.keep, hdelta₁]
        exact Int.add_zero _
      · rw [htext', htext, hfeedJoin]
        simp only [List.append_assoc]

/-! ## Before, in and behind the parentheses -/

/-- The parts of a set line `st`: what stands before the items, with the parenthesis that opens
them, the items of `inside`, and what is behind them. -/
structure PartsOf (o : FormatOptions) (st head : List Lexeme) (inside close : List Char) :
    Prop where
  start : SetLine o .code head
  mode : modeAfterAll .code head.reverse = .code
  closers : (lineOf .code st).closers = (lineOf .code head).closers
  items : ∀ item ∈ splitTop ',' {} (trim inside),
    SetLine o .code (.code ',' :: (scan .code (trim item)).reverse)
  /-- No comma is left before the bracket that closes the items. -/
  comma : o.trailingComma = false → (trim inside).getLast? ≠ some ','
  stop : SetLine o .code (scan .code close).reverse
  after : modeAfterAll .code st.reverse = modeAfterAll .code (scan .code close)
  delta : (lineOf .code st).delta =
    (lineOf .code head).delta + (lineOf .code (scan .code close).reverse).delta

variable {st head : List Lexeme} {left inside close rest : List Char}

theorem Row.closers_ofStack_append (h : (ofStack below).hasCode = true) (ks : List Lexeme) :
    (ofStack (ks ++ below)).closers = (ofStack below).closers := by
  induction ks with
  | nil => rfl
  | cons k ks ih =>
    have hcode : (ofStack (ks ++ below)).hasCode = true := by
      rw [hasCode_ofStack] at h ⊢
      rw [List.any_append, h, Bool.or_true]
    rw [List.cons_append, ofStack, keep, hcode]
    exact ih

/-- What stands before the items of a set line is a set line. -/
theorem SetLine.exists_head (h : SetLine o .code st)
    (htext : (lineOf .code st).text = left ++ '(' :: rest)
    (hopens : (scan .code (left ++ ['('])).getLast? = some (.code '(')) :
    ∃ head, SetLine o .code head ∧ (lineOf .code head).text = left ++ ['('] ∧
      modeAfterAll .code head.reverse = .code ∧ (Row.ofStack head).hasCode = true ∧
      st = (scan .code rest).reverse ++ head := by
  obtain ⟨hscan, hmode⟩ := scan_append_of_getLast? (r := '(' :: rest) hopens (Or.inl rfl)
  have hparen : scan .code ('(' :: rest) = .code '(' :: scan .code rest :=
    scan_cons_of_isPlain rfl .code _
  have hst : st.reverse = scan .code left ++ .code '(' :: scan .code rest := by
    rw [← h.settled.scan_text, ← hparen, ← hscan]
    exact congrArg (scan .code) htext
  have hst : st = (scan .code rest).reverse ++ .code '(' :: (scan .code left).reverse := by
    rw [← List.reverse_inj, hst]
    simp
  have hheadText :
      (lineOf .code (.code '(' :: (scan .code left).reverse)).text = left ++ ['('] := by
    rw [text_lineOf_cons, text_lineOf_scan, Lexeme.text]
  refine ⟨.code '(' :: (scan .code left).reverse, ?_, hheadText, ?_, ?_, hst⟩
  · have hset := h.settled
    rw [hst] at hset
    have hset : Settled o .code none (.code '(' :: (scan .code left).reverse) := by
      refine (Settled.of_scan hset).mono (fun l hl m' hreads => ?_) (fun _ => rfl)
        (by simp) (by simp)
      obtain rfl := Option.some.inj hl
      obtain rfl := hreads.mode_eq
      exact Lexeme.reads_char rfl .code _
    refine hset.setLine ?_ ?_
    · rw [hheadText, trim_eq_self_iff_forall, List.getLast?_concat]
      refine ⟨fun c hc => ?_, fun c hc => Option.some.inj hc ▸ rfl⟩
      refine (trim_eq_self_iff_forall.1 (h.trimmed (by decide))).1 c ?_
      rw [htext]
      cases left with
      | nil => exact hc
      | cons d left => exact hc
    · rw [hheadText]
      intro hmem
      refine h.feed ?_
      rw [htext]
      exact (List.append_sublist_append_left left).2 (List.singleton_sublist.2 List.mem_cons_self)
        |>.subset hmem
  · rw [modeAfterAll_reverse_cons, List.reverse_reverse]
    exact hmode
  · rw [Row.hasCode_ofStack]
    rfl

theorem Row.isFresh_paren {row : Row} {s : List Char} (hrow : row.text = s ++ ['(']) :
    row.isFresh = true :=
  isFresh_concat hrow (by decide)

/-- A closing bracket is the first lexeme of what it starts. -/
theorem scan_closer {c : Char} (hc : isCloser c = true) (t : List Char) :
    scan .code (c :: t) = .code c :: scan .code t :=
  scan_append_text (l := .code c) (Lexeme.reads_closer hc _)

/-- What is behind the items of a set line is a set line. -/
theorem SetLine.setLine_close {c : Char}
    (h : SetLine o .code ((scan .code (c :: rest)).reverse ++ below)) (hc : isCloser c = true)
    (hmode : modeAfterAll .code below.reverse = .code) :
    SetLine o .code (scan .code (c :: rest)).reverse := by
  have htext : (lineOf .code ((scan .code (c :: rest)).reverse ++ below)).text =
      (Row.ofStack below).text ++ c :: rest := by
    show (Row.ofStack _).text = _
    rw [Row.text_ofStack_append, Row.text_ofStack_scan]
  have htrim := h.trimmed (by decide)
  have hfeed := h.feed
  rw [htext] at hfeed
  rw [htext, trim_eq_self_iff_forall, List.getLast?_append_of_ne_nil _ (List.cons_ne_nil c rest)]
    at htrim
  have hset : Settled o .code none (scan .code (c :: rest)).reverse := by
    refine h.settled.of_append hmode fun l hl => ?_
    rw [List.getLast?_reverse, scan_closer hc] at hl
    obtain rfl := Option.some.inj hl
    refine ⟨?_, Or.inl hc⟩
    rintro heq
    rw [Lexeme.code.inj heq] at hc
    cases hc
  refine hset.setLine ?_ ?_
  · rw [text_lineOf_scan, trim_eq_self_iff_forall]
    refine ⟨fun d hd => ?_, htrim.2⟩
    obtain rfl := Option.some.inj hd
    exact not_isBlank_of_isCloser hc
  · rw [text_lineOf_scan]
    exact fun hmem => hfeed (List.mem_append_right _ hmem)

/-- No comma stands before a closing bracket of settled lexemes. -/
theorem Settled.last_ne_comma {c : Char} {s b : List Char}
    (h : Settled o .code none ((scan .code (c :: rest)).reverse ++ below)) (hc : isCloser c = true)
    (htrailing : o.trailingComma = false) (htext : (Row.ofStack below).text = s ++ b)
    (hb : ∀ c ∈ b, isBlank c = true) (hs : ∀ c ∈ s.getLast?, isBlank c = false) :
    s.getLast? ≠ some ',' := by
  rw [scan_closer hc, List.reverse_cons, List.append_assoc, List.singleton_append] at h
  have hkeeps := (Settled.of_scan h).2.1
  have hlast := Row.dropComma_eq_self_iff.1 ((hkeeps.closer hc).1 htrailing)
  have hreversed : (Row.ofStack below).reversed = b.reverse ++ s.reverse := by
    rw [← List.reverse_append, ← htext, Row.text, List.reverse_reverse]
  have hself : s.reverse.dropWhile isBlank = s.reverse :=
    trimStart_eq_self_iff.2 (by rwa [List.head?_reverse])
  rw [hreversed, List.dropWhile_append_of_pos fun d hd => hb d (List.mem_reverse.1 hd), hself,
    List.head?_reverse] at hlast
  exact hlast

/-- The parts of a set line can be set by themselves. -/
theorem SetLine.exists_parts (h : SetLine o .code st)
    (htext : (lineOf .code st).text = left ++ '(' :: (inside ++ close))
    (hclose : ∃ c t, close = c :: t ∧ isCloser c = true)
    (hopens : (scan .code (left ++ ['('])).getLast? = some (.code '('))
    (hitems : ∀ item ∈ splitTop ',' {} (trim inside), SteadyItem (trim item)) :
    ∃ head, PartsOf o st head inside close ∧ (lineOf .code head).text = left ++ ['('] := by
  obtain ⟨head, hhead, hheadText, hheadMode, hheadCode, hst⟩ := h.exists_head htext hopens
  have hclosers : (lineOf .code st).closers = (lineOf .code head).closers := by
    rw [hst]
    exact Row.closers_ofStack_append hheadCode _
  obtain ⟨c, t, rfl, hc⟩ := hclose
  obtain ⟨b, b', hb, hb', hinside⟩ := exists_eq_append_trim inside
  have hjoin := joinWith_splitTop ',' {} (trim inside)
  have hne : splitTop ',' {} (trim inside) ≠ [] := splitTop_ne_nil ',' {} (trim inside)
  have htrimmed : trim (trim inside) = trim inside := trim_trim inside
  have hfeed : '\n' ∉ trim inside := fun hmem => h.feed (by
    rw [htext, hinside]
    simp [hmem])
  -- The lexemes behind the parenthesis: blanks, the items, blanks, and what closes them.
  have hscan : scan .code (inside ++ c :: t) =
      b.map .code ++ scan .code (trim inside ++ (b' ++ c :: t)) := by
    conv => lhs; rw [hinside]
    rw [List.append_assoc, List.append_assoc, scan_append_of_blank hb]
  rw [hscan, List.reverse_append, List.append_assoc, ← hjoin] at hst
  have hr : ∃ q, (b' ++ c :: t).head? = some q ∧ isQuiet q = true :=
    exists_head?_append_blank hb' ⟨c, rfl, by simp [isQuiet, hc]⟩
  have hmode₀ := (modeAfterAll_append_blank .code b head).trans hheadMode
  have hfresh₀ := Row.isFresh_append_blank hb (Row.isFresh_paren hheadText)
  obtain ⟨hall, below, hbelow, hmode, hdelta, hbelowText⟩ := setLine_items hne hitems hr
    (hst ▸ h.settled) hmode₀ hfresh₀ (hjoin.symm ▸ hfeed)
  rw [hbelow, scan_append_of_blank hb', List.reverse_append, List.append_assoc] at hst
  have hmode₁ := (modeAfterAll_append_blank .code b' below).trans hmode
  have htext₁ : (Row.ofStack ((b'.map Lexeme.code).reverse ++ below)).text =
      (left ++ ['('] ++ b ++ trim inside) ++ b' := by
    rw [Row.text_ofStack_append, hbelowText, Row.text_ofStack_append, Row.text_ofStack_map_code,
      Row.text_ofStack_map_code, hjoin]
    exact congrArg (· ++ b ++ trim inside ++ b') hheadText
  subst hst
  refine ⟨head, ⟨hhead, hheadMode, hclosers, hall, fun htrailing hcomma => ?_,
    h.setLine_close hc hmode₁, ?_, ?_⟩, hheadText⟩
  · have hlast : (left ++ ['('] ++ b ++ trim inside).getLast? = (trim inside).getLast? :=
      List.getLast?_append_of_ne_nil _ fun hnil => by
        rw [hnil] at hcomma
        cases hcomma
    refine h.settled.last_ne_comma hc htrailing htext₁ hb' ?_ (hlast.trans hcomma)
    rw [hlast]
    exact (trim_eq_self_iff_forall.1 htrimmed).2
  · rw [List.reverse_append, List.reverse_reverse, modeAfterAll_append, hmode₁]
  · show (Row.ofStack _).delta = (Row.ofStack head).delta + (Row.ofStack _).delta
    rw [Row.delta_ofStack_append, Row.delta_ofStack_append, Row.delta_ofStack_blank hb', hdelta,
      Row.delta_ofStack_append, Row.delta_ofStack_blank hb, Int.zero_add, Int.zero_add,
      Int.add_comm]

end

end ReferencePages
