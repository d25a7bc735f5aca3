import ReferencePages.Proofs.Snippet.Indentation
import ReferencePages.Proofs.Snippet.Setting

/-!
# Set lines

A set line is made of settled lexemes, and nothing of it is trimmed (`SetLine`). A line that drops
its commas cleanly is set (`exists_setLine`), and a set line is set to itself, whatever its
indentation (`SetLine.spaceLine_eq`). It stays a set line without a comma at its end
(`SetLine.of_comma`) and with a semicolon behind it (`SetLine.exists_semicolon`).
-/

namespace ReferencePages

/-! ## The ends of a line -/

theorem mem_unescapeQuote {q c : Char} : ∀ {s : List Char}, c ∈ unescapeQuote q s → c ∈ s
  | [], h => by rwa [unescapeQuote_nil] at h
  | [d], h => by rwa [unescapeQuote_cons (by simp), unescapeQuote_nil] at h
  | d :: e :: s, h => by
    by_cases hescape : ['\\', q] <+: d :: e :: s
    · obtain ⟨rfl, hquote⟩ := List.cons_prefix_cons.1 hescape
      obtain rfl := (List.cons_prefix_cons.1 hquote).1
      rw [unescapeQuote_escaped] at h
      refine List.mem_cons_of_mem _ (List.mem_cons.2 ?_)
      exact (List.mem_cons.1 h).imp_right mem_unescapeQuote
    · rw [unescapeQuote_cons hescape] at h
      exact List.mem_cons.2 ((List.mem_cons.1 h).imp_right mem_unescapeQuote)

theorem requote_eq (o : FormatOptions) (s : List Char) :
    requote o s = s ∨
      requote o s = o.quote :: (unescapeQuote o.otherQuote s.tail.dropLast ++ [o.quote]) := by
  cases s with
  | nil => exact Or.inl rfl
  | cons q rest =>
    unfold requote
    dsimp only
    split
    · exact Or.inr rfl
    · exact Or.inl rfl

namespace Lexeme

variable {o : FormatOptions} {c : Char}

theorem head?_text_requoted (l : Lexeme) :
    (l.requoted o).text.head? = l.text.head? ∨ (l.requoted o).text.head? = some o.quote := by
  cases l with
  | literal s =>
    refine (requote_eq o s).imp (congrArg List.head?) fun h => ?_
    exact (congrArg List.head? h).trans rfl
  | _ => exact Or.inl rfl

theorem getLast?_text_requoted (l : Lexeme) :
    (l.requoted o).text.getLast? = l.text.getLast? ∨
      (l.requoted o).text.getLast? = some o.quote := by
  cases l with
  | literal s =>
    refine (requote_eq o s).imp (congrArg List.getLast?) fun h => ?_
    refine (congrArg List.getLast? h).trans ?_
    rw [← List.cons_append, List.getLast?_concat]
  | _ => exact Or.inl rfl

theorem mem_text_requoted {l : Lexeme} (h : c ∈ (l.requoted o).text) :
    c ∈ l.text ∨ c = o.quote := by
  cases l with
  | literal s =>
    rcases requote_eq o s with hs | hs
    · exact Or.inl (hs ▸ h)
    · have h : c ∈ requote o s := h
      rw [hs, List.mem_cons, List.mem_append, List.mem_singleton] at h
      rcases h with rfl | h | rfl
      · exact Or.inr rfl
      · exact Or.inl (List.mem_of_mem_tail (List.dropLast_subset _ (mem_unescapeQuote h)))
      · exact Or.inr rfl
  | _ => exact Or.inl h

end Lexeme

theorem isBlank_quote (o : FormatOptions) : isBlank o.quote = false := by
  rcases isQuote_quote o with h | h <;> rw [h] <;> rfl

section

variable {ls : List Lexeme} {m : Mode} {t : List Char} {l : Lexeme}

theorem head?_flatMap_text (h : ∀ l ∈ ls, l.text ≠ []) :
    (ls.flatMap Lexeme.text).head? = ls.head?.bind (·.text.head?) := by
  cases ls with
  | nil => rfl
  | cons l ls =>
    rw [List.flatMap_cons, List.head?_append_of_ne_nil _ (h l List.mem_cons_self)]
    rfl

theorem getLast?_flatMap_text (h : ∀ l ∈ ls, l.text ≠ []) :
    (ls.flatMap Lexeme.text).getLast? = ls.getLast?.bind (·.text.getLast?) := by
  rcases List.eq_nil_or_concat' ls with rfl | ⟨init, l, rfl⟩
  · rfl
  · rw [List.flatMap_append, List.flatMap_singleton,
      List.getLast?_append_of_ne_nil _ (h l (by simp)), List.getLast?_concat]
    rfl

/-- The lexemes of a text are read in some mode before some character. -/
theorem exists_reads_of_mem_scan (h : l ∈ scan m t) : ∃ m' next, l.Reads m' next := by
  fun_induction scan m t with
  | case1 => cases h
  | case2 m c s p ih =>
    rcases List.mem_cons.1 h with rfl | h
    · exact ⟨_, _, reads_nextLexeme m c s⟩
    · exact ih h

theorem text_ne_nil_of_mem_scan (h : l ∈ scan m t) : l.text ≠ [] := by
  obtain ⟨m', next, hreads⟩ := exists_reads_of_mem_scan h
  exact hreads.text_ne_nil

theorem getLast?_scan (m : Mode) (t : List Char) :
    (scan m t).getLast?.bind (·.text.getLast?) = t.getLast? := by
  rw [← getLast?_flatMap_text fun l hl => text_ne_nil_of_mem_scan hl, scan_flatten]

theorem isSolid_eq_true_iff : isSolid l = true ↔ ∀ c, l = .code c → isBlank c = false := by
  cases l with
  | code c => simp [isSolid, Lexeme.isSpacing]
  | _ => simp [isSolid, Lexeme.isSpacing]

/-- The first lexeme of a text is no blank of code unless the text starts with one. -/
theorem isSolid_head?_scan (ht : m = .code → ∀ c ∈ t.head?, isBlank c = false) :
    ∀ l ∈ (scan m t).head?, isSolid l = true := by
  intro l hl
  refine isSolid_eq_true_iff.2 ?_
  rintro c rfl
  cases t with
  | nil => rw [scan] at hl; cases hl
  | cons d s =>
    rw [scan] at hl
    have hfst : (nextLexeme m d s).1 = .code c := Option.some.inj hl
    have hmode : m = .code := (hfst ▸ reads_nextLexeme m d s).mode_eq
    have hhead := nextLexeme_fst_text_head? m d s
    rw [hfst] at hhead
    obtain rfl : c = d := Option.some.inj hhead
    exact ht hmode c rfl

/-- The last lexeme of a text is no blank of code unless the text ends with one. -/
theorem isSolid_getLast?_scan (ht : ∀ c ∈ t.getLast?, isBlank c = false) :
    ∀ l ∈ (scan m t).getLast?, isSolid l = true := by
  intro l hl
  refine isSolid_eq_true_iff.2 ?_
  rintro c rfl
  refine ht c ?_
  rw [← getLast?_scan m t, hl]
  rfl

end

/-! ## Set lines -/

/-- The line of some lexemes, the last one first. -/
def lineOf (m : Mode) (st : List Lexeme) : SnippetLine where
  text := (Row.ofStack st).text
  opensIn := m
  closers := (Row.ofStack st).closers
  delta := (Row.ofStack st).delta

/-- Lexemes, the last one first, that are a whole line. -/
structure SetLine (o : FormatOptions) (m : Mode) (st : List Lexeme) : Prop where
  settled : Settled o m none st
  trimmed : m ≠ .template → trim (lineOf m st).text = (lineOf m st).text
  feed : '\n' ∉ (lineOf m st).text
  carriage : (lineOf m st).text.getLast? ≠ some '\r'

/-- A line that can be set for good. -/
structure SteadyLine (o : FormatOptions) (m : Mode) (line : List Char) : Prop where
  commas : o.trailingComma = false → dropsCleanly [] (scan m (scannedText m line)) = true
  arrows : (scan m (scannedText m line)).IsChain IsApart
  carriage : m = .template → line.getLast? ≠ some '\r'

instance (o : FormatOptions) (m : Mode) (line : List Char) : Decidable (SteadyLine o m line) :=
  decidable_of_iff
    ((o.trailingComma = false → dropsCleanly [] (scan m (scannedText m line)) = true) ∧
      (scan m (scannedText m line)).IsChain IsApart ∧
      (m = .template → line.getLast? ≠ some '\r'))
    ⟨fun ⟨h₁, h₂, h₃⟩ => ⟨h₁, h₂, h₃⟩, fun ⟨h₁, h₂, h₃⟩ => ⟨h₁, h₂, h₃⟩⟩

section

variable {o : FormatOptions} {m : Mode} {st : List Lexeme} {line : List Char}

theorem setLine_nil (o : FormatOptions) (m : Mode) : SetLine o m [] :=
  ⟨trivial, fun _ => rfl, List.not_mem_nil, fun h => nomatch h⟩

theorem Settled.text_ne_nil {next : Option Char} (h : Settled o m next st) :
    ∀ l ∈ st, l.text ≠ [] := by
  induction st generalizing next with
  | nil => exact fun l hl => nomatch hl
  | cons k st ih => exact List.forall_mem_cons.2 ⟨h.1.text_ne_nil, ih h.2.2⟩

theorem Settled.head?_text {next : Option Char} (h : Settled o m next st) :
    (Row.ofStack st).text.head? = st.getLast?.bind (·.text.head?) := by
  rw [Row.text_ofStack, head?_flatMap_text fun l hl => h.text_ne_nil l (List.mem_reverse.1 hl),
    List.head?_reverse]

theorem Settled.getLast?_text {next : Option Char} (h : Settled o m next st) :
    (Row.ofStack st).text.getLast? = st.head?.bind (·.text.getLast?) := by
  rw [Row.text_ofStack, getLast?_flatMap_text fun l hl => h.text_ne_nil l (List.mem_reverse.1 hl),
    List.getLast?_reverse]

theorem trim_scannedText (hm : m ≠ .template) (line : List Char) :
    trim (scannedText m line) = scannedText m line := by
  rw [scannedText, if_neg hm, trim_trim]

theorem scannedText_subset (m : Mode) (line : List Char) : scannedText m line ⊆ line := by
  rw [scannedText]
  split
  · exact List.Subset.refl _
  · exact trim_subset line

theorem SetBefore.trimmed {t : List Char} {row : Row}
    (h : SetBefore o m (scan m t).reverse none row st) (ht : trim t = t) :
    trim (Row.ofStack st).text = (Row.ofStack st).text := by
  obtain ⟨hhead, hlast⟩ := trim_eq_self_iff_forall.1 ht
  refine trim_eq_self_iff_forall.2 ⟨fun c hc => ?_, fun c hc => ?_⟩
  · rw [h.settled.head?_text, h.follows.first, List.getLast?_reverse] at hc
    rw [← head?_scan m t] at hhead
    cases hfirst : (scan m t).head? with
    | none =>
      rw [hfirst] at hc
      cases hc
    | some l =>
      rw [hfirst] at hc hhead
      rcases l.head?_text_requoted (o := o) with hl | hl
      · exact hhead c (hl.symm.trans hc)
      · obtain rfl : o.quote = c := Option.some.inj (hl.symm.trans hc)
        exact isBlank_quote o
  · have hsolid := isSolid_getLast?_scan (m := m) hlast
    rw [← List.head?_reverse] at hsolid
    rw [h.settled.getLast?_text, h.last rfl hsolid, List.head?_reverse] at hc
    rw [← getLast?_scan m t] at hlast
    cases hfirst : (scan m t).getLast? with
    | none =>
      rw [hfirst] at hc
      cases hc
    | some l =>
      rw [hfirst] at hc hlast
      rcases l.getLast?_text_requoted (o := o) with hl | hl
      · exact hlast c (hl.symm.trans hc)
      · obtain rfl : o.quote = c := Option.some.inj (hl.symm.trans hc)
        exact isBlank_quote o

/-- What is set has no characters but those of the line, spaces and quotes. -/
theorem mem_text_of_requoted {t : List Char} {c : Char}
    (h : ∀ l ∈ st, l = .code ' ' ∨ ∃ l' ∈ (scan m t).reverse, l = l'.requoted o)
    (hc : c ∈ (Row.ofStack st).text) : c ∈ t ∨ c = ' ' ∨ c = o.quote := by
  rw [Row.text_ofStack] at hc
  obtain ⟨l, hl, hc⟩ := List.mem_flatMap.1 hc
  rcases h l (List.mem_reverse.1 hl) with rfl | ⟨l', hl', rfl⟩
  · exact Or.inr (Or.inl (List.mem_singleton.1 hc))
  · refine (Lexeme.mem_text_requoted hc).imp (fun hc => ?_) Or.inr
    rw [← scan_flatten m t]
    exact List.mem_flatMap.2 ⟨l', List.mem_reverse.1 hl', hc⟩

theorem SetBefore.getLast?_ne {t : List Char} {row : Row} {c : Char}
    (h : SetBefore o m (scan m t).reverse none row st) (ht : t.getLast? ≠ some c) (hc : c ≠ ' ')
    (hquote : c ≠ o.quote) : (Row.ofStack st).text.getLast? ≠ some c := by
  rw [h.settled.getLast?_text]
  rcases h.follows.last with hlast | hlast
  · rw [← getLast?_scan m t] at ht
    rw [hlast, List.head?_reverse]
    cases hl : (scan m t).getLast? with
    | none => exact fun h => nomatch h
    | some l =>
      rw [hl] at ht
      rcases l.getLast?_text_requoted (o := o) with hsame | hsame
      · exact fun heq => ht (hsame.symm.trans heq)
      · exact fun heq => hquote (Option.some.inj (heq.symm.trans hsame))
  · rw [hlast]
    exact fun heq => hc (Option.some.inj heq).symm

/-- A steady line is set. -/
theorem SteadyLine.exists_setLine (h : SteadyLine o m line) (hfeed : '\n' ∉ line) :
    ∃ st, SetLine o m st ∧ spaceLine o m line = lineOf m st ∧
      modeAfterAll m (scan m (scannedText m line)) = modeAfterAll m st.reverse := by
  have hfirst : ∀ l ∈ (scan m (scannedText m line)).head?, isSolid l = true := by
    refine isSolid_head?_scan fun hm => ?_
    exact (trim_eq_self_iff_forall.1 (trim_scannedText (by simp [hm]) line)).1
  obtain ⟨st, hst⟩ := exists_settled_placeAll o m (scannedText m line) hfirst h.commas h.arrows
  have htrimmed : m ≠ .template → trim (Row.ofStack st).text = (Row.ofStack st).text :=
    fun hm => hst.trimmed (trim_scannedText hm line)
  have hquote {c : Char} (hc : isBlank c = true) : c ≠ o.quote := by
    rintro rfl
    rw [isBlank_quote] at hc
    cases hc
  refine ⟨st, ⟨hst.settled, htrimmed, fun hmem => ?_, ?_⟩, ?_, ?_⟩
  · rcases mem_text_of_requoted hst.follows.mem hmem with hmem | hmem | hmem
    · exact hfeed (scannedText_subset m line hmem)
    · exact absurd hmem (by decide)
    · exact hquote rfl hmem
  · by_cases hm : m = .template
    · refine hst.getLast?_ne ?_ (by decide) (hquote rfl)
      rw [scannedText, if_pos hm]
      exact h.carriage hm
    · intro hlast
      have hblank := (trim_eq_self_iff_forall.1 (htrimmed hm)).2 _ hlast
      exact absurd hblank (by decide)
  · have htext : (if m = .template then (Row.ofStack st).text else trimEnd (Row.ofStack st).text) =
        (Row.ofStack st).text := by
      split
      · rfl
      · next hm => exact (trim_eq_self_iff.1 (htrimmed hm)).2
    rw [spaceLine, hst.row]
    exact congrArg (fun text => SnippetLine.mk text m _ _) htext
  · rw [hst.follows.mode, List.reverse_reverse]

/-- A set line is set to itself. -/
theorem SetLine.spaceLine_eq (h : SetLine o m st)
    (hline : scannedText m line = (lineOf m st).text) : spaceLine o m line = lineOf m st := by
  have hrow : ({} : Row).placeAll o (scan m (scannedText m line)) = Row.ofStack st := by
    rw [hline]
    show ({} : Row).placeAll o (scan m (Row.ofStack st).text) = _
    rw [h.settled.scan_text, h.settled.placeAll_reverse]
  have htext : (if m = .template then (Row.ofStack st).text else trimEnd (Row.ofStack st).text) =
      (Row.ofStack st).text := by
    split
    · rfl
    · next hm => exact (trim_eq_self_iff.1 (h.trimmed hm)).2
  rw [spaceLine, hrow]
  exact congrArg (fun text => SnippetLine.mk text m _ _) htext

theorem SetLine.modeAfterAll_scan (h : SetLine o m st)
    (hline : scannedText m line = (lineOf m st).text) :
    modeAfterAll m (scan m (scannedText m line)) = modeAfterAll m st.reverse := by
  rw [hline]
  show modeAfterAll m (scan m (Row.ofStack st).text) = _
  rw [h.settled.scan_text]

end

/-! ## Indentation -/

section

variable {o : FormatOptions} {m : Mode} {st : List Lexeme}

/-- An indented line is scanned without its indentation. -/
theorem SetLine.scannedText_indentLine (h : SetLine o m st) (depth : Int) :
    scannedText m (indentLine o depth (lineOf m st)) = (lineOf m st).text := by
  unfold scannedText
  split
  · next hm =>
    obtain ⟨pre, -, hline, hpre⟩ := exists_indentLine o depth (lineOf m st)
    rw [hline, hpre hm, List.nil_append]
  · next hm => rw [trim_indentLine, h.trimmed hm]

theorem indentLine_nil (o : FormatOptions) (m : Mode) (depth : Int) :
    indentLine o depth (lineOf m []) = [] := by
  cases m <;> rfl

/-- What is put behind a line does not change its indentation. -/
theorem indentLine_append {line line' : SnippetLine} {t : List Char} (depth : Int)
    (hne : line.text ≠ []) (hmode : line'.opensIn = line.opensIn)
    (hclosers : line'.closers = line.closers) (htext : line'.text = line.text ++ t) :
    indentLine o depth line' = indentLine o depth line ++ t := by
  have hempty : line.text.isEmpty = false := by simpa using hne
  have hempty' : line'.text.isEmpty = false := by simp [htext, hne]
  have hhead : line'.text.head? = line.text.head? := by
    rw [htext, List.head?_append_of_ne_nil _ hne]
  unfold indentLine
  rw [hmode, hempty, hempty', hclosers, hhead, htext]
  cases line.opensIn with
  | template => rfl
  | comment => simp only [Bool.false_eq_true, if_false, List.append_assoc]
  | code => simp only [Bool.false_eq_true, if_false, List.append_assoc]

theorem SetLine.feed_indentLine (h : SetLine o m st) (depth : Int) :
    '\n' ∉ indentLine o depth (lineOf m st) := by
  obtain ⟨pre, hpre, hline, -⟩ := exists_indentLine o depth (lineOf m st)
  rw [hline, List.mem_append, not_or]
  exact ⟨fun hmem => absurd (hpre _ hmem) (by decide), h.feed⟩

theorem SetLine.carriage_indentLine (h : SetLine o m st) (depth : Int) :
    (indentLine o depth (lineOf m st)).getLast? ≠ some '\r' := by
  obtain ⟨pre, hpre, hline, -⟩ := exists_indentLine o depth (lineOf m st)
  rw [hline]
  by_cases hnil : (lineOf m st).text = []
  · rw [hnil, List.append_nil]
    exact fun hlast => absurd (hpre _ (List.mem_of_getLast? hlast)) (by decide)
  · rw [List.getLast?_append_of_ne_nil _ hnil]
    exact h.carriage

/-! ## Blank lines -/

/-- A blank line changes neither the mode nor the depth of brackets. -/
theorem SetLine.of_blank (h : SetLine o m st) (hblank : trim (lineOf m st).text = []) :
    modeAfterAll m st.reverse = m ∧ (lineOf m st).delta = 0 := by
  by_cases hm : m = .template
  · subst hm
    have hall : ∀ l ∈ st, ∀ c ∈ l.text, isBlank c = true := by
      intro l hl c hc
      refine trim_eq_nil_iff.1 hblank c ?_
      show c ∈ (Row.ofStack st).text
      rw [Row.text_ofStack]
      exact List.mem_flatMap.2 ⟨l, List.mem_reverse.2 hl, hc⟩
    have hset := h.settled
    show _ ∧ (Row.ofStack st).delta = 0
    clear h hblank
    generalize (none : Option Char) = next at hset
    induction st generalizing next with
    | nil => exact ⟨rfl, rfl⟩
    | cons l st ih =>
      obtain ⟨hl, hst⟩ := List.forall_mem_cons.1 hall
      obtain ⟨hmode, hdelta⟩ := ih hst _ hset.2.2
      have hreads := hset.1
      rw [hmode] at hreads
      rw [modeAfterAll_reverse_cons, hmode]
      cases l with
      | templateChar c => exact ⟨rfl, (Int.add_zero _).trans hdelta⟩
      | templateEscape c => exact absurd (hl '\\' List.mem_cons_self) (by decide)
      | closeTemplate => exact absurd (hl '`' List.mem_cons_self) (by decide)
      | code c => exact nomatch hreads.1
      | literal s => exact nomatch hreads.1
      | lineComment s => exact nomatch hreads.1
      | commentChar c => exact nomatch hreads.1
      | arrow => exact nomatch (show Mode.template = .code from hreads)
      | openComment => exact nomatch (show Mode.template = .code from hreads)
      | closeComment => exact nomatch (show Mode.template = .comment from hreads)
      | openTemplate => exact nomatch (show Mode.template = .code from hreads)
  · have hnil : (Row.ofStack st).text = [] := (h.trimmed hm).symm.trans hblank
    rw [Row.text_ofStack, List.flatMap_eq_nil_iff] at hnil
    obtain rfl : st = [] := List.eq_nil_iff_forall_not_mem.2 fun l hl =>
      h.settled.text_ne_nil l hl (hnil l (List.mem_reverse.2 hl))
    exact ⟨rfl, rfl⟩

/-! ## The end of a set line -/

theorem Row.text_ofStack_cons (l : Lexeme) (st : List Lexeme) :
    (Row.ofStack (l :: st)).text = (Row.ofStack st).text ++ l.text := by
  rw [Row.text_ofStack, Row.text_ofStack, List.reverse_cons, List.flatMap_append,
    List.flatMap_singleton]

theorem text_lineOf_cons (m : Mode) (l : Lexeme) (st : List Lexeme) :
    (lineOf m (l :: st)).text = (lineOf m st).text ++ l.text :=
  Row.text_ofStack_cons l st

/-- A set line without the comma at its end. -/
theorem SetLine.of_comma (h : SetLine o m (.code ',' :: st))
    (hlast : ∀ c ∈ (lineOf m st).text.getLast?, isBlank c = false) : SetLine o m st where
  settled := h.settled.2.2.of_quiet rfl (fun _ => rfl) fun _ => by decide
  trimmed hm := by
    refine trim_eq_self_iff_forall.2 ⟨fun c hc => ?_, hlast⟩
    have htrimmed := (trim_eq_self_iff_forall.1 (h.trimmed hm)).1
    refine htrimmed c ?_
    have hne := List.ne_nil_of_mem (List.mem_of_head? hc)
    rwa [text_lineOf_cons, List.head?_append_of_ne_nil _ hne]
  feed hmem := by
    refine h.feed ?_
    rw [text_lineOf_cons]
    exact List.mem_append_left _ hmem
  carriage heq := absurd (hlast _ heq) (by decide)

variable {l : Lexeme}

/-- A semicolon is set behind lexemes whose last one is read there too. -/
theorem Settled.exists_cons_semicolon (h : Settled o m none (l :: st))
    (hreads : ∀ m', l.Reads m' none → l.Reads m' (some ';')) (hbrace : l ≠ .code '\x7b') :
    ∃ k, Settled o m none (k :: l :: st) ∧ k.text = [';'] ∧ k.closes = false := by
  have hset : Settled o m (some ';') (l :: st) := by
    refine h.mono (fun k hk m' => ?_) (fun _ => rfl) (fun hk => ?_) fun _ heq => nomatch heq
    · obtain rfl := Option.some.inj hk
      exact hreads m'
    · exact absurd (Option.some.inj hk) hbrace
  cases hmode : modeAfterAll m (l :: st).reverse with
  | code =>
    refine ⟨.code ';', ⟨?_, ?_, hset⟩, rfl, rfl⟩
    · exact ⟨hmode, by decide, by simp [IsQuote], fun h => absurd h (by decide),
        fun h => absurd h (by decide)⟩
    · exact Row.keeps_code (by decide) rfl (fun h => absurd h (by decide))
        (fun h => absurd h (by decide)) fun _ => rfl
  | comment =>
    refine ⟨.commentChar ';', ⟨⟨hmode, fun h => absurd h (by decide)⟩, ?_, hset⟩, rfl, rfl⟩
    constructor <;> simp [Lexeme.closes]
  | template =>
    refine ⟨.templateChar ';', ⟨⟨hmode, by decide, fun h => absurd h (by decide)⟩, ?_, hset⟩, rfl,
      rfl⟩
    constructor <;> simp [Lexeme.closes]

/-- A semicolon is set behind lexemes as their last one, or as a part of it. -/
theorem Settled.exists_semicolon (h : Settled o m none st) (hne : st ≠ [])
    (hslashes : contains ['/', '/'] (Row.ofStack st).text = false)
    (hbrace : (Row.ofStack st).text.getLast? ≠ some '\x7b') :
    ∃ st', Settled o m none st' ∧ (Row.ofStack st').text = (Row.ofStack st).text ++ [';'] ∧
      (Row.ofStack st').closers = (Row.ofStack st).closers := by
  obtain ⟨l, st, rfl⟩ := List.exists_cons_of_ne_nil hne
  -- The semicolon becomes a lexeme where the last one is read before it too.
  have hcons (hreads : ∀ m', l.Reads m' none → l.Reads m' (some ';')) :
      ∃ st', Settled o m none st' ∧
        (Row.ofStack st').text = (Row.ofStack (l :: st)).text ++ [';'] ∧
        (Row.ofStack st').closers = (Row.ofStack (l :: st)).closers := by
    have hne : l ≠ .code '\x7b' := by
      rintro rfl
      rw [Row.text_ofStack_cons] at hbrace
      exact hbrace List.getLast?_concat
    obtain ⟨k, hk, htext, hcloses⟩ := h.exists_cons_semicolon hreads hne
    refine ⟨_, hk, by rw [Row.text_ofStack_cons k, htext], ?_⟩
    rw [Row.ofStack, Row.keep, hcloses, Bool.and_false]
    rfl
  cases l with
  | literal s =>
    obtain ⟨hmode, q, a, closed, rfl, hq, hrest, -⟩ := h.1
    cases closed with
    | true =>
      refine hcons fun m' hl => ?_
      exact ⟨hl.1, q, a, true, rfl, hq, hrest, by simp⟩
    | false =>
      have hsemicolon : ';' ≠ q := by
        rcases hq with rfl | rfl <;> decide
      have hrequote : requote o (q :: (a ++ [';'])) = q :: (a ++ [';']) := by
        refine if_neg fun hchange => ?_
        rw [List.getLast?_concat] at hchange
        have hquote := isQuote_otherQuote o
        rw [← Option.some.inj hchange.2.1] at hquote
        exact absurd hquote (by simp [IsQuote])
      refine ⟨.literal (q :: (a ++ [';'])) :: st, ⟨?_, ?_, h.2.2⟩, ?_, rfl⟩
      · exact ⟨hmode, q, _, false, rfl, hq, hrest.concat hsemicolon, fun _ => rfl⟩
      · constructor <;> simp [Lexeme.closes, hrequote]
      · rw [Row.text_ofStack_cons, Row.text_ofStack_cons, List.append_assoc]
        rfl
  | lineComment s =>
    obtain ⟨-, -, t, rfl⟩ := h.1
    refine absurd ?_ (contains_eq_false_iff.1 hslashes)
    rw [Row.text_ofStack_cons]
    exact ⟨(Row.ofStack st).text, t, List.append_assoc _ _ _⟩
  | templateChar c =>
    by_cases hc : c = '\\'
    · subst hc
      refine ⟨.templateEscape ';' :: st, ⟨h.1.1, ?_, h.2.2⟩, ?_, rfl⟩
      · constructor <;> simp [Lexeme.closes]
      · rw [Row.text_ofStack_cons, Row.text_ofStack_cons, List.append_assoc]
        rfl
    · exact hcons fun m' hl => ⟨hl.1, hl.2.1, fun hback => absurd hback hc⟩
  | code c =>
    refine hcons fun m' hl => ⟨hl.1, hl.2.1, hl.2.2.1, fun _ => ⟨by decide, by decide⟩, fun _ => ?_⟩
    decide
  | commentChar c => exact hcons fun m' hl => ⟨hl.1, fun _ => by decide⟩
  | _ => exact hcons fun _ hl => hl

/-- A set line with a semicolon behind it. -/
theorem SetLine.exists_semicolon (h : SetLine o m st) (hne : (lineOf m st).text ≠ [])
    (hslashes : contains ['/', '/'] (lineOf m st).text = false)
    (hbrace : (lineOf m st).text.getLast? ≠ some '\x7b') :
    ∃ st', SetLine o m st' ∧ (lineOf m st').text = (lineOf m st).text ++ [';'] ∧
      (lineOf m st').closers = (lineOf m st).closers := by
  have hst : st ≠ [] := by
    rintro rfl
    exact hne rfl
  obtain ⟨st', hset, htext, hclosers⟩ := h.settled.exists_semicolon hst hslashes hbrace
  have htext' : (lineOf m st').text = (lineOf m st).text ++ [';'] := htext
  refine ⟨st', ⟨hset, fun hm => ?_, ?_, ?_⟩, htext, hclosers⟩
  · rw [htext', trim_eq_self_iff_forall, List.head?_append_of_ne_nil _ hne,
      List.getLast?_concat]
    refine ⟨(trim_eq_self_iff_forall.1 (h.trimmed hm)).1, fun c hc => ?_⟩
    obtain rfl := Option.some.inj hc
    rfl
  · rw [htext', List.mem_append, List.mem_singleton]
    exact not_or.2 ⟨h.feed, by decide⟩
  · rw [htext', List.getLast?_concat]
    decide

end

end ReferencePages
