import ReferencePages.Proofs.Snippet.Following

/-!
# Closing brackets

A closing bracket takes back the comma before it, with the blanks around that. It is set behind
settled lexemes again if the comma stands behind code, and what is left is what a closing bracket
is set behind (`closesCleanly`, `Follows.exists_close`).
-/

namespace ReferencePages

/-! ## Commas that can be dropped -/

/-- Whether a comma before the closing bracket `l` can be dropped behind the lexemes `kept`, the
last one first. -/
def leavesCode (kept : List Lexeme) (l : Lexeme) : Bool :=
  kept.any (·.setsCode) && kept.head? != some (.code ',') &&
    (kept.head? != some (.code '\x7b') || l == .code '\x7d')

/-- Whether the closing bracket `l` can be set behind the lexemes `before`. These are without
blanks, and the last one comes first. -/
def closesCleanly (l : Lexeme) (before : List Lexeme) : Bool :=
  match before with
  | .code ',' :: kept => leavesCode kept l
  | _ => true

section

variable {o : FormatOptions} {m : Mode} {src st : List Lexeme} {l : Lexeme} {n : Char}
  {next : Option Char}

/-! ## Blanks that are taken back -/

theorem not_isBlank_of_isCloser {c : Char} (h : isCloser c = true) : isBlank c = false := by
  rcases isCloser_iff.1 h with rfl | rfl | rfl <;> rfl

theorem Lexeme.closes_of_isSpacing (h : l.isSpacing = true) : l.closes = false := by
  cases l with
  | code c =>
    refine Bool.eq_false_iff.2 fun hc => ?_
    rw [isSpacing, not_isBlank_of_isCloser hc] at h
    cases h
  | _ => rfl

theorem Lexeme.delta_of_isSpacing (h : l.isSpacing = true) : l.delta = 0 := by
  cases l with
  | code c =>
    have hopen : ¬(c = '\x7b' ∨ c = '(' ∨ c = '[') := by
      rintro (rfl | rfl | rfl) <;> cases h
    have hclose : isCloser c = false := closes_of_isSpacing h
    simp [delta, hopen, hclose]
  | _ => rfl

/-- Taking blanks back changes nothing but the text of a row and whether it has code. -/
theorem Row.ofStack_dropWhile (st : List Lexeme) :
    (ofStack (st.dropWhile (·.isSpacing))).closers = (ofStack st).closers ∧
      (ofStack (st.dropWhile (·.isSpacing))).delta = (ofStack st).delta := by
  induction st with
  | nil => exact ⟨rfl, rfl⟩
  | cons l st ih =>
    by_cases hl : l.isSpacing = true
    · rw [List.dropWhile_cons_of_pos hl]
      simpa [ofStack, keep, Lexeme.closes_of_isSpacing hl, Lexeme.delta_of_isSpacing hl] using ih
    · rw [List.dropWhile_cons_of_neg hl]
      exact ⟨rfl, rfl⟩

/-- The blanks at the end of lexemes that are read back are blanks of code. -/
theorem ReadBack.dropWhile_reversed (h : ReadBack m (some n) st)
    (hmode : modeAfterAll m st.reverse = .code) :
    (Row.ofStack st).reversed.dropWhile isBlank =
      (Row.ofStack (st.dropWhile (·.isSpacing))).reversed := by
  induction st generalizing n with
  | nil => rfl
  | cons l st ih =>
    have hl := h.1
    have hrow : (Row.ofStack (l :: st)).reversed = l.text.reverse ++ (Row.ofStack st).reversed :=
      rfl
    rw [modeAfterAll_reverse_cons] at hmode
    rcases hl.exists_reverse hmode with ⟨c, rfl⟩ | ⟨c, s, hs, hc, -⟩
    · by_cases hc : isBlank c = true
      · have hdrop : (Lexeme.code c).isSpacing = true := hc
        rw [List.dropWhile_cons_of_pos hdrop, ← ih h.2 hl.1]
        exact List.dropWhile_cons_of_pos hc
      · have hdrop : ¬(Lexeme.code c).isSpacing = true := hc
        rw [List.dropWhile_cons_of_neg hdrop]
        exact List.dropWhile_cons_of_neg hc
    · have hdrop : ¬l.isSpacing = true := by
        intro hspacing
        cases l with
        | code d =>
          obtain ⟨rfl, -⟩ := List.cons.inj hs
          rw [Lexeme.isSpacing, hc] at hspacing
          cases hspacing
        | _ => cases hspacing
      have hc' : ¬isBlank c = true := by simp [hc]
      rw [List.dropWhile_cons_of_neg hdrop, hrow, hs]
      exact List.dropWhile_cons_of_neg hc'

/-- Settled lexemes are settled still when blanks at their end are taken back. -/
theorem Settled.exists_dropWhile (h : Settled o m (some n) st)
    (hmode : modeAfterAll m st.reverse = .code) :
    ∃ n', Settled o m (some n') (st.dropWhile (·.isSpacing)) ∧
      modeAfterAll m (st.dropWhile (·.isSpacing)).reverse = .code ∧
      (n' = n ∨ isBlank n' = true) := by
  induction st generalizing n with
  | nil => exact ⟨n, h, hmode, Or.inl rfl⟩
  | cons l st ih =>
    by_cases hl : l.isSpacing = true
    · rw [List.dropWhile_cons_of_pos hl]
      cases l with
      | code c =>
        obtain ⟨n', hset, hmode', hn'⟩ := ih h.2.2 h.1.1
        refine ⟨n', hset, hmode', Or.inr (hn'.elim (fun hn => ?_) id)⟩
        rw [hn]
        exact hl
      | _ => cases hl
    · rw [List.dropWhile_cons_of_neg hl]
      exact ⟨n, h, hmode, Or.inl rfl⟩

/-- The text of a settled lexeme other than a comma does not end with one. -/
theorem Settled.dropComma_eq (h : Settled o m (some n) st)
    (hmode : modeAfterAll m st.reverse = .code)
    (hcomma : (st.dropWhile (·.isSpacing)).head? ≠ some (.code ',')) :
    (Row.ofStack st).dropComma = Row.ofStack st := by
  rw [Row.dropComma, h.readBack.dropWhile_reversed hmode]
  obtain ⟨n', hset, hmode', -⟩ := h.exists_dropWhile hmode
  split
  · next rest hrest =>
    cases hst : st.dropWhile (·.isSpacing) with
    | nil =>
      rw [hst] at hrest
      cases hrest
    | cons l st' =>
      rw [hst] at hset hmode' hcomma hrest
      rw [modeAfterAll_reverse_cons] at hmode'
      rcases hset.1.exists_reverse hmode' with ⟨c, rfl⟩ | ⟨c, s, hs, -, hc⟩
      · obtain ⟨rfl, -⟩ := List.cons.inj hrest
        exact absurd rfl hcomma
      · rw [Row.ofStack, Row.keep, hs] at hrest
        exact absurd (List.cons.inj hrest).1 hc
  · rfl

/-- A comma is dropped together with the blanks around it. -/
theorem Settled.dropComma_comma (h : Settled o m (some n) st)
    (hmode : modeAfterAll m st.reverse = .code) {kept : List Lexeme}
    (hcomma : st.dropWhile (·.isSpacing) = .code ',' :: kept)
    (hcode : (kept.dropWhile (·.isSpacing)).any (·.setsCode) = true) :
    (Row.ofStack st).dropComma = Row.ofStack (kept.dropWhile (·.isSpacing)) := by
  obtain ⟨n', hset, hmode', -⟩ := h.exists_dropWhile hmode
  obtain ⟨hclosers, hdelta⟩ := Row.ofStack_dropWhile st
  obtain ⟨hclosers', hdelta'⟩ := Row.ofStack_dropWhile kept
  rw [hcomma] at hset hmode' hclosers hdelta
  have hrow : (Row.ofStack (.code ',' :: kept)).reversed = ',' :: (Row.ofStack kept).reversed := rfl
  have hhas : (Row.ofStack st).hasCode = true := by
    have hmem : .code ',' ∈ st :=
      (List.dropWhile_suffix (·.isSpacing)).subset (hcomma ▸ List.mem_cons_self)
    rw [Row.hasCode_ofStack, List.any_eq_true]
    exact ⟨_, hmem, rfl⟩
  rw [Row.dropComma, h.readBack.dropWhile_reversed hmode, hcomma, hrow]
  show Row.mk ((Row.ofStack kept).reversed.dropWhile isBlank) (Row.ofStack st).closers
    (Row.ofStack st).delta (Row.ofStack st).hasCode = _
  rw [hset.2.2.readBack.dropWhile_reversed hset.1.1]
  have hcomma' : (Row.ofStack (.code ',' :: kept)).closers = (Row.ofStack kept).closers ∧
      (Row.ofStack (.code ',' :: kept)).delta = (Row.ofStack kept).delta := by
    simp [Row.ofStack, Row.keep, Lexeme.closes, isCloser, Lexeme.delta]
  have hall : (Row.ofStack (kept.dropWhile (·.isSpacing))).hasCode = true := by
    rwa [Row.hasCode_ofStack]
  rw [← hclosers, ← hdelta, hcomma'.1, hcomma'.2, ← hclosers', ← hdelta', hhas, ← hall]

theorem filter_isSolid_dropWhile (st : List Lexeme) :
    (st.dropWhile (·.isSpacing)).filter isSolid = st.filter isSolid := by
  induction st with
  | nil => rfl
  | cons l st ih =>
    by_cases hl : l.isSpacing = true
    · rw [List.dropWhile_cons_of_pos hl, ih, List.filter_cons_of_neg (by simp [isSolid, hl])]
    · rw [List.dropWhile_cons_of_neg hl]

theorem head?_dropWhile_isSpacing (st : List Lexeme) :
    (st.dropWhile (·.isSpacing)).head? = (st.filter isSolid).head? := by
  induction st with
  | nil => rfl
  | cons l st ih =>
    by_cases hl : l.isSpacing = true
    · rw [List.dropWhile_cons_of_pos hl, ih, List.filter_cons_of_neg (by simp [isSolid, hl])]
    · rw [List.dropWhile_cons_of_neg hl, List.filter_cons_of_pos (by simp [isSolid, hl])]
      rfl

/-! ## What a closing bracket is set behind -/

/-- What a closing bracket is set behind: the settled lexemes, without a comma at their end. -/
structure CloseBase (o : FormatOptions) (m : Mode) (src st : List Lexeme) (c : Char)
    (base : List Lexeme) : Prop where
  row : (if o.trailingComma then Row.ofStack st else (Row.ofStack st).dropComma) = Row.ofStack base
  settled : Settled o m (some c) base
  mode : modeAfterAll m base.reverse = .code
  comma : o.trailingComma = false → (base.filter isSolid).head? ≠ some (.code ',')
  first : base.getLast? = st.getLast?
  mem : base ⊆ st
  mirrors : Mirrors o (.code c :: src.filter isSolid) (.code c :: base.filter isSolid)

/-- What has been set before a comma mirrors what the line has before it. -/
theorem Follows.exists_beforeComma (hf : Follows o m src st) {kept : List Lexeme}
    (hst : st.dropWhile (·.isSpacing) = .code ',' :: kept) :
    ∃ before, src.filter isSolid = .code ',' :: before ∧
      Mirrors o before (kept.filter isSolid) := by
  have hfilter : st.filter isSolid = .code ',' :: kept.filter isSolid := by
    rw [← filter_isSolid_dropWhile, hst]
    rfl
  have hmirrors := hf.mirrors
  have hhead := hmirrors.head?_eq
  rw [hfilter, List.head?_cons, eq_comm, Option.map_eq_some_iff] at hhead
  obtain ⟨l, hl, hcode⟩ := hhead
  rw [Lexeme.requoted_eq_code] at hcode
  obtain ⟨before, hbefore⟩ := List.head?_eq_some_iff.1 (hcode ▸ hl)
  rw [hbefore, hfilter] at hmirrors
  obtain ⟨st', heq, hmirrors⟩ := hmirrors.exists_of_comma
  exact ⟨before, hbefore, (List.cons.inj heq).2 ▸ hmirrors⟩

/-- A closing bracket is set behind what is left when a comma and the blanks around it are taken
back. -/
theorem Follows.closeBase_of_comma {c : Char} {kept before : List Lexeme}
    (hf : Follows o m src st) (h : Settled o m (some c) st)
    (hmode : modeAfterAll m src.reverse = .code) (hc : isCloser c = true)
    (htrailing : o.trailingComma = false)
    (hst : st.dropWhile (·.isSpacing) = .code ',' :: kept)
    (hsrc : src.filter isSolid = .code ',' :: before)
    (hmirrors : Mirrors o before (kept.filter isSolid))
    (hleaves : leavesCode before (.code c) = true) :
    CloseBase o m src st c (kept.dropWhile (·.isSpacing)) := by
  rw [leavesCode, Bool.and_eq_true, Bool.and_eq_true] at hleaves
  obtain ⟨⟨hcode, hnoComma⟩, hbrace⟩ := hleaves
  have hfilter := filter_isSolid_dropWhile kept
  have hhead : (kept.dropWhile (·.isSpacing)).head? = before.head?.map (·.requoted o) := by
    rw [head?_dropWhile_isSpacing, hmirrors.head?_eq]
  have hkeptCode : (kept.dropWhile (·.isSpacing)).any (·.setsCode) = true := by
    obtain ⟨l, hl, hset⟩ := List.any_eq_true.1 (hmirrors.any_setsCode hcode)
    rw [← hfilter] at hl
    exact List.any_eq_true.2 ⟨l, (List.mem_filter.1 hl).1, hset⟩
  have hmode' := hf.mode.trans hmode
  obtain ⟨_, hset, -⟩ := h.exists_dropWhile hmode'
  rw [hst] at hset
  obtain ⟨n', hsettled, hkeptMode, hn'⟩ := Settled.exists_dropWhile hset.2.2 hset.1.1
  have hsuffix : kept.dropWhile (·.isSpacing) <:+ st := by
    have hcons : .code ',' :: kept <:+ st := hst ▸ List.dropWhile_suffix _
    exact (List.dropWhile_suffix _).trans ((List.suffix_cons _ _).trans hcons)
  refine ⟨?_, ?_, hkeptMode, fun _ => ?_, ?_, hsuffix.subset, ?_⟩
  · rw [if_neg (by simp [htrailing])]
    exact h.dropComma_comma hmode' hst hkeptCode
  · refine hsettled.of_quiet (by simp [isQuiet, hc]) (fun hopen => ?_) fun _ => ?_
    · rw [hhead, Option.map_eq_some_iff] at hopen
      obtain ⟨l, hl, hopen⟩ := hopen
      rw [Lexeme.requoted_eq_code] at hopen
      have hcBrace : c = '\x7d' := by simpa [hl, hopen] using hbrace
      rw [hcBrace]
      rfl
    · rintro rfl
      rcases hn' with hn' | hn' <;> exact absurd hn' (by decide)
  · rw [hfilter, hmirrors.head?_eq, ne_eq, Option.map_eq_some_iff]
    rintro ⟨l, hl, hcode⟩
    rw [Lexeme.requoted_eq_code] at hcode
    simp [hl, hcode] at hnoComma
  · obtain ⟨init, hinit⟩ := hsuffix
    have hne : kept.dropWhile (·.isSpacing) ≠ [] := fun hnil => by
      rw [hnil] at hkeptCode
      cases hkeptCode
    conv => rhs; rw [← hinit]
    rw [List.getLast?_append_of_ne_nil _ hne]
  · rw [hsrc, hfilter]
    exact .drop hc hcode hmirrors

theorem Follows.exists_closeBase {c : Char} (hf : Follows o m src st) (h : Settled o m (some c) st)
    (hmode : modeAfterAll m src.reverse = .code) (hc : isCloser c = true)
    (hclean : o.trailingComma = false → closesCleanly (.code c) (src.filter isSolid) = true) :
    ∃ base, CloseBase o m src st c base := by
  by_cases hkept : o.trailingComma = false → (st.filter isSolid).head? ≠ some (.code ',')
  · refine ⟨st, ?_, h, hf.mode.trans hmode, hkept, rfl, List.Subset.refl _, .push _ hf.mirrors⟩
    split
    · rfl
    · next ht =>
      refine h.dropComma_eq (hf.mode.trans hmode) ?_
      rw [head?_dropWhile_isSpacing]
      exact hkept (by simpa using ht)
  · obtain ⟨htrailing, hcomma⟩ := Classical.not_imp.1 hkept
    rw [Classical.not_not, ← head?_dropWhile_isSpacing] at hcomma
    obtain ⟨kept, hst⟩ := List.head?_eq_some_iff.1 hcomma
    obtain ⟨before, hsrc, hmirrors⟩ := hf.exists_beforeComma hst
    have hleaves := hclean htrailing
    rw [hsrc] at hleaves
    exact ⟨_, hf.closeBase_of_comma h hmode hc htrailing hst hsrc hmirrors hleaves⟩

/-! ## A closing bracket -/

theorem Row.code_closer {r : Row} {c : Char} (hc : isCloser c = true) :
    r.code o c next = r.close o c := by
  rcases isCloser_iff.1 hc with rfl | rfl | rfl <;> rfl

theorem Row.keep_closer {r : Row} {c : Char} (hc : isCloser c = true) :
    r.keep (.code c) =
      { r.push c with
        closers := if r.hasCode = false then r.closers + 1 else r.closers
        delta := r.delta - 1 } := by
  have hcode : Lexeme.setsCode (.code c) = false := by simp [Lexeme.setsCode, hc]
  rw [keep, Lexeme.delta_of_closes (l := .code c) hc, hcode]
  cases hset : r.hasCode <;>
    simp [Lexeme.closes, hc, Lexeme.text, push, Int.sub_eq_add_neg, hset]

theorem Row.close_eq_keep {c : Char} (hc : isCloser c = true) (r : Row) :
    r.close o c =
      let q := if o.trailingComma then r else r.dropComma
      if q.hasCode = true ∧ c = '\x7d' ∧ q.holdsBrace = false then (q.push ' ').keep (.code c)
      else q.keep (.code c) := by
  rw [close_eq]
  generalize (if o.trailingComma then r else r.dropComma) = q
  dsimp only
  rw [keep_closer hc, keep_closer hc]
  by_cases hcode : q.hasCode = false
  · simp [hcode, push]
  · by_cases hpad : c = '\x7d' ∧ q.holdsBrace = false
    · simp [hcode, hpad, push]
    · simp [hcode, hpad, push]

theorem Row.keeps_closer {r : Row} {c : Char} (hc : isCloser c = true)
    (hcomma : o.trailingComma = false → r.dropComma = r)
    (hhold : c = '\x7d' → r.hasCode = true → r.holdsBrace = true) : r.Keeps o next (.code c) := by
  have hne {d : Char} (hd : isCloser d = false) : Lexeme.code c ≠ .code d := by
    rintro heq
    rw [Lexeme.code.inj heq, hd] at hc
    cases hc
  constructor
  · exact hne rfl
  · exact fun h => absurd h (hne rfl)
  · exact fun h => absurd h (hne rfl)
  · exact fun _ => ⟨hcomma, fun h => hhold (Lexeme.code.inj h)⟩
  · exact fun h => absurd h (hne rfl)
  · rintro (h | h | h) <;> exact absurd h (hne rfl)
  · exact fun h => nomatch h
  · exact fun s h => nomatch h

theorem Lexeme.reads_closer {c : Char} (hc : isCloser c = true) (next : Option Char) :
    (Lexeme.code c).Reads .code next := by
  rcases isCloser_iff.1 hc with rfl | rfl | rfl <;> simp [Reads, IsQuote]

/-- A closing bracket on a base, which it is set behind or parted from. -/
theorem CloseBase.setBefore {c : Char} {base st' : List Lexeme}
    (hbase : CloseBase o m src st c base) (hf : Follows o m src st) (hc : isCloser c = true)
    (hmode : modeAfterAll m src.reverse = .code)
    (hst' : st' = base ∨ base ≠ [] ∧ st' = .code ' ' :: base) (hset : Settled o m (some c) st')
    (hhold : c = '\x7d' → (Row.ofStack st').hasCode = true → (Row.ofStack st').holdsBrace = true) :
    SetBefore o m (.code c :: src) next ((Row.ofStack st').keep (.code c)) (.code c :: st') := by
  have hmode' : modeAfterAll m st'.reverse = .code := by
    rcases hst' with rfl | ⟨-, rfl⟩
    · exact hbase.mode
    · exact (modeAfterAll_reverse_cons m _ base).trans hbase.mode
  have hfilter : st'.filter isSolid = base.filter isSolid := by
    rcases hst' with rfl | ⟨-, rfl⟩ <;> rfl
  have hfirst : (.code c :: st').getLast? = (.code c :: st).getLast? := by
    rcases hst' with rfl | ⟨hne, rfl⟩
    · rw [List.getLast?_cons, List.getLast?_cons, hbase.first]
    · rw [List.getLast?_cons_cons, List.getLast?_cons_of_ne_nil hne, hbase.first,
        List.getLast?_cons_of_ne_nil (List.ne_nil_of_mem (hbase.mem (List.head_mem hne)))]
  have hsolid : isSolid (.code c) = true := by
    simp [isSolid, Lexeme.isSpacing, not_isBlank_of_isCloser hc]
  refine ⟨rfl, ⟨hmode' ▸ Lexeme.reads_closer hc next, Row.keeps_closer hc ?_ hhold, hset⟩, ?_,
    fun _ _ => rfl⟩
  · intro ht
    refine hset.dropComma_eq hmode' ?_
    rw [head?_dropWhile_isSpacing, hfilter]
    exact hbase.comma ht
  · refine ⟨?_, ?_, Or.inl rfl, ?_, ?_⟩
    · rw [modeAfterAll_reverse_cons, modeAfterAll_reverse_cons, hmode', hmode]
    · rw [List.filter_cons_of_pos hsolid, List.filter_cons_of_pos hsolid, hfilter]
      exact hbase.mirrors
    · rw [hfirst]
      exact (hf.push (.code c)).first
    · refine List.forall_mem_cons.2 ⟨Or.inr ⟨_, List.mem_cons_self, rfl⟩, fun k hk => ?_⟩
      have hmem : k = .code ' ' ∨ k ∈ st := by
        rcases hst' with rfl | ⟨-, rfl⟩
        · exact Or.inr (hbase.mem hk)
        · exact (List.mem_cons.1 hk).imp_right fun hk => hbase.mem hk
      exact hmem.elim Or.inl (hf.mem_cons _ k)

/-- A closing bracket. -/
theorem Follows.exists_close {c : Char} (hf : Follows o m src st) (h : Settled o m (some c) st)
    (hmode : modeAfterAll m src.reverse = .code) (hc : isCloser c = true)
    (hclean : o.trailingComma = false → closesCleanly (.code c) (src.filter isSolid) = true) :
    ∃ st', SetBefore o m (.code c :: src) next ((Row.ofStack st).code o c next) st' := by
  obtain ⟨base, hbase⟩ := hf.exists_closeBase h hmode hc hclean
  rw [Row.code_closer hc, Row.close_eq_keep hc, hbase.row]
  dsimp only
  split
  · next hpad =>
    obtain ⟨hcode, rfl, hhold⟩ := hpad
    have hne : base ≠ [] := by
      rintro rfl
      cases hcode
    have hunpadded : (Row.ofStack base).isPadded = false := Bool.eq_false_iff.2 fun htrue => by
      obtain ⟨base', rfl⟩ := List.head?_eq_some_iff.1
        (((hbase.settled.readBack.isPadded_iff hbase.mode).1 htrue).resolve_left hne)
      simp [Row.holdsBrace, Row.ofStack, Row.keep, Lexeme.text] at hhold
    have hset : Settled o m (some '\x7d') (.code ' ' :: base) :=
      (hbase.settled.of_quiet rfl (fun _ => rfl) fun _ => by decide).space hbase.mode hunpadded _
    rw [← Row.keep_space]
    refine ⟨_, hbase.setBefore hf hc hmode (Or.inr ⟨hne, rfl⟩) hset fun _ _ => ?_⟩
    simp [Row.holdsBrace, Row.ofStack, Row.keep, Lexeme.text]
  · next hpad =>
    refine ⟨_, hbase.setBefore hf hc hmode (Or.inl rfl) hbase.settled fun hbrace hcode => ?_⟩
    by_contra hhold
    exact hpad ⟨hcode, hbrace, by simpa using hhold⟩

end

end ReferencePages
