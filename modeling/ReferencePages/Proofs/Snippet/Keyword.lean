import ReferencePages.Proofs.Snippet.Ending
import ReferencePages.Proofs.Snippet.Placing
import ReferencePages.Proofs.Snippet.Reading
import ReferencePages.Proofs.Snippet.SetLine

/-!
# The keyword of a line and of its row

A line declares a word if it begins with it, behind modifiers (`Declares`). The keyword that is
found on the row of a line is the word that the line declares (`keyword_placeAll_iff`): spaces and
tabs between words become one space, and whatever is set or taken back behind the word begins with
no letter.
-/

namespace ReferencePages

/-! ## Words -/

/-- What parts two words of a line: a space or a tab, and any blanks behind it. -/
def IsGap (gap : List Char) : Prop :=
  ∃ c blanks, gap = c :: blanks ∧ (c = ' ' ∨ c = '\t') ∧
    ∀ b ∈ blanks, isBlank b = true ∧ b ≠ '\n'

/-- A text that begins with a word, behind modifiers on the same line. -/
inductive Declares (word : List Char) : List Char → Prop
  | keyword {rest : List Char} (h : ∀ c ∈ rest.head?, isAlphanumeric c = false) :
      Declares word (word ++ rest)
  | modifier {m : String} {gap rest : List Char} (hm : m ∈ modifiers) (hgap : IsGap gap)
      (h : Declares word rest) : Declares word (m.toList ++ gap ++ rest)

/-- A word that is no modifier. -/
structure IsKeyword (word : List Char) : Prop where
  ne_nil : word ≠ []
  letters : ∀ c ∈ word, isAlphanumeric c = true
  not_modifier : ∀ m ∈ modifiers, m.toList ≠ word

theorem isKeyword_of_mem_blockKeywords : ∀ word ∈ blockKeywords, IsKeyword word.toList := by
  have hletters : blockKeywords.all (·.toList.all isAlphanumeric) = true := by decide
  have hapart : ∀ word ∈ blockKeywords, word.toList ≠ [] ∧
      ∀ m ∈ modifiers, m.toList ≠ word.toList := by decide
  simp only [List.all_eq_true] at hletters
  exact fun word hword => ⟨(hapart word hword).1, hletters word hword, (hapart word hword).2⟩

section

variable {c : Char} {s t w rest gap z word : List Char}

theorem isAlphanumeric_of_isBlank (hc : isBlank c = true) : isAlphanumeric c = false := by
  have hcodes : ∀ n ∈ [0x20, 0x09, 0x0a, 0x0b, 0x0c, 0x0d, 0x85, 0xa0, 0x1680, 0x2000, 0x2001,
      0x2002, 0x2003, 0x2004, 0x2005, 0x2006, 0x2007, 0x2008, 0x2009, 0x200a, 0x2028, 0x2029,
      0x202f, 0x205f, 0x3000], isAlphanumeric (Char.ofNat n) = false := by
    decide +kernel
  have hmem := hcodes c.toNat (by
    simp only [isBlank, Bool.or_eq_true, beq_iff_eq, Bool.and_eq_true, decide_eq_true_eq] at hc
    simp only [List.mem_cons, List.not_mem_nil, or_false]
    omega)
  rwa [Char.ofNat_toNat] at hmem

theorem not_isBlank_of_isAlphanumeric (hc : isAlphanumeric c = true) : isBlank c = false :=
  Bool.eq_false_iff.2 fun hblank =>
    Bool.false_ne_true ((isAlphanumeric_of_isBlank hblank).symm.trans hc)

/-- A letter or digit means nothing beyond itself. -/
theorem isPlain_of_isAlphanumeric (hc : isAlphanumeric c = true) : isPlain c = true := by
  have hne {d : Char} (hd : isAlphanumeric d = false) : (c == d) = false :=
    beq_eq_false_iff_ne.2 fun h => Bool.false_ne_true (hd.symm.trans (h ▸ hc))
  simp only [isPlain, joins, hne (d := '/') (by decide), hne (d := '*') (by decide),
    hne (d := '>') (by decide), hne (d := '=') (by decide), hne (d := '"') (by decide),
    hne (d := '\'') (by decide), hne (d := '`') (by decide), hne (d := '\\') (by decide),
    Bool.or_self, Bool.not_false]

/-- A word is told from what stands behind it. -/
theorem takeWhile_word (hw : ∀ c ∈ w, isAlphanumeric c = true)
    (hrest : ∀ c ∈ rest.head?, isAlphanumeric c = false) :
    (w ++ rest).takeWhile isAlphanumeric = w ∧ (w ++ rest).dropWhile isAlphanumeric = rest := by
  rw [List.takeWhile_append_of_pos hw, List.dropWhile_append_of_pos hw]
  cases rest with
  | nil => simp
  | cons c rest => simp [hrest c rfl]

theorem word_inj {w' rest' : List Char} (hw : ∀ c ∈ w, isAlphanumeric c = true)
    (hw' : ∀ c ∈ w', isAlphanumeric c = true) (hrest : ∀ c ∈ rest.head?, isAlphanumeric c = false)
    (hrest' : ∀ c ∈ rest'.head?, isAlphanumeric c = false) (h : w ++ rest = w' ++ rest') :
    w = w' ∧ rest = rest' := by
  obtain ⟨htake, hdrop⟩ := takeWhile_word hw hrest
  obtain ⟨htake', hdrop'⟩ := takeWhile_word hw' hrest'
  exact ⟨htake.symm.trans (h ▸ htake'), hdrop.symm.trans (h ▸ hdrop')⟩

theorem isAlphanumeric_head?_of_blank (h : ∀ c ∈ gap, isBlank c = true) (hne : gap ≠ [])
    (s : List Char) : ∀ c ∈ (gap ++ s).head?, isAlphanumeric c = false := by
  obtain ⟨b, gap, rfl⟩ := List.exists_cons_of_ne_nil hne
  exact fun c hc => isAlphanumeric_of_isBlank (Option.some.inj hc ▸ h b List.mem_cons_self)

theorem IsGap.isBlank (h : IsGap gap) : ∀ c ∈ gap, isBlank c = true := by
  obtain ⟨c, blanks, rfl, hc, hblanks⟩ := h
  refine List.forall_mem_cons.2 ⟨?_, fun b hb => (hblanks b hb).1⟩
  rcases hc with rfl | rfl <;> rfl

theorem IsGap.ne_nil (h : IsGap gap) : gap ≠ [] := by
  obtain ⟨c, blanks, rfl, -⟩ := h
  exact List.cons_ne_nil c blanks

/-! ## Declared words -/

theorem Declares.exists_head? (hword : IsKeyword word) (h : Declares word t) :
    ∃ c s, t = c :: s ∧ isAlphanumeric c = true := by
  cases h with
  | keyword h =>
    obtain ⟨c, word, rfl⟩ := List.exists_cons_of_ne_nil hword.ne_nil
    exact ⟨c, _, rfl, hword.letters c List.mem_cons_self⟩
  | @modifier m gap rest hm hgap h =>
    have hne : ∀ m ∈ modifiers, m.toList ≠ [] := by decide
    obtain ⟨c, s, hs⟩ := List.exists_cons_of_ne_nil (hne m hm)
    refine ⟨c, s ++ (gap ++ rest), by rw [hs, List.append_assoc]; rfl, ?_⟩
    exact isAlphanumeric_of_mem_modifiers m hm c (hs ▸ List.mem_cons_self)

/-- What a text declares does not depend on what follows a character outside the words. -/
theorem Declares.append_cons (h : Declares word t) (hc : isAlphanumeric c = false)
    (s : List Char) : Declares word (t ++ c :: s) := by
  induction h with
  | @keyword rest hrest =>
    rw [List.append_assoc]
    refine .keyword fun d hd => ?_
    cases rest with
    | nil => exact Option.some.inj hd ▸ hc
    | cons e rest => exact hrest d hd
  | modifier hm hgap h ih =>
    rw [List.append_assoc]
    exact .modifier hm hgap ih

/-- A text declares what its first line does. -/
theorem Declares.of_line (hword : IsKeyword word) (h : Declares word (t ++ '\n' :: s)) :
    Declares word t := by
  generalize hts : t ++ '\n' :: s = ts at h
  have hletters {w : List Char} (hw : ∀ c ∈ w, isAlphanumeric c = true) : '\n' ∉ w := fun hmem =>
    absurd (hw _ hmem) (by decide)
  induction h generalizing t with
  | keyword hrest =>
    obtain ⟨r, rfl, rfl⟩ := exists_of_append_eq_append_cons hts.symm (hletters hword.letters)
    refine .keyword fun d hd => ?_
    cases r with
    | nil => cases hd
    | cons e r => exact hrest d hd
  | @modifier m gap rest hm hgap h ih =>
    have hfeed : '\n' ∉ m.toList ++ gap := by
      rw [List.mem_append]
      refine not_or.2 ⟨hletters (isAlphanumeric_of_mem_modifiers m hm), fun hmem => ?_⟩
      obtain ⟨d, blanks, rfl, hd, hblanks⟩ := hgap
      rcases List.mem_cons.1 hmem with rfl | hmem
      · rcases hd with hd | hd <;> cases hd
      · exact (hblanks _ hmem).2 rfl
    obtain ⟨r, rfl, hr⟩ := exists_of_append_eq_append_cons hts.symm hfeed
    exact .modifier hm hgap (ih hr.symm)

theorem exists_of_concat_eq_append {a b : List Char} (h : t ++ [c] = a ++ b) (hb : b ≠ []) :
    ∃ r, b = r ++ [c] ∧ t = a ++ r := by
  obtain ⟨r, d, rfl⟩ := (List.eq_nil_or_concat' b).resolve_left hb
  rw [← List.append_assoc] at h
  obtain ⟨ht, hd⟩ := List.append_inj' h rfl
  exact ⟨r, by rw [List.singleton_inj.1 hd], ht⟩

theorem Declares.of_concat (hword : IsKeyword word) (hc : isAlphanumeric c = false)
    (h : Declares word (t ++ [c])) : Declares word t := by
  generalize hts : t ++ [c] = ts at h
  induction h generalizing t with
  | @keyword rest hrest =>
    have hne : rest ≠ [] := by
      rintro rfl
      rw [List.append_nil] at hts
      have hletter := hword.letters c (hts ▸ List.mem_append_right t (List.mem_singleton_self c))
      exact Bool.false_ne_true (hc.symm.trans hletter)
    obtain ⟨r, rfl, rfl⟩ := exists_of_concat_eq_append hts hne
    refine .keyword fun d hd => ?_
    cases r with
    | nil => cases hd
    | cons e r => exact hrest d hd
  | @modifier m gap rest hm hgap h ih =>
    obtain ⟨d, s', hs', -⟩ := h.exists_head? hword
    obtain ⟨r, rfl, rfl⟩ := exists_of_concat_eq_append hts (hs' ▸ List.cons_ne_nil d s')
    exact .modifier hm hgap (ih rfl)

theorem Declares.trim (hword : IsKeyword word) (h : Declares word t) : Declares word (trim t) := by
  have hend {u b : List Char} (hb : ∀ c ∈ b, isBlank c = true) (hu : Declares word (u ++ b)) :
      Declares word u := by
    induction b using List.reverseRecOn with
    | nil => rwa [List.append_nil] at hu
    | append_singleton b d ih =>
      obtain ⟨hb, hd⟩ := List.forall_mem_append.1 hb
      rw [← List.append_assoc] at hu
      have hblank := hd d (List.mem_singleton_self d)
      exact ih hb (hu.of_concat hword (isAlphanumeric_of_isBlank hblank))
  obtain ⟨c, s, rfl, hc⟩ := h.exists_head? hword
  have hstart : trimStart (c :: s) = c :: s :=
    List.dropWhile_cons_of_neg (by simp [not_isBlank_of_isAlphanumeric hc])
  obtain ⟨b, hb, hs⟩ := exists_eq_trimEnd_append (c :: s)
  rw [ReferencePages.trim, hstart]
  rw [hs] at h
  exact hend hb h

/-- A text declares its first word, or what the text behind it does if that word is a modifier. -/
theorem declares_append_iff (hword : IsKeyword word) (hw : ∀ c ∈ w, isAlphanumeric c = true)
    (hrest : ∀ c ∈ rest.head?, isAlphanumeric c = false) :
    Declares word (w ++ rest) ↔ word = w ∨ (∃ m ∈ modifiers, m.toList = w) ∧
      ∃ gap t, rest = gap ++ t ∧ IsGap gap ∧ Declares word t := by
  constructor
  · intro h
    generalize hs : w ++ rest = s at h
    cases h with
    | keyword h => exact Or.inl (word_inj hword.letters hw h hrest hs.symm).1
    | @modifier m gap t hm hgap h =>
      rw [List.append_assoc] at hs
      obtain ⟨hmw, hgapt⟩ := word_inj (isAlphanumeric_of_mem_modifiers m hm) hw
        (isAlphanumeric_head?_of_blank hgap.isBlank hgap.ne_nil t) hrest hs.symm
      exact Or.inr ⟨⟨m, hm, hmw⟩, gap, t, hgapt.symm, hgap, h⟩
  · rintro (rfl | ⟨⟨m, hm, rfl⟩, gap, t, rfl, hgap, h⟩)
    · exact .keyword hrest
    · rw [← List.append_assoc]
      exact .modifier hm hgap h

/-! ## The keyword of a text -/

/-- The keyword of a text that begins with it or with a modifier. -/
def keywordOf (s : List Char) : List Char := (dropModifiers s.length s).takeWhile isAlphanumeric

theorem keywordOf_modifier {m : String} (hm : m ∈ modifiers) (s : List Char) :
    keywordOf (m.toList ++ ' ' :: s) = keywordOf (trimStart s) := by
  have hdrop : dropModifier? (m.toList ++ ' ' :: s) = some (trimStart s) := by
    simp only [modifiers, List.mem_cons, List.not_mem_nil, or_false] at hm
    rcases hm with rfl | rfl | rfl | rfl | rfl <;> rfl
  have hlength := Nat.le_of_lt_succ
    ((length_dropModifier?_lt hdrop).trans_eq (by rw [List.length_append, List.length_cons]; rfl))
  have hsucc : (m.toList ++ ' ' :: s).length = m.toList.length + s.length + 1 := by
    rw [List.length_append, List.length_cons]
    rfl
  rw [keywordOf, hsucc, dropModifiers, hdrop]
  exact congrArg _ (dropModifiers_of_length_le hlength)

theorem keywordOf_of_ne (h : ∀ m ∈ modifiers, ∀ rest, s ≠ m.toList ++ ' ' :: rest) :
    keywordOf s = s.takeWhile isAlphanumeric := by
  have hnone : dropModifier? s = none := by
    refine Option.eq_none_iff_forall_ne_some.2 fun rest hrest => ?_
    obtain ⟨m, hm, hword⟩ := exists_of_firstM_eq_some hrest
    split at hword
    · next t ht => exact h m hm t (dropPrefix?_eq_some_iff.1 ht)
    · cases hword
  unfold keywordOf
  cases s with
  | nil => rfl
  | cons c s => rw [List.length_cons, dropModifiers, hnone]

/-- The keyword of a text is its first word, or that of the text behind it if the word is a
modifier. -/
theorem keywordOf_append_iff (hword : IsKeyword word) (hw : ∀ c ∈ w, isAlphanumeric c = true)
    (hz : ∀ c ∈ z.head?, isAlphanumeric c = false) :
    keywordOf (w ++ z) = word ↔ word = w ∨ (∃ m ∈ modifiers, m.toList = w) ∧
      ∃ s, z = ' ' :: s ∧ keywordOf (trimStart s) = word := by
  by_cases hspaced : ∃ m ∈ modifiers, ∃ s, w ++ z = m.toList ++ ' ' :: s
  · obtain ⟨m, hm, s, heq⟩ := hspaced
    have hspace : ∀ c ∈ (' ' :: s).head?, isAlphanumeric c = false := fun c hc =>
      Option.some.inj hc ▸ isAlphanumeric_of_isBlank rfl
    obtain ⟨rfl, rfl⟩ := word_inj hw (isAlphanumeric_of_mem_modifiers m hm) hz hspace heq
    rw [keywordOf_modifier hm]
    constructor
    · exact fun h => Or.inr ⟨⟨m, hm, rfl⟩, s, rfl, h⟩
    · rintro (h | ⟨-, s', hs', h⟩)
      · exact absurd h.symm (hword.not_modifier m hm)
      · exact (List.cons.inj hs').2 ▸ h
  · have hne : ∀ m ∈ modifiers, ∀ s, w ++ z ≠ m.toList ++ ' ' :: s := fun m hm s heq =>
      hspaced ⟨m, hm, s, heq⟩
    rw [keywordOf_of_ne hne, (takeWhile_word hw hz).1]
    constructor
    · exact fun h => Or.inl h.symm
    · rintro (h | ⟨⟨m, hm, rfl⟩, s, rfl, -⟩)
      · exact h.symm
      · exact absurd rfl (hne m hm s)

theorem keywordOf_ne_of_head? (hword : IsKeyword word)
    (hz : ∀ c ∈ z.head?, isAlphanumeric c = false) : keywordOf z ≠ word := by
  intro h
  rcases (keywordOf_append_iff (w := []) hword nofun hz).1 h with hnil | ⟨⟨m, hm, hnil⟩, -⟩
  · exact hword.ne_nil hnil
  · revert hnil
    revert m
    decide

end

/-! ## Rows -/

/-- The first character that is not blank. -/
def lead (s : List Char) : Option Char := s.find? fun c => !isBlank c

section

variable {s t : List Char} {c : Char}

theorem lead_append (s t : List Char) : lead (s ++ t) = (lead s).or (lead t) :=
  List.find?_append

theorem lead_of_blank (h : ∀ c ∈ s, isBlank c = true) : lead s = none :=
  List.find?_eq_none.2 fun c hc => by simp [h c hc]

theorem lead_cons (hc : isBlank c = false) (s : List Char) : lead (c :: s) = some c :=
  List.find?_cons_of_pos (by simp [hc])

theorem head?_trimStart (s : List Char) : (trimStart s).head? = lead s := by
  rw [lead, List.find?_eq_head?_dropWhile_not]
  simp only [Bool.not_not]
  rfl

/-- A text that is blank up to a character that is no letter does not begin with a letter. -/
theorem isAlphanumeric_head?_of_lead (h : ∀ c ∈ lead s, isAlphanumeric c = false) :
    ∀ c ∈ s.head?, isAlphanumeric c = false := by
  intro c hc
  obtain ⟨s, rfl⟩ := List.head?_eq_some_iff.1 hc
  by_cases hblank : isBlank c = true
  · exact isAlphanumeric_of_isBlank hblank
  · exact h c (lead_cons (by simpa using hblank) s)

end

namespace Row

variable {o : FormatOptions} {r : Row} {l : Lexeme} {next : Option Char} {c : Char}
  {pre y b w gap t : List Char} {word : List Char}

/-- A comma and blanks are taken back from what stands behind a character that is none of these. -/
theorem exists_text_base (hpre : ∀ c ∈ pre.getLast?, isBlank c = false ∧ c ≠ ',')
    (hr : r.text = pre ++ y) : ∃ y', (r.base o l).text = pre ++ y' ∧
      (y' = y ∨ l.closes = true ∧ y' <+: y) := by
  unfold base
  split
  · next hcloses =>
    rcases r.dropComma_cases with ⟨hsame, -⟩ | ⟨b, b', hb, hb', htext, -⟩
    · exact ⟨y, hsame.trans hr, Or.inl rfl⟩
    · rw [hr, List.append_assoc] at htext
      rcases List.append_eq_append_iff.1 htext with ⟨y', hdrop, hy⟩ | ⟨m, hm, hrest⟩
      · exact ⟨y', hdrop, Or.inr ⟨hcloses.1, hy ▸ List.prefix_append y' _⟩⟩
      · rcases List.eq_nil_or_concat' m with rfl | ⟨m, d, rfl⟩
        · rw [List.append_nil] at hm
          rw [hm]
          exact ⟨[], (List.append_nil _).symm, Or.inr ⟨hcloses.1, List.nil_prefix⟩⟩
        · -- The last of what would be taken back of `pre` is a blank or the comma.
          obtain ⟨hblank, hcomma⟩ := hpre d (by rw [hm, ← List.append_assoc]; simp)
          have hmem : d ∈ b ++ ',' :: b' := hrest ▸ List.mem_append_left y (by simp)
          rcases List.mem_append.1 hmem with hd | hd
          · exact absurd (hb d hd) (by simp [hblank])
          · rcases List.mem_cons.1 hd with hd | hd
            · exact absurd hd hcomma
            · exact absurd (hb' d hd) (by simp [hblank])
  · exact ⟨y, hr, Or.inl rfl⟩

theorem lead_shown (l : Lexeme) :
    lead (l.shown o) = lead l.text ∨ lead (l.shown o) = some o.quote := by
  cases l with
  | code c =>
    left
    show lead (if c = ' ' ∨ c = '\t' then [] else [c]) = lead [c]
    split
    · next hc => rcases hc with rfl | rfl <;> rfl
    · rfl
  | literal s =>
    rcases requote_eq o s with hs | hs
    · exact Or.inl (congrArg lead hs)
    · exact Or.inr ((congrArg lead hs).trans (lead_cons (isBlank_quote o) _))
  | _ => exact Or.inl rfl

theorem isAlphanumeric_quote (o : FormatOptions) : isAlphanumeric o.quote = false := by
  rcases isQuote_quote o with h | h <;> rw [h] <;> decide

/-- What is set behind a word begins with no letter if what follows the word does not. -/
theorem exists_text_place_lead (hpre : ∀ c ∈ pre.getLast?, isBlank c = false ∧ c ≠ ',')
    (hr : r.text = pre ++ y)
    (hlead : ∀ c ∈ lead (y ++ (l.text ++ t)), isAlphanumeric c = false) :
    ∃ y', (r.place o l next).text = pre ++ y' ∧ ∀ c ∈ lead (y' ++ t), isAlphanumeric c = false := by
  obtain ⟨gap, gap', hgap, hgap', -, htext⟩ := exists_text_place o r l next
  obtain ⟨y', hbase, hy'⟩ := exists_text_base (o := o) (l := l) hpre hr
  refine ⟨y' ++ gap ++ l.shown o ++ gap', by rw [htext, hbase]; simp only [List.append_assoc], ?_⟩
  simp only [lead_append, lead_of_blank hgap.isBlank, lead_of_blank hgap'.isBlank,
    Option.or_none, Option.or_assoc] at hlead ⊢
  rcases hy' with rfl | ⟨hcloses, s, rfl⟩
  · rcases lead_shown (o := o) l with hshown | hshown
    · rwa [hshown]
    · rw [hshown]
      cases hy : lead y' with
      | none => exact fun c hc => Option.some.inj hc ▸ isAlphanumeric_quote o
      | some d => rwa [hy] at hlead
  · cases hy : lead y' with
    | none =>
      cases l with
      | code c =>
        have hshown : lead ((Lexeme.code c).shown o) = some c := by
          rcases isCloser_iff.1 hcloses with rfl | rfl | rfl <;> rfl
        rw [hshown]
        intro d hd
        obtain rfl : c = d := Option.some.inj hd
        rcases isCloser_iff.1 hcloses with rfl | rfl | rfl <;> decide
      | _ => cases hcloses
    | some d =>
      rw [lead_append, hy] at hlead
      exact hlead

theorem exists_text_placeAll_lead {ls : List Lexeme}
    (hpre : ∀ c ∈ pre.getLast?, isBlank c = false ∧ c ≠ ',') (hr : r.text = pre ++ y)
    (hlead : ∀ c ∈ lead (y ++ ls.flatMap Lexeme.text), isAlphanumeric c = false) :
    ∃ y', (r.placeAll o ls).text = pre ++ y' ∧ ∀ c ∈ lead y', isAlphanumeric c = false := by
  induction ls generalizing r y with
  | nil => exact ⟨y, hr, by rwa [List.flatMap_nil, List.append_nil] at hlead⟩
  | cons l ls ih =>
    have hplaced : ∃ y', (r.place o l (ls.head?.bind (·.text.head?))).text = pre ++ y' ∧ _ :=
      exists_text_place_lead hpre hr hlead
    obtain ⟨y', htext, hlead'⟩ := hplaced
    exact ih htext hlead'

/-- The letters of a word are set as they are. -/
theorem exists_placeAll_word (o : FormatOptions) (r : Row)
    (hw : ∀ c ∈ w, isAlphanumeric c = true) :
    ∃ r' : Row, r'.text = r.text ++ w ∧
      ∀ ls, r.placeAll o (w.map .code ++ ls) = r'.placeAll o ls := by
  induction w generalizing r with
  | nil => exact ⟨r, (List.append_nil _).symm, fun _ => rfl⟩
  | cons c w ih =>
    obtain ⟨hc, hw⟩ := List.forall_mem_cons.1 hw
    obtain ⟨r', htext, hplace⟩ := ih (r.push c).withCode hw
    refine ⟨r', ?_, fun ls => ?_⟩
    · rw [htext]
      exact (congrArg (· ++ w) (text_push r c)).trans (List.append_assoc _ _ _)
    · rw [List.map_cons, List.cons_append, placeAll, place_of_isAlphanumeric hc, hplace]

theorem place_of_isBlank (hc : isBlank c = true) :
    r.place o (.code c) next = if c = ' ' ∨ c = '\t' then r.pad else (r.push c).withCode := by
  have hne {d : Char} (hd : isBlank d = false) : c ≠ d := by
    rintro rfl
    cases hd.symm.trans hc
  have hopen : ¬(c = '(' ∨ c = '[') := not_or.2 ⟨hne rfl, hne rfl⟩
  have hcloser : ¬isCloser c = true := fun h =>
    Bool.false_ne_true ((not_isBlank_of_isCloser h).symm.trans hc)
  have hseparator : ¬(c = ':' ∨ c = ',' ∨ c = ';') :=
    not_or.2 ⟨hne rfl, not_or.2 ⟨hne rfl, hne rfl⟩⟩
  unfold place code
  dsimp only
  rw [if_neg (hne rfl), if_neg hopen, if_neg hcloser, if_neg (hne rfl), if_neg hseparator]

/-- Blanks are set as blanks. -/
theorem exists_placeAll_blanks (o : FormatOptions) (r : Row) (hb : ∀ c ∈ b, isBlank c = true) :
    ∃ (r' : Row) (b' : List Char), (∀ c ∈ b', isBlank c = true) ∧ r'.text = r.text ++ b' ∧
      ∀ ls, r.placeAll o (b.map .code ++ ls) = r'.placeAll o ls := by
  induction b generalizing r with
  | nil => exact ⟨r, [], nofun, (List.append_nil _).symm, fun _ => rfl⟩
  | cons c b ih =>
    obtain ⟨hc, hb⟩ := List.forall_mem_cons.1 hb
    obtain ⟨s, hs, hone⟩ : ∃ s, (∀ d ∈ s, isBlank d = true) ∧
        (if c = ' ' ∨ c = '\t' then r.pad else (r.push c).withCode).text = r.text ++ s := by
      split
      · obtain ⟨gap, hgap, hpad⟩ := r.exists_text_pad
        exact ⟨gap, hgap.isBlank, hpad⟩
      · exact ⟨[c], List.forall_mem_singleton.2 hc, text_push r c⟩
    obtain ⟨r', b', hb', htext, hplace⟩ := ih _ hb
    refine ⟨r', s ++ b', List.forall_mem_append.2 ⟨hs, hb'⟩, ?_, fun ls => ?_⟩
    · rw [htext, hone, List.append_assoc]
    · rw [List.map_cons, List.cons_append, placeAll, place_of_isBlank hc, hplace]

/-- Blanks behind a word are set as blanks of which the first is a space if it is set as one. -/
theorem exists_placeAll_gap (o : FormatOptions) (hc : isBlank c = true)
    (hb : ∀ d ∈ b, isBlank d = true) (hr : ∃ d ∈ r.text.getLast?, isBlank d = false) :
    ∃ (r' : Row) (b' : List Char), (∀ d ∈ b', isBlank d = true) ∧
      r'.text = r.text ++ (if c = ' ' ∨ c = '\t' then ' ' else c) :: b' ∧
      ∀ ls, r.placeAll o ((c :: b).map .code ++ ls) = r'.placeAll o ls := by
  obtain ⟨d, hd, hsolid⟩ := hr
  rw [text, List.getLast?_reverse] at hd
  have hpad : r.isPadded = false := by
    have hne : d ≠ ' ' := by
      rintro rfl
      cases hsolid
    have hd : r.reversed.head? = some d := hd
    simp [isPadded, hd, hne]
  have hone : (if c = ' ' ∨ c = '\t' then r.pad else (r.push c).withCode).text =
      r.text ++ [if c = ' ' ∨ c = '\t' then ' ' else c] := by
    split
    · rw [pad_eq, hpad]
      exact text_push r ' '
    · exact text_push r c
  obtain ⟨r', b', hb', htext, hplace⟩ := exists_placeAll_blanks o
    (if c = ' ' ∨ c = '\t' then r.pad else (r.push c).withCode) hb
  refine ⟨r', b', hb', ?_, fun ls => ?_⟩
  · rw [htext, hone, List.append_assoc, List.singleton_append]
  · rw [List.map_cons, List.cons_append, placeAll, place_of_isBlank hc, hplace]

/-- What a row shows of a text behind the blanks `b`, as the text `z`: it has a keyword if the text
declares that, and then the blanks are kept. -/
structure Shows (word b t z : List Char) : Prop where
  keeps : Declares word t → b <+: z
  parted : b ≠ [] → ∀ c ∈ z.head?, isAlphanumeric c = false
  keyword_iff : keywordOf (trimStart z) = word ↔ Declares word t

theorem head?_eq_lead (ht : trimStart t = t) : t.head? = lead t := by
  conv => lhs; rw [← ht]
  exact head?_trimStart t

/-- A text that begins with no word declares none. -/
theorem shows_of_lead (hword : IsKeyword word) (ht : trimStart t = t)
    (hlead : ∀ c ∈ lead t, isAlphanumeric c = false) {z : List Char}
    (hz : ∀ c ∈ lead z, isAlphanumeric c = false) : Shows word b t z := by
  have hnot : ¬Declares word t := fun h => by
    obtain ⟨c, s, rfl, hc⟩ := h.exists_head? hword
    have hhead := hlead c ((head?_eq_lead ht).symm.trans rfl)
    exact Bool.false_ne_true (hhead.symm.trans hc)
  refine ⟨fun h => absurd h hnot, fun _ => isAlphanumeric_head?_of_lead hz, ?_⟩
  refine iff_of_false (keywordOf_ne_of_head? hword ?_) hnot
  rwa [head?_trimStart]

/-- A word behind blanks, and what is shown behind the word. -/
theorem Shows.of_word {rest z : List Char} (hword : IsKeyword word) (hne : w ≠ [])
    (hw : ∀ c ∈ w, isAlphanumeric c = true) (hb : ∀ c ∈ b, isBlank c = true)
    (hrest : ∀ c ∈ rest.head?, isAlphanumeric c = false)
    (hz : ∀ c ∈ z.head?, isAlphanumeric c = false)
    (hbehind : (∃ s, z = ' ' :: s ∧ keywordOf (trimStart s) = word) ↔
      ∃ gap t, rest = gap ++ t ∧ IsGap gap ∧ Declares word t) :
    Shows word b (w ++ rest) (b ++ (w ++ z)) := by
  obtain ⟨c, w', rfl⟩ := List.exists_cons_of_ne_nil hne
  have hsolid := not_isBlank_of_isAlphanumeric (hw c List.mem_cons_self)
  have htrim : trimStart (b ++ (c :: w' ++ z)) = c :: w' ++ z := by
    rw [trimStart, List.dropWhile_append_of_pos hb]
    exact List.dropWhile_cons_of_neg (by simp [hsolid])
  refine ⟨fun _ => List.prefix_append b _, fun hne => isAlphanumeric_head?_of_blank hb hne _, ?_⟩
  rw [htrim, keywordOf_append_iff hword hw hz, declares_append_iff hword hw hrest, hbehind]

/-- What is shown behind a word has a keyword, parted from the word by a space, if the text behind
the word declares that behind a gap. -/
theorem Shows.gap_iff {s b' z : List Char} (hword : IsKeyword word)
    (h : Shows word ((if c = ' ' ∨ c = '\t' then ' ' else c) :: b') (trimStart s) z)
    (hfeed : '\n' ∉ s) :
    (∃ s', z = ' ' :: s' ∧ keywordOf (trimStart s') = word) ↔
      ∃ gap t, c :: s = gap ++ t ∧ IsGap gap ∧ Declares word t := by
  have hs : s.takeWhile isBlank ++ trimStart s = s := List.takeWhile_append_dropWhile
  constructor
  · rintro ⟨s', rfl, hkeyword⟩
    have hdeclares : Declares word (trimStart s) := h.keyword_iff.1 hkeyword
    obtain ⟨s'', hs''⟩ := h.keeps hdeclares
    refine ⟨c :: s.takeWhile isBlank, trimStart s, by rw [List.cons_append, hs],
      ⟨c, _, rfl, ?_, fun e he => ⟨List.mem_takeWhile_imp he, ?_⟩⟩, hdeclares⟩
    · have hfirst := (List.cons.inj hs'').1
      by_contra hne
      rw [if_neg hne] at hfirst
      exact hne (Or.inl hfirst)
    · rintro rfl
      exact hfeed ((List.takeWhile_prefix isBlank).subset he)
  · rintro ⟨gap, t, hgapt, ⟨d, blanks, rfl, hd, hblanks⟩, hdeclares⟩
    rw [List.cons_append] at hgapt
    obtain ⟨rfl, hst⟩ := List.cons.inj hgapt
    have ht : trimStart s = t := by
      obtain ⟨e, u, rfl, he⟩ := hdeclares.exists_head? hword
      rw [hst, trimStart, List.dropWhile_append_of_pos fun b hb => (hblanks b hb).1]
      exact List.dropWhile_cons_of_neg (by simp [not_isBlank_of_isAlphanumeric he])
    rw [← ht] at hdeclares
    obtain ⟨s'', hs''⟩ := h.keeps hdeclares
    rw [if_pos hd] at hs''
    refine ⟨b' ++ s'', hs''.symm, ?_⟩
    rw [← h.keyword_iff, ← hs''] at hdeclares
    exact hdeclares

/-- The row of a text that begins with no word shows none. -/
theorem exists_text_shows_of_lead (o : FormatOptions) (hword : IsKeyword word)
    (ht : trimStart t = t) (hlead : ∀ c ∈ lead t, isAlphanumeric c = false)
    (hr : r.text = pre ++ b) (hb : ∀ c ∈ b, isBlank c = true)
    (hpre : ∀ c ∈ pre.getLast?, isBlank c = false ∧ c ≠ ',') :
    ∃ z, (r.placeAll o (scan .code t)).text = pre ++ z ∧ Shows word b t z := by
  have hset : ∃ z, (r.placeAll o (scan .code t)).text = pre ++ z ∧ _ :=
    exists_text_placeAll_lead hpre hr (by rwa [lead_append, lead_of_blank hb, scan_flatten])
  obtain ⟨z, hz, hzlead⟩ := hset
  exact ⟨z, hz, shows_of_lead hword ht hlead hzlead⟩

/-- The row of a word shows the word alone, if neither a letter nor a blank stands behind it. -/
theorem exists_text_shows_word (o : FormatOptions) {rest : List Char} (hword : IsKeyword word)
    (hne : w ≠ []) (hw : ∀ c ∈ w, isAlphanumeric c = true) (hb : ∀ c ∈ b, isBlank c = true)
    (hrest : ∀ c ∈ rest.head?, isAlphanumeric c = false)
    (hsolid : ∀ c ∈ rest.head?, isBlank c = false) (hr : r.text = pre ++ b ++ w)
    (hpre : ∀ c ∈ (pre ++ b ++ w).getLast?, isBlank c = false ∧ c ≠ ',') :
    ∃ z, (r.placeAll o (scan .code rest)).text = pre ++ z ∧ Shows word b (w ++ rest) z := by
  have hlead : ∀ c ∈ lead rest, isAlphanumeric c = false := fun c hc => by
    cases rest with
    | nil => cases hc
    | cons d s =>
      rw [lead_cons (hsolid d rfl)] at hc
      exact hrest c hc
  have hset : ∃ z, (r.placeAll o (scan .code rest)).text = pre ++ b ++ w ++ z ∧ _ :=
    exists_text_placeAll_lead hpre (hr.trans (List.append_nil _).symm)
      (by rwa [List.nil_append, scan_flatten])
  obtain ⟨z, hz, hzlead⟩ := hset
  refine ⟨b ++ (w ++ z), by rw [hz]; simp only [List.append_assoc],
    .of_word hword hne hw hb hrest (isAlphanumeric_head?_of_lead hzlead) (iff_of_false ?_ ?_)⟩
  · rintro ⟨s, rfl, hkeyword⟩
    refine keywordOf_ne_of_head? hword ?_ hkeyword
    rw [head?_trimStart]
    exact hzlead
  · rintro ⟨gap, t', rfl, ⟨c, blanks, rfl, hc, -⟩, -⟩
    have hblank : isBlank c = true := by rcases hc with rfl | rfl <;> rfl
    exact Bool.false_ne_true ((hsolid c rfl).symm.trans hblank)

theorem scan_cons_of_isBlank (hc : isBlank c = true) (s : List Char) :
    scan .code (c :: s) =
      (c :: s.takeWhile isBlank).map .code ++ scan .code (trimStart s) := by
  conv => lhs; rw [← List.takeWhile_append_dropWhile (p := isBlank) (l := s), ← List.cons_append]
  refine scan_append_of_isPlain (fun d hd => isPlain_of_isBlank ?_) .code _
  rcases List.mem_cons.1 hd with rfl | hd
  · exact hc
  · exact List.mem_takeWhile_imp hd

/-- The row of a text shows the words that the text begins with. -/
theorem exists_text_shows (o : FormatOptions) (hword : IsKeyword word) {t : List Char}
    (ht : trimStart t = t) (hfeed : '\n' ∉ t) {r : Row} {pre b : List Char}
    (hr : r.text = pre ++ b) (hb : ∀ c ∈ b, isBlank c = true)
    (hpre : ∀ c ∈ pre.getLast?, isBlank c = false ∧ c ≠ ',') :
    ∃ z, (r.placeAll o (scan .code t)).text = pre ++ z ∧ Shows word b t z := by
  have hsplit : t.takeWhile isAlphanumeric ++ t.dropWhile isAlphanumeric = t :=
    List.takeWhile_append_dropWhile
  have hw : ∀ c ∈ t.takeWhile isAlphanumeric, isAlphanumeric c = true := fun _ =>
    List.mem_takeWhile_imp
  have hrest : ∀ c ∈ (t.dropWhile isAlphanumeric).head?, isAlphanumeric c = false := fun c hc => by
    have hnot := List.head?_dropWhile_not isAlphanumeric t
    rw [hc] at hnot
    exact hnot
  generalize t.takeWhile isAlphanumeric = w at hsplit hw
  generalize t.dropWhile isAlphanumeric = rest at hsplit hrest
  by_cases hnil : w = []
  · subst hnil
    obtain rfl : rest = t := hsplit
    exact exists_text_shows_of_lead o hword ht (head?_eq_lead ht ▸ hrest) hr hb hpre
  have hscan : scan .code t = w.map .code ++ scan .code rest := by
    rw [← hsplit]
    exact scan_append_of_isPlain (fun c hc => isPlain_of_isAlphanumeric (hw c hc)) .code rest
  obtain ⟨r₁, hr₁, hplace⟩ := exists_placeAll_word o r hw
  rw [hr] at hr₁
  rw [hscan, hplace, ← hsplit]
  obtain ⟨d, hd⟩ := Option.isSome_iff_exists.1 (List.getLast?_isSome.2 hnil)
  have hlast : (pre ++ b ++ w).getLast? = some d := by
    rw [List.getLast?_append_of_ne_nil _ hnil, hd]
  have hletter := hw d (List.mem_of_getLast? hd)
  have hsolid := not_isBlank_of_isAlphanumeric hletter
  have hpre₁ : ∀ c ∈ (pre ++ b ++ w).getLast?, isBlank c = false ∧ c ≠ ',' := fun c hc => by
    obtain rfl := Option.some.inj (hlast.symm.trans hc)
    refine ⟨hsolid, ?_⟩
    rintro rfl
    exact absurd hletter (by decide)
  by_cases hblank : ∃ c ∈ rest.head?, isBlank c = true
  · -- The text behind the gap is shorter, and the row ends with the word and blanks.
    obtain ⟨c, hc, hcblank⟩ := hblank
    obtain ⟨s, rfl⟩ := List.head?_eq_some_iff.1 hc
    have hfeedRest : '\n' ∉ s := fun h =>
      hfeed (hsplit ▸ List.mem_append_right w (List.mem_cons_of_mem c h))
    obtain ⟨r₂, b', hb', hr₂, hplace₂⟩ := exists_placeAll_gap o (r := r₁) hcblank
      (fun _ => List.mem_takeWhile_imp) ⟨d, by rwa [hr₁], hsolid⟩
    rw [hr₁] at hr₂
    have hshort : (trimStart s).length < t.length := by
      have hle := (isSuffix_trimStart s).length_le
      rw [← hsplit, List.length_append, List.length_cons]
      omega
    have hbehind : ∀ e ∈ (if c = ' ' ∨ c = '\t' then ' ' else c) :: b', isBlank e = true := by
      refine List.forall_mem_cons.2 ⟨?_, hb'⟩
      split
      · rfl
      · exact hcblank
    obtain ⟨z, hz, hshows⟩ := exists_text_shows o hword (trimStart_trimStart s)
      (fun h => hfeedRest ((isSuffix_trimStart s).subset h)) hr₂ hbehind hpre₁
    refine ⟨b ++ (w ++ z), ?_, .of_word hword hnil hw hb hrest
      (hshows.parted (List.cons_ne_nil _ _)) (hshows.gap_iff hword hfeedRest)⟩
    rw [scan_cons_of_isBlank hcblank, hplace₂, hz]
    simp only [List.append_assoc]
  · exact exists_text_shows_word o hword hnil hw hb hrest
      (fun c hc => Bool.eq_false_iff.2 fun h => hblank ⟨c, hc, h⟩) hr₁ hpre₁
termination_by t.length

end Row

/-- The keyword of the row of a line is the word that the line declares. -/
theorem keyword_placeAll_iff (o : FormatOptions) {word t : List Char} (hword : IsKeyword word)
    (ht : trimStart t = t) (hfeed : '\n' ∉ t) :
    keyword (({} : Row).placeAll o (scan .code t)).text = word ↔ Declares word t := by
  have hset : ∃ z, (({} : Row).placeAll o (scan .code t)).text = [] ++ z ∧ _ :=
    Row.exists_text_shows o hword ht hfeed rfl nofun nofun
  obtain ⟨z, hz, hshows⟩ := hset
  rw [hz]
  exact hshows.keyword_iff

end ReferencePages
