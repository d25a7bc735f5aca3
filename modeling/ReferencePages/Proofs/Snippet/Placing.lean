import Mathlib.Data.List.TakeWhile
import ReferencePages.Proofs.Snippet.Following

/-!
# What a lexeme adds to a row

A row that sets a lexeme keeps its text, but for a comma that a closing bracket takes back
(`Row.dropComma_cases`), and adds the lexeme between at most one space on either side
(`Row.exists_text_place`). Letters and digits are added alone (`Row.place_of_isAlphanumeric`).
-/

namespace ReferencePages

/-- At most one space. -/
def IsPadding (gap : List Char) : Prop := gap = [] ∨ gap = [' ']

theorem IsPadding.isBlank {gap : List Char} (h : IsPadding gap) : ∀ c ∈ gap, isBlank c = true := by
  rcases h with rfl | rfl
  · exact fun c hc => nomatch hc
  · exact List.forall_mem_singleton.2 rfl

/-- What is shown of a lexeme: a space or a tab only parts what is before it from what is behind
it. -/
def Lexeme.shown (o : FormatOptions) : Lexeme → List Char
  | .code c => if c = ' ' ∨ c = '\t' then [] else [c]
  | l => (l.requoted o).text

namespace Row

variable {o : FormatOptions} {r : Row} {l : Lexeme} {next : Option Char} {c : Char}

theorem text_push (r : Row) (c : Char) : (r.push c).text = r.text ++ [c] :=
  List.reverse_cons

theorem text_append (r : Row) (s : List Char) : (r.append s).text = r.text ++ s := by
  rw [text, append, List.reverse_append, List.reverse_reverse]
  rfl

/-- What a lexeme is set behind. -/
def base (o : FormatOptions) (r : Row) (l : Lexeme) : Row :=
  if l.closes = true ∧ o.trailingComma = false then r.dropComma else r

theorem base_of_not_closes (h : l.closes = false) : r.base o l = r :=
  if_neg fun hclose => Bool.false_ne_true (h.symm.trans hclose.1)

/-- A comma is taken back with the blanks around it, if there is one. -/
theorem dropComma_cases (r : Row) :
    r.dropComma.text = r.text ∧ (trimEnd r.text).getLast? ≠ some ',' ∨
      ∃ b b', (∀ c ∈ b, isBlank c = true) ∧ (∀ c ∈ b', isBlank c = true) ∧
        r.text = r.dropComma.text ++ b ++ ',' :: b' ∧
        ∀ c ∈ r.dropComma.text.getLast?, isBlank c = false := by
  have hlast : (trimEnd r.text).getLast? = (r.reversed.dropWhile isBlank).head? := by
    rw [trimEnd, dropEndWhile, text, List.reverse_reverse, List.getLast?_reverse]
  rw [hlast]
  unfold dropComma
  split
  · next rest hrest =>
    refine Or.inr ⟨(rest.takeWhile isBlank).reverse, (r.reversed.takeWhile isBlank).reverse,
      fun c hc => List.mem_takeWhile_imp (List.mem_reverse.1 hc),
      fun c hc => List.mem_takeWhile_imp (List.mem_reverse.1 hc), ?_, fun c hc => ?_⟩
    · have hsplit : r.reversed = r.reversed.takeWhile isBlank ++
          ',' :: (rest.takeWhile isBlank ++ rest.dropWhile isBlank) := by
        rw [List.takeWhile_append_dropWhile, ← hrest, List.takeWhile_append_dropWhile]
      conv => lhs; rw [text, hsplit]
      simp only [text, List.reverse_append, List.reverse_cons, List.append_assoc,
        List.singleton_append]
    · rw [text, List.getLast?_reverse] at hc
      have hnot := List.head?_dropWhile_not isBlank rest
      rw [hc] at hnot
      exact hnot
  · next hnone =>
    refine Or.inl ⟨rfl, fun hhead => ?_⟩
    obtain ⟨rest, hrest⟩ := List.head?_eq_some_iff.1 hhead
    exact hnone rest hrest

/-! ## One lexeme -/

theorem exists_text_pad (r : Row) : ∃ gap, IsPadding gap ∧ r.pad.text = r.text ++ gap := by
  rw [pad_eq]
  split
  · exact ⟨[], Or.inl rfl, (List.append_nil _).symm⟩
  · exact ⟨[' '], Or.inr rfl, text_push r ' '⟩

theorem exists_text_spaced (r : Row) (p : Char → Bool) (next : Option Char) :
    ∃ gap, IsPadding gap ∧ (next = none → gap = []) ∧
      (if next.all p then r else r.push ' ').text = r.text ++ gap := by
  cases next with
  | none => exact ⟨[], Or.inl rfl, fun _ => rfl, (List.append_nil _).symm⟩
  | some n =>
    split
    · exact ⟨[], Or.inl rfl, nofun, (List.append_nil _).symm⟩
    · exact ⟨[' '], Or.inr rfl, nofun, text_push r ' '⟩

theorem exists_text_openBrace (r : Row) (next : Option Char) :
    ∃ gap gap', IsPadding gap ∧ IsPadding gap' ∧ (next = none → gap' = []) ∧
      (r.openBrace next).text = r.text ++ gap ++ ['\x7b'] ++ gap' := by
  obtain ⟨gap', hgap', hnone, htext⟩ := exists_text_spaced
    ((if r.partsBrace then r.push ' ' else r).push '\x7b') isBraceEnd next
  rw [openBrace_eq]
  dsimp only
  rw [htext, text_push]
  split
  · exact ⟨[' '], gap', Or.inr rfl, hgap', hnone, by rw [text_push]⟩
  · exact ⟨[], gap', Or.inl rfl, hgap', hnone, by rw [List.append_nil]⟩

theorem exists_text_close (o : FormatOptions) (r : Row) (c : Char) :
    ∃ gap, IsPadding gap ∧
      (r.close o c).text = (if o.trailingComma then r else r.dropComma).text ++ gap ++ [c] := by
  rw [close_eq]
  generalize (if o.trailingComma then r else r.dropComma) = q
  dsimp only
  split
  · exact ⟨[], Or.inl rfl, by rw [List.append_nil]; exact text_push q c⟩
  · split
    · exact ⟨[' '], Or.inr rfl, (text_push _ c).trans (congrArg (· ++ [c]) (text_push q ' '))⟩
    · exact ⟨[], Or.inl rfl, by rw [List.append_nil]; exact text_push q c⟩

theorem exists_text_equals (r : Row) (next : Option Char) :
    ∃ gap gap', IsPadding gap ∧ IsPadding gap' ∧ (next = none → gap' = []) ∧
      (r.equals next).text = r.text ++ gap ++ ['='] ++ gap' := by
  rw [equals_eq]
  split
  · exact ⟨[], [], Or.inl rfl, Or.inl rfl, fun _ => rfl, by simp [text_push]⟩
  · rw [← pad_eq]
    obtain ⟨gap, hgap, hpad⟩ := r.exists_text_pad
    obtain ⟨gap', hgap', hnone, htext⟩ := exists_text_spaced (r.pad.push '=') isQuiet next
    exact ⟨gap, gap', hgap, hgap', hnone, htext.trans (by rw [text_push, hpad])⟩

/-- A row that sets a lexeme adds it to what it is set behind, between at most one space on either
side; nothing is set behind the last one. -/
theorem exists_text_place (o : FormatOptions) (r : Row) (l : Lexeme) (next : Option Char) :
    ∃ gap gap', IsPadding gap ∧ IsPadding gap' ∧ (next = none → gap' = []) ∧
      (r.place o l next).text = (r.base o l).text ++ gap ++ l.shown o ++ gap' := by
  have hplain {r' : Row} {s : List Char} (htext : r'.text = (r.append s).text) :
      ∃ gap gap', IsPadding gap ∧ IsPadding gap' ∧ (next = none → gap' = []) ∧
        r'.text = r.text ++ gap ++ s ++ gap' :=
    ⟨[], [], Or.inl rfl, Or.inl rfl, fun _ => rfl, by rw [htext, text_append]; simp⟩
  cases l with
  | code c =>
    unfold place code Lexeme.shown
    dsimp only
    split
    · next hc =>
      obtain ⟨gap, hgap, htext⟩ := r.exists_text_pad
      have hopen : Lexeme.closes (.code c) = false := by rcases hc with rfl | rfl <;> rfl
      exact ⟨gap, [], hgap, Or.inl rfl, fun _ => rfl, by
        rw [base_of_not_closes hopen, List.append_nil, List.append_nil, htext]⟩
    split
    · next hc =>
      subst hc
      exact exists_text_openBrace r next
    split
    · next hc =>
      have hopen : Lexeme.closes (.code c) = false := by rcases hc with rfl | rfl <;> rfl
      rw [base_of_not_closes hopen]
      exact hplain rfl
    split
    · next hc =>
      obtain ⟨gap, hgap, htext⟩ := exists_text_close o r c
      have hbase : (if o.trailingComma then r else r.dropComma) = r.base o (.code c) := by
        have hcloses : Lexeme.closes (.code c) = true := hc
        rw [base]
        cases o.trailingComma <;> simp [hcloses]
      exact ⟨gap, [], hgap, Or.inl rfl, fun _ => rfl, by rw [htext, hbase, List.append_nil]⟩
    · next hcloser =>
      have hopen : Lexeme.closes (.code c) = false := Bool.eq_false_iff.2 hcloser
      rw [base_of_not_closes hopen]
      split
      · next hc =>
        subst hc
        exact exists_text_equals r next
      split
      · rw [spaceAfter_eq]
        obtain ⟨gap', hgap', hnone, htext⟩ := exists_text_spaced (r.push c) isQuiet next
        exact ⟨[], gap', Or.inl rfl, hgap', hnone,
          htext.trans (by rw [text_push, List.append_nil])⟩
      · exact hplain rfl
  | arrow =>
    obtain ⟨gap, hgap, hpad⟩ := r.exists_text_pad
    obtain ⟨gap', hgap', hnone, htext⟩ :=
      exists_text_spaced (r.pad.append ['=', '>']) isQuiet next
    refine ⟨gap, gap', hgap, hgap', hnone, ?_⟩
    rw [base_of_not_closes rfl, place_arrow, spaceAfter_eq]
    exact htext.trans (by rw [text_append, hpad]; rfl)
  | _ =>
    rw [base_of_not_closes rfl]
    exact hplain rfl

/-! ## Words -/

/-- A character that is neither a blank nor a bracket nor a separator. -/
theorem place_of_isAlphanumeric (hc : isAlphanumeric c = true) :
    r.place o (.code c) next = (r.push c).withCode := by
  have hne {d : Char} (hd : isAlphanumeric d = false) : c ≠ d := by
    rintro rfl
    cases hd.symm.trans hc
  have hspace : ¬(c = ' ' ∨ c = '\t') := not_or.2 ⟨hne (by decide), hne (by decide)⟩
  have hopen : ¬(c = '(' ∨ c = '[') := not_or.2 ⟨hne (by decide), hne (by decide)⟩
  have hcloser : ¬isCloser c = true := fun h => by
    rcases isCloser_iff.1 h with rfl | rfl | rfl <;> exact hne (by decide) rfl
  have hseparator : ¬(c = ':' ∨ c = ',' ∨ c = ';') :=
    not_or.2 ⟨hne (by decide), not_or.2 ⟨hne (by decide), hne (by decide)⟩⟩
  unfold place code
  dsimp only
  rw [if_neg hspace, if_neg (hne (by decide)), if_neg hopen, if_neg hcloser,
    if_neg (hne (by decide)), if_neg hseparator]

end Row

end ReferencePages
