import ReferencePages.Proofs.Text.Blank
import ReferencePages.Proofs.Text.Search
import ReferencePages.Snippet.Layout

/-!
# The end of a statement

Whether a semicolon belongs behind a statement depends on the keyword at its start and on its last
line. The keyword stands before the first character that is neither a letter nor a digit nor a blank
(`keyword_append_cons`), so breaking a line at a parenthesis does not change it. A statement that
has been terminated needs no further semicolon (`ended_terminate`).
-/

namespace ReferencePages

/-! ## The keyword -/

section

variable {s y : List Char} {c : Char}

theorem trimStart_append_cons (hc : isBlank c = false) (s y : List Char) :
    trimStart (s ++ c :: y) = trimStart s ++ c :: y := by
  rw [trimStart, List.dropWhile_append]
  split
  · next h => simp [trimStart, List.isEmpty_iff.1 h, hc]
  · rfl

theorem dropPrefix?_append_cons {word : List Char} (hword : c ∉ word) (s y : List Char) :
    dropPrefix? word (s ++ c :: y) = (dropPrefix? word s).map (· ++ c :: y) := by
  induction word generalizing s with
  | nil => rfl
  | cons a word ih =>
    obtain ⟨ha, hword⟩ := not_or.1 (List.mem_cons.not.1 hword)
    cases s with
    | nil => simp [dropPrefix?, Ne.symm ha]
    | cons b s =>
      rw [List.cons_append, dropPrefix?, dropPrefix?]
      split
      · exact ih hword s
      · rfl

theorem firstM_map {α β : Type} {f g : α → Option β} {h : β → β} {ws : List α}
    (hws : ∀ w ∈ ws, g w = (f w).map h) : ws.firstM g = (ws.firstM f).map h := by
  induction ws with
  | nil => rfl
  | cons w ws ih =>
    obtain ⟨hw, hws⟩ := List.forall_mem_cons.1 hws
    rw [List.firstM, List.firstM, hw, ih hws]
    cases f w <;> rfl

theorem exists_of_firstM_eq_some {α β : Type} {f : α → Option β} {ws : List α} {b : β}
    (h : ws.firstM f = some b) : ∃ w ∈ ws, f w = some b := by
  induction ws with
  | nil => cases h
  | cons w ws ih =>
    rw [List.firstM] at h
    cases hw : f w with
    | none =>
      rw [hw] at h
      obtain ⟨w', hw', hf⟩ := ih h
      exact ⟨w', List.mem_cons_of_mem w hw', hf⟩
    | some b' =>
      rw [hw] at h
      exact ⟨w, List.mem_cons_self, hw.trans h⟩

theorem isAlphanumeric_of_mem_modifiers :
    ∀ word ∈ modifiers, ∀ c ∈ word.toList, isAlphanumeric c = true := by
  have h : modifiers.all (·.toList.all isAlphanumeric) = true := by decide
  simpa only [List.all_eq_true] using h

theorem dropModifier?_append_cons (hc : isBlank c = false) (hword : isAlphanumeric c = false)
    (s y : List Char) :
    dropModifier? (s ++ c :: y) = (dropModifier? s).map (· ++ c :: y) := by
  refine firstM_map fun word hmem => ?_
  have hnot : c ∉ word.toList := fun h =>
    Bool.false_ne_true (hword.symm.trans (isAlphanumeric_of_mem_modifiers word hmem c h))
  rw [dropPrefix?_append_cons hnot]
  rcases dropPrefix? word.toList s with _ | _ | ⟨d, rest⟩
  · rfl
  · have hspace : c ≠ ' ' := by
      rintro rfl
      cases hc
    simp [hspace]
  · by_cases hd : d = ' '
    · subst hd
      exact congrArg some (trimStart_append_cons hc rest y)
    · simp [hd]

theorem length_dropModifier?_lt {rest : List Char} (h : dropModifier? s = some rest) :
    rest.length < s.length := by
  obtain ⟨word, -, hword⟩ := exists_of_firstM_eq_some h
  split at hword
  · next rest' hrest =>
    cases hword
    have hlength := congrArg List.length (dropPrefix?_eq_some_iff.1 hrest)
    rw [List.length_append, List.length_cons] at hlength
    have hle : (trimStart rest').length ≤ rest'.length := (isSuffix_trimStart rest').length_le
    omega
  · cases hword

theorem dropModifiers_append_cons (hc : isBlank c = false) (hword : isAlphanumeric c = false)
    (n : Nat) (s y : List Char) :
    dropModifiers n (s ++ c :: y) = dropModifiers n s ++ c :: y := by
  induction n generalizing s with
  | zero => rfl
  | succ n ih =>
    rw [dropModifiers, dropModifiers, dropModifier?_append_cons hc hword]
    cases dropModifier? s with
    | none => rfl
    | some rest => exact ih rest

/-- A text has no more modifiers than characters. -/
theorem dropModifiers_of_length_le {n : Nat} (h : s.length ≤ n) :
    dropModifiers n s = dropModifiers s.length s := by
  have hsucc : ∀ n (s : List Char), s.length ≤ n → dropModifiers (n + 1) s = dropModifiers n s := by
    intro n
    induction n with
    | zero =>
      intro s hs
      obtain rfl := List.eq_nil_of_length_eq_zero (Nat.le_zero.1 hs)
      rfl
    | succ n ih =>
      intro s hs
      rw [dropModifiers, dropModifiers]
      cases hrest : dropModifier? s with
      | none => rfl
      | some rest => exact ih rest (Nat.le_of_lt_succ ((length_dropModifier?_lt hrest).trans_le hs))
  induction n, h using Nat.le_induction with
  | base => rfl
  | succ n hn ih => rw [hsucc n s hn, ih]

/-- The keyword stands before a character that is neither a letter nor a digit nor a blank. -/
theorem keyword_append_cons (hc : isBlank c = false) (hword : isAlphanumeric c = false)
    (s y : List Char) : keyword (s ++ c :: y) = keyword s := by
  have hfuel : (trimStart s).length ≤ (trimStart s ++ c :: y).length := by
    rw [List.length_append]
    exact Nat.le_add_right _ _
  have hnone : (c :: y).takeWhile isAlphanumeric = [] :=
    List.takeWhile_cons_of_neg (by simp [hword])
  rw [keyword, trimStart_append_cons hc, dropModifiers_append_cons hc hword,
    dropModifiers_of_length_le hfuel, List.takeWhile_append, hnone, List.append_nil]
  split
  · next hall => exact ((List.takeWhile_prefix _).eq_of_length hall).symm
  · rfl

/-! ## The end -/

/-- No semicolon belongs behind the last line. -/
def Ended (ls : List (List Char)) : Prop :=
  ∀ first ∈ ls.head?, ∀ last ∈ ls.getLast?, needsSemicolon (keyword first) last = false

variable {ls : List (List Char)} {last word : List Char}

theorem Ended.terminate_eq (h : Ended ls) : terminate ls = ls := by
  rcases ls with _ | ⟨first, rest⟩
  · rfl
  · obtain ⟨last, hlast⟩ := Option.isSome_iff_exists.1
      (List.getLast?_isSome.2 (List.cons_ne_nil first rest))
    unfold terminate
    rw [hlast]
    exact if_neg (Bool.eq_false_iff.1 (h first rfl last hlast))

theorem needsSemicolon_eq_false_iff : needsSemicolon word last = false ↔
    [';'] <:+ trimEnd last ∨ ['/', '/'] <:+: trimEnd last ∨ ['*', '/'] <:+ trimEnd last ∨
      ['\x7d'] <:+ trimEnd last ∧ blockKeywords.contains (String.ofList word) = true := by
  rw [needsSemicolon, Bool.not_eq_false', Bool.or_eq_true, Bool.or_eq_true, Bool.or_eq_true,
    Bool.and_eq_true, endsWith_iff, endsWith_iff, endsWith_iff, contains_iff, or_assoc, or_assoc]

theorem needsSemicolon_concat (word line : List Char) :
    needsSemicolon word (line ++ [';']) = false := by
  rw [needsSemicolon_eq_false_iff, trimEnd_concat rfl]
  exact Or.inl (List.suffix_append line _)

theorem contains_slashes_of_trimEnd {line : List Char}
    (h : contains ['/', '/'] (trimEnd line) = false) : contains ['/', '/'] line = false := by
  rw [contains_eq_false_iff] at h ⊢
  refine fun hslashes => h ?_
  have hline : (line.reverse.takeWhile isBlank) ++ (trimEnd line).reverse = line.reverse := by
    rw [trimEnd, dropEndWhile, List.reverse_reverse, List.takeWhile_append_dropWhile]
  rw [← List.reverse_infix, ← hline] at hslashes
  rw [← List.reverse_infix]
  refine infix_append_of_blank (fun c hc => List.mem_takeWhile_imp hc) (fun c hc => ?_) hslashes
  obtain rfl : c = '/' := by simpa using hc
  rfl

/-- No semicolon belongs behind a line comment. -/
theorem contains_slashes_of_needsSemicolon {word line : List Char}
    (h : needsSemicolon word line = true) : contains ['/', '/'] line = false := by
  refine contains_slashes_of_trimEnd (Bool.eq_false_iff.2 fun hcontains => ?_)
  have hnone : needsSemicolon word line = false :=
    needsSemicolon_eq_false_iff.2 (Or.inr (Or.inl (contains_iff.1 hcontains)))
  exact nomatch hnone.symm.trans h

theorem terminate_concat {init : List (List Char)} {first last : List Char}
    (h : (init ++ [last]).head? = some first) :
    terminate (init ++ [last]) =
      init ++ [if needsSemicolon (keyword first) last then last ++ [';'] else last] := by
  unfold terminate
  rw [h, List.getLast?_concat, List.dropLast_concat]
  dsimp only
  split <;> rfl

/-- Lines are terminated as they are, or by a semicolon where one belongs. -/
theorem terminate_cases (ls : List (List Char)) :
    terminate ls = ls ∧ Ended ls ∨
      ∃ init last, ls = init ++ [last] ∧ terminate ls = init ++ [last ++ [';']] ∧
        ∃ word, needsSemicolon word last = true := by
  rcases List.eq_nil_or_concat' ls with rfl | ⟨init, last, rfl⟩
  · exact Or.inl ⟨rfl, fun first hfirst => nomatch hfirst⟩
  · obtain ⟨first, hfirst⟩ := Option.isSome_iff_exists.1
      (List.isSome_head?.2 (List.append_ne_nil_of_right_ne_nil init (List.cons_ne_nil last [])))
    by_cases hneeds : needsSemicolon (keyword first) last = true
    · exact Or.inr ⟨init, last, rfl, by rw [terminate_concat hfirst, if_pos hneeds], _, hneeds⟩
    · have hended : Ended (init ++ [last]) := by
        intro first' hfirst' last' hlast'
        rw [List.getLast?_concat] at hlast'
        obtain rfl := Option.some.inj hlast'
        obtain rfl := Option.some.inj (hfirst.symm.trans hfirst')
        exact Bool.eq_false_iff.2 hneeds
      exact Or.inl ⟨hended.terminate_eq, hended⟩

/-- A statement that has been terminated needs no further semicolon. -/
theorem ended_terminate (ls : List (List Char)) : Ended (terminate ls) := by
  rcases terminate_cases ls with ⟨hsame, hended⟩ | ⟨init, last, rfl, hlines, -⟩
  · rwa [hsame]
  · rw [hlines]
    intro first _ last' hlast'
    rw [List.getLast?_concat] at hlast'
    exact Option.some.inj hlast' ▸ needsSemicolon_concat (keyword first) last

end

end ReferencePages
