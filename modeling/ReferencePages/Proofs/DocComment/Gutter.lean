import ReferencePages.DocComment.Basic
import ReferencePages.Proofs.Text.Blank
import ReferencePages.Proofs.Text.Lines
import ReferencePages.Proofs.Text.Search

/-!
# Both forms of a comment

A doc comment may be given whole or as its body, the text between `/*` and `*/`. Both are read
alike (`parse_whole`): the first line loses what opens the comment, and the last line what closes
it (`closeLine_append_close`). Behind a body that ends in a line feed, the whole comment has one
more line, which is empty and dropped with the other empty lines at the end.
-/

namespace ReferencePages

variable {s t : List Char}

/-! ## The end of a comment -/

theorem dropSpace_append (hs : s ≠ []) : dropSpace (s ++ t) = dropSpace s ++ t := by
  obtain ⟨c, s, rfl⟩ := List.exists_cons_of_ne_nil hs
  rw [List.cons_append]
  unfold dropSpace
  split <;> simp_all

theorem closeLine_append_close (s : List Char) : closeLine (s ++ ['*', '/']) = trimEnd s := by
  have htrim : trimEnd (s ++ ['*', '/']) = s ++ ['*', '/'] :=
    trimEnd_eq_self_iff.2 (by simp; decide)
  rw [closeLine, htrim, dropSuffix?_eq_some_iff.2 rfl]

/-- A line that does not close the comment is only trimmed. -/
theorem closeLine_of_not_infix (h : ¬['*', '/'] <:+: s) : closeLine s = trimEnd s := by
  rw [closeLine]
  rcases hclose : dropSuffix? ['*', '/'] (trimEnd s) with _ | rest
  · rfl
  · have hsuffix : ['*', '/'] <:+ trimEnd s := ⟨rest, (dropSuffix?_eq_some_iff.1 hclose).symm⟩
    exact absurd (hsuffix.isInfix.trans (List.rdropWhile_prefix isBlank s).isInfix) h

theorem suffix_dropSpace (s : List Char) : dropSpace s <:+ s := by
  unfold dropSpace
  split
  · exact List.suffix_cons _ _
  · exact List.suffix_refl _

theorem closeLine_dropSpace_append_close (h : ¬['*', '/'] <:+: s) :
    closeLine (dropSpace (s ++ ['*', '/'])) = closeLine (dropSpace s) := by
  by_cases hs : s = []
  · subst hs
    decide
  · have hdrop : ¬['*', '/'] <:+: dropSpace s := fun hends =>
      h (hends.trans (suffix_dropSpace s).isInfix)
    rw [dropSpace_append hs, closeLine_append_close, closeLine_of_not_infix hdrop]

/-! ## The lines of both forms -/

theorem openLine_whole (s : List Char) : openLine ('/' :: '*' :: '*' :: s) = dropSpace s :=
  rfl

theorem openLine_body (s : List Char) : openLine ('*' :: s) = dropSpace s :=
  rfl

theorem gutterLine_of_star (h : trimStart s = '*' :: t) (ht : ∀ r, t ≠ '/' :: r) :
    gutterLine s = dropSpace t := by
  rw [gutterLine, h]
  split
  · next heq => exact absurd (List.cons.inj heq).2 (ht _)
  · next heq => rw [(List.cons.inj heq).2]
  · next hne => exact absurd rfl (hne t)

theorem gutterLine_of_ne_star (h : ∀ r, trimStart s ≠ '*' :: r) : gutterLine s = trimStart s := by
  rw [gutterLine]
  split
  · next heq => exact absurd heq (h _)
  · next heq => exact absurd heq (h _)
  · rfl

theorem trimStart_append_close (s : List Char) :
    trimStart (s ++ ['*', '/']) = trimStart s ++ ['*', '/'] := by
  rw [trimStart, List.dropWhile_append]
  split
  · next hnil =>
    rw [trimStart, List.isEmpty_iff.1 hnil]
    rfl
  · rfl

/-- A later line says the same with what closes the comment behind it. -/
theorem closeLine_gutterLine_append_close (h : ¬['*', '/'] <:+: s) :
    closeLine (gutterLine (s ++ ['*', '/'])) = closeLine (gutterLine s) := by
  have hends : ¬['*', '/'] <:+: trimStart s := fun hends =>
    h (hends.trans (List.dropWhile_suffix isBlank).isInfix)
  have htrim := trimStart_append_close s
  by_cases hstar : ∃ t, trimStart s = '*' :: t
  · obtain ⟨t, hs⟩ := hstar
    have ht : ¬['*', '/'] <:+: t := fun ht =>
      hends (hs ▸ ht.trans (List.suffix_cons _ _).isInfix)
    have hslash : ∀ r, t ≠ '/' :: r := fun r hr => hends ⟨[], r, by rw [hs, hr]; rfl⟩
    have hslash' : ∀ r, t ++ ['*', '/'] ≠ '/' :: r := by
      cases t with
      | nil => simp
      | cons c t => simpa using hslash t
    rw [hs, List.cons_append] at htrim
    rw [gutterLine_of_star hs hslash, gutterLine_of_star htrim hslash',
      closeLine_dropSpace_append_close ht]
  · rcases hs : trimStart s with _ | ⟨c, t⟩
    · have hgutter : gutterLine (s ++ ['*', '/']) = ['*', '/'] := by
        rw [gutterLine, htrim, hs]
        rfl
      rw [hgutter, gutterLine_of_ne_star (by simp [hs]), hs]
      rfl
    · have hc : ∀ r, trimStart s ++ ['*', '/'] ≠ '*' :: r := by
        simpa [hs] using hstar
      rw [gutterLine_of_ne_star (htrim ▸ hc), htrim, closeLine_append_close,
        gutterLine_of_ne_star (by simpa using hstar), closeLine_of_not_infix hends]

/-! ## Both forms -/

theorem dropEmptyEnds_concat_nil (ls : List (List Char)) :
    dropEmptyEnds (ls ++ [[]]) = dropEmptyEnds ls := by
  have hempty : (([] : List Char).isEmpty) = true := rfl
  rw [dropEmptyEnds, dropEmptyEnds, List.dropWhile_append]
  split
  · next h => rw [List.isEmpty_iff.1 h, List.dropWhile_cons_of_pos hempty, List.dropWhile_nil]
  · rw [List.reverse_concat, List.dropWhile_cons_of_pos hempty]

/-- The closing of a comment adds an empty line to the later lines at most. -/
theorem map_lines_append_close (h : ¬['*', '/'] <:+: s) :
    let later := fun line => closeLine (gutterLine line)
    (lines (s ++ ['*', '/'])).map later = (lines s).map later ∨
      (lines (s ++ ['*', '/'])).map later = (lines s).map later ++ [[]] := by
  intro later
  induction s using lineInduction with
  | last s hs =>
    have hclose : '\n' ∉ s ++ ['*', '/'] := by simpa using hs
    have hlater : later (s ++ ['*', '/']) = later s := closeLine_gutterLine_append_close h
    rw [lines_of_not_mem hclose, lines_of_not_mem hs, if_neg (by simp)]
    by_cases hnil : s = []
    · subst hnil
      exact Or.inr (congrArg (fun line => [line]) hlater)
    · rw [if_neg hnil]
      exact Or.inl (congrArg (fun line => [line]) hlater)
  | line x s hx ih =>
    have hs : ¬['*', '/'] <:+: s := fun hends =>
      h (hends.trans ((List.suffix_cons _ _).trans (List.suffix_append _ _)).isInfix)
    rw [List.append_assoc, List.cons_append, lines_append_cons hx, lines_append_cons hx,
      List.map_cons, List.map_cons, List.cons_append]
    exact (ih hs).imp (congrArg _) (congrArg _)

theorem cleanComment_whole (h : ¬['*', '/'] <:+: '*' :: s) :
    cleanComment ('/' :: '*' :: '*' :: (s ++ ['*', '/'])) = cleanComment ('*' :: s) := by
  have hs : ¬['*', '/'] <:+: s := fun hends => h (hends.trans (List.suffix_cons _ _).isInfix)
  refine congrArg joinLines ?_
  by_cases hline : '\n' ∈ s
  · obtain ⟨x, rest, rfl, hx⟩ := List.eq_append_cons_of_mem hline
    have hrest : ¬['*', '/'] <:+: rest := fun hends =>
      hs (hends.trans ((List.suffix_cons _ _).trans (List.suffix_append _ _)).isInfix)
    have hwhole : lines ('/' :: '*' :: '*' :: (x ++ '\n' :: rest ++ ['*', '/'])) =
        ('/' :: '*' :: '*' :: dropCarriageReturn x) :: lines (rest ++ ['*', '/']) := by
      have hx' : '\n' ∉ '/' :: '*' :: '*' :: x := by simpa using hx
      rw [List.append_assoc, List.cons_append]
      refine (lines_append_cons hx' _).trans ?_
      rw [dropCarriageReturn_cons (by decide), dropCarriageReturn_cons (by decide),
        dropCarriageReturn_cons (by decide)]
    have hbody : lines ('*' :: (x ++ '\n' :: rest)) =
        ('*' :: dropCarriageReturn x) :: lines rest := by
      have hx' : '\n' ∉ '*' :: x := by simpa using hx
      exact (lines_append_cons hx' _).trans (by rw [dropCarriageReturn_cons (by decide)])
    rw [hwhole, hbody, cleanLines, cleanLines, openLine_whole, openLine_body]
    rcases map_lines_append_close hrest with hlater | hlater
    · rw [hlater]
    · rw [hlater, ← List.cons_append, dropEmptyEnds_concat_nil]
  · have hwhole : '\n' ∉ '/' :: '*' :: '*' :: (s ++ ['*', '/']) := by simpa using hline
    have hbody : '\n' ∉ '*' :: s := by simpa using hline
    rw [lines_of_not_mem hwhole, lines_of_not_mem hbody, if_neg (List.cons_ne_nil _ _),
      if_neg (List.cons_ne_nil _ _), cleanLines, cleanLines, openLine_whole, openLine_body,
      closeLine_dropSpace_append_close hs]

/-- A comment that is given whole says what its body says. -/
theorem parse_whole {body : String} (hstar : startsWith ['*'] body.toList = true)
    (hclose : contains ['*', '/'] body.toList = false) :
    DocComment.parse ("/*" ++ body ++ "*/") = DocComment.parse body := by
  obtain ⟨s, hs⟩ := startsWith_iff.1 hstar
  rw [List.singleton_append] at hs
  rw [contains_eq_false_iff, hs] at hclose
  have hwhole : ("/*" ++ body ++ "*/").toList = '/' :: '*' :: '*' :: (s ++ ['*', '/']) := by
    rw [String.toList_append, String.toList_append, hs]
    rfl
  rw [DocComment.parse, DocComment.parse, hwhole, hs, cleanComment_whole hclose]

/-- A body with a star, an indented star and blanks before what closes the comment. -/
theorem parse_whole_ruledBody :
    startsWith ['*'] "* Title *\r\n\t **\n * @default ''\n *".toList = true ∧
      contains ['*', '/'] "* Title *\r\n\t **\n * @default ''\n *".toList = false ∧
      DocComment.parse ("/*" ++ "* Title *\r\n\t **\n * @default ''\n *" ++ "*/") =
        DocComment.parse "* Title *\r\n\t **\n * @default ''\n *" :=
  ⟨by decide, by decide, parse_whole (by decide) (by decide)⟩

end ReferencePages
