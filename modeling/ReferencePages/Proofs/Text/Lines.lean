import Mathlib.Data.List.Basic
import ReferencePages.Proofs.Text.Search
import ReferencePages.Text.Lines

/-!
# The lines of a text

A text is a last line without a line feed, or a line, a line feed and another text
(`lineInduction`); its lines are found that way (`lines_append_cons`). So lines that are joined
come back (`lines_joinLines`), and cutting a text into lines loses nothing but what ends them
(`flatMap_filter_lines`).
-/

namespace ReferencePages

variable {s x : List Char}

/-- A text is a last line, or a line before another text. -/
@[elab_as_elim]
theorem lineInduction {motive : List Char → Prop} (last : ∀ s, '\n' ∉ s → motive s)
    (line : ∀ x s, '\n' ∉ x → motive s → motive (x ++ '\n' :: s)) (s : List Char) : motive s := by
  by_cases h : '\n' ∈ s
  · obtain ⟨x, rest, hs, hx⟩ := List.eq_append_cons_of_mem h
    exact hs ▸ line x rest hx (lineInduction last line rest)
  · exact last s h
termination_by s.length
decreasing_by
  rw [hs, List.length_append, List.length_cons]
  omega

theorem splitLines_append_cons (hx : '\n' ∉ x) (s : List Char) :
    splitLines (x ++ '\n' :: s) = x :: splitLines s :=
  List.splitOn_append_cons_self_of_not_mem hx s

/-- A line feed ends a line, whatever stands before it. -/
theorem splitLines_append_feed (s t : List Char) :
    splitLines (s ++ '\n' :: t) = splitLines s ++ splitLines t := by
  induction s using lineInduction with
  | last s hs =>
    have hsingle : splitLines s = [s] := List.splitOn_eq_singleton hs
    rw [splitLines_append_cons hs, hsingle, List.singleton_append]
  | line x s hx ih =>
    rw [List.append_assoc, List.cons_append, splitLines_append_cons hx, ih,
      splitLines_append_cons hx, List.cons_append]

theorem splitLines_ne_nil (s : List Char) : splitLines s ≠ [] :=
  List.splitOn_ne_nil '\n' s

/-- No line feed stands between the line feeds. -/
theorem not_mem_of_mem_splitLines (s : List Char) : ∀ line ∈ splitLines s, '\n' ∉ line := by
  induction s using lineInduction with
  | last s hs =>
    rw [splitLines, List.splitOn_eq_singleton hs]
    exact fun line hline => List.mem_singleton.1 hline ▸ hs
  | line x s hx ih =>
    rw [splitLines_append_cons hx]
    exact List.forall_mem_cons.2 ⟨hx, ih⟩

theorem infix_of_mem_splitLines (s : List Char) : ∀ line ∈ splitLines s, line <:+: s := by
  induction s using lineInduction with
  | last s hs =>
    rw [splitLines, List.splitOn_eq_singleton hs]
    exact fun line hline => List.mem_singleton.1 hline ▸ List.infix_refl s
  | line x s hx ih =>
    rw [splitLines_append_cons hx]
    refine List.forall_mem_cons.2 ⟨(List.prefix_append x _).isInfix, fun line hline => ?_⟩
    exact (ih line hline).trans ⟨x ++ ['\n'], [], by simp⟩

/-- The text before the first line feed is the first line. -/
theorem lines_append_cons (hx : '\n' ∉ x) (s : List Char) :
    lines (x ++ '\n' :: s) = dropCarriageReturn x :: lines s := by
  obtain ⟨y, ys, hs⟩ := List.exists_cons_of_ne_nil (splitLines_ne_nil s)
  rw [lines, lines, splitLines_append_cons hx, hs, List.dropLast_cons_cons, List.getLast?_cons_cons,
    List.map_cons, List.cons_append]

/-- A text without a line feed is one line, unless it is empty. -/
theorem lines_of_not_mem (hs : '\n' ∉ s) : lines s = if s = [] then [] else [s] := by
  rw [lines, splitLines, List.splitOn_eq_singleton hs]
  cases s <;> simp

theorem dropCarriageReturn_subset (s : List Char) : dropCarriageReturn s ⊆ s := by
  rw [dropCarriageReturn]
  split
  · exact List.dropLast_subset s
  · exact List.Subset.refl s

/-- No line holds a line feed. -/
theorem not_mem_of_mem_lines (s : List Char) : ∀ line ∈ lines s, '\n' ∉ line := by
  induction s using lineInduction with
  | last s hs =>
    rw [lines_of_not_mem hs]
    split
    · exact fun line hline => nomatch hline
    · exact fun line hline => List.mem_singleton.1 hline ▸ hs
  | line x s hx ih =>
    rw [lines_append_cons hx]
    exact List.forall_mem_cons.2 ⟨fun hmem => hx (dropCarriageReturn_subset x hmem), ih⟩

/-- A line holds no character that the text does not hold. -/
theorem subset_of_mem_lines (s : List Char) : ∀ line ∈ lines s, line ⊆ s := by
  induction s using lineInduction with
  | last s hs =>
    rw [lines_of_not_mem hs]
    split
    · exact fun line hline => nomatch hline
    · exact fun line hline => List.mem_singleton.1 hline ▸ List.Subset.refl s
  | line x s hx ih =>
    rw [lines_append_cons hx]
    refine List.forall_mem_cons.2 ⟨fun c hc => ?_, fun line hline c hc => ?_⟩
    · exact List.mem_append_left _ (dropCarriageReturn_subset x hc)
    · exact List.mem_append_right _ (List.mem_cons_of_mem _ (ih line hline hc))

theorem dropCarriageReturn_cons {c : Char} (hc : c ≠ '\r') (s : List Char) :
    dropCarriageReturn (c :: s) = c :: dropCarriageReturn s := by
  cases s with
  | nil => simp [dropCarriageReturn, hc]
  | cons d s =>
    rw [dropCarriageReturn, dropCarriageReturn, List.getLast?_cons_cons]
    split <;> rfl

theorem dropLast_append_toList_getLast? {α : Type} (l : List α) :
    l.dropLast ++ l.getLast?.toList = l := by
  cases h : l.getLast? with
  | none => simp [List.getLast?_eq_none_iff.1 h]
  | some a => exact List.dropLast_append_getLast? a h

/-- What carriage returns at the ends of lines and empty lines do not count for is told of the lines
as of what stands between the line feeds. -/
theorem flatMap_lines {α : Type} {f : List Char → List α}
    (hreturn : ∀ line, f (dropCarriageReturn line) = f line) (hnil : f [] = []) (s : List Char) :
    (lines s).flatMap f = (splitLines s).flatMap f := by
  conv => rhs; rw [← dropLast_append_toList_getLast? (splitLines s)]
  rw [lines, List.flatMap_append, List.flatMap_append, List.flatMap_map]
  congr 1
  · exact congrArg (List.flatMap · _) (funext hreturn)
  · cases (splitLines s).getLast? with
    | none => rfl
    | some last =>
      cases last with
      | nil => simp [hnil]
      | cons c last => rfl

theorem repeated_succ (n : Nat) (s : List Char) : repeated (n + 1) s = repeated n s ++ s := by
  rw [repeated, repeated, List.replicate_succ', List.flatten_append, List.flatten_singleton]

/-! ## Joined lines -/

variable {ls : List (List Char)}

theorem joinWith_cons_cons (sep part part' : List Char) (parts : List (List Char)) :
    joinWith sep (part :: part' :: parts) = part ++ sep ++ joinWith sep (part' :: parts) :=
  List.intercalate_cons_cons

/-- Separators without a character of some kind add none to the parts. -/
theorem filter_joinWith {p : Char → Bool} {sep : List Char} (hsep : sep.filter p = [])
    (parts : List (List Char)) : (joinWith sep parts).filter p = parts.flatMap (List.filter p) := by
  induction parts with
  | nil => rfl
  | cons part parts ih =>
    cases parts with
    | nil => simp [joinWith]
    | cons part' parts =>
      rw [joinWith_cons_cons, List.filter_append, List.filter_append, hsep, List.append_nil, ih]
      rfl

theorem filter_dropCarriageReturn {p : Char → Bool} (hreturn : p '\r' = false) (s : List Char) :
    (dropCarriageReturn s).filter p = s.filter p := by
  unfold dropCarriageReturn
  split
  · next h =>
    obtain ⟨s, rfl⟩ := List.getLast?_eq_some_iff.1 h
    simp [hreturn]
  · rfl

/-- Cutting a text into lines loses nothing but what ends them. -/
theorem flatMap_filter_lines {p : Char → Bool} (hfeed : p '\n' = false) (hreturn : p '\r' = false)
    (s : List Char) : (lines s).flatMap (List.filter p) = s.filter p := by
  have hjoin : joinWith ['\n'] (splitLines s) = s := List.intercalate_splitOn '\n'
  have hseparator : ['\n'].filter p = [] := by simp [hfeed]
  rw [flatMap_lines (filter_dropCarriageReturn hreturn) rfl, ← filter_joinWith hseparator, hjoin]

theorem joinLines_cons (hls : ls ≠ []) (x : List Char) :
    joinLines (x :: ls) = x ++ '\n' :: joinLines ls := by
  obtain ⟨y, ls, rfl⟩ := List.exists_cons_of_ne_nil hls
  rw [joinLines, joinWith, List.intercalate_cons_cons, List.append_assoc]
  rfl

theorem intercalate_append {α : Type} (sep : List α) {xs ys : List (List α)} (hxs : xs ≠ [])
    (hys : ys ≠ []) : sep.intercalate (xs ++ ys) = sep.intercalate xs ++ sep ++
      sep.intercalate ys := by
  induction xs with
  | nil => exact absurd rfl hxs
  | cons x xs ih =>
    by_cases hnil : xs = []
    · subst hnil
      rw [List.singleton_append, List.intercalate_cons_of_ne_nil hys, List.intercalate_singleton]
    · have hne : xs ++ ys ≠ [] := List.append_ne_nil_of_left_ne_nil hnil ys
      rw [List.cons_append, List.intercalate_cons_of_ne_nil hne,
        List.intercalate_cons_of_ne_nil hnil, ih hnil]
      simp only [List.append_assoc]

theorem joinLines_append {ks : List (List Char)} (hls : ls ≠ []) (hks : ks ≠ []) :
    joinLines (ls ++ ks) = joinLines ls ++ '\n' :: joinLines ks := by
  rw [joinLines, joinWith, intercalate_append _ hls hks, List.append_assoc, List.singleton_append]
  rfl

/-- The last line stands at the end of the joined lines. -/
theorem exists_joinLines_concat (ls : List (List Char)) (x : List Char) :
    ∃ before, joinLines (ls ++ [x]) = before ++ x := by
  have hsingle : joinLines [x] = x := by simp [joinLines, joinWith]
  by_cases hls : ls = []
  · exact ⟨[], by rw [hls]; exact hsingle⟩
  · refine ⟨joinLines ls ++ ['\n'], ?_⟩
    rw [joinLines_append hls (List.cons_ne_nil x []), hsingle, List.append_assoc,
      List.singleton_append]

/-- The joined lines are split again; no lines at all become an empty one. -/
theorem splitLines_joinLines (hline : ∀ l ∈ ls, '\n' ∉ l) :
    splitLines (joinLines ls) = if ls = [] then [[]] else ls := by
  split
  · next hnil => rw [hnil]; rfl
  · next hne => exact List.splitOn_intercalate '\n' hline hne

/-- Lines that are joined come back, unless a carriage return ends one or nothing stands behind
the last line feed. -/
theorem lines_joinLines (hline : ∀ l ∈ ls, '\n' ∉ l) (hreturn : ∀ l ∈ ls, l.getLast? ≠ some '\r')
    (hlast : ls.getLast? ≠ some []) : lines (joinLines ls) = ls := by
  induction ls with
  | nil => rfl
  | cons x ls ih =>
    by_cases hls : ls = []
    · subst hls
      have hjoin : joinLines [x] = x := by simp [joinLines, joinWith]
      rw [hjoin, lines_of_not_mem (hline x (List.mem_singleton_self x)), if_neg]
      rintro rfl
      exact hlast rfl
    · have hx : dropCarriageReturn x = x := if_neg (hreturn x List.mem_cons_self)
      rw [joinLines_cons hls, lines_append_cons (hline x List.mem_cons_self), hx,
        ih (fun l hl => hline l (List.mem_cons_of_mem x hl))
          (fun l hl => hreturn l (List.mem_cons_of_mem x hl))]
      rwa [List.getLast?_cons_of_ne_nil hls] at hlast

/-- A text within one line stands in joined lines only where it stands in one of them. -/
theorem exists_of_infix_joinLines {p : List Char} (hne : p ≠ []) (hp : '\n' ∉ p)
    (h : p <:+: joinLines ls) : ∃ l ∈ ls, p <:+: l := by
  induction ls with
  | nil => exact absurd (List.infix_nil.1 h) hne
  | cons x ls ih =>
    by_cases hls : ls = []
    · subst hls
      exact ⟨x, List.mem_singleton_self x, by simpa [joinLines, joinWith] using h⟩
    · rw [joinLines_cons hls] at h
      rcases infix_append_cons hp h with h | h
      · exact ⟨x, List.mem_cons_self, h⟩
      · obtain ⟨l, hl, hinfix⟩ := ih h
        exact ⟨l, List.mem_cons_of_mem x hl, hinfix⟩

end ReferencePages
