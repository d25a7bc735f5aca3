import Mathlib.Data.List.Basic
import ReferencePages.Proofs.Text.Search
import ReferencePages.Snippet.Breaking
import ReferencePages.Snippet.Spacing

/-!
# How a line is broken

A line is cut before a character that stands in it (`cutTop?_eq_some`, `cutClose?_eq_some`), and
its parts joined again are the line (`joinWith_splitTop`). So a line is left as it is, or broken
before the members of its union, or around the items of its first parentheses (`breakLine_cases`).
The members and the items are those of the line, whatever its indentation and the options are
(`exists_breakUnion_eq`, `exists_breakParens_eq`).
-/

namespace ReferencePages

variable {o : FormatOptions} {indent body left side line s piece : List Char}
  {ls : List (List Char)}

/-! ## Cuts -/

theorem cutTop?_eq_some {target : Char} {n : Nesting} {s left right : List Char}
    (h : cutTop? target n s = some (left, right)) :
    s = left ++ right ∧ ∃ rest, right = target :: rest := by
  induction s generalizing n left with
  | nil => cases h
  | cons c s ih =>
    unfold cutTop? at h
    split at h
    · next hc =>
      cases h
      exact ⟨rfl, s, by rw [hc.1]⟩
    · obtain ⟨⟨left', right'⟩, hcut, hpair⟩ := Option.map_eq_some_iff.1 h
      cases hpair
      obtain ⟨rfl, hright⟩ := ih hcut
      exact ⟨rfl, hright⟩

theorem cutClose?_eq_some {n : Nesting} {s inner close : List Char}
    (h : cutClose? n s = some (inner, close)) : s = inner ++ close := by
  induction s generalizing n inner with
  | nil => cases h
  | cons c s ih =>
    unfold cutClose? at h
    dsimp only at h
    split at h
    · cases h
      rfl
    · obtain ⟨⟨inner', close'⟩, hcut, hpair⟩ := Option.map_eq_some_iff.1 h
      cases hpair
      rw [ih hcut, List.cons_append]

/-- The first bracket is not the one that closes it. -/
theorem cutClose?_cons_eq_some {c : Char} {s inner close : List Char}
    (h : cutClose? {} (c :: s) = some (inner, close)) :
    ∃ inside, inner = c :: inside ∧ s = inside ++ close := by
  unfold cutClose? at h
  obtain ⟨⟨inside, close'⟩, hcut, hpair⟩ := Option.map_eq_some_iff.1 h
  cases hpair
  exact ⟨inside, rfl, cutClose?_eq_some hcut⟩

theorem splitTop_ne_nil (sep : Char) (n : Nesting) (s : List Char) : splitTop sep n s ≠ [] := by
  induction s generalizing n with
  | nil => exact List.cons_ne_nil _ _
  | cons c s ih =>
    unfold splitTop
    split
    · exact List.cons_ne_nil _ _
    · rw [ne_eq, List.modifyHead_eq_nil_iff]
      exact ih _

theorem cutClose?_closer {n : Nesting} {s inner close : List Char}
    (h : cutClose? n s = some (inner, close)) : ∃ c t, close = c :: t ∧ isCloser c = true := by
  induction s generalizing n inner with
  | nil => cases h
  | cons c s ih =>
    unfold cutClose? at h
    dsimp only at h
    split at h
    · next hcut =>
      cases h
      refine ⟨c, s, rfl, ?_⟩
      obtain ⟨hquote, hdepth, hafter⟩ := hcut
      rw [Nesting.step, hquote] at hafter
      dsimp only at hafter
      split at hafter
      · rw [hdepth] at hafter
        cases hafter
      · split at hafter
        · cases hafter
        · split at hafter
          · next hclose => simpa [isCloser, or_comm, or_left_comm] using hclose
          · rw [hdepth] at hafter
            cases hafter
    · obtain ⟨⟨inner', close'⟩, hcut, hpair⟩ := Option.map_eq_some_iff.1 h
      cases hpair
      exact ih hcut

/-- The equals sign that a line is cut before is not part of an arrow. -/
theorem head?_ne_of_cutTop? {n : Nesting} (h : cutTop? '=' n s = some (left, '=' :: side)) :
    side.head? ≠ some '>' := by
  induction s generalizing n left with
  | nil => cases h
  | cons c s ih =>
    unfold cutTop? at h
    split at h
    · next hc =>
      cases h
      exact fun harrow => hc.2.2 ⟨rfl, harrow⟩
    · obtain ⟨⟨left', right⟩, hcut, hpair⟩ := Option.map_eq_some_iff.1 h
      obtain ⟨-, rfl⟩ := Prod.mk.inj hpair
      exact ih hcut

theorem joinWith_splitTop (sep : Char) (n : Nesting) (s : List Char) :
    joinWith [sep] (splitTop sep n s) = s := by
  induction s generalizing n with
  | nil => rfl
  | cons c s ih =>
    unfold splitTop
    split
    · next h =>
      rw [joinWith, List.intercalate_cons_of_ne_nil (splitTop_ne_nil _ _ _), h.1]
      exact congrArg (sep :: ·) (ih _)
    · obtain ⟨part, parts, hparts⟩ :=
        List.exists_cons_of_ne_nil (splitTop_ne_nil sep (n.step true c) s)
      have hrest := ih (n.step true c)
      rw [hparts] at hrest ⊢
      rw [List.modifyHead_cons, ← hrest]
      cases parts with
      | nil => rfl
      | cons q qs => rfl

/-! ## The lines of a broken line -/

/-- The comma behind the last item. -/
def lastComma (o : FormatOptions) : List Char := if o.trailingComma then [','] else []

/-- The lines of the items. -/
def itemLines (o : FormatOptions) (indent : List Char) (items : List (List Char)) :
    List (List Char) :=
  items.dropLast.map (fun item => indent ++ trim item ++ [',']) ++
    items.getLast?.toList.map (fun item => indent ++ trim item ++ lastComma o)

theorem breakParens_of_cuts {left right inner close : List Char}
    (hcut : cutTop? '(' {} body = some (left, right))
    (hclose : cutClose? {} right = some (inner, close)) (o : FormatOptions) (indent : List Char) :
    breakParens o indent body =
      if trim (inner.drop 1) = [] then none
      else some ((indent ++ left ++ ['(']) ::
        (itemLines o (indent ++ o.unit) (splitTop ',' {} (trim (inner.drop 1))) ++
          [indent ++ close])) := by
  simp only [breakParens, hcut, Option.bind_eq_bind, Option.bind_some, hclose, List.isEmpty_iff]
  split <;> rfl

/-- A line that is broken around its first parentheses, with its cuts. -/
theorem exists_of_breakParens_eq_some (h : breakParens o indent body = some ls) :
    ∃ left inside close, cutTop? '(' {} body = some (left, '(' :: (inside ++ close)) ∧
      cutClose? {} ('(' :: (inside ++ close)) = some ('(' :: inside, close) ∧
      body = left ++ '(' :: (inside ++ close) ∧
      ls = (indent ++ left ++ ['(']) ::
        (itemLines o (indent ++ o.unit) (splitTop ',' {} (trim inside)) ++ [indent ++ close]) := by
  have hparens := h
  unfold breakParens at h
  obtain ⟨⟨left, right⟩, hcut, hright⟩ := Option.bind_eq_some_iff.1 h
  obtain ⟨⟨inner, close⟩, hclose, -⟩ := Option.bind_eq_some_iff.1 hright
  obtain ⟨hbody, rest, rfl⟩ := cutTop?_eq_some hcut
  obtain ⟨inside, rfl, rfl⟩ := cutClose?_cons_eq_some hclose
  rw [breakParens_of_cuts hcut hclose] at hparens
  split at hparens
  · cases hparens
  · cases hparens
    exact ⟨left, inside, close, hcut, hclose, hbody, rfl⟩

/-- What the lines around parentheses are made of is found in the line behind its indentation. -/
theorem exists_breakParens_eq (body : List Char) :
    ∃ parts : Option (List Char × List (List Char) × List Char),
      ∀ (o : FormatOptions) (indent : List Char), breakParens o indent body =
        parts.map fun (left, items, close) =>
          (indent ++ left ++ ['(']) ::
            (itemLines o (indent ++ o.unit) items ++ [indent ++ close]) := by
  rcases hcut : cutTop? '(' {} body with _ | ⟨left, right⟩
  · exact ⟨none, fun o indent => by rw [breakParens, hcut]; rfl⟩
  rcases hclose : cutClose? {} right with _ | ⟨inner, close⟩
  · exact ⟨none, fun o indent => by simp [breakParens, hcut, hclose]⟩
  by_cases hempty : trim (inner.drop 1) = []
  · exact ⟨none, fun o indent => (breakParens_of_cuts hcut hclose o indent).trans (if_pos hempty)⟩
  · exact ⟨some (left, splitTop ',' {} (trim (inner.drop 1)), close),
      fun o indent => (breakParens_of_cuts hcut hclose o indent).trans (if_neg hempty)⟩

/-- What stands behind an equals sign: the members, and the semicolon behind them if there is
one. -/
def splitStop (right : List Char) : List Char × List Char :=
  match dropSuffix? [';'] right with
  | some right => (trimEnd right, [';'])
  | none => (right, [])

/-- The parts between the bars behind an equals sign. -/
def unionParts (side : List Char) : List (List Char) := splitTop '|' {} (splitStop (trim side)).1

/-- The lines of the members of a union. -/
def memberLines (pre : List Char) (members : List (List Char)) (stop : List Char) :
    List (List Char) :=
  members.dropLast.map (fun member => pre ++ ['|', ' '] ++ member ++ []) ++
    members.getLast?.toList.map (fun member => pre ++ ['|', ' '] ++ member ++ stop)

theorem memberLines_cons (pre member : List Char) {members : List (List Char)}
    (hne : members ≠ []) (stop : List Char) :
    memberLines pre (member :: members) stop =
      (pre ++ ['|', ' '] ++ member) :: memberLines pre members stop := by
  obtain ⟨member', members, rfl⟩ := List.exists_cons_of_ne_nil hne
  rw [memberLines, memberLines, List.dropLast_cons_cons, List.map_cons, List.cons_append,
    List.getLast?_cons_cons, List.append_nil]

theorem breakUnion_of_cut {right : List Char}
    (halias : ¬(!(startsWith "type ".toList body || startsWith "declare type ".toList body)) = true)
    (hcut : cutTop? '=' {} body = some (left, right)) (o : FormatOptions) (indent : List Char) :
    breakUnion o indent body =
      if (((unionParts (right.drop 1)).map trim).filter (!·.isEmpty)).length < 2 then none
      else some ((indent ++ trimEnd left ++ [' ', '=']) ::
        memberLines (indent ++ o.unit) (((unionParts (right.drop 1)).map trim).filter (!·.isEmpty))
          (splitStop (trim (right.drop 1))).2) := by
  unfold unionParts splitStop
  simp only [breakUnion, if_neg halias, hcut, Option.bind_eq_bind, Option.bind_some]
  cases dropSuffix? [';'] (trim (right.drop 1)) with
  | none =>
    dsimp only
    split <;> rfl
  | some side =>
    dsimp only
    split <;> rfl

/-- A line that is broken before the members of its union, with its cut. -/
theorem exists_of_breakUnion_eq_some (h : breakUnion o indent body = some ls) :
    ∃ left side, cutTop? '=' {} body = some (left, '=' :: side) ∧ body = left ++ '=' :: side ∧
      2 ≤ (((unionParts side).map trim).filter (!·.isEmpty)).length ∧
      ls = (indent ++ trimEnd left ++ [' ', '=']) ::
        memberLines (indent ++ o.unit) (((unionParts side).map trim).filter (!·.isEmpty))
          (splitStop (trim side)).2 := by
  have hunion := h
  unfold breakUnion at h
  split at h
  · cases h
  next halias =>
    obtain ⟨⟨left, right⟩, hcut, -⟩ := Option.bind_eq_some_iff.1 h
    obtain ⟨hbody, side, rfl⟩ := cutTop?_eq_some hcut
    rw [breakUnion_of_cut halias hcut] at hunion
    split at hunion
    · cases hunion
    · next hlength =>
      cases hunion
      exact ⟨left, side, hcut, hbody, Nat.le_of_not_lt hlength, rfl⟩

/-- What the lines of a union are made of is found in the line behind its indentation. -/
theorem exists_breakUnion_eq (body : List Char) :
    ∃ parts : Option (List Char × List (List Char) × List Char),
      ∀ (o : FormatOptions) (indent : List Char), breakUnion o indent body =
        parts.map fun (left, members, stop) =>
          (indent ++ left ++ [' ', '=']) :: memberLines (indent ++ o.unit) members stop := by
  by_cases halias :
    (!(startsWith "type ".toList body || startsWith "declare type ".toList body)) = true
  · exact ⟨none, fun o indent => if_pos halias⟩
  rcases hcut : cutTop? '=' {} body with _ | ⟨left, right⟩
  · exact ⟨none, fun o indent => by simp [breakUnion, hcut]⟩
  by_cases hlength : (((unionParts (right.drop 1)).map trim).filter (!·.isEmpty)).length < 2
  · exact ⟨none, fun o indent => (breakUnion_of_cut halias hcut o indent).trans (if_pos hlength)⟩
  · exact ⟨some (trimEnd left, _, _),
      fun o indent => (breakUnion_of_cut halias hcut o indent).trans (if_neg hlength)⟩

theorem exists_of_mem_memberLines {pre stop : List Char} {members : List (List Char)}
    (h : piece ∈ memberLines pre members stop) :
    ∃ member ∈ members, ∃ stop', (stop' = [] ∨ stop' = stop) ∧
      piece = pre ++ ['|', ' '] ++ member ++ stop' := by
  rcases List.mem_append.1 h with hpiece | hpiece
  · obtain ⟨member, hmember, rfl⟩ := List.mem_map.1 hpiece
    exact ⟨member, List.dropLast_subset members hmember, [], Or.inl rfl, rfl⟩
  · obtain ⟨member, hmember, rfl⟩ := List.mem_map.1 hpiece
    exact ⟨member, List.mem_of_getLast? (Option.mem_toList.1 hmember), stop, Or.inr rfl, rfl⟩

theorem exists_of_mem_itemLines {pre piece : List Char} {items : List (List Char)}
    (h : piece ∈ itemLines o pre items) :
    ∃ item ∈ items, ∃ stop, (∀ c ∈ stop, c = ',') ∧ piece = pre ++ trim item ++ stop := by
  rcases List.mem_append.1 h with hpiece | hpiece
  · obtain ⟨item, hitem, rfl⟩ := List.mem_map.1 hpiece
    exact ⟨item, List.dropLast_subset items hitem, [','], by simp, rfl⟩
  · obtain ⟨item, hitem, rfl⟩ := List.mem_map.1 hpiece
    refine ⟨item, List.mem_of_getLast? (Option.mem_toList.1 hitem), lastComma o, ?_, rfl⟩
    unfold lastComma
    split <;> simp

/-- A line that is not left as it is gets the lines of its union or of its parentheses. -/
theorem breakLine_cases (o : FormatOptions) (line : List Char) :
    breakLine o line = [line] ∨
      breakUnion o (line.takeWhile isBlank) (trimStart line) = some (breakLine o line) ∨
      breakUnion o (line.takeWhile isBlank) (trimStart line) = none ∧
        breakParens o (line.takeWhile isBlank) (trimStart line) = some (breakLine o line) := by
  unfold breakLine
  split
  · exact Or.inl rfl
  · dsimp only
    cases hunion : breakUnion o (line.takeWhile isBlank) (trimStart line) with
    | some ls => exact Or.inr (Or.inl rfl)
    | none =>
      cases hparens : breakParens o (line.takeWhile isBlank) (trimStart line) with
      | some ls => exact Or.inr (Or.inr ⟨rfl, rfl⟩)
      | none => exact Or.inl rfl

end ReferencePages
