import ReferencePages.Proofs.Snippet.Lexing

/-!
# Requoting keeps the string

A literal is closed by the first quote that no backslash escapes. What stands in it is made of
characters and escapes (`Enclosed`), and the scanner finds the quote behind that wherever the
literal stands (`closedLiteral_iff`). When the quotes around a literal change, an escape of the old
quote loses its backslash and every other one stays. So the literal is closed again and denotes the
same string (`exists_closedLiteral_requote`).
-/

namespace ReferencePages

/-! ## Closed literals -/

/-- The scanner takes a text and the quotes around it for one literal, whatever follows. -/
def ClosedLiteral (q : Char) (inside : List Char) : Prop :=
  ∀ rest, cutLiteral q (inside ++ q :: rest) = (inside ++ [q], rest)

/-- What stands between the quotes of a closed literal: characters and escapes. -/
inductive Enclosed (quote : Char) : List Char → Prop
  | nil : Enclosed quote []
  | escape {s : List Char} (c : Char) (h : Enclosed quote s) : Enclosed quote ('\\' :: c :: s)
  | char {s : List Char} {c : Char} (hc : c ≠ '\\') (hquote : c ≠ quote) (h : Enclosed quote s) :
      Enclosed quote (c :: s)

variable {o : FormatOptions} {q : Char} {a s inside : List Char}

theorem LiteralRest.exists_enclosed (h : LiteralRest q true a) :
    ∃ inside, a = inside ++ [q] ∧ Enclosed q inside := by
  generalize hclosed : true = closed at h
  induction h with
  | unclosed => cases hclosed
  | unclosedEscape => cases hclosed
  | close => exact ⟨[], rfl, .nil⟩
  | escape c h ih =>
    obtain ⟨inside, rfl, henclosed⟩ := ih hclosed
    exact ⟨'\\' :: c :: inside, rfl, .escape c henclosed⟩
  | char hc hquote h ih =>
    obtain ⟨inside, rfl, henclosed⟩ := ih hclosed
    exact ⟨_ :: inside, rfl, .char hc hquote henclosed⟩

theorem Enclosed.literalRest (h : Enclosed q inside) : LiteralRest q true (inside ++ [q]) := by
  induction h with
  | nil => exact .close
  | escape c h ih => exact .escape c ih
  | char hc hquote h ih => exact .char hc hquote ih

/-- A literal that does not go on over the next character is closed. -/
theorem Enclosed.of_cutLiteral {c : Char}
    (h : cutLiteral q (inside ++ [q, c]) = (inside ++ [q], [c])) : Enclosed q inside := by
  obtain ⟨closed, hrest, hend⟩ := exists_literalRest_cutLiteral q (inside ++ [q, c])
  rw [h] at hrest hend
  obtain rfl : closed = true := Bool.not_eq_false _ ▸ fun hopen => nomatch hend hopen
  obtain ⟨inside', hinside, henclosed⟩ := hrest.exists_enclosed
  rwa [List.append_cancel_right hinside]

/-- A part of what stands in a closed literal is that of one that is not closed. -/
theorem Enclosed.literalRest_of_prefix (h : Enclosed q inside) (hs : s <+: inside) :
    LiteralRest q false s := by
  induction h generalizing s with
  | nil =>
    obtain rfl := List.prefix_nil.1 hs
    exact .unclosed
  | escape c h ih =>
    rcases s with _ | ⟨d, _ | ⟨e, s⟩⟩
    · exact .unclosed
    · obtain ⟨rfl, -⟩ := List.cons_prefix_cons.1 hs
      exact .unclosedEscape
    · obtain ⟨rfl, hrest⟩ := List.cons_prefix_cons.1 hs
      exact .escape e (ih (List.cons_prefix_cons.1 hrest).2)
  | char hc hquote h ih =>
    rcases s with _ | ⟨d, s⟩
    · exact .unclosed
    · obtain ⟨rfl, hrest⟩ := List.cons_prefix_cons.1 hs
      exact .char hc hquote (ih hrest)

theorem closedLiteral_iff (hq : IsQuote q) : ClosedLiteral q inside ↔ Enclosed q inside := by
  refine ⟨fun h => .of_cutLiteral (h [q]), fun h rest => ?_⟩
  rw [← h.literalRest.cutLiteral_append hq rest, List.append_assoc, List.singleton_append]

/-! ## The string of a literal -/

/-- A part of a string: a character, or an escape that is kept. -/
inductive StringPart where
  | char (c : Char)
  | escape (c : Char)
deriving DecidableEq

/-- The string that stands in a literal. An escaped quote denotes that quote. -/
def denoted : List Char → List StringPart
  | [] => []
  | '\\' :: c :: s => (if c = '"' ∨ c = '\'' then .char c else .escape c) :: denoted s
  | c :: s => .char c :: denoted s

theorem denoted_quote (hq : IsQuote q) (s : List Char) :
    denoted ('\\' :: q :: s) = .char q :: denoted s :=
  congrArg (· :: denoted s) (if_pos hq)

theorem denoted_char {c : Char} (hc : c ≠ '\\') (s : List Char) :
    denoted (c :: s) = .char c :: denoted s := by
  rw [denoted]
  rintro d t rfl
  exact absurd rfl hc

/-! ## Requoting -/

/-- Without the backslashes before the old quote, what stands in a literal can be enclosed by the
new one. -/
theorem Enclosed.unescaped (h : Enclosed o.otherQuote inside) (hquote : o.quote ∉ inside) :
    Enclosed o.quote (unescapeQuote o.otherQuote inside) := by
  have hrest := h.literalRest.unescapeQuote List.getLast?_concat (by rwa [List.dropLast_concat])
  rw [List.dropLast_concat] at hrest
  obtain ⟨inside', hinside, henclosed⟩ := hrest.exists_enclosed
  rwa [List.append_cancel_right hinside]

theorem Enclosed.head?_ne (h : Enclosed q inside) (hq : IsQuote q) : inside.head? ≠ some q := by
  cases h with
  | nil => exact nofun
  | escape c h => exact fun hhead => hq.ne_backslash (Option.some.inj hhead).symm
  | char hc hquote h => exact fun hhead => hquote (Option.some.inj hhead)

/-- A quote denotes itself with a backslash before it and without. -/
theorem Enclosed.denoted_unescapeQuote (h : Enclosed q inside) (hq : IsQuote q) :
    denoted (unescapeQuote q inside) = denoted inside := by
  induction h with
  | nil => rw [unescapeQuote_nil]
  | @escape s c h ih =>
    by_cases hc : c = q
    · rw [hc, unescapeQuote_escaped, denoted_quote hq, denoted_char hq.ne_backslash, ih]
    · rw [unescapeQuote_escape hc (h.head?_ne hq), denoted, denoted, ih]
  | char hc hquote h ih => rw [unescapeQuote_cons_of_ne hc, denoted_char hc, denoted_char hc, ih]

theorem eq_quote_or_eq_otherQuote (o : FormatOptions) (hq : IsQuote q) :
    q = o.quote ∨ q = o.otherQuote := by
  unfold FormatOptions.quote FormatOptions.otherQuote
  split
  · exact Or.symm hq
  · exact hq

/-- A closed literal is still closed when its quotes are changed, and denotes the same string. It
gets the preferred quotes unless they occur in it. -/
theorem exists_closedLiteral_requote (o : FormatOptions) (hq : IsQuote q)
    (h : ClosedLiteral q inside) :
    ∃ q' inside', requote o (q :: (inside ++ [q])) = q' :: (inside' ++ [q']) ∧ IsQuote q' ∧
      ClosedLiteral q' inside' ∧ denoted inside' = denoted inside ∧
      (o.quote ∉ inside → q' = o.quote) := by
  rcases eq_quote_or_eq_otherQuote o hq with rfl | rfl
  · exact ⟨_, inside, requote_of_quote_ne (quote_ne_otherQuote o) _, hq, h, rfl, fun _ => rfl⟩
  rw [requote, List.dropLast_concat, List.getLast?_concat]
  by_cases hmem : o.quote ∈ inside
  · exact ⟨_, inside, if_neg fun hchange => hchange.2.2 hmem, hq, h, rfl,
      fun hnot => (hnot hmem).elim⟩
  · have henclosed : Enclosed o.otherQuote inside := (closedLiteral_iff hq).1 h
    exact ⟨o.quote, _, if_pos ⟨rfl, rfl, hmem⟩, isQuote_quote o,
      (closedLiteral_iff (isQuote_quote o)).2 (henclosed.unescaped hmem),
      henclosed.denoted_unescapeQuote hq, fun _ => rfl⟩

/-- Quotes within the literal and one behind an escaped backslash lose their backslashes, the
backslash itself and a line feed do not. -/
theorem exists_closedLiteral_requote_escapes :
    let inside := "say \\\"hi\\\\\\\" \\n\\\\".toList
    IsQuote '"' ∧ ClosedLiteral '"' inside ∧
      (∃ q' inside', requote {} ('"' :: (inside ++ ['"'])) = q' :: (inside' ++ [q']) ∧ IsQuote q' ∧
        ClosedLiteral q' inside' ∧ denoted inside' = denoted inside ∧
        (FormatOptions.quote {} ∉ inside → q' = FormatOptions.quote {})) ∧
      requote {} ('"' :: (inside ++ ['"'])) = "'say \"hi\\\\\" \\n\\\\'".toList := by
  intro inside
  have hclosed : ClosedLiteral '"' inside :=
    (closedLiteral_iff (Or.inl rfl)).2 (.of_cutLiteral (c := ' ') (by decide +kernel))
  exact ⟨Or.inl rfl, hclosed, exists_closedLiteral_requote {} (Or.inl rfl) hclosed,
    by decide +kernel⟩

end ReferencePages
