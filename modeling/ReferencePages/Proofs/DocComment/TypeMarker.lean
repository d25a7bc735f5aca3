import ReferencePages.Proofs.DocComment.ExampleLines
import ReferencePages.Proofs.DocComment.ParamName

/-!
# The type in a marked line

A line `/// type: X` of a description becomes `/** @type {X} */`. A type that is a group of braces
already should not get a second pair (`IsPayload`), so that what stands in the comment is one group
in any case.

Whether a type is a group is told from its first and its last character (`LooksGrouped`). So several
groups with something between them are taken for one, and get no braces of their own. The pass for
errors, which runs behind the one for types, also finds its marker in a type. These are the only
types for which the comment is not the one that is meant (`normalizeExample_typeMarker_iff`).
-/

namespace ReferencePages

variable {type payload value s x : List Char} {i : Nat}

/-! ## Groups of braces -/

/-- A text between braces. -/
def inBraces (s : List Char) : List Char := '{' :: (s ++ ['}'])

/-- A text in braces of its own: its last brace closes the first one. -/
def IsGroup (s : List Char) : Prop := ∃ inner, Tag.BracesMatch inner ∧ s = inBraces inner

/-- A text begins and ends like a group. -/
def LooksGrouped (s : List Char) : Prop := s.head? = some '{' ∧ s.getLast? = some '}'

instance (s : List Char) : Decidable (LooksGrouped s) :=
  inferInstanceAs (Decidable (_ ∧ _))

theorem length_inBraces (s : List Char) : (inBraces s).length = s.length + 2 := by
  simp [inBraces]

theorem ne_inBraces (s : List Char) : s ≠ inBraces s := fun h => by
  have hlength := congrArg List.length h
  rw [length_inBraces] at hlength
  omega

theorem inBraces_inj : inBraces s = inBraces x ↔ s = x :=
  ⟨fun h => List.append_cancel_right (List.cons.inj h).2, congrArg inBraces⟩

theorem looksGrouped_iff : LooksGrouped s ↔ ∃ inner, s = inBraces inner := by
  constructor
  · rintro ⟨hhead, hlast⟩
    obtain ⟨s, rfl⟩ := List.head?_eq_some_iff.1 hhead
    rcases List.eq_nil_or_concat s with rfl | ⟨inner, c, rfl⟩
    · cases hlast
    · rw [List.concat_eq_append, ← List.cons_append, List.getLast?_concat] at hlast
      obtain rfl := Option.some.inj hlast
      exact ⟨inner, by rw [List.concat_eq_append, inBraces]⟩
  · rintro ⟨inner, rfl⟩
    exact ⟨rfl, by rw [inBraces, ← List.cons_append, List.getLast?_concat]⟩

theorem IsGroup.looksGrouped (h : IsGroup s) : LooksGrouped s :=
  looksGrouped_iff.2 (h.imp fun _ => And.right)

theorem isGroup_inBraces_iff : IsGroup (inBraces s) ↔ Tag.BracesMatch s := by
  constructor
  · rintro ⟨inner, hinner, heq⟩
    rwa [inBraces_inj.1 heq]
  · exact fun h => ⟨s, h, rfl⟩

instance (s : List Char) : Decidable (IsGroup s) :=
  decidable_of_iff (LooksGrouped s ∧ Tag.BracesMatch s.tail.dropLast) <| by
    constructor
    · rintro ⟨hlooks, hinner⟩
      obtain ⟨inner, rfl⟩ := looksGrouped_iff.1 hlooks
      rw [inBraces, List.tail_cons, List.dropLast_concat] at hinner
      exact isGroup_inBraces_iff.2 hinner
    · intro h
      refine ⟨h.looksGrouped, ?_⟩
      obtain ⟨inner, hinner, rfl⟩ := h
      rwa [inBraces, List.tail_cons, List.dropLast_concat]

/-! ## The payload -/

/-- What is meant to stand in the comment for a type: the type in braces, or a group as it is. -/
inductive IsPayload (type : List Char) : List Char → Prop
  | braced (h : ¬IsGroup type) : IsPayload type (inBraces type)
  | group (h : IsGroup type) : IsPayload type type

/-- What is written into the comment for a type. -/
def writtenPayload (type : List Char) : List Char :=
  if LooksGrouped type then type else inBraces type

/-- The braces of a text match without the blanks at its end. -/
theorem bracesMatch_trimEnd (h : Tag.BracesMatch s) : Tag.BracesMatch (trimEnd s) := by
  refine ⟨fun p hp => h.closes p (hp.trans (isPrefix_trimEnd s)), ?_⟩
  obtain ⟨blanks, hblanks, heq⟩ := exists_eq_trimEnd_append s
  have hopening : blanks.count '{' = 0 :=
    List.count_eq_zero.2 fun hmem => absurd (hblanks '{' hmem) (by decide)
  have hclosing : blanks.count '}' = 0 :=
    List.count_eq_zero.2 fun hmem => absurd (hblanks '}' hmem) (by decide)
  have hclosed := h.closed
  rwa [heq, List.count_append, List.count_append, hopening, hclosing] at hclosed

theorem IsPayload.isGroup (h : IsPayload type payload) (htype : Tag.BracesMatch type) :
    IsGroup payload := by
  cases h with
  | braced => exact isGroup_inBraces_iff.2 htype
  | group h => exact h

theorem IsPayload.eq_or_eq (h : IsPayload type payload) :
    IsGroup type ∧ payload = type ∨ ¬IsGroup type ∧ payload = inBraces type := by
  cases h with
  | braced h => exact Or.inr ⟨h, rfl⟩
  | group h => exact Or.inl ⟨h, rfl⟩

/-- What is written is what is meant exactly for a type that is a group if it looks like one. -/
theorem isPayload_writtenPayload_iff :
    IsPayload type (writtenPayload type) ↔ (LooksGrouped type → IsGroup type) := by
  unfold writtenPayload
  split
  · next hlooks =>
    refine ⟨fun h _ => ?_, fun h => .group (h hlooks)⟩
    rcases h.eq_or_eq with ⟨hgroup, -⟩ | ⟨-, heq⟩
    · exact hgroup
    · exact absurd heq (ne_inBraces type)
  · next hlooks =>
    exact iff_of_true (.braced fun h => hlooks h.looksGrouped) fun h => absurd h hlooks

/-- The two ways to write a type are told from each other by their lengths. -/
theorem IsPayload.eq_writtenPayload (h : IsPayload type payload)
    (hlength : payload.length = (writtenPayload type).length) : payload = writtenPayload type := by
  have htwo := length_inBraces type
  by_cases hlooks : LooksGrouped type
  · rw [writtenPayload, if_pos hlooks] at hlength ⊢
    rcases h.eq_or_eq with ⟨-, heq⟩ | ⟨-, heq⟩
    · exact heq
    · rw [heq] at hlength
      omega
  · rw [writtenPayload, if_neg hlooks] at hlength ⊢
    rcases h.eq_or_eq with ⟨-, heq⟩ | ⟨-, heq⟩
    · rw [heq] at hlength
      omega
    · exact heq

/-- What is written has braces at both ends, with the text of the type between them. -/
theorem exists_writtenPayload_eq (type : List Char) :
    ∃ inner, writtenPayload type = inBraces inner ∧ (inner = type ∨ inBraces inner = type) := by
  unfold writtenPayload
  split
  · next hlooks =>
    obtain ⟨inner, rfl⟩ := looksGrouped_iff.1 hlooks
    exact ⟨inner, rfl, Or.inr rfl⟩
  · exact ⟨type, rfl, Or.inl rfl⟩

/-! ## The comment -/

/-- What opens the comment for a type. -/
def commentOpening : List Char := "/** @type ".toList

/-- What closes the comment for a type. -/
def commentClosing : List Char := " */".toList

theorem typeComment_eq (value : List Char) :
    typeComment value = commentOpening ++ writtenPayload (trimEnd value) ++ commentClosing := by
  have hlooks : (startsWith ['{'] (trimEnd value) && endsWith ['}'] (trimEnd value)) = true ↔
      LooksGrouped (trimEnd value) := by
    rw [Bool.and_eq_true, startsWith_iff, endsWith_iff, suffix_singleton_iff, LooksGrouped,
      List.head?_eq_some_iff]
    rfl
  unfold typeComment writtenPayload commentOpening commentClosing inBraces
  simp only [hlooks]
  rfl

/-- A text without braces stands between braces exactly if it does without them. -/
theorem infix_inBraces_iff {p : List Char} (hopening : '{' ∉ p) (hclosing : '}' ∉ p) :
    p <:+: inBraces s ↔ p <:+: s := by
  have hnil {b : List Char} (h : p <:+: []) : p <:+: b := List.infix_nil.1 h ▸ List.nil_infix
  refine ⟨fun h => ?_, fun h => h.trans (List.infix_append ['{'] s ['}'])⟩
  rcases infix_append_cons (a := []) hopening h with h | h
  · exact hnil h
  · exact (infix_append_cons hclosing h).elim id hnil

/-- A marker of errors stands in the comment exactly if it stands in the type. -/
theorem errorsMarker_infix_typeComment_iff (value : List Char) :
    errorsMarker <:+: typeComment value ↔ errorsMarker <:+: trimEnd value := by
  have hopening : '{' ∉ errorsMarker := by decide
  have hclosing : '}' ∉ errorsMarker := by decide
  obtain ⟨inner, hinner, htype⟩ := exists_writtenPayload_eq (trimEnd value)
  have hwithin : errorsMarker <:+: inner ↔ errorsMarker <:+: trimEnd value := by
    rcases htype with htype | htype
    · rw [htype]
    · rw [← htype, infix_inBraces_iff hopening hclosing]
  rw [typeComment_eq, hinner, ← hwithin]
  have hcomment : commentOpening ++ inBraces inner ++ commentClosing =
      commentOpening ++ '{' :: (inner ++ '}' :: commentClosing) := by
    simp [inBraces]
  rw [hcomment]
  constructor
  · intro h
    have hleft : ¬errorsMarker <:+: commentOpening := by decide
    have hright : ¬errorsMarker <:+: commentClosing := by decide
    have hrest := (infix_append_cons hopening h).resolve_left hleft
    exact (infix_append_cons hclosing hrest).resolve_right hright
  · intro h
    exact h.trans ⟨commentOpening ++ ['{'], '}' :: commentClosing, by simp⟩

/-- No marker of errors ends the comment: it ends in a slash, and a marker in a blank. -/
theorem not_errorsMarker_suffix_typeComment (value : List Char) :
    ¬errorsMarker <:+ typeComment value := by
  rintro ⟨before, hbefore⟩
  rw [typeComment_eq] at hbefore
  have hlast := congrArg List.getLast? hbefore
  rw [List.getLast?_append_of_ne_nil _ (by decide),
    List.getLast?_append_of_ne_nil _ (by decide)] at hlast
  revert hlast
  decide

/-! ## The pass for errors -/

/-- What the marker of errors becomes. -/
def errorsOpening : List Char := "// @errors: ".toList

theorem errorsComment_eq (value : List Char) : errorsComment value = errorsOpening ++ value := by
  unfold errorsComment errorsOpening
  rfl

/-- A pass over a line changes it where it finds a marker with something behind it, and never its
length. -/
theorem markErrors_line (hx : '\n' ∉ x) (hend : ¬errorsMarker <:+ x) :
    (markErrors x = x ↔ ¬errorsMarker <:+: x) ∧ (markErrors x).length = x.length := by
  have hmarkers : errorsOpening.length = errorsMarker.length := by decide
  have hdiffer : errorsOpening ≠ errorsMarker := by decide
  rw [markErrors, replaceMatches_restOfLine hx, ← contains_iff, contains]
  cases hcut : splitAtFirst? errorsMarker x with
  | none => simp
  | some cut =>
    obtain ⟨before, rest⟩ := cut
    have heq := append_of_splitAtFirst? hcut
    have hrest : rest ≠ [] := by
      rintro rfl
      exact hend ⟨before, by rw [heq, List.append_nil]⟩
    simp only [if_neg hrest]
    refine ⟨iff_of_false (fun h => hdiffer ?_) (by simp), ?_⟩
    · rw [heq, errorsComment_eq, List.append_assoc, List.append_cancel_left_eq] at h
      exact List.append_cancel_right h
    · rw [heq, errorsComment_eq]
      simp only [List.length_append, hmarkers]
      omega

/-! ## The line -/

theorem markTypes_typeMarker (hne : value ≠ []) (hline : '\n' ∉ typeMarker ++ value) :
    markTypes (typeMarker ++ value) = typeComment value := by
  have hfirst : ¬typeMarker <:+: [] ++ typeMarker.dropLast := by decide
  have hcut : splitAtFirst? typeMarker (typeMarker ++ value) = some ([], value) :=
    splitAtFirst?_append hfirst value
  rw [markTypes, replaceMatches_restOfLine hline, hcut]
  exact if_neg hne

/-- A line that does not begin with a space is not indented. -/
theorem indentByTabs_cons {c : Char} (hline : '\n' ∉ c :: x) (hc : c ≠ ' ') :
    indentByTabs (c :: x) = c :: x := by
  have htab : tabIndent (c :: x) = c :: x := by
    rw [tabIndent]
    exact fun s hspaces => hc (List.cons.inj hspaces).1
  rw [indentByTabs_line hline, htab]

/-- A marked line is normalized to the comment for its type, behind the pass for errors. -/
theorem normalizeExample_typeMarker (hne : value ≠ []) (hline : '\n' ∉ typeMarker ++ value) :
    normalizeExample (typeMarker ++ value) = markErrors (typeComment value) := by
  have hfeed := linewise_markErrors.single _ (linewise_markTypes.single _ hline)
  rw [normalizeExample_eq, markTypes_typeMarker hne hline] at *
  obtain ⟨rest, hrest⟩ : ∃ rest, typeComment value = '/' :: '*' :: rest := by
    rw [typeComment_eq]
    exact ⟨_, rfl⟩
  have hnone : restOfLine errorsMarker ('/' :: '*' :: rest) = none := rfl
  have hslash : markErrors (typeComment value) = '/' :: markErrors ('*' :: rest) := by
    rw [hrest]
    exact replaceMatches_cons_of_none hnone
  rw [hslash] at hfeed ⊢
  exact indentByTabs_cons hfeed (by decide)

/-- A marked line becomes a comment with what is meant exactly if that is written and the pass for
errors leaves it. -/
theorem exists_isPayload_iff (hne : type ≠ []) (hline : '\n' ∉ typeMarker ++ type) :
    (∃ payload, normalizeExample (typeMarker ++ type) =
        commentOpening ++ payload ++ commentClosing ∧ IsPayload (trimEnd type) payload) ↔
      IsPayload (trimEnd type) (writtenPayload (trimEnd type)) ∧
        ¬errorsMarker <:+: trimEnd type := by
  have hcomment : '\n' ∉ typeComment type :=
    markTypes_typeMarker hne hline ▸ linewise_markTypes.single _ hline
  obtain ⟨hsame, hlength⟩ :=
    markErrors_line hcomment (not_errorsMarker_suffix_typeComment type)
  rw [normalizeExample_typeMarker hne hline, ← errorsMarker_infix_typeComment_iff, ← hsame]
  constructor
  · rintro ⟨payload, heq, hpayload⟩
    -- The pass for errors keeps the length, so only what is written can be left where it passed.
    have hwritten : payload = writtenPayload (trimEnd type) := by
      refine hpayload.eq_writtenPayload ?_
      rw [heq, typeComment_eq] at hlength
      simp only [List.length_append] at hlength
      omega
    rw [hwritten] at heq hpayload
    exact ⟨hpayload, heq.trans (typeComment_eq type).symm⟩
  · rintro ⟨hpayload, hkept⟩
    exact ⟨_, hkept.trans (typeComment_eq type), hpayload⟩

/-- For a type whose braces match, a marked line of a description becomes a comment with one group
of braces, which holds the type without blanks at its end, exactly if there is a type, it is a group
if it looks like one, and no marker of errors stands in it. -/
theorem normalizeExample_typeMarker_iff (hline : (splitLines s)[i]? = some (typeMarker ++ type))
    (htype : Tag.BracesMatch type) :
    (∃ payload, (splitLines (normalizeExample s))[i]? =
        some (commentOpening ++ payload ++ commentClosing) ∧
        IsGroup payload ∧ IsPayload (trimEnd type) payload) ↔
      type ≠ [] ∧ (LooksGrouped (trimEnd type) → IsGroup (trimEnd type)) ∧
        ¬errorsMarker <:+: trimEnd type := by
  have hfeed : '\n' ∉ typeMarker ++ type :=
    not_mem_of_mem_splitLines s _ (List.mem_of_getElem? hline)
  have hgroup {payload : List Char} :
      IsGroup payload ∧ IsPayload (trimEnd type) payload ↔ IsPayload (trimEnd type) payload :=
    and_iff_right_of_imp fun h => h.isGroup (bracesMatch_trimEnd htype)
  rw [linewise_normalizeExample.splitLines_eq, List.getElem?_map, hline, Option.map_some]
  simp only [Option.some.injEq, hgroup]
  by_cases hne : type = []
  · have hkept : normalizeExample (typeMarker ++ []) = typeMarker := by decide +kernel
    refine iff_of_false ?_ fun h => h.1 hne
    rintro ⟨payload, heq, -⟩
    rw [hne, hkept] at heq
    have hstart : ['/', '/'] = ['/', '*'] := congrArg (List.take 2) heq
    cases hstart
  · rw [exists_isPayload_iff hne hfeed, isPayload_writtenPayload_iff, and_iff_right hne]

/-- A description with a marked type that is a group, with blanks at its end. -/
def groupLines : List Char := "Loads:\n/// type: {a: {b}} \n/// errors: 1".toList

/-- A group gets no second pair of braces. -/
theorem normalizeExample_typeMarker_group :
    (splitLines groupLines)[1]? = some (typeMarker ++ "{a: {b}} ".toList) ∧
      Tag.BracesMatch "{a: {b}} ".toList ∧
      ∃ payload, (splitLines (normalizeExample groupLines))[1]? =
          some (commentOpening ++ payload ++ commentClosing) ∧
        IsGroup payload ∧ IsPayload (trimEnd "{a: {b}} ".toList) payload := by
  have hline : (splitLines groupLines)[1]? = some (typeMarker ++ "{a: {b}} ".toList) := by
    decide +kernel
  have htype : Tag.BracesMatch "{a: {b}} ".toList := by decide +kernel
  have hmarker : ¬errorsMarker <:+: trimEnd "{a: {b}} ".toList := by decide +kernel
  exact ⟨hline, htype, (normalizeExample_typeMarker_iff hline htype).2
    ⟨by decide, fun _ => by decide +kernel, hmarker⟩⟩

/-- Two groups with an operator between them are not put into braces. -/
theorem normalizeExample_typeMarker_twoGroups :
    Tag.BracesMatch "{a} | {b}".toList ∧
      ¬∃ payload, normalizeExample (typeMarker ++ "{a} | {b}".toList) =
        commentOpening ++ payload ++ commentClosing ∧ IsGroup payload := by
  refine ⟨by decide +kernel, ?_⟩
  rintro ⟨payload, heq, hgroup⟩
  have hkept : normalizeExample (typeMarker ++ "{a} | {b}".toList) =
      commentOpening ++ "{a} | {b}".toList ++ commentClosing := by decide +kernel
  rw [hkept, List.append_cancel_right_eq, List.append_cancel_left_eq] at heq
  rw [← heq] at hgroup
  revert hgroup
  decide +kernel

end ReferencePages
