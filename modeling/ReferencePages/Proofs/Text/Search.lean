import Mathlib.Data.List.TakeWhile
import ReferencePages.Text.Search

/-!
# What a search finds

A pattern matches somewhere in a text exactly if it matches at the start of one of its ends
(`hasMatch_iff`): taking the leftmost match first never hides all matches. A character that no
match covers is one where the pattern does not match (`exists_of_pieces_eq_char`), and characters
that no match covers stand in the text as they stand among the pieces (`append_of_pieces_eq`).

Two texts are replaced in one after the other if no match has to do with both
(`replaceMatches_append`); a character that no match holds always keeps them apart
(`replaceMatches_append_cons`).
-/

namespace ReferencePages

/-- What is checked of the characters of a text one after the other is true of all of them. Deciding
the statement itself may go through all characters there are. -/
theorem forall_mem_of_all {p : Char → Prop} [DecidablePred p] {s : List Char}
    (h : s.all (fun c => p c) = true) : ∀ c ∈ s, p c :=
  fun c hc => of_decide_eq_true (List.all_eq_true.1 h c hc)

/-- A cut behind one more character. -/
theorem map_cons_eq_some_iff {cut? : Option (List Char × List Char)} {c d : Char}
    {a b : List Char} :
    (cut?.map fun cut => (c :: cut.1, cut.2)) = some (d :: a, b) ↔ c = d ∧ cut? = some (a, b) := by
  cases cut? with
  | none => simp
  | some cut => simp [Prod.ext_iff, and_assoc]

/-! ## Prefixes -/

theorem dropPrefix?_eq_some_iff {p s rest : List Char} :
    dropPrefix? p s = some rest ↔ s = p ++ rest := by
  induction p generalizing s with
  | nil => simp [dropPrefix?]
  | cons a p ih =>
    cases s with
    | nil => simp [dropPrefix?]
    | cons b s =>
      by_cases h : a = b
      · simp [dropPrefix?, h, ih]
      · simp [dropPrefix?, h, Ne.symm h]

theorem startsWith_iff {p s : List Char} : startsWith p s = true ↔ ∃ rest, s = p ++ rest := by
  rw [startsWith, Option.isSome_iff_exists]
  simp only [dropPrefix?_eq_some_iff]

theorem dropSuffix?_eq_some_iff {p s rest : List Char} :
    dropSuffix? p s = some rest ↔ s = rest ++ p := by
  rw [dropSuffix?, Option.map_eq_some_iff]
  constructor
  · rintro ⟨t, ht, rfl⟩
    rw [← List.reverse_inj, dropPrefix?_eq_some_iff.1 ht, List.reverse_append,
      List.reverse_reverse]
  · rintro rfl
    exact ⟨rest.reverse, dropPrefix?_eq_some_iff.2 List.reverse_append, List.reverse_reverse rest⟩

/-- A text without the character at which another one is cut can only begin what stands before the
cut. -/
theorem exists_of_append_eq_append_cons {p t a b : List Char} {d : Char}
    (h : p ++ t = a ++ d :: b) (hd : d ∉ p) : ∃ r, a = p ++ r ∧ t = r ++ d :: b := by
  rcases List.append_eq_append_iff.1 h with ⟨r, ha, ht⟩ | ⟨r, hp, hb⟩
  · exact ⟨r, ha, ht⟩
  · cases r with
    | nil => exact ⟨[], by simpa using hp.symm, by simpa using hb.symm⟩
    | cons c r =>
      obtain ⟨rfl, -⟩ := List.cons.inj hb
      exact absurd (hp ▸ List.mem_append_right a List.mem_cons_self) hd

/-- An end without a character stands behind that character. -/
theorem exists_of_append_cons_eq_append {s p a b : List Char} {d : Char}
    (h : a ++ d :: b = s ++ p) (hd : d ∉ p) : ∃ r, b = r ++ p ∧ s = a ++ d :: r := by
  rcases List.append_eq_append_iff.1 h with ⟨r, hs, hb⟩ | ⟨r, ha, hp⟩
  · cases r with
    | nil => exact absurd ((List.nil_append p).symm.trans hb.symm ▸ List.mem_cons_self) hd
    | cons c r =>
      obtain ⟨rfl, hrest⟩ := List.cons.inj hb
      exact ⟨r, hrest, hs⟩
  · exact absurd (hp ▸ List.mem_append_right r List.mem_cons_self) hd

/-- A text is cut at the first place of a character in one way only. -/
theorem append_cons_inj {a b x y : List Char} {d : Char} (ha : d ∉ a) (hb : d ∉ b)
    (h : a ++ d :: x = b ++ d :: y) : a = b ∧ x = y := by
  obtain ⟨r, rfl, hr⟩ := exists_of_append_eq_append_cons h ha
  cases r with
  | nil => exact ⟨(List.append_nil a).symm, (List.cons.inj hr).2⟩
  | cons e r =>
    obtain ⟨rfl, -⟩ := List.cons.inj hr
    exact absurd (List.mem_append_right a List.mem_cons_self) hb

/-- A text is cut at the last place of a character in one way only. -/
theorem eq_of_append_cons_eq {a b x y : List Char} {d : Char} (hx : d ∉ x) (hy : d ∉ y)
    (h : a ++ d :: x = b ++ d :: y) : x = y := by
  rw [List.append_cons b d y] at h
  obtain ⟨r, rfl, hr⟩ := exists_of_append_cons_eq_append h hy
  rcases List.eq_nil_or_concat r with rfl | ⟨r, e, rfl⟩
  · exact List.nil_append y
  · rw [List.concat_eq_append, ← List.cons_append, ← List.append_assoc] at hr
    obtain ⟨-, hlast⟩ := List.append_inj' hr rfl
    obtain rfl := List.cons.inj hlast |>.1
    simp at hx

theorem takeWhile_ne_of_not_mem {s : List Char} {d : Char} (h : d ∉ s) :
    s.takeWhile (· != d) = s :=
  List.takeWhile_eq_self_iff.2 fun _ hc => bne_iff_ne.2 fun heq => h (heq ▸ hc)

theorem drop_length_takeWhile (p : Char → Bool) (s : List Char) :
    s.drop (s.takeWhile p).length = s.dropWhile p := by
  have happend : s.takeWhile p ++ s.dropWhile p = s := List.takeWhile_append_dropWhile
  calc s.drop (s.takeWhile p).length
      = (s.takeWhile p ++ s.dropWhile p).drop (s.takeWhile p).length := by rw [happend]
    _ = s.dropWhile p := List.drop_left

/-- Whether no end of a text begins with another one, or begins it. -/
def apart (p : List Char) : List Char → Bool
  | [] => true
  | c :: s => !p.isPrefixOf (c :: s) && !(c :: s).isPrefixOf p && apart p s

theorem apart_cons {p s : List Char} {c : Char} :
    apart p (c :: s) = true ↔ (¬p <+: c :: s ∧ ¬c :: s <+: p) ∧ apart p s = true := by
  simp only [apart, Bool.and_eq_true, Bool.not_eq_true', Bool.eq_false_iff, ne_eq,
    List.isPrefixOf_iff_prefix]

/-- A text does not begin in one that it is apart from. -/
theorem not_prefix_append {p s t : List Char} {c : Char} (h : apart p (c :: s) = true) :
    ¬p <+: c :: s ++ t := fun hp => by
  obtain ⟨⟨hlong, hshort⟩, -⟩ := apart_cons.1 h
  exact (List.prefix_or_prefix_of_prefix hp (List.prefix_append (c :: s) t)).elim hlong hshort

theorem infix_of_append {p s t : List Char} (hs : apart p s = true) (h : p <:+: s ++ t) :
    p <:+: t := by
  induction s with
  | nil => exact h
  | cons c s ih =>
    exact ih (apart_cons.1 hs).2 ((List.infix_cons_iff.1 h).resolve_left (not_prefix_append hs))

theorem not_infix_of_count_lt {p s : List Char} {c : Char} (h : s.count c < p.count c) :
    ¬p <:+: s := fun hwithin => absurd (hwithin.sublist.count_le c) (Nat.not_le.2 h)

/-- A text does not reach over a character that it does not hold. -/
theorem infix_append_cons {p a b : List Char} {d : Char} (hd : d ∉ p) (h : p <:+: a ++ d :: b) :
    p <:+: a ∨ p <:+: b := by
  obtain ⟨u, v, h⟩ := h
  rw [List.append_assoc] at h
  rcases List.append_eq_append_iff.1 h with ⟨r, rfl, hr⟩ | ⟨r, rfl, hr⟩
  · obtain ⟨r', rfl, -⟩ := exists_of_append_eq_append_cons hr hd
    exact Or.inl (List.infix_append' u p r')
  · cases r with
    | nil =>
      cases p with
      | nil => exact Or.inl (List.nil_infix)
      | cons e p =>
        obtain ⟨rfl, -⟩ := List.cons.inj hr
        exact absurd List.mem_cons_self hd
    | cons e r =>
      obtain ⟨-, rfl⟩ := List.cons.inj hr
      exact Or.inr (List.infix_append' r p v)

/-- A text that ends with the character at which another one is cut stands before the cut, ends with
it, or stands behind it. -/
theorem infix_concat_append_cons {p a b : List Char} {d : Char} (hd : d ∉ p)
    (h : p ++ [d] <:+: a ++ d :: b) : p ++ [d] <:+: a ∨ p <:+ a ∨ p ++ [d] <:+: b := by
  obtain ⟨u, v, h⟩ := h
  rw [← List.append_assoc, ← List.append_cons] at h
  rcases List.append_eq_append_iff.1 h with ⟨r, rfl, hr⟩ | ⟨r, hup, hr⟩
  · cases r with
    | nil => exact Or.inr (Or.inl ⟨u, by rw [List.append_nil]⟩)
    | cons e r =>
      obtain ⟨rfl, -⟩ := List.cons.inj hr
      exact Or.inl ⟨u, r, by simp⟩
  · cases r with
    | nil => exact Or.inr (Or.inl ⟨u, by simpa using hup⟩)
    | cons e r =>
      obtain ⟨rfl, rfl⟩ := List.cons.inj hr
      refine Or.inr (Or.inr ?_)
      rcases List.append_eq_append_iff.1 hup with ⟨k, -, rfl⟩ | ⟨k, -, hk⟩
      · exact absurd (List.mem_append_right k List.mem_cons_self) hd
      · cases k with
        | nil => exact absurd ((show d :: r = p from hk) ▸ List.mem_cons_self) hd
        | cons e k =>
          obtain ⟨-, rfl⟩ := List.cons.inj hk
          exact ⟨k, v, by simp⟩

theorem pair_infix_cons_iff {c d x : Char} {s : List Char} :
    [c, d] <:+: x :: s ↔ x = c ∧ s.head? = some d ∨ [c, d] <:+: s := by
  rw [List.infix_cons_iff, List.cons_prefix_cons]
  refine or_congr_left (and_congr eq_comm ?_)
  cases s with
  | nil => simp
  | cons y s => simp [List.cons_prefix_cons, eq_comm]

theorem pair_infix_append {c d : Char} {a b : List Char} (h : [c, d] <:+: a ++ b) :
    [c, d] <:+: a ∨ a.getLast? = some c ∧ b.head? = some d ∨ [c, d] <:+: b := by
  induction a with
  | nil => exact Or.inr (Or.inr h)
  | cons x a ih =>
    rw [List.cons_append, pair_infix_cons_iff] at h
    rcases h with ⟨rfl, hhead⟩ | h
    · cases a with
      | nil => exact Or.inr (Or.inl ⟨rfl, hhead⟩)
      | cons y a => exact Or.inl (pair_infix_cons_iff.2 (Or.inl ⟨rfl, hhead⟩))
    · rcases ih h with h | ⟨hlast, hhead⟩ | h
      · exact Or.inl (pair_infix_cons_iff.2 (Or.inr h))
      · refine Or.inr (Or.inl ⟨?_, hhead⟩)
        rw [List.getLast?_cons, hlast, Option.getD_some]
      · exact Or.inr (Or.inr h)

theorem pair_infix_of_append {c d : Char} {a b : List Char} (ha : a.getLast? = some c)
    (hb : b.head? = some d) : [c, d] <:+: a ++ b := by
  obtain ⟨a, rfl⟩ := List.getLast?_eq_some_iff.1 ha
  obtain ⟨b, rfl⟩ := List.head?_eq_some_iff.1 hb
  exact ⟨a, b, by simp⟩

theorem suffix_singleton_iff {c : Char} {s : List Char} : [c] <:+ s ↔ s.getLast? = some c := by
  rw [List.getLast?_eq_some_iff]
  exact exists_congr fun x => eq_comm

theorem endsWith_iff {p s : List Char} : endsWith p s = true ↔ p <:+ s := by
  rw [endsWith, startsWith_iff, ← List.reverse_prefix]
  exact ⟨fun ⟨rest, h⟩ => ⟨rest, h.symm⟩, fun ⟨rest, h⟩ => ⟨rest, h.symm⟩⟩

/-- A text contains another if that stands somewhere in it. -/
theorem contains_iff {p s : List Char} : contains p s = true ↔ p <:+: s := by
  induction s with
  | nil => cases p <;> simp [contains, splitAtFirst?]
  | cons c s ih =>
    rw [List.infix_cons_iff, ← ih, contains, splitAtFirst?]
    rcases h : dropPrefix? p (c :: s) with _ | rest
    · have hstart : ¬p <+: c :: s := by
        rintro ⟨rest, hrest⟩
        rw [dropPrefix?_eq_some_iff.2 hrest.symm] at h
        cases h
      simp [hstart, contains]
    · simpa using Or.inl ⟨rest, (dropPrefix?_eq_some_iff.1 h).symm⟩

theorem contains_eq_false_iff {p s : List Char} : contains p s = false ↔ ¬p <:+: s := by
  rw [← contains_iff, Bool.not_eq_true]

/-- A text is cut into what stands before a part, the part, and what stands behind it. -/
theorem append_of_splitAtFirst? {p s a b : List Char} (h : splitAtFirst? p s = some (a, b)) :
    s = a ++ p ++ b := by
  induction s generalizing a with
  | nil =>
    rw [splitAtFirst?] at h
    split at h
    · next hp =>
      obtain ⟨rfl, rfl⟩ := Prod.mk.inj (Option.some.inj h)
      simp [List.isEmpty_iff.1 hp]
    · cases h
  | cons c s ih =>
    rw [splitAtFirst?] at h
    split at h
    · next rest hrest =>
      obtain ⟨rfl, rfl⟩ := Prod.mk.inj (Option.some.inj h)
      rw [dropPrefix?_eq_some_iff.1 hrest, List.nil_append]
    · obtain ⟨⟨a', b'⟩, hcut, heq⟩ := Option.map_eq_some_iff.1 h
      obtain ⟨rfl, rfl⟩ := Prod.mk.inj heq
      rw [ih hcut]
      rfl

/-- Where a text is cut at a part, the part does not stand before. -/
theorem not_infix_of_splitAtFirst? {p s a b : List Char} (hp : p ≠ [])
    (h : splitAtFirst? p s = some (a, b)) : ¬p <:+: a := by
  induction s generalizing a with
  | nil => simp [splitAtFirst?, hp] at h
  | cons c s ih =>
    rw [splitAtFirst?] at h
    split at h
    · obtain ⟨rfl, -⟩ := Prod.mk.inj (Option.some.inj h)
      exact fun hin => hp (List.infix_nil.1 hin)
    · next hstart =>
      obtain ⟨⟨a', b'⟩, hcut, heq⟩ := Option.map_eq_some_iff.1 h
      obtain ⟨rfl, rfl⟩ := Prod.mk.inj heq
      rw [List.infix_cons_iff, not_or]
      refine ⟨fun ⟨r, hr⟩ => ?_, ih hcut⟩
      have hcons : c :: s = p ++ (r ++ (p ++ b')) := by
        rw [append_of_splitAtFirst? hcut, ← List.append_assoc, hr]
        simp
      rw [dropPrefix?_eq_some_iff.2 hcons] at hstart
      cases hstart

/-- A text is cut where a part first stands in it. -/
theorem splitAtFirst?_append {p a : List Char} (h : ¬p <:+: a ++ p.dropLast) (b : List Char) :
    splitAtFirst? p (a ++ p ++ b) = some (a, b) := by
  induction a with
  | nil =>
    cases p with
    | nil => exact absurd List.nil_infix h
    | cons c p =>
      rw [List.nil_append, List.cons_append, splitAtFirst?, ← List.cons_append,
        dropPrefix?_eq_some_iff.2 rfl]
  | cons c a ih =>
    have hstart : dropPrefix? p (c :: a ++ p ++ b) = none := by
      refine Option.eq_none_iff_forall_ne_some.2 fun rest hrest => h ?_
      have hprefix : p <+: (c :: a ++ p.dropLast) ++ (p.drop (p.length - 1) ++ b) := by
        refine ⟨rest, ?_⟩
        rw [← dropPrefix?_eq_some_iff.1 hrest, List.dropLast_eq_take]
        simp only [List.append_assoc, List.cons_append, List.append_cancel_left_eq,
          List.cons.injEq, true_and]
        rw [← List.append_assoc (p.take _), List.take_append_drop]
      refine (List.prefix_of_prefix_length_le hprefix (List.prefix_append _ _) ?_).isInfix
      rw [List.length_append, List.length_dropLast, List.length_cons]
      omega
    rw [List.cons_append, List.cons_append] at hstart ⊢
    rw [splitAtFirst?, hstart, ih fun hin =>
      h (hin.trans (List.infix_cons (List.infix_refl _)))]
    rfl

/-- A text in which the start of a part is missing is passed over. -/
theorem splitAtFirst?_append_of_not_mem {c : Char} {p a : List Char} (h : c ∉ a) (s : List Char) :
    splitAtFirst? (c :: p) (a ++ s) =
      (splitAtFirst? (c :: p) s).map fun cut => (a ++ cut.1, cut.2) := by
  induction a with
  | nil => simp
  | cons d a ih =>
    obtain ⟨hd, ha⟩ := List.ne_and_not_mem_of_not_mem_cons h
    rw [List.cons_append, splitAtFirst?, dropPrefix?, if_neg hd, ih ha, Option.map_map]
    rfl

/-! ## Pieces -/

section

variable {α : Type} {pattern : Pattern α} {c : Char} {s t : List Char}

@[simp] theorem pieces_nil : pieces pattern [] = [] := by
  rw [pieces]

theorem pieces_cons_of_some {x : α} {n : Nat} (h : pattern (c :: s) = some (x, n)) :
    pieces pattern (c :: s) = .hit x :: pieces pattern (s.drop n) := by
  rw [pieces, h]

theorem pieces_cons_of_none (h : pattern (c :: s) = none) :
    pieces pattern (c :: s) = .char c :: pieces pattern s := by
  rw [pieces, h]

/-- A pattern matches in a text exactly if it matches at the start of one of its ends. -/
theorem hasMatch_iff :
    hasMatch pattern s = true ↔ ∃ a c b, s = a ++ c :: b ∧ (pattern (c :: b)).isSome := by
  induction s with
  | nil => simp [hasMatch]
  | cons c s ih =>
    rcases h : pattern (c :: s) with _ | ⟨x, n⟩
    · rw [hasMatch, pieces_cons_of_none h]
      simp only [List.any_cons, Bool.false_or]
      refine ih.trans ⟨?_, ?_⟩
      · rintro ⟨a, d, b, rfl, hmatch⟩
        exact ⟨c :: a, d, b, rfl, hmatch⟩
      · rintro ⟨a, d, b, hs, hmatch⟩
        cases a with
        | nil =>
          obtain ⟨rfl, rfl⟩ := List.cons.inj hs
          simp [h] at hmatch
        | cons a₀ a =>
          obtain ⟨-, rfl⟩ := List.cons.inj hs
          exact ⟨a, d, b, rfl, hmatch⟩
    · rw [hasMatch, pieces_cons_of_some h]
      simp only [List.any_cons, Bool.true_or, true_iff]
      exact ⟨[], c, s, rfl, by simp [h]⟩

/-- A match at the start is a piece, and the search goes on behind it. -/
theorem pieces_append_of_some {m : List Char} {x : α} {n : Nat}
    (h : pattern (m ++ s) = some (x, n)) (hn : n + 1 = m.length) :
    pieces pattern (m ++ s) = .hit x :: pieces pattern s := by
  cases m with
  | nil => cases hn
  | cons c m =>
    obtain rfl : n = m.length := by simpa using hn
    rw [List.cons_append] at h ⊢
    rw [pieces_cons_of_some h, List.drop_left]

/-- What no match begins in is laid out as its characters. -/
theorem pieces_append_of_none (h : ∀ u v, s = u ++ v → v ≠ [] → pattern (v ++ t) = none) :
    pieces pattern (s ++ t) = s.map .char ++ pieces pattern t := by
  induction s with
  | nil => rfl
  | cons c s ih =>
    have hc : pattern (c :: (s ++ t)) = none := h [] (c :: s) rfl (List.cons_ne_nil c s)
    rw [List.cons_append, pieces_cons_of_none hc, List.map_cons, List.cons_append,
      ih fun u v hs hv => h (c :: u) v (congrArg (c :: ·) hs) hv]

theorem pieces_of_not_hasMatch (h : hasMatch pattern s = false) :
    pieces pattern s = s.map .char := by
  induction s with
  | nil => simp
  | cons c s ih =>
    rcases hc : pattern (c :: s) with _ | ⟨x, n⟩
    · rw [hasMatch, pieces_cons_of_none hc] at h
      rw [pieces_cons_of_none hc, List.map_cons, ih h]
    · rw [hasMatch, pieces_cons_of_some hc] at h
      cases h

/-- A text without a match stays as it is. -/
theorem replaceMatches_of_not_hasMatch {f : α → List Char} (h : hasMatch pattern s = false) :
    replaceMatches pattern f s = s := by
  rw [replaceMatches, pieces_of_not_hasMatch h, List.flatMap_map]
  exact List.flatMap_singleton' s

/-- A pattern does not match at a character that stands among the pieces of a text. -/
theorem exists_of_pieces_eq_char {before rest : List (Piece α)}
    (h : pieces pattern s = before ++ .char c :: rest) :
    ∃ a b, s = a ++ c :: b ∧ pattern (c :: b) = none ∧ pieces pattern b = rest := by
  fun_induction pieces pattern s generalizing before with
  | case1 => simp at h
  | case2 d s x n hd ih =>
    rcases before with _ | ⟨p, before⟩
    · simp at h
    · obtain ⟨-, h⟩ := List.cons.inj h
      obtain ⟨a, b, hs, hb⟩ := ih h
      refine ⟨d :: (s.take n ++ a), b, ?_, hb⟩
      rw [List.cons_append, List.append_assoc, ← hs, List.take_append_drop]
  | case3 d s hd ih =>
    rcases before with _ | ⟨p, before⟩
    · obtain ⟨hdc, hrest⟩ := List.cons.inj h
      obtain rfl : d = c := by simpa using hdc
      exact ⟨[], s, rfl, hd, hrest⟩
    · obtain ⟨-, h⟩ := List.cons.inj h
      obtain ⟨a, b, rfl, hb⟩ := ih h
      exact ⟨d :: a, b, rfl, hb⟩

/-- Characters that come first among the pieces of a text come first in it. -/
theorem append_of_pieces_eq {cs : List Char} {rest : List (Piece α)}
    (h : pieces pattern s = cs.map .char ++ rest) : ∃ b, s = cs ++ b := by
  induction cs generalizing s with
  | nil => exact ⟨s, rfl⟩
  | cons c cs ih =>
    cases s with
    | nil => simp at h
    | cons d s =>
      rcases hd : pattern (d :: s) with _ | ⟨x, n⟩
      · rw [pieces_cons_of_none hd] at h
        obtain ⟨hdc, hrest⟩ := List.cons.inj h
        obtain rfl : d = c := by simpa using hdc
        obtain ⟨b, rfl⟩ := ih hrest
        exact ⟨b, rfl⟩
      · rw [pieces_cons_of_some hd] at h
        simp at h

end

/-! ## Replacing -/

section

variable {α : Type} {pattern : Pattern α} {f : α → List Char} {c : Char} {p s t : List Char}

@[simp] theorem replaceMatches_nil : replaceMatches pattern f [] = [] := by
  rw [replaceMatches, pieces_nil, List.flatMap_nil]

theorem replaceMatches_cons_of_none (h : pattern (c :: s) = none) :
    replaceMatches pattern f (c :: s) = c :: replaceMatches pattern f s := by
  rw [replaceMatches, pieces_cons_of_none h, List.flatMap_cons]
  rfl

/-- A match at the start is replaced, and the search goes on behind it. -/
theorem replaceMatches_append_of_some {m : List Char} {x : α} {n : Nat}
    (h : pattern (m ++ s) = some (x, n)) (hn : n + 1 = m.length) :
    replaceMatches pattern f (m ++ s) = f x ++ replaceMatches pattern f s := by
  rw [replaceMatches, pieces_append_of_some h hn, List.flatMap_cons]
  rfl

/-- What no match begins in stays as it is. -/
theorem replaceMatches_append_of_none (h : ∀ u v, s = u ++ v → v ≠ [] → pattern (v ++ t) = none) :
    replaceMatches pattern f (s ++ t) = s ++ replaceMatches pattern f t := by
  rw [replaceMatches, pieces_append_of_none h, List.flatMap_append, List.flatMap_map]
  exact congrArg (· ++ _) (List.flatMap_singleton' s)

/-- Two texts are searched one after the other if no match in the first one has to do with the
second one. -/
theorem replaceMatches_append
    (h : ∀ u v, s = u ++ v → v ≠ [] →
      pattern (v ++ t) = pattern v ∧ ∀ x n, pattern v = some (x, n) → n < v.length) :
    replaceMatches pattern f (s ++ t) =
      replaceMatches pattern f s ++ replaceMatches pattern f t := by
  induction s using pieces.induct pattern with
  | case1 => rw [replaceMatches_nil, List.nil_append, List.nil_append]
  | case2 c s x n hc ih =>
    obtain ⟨hsame, hlt⟩ := h [] (c :: s) rfl (List.cons_ne_nil c s)
    have hlength : n + 1 = (c :: s.take n).length := by
      have := hlt x n hc
      simp only [List.length_cons, List.length_take] at this ⊢
      omega
    have hsplit : c :: s = c :: s.take n ++ s.drop n := by
      rw [List.cons_append, List.take_append_drop]
    have hrest := ih fun u v hs hv => h (c :: s.take n ++ u) v
      (by rw [hsplit, hs, List.append_assoc]) hv
    rw [hsplit, List.append_assoc,
      replaceMatches_append_of_some (by rw [← List.append_assoc, ← hsplit, hsame, hc]) hlength,
      replaceMatches_append_of_some (by rw [← hsplit, hc]) hlength, hrest, List.append_assoc]
  | case3 c s hc ih =>
    have hc' : pattern (c :: (s ++ t)) = none :=
      (h [] (c :: s) rfl (List.cons_ne_nil c s)).1.trans hc
    rw [List.cons_append, replaceMatches_cons_of_none hc', replaceMatches_cons_of_none hc,
      List.cons_append, ih fun u v hs hv => h (c :: u) v (congrArg (c :: ·) hs) hv]

/-- A character that no match holds cuts the search in two. -/
theorem replaceMatches_append_cons (hsame : ∀ v, pattern (v ++ c :: t) = pattern v)
    (hlt : ∀ v x n, pattern v = some (x, n) → n < v.length) :
    replaceMatches pattern f (s ++ c :: t) =
      replaceMatches pattern f s ++ c :: replaceMatches pattern f t := by
  have hnone : pattern (c :: t) = none := by
    refine (hsame []).trans (Option.eq_none_iff_forall_ne_some.2 fun ⟨x, n⟩ hmatch => ?_)
    cases hlt [] x n hmatch
  rw [replaceMatches_append fun _ v _ _ => ⟨hsame v, hlt v⟩, replaceMatches_cons_of_none hnone]

/-- Up to a character that no match goes over from its start, a text without what stands at the
start of all matches stays as it is. -/
theorem replaceMatches_append_cons_of_not_infix
    (h : ∀ v x n, pattern v = some (x, n) → ∃ w, w <+: v ∧ c ∉ w ∧ p <:+: w) (hs : ¬p <:+: s) :
    replaceMatches pattern f (s ++ c :: t) = s ++ c :: replaceMatches pattern f t := by
  rw [List.append_cons s c t, List.append_cons s c (replaceMatches pattern f t)]
  refine replaceMatches_append_of_none fun u v huv hv => ?_
  refine Option.eq_none_iff_forall_ne_some.2 fun ⟨x, n⟩ hmatch => hs ?_
  obtain ⟨v, d, rfl⟩ := List.eq_nil_or_concat v |>.resolve_left hv
  rw [List.concat_eq_append] at huv hmatch
  obtain ⟨rfl, hd⟩ := List.append_inj' (huv.trans (List.append_assoc u v [d]).symm) rfl
  obtain rfl := List.cons.inj hd |>.1
  obtain ⟨w, ⟨rest, hw⟩, hc, hp⟩ := h _ x n hmatch
  rw [← List.append_cons] at hw
  obtain ⟨r, rfl, -⟩ := exists_of_append_eq_append_cons hw hc
  exact hp.trans ⟨u, r, List.append_assoc u w r⟩

/-- A text without what stands in all matches stays as it is. -/
theorem replaceMatches_of_not_infix (h : ∀ s x n, pattern s = some (x, n) → p <:+: s)
    (hs : ¬p <:+: s) : replaceMatches pattern f s = s := by
  refine replaceMatches_of_not_hasMatch (Bool.eq_false_iff.2 fun hmatch => hs ?_)
  obtain ⟨a, c, b, rfl, hsome⟩ := hasMatch_iff.1 hmatch
  obtain ⟨⟨x, n⟩, hx⟩ := Option.isSome_iff_exists.1 hsome
  exact (h _ x n hx).trans (List.suffix_append a (c :: b)).isInfix

/-- A text that is apart from the beginning of all replacements is not put in. -/
theorem exists_of_replaceMatches_eq_append {m w : List Char}
    (hf : ∀ s x n, pattern s = some (x, n) → p <+: f x) (hm : apart p m = true)
    (h : replaceMatches pattern f s = m ++ w) :
    ∃ b, s = m ++ b ∧ w = replaceMatches pattern f b := by
  induction m generalizing s with
  | nil => exact ⟨s, rfl, h.symm⟩
  | cons d m ih =>
    cases s with
    | nil =>
      rw [replaceMatches_nil] at h
      cases h
    | cons c s =>
      rcases hc : pattern (c :: s) with _ | ⟨x, n⟩
      · rw [replaceMatches_cons_of_none hc] at h
        obtain ⟨rfl, htail⟩ := List.cons.inj h
        obtain ⟨b, rfl, hw⟩ := ih (apart_cons.1 hm).2 htail
        exact ⟨b, rfl, hw⟩
      · rw [replaceMatches, pieces_cons_of_some hc, List.flatMap_cons] at h
        exact absurd (h ▸ (hf _ x n hc).trans (List.prefix_append _ _)) (not_prefix_append hm)

/-- A text that stands in all replacements is never lost. -/
theorem infix_replaceMatches (h : ∀ s x n, pattern s = some (x, n) → p <:+: f x)
    (hs : p <:+: s) : p <:+: replaceMatches pattern f s := by
  cases hmatch : hasMatch pattern s with
  | false => rwa [replaceMatches_of_not_hasMatch hmatch]
  | true =>
    clear hs
    induction s using pieces.induct pattern with
    | case1 => simp [hasMatch] at hmatch
    | case2 c s x n hc ih =>
      rw [replaceMatches, pieces_cons_of_some hc, List.flatMap_cons]
      exact (h _ x n hc).trans (List.infix_append' [] _ _)
    | case3 c s hc ih =>
      rw [hasMatch, pieces_cons_of_none hc] at hmatch
      rw [replaceMatches_cons_of_none hc]
      exact (ih hmatch).trans (List.suffix_cons c _).isInfix

end

/-- A text matches where it begins. -/
theorem exactly_eq_some_iff {p s : List Char} {x : Unit} {n : Nat} :
    exactly p s = some (x, n) ↔ n + 1 = p.length ∧ p <+: s := by
  have hlength : p ≠ [] → 0 < p.length := List.length_pos_iff.2
  rw [exactly]
  split
  · next hp => simp [List.isEmpty_iff.1 hp]
  · next hp =>
    have hpos := hlength fun hnil => hp (List.isEmpty_iff.2 hnil)
    rw [Option.map_eq_some_iff]
    simp only [dropPrefix?_eq_some_iff]
    constructor
    · rintro ⟨rest, rfl, hn⟩
      obtain ⟨-, rfl⟩ := Prod.mk.inj hn
      exact ⟨by omega, List.prefix_append p rest⟩
    · rintro ⟨hn, rest, rfl⟩
      exact ⟨rest, rfl, Prod.ext rfl (by omega)⟩

/-- A character that a text does not hold cuts the search for that text in two. -/
theorem replaceAll_append_cons {p q a b : List Char} {c : Char} (hc : c ∉ p) :
    replaceAll p q (a ++ c :: b) = replaceAll p q a ++ c :: replaceAll p q b := by
  refine replaceMatches_append_cons (fun v => Option.ext fun ⟨x, n⟩ => ?_) fun v x n hmatch => ?_
  · rw [exactly_eq_some_iff, exactly_eq_some_iff]
    refine and_congr_right fun _ => ⟨fun ⟨t, ht⟩ => ?_, fun h => h.trans (List.prefix_append v _)⟩
    obtain ⟨r, rfl, -⟩ := exists_of_append_eq_append_cons ht hc
    exact List.prefix_append p r
  · obtain ⟨hn, hprefix⟩ := exactly_eq_some_iff.1 hmatch
    have := hprefix.length_le
    omega

/-- The rest of a text behind a match of a text. -/
theorem exactly_cons_eq_some {p s : List Char} {c : Char} {x : Unit} {n : Nat}
    (h : exactly p (c :: s) = some (x, n)) : c :: s = p ++ s.drop n := by
  cases p with
  | nil => cases h
  | cons d p =>
    obtain ⟨rest, hrest, hn⟩ := Option.map_eq_some_iff.1 h
    obtain ⟨-, rfl⟩ := Prod.mk.inj hn
    obtain ⟨rfl, rfl⟩ := List.cons.inj (dropPrefix?_eq_some_iff.1 hrest)
    simp

/-- Replacing keeps the number of times a character occurs that neither text holds. -/
theorem count_replaceAll {p q : List Char} {c : Char} (hp : c ∉ p) (hq : c ∉ q) (s : List Char) :
    (replaceAll p q s).count c = s.count c := by
  induction s using pieces.induct (exactly p) with
  | case1 => rw [replaceAll, replaceMatches_nil]
  | case2 d s x n hmatch ih =>
    rw [replaceAll] at ih ⊢
    rw [replaceMatches, pieces_cons_of_some hmatch, List.flatMap_cons]
    calc (q ++ replaceMatches (exactly p) (fun _ => q) (s.drop n)).count c
        = (s.drop n).count c := by rw [List.count_append, List.count_eq_zero.2 hq, ih, Nat.zero_add]
      _ = (p ++ s.drop n).count c := by
        rw [List.count_append, List.count_eq_zero.2 hp, Nat.zero_add]
      _ = (d :: s).count c := by rw [← exactly_cons_eq_some hmatch]
  | case3 d s hnone ih =>
    rw [replaceAll] at ih ⊢
    rw [replaceMatches_cons_of_none hnone, List.count_cons, List.count_cons, ih]

section

variable {α : Type} {f : Piece α → List Char}

/-- The piece that fills in a character of the text which pieces are filled in to. -/
theorem exists_of_flatMap_eq_cons {ps : List (Piece α)} {a b : List Char} {c : Char}
    (h : ps.flatMap f = a ++ c :: b) :
    ∃ before p after, ps = before ++ p :: after ∧ (before.flatMap f).length ≤ a.length ∧
      a.length < (before.flatMap f).length + (f p).length := by
  induction ps generalizing a with
  | nil => simp at h
  | cons p ps ih =>
    rw [List.flatMap_cons] at h
    by_cases hlt : a.length < (f p).length
    · exact ⟨[], p, ps, rfl, by simp, by simpa using hlt⟩
    · obtain ⟨a', rfl⟩ : ∃ a', a = f p ++ a' :=
        (List.prefix_of_prefix_length_le (h ▸ List.prefix_append _ _) (List.prefix_append _ _)
          (by omega)).imp fun _ => Eq.symm
      rw [List.append_assoc, List.append_cancel_left_eq] at h
      obtain ⟨before, q, after, rfl, hle, hlt'⟩ := ih h
      refine ⟨p :: before, q, after, rfl, ?_, ?_⟩
      · simpa using hle
      · simp only [List.flatMap_cons, List.length_append]
        omega

/-- A text that begins what pieces are filled in to consists of pieces that are characters, unless
a match is filled in before its end. -/
theorem prefix_of_flatMap_eq_append {ps : List (Piece α)} {m b : List Char}
    (hf : ∀ c, f (.char c) = [c]) (h : ps.flatMap f = m ++ b) :
    (∃ after, ps = m.map .char ++ after) ∨
      ∃ (cs : List Char) (x : α) (after : List (Piece α)),
        ps = cs.map .char ++ .hit x :: after ∧ cs.length < m.length := by
  induction m generalizing ps with
  | nil => exact Or.inl ⟨ps, rfl⟩
  | cons c m ih =>
    rcases ps with _ | ⟨d | x, ps⟩
    · simp at h
    · rw [List.flatMap_cons, hf] at h
      obtain ⟨rfl, hrest⟩ := List.cons.inj h
      rcases ih hrest with ⟨after, rfl⟩ | ⟨cs, x, after, rfl, hlt⟩
      · exact Or.inl ⟨after, rfl⟩
      · exact Or.inr ⟨d :: cs, x, after, rfl, by simpa using hlt⟩
    · exact Or.inr ⟨[], x, ps, rfl, by simp⟩

end

end ReferencePages
