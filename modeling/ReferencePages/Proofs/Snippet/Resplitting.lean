import ReferencePages.Proofs.Snippet.Nesting

/-!
# Splitting a part again

A text that is split at a separator is made of parts that have none. A part starts outside brackets
and literals, where the character before it means nothing (`splitTop_of_isTop`), so it is read again
as it was read in the text, and is one part (`splitTop_exact`).
-/

namespace ReferencePages

open Nesting

variable {n : Nesting} {sep : Char} {s : List Char}

/-- Outside brackets and literals, a text is split as it is from the start. -/
theorem splitTop_of_isTop (h : n.isTop = true) (sep : Char) (s : List Char) :
    splitTop sep n s = splitTop sep {} s := by
  obtain ⟨depth, quote, previous⟩ := n
  obtain ⟨rfl, rfl⟩ : depth = 0 ∧ quote = none := isTop_iff.1 h
  cases s with
  | nil => rfl
  | cons c s =>
    rw [splitTop, splitTop, step_of_isTop h]
    rfl

theorem splitTop_cons_of_not_cut {c : Char} (h : ¬(c = sep ∧ n.isTop = true)) (s : List Char) :
    splitTop sep n (c :: s) = (splitTop sep (n.step true c) s).modifyHead (c :: ·) :=
  if_neg h

/-- The first part is one part where the text begins, the others are from the start. -/
theorem exists_splitTop_eq_cons (sep : Char) (n : Nesting) (s : List Char) :
    ∃ first rest, splitTop sep n s = first :: rest ∧ splitTop sep n first = [first] ∧
      ∀ part ∈ rest, splitTop sep {} part = [part] := by
  induction s generalizing n with
  | nil => exact ⟨[], [], rfl, rfl, by simp⟩
  | cons c s ih =>
    by_cases hcut : c = sep ∧ n.isTop = true
    · obtain ⟨rfl, htop⟩ := hcut
      have htop' : ({ n with previous := c } : Nesting).isTop = true := htop
      obtain ⟨first, rest, hsplit, hfirst, hrest⟩ := ih { n with previous := c }
      refine ⟨[], first :: rest, ?_, rfl, List.forall_mem_cons.2 ⟨?_, hrest⟩⟩
      · rw [splitTop, if_pos ⟨rfl, htop⟩, hsplit]
      · rwa [splitTop_of_isTop htop'] at hfirst
    · obtain ⟨first, rest, hsplit, hfirst, hrest⟩ := ih (n.step true c)
      refine ⟨c :: first, rest, ?_, ?_, hrest⟩
      · rw [splitTop_cons_of_not_cut hcut, hsplit, List.modifyHead_cons]
      · rw [splitTop_cons_of_not_cut hcut, hfirst, List.modifyHead_cons]

/-- A text is one part exactly if all its separators are within brackets or literals. -/
theorem splitTop_eq_singleton_iff :
    splitTop sep n s = [s] ↔
      ∀ left right, s = left ++ sep :: right → (n.run left).isTop = false := by
  induction s generalizing n with
  | nil => simp [splitTop]
  | cons c s ih =>
    by_cases hcut : c = sep ∧ n.isTop = true
    · obtain ⟨rfl, htop⟩ := hcut
      refine iff_of_false ?_ fun h => ?_
      · rw [splitTop, if_pos ⟨rfl, htop⟩]
        simp
      · have hnot : n.isTop = false := h [] s rfl
        rw [htop] at hnot
        cases hnot
    · have hone : splitTop sep n (c :: s) = [c :: s] ↔ splitTop sep (n.step true c) s = [s] := by
        obtain ⟨first, rest, hsplit⟩ :=
          List.exists_cons_of_ne_nil (splitTop_ne_nil sep (n.step true c) s)
        rw [splitTop_cons_of_not_cut hcut, hsplit, List.modifyHead_cons]
        simp
      rw [hone, ih]
      constructor
      · rintro h (_ | ⟨d, left⟩) right hs
        · obtain ⟨rfl, -⟩ := List.cons.inj hs
          exact Bool.eq_false_iff.2 fun htop => hcut ⟨rfl, htop⟩
        · obtain ⟨rfl, hrest⟩ := List.cons.inj hs
          exact h left right hrest
      · intro h left right hs
        exact h (c :: left) right (by rw [hs, List.cons_append])

/-- The parts of a text, joined by the separator, are the text. There is at least one, and each of
them is split into itself alone: its separators are within brackets or literals. -/
theorem splitTop_exact (sep : Char) (s : List Char) :
    joinWith [sep] (splitTop sep {} s) = s ∧ splitTop sep {} s ≠ [] ∧
      ∀ part ∈ splitTop sep {} s, splitTop sep {} part = [part] ∧
        ∀ left right, part = left ++ sep :: right → (({} : Nesting).run left).isTop = false := by
  refine ⟨joinWith_splitTop sep {} s, splitTop_ne_nil sep {} s, fun part hpart => ?_⟩
  obtain ⟨first, rest, hsplit, hfirst, hrest⟩ := exists_splitTop_eq_cons sep {} s
  have hall : ∀ part ∈ first :: rest, splitTop sep {} part = [part] :=
    List.forall_mem_cons.2 ⟨hfirst, hrest⟩
  have hone := hall part (hsplit ▸ hpart)
  exact ⟨hone, splitTop_eq_singleton_iff.1 hone⟩

/-- Commas in angles, in a literal and in brackets that do not match. -/
theorem splitTop_exact_generics :
    let line := "a: Record<string, number>), b: () => '[,', c: [d, e".toList
    let part := " b: () => '[,'".toList
    splitTop ',' {} line = ["a: Record<string, number>)".toList, part, " c: [d, e".toList] ∧
      part ∈ splitTop ',' {} line ∧ splitTop ',' {} part = [part] := by
  intro line part
  have hsplit : splitTop ',' {} line =
      ["a: Record<string, number>)".toList, part, " c: [d, e".toList] := by decide +kernel
  have hpart : part ∈ splitTop ',' {} line := by
    rw [hsplit]
    simp
  exact ⟨hsplit, hpart, ((splitTop_exact ',' line).2.2 part hpart).1⟩

end ReferencePages
