import Mathlib.Data.List.Infix
import ReferencePages.Proofs.Snippet.Breaking

/-!
# The bracket that closes a parenthesis

The brackets of a text outside literals are counted, all kinds alike. Behind a parenthesis the first
bracket closes it that has as many closing brackets as opening ones before it (`Nesting.Closes`).
This is where the search for it ends (`cutClose?_paren_eq_some_iff`): until then, the parenthesis
stays open behind every character (`Nesting.LeavesOne`).
-/

namespace ReferencePages

variable {n : Nesting} {s inner close : List Char} {c : Char}

/-! ## Brackets outside literals -/

/-- An opening bracket; angles are none. -/
def isOpener (c : Char) : Bool := c == '(' || c == '[' || c == '\x7b'

namespace Nesting

/-- Behind a text, where angles are no brackets. -/
def runPlain (n : Nesting) (s : List Char) : Nesting := s.foldl (step false) n

/-- The brackets of a text that stand outside literals, where angles are none. -/
def brackets (n : Nesting) : List Char → List Char
  | [] => []
  | c :: s =>
    if n.quote = none ∧ (isOpener c || isCloser c) = true then c :: brackets (n.step false c) s
    else brackets (n.step false c) s

/-- How many brackets a text opens. -/
def opened (n : Nesting) (s : List Char) : Nat := (n.brackets s).countP isOpener

/-- How many brackets a text closes. -/
def closed (n : Nesting) (s : List Char) : Nat := (n.brackets s).countP isCloser

/-- A text closes all brackets that are open before it and those that it opens itself but one, and
none of its beginnings closes this one. -/
structure LeavesOne (n : Nesting) (s : List Char) : Prop where
  stays (p : List Char) (h : p <+: s) : n.closed p < n.depth + n.opened p
  ends : n.depth + n.opened s = n.closed s + 1

theorem runPlain_cons (n : Nesting) (c : Char) (s : List Char) :
    n.runPlain (c :: s) = (n.step false c).runPlain s := rfl

theorem isOpener_of_isCloser (hc : isCloser c = true) : isOpener c = false := by
  simp only [isCloser, Bool.or_eq_true, beq_iff_eq] at hc
  rcases hc with (rfl | rfl) | rfl <;> rfl

theorem step_closer (hquote : n.quote = none) (hc : isCloser c = true) :
    n.step false c = { n with depth := n.depth - 1, previous := c } := by
  obtain ⟨depth, quote, previous⟩ := n
  obtain rfl : quote = none := hquote
  simp only [isCloser, Bool.or_eq_true, beq_iff_eq] at hc
  rcases hc with (rfl | rfl) | rfl <;> rfl

theorem step_opener (hquote : n.quote = none) (hc : isOpener c = true) :
    n.step false c = { n with depth := n.depth + 1, previous := c } := by
  obtain ⟨depth, quote, previous⟩ := n
  obtain rfl : quote = none := hquote
  simp only [isOpener, Bool.or_eq_true, beq_iff_eq] at hc
  rcases hc with (rfl | rfl) | rfl <;> rfl

/-- Only a bracket outside literals changes how many are open. -/
theorem depth_step_of_not_bracket
    (h : ¬(n.quote = none ∧ (isOpener c || isCloser c) = true)) :
    (n.step false c).depth = n.depth := by
  obtain ⟨depth, _ | q, previous⟩ := n
  · obtain ⟨hopener, hcloser⟩ : isOpener c = false ∧ isCloser c = false := by simpa using h
    simp only [isOpener, isCloser, Bool.or_eq_false_iff, beq_eq_false_iff_ne] at hopener hcloser
    simp only [step, hopener, hcloser]
    split <;> simp
  · rfl

/-- A character opens as many brackets as it adds to those that are open. -/
theorem depth_step_add (hdepth : 0 < n.depth) (c : Char) (p : List Char) :
    (n.step false c).depth + (n.step false c).opened p + n.closed (c :: p) =
      n.depth + n.opened (c :: p) + (n.step false c).closed p := by
  rw [opened, opened, closed, closed, brackets]
  split
  · next hbracket =>
    obtain ⟨hquote, hc⟩ := hbracket
    rw [List.countP_cons, List.countP_cons]
    cases hcloser : isCloser c with
    | true =>
      rw [step_closer hquote hcloser, isOpener_of_isCloser hcloser]
      simp
      omega
    | false =>
      rw [hcloser, Bool.or_false] at hc
      rw [step_opener hquote hc, hc]
      simp
      omega
  · next hbracket => rw [depth_step_of_not_bracket hbracket, Nat.add_right_comm]

theorem LeavesOne.pos (h : n.LeavesOne s) : 0 < n.depth := by
  simpa [closed, opened, brackets] using h.stays [] List.nil_prefix

theorem leavesOne_nil : n.LeavesOne [] ↔ n.depth = 1 := by
  refine ⟨fun h => by simpa [closed, opened, brackets] using h.ends, fun h => ⟨fun p hp => ?_, ?_⟩⟩
  · rw [List.prefix_nil.1 hp, h]
    exact Nat.one_pos
  · rw [h]
    rfl

theorem leavesOne_cons :
    n.LeavesOne (c :: s) ↔ 0 < n.depth ∧ (n.step false c).LeavesOne s := by
  constructor
  · intro h
    have hcount := depth_step_add h.pos c
    refine ⟨h.pos, fun p hp => ?_, by have := h.ends; have := hcount s; omega⟩
    have hstays := h.stays (c :: p) (List.cons_prefix_cons.2 ⟨rfl, hp⟩)
    have := hcount p
    omega
  · rintro ⟨hdepth, hstays, hends⟩
    have hcount := depth_step_add hdepth c
    refine ⟨fun p hp => ?_, by have := hcount s; omega⟩
    rcases List.prefix_cons_iff.1 hp with rfl | ⟨q, rfl, hq⟩
    · simpa [closed, opened, brackets] using hdepth
    · have := hstays q hq
      have := hcount q
      omega

/-! ## The bracket that closes a parenthesis -/

/-- Behind a parenthesis outside brackets and literals. -/
def behindParen : Nesting := ({} : Nesting).step false '('

/-- A bracket behind a text closes the parenthesis before the text: it stands outside literals, and
the text has as many closing brackets as opening ones. -/
structure Closes (inside : List Char) (c : Char) : Prop where
  closer : isCloser c = true
  outside : (behindParen.runPlain inside).quote = none
  balanced : behindParen.closed inside = behindParen.opened inside

theorem brackets_append (n : Nesting) (s t : List Char) :
    n.brackets (s ++ t) = n.brackets s ++ (n.runPlain s).brackets t := by
  induction s generalizing n with
  | nil => rfl
  | cons c s ih =>
    rw [List.cons_append, brackets, brackets, runPlain_cons, ih]
    split <;> rfl

theorem closed_concat (n : Nesting) (s : List Char) (c : Char) :
    n.closed (s ++ [c]) =
      n.closed s + if (n.runPlain s).quote = none ∧ isCloser c = true then 1 else 0 := by
  rw [closed, brackets_append, List.countP_append, ← closed, brackets]
  by_cases hquote : (n.runPlain s).quote = none
  · cases hcloser : isCloser c <;> cases hopener : isOpener c <;> simp [brackets, *]
  · simp [brackets, hquote]

theorem opened_le_concat (n : Nesting) (s : List Char) (c : Char) :
    n.opened s ≤ n.opened (s ++ [c]) := by
  rw [opened, opened, brackets_append, List.countP_append]
  exact Nat.le_add_right _ _

theorem opened_concat_of_isCloser (n : Nesting) (s : List Char) (hc : isCloser c = true) :
    n.opened (s ++ [c]) = n.opened s := by
  rw [opened, brackets_append, List.countP_append, ← opened, brackets]
  split <;> simp [brackets, isOpener_of_isCloser hc]

/-- A text leaves only the parenthesis before it open if it has as many closing brackets as opening
ones, and no bracket of it closes the parenthesis. -/
theorem leavesOne_behindParen_iff :
    behindParen.LeavesOne s ↔ behindParen.closed s = behindParen.opened s ∧
      ∀ p c q, s = p ++ c :: q → ¬Closes p c := by
  have hone : behindParen.depth = 1 := rfl
  constructor
  · rintro ⟨hstays, hends⟩
    refine ⟨by omega, ?_⟩
    rintro p c q rfl hcloses
    have hstill := hstays (p ++ [c]) ⟨q, by simp⟩
    rw [closed_concat, if_pos ⟨hcloses.outside, hcloses.closer⟩,
      opened_concat_of_isCloser _ _ hcloses.closer, hcloses.balanced] at hstill
    omega
  · rintro ⟨hbalanced, hfirst⟩
    refine ⟨fun p hp => ?_, by omega⟩
    suffices hle : behindParen.closed p ≤ behindParen.opened p by omega
    induction p using List.reverseRecOn with
    | nil => exact Nat.le_refl 0
    | append_singleton p c ih =>
      have hbefore := ih ((List.prefix_append p [c]).trans hp)
      obtain ⟨q, rfl⟩ := hp
      have hgrows := opened_le_concat behindParen p c
      rw [closed_concat]
      split
      · next hc =>
        -- Brackets that were balanced before this one would be closed by it.
        have hne : behindParen.closed p ≠ behindParen.opened p := fun heq =>
          hfirst p c q (by simp) ⟨hc.2, hc.1, heq⟩
        omega
      · omega

/-! ## The end of the search -/

/-- Outside literals, brackets stay open behind a character that is no closing bracket. -/
theorem le_depth_step (h : ¬(n.quote = none ∧ isCloser c = true)) :
    n.depth ≤ (n.step false c).depth := by
  by_cases hbracket : n.quote = none ∧ (isOpener c || isCloser c) = true
  · obtain ⟨hquote, hc⟩ := hbracket
    have hopener : isOpener c = true := by
      rcases Bool.or_eq_true_iff.1 hc with hopener | hcloser
      · exact hopener
      · exact absurd ⟨hquote, hcloser⟩ h
    rw [step_opener hquote hopener]
    exact Nat.le_succ _
  · exact (depth_step_of_not_bracket hbracket).ge

/-- The search for the closing bracket ends at a bracket that closes the only one that is open. -/
theorem cutClose?_cons (n : Nesting) (c : Char) (s : List Char) :
    cutClose? n (c :: s) =
      if n.quote = none ∧ isCloser c = true ∧ n.depth = 1 then some ([], c :: s)
      else (cutClose? (n.step false c) s).map fun cut => (c :: cut.1, cut.2) := by
  rw [cutClose?]
  refine if_congr ?_ rfl rfl
  constructor
  · rintro ⟨hquote, hone, hzero⟩
    refine ⟨hquote, by_contra fun hcloser => ?_, hone⟩
    have hle : n.depth ≤ (n.step false c).depth := le_depth_step fun h => hcloser h.2
    omega
  · rintro ⟨hquote, hcloser, hone⟩
    rw [step_closer hquote hcloser]
    exact ⟨hquote, hone, by simp [hone]⟩

/-- As long as the search goes on, a bracket is open. -/
theorem depth_step_pos (hdepth : 0 < n.depth)
    (h : ¬(n.quote = none ∧ isCloser c = true ∧ n.depth = 1)) : 0 < (n.step false c).depth := by
  by_cases hcloser : n.quote = none ∧ isCloser c = true
  · rw [step_closer hcloser.1 hcloser.2]
    have hne : n.depth ≠ 1 := fun hone => h ⟨hcloser.1, hcloser.2, hone⟩
    dsimp only
    omega
  · exact hdepth.trans_le (le_depth_step hcloser)

/-- A text is cut at the first bracket outside literals that closes the last one that is open. -/
theorem cutClose?_eq_some_iff (hdepth : 0 < n.depth) :
    cutClose? n s = some (inner, close) ↔ s = inner ++ close ∧
      (∃ c after, close = c :: after ∧ isCloser c = true) ∧
      (n.runPlain inner).quote = none ∧ n.LeavesOne inner := by
  induction s generalizing n inner with
  | nil =>
    refine iff_of_false nofun ?_
    rintro ⟨hs, ⟨c, after, rfl, -⟩, -⟩
    simp at hs
  | cons c s ih =>
    rw [cutClose?_cons]
    split
    · next h =>
      obtain ⟨hquote, hcloser, hone⟩ := h
      cases inner with
      | nil =>
        rw [leavesOne_nil]
        constructor
        · rintro ⟨⟩
          exact ⟨rfl, ⟨c, s, rfl, hcloser⟩, hquote, hone⟩
        · rintro ⟨rfl, -⟩
          rfl
      | cons d inner =>
        refine iff_of_false (by simp) ?_
        rintro ⟨hcons, -, -, hopen⟩
        obtain ⟨rfl, -⟩ := List.cons.inj hcons
        have hpos := (leavesOne_cons.1 hopen).2.pos
        rw [step_closer hquote hcloser, hone] at hpos
        exact Nat.lt_irrefl 0 hpos
    · next h =>
      cases inner with
      | nil =>
        refine iff_of_false (by simp) ?_
        rintro ⟨rfl, ⟨d, after, hcons, hcloser⟩, hquote, hopen⟩
        obtain ⟨rfl, -⟩ := List.cons.inj hcons
        exact h ⟨hquote, hcloser, leavesOne_nil.1 hopen⟩
      | cons d inner =>
        rw [map_cons_eq_some_iff, ih (depth_step_pos hdepth h), List.cons_append,
          List.cons.injEq, and_assoc]
        refine and_congr_right fun hcd => and_congr_right fun _ => and_congr_right fun _ => ?_
        rw [leavesOne_cons, and_iff_right hdepth, runPlain_cons, hcd]

end Nesting

theorem cutClose?_paren (right : List Char) :
    cutClose? {} ('(' :: right) =
      (cutClose? Nesting.behindParen right).map fun cut => ('(' :: cut.1, cut.2) :=
  rfl

/-- The search for the closing bracket ends at the first bracket that closes the parenthesis. -/
theorem cutClose?_paren_eq_some_iff {right inside close : List Char} :
    cutClose? {} ('(' :: right) = some ('(' :: inside, close) ↔ right = inside ++ close ∧
      ∃ c after, close = c :: after ∧ Nesting.Closes inside c ∧
        ∀ p d q, inside = p ++ d :: q → ¬Nesting.Closes p d := by
  rw [cutClose?_paren, map_cons_eq_some_iff, and_iff_right rfl,
    Nesting.cutClose?_eq_some_iff Nat.one_pos, Nesting.leavesOne_behindParen_iff]
  refine and_congr_right fun _ => ?_
  constructor
  · rintro ⟨⟨c, after, rfl, hcloser⟩, hquote, hbalanced, hfirst⟩
    exact ⟨c, after, rfl, ⟨hcloser, hquote, hbalanced⟩, hfirst⟩
  · rintro ⟨c, after, rfl, ⟨hcloser, hquote, hbalanced⟩, hfirst⟩
    exact ⟨⟨c, after, rfl, hcloser⟩, hquote, hbalanced, hfirst⟩

end ReferencePages
