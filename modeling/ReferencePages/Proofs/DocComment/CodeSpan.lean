import ReferencePages.Proofs.DocComment.TagPlaces

/-!
# Tags and inline code

A run of backticks opens a code span, and the next run of the same length closes it; runs of other
lengths in between belong to the code (`SpanReader`). Where tags are looked for, backticks are
counted one by one, and code is what stands behind an odd number of them.

Spans that are closed count twice what opens them, so the two readings of a place agree if the run
that opened its span and the backticks of all code before it are odd in number
(`odd_count_iff`). They always agree where spans are opened by a single backtick and hold none.
Where they do not agree, what reads as a tag in a code span starts a tag
(`tagStarts_outside_iff`).
-/

namespace ReferencePages

/-! ## Code spans -/

/-- What has been read of the code spans of a line. -/
structure SpanReader where
  /-- The length of the run of backticks that was read last. -/
  run : Nat := 0
  /-- The length of the run that opened the code span, if one is open. -/
  opened : Option Nat := none
  /-- The number of backticks that belong to code, and neither open nor close it. -/
  inner : Nat := 0
deriving Repr, DecidableEq

namespace SpanReader

/-- A run of backticks is over: it opens a span, closes the open one, or belongs to its code. -/
def endRun (r : SpanReader) : SpanReader :=
  if r.run = 0 then r
  else
    match r.opened with
    | none => { opened := some r.run, inner := r.inner }
    | some n =>
      if r.run = n then { inner := r.inner } else { opened := some n, inner := r.inner + r.run }

/-- One more character. -/
def next (r : SpanReader) (c : Char) : SpanReader :=
  if c = '`' then { r with run := r.run + 1 } else r.endRun

end SpanReader

/-- What is read of the code spans of a text that no backtick follows. -/
def readSpans (s : List Char) : SpanReader := (s.foldl SpanReader.next {}).endRun

/-- Every run of backticks that opens a code span on the line is closed by a later one. -/
def SpansClosed (line : List Char) : Prop := (readSpans line).opened = none

instance (line : List Char) : Decidable (SpansClosed line) :=
  inferInstanceAs (Decidable ((readSpans line).opened = none))

/-- A run of `n` backticks, with no other backtick at either end. -/
def HasRun (n : Nat) (s : List Char) : Prop :=
  ∃ a b, s = a ++ List.replicate n '`' ++ b ∧ a.getLast? ≠ some '`' ∧ b.head? ≠ some '`'

/-- The character at a place of a line stands in a code span: a run of backticks that opens it is
open there, and a run of the same length follows. -/
def InCodeSpan (line : List Char) (place : Nat) : Prop :=
  ∃ before after n, line = before ++ after ∧ place = byteLength before ∧
    after.head? ≠ some '`' ∧ (readSpans before).opened = some n ∧ HasRun n after

variable {line before after s : List Char} {c : Char} {n : Nat}

theorem HasRun.append_cons (h : HasRun n s) (hc : c ≠ '`') (x : List Char) :
    HasRun n (x ++ c :: s) := by
  obtain ⟨a, b, rfl, ha, hb⟩ := h
  refine ⟨x ++ c :: a, b, by simp, ?_, hb⟩
  rw [List.getLast?_append_of_ne_nil _ (List.cons_ne_nil c a)]
  cases a with
  | nil => simpa using hc
  | cons d a => rwa [List.getLast?_cons_cons]

namespace SpanReader

variable {r : SpanReader}

theorem run_endRun (r : SpanReader) : r.endRun.run = 0 := by
  rw [endRun]
  split
  · next h => exact h
  · split
    · rfl
    · split <;> rfl

theorem opened_endRun (hopened : r.opened = some n) : r.run = n ∨ r.endRun.opened = some n := by
  rw [endRun, hopened]
  split
  · exact Or.inr hopened
  · simp only
    split
    · next h => exact Or.inl h
    · exact Or.inr rfl

/-- A span that is open and comes to be closed is closed by a run of the length that opened it. -/
theorem hasRun_of_closed (hopened : r.opened = some n)
    (hclosed : (s.foldl next r).endRun.opened = none) :
    HasRun n (List.replicate r.run '`' ++ s) := by
  induction s generalizing r with
  | nil =>
    rcases opened_endRun hopened with rfl | hopen
    · exact ⟨[], [], rfl, by simp, by simp⟩
    · rw [List.foldl_nil, hopen] at hclosed
      cases hclosed
  | cons c s ih =>
    rw [List.foldl_cons, next] at hclosed
    split at hclosed
    · next hc =>
      subst hc
      have hrun := ih (r := { r with run := r.run + 1 }) hopened hclosed
      rwa [List.replicate_succ', List.append_assoc, List.singleton_append] at hrun
    · next hc =>
      rcases opened_endRun hopened with rfl | hopen
      · exact ⟨[], c :: s, rfl, by simp, by simpa using hc⟩
      · have hrun := ih hopen hclosed
        rw [run_endRun, List.replicate_zero, List.nil_append] at hrun
        exact hrun.append_cons hc _

/-- The number of backticks that count for a reader: the run that is read, the one that opened the
span, and those that belong to code. -/
def weight (r : SpanReader) : Nat := r.run + r.opened.getD 0 + r.inner

/-- What closes a span counts as much as what opened it. -/
theorem odd_weight_endRun (r : SpanReader) : Odd r.endRun.weight ↔ Odd r.weight := by
  rw [endRun]
  split
  · rfl
  · split
    · next h => simp [weight, h]
    · next n h =>
      split
      · next hrun =>
        have hweight : r.weight = 2 * n + r.inner := by
          rw [weight, h, hrun, Option.getD_some]
          omega
        rw [hweight, Nat.odd_add', iff_true_right (even_two_mul n)]
        simp [weight]
      · have hweight : r.weight = n + (r.inner + r.run) := by
          rw [weight, h, Option.getD_some]
          omega
        rw [hweight]
        simp [weight]

theorem odd_weight_foldl (r : SpanReader) (s : List Char) :
    Odd (s.foldl next r).weight ↔ Odd (r.weight + s.count '`') := by
  induction s generalizing r with
  | nil => rfl
  | cons c s ih =>
    rw [List.foldl_cons, ih, next]
    split
    · next hc =>
      have hweight : ({ r with run := r.run + 1 } : SpanReader).weight = r.weight + 1 := by
        simp only [weight]
        omega
      rw [hweight, hc, List.count_cons_self, Nat.add_assoc, Nat.add_comm 1]
    · next hc =>
      rw [List.count_cons_of_ne hc, Nat.odd_add, Nat.odd_add, odd_weight_endRun]

end SpanReader

/-- An odd number of backticks stands before a place exactly if the run that opened its span and the
backticks of all code before are odd in number. -/
theorem odd_count_iff (s : List Char) :
    Odd (s.count '`') ↔ Odd ((readSpans s).opened.getD 0 + (readSpans s).inner) := by
  have hweight : (readSpans s).weight = (readSpans s).opened.getD 0 + (readSpans s).inner := by
    rw [SpanReader.weight, readSpans, SpanReader.run_endRun, Nat.zero_add]
  rw [← hweight, readSpans, SpanReader.odd_weight_endRun, SpanReader.odd_weight_foldl]
  exact iff_of_eq (congrArg Odd (Nat.zero_add _).symm)

/-- A text without backticks opens no span. -/
theorem readSpans_of_not_mem (h : '`' ∉ s) : readSpans s = {} := by
  have hfold : s.foldl SpanReader.next {} = {} := by
    induction s with
    | nil => rfl
    | cons c s ih =>
      obtain ⟨hc, hs⟩ := not_or.1 (List.mem_cons.not.1 h)
      rw [List.foldl_cons, SpanReader.next, if_neg (Ne.symm hc)]
      exact ih hs
  rw [readSpans, hfold]
  rfl

/-- A span that is open before a character other than a backtick is closed behind it. -/
theorem hasRun_of_spansClosed (hclosed : SpansClosed (before ++ c :: after)) (hc : c ≠ '`')
    (hopened : (readSpans before).opened = some n) : HasRun n (c :: after) := by
  rw [SpansClosed, readSpans, List.foldl_append, List.foldl_cons, SpanReader.next,
    if_neg hc] at hclosed
  have hrun := SpanReader.hasRun_of_closed (r := readSpans before) hopened hclosed
  rw [readSpans, SpanReader.run_endRun, List.replicate_zero, List.nil_append] at hrun
  exact hrun.append_cons hc []

/-! ## Tags in code spans -/

/-- What stands behind an at sign reads as a tag in the middle of a line. -/
def ReadsAsTag (before after : List Char) : Prop :=
  before.getLast?.any isBlank = true ∧
    ∃ name, tagName? after = some name ∧ inlineTags.contains (String.ofList name) = true

/-- On a line whose code spans are closed no tag starts in one of them exactly if the run that
opened the span and the backticks of code before are odd in number, wherever the text reads as a
tag. -/
theorem tagStarts_outside_iff (hclosed : SpansClosed line) :
    (∀ start ∈ tagStarts line, ¬InCodeSpan line start.1) ↔
      ∀ before after n, line = before ++ '@' :: after → (readSpans before).opened = some n →
        ReadsAsTag before after → Odd (n + (readSpans before).inner) := by
  have hodd {before : List Char} {n : Nat} (hopened : (readSpans before).opened = some n) :
      Odd (before.count '`') ↔ Odd (n + (readSpans before).inner) := by
    rw [odd_count_iff, hopened, Option.getD_some]
  constructor
  · rintro houtside before after n rfl hopened ⟨hblank, name, hname, hinline⟩
    rw [← hodd hopened]
    by_contra heven
    have hstart : (byteLength before, name) ∈ tagStarts (before ++ '@' :: after) :=
      mem_tagStarts_iff.2 ⟨before, after, rfl, rfl, heven, hname, by rw [hblank, hinline]; simp⟩
    exact houtside _ hstart ⟨before, '@' :: after, n, rfl, rfl, by simp, hopened,
      hasRun_of_spansClosed hclosed (by decide) hopened⟩
  · rintro hall ⟨place, name⟩ hstart ⟨before, rest, n, hline, hplace, -, hopened, -⟩
    obtain ⟨before', after, hline', hplace', heven, hname, htag⟩ := mem_tagStarts_iff.1 hstart
    obtain ⟨rfl, rfl⟩ := append_inj_of_byteLength (hline.symm.trans hline')
      (hplace.symm.trans hplace')
    have hspan : before.all isBlank = false := by
      by_contra hblank
      have hnone : '`' ∉ before := fun hmem =>
        absurd (List.all_eq_true.1 (by simpa using hblank) _ hmem) (by decide)
      rw [readSpans_of_not_mem hnone] at hopened
      cases hopened
    rw [hspan, Bool.false_or, Bool.and_eq_true] at htag
    exact heven ((hodd hopened).2
      (hall before after n hline hopened ⟨htag.1, name, hname, htag.2⟩))

/-- A line with two backticks in code between three, with code between one, and with a tag
behind. -/
def backtickLine : List Char := "Use ``` `` @param ``` or ` @see `. @default 1".toList

/-- The only tag of this line is the one behind its code spans. -/
theorem tagStarts_outside_backtickLine : SpansClosed backtickLine ∧
    (∀ start ∈ tagStarts backtickLine, ¬InCodeSpan backtickLine start.1) ∧
    (tagStarts backtickLine).map Prod.snd = ["default".toList] := by
  have hclosed : SpansClosed backtickLine := by decide +kernel
  have hodd : ∀ k < backtickLine.length, backtickLine[k]? = some '@' →
      ∀ n ∈ (readSpans (backtickLine.take k)).opened,
        Odd (n + (readSpans (backtickLine.take k)).inner) := by
    decide +kernel
  refine ⟨hclosed, (tagStarts_outside_iff hclosed).2 ?_, by decide +kernel⟩
  rintro before after n hline hopened -
  have htake : backtickLine.take before.length = before := by rw [hline, List.take_left]
  have hat : backtickLine[before.length]? = some '@' := by rw [hline]; simp
  have hlt : before.length < backtickLine.length := by rw [hline]; simp
  rw [← htake] at hopened ⊢
  exact hodd before.length hlt hat n hopened

/-- A span between two backticks each reads as text, so a tag starts in it. -/
theorem tagStarts_twoBackticks :
    SpansClosed "See `` @param x `` here".toList ∧
      (7, "param".toList) ∈ tagStarts "See `` @param x `` here".toList ∧
      InCodeSpan "See `` @param x `` here".toList 7 := by
  refine ⟨by decide +kernel, by decide +kernel, "See `` ".toList, "@param x `` here".toList, 2,
    rfl, by decide +kernel, by decide, by decide +kernel, "@param x ".toList, " here".toList, rfl,
    by decide, by decide⟩

end ReferencePages
