import ReferencePages.Proofs.Snippet.Broken

/-!
# Outside brackets and literals

A line is cut at bars, equals signs and parentheses outside brackets and literals. These are the
marks of a text (`Nesting.marks`). From any place outside brackets and literals, a text is read as
it is from the start (`Nesting.marks_of_isTop`), so a line without a bar among its marks has no
union to break (`breakUnion_eq_none`).
-/

namespace ReferencePages

namespace Nesting

/-- A character that a line can be cut at. -/
def isMark (c : Char) : Bool := c == '|' || c == '=' || c == '('

theorem isMark_of_isBlank {c : Char} (hc : isBlank c = true) : isMark c = false := by
  refine Bool.eq_false_iff.2 fun hmark => ?_
  simp only [isMark, Bool.or_eq_true, beq_iff_eq] at hmark
  rcases hmark with (rfl | rfl) | rfl <;> cases hc

/-- Behind a text. -/
def run (n : Nesting) (s : List Char) : Nesting := s.foldl (step true) n

/-- The marks of a text, those outside brackets and literals. -/
def marks (n : Nesting) : List Char → List Char
  | [] => []
  | c :: s =>
    if n.isTop = true ∧ isMark c = true then c :: marks (n.step true c) s
    else marks (n.step true c) s

variable {n n' : Nesting} {s t left right : List Char} {c q target : Char}

theorem run_cons (n : Nesting) (c : Char) (s : List Char) :
    n.run (c :: s) = (n.step true c).run s := rfl

theorem run_append (n : Nesting) (s t : List Char) : n.run (s ++ t) = (n.run s).run t :=
  List.foldl_append

theorem run_concat (n : Nesting) (s : List Char) (c : Char) :
    n.run (s ++ [c]) = (n.run s).step true c :=
  run_append n s [c]

theorem marks_append (n : Nesting) (s t : List Char) :
    n.marks (s ++ t) = n.marks s ++ (n.run s).marks t := by
  induction s generalizing n with
  | nil => rfl
  | cons c s ih =>
    rw [List.cons_append, marks, marks, run_cons, ih]
    split <;> rfl

theorem marks_eq_nil (h : ∀ c ∈ s, isMark c = false) (n : Nesting) : n.marks s = [] := by
  induction s generalizing n with
  | nil => rfl
  | cons c s ih =>
    obtain ⟨hc, hs⟩ := List.forall_mem_cons.1 h
    rw [marks, if_neg (by simp [hc]), ih hs]

theorem marks_append_of_blank (h : ∀ c ∈ t, isBlank c = true) (n : Nesting) (s : List Char) :
    n.marks (s ++ t) = n.marks s := by
  rw [marks_append, marks_eq_nil fun c hc => isMark_of_isBlank (h c hc), List.append_nil]

/-! ## One character -/

theorem isTop_iff : n.isTop = true ↔ n.depth = 0 ∧ n.quote = none := by
  simp [isTop]

@[simp] theorem previous_step (angles : Bool) (n : Nesting) (c : Char) :
    (n.step angles c).previous = c := by
  unfold step
  repeat' split
  all_goals rfl

/-- Inside a literal, a character that does not end it. -/
theorem step_of_quote (hquote : n.quote = some q) (hc : c = q → n.previous = '\\') :
    n.step true c = { n with previous := c } := by
  obtain ⟨depth, quote, previous⟩ := n
  obtain rfl : quote = some q := hquote
  exact congrArg (fun quote => (⟨depth, quote, c⟩ : Nesting)) (if_neg fun h => h.2 (hc h.1))

/-- A quote that no backslash escapes ends a literal. -/
theorem quote_step_of_quote (hquote : n.quote = some q) :
    (n.step true q).quote = none ↔ n.previous ≠ '\\' := by
  obtain ⟨depth, quote, previous⟩ := n
  obtain rfl : quote = some q := hquote
  simp [step]

theorem depth_step_of_quote (hquote : n.quote = some q) (c : Char) :
    (n.step true c).depth = n.depth := by
  obtain ⟨depth, quote, previous⟩ := n
  obtain rfl : quote = some q := hquote
  rfl

/-- A quote outside literals begins one. -/
theorem step_quote (hquote : n.quote = none) (hc : c = '\'' ∨ c = '"' ∨ c = '`') :
    n.step true c = { n with quote := some c, previous := c } := by
  obtain ⟨depth, quote, previous⟩ := n
  obtain rfl : quote = none := hquote
  exact if_pos hc

/-- Quotes and brackets. -/
def delimiters : List Char := ['\'', '"', '`', '(', '[', '\x7b', '<', ')', ']', '\x7d', '>']

theorem not_mem_delimiters_of_isBlank (hc : isBlank c = true) : c ∉ delimiters := by
  have hnone : delimiters.all (fun d => !isBlank d) = true := by decide
  intro hmem
  have hd := List.all_eq_true.1 hnone c hmem
  rw [hc] at hd
  cases hd

/-- Outside literals, a character that is neither a quote nor a bracket. -/
theorem step_of_not_mem (hquote : n.quote = none) (hc : c ∉ delimiters) :
    n.step true c = { n with previous := c } := by
  obtain ⟨depth, quote, previous⟩ := n
  obtain rfl : quote = none := hquote
  simp only [delimiters, List.mem_cons, List.not_mem_nil, or_false, not_or] at hc
  simp [step, hc]

/-- Only what a `>` or a quote means depends on the character before it. -/
theorem step_congr (hdepth : n.depth = n'.depth) (hquote : n.quote = n'.quote)
    (hprevious : n.previous = n'.previous ∨
      n.quote = none ∧ (c = '>' → n.previous ≠ '=' ∧ n'.previous ≠ '=')) :
    n.step true c = n'.step true c := by
  obtain ⟨depth, quote, previous⟩ := n
  obtain ⟨depth', quote', previous'⟩ := n'
  obtain rfl : depth = depth' := hdepth
  obtain rfl : quote = quote' := hquote
  rcases hprevious with hprevious | ⟨hnone, hangle⟩
  · obtain rfl : previous = previous' := hprevious
    rfl
  · obtain rfl : quote = none := hnone
    by_cases hc : c = '>'
    · simp [step, hc, hangle hc]
    · simp [step, hc]

/-- Outside brackets, no character depends on the one before it. -/
theorem step_of_isTop (h : n.isTop = true) (c : Char) :
    n.step true c = ({} : Nesting).step true c := by
  obtain ⟨depth, quote, previous⟩ := n
  obtain ⟨hdepth, hquote⟩ := isTop_iff.1 h
  obtain rfl : depth = 0 := hdepth
  obtain rfl : quote = none := hquote
  by_cases hc : c = '>'
  · by_cases hequals : previous = '='
    · simp [step, hc, hequals]
    · simp [step, hc, hequals]
  · simp [step, hc]

/-- A text has the marks that it has at the start of a line. -/
theorem marks_of_isTop (h : n.isTop = true) (s : List Char) :
    n.marks s = ({} : Nesting).marks s := by
  cases s with
  | nil => rfl
  | cons c s =>
    rw [marks, marks, step_of_isTop h, h]
    rfl

theorem isTop_step (h : n.isTop = true) (hc : c ∉ delimiters) : (n.step true c).isTop = true := by
  rw [step_of_not_mem (isTop_iff.1 h).2 hc]
  exact h

theorem isTop_run_of_blank (h : n.isTop = true) (hs : ∀ c ∈ s, isBlank c = true) :
    (n.run s).isTop = true := by
  induction s generalizing n with
  | nil => exact h
  | cons c s ih =>
    obtain ⟨hc, hs⟩ := List.forall_mem_cons.1 hs
    exact ih (isTop_step h (not_mem_delimiters_of_isBlank hc)) hs

/-- Blanks before a text do not change its marks. -/
theorem marks_append_of_isTop (h : n.isTop = true) (hs : ∀ c ∈ s, isBlank c = true)
    (t : List Char) : n.marks (s ++ t) = ({} : Nesting).marks t := by
  rw [marks_append, marks_eq_nil fun c hc => isMark_of_isBlank (hs c hc), List.nil_append,
    marks_of_isTop (isTop_run_of_blank h hs)]

theorem marks_cons_of_isMark (h : n.isTop = true) (hc : isMark c = true) (s : List Char) :
    n.marks (c :: s) = c :: (n.step true c).marks s :=
  if_pos ⟨h, hc⟩

/-- A mark that opens no bracket. -/
theorem marks_cons_of_isTop (h : n.isTop = true) (hc : isMark c = true) (hd : c ∉ delimiters)
    (s : List Char) : n.marks (c :: s) = c :: ({} : Nesting).marks s := by
  rw [marks_cons_of_isMark h hc, marks_of_isTop (isTop_step h hd)]

/-! ## Cuts -/

theorem isTop_of_cutTop? (h : cutTop? target n s = some (left, right)) :
    (n.run left).isTop = true := by
  induction s generalizing n left with
  | nil => cases h
  | cons c s ih =>
    unfold cutTop? at h
    split at h
    · next hc =>
      cases h
      exact hc.2.1
    · obtain ⟨⟨left', right'⟩, hcut, hpair⟩ := Option.map_eq_some_iff.1 h
      cases hpair
      rw [run_cons]
      exact ih hcut

/-- A line is cut at the first parenthesis among its marks. -/
theorem not_mem_marks_of_cutTop? (h : cutTop? '(' n s = some (left, right)) :
    '(' ∉ n.marks left := by
  induction s generalizing n left with
  | nil => cases h
  | cons c s ih =>
    unfold cutTop? at h
    split at h
    · cases h
      exact List.not_mem_nil
    · next hc =>
      obtain ⟨⟨left', right'⟩, hcut, hpair⟩ := Option.map_eq_some_iff.1 h
      cases hpair
      have hne : n.isTop = true → c ≠ '(' := by
        rintro htop rfl
        exact hc ⟨rfl, htop, by simp⟩
      rw [marks]
      split
      · next hmark =>
        exact List.mem_cons.not.2 (not_or.2 ⟨(hne hmark.1).symm, ih hcut⟩)
      · exact ih hcut

/-- A text without a bar among its marks is one part. -/
theorem splitTop_of_not_mem (h : '|' ∉ n.marks s) : splitTop '|' n s = [s] := by
  induction s generalizing n with
  | nil => rfl
  | cons c s ih =>
    rw [marks] at h
    unfold splitTop
    split
    · next hc =>
      obtain ⟨rfl, htop⟩ := hc
      rw [if_pos ⟨htop, rfl⟩] at h
      exact absurd List.mem_cons_self h
    · have hs : '|' ∉ (n.step true c).marks s := by
        split at h
        · exact fun hmem => h (List.mem_cons_of_mem _ hmem)
        · exact h
      rw [ih hs]
      rfl

end Nesting

open Nesting

variable {o : FormatOptions} {body side : List Char}

theorem isPrefix_splitStop (s : List Char) : (splitStop s).1 <+: s := by
  unfold splitStop
  split
  · next right hright =>
    rw [dropSuffix?_eq_some_iff.1 hright]
    exact (isPrefix_trimEnd right).trans (List.prefix_append right _)
  · exact List.prefix_refl s

/-- A line without a bar among its marks has no union to break. -/
theorem breakUnion_eq_none (indent : List Char) (h : '|' ∉ ({} : Nesting).marks body) :
    breakUnion o indent body = none := by
  refine Option.eq_none_iff_forall_ne_some.2 fun ls hls => ?_
  obtain ⟨left, side, hcut, rfl, hlength, -⟩ := exists_of_breakUnion_eq_some hls
  have htop : ((({} : Nesting).run left).step true '=').isTop = true :=
    isTop_step (isTop_of_cutTop? hcut) (by decide)
  have hside : '|' ∉ ({} : Nesting).marks (trimStart side) := by
    have hblanks : ∀ c ∈ side.takeWhile isBlank, isBlank c = true :=
      fun c hc => List.mem_takeWhile_imp hc
    rw [← marks_append_of_isTop htop hblanks, trimStart, List.takeWhile_append_dropWhile]
    refine fun hmem => h ?_
    rw [List.append_cons, marks_append, run_concat]
    exact List.mem_append_right _ hmem
  have hparts : '|' ∉ ({} : Nesting).marks (splitStop (trim side)).1 := by
    obtain ⟨t, ht⟩ := (isPrefix_splitStop (trim side)).trans (isPrefix_trimEnd (trimStart side))
    rw [← ht, marks_append] at hside
    exact fun hmem => hside (List.mem_append_left _ hmem)
  rw [unionParts, splitTop_of_not_mem hparts] at hlength
  have hle := List.length_filter_le (!·.isEmpty) ([(splitStop (trim side)).1].map trim)
  rw [List.length_map, List.length_singleton] at hle
  omega

end ReferencePages
