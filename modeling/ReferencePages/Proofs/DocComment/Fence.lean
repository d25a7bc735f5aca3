import Mathlib.Data.List.Infix
import ReferencePages.DocComment.Fence
import ReferencePages.Proofs.Text.Blank
import ReferencePages.Proofs.Text.Search
import ReferencePages.Text.Lines

/-!
# Examples that are marked

A declaration file is laid out as plain lines and fenced blocks, each fence on a line of its own
behind a gutter (`Part`). What marking does to it is told exactly by `markExamples_eq_tornLines`:
each block whose tag *begins* with `js` is marked, and the line for expected errors is put behind
the two letters, with all blanks that stand before the block and not only with its gutter.

So just the `js` examples get their line, and nothing else is changed, exactly if every tag that
begins with `js` is `js`, and no blank stands at the end of the line before such a block
(`markExamples_eq_iff`). A `json` block is torn apart (`markExamples_jsonBlock`).
-/

namespace ReferencePages

/-! ## Gutters, fences and lines -/

/-- What ends a line. -/
def IsLineEnd (eol : List Char) : Prop := eol = ['\n'] ∨ eol = ['\r', '\n']

/-- What opens and closes a fenced block. -/
def fenceMark : List Char := ['`', '`', '`']

/-- A line that holds no fence. -/
def IsPlainLine (line : List Char) : Prop := '\n' ∉ line ∧ ¬fenceMark <:+: line

/-- Blanks within a line. -/
def IsIndent (s : List Char) : Prop := ∀ c ∈ s, isBlank c = true ∧ c ≠ '\n'

/-- What stands before the text of a line of a doc comment: a star among blanks. -/
structure Gutter where
  indent : List Char
  gap : List Char
  isIndent_indent : IsIndent indent
  isIndent_gap : IsIndent gap

def Gutter.text (g : Gutter) : List Char := g.indent ++ '*' :: g.gap

/-- A block between two fences, each on a line of its own behind a gutter. -/
structure FencedBlock where
  gutter : Gutter
  /-- What stands behind the opening fence. -/
  tag : List Char
  /-- The lines between the fences. -/
  content : List (List Char)
  /-- The gutter of the closing fence. -/
  closing : Gutter
  /-- Blanks behind the closing fence. -/
  behind : List Char
  tag_inline : '`' ∉ tag ∧ '\n' ∉ tag
  plain_content : ∀ line ∈ content, IsPlainLine line
  isIndent_behind : IsIndent behind

namespace FencedBlock

def opening (f : FencedBlock) : List Char := f.gutter.text ++ fenceMark ++ f.tag

def ending (f : FencedBlock) : List Char := f.closing.text ++ fenceMark ++ f.behind

end FencedBlock

/-- The language of the examples that are marked. -/
def exampleTag : List Char := ['j', 's']

/-- What opens an example. -/
def exampleMark : List Char := fenceMark ++ exampleTag

/-- The text of the line for expected errors, behind its gutter. -/
def errorsNote : List Char := "/// errors: 7031".toList

/-- A part of a declaration file. -/
inductive Part where
  | line (text : List Char) (isPlain : IsPlainLine text)
  | block (f : FencedBlock)

namespace Part

/-- The lines of a part. -/
def lines : Part → List (List Char)
  | .line text _ => [text]
  | .block f => f.opening :: f.content ++ [f.ending]

/-- The lines of a part with its example marked: directly behind the fence that opens a `js`
block stands one more line, the gutter of the fence with a note. -/
def markedLines : Part → List (List Char)
  | .line text _ => [text]
  | .block f =>
    f.opening :: (if f.tag = exampleTag then [f.gutter.text ++ errorsNote] else []) ++
      f.content ++ [f.ending]

end Part

/-- Lines behind another line. -/
def below (eol : List Char) (ls : List (List Char)) : List Char := ls.flatMap (eol ++ ·)

theorem joinWith_cons_eq (eol line : List Char) (ls : List (List Char)) :
    joinWith eol (line :: ls) = line ++ below eol ls := by
  induction ls generalizing line with
  | nil => simp [joinWith, below]
  | cons l ls ih =>
    rw [joinWith, List.intercalate_cons_cons, ← joinWith, ih, below, below, List.flatMap_cons]
    simp only [List.append_assoc]

/-! ## One match -/

variable {b inside gap rest s t : List Char} {c : Char}

theorem takeWhile_dropWhile_of_blank (hb : ∀ d ∈ b, isBlank d = true) (hc : isBlank c = false)
    (s : List Char) :
    (b ++ c :: s).takeWhile isBlank = b ∧ (b ++ c :: s).dropWhile isBlank = c :: s := by
  rw [List.takeWhile_append_of_pos hb, List.dropWhile_append_of_pos hb,
    List.takeWhile_cons_of_neg (by simp [hc]), List.dropWhile_cons_of_neg (by simp [hc])]
  exact ⟨List.append_nil b, rfl⟩

theorem exampleMark_eq : exampleMark = '`' :: "``js".toList := rfl

/-- A match begins with a gutter, which may begin on an earlier line, and an opening fence. -/
theorem exists_of_jsFence {x : (List Char × List Char) × Nat} (h : jsFence s = some x) :
    ∃ before gap rest, (∀ c ∈ before, isBlank c = true) ∧ (∀ c ∈ gap, isBlank c = true) ∧
      s = before ++ '*' :: (gap ++ (exampleMark ++ rest)) := by
  unfold jsFence at h
  split at h
  · next s' hs =>
    obtain ⟨behind, hbehind, -⟩ := Option.bind_eq_some_iff.1 h
    refine ⟨s.takeWhile isBlank, s'.takeWhile isBlank, behind,
      fun c hc => List.mem_takeWhile_imp hc, fun c hc => List.mem_takeWhile_imp hc, ?_⟩
    have hs' := List.takeWhile_append_dropWhile (p := isBlank) (l := s')
    rw [dropPrefix?_eq_some_iff.1 hbehind] at hs'
    conv_lhs => rw [← List.takeWhile_append_dropWhile (p := isBlank) (l := s), hs, ← hs']
    rfl
  · cases h

/-- An example is matched from the blanks before its gutter up to its closing fence. -/
theorem jsFence_example (hb : ∀ c ∈ b, isBlank c = true) (hgap : ∀ c ∈ gap, isBlank c = true)
    (hinside : ¬fenceMark <:+: inside ++ fenceMark.dropLast) (c : Char) (rest : List Char) :
    jsFence (b ++ '*' :: (gap ++ (exampleMark ++ c :: (inside ++ fenceMark ++ rest)))) =
      some ((b ++ '*' :: gap, c :: inside),
        (b ++ '*' :: (gap ++ (exampleMark ++ c :: (inside ++ fenceMark)))).length - 1) := by
  have hstart := takeWhile_dropWhile_of_blank hb (c := '*') (by decide)
    (gap ++ (exampleMark ++ c :: (inside ++ fenceMark ++ rest)))
  have hgutter := takeWhile_dropWhile_of_blank hgap (c := '`') (by decide)
    ("``js".toList ++ c :: (inside ++ fenceMark ++ rest))
  rw [← List.cons_append, ← exampleMark_eq] at hgutter
  have hopen : dropPrefix? "```js".toList (exampleMark ++ c :: (inside ++ fenceMark ++ rest)) =
      some (c :: (inside ++ fenceMark ++ rest)) := dropPrefix?_eq_some_iff.2 rfl
  have hcut : splitAtFirst? ['`', '`', '`'] (inside ++ fenceMark ++ rest) = some (inside, rest) :=
    splitAtFirst?_append hinside rest
  rw [jsFence, hstart.1, hstart.2]
  simp only [hgutter.1, hgutter.2, hopen, Option.bind_eq_bind, Option.bind_some, hcut,
    Option.pure_def, Option.some.injEq, Prod.mk.injEq, true_and]
  simp only [List.length_append, List.length_cons]
  omega

/-- A text that ends with no blank begins with blanks and a character that is none. -/
theorem exists_of_trimEnd_eq (hs : trimEnd s = s) (hne : s ≠ []) :
    ∃ b c t, (∀ d ∈ b, isBlank d = true) ∧ isBlank c = false ∧ trimEnd t = t ∧ s = b ++ c :: t := by
  have hlast := trimEnd_eq_self_iff.1 hs
  rcases hdrop : s.dropWhile isBlank with _ | ⟨c, t⟩
  · have hblank := List.dropWhile_eq_nil_iff.1 hdrop _ (List.getLast_mem hne)
    rw [hlast _ (List.getLast?_eq_some_getLast hne)] at hblank
    cases hblank
  · have hsplit : s = s.takeWhile isBlank ++ c :: t := by
      rw [← hdrop, List.takeWhile_append_dropWhile]
    refine ⟨_, c, t, fun d hd => List.mem_takeWhile_imp hd, ?_, ?_, hsplit⟩
    · simpa [hdrop] using List.head?_dropWhile_not isBlank s
    · refine trimEnd_eq_self_iff.2 fun d hd => hlast d ?_
      rw [hsplit, List.getLast?_append, List.getLast?_cons, hd]
      rfl

theorem isBlank_of_mem_exampleMark (hc : c ∈ exampleMark) : isBlank c = false := by
  have hmark : exampleMark.all (isBlank · == false) = true := by decide
  exact beq_iff_eq.1 (List.all_eq_true.1 hmark c hc)

/-- No match begins before the blanks at the end of a text in which no example is opened: a gutter
that goes on behind these blanks would hold two stars. -/
theorem jsFence_append_eq_none (hs : trimEnd s = s) (hne : s ≠ []) (hmark : ¬exampleMark <:+: s)
    (hb : ∀ c ∈ b, isBlank c = true) (hbne : b ≠ []) (t : List Char) :
    jsFence (s ++ (b ++ '*' :: t)) = none := by
  refine Option.eq_none_iff_forall_ne_some.2 fun x hx => ?_
  obtain ⟨before, gap, rest, hbefore, hgap, heq⟩ := exists_of_jsFence hx
  obtain ⟨pre, c, s', hpre, hc, hs', rfl⟩ := exists_of_trimEnd_eq hs hne
  have hdrop := congrArg (List.dropWhile isBlank) heq
  rw [List.append_assoc, List.cons_append, (takeWhile_dropWhile_of_blank hpre hc _).2,
    (takeWhile_dropWhile_of_blank hbefore (by decide) _).2] at hdrop
  obtain ⟨rfl, hbehind⟩ := List.cons.inj hdrop
  have hopen := congrArg (List.dropWhile isBlank) hbehind
  rw [exampleMark_eq, List.cons_append, (takeWhile_dropWhile_of_blank hgap (by decide) _).2,
    ← List.cons_append, ← exampleMark_eq] at hopen
  by_cases hnil : s' = []
  · rw [hnil, List.nil_append, (takeWhile_dropWhile_of_blank hb (by decide) t).2] at hopen
    exact absurd (List.cons.inj hopen).1 (by decide)
  obtain ⟨pre', e, s'', hpre', he, -, rfl⟩ := exists_of_trimEnd_eq hs' hnil
  rw [List.append_assoc, List.cons_append, (takeWhile_dropWhile_of_blank hpre' he _).2,
    ← List.cons_append] at hopen
  have hin : e :: s'' <:+: pre ++ '*' :: (pre' ++ e :: s'') := by
    rw [← List.cons_append, ← List.append_assoc]
    exact (List.suffix_append _ _).isInfix
  rcases List.append_eq_append_iff.1 hopen with ⟨r, hr, hrest⟩ | ⟨r, hr, -⟩
  · rcases r with _ | ⟨d, r⟩
    · rw [List.append_nil] at hr
      exact hmark (hr ▸ hin)
    · obtain ⟨d', b', rfl⟩ := List.exists_cons_of_ne_nil hbne
      obtain ⟨rfl, -⟩ := List.cons.inj hrest
      have hnot : isBlank d' = false :=
        isBlank_of_mem_exampleMark (hr ▸ List.mem_append_right _ List.mem_cons_self)
      rw [hb d' List.mem_cons_self] at hnot
      cases hnot
  · exact hmark (List.IsInfix.trans (hr ▸ (List.prefix_append exampleMark r).isInfix) hin)

/-! ## Texts without fences -/

variable {eol : List Char} {ls : List (List Char)}

theorem IsLineEnd.isBlank (h : IsLineEnd eol) : ∀ c ∈ eol, isBlank c = true := by
  rcases h with rfl | rfl <;> exact List.all_eq_true.1 rfl

theorem IsLineEnd.ne_nil (h : IsLineEnd eol) : eol ≠ [] := by
  rcases h with rfl | rfl <;> decide

theorem below_append (eol : List Char) (ls ls' : List (List Char)) :
    below eol (ls ++ ls') = below eol ls ++ below eol ls' := List.flatMap_append

theorem below_cons (eol line : List Char) (ls : List (List Char)) :
    below eol (line :: ls) = eol ++ line ++ below eol ls := List.flatMap_cons

/-- A mark of a fence does not reach over the end of a line. -/
theorem not_infix_append_below {p : List Char} (heol : IsLineEnd eol) (hp : '\n' ∉ p)
    (hp' : '\r' ∉ p) (hne : p ≠ []) (hs : ¬p <:+: s) (hls : ∀ line ∈ ls, ¬p <:+: line) :
    ¬p <:+: s ++ below eol ls := by
  induction ls generalizing s with
  | nil => simpa [below] using hs
  | cons line ls ih =>
    obtain ⟨hline, hls⟩ := List.forall_mem_cons.1 hls
    rw [below_cons, ← List.append_assoc]
    refine ih (fun h => ?_) hls
    rcases heol with rfl | rfl
    · exact (infix_append_cons hp h).elim hs hline
    · rcases infix_append_cons hp' h with h | h
      · exact hs h
      · exact (infix_append_cons (a := []) hp h).elim (fun h => hne (List.infix_nil.1 h)) hline

theorem not_fenceMark_isInfix (h : '`' ∉ s) : ¬fenceMark <:+: s := fun hin =>
  h (hin.subset (by decide))

theorem not_exampleMark_isInfix (h : ¬fenceMark <:+: s) : ¬exampleMark <:+: s := fun hin =>
  h ((List.prefix_append fenceMark exampleTag).isInfix.trans hin)

theorem IsIndent.not_mem (h : IsIndent s) (hc : isBlank c = false) : c ∉ s := fun hmem => by
  rw [(h c hmem).1] at hc
  cases hc

theorem Gutter.not_mem_text (g : Gutter) : '`' ∉ g.text := by
  simp [text, g.isIndent_indent.not_mem (c := '`') (by decide),
    g.isIndent_gap.not_mem (c := '`') (by decide)]

namespace FencedBlock

variable (f : FencedBlock)

/-- An opening fence opens an example exactly if its tag begins as one. -/
theorem exampleMark_infix_opening_iff : exampleMark <:+: f.opening ↔ exampleTag <+: f.tag := by
  constructor
  · rintro ⟨u, v, h⟩
    have hcount := congrArg (List.count '`') h
    simp only [opening, exampleMark, List.count_append, List.count_eq_zero.2 f.gutter.not_mem_text,
      List.count_eq_zero.2 f.tag_inline.1] at hcount
    have hu : '`' ∉ u := by
      rw [← List.count_eq_zero]
      have htag : List.count '`' exampleTag = 0 := by decide
      omega
    have hcut : u ++ '`' :: ("``".toList ++ exampleTag ++ v) =
        f.gutter.text ++ '`' :: ("``".toList ++ f.tag) := by
      simpa [opening, exampleMark, fenceMark] using h
    obtain ⟨-, hrest⟩ := append_cons_inj hu f.gutter.not_mem_text hcut
    exact ⟨v, by simpa using hrest⟩
  · rintro ⟨r, hr⟩
    exact ⟨f.gutter.text, r, by simp [opening, exampleMark, ← hr]⟩

theorem not_exampleMark_isInfix_ending : ¬exampleMark <:+: f.ending := fun h => by
  have hmem : 'j' ∈ f.ending := h.subset (by decide)
  simp [ending, Gutter.text, fenceMark, f.closing.isIndent_indent.not_mem (c := 'j') (by decide),
    f.closing.isIndent_gap.not_mem (c := 'j') (by decide),
    f.isIndent_behind.not_mem (c := 'j') (by decide)] at hmem

/-- In a block with another tag no example is opened. -/
theorem not_exampleMark_isInfix_lines (h : ¬exampleTag <+: f.tag) :
    ∀ line ∈ (Part.block f).lines, ¬exampleMark <:+: line := by
  intro line hline
  rcases List.mem_append.1 hline with hline | hline
  · rcases List.mem_cons.1 hline with rfl | hline
    · exact fun hmark => h (f.exampleMark_infix_opening_iff.1 hmark)
    · exact not_exampleMark_isInfix (f.plain_content line hline).2
  · obtain rfl := List.mem_singleton.1 hline
    exact f.not_exampleMark_isInfix_ending

/-- What stands between the language of an example and its closing fence. -/
def body (eol : List Char) : List Char :=
  f.tag.drop exampleTag.length ++ below eol (f.content ++ [f.closing.text])

/-- The first fence behind the language of an example is the closing one. -/
theorem not_fenceMark_isInfix_body (heol : IsLineEnd eol) :
    ¬fenceMark <:+: f.body eol ++ fenceMark.dropLast := by
  intro h
  have hsplit : f.body eol ++ fenceMark.dropLast =
      (f.tag.drop exampleTag.length ++ below eol (f.content ++ [f.closing.indent])) ++
        '*' :: (f.closing.gap ++ fenceMark.dropLast) := by
    simp [body, Gutter.text, below]
  rw [hsplit] at h
  rcases infix_append_cons (by decide) h with h | h
  · refine not_infix_append_below heol (by decide) (by decide) (by decide)
      (not_fenceMark_isInfix fun hmem => f.tag_inline.1 (List.drop_subset _ _ hmem)) ?_ h
    intro line hline
    rcases List.mem_append.1 hline with hline | hline
    · exact (f.plain_content line hline).2
    · obtain rfl := List.mem_singleton.1 hline
      exact not_fenceMark_isInfix (f.closing.isIndent_indent.not_mem (by decide))
  · have hcount := h.sublist.count_le '`'
    rw [List.count_append, List.count_eq_zero.2 (f.closing.isIndent_gap.not_mem (by decide))]
      at hcount
    exact absurd hcount (by decide)

/-- The lines of an example, from its gutter on. -/
theorem below_lines (eol : List Char) {r : List Char} (hr : f.tag = exampleTag ++ r) :
    below eol (Part.block f).lines = eol ++ f.gutter.text ++ exampleMark ++ f.body eol ++
      fenceMark ++ f.behind := by
  simp [Part.lines, opening, ending, body, hr, exampleMark, below]

end FencedBlock

/-! ## Whole sources -/

namespace Part

/-- What marking makes of the lines of a part behind a text. The note for an example is put
directly behind the language, and with it all blanks before the example. -/
def torn (before : List Char) : Part → List (List Char)
  | .line text _ => [text]
  | .block f =>
    if exampleTag <+: f.tag then
      (f.gutter.text ++ exampleMark ++ before.rtakeWhile isBlank) ::
        (f.gutter.text ++ errorsNote ++ f.tag.drop exampleTag.length) :: f.content ++ [f.ending]
    else (Part.block f).lines

end Part

/-- What marking makes of the lines of parts behind a text. -/
def tornLines (eol : List Char) : List Char → List Part → List (List Char)
  | _, [] => []
  | before, p :: ps => p.torn before ++ tornLines eol (before ++ below eol p.lines) ps

/-- The blanks at the end of a text are told by those at the end of its last part. -/
theorem rtakeWhile_append_congr (h : s.rtakeWhile isBlank = t.rtakeWhile isBlank)
    (u : List Char) : (s ++ u).rtakeWhile isBlank = (t ++ u).rtakeWhile isBlank := by
  induction u using List.reverseRecOn with
  | nil => simpa using h
  | append_singleton u c ih =>
    rw [← List.append_assoc, ← List.append_assoc, List.rtakeWhile_concat, List.rtakeWhile_concat,
      ih]

theorem rtakeWhile_append_cons (hc : isBlank c = false) (s u : List Char) :
    (s ++ c :: u).rtakeWhile isBlank = u.rtakeWhile isBlank := by
  have hcut : (s ++ [c]).rtakeWhile isBlank = ([] : List Char).rtakeWhile isBlank := by
    rw [List.rtakeWhile_concat_neg isBlank s c (by simp [hc]), List.rtakeWhile_nil]
  simpa using rtakeWhile_append_congr hcut u

/-- What stands between the text before an example and the star of its gutter. -/
theorem isBlank_leading (heol : IsLineEnd eol) (g : Gutter) (s : List Char) :
    ∀ c ∈ s.rtakeWhile isBlank ++ (eol ++ g.indent), isBlank c = true := by
  intro c hc
  rcases List.mem_append.1 hc with hc | hc
  · exact List.mem_rtakeWhile_imp hc
  · exact (List.mem_append.1 hc).elim (heol.isBlank c) fun hc => (g.isIndent_indent c hc).1

/-- The search goes on to the blanks before the next example. -/
theorem replaceMatches_jsFence_append (heol : IsLineEnd eol) (hs : ¬exampleMark <:+: s)
    (g : Gutter) (u : List Char) :
    replaceMatches jsFence markedFence (s ++ (eol ++ (g.text ++ u))) =
      trimEnd s ++ replaceMatches jsFence markedFence
        (s.rtakeWhile isBlank ++ (eol ++ (g.text ++ u))) := by
  have hsplit : s = trimEnd s ++ s.rtakeWhile isBlank :=
    (List.rdropWhile_append_rtakeWhile (p := isBlank) (l := s)).symm
  conv_lhs => rw [hsplit, List.append_assoc]
  refine replaceMatches_append_of_none fun a v hv hne => ?_
  have hin : v <:+: s :=
    ((hv ▸ List.suffix_append a v).isInfix).trans (isPrefix_trimEnd s).isInfix
  have hlast : trimEnd v = v := by
    refine trimEnd_eq_self_iff.2 fun c hc => ?_
    have htrim : ∀ c ∈ (trimEnd s).getLast?, isBlank c = false :=
      trimEnd_eq_self_iff.1 (List.rdropWhile_idempotent isBlank s)
    exact htrim c (by rw [hv, List.getLast?_append, hc]; rfl)
  have hnone := jsFence_append_eq_none hlast hne (fun h => hs (h.trans hin))
    (isBlank_leading heol g s) (by simp [heol.ne_nil]) (g.gap ++ u)
  simpa [Gutter.text] using hnone

/-- An example is marked; its note stands directly behind the language. -/
theorem replaceMatches_jsFence_example (heol : IsLineEnd eol) (hs : ¬exampleMark <:+: s)
    (f : FencedBlock) (htag : exampleTag <+: f.tag) (rest : List Char) :
    replaceMatches jsFence markedFence (s ++ (below eol (Part.block f).lines ++ rest)) =
      s ++ (eol ++ f.gutter.text ++ exampleMark ++ s.rtakeWhile isBlank) ++
        (eol ++ f.gutter.text ++ errorsNote ++ f.body eol) ++ fenceMark ++
        replaceMatches jsFence markedFence (f.behind ++ rest) := by
  obtain ⟨r, hr⟩ := htag
  have hbody : f.body eol ≠ [] := by simp [FencedBlock.body, below, heol.ne_nil]
  obtain ⟨c, inside, hc⟩ := List.exists_cons_of_ne_nil hbody
  have hinside : ¬fenceMark <:+: inside ++ fenceMark.dropLast := fun h =>
    f.not_fenceMark_isInfix_body heol (hc ▸ List.infix_cons h)
  have hmatch := jsFence_example (isBlank_leading heol f.gutter s)
    (fun c hc => (f.gutter.isIndent_gap c hc).1) hinside c (f.behind ++ rest)
  have hlay : s.rtakeWhile isBlank ++ (eol ++ f.gutter.indent) ++
      '*' :: (f.gutter.gap ++ (exampleMark ++ c :: (inside ++ fenceMark ++ (f.behind ++ rest)))) =
      (s.rtakeWhile isBlank ++ (eol ++ f.gutter.indent) ++
        '*' :: (f.gutter.gap ++ (exampleMark ++ c :: (inside ++ fenceMark)))) ++
        (f.behind ++ rest) := by
    simp only [List.append_assoc, List.cons_append]
  have hgutter : s.rtakeWhile isBlank ++ (eol ++ f.gutter.indent) ++ '*' :: f.gutter.gap =
      s.rtakeWhile isBlank ++ (eol ++ f.gutter.text) := by
    simp only [Gutter.text, List.append_assoc]
  rw [hlay] at hmatch
  have hmarked := replaceMatches_append_of_some (f := markedFence) hmatch
    (Nat.sub_add_cancel (List.length_pos_of_ne_nil (by simp)))
  have hsplit : trimEnd s ++ s.rtakeWhile isBlank = s :=
    List.rdropWhile_append_rtakeWhile (p := isBlank) (l := s)
  rw [← hlay, markedFence, hgutter] at hmarked
  rw [f.below_lines eol hr.symm, hc]
  simp only [List.append_assoc, List.cons_append]
  rw [replaceMatches_jsFence_append heol hs]
  simp only [Gutter.text, List.append_assoc, List.cons_append] at hmarked ⊢
  rw [hmarked, ← List.append_assoc (trimEnd s), hsplit]
  rfl

/-- A search that has come to the end of an example, or to the start, does to the parts behind what
is told of the lines. -/
theorem replaceMatches_jsFence (heol : IsLineEnd eol) (parts : List Part)
    (hs : ¬exampleMark <:+: s) (hst : s.rtakeWhile isBlank = t.rtakeWhile isBlank) :
    replaceMatches jsFence markedFence (s ++ below eol (parts.flatMap Part.lines)) =
      s ++ below eol (tornLines eol t parts) := by
  induction parts generalizing s t with
  | nil =>
    refine replaceMatches_of_not_infix (p := exampleMark) (fun u x n h => ?_) ?_
    · obtain ⟨before, gap, rest, -, -, rfl⟩ := exists_of_jsFence h
      exact ⟨before ++ '*' :: gap, rest, by simp⟩
    · simpa [below] using hs
  | cons p ps ih =>
    rw [List.flatMap_cons, below_append, tornLines, below_append]
    by_cases hp : ∀ line ∈ p.lines, ¬exampleMark <:+: line
    · have htorn : p.torn t = p.lines := by
        cases p with
        | line text _ => rfl
        | block f =>
          exact if_neg fun htag =>
            hp _ List.mem_cons_self (f.exampleMark_infix_opening_iff.2 htag)
      rw [htorn, ← List.append_assoc, ← List.append_assoc]
      exact ih (not_infix_append_below heol (by decide) (by decide) (by decide) hs hp)
        (rtakeWhile_append_congr hst _)
    · cases p with
      | line text hplain =>
        exact absurd (by simpa [Part.lines] using not_exampleMark_isInfix hplain.2) hp
      | block f =>
        have htag : exampleTag <+: f.tag := by
          by_contra htag
          exact hp (f.not_exampleMark_isInfix_lines htag)
        have hbehind : ¬exampleMark <:+: f.behind := fun h =>
          f.isIndent_behind.not_mem (c := 'j') (by decide) (h.subset (by decide))
        have hblank : f.behind.rtakeWhile isBlank =
            (t ++ below eol (Part.block f).lines).rtakeWhile isBlank := by
          obtain ⟨r, hr⟩ := htag
          have hlast : below eol (Part.block f).lines = eol ++ f.gutter.text ++ exampleMark ++
              f.body eol ++ ['`', '`'] ++ '`' :: f.behind := by
            rw [f.below_lines eol hr.symm]
            simp [fenceMark]
          rw [hlast, ← List.append_assoc t, rtakeWhile_append_cons (by decide)]
        rw [replaceMatches_jsFence_example heol hs f htag, ih hbehind hblank, hst, Part.torn,
          if_pos htag]
        simp [FencedBlock.body, FencedBlock.ending, below]

/-- What marking makes of a declaration file, line by line. -/
theorem markExamples_eq_tornLines (heol : IsLineEnd eol) {opening : List Char}
    (hopening : IsPlainLine opening) (parts : List Part) :
    markExamples (String.ofList (joinWith eol (opening :: parts.flatMap Part.lines))) =
      String.ofList (joinWith eol (opening :: tornLines eol opening parts)) := by
  rw [markExamples, String.toList_ofList, joinWith_cons_eq, joinWith_cons_eq,
    replaceMatches_jsFence heol parts (not_exampleMark_isInfix hopening.2) rfl]

/-! ## Files whose examples are tidy -/

/-- A block behind a text is no example, or an example whose tag is the language alone and before
which no blank stands. -/
def Part.IsTidy (before : List Char) : Part → Prop
  | .line _ _ => True
  | .block f => exampleTag <+: f.tag → f.tag = exampleTag ∧ ∀ c ∈ before.getLast?, isBlank c = false

/-- Every example of some parts behind a text is tidy. -/
def TidyExamples (eol : List Char) : List Char → List Part → Prop
  | _, [] => True
  | before, p :: ps => p.IsTidy before ∧ TidyExamples eol (before ++ below eol p.lines) ps

theorem rtakeWhile_eq_nil_iff :
    s.rtakeWhile isBlank = [] ↔ ∀ c ∈ s.getLast?, isBlank c = false := by
  induction s using List.reverseRecOn with
  | nil => simp
  | append_singleton s c ih => simp [List.rtakeWhile_concat]

theorem Part.torn_of_isTidy {p : Part} (h : p.IsTidy t) : p.torn t = p.markedLines := by
  cases p with
  | line text _ => rfl
  | block f =>
    by_cases htag : exampleTag <+: f.tag
    · obtain ⟨hjs, hlast⟩ := h htag
      rw [torn, markedLines, if_pos htag, if_pos hjs, rtakeWhile_eq_nil_iff.2 hlast,
        FencedBlock.opening, hjs]
      simp [exampleMark]
    · have hjs : f.tag ≠ exampleTag := fun hjs => htag (hjs ▸ List.prefix_rfl)
      simp [torn, markedLines, lines, htag, hjs]

/-- Marking writes no less than the notes, and where it writes no more the part is tidy. -/
theorem Part.length_torn (eol : List Char) (p : Part) (t : List Char) :
    (below eol p.markedLines).length ≤ (below eol (p.torn t)).length ∧
      ((below eol (p.torn t)).length ≤ (below eol p.markedLines).length → p.IsTidy t) := by
  cases p with
  | line text _ => exact ⟨le_rfl, fun _ => trivial⟩
  | block f =>
    by_cases htag : exampleTag <+: f.tag
    · have hlength : exampleTag.length ≤ f.tag.length := htag.length_le
      have hmark : exampleMark.length = fenceMark.length + exampleTag.length := by decide
      have hnote : 0 < errorsNote.length := by decide
      have hblanks : t.rtakeWhile isBlank = [] ↔ (t.rtakeWhile isBlank).length = 0 :=
        List.length_eq_zero_iff.symm
      rw [torn, markedLines, if_pos htag, IsTidy, ← rtakeWhile_eq_nil_iff, hblanks,
        forall_prop_of_true htag]
      by_cases hjs : f.tag = exampleTag
      · simp only [hjs, if_true, true_and, List.cons_append, List.nil_append, below_cons,
          List.length_append, FencedBlock.opening, List.length_drop]
        omega
      · simp only [hjs, if_false, false_and, List.nil_append, List.cons_append, below_cons,
          List.length_append, FencedBlock.opening, List.length_drop]
        omega
    · rw [torn_of_isTidy (p := .block f) fun h => absurd h htag]
      exact ⟨le_rfl, fun _ h => absurd h htag⟩

theorem tornLines_of_tidyExamples {parts : List Part} (h : TidyExamples eol t parts) :
    tornLines eol t parts = parts.flatMap Part.markedLines := by
  induction parts generalizing t with
  | nil => rfl
  | cons p ps ih => rw [tornLines, List.flatMap_cons, Part.torn_of_isTidy h.1, ih h.2]

theorem length_tornLines (parts : List Part) (t : List Char) :
    (below eol (parts.flatMap Part.markedLines)).length ≤
        (below eol (tornLines eol t parts)).length ∧
      ((below eol (tornLines eol t parts)).length ≤
          (below eol (parts.flatMap Part.markedLines)).length → TidyExamples eol t parts) := by
  induction parts generalizing t with
  | nil => exact ⟨le_rfl, fun _ => trivial⟩
  | cons p ps ih =>
    obtain ⟨hle, htidy⟩ := ih (t ++ below eol p.lines)
    obtain ⟨hple, hptidy⟩ := p.length_torn eol t
    rw [tornLines, List.flatMap_cons, below_append, below_append, List.length_append,
      List.length_append]
    exact ⟨by omega, fun h => ⟨hptidy (by omega), htidy (by omega)⟩⟩

/-- Every `js` example of a declaration file gets its note on a line behind the opening fence, and
nothing else is changed, exactly if all its examples are tidy. -/
theorem markExamples_eq_iff (heol : IsLineEnd eol) {opening : List Char}
    (hopening : IsPlainLine opening) (parts : List Part) :
    markExamples (String.ofList (joinWith eol (opening :: parts.flatMap Part.lines))) =
        String.ofList (joinWith eol (opening :: parts.flatMap Part.markedLines)) ↔
      TidyExamples eol opening parts := by
  rw [markExamples_eq_tornLines heol hopening, joinWith_cons_eq, joinWith_cons_eq]
  constructor
  · intro h
    have hbelow := List.append_cancel_left (String.ofList_injective h)
    exact (length_tornLines parts opening).2 (congrArg List.length hbelow).le
  · intro h
    rw [tornLines_of_tidyExamples h]

/-- The gutter of a doc comment. -/
def plainGutter : Gutter where
  indent := [' ']
  gap := [' ']
  isIndent_indent := by simp [IsIndent, isBlank]
  isIndent_gap := by simp [IsIndent, isBlank]

/-- A block of one line behind plain gutters. -/
def plainBlock (tag line : List Char) (tag_inline : '`' ∉ tag ∧ '\n' ∉ tag)
    (isPlain : IsPlainLine line) : Part :=
  .block {
    gutter := plainGutter
    tag
    content := [line]
    closing := plainGutter
    behind := []
    tag_inline
    plain_content := by simpa using isPlain
    isIndent_behind := by simp [IsIndent] }

theorem isPlainLine_of_contains {line : List Char}
    (h : (!line.contains '\n' && !contains fenceMark line) = true) : IsPlainLine line := by
  simpa [IsPlainLine, contains_eq_false_iff] using h

/-- A comment with an example of another language, and with one that is marked. -/
def twoBlocks : List Part :=
  [plainBlock "ts".toList " * a".toList (by decide) (isPlainLine_of_contains (by decide)),
    .line " * and".toList (isPlainLine_of_contains (by decide)),
    plainBlock "js".toList " * b".toList (by decide) (isPlainLine_of_contains (by decide)),
    .line " */".toList (isPlainLine_of_contains (by decide))]

/-- Of two examples, the `js` one gets its note. -/
theorem markExamples_twoBlocks : IsLineEnd ['\n'] ∧ IsPlainLine "/**".toList ∧
    markExamples
        "/**\n * ```ts\n * a\n * ```\n * and\n * ```js\n * b\n * ```\n */" =
      "/**\n * ```ts\n * a\n * ```\n * and\n * ```js\n * /// errors: 7031\n * b\n * ```\n */" := by
  have heol : IsLineEnd ['\n'] := Or.inl rfl
  have hopening : IsPlainLine "/**".toList := isPlainLine_of_contains (by decide)
  have htidy : TidyExamples ['\n'] "/**".toList twoBlocks := by
    refine ⟨fun h => ?_, trivial, fun _ => ⟨rfl, rtakeWhile_eq_nil_iff.1 (by decide)⟩, trivial,
      trivial⟩
    revert h
    decide
  exact ⟨heol, hopening, (markExamples_eq_iff heol hopening twoBlocks).2 htidy⟩

/-- An example of another language whose name begins alike is torn apart. -/
theorem markExamples_jsonBlock :
    markExamples "/**\n * ```json\n * 1\n * ```\n */" =
        "/**\n * ```js\n * /// errors: 7031on\n * 1\n * ```\n */" ∧
      markExamples "/**\n * ```json\n * 1\n * ```\n */" ≠
        "/**\n * ```json\n * 1\n * ```\n */" := by
  decide +kernel

end ReferencePages
