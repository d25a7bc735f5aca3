import ReferencePages.Proofs.Snippet.Ending
import ReferencePages.Proofs.Snippet.Laid
import ReferencePages.Proofs.Snippet.Parts
import ReferencePages.Proofs.Text.Lines

/-!
# Broken lines

A line is left as it is, or broken before the members of its union, or around the items of its
first parentheses (`breakLine_cases`). The lines around parentheses are laid out again
(`BrokenInto.laid`) and start and end like the line, if its parts can be set by themselves and the
parenthesis opens one level of brackets (`SteadyParts`).
-/

namespace ReferencePages

/-! ## Lines that are broken for good -/

/-- The parts of a line that can be set by themselves: the line `left` with the parenthesis behind
it, the items of `inner`, and `close`. -/
structure SteadyParts (o : FormatOptions) (depth : Int) (line left inner close : List Char) :
    Prop where
  /-- The parenthesis is one of code. -/
  opens : (scan .code (left ++ ['('])).getLast? = some (.code '(')
  /-- The line opens one more bracket than it closes, but for those that lead it. -/
  delta : (spaceLine o .code (left ++ ['('])).delta =
    1 - (spaceLine o .code (left ++ ['('])).closers
  /-- No more brackets lead the line than are open. -/
  closers : (spaceLine o .code (left ++ ['('])).closers ≤ depth
  items : ∀ item ∈ splitTop ',' {} inner, SteadyItem (trim item)
  /-- Only one closing bracket leads what is behind the items. -/
  stop : (spaceLine o .code close).closers = 1
  /-- A comment of the line is behind the items, unless a semicolon ends it. -/
  comment : contains ['/', '/'] line = true →
    contains ['/', '/'] close = true ∨ line.getLast? = some ';'

instance (o : FormatOptions) (depth : Int) (line left inner close : List Char) :
    Decidable (SteadyParts o depth line left inner close) :=
  decidable_of_iff
    ((scan .code (left ++ ['('])).getLast? = some (.code '(') ∧
      (spaceLine o .code (left ++ ['('])).delta =
        1 - (spaceLine o .code (left ++ ['('])).closers ∧
      (spaceLine o .code (left ++ ['('])).closers ≤ depth ∧
      (∀ item ∈ splitTop ',' {} inner, SteadyItem (trim item)) ∧
      (spaceLine o .code close).closers = 1 ∧
      (contains ['/', '/'] line = true →
        contains ['/', '/'] close = true ∨ line.getLast? = some ';'))
    ⟨fun ⟨h₁, h₂, h₃, h₄, h₅, h₆⟩ => ⟨h₁, h₂, h₃, h₄, h₅, h₆⟩,
      fun ⟨h₁, h₂, h₃, h₄, h₅, h₆⟩ => ⟨h₁, h₂, h₃, h₄, h₅, h₆⟩⟩

/-- A line that is left as it is, or broken around its first parentheses into lines that are. -/
def SteadyBreak (o : FormatOptions) (m : Mode) (depth : Int) (line : List Char) : Prop :=
  breakLine o line = [line] ∨
    m = .code ∧ breakUnion o (line.takeWhile isBlank) (trimStart line) = none ∧
      (∀ cut ∈ cutTop? '(' {} (trimStart line), ∀ cut' ∈ cutClose? {} cut.2,
        SteadyParts o depth line cut.1 (trim (cut'.1.drop 1)) cut'.2) ∧
      ∀ piece ∈ breakLine o line, breakLine o piece = [piece]

instance (o : FormatOptions) (m : Mode) (depth : Int) (line : List Char) :
    Decidable (SteadyBreak o m depth line) :=
  inferInstanceAs (Decidable (_ ∨ _ ∧ _ ∧ _ ∧ _))

/-! ## Laid out parts -/

section

variable {o : FormatOptions} {depth : Int} {st : List Lexeme} {item line : List Char}
  {tail rest : List (List Char)}

theorem indentLine_code (o : FormatOptions) (depth : Int) (hne : (lineOf .code st).text ≠ []) :
    indentLine o depth (lineOf .code st) =
      repeated (depth - (lineOf .code st).closers).toNat o.unit ++ (lineOf .code st).text := by
  have hempty : (lineOf .code st).text.isEmpty = false := by simpa using hne
  show (if (lineOf .code st).text.isEmpty then [] else _) = _
  rw [hempty]
  rfl

theorem SetLine.spaceLine_text (h : SetLine o .code st) :
    spaceLine o .code (lineOf .code st).text = lineOf .code st :=
  h.spaceLine_eq (by rw [scannedText, if_neg (by decide), h.trimmed (by decide)])

/-- An item is laid out, with a comma behind it or without. -/
theorem laid_item {stop : List Char} (hitem : SteadyItem (trim item))
    (hset : SetLine o .code (.code ',' :: (scan .code (trim item)).reverse))
    (hstop : stop = [] ∨ stop = [',']) (hrest : Laid o .code depth rest)
    (hcomma : o.trailingComma = false →
      ¬Dangles (repeated depth.toNat o.unit ++ trim item ++ stop) rest) :
    Laid o .code depth ((repeated depth.toNat o.unit ++ trim item ++ stop) :: rest) := by
  have hmode : modeAfterAll .code (scan .code (trim item)) = .code :=
    (scan_append_of_getLast? (r := []) hitem.ends (Or.inr rfl)).2
  have htext := text_lineOf_scan .code (trim item)
  have hne : (lineOf .code (scan .code (trim item)).reverse).text ≠ [] := by
    rw [htext]
    exact hitem.ne_nil
  have hclosers : (lineOf .code (scan .code (trim item)).reverse).closers = 0 :=
    hitem.balanced.closers
  have hdelta : (lineOf .code (scan .code (trim item)).reverse).delta = 0 := hitem.balanced.delta
  have hindent : indentLine o depth (lineOf .code (scan .code (trim item)).reverse) =
      repeated depth.toNat o.unit ++ trim item := by
    rw [indentLine_code o depth hne, htext, hclosers]
    simp
  rcases hstop with rfl | rfl
  · have hset' : SetLine o .code (scan .code (trim item)).reverse := hset.of_comma (by
      rw [htext]
      exact (trim_eq_self_iff_forall.1 (trim_trim item)).2)
    rw [List.append_nil, ← hindent] at hcomma ⊢
    refine .cons _ hset' (fun ht _ => hcomma ht) ?_
    rwa [List.reverse_reverse, hmode, hdelta, Int.add_zero]
  · have hcommaClosers : (lineOf .code (.code ',' :: (scan .code (trim item)).reverse)).closers =
        (lineOf .code (scan .code (trim item)).reverse).closers :=
      if_neg (by simp [Lexeme.closes, isCloser])
    have hcommaDelta : (lineOf .code (.code ',' :: (scan .code (trim item)).reverse)).delta = 0 :=
      (Int.add_zero _).trans hdelta
    have hcommaIndent : indentLine o depth
        (lineOf .code (.code ',' :: (scan .code (trim item)).reverse)) =
          repeated depth.toNat o.unit ++ trim item ++ [','] := by
      rw [← hindent]
      exact indentLine_append depth hne rfl hcommaClosers
        (text_lineOf_cons _ _ _)
    rw [← hcommaIndent] at hcomma ⊢
    refine .cons _ hset (fun ht _ => hcomma ht) ?_
    rwa [modeAfterAll_reverse_cons, List.reverse_reverse, hmode, hcommaDelta, Int.add_zero]

/-- The line of an item does not start with a closing bracket. -/
theorem SteadyItem.leadChar (h : SteadyItem (trim item)) {pre stop : List Char}
    (hpre : ∀ c ∈ pre, isBlank c = true) (ls : List (List Char)) :
    (leadChar ((pre ++ trim item ++ stop) :: ls)).any isCloser = false := by
  obtain ⟨c, s, hitem⟩ := List.exists_cons_of_ne_nil h.ne_nil
  have hc : isBlank c = false :=
    (trim_eq_self_iff_forall.1 (trim_trim item)).1 c (by rw [hitem]; rfl)
  have hhead : (trim (pre ++ trim item ++ stop)).head? = some c := by
    rw [List.append_assoc, trim_append_of_blank hpre, head?_trim, hitem, List.cons_append,
      List.find?_cons_of_pos (by simp [hc])]
  rw [leadChar_cons, hhead]
  refine Bool.eq_false_iff.2 fun hcloser => ?_
  have hscan := scan_closer (c := c) hcloser s
  have hbalanced := h.balanced.head? (.code c) (by rw [hitem, hscan]; rfl)
  exact nomatch hbalanced.symm.trans hcloser

theorem itemLines_cons_cons (o : FormatOptions) (indent item item' : List Char)
    (items : List (List Char)) :
    itemLines o indent (item :: item' :: items) =
      (indent ++ trim item ++ [',']) :: itemLines o indent (item' :: items) := by
  rw [itemLines, itemLines, List.dropLast_cons_cons, List.map_cons, List.cons_append,
    List.getLast?_cons_cons]

theorem exists_itemLines_cons (o : FormatOptions) (indent item : List Char)
    (items : List (List Char)) :
    ∃ stop ls, itemLines o indent (item :: items) = (indent ++ trim item ++ stop) :: ls := by
  cases items with
  | nil => exact ⟨_, [], rfl⟩
  | cons item' items => exact ⟨_, _, itemLines_cons_cons o indent item item' items⟩

/-- The lines of the items are laid out. -/
theorem laid_itemLines {items : List (List Char)}
    (hitems : ∀ item ∈ items, SteadyItem (trim item))
    (hset : ∀ item ∈ items, SetLine o .code (.code ',' :: (scan .code (trim item)).reverse))
    (hcomma : o.trailingComma = false → ∀ item ∈ items.getLast?, (trim item).getLast? ≠ some ',')
    (htail : Laid o .code depth tail) :
    Laid o .code depth (itemLines o (repeated depth.toNat o.unit) items ++ tail) := by
  induction items with
  | nil => exact htail
  | cons item items ih =>
    obtain ⟨hitem, hitems⟩ := List.forall_mem_cons.1 hitems
    obtain ⟨hsetItem, hset⟩ := List.forall_mem_cons.1 hset
    cases items with
    | nil =>
      have hlines : itemLines o (repeated depth.toNat o.unit) [item] ++ tail =
          (repeated depth.toNat o.unit ++ trim item ++ lastComma o) :: tail := rfl
      rw [hlines]
      refine laid_item hitem hsetItem ?_ htail fun ht hdangles => hcomma ht item rfl ?_
      · unfold lastComma
        split
        · exact Or.inr rfl
        · exact Or.inl rfl
      · have hlast := hdangles.1
        have hnone : lastComma o = [] := if_neg (by simp [ht])
        rwa [hnone, List.append_nil, List.getLast?_append_of_ne_nil _ hitem.ne_nil] at hlast
    | cons item' items =>
      rw [itemLines_cons_cons, List.cons_append]
      refine laid_item hitem hsetItem (Or.inr rfl) (ih hitems hset ?_) fun _ hdangles => ?_
      · rwa [List.getLast?_cons_cons] at hcomma
      · obtain ⟨stop, ls, hlines⟩ :=
          exists_itemLines_cons o (repeated depth.toNat o.unit) item' items
        have hlead := hdangles.2.2
        rw [hlines, List.cons_append, SteadyItem.leadChar (hitems item' List.mem_cons_self)
          (isBlank_repeated_unit o _)] at hlead
        cases hlead

/-! ## A broken line -/

variable {m : Mode} {head : List Lexeme} {indent left inside close : List Char}

/-- A line `line` of the lexemes `st` that is broken into the lines `ls`. -/
structure BrokenInto (o : FormatOptions) (depth : Int) (st : List Lexeme) (line : List Char)
    (ls : List (List Char)) (head : List Lexeme) (left inside close : List Char) : Prop where
  parts : PartsOf o st head inside close
  steady : SteadyParts o depth line left (trim inside) close
  text : (lineOf .code head).text = left ++ ['(']
  closer : ∃ c t, close = c :: t ∧ isCloser c = true
  line : line = indentLine o depth (lineOf .code head) ++ (inside ++ close)
  lines : ls = indentLine o depth (lineOf .code head) ::
    (itemLines o (repeated (depth + (lineOf .code head).delta).toNat o.unit)
      (splitTop ',' {} (trim inside)) ++
      [indentLine o (depth + (lineOf .code head).delta) (lineOf .code (scan .code close).reverse)])

/-- A line that is not left as it is is broken into parts that can be set by themselves. -/
theorem SteadyBreak.exists_brokenInto (h : SteadyBreak o m depth (indentLine o depth (lineOf m st)))
    (hset : SetLine o m st)
    (hne : breakLine o (indentLine o depth (lineOf m st)) ≠ [indentLine o depth (lineOf m st)]) :
    m = .code ∧ ∃ head left inside close,
      BrokenInto o depth st (indentLine o depth (lineOf m st))
        (breakLine o (indentLine o depth (lineOf m st))) head left inside close := by
  obtain ⟨rfl, hunion, hparts, -⟩ := h.resolve_left hne
  have htext : (lineOf .code st).text ≠ [] := by
    intro hnil
    have hline : indentLine o depth (lineOf .code st) = [] := by
      show (if (lineOf .code st).text.isEmpty then [] else _) = _
      rw [hnil]
      rfl
    rw [hline] at hne
    exact hne rfl
  have hindent := indentLine_code o depth htext
  obtain ⟨htake, hdrop⟩ := takeWhile_trimStart_of_blank
    (isBlank_repeated_unit o (depth - (lineOf .code st).closers).toNat) (hset.trimmed (by decide))
  rw [← hindent] at htake hdrop
  rw [hdrop] at hparts
  have hbroken := ((breakLine_cases o (indentLine o depth (lineOf .code st))).resolve_left
    hne).resolve_left fun h => nomatch hunion.symm.trans h
  obtain ⟨-, hbroken⟩ := hbroken
  rw [htake, hdrop] at hbroken
  obtain ⟨left, inside, close, hcut, hcutClose, hbody, hlines⟩ :=
    exists_of_breakParens_eq_some hbroken
  have hsteady : SteadyParts o depth (indentLine o depth (lineOf .code st)) left (trim inside)
      close := hparts _ hcut _ hcutClose
  have hcloser := cutClose?_closer hcutClose
  obtain ⟨head, hhead, hheadText⟩ := hset.exists_parts hbody hcloser hsteady.opens hsteady.items
  have hheadNe : (lineOf .code head).text ≠ [] := by
    rw [hheadText]
    exact List.append_ne_nil_of_right_ne_nil _ (List.cons_ne_nil _ _)
  have hheadIndent := indentLine_code o depth hheadNe
  have hheadSpace : spaceLine o .code (left ++ ['(']) = lineOf .code head :=
    hheadText ▸ hhead.start.spaceLine_text
  have hstopText := text_lineOf_scan .code close
  have hstopSpace : spaceLine o .code close = lineOf .code (scan .code close).reverse := by
    have hspace := hhead.stop.spaceLine_text
    rwa [hstopText] at hspace
  have hdelta := hsteady.delta
  have hclosers := hsteady.closers
  have hstop := hsteady.stop
  rw [hheadSpace] at hdelta hclosers
  rw [hstopSpace] at hstop
  have hstopNe : (lineOf .code (scan .code close).reverse).text ≠ [] := by
    obtain ⟨c, t, rfl, -⟩ := hcloser
    rw [hstopText]
    exact List.cons_ne_nil c t
  -- The items stand one level deeper than the line, and what closes them as deep as the line.
  have hdeeper : (depth + (lineOf .code head).delta).toNat =
      (depth - (lineOf .code head).closers).toNat + 1 := by
    omega
  have hsame : (depth + (lineOf .code head).delta -
      (lineOf .code (scan .code close).reverse).closers).toNat =
        (depth - (lineOf .code head).closers).toNat := by
    omega
  refine ⟨rfl, head, left, inside, close, hhead, hsteady, hheadText, hcloser, ?_, ?_⟩
  · rw [hheadIndent, hindent, hhead.closers, hheadText, hbody]
    simp only [List.append_assoc, List.singleton_append]
  · rw [hlines, hheadIndent, hheadText, hdeeper, repeated_succ, indentLine_code o _ hstopNe,
      hstopText, hsame, hhead.closers]
    simp only [List.append_assoc]

theorem getLast?_joinWith (sep : List Char) {items : List (List Char)}
    (hitem : item ∈ items.getLast?) (hne : item ≠ []) :
    (joinWith sep items).getLast? = item.getLast? := by
  obtain ⟨init, rfl⟩ := List.getLast?_eq_some_iff.1 hitem
  by_cases hnil : init = []
  · subst hnil
    exact congrArg List.getLast? List.intercalate_singleton
  · rw [joinWith, intercalate_append sep hnil (List.cons_ne_nil _ _), List.intercalate_singleton,
      List.getLast?_append_of_ne_nil _ hne]

/-- The last item of a trimmed text ends where that does. -/
theorem getLast?_trim_item {inner : List Char} (htrim : trim inner = inner)
    (hitem : item ∈ (splitTop ',' {} inner).getLast?) (hne : trim item ≠ []) :
    (trim item).getLast? = inner.getLast? := by
  obtain ⟨b, b', -, hb', heq⟩ := exists_eq_append_trim item
  have hitemNe : item ≠ [] := by
    rintro rfl
    exact hne rfl
  have hlast : inner.getLast? = item.getLast? := by
    rw [← getLast?_joinWith [','] hitem hitemNe, joinWith_splitTop]
  rcases List.eq_nil_or_concat' b' with rfl | ⟨init, c, rfl⟩
  · rw [hlast, heq, List.append_nil, List.getLast?_append_of_ne_nil _ hne]
    rw [List.append_nil] at heq
    rw [← heq]
  · have hblank : isBlank c = true := hb' c (by simp)
    rw [heq, ← List.append_assoc, List.getLast?_concat] at hlast
    have hsolid := (trim_eq_self_iff_forall.1 htrim).2 c hlast
    exact nomatch hsolid.symm.trans hblank

/-- A broken line is laid out if what is behind it is. -/
theorem BrokenInto.laid {ls rest' : List (List Char)}
    (h : BrokenInto o depth st line ls head left inside close)
    (hcomma : o.trailingComma = false → ¬Dangles line rest)
    (hrest : Laid o (modeAfterAll .code st.reverse) (depth + (lineOf .code st).delta) rest')
    (hlead : leadChar rest' = leadChar rest) : Laid o .code depth (ls ++ rest') := by
  have hstop : Laid o .code (depth + (lineOf .code head).delta)
      (indentLine o (depth + (lineOf .code head).delta)
        (lineOf .code (scan .code close).reverse) :: rest') := by
    refine .cons _ h.parts.stop (fun ht _ hdangles => hcomma ht ?_) ?_
    · have hlast := (getLast?_indentLine o _ _ rfl).1 hdangles.1
      have hslashes := hdangles.2.1
      rw [contains_slashes_indentLine] at hslashes
      rw [text_lineOf_scan] at hlast hslashes
      have hlineLast : line.getLast? = some ',' := by
        rw [h.line, ← List.append_assoc, List.getLast?_append_of_ne_nil _ ?_, hlast]
        rintro rfl
        cases hlast
      refine ⟨hlineLast, Bool.eq_false_iff.2 fun hcomment => ?_, hlead ▸ hdangles.2.2⟩
      rcases h.steady.comment hcomment with hclose | hsemicolon
      · exact nomatch hslashes.symm.trans hclose
      · exact absurd (hlineLast.symm.trans hsemicolon) (by decide)
    · rw [List.reverse_reverse, ← h.parts.after, Int.add_assoc, ← h.parts.delta]
      exact hrest
  have hitems := laid_itemLines h.steady.items h.parts.items ?_ hstop
  · rw [h.lines, List.cons_append, List.append_assoc]
    refine .cons head h.parts.start (fun _ _ hdangles => ?_) ?_
    · have hlast := (getLast?_indentLine o depth _ rfl).1 hdangles.1
      rw [h.text, List.getLast?_concat] at hlast
      exact absurd (Option.some.inj hlast) (by decide)
    · rw [h.parts.mode]
      exact hitems
  · intro ht item hitem hlast
    have hmem : item ∈ splitTop ',' {} (trim inside) := List.mem_of_getLast? hitem
    refine h.parts.comma ht ?_
    rw [← getLast?_trim_item (trim_trim inside) hitem (h.steady.items item hmem).ne_nil, hlast]

/-! ## The lines of a broken line -/

section

variable {ls : List (List Char)}
  (h : BrokenInto o depth st line ls head left inside close)
include h

/-- The first line is what stands before the items. -/
theorem BrokenInto.exists_first : ∃ pre, (∀ c ∈ pre, isBlank c = true) ∧
    ls.head? = some (pre ++ left ++ ['(']) ∧ line = pre ++ left ++ '(' :: (inside ++ close) := by
  obtain ⟨pre, hpre, hindent, -⟩ := exists_indentLine o depth (lineOf .code head)
  rw [h.text, ← List.append_assoc] at hindent
  refine ⟨pre, isBlank_of_indent hpre, ?_, ?_⟩
  · rw [h.lines, List.head?_cons, hindent]
  · rw [h.line, hindent, List.append_assoc, List.singleton_append]

/-- The last line is what is behind the items. -/
theorem BrokenInto.exists_last : ∃ pre, (∀ c ∈ pre, isBlank c = true) ∧
    ls.getLast? = some (pre ++ close) := by
  obtain ⟨pre, hpre, hindent, -⟩ := exists_indentLine o (depth + (lineOf .code head).delta)
    (lineOf .code (scan .code close).reverse)
  rw [text_lineOf_scan] at hindent
  refine ⟨pre, isBlank_of_indent hpre, ?_⟩
  rw [h.lines, ← List.cons_append, List.getLast?_concat, hindent]

theorem BrokenInto.trim_ne_nil : ∀ piece ∈ ls, trim piece ≠ [] := by
  rw [h.lines]
  refine List.forall_mem_cons.2 ⟨?_, List.forall_mem_append.2 ⟨fun piece hpiece => ?_, ?_⟩⟩
  · rw [trim_indentLine, h.text]
    exact trim_ne_nil_of_mem (List.mem_append_right left (List.mem_singleton_self '(')) rfl
  · obtain ⟨item, hitem, stop, -, rfl⟩ := exists_of_mem_itemLines hpiece
    have hne := (h.steady.items item hitem).ne_nil
    obtain ⟨c, s, hcs⟩ := List.exists_cons_of_ne_nil hne
    have hc : isBlank c = false :=
      (trim_eq_self_iff_forall.1 (trim_trim item)).1 c (by rw [hcs]; rfl)
    refine trim_ne_nil_of_mem (c := c) ?_ hc
    rw [hcs]
    simp
  · rw [List.forall_mem_singleton, trim_indentLine]
    obtain ⟨c, t, rfl, hc⟩ := h.closer
    rw [text_lineOf_scan]
    exact trim_ne_nil_of_mem List.mem_cons_self (not_isBlank_of_isCloser hc)

theorem BrokenInto.keyword_head? : ∀ first ∈ ls.head?, keyword first = keyword line := by
  obtain ⟨pre, -, hfirst, hline⟩ := h.exists_first
  intro first hmem
  obtain rfl := Option.some.inj (hfirst.symm.trans hmem)
  rw [hline, keyword_append_cons rfl rfl, keyword_append_cons rfl rfl]

theorem BrokenInto.leadChar_append (ks ks' : List (List Char)) :
    leadChar (ls ++ ks) = leadChar (line :: ks') := by
  obtain ⟨pre, -, hfirst, hline⟩ := h.exists_first
  obtain ⟨tail, rfl⟩ := List.head?_eq_some_iff.1 hfirst
  have hne : trim (pre ++ left ++ ['(']) ≠ [] :=
    trim_ne_nil_of_mem (List.mem_append_right _ (List.mem_singleton_self '(')) rfl
  have hlineNe : trim line ≠ [] := by
    rw [hline]
    exact trim_ne_nil_of_mem (List.mem_append_right _ List.mem_cons_self) rfl
  have hfind (t : List Char) : ((pre ++ left ++ '(' :: t).find? fun c => !isBlank c) =
      ((pre ++ left).find? fun c => !isBlank c).or (some '(') := by
    rw [List.find?_append]
    rfl
  rw [List.cons_append, leadChar_cons_of_ne_nil hne, leadChar_cons_of_ne_nil hlineNe, hline,
    head?_trim, head?_trim]
  exact (hfind []).trans (hfind _).symm

/-- The last line needs a semicolon no more than the line did. -/
theorem BrokenInto.needsSemicolon_getLast? {word : List Char}
    (hword : needsSemicolon word line = false) :
    ∀ last ∈ ls.getLast?, needsSemicolon word last = false := by
  obtain ⟨pre, -, hlast⟩ := h.exists_last
  intro last hmem
  obtain rfl := Option.some.inj (hlast.symm.trans hmem)
  obtain ⟨c, t, hclose, hc⟩ := h.closer
  have hne : close ≠ [] := by
    rw [hclose]
    exact List.cons_ne_nil c t
  have hcloseLine : close <:+ line := by
    rw [h.line, ← List.append_assoc]
    exact List.suffix_append _ close
  have hlineLast : line.getLast? = close.getLast? := by
    obtain ⟨before, hbefore⟩ := hcloseLine
    rw [← hbefore, List.getLast?_append_of_ne_nil before hne]
  have hpieceLast : (pre ++ close).getLast? = close.getLast? :=
    List.getLast?_append_of_ne_nil pre hne
  have hsolid : ∀ d ∈ close.getLast?, isBlank d = false := by
    have htrimmed := h.parts.stop.trimmed (by decide)
    rw [text_lineOf_scan] at htrimmed
    exact (trim_eq_self_iff_forall.1 htrimmed).2
  have hsingle (d : Char) (hd : [d] <:+ line) : [d] <:+ pre ++ close := by
    obtain ⟨before, rfl⟩ := hd
    rw [List.getLast?_concat, ← hpieceLast] at hlineLast
    obtain ⟨before', hpiece⟩ := List.getLast?_eq_some_iff.1 hlineLast.symm
    exact ⟨before', hpiece.symm⟩
  rw [needsSemicolon_eq_false_iff, trimEnd_eq_self_iff.2 (hlineLast ▸ hsolid)] at hword
  rw [needsSemicolon_eq_false_iff, trimEnd_eq_self_iff.2 (hpieceLast ▸ hsolid)]
  rcases hword with hsemicolon | hcomment | hcomment | ⟨hbrace, hblock⟩
  · exact Or.inl (hsingle ';' hsemicolon)
  · rcases h.steady.comment (contains_iff.2 hcomment) with hslashes | hsemicolon
    · exact Or.inr (Or.inl ((contains_iff.1 hslashes).trans (List.suffix_append pre close).isInfix))
    · obtain ⟨before, hbefore⟩ := List.getLast?_eq_some_iff.1 hsemicolon
      exact Or.inl (hsingle ';' ⟨before, hbefore.symm⟩)
  · refine Or.inr (Or.inr (Or.inl ?_))
    rcases List.suffix_or_suffix_of_suffix hcomment hcloseLine with hend | hshort
    · exact hend.trans (List.suffix_append pre close)
    · have hmem : c ∈ ['*', '/'] := hshort.subset (hclose ▸ List.mem_cons_self)
      have hnot : ∀ d ∈ ['*', '/'], isCloser d = false := by simp [isCloser]
      cases (hnot c hmem).symm.trans hc
  · exact Or.inr (Or.inr (Or.inr ⟨hsingle '\x7d' hbrace, hblock⟩))

end

end

end ReferencePages
