import ReferencePages.Proofs.Results
import ReferencePages.Proofs.Snippet.FormattedLines
import ReferencePages.Proofs.Snippet.Indentation
import ReferencePages.Proofs.Snippet.Width

/-!
# Tabs or spaces

Two runs that differ in the unit of indentation go through the same lines, and each pass leaves
lines that are reindented (`Reindented`): none looks at more of an indentation than its width. So
the formatted lines look alike, and the same lines are broken into pieces that look alike
(`looksAlike_formatSnippet`).
-/

namespace ReferencePages

/-- Lines of the same width, with the same text behind their indentation. -/
structure LooksAlike (line line' : List Char) : Prop where
  trimStart_eq : trimStart line = trimStart line'
  displayWidth_eq : displayWidth line = displayWidth line'

variable {o o' : FormatOptions} {i j line line' : List Char} {ks ls : List (List Char)}

theorem Reindented.looksAlike (h : Reindented o o' line line') : LooksAlike line line' :=
  ⟨h.text_eq, h.displayWidth_eq⟩

/-! ## Laid out lines -/

theorem reindented_indentLine (o o' : FormatOptions) (depth : Int) (line : SnippetLine) :
    Reindented o o' (indentLine o depth line) (indentLine o' depth line) := by
  unfold indentLine
  split
  · exact Indents.nil.reindented line.text
  · split
    · exact Indents.nil.reindented []
    · refine ((Indents.units o o' depth.toNat).append ?_).reindented line.text
      split
      · exact fun c hc => List.mem_singleton.1 hc ▸ rfl
      · exact List.forall_mem_nil _
  · split
    · exact Indents.nil.reindented []
    · exact (Indents.units o o' _).reindented line.text

theorem forall₂_keptLines (hcomma : o.trailingComma = o'.trailingComma) (depth : Int)
    (ls : List SnippetLine) :
    List.Forall₂ (Reindented o o') ((keptLines o (indentLines o depth ls)).map SnippetLine.text)
      ((keptLines o' (indentLines o' depth ls)).map SnippetLine.text) := by
  induction ls generalizing depth with
  | nil =>
    rw [indentLines, indentLines, keptLines_nil, keptLines_nil]
    exact .nil
  | cons line rest ih =>
    have hline := reindented_indentLine o o' depth line
    have hloses : Loses o line (rest.map SnippetLine.text) ↔
        Loses o' line (rest.map SnippetLine.text) := by
      unfold Loses
      rw [hcomma]
    rw [indentLines, indentLines, keptLines_cons, keptLines_cons, List.map_cons, List.map_cons]
    refine .cons ?_ (ih _)
    simp only [loses_indentLine_iff, ← hloses]
    split
    · next hlost =>
      have hlast := ((dangles_indentLine_iff o depth line _).2 hlost.2.2).1
      exact hline.dropLast hlast rfl
    · exact hline

theorem forall₂_collapseBlanks (h : List.Forall₂ (Reindented o o') ls ks) (seen gap : Bool) :
    List.Forall₂ (Reindented o o') (collapseBlanks seen gap ls) (collapseBlanks seen gap ks) := by
  induction h generalizing seen gap with
  | nil => exact .nil
  | @cons line line' ls ks hline hrest ih =>
    by_cases hblank : trim line = []
    · rw [collapseBlanks_cons_of_blank hblank,
        collapseBlanks_cons_of_blank (hline.trim_eq ▸ hblank)]
      exact ih seen seen
    · rw [collapseBlanks_cons_of_ne_nil hblank,
        collapseBlanks_cons_of_ne_nil (hline.trim_eq ▸ hblank)]
      refine List.rel_append ?_ (.cons hline (ih true false))
      cases gap with
      | false => exact .nil
      | true => exact .cons (Indents.nil.reindented []) .nil

/-! ## The end of the statement -/

theorem Reindented.keyword_eq (h : Reindented o o' line line') : keyword line = keyword line' := by
  rw [keyword, keyword, h.text_eq]

theorem Reindented.needsSemicolon_eq (h : Reindented o o' line line') (word : List Char) :
    needsSemicolon word line = needsSemicolon word line' := by
  have hslashes : ∀ c ∈ ['/', '/'], isBlank c = false :=
    List.forall_mem_cons.2 ⟨rfl, List.forall_mem_singleton.2 rfl⟩
  have hclose : ∀ c ∈ ['*', '/'], isBlank c = false :=
    List.forall_mem_cons.2 ⟨rfl, List.forall_mem_singleton.2 rfl⟩
  have hfalse : needsSemicolon word line = false ↔ needsSemicolon word line' = false := by
    rw [needsSemicolon_eq_false_iff, needsSemicolon_eq_false_iff,
      h.trimEnd.suffix_iff (List.forall_mem_singleton.2 rfl), h.trimEnd.infix_iff hslashes,
      h.trimEnd.suffix_iff hclose, h.trimEnd.suffix_iff (List.forall_mem_singleton.2 rfl)]
  exact Bool.not_inj (Bool.coe_false_iff_false.1 hfalse)

/-- Lines that correspond to some lines and a last one end with a line that corresponds to that. -/
theorem exists_of_forall₂_concat {α β : Type} {R : α → β → Prop} {xs : List α} {x : α}
    {ys : List β} (h : List.Forall₂ R (xs ++ [x]) ys) :
    ∃ ys' y, ys = ys' ++ [y] ∧ List.Forall₂ R xs ys' ∧ R x y := by
  obtain ⟨ys', last, hys', hlast, rfl⟩ := forall₂_append_left_iff.1 h
  obtain ⟨y, rest, hy, hnil, rfl⟩ := List.forall₂_cons_left_iff.1 hlast
  obtain rfl := List.forall₂_nil_left_iff.1 hnil
  exact ⟨ys', y, rfl, hys', hy⟩

theorem forall₂_terminate (h : List.Forall₂ (Reindented o o') ls ks) :
    List.Forall₂ (Reindented o o') (terminate ls) (terminate ks) := by
  rcases List.eq_nil_or_concat' ls with rfl | ⟨init, last, rfl⟩
  · obtain rfl := List.forall₂_nil_left_iff.1 h
    exact .nil
  obtain ⟨init', last', rfl, hinit, hlast⟩ := exists_of_forall₂_concat h
  obtain ⟨first, first', hfirst, hfirst', hkeyword⟩ : ∃ first first',
      (init ++ [last]).head? = some first ∧ (init' ++ [last']).head? = some first' ∧
        keyword first = keyword first' := by
    cases hinit with
    | nil => exact ⟨last, last', rfl, rfl, hlast.keyword_eq⟩
    | cons hline _ => exact ⟨_, _, rfl, rfl, hline.keyword_eq⟩
  rw [terminate_concat hfirst, terminate_concat hfirst', ← hkeyword, ← hlast.needsSemicolon_eq]
  refine List.rel_append hinit (.cons ?_ .nil)
  split
  · exact hlast.append [';']
  · exact hlast

/-- The lines before long ones are broken are reindented. -/
theorem forall₂_layoutLines (o : FormatOptions) (tabs : Bool) (source : List Char) :
    List.Forall₂ (Reindented o { o with useTabs := tabs }) (layoutLines o source)
      (layoutLines { o with useTabs := tabs } source) := by
  have hset : spaceLines { o with useTabs := tabs } .code (lines source) =
      spaceLines o .code (lines source) := spaceLines_setting o o.printWidth tabs .code _
  have hcomma : o.trailingComma = ({ o with useTabs := tabs } : FormatOptions).trailingComma := rfl
  refine forall₂_terminate (forall₂_collapseBlanks ?_ false false)
  dsimp only
  rw [hset]
  exact forall₂_keptLines hcomma 0 _

/-! ## Broken lines -/

theorem forall₂_items {line line' : List Char → List Char → List Char}
    (hline : ∀ item stop, Reindented o o' (line item stop) (line' item stop))
    (items : List (List Char)) (stop last : List Char) :
    List.Forall₂ (Reindented o o')
      (items.dropLast.map (line · stop) ++ items.getLast?.toList.map (line · last))
      (items.dropLast.map (line' · stop) ++ items.getLast?.toList.map (line' · last)) := by
  have hmap (items : List (List Char)) (stop : List Char) :
      List.Forall₂ (Reindented o o') (items.map (line · stop)) (items.map (line' · stop)) := by
    rw [List.forall₂_map_left_iff, List.forall₂_map_right_iff, List.forall₂_same]
    exact fun item _ => hline item stop
  exact List.rel_append (hmap _ stop) (hmap _ last)

theorem Indents.forall₂_memberLines (h : Indents o o' i j) (members : List (List Char))
    (stop : List Char) :
    List.Forall₂ (Reindented o o') (memberLines i members stop) (memberLines j members stop) := by
  have hmember (member stop : List Char) :
      Reindented o o' (i ++ ['|', ' '] ++ member ++ stop) (j ++ ['|', ' '] ++ member ++ stop) :=
    ((h.reindented ['|', ' ']).append member).append stop
  exact forall₂_items hmember members [] stop

theorem Indents.forall₂_itemLines (h : Indents o o' i j)
    (hcomma : o.trailingComma = o'.trailingComma) (items : List (List Char)) :
    List.Forall₂ (Reindented o o') (itemLines o i items) (itemLines o' j items) := by
  have hitem (item stop : List Char) :
      Reindented o o' (i ++ trim item ++ stop) (j ++ trim item ++ stop) :=
    (h.reindented (trim item)).append stop
  have hlast : lastComma o = lastComma o' := by rw [lastComma, lastComma, hcomma]
  rw [itemLines, itemLines, hlast]
  exact forall₂_items hitem items [','] (lastComma o')

/-- Reindented lines are broken at the same places. -/
theorem Reindented.forall₂_breakLine (h : Reindented o o' line line')
    (hwidth : o.printWidth = o'.printWidth) (hcomma : o.trailingComma = o'.trailingComma) :
    List.Forall₂ (Reindented o o') (breakLine o line) (breakLine o' line') := by
  have hindent := h.indent
  obtain ⟨union, hunion⟩ := exists_breakUnion_eq (trimStart line)
  obtain ⟨parens, hparens⟩ := exists_breakParens_eq (trimStart line)
  unfold breakLine
  rw [← h.displayWidth_eq, ← hwidth, ← h.text_eq]
  split
  · exact .cons h .nil
  · dsimp only
    rw [hunion, hunion, hparens, hparens]
    rcases union with _ | ⟨left, members, stop⟩
    · rcases parens with _ | ⟨left, items, close⟩
      · exact .cons h .nil
      · refine .cons ((hindent.reindented left).append ['(']) (List.rel_append ?_ ?_)
        · exact hindent.unit.forall₂_itemLines hcomma items
        · exact .cons (hindent.reindented close) .nil
    · exact .cons ((hindent.reindented left).append [' ', '='])
        (hindent.unit.forall₂_memberLines members stop)

/-! ## Formatted snippets -/

theorem forall₂_splitLines_joinLines (hls : ∀ line ∈ ls, '\n' ∉ line)
    (hks : ∀ line ∈ ks, '\n' ∉ line) (h : List.Forall₂ LooksAlike ls ks) :
    List.Forall₂ LooksAlike (splitLines (joinLines ls)) (splitLines (joinLines ks)) := by
  rw [splitLines_joinLines hls, splitLines_joinLines hks]
  cases h with
  | nil => exact .cons ⟨rfl, rfl⟩ .nil
  | cons hline hrest => exact .cons hline hrest

/-- Whether tabs or spaces are used, the lines of a formatted snippet look alike, and the same lines
are broken into pieces that look alike. -/
theorem looksAlike_formatSnippet (o : FormatOptions) (tabs : Bool) (source : String) :
    List.Forall₂ LooksAlike (splitLines (formatSnippet o source).toList)
        (splitLines (formatSnippet { o with useTabs := tabs } source).toList) ∧
      List.Forall₂ (List.Forall₂ LooksAlike)
        ((layoutLines o source.toList).map (breakLine o))
        ((layoutLines { o with useTabs := tabs } source.toList).map
          (breakLine { o with useTabs := tabs })) := by
  have hpieces : List.Forall₂ (List.Forall₂ (Reindented o { o with useTabs := tabs }))
      ((layoutLines o source.toList).map (breakLine o))
      ((layoutLines { o with useTabs := tabs } source.toList).map
        (breakLine { o with useTabs := tabs })) :=
    List.rel_map (fun _ _ h => h.forall₂_breakLine rfl rfl)
      (forall₂_layoutLines o tabs source.toList)
  have hlines : List.Forall₂ (Reindented o { o with useTabs := tabs })
      (formatLines o source.toList) (formatLines { o with useTabs := tabs } source.toList) :=
    List.rel_flatten hpieces
  refine ⟨?_, hpieces.imp fun _ _ h => h.imp fun _ _ h => h.looksAlike⟩
  rw [formatSnippet, formatSnippet, String.toList_ofList, String.toList_ofList]
  exact forall₂_splitLines_joinLines (feed_formatLines _ _) (feed_formatLines _ _)
    (hlines.imp fun _ _ h => h.looksAlike)

end ReferencePages
