import ReferencePages.Proofs.DocComment.Gutter
import ReferencePages.Proofs.DocComment.Sections

/-!
# Comments in canonical form

A comment is written from the lines of its description and from its tags, one line behind each
gutter (`writeComment`). Reading it gives the description and the tags back
(`parse_writeComment`): cleaning finds the lines that were written (`cleanComment_writeComment`),
and cutting them finds the description and the tags again (`collect_description`, `collect_tags`).

A fence that a tag opens is open for the lines of the next tags too, so every tag but the last has
to close its fences. A fence line may be indented: a tag without a line that starts with a fence
can still swallow the tags behind it (`parse_writeComment_indentedFence`).
-/

namespace ReferencePages

/-! ## What is written -/

/-- A tag as it is written: its name, what stands on its line, and the lines below. -/
structure WrittenTag where
  /-- The name behind the at sign. -/
  name : List Char
  /-- The content on the line of the name. -/
  first : List Char
  /-- The lines of the content below. -/
  more : List (List Char) := []
deriving DecidableEq

namespace WrittenTag

/-- The content of a tag. -/
def content (tag : WrittenTag) : List Char := joinLines (tag.first :: tag.more)

/-- The lines of a tag. -/
def lines (tag : WrittenTag) : List (List Char) :=
  ('@' :: tag.name ++ ' ' :: tag.first) :: tag.more

/-- What a tag says. -/
def meaning (tag : WrittenTag) : Tag := Tag.ofContent tag.name tag.content

end WrittenTag

/-- A line behind its gutter. -/
def writeLine (indent line : List Char) : List Char := indent ++ '*' :: ' ' :: line

/-- A comment of the given lines, with the indentation of each gutter and of what closes the
comment. -/
def writeComment (indent : Nat → List Char) (ls : List (List Char)) : List Char :=
  joinLines ("/**".toList ::
    (ls.mapIdx (fun i l => writeLine (indent i) l) ++ [indent ls.length ++ ['*', '/']]))

/-- The lines of a description and of the tags behind it. -/
def writtenLines (ds : List (List Char)) (tags : List WrittenTag) : List (List Char) :=
  ds ++ tags.flatMap (·.lines)

/-! ## Well-formed parts -/

/-- A line that cleaning leaves as it is. -/
structure IsContentLine (l : List Char) : Prop where
  feed : '\n' ∉ l
  trimmed : trimEnd l = l
  noClose : contains ['*', '/'] l = false

instance (l : List Char) : Decidable (IsContentLine l) :=
  decidable_of_iff ('\n' ∉ l ∧ trimEnd l = l ∧ contains ['*', '/'] l = false)
    ⟨fun ⟨hfeed, htrim, hclose⟩ => ⟨hfeed, htrim, hclose⟩,
      fun h => ⟨h.feed, h.trimmed, h.noClose⟩⟩

/-- The lines of a description: trimmed as a whole, with every fence closed, with at signs in
fenced blocks only and without inline links. -/
structure IsDescription (ds : List (List Char)) : Prop where
  line : ∀ l ∈ ds, IsContentLine l
  noLink : ∀ l ∈ ds, contains ['{', '@'] l = false
  trimmed : trim (joinLines ds) = joinLines ds
  closed : fenceAfter false ds = false
  fenced : atsFenced false ds = true

/-- A tag with a plain name, and with a trimmed content without at signs. -/
structure WrittenTag.IsPlain (tag : WrittenTag) : Prop where
  letter : tag.name.head?.any isAsciiLetter = true
  tagChar : ∀ c ∈ tag.name, isTagChar c = true
  line : ∀ l ∈ tag.first :: tag.more, IsContentLine l
  noAt : ∀ l ∈ tag.first :: tag.more, '@' ∉ l
  trimmed : trim tag.content = tag.content

/-! ## Cleaning -/

theorem trimStart_append {a b : List Char} (ha : ∀ c ∈ a, isBlank c = true) :
    trimStart (a ++ b) = trimStart b :=
  List.dropWhile_append_of_pos ha

theorem closeLine_gutterLine_writeLine {indent l : List Char}
    (hindent : ∀ c ∈ indent, isBlank c = true) (hl : ¬['*', '/'] <:+: l) :
    closeLine (gutterLine (writeLine indent l)) = trimEnd l := by
  have hstar : trimStart (writeLine indent l) = '*' :: ' ' :: l := by
    rw [writeLine, trimStart_append hindent]
    rfl
  rw [gutterLine_of_star hstar (by simp), dropSpace, closeLine_of_not_infix hl]

theorem closeLine_gutterLine_close {indent : List Char}
    (hindent : ∀ c ∈ indent, isBlank c = true) :
    closeLine (gutterLine (indent ++ ['*', '/'])) = [] := by
  have hclose : gutterLine (indent ++ ['*', '/']) = ['*', '/'] := by
    rw [gutterLine, trimStart_append hindent]
    rfl
  rw [hclose]
  rfl

/-- Cleaning finds the lines that were written, without the blanks at their ends and the empty
lines at both ends. -/
theorem cleanComment_writeComment {indent : Nat → List Char} {ls : List (List Char)}
    (hindent : ∀ i, ∀ c ∈ indent i, isBlank c = true ∧ c ≠ '\n')
    (hfeed : ∀ l ∈ ls, '\n' ∉ l) (hreturn : ∀ l ∈ ls, l.getLast? ≠ some '\r')
    (hopen : ∀ l ∈ ls, ¬['*', '/'] <:+: l) :
    cleanComment (writeComment indent ls) = joinLines (dropEmptyEnds (ls.map trimEnd)) := by
  have hblank : ∀ i, ∀ c ∈ indent i, isBlank c = true := fun i c hc => (hindent i c hc).1
  have hindentFeed : ∀ i, '\n' ∉ indent i := fun i hfeed => (hindent i _ hfeed).2 rfl
  have hlines : lines (writeComment indent ls) = "/**".toList ::
      (ls.mapIdx (fun i l => writeLine (indent i) l) ++ [indent ls.length ++ ['*', '/']]) := by
    refine lines_joinLines ?_ ?_ ?_
    · intro row hrow
      rcases List.mem_cons.1 hrow with rfl | hrow
      · decide
      · rcases List.mem_append.1 hrow with hrow | hrow
        · obtain ⟨i, hi, rfl⟩ := List.mem_mapIdx.1 hrow
          have hl := hfeed _ (List.getElem_mem hi)
          simpa [writeLine] using ⟨hindentFeed i, hl⟩
        · rw [List.mem_singleton.1 hrow]
          simpa using hindentFeed ls.length
    · intro row hrow
      rcases List.mem_cons.1 hrow with rfl | hrow
      · decide
      · rcases List.mem_append.1 hrow with hrow | hrow
        · obtain ⟨i, hi, rfl⟩ := List.mem_mapIdx.1 hrow
          have hl := hreturn _ (List.getElem_mem hi)
          cases hl' : ls[i] with
          | nil => simp [writeLine]
          | cons c l => simpa [writeLine, hl'] using hl
        · rw [List.mem_singleton.1 hrow]
          simp
    · rw [← List.cons_append, List.getLast?_concat]
      simp
  have hrows : (ls.mapIdx fun i l => writeLine (indent i) l).map
      (fun line => closeLine (gutterLine line)) = ls.map trimEnd := by
    refine List.ext_getElem (by simp) fun i hi _ => ?_
    rw [List.getElem_map, List.getElem_mapIdx, List.getElem_map]
    exact closeLine_gutterLine_writeLine (hblank i) (hopen _ (List.getElem_mem _))
  rw [cleanComment, hlines, cleanLines, List.map_append, hrows, List.map_singleton,
    closeLine_gutterLine_close (hblank _)]
  rw [show closeLine (openLine "/**".toList) = [] from rfl, ← List.cons_append,
    dropEmptyEnds_concat_nil]
  rfl

/-! ## Empty ends -/

theorem dropEmptyEnds_of_ends {ls : List (List Char)} (hhead : ls.head? ≠ some [])
    (hlast : ls.getLast? ≠ some []) : dropEmptyEnds ls = ls := by
  have hkeep : ∀ ks : List (List Char), ks.head? ≠ some [] → ks.dropWhile (·.isEmpty) = ks := by
    rintro (_ | ⟨_ | ⟨c, k⟩, ks⟩) hks
    · rfl
    · exact absurd rfl hks
    · rfl
  rw [dropEmptyEnds, hkeep ls hhead, hkeep ls.reverse (by rwa [List.head?_reverse]),
    List.reverse_reverse]

theorem ends_of_trimmed {ls : List (List Char)} (h : trim (joinLines ls) = joinLines ls)
    (hne : ls ≠ [[]]) : ls.head? ≠ some [] ∧ ls.getLast? ≠ some [] := by
  obtain ⟨hstart, hend⟩ := trim_eq_self_iff.1 h
  constructor
  · intro hhead
    obtain ⟨rest, rfl⟩ := List.head?_eq_some_iff.1 hhead
    have hrest : rest ≠ [] := fun hnil => hne (congrArg _ hnil)
    rw [joinLines_cons hrest, trimStart_eq_self_iff] at hstart
    exact absurd (hstart '\n' rfl) (by decide)
  · intro hlast
    obtain ⟨init, rfl⟩ := List.getLast?_eq_some_iff.1 hlast
    have hinit : init ≠ [] := by
      rintro rfl
      exact hne rfl
    rw [joinLines_append hinit (List.cons_ne_nil _ _), trimEnd_eq_self_iff] at hend
    exact absurd (hend '\n' (by simp [joinLines, joinWith])) (by decide)

/-! ## Collecting -/

theorem Tag.ofContent_concat {name content : List Char} {c : Char} (hc : isBlank c = true) :
    Tag.ofContent name (content ++ [c]) = Tag.ofContent name content := by
  rw [Tag.ofContent, trim_concat hc]
  rfl

namespace WrittenTag

variable {tag : WrittenTag} {tags : List WrittenTag}

/-- The lines of a tag as cleaning leaves them. -/
def cleanLines (tag : WrittenTag) : List (List Char) :=
  trimEnd ('@' :: tag.name ++ ' ' :: tag.first) :: tag.more

theorem tagName?_append {name rest : List Char} (hletter : name.head?.any isAsciiLetter = true)
    (hname : ∀ c ∈ name, isTagChar c = true) (hrest : ∀ c ∈ rest.head?, isBlank c = true) :
    tagName? (name ++ rest) = some name := by
  have htake : (name ++ rest).takeWhile isTagChar = name ∧
      (name ++ rest).dropWhile isTagChar = rest := by
    rw [List.takeWhile_append_of_pos hname, List.dropWhile_append_of_pos hname]
    cases rest with
    | nil => simp
    | cons c rest =>
      have hc : isTagChar c = false := by
        by_contra htag
        have hblank := not_blank_of_isTagChar (Bool.of_not_eq_false htag)
        exact absurd (hrest c rfl) (by simp [hblank])
      simp [hc]
  have hclosed : rest.head?.all isBlank = true := by
    cases rest with
    | nil => rfl
    | cons c rest => exact hrest c rfl
  rw [tagName?, htake.1, htake.2, hletter, hclosed]
  rfl

/-- A line that starts with an at sign and a name is a tag. -/
theorem lineChunks_tag {name rest : List Char} (hletter : name.head?.any isAsciiLetter = true)
    (hname : ∀ c ∈ name, isTagChar c = true) (hrest : ∀ c ∈ rest.head?, isBlank c = true)
    (hat : '@' ∉ rest) :
    lineChunks ('@' :: (name ++ rest)) = [.text [], .tag name (trimStart rest)] := by
  have hnone : '@' ∉ name ++ rest := by
    rw [List.mem_append, not_or]
    exact ⟨fun hmem => absurd (hname _ hmem) (by decide), hat⟩
  have hstart : startsTag? {} '@' (name ++ rest) = some name := by
    rw [startsTag?, if_pos ⟨rfl, rfl⟩, tagName?_append hletter hname hrest]
    rfl
  have hcut : cutTags {} ('@' :: (name ++ rest)) = ([], [(name, trimStart rest)]) := by
    rw [cutTags, cutTags_of_not_mem hnone, hstart]
    simp only [List.drop_left]
  rw [lineChunks, hcut]
  rfl

theorem IsPlain.lineChunks_head (h : tag.IsPlain) :
    lineChunks (trimEnd ('@' :: tag.name ++ ' ' :: tag.first)) =
      [.text [], .tag tag.name tag.first] := by
  have hat : '@' ∉ tag.first := h.noAt _ List.mem_cons_self
  have hfirst := (h.line _ List.mem_cons_self).trimmed
  rcases hc : tag.first with _ | ⟨c, first⟩
  · have hrow : trimEnd ('@' :: tag.name ++ [' ']) = '@' :: (tag.name ++ []) := by
      refine (List.rdropWhile_concat_pos isBlank _ ' ' rfl).trans ?_
      rw [List.append_nil]
      refine trimEnd_eq_self_iff.2 fun d hd => ?_
      rcases List.mem_cons.1 (List.mem_of_getLast? hd) with rfl | hd
      · rfl
      · exact not_blank_of_isTagChar (h.tagChar d hd)
    rw [hrow, lineChunks_tag h.letter h.tagChar (by simp) (by simp)]
    rfl
  · have hrow : trimEnd ('@' :: tag.name ++ ' ' :: c :: first) =
        '@' :: (tag.name ++ ' ' :: c :: first) := by
      rw [hc, trimEnd_eq_self_iff] at hfirst
      refine trimEnd_eq_self_iff.2 ?_
      rwa [List.getLast?_append_of_ne_nil _ (List.cons_ne_nil _ _), List.getLast?_cons_cons]
    have hstart : trimStart (' ' :: c :: first) = c :: first := by
      have hcontent := trimStart_eq_self_iff.1 (trim_eq_self_iff.1 h.trimmed).1
      have hhead : tag.content.head? = some c := by
        rw [content, hc]
        cases tag.more <;> rfl
      have hspace : trimStart (' ' :: c :: first) = trimStart (c :: first) := rfl
      rw [hspace, trimStart_eq_self_iff]
      exact fun d hd => hcontent d (hhead.trans hd)
    rw [hrow, lineChunks_tag h.letter h.tagChar (by simp; decide) (by simpa [hc] using hat), hstart]

/-- The line of a tag's name is no fence. -/
theorem isFenceLine_head (s : List Char) : isFenceLine (trimEnd ('@' :: s)) = false := by
  have hat : trimEnd ('@' :: s) = '@' :: trimEnd s := dropEndWhile_append_cons (s := []) rfl
  rw [hat]
  rfl

theorem fenceAfter_cleanLines (tag : WrittenTag) :
    fenceAfter false tag.cleanLines = fenceAfter false tag.more := by
  rw [cleanLines, fenceAfter, List.cons_append, isFenceLine_head]
  rfl

theorem IsPlain.chunksOfLines_cleanLines (h : tag.IsPlain) :
    chunksOfLines false tag.cleanLines =
      [.text [], .tag tag.name tag.first] :: tag.more.map fun l => [Chunk.text l] := by
  have hmore : ∀ l ∈ tag.more, '@' ∉ l := fun l hl => h.noAt l (List.mem_cons_of_mem _ hl)
  have hfence := isFenceLine_head (tag.name ++ ' ' :: tag.first)
  rw [← List.cons_append] at hfence
  rw [cleanLines, chunksOfLines, hfence, if_neg Bool.false_ne_true, if_neg Bool.false_ne_true,
    h.lineChunks_head, chunksOfLines_of_atsFenced (atsFenced_of_not_mem hmore false)]

theorem IsPlain.collect_cleanLines (h : tag.IsPlain) (rest : List Chunk) :
    collect ([Chunk.text ['\n']].intercalate (chunksOfLines false tag.cleanLines) ++ rest) =
      ([], (tag.name, tag.content ++ (collect rest).1) :: (collect rest).2) := by
  rw [h.chunksOfLines_cleanLines, content]
  by_cases hmore : tag.more = []
  · rw [hmore]
    simp [collect, joinLines, joinWith]
  · have hmap : (tag.more.map fun l => [Chunk.text l]) ≠ [] := by simpa using hmore
    rw [List.intercalate_cons_of_ne_nil hmap, joinLines_cons hmore]
    simp only [List.append_assoc, List.cons_append, List.nil_append, collect, collect_texts]

/-- Tags are found again, each with its content. -/
theorem collect_tags (hplain : ∀ tag ∈ tags, tag.IsPlain)
    (hclosed : ∀ tag ∈ tags.dropLast, fenceAfter false tag.more = false) :
    let found := collect ([Chunk.text ['\n']].intercalate
      (chunksOfLines false (tags.flatMap (·.cleanLines))))
    found.1 = [] ∧ (found.2.map fun tag => Tag.ofContent tag.1 tag.2) = tags.map (·.meaning) := by
  induction tags with
  | nil => exact ⟨rfl, rfl⟩
  | cons tag tags ih =>
    have hplainTag := hplain tag List.mem_cons_self
    by_cases htags : tags = []
    · subst htags
      have hcollect := hplainTag.collect_cleanLines []
      rw [List.append_nil] at hcollect
      simp only [List.flatMap_singleton, hcollect]
      simp [collect, meaning]
    · rw [List.dropLast_cons_of_ne_nil htags] at hclosed
      have hfence : fenceAfter false tag.cleanLines = false := by
        rw [fenceAfter_cleanLines]
        exact hclosed tag List.mem_cons_self
      have hchunks : chunksOfLines false tag.cleanLines ≠ [] := by
        rw [hplainTag.chunksOfLines_cleanLines]
        exact List.cons_ne_nil _ _
      have hchunks' : chunksOfLines false (tags.flatMap (·.cleanLines)) ≠ [] := by
        obtain ⟨t, ts, rfl⟩ := List.exists_cons_of_ne_nil htags
        exact chunksOfLines_ne_nil (List.cons_ne_nil _ _) false
      obtain ⟨htext, htags'⟩ := ih (fun t ht => hplain t (List.mem_cons_of_mem _ ht))
        fun t ht => hclosed t (List.mem_cons_of_mem _ ht)
      simp only [List.flatMap_cons, chunksOfLines_append, hfence,
        intercalate_append _ hchunks hchunks', List.append_assoc, hplainTag.collect_cleanLines]
      have hfeed : Tag.ofContent tag.name (tag.content ++ ['\n']) = tag.meaning :=
        Tag.ofContent_concat rfl
      simpa [collect, htext, hfeed] using htags'

/-! ### The lines of a tag -/

theorem IsPlain.map_trimEnd_lines (h : tag.IsPlain) : tag.lines.map trimEnd = tag.cleanLines := by
  have hmore : tag.more.map trimEnd = tag.more :=
    List.map_congr_left (fun l hl => (h.line l (List.mem_cons_of_mem _ hl)).trimmed) |>.trans
      (List.map_id _)
  rw [lines, List.map_cons, hmore, cleanLines]

theorem head?_cleanLines (tag : WrittenTag) : tag.cleanLines.head? ≠ some [] := by
  have hat : trimEnd ('@' :: tag.name ++ ' ' :: tag.first) =
    '@' :: trimEnd (tag.name ++ ' ' :: tag.first) := dropEndWhile_append_cons (s := []) rfl
  rw [cleanLines, List.head?_cons, hat]
  simp

theorem IsPlain.getLast?_cleanLines (h : tag.IsPlain) : tag.cleanLines.getLast? ≠ some [] := by
  by_cases hmore : tag.more = []
  · rw [cleanLines, hmore]
    exact head?_cleanLines { tag with more := [] }
  · have hlast := (ends_of_trimmed h.trimmed (by simpa using fun _ => hmore)).2
    rw [List.getLast?_cons_of_ne_nil hmore] at hlast
    rwa [cleanLines, List.getLast?_cons_of_ne_nil hmore]

end WrittenTag

/-! ## Reading a written comment -/

section

variable {indent : Nat → List Char} {ds : List (List Char)} {tags : List WrittenTag}

/-- The lines of a comment as cleaning leaves them. -/
def cleanWrittenLines (ds : List (List Char)) (tags : List WrittenTag) : List (List Char) :=
  ds ++ tags.flatMap (·.cleanLines)

theorem map_trimEnd_writtenLines (hds : IsDescription ds) (htags : ∀ tag ∈ tags, tag.IsPlain) :
    (writtenLines ds tags).map trimEnd = cleanWrittenLines ds tags := by
  have hmap : ds.map trimEnd = ds :=
    (List.map_congr_left fun l hl => (hds.line l hl).trimmed).trans (List.map_id _)
  rw [writtenLines, List.map_append, hmap, List.map_flatMap, cleanWrittenLines]
  congr 1
  exact List.flatMap_congr fun tag htag => (htags tag htag).map_trimEnd_lines

theorem ends_cleanWrittenLines (hds : IsDescription ds) (hne : ds ≠ [[]])
    (htags : ∀ tag ∈ tags, tag.IsPlain) : (cleanWrittenLines ds tags).head? ≠ some [] ∧
      (cleanWrittenLines ds tags).getLast? ≠ some [] := by
  obtain ⟨hhead, hlast⟩ := ends_of_trimmed hds.trimmed hne
  constructor
  · cases ds with
    | nil =>
      cases tags with
      | nil => simp [cleanWrittenLines]
      | cons tag tags => exact tag.head?_cleanLines
    | cons d ds => exact hhead
  · rcases List.eq_nil_or_concat' tags with rfl | ⟨tags, tag, rfl⟩
    · simpa [cleanWrittenLines] using hlast
    · have htag := (htags tag (by simp)).getLast?_cleanLines
      have hcons : tag.cleanLines ≠ [] := List.cons_ne_nil _ _
      rwa [cleanWrittenLines, List.flatMap_append, List.flatMap_singleton, ← List.append_assoc,
        List.getLast?_append_of_ne_nil _ hcons]

/-- No written line ends a line or the comment, or holds an inline link. -/
theorem of_mem_writtenLines (hds : IsDescription ds) (htags : ∀ tag ∈ tags, tag.IsPlain)
    {l : List Char} (hl : l ∈ writtenLines ds tags) :
    '\n' ∉ l ∧ l.getLast? ≠ some '\r' ∧ ¬['*', '/'] <:+: l ∧ ¬['{', '@'] <:+: l := by
  have hcontent : ∀ l, IsContentLine l → ¬['{', '@'] <:+: l →
      '\n' ∉ l ∧ l.getLast? ≠ some '\r' ∧ ¬['*', '/'] <:+: l ∧ ¬['{', '@'] <:+: l :=
    fun l h hlink => ⟨h.feed, fun hreturn =>
      absurd (trimEnd_eq_self_iff.1 h.trimmed _ hreturn) (by decide),
      contains_eq_false_iff.1 h.noClose, hlink⟩
  rcases List.mem_append.1 hl with hl | hl
  · exact hcontent l (hds.line l hl) (contains_eq_false_iff.1 (hds.noLink l hl))
  · obtain ⟨tag, htag, hl⟩ := List.mem_flatMap.1 hl
    have hplain := htags tag htag
    rcases List.mem_cons.1 hl with rfl | hl
    · have hname {c} (hc : isTagChar c = false) : c ∉ tag.name := fun hmem =>
        absurd (hplain.tagChar c hmem) (by simp [hc])
      have hfirst := hplain.line _ List.mem_cons_self
      refine ⟨?_, ?_, fun hclose => ?_, fun hlink => ?_⟩
      · simpa using ⟨hname rfl, hfirst.feed⟩
      · rw [List.getLast?_append_of_ne_nil _ (List.cons_ne_nil _ _)]
        cases hc : tag.first with
        | nil => simp
        | cons c first =>
          rw [List.getLast?_cons_cons, ← hc]
          exact (hcontent _ hfirst fun h => hplain.noAt _ List.mem_cons_self
            (h.subset (by simp))).2.1
      · rcases infix_append_cons (by decide) hclose with h | h
        · have hmem : '*' ∈ '@' :: tag.name := h.subset (by simp)
          exact hname rfl (by simpa using hmem)
        · exact contains_eq_false_iff.1 hfirst.noClose h
      · rcases infix_append_cons (by decide) hlink with h | h
        · have hmem : '{' ∈ '@' :: tag.name := h.subset (by simp)
          exact hname rfl (by simpa using hmem)
        · exact hplain.noAt _ List.mem_cons_self (h.subset (by simp))
    · refine hcontent l (hplain.line l (List.mem_cons_of_mem _ hl)) fun hlink => ?_
      exact hplain.noAt l (List.mem_cons_of_mem _ hl) (hlink.subset (by simp))

theorem resolveInlineLinks_of_no_link {s : List Char} (h : ¬['{', '@'] <:+: s) :
    resolveInlineLinks s = s := by
  refine replaceMatches_of_not_hasMatch (Bool.eq_false_iff.2 fun hmatch => h ?_)
  obtain ⟨a, c, b, rfl, hlink⟩ := hasMatch_iff.1 hmatch
  rw [inlineLink] at hlink
  rcases hdrop : dropPrefix? ['{', '@'] (c :: b) with _ | rest
  · rw [hdrop] at hlink
    cases hlink
  · rw [dropPrefix?_eq_some_iff.1 hdrop]
    exact ⟨a, rest, by simp⟩

theorem splitSections_cleanWrittenLines (hds : IsDescription ds) (hne : ds ≠ [[]])
    (htags : ∀ tag ∈ tags, tag.IsPlain)
    (hclosed : ∀ tag ∈ tags.dropLast, fenceAfter false tag.more = false) :
    let found := splitSections (resolveInlineLinks (joinLines (cleanWrittenLines ds tags)))
    trim found.1 = joinLines ds ∧
      (found.2.map fun tag => Tag.ofContent tag.1 tag.2) = tags.map (·.meaning) := by
  have hwritten {l} (hl : l ∈ cleanWrittenLines ds tags) : '\n' ∉ l ∧ l.getLast? ≠ some '\r' ∧
      ¬['{', '@'] <:+: l := by
    rw [← map_trimEnd_writtenLines hds htags] at hl
    obtain ⟨k, hk, rfl⟩ := List.mem_map.1 hl
    obtain ⟨hfeed, -, -, hlink⟩ := of_mem_writtenLines hds htags hk
    have hstart : trimEnd k <+: k := List.rdropWhile_prefix isBlank k
    refine ⟨fun h => hfeed (hstart.subset h), fun hreturn => ?_, fun h => ?_⟩
    · have htrim := trimEnd_eq_self_iff.1 (List.rdropWhile_idempotent isBlank k) _ hreturn
      exact absurd htrim (by decide)
    · exact hlink (h.trans hstart.isInfix)
  have hlink : ¬['{', '@'] <:+: joinLines (cleanWrittenLines ds tags) := fun h => by
    obtain ⟨l, hl, hinfix⟩ := exists_of_infix_joinLines (by simp) (by decide) h
    exact (hwritten hl).2.2 hinfix
  have hlines : lines (joinLines (cleanWrittenLines ds tags)) = cleanWrittenLines ds tags :=
    lines_joinLines (fun l hl => (hwritten hl).1) (fun l hl => (hwritten hl).2.1)
      (ends_cleanWrittenLines hds hne htags).2
  rw [resolveInlineLinks_of_no_link hlink, splitSections, hlines, cleanWrittenLines,
    chunksOfLines_append, hds.closed, chunksOfLines_of_atsFenced hds.fenced]
  obtain ⟨htext, hmeaning⟩ := WrittenTag.collect_tags htags hclosed
  rcases eq_or_ne tags [] with rfl | hne'
  · have hcollect := collect_texts ds []
    rw [List.append_nil] at hcollect
    simpa [chunksOfLines, hcollect, collect] using hds.trimmed
  · rcases eq_or_ne ds [] with rfl | hnil
    · exact ⟨by rw [List.map_nil, List.nil_append, htext]; rfl, hmeaning⟩
    · have htexts : (ds.map fun l => [Chunk.text l]) ≠ [] := by simpa using hnil
      have htagLines : tags.flatMap (·.cleanLines) ≠ [] := by
        obtain ⟨t, ts, rfl⟩ := List.exists_cons_of_ne_nil hne'
        exact List.cons_ne_nil _ _
      rw [intercalate_append _ htexts (chunksOfLines_ne_nil htagLines false), List.append_assoc,
        collect_texts]
      simp only [List.singleton_append, collect, htext, List.append_nil]
      exact ⟨(trim_concat rfl).trans hds.trimmed, hmeaning⟩

end

/-- A comment that is written from a description and plain tags says what was written. -/
theorem parse_writeComment {indent : Nat → List Char} {ds : List (List Char)}
    {tags : List WrittenTag} (hindent : ∀ i, ∀ c ∈ indent i, isBlank c = true ∧ c ≠ '\n')
    (hds : IsDescription ds) (htags : ∀ tag ∈ tags, tag.IsPlain)
    (hclosed : ∀ tag ∈ tags.dropLast, fenceAfter false tag.more = false) :
    DocComment.parse (String.ofList (writeComment indent (writtenLines ds tags))) =
      { description := String.ofList (joinLines ds), tags := tags.map (·.meaning) } := by
  have hlines {l} (hl : l ∈ writtenLines ds tags) := of_mem_writtenLines hds htags hl
  have hclean : cleanComment (writeComment indent (writtenLines ds tags)) =
      joinLines (dropEmptyEnds (cleanWrittenLines ds tags)) := by
    rw [← map_trimEnd_writtenLines hds htags]
    exact cleanComment_writeComment hindent (fun l hl => (hlines hl).1)
      (fun l hl => (hlines hl).2.1) fun l hl => (hlines hl).2.2.1
  rw [DocComment.parse, String.toList_ofList, hclean]
  -- An empty description may take a line of its own, which is dropped.
  obtain ⟨kept, hkept, hne, htext, hdrop⟩ : ∃ kept, IsDescription kept ∧ kept ≠ [[]] ∧
      joinLines kept = joinLines ds ∧
      dropEmptyEnds (cleanWrittenLines ds tags) = dropEmptyEnds (cleanWrittenLines kept tags) := by
    by_cases hne : ds = [[]]
    · subst hne
      exact ⟨[], ⟨by simp, by simp, rfl, rfl, rfl⟩, by simp, rfl, rfl⟩
    · exact ⟨ds, hds, hne, rfl, rfl⟩
  obtain ⟨hhead, hlast⟩ := ends_cleanWrittenLines hkept hne htags
  obtain ⟨hdescription, hmeaning⟩ := splitSections_cleanWrittenLines hkept hne htags hclosed
  rw [hdrop, dropEmptyEnds_of_ends hhead hlast, ← htext]
  exact congrArg₂ DocComment.mk (congrArg String.ofList hdescription) hmeaning

/-- A description with an at sign in a fenced block. -/
def fencedDescription : List (List Char) :=
  ["Opens a file.".toList, [], "  ```js".toList, "@param x".toList, "```".toList]

/-- A tag without content, one with a fenced block, and one that leaves its fence open. -/
def fencedTags : List WrittenTag :=
  [{ name := "readonly".toList, first := [] },
    { name := "example".toList, first := "Call".toList,
      more := ["```".toList, "  open()".toList, "```".toList] },
    { name := "note".toList, first := "see".toList, more := ["```".toList] }]

/-- The parts of a comment with fenced blocks are found again. -/
theorem parse_writeComment_fenced :
    (∀ i, ∀ c ∈ List.replicate i '\t', isBlank c = true ∧ c ≠ '\n') ∧
      IsDescription fencedDescription ∧ (∀ tag ∈ fencedTags, tag.IsPlain) ∧
      (∀ tag ∈ fencedTags.dropLast, fenceAfter false tag.more = false) ∧
      DocComment.parse (String.ofList (writeComment (fun i => List.replicate i '\t')
        (writtenLines fencedDescription fencedTags))) =
        { description := String.ofList (joinLines fencedDescription)
          tags := fencedTags.map (·.meaning) } := by
  have hindent : ∀ i, ∀ c ∈ List.replicate i '\t', isBlank c = true ∧ c ≠ '\n' := by
    intro i c hc
    rw [List.eq_of_mem_replicate hc]
    decide
  have hds : IsDescription fencedDescription := by constructor <;> decide
  have htags : ∀ tag ∈ fencedTags, tag.IsPlain := by
    simp only [fencedTags, List.forall_mem_cons]
    exact ⟨⟨rfl, List.all_eq_true.1 rfl, by decide, by decide, rfl⟩,
      ⟨rfl, List.all_eq_true.1 rfl, by decide, by decide, rfl⟩,
      ⟨rfl, List.all_eq_true.1 rfl, by decide, by decide, rfl⟩, by simp⟩
  have hclosed : ∀ tag ∈ fencedTags.dropLast, fenceAfter false tag.more = false := by
    simp only [fencedTags, List.dropLast, List.forall_mem_cons]
    exact ⟨rfl, rfl, by simp⟩
  exact ⟨hindent, hds, htags, hclosed, parse_writeComment hindent hds htags hclosed⟩

/-- A tag with an indented fence that stays open, and a tag behind it. -/
def indentedFenceTags : List WrittenTag :=
  [{ name := "a".toList, first := "x".toList, more := [" ```".toList] },
    { name := "b".toList, first := "y".toList }]

/-- No line of these tags starts with a fence, and still they are not found again: the second
stands in the block that the first one opens. -/
theorem parse_writeComment_indentedFence :
    IsDescription [] ∧
      (∀ tag ∈ indentedFenceTags, tag.IsPlain ∧
        ∀ l ∈ tag.first :: tag.more, startsWith ['`', '`', '`'] l = false) ∧
      DocComment.parse (String.ofList (writeComment (fun _ => [' '])
        (writtenLines [] indentedFenceTags))) ≠
        { description := "", tags := indentedFenceTags.map (·.meaning) } := by
  refine ⟨by constructor <;> decide, ?_, fun h => ?_⟩
  · simp only [indentedFenceTags, List.forall_mem_cons]
    exact ⟨⟨⟨rfl, List.all_eq_true.1 rfl, by decide, by decide, rfl⟩, by decide⟩,
      ⟨⟨rfl, List.all_eq_true.1 rfl, by decide, by decide, rfl⟩, by decide⟩, by simp⟩
  · have htags : (DocComment.parse (String.ofList (writeComment (fun _ => [' '])
        (writtenLines [] indentedFenceTags)))).tags.length = 1 := by decide +kernel
    rw [h] at htags
    exact absurd htags (by decide)

end ReferencePages
