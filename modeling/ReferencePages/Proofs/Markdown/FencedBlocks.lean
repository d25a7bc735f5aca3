import ReferencePages.Proofs.DocComment.Fence
import ReferencePages.Proofs.Markdown.Reading
import ReferencePages.Proofs.Text.Lines

/-!
# Snippets on a page

A page shows all symbols (`displays_render`), if no text of theirs holds a fence. Its fenced blocks,
read from top to bottom, are the snippets of the symbols, each before those of its members; and the
comment and the bullets of each symbol are a paragraph of the page.

The blocks are read line by line (`fencedBlocks`), so that reader has only to be told what it finds
in a single text (`snippetReader`). Paragraphs of a part are paragraphs of the whole
(`IsParagraph.trans`), which carries the comments and the bullets up to the page.
-/

namespace ReferencePages

/-! ## Fenced blocks -/

/-- A line opens a block: behind the fence there is at most a language. -/
def opensFence (line : List Char) : Bool :=
  match dropPrefix? fenceMark line with
  | some language => !language.contains '`'
  | none => false

/-- A line closes a block: behind the fence there are at most blanks. -/
def closesFence (line : List Char) : Bool := trimEnd line == fenceMark

/-- What is read of a text with fenced blocks: the blocks that are closed, and the lines of the one
that is open. -/
structure FencedText where
  blocks : List (List Char) := []
  content : Option (List (List Char)) := none

namespace FencedText

/-- One more line. -/
def readLine (state : FencedText) (line : List Char) : FencedText :=
  match state.content with
  | none => if opensFence line then { state with content := some [] } else state
  | some content =>
    if closesFence line then { blocks := state.blocks ++ [joinLines content] }
    else { state with content := some (content ++ [line]) }

end FencedText

/-- The contents of the fenced blocks of a text, in order. A block that is not closed goes to the
end of the text. -/
def fencedBlocks (s : List Char) : List (List Char) :=
  let read := (splitLines s).foldl FencedText.readLine {}
  read.blocks ++ (read.content.map joinLines).toList

section

variable {line s : List Char} {ls : List (List Char)} {blocks content : List (List Char)}

theorem opensFence_eq_false (h : ¬fenceMark <:+: line) : opensFence line = false := by
  rw [opensFence]
  split
  · next language hcut =>
    exact absurd ⟨[], language, (dropPrefix?_eq_some_iff.1 hcut).symm⟩ h
  · rfl

theorem closesFence_eq_false (h : ¬fenceMark <:+: line) : closesFence line = false := by
  rw [closesFence, beq_eq_false_iff_ne]
  exact fun heq => h (heq ▸ (isPrefix_trimEnd line).isInfix)

/-- Lines without a fence open no block. -/
theorem foldl_readLine_outside (h : ∀ line ∈ ls, ¬fenceMark <:+: line) :
    ls.foldl FencedText.readLine ⟨blocks, none⟩ = ⟨blocks, none⟩ := by
  induction ls with
  | nil => rfl
  | cons line ls ih =>
    obtain ⟨hline, hls⟩ := List.forall_mem_cons.1 h
    have hstep : FencedText.readLine ⟨blocks, none⟩ line = ⟨blocks, none⟩ := by
      simp [FencedText.readLine, opensFence_eq_false hline]
    rw [List.foldl_cons, hstep, ih hls]

/-- Lines without a fence belong to the block that is open. -/
theorem foldl_readLine_inside (h : ∀ line ∈ ls, ¬fenceMark <:+: line) :
    ls.foldl FencedText.readLine ⟨blocks, some content⟩ = ⟨blocks, some (content ++ ls)⟩ := by
  induction ls generalizing content with
  | nil => rw [List.foldl_nil, List.append_nil]
  | cons line ls ih =>
    obtain ⟨hline, hls⟩ := List.forall_mem_cons.1 h
    have hstep : FencedText.readLine ⟨blocks, some content⟩ line =
        ⟨blocks, some (content ++ [line])⟩ := by
      simp [FencedText.readLine, closesFence_eq_false hline]
    rw [List.foldl_cons, hstep, ih hls, List.append_cons content line ls]

theorem not_infix_of_mem_splitLines (h : ¬fenceMark <:+: s) :
    ∀ line ∈ splitLines s, ¬fenceMark <:+: line :=
  fun line hline hin => h (hin.trans (infix_of_mem_splitLines s line hline))

end

namespace Renderer

/-! ## The snippets of a page -/

/-- A text is read behind some blocks and adds others to them. -/
def AddsBlocks (before after : List (List Char)) (s : List Char) : Prop :=
  (splitLines s).foldl FencedText.readLine ⟨before, none⟩ = ⟨after, none⟩

namespace AddsBlocks

variable {a b c : List (List Char)} {s t code : List Char}

theorem line (hs : AddsBlocks a b s) (ht : AddsBlocks b c t) : AddsBlocks a c (s ++ '\n' :: t) := by
  rw [AddsBlocks] at *
  rw [splitLines_append_feed, List.foldl_append, hs, ht]

theorem plain (hs : ¬fenceMark <:+: s) (a : List (List Char)) : AddsBlocks a a s :=
  foldl_readLine_outside (not_infix_of_mem_splitLines hs)

/-- A text between two fences is a block. -/
theorem fenced (hcode : ¬fenceMark <:+: code) (a : List (List Char)) {language : List Char}
    (hlanguage : '`' ∉ language ∧ '\n' ∉ language) :
    AddsBlocks a (a ++ [code]) (fenceMark ++ language ++ '\n' :: (code ++ '\n' :: fenceMark)) := by
  have hopening : '\n' ∉ fenceMark ++ language :=
    fun h => (List.mem_append.1 h).elim (by decide) hlanguage.2
  have hopens : FencedText.readLine ⟨a, none⟩ (fenceMark ++ language) = ⟨a, some []⟩ := by
    have hfence : opensFence (fenceMark ++ language) = true := by
      rw [opensFence, dropPrefix?_eq_some_iff.2 rfl]
      simpa using hlanguage.1
    simp [FencedText.readLine, hfence]
  have hjoin : joinLines (splitLines code) = code := List.intercalate_splitOn '\n'
  have hcloses : FencedText.readLine ⟨a, some (splitLines code)⟩ fenceMark =
      ⟨a ++ [code], none⟩ := by
    have hfence : closesFence fenceMark = true := by decide
    simp [FencedText.readLine, hfence, hjoin]
  have hlast : splitLines fenceMark = [fenceMark] := List.splitOn_eq_singleton (by decide)
  rw [AddsBlocks, splitLines_append_cons hopening, splitLines_append_feed, List.foldl_cons, hopens,
    List.foldl_append, foldl_readLine_inside (not_infix_of_mem_splitLines hcode), List.nil_append,
    hlast, List.foldl_cons, hcloses, List.foldl_nil]

theorem fencedBlocks_eq (h : AddsBlocks [] b s) : fencedBlocks s = b := by
  rw [AddsBlocks] at h
  simp [fencedBlocks, h]

end AddsBlocks

/-- The reader that collects the fenced blocks. -/
def snippetReader : LineReader {} (List (List Char)) where
  marks := [fenceMark]
  Leads := AddsBlocks
  enter a := a
  take a code := a ++ [code.toList]
  take_enter _ _ := rfl
  line := .line
  plain hs := .plain (hs fenceMark List.mem_cons_self)
  opening a tag h := by
    have htags : ∀ tag ∈ openingTags, ¬fenceMark <:+: tag.toList := by decide
    exact .plain (htags tag h) a
  closing := .plain (by decide)
  fenced := by
    intro code hcode a lang hlang
    have hlanguage : '`' ∉ lang.toList ∧ '\n' ∉ lang.toList := by
      rcases hlang with rfl | rfl <;> decide
    rw [toList_fence, String.toList_append]
    exact .fenced (hcode fenceMark List.mem_cons_self) a hlanguage
  apart_fixed := by decide

theorem behind_snippetReader (a : List (List Char)) (ss : List Symbol) :
    snippetReader.behind a ss = a ++ ss.map fun s => s.snippet.toList := by
  induction ss generalizing a with
  | nil => exact (List.append_nil a).symm
  | cons s ss ih =>
    rw [LineReader.behind_cons, ih, List.map_cons]
    exact List.append_assoc a [s.snippet.toList] _

theorem fencedBlocks_of_leads {ss : List Symbol} {page : List Char}
    (h : snippetReader.Leads [] (snippetReader.behind [] ss) page) :
    fencedBlocks page = ss.map fun s => s.snippet.toList := by
  rw [behind_snippetReader, List.nil_append] at h
  exact AddsBlocks.fencedBlocks_eq h

/-! ## The paragraphs of a page -/

/-- What stands between two paragraphs. -/
def emptyLine : List Char := ['\n', '\n']

/-- A text is a paragraph of a page, or several of them. -/
def IsParagraph (s page : List Char) : Prop :=
  ∃ before after, page = before ++ s ++ after ∧ (before = [] ∨ emptyLine <:+ before) ∧
    (after = [] ∨ emptyLine <+: after)

section

variable {s t page : List Char} {part : String} {parts : List String}

theorem IsParagraph.refl (s : List Char) : IsParagraph s s :=
  ⟨[], [], by simp, .inl rfl, .inl rfl⟩

theorem IsParagraph.trans (h : IsParagraph s t) (ht : IsParagraph t page) : IsParagraph s page := by
  obtain ⟨before, after, rfl, hbefore, hafter⟩ := h
  obtain ⟨before', after', rfl, hbefore', hafter'⟩ := ht
  refine ⟨before' ++ before, after ++ after', by simp only [List.append_assoc], ?_, ?_⟩
  · rcases hbefore with rfl | hbefore
    · rwa [List.append_nil]
    · exact .inr (hbefore.trans (List.suffix_append before' before))
  · rcases hafter with rfl | hafter
    · rwa [List.nil_append]
    · exact .inr (hafter.trans (List.prefix_append after after'))

/-- The parts of a page are paragraphs of it. -/
theorem isParagraph_paragraphs (h : part ∈ parts) :
    IsParagraph part.toList (paragraphs parts).toList := by
  induction parts with
  | nil => cases h
  | cons first parts ih =>
    cases parts with
    | nil =>
      obtain rfl := List.mem_singleton.1 h
      simpa [paragraphs] using IsParagraph.refl part.toList
    | cons second parts =>
      have hsplit : (paragraphs (first :: second :: parts)).toList =
          first.toList ++ emptyLine ++ (paragraphs (second :: parts)).toList := by
        simp [paragraphs, emptyLine]
      rw [hsplit]
      rcases List.mem_cons.1 h with rfl | h
      · exact ⟨[], _, by rw [List.nil_append, List.append_assoc], .inl rfl,
          .inr (List.prefix_append emptyLine _)⟩
      · exact (ih h).trans ⟨_, [], by rw [List.append_nil],
          .inr (List.suffix_append first.toList emptyLine), .inl rfl⟩

end

/-- The comment of a symbol and its bullets, each on a line of its own, are paragraphs of a page. -/
structure Shows (page : List Char) (s : Symbol) : Prop where
  comment (h : s.comment ≠ "") : IsParagraph s.comment.toList page
  bullets (h : s.bullets ≠ []) : IsParagraph (joinLines (s.bullets.map String.toList)) page

section

variable {r : Renderer} {s x : Symbol} {page page' : List Char} {parts : List String}

theorem Shows.trans (h : Shows page x) (hpage : IsParagraph page page') : Shows page' x :=
  ⟨fun hne => (h.comment hne).trans hpage, fun hne => (h.bullets hne).trans hpage⟩

/-- A symbol is shown among the parts of its comment and of its bullets. -/
theorem shows_paragraphs (hbullets : bulletsPart s.bullets ⊆ parts)
    (hcomment : textPart s.comment ⊆ parts) : Shows (paragraphs parts).toList s where
  comment hne := by
    refine isParagraph_paragraphs (hcomment ?_)
    rw [textPart, if_neg (by simpa using hne)]
    exact List.mem_singleton_self _
  bullets hne := by
    have hmem : "\n".intercalate s.bullets ∈ bulletsPart s.bullets := by
      simp [bulletsPart, hne]
    have h := isParagraph_paragraphs (hbullets hmem)
    rwa [String.toList_intercalate] at h

/-- What the blocks of members show is shown among the parts of a page. -/
theorem shows_childrenPart {ss : List Symbol}
    (h : ∀ c ∈ ss, ∀ x ∈ c.preorder, Shows (r.property c).toList x)
    (hparts : childrenPart (r.properties ss) ⊆ parts) :
    ∀ x ∈ ss.flatMap Symbol.preorder, Shows (paragraphs parts).toList x := by
  intro x hx
  obtain ⟨c, hc, hx⟩ := List.mem_flatMap.1 hx
  have hblock : r.property c ∈ r.properties ss := by
    rw [LineReader.properties_eq_map]
    exact List.mem_map_of_mem hc
  have hblocks : paragraphs (r.properties ss) ∈ childrenPart (r.properties ss) := by
    rw [childrenPart, if_neg (by simpa using List.ne_nil_of_mem hblock)]
    simp
  exact ((h c hc x hx).trans (isParagraph_paragraphs hblock)).trans
    (isParagraph_paragraphs (hparts hblocks))

/-- The block of a member shows it and the symbols below it. -/
theorem shows_property (r : Renderer) (s : Symbol) :
    ∀ x ∈ s.preorder, Shows (r.property s).toList x := by
  induction s using Symbol.memberInduction with
  | symbol s ih =>
    rw [Symbol.preorder_eq]
    obtain ⟨name, comment, snippet, deprecated, children, bullets⟩ := s
    rw [property]
    refine List.forall_mem_cons.2 ⟨shows_paragraphs ?_ ?_, shows_childrenPart ih ?_⟩
    all_goals exact fun t ht => by simp [ht]

/-- The section of a member shows it and the symbols below it. -/
theorem shows_memberSection (r : Renderer) (s : Symbol) :
    ∀ x ∈ s.preorder, Shows (r.memberSection s).toList x := by
  rw [Symbol.preorder_eq, memberSection]
  refine List.forall_mem_cons.2 ⟨shows_paragraphs ?_ ?_,
    shows_childrenPart (fun c _ => shows_property r c) ?_⟩
  all_goals exact fun t ht => by simp [ht]

/-- A type shows all its symbols. -/
theorem shows_renderType (r : Renderer) (s : Symbol) :
    ∀ x ∈ s.preorder, Shows (r.renderType s).toList x := by
  rw [Symbol.preorder_eq, renderType]
  refine List.forall_mem_cons.2 ⟨shows_paragraphs ?_ ?_, fun x hx => ?_⟩
  · exact fun t ht => by simp [ht]
  · exact fun t ht => by simp [ht]
  · obtain ⟨c, hc, hx⟩ := List.mem_flatMap.1 hx
    refine (shows_property r c x hx).trans (isParagraph_paragraphs ?_)
    simp [LineReader.properties_eq_map, List.mem_map_of_mem hc]

/-- An expanded type shows the symbols below it. -/
theorem shows_renderExpanded (r : Renderer) (s : Symbol) :
    ∀ x ∈ Symbol.preorderOf s.children, Shows (r.renderExpanded s).toList x := by
  intro x hx
  rw [Symbol.preorderOf_eq_flatMap] at hx
  obtain ⟨c, hc, hx⟩ := List.mem_flatMap.1 hx
  exact (shows_memberSection r c x hx).trans
    (isParagraph_paragraphs (List.mem_append_right _ (List.mem_map_of_mem hc)))

/-- A module shows all its symbols. -/
theorem shows_renderModule (r : Renderer) (m : DocModule) :
    ∀ x ∈ m.symbols, Shows (r.renderModule m).toList x := by
  intro x hx
  rw [DocModule.symbols, Symbol.preorderOf_eq_flatMap, Symbol.preorderOf_eq_flatMap,
    ← List.flatMap_append] at hx
  obtain ⟨s, hs, hx⟩ := List.mem_flatMap.1 hx
  have hentry : Shows (r.entry s).toList x :=
    (shows_renderType r s x hx).trans (isParagraph_paragraphs (by simp))
  refine hentry.trans (isParagraph_paragraphs ?_)
  rcases List.mem_append.1 hs with hs | hs
  · simp [List.mem_map_of_mem hs]
  · simp [List.mem_map_of_mem hs, List.ne_nil_of_mem hs]

end

/-! ## Whole pages -/

/-- A page shows some symbols: its fenced blocks are their snippets, in order, and their comments
and bullets are paragraphs of it. -/
structure Displays (page : List Char) (symbols : List Symbol) : Prop where
  blocks : fencedBlocks page = symbols.map fun s => s.snippet.toList
  shows : ∀ s ∈ symbols, Shows page s

/-- A page shows each of its symbols once, in order, each before its members. -/
theorem displays_render :
    (∀ s : Symbol, (∀ t ∈ s.texts, ¬fenceMark <:+: t.toList) →
      Displays (renderType {} s).toList s.preorder ∧
        Displays (renderExpanded {} s).toList (Symbol.preorderOf s.children)) ∧
    ∀ m : DocModule, (∀ t ∈ m.texts, ¬fenceMark <:+: t.toList) →
      Displays (renderModule {} m).toList m.symbols := by
  have hunmarked {t : String} (h : ¬fenceMark <:+: t.toList) : snippetReader.Unmarked t.toList :=
    List.forall_mem_singleton.2 h
  refine ⟨fun s hs => ?_, fun m hm => ?_⟩
  · have htexts : snippetReader.UnmarkedTexts s := fun t ht => hunmarked (hs t ht)
    have htype := fencedBlocks_of_leads (snippetReader.leads_renderType htexts [])
    have hexpanded := fencedBlocks_of_leads (snippetReader.leads_renderExpanded htexts [])
    exact ⟨⟨htype, shows_renderType {} s⟩, hexpanded, shows_renderExpanded {} s⟩
  · have hmodule := snippetReader.leads_renderModule (fun t ht => hunmarked (hm t ht)) []
    exact ⟨fencedBlocks_of_leads hmodule, shows_renderModule {} m⟩

/-- A type with members two levels deep, and with backticks that are no fences. -/
def adapterType : Symbol where
  name := "``"
  comment := "Ends in ``"
  snippet := "type Adapter = `$\x7bstring\x7d``;\n``"
  bullets := ["``", "` ``"]
  children := [{
    name := "adapt"
    comment := "``\n`"
    snippet := ""
    children := [{ name := "builder", snippet := "\nbuilder: `b`;\n", bullets := ["`"] }] },
    { name := "name", snippet := "name: string;" }]

def adapterModule : DocModule where
  name := "kit"
  comment := "``"
  types := [adapterType]

/-- The snippets of the type come back from the page of a module, and those of its members from its
expanded page. -/
theorem displays_render_adapter :
    (∀ t ∈ adapterType.texts, ¬fenceMark <:+: t.toList) ∧
      fencedBlocks (renderModule {} adapterModule).toList =
        ["type Adapter = `$\x7bstring\x7d``;\n``", "", "\nbuilder: `b`;\n", "name: string;"].map
          String.toList ∧
      Displays (renderType {} adapterType).toList adapterType.preorder ∧
      Displays (renderExpanded {} adapterType).toList adapterType.preorder.tail := by
  have htexts : ∀ t ∈ adapterType.texts, ¬fenceMark <:+: t.toList := by decide +kernel
  obtain ⟨htype, hexpanded⟩ := displays_render.1 adapterType htexts
  have hmodule := displays_render.2 adapterModule (by decide +kernel)
  exact ⟨htexts, hmodule.blocks, htype, hexpanded⟩

end Renderer

end ReferencePages
