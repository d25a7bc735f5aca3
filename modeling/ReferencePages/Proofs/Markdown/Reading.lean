import ReferencePages.Markdown
import ReferencePages.Proofs.SymbolTree
import ReferencePages.Proofs.Text.Blank
import ReferencePages.Proofs.Text.Search

/-!
# Reading pages line by line

Every text that a page is made of begins and ends at a line of the page, behind a heading mark at
most. So whoever reads a page line by line reads it text by text. A reader (`LineReader`) is told by
what its state is behind a single text: behind a text that holds none of the marks it looks for,
behind the tags around a block, and behind a snippet in its fence. From that follows what its state
is behind a whole page (`LineReader.leads_renderModule`): it has taken the snippets of all symbols,
each before those of its members, and has left all blocks again.

The induction on the symbols of a page is the same for all readers; what a reader finds on a page is
then a matter of its steps.
-/

namespace ReferencePages

namespace Renderer

/-- The tags that open the blocks of a page. -/
def openingTags : List String :=
  ["<div class=\"ts-block\">", "<div class=\"ts-block-property\">",
    "<div class=\"ts-block-property-details\">", "<div class=\"ts-block-property-bullets\">",
    "<div class=\"ts-block-property-children\">"]

/-- The tag that closes a block. -/
def closingTag : String := "</div>"

/-- What else a page holds besides the texts of its symbols: heading marks, a heading, and what
stands around a deprecation notice. -/
def fixedTexts : List String :=
  ["### ", "## ", "## Types", "<blockquote class=\"tag deprecated\">", "</blockquote>"]

/-- The fences of a snippet stand on lines of their own. -/
theorem toList_fence (lang code : String) : (fence lang code).toList =
    ("```" ++ lang).toList ++ '\n' :: (code.toList ++ '\n' :: "```".toList) := by
  simp [fence]

/-- A reader of the pages of a renderer, with states in `σ`. -/
structure LineReader (r : Renderer) (σ : Type) where
  /-- What the reader looks for. -/
  marks : List (List Char)
  /-- From one state, a text leads to another one. -/
  Leads : σ → σ → List Char → Prop
  /-- The state inside a block. -/
  enter : σ → σ
  /-- The state behind a snippet. -/
  take : σ → String → σ
  take_enter (a : σ) (code : String) : take (enter a) code = enter (take a code)
  /-- Lines are read one after the other. -/
  line {a b c : σ} {s t : List Char} (hs : Leads a b s) (ht : Leads b c t) :
    Leads a c (s ++ '\n' :: t)
  plain {s : List Char} (hs : ∀ p ∈ marks, ¬p <:+: s) (a : σ) : Leads a a s
  opening (a : σ) (tag : String) (h : tag ∈ openingTags) : Leads a (enter a) tag.toList
  closing (a : σ) : Leads (enter a) a closingTag.toList
  fenced {code : String} (hcode : ∀ p ∈ marks, ¬p <:+: code.toList) (a : σ) (lang : String)
    (hlang : lang = r.codeLang ∨ lang = r.sectionLang) :
    Leads a (take a code) (fence lang code).toList
  /-- No mark begins in one of the fixed texts. -/
  apart_fixed (p : List Char) (hp : p ∈ marks) (t : String) (ht : t ∈ fixedTexts) :
    p ≠ [] ∧ apart p t.toList = true

namespace LineReader

variable {r : Renderer} {σ : Type} {a b c : σ} {parts parts' : List String} {s t : List Char}

/-- A text holds nothing that the reader looks for. -/
def Unmarked (reader : LineReader r σ) (s : List Char) : Prop := ∀ p ∈ reader.marks, ¬p <:+: s

/-- Parts of a page lead from one state to another one. -/
inductive Parts (reader : LineReader r σ) : σ → σ → List String → Prop
  | nil (a : σ) : reader.Parts a a []
  | cons {a b c : σ} {part : String} {parts : List String} (hpart : reader.Leads a b part.toList)
    (hparts : reader.Parts b c parts) : reader.Parts a c (part :: parts)

variable {reader : LineReader r σ}

theorem Parts.append (h : reader.Parts a b parts) (h' : reader.Parts b c parts') :
    reader.Parts a c (parts ++ parts') := by
  induction h with
  | nil => exact h'
  | cons hpart _ ih => exact .cons hpart (ih h')

theorem Parts.singleton {part : String} (h : reader.Leads a b part.toList) :
    reader.Parts a b [part] :=
  .cons h (.nil b)

theorem Parts.of_forall (h : ∀ part ∈ parts, reader.Leads a a part.toList) :
    reader.Parts a a parts := by
  induction parts with
  | nil => exact .nil a
  | cons part parts ih =>
    obtain ⟨hpart, hparts⟩ := List.forall_mem_cons.1 h
    exact .cons hpart (ih hparts)

variable (reader)

theorem leads_nil (a : σ) : reader.Leads a a [] := by
  refine reader.plain (fun p hp hin => ?_) a
  exact (reader.apart_fixed p hp "## " (by decide)).1 (List.infix_nil.1 hin)

variable {reader}

/-- Parts that are joined by line feeds are read one after the other. -/
theorem Parts.lines (h : reader.Parts a b parts) :
    reader.Leads a b ("\n".intercalate parts).toList := by
  induction h with
  | nil a => simpa using reader.leads_nil a
  | @cons a b c part parts hpart hparts ih =>
    cases hparts with
    | nil => simpa using hpart
    | cons => simpa using reader.line hpart ih

/-- Paragraphs are read one after the other. -/
theorem Parts.paragraphs (h : reader.Parts a b parts) :
    reader.Leads a b (paragraphs parts).toList := by
  induction h with
  | nil a => simpa [Renderer.paragraphs] using reader.leads_nil a
  | @cons a b c part parts hpart hparts ih =>
    cases hparts with
    | nil => simpa [Renderer.paragraphs] using hpart
    | cons => simpa [Renderer.paragraphs] using
        reader.line hpart (reader.line (reader.leads_nil b) ih)

/-! ## Parts of a page -/

theorem Unmarked.of_infix (h : reader.Unmarked t) (hs : s <:+: t) : reader.Unmarked s :=
  fun p hp hin => h p hp (hin.trans hs)

/-- A text behind one of the fixed texts is read as alone. -/
theorem Unmarked.leads_heading {mark name : String} (h : reader.Unmarked name.toList)
    (hmark : mark ∈ fixedTexts) (a : σ) : reader.Leads a a (mark ++ name).toList := by
  rw [String.toList_append]
  exact reader.plain
    (fun p hp hin => h p hp (infix_of_append (reader.apart_fixed p hp mark hmark).2 hin)) a

variable (reader) in
theorem leads_fixed (a : σ) {t : String} (ht : t ∈ fixedTexts) : reader.Leads a a t.toList := by
  refine reader.plain (fun p hp hin => ?_) a
  obtain ⟨hne, hapart⟩ := reader.apart_fixed p hp t ht
  exact hne (List.infix_nil.1 (infix_of_append hapart (by rwa [List.append_nil])))

variable (parts) in
/-- What stands in a block is read inside it. -/
theorem Parts.block {tag : String} (htag : tag ∈ openingTags)
    (h : reader.Parts (reader.enter a) (reader.enter b) parts) :
    reader.Parts a b (tag :: parts ++ [closingTag]) :=
  .cons (reader.opening a tag htag) (h.append (.singleton (reader.closing b)))

theorem parts_textPart {s : String} (h : reader.Unmarked s.toList) (a : σ) :
    reader.Parts a a (textPart s) := by
  rw [textPart]
  split
  · exact .nil a
  · exact .singleton (reader.plain h a)

theorem parts_bulletsPart {bullets : List String}
    (h : ∀ t ∈ bullets, reader.Unmarked t.toList) (a : σ) :
    reader.Parts a a (bulletsPart bullets) := by
  rw [bulletsPart]
  split
  · exact .nil a
  · exact .block ["\n".intercalate bullets] (by decide)
      (.singleton (Parts.lines (.of_forall fun t ht => reader.plain (h t ht) _)))

theorem parts_deprecation {notice : Option String}
    (h : ∀ t ∈ notice, reader.Unmarked t.toList) (a : σ) :
    reader.Parts a a (deprecation notice) := by
  cases notice with
  | none => exact .nil a
  | some notice =>
    exact .cons (reader.leads_fixed a (by decide)) (.cons (reader.plain (h notice rfl) a)
      (.singleton (reader.leads_fixed a (by decide))))

/-! ## Symbols -/

variable (reader)

/-- The state behind some symbols: the reader has taken their snippets. -/
def behind (a : σ) (ss : List Symbol) : σ := (ss.map Symbol.snippet).foldl reader.take a

theorem behind_cons (a : σ) (s : Symbol) (ss : List Symbol) :
    reader.behind a (s :: ss) = reader.behind (reader.take a s.snippet) ss := rfl

theorem behind_enter (a : σ) (ss : List Symbol) :
    reader.behind (reader.enter a) ss = reader.enter (reader.behind a ss) := by
  induction ss generalizing a with
  | nil => rfl
  | cons s ss ih =>
    rw [behind_cons, reader.take_enter, ih, behind_cons]

theorem behind_append (a : σ) (ss ss' : List Symbol) :
    reader.behind a (ss ++ ss') = reader.behind (reader.behind a ss) ss' := by
  rw [behind, List.map_append, List.foldl_append]
  rfl

/-- Each text of a symbol and of the symbols below it holds nothing that the reader looks for. -/
def UnmarkedTexts (s : Symbol) : Prop := ∀ t ∈ s.texts, reader.Unmarked t.toList

variable {reader}

theorem properties_eq_map (r : Renderer) (ss : List Symbol) :
    r.properties ss = ss.map r.property := by
  induction ss with
  | nil => rfl
  | cons s ss ih => rw [properties, ih, List.map_cons]

/-- What is read one after the other for each of several symbols. -/
theorem Parts.of_symbols {f : Symbol → String} {ss : List Symbol}
    (h : ∀ s ∈ ss, ∀ a, reader.Leads a (reader.behind a s.preorder) (f s).toList) (a : σ) :
    reader.Parts a (reader.behind a (ss.flatMap Symbol.preorder)) (ss.map f) := by
  induction ss generalizing a with
  | nil => exact .nil a
  | cons s ss ih =>
    obtain ⟨hs, hss⟩ := List.forall_mem_cons.1 h
    rw [List.flatMap_cons, behind_append]
    exact .cons (hs a) (ih hss _)

theorem parts_childrenPart {blocks : List String} {ss : List Symbol}
    (h : ∀ a, reader.Parts a (reader.behind a ss) blocks) (a : σ) :
    reader.Parts a (reader.behind a ss) (childrenPart blocks) := by
  rw [childrenPart]
  split
  · next hnil => exact List.isEmpty_iff.1 hnil ▸ h a
  · refine .block [Renderer.paragraphs blocks] (by decide) (.singleton ?_)
    rw [← behind_enter]
    exact (h _).paragraphs

/-- The block of a member takes its snippet and those below it. -/
theorem leads_property (s : Symbol) (h : reader.UnmarkedTexts s) (a : σ) :
    reader.Leads a (reader.behind a s.preorder) (r.property s).toList := by
  induction s using Symbol.memberInduction generalizing a with
  | symbol s ih =>
    have htexts := Symbol.eachText h
    rw [Symbol.preorder_eq, behind_cons]
    obtain ⟨name, comment, snippet, deprecated, children, bullets⟩ := s
    have hchildren : ∀ a, reader.Parts a
        (reader.behind a (children.flatMap Symbol.preorder)) (r.properties children) := by
      rw [properties_eq_map]
      exact .of_symbols fun c hc => ih c hc (htexts.member c hc)
    have hopening : reader.Parts a (reader.enter (reader.enter (reader.take a snippet)))
        ["<div class=\"ts-block-property\">", fence r.codeLang snippet,
          "<div class=\"ts-block-property-details\">"] := by
      rw [← reader.take_enter]
      exact .cons (reader.opening a _ (by decide)) (.cons
        (reader.fenced htexts.snippet _ _ (.inl rfl)) (.singleton (reader.opening _ _ (by decide))))
    have hinside (b : σ) : reader.Parts (reader.enter (reader.enter b))
        (reader.enter (reader.enter (reader.behind b (children.flatMap Symbol.preorder))))
        (bulletsPart bullets ++ textPart comment ++ childrenPart (r.properties children)) := by
      rw [← behind_enter, ← behind_enter]
      exact ((parts_bulletsPart htexts.bullet _).append (parts_textPart htexts.comment _)).append
        (parts_childrenPart hchildren _)
    have hclosing (b : σ) :
        reader.Leads (reader.enter (reader.enter b)) b "</div>\n</div>".toList :=
      reader.line (reader.closing _) (reader.closing b)
    have hparts := (hopening.append (hinside _)).append (.singleton (hclosing _))
    rw [property]
    simpa only [List.append_assoc] using hparts.paragraphs

theorem parts_properties {ss : List Symbol} (h : ∀ s ∈ ss, reader.UnmarkedTexts s) (a : σ) :
    reader.Parts a (reader.behind a (ss.flatMap Symbol.preorder)) (r.properties ss) := by
  rw [properties_eq_map]
  exact .of_symbols (fun s hs => leads_property s (h s hs)) a

/-- A type takes the snippets of its symbols. -/
theorem leads_renderType {s : Symbol} (h : reader.UnmarkedTexts s) (a : σ) :
    reader.Leads a (reader.behind a s.preorder) (r.renderType s).toList := by
  have htexts := Symbol.eachText h
  have hblock : reader.Parts a (reader.behind a s.preorder)
      ("<div class=\"ts-block\">" :: ([fence r.codeLang s.snippet] ++ bulletsPart s.bullets ++
        r.properties s.children) ++ [closingTag]) := by
    refine .block _ (by decide) ?_
    rw [Symbol.preorder_eq, behind_cons, ← behind_enter, ← reader.take_enter]
    exact ((Parts.singleton (reader.fenced htexts.snippet _ _ (.inl rfl))).append
      (parts_bulletsPart htexts.bullet _)).append (parts_properties htexts.member _)
  have hparts := ((parts_deprecation htexts.notice a).append
    (parts_textPart htexts.comment a)).append hblock
  rw [renderType]
  simpa [closingTag] using hparts.paragraphs

/-- The section of a member takes its snippet and those below it. -/
theorem leads_memberSection {s : Symbol} (h : reader.UnmarkedTexts s) (a : σ) :
    reader.Leads a (reader.behind a s.preorder) (r.memberSection s).toList := by
  have htexts := Symbol.eachText h
  have hheading : reader.Leads a a ("## " ++ s.name).toList :=
    Unmarked.leads_heading htexts.name (by decide) a
  have hsnippet : reader.Leads a (reader.take a s.snippet)
      (fence r.sectionLang s.snippet).toList := reader.fenced htexts.snippet _ _ (.inr rfl)
  rw [Symbol.preorder_eq, behind_cons, memberSection]
  exact Parts.paragraphs (((((Parts.singleton hheading).append
    (parts_bulletsPart htexts.bullet a)).append (.singleton hsnippet)).append
      (parts_textPart htexts.comment _)).append
        (parts_childrenPart (parts_properties htexts.member) _))

/-- An expanded type takes the snippets of the symbols below it. -/
theorem leads_renderExpanded {s : Symbol} (h : reader.UnmarkedTexts s) (a : σ) :
    reader.Leads a (reader.behind a (Symbol.preorderOf s.children))
      (r.renderExpanded s).toList := by
  have htexts := Symbol.eachText h
  rw [Symbol.preorderOf_eq_flatMap, renderExpanded]
  exact ((parts_textPart htexts.comment a).append
    (.of_symbols (fun c hc => leads_memberSection (htexts.member c hc)) a)).paragraphs

/-- The entry of a symbol of a module takes the snippets of its symbols. -/
theorem leads_entry {s : Symbol} (h : reader.UnmarkedTexts s) (a : σ) :
    reader.Leads a (reader.behind a s.preorder) (r.entry s).toList :=
  Parts.paragraphs (.cons (Unmarked.leads_heading (Symbol.eachText h).name (by decide) a)
    (.singleton (leads_renderType h a)))

/-- A module takes the snippets of all its symbols. -/
theorem leads_renderModule {m : DocModule} (h : ∀ t ∈ m.texts, reader.Unmarked t.toList) (a : σ) :
    reader.Leads a (reader.behind a m.symbols) (r.renderModule m).toList := by
  have htexts := DocModule.eachText h
  have hcomment : reader.Parts a a
      (if m.comment.isEmpty then [] else [String.ofList (trim m.comment.toList)]) := by
    split
    · exact .nil a
    · refine .singleton (reader.plain ?_ a)
      rw [String.toList_ofList]
      exact htexts.comment.of_infix (infix_trim _)
  have hentries : ∀ ss : List Symbol, (∀ s ∈ ss, reader.UnmarkedTexts s) → ∀ a,
      reader.Parts a (reader.behind a (Symbol.preorderOf ss)) (ss.map r.entry) := by
    intro ss hss
    rw [Symbol.preorderOf_eq_flatMap]
    exact .of_symbols fun s hs => leads_entry (hss s hs)
  have htypes : ∀ a, reader.Parts a (reader.behind a (Symbol.preorderOf m.types))
      (if m.types.isEmpty then [] else "## Types" :: m.types.map r.entry) := by
    intro a
    split
    · next hnil =>
      rw [List.isEmpty_iff.1 hnil]
      exact .nil a
    · exact .cons (reader.leads_fixed a (by decide)) (hentries m.types htexts.type a)
  rw [DocModule.symbols, behind_append, renderModule]
  exact ((hcomment.append (hentries m.exports htexts.exported a)).append (htypes _)).paragraphs

end LineReader

end Renderer

end ReferencePages
