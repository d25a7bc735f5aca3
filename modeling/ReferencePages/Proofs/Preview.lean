import ReferencePages.Preview
import ReferencePages.Proofs.SymbolTree
import ReferencePages.Proofs.Text.Blank
import ReferencePages.Proofs.Text.Lines

/-!
# Colors of the preview

With colors, a preview holds terminal sequences that change the style (`styleSequence`). Laid out
as characters and such sequences, it is the preview without colors with some numbers in between
(`pieces_render`). So erasing the sequences gives the preview without colors, and reading only them
tells which styles are set at its end: none (`eraseStyles_render`).

Both are told of the spans of a preview: no text of a span holds the character that begins a
sequence, and the sequences of all spans together leave no style set (`Settled`). Spans that are
settled are so one behind the other, which carries the induction on the symbols.
-/

namespace ReferencePages

namespace Preview

/-! ## Terminal sequences -/

/-- A terminal sequence that changes the style, with its number. -/
def styleSequence : Pattern Nat := fun s =>
  match dropPrefix? ['\x1b', '['] s with
  | some rest =>
    match rest.takeWhile isDigit, rest.dropWhile isDigit with
    | d :: digits, 'm' :: _ => some (Nat.ofDigitChars 10 (d :: digits) 0, digits.length + 3)
    | _, _ => none
  | none => none

/-- A text without its terminal sequences. -/
def eraseStyles (s : List Char) : List Char := replaceMatches styleSequence (fun _ => []) s

/-- The numbers of the styles that are set behind another sequence: 0 resets them all. -/
def setStyle (styles : List Nat) (number : Nat) : List Nat :=
  if number = 0 then [] else styles ++ [number]

/-- The numbers of the terminal sequences of a text, in order. -/
def sequences (s : List Char) : List Nat :=
  (pieces styleSequence s).filterMap fun
    | .char _ => none
    | .hit number => some number

/-- The numbers of the styles that are set at the end of a text. -/
def openStyles (s : List Char) : List Nat := (sequences s).foldl setStyle []

theorem styleSequence_of_ne {c : Char} (hc : c ≠ '\x1b') (s : List Char) :
    styleSequence (c :: s) = none := by
  rw [styleSequence, dropPrefix?, if_neg hc.symm]

theorem isDigit_of_mem_repr {n : Nat} {c : Char} (h : c ∈ n.repr.toList) : isDigit c = true := by
  rw [Nat.toList_repr] at h
  have hdigit := Nat.isDigit_of_mem_toDigits (by decide) (by decide) h
  simpa [Char.isDigit, isDigit, Char.le_def] using hdigit

/-- A sequence that is written is found with its number. -/
theorem pieces_escape_append (n : Nat) (t : List Char) :
    pieces styleSequence ((escape n).toList ++ t) = .hit n :: pieces styleSequence t := by
  have hescape : (escape n).toList = ['\x1b', '['] ++ (n.repr.toList ++ ['m']) := by
    simp [escape, String.toList_append]
  obtain ⟨d, digits, hdigits⟩ : ∃ d digits, n.repr.toList = d :: digits :=
    List.exists_cons_of_ne_nil (by rw [Nat.toList_repr]; exact Nat.toDigits_ne_nil)
  have hall : ∀ c ∈ d :: digits, isDigit c = true := fun c hc =>
    isDigit_of_mem_repr (hdigits ▸ hc)
  have htake : ((d :: digits) ++ 'm' :: t).takeWhile isDigit = d :: digits := by
    rw [List.takeWhile_append_of_pos hall, List.takeWhile_cons_of_neg (by decide),
      List.append_nil]
  have hdrop : ((d :: digits) ++ 'm' :: t).dropWhile isDigit = 'm' :: t := by
    rw [List.dropWhile_append_of_pos hall, List.dropWhile_cons_of_neg (by decide)]
  have hnumber : Nat.ofDigitChars 10 (d :: digits) 0 = n := by
    rw [← hdigits, Nat.toList_repr, Nat.ofDigitChars_toDigits (by decide) (by decide)]
  have hcut : dropPrefix? ['\x1b', '['] ((escape n).toList ++ t) =
      some ((d :: digits) ++ 'm' :: t) := by
    rw [dropPrefix?_eq_some_iff, hescape, hdigits]
    simp
  have hmatch : styleSequence ((escape n).toList ++ t) = some (n, digits.length + 3) := by
    rw [styleSequence, hcut]
    simp only [htake, hdrop, hnumber]
  exact pieces_append_of_some hmatch (by rw [hescape, hdigits]; simp)

/-! ## Spans -/

/-- The numbers of the sequences that start a style, as they are written. -/
def styleNumbers (style : Style) : List Nat :=
  0 :: (if style.bold then [1] else []) ++ (if style.dimmed then [2] else []) ++
    (style.color.map colorNumber).toList

/-- The numbers of the sequences of a span. -/
def numbers : PreviewPart → List Nat
  | .text _ => []
  | .setStyle style => styleNumbers style
  | .reset => [0]

/-- With colors, the sequences of a span stand where they are missing without. -/
theorem toList_colored (p : PreviewPart) :
    (colored p).toList = (plain p).toList ++ (numbers p).flatMap fun n => (escape n).toList := by
  cases p with
  | text s => simp [colored, plain, numbers]
  | reset => simp [colored, plain, numbers]
  | setStyle style =>
    obtain ⟨color, bold, dimmed⟩ := style
    cases color <;> cases bold <;> cases dimmed <;>
      simp [colored, plain, numbers, styleNumbers, styleStart]

theorem pieces_colored_append {p : PreviewPart} (hp : '\x1b' ∉ (plain p).toList) (t : List Char) :
    pieces styleSequence ((colored p).toList ++ t) =
      (plain p).toList.map .char ++ (numbers p).map .hit ++ pieces styleSequence t := by
  have hnumbers : ∀ ns : List Nat,
      pieces styleSequence ((ns.flatMap fun n => (escape n).toList) ++ t) =
        ns.map .hit ++ pieces styleSequence t := by
    intro ns
    induction ns with
    | nil => rfl
    | cons n ns ih =>
      rw [List.flatMap_cons, List.append_assoc, pieces_escape_append, ih, List.map_cons,
        List.cons_append]
  have htext : ∀ u v, (plain p).toList = u ++ v → v ≠ [] → styleSequence
      (v ++ ((numbers p).flatMap (fun n => (escape n).toList) ++ t)) = none := by
    intro u v huv hv
    obtain ⟨c, v, rfl⟩ := List.exists_cons_of_ne_nil hv
    exact styleSequence_of_ne (fun hc => hp (by simp [huv, hc])) _
  rw [toList_colored, List.append_assoc, pieces_append_of_none htext, hnumbers, List.append_assoc]

/-- Spans whose texts begin no sequence, and whose sequences together leave no style set. -/
structure Settled (parts : List PreviewPart) : Prop where
  unescaped (p : PreviewPart) (h : p ∈ parts) : '\x1b' ∉ (plain p).toList
  closed : (parts.flatMap numbers).foldl setStyle [] = []

namespace Settled

theorem nil : Settled [] := ⟨fun _ hp => absurd hp List.not_mem_nil, rfl⟩

theorem append {ps qs : List PreviewPart} (hp : Settled ps) (hq : Settled qs) :
    Settled (ps ++ qs) where
  unescaped := List.forall_mem_append.2 ⟨hp.unescaped, hq.unescaped⟩
  closed := by rw [List.flatMap_append, List.foldl_append, hp.closed, hq.closed]

theorem flatMap {α : Type} {f : α → List PreviewPart} {xs : List α}
    (h : ∀ x ∈ xs, Settled (f x)) : Settled (xs.flatMap f) := by
  induction xs with
  | nil => exact nil
  | cons x xs ih =>
    obtain ⟨hx, hxs⟩ := List.forall_mem_cons.1 h
    exact hx.append (ih hxs)

theorem text {s : String} (hs : '\x1b' ∉ s.toList) : Settled [.text s] :=
  ⟨fun _ hp => List.mem_singleton.1 hp ▸ hs, rfl⟩

/-- A reset ends all styles, those that are set before it as well. -/
theorem concat_reset (ps : List PreviewPart) (hp : ∀ p ∈ ps, '\x1b' ∉ (plain p).toList) :
    Settled (ps ++ [.reset]) where
  unescaped := List.forall_mem_append.2 ⟨hp, fun _ hp => List.mem_singleton.1 hp ▸ by decide⟩
  closed := by
    rw [List.flatMap_append, List.foldl_append]
    rfl

theorem styled (style : Style) {s : String} (hs : '\x1b' ∉ s.toList) :
    Settled (Preview.styled style s) := by
  refine concat_reset [.setStyle style, .text s] ?_
  exact List.forall_mem_cons.2 ⟨by simp [plain], List.forall_mem_singleton.2 hs⟩

end Settled

/-! ## Symbols and modules -/

theorem not_mem_indent (level : Nat) : '\x1b' ∉ (indent level).toList := by
  rw [indent, String.toList_ofList, repeated]
  intro h
  obtain ⟨part, hpart, h⟩ := List.mem_flatten.1 h
  rw [List.eq_of_mem_replicate hpart] at h
  revert h
  decide

theorem not_mem_of_mem_textLines {s : String} (hs : '\x1b' ∉ s.toList) :
    ∀ line ∈ textLines s, '\x1b' ∉ line.toList := by
  intro line hline
  obtain ⟨l, hl, rfl⟩ := List.mem_map.1 hline
  rw [String.toList_ofList]
  exact fun h => hs (subset_of_mem_lines s.toList l hl h)

theorem not_mem_snippetLine {s : String} (hs : '\x1b' ∉ s.toList) :
    '\x1b' ∉ (snippetLine s).toList := by
  simp only [snippetLine, String.toList_append, String.toList_ofList, List.mem_append,
    List.mem_flatMap, not_or]
  refine ⟨?_, by decide⟩
  rintro ⟨c, hc, h⟩
  split at h
  · exact absurd h (by decide)
  · exact hs (List.mem_singleton.1 h ▸ hc)

/-- Each line of a snippet ends with a reset, also the lines that set no style. -/
theorem settled_snippet (level : Nat) {s : String} (hs : '\x1b' ∉ s.toList) :
    Settled (snippet level s) := by
  have hlines := not_mem_of_mem_textLines hs
  have hindent : '\x1b' ∉ (plain (.text (indent level))).toList := not_mem_indent level
  rw [snippet]
  split
  · exact .nil
  · next first rest hsplit =>
    rw [hsplit, List.forall_mem_cons] at hlines
    obtain ⟨hfirst, hrest⟩ := hlines
    refine .append (.concat_reset [_, _, _] ?_) (.flatMap fun line hline =>
      .concat_reset [_, _] ?_)
    · simpa [plain] using ⟨hindent, not_mem_snippetLine hfirst⟩
    · simpa [plain] using ⟨hindent, not_mem_snippetLine (hrest line hline)⟩

theorem settled_deprecation (level : Nat) {notice : Option String}
    (h : ∀ t ∈ notice, '\x1b' ∉ t.toList) : Settled (deprecation level notice) := by
  cases notice with
  | none => exact .nil
  | some notice => exact .styled _ (by simpa using ⟨not_mem_indent level, h notice rfl⟩)

theorem settled_commentLine (level : Nat) {comment : String} (h : '\x1b' ∉ comment.toList) :
    Settled (commentLine level comment) := by
  have hlines := not_mem_of_mem_textLines h
  rw [commentLine]
  split
  · next first rest hsplit =>
    rw [hsplit, List.forall_mem_cons] at hlines
    split
    · exact .nil
    · exact .styled _ (by simpa using ⟨not_mem_indent level, hlines.1⟩)
  · exact .nil

theorem symbols_eq_flatMap (level : Nat) (ss : List Symbol) :
    symbols level ss = ss.flatMap (symbol level) := by
  induction ss with
  | nil => rfl
  | cons s ss ih => rw [symbols, ih, List.flatMap_cons]

/-- A symbol leaves no style set, at whatever level it is shown. -/
theorem settled_symbol (s : Symbol) (h : ∀ t ∈ s.texts, '\x1b' ∉ t.toList) (level : Nat) :
    Settled (symbol level s) := by
  induction s using Symbol.memberInduction generalizing level with
  | symbol s ih =>
    obtain ⟨name, comment, code, notice, children, bullets⟩ := s
    have htexts := Symbol.eachText h
    rw [symbol, symbols_eq_flatMap, List.map_eq_flatMap]
    refine .append (.append (.append (.append (settled_snippet level htexts.snippet)
      (settled_deprecation level htexts.notice)) (settled_commentLine level htexts.comment)) ?_) ?_
    · refine .flatMap fun bullet hbullet => .text ?_
      simpa using ⟨not_mem_indent level, htexts.bullet bullet hbullet⟩
    · exact .flatMap fun c hc => ih c hc (htexts.member c hc) (level + 1)

theorem settled_symbols (level : Nat) {ss : List Symbol}
    (h : ∀ s ∈ ss, ∀ t ∈ s.texts, '\x1b' ∉ t.toList) : Settled (symbols level ss) := by
  rw [symbols_eq_flatMap]
  exact .flatMap fun s hs => settled_symbol s (h s hs) level

theorem settled_moduleComment {comment : String} (h : '\x1b' ∉ comment.toList) :
    Settled (moduleComment comment) := by
  refine .flatMap fun line hline => .styled _ ?_
  obtain ⟨l, hl, rfl⟩ := List.mem_map.1 (List.mem_of_mem_filter (List.mem_of_mem_take hline))
  have htrim : '\x1b' ∉ trim l := fun hmem =>
    h (subset_of_mem_lines comment.toList l hl (trim_subset l hmem))
  simpa using htrim

theorem settled_moduleParts {m : DocModule} (h : ∀ t ∈ m.texts, '\x1b' ∉ t.toList) :
    Settled (moduleParts m) := by
  have htexts := DocModule.eachText h
  have hbreak : Settled [.text "\n"] := .text (by decide)
  have hexempt : Settled (if m.exempt then gray " (comment only)" else []) := by
    split
    · exact .styled _ (by decide)
    · exact .nil
  have htypes : Settled (if m.types.isEmpty then []
      else Preview.styled { bold := true } "  Types\n" ++ symbols 2 m.types) := by
    split
    · exact .nil
    · exact .append (.styled _ (by decide)) (settled_symbols 2 htexts.type)
  rw [moduleParts]
  exact (((((Settled.styled _ htexts.name).append hexempt).append hbreak).append
    (settled_moduleComment htexts.comment)).append (settled_symbols 1 htexts.exported)).append
      htypes |>.append hbreak

theorem settled_modules {ms : List DocModule} (h : ∀ m ∈ ms, ∀ t ∈ m.texts, '\x1b' ∉ t.toList) :
    Settled (modules ms) :=
  .flatMap fun m hm => settled_moduleParts (h m hm)

/-! ## The whole preview -/

/-- Laid out as characters and sequences, settled spans are their plain text with the numbers of
their sequences in between. -/
theorem pieces_settled {parts : List PreviewPart}
    (h : ∀ p ∈ parts, '\x1b' ∉ (plain p).toList) :
    pieces styleSequence (String.join (parts.map colored)).toList =
      parts.flatMap fun p => (plain p).toList.map .char ++ (numbers p).map .hit := by
  rw [String.toList_join, List.flatMap_map]
  induction parts with
  | nil => exact pieces_nil
  | cons p parts ih =>
    obtain ⟨hp, hparts⟩ := List.forall_mem_cons.1 h
    rw [List.flatMap_cons, List.flatMap_cons, pieces_colored_append hp, ih hparts]

/-- Without its terminal sequences, a preview with colors is the preview without, and at its end no
style is set. -/
theorem eraseStyles_render (ms : List DocModule)
    (h : ∀ m ∈ ms, ∀ t ∈ m.texts, '\x1b' ∉ t.toList) :
    eraseStyles (render true ms).toList = (render false ms).toList ∧
      openStyles (render true ms).toList = [] := by
  obtain ⟨hunescaped, hclosed⟩ := settled_modules h
  have hpieces : pieces styleSequence (render true ms).toList = _ := pieces_settled hunescaped
  constructor
  · have hnothing (ns : List Nat) : (ns.flatMap fun _ => ([] : List Char)) = [] :=
      List.flatMap_eq_nil_iff.2 fun _ _ => rfl
    rw [eraseStyles, replaceMatches, hpieces, render, String.toList_join, List.flatMap_assoc]
    simp [List.flatMap_map, hnothing]
  · have hsequences : sequences (render true ms).toList = (modules ms).flatMap numbers := by
      rw [sequences, hpieces, List.filterMap_flatMap]
      simp [List.filterMap_map]
    rw [openStyles, hsequences, hclosed]

/-- A module of every kind of text: a value without a snippet that is deprecated, and a type with a
snippet of two lines, a bullet and a member. -/
def previewedModule : DocModule where
  name := "@sveltejs/kit"
  comment := "\n  Types  \n\nand values"
  exports := [{ name := "goto", comment := "See `redirect`.", deprecated := some "[0m" }]
  types := [{
    name := "KitConfig"
    snippet := "interface KitConfig \x7b\n\t/*…*/\x7d"
    bullets := ["- `x` 31m"]
    children := [{ name := "adapter", snippet := "adapter?: Adapter;" }] }]
  exempt := true

theorem eraseStyles_render_previewedModule :
    (∀ m ∈ [previewedModule], ∀ t ∈ m.texts, '\x1b' ∉ t.toList) ∧
      '\x1b' ∈ (render true [previewedModule]).toList ∧
      eraseStyles (render true [previewedModule]).toList =
        (render false [previewedModule]).toList ∧
      openStyles (render true [previewedModule]).toList = [] := by
  have htexts : ∀ m ∈ [previewedModule], ∀ t ∈ m.texts, '\x1b' ∉ t.toList := by
    decide +kernel
  have hcolored : '\x1b' ∈ (render true [previewedModule]).toList := by
    simp [render, modules, moduleParts, styled, colored, styleStart, escape]
  exact ⟨htexts, hcolored, eraseStyles_render [previewedModule] htexts⟩

end Preview

end ReferencePages
