import Mathlib.Data.Nat.PSub
import ReferencePages.Proofs.Snippet.Brackets
import ReferencePages.Proofs.Text.Bytes

/-!
# Places of parentheses

A line can be broken around the items of its first parentheses by places alone, which are told in
bytes: those of the parenthesis and of the bracket that closes it, and the slices between them
(`breakParensAt?`). Nothing would be told where a bracket closes and none is open, where a slice is
out of range or cuts a character in two, or where there is no last item. None of this happens: the
lines are those that are found character by character (`breakParensAt?_eq`), and the place behind a
parenthesis is that of the first bracket that closes it (`closePlace?_of_topPlace?`).
-/

namespace ReferencePages

/-! ## Searching by places -/

/-- The place of the first `target` of a text outside brackets and literals, counted from
`place`. -/
def topPlaceFrom? (target : Char) (n : Nesting) (place : Nat) : List Char → Option Nat
  | [] => none
  | c :: s =>
    if c = target ∧ n.isTop = true ∧ ¬(target = '=' ∧ s.head? = some '>') then some place
    else topPlaceFrom? target (n.step true c) (place + c.utf8Size) s

/-- The place of the first `target` of a line outside brackets and literals. -/
def topPlace? (target : Char) (line : List Char) : Option Nat := topPlaceFrom? target {} 0 line

/-- The place of the bracket that closes the first one of a text, counted from `place`, if there is
one. Nothing is told where a bracket closes and none is open. -/
def closePlaceFrom? (n : Nesting) (place : Nat) : List Char → Option (Option Nat)
  | [] => some none
  | c :: s =>
    if n.quote = none ∧ isCloser c = true then do
      let depth ← n.depth.ppred
      if depth = 0 then some (some place)
      else closePlaceFrom? (n.step false c) (place + c.utf8Size) s
    else closePlaceFrom? (n.step false c) (place + c.utf8Size) s

/-- The place of the bracket that closes the one at a place of a line, if there is one. -/
def closePlace? (place : Nat) (line : List Char) : Option (Option Nat) := do
  closePlaceFrom? {} place (← dropBytes? place line)

/-- The lines of the items between two places, the first of which is behind the opening
parenthesis, and the second one before the closing bracket. -/
def linesBetween? (o : FormatOptions) (indent line : List Char) (lo hi : Nat) :
    Option (Option (List (List Char))) := do
  let inner := trim (← sliceBytes? lo hi line)
  if inner.isEmpty then return none
  let items := splitTop ',' {} inner
  let last ← items.length.ppred
  let head ← sliceBytes? 0 lo line
  let close ← dropBytes? hi line
  let item (part : List Char) (i : Nat) :=
    indent ++ o.unit ++ trim part ++ if i < last ∨ o.trailingComma = true then [','] else []
  return some ((indent ++ head) :: (items.mapIdx (fun i part => item part i) ++ [indent ++ close]))

/-- A line, broken around each item of its first parentheses. -/
def breakParensAt? (o : FormatOptions) (indent line : List Char) :
    Option (Option (List (List Char))) :=
  match topPlace? '(' line with
  | none => return none
  | some place => do
    match ← closePlace? place line with
    | none => return none
    | some close => linesBetween? o indent line (place + 1) close

variable {line : List Char} {n : Nesting} {c : Char} {place : Nat}

/-! ## Places of cuts -/

theorem map_place_cons (place : Nat) (c : Char) (cut? : Option (List Char × List Char)) :
    ((cut?.map fun cut => (c :: cut.1, cut.2)).map fun cut => place + byteLength cut.1) =
      cut?.map fun cut => place + c.utf8Size + byteLength cut.1 := by
  rw [Option.map_map]
  refine congrArg (Option.map · cut?) (funext fun cut => ?_)
  rw [Function.comp_apply, byteLength_cons, Nat.add_assoc]

theorem topPlaceFrom?_eq (target : Char) (n : Nesting) (place : Nat) (s : List Char) :
    topPlaceFrom? target n place s =
      (cutTop? target n s).map fun cut => place + byteLength cut.1 := by
  induction s generalizing n place with
  | nil => rfl
  | cons c s ih =>
    rw [topPlaceFrom?, cutTop?]
    split
    · rfl
    · rw [ih, map_place_cons]

theorem topPlace?_eq (target : Char) (line : List Char) :
    topPlace? target line = (cutTop? target {} line).map fun cut => byteLength cut.1 := by
  simp only [topPlace?, topPlaceFrom?_eq, Nat.zero_add]

/-- The count of open brackets never goes below zero behind the first of them, and the place that is
found is that of the cut. -/
theorem closePlaceFrom?_eq (hdepth : 0 < n.depth) (place : Nat) (s : List Char) :
    closePlaceFrom? n place s =
      some ((cutClose? n s).map fun cut => place + byteLength cut.1) := by
  induction s generalizing n place with
  | nil => rfl
  | cons c s ih =>
    rw [closePlaceFrom?, Nesting.cutClose?_cons]
    by_cases hcloser : n.quote = none ∧ isCloser c = true
    · obtain ⟨depth, hn⟩ := Nat.exists_eq_succ_of_ne_zero hdepth.ne'
      rw [if_pos hcloser, hn, Nat.ppred_succ, Option.bind_eq_bind, Option.bind_some]
      by_cases hzero : depth = 0
      · rw [if_pos hzero, if_pos ⟨hcloser.1, hcloser.2, by rw [hzero]⟩]
        rfl
      · have hgoes : ¬(n.quote = none ∧ isCloser c = true ∧ n.depth = 1) := by
          rintro ⟨-, -, hone⟩
          omega
        rw [if_neg hzero, if_neg (hn ▸ hgoes), ih (Nesting.depth_step_pos hdepth hgoes),
          map_place_cons]
    · have hgoes : ¬(n.quote = none ∧ isCloser c = true ∧ n.depth = 1) :=
        fun h => hcloser ⟨h.1, h.2.1⟩
      rw [if_neg hcloser, if_neg hgoes, ih (Nesting.depth_step_pos hdepth hgoes), map_place_cons]

theorem closePlace?_append (left s : List Char) :
    closePlace? (byteLength left) (left ++ '(' :: s) =
      some ((cutClose? {} ('(' :: s)).map fun cut => byteLength left + byteLength cut.1) := by
  rw [closePlace?, dropBytes?_append, Option.bind_eq_bind, Option.bind_some, cutClose?_paren,
    map_place_cons]
  exact closePlaceFrom?_eq Nat.one_pos _ s

/-! ## Lines of items -/

theorem itemLines_eq_mapIdx (o : FormatOptions) (pre : List Char) (items : List (List Char)) :
    itemLines o pre items = items.mapIdx fun i item =>
      pre ++ trim item ++ if i < items.length - 1 ∨ o.trailingComma = true then [','] else [] := by
  rcases List.eq_nil_or_concat' items with rfl | ⟨init, last, rfl⟩
  · rfl
  have hinit : (init.mapIdx fun i item =>
      pre ++ trim item ++ if i < init.length ∨ o.trailingComma = true then [','] else []) =
        init.map fun item => pre ++ trim item ++ [','] := by
    refine List.ext_getElem (by simp) fun i hi _ => ?_
    rw [List.length_mapIdx] at hi
    simp [hi]
  rw [itemLines, List.dropLast_concat, List.getLast?_concat, List.mapIdx_concat,
    List.length_append, List.length_singleton, Nat.add_sub_cancel, hinit]
  simp [lastComma]

/-- Between the parentheses every slice is in range, and there is a last item. -/
theorem linesBetween?_append (o : FormatOptions) (indent left inside close : List Char) :
    linesBetween? o indent (left ++ inside ++ close) (byteLength left)
        (byteLength left + byteLength inside) =
      some (if trim inside = [] then none
        else some ((indent ++ left) ::
          (itemLines o (indent ++ o.unit) (splitTop ',' {} (trim inside)) ++
            [indent ++ close]))) := by
  have hhead : sliceBytes? 0 (byteLength left) (left ++ inside ++ close) = some left := by
    have := sliceBytes?_append [] left (inside ++ close)
    rwa [byteLength_nil, Nat.zero_add, List.nil_append, ← List.append_assoc] at this
  have hclose : dropBytes? (byteLength left + byteLength inside) (left ++ inside ++ close) =
      some close := by
    rw [← byteLength_append, dropBytes?_append]
  obtain ⟨item, items, hitems⟩ :=
    List.exists_cons_of_ne_nil (splitTop_ne_nil ',' {} (trim inside))
  have hlast : (splitTop ',' {} (trim inside)).length.ppred =
      some ((splitTop ',' {} (trim inside)).length - 1) := by
    rw [hitems, List.length_cons, Nat.ppred_succ, Nat.add_sub_cancel]
  simp only [linesBetween?, sliceBytes?_append, hhead, hclose, hlast, Option.bind_eq_bind,
    Option.bind_some, List.isEmpty_iff, itemLines_eq_mapIdx]
  split <;> rfl

theorem breakParensAt?_eq (o : FormatOptions) (indent line : List Char) :
    breakParensAt? o indent line = some (breakParens o indent line) := by
  unfold breakParensAt?
  rw [topPlace?_eq]
  rcases hcut : cutTop? '(' {} line with _ | ⟨left, right⟩
  · rw [breakParens, hcut]
    rfl
  obtain ⟨rfl, rest, rfl⟩ := cutTop?_eq_some hcut
  dsimp only [Option.map_some]
  rw [closePlace?_append]
  rcases hclose : cutClose? {} ('(' :: rest) with _ | ⟨inner, close⟩
  · simp [breakParens, hcut, hclose]
  obtain ⟨inside, rfl, rfl⟩ := cutClose?_cons_eq_some hclose
  have hlines := linesBetween?_append o indent (left ++ ['(']) inside close
  rw [byteLength_concat, List.append_assoc left, List.append_assoc left] at hlines
  rw [breakParens_of_cuts hcut hclose, List.append_assoc indent left]
  simp only [Option.bind_eq_bind, Option.bind_some, Option.map_some, byteLength_cons,
    ← Nat.add_assoc]
  exact hlines

/-! ## Places in range -/

/-- Where a line has a parenthesis outside brackets and literals, the count of open brackets does
not go below zero behind it. If a closing bracket is found, it stands behind the parenthesis, at a
place where the line can be cut, and is the first that closes it; and no slice of the broken line is
out of range. -/
theorem closePlace?_of_topPlace? (h : topPlace? '(' line = some place) :
    ∃ left right, cutTop? '(' {} line = some (left, '(' :: right) ∧
      splitBytes? place line = some (left, '(' :: right) ∧
      closePlace? place line =
        some ((cutClose? {} ('(' :: right)).map fun cut => place + byteLength cut.1) ∧
      (∀ close, closePlace? place line = some (some close) ↔ place < close ∧
        ∃ inside c after, splitBytes? close line = some (left ++ '(' :: inside, c :: after) ∧
          Nesting.Closes inside c ∧ ∀ p d q, inside = p ++ d :: q → ¬Nesting.Closes p d) ∧
      ∀ o indent, breakParensAt? o indent line = some (breakParens o indent line) := by
  rw [topPlace?_eq] at h
  obtain ⟨⟨left, right⟩, hcut, rfl⟩ := Option.map_eq_some_iff.1 h
  obtain ⟨rfl, right, rfl⟩ := cutTop?_eq_some hcut
  have hplace := closePlace?_append left right
  refine ⟨left, right, hcut, splitBytes?_eq_some_iff.2 ⟨rfl, rfl⟩, hplace, fun close => ?_,
    fun o indent => breakParensAt?_eq o indent _⟩
  rw [hplace, Option.some.injEq, Option.map_eq_some_iff]
  constructor
  · rintro ⟨⟨inner, rest⟩, hclose, rfl⟩
    obtain ⟨inside, rfl, rfl⟩ := cutClose?_cons_eq_some hclose
    obtain ⟨-, c, after, rfl, hcloses, hfirst⟩ := cutClose?_paren_eq_some_iff.1 hclose
    refine ⟨?_, inside, c, after, splitBytes?_eq_some_iff.2 ⟨by simp, ?_⟩, hcloses, hfirst⟩
    · have hpos := Char.utf8Size_pos '('
      rw [byteLength_cons]
      show byteLength left < byteLength left + _
      omega
    · rw [byteLength_append]
  · rintro ⟨-, inside, c, after, hsplit, hcloses, hfirst⟩
    obtain ⟨hline, rfl⟩ := splitBytes?_eq_some_iff.1 hsplit
    obtain rfl : right = inside ++ c :: after := by simpa using hline
    exact ⟨('(' :: inside, c :: after),
      cutClose?_paren_eq_some_iff.2 ⟨rfl, c, after, rfl, hcloses, hfirst⟩,
      (byteLength_append left ('(' :: inside)).symm⟩

/-- A parenthesis behind a letter of two bytes, with a closing one in a literal and other brackets
inside. -/
theorem closePlace?_of_topPlace?_literal :
    let line := "é(a: ')', b: [x]): T".toList
    topPlace? '(' line = some 2 ∧ closePlace? 2 line = some (some 17) ∧
      (∃ left inside c after, splitBytes? 17 line = some (left ++ '(' :: inside, c :: after) ∧
        Nesting.Closes inside c ∧ ∀ p d q, inside = p ++ d :: q → ¬Nesting.Closes p d) ∧
      ∀ o indent, breakParensAt? o indent line = some (breakParens o indent line) := by
  intro line
  have hopen : topPlace? '(' line = some 2 := by decide +kernel
  have hfound : closePlace? 2 line = some (some 17) := by decide +kernel
  obtain ⟨left, -, -, -, -, hclose, hlines⟩ := closePlace?_of_topPlace? hopen
  obtain ⟨-, inside, c, after, hclosed⟩ := (hclose 17).1 hfound
  exact ⟨hopen, hfound, ⟨left, inside, c, after, hclosed⟩, hlines⟩

end ReferencePages
