import ReferencePages.Proofs.DocComment.Sections
import ReferencePages.Proofs.Text.Blank
import ReferencePages.Proofs.Text.Bytes

/-!
# Places of tags

A tag starts at a place of its line, which is told in bytes (`tagStarts`, `mem_tagStarts_iff`). A
comment can be read by these places alone: each text of a line is what stands between two of them
(`sliceSections?`). Nothing would be read where a slice ends before it begins, reaches behind the
end of its line or cuts a character in two. That never happens, and the sections are those that are
read character by character (`sliceSections?_eq`).

Reading keeps all of a comment but blanks: a character of a line is text, or belongs to the name of
a tag or to its content (`nonBlank_cutTags`), and so it stays in the sections
(`sliceSections?_conserves`).
-/

namespace ReferencePages

/-! ## Where tags start -/

/-- The tags that start in a text, for each the place of its at sign, counted from `place`, and its
name. -/
def tagStartsFrom (p : LinePosition) (place : Nat) : List Char → List (Nat × List Char)
  | [] => []
  | c :: s =>
    let later := tagStartsFrom (p.next c) (place + c.utf8Size) s
    match startsTag? p c s with
    | some name => (place, name) :: later
    | none => later

/-- The tags that start on a line, each with its place and its name. -/
def tagStarts (line : List Char) : List (Nat × List Char) := tagStartsFrom {} 0 line

variable {p : LinePosition} {c : Char} {s name : List Char}

/-- What the beginning of a line tells of the position behind it. -/
theorem behind_eq (s : List Char) : LinePosition.behind {} s = {
    atStart := s.all isBlank
    inCode := decide (Odd (s.count '`'))
    afterBlank := s.getLast?.any isBlank } := by
  induction s using List.reverseRecOn with
  | nil => rfl
  | append_singleton s c ih =>
    rw [LinePosition.behind_concat, ih, LinePosition.next]
    congr 1
    · simp
    · rw [List.count_append, List.count_singleton]
      split
      · by_cases hodd : Odd (s.count '`') <;> simp [Nat.odd_add_one, hodd]
      · rw [Nat.add_zero]
    · simp

/-- A tag starts at an at sign with a name behind it, which holds no at sign. -/
theorem exists_of_startsTag? (h : startsTag? p c s = some name) :
    c = '@' ∧ (∀ d ∈ name, isTagChar d = true) ∧ '@' ∉ name ∧ ∃ rest, s = name ++ rest := by
  rw [startsTag?] at h
  split at h
  · next hat =>
    obtain ⟨hname, -⟩ := Option.filter_eq_some_iff.1 h
    rw [tagName?] at hname
    split at hname
    · cases hname
      refine ⟨hat.1, fun d hd => List.mem_takeWhile_imp hd, fun hmem => ?_, s.dropWhile isTagChar,
        List.takeWhile_append_dropWhile.symm⟩
      exact absurd (List.mem_takeWhile_imp hmem) (by decide)
    · cases hname
  · cases h

/-- A line is cut at a tag: the name is taken, and what stands behind it up to the next tag. -/
theorem cutTags_of_startsTag? (h : startsTag? p '@' (name ++ s) = some name) :
    cutTags p ('@' :: (name ++ s)) =
      let (content, tags) := cutTags ((p.next '@').behind name) s
      ([], (name, trimStart content) :: tags) := by
  obtain ⟨-, -, hat, -⟩ := exists_of_startsTag? h
  rw [cutTags, cutTags_append hat, h]
  simp only [List.drop_left]

theorem cutTags_of_none (h : startsTag? p c s = none) :
    cutTags p (c :: s) = (c :: (cutTags (p.next c) s).1, (cutTags (p.next c) s).2) := by
  rw [cutTags, h]

theorem mem_tagStartsFrom_iff {place start : Nat} :
    (start, name) ∈ tagStartsFrom p place s ↔ ∃ before after, s = before ++ '@' :: after ∧
      start = place + byteLength before ∧ startsTag? (p.behind before) '@' after = some name := by
  induction s generalizing p place with
  | nil => simp [tagStartsFrom]
  | cons c s ih =>
    -- A tag starts at the first character, or behind it.
    have hlater : (start, name) ∈ tagStartsFrom (p.next c) (place + c.utf8Size) s ↔
        ∃ before after, c :: s = (c :: before) ++ '@' :: after ∧
          start = place + byteLength (c :: before) ∧
          startsTag? (p.behind (c :: before)) '@' after = some name := by
      rw [ih]
      simp only [List.cons_append, List.cons.injEq, true_and, byteLength_cons, Nat.add_assoc]
      rfl
    have hmem : (start, name) ∈ tagStartsFrom p place (c :: s) ↔
        (start = place ∧ startsTag? p c s = some name) ∨
          (start, name) ∈ tagStartsFrom (p.next c) (place + c.utf8Size) s := by
      rw [tagStartsFrom]
      cases startsTag? p c s <;> simp [eq_comm]
    rw [hmem, hlater]
    constructor
    · rintro (⟨rfl, htag⟩ | ⟨before, after, hs, hrest⟩)
      · obtain ⟨rfl, -⟩ := exists_of_startsTag? htag
        exact ⟨[], s, rfl, rfl, htag⟩
      · exact ⟨c :: before, after, hs, hrest⟩
    · rintro ⟨before, after, hs, hplace, htag⟩
      cases before with
      | nil =>
        obtain ⟨rfl, rfl⟩ := List.cons.inj hs
        exact Or.inl ⟨hplace, htag⟩
      | cons d before =>
        obtain ⟨rfl, -⟩ := List.cons.inj hs
        exact Or.inr ⟨before, after, hs, hplace, htag⟩

/-- A tag starts where an at sign stands outside inline code, with a name behind it, and in front of
it only blanks, or one where the tag may start in the middle of a line. -/
theorem mem_tagStarts_iff {line : List Char} {start : Nat} :
    (start, name) ∈ tagStarts line ↔ ∃ before after, line = before ++ '@' :: after ∧
      start = byteLength before ∧ ¬Odd (before.count '`') ∧ tagName? after = some name ∧
      (before.all isBlank || (before.getLast?.any isBlank &&
        inlineTags.contains (String.ofList name))) = true := by
  rw [tagStarts, mem_tagStartsFrom_iff]
  refine exists_congr fun before => exists_congr fun after => ?_
  rw [Nat.zero_add, startsTag?, behind_eq]
  simp only [true_and, decide_eq_false_iff_not]
  refine and_congr_right fun _ => and_congr_right fun _ => ?_
  split
  · next heven => rw [Option.filter_eq_some_iff, and_iff_right heven]
  · next hodd => simp [hodd]

/-! ## Reading by places -/

/-- The name of the tag at a place of a line that holds an at sign, if one starts there. Nothing is
told where a slice is none. -/
def sliceName? (line : List Char) (place : Nat) (previous : Option Char) :
    Option (Option (List Char)) := do
  let behind ← dropBytes? (place + 1) line
  let name := behind.takeWhile isTagChar
  let rest ← dropBytes? (place + 1 + byteLength name) line
  let closed := name.head?.any isAsciiLetter && rest.head?.all isBlank
  let atStart := place == byteLength line - byteLength (trimStart line)
  let inLine := previous.any isBlank && inlineTags.contains (String.ofList name)
  return if closed && (atStart || inLine) then some name else none

/-- The name of the tag at a place of a line, if one starts there. -/
def sliceTag? (line : List Char) (place : Nat) (inCode : Bool) (previous : Option Char) (c : Char) :
    Option (Option (List Char)) :=
  if c = '@' ∧ inCode = false then sliceName? line place previous else some none

/-- The tags of a line that start in the rest of it, which begins at a place behind another
character. -/
def sliceStartsFrom? (line : List Char) (place : Nat) (inCode : Bool) (previous : Option Char) :
    List Char → Option (List (Nat × List Char))
  | [] => some []
  | c :: s => do
    let name? ← sliceTag? line place inCode previous c
    let later ← sliceStartsFrom? line (place + c.utf8Size)
      (if c == '`' then !inCode else inCode) (some c) s
    return (name?.map fun name => (place, name)).toList ++ later

/-- Where a text ends that stands before the given tags of a line. -/
def endBefore (line : List Char) : List (Nat × List Char) → Nat
  | [] => byteLength line
  | start :: _ => start.1

/-- The tags that start at the given places of a line, with their contents. -/
def sliceContents? (line : List Char) :
    List (Nat × List Char) → Option (List (List Char × List Char))
  | [] => some []
  | (place, name) :: later => do
    let content ← sliceBytes? (place + 1 + byteLength name) (endBefore line later) line
    let tags ← sliceContents? line later
    return (name, trimStart content) :: tags

/-- The text of a line before its first tag, and the tags. -/
def sliceTags? (line : List Char) : Option Sections := do
  let starts ← sliceStartsFrom? line 0 false none line
  let head ← sliceBytes? 0 (endBefore line starts) line
  let tags ← sliceContents? line starts
  return (head, tags)

/-- The chunks of each line. -/
def sliceChunks? (inFence : Bool) : List (List Char) → Option (List (List Chunk))
  | [] => some []
  | line :: rest =>
    if isFenceLine line then do
      let chunks ← sliceChunks? (!inFence) rest
      return [.text line] :: chunks
    else if inFence then do
      let chunks ← sliceChunks? inFence rest
      return [.text line] :: chunks
    else do
      let (head, tags) ← sliceTags? line
      let chunks ← sliceChunks? inFence rest
      return (.text head :: tags.map fun tag => .tag tag.1 tag.2) :: chunks

/-- The sections of a cleaned comment. -/
def sliceSections? (s : List Char) : Option Sections := do
  let chunks ← sliceChunks? false (lines s)
  return collect ([Chunk.text ['\n']].intercalate chunks)

/-- A place behind the blanks of a line is one with nothing but blanks before it. -/
theorem byteLength_sub_trimStart_eq_iff {before after : List Char} (hc : isBlank c = false) :
    byteLength before =
        byteLength (before ++ c :: after) - byteLength (trimStart (before ++ c :: after)) ↔
      before.all isBlank = true := by
  constructor
  · intro h
    by_contra hall
    obtain ⟨b, d, rest, rfl, hb, hd⟩ : ∃ b d rest, before = b ++ d :: rest ∧
        (∀ x ∈ b, isBlank x = true) ∧ isBlank d = false := by
      have happend : before.takeWhile isBlank ++ trimStart before = before :=
        List.takeWhile_append_dropWhile
      rcases htrim : trimStart before with _ | ⟨d, rest⟩
      · exact absurd (List.all_eq_true.2 (List.dropWhile_eq_nil_iff.1 htrim)) hall
      · rw [htrim] at happend
        exact ⟨_, d, rest, happend.symm, fun x hx => List.mem_takeWhile_imp hx,
          trimStart_eq_self_iff.1 (trimStart_trimStart before) d (by rw [htrim]; rfl)⟩
    have htrim : trimStart (b ++ d :: rest ++ c :: after) = d :: rest ++ c :: after := by
      rw [List.append_assoc, trimStart, List.dropWhile_append_of_pos hb]
      simp [hd]
    have hpos := d.utf8Size_pos
    rw [htrim] at h
    simp only [byteLength_append, byteLength_cons] at h
    omega
  · intro h
    have htrim : trimStart (before ++ c :: after) = c :: after := by
      rw [trimStart, List.dropWhile_append_of_pos (List.all_eq_true.1 h)]
      simp [hc]
    rw [htrim, byteLength_append, Nat.add_sub_cancel]

/-- The name at a place is read by slices as it is behind the at sign. -/
theorem sliceName?_eq (before after : List Char) :
    sliceName? (before ++ '@' :: after) (byteLength before) before.getLast? =
      some ((tagName? after).filter fun name => before.all isBlank ||
        (before.getLast?.any isBlank && inlineTags.contains (String.ofList name))) := by
  have hbehind : dropBytes? (byteLength before + 1) (before ++ '@' :: after) = some after := by
    have := dropBytes?_append (before ++ ['@']) after
    rwa [byteLength_append, List.append_assoc] at this
  have hrest : dropBytes? (byteLength before + 1 + byteLength (after.takeWhile isTagChar))
      (before ++ '@' :: after) = some (after.dropWhile isTagChar) := by
    have hline : before ++ ['@'] ++ after.takeWhile isTagChar ++ after.dropWhile isTagChar =
        before ++ '@' :: after := by
      rw [List.append_assoc, List.takeWhile_append_dropWhile, List.append_assoc]
      rfl
    have := dropBytes?_append (before ++ ['@'] ++ after.takeWhile isTagChar)
      (after.dropWhile isTagChar)
    rwa [hline, byteLength_append, byteLength_append] at this
  have hstart : (byteLength before == byteLength (before ++ '@' :: after) -
      byteLength (trimStart (before ++ '@' :: after))) = before.all isBlank := by
    rw [Bool.eq_iff_iff, beq_iff_eq]
    exact byteLength_sub_trimStart_eq_iff rfl
  simp only [sliceName?, hbehind, hrest, hstart, Option.bind_eq_bind, Option.bind_some, tagName?]
  generalize ((after.takeWhile isTagChar).head?.any isAsciiLetter &&
    (after.dropWhile isTagChar).head?.all isBlank) = closed
  cases closed <;> simp [Option.filter]

/-- The tags that slices find behind the beginning of a line are those that start there. -/
theorem sliceStartsFrom?_eq (before s : List Char) :
    sliceStartsFrom? (before ++ s) (byteLength before) (decide (Odd (before.count '`')))
      before.getLast? s =
        some (tagStartsFrom (LinePosition.behind {} before) (byteLength before) s) := by
  induction s generalizing before with
  | nil => rfl
  | cons c s ih =>
    have hnext := ih (before ++ [c])
    have hposition := LinePosition.behind_concat {} before c
    have hcode : decide (Odd ((before ++ [c]).count '`')) =
        if c == '`' then !decide (Odd (before.count '`')) else decide (Odd (before.count '`')) := by
      have := congrArg LinePosition.inCode hposition
      rw [behind_eq, behind_eq] at this
      exact this
    have hname : sliceTag? (before ++ c :: s) (byteLength before) (decide (Odd (before.count '`')))
        before.getLast? c = some (startsTag? (LinePosition.behind {} before) c s) := by
      rw [sliceTag?, startsTag?, behind_eq]
      split
      · next hat => rw [hat.1, sliceName?_eq]
      · rfl
    rw [List.append_assoc, List.singleton_append, byteLength_concat, List.getLast?_concat,
      hposition, hcode] at hnext
    rw [sliceStartsFrom?, hname, hnext, tagStartsFrom]
    cases startsTag? (LinePosition.behind {} before) c s <;> rfl

/-- The text before the first tag of the rest of a line ends where that tag starts. -/
theorem exists_cutTags_append (p : LinePosition) (before s : List Char) :
    ∃ rest, s = (cutTags p s).1 ++ rest ∧
      endBefore (before ++ s) (tagStartsFrom p (byteLength before) s) =
        byteLength before + byteLength (cutTags p s).1 := by
  induction s generalizing p before with
  | nil => exact ⟨[], rfl, by rw [List.append_nil]; rfl⟩
  | cons c s ih =>
    cases htag : startsTag? p c s with
    | some name =>
      rw [cutTags, tagStartsFrom, htag]
      exact ⟨c :: s, rfl, rfl⟩
    | none =>
      rw [cutTags_of_none htag, tagStartsFrom, htag]
      obtain ⟨rest, hs, hend⟩ := ih (p.next c) (before ++ [c])
      rw [List.append_assoc, List.singleton_append, byteLength_concat] at hend
      exact ⟨rest, congrArg (c :: ·) hs, by rw [hend, byteLength_cons, Nat.add_assoc]⟩

/-- The contents that slices find are those of the tags. -/
theorem sliceContents?_eq (p : LinePosition) (before s : List Char) :
    sliceContents? (before ++ s) (tagStartsFrom p (byteLength before) s) =
      some (cutTags p s).2 := by
  induction s generalizing p before with
  | nil => rfl
  | cons c s ih =>
    have hlater := ih (p.next c) (before ++ [c])
    obtain ⟨rest, hs, hend⟩ := exists_cutTags_append (p.next c) (before ++ [c]) s
    rw [List.append_assoc, List.singleton_append, byteLength_concat] at hlater hend
    cases htag : startsTag? p c s with
    | none =>
      rw [tagStartsFrom, cutTags_of_none htag, htag]
      exact hlater
    | some name =>
      obtain ⟨rfl, -, hat, after, rfl⟩ := exists_of_startsTag? htag
      -- The text behind the at sign begins with the name.
      rcases hcut : cutTags ((p.next '@').behind name) after with ⟨content, tags⟩
      rw [cutTags_append hat, hcut] at hs hend hlater
      have hrest : after = content ++ rest := by
        rwa [List.append_assoc, List.append_cancel_left_eq] at hs
      have hline : before ++ '@' :: (name ++ after) = before ++ '@' :: name ++ content ++ rest := by
        rw [List.append_assoc _ content, ← hrest, List.append_assoc]
        rfl
      have hone : '@'.utf8Size = 1 := rfl
      have hslice := sliceBytes?_append (before ++ '@' :: name) content rest
      rw [← hline, byteLength_append, byteLength_cons, hone, ← Nat.add_assoc] at hslice
      rw [tagStartsFrom, htag, cutTags_of_startsTag? htag, hcut, sliceContents?, hend, hlater, hone,
        byteLength_append, ← Nat.add_assoc, hslice]
      rfl

/-- Slices find the text and the tags of a line. -/
theorem sliceTags?_eq (line : List Char) : sliceTags? line = some (cutTags {} line) := by
  have hstarts : sliceStartsFrom? line 0 false none line = some (tagStarts line) :=
    sliceStartsFrom?_eq [] line
  have hcontents : sliceContents? line (tagStarts line) = some (cutTags {} line).2 :=
    sliceContents?_eq {} [] line
  obtain ⟨rest, hline, hend⟩ := exists_cutTags_append {} [] line
  have hhead : sliceBytes? 0 (endBefore line (tagStarts line)) line =
      some (cutTags {} line).1 := by
    have hslice := sliceBytes?_append [] (cutTags {} line).1 rest
    rw [List.nil_append, ← hline] at hslice
    exact hend ▸ hslice
  rw [sliceTags?, hstarts, Option.bind_eq_bind, Option.bind_some, hhead, Option.bind_eq_bind,
    Option.bind_some, hcontents]
  rfl

theorem sliceChunks?_eq (inFence : Bool) (ls : List (List Char)) :
    sliceChunks? inFence ls = some (chunksOfLines inFence ls) := by
  induction ls generalizing inFence with
  | nil => rfl
  | cons line ls ih =>
    rw [sliceChunks?, chunksOfLines]
    split
    · rw [ih]
      rfl
    · split
      · rw [ih]
        rfl
      · rw [ih, sliceTags?_eq]
        rfl

/-- Slices find the sections of every comment. -/
theorem sliceSections?_eq (s : List Char) : sliceSections? s = some (splitSections s) := by
  rw [sliceSections?, sliceChunks?_eq]
  rfl

/-! ## What is kept -/

/-- The characters of a text that are not blank. -/
def nonBlank (s : List Char) : List Char := s.filter fun c => !isBlank c

/-- The characters of tags that are not blank, as tags are written. -/
def nonBlankTags (tags : List (List Char × List Char)) : List Char :=
  tags.flatMap fun tag => '@' :: tag.1 ++ nonBlank tag.2

/-- The characters of a chunk that are not blank. -/
def nonBlankChunk : Chunk → List Char
  | .text s => nonBlank s
  | .tag name content => '@' :: name ++ nonBlank content

theorem nonBlank_append (a b : List Char) : nonBlank (a ++ b) = nonBlank a ++ nonBlank b :=
  List.filter_append a b

theorem nonBlank_trimStart (s : List Char) : nonBlank (trimStart s) = nonBlank s :=
  filter_trimStart (fun c hc => by simp [hc]) s

theorem nonBlank_of_isTagChar (h : ∀ c ∈ name, isTagChar c = true) : nonBlank name = name :=
  List.filter_eq_self.2 fun c hc => by simp [not_blank_of_isTagChar (h c hc)]

theorem nonBlankTags_cons (content : List Char) (tags : List (List Char × List Char)) :
    nonBlankTags ((name, content) :: tags) =
      '@' :: name ++ nonBlank content ++ nonBlankTags tags :=
  rfl

/-- The text and the tags of a line hold its characters. -/
theorem nonBlank_cutTags (p : LinePosition) (s : List Char) :
    nonBlank (cutTags p s).1 ++ nonBlankTags (cutTags p s).2 = nonBlank s := by
  induction s generalizing p with
  | nil => rfl
  | cons c s ih =>
    have hrest := ih (p.next c)
    cases htag : startsTag? p c s with
    | none =>
      rw [cutTags_of_none htag, ← List.singleton_append, nonBlank_append, List.append_assoc, hrest,
        ← nonBlank_append]
      rfl
    | some name =>
      obtain ⟨rfl, hname, hat, after, rfl⟩ := exists_of_startsTag? htag
      rw [cutTags_append hat, nonBlank_append, nonBlank_append, List.append_assoc,
        List.append_cancel_left_eq] at hrest
      rw [cutTags_of_startsTag? htag]
      calc nonBlank [] ++ nonBlankTags ((name, trimStart (cutTags _ after).1) ::
            (cutTags ((p.next '@').behind name) after).2)
          = '@' :: name ++ nonBlank (cutTags ((p.next '@').behind name) after).1 ++
              nonBlankTags (cutTags ((p.next '@').behind name) after).2 := by
            rw [nonBlankTags_cons, nonBlank_trimStart]
            rfl
        _ = '@' :: (nonBlank name ++ nonBlank after) := by
            rw [List.append_assoc, hrest, nonBlank_of_isTagChar hname]
            rfl
        _ = nonBlank ('@' :: (name ++ after)) := by
            rw [← nonBlank_append]
            rfl

theorem flatMap_nonBlankChunk_lineChunks (line : List Char) :
    (lineChunks line).flatMap nonBlankChunk = nonBlank line := by
  rw [← nonBlank_cutTags {} line, lineChunks, List.flatMap_cons, List.flatMap_map]
  rfl

/-- The chunks of lines, with line feeds between, hold the characters of the lines. -/
theorem flatMap_nonBlankChunk_chunksOfLines (inFence : Bool) (ls : List (List Char)) :
    ([Chunk.text ['\n']].intercalate (chunksOfLines inFence ls)).flatMap nonBlankChunk =
      ls.flatMap nonBlank := by
  have hfeed : nonBlankChunk (.text ['\n']) = [] := rfl
  induction ls generalizing inFence with
  | nil => rfl
  | cons line ls ih =>
    have hline : ∃ chunks inFence', chunksOfLines inFence (line :: ls) =
        chunks :: chunksOfLines inFence' ls ∧ chunks.flatMap nonBlankChunk = nonBlank line := by
      rw [chunksOfLines]
      split
      · exact ⟨_, _, rfl, List.flatMap_singleton _ _⟩
      · split
        · exact ⟨_, _, rfl, List.flatMap_singleton _ _⟩
        · exact ⟨_, _, rfl, flatMap_nonBlankChunk_lineChunks line⟩
    obtain ⟨chunks, inFence', hchunks, hnonBlank⟩ := hline
    rw [hchunks, List.flatMap_cons, ← hnonBlank, ← ih inFence']
    by_cases hls : ls = []
    · rw [hls, chunksOfLines, List.intercalate_singleton]
      exact (List.append_nil _).symm
    · rw [List.intercalate_cons_of_ne_nil (chunksOfLines_ne_nil hls inFence'), List.flatMap_append,
        List.flatMap_append, List.flatMap_singleton, hfeed, List.append_nil]

/-- The sections of chunks hold the characters of the chunks. -/
theorem nonBlank_collect (chunks : List Chunk) :
    nonBlank (collect chunks).1 ++ nonBlankTags (collect chunks).2 =
      chunks.flatMap nonBlankChunk := by
  induction chunks with
  | nil => rfl
  | cons chunk chunks ih =>
    rw [List.flatMap_cons, ← ih]
    cases chunk with
    | text s => rw [collect, nonBlank_append, List.append_assoc, nonBlankChunk]
    | tag name content =>
      simp only [collect, nonBlankTags_cons, nonBlank_append, nonBlankChunk, List.append_assoc]
      rfl

/-- A comment is read without a slice out of range, and what is read of it are its characters in
order, blanks apart: those of the description, and for each tag the at sign, its name and the
characters of its content. -/
theorem sliceSections?_conserves (s : List Char) :
    ∃ description tags, sliceSections? s = some (description, tags) ∧
      splitSections s = (description, tags) ∧
      nonBlank s = nonBlank description ++
        tags.flatMap fun tag => '@' :: tag.1 ++ nonBlank tag.2 := by
  refine ⟨(splitSections s).1, (splitSections s).2, sliceSections?_eq s, rfl, ?_⟩
  calc nonBlank s
      = (lines s).flatMap nonBlank := (flatMap_filter_lines rfl rfl s).symm
    _ = ([Chunk.text ['\n']].intercalate (chunksOfLines false (lines s))).flatMap nonBlankChunk :=
      (flatMap_nonBlankChunk_chunksOfLines false (lines s)).symm
    _ = nonBlank (splitSections s).1 ++ nonBlankTags (splitSections s).2 :=
      (nonBlank_collect _).symm

/-- A place behind a letter of two bytes. -/
example : sliceSections? "é @param x".toList =
    some ("é ".toList, [("param".toList, "x".toList)]) := by
  decide +kernel

end ReferencePages
