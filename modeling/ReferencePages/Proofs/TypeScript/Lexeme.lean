import Mathlib.Data.List.TakeWhile
import ReferencePages.Proofs.Text.Search
import ReferencePages.TypeScript.Lexer

/-!
# What a lexeme takes

A lexeme takes as many characters from the front of a text as its length tells, and leaves the
others (`Lexeme.CutOff`). A mark is the text that it takes, and no word is longer than what it
takes, since an escape takes more than the character it stands for.
-/

namespace ReferencePages.TypeScript

/-- A text is left of another one behind its first `n` characters. -/
def IsLeft (s : List Char) (n : Nat) (rest : List Char) : Prop :=
  ∃ taken, s = taken ++ rest ∧ taken.length = n

namespace IsLeft

variable {c : Char} {m n : Nat} {s t u : List Char}

theorem refl (s : List Char) : IsLeft s 0 s := ⟨[], rfl, rfl⟩

theorem trans (h : IsLeft s m t) (h' : IsLeft t n u) : IsLeft s (m + n) u := by
  obtain ⟨a, rfl, rfl⟩ := h
  obtain ⟨b, rfl, rfl⟩ := h'
  exact ⟨a ++ b, (List.append_assoc a b u).symm, List.length_append⟩

theorem cons (h : IsLeft s n t) : IsLeft (c :: s) (n + 1) t := by
  obtain ⟨a, rfl, rfl⟩ := h
  exact ⟨c :: a, rfl, rfl⟩

theorem of_le (h : n ≤ s.length) : IsLeft s n (s.drop n) :=
  ⟨s.take n, (List.take_append_drop n s).symm, List.length_take_of_le h⟩

theorem eq_drop (h : IsLeft s n t) : t = s.drop n := by
  obtain ⟨a, rfl, rfl⟩ := h
  exact List.drop_left.symm

theorem le_length (h : IsLeft s n t) : n ≤ s.length := by
  obtain ⟨a, rfl, rfl⟩ := h
  rw [List.length_append]
  exact Nat.le_add_right _ _

end IsLeft

/-! ## Parts of tokens -/

variable {n : Nat} {s : List Char}

theorem length_templatePart_cons (c : Char) (part : TemplatePart) :
    ({ part with text := c :: part.text } : TemplatePart).length = part.length + 1 := by
  simp only [TemplatePart.length, List.length_cons]
  omega

theorem isLeft_cutTemplate {part : TemplatePart} (h : cutTemplate s = some part) :
    IsLeft s part.length part.rest := by
  fun_induction cutTemplate s generalizing part with
  | case1 => cases h
  | case2 c s ih =>
    obtain ⟨part, hpart, rfl⟩ := Option.map_eq_some_iff.1 h
    rw [length_templatePart_cons '\\' { part with text := c :: part.text },
      length_templatePart_cons]
    exact (ih hpart).cons.cons
  | case3 s =>
    obtain rfl := Option.some.inj h
    exact (IsLeft.refl s).cons
  | case4 s =>
    obtain rfl := Option.some.inj h
    exact (IsLeft.refl s).cons.cons
  | case5 c s _ _ _ ih =>
    obtain ⟨part, hpart, rfl⟩ := Option.map_eq_some_iff.1 h
    rw [length_templatePart_cons]
    exact (ih hpart).cons

theorem isLeft_cutString {quote : Char} {inside rest : List Char}
    (h : cutString quote s = some (inside, rest)) : IsLeft s (inside.length + 1) rest := by
  fun_induction cutString quote s generalizing inside with
  | case1 => cases h
  | case2 s ih =>
    obtain ⟨⟨inside, rest⟩, hcut, heq⟩ := Option.map_eq_some_iff.1 h
    obtain ⟨rfl, rfl⟩ := Prod.mk.inj heq
    exact (ih hcut).cons.cons.cons
  | case3 c s _ ih =>
    obtain ⟨⟨inside, rest⟩, hcut, heq⟩ := Option.map_eq_some_iff.1 h
    obtain ⟨rfl, rfl⟩ := Prod.mk.inj heq
    exact (ih hcut).cons.cons
  | case4 s =>
    obtain ⟨rfl, rfl⟩ := Prod.mk.inj (Option.some.inj h)
    exact (IsLeft.refl s).cons
  | case5 => cases h
  | case6 c s _ _ _ _ ih =>
    obtain ⟨⟨inside, rest⟩, hcut, heq⟩ := Option.map_eq_some_iff.1 h
    obtain ⟨rfl, rfl⟩ := Prod.mk.inj heq
    exact (ih hcut).cons

theorem le_length_of_unicodeEscape? {code count : Nat}
    (h : unicodeEscape? s = some (code, count)) : count ≤ s.length := by
  unfold unicodeEscape? at h
  split at h
  · next s =>
    obtain ⟨value, -, h⟩ := Option.bind_eq_some_iff.1 h
    split at h
    · next hlt =>
      obtain ⟨-, rfl⟩ := Prod.mk.inj (Option.some.inj h)
      simp only [Bool.and_eq_true, decide_eq_true_eq] at hlt
      rw [List.length_cons]
      omega
    · cases h
  · obtain ⟨value, -, h⟩ := Option.bind_eq_some_iff.1 h
    obtain ⟨-, rfl⟩ := Prod.mk.inj (Option.some.inj h)
    simp
  · cases h

theorem isLeft_readName {isFirst : Bool} {name : NameReading}
    (h : readName isFirst n s = some name) :
    IsLeft s name.length name.rest ∧ name.text.length ≤ name.length := by
  fun_induction readName isFirst n s generalizing name with
  | case1 => cases h
  | case2 =>
    rename_i s ih
    obtain ⟨⟨code, count⟩, hescape, h⟩ := Option.bind_eq_some_iff.1 h
    dsimp only at h
    split at h
    · obtain ⟨name, hname, h⟩ := Option.bind_eq_some_iff.1 h
      obtain rfl := Option.some.inj h
      obtain ⟨hleft, hle⟩ := ih count hname
      have hs := (IsLeft.of_le (le_length_of_unicodeEscape? hescape)).trans hleft
      rw [Nat.add_comm] at hs
      exact ⟨hs.cons.cons, by simp only [List.length_cons]; omega⟩
    · cases h
  | case3 => cases h
  | case4 =>
    rename_i ih
    obtain ⟨name, hname, h⟩ := Option.bind_eq_some_iff.1 h
    obtain rfl := Option.some.inj h
    obtain ⟨hleft, hle⟩ := ih hname
    exact ⟨hleft.cons, Nat.succ_le_succ hle⟩
  | case5 => cases h
  | case6 =>
    obtain rfl := Option.some.inj h
    exact ⟨.refl _, le_rfl⟩
  | case7 => cases h
  | case8 =>
    obtain rfl := Option.some.inj h
    exact ⟨.refl _, le_rfl⟩

theorem le_length_of_readNumber {value : NumberValue} (h : readNumber s = some (value, n)) :
    n ≤ s.length := by
  unfold readNumber at h
  extract_lets run cut at h
  have hcut : ∀ found, cut found = some (value, n) → n ≤ s.length := fun ⟨_, rest⟩ h => by
    dsimp only [cut] at h
    split at h
    · cases h
    · obtain ⟨-, rfl⟩ := Prod.mk.inj (Option.some.inj h)
      exact (Nat.sub_le _ _).trans (List.takeWhile_prefix isNumberPart).length_le
  have hbind : ∀ {read : Option (NumberValue × List Char)},
      read.bind cut = some (value, n) → n ≤ s.length := fun h => by
    obtain ⟨found, -, h⟩ := Option.bind_eq_some_iff.1 h
    exact hcut found h
  clear_value cut run
  split at h
  · split at h
    · exact hbind h
    · split at h
      · exact hbind h
      · split at h
        · exact hbind h
        · split at h <;> exact hbind h
  · exact hbind h

theorem isPrefix_of_readMark {text : String} (h : readMark s = some text) :
    text.toList <+: s := by
  unfold readMark at h
  extract_lets long at h
  rcases hlong : long with _ | mark
  · rw [hlong] at h
    obtain ⟨c, hc, rfl⟩ := Option.map_eq_some_iff.1 h
    obtain ⟨hhead, -⟩ := Option.filter_eq_some_iff.1 hc
    obtain ⟨rest, rfl⟩ := List.head?_eq_some_iff.1 hhead
    exact ⟨rest, by simp [Char.toString]⟩
  · rw [hlong] at h
    obtain rfl := Option.some.inj h
    have hmark := List.find?_some hlong
    split at hmark
    · next rest hrest => exact ⟨rest, (dropPrefix?_eq_some_iff.1 hrest).symm⟩
    · cases hmark

/-! ## Lexemes -/

/-- A lexeme, cut off from the front of a text. -/
structure Lexeme.CutOff (l : Lexeme) (s : List Char) : Prop where
  isLeft : IsLeft s l.length l.rest
  mark : ∀ text, l.kind = .punct text → text.toList <+: s ∧ l.length = text.length
  word : ∀ name, l.kind = .word name false → name.length ≤ l.length

theorem cutOff_of_readLexeme? {l : Lexeme} (h : readLexeme? n s = some l) : l.CutOff s := by
  unfold readLexeme? at h
  split at h
  · cases h
  · obtain ⟨part, hpart, h⟩ := Option.bind_eq_some_iff.1 h
    obtain rfl := Option.some.inj h
    exact ⟨(isLeft_cutTemplate hpart).cons, nofun, nofun⟩
  · obtain ⟨name, hname, h⟩ := Option.bind_eq_some_iff.1 h
    obtain rfl := Option.some.inj h
    exact ⟨(isLeft_readName hname).1.cons, nofun, nofun⟩
  · next c rest _ _ =>
    split at h
    · obtain ⟨⟨inside, behind⟩, hcut, h⟩ := Option.bind_eq_some_iff.1 h
      obtain ⟨value, -, h⟩ := Option.bind_eq_some_iff.1 h
      obtain rfl := Option.some.inj h
      exact ⟨(isLeft_cutString hcut).cons, nofun, nofun⟩
    · split at h
      · obtain ⟨⟨value, length⟩, hnumber, h⟩ := Option.bind_eq_some_iff.1 h
        obtain rfl := Option.some.inj h
        have hleft := IsLeft.of_le (le_length_of_readNumber hnumber)
        cases value with
        | fraction num den => exact ⟨hleft, nofun, nofun⟩
        | bigint value => exact ⟨hleft, nofun, nofun⟩
      · split at h
        · obtain ⟨name, hname, h⟩ := Option.bind_eq_some_iff.1 h
          dsimp only at h
          split at h
          · cases h
          · obtain rfl := Option.some.inj h
            obtain ⟨hleft, hle⟩ := isLeft_readName hname
            refine ⟨hleft, nofun, fun text htext => ?_⟩
            obtain ⟨rfl, -⟩ := TokenKind.word.inj htext
            rwa [String.length_ofList]
        · obtain ⟨text, hmark, rfl⟩ := Option.map_eq_some_iff.1 h
          have hbegins := isPrefix_of_readMark hmark
          refine ⟨IsLeft.of_le hbegins.length_le, fun text' htext => ?_, nofun⟩
          obtain rfl := TokenKind.punct.inj htext
          exact ⟨hbegins, rfl⟩

/-- A character that begins no token is one that could stand nowhere. -/
theorem cutOff_getD (n : Nat) (c : Char) (s : List Char) :
    ((readLexeme? n (c :: s)).getD ⟨.invalid, 1, s⟩).CutOff (c :: s) := by
  rcases h : readLexeme? n (c :: s) with _ | lexeme
  · exact ⟨(IsLeft.refl s).cons, nofun, nofun⟩
  · exact cutOff_of_readLexeme? h

end ReferencePages.TypeScript
