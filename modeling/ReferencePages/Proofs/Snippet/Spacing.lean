import ReferencePages.Proofs.Snippet.Significant
import ReferencePages.Snippet.Spacing

/-!
# Spacing keeps what is significant

Each lexeme of a line adds its own significant characters to the row, whatever spaces, commas and
quotes are set around it or taken back (`Row.significant_text_place`). A line that has been set
thus has the significant characters of its lexemes, which are those of the line.
-/

namespace ReferencePages

/-! ## Quotes -/

variable {o : FormatOptions}

theorem isFiller_quote : isFiller o.quote = true := by
  unfold FormatOptions.quote
  split <;> rfl

theorem isFiller_otherQuote : isFiller o.otherQuote = true := by
  unfold FormatOptions.otherQuote
  split <;> rfl

theorem significant_unescapeQuote {quote : Char} (h : isFiller quote = true) (s : List Char) :
    significant (unescapeQuote quote s) = significant s := by
  refine significant_replaceAll ?_ (significant_singleton_of_isFiller h) s
  rw [significant_cons_of_isFiller rfl, significant_singleton_of_isFiller h]

theorem significant_requote (s : List Char) : significant (requote o s) = significant s := by
  cases s with
  | nil => rfl
  | cons q rest =>
    unfold requote
    dsimp only
    split
    · next h =>
      obtain ⟨rfl, hlast, -⟩ := h
      have hinside : significant rest.dropLast = significant rest := by
        refine significant_dropLast fun c hc => ?_
        rw [hlast, Option.some.injEq] at hc
        exact hc ▸ isFiller_otherQuote
      rw [List.cons_append, significant_cons_of_isFiller isFiller_quote, significant_append,
        significant_unescapeQuote isFiller_otherQuote, hinside,
        significant_singleton_of_isFiller isFiller_quote, List.append_nil,
        significant_cons_of_isFiller isFiller_otherQuote]
    · rfl

/-! ## Rows -/

namespace Row

variable (r : Row) (c : Char) (next : Option Char)

@[simp] theorem significant_text_push :
    significant (r.push c).text = significant r.text ++ significant [c] := by
  rw [← significant_append]
  exact congrArg significant (List.reverse_cons)

@[simp] theorem significant_text_append (s : List Char) :
    significant (r.append s).text = significant r.text ++ significant s := by
  rw [← significant_append]
  refine congrArg significant ?_
  rw [text, append, List.reverse_append, List.reverse_reverse]
  rfl

@[simp] theorem significant_text_withCode : significant r.withCode.text = significant r.text :=
  rfl

@[simp] theorem significant_text_pad : significant r.pad.text = significant r.text := by
  unfold pad
  split
  · rfl
  · split
    · rfl
    · simp

@[simp] theorem significant_text_spaceAfter :
    significant (r.spaceAfter next).text = significant r.text := by
  unfold spaceAfter
  split
  · split
    · rfl
    · simp
  · rfl

@[simp] theorem significant_text_dropComma :
    significant r.dropComma.text = significant r.text := by
  unfold dropComma
  split
  · next rest h =>
    have hrest : significant rest = significant r.reversed := by
      rw [← significant_dropWhile_isBlank r.reversed, h, significant_cons_of_isFiller rfl]
    rw [text, text, significant_reverse, significant_reverse, significant_dropWhile_isBlank, hrest]
  · rfl

theorem significant_text_openBrace :
    significant (r.openBrace next).text = significant r.text ++ ['\x7b'] := by
  have hbrace : significant ['\x7b'] = ['\x7b'] := rfl
  unfold openBrace
  dsimp only
  -- The cases are those of the character behind the brace, then those of the one before it.
  split
  · split
    · split
      · split <;> simp [hbrace]
      · simp [hbrace]
    · split
      · split <;> simp [hbrace]
      · simp [hbrace]
  · split
    · split <;> simp [hbrace]
    · simp [hbrace]

theorem significant_text_close :
    significant (r.close o c).text = significant r.text ++ significant [c] := by
  have hcomma : significant (if o.trailingComma then r else r.dropComma).text =
      significant r.text := by
    split
    · rfl
    · exact significant_text_dropComma r
  unfold close
  refine (significant_text_push _ c).trans (congrArg (· ++ significant [c]) (Eq.trans ?_ hcomma))
  generalize (if o.trailingComma then r else r.dropComma) = q
  split
  · rfl
  · split
    · split
      · rfl
      · split
        · rfl
        · simp
      · simp
    · rfl

theorem significant_text_equals :
    significant (r.equals next).text = significant r.text ++ ['='] := by
  unfold equals
  dsimp only
  split
  · rw [significant_text_push]
    rfl
  · rw [significant_text_spaceAfter, significant_text_push, significant_text_pad]
    rfl

/-- A character of code is added to the row, up to a blank. -/
theorem significant_text_code :
    significant (r.code o c next).text = significant r.text ++ significant [c] := by
  unfold code
  split
  · next h =>
    rw [significant_text_pad, significant_singleton_of_isFiller, List.append_nil]
    rcases h with rfl | rfl <;> rfl
  split
  · next h =>
    subst h
    exact significant_text_openBrace r next
  split
  · exact significant_text_push r c
  split
  · exact significant_text_close r c
  split
  · next h =>
    subst h
    exact significant_text_equals r next
  split
  · rw [significant_text_withCode, significant_text_spaceAfter, significant_text_push]
  · exact significant_text_push r c

/-- A lexeme adds its significant characters to the row. -/
theorem significant_text_place (l : Lexeme) :
    significant (r.place o l next).text = significant r.text ++ significant l.text := by
  cases l with
  | code c => exact significant_text_code r c next
  | arrow =>
    show significant (((r.pad.append ['=', '>']).spaceAfter next).withCode).text = _
    rw [significant_text_withCode, significant_text_spaceAfter, significant_text_append,
      significant_text_pad]
    rfl
  | literal s =>
    show significant ((r.append (requote o s)).withCode).text = _
    rw [significant_text_withCode, significant_text_append, significant_requote]
    rfl
  | _ => exact significant_text_append r _

theorem significant_text_placeAll (ls : List Lexeme) :
    significant (r.placeAll o ls).text =
      significant r.text ++ significant (ls.flatMap Lexeme.text) := by
  induction ls generalizing r with
  | nil => simp [placeAll]
  | cons l rest ih =>
    rw [placeAll, ih, significant_text_place, List.flatMap_cons, significant_append,
      List.append_assoc]

end Row

/-! ## Lines -/

theorem significant_scannedText (m : Mode) (line : List Char) :
    significant (scannedText m line) = significant line := by
  unfold scannedText
  split
  · rfl
  · exact significant_trim line

/-- A line that has been set has the significant characters of the line. -/
theorem significant_text_spaceLine (o : FormatOptions) (m : Mode) (line : List Char) :
    significant (spaceLine o m line).text = significant line := by
  have hrow : significant (({} : Row).placeAll o (scan m (scannedText m line))).text =
      significant line := by
    rw [Row.significant_text_placeAll]
    exact (congrArg significant (scan_flatten m _)).trans (significant_scannedText m line)
  unfold spaceLine
  dsimp only
  split
  · exact hrow
  · rw [significant_trimEnd, hrow]

theorem flatMap_significant_spaceLines (o : FormatOptions) (m : Mode) (ls : List (List Char)) :
    (spaceLines o m ls).flatMap (fun line => significant line.text) = ls.flatMap significant := by
  induction ls generalizing m with
  | nil => rfl
  | cons line rest ih =>
    rw [spaceLines, List.flatMap_cons, List.flatMap_cons, ih, significant_text_spaceLine]

end ReferencePages
