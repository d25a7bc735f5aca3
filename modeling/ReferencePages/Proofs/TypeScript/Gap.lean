import Mathlib.Data.List.TakeWhile
import ReferencePages.Proofs.Text.Search
import ReferencePages.TypeScript.Lexer

/-!
# Gaps between tokens

What stands between two tokens is blanks, line breaks and whole comments (`IsTrivia`). A gap is
read over such a text and no further (`exists_passes_of_readGap`), and the comments that are kept
of it begin in it.
-/

namespace ReferencePages.TypeScript

/-- What opens a comment that ends with its line. -/
def lineOpeners : List (List Char) := ["//".toList, "<!--".toList, "-->".toList]

/-- A text of blanks, line breaks and whole comments. -/
inductive IsTrivia : List Char → Prop where
  | nil : IsTrivia []
  | blank {c : Char} {s : List Char} (hc : isLineBreak c = true ∨ isGap c = true)
      (h : IsTrivia s) : IsTrivia (c :: s)
  | block {text s : List Char} (htext : ¬"*/".toList <:+: text) (h : IsTrivia s) :
      IsTrivia ("/*".toList ++ (text ++ "*/".toList ++ s))
  /-- The comment ends before a line break. -/
  | line (opener text : List Char) {s : List Char} {c : Char} (hopener : opener ∈ lineOpeners)
      (htext : ∀ d ∈ text, isLineBreak d = false) (hc : isLineBreak c = true)
      (h : IsTrivia (c :: s)) : IsTrivia (opener ++ (text ++ c :: s))

/-- A gap, read from one place over a text up to another place. -/
structure Gap.Passes (start : Gap) (s : List Char) (stop : Gap) : Prop where
  text_eq : start.place.text = s ++ stop.place.text
  position_eq : stop.place.position = start.place.position + s.length
  /-- At the end of the source a comment may be left without the end of its line. -/
  isTrivia : stop.place.text ≠ [] → IsTrivia s
  comments : ∀ c ∈ stop.comments, c ∈ start.comments ∨
    start.place.position ≤ c.lo ∧ c.lo ≤ stop.place.position
  head : ∀ c ∈ stop.place.text.head?, isLineBreak c = false

namespace Gap.Passes

variable {start next stop : Gap} {s : List Char}

theorem refl (hhead : ∀ c ∈ stop.place.text.head?, isLineBreak c = false) :
    stop.Passes [] stop :=
  ⟨rfl, rfl, fun _ => .nil, fun _ => Or.inl, hhead⟩

/-- A gap that begins with blanks or with a comment goes on behind them. -/
theorem append {a : List Char} (h : next.Passes s stop)
    (htext : start.place.text = a ++ next.place.text)
    (hposition : next.place.position = start.place.position + a.length)
    (hcomments : ∀ c ∈ next.comments, c ∈ start.comments ∨ c.lo = start.place.position)
    (htrivia : stop.place.text ≠ [] → IsTrivia s → IsTrivia (a ++ s)) :
    start.Passes (a ++ s) stop where
  text_eq := by rw [htext, h.text_eq, List.append_assoc]
  position_eq := by rw [h.position_eq, hposition, List.length_append, Nat.add_assoc]
  isTrivia hstop := htrivia hstop (h.isTrivia hstop)
  comments c hc := by
    have hle : next.place.position ≤ stop.place.position := by
      rw [h.position_eq]
      exact Nat.le_add_right _ _
    rcases h.comments c hc with hc | hc
    · exact (hcomments c hc).imp_right fun hlo => by omega
    · exact Or.inr (by omega)
  head := h.head

/-- A comment that ends with its line. The line break is left to what follows. -/
theorem line {n : Nat} {behind : List Char} (opener : List Char) (hopener : opener ∈ lineOpeners)
    (hn : n = opener.length) (htext : start.place.text = opener ++ behind)
    (hcomments : ∀ c ∈ next.comments, c ∈ start.comments ∨ c.lo = start.place.position)
    (hplace : next.place = ⟨start.place.position + n + (behind.takeWhile (!isLineBreak ·)).length,
      behind.drop (behind.takeWhile (!isLineBreak ·)).length⟩)
    (h : next.Passes s stop) :
    start.Passes (opener ++ behind.takeWhile (!isLineBreak ·) ++ s) stop := by
  have hrest : next.place.text = behind.dropWhile (!isLineBreak ·) := by
    rw [hplace, drop_length_takeWhile]
  refine h.append ?_ ?_ hcomments fun hstop hs => ?_
  · rw [htext, hrest, List.append_assoc, List.takeWhile_append_dropWhile]
  · rw [hplace, List.length_append, hn, Nat.add_assoc]
  · have hbreak : ∀ c ∈ next.place.text.head?, isLineBreak c = true := fun c hc => by
      rw [hrest] at hc
      have := List.head?_dropWhile_not (!isLineBreak ·) behind
      rw [hc] at this
      simpa using this
    have hne : s ≠ [] := by
      rintro rfl
      obtain ⟨c, t, ht⟩ := List.exists_cons_of_ne_nil hstop
      have hc := h.head c (by rw [ht]; rfl)
      rw [hbreak c (by rw [h.text_eq, ht]; rfl)] at hc
      cases hc
    obtain ⟨c, t, rfl⟩ := List.exists_cons_of_ne_nil hne
    rw [List.append_assoc]
    refine .line _ _ hopener (fun d hd => by simpa using List.mem_takeWhile_imp hd) ?_ hs
    exact hbreak c (by rw [h.text_eq]; rfl)

end Gap.Passes

variable {owner : Owner} {fuel : Nat} {start stop : Gap}

theorem eq_lo_of_mem_kept {keeps : Bool} {comment c : Comment} {comments : List Comment}
    (h : c ∈ if keeps then comment :: comments else comments) :
    c ∈ comments ∨ c.lo = comment.lo := by
  cases keeps with
  | false => exact Or.inl h
  | true => exact (List.mem_cons.1 h).symm.imp_right (congrArg Comment.lo)

/-- A gap is read over blanks and whole comments, up to what is neither. -/
theorem exists_passes_of_readGap (h : readGap owner fuel start = some stop) :
    ∃ s, start.Passes s stop := by
  induction fuel generalizing start with
  | zero => cases h
  | succ fuel ih =>
    rw [readGap] at h
    split at h
    · next htext =>
      obtain rfl := Option.some.inj h
      exact ⟨[], .refl (by simp [htext])⟩
    · next htext =>
      obtain ⟨s, hs⟩ := ih h
      exact ⟨_, hs.line "//".toList (by decide) rfl htext
        (fun _ => eq_lo_of_mem_kept) rfl⟩
    · next htext =>
      obtain ⟨s, hs⟩ := ih h
      exact ⟨_, hs.line "<!--".toList (by decide) rfl htext
        (fun _ => eq_lo_of_mem_kept) rfl⟩
    · next behind htext =>
      split at h
      · cases h
      · next text rest hcut =>
        obtain ⟨s, hs⟩ := ih h
        have hcomment := append_of_splitAtFirst? hcut
        refine ⟨_, hs.append (a := "/*".toList ++ (text ++ "*/".toList)) ?_ ?_
          (fun _ => eq_lo_of_mem_kept) fun _ htrivia => ?_⟩
        · rw [htext, hcomment]
          simp
        · simp
          omega
        · rw [List.append_assoc]
          exact .block (not_infix_of_splitAtFirst? (by decide) hcut) htrivia
    · next htext =>
      split at h
      · obtain ⟨s, hs⟩ := ih h
        exact ⟨_, hs.line "-->".toList (by decide) rfl htext
          (fun _ => eq_lo_of_mem_kept) rfl⟩
      · obtain rfl := Option.some.inj h
        exact ⟨[], .refl (by simp [htext, isLineBreak])⟩
    · next c s' _ _ _ _ htext =>
      have hblank {next : Gap} (hc : isLineBreak c = true ∨ isGap c = true)
          (h : readGap owner fuel next = some stop) (hcomments : next.comments = start.comments)
          (hplace : next.place = ⟨start.place.position + 1, s'⟩) :
          ∃ s, start.Passes s stop := by
        obtain ⟨s, hs⟩ := ih h
        exact ⟨_, hs.append (a := [c]) (by rw [htext, hplace]; rfl) (by rw [hplace]; rfl)
          (fun _ hd => Or.inl (hcomments ▸ hd)) fun _ => .blank hc⟩
      split at h
      · next hc => exact hblank (Or.inl hc) h rfl rfl
      · next hbreak =>
        split at h
        · next hc => exact hblank (Or.inr hc) h rfl rfl
        · obtain rfl := Option.some.inj h
          exact ⟨[], .refl (by simpa [htext] using hbreak)⟩

end ReferencePages.TypeScript
