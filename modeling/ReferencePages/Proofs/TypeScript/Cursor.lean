import ReferencePages.Proofs.TypeScript.Gap
import ReferencePages.Proofs.TypeScript.Lexeme
import ReferencePages.TypeScript.Parser

/-!
# Cursors of a source

A cursor of a source (`Cursor.IsOf`) has nothing but trivia between the token before and the next
one, and has as text what stands in the source from there. Wherever a cursor leads, it is one of
the same source, and it never goes back (`Cursor.Leads.isOf`).
-/

namespace ReferencePages.TypeScript

variable {source : List Char}

/-! ## Spans -/

theorem slice_of_drop_eq {s rest : List Char} {lo : Nat} (h : source.drop lo = s ++ rest) :
    Span.slice ⟨lo, lo + s.length⟩ source = s := by
  rw [Span.slice, h, Nat.add_sub_cancel_left, List.take_left]

/-- Nothing but trivia stands between two positions of a source. -/
structure IsGapOf (source : List Char) (lo hi : Nat) : Prop where
  le : lo ≤ hi
  isTrivia : IsTrivia (Span.slice ⟨lo, hi⟩ source)

/-! ## Tokens and cursors -/

/-- A token of a source, with nothing but trivia between a position and it. -/
structure Token.IsBehind (token : Token) (source : List Char) (start : Nat) : Prop where
  gap : IsGapOf source start token.span.lo
  lo_le : token.span.lo ≤ token.span.hi
  hi_le : token.span.hi ≤ source.length
  comments : ∀ c ∈ token.comments, start ≤ c.lo ∧ c.lo ≤ token.span.lo
  mark : ∀ text, token.kind = .punct text →
    text.toList <+: source.drop token.span.lo ∧ token.span.hi = token.span.lo + text.length
  word : ∀ name, token.kind = .word name false → token.span.lo + name.length ≤ token.span.hi

theorem isBehind_of_cutOff {lexeme : Lexeme} {start lo : Nat} {comments : List Comment}
    (newline : Bool) (hgap : IsGapOf source start lo) (hlo : lo ≤ source.length)
    (hcut : lexeme.CutOff (source.drop lo))
    (hcomments : ∀ c ∈ comments, start ≤ c.lo ∧ c.lo ≤ lo) :
    Token.IsBehind ⟨lexeme.kind, ⟨lo, lo + lexeme.length⟩, newline, comments⟩ source start where
  gap := hgap
  lo_le := Nat.le_add_right _ _
  hi_le := by
    have hle := hcut.isLeft.le_length
    rw [List.length_drop] at hle
    dsimp only
    omega
  comments := hcomments
  mark text htext := (hcut.mark text htext).imp_right (congrArg (lo + ·))
  word name hname := Nat.add_le_add_left (hcut.word name hname) lo

/-- A token that is read stands behind trivia, and the text is cut before and behind it. -/
theorem isBehind_of_readToken {owner : Owner} {start : Gap} {reading : Reading}
    (hposition : start.place.position ≤ source.length)
    (htext : start.place.text = source.drop start.place.position) (hstart : start.comments = [])
    (h : readToken owner source.length start = some reading) :
    reading.token.IsBehind source start.place.position ∧
      reading.here = source.drop reading.token.span.lo ∧
      reading.rest = source.drop reading.token.span.hi := by
  obtain ⟨_, _, ⟨position, behind⟩⟩ := start
  dsimp only at hposition htext hstart
  unfold readToken at h
  dsimp only at h
  split at h
  · -- A comment without an end is no token, and neither is what follows.
    obtain rfl := Option.some.inj h
    have hhi : position + behind.length = source.length := by
      rw [htext, List.length_drop]
      omega
    refine ⟨⟨⟨le_rfl, ?_⟩, Nat.le_add_right _ _, hhi.le, nofun, nofun, nofun⟩, htext, ?_⟩
    · rw [Span.slice, Nat.sub_self, List.take_zero]
      exact .nil
    · exact (List.drop_eq_nil_of_le hhi.ge).symm
  · next newline comments lo text hgap =>
    obtain ⟨s, hpasses⟩ := exists_passes_of_readGap hgap
    have hlo : lo = position + s.length := hpasses.position_eq
    have hsource : source.drop position = s ++ text := htext ▸ hpasses.text_eq
    have hhere : text = source.drop lo := by
      rw [hlo, ← List.drop_drop, hsource, List.drop_left]
    split at h
    · cases h
    · next c rest =>
      obtain rfl := Option.some.inj h
      have hcut := cutOff_getD (source.length - position + 1) c rest
      have hlt : lo < source.length := by
        rw [← Nat.sub_pos_iff_lt, ← List.length_drop, ← hhere]
        exact Nat.succ_pos _
      refine ⟨isBehind_of_cutOff _ ⟨?_, ?_⟩ hlt.le (hhere ▸ hcut) fun comment hcomment => ?_,
        hhere, ?_⟩
      · exact hlo ▸ Nat.le_add_right position s.length
      · rw [hlo, slice_of_drop_eq hsource]
        exact hpasses.isTrivia (List.cons_ne_nil c rest)
      · rcases hpasses.comments comment (List.mem_reverse.1 hcomment) with hmem | hmem
        · rw [hstart] at hmem
          cases hmem
        · exact hmem
      · rw [hcut.isLeft.eq_drop, hhere, List.drop_drop]

namespace Cursor

/-- A cursor at a place of a source. -/
structure IsOf (c : Cursor) (source : List Char) : Prop where
  size_eq : c.size = source.length
  last_le : c.last ≤ c.lo
  here_eq : c.here = source.drop c.lo
  rest_eq : c.rest = source.drop c.hi
  token : ∀ t, c.token = some t → t.IsBehind source c.last

variable {c d : Cursor} {token : Token} {owner : Owner} {start : Gap}

@[simp] theorem last_ofGap (size : Nat) : (ofGap size owner start).last = start.place.position := by
  unfold ofGap
  split <;> rfl

theorem isOf_ofGap (hposition : start.place.position ≤ source.length)
    (htext : start.place.text = source.drop start.place.position) (hstart : start.comments = []) :
    (ofGap source.length owner start).IsOf source := by
  unfold ofGap
  split
  · next reading hreading =>
    obtain ⟨htoken, hhere, hrest⟩ := isBehind_of_readToken hposition htext hstart hreading
    exact ⟨rfl, htoken.gap.le, hhere, hrest, fun t ht => Option.some.inj ht ▸ htoken⟩
  · have hnil : [] = source.drop source.length := List.drop_length.symm
    exact ⟨rfl, hposition, hnil, hnil, nofun⟩

theorem lo_of_token (h : c.token = some token) : c.lo = token.span.lo := by rw [lo, h]; rfl

theorem hi_of_token (h : c.token = some token) : c.hi = token.span.hi := by rw [hi, h]; rfl

namespace IsOf

theorem lo_le (h : c.IsOf source) : c.lo ≤ source.length := by
  rcases htoken : c.token with _ | token
  · rw [lo, htoken, ← h.size_eq]
    exact le_rfl
  · rw [lo_of_token htoken]
    exact (h.token token htoken).lo_le.trans (h.token token htoken).hi_le

theorem behind (h : c.IsOf source) (htoken : c.token = some token) :
    (c.behind token).IsOf source := by
  rw [Cursor.behind, h.size_eq]
  refine isOf_ofGap (h.token token htoken).hi_le ?_ rfl
  rw [← hi_of_token htoken]
  exact h.rest_eq

theorem goOn (h : c.IsOf source) (owns : Bool) (place : Place) :
    (c.goOn owns place).IsOf source := by
  rw [Cursor.goOn, h.size_eq]
  refine isOf_ofGap (max_le h.lo_le (min_le_right _ _)) ?_ rfl
  dsimp only
  rw [h.here_eq, List.drop_drop, Nat.add_sub_cancel' (le_max_left _ _)]

theorem spoil (h : c.IsOf source) : c.spoil.IsOf source := by
  obtain ⟨size, last, token, here, rest⟩ := c
  cases token with
  | none => exact h
  | some token =>
    have ht := h.token token rfl
    exact ⟨h.size_eq, h.last_le, h.here_eq, h.rest_eq, fun t htoken => Option.some.inj htoken ▸
      ⟨ht.gap, ht.lo_le, ht.hi_le, ht.comments, nofun, nofun⟩⟩

end IsOf

/-- A cursor leads on in its source, and never back. -/
theorem Leads.isOf (h : c.Leads d) (hc : c.IsOf source) : d.IsOf source ∧ c.last ≤ d.last := by
  induction h with
  | refl => exact ⟨hc, le_rfl⟩
  | @read c token htoken =>
    refine ⟨hc.behind htoken, ?_⟩
    rw [Cursor.behind, last_ofGap]
    exact (hc.token token htoken).gap.le.trans (hc.token token htoken).lo_le
  | goOn c owns place =>
    refine ⟨hc.goOn owns place, ?_⟩
    rw [Cursor.goOn, last_ofGap]
    exact hc.last_le.trans (le_max_left _ _)
  | spoil c => exact ⟨hc.spoil, le_rfl⟩
  | trans _ _ ih ih' =>
    obtain ⟨hd, hle⟩ := ih hc
    exact (ih' hd).imp_right hle.trans

theorem isOf_ofSource (source : List Char) : (ofSource source).IsOf source := by
  have hle : interpreterLine source ≤ source.length := by
    unfold interpreterLine
    split
    · exact (List.takeWhile_prefix _).length_le
    · exact Nat.zero_le _
  refine isOf_ofGap ?_ ?_ rfl
  · exact (Nat.zero_add _).trans_le hle
  · exact congrArg (source.drop ·) (Nat.zero_add _).symm

end Cursor

end ReferencePages.TypeScript
