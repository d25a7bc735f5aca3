import Mathlib.Data.List.DropRight
import Mathlib.Data.List.TakeWhile
import ReferencePages.Text.Blank

/-!
# Trimmed texts

Trimming stops at the first character that is not blank. So a text with such a character at an
end is not trimmed there, and what stands on the other side of it stays as it is. Blanks in front
of a text change neither how it is trimmed (`trim_append_of_blank`) nor what without blanks stands
in it (`infix_append_of_blank`), and trimming takes no other characters (`filter_trim`).
-/

namespace ReferencePages

variable {s t : List Char} {c : Char}

theorem isSuffix_trimStart (s : List Char) : trimStart s <:+ s :=
  List.dropWhile_suffix isBlank

theorem isPrefix_trimEnd (s : List Char) : trimEnd s <+: s :=
  List.rdropWhile_prefix isBlank s

theorem infix_trim (s : List Char) : trim s <:+: s :=
  (isPrefix_trimEnd _).isInfix.trans (isSuffix_trimStart s).isInfix

theorem trim_subset (s : List Char) : trim s ⊆ s :=
  (infix_trim s).subset

theorem trimStart_eq_self_iff : trimStart s = s ↔ ∀ c ∈ s.head?, isBlank c = false := by
  cases s <;> simp [trimStart]

theorem trimStart_trimStart (s : List Char) : trimStart (trimStart s) = trimStart s :=
  List.dropWhile_idempotent isBlank s

theorem trimEnd_eq_self_iff : trimEnd s = s ↔ ∀ c ∈ s.getLast?, isBlank c = false := by
  refine List.rdropWhile_eq_self_iff.trans ?_
  cases s using List.reverseRecOn <;> simp

theorem trim_eq_self_iff : trim s = s ↔ trimStart s = s ∧ trimEnd s = s := by
  refine ⟨fun h => ?_, fun ⟨hstart, hend⟩ => by rw [trim, hstart, hend]⟩
  have hstart : trimStart s = s := by
    refine (isSuffix_trimStart s).eq_of_length_le ?_
    calc s.length = (trim s).length := by rw [h]
      _ ≤ (trimStart s).length := (isPrefix_trimEnd _).length_le
  exact ⟨hstart, by rwa [trim, hstart] at h⟩

theorem trim_eq_self_iff_forall :
    trim s = s ↔ (∀ c ∈ s.head?, isBlank c = false) ∧ ∀ c ∈ s.getLast?, isBlank c = false := by
  rw [trim_eq_self_iff, trimStart_eq_self_iff, trimEnd_eq_self_iff]

theorem trimEnd_concat (hc : isBlank c = false) (s : List Char) :
    trimEnd (s ++ [c]) = s ++ [c] :=
  trimEnd_eq_self_iff.2 fun d hd => by
    rw [List.getLast?_concat] at hd
    exact Option.some.inj hd ▸ hc

/-- Trimming the start of a text leaves its end trimmed. -/
theorem trimEnd_trimStart (h : trimEnd s = s) : trimEnd (trimStart s) = trimStart s := by
  have happend : s.takeWhile isBlank ++ trimStart s = s := List.takeWhile_append_dropWhile
  rw [trimEnd_eq_self_iff] at h ⊢
  intro c hc
  have hne := List.ne_nil_of_mem (List.mem_of_getLast? hc)
  exact h c (by rwa [← happend, List.getLast?_append_of_ne_nil _ hne])

theorem trim_concat (hc : isBlank c = true) : trim (s ++ [c]) = trim s := by
  rw [trim, trim, trimStart, List.dropWhile_append]
  split
  · next h => simp [trimStart, List.isEmpty_iff.1 h, hc]
  · exact List.rdropWhile_concat_pos isBlank _ c hc

/-- What stands before a character that stays is not dropped from the end. -/
theorem dropEndWhile_append_cons {p : Char → Bool} (hc : p c = false) :
    dropEndWhile p (s ++ c :: t) = s ++ c :: dropEndWhile p t := by
  rw [dropEndWhile, List.reverse_append, List.reverse_cons, List.append_assoc,
    List.singleton_append, List.dropWhile_append]
  split
  · next h =>
    rw [List.isEmpty_iff] at h
    simp [hc, dropEndWhile, h]
  · simp [dropEndWhile]

/-- A text is trimmed to start with its first character that is not blank. -/
theorem head?_trim (s : List Char) : (trim s).head? = s.find? fun c => !isBlank c := by
  have hstart : (trimStart s).head? = s.find? fun c => !isBlank c := by
    rw [List.find?_eq_head?_dropWhile_not]
    simp only [Bool.not_not]
    rfl
  rw [← hstart]
  cases h : trimStart s with
  | nil => rw [trim, h]; rfl
  | cons c t =>
    have hc : isBlank c = false :=
      trimStart_eq_self_iff.1 (trimStart_trimStart s) c (by rw [h]; rfl)
    have hend : trimEnd (c :: t) = c :: trimEnd t := dropEndWhile_append_cons (s := []) hc
    rw [trim, h, hend]
    rfl

theorem trim_trim (s : List Char) : trim (trim s) = trim s := by
  have hstart : trimStart (trim s) = trim s := by
    refine trimStart_eq_self_iff.2 fun c hc => ?_
    rw [head?_trim] at hc
    simpa using List.find?_some hc
  have hend : trimEnd (trim s) = trim s := List.rdropWhile_idempotent isBlank (trimStart s)
  exact trim_eq_self_iff.2 ⟨hstart, hend⟩

theorem trim_eq_nil_iff : trim s = [] ↔ ∀ c ∈ s, isBlank c = true := by
  have hstart : trim s = [] ↔ trimStart s = [] := by
    refine ⟨fun h => ?_, fun h => by rw [trim, h]; rfl⟩
    have hblank : ∀ c ∈ trimStart s, isBlank c = true := List.rdropWhile_eq_nil_iff.1 h
    rw [← trimStart_trimStart]
    exact List.dropWhile_eq_nil_iff.2 hblank
  rw [hstart]
  exact List.dropWhile_eq_nil_iff

theorem trim_ne_nil_of_mem (h : c ∈ s) (hc : isBlank c = false) : trim s ≠ [] :=
  fun hnil => nomatch hc.symm.trans (trim_eq_nil_iff.1 hnil c h)

theorem trim_append_of_blank {pre : List Char} (h : ∀ c ∈ pre, isBlank c = true) :
    trim (pre ++ s) = trim s := by
  rw [trim, trim, trimStart, trimStart, List.dropWhile_append_of_pos h]

theorem trim_cons_of_blank (hc : isBlank c = true) : trim (c :: s) = trim s :=
  trim_append_of_blank (List.forall_mem_singleton.2 hc)

theorem trim_append_blank {post : List Char} (h : ∀ c ∈ post, isBlank c = true) :
    trim (s ++ post) = trim s := by
  induction post using List.reverseRecOn with
  | nil => rw [List.append_nil]
  | append_singleton post c ih =>
    rw [← List.append_assoc, trim_concat (h c (by simp)),
      ih fun d hd => h d (List.mem_append_left _ hd)]

/-- Blanks in front of a trimmed text are told from it. -/
theorem takeWhile_trimStart_of_blank {pre text : List Char} (hpre : ∀ c ∈ pre, isBlank c = true)
    (htrim : trim text = text) :
    (pre ++ text).takeWhile isBlank = pre ∧ trimStart (pre ++ text) = text := by
  have hstart : trimStart text = text := (trim_eq_self_iff.1 htrim).1
  have htake : text.takeWhile isBlank = [] := by
    have happend : text.takeWhile isBlank ++ trimStart text = text :=
      List.takeWhile_append_dropWhile
    rw [hstart] at happend
    exact List.append_left_eq_self.1 happend
  refine ⟨?_, ?_⟩
  · rw [List.takeWhile_append_of_pos hpre, htake, List.append_nil]
  · rw [trimStart, List.dropWhile_append_of_pos hpre]
    exact hstart

theorem exists_eq_trimEnd_append (s : List Char) :
    ∃ b, (∀ c ∈ b, isBlank c = true) ∧ s = trimEnd s ++ b := by
  refine ⟨(s.reverse.takeWhile isBlank).reverse,
    fun c hc => List.mem_takeWhile_imp (List.mem_reverse.1 hc), ?_⟩
  rw [trimEnd, dropEndWhile, ← List.reverse_append, List.takeWhile_append_dropWhile,
    List.reverse_reverse]

/-- A text is its trimmed one between blanks. -/
theorem exists_eq_append_trim (s : List Char) :
    ∃ b b', (∀ c ∈ b, isBlank c = true) ∧ (∀ c ∈ b', isBlank c = true) ∧ s = b ++ trim s ++ b' := by
  obtain ⟨b', hb', hend⟩ := exists_eq_trimEnd_append (trimStart s)
  have hstart : s.takeWhile isBlank ++ trimStart s = s := List.takeWhile_append_dropWhile
  refine ⟨s.takeWhile isBlank, b', fun c hc => List.mem_takeWhile_imp hc, hb', ?_⟩
  rw [List.append_assoc, trim, ← hend, hstart]

/-- What has no blanks stands in a text wherever it does behind some more. -/
theorem infix_append_of_blank {p pre : List Char} (hpre : ∀ c ∈ pre, isBlank c = true)
    (hp : ∀ c ∈ p, isBlank c = false) (h : p <:+: pre ++ s) : p <:+: s := by
  induction pre with
  | nil => exact h
  | cons b pre ih =>
    obtain ⟨hb, hpre⟩ := List.forall_mem_cons.1 hpre
    rcases List.infix_cons_iff.1 h with hstart | hrest
    · cases p with
      | nil => exact List.nil_infix
      | cons c p =>
        have hc := hp c List.mem_cons_self
        rw [(List.cons_prefix_cons.1 hstart).1, hb] at hc
        cases hc
    · exact ih hpre hrest

theorem infix_trimStart_iff {p : List Char} (hp : ∀ c ∈ p, isBlank c = false) :
    p <:+: trimStart s ↔ p <:+: s := by
  refine ⟨fun h => h.trans (isSuffix_trimStart s).isInfix, fun h => ?_⟩
  rw [← List.takeWhile_append_dropWhile (p := isBlank) (l := s)] at h
  exact infix_append_of_blank (fun _ hc => List.mem_takeWhile_imp hc) hp h

theorem suffix_trimStart_iff {p : List Char} (hp : ∀ c ∈ p, isBlank c = false) :
    p <:+ trimStart s ↔ p <:+ s := by
  refine ⟨fun h => h.trans (isSuffix_trimStart s), fun h => ?_⟩
  rcases List.suffix_or_suffix_of_suffix h (isSuffix_trimStart s) with h' | ⟨b, rfl⟩
  · exact h'
  · -- What of the blanks before the text ends in `p` is empty.
    obtain ⟨a, ha⟩ := h
    rw [← List.append_assoc] at ha
    have hb : a ++ b = s.takeWhile isBlank := List.append_cancel_right
      (ha.trans (List.takeWhile_append_dropWhile (p := isBlank) (l := s)).symm)
    obtain rfl : b = [] := List.eq_nil_iff_forall_not_mem.2 fun c hc => by
      have hblank : isBlank c = true :=
        List.mem_takeWhile_imp (hb ▸ List.mem_append_right a hc)
      rw [hp c (List.mem_append_left _ hc)] at hblank
      cases hblank
    exact List.suffix_refl _

theorem suffix_of_append_blank {p pre : List Char} (hpre : ∀ c ∈ pre, isBlank c = true)
    (hp : ∀ c ∈ p, isBlank c = false) (h : p <:+ pre ++ s) : p <:+ s := by
  have hstart : trimStart (pre ++ s) = trimStart s := List.dropWhile_append_of_pos hpre
  rwa [← suffix_trimStart_iff hp, hstart, suffix_trimStart_iff hp] at h

/-! ## Characters that are not blank -/

section

variable {p : Char → Bool} (hp : ∀ c, isBlank c = true → p c = false)
include hp

theorem filter_eq_nil_of_blank (h : ∀ c ∈ s, isBlank c = true) : s.filter p = [] :=
  List.filter_eq_nil_iff.2 fun c hc => by simp [hp c (h c hc)]

theorem filter_takeWhile_isBlank (s : List Char) : (s.takeWhile isBlank).filter p = [] :=
  filter_eq_nil_of_blank hp fun _ hc => List.mem_takeWhile_imp hc

theorem filter_trimStart (s : List Char) : (trimStart s).filter p = s.filter p := by
  conv => rhs; rw [← List.takeWhile_append_dropWhile (p := isBlank) (l := s)]
  rw [List.filter_append, filter_takeWhile_isBlank hp, List.nil_append]
  rfl

theorem filter_trimEnd (s : List Char) : (trimEnd s).filter p = s.filter p := by
  obtain ⟨b, hb, hs⟩ := exists_eq_trimEnd_append s
  conv => rhs; rw [hs]
  rw [List.filter_append, filter_eq_nil_of_blank hp hb, List.append_nil]

theorem filter_trim (s : List Char) : (trim s).filter p = s.filter p := by
  rw [trim, filter_trimEnd hp, filter_trimStart hp]

end

end ReferencePages
