import ReferencePages.Proofs.Snippet.Asides.Basic
import ReferencePages.Proofs.Snippet.Broken

/-!
# Asides of broken lines

A line is broken at commas, bars and brackets that need not be of code. Nothing is lost where a line
break may stand, which is in code and in block comments (`BreaksAfter`): there the text before the
break and the one behind it have the asides of the whole (`BreaksAfter.cut`). What is added to the
pieces is put into code.
-/

namespace ReferencePages

variable {o : FormatOptions} {m : Mode} {s t b : List Char} {c : Char} {next : Option Char}

/-! ## Texts that can be broken off -/

/-- A line can be broken behind a text: a blank there is one of code or of a block comment. -/
def BreaksAfter (m : Mode) (t : List Char) : Prop :=
  endsIn m t ≠ .template ∧ (scan m (t ++ [' '])).getLast? = some ((endsIn m t).char ' ')

instance (m : Mode) (t : List Char) : Decidable (BreaksAfter m t) :=
  inferInstanceAs (Decidable (_ ∧ _))

theorem breaksAfter_of_readBack (h : ReadBack m (some ' ') (scan m t).reverse)
    (hend : endsIn m t ≠ .template) : BreaksAfter m t := by
  have hscan : scan m (t ++ [' ']) = scan m t ++ scan (endsIn m t) [' '] :=
    scan_append_of_readBack h
  refine ⟨hend, ?_⟩
  rw [hscan, scan_cons_of_isPlain rfl, scan, List.getLast?_concat]

namespace BreaksAfter

theorem readBack (h : BreaksAfter m t) (hnext : next.all (fun c => !joins c) = true) :
    ReadBack m next (scan m t).reverse := by
  obtain ⟨hmode, hlast⟩ := h
  rcases readBack_or_extends (c := ' ') rfl m t with hback | ⟨init, l, l', hext, -, -, hscan⟩
  · exact hback.of_apart hnext
  · rw [hscan, List.getLast?_concat] at hlast
    obtain rfl := Option.some.inj hlast
    generalize endsIn m t = m' at hmode hext
    cases m' with
    | code => cases hext
    | comment => cases hext
    | template => exact absurd rfl hmode

/-- A text is read back before anything with a plain character between them. -/
theorem readBack_concat (h : BreaksAfter m t) (hc : isPlain c = true) (next : Option Char) :
    ReadBack m next (scan m (t ++ [c])).reverse := by
  have hback : ReadBack m (some c) (scan m t).reverse := h.readBack (by simp [joins_of_isPlain hc])
  have hscan : scan m (t ++ [c]) = scan m t ++ scan (endsIn m t) [c] :=
    scan_append_of_readBack hback
  rw [hscan, scan_cons_of_isPlain hc, scan, List.reverse_concat]
  refine ⟨?_, ?_⟩
  · rw [List.reverse_reverse]
    exact Lexeme.reads_char hc _ next
  · rwa [Mode.text_char]

theorem concat (h : BreaksAfter m t) (hc : isPlain c = true) : BreaksAfter m (t ++ [c]) :=
  breaksAfter_of_readBack (h.readBack_concat hc _) (endsIn_concat hc m t ▸ h.1)

theorem append_of_isPlain (h : BreaksAfter m t) (hs : ∀ c ∈ s, isPlain c = true) :
    BreaksAfter m (t ++ s) := by
  induction s generalizing t with
  | nil => rwa [List.append_nil]
  | cons c s ih =>
    obtain ⟨hc, hs⟩ := List.forall_mem_cons.1 hs
    rw [← List.singleton_append, ← List.append_assoc]
    exact ih (h.concat hc) hs

/-- A text behind one that is read back before anything. -/
theorem append (h : BreaksAfter (endsIn m t) s)
    (ht : ∀ next, ReadBack m next (scan m t).reverse) : BreaksAfter m (t ++ s) := by
  obtain ⟨hend, hlast⟩ := h
  have hends := endsIn_append (s := s) (ht _)
  refine ⟨by rwa [hends], ?_⟩
  rw [List.append_assoc, scan_append_of_readBack (ht _), hends, List.getLast?_append, hlast]
  rfl

theorem prepend (h : BreaksAfter m t) (hs : ∀ c ∈ s, isPlain c = true) :
    BreaksAfter m (s ++ t) := by
  have hscan := scan_of_isPlain hs m
  have hend : endsIn m s = m := by rw [endsIn, hscan, modeAfterAll_map_char]
  exact append (hend.symm ▸ h) fun next => hscan ▸ readBack_of_isPlain hs m next

/-- Blanks around a text do not matter. -/
theorem of_trim (h : BreaksAfter m (trim t)) : BreaksAfter m t := by
  obtain ⟨b, b', hb, hb', ht⟩ := exists_eq_append_trim t
  rw [ht]
  exact (h.prepend fun c hc => isPlain_of_isBlank (hb c hc)).append_of_isPlain
    fun c hc => isPlain_of_isBlank (hb' c hc)

/-! ## What stands behind such a text -/

theorem asides_append (h : BreaksAfter m t) (hs : s.head?.all (fun c => !joins c) = true) :
    asides m (t ++ s) = asides m t ++ asides (endsIn m t) s :=
  ReferencePages.asides_append (h.readBack hs)

theorem endsIn_append (h : BreaksAfter m t) (hs : s.head?.all (fun c => !joins c) = true) :
    endsIn m (t ++ s) = endsIn (endsIn m t) s :=
  ReferencePages.endsIn_append (h.readBack hs)

/-- Characters of code behind a text. -/
theorem alike_append (h : BreaksAfter m t) (hend : endsIn m t = .code)
    (hs : ∀ c ∈ s, isPlain c = true) : Alike m (t ++ s) t := by
  refine ⟨?_, endsIn_append_of_isPlain hs m t⟩
  have hhead : s.head?.all (fun c => !joins c) = true := by
    cases s with
    | nil => rfl
    | cons c s => simp [joins_of_isPlain (hs c List.mem_cons_self)]
  rw [h.asides_append hhead, hend, asides, asides, scan_of_isPlain hs, List.filterMap_map]
  have hnone : s.filterMap (Lexeme.aside? ∘ Mode.code.char) = [] :=
    List.filterMap_eq_nil_iff.2 fun _ _ => rfl
  rw [hnone, List.append_nil]

/-- The same character behind texts that are alike. -/
theorem alike_concat (h : BreaksAfter m s) (h' : BreaksAfter m t) (halike : Alike m s t)
    (hc : isPlain c = true) : Alike m (s ++ [c]) (t ++ [c]) := by
  have hjoins : (some c).all (fun c => !joins c) = true := by simp [joins_of_isPlain hc]
  refine ⟨?_, ?_⟩
  · rw [h.asides_append (s := [c]) hjoins, h'.asides_append (s := [c]) hjoins, halike.asides_eq,
      halike.endsIn_eq]
  · rw [endsIn_concat hc, endsIn_concat hc, halike.endsIn_eq]

/-- A text that can be broken off, without the blanks around it and behind others. -/
theorem alike_trim (h : BreaksAfter m (trim t)) (hm : m ≠ .template)
    (hb : ∀ c ∈ b, isBlank c = true) : Alike m t (b ++ trim t) := by
  have hend : endsIn m t ≠ .template := endsIn_trim hm t ▸ h.1
  exact (ReferencePages.alike_trim hm hend).trans (ReferencePages.alike_append hb hm _).symm

end BreaksAfter

/-! ## Cut lines -/

/-- A line that is cut between lexemes outside of templates. -/
theorem alikeLines_cut (h : ReadBack m s.head? (scan m t).reverse)
    (hend : endsIn m t ≠ .template) : AlikeLines m [t ++ s] [t, s] := by
  constructor
  · simp only [lineAsides, asides_append h, lineBreak_of_ne hend, List.append_nil, List.nil_append,
      List.append_assoc]
  · exact endsIn_append h

/-- A line that is cut behind a plain character. -/
theorem BreaksAfter.cut (h : BreaksAfter m t) (hc : isPlain c = true) (s : List Char) :
    AlikeLines m [t ++ c :: s] [t ++ [c], s] := by
  rw [List.append_cons]
  exact alikeLines_cut (h.readBack_concat hc _) (endsIn_concat hc m t ▸ h.1)

/-- Each of some parts can be broken off without the blanks around it. -/
def BreakOff (m : Mode) : List (List Char) → Prop
  | [] => True
  | part :: rest => BreaksAfter m (trim part) ∧ BreakOff (endsIn m part) rest

instance decidableBreakOff : ∀ (m : Mode) (parts : List (List Char)), Decidable (BreakOff m parts)
  | _, [] => isTrue trivial
  | m, part :: rest =>
    have := decidableBreakOff (endsIn m part) rest
    inferInstanceAs (Decidable (_ ∧ _))

theorem joinWith_char_cons (c : Char) (part part' : List Char) (parts : List (List Char)) :
    joinWith [c] (part :: part' :: parts) = part ++ c :: joinWith [c] (part' :: parts) := by
  rw [joinWith_cons_cons, List.append_assoc]
  rfl

/-- Parts that can be broken off can be so with separators between them. -/
theorem BreakOff.joinWith {parts : List (List Char)} (h : BreakOff m parts) (hm : m ≠ .template)
    (hc : isPlain c = true) (hne : parts ≠ []) : BreaksAfter m (joinWith [c] parts) := by
  induction parts generalizing m with
  | nil => exact absurd rfl hne
  | cons part parts ih =>
    obtain ⟨hpart, hparts⟩ := h
    have hpart := hpart.of_trim
    cases parts with
    | nil =>
      rw [ReferencePages.joinWith, List.intercalate_singleton]
      exact hpart
    | cons part' parts =>
      rw [joinWith_char_cons, List.append_cons]
      refine BreaksAfter.append ?_ (hpart.readBack_concat hc)
      rw [endsIn_concat hc]
      exact ih hparts hpart.1 (List.cons_ne_nil _ _)

end ReferencePages
