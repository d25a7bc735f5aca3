import ReferencePages.Proofs.Snippet.Marks
import ReferencePages.Proofs.Snippet.Requoting

/-!
# Cuts and literals

A line is scanned with a backslash escaping the next character, and cut with a quote escaped by the
backslash before it. Both see the same literals unless one ends in an escaped backslash: then its
last quote is passed over, and the literal goes on for the cuts up to the next such quote. If there
is none, no cut follows. So no cut is within a literal (`not_within_of_cut`) where the quote of such
a literal does not come again.
-/

namespace ReferencePages

open Nesting

variable {l : Lexeme} {ls : List Lexeme} {n n' : Nesting} {q c sep target : Char}
  {s t left right inner close inside : List Char}

/-! ## Places within a literal -/

/-- A text that ends within a literal of some lexemes, behind its first quote and before its end. -/
inductive Within : List Lexeme → List Char → Prop
  | here {s t : List Char} {ls : List Lexeme} (hs : s ≠ []) (ht : t ≠ []) :
      Within (.literal (s ++ t) :: ls) s
  | behind {l : Lexeme} {ls : List Lexeme} {left : List Char} (h : Within ls left) :
      Within (l :: ls) (l.text ++ left)

theorem Within.isPrefix (h : Within ls left) : left <+: ls.flatMap Lexeme.text := by
  induction h with
  | @here s t ls =>
    rw [List.flatMap_cons, Lexeme.text, List.append_assoc]
    exact List.prefix_append s _
  | behind h ih =>
    rw [List.flatMap_cons]
    exact (List.prefix_append_right_inj _).2 ih

theorem Within.ne_nil (h : Within ls left) : left ≠ [] := by
  induction h with
  | here hs ht => exact hs
  | behind h ih => exact List.append_ne_nil_of_right_ne_nil _ ih

theorem Within.append (ks : List Lexeme) (h : Within ls left) :
    Within (ks ++ ls) (ks.flatMap Lexeme.text ++ left) := by
  induction ks with
  | nil => exact h
  | cons k ks ih =>
    rw [List.flatMap_cons, List.append_assoc]
    exact .behind ih

/-! ## What a quote means to the cuts -/

namespace Nesting

/-- The literal around a place and the character before it, which tell what a quote means there. -/
def quoting (n : Nesting) : Option Char × Char := (n.quote, n.previous)

theorem quoting_step_congr (h : n.quoting = n'.quoting) (angles angles' : Bool) (c : Char) :
    (n.step angles c).quoting = (n'.step angles' c).quoting := by
  obtain ⟨depth, quote, previous⟩ := n
  obtain ⟨depth', quote', previous'⟩ := n'
  obtain ⟨rfl, rfl⟩ := Prod.mk.inj h
  cases quote with
  | some q => rfl
  | none =>
    by_cases hc : c = '\'' ∨ c = '"' ∨ c = '`'
    · simp only [step, if_pos hc]
      rfl
    · simp only [step, if_neg hc]
      repeat' split
      all_goals rfl

/-- Outside literals, a character that is no quote. -/
theorem quoting_step_of_not_quote (hn : n.quote = none) (hc : ¬(c = '\'' ∨ c = '"' ∨ c = '`'))
    (angles : Bool) : (n.step angles c).quoting = (none, c) := by
  obtain ⟨depth, quote, previous⟩ := n
  obtain rfl : quote = none := hn
  simp only [step, if_neg hc]
  repeat' split
  all_goals rfl

theorem quote_run_of_not_quote (hn : n.quote = none)
    (hs : ∀ c ∈ s, ¬(c = '\'' ∨ c = '"' ∨ c = '`')) : (n.run s).quote = none := by
  induction s generalizing n with
  | nil => exact hn
  | cons c s ih =>
    obtain ⟨hc, hs⟩ := List.forall_mem_cons.1 hs
    exact ih (congrArg Prod.fst (quoting_step_of_not_quote hn hc true)) hs

/-- A literal goes on where its quote does not come. -/
theorem quote_run_of_not_mem (hn : n.quote = some q) (hs : q ∉ s) : (n.run s).quote = some q := by
  induction s generalizing n with
  | nil => exact hn
  | cons c s ih =>
    obtain ⟨hc, hs⟩ := not_or.1 (List.mem_cons.not.1 hs)
    rw [run_cons, step_of_quote hn fun h => absurd h.symm hc]
    exact ih hn hs

/-! ## Where the cuts are -/

theorem quote_run_of_cutClose? (h : cutClose? n s = some (inner, close))
    (hn : n.quoting = n'.quoting) : (n'.run inner).quote = none := by
  induction s generalizing n n' inner with
  | nil => cases h
  | cons c s ih =>
    unfold cutClose? at h
    dsimp only at h
    split at h
    · next hcut =>
      cases h
      exact (congrArg Prod.fst hn).symm.trans hcut.1
    · obtain ⟨⟨inner', close'⟩, hcut, hpair⟩ := Option.map_eq_some_iff.1 h
      cases hpair
      rw [run_cons]
      exact ih hcut (quoting_step_congr hn false true c)

/-- Before each separator that a text is split at. -/
theorem quote_run_of_splitTop {part : List Char} {parts rest : List (List Char)}
    (hsep : ¬(sep = '\'' ∨ sep = '"' ∨ sep = '`')) (h : splitTop sep n s = parts ++ part :: rest)
    (hne : parts ≠ []) (hn : n.quoting = n'.quoting) :
    (n'.run (joinWith [sep] parts)).quote = none := by
  induction s generalizing n n' parts with
  | nil =>
    obtain ⟨p, parts, rfl⟩ := List.exists_cons_of_ne_nil hne
    cases parts <;> cases h
  | cons c s ih =>
    obtain ⟨p, parts, rfl⟩ := List.exists_cons_of_ne_nil hne
    unfold splitTop at h
    split at h
    · next hcut =>
      obtain ⟨rfl, htop⟩ := hcut
      obtain ⟨rfl, hrest⟩ := List.cons.inj h
      have hquote : n'.quote = none := (congrArg Prod.fst hn).symm.trans (isTop_iff.1 htop).2
      by_cases hparts : parts = []
      · subst hparts
        exact hquote
      · rw [joinWith, List.intercalate_cons_of_ne_nil hparts]
        refine ih hrest hparts ?_
        rw [quoting_step_of_not_quote hquote hsep]
        exact congrArg (·, c) (isTop_iff.1 htop).2
    · obtain ⟨first, others, hsplit⟩ :=
        List.exists_cons_of_ne_nil (splitTop_ne_nil sep (n.step true c) s)
      rw [hsplit, List.modifyHead_cons, List.cons_append] at h
      obtain ⟨rfl, hothers⟩ := List.cons.inj h
      have hjoin :
          joinWith [sep] ((c :: first) :: parts) = c :: joinWith [sep] (first :: parts) := by
        cases parts <;> rfl
      rw [hjoin, run_cons]
      exact ih (by rw [hsplit, hothers]; rfl) (List.cons_ne_nil _ _)
        (quoting_step_congr hn true true c)

end Nesting

/-! ## Lines that are cut as they are scanned -/

/-- A lexeme of a line without comments and templates whose literals are closed. -/
def Lexeme.IsCode : Lexeme → Prop
  | .code _ => True
  | .arrow => True
  | .literal s => ∃ q inside, s = q :: (inside ++ [q]) ∧ ClosedLiteral q inside
  | _ => False

/-- The quote of a literal that ends in a backslash does not come in the text behind it. -/
def Lexeme.EndsBefore (rest : List Char) : Lexeme → Prop
  | .literal (q :: a) => a.dropLast.getLast? = some '\\' → q ∉ rest
  | _ => True

instance (rest : List Char) (l : Lexeme) : Decidable (l.EndsBefore rest) :=
  match l with
  | .literal (q :: a) => inferInstanceAs (Decidable (a.dropLast.getLast? = some '\\' → q ∉ rest))
  | .literal [] | .code _ | .arrow | .lineComment _ | .openComment | .commentChar _ | .closeComment
  | .openTemplate | .templateChar _ | .templateEscape _ | .closeTemplate => isTrue trivial

/-- The quote of a literal that ends in a backslash does not come again. -/
def EndsOnce : List Lexeme → Prop
  | [] => True
  | l :: ls => l.EndsBefore (ls.flatMap Lexeme.text) ∧ EndsOnce ls

instance decidableEndsOnce : ∀ ls : List Lexeme, Decidable (EndsOnce ls)
  | [] => isTrue trivial
  | _ :: ls =>
    have := decidableEndsOnce ls
    inferInstanceAs (Decidable (_ ∧ _))

/-- Lexemes whose literals are those of the cuts. -/
structure Legible (ls : List Lexeme) : Prop where
  reads : ∀ l ∈ ls, ∃ m next, l.Reads m next
  code : ∀ l ∈ ls, l.IsCode
  ends : EndsOnce ls

theorem Legible.tail (h : Legible (l :: ls)) : Legible ls :=
  ⟨(List.forall_mem_cons.1 h.reads).2, (List.forall_mem_cons.1 h.code).2, h.ends.2⟩

theorem Legible.exists_enclosed (h : Legible (.literal s :: ls)) :
    ∃ q inside, s = q :: (inside ++ [q]) ∧ IsQuote q ∧ Enclosed q inside := by
  obtain ⟨m, next, hreads⟩ := h.reads _ List.mem_cons_self
  obtain ⟨q, inside, rfl, hclosed⟩ := h.code _ List.mem_cons_self
  obtain ⟨-, q', a, closed, heq, hq, -⟩ := hreads
  obtain ⟨rfl, -⟩ := List.cons.inj heq
  exact ⟨q, inside, rfl, hq, (closedLiteral_iff hq).1 hclosed⟩

/-- Only literals have quotes. -/
theorem Legible.literal_or_not_quote (h : Legible (l :: ls)) :
    (∃ s, l = .literal s) ∨ ∀ c ∈ l.text, ¬(c = '\'' ∨ c = '"' ∨ c = '`') := by
  obtain ⟨m, next, hreads⟩ := h.reads l List.mem_cons_self
  have hcode := h.code l List.mem_cons_self
  cases l with
  | code c =>
    obtain ⟨-, htemplate, hquote, -⟩ := hreads
    refine Or.inr (List.forall_mem_singleton.2 ?_)
    rintro (hc | hc | hc)
    · exact hquote (Or.inr hc)
    · exact hquote (Or.inl hc)
    · exact htemplate hc
  | arrow =>
    exact Or.inr (List.forall_mem_cons.2 ⟨by decide, List.forall_mem_singleton.2 (by decide)⟩)
  | literal s => exact Or.inl ⟨s, rfl⟩
  | _ => cases hcode

/-! ## What is within a literal -/

/-- What stands in a closed literal is within a literal to the cuts. -/
theorem Enclosed.quote_run (h : Enclosed q inside) (hq : IsQuote q) (hn : n.quote = some q)
    (hs : s <+: inside) : (n.run s).quote = some q := by
  obtain ⟨s', rfl, hrun⟩ := (h.literalRest_of_prefix hs).exists_run hq
  rw [if_neg Bool.false_ne_true, List.append_nil]
  exact (hrun n hn).1

theorem quote_step_open (hq : IsQuote q) (hn : n.quote = none) :
    (n.step true q).quote = some q := by
  rw [step_quote hn (hq.elim (fun h => Or.inr (Or.inl h)) Or.inl)]

/-- Behind a closed literal the cuts are outside of literals, unless it ends in a backslash. -/
theorem Enclosed.quote_run_literal (h : Enclosed q inside) (hq : IsQuote q) (hn : n.quote = none) :
    (n.run (q :: (inside ++ [q]))).quote =
      if inside.getLast? = some '\\' then some q else none := by
  split
  · next hlast =>
    have hinside := h.quote_run hq (quote_step_open hq hn) (List.prefix_refl inside)
    rw [run_cons, run_concat, step_of_quote hinside fun _ => ?_]
    · exact hinside
    · rw [previous_run, hlast, Option.getD_some]
  · next hlast =>
    refine (h.literalRest.run hq hn).2.2.2 ⟨rfl, ?_⟩
    rwa [List.dropLast_concat]

/-- A place within a literal is within a literal to the cuts. -/
theorem Legible.quote_run_of_within (h : Legible ls) (hleft : Within ls left)
    (hn : n.quote = none) : (n.run left).quote ≠ none := by
  induction hleft generalizing n with
  | @here s t ls hs ht =>
    obtain ⟨q, inside, hliteral, hq, henclosed⟩ := h.exists_enclosed
    obtain ⟨c, s, rfl⟩ := List.exists_cons_of_ne_nil hs
    obtain ⟨t, d, rfl⟩ := (List.eq_nil_or_concat' t).resolve_left ht
    rw [List.cons_append, ← List.append_assoc] at hliteral
    obtain ⟨rfl, hinside⟩ := List.cons.inj hliteral
    have hprefix : s <+: inside := ⟨t, (List.append_inj' hinside rfl).1⟩
    rw [run_cons, henclosed.quote_run hq (quote_step_open hq hn) hprefix]
    exact Option.some_ne_none c
  | @behind l ls left hleft ih =>
    rw [run_append]
    rcases h.literal_or_not_quote with ⟨s, rfl⟩ | hquotes
    · obtain ⟨q, inside, rfl, hq, henclosed⟩ := h.exists_enclosed
      have hbehind := henclosed.quote_run_literal hq hn
      split at hbehind
      · next hlast =>
        have hrest : q ∉ ls.flatMap Lexeme.text :=
          h.ends.1 (by rwa [List.dropLast_concat])
        have hnone : q ∉ left := fun hmem => hrest (hleft.isPrefix.subset hmem)
        rw [Lexeme.text, quote_run_of_not_mem hbehind hnone]
        exact Option.some_ne_none q
      · exact ih h.tail hbehind
    · exact ih h.tail (quote_run_of_not_quote hn hquotes)

/-- So it is when the cuts start behind some text, at a place that is not within a literal. -/
theorem Legible.quote_run_of_within_append (h : Legible ls) (hleft : ¬Within ls left)
    (hinner : Within ls (left ++ inner)) (hn : n.quote = none) : (n.run inner).quote ≠ none := by
  generalize hplace : left ++ inner = place at hinner
  induction hinner generalizing left with
  | @here s t ls hs ht =>
    by_cases hnil : left = []
    · subst hnil
      obtain rfl : inner = s := hplace
      exact h.quote_run_of_within (.here hs ht) hn
    · subst hplace
      rw [List.append_assoc] at hleft
      exact absurd (.here hnil (List.append_ne_nil_of_right_ne_nil inner ht)) hleft
  | @behind l ls rest hrest ih =>
    rcases List.append_eq_append_iff.1 hplace with ⟨mid, htext, rfl⟩ | ⟨mid, rfl, rfl⟩
    · by_cases hnil : left = []
      · subst hnil
        obtain rfl : l.text = mid := htext
        exact h.quote_run_of_within (.behind hrest) hn
      rw [run_append]
      refine h.tail.quote_run_of_within hrest ?_
      rcases h.literal_or_not_quote with ⟨s, rfl⟩ | hquotes
      · obtain rfl : s = left ++ mid := htext
        obtain rfl : mid = [] := by_contra fun hmid => hleft (.here hnil hmid)
        exact hn
      · refine quote_run_of_not_quote hn fun c hc => hquotes c ?_
        rw [htext]
        exact List.mem_append_right left hc
    · exact ih h.tail (fun hwithin => hleft (.behind hwithin)) rfl

/-! ## Cuts -/

theorem legible_scan (hcode : ∀ l ∈ scan .code s, l.IsCode) (hends : EndsOnce (scan .code s)) :
    Legible (scan .code s) :=
  ⟨fun _ => exists_reads_of_mem_scan, hcode, hends⟩

theorem isCode_map_code (s : List Char) : ∀ l ∈ s.map Lexeme.code, l.IsCode :=
  List.forall_mem_map.2 fun _ _ => trivial

/-- A literal that another character follows is closed. -/
theorem isCode_literal (h : scan .code (s ++ [c]) = [.literal s, .code c]) :
    (Lexeme.literal s).IsCode := by
  have hback := readBack_scan .code (s ++ [c])
  rw [h] at hback
  obtain ⟨-, ⟨-, q, a, closed, rfl, hq, hrest, hend⟩, -⟩ := hback
  obtain rfl : closed = true := Bool.not_eq_false _ ▸ fun hopen => nomatch hend hopen
  obtain ⟨inside, rfl, henclosed⟩ := hrest.exists_enclosed
  exact ⟨q, inside, rfl, (closedLiteral_iff hq).2 henclosed⟩

/-- No cut of a line is within a literal, if the line has no comments and templates, its literals
are closed, and the quote of one that ends in a backslash does not come again. -/
theorem not_within_of_cut {line : List Char} (hcode : ∀ l ∈ scan .code line, l.IsCode)
    (hends : EndsOnce (scan .code line)) :
    (∀ target left right, cutTop? target {} line = some (left, right) →
      ¬Within (scan .code line) left) ∧
    (∀ left right inner close, line = left ++ right → ¬Within (scan .code line) left →
      cutClose? {} right = some (inner, close) → ¬Within (scan .code line) (left ++ inner)) ∧
    ∀ sep left text right parts part rest, ¬(sep = '\'' ∨ sep = '"' ∨ sep = '`') →
      line = left ++ text ++ right → ¬Within (scan .code line) left →
      splitTop sep {} text = parts ++ part :: rest → parts ≠ [] →
      ¬Within (scan .code line) (left ++ joinWith [sep] parts) := by
  have hlegible := legible_scan hcode hends
  refine ⟨fun target left right hcut hwithin => ?_,
    fun left right inner close _ hleft hcut hwithin => ?_,
    fun sep left text right parts part rest hsep _ hleft hsplit hne hwithin => ?_⟩
  · exact hlegible.quote_run_of_within hwithin rfl (isTop_iff.1 (isTop_of_cutTop? hcut)).2
  · exact hlegible.quote_run_of_within_append hleft hwithin rfl (quote_run_of_cutClose? hcut rfl)
  · exact hlegible.quote_run_of_within_append hleft hwithin rfl
      (quote_run_of_splitTop hsep hsplit hne rfl)

/-- Literals that hold brackets, a bar and an escaped quote, and one that ends in a backslash. -/
theorem not_within_of_cut_escapes :
    let line := "f('(\\'', \")|\") | 'x\\\\'".toList
    let inner := "('(\\'', \")|\"".toList
    let close := ") | 'x\\\\'".toList
    let part := "f('(\\'', \")|\") ".toList
    let rest := " 'x\\\\'".toList
    (∀ l ∈ scan .code line, l.IsCode) ∧ EndsOnce (scan .code line) ∧
      cutTop? '(' {} line = some (['f'], inner ++ close) ∧ ¬Within (scan .code line) ['f'] ∧
      cutClose? {} (inner ++ close) = some (inner, close) ∧
      ¬Within (scan .code line) (['f'] ++ inner) ∧
      splitTop '|' {} line = [part] ++ [rest] ∧
      ¬Within (scan .code line) ([] ++ joinWith ['|'] [part]) := by
  intro line inner close part rest
  have hscan : scan .code line = "f(".toList.map .code ++ .literal "'(\\''".toList ::
      (", ".toList.map .code ++ .literal "\")|\"".toList ::
        (") | ".toList.map .code ++ [.literal "'x\\\\'".toList])) := by decide +kernel
  have hcode : ∀ l ∈ scan .code line, l.IsCode := by
    rw [hscan]
    simp only [List.forall_mem_append, List.forall_mem_cons]
    exact ⟨isCode_map_code _, isCode_literal (c := ' ') (by decide +kernel), isCode_map_code _,
      isCode_literal (c := ' ') (by decide +kernel), isCode_map_code _,
      isCode_literal (c := ' ') (by decide +kernel), List.forall_mem_nil _⟩
  have hends : EndsOnce (scan .code line) := by decide +kernel
  have hcutTop : cutTop? '(' {} line = some (['f'], inner ++ close) := by decide +kernel
  have hcutClose : cutClose? {} (inner ++ close) = some (inner, close) := by decide +kernel
  have hparts : splitTop '|' {} line = [part] ++ [rest] := by decide +kernel
  obtain ⟨htop, hclose, hsplit⟩ := not_within_of_cut hcode hends
  have hleft := htop '(' _ _ hcutTop
  have hline : line = ['f'] ++ (inner ++ close) := by decide +kernel
  exact ⟨hcode, hends, hcutTop, hleft, hcutClose, hclose _ _ _ _ hline hleft hcutClose, hparts,
    hsplit '|' [] line [] _ _ _ (by decide) (List.append_nil line).symm
      (fun h => h.ne_nil rfl) hparts (List.cons_ne_nil part [])⟩

/-- Where the quote of a literal that ends in a backslash comes again, the next literal is cut. -/
theorem exists_cut_within_literal :
    let line := "a: 'x\\\\', b: 'one, two', c: 'it\\'s', d: number".toList
    (∀ l ∈ scan .code line, l.IsCode) ∧
      ∃ part rest, splitTop ',' {} line = [part] ++ rest ∧ rest ≠ [] ∧
        Within (scan .code line) (joinWith [','] [part]) := by
  intro line
  let before : List Lexeme := "a: ".toList.map .code ++ .literal "'x\\\\'".toList ::
    ", b: ".toList.map .code
  let behind : List Lexeme := ", c: ".toList.map .code ++ .literal "'it\\'s'".toList ::
    ", d: number".toList.map .code
  have hscan : scan .code line =
      before ++ .literal ("'one".toList ++ ", two'".toList) :: behind := by decide +kernel
  have hsplit : splitTop ',' {} line = ["a: 'x\\\\', b: 'one".toList] ++
      [" two', c: 'it\\'s'".toList, " d: number".toList] := by decide +kernel
  have hplace : joinWith [','] ["a: 'x\\\\', b: 'one".toList] =
      before.flatMap Lexeme.text ++ "'one".toList := by decide +kernel
  refine ⟨?_, _, _, hsplit, List.cons_ne_nil _ _, ?_⟩
  · simp only [hscan, before, behind, List.forall_mem_append, List.forall_mem_cons]
    exact ⟨⟨isCode_map_code _, isCode_literal (c := ' ') (by decide +kernel), isCode_map_code _⟩,
      isCode_literal (c := ' ') (by decide +kernel), isCode_map_code _,
      isCode_literal (c := ' ') (by decide +kernel), isCode_map_code _⟩
  · have hone : "'one".toList ≠ [] := by decide +kernel
    have htwo : ", two'".toList ≠ [] := by decide +kernel
    rw [hscan, hplace]
    exact .append before (.here hone htwo)

end ReferencePages
