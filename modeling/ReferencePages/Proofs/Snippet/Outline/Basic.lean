import ReferencePages.Proofs.Snippet.Asides.Pieces

/-!
# The outline of a text

What a reader of code sees besides names and literals is told by an outline: the characters of
code without blanks, and one quote for each literal. A text of code alone has the outlines of its
parts, wherever it is cut outside of literals (`outline_append`), and one more character of code
adds to the outline unless a literal goes on over it (`outline_concat_cases`).
-/

namespace ReferencePages

/-- What a lexeme shows in an outline: its characters but for blanks, or one quote for a literal. -/
def Lexeme.outline : Lexeme → List Char
  | .code c => if isBlank c then [] else [c]
  | .arrow => ['=', '>']
  | .literal _ => ['"']
  | .lineComment _ | .openComment | .commentChar _ | .closeComment => []
  | .openTemplate | .templateChar _ | .templateEscape _ | .closeTemplate => []

/-- The code of a text without blanks, with one quote for each literal. -/
def outline (t : List Char) : List Char := (scan .code t).flatMap Lexeme.outline

/-- A closed literal with a backslash before its closing quote, one that is itself escaped. -/
def Lexeme.EndsInBackslash : Lexeme → Prop
  | .literal (q :: a) => LiteralRest q true a ∧ a.dropLast.getLast? = some '\\'
  | _ => False

/-- A text of code alone, in which no literal ends in a backslash. -/
structure Orderly (t : List Char) : Prop where
  asides : asides .code t = []
  ends : ∀ l ∈ scan .code t, ¬l.EndsInBackslash

section

variable {s t b : List Char} {c : Char} {l : Lexeme}

@[simp] theorem outline_nil : outline [] = [] := by
  rw [outline, scan]
  rfl

theorem Lexeme.outline_code (hc : isBlank c = false) : (Lexeme.code c).outline = [c] := by
  simp [Lexeme.outline, hc]

theorem Lexeme.outline_blank (hc : isBlank c = true) : (Lexeme.code c).outline = [] := by
  simp [Lexeme.outline, hc]

theorem endsIn_of_asides (h : asides .code t = []) : endsIn .code t = .code :=
  modeAfterAll_of_asides h

/-- A lexeme of code alone is read in code. -/
theorem exists_reads_of_asides (h : asides .code t = []) (hl : l ∈ scan .code t) :
    ∃ next, l.Reads .code next := by
  unfold asides at h
  generalize hm : Mode.code = m at h hl
  fun_induction scan m t with
  | case1 => cases hl
  | case2 m c s p ih =>
    subst hm
    rw [List.filterMap_eq_nil_iff, List.forall_mem_cons, ← List.filterMap_eq_nil_iff] at h
    rcases List.mem_cons.1 hl with rfl | hl
    · exact ⟨_, reads_nextLexeme .code c s⟩
    · have hmode := Lexeme.modeAfter_of_aside? h.1
      rw [← hmode]
      exact ih hmode.symm h.2 hl

theorem cases_of_mem_scan (h : asides .code t = []) (hl : l ∈ scan .code t) :
    (∃ c, l = .code c ∧ ¬IsQuote c) ∨ l = .arrow ∨
      ∃ s, l = .literal s ∧ ∃ q a, s = q :: a ∧ IsQuote q := by
  obtain ⟨next, hreads⟩ := exists_reads_of_asides h hl
  have hcode : l.aside? = none := List.filterMap_eq_nil_iff.1 h l hl
  rcases hreads.cases_of_aside? hcode with ⟨c, rfl⟩ | harrow | ⟨s, rfl⟩
  · exact Or.inl ⟨c, rfl, hreads.2.2.1⟩
  · exact Or.inr (Or.inl harrow)
  · obtain ⟨-, q, a, -, hs, hq, -⟩ := hreads
    exact Or.inr (Or.inr ⟨s, rfl, q, a, hs, hq⟩)

theorem Lexeme.EndsInBackslash.getLast?_dropLast (h : l.EndsInBackslash) :
    l.text.dropLast.getLast? = some '\\' := by
  match l, h with
  | .literal (q :: a), ⟨hrest, hlast⟩ =>
    have hne : a ≠ [] := fun hnil => by
      rw [hnil] at hlast
      cases hlast
    rw [Lexeme.text, List.dropLast_cons_of_ne_nil hne, List.getLast?_cons, hlast]
    rfl

theorem orderly_nil : Orderly [] := by
  refine ⟨?_, ?_⟩ <;> simp [ReferencePages.asides, scan]

/-! ## Parts -/

theorem outline_append (hread : ReadBack .code s.head? (scan .code t).reverse)
    (h : asides .code t = []) : outline (t ++ s) = outline t ++ outline s := by
  rw [outline, scan_append_of_readBack hread, endsIn_of_asides h, List.flatMap_append]
  rfl

theorem outline_cons (hc : isPlain c = true) (t : List Char) :
    outline (c :: t) = (Lexeme.code c).outline ++ outline t := by
  rw [outline, scan_cons_of_isPlain hc]
  rfl

theorem outline_append_of_blank (hb : ∀ c ∈ b, isBlank c = true) (t : List Char) :
    outline (b ++ t) = outline t := by
  induction b with
  | nil => rfl
  | cons c b ih =>
    obtain ⟨hc, hb⟩ := List.forall_mem_cons.1 hb
    rw [List.cons_append, outline_cons (isPlain_of_isBlank hc), Lexeme.outline_blank hc, ih hb]
    rfl

theorem outline_of_blank (hb : ∀ c ∈ b, isBlank c = true) : outline b = [] := by
  have hout := outline_append_of_blank hb []
  rwa [List.append_nil, outline_nil] at hout

theorem outline_trimStart (t : List Char) : outline (trimStart t) = outline t := by
  conv => rhs; rw [← List.takeWhile_append_dropWhile (p := isBlank) (l := t)]
  exact (outline_append_of_blank (fun _ hc => List.mem_takeWhile_imp hc) _).symm

theorem orderly_cons_iff (hc : isPlain c = true) : Orderly (c :: t) ↔ Orderly t := by
  have hscan : scan .code (c :: t) = .code c :: scan .code t := scan_cons_of_isPlain hc .code t
  refine ⟨fun ⟨ha, he⟩ => ⟨?_, ?_⟩, fun ⟨ha, he⟩ => ⟨?_, ?_⟩⟩
  · rw [asides, hscan] at ha
    exact ha
  · rw [hscan] at he
    exact (List.forall_mem_cons.1 he).2
  · rw [asides, hscan]
    exact ha
  · rw [hscan]
    exact List.forall_mem_cons.2 ⟨id, he⟩

theorem orderly_append_of_blank_iff (hb : ∀ c ∈ b, isBlank c = true) :
    Orderly (b ++ t) ↔ Orderly t := by
  induction b with
  | nil => exact Iff.rfl
  | cons c b ih =>
    obtain ⟨hc, hb⟩ := List.forall_mem_cons.1 hb
    exact (orderly_cons_iff (isPlain_of_isBlank hc)).trans (ih hb)

theorem orderly_trimStart_iff : Orderly (trimStart t) ↔ Orderly t := by
  conv => rhs; rw [← List.takeWhile_append_dropWhile (p := isBlank) (l := t)]
  exact (orderly_append_of_blank_iff fun _ hc => List.mem_takeWhile_imp hc).symm

/-! ## One more character -/

/-- In code alone, a plain character at the end is a lexeme of its own, unless a literal goes on
over it. -/
theorem scan_concat_cases (hc : isPlain c = true)
    (h : asides .code t = [] ∨ asides .code (t ++ [c]) = []) :
    scan .code (t ++ [c]) = scan .code t ++ [.code c] ∨
      ∃ init s, scan .code t = init ++ [.literal s] ∧
        scan .code (t ++ [c]) = init ++ [.literal (s ++ [c])] := by
  have hmem {l : Lexeme} {u : List Char} (hl : l ∈ scan .code u) (hu : asides .code u = []) :
      l.aside? = none := List.filterMap_eq_nil_iff.1 hu l hl
  rcases readBack_or_extends hc .code t with hback | ⟨init, l, l', hext, -, hscan, hscan'⟩
  · have hcode : endsIn .code t = .code := by
      refine endsIn_of_asides (h.elim id fun h => ?_)
      rw [asides_append hback, List.append_eq_nil_iff] at h
      exact h.1
    left
    rw [scan_append_of_readBack hback, hcode, scan_cons_of_isPlain hc, scan]
    rfl
  · have hl : l ∈ scan .code t := hscan ▸ List.mem_append_right init (List.mem_singleton_self l)
    have hl' : l' ∈ scan .code (t ++ [c]) :=
      hscan' ▸ List.mem_append_right init (List.mem_singleton_self l')
    cases hext with
    | literal s => exact Or.inr ⟨init, s, hscan, hscan'⟩
    | lineComment s => rcases h with h | h <;> [cases hmem hl h; cases hmem hl' h]
    | escape => rcases h with h | h <;> [cases hmem hl h; cases hmem hl' h]

theorem asides_concat_iff (hc : isPlain c = true) :
    asides .code (t ++ [c]) = [] ↔ asides .code t = [] := by
  have hlast (h : asides .code t = [] ∨ asides .code (t ++ [c]) = []) :
      asides .code (t ++ [c]) = asides .code t := by
    rcases scan_concat_cases hc h with hscan | ⟨init, s, hscan, hscan'⟩
    · rw [asides, hscan, List.filterMap_append]
      exact List.append_nil _
    · rw [asides, asides, hscan, hscan', List.filterMap_append, List.filterMap_append]
      rfl
  exact ⟨fun h => (hlast (Or.inr h)).symm.trans h, fun h => (hlast (Or.inl h)).trans h⟩

/-- A character of code adds to the outline, unless a literal goes on over it. -/
theorem outline_concat_cases (hc : isPlain c = true) (h : asides .code t = []) :
    outline (t ++ [c]) = outline t ++ (Lexeme.code c).outline ∨
      outline (t ++ [c]) = outline t ∧ (outline t).getLast? = some '"' := by
  rcases scan_concat_cases hc (Or.inl h) with hscan | ⟨init, s, hscan, hscan'⟩
  · left
    rw [outline, hscan, List.flatMap_append, List.flatMap_singleton]
    rfl
  · right
    rw [outline, outline, hscan, hscan', List.flatMap_append, List.flatMap_append]
    exact ⟨rfl, List.getLast?_concat⟩

theorem LiteralRest.not_concat {q : Char} {a : List Char} {closed : Bool}
    (h : LiteralRest q true a) (hq : IsQuote q) : ¬LiteralRest q closed (a ++ [c]) := fun h' => by
  have hcut := (h.cutLiteral_append hq [c]).symm.trans (h'.cutLiteral_self hq)
  exact List.cons_ne_nil c [] (congrArg Prod.snd hcut)

/-- A literal that goes on over a plain character does not end in a backslash, before it and
behind it. -/
theorem not_endsInBackslash_of_extends {m m' : Mode} {next next' : Option Char}
    (hc : isPlain c = true) (h : (Lexeme.literal s).Reads m next)
    (h' : (Lexeme.literal (s ++ [c])).Reads m' next') :
    ¬(Lexeme.literal s).EndsInBackslash ∧ ¬(Lexeme.literal (s ++ [c])).EndsInBackslash := by
  obtain ⟨-, q, a, closed, rfl, hq, -, -⟩ := h
  obtain ⟨-, q', a', closed', heq, -, hrest, -⟩ := h'
  obtain ⟨rfl, rfl⟩ := List.cons.inj heq
  refine ⟨fun hends => hends.1.not_concat hq hrest, fun hends => ?_⟩
  have hlast : LiteralRest q true (a ++ [c]) := hends.1
  obtain rfl : c = q := Option.some.inj (List.getLast?_concat.symm.trans hlast.getLast?)
  rcases hq with rfl | rfl <;> cases hc

theorem orderly_concat_iff (hc : isPlain c = true) : Orderly (t ++ [c]) ↔ Orderly t := by
  have hends (h : asides .code t = []) : (∀ l ∈ scan .code (t ++ [c]), ¬l.EndsInBackslash) ↔
      ∀ l ∈ scan .code t, ¬l.EndsInBackslash := by
    rcases scan_concat_cases hc (Or.inl h) with hscan | ⟨init, s, hscan, hscan'⟩
    · rw [hscan, List.forall_mem_append, List.forall_mem_singleton]
      exact and_iff_left id
    · obtain ⟨m, next, hreads⟩ := exists_reads_of_mem_scan (l := .literal s)
        (hscan ▸ List.mem_append_right init (List.mem_singleton_self _))
      obtain ⟨m', next', hreads'⟩ := exists_reads_of_mem_scan (l := .literal (s ++ [c]))
        (hscan' ▸ List.mem_append_right init (List.mem_singleton_self _))
      obtain ⟨hbefore, hbehind⟩ := not_endsInBackslash_of_extends hc hreads hreads'
      rw [hscan, hscan', List.forall_mem_append, List.forall_mem_append, List.forall_mem_singleton,
        List.forall_mem_singleton, and_iff_left hbefore, and_iff_left hbehind]
  refine ⟨fun ⟨ha, he⟩ => ?_, fun ⟨ha, he⟩ => ⟨(asides_concat_iff hc).2 ha, (hends ha).2 he⟩⟩
  have ha := (asides_concat_iff hc).1 ha
  exact ⟨ha, (hends ha).1 he⟩

/-! ## Trimmed texts -/

theorem asides_append_blank_iff (hb : ∀ c ∈ b, isBlank c = true) :
    asides .code (t ++ b) = [] ↔ asides .code t = [] := by
  induction b generalizing t with
  | nil => rw [List.append_nil]
  | cons c b ih =>
    obtain ⟨hc, hb⟩ := List.forall_mem_cons.1 hb
    rw [← List.singleton_append, ← List.append_assoc, ih hb,
      asides_concat_iff (isPlain_of_isBlank hc)]

theorem orderly_append_blank_iff (hb : ∀ c ∈ b, isBlank c = true) :
    Orderly (t ++ b) ↔ Orderly t := by
  induction b generalizing t with
  | nil => rw [List.append_nil]
  | cons c b ih =>
    obtain ⟨hc, hb⟩ := List.forall_mem_cons.1 hb
    rw [← List.singleton_append, ← List.append_assoc, ih hb,
      orderly_concat_iff (isPlain_of_isBlank hc)]

/-- A blank at the end does not show in an outline, whatever it stands in. -/
theorem outline_concat_of_isBlank (hc : isBlank c = true) (t : List Char) :
    outline (t ++ [c]) = outline t := by
  have hplain := isPlain_of_isBlank hc
  rcases readBack_or_extends hplain .code t with hback | ⟨init, l, l', hext, -, hscan, hscan'⟩
  · have hchar : ((endsIn .code t).char c).outline = [] := by
      cases endsIn .code t with
      | code => exact Lexeme.outline_blank hc
      | _ => rfl
    rw [outline, scan_append_of_readBack hback, scan_cons_of_isPlain hplain, scan,
      List.flatMap_append, List.flatMap_singleton, hchar, List.append_nil]
    rfl
  · rw [outline, outline, hscan, hscan', List.flatMap_append, List.flatMap_append]
    cases hext <;> rfl

theorem outline_append_blank (hb : ∀ c ∈ b, isBlank c = true) (t : List Char) :
    outline (t ++ b) = outline t := by
  induction b generalizing t with
  | nil => rw [List.append_nil]
  | cons c b ih =>
    obtain ⟨hc, hb⟩ := List.forall_mem_cons.1 hb
    rw [← List.singleton_append, ← List.append_assoc, ih hb, outline_concat_of_isBlank hc]

theorem asides_trimEnd_iff : asides .code (trimEnd t) = [] ↔ asides .code t = [] := by
  obtain ⟨b, hb, ht⟩ := exists_eq_trimEnd_append t
  conv => rhs; rw [ht]
  exact (asides_append_blank_iff hb).symm

theorem orderly_trimEnd_iff : Orderly (trimEnd t) ↔ Orderly t := by
  obtain ⟨b, hb, ht⟩ := exists_eq_trimEnd_append t
  conv => rhs; rw [ht]
  exact (orderly_append_blank_iff hb).symm

theorem orderly_trim_iff : Orderly (trim t) ↔ Orderly t :=
  orderly_trimEnd_iff.trans orderly_trimStart_iff

theorem outline_trimEnd (t : List Char) : outline (trimEnd t) = outline t := by
  obtain ⟨b, hb, ht⟩ := exists_eq_trimEnd_append t
  conv => rhs; rw [ht]
  exact (outline_append_blank hb _).symm

@[simp] theorem outline_trim (t : List Char) : outline (trim t) = outline t :=
  (outline_trimEnd _).trans (outline_trimStart t)

theorem outline_dropCarriageReturn (t : List Char) :
    outline (dropCarriageReturn t) = outline t := by
  unfold dropCarriageReturn
  split
  · next hlast =>
    obtain ⟨init, rfl⟩ := List.getLast?_eq_some_iff.1 hlast
    rw [List.dropLast_concat, outline_concat_of_isBlank rfl]
  · rfl

/-! ## Ends -/

theorem getLast?_trimEnd (t : List Char) : ∀ c ∈ (trimEnd t).getLast?, isBlank c = false := by
  intro c hc
  rw [trimEnd, dropEndWhile, List.getLast?_reverse] at hc
  have hnot := List.head?_dropWhile_not isBlank t.reverse
  rw [hc] at hnot
  exact hnot

/-- The outline of a text ends as the text does, unless that ends with a quote. -/
theorem getLast?_trimEnd_of_outline (h : asides .code t = [])
    (hlast : (outline t).getLast? = some c) (hc : c ≠ '"') : (trimEnd t).getLast? = some c := by
  have hsolid := getLast?_trimEnd t
  rw [← outline_trimEnd, outline] at hlast
  rw [← getLast?_scan .code (trimEnd t)] at hsolid ⊢
  cases hl : (scan .code (trimEnd t)).getLast? with
  | none =>
    rw [List.getLast?_eq_none_iff.1 hl] at hlast
    cases hlast
  | some l =>
    obtain ⟨init, hinit⟩ := List.getLast?_eq_some_iff.1 hl
    rw [hl] at hsolid
    rw [hinit, List.flatMap_append, List.flatMap_singleton] at hlast
    rcases cases_of_mem_scan (asides_trimEnd_iff.2 h) (List.mem_of_getLast? hl) with
      ⟨d, rfl, -⟩ | rfl | ⟨s, rfl, -⟩
    · rw [Lexeme.outline_code (hsolid d rfl), List.getLast?_concat] at hlast
      exact hlast
    · rwa [List.getLast?_append_of_ne_nil _ (by simp [Lexeme.outline])] at hlast
    · rw [Lexeme.outline, List.getLast?_concat] at hlast
      exact absurd (Option.some.inj hlast).symm hc

/-- The outline of a text begins as the text does, but for the kind of a quote. -/
theorem Orderly.head?_outline (h : Orderly t) :
    (outline t).head? = (trim t).head?.map fun c => if c = '\'' then '"' else c := by
  have hsolid := (trim_eq_self_iff_forall.1 (trim_trim t)).1
  rw [← outline_trim, outline]
  rw [← head?_scan .code (trim t)] at hsolid ⊢
  cases hl : scan .code (trim t) with
  | nil => rfl
  | cons l ls =>
    rw [hl] at hsolid
    rw [List.flatMap_cons]
    rcases cases_of_mem_scan (orderly_trim_iff.2 h).asides (hl ▸ List.mem_cons_self) with
      ⟨d, rfl, hquote⟩ | rfl | ⟨s, rfl, q, a, rfl, hq⟩
    · rw [Lexeme.outline_code (hsolid d rfl)]
      exact congrArg some (if_neg fun hd => hquote (Or.inr hd)).symm
    · rfl
    · rcases hq with rfl | rfl <;> rfl

/-- An outline begins with a closing bracket where the text does. -/
theorem Orderly.any_head?_outline (h : Orderly t) :
    (outline t).head?.any isCloser = (trim t).head?.any isCloser := by
  rw [h.head?_outline]
  cases (trim t).head? with
  | none => rfl
  | some c =>
    rw [Option.map_some, Option.any_some, Option.any_some]
    split
    · next hc =>
      subst hc
      rfl
    · rfl

theorem Orderly.outline_eq_nil_iff (h : Orderly t) : outline t = [] ↔ trim t = [] := by
  rw [← List.head?_eq_none_iff, h.head?_outline, Option.map_eq_none_iff, List.head?_eq_none_iff]

end

end ReferencePages
