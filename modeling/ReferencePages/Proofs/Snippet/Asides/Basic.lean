import ReferencePages.Proofs.Snippet.Reading
import ReferencePages.Proofs.Text.Blank

/-!
# Comments and templates of a text

The asides of a text are its comments and template literals, lexeme by lexeme. Where a line begins
and ends matters little to them: blanks can stand before a text unless it continues a template
(`alike_append`), and behind it unless it ends in one (`alike_trimEnd`). A character of code behind
a text is no aside, unless a line comment takes it in (`alike_concat_of_code`).
-/

namespace ReferencePages

/-! ## Asides -/

/-- What a lexeme has of a comment or a template. Blanks of a block comment do not count, nor do
those at the end of a line comment. -/
def Lexeme.aside? : Lexeme → Option Lexeme
  | .code _ | .arrow | .literal _ => none
  | .lineComment s => some (.lineComment (trimEnd s))
  | .commentChar c => if isBlank c then none else some (.commentChar c)
  | l => some l

/-- The comments and templates of a text. -/
def asides (m : Mode) (t : List Char) : List Lexeme := (scan m t).filterMap Lexeme.aside?

/-- The break before a line that continues a template is a character of the template. -/
def lineBreak (m : Mode) : List Lexeme := if m = .template then [.templateChar '\n'] else []

/-- The comments and templates of some lines. -/
def lineAsides (m : Mode) : List (List Char) → List Lexeme
  | [] => []
  | line :: rest => lineBreak m ++ asides m line ++ lineAsides (endsIn m line) rest

/-- The mode behind some lines. -/
def endsInLines (m : Mode) (ls : List (List Char)) : Mode := ls.foldl endsIn m

section

variable {m : Mode} {s t : List Char} {c : Char}

theorem asides_append (h : ReadBack m s.head? (scan m t).reverse) :
    asides m (t ++ s) = asides m t ++ asides (endsIn m t) s := by
  rw [asides, scan_append_of_readBack h, List.filterMap_append]
  rfl

theorem asides_singleton (hc : isPlain c = true) (m : Mode) :
    asides m [c] = (m.char c).aside?.toList := by
  rw [asides, scan_cons_of_isPlain hc, scan]
  cases h : (m.char c).aside? <;> simp [h]

theorem lineBreak_of_ne (hm : m ≠ .template) : lineBreak m = [] := if_neg hm

theorem Mode.aside?_char_of_isBlank (hm : m ≠ .template) (hc : isBlank c = true) :
    (m.char c).aside? = none := by
  cases m with
  | code => rfl
  | comment => exact if_pos hc
  | template => exact absurd rfl hm

/-! ## Texts with the same asides -/

/-- Texts with the same asides, that end in the same mode. -/
structure Alike (m : Mode) (s t : List Char) : Prop where
  asides_eq : asides m s = asides m t
  endsIn_eq : endsIn m s = endsIn m t

theorem Alike.refl (m : Mode) (t : List Char) : Alike m t t := ⟨rfl, rfl⟩

theorem Alike.symm (h : Alike m s t) : Alike m t s := ⟨h.asides_eq.symm, h.endsIn_eq.symm⟩

theorem Alike.trans {r : List Char} (h : Alike m r s) (h' : Alike m s t) : Alike m r t :=
  ⟨h.asides_eq.trans h'.asides_eq, h.endsIn_eq.trans h'.endsIn_eq⟩

/-- Blanks before a text that does not continue a template. -/
theorem alike_append {b : List Char} (hb : ∀ c ∈ b, isBlank c = true) (hm : m ≠ .template)
    (t : List Char) : Alike m (b ++ t) t := by
  have hscan := scan_append_of_isPlain (fun c hc => isPlain_of_isBlank (hb c hc)) m t
  have hnone : (b.map m.char).filterMap Lexeme.aside? = [] := by
    rw [List.filterMap_eq_nil_iff]
    intro l hl
    obtain ⟨c, hc, rfl⟩ := List.mem_map.1 hl
    exact Mode.aside?_char_of_isBlank hm (hb c hc)
  constructor
  · rw [asides, hscan, List.filterMap_append, hnone]
    rfl
  · rw [endsIn, hscan, modeAfterAll_append, modeAfterAll_map_char]
    rfl

theorem alike_nil_of_blank (hm : m ≠ .template) (ht : trim t = []) : Alike m t [] := by
  have halike := alike_append (trim_eq_nil_iff.1 ht) hm []
  rwa [List.append_nil] at halike

theorem endsIn_of_blank (hm : m ≠ .template) (ht : trim t = []) : endsIn m t = m :=
  (alike_nil_of_blank hm ht).endsIn_eq.trans (endsIn_nil m)

/-- A character behind a text that is no aside, nor changes a line comment there. -/
theorem alike_concat (hc : isPlain c = true) (hchar : ((endsIn m t).char c).aside? = none)
    (hcomment : ∀ s, (scan m t).getLast? = some (.lineComment s) →
      trimEnd (s ++ [c]) = trimEnd s) : Alike m (t ++ [c]) t := by
  refine ⟨?_, endsIn_concat hc m t⟩
  rcases readBack_or_extends hc m t with hback | ⟨init, l, l', hext, hreads, hscan, hscan'⟩
  · rw [asides_append hback, asides_singleton hc, hchar]
    exact List.append_nil _
  · have haside : l'.aside? = l.aside? := by
      cases hext with
      | literal s => rfl
      | lineComment s =>
        have hlast := hcomment s (by rw [hscan, List.getLast?_concat])
        exact congrArg (fun s => some (Lexeme.lineComment s)) hlast
      | escape =>
        have hend : endsIn m t = .template := by
          rw [endsIn, hscan, modeAfterAll_append]
          exact hreads.1
        rw [hend] at hchar
        cases hchar
    rw [asides, asides, hscan, hscan', List.filterMap_append, List.filterMap_append,
      List.filterMap_cons, List.filterMap_cons, haside]

/-- A blank behind a text that does not end in a template. -/
theorem alike_concat_of_isBlank (hc : isBlank c = true) (h : endsIn m t ≠ .template) :
    Alike m (t ++ [c]) t :=
  alike_concat (isPlain_of_isBlank hc) (Mode.aside?_char_of_isBlank h hc)
    fun s _ => List.rdropWhile_concat_pos isBlank s c hc

theorem infix_of_getLast?_scan {l : Lexeme} (h : (scan m t).getLast? = some l) :
    l.text <:+: t := by
  obtain ⟨init, hinit⟩ := List.getLast?_eq_some_iff.1 h
  rw [← scan_flatten m t, hinit, List.flatMap_append, List.flatMap_singleton]
  exact (List.suffix_append _ _).isInfix

theorem slashes_of_getLast?_scan {s : List Char}
    (h : (scan m t).getLast? = some (.lineComment s)) : ['/', '/'] <:+: t := by
  have hreads := readBack_scan m t
  obtain ⟨init, hinit⟩ := List.getLast?_eq_some_iff.1 h
  rw [hinit, List.reverse_concat] at hreads
  obtain ⟨-, -, u, rfl⟩ := hreads.1
  have hprefix : ['/', '/'] <+: (Lexeme.lineComment ('/' :: '/' :: u)).text := ⟨u, rfl⟩
  exact hprefix.isInfix.trans (infix_of_getLast?_scan h)

/-- A character of code behind a text without line comments. -/
theorem alike_concat_of_code (hc : isPlain c = true) (h : endsIn m t = .code)
    (hslashes : ¬['/', '/'] <:+: t) : Alike m (t ++ [c]) t := by
  refine alike_concat hc ?_ fun s hs => absurd (slashes_of_getLast?_scan hs) hslashes
  rw [h]
  rfl

/-! ## Lines with the same asides -/

variable {ks ls : List (List Char)}

theorem lineAsides_append (m : Mode) (ks ls : List (List Char)) :
    lineAsides m (ks ++ ls) = lineAsides m ks ++ lineAsides (endsInLines m ks) ls := by
  induction ks generalizing m with
  | nil => rfl
  | cons k ks ih =>
    rw [List.cons_append, lineAsides, lineAsides, ih, ← List.append_assoc]
    rfl

theorem endsInLines_append (m : Mode) (ks ls : List (List Char)) :
    endsInLines m (ks ++ ls) = endsInLines (endsInLines m ks) ls :=
  List.foldl_append

/-- Lines with the same asides, that end in the same mode. -/
structure AlikeLines (m : Mode) (ks ls : List (List Char)) : Prop where
  asides_eq : lineAsides m ks = lineAsides m ls
  ends_eq : endsInLines m ks = endsInLines m ls

theorem Alike.lines (h : Alike m s t) : AlikeLines m [s] [t] :=
  ⟨by rw [lineAsides, lineAsides, h.asides_eq]; rfl, h.endsIn_eq⟩

namespace AlikeLines

theorem refl (m : Mode) (ls : List (List Char)) : AlikeLines m ls ls := ⟨rfl, rfl⟩

theorem symm (h : AlikeLines m ks ls) : AlikeLines m ls ks := ⟨h.asides_eq.symm, h.ends_eq.symm⟩

theorem trans {js : List (List Char)} (h : AlikeLines m js ks) (h' : AlikeLines m ks ls) :
    AlikeLines m js ls :=
  ⟨h.asides_eq.trans h'.asides_eq, h.ends_eq.trans h'.ends_eq⟩

theorem append {ks' ls' : List (List Char)} (h : AlikeLines m ks ls)
    (h' : AlikeLines (endsInLines m ks) ks' ls') : AlikeLines m (ks ++ ks') (ls ++ ls') := by
  constructor
  · rw [lineAsides_append, lineAsides_append, h.asides_eq, h'.asides_eq, h.ends_eq]
  · rw [endsInLines_append, endsInLines_append, h'.ends_eq, h.ends_eq]

theorem cons (h : Alike m s t) (h' : AlikeLines (endsIn m s) ks ls) :
    AlikeLines m (s :: ks) (t :: ls) :=
  append h.lines h'

end AlikeLines

/-- Blank lines outside of templates do not count. -/
theorem alikeLines_cons_of_blank (hm : m ≠ .template) (ht : trim t = [])
    (ls : List (List Char)) : AlikeLines m (t :: ls) ls := by
  have hends := endsIn_of_blank hm ht
  have hasides : asides m t = [] := by
    rw [(alike_nil_of_blank hm ht).asides_eq, asides, scan]
    rfl
  constructor
  · rw [lineAsides, hasides, hends, lineBreak_of_ne hm]
    rfl
  · rw [endsInLines, List.foldl_cons, hends]
    rfl

/-! ## Trimmed texts -/

/-- A text that does not end in a template can be trimmed there. -/
theorem alike_trimEnd (h : endsIn m t ≠ .template) : Alike m t (trimEnd t) := by
  induction t using List.reverseRecOn with
  | nil => exact .refl m []
  | append_singleton t c ih =>
    by_cases hc : isBlank c = true
    · have htrim : trimEnd (t ++ [c]) = trimEnd t := List.rdropWhile_concat_pos isBlank t c hc
      rw [endsIn_concat (isPlain_of_isBlank hc)] at h
      rw [htrim]
      exact (alike_concat_of_isBlank hc h).trans (ih h)
    · rw [trimEnd_concat (by simpa using hc)]
      exact .refl m _

/-- A text that does not continue a template can be trimmed at its start. -/
theorem alike_trimStart (hm : m ≠ .template) (t : List Char) : Alike m t (trimStart t) := by
  have happend : t.takeWhile isBlank ++ trimStart t = t := List.takeWhile_append_dropWhile
  have halike := alike_append (b := t.takeWhile isBlank) (fun c hc => List.mem_takeWhile_imp hc) hm
    (trimStart t)
  rwa [happend] at halike

theorem alike_trim (hm : m ≠ .template) (h : endsIn m t ≠ .template) : Alike m t (trim t) := by
  have hstart := alike_trimStart hm t
  exact hstart.trans (alike_trimEnd (hstart.endsIn_eq ▸ h))

/-- Trimming does not change where a text ends that does not continue a template. -/
theorem endsIn_trim (hm : m ≠ .template) (t : List Char) : endsIn m (trim t) = endsIn m t := by
  have hend : ∀ s, endsIn m (trimEnd s) = endsIn m s := fun s => by
    induction s using List.reverseRecOn with
    | nil => rfl
    | append_singleton s c ih =>
      by_cases hc : isBlank c = true
      · have htrim : trimEnd (s ++ [c]) = trimEnd s := List.rdropWhile_concat_pos isBlank s c hc
        rw [htrim, ih, endsIn_concat (isPlain_of_isBlank hc)]
      · rw [trimEnd_concat (by simpa using hc)]
  rw [trim, hend, (alike_trimStart hm t).endsIn_eq]

/-! ## Templates -/

/-- All lexemes from the start of a template to its end are asides as they are. -/
theorem Lexeme.Reads.aside?_of_template {l : Lexeme} {next : Option Char} (h : l.Reads m next)
    (hm : m = .template ∨ l.modeAfter m = .template) : l.aside? = some l := by
  have hcode : ∀ {m'}, m = m' → l.modeAfter m' = m' → m' ≠ .template → False := by
    rintro m' rfl hmode hne
    exact hm.elim hne fun htemplate => hne (hmode.symm.trans htemplate)
  cases l with
  | code c => exact (hcode h.1 rfl nofun).elim
  | arrow => exact (hcode h rfl nofun).elim
  | literal s => exact (hcode h.1 rfl nofun).elim
  | lineComment s => exact (hcode h.1 rfl nofun).elim
  | commentChar c => exact (hcode h.1 rfl nofun).elim
  | _ => rfl

theorem scan_of_asides_template : ∀ {m : Mode} {t s : List Char}, m = .template →
    asides m t = s.map .templateChar → scan m t = s.map .templateChar := by
  unfold asides
  intro m t
  fun_induction scan m t with
  | case1 => exact fun _ h => h
  | case2 m c t next =>
    rename_i ih
    rintro s rfl h
    have hreads : next.1.Reads .template next.2.head? := reads_nextLexeme .template c t
    have haside := hreads.aside?_of_template (Or.inl rfl)
    rw [List.filterMap_cons, haside] at h
    cases s with
    | nil => cases h
    | cons d s =>
      obtain ⟨hchar, hrest⟩ := List.cons.inj h
      rw [hchar] at ih hrest ⊢
      rw [ih rfl hrest]
      rfl

/-- A text is told from its asides if they are those of a template that stays open. -/
theorem eq_of_asides_template (h : asides .template t = s.map .templateChar) : t = s := by
  have hflat := congrArg (List.flatMap Lexeme.text) (scan_of_asides_template rfl h)
  rw [scan_flatten, List.flatMap_map] at hflat
  rw [hflat]
  exact List.flatMap_singleton' s

end

/-! ## Lines of code alone -/

section

variable {l : Lexeme} {ls : List Lexeme} {next : Option Char}

theorem Lexeme.modeAfter_of_aside? (h : l.aside? = none) : l.modeAfter .code = .code := by
  cases l <;> first | rfl | cases h

theorem modeAfterAll_of_asides (h : ls.filterMap Lexeme.aside? = []) :
    modeAfterAll .code ls = .code := by
  induction ls with
  | nil => rfl
  | cons l ls ih =>
    rw [List.filterMap_eq_nil_iff, List.forall_mem_cons] at h
    refine (congrArg (modeAfterAll · ls) (Lexeme.modeAfter_of_aside? h.1)).trans (ih ?_)
    exact List.filterMap_eq_nil_iff.2 h.2

theorem Lexeme.Reads.cases_of_aside? (hread : l.Reads .code next) (h : l.aside? = none) :
    (∃ c, l = .code c) ∨ l = .arrow ∨ ∃ s, l = .literal s := by
  cases l with
  | code c => exact Or.inl ⟨c, rfl⟩
  | arrow => exact Or.inr (Or.inl rfl)
  | literal s => exact Or.inr (Or.inr ⟨s, rfl⟩)
  | commentChar c => cases hread.1
  | _ => cases h

theorem asides_of_lineAsides {ls : List (List Char)} (h : lineAsides .code ls = []) :
    ∀ line ∈ ls, asides .code line = [] ∧ endsIn .code line = .code := by
  induction ls with
  | nil => exact nofun
  | cons line ls ih =>
    rw [lineAsides, List.append_eq_nil_iff, List.append_eq_nil_iff] at h
    obtain ⟨⟨-, hline⟩, hls⟩ := h
    have hend : endsIn .code line = .code := modeAfterAll_of_asides hline
    rw [hend] at hls
    exact List.forall_mem_cons.2 ⟨⟨hline, hend⟩, ih hls⟩

end

end ReferencePages
