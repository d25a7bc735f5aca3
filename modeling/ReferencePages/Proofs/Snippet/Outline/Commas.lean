import ReferencePages.Proofs.Snippet.Ends
import ReferencePages.Proofs.Snippet.Marks
import ReferencePages.Proofs.Snippet.Outline.Basic
import ReferencePages.Proofs.Snippet.Terminated

/-!
# Commas that are dropped

A comma before a closing bracket is dropped, on a line while its spacing is set and at its end
afterwards. In outlines both are one function (`undangle`): the row of a line of code has the
outline of the line, undangled (`outline_placeAll`), and so has what is kept of all lines
(`outline_keptRows`), where no line hides its comma by two slashes (`CommasShow`). What is undangled
has no comma before a closing bracket if no two commas stand in a row (`not_infix_undangle`).
-/

namespace ReferencePages

/-- A text without the commas before a closing bracket; `next` is the character behind it. -/
def undangle (next : Option Char) : List Char → List Char
  | [] => []
  | c :: s =>
    if c = ',' ∧ (s.head?.or next).any isCloser = true then undangle next s
    else c :: undangle next s

section

variable {next next' : Option Char} {c d : Char} {s t : List Char}

theorem undangle_append (next : Option Char) (s t : List Char) :
    undangle next (s ++ t) = undangle (t.head?.or next) s ++ undangle next t := by
  induction s with
  | nil => rfl
  | cons c s ih =>
    rw [List.cons_append, undangle, undangle, List.head?_append, Option.or_assoc, ih]
    split <;> rfl

theorem undangle_singleton (hc : c ≠ ',') (next : Option Char) : undangle next [c] = [c] :=
  if_neg fun h => hc h.1

/-- Only a comma at the end depends on what is behind. -/
theorem undangle_congr (h : s.getLast? = some ',' → next.any isCloser = next'.any isCloser) :
    undangle next s = undangle next' s := by
  rcases List.eq_nil_or_concat' s with rfl | ⟨s, c, rfl⟩
  · rfl
  · rw [List.getLast?_concat] at h
    rw [undangle_append, undangle_append]
    refine congrArg (undangle (some c) s ++ ·) ?_
    by_cases hc : c = ','
    · subst hc
      simp only [undangle, List.head?_nil, Option.none_or, h rfl]
    · rw [undangle_singleton hc, undangle_singleton hc]

theorem undangle_concat_comma (next : Option Char) (s : List Char) :
    undangle next (s ++ [',']) =
      undangle (some ',') s ++ if next.any isCloser = true then [] else [','] := by
  rw [undangle_append]
  simp [undangle]

theorem getLast?_undangle (s : List Char) : (undangle none s).getLast? = s.getLast? := by
  rcases List.eq_nil_or_concat' s with rfl | ⟨s, c, rfl⟩
  · rfl
  · have hlast : undangle none [c] = [c] := if_neg fun h => Bool.false_ne_true h.2
    rw [undangle_append, hlast, List.getLast?_concat, List.getLast?_concat]

theorem head?_undangle (h : s.head? ≠ some ',') : (undangle next s).head? = s.head? := by
  cases s with
  | nil => rfl
  | cons c s =>
    rw [undangle, if_neg fun hc => h (congrArg some hc.1)]
    rfl

/-- What is undangled begins as before, or with the closing bracket behind a comma. -/
theorem head?_of_undangle (h : (undangle next s).head? = some d) :
    s.head? = some d ∨ isCloser d = true := by
  cases s with
  | nil => cases h
  | cons c s =>
    rw [undangle] at h
    split at h
    · next hc =>
      right
      cases s with
      | nil => cases h
      | cons e s =>
        have he : isCloser e = true := hc.2
        have hcomma : (e :: s).head? ≠ some ',' := fun hcomma => by
          rw [Option.some.inj hcomma] at he
          cases he
        rw [head?_undangle hcomma] at h
        exact Option.some.inj h ▸ he
    · exact Or.inl h

/-- What is undangled has no comma before a closing bracket. -/
theorem not_infix_undangle (h : ¬[',', ','] <:+: s) (hc : isCloser c = true) :
    ¬[',', c] <:+: undangle none s := by
  induction s with
  | nil => exact fun hnil => absurd hnil.length_le (by simp [undangle])
  | cons x s ih =>
    rw [pair_infix_cons_iff, not_or] at h
    rw [undangle]
    split
    · exact ih h.2
    · next hkept =>
      rw [pair_infix_cons_iff, not_or]
      refine ⟨?_, ih h.2⟩
      rintro ⟨rfl, hhead⟩
      rw [head?_undangle fun hcomma => h.1 ⟨rfl, hcomma⟩] at hhead
      exact hkept ⟨rfl, by simp [hhead, hc]⟩

/-- Behind the commas that are kept, but for closing brackets, stands what stood there. -/
theorem infix_of_undangle (hd : isCloser d = false) (h : [',', d] <:+: undangle next s) :
    [',', d] <:+: s := by
  induction s with
  | nil => exact h
  | cons x s ih =>
    rw [undangle] at h
    rw [pair_infix_cons_iff]
    split at h
    · exact Or.inr (ih h)
    · rw [pair_infix_cons_iff] at h
      refine h.imp (fun ⟨hx, hhead⟩ => ⟨hx, ?_⟩) ih
      refine (head?_of_undangle hhead).resolve_right fun hcloser => ?_
      exact Bool.false_ne_true (hd.symm.trans hcloser)

end

/-! ## Rows -/

section

variable {o : FormatOptions} {src : List Lexeme} {l : Lexeme} {r : Row} {next : Option Char}
  {c n : Char} {s t : List Char}

/-- What a row has set of code alone is code alone. -/
theorem CarriesTo.readBack_text (h : CarriesTo o .code src (some n) r)
    (hsrc : src.filterMap Lexeme.aside? = []) :
    ReadBack .code (some n) (scan .code r.text).reverse ∧ asides .code r.text = [] := by
  obtain ⟨st, hr, hback, hst⟩ := h
  have hscan : scan .code r.text = st.reverse := by
    rw [Row.text, hr]
    exact (hback.of_apart rfl : ReadBack .code none st).scan_text
  refine ⟨by rwa [hscan, List.reverse_reverse], ?_⟩
  rw [asides, hscan, List.filterMap_reverse, hst.asides, hsrc]
  rfl

theorem CarriesTo.outline_append (h : CarriesTo o .code src (some n) r)
    (hsrc : src.filterMap Lexeme.aside? = [])
    (hs : s.head? = some n ∨ s.head?.all (fun c => !joins c) = true) :
    outline (r.text ++ s) = outline r.text ++ outline s := by
  obtain ⟨hback, hasides⟩ := h.readBack_text hsrc
  exact ReferencePages.outline_append (hs.elim (fun hs => hs ▸ hback) hback.of_apart) hasides

/-- What is shown of a lexeme has its outline, with a space behind it or none. -/
theorem outline_shown (hreads : l.Reads .code next) (hl : l.aside? = none) {gap : List Char}
    (hgap : IsPadding gap) (hnone : next = none → gap = []) :
    outline (l.shown o ++ gap) = l.outline := by
  have hset {l' : Lexeme} (hreads' : l'.Reads .code next) (hl' : l'.aside? = none) :
      outline (l'.text ++ gap) = l'.outline := by
    have hbehind : l'.Reads .code gap.head? := by
      cases next with
      | none => rwa [hnone rfl]
      | some n => exact hreads'.of_apart (by rcases hgap with rfl | rfl <;> rfl)
    rw [outline, scan_append_text hbehind, List.flatMap_cons, Lexeme.modeAfter_of_aside? hl']
    exact (congrArg (l'.outline ++ ·) (outline_of_blank hgap.isBlank)).trans (List.append_nil _)
  cases l with
  | code c =>
    by_cases hc : c = ' ' ∨ c = '\t'
    · have hblank : isBlank c = true := by rcases hc with rfl | rfl <;> rfl
      rw [Lexeme.shown, if_pos hc, List.nil_append, Lexeme.outline_blank hblank,
        outline_of_blank hgap.isBlank]
    · rw [Lexeme.shown, if_neg hc]
      exact hset hreads hl
  | literal s => exact hset (hreads.requoted (o := o)) rfl
  | _ => exact hset hreads hl

/-- A row without its comma at the end, if there is one, before a closing bracket. -/
theorem CarriesTo.outline_dropComma (h : CarriesTo o .code src (some c) r)
    (hsrc : src.filterMap Lexeme.aside? = []) (hc : isCloser c = true)
    (hr : outline r.text = undangle none s) :
    outline r.dropComma.text = undangle (some c) s := by
  have hmode : modeAfterAll .code src.reverse = .code :=
    modeAfterAll_of_asides (by rw [List.filterMap_reverse, hsrc]; rfl)
  have hjoins : joins c = false := by rcases isCloser_iff.1 hc with rfl | rfl | rfl <;> rfl
  rcases r.dropComma_cases with ⟨htext, hlast⟩ | ⟨b, b', hb, hb', htext, -⟩
  · rw [htext, hr]
    refine undangle_congr fun hcomma => absurd ?_ hlast
    rw [← getLast?_undangle, ← hr] at hcomma
    exact getLast?_trimEnd_of_outline (h.readBack_text hsrc).2 hcomma (by decide)
  · -- The comma is one of code, so it ends the outline of the row.
    have hcomma : outline (b ++ ',' :: b') = [','] := by
      rw [outline_append_of_blank hb, outline_cons rfl, outline_of_blank hb']
      rfl
    have hhead : (b ++ ',' :: b').head?.all (fun c => !joins c) = true := by
      cases b with
      | nil => rfl
      | cons d b =>
        simp [joins_of_isPlain (isPlain_of_isBlank (hb d List.mem_cons_self))]
    have happend := (h.dropComma hmode hjoins).outline_append hsrc (Or.inr hhead)
    rw [List.append_assoc] at htext
    rw [← htext, hcomma, hr] at happend
    have hend : s.getLast? = some ',' := by
      rw [← getLast?_undangle, happend, List.getLast?_concat]
    obtain ⟨s, rfl⟩ := List.getLast?_eq_some_iff.1 hend
    rw [undangle_concat_comma, if_neg (by simp)] at happend
    rw [undangle_concat_comma, if_pos (by simpa using hc), List.append_nil]
    exact (List.append_cancel_right happend).symm

/-- What is shown of a lexeme begins as the lexeme does, or joins nothing. -/
theorem head?_shown_append (hreads : l.Reads .code next) (hn : l.text.head? = some n)
    {gap : List Char} (hgap : IsPadding gap) :
    (l.shown o ++ gap).head? = some n ∨
      (l.shown o ++ gap).head?.all (fun c => !joins c) = true := by
  have hset : l.shown o = l.text → (l.shown o ++ gap).head? = some n := fun hshown => by
    rw [hshown, List.head?_append_of_ne_nil _ hreads.text_ne_nil, hn]
  cases l with
  | code c =>
    by_cases hc : c = ' ' ∨ c = '\t'
    · rw [Lexeme.shown, if_pos hc]
      exact Or.inr (by rcases hgap with rfl | rfl <;> rfl)
    · exact Or.inl (hset (if_neg hc))
  | literal s =>
    obtain ⟨q, hq, hquote⟩ := (hreads.requoted (o := o)).head?_literal
    right
    have hhead : (Lexeme.shown o (.literal s)).head? = some q := hq
    rw [List.head?_append, hhead, Option.some_or]
    rcases hquote with rfl | rfl <;> rfl
  | _ => exact Or.inl (hset rfl)

/-- A lexeme that is set adds to the outline of what it is set behind. -/
theorem CarriesTo.outline_place (h : CarriesTo o .code src l.text.head? (r.base o l))
    (hsrc : src.filterMap Lexeme.aside? = []) (hreads : l.Reads .code next)
    (hl : l.aside? = none) :
    outline (r.place o l next).text = outline (r.base o l).text ++ l.outline := by
  obtain ⟨gap, gap', hgap, hgap', hnone, htext⟩ := Row.exists_text_place o r l next
  obtain ⟨n, u, hn⟩ := List.exists_cons_of_ne_nil hreads.text_ne_nil
  rw [hn, List.head?_cons] at h
  have hhead : (gap ++ (l.shown o ++ gap')).head? = some n ∨
      (gap ++ (l.shown o ++ gap')).head?.all (fun c => !joins c) = true := by
    rcases hgap with rfl | rfl
    · exact head?_shown_append hreads (by rw [hn]; rfl) hgap'
    · exact Or.inr rfl
  rw [htext, List.append_assoc, List.append_assoc, h.outline_append hsrc hhead,
    outline_append_of_blank hgap.isBlank, outline_shown hreads hl hgap' hnone]

theorem undangle_outline (l : Lexeme) : undangle none l.outline = l.outline := by
  cases l with
  | code c =>
    by_cases hc : isBlank c = true
    · rw [Lexeme.outline_blank hc]
      rfl
    · rw [Lexeme.outline_code (Bool.eq_false_iff.2 hc)]
      exact if_neg fun h => Bool.false_ne_true h.2
  | _ => rfl

theorem head?_outline_of_not_closes (h : l.closes = false) :
    (l.outline.head?.or none).any isCloser = false := by
  cases l with
  | code c =>
    by_cases hc : isBlank c = true
    · rw [Lexeme.outline_blank hc]
      rfl
    · rw [Lexeme.outline_code (Bool.eq_false_iff.2 hc)]
      exact h
  | _ => rfl

/-- A lexeme is set: the row still has the outline of the lexemes, undangled. -/
theorem CarriesTo.outline_place_undangle (h : CarriesTo o .code src l.text.head? r)
    (ho : o.trailingComma = false) (hsrc : src.filterMap Lexeme.aside? = [])
    (hreads : l.Reads .code next) (hl : l.aside? = none)
    (hr : outline r.text = undangle none (src.reverse.flatMap Lexeme.outline)) :
    outline (r.place o l next).text =
      undangle none ((l :: src).reverse.flatMap Lexeme.outline) := by
  rw [List.reverse_cons, List.flatMap_append, List.flatMap_singleton]
  by_cases hcloses : l.closes = true
  · obtain ⟨c, rfl, hc⟩ : ∃ c, l = .code c ∧ isCloser c = true := by
      cases l with
      | code c => exact ⟨c, rfl, hcloses⟩
      | _ => cases hcloses
    have hbase : r.base o (.code c) = r.dropComma := if_pos ⟨hcloses, ho⟩
    have hcode : (Lexeme.code c).outline = [c] :=
      Lexeme.outline_code (not_isBlank_of_isCloser hc)
    have hmode : modeAfterAll .code src.reverse = .code :=
      modeAfterAll_of_asides (by rw [List.filterMap_reverse, hsrc]; rfl)
    have hjoins : joins c = false := by rcases isCloser_iff.1 hc with rfl | rfl | rfl <;> rfl
    have hne : c ≠ ',' := by rcases isCloser_iff.1 hc with rfl | rfl | rfl <;> decide
    rw [outline_place (by rw [hbase]; exact CarriesTo.dropComma h hmode hjoins) hsrc hreads hl,
      hbase, outline_dropComma h hsrc hc hr, hcode, undangle_append, undangle_singleton hne]
    rfl
  · have hopen : l.closes = false := Bool.eq_false_iff.2 hcloses
    have hbase : r.base o l = r := Row.base_of_not_closes hopen
    rw [outline_place (by rwa [hbase]) hsrc hreads hl, hbase, hr, undangle_append,
      undangle_outline]
    refine congrArg (· ++ l.outline) (undangle_congr fun _ => ?_)
    exact (head?_outline_of_not_closes hopen).symm

theorem CarriesTo.outline_placeAll (ho : o.trailingComma = false) :
    ∀ {src : List Lexeme} {r : Row}, CarriesTo o .code src t.head? r →
      src.filterMap Lexeme.aside? = [] → asides .code t = [] →
      outline r.text = undangle none (src.reverse.flatMap Lexeme.outline) →
      outline (r.placeAll o (scan .code t)).text =
        undangle none ((src.reverse ++ scan .code t).flatMap Lexeme.outline) := by
  unfold asides
  generalize hm : Mode.code = m
  fun_induction scan m t with
  | case1 =>
    intro src r _ _ _ hr
    rw [List.append_nil]
    exact hr
  | case2 m c s p =>
    rename_i ih
    subst hm
    intro src r h hsrc ht hr
    rw [List.filterMap_eq_nil_iff, List.forall_mem_cons, ← List.filterMap_eq_nil_iff] at ht
    have hmode := Lexeme.modeAfter_of_aside? ht.1
    rw [hmode] at ih ht
    have hsrcMode : modeAfterAll .code src.reverse = .code :=
      modeAfterAll_of_asides (by rw [List.filterMap_reverse, hsrc]; rfl)
    have hhead : p.1.text.head? = some c := nextLexeme_fst_text_head? .code c s
    have hreads : p.1.Reads .code p.2.head? := reads_nextLexeme .code c s
    have h' : CarriesTo o .code src p.1.text.head? r := by rwa [hhead]
    rw [Row.placeAll, head?_scan, ← List.singleton_append, ← List.append_assoc,
      ← List.reverse_cons]
    rw [hmode]
    refine ih rfl (h'.place (hsrcMode.symm ▸ hreads)) ?_ ht.2 ?_
    · rw [List.filterMap_cons, ht.1, hsrc]
    · exact h'.outline_place_undangle ho hsrc hreads ht.1 hr

/-- The row of a line of code has the outline of the line, undangled. -/
theorem outline_placeAll (ho : o.trailingComma = false) (ht : asides .code t = []) :
    outline (({} : Row).placeAll o (scan .code t)).text = undangle none (outline t) :=
  CarriesTo.outline_placeAll ho ⟨[], rfl, trivial, .nil⟩ rfl ht outline_nil

/-- New quotes do not make a literal end in a backslash. -/
theorem Lexeme.EndsInBackslash.of_requoted {m : Mode} (h : (l.requoted o).EndsInBackslash)
    (hreads : l.Reads m next) : l.EndsInBackslash := by
  cases l with
  | literal s =>
    obtain ⟨-, q, a, closed, rfl, hq, hrest, -⟩ := hreads
    obtain ⟨q', a', heq, hq', hrest', -⟩ := hrest.exists_requote hq (o := o)
    have hends : LiteralRest q' true a' ∧ a'.dropLast.getLast? = some '\\' := by
      rw [Lexeme.requoted, heq] at h
      exact h
    obtain rfl : closed = true := by
      by_contra hopen
      rw [Bool.not_eq_true] at hopen
      subst hopen
      have hspace : ' ' ≠ q' := by rcases hq' with rfl | rfl <;> decide
      exact hends.1.not_concat hq' (hrest'.concat hspace)
    refine ⟨hrest, ?_⟩
    unfold requote at heq
    dsimp only at heq
    split at heq
    · rw [List.cons_append] at heq
      obtain ⟨-, rfl⟩ := List.cons.inj heq
      rw [List.dropLast_concat, getLast?_unescapeQuote] at hends
      exact hends.2
    · obtain ⟨-, rfl⟩ := List.cons.inj heq
      exact hends.2
  | _ => exact h

theorem Orderly.placeAll (h : Orderly t) :
    Orderly (({} : Row).placeAll o (scan .code t)).text := by
  refine ⟨(alike_placeAll o .code t).asides_eq.trans h.asides, fun l hl => ?_⟩
  obtain ⟨st, hr, hback, hst⟩ := carriesTo_placeAll o .code t
  rw [Row.text, hr, ← Row.text, hback.scan_text, List.mem_reverse] at hl
  rcases hst.mem l hl with rfl | ⟨k, hk, rfl⟩
  · exact id
  · rw [List.mem_reverse] at hk
    obtain ⟨m, next, hreads⟩ := exists_reads_of_mem_scan hk
    exact fun hends => h.ends k hk (hends.of_requoted hreads)

theorem Orderly.spaceLine (h : Orderly t) : Orderly (spaceLine o .code t).text :=
  orderly_trimEnd_iff.2 (orderly_trim_iff.2 h).placeAll

/-- A line with its spacing set has the outline of the line, undangled. -/
theorem outline_spaceLine (ho : o.trailingComma = false) (h : Orderly t) :
    outline (spaceLine o .code t).text = undangle none (outline t) := by
  have hrow := outline_placeAll ho (orderly_trim_iff.2 h).asides
  rw [outline_trim] at hrow
  exact (outline_trimEnd _).trans hrow

end

/-! ## Kept lines -/

/-- No line before a closing bracket hides the comma at its end by two slashes. -/
def CommasShow : List (List Char) → Prop
  | [] => True
  | line :: rest =>
    ((leadChar rest).any isCloser = true → (trim line).getLast? = some ',' →
      ¬['/', '/'] <:+: line) ∧ CommasShow rest

instance decidableCommasShow : ∀ ls : List (List Char), Decidable (CommasShow ls)
  | [] => isTrue trivial
  | _ :: rest =>
    have := decidableCommasShow rest
    inferInstanceAs (Decidable (_ ∧ _))

section

variable {o : FormatOptions} {line : List Char} {ls : List (List Char)} {d : Char}

theorem any_leadChar_outline (h : ∀ line ∈ ls, Orderly line) :
    (leadChar ls).any isCloser = (ls.flatMap outline).head?.any isCloser := by
  induction ls with
  | nil => rfl
  | cons line ls ih =>
    obtain ⟨hline, hls⟩ := List.forall_mem_cons.1 h
    rw [List.flatMap_cons]
    by_cases hblank : trim line = []
    · rw [leadChar_cons_of_blank hblank, hline.outline_eq_nil_iff.2 hblank, ih hls]
      rfl
    · rw [leadChar_cons_of_ne_nil hblank, ← hline.any_head?_outline,
        List.head?_append_of_ne_nil _ (mt hline.outline_eq_nil_iff.1 hblank)]

/-- With their spacing set, lines begin as before, unless they begin with a comma. -/
theorem any_leadChar_spaceLine (ho : o.trailingComma = false) (h : ∀ line ∈ ls, Orderly line)
    (hcomma : (ls.flatMap outline).head? ≠ some ',') :
    (leadChar (ls.map fun line => (spaceLine o .code line).text)).any isCloser =
      (ls.flatMap outline).head?.any isCloser := by
  rw [any_leadChar_outline (List.forall_mem_map.2 fun line hline => (h line hline).spaceLine)]
  refine congrArg (Option.any isCloser) ?_
  induction ls with
  | nil => rfl
  | cons line ls ih =>
    obtain ⟨hline, hls⟩ := List.forall_mem_cons.1 h
    rw [List.flatMap_cons, List.head?_append] at hcomma ⊢
    rw [List.map_cons, List.flatMap_cons, List.head?_append, outline_spaceLine ho hline]
    by_cases hnil : outline line = []
    · rw [hnil] at hcomma ⊢
      exact ih hls hcomma
    · obtain ⟨c, s, hc⟩ := List.exists_cons_of_ne_nil hnil
      rw [hc] at hcomma ⊢
      have hhead : (c :: s).head? ≠ some ',' := hcomma
      rw [head?_undangle hhead]
      rfl

/-- A comma of code that shows at the end of a line, before a closing bracket, is dropped. -/
theorem loses_of_outline (ho : o.trailingComma = false) (hline : Orderly line)
    (hls : ∀ line ∈ ls, Orderly line) (hshow : CommasShow (line :: ls))
    (hlast : (outline line).getLast? = some ',')
    (hcloser : (ls.flatMap outline).head?.any isCloser = true) :
    Loses o (spaceLine o .code line) (ls.map fun line => (spaceLine o .code line).text) := by
  have htrim : (trim line).getLast? = some ',' := by
    rw [← outline_trim] at hlast
    have hend := getLast?_trimEnd_of_outline (orderly_trim_iff.2 hline).asides hlast (by decide)
    rwa [(trim_eq_self_iff.1 (trim_trim line)).2] at hend
  have hrow : (spaceLine o .code line).text.getLast? = some ',' :=
    (getLast?_text_spaceLine_iff o (by decide)).2 htrim
  have hne : trim line ≠ [] := fun hnil => by
    rw [hnil] at htrim
    cases htrim
  have hslashes : contains ['/', '/'] (spaceLine o .code line).text = false := by
    refine contains_eq_false_iff.2 fun hslashes => ?_
    rw [text_spaceLine o hne] at hslashes
    obtain ⟨b, b', -, -, heq⟩ := exists_eq_append_trim line
    exact hshow.1 ((any_leadChar_outline hls).trans hcloser) htrim
      ((slashes_of_placeAll (orderly_trim_iff.2 hline).asides hslashes).trans ⟨b, b', heq.symm⟩)
  have hcomma : (ls.flatMap outline).head? ≠ some ',' := fun hhead => by
    rw [hhead] at hcloser
    cases hcloser
  exact ⟨ho, rfl, hrow, hslashes, (any_leadChar_spaceLine ho hls hcomma).trans hcloser⟩

/-- A row without the comma at its end has the outline of the line, if that comma may go. -/
theorem outline_of_concat_comma {row : List Char} {next : Option Char} (hrow : Orderly row)
    (hout : outline (row ++ [',']) = undangle none (outline line))
    (hnext : (outline line).getLast? = some ',' → next.any isCloser = true) :
    outline row = undangle next (outline line) := by
  rcases outline_concat_cases (c := ',') rfl hrow.asides with hcase | ⟨hcase, hquote⟩
  · have hcode : (Lexeme.code ',').outline = [','] := Lexeme.outline_code rfl
    rw [hcode, hout] at hcase
    have hend : (outline line).getLast? = some ',' := by
      rw [← getLast?_undangle, hcase, List.getLast?_concat]
    obtain ⟨s, hs⟩ := List.getLast?_eq_some_iff.1 hend
    rw [hs, undangle_concat_comma, if_neg (by simp)] at hcase
    rw [hs, undangle_concat_comma, if_pos (hnext hend), List.append_nil]
    exact (List.append_cancel_right hcase).symm
  · -- The comma belongs to a literal that is not closed.
    rw [← hcase, hout, getLast?_undangle] at hquote
    rw [← hcase, hout]
    refine undangle_congr fun hcomma => ?_
    cases hcomma.symm.trans hquote

/-- What is kept of a line has its outline, undangled before the lines behind it. -/
theorem exists_outline_keptRows_cons (ho : o.trailingComma = false) (depth : Int)
    (hline : Orderly line) (hls : ∀ line ∈ ls, Orderly line) (hshow : CommasShow (line :: ls))
    (hcommas : (outline line).getLast? = some ',' → (ls.flatMap outline).head? ≠ some ',') :
    ∃ kept depth', keptRows o depth (line :: ls) = kept :: keptRows o depth' ls ∧ Orderly kept ∧
      outline kept = undangle (ls.flatMap outline).head? (outline line) := by
  obtain ⟨depth', pre, hpre, hcons⟩ := keptRows_cons o depth line ls
  have hrow : Orderly (pre ++ (spaceLine o .code line).text) :=
    (orderly_append_of_blank_iff hpre).2 hline.spaceLine
  have hout : outline (pre ++ (spaceLine o .code line).text) = undangle none (outline line) := by
    rw [outline_append_of_blank hpre, outline_spaceLine ho hline]
  refine ⟨_, depth', hcons, ?_⟩
  split
  · next hloses =>
    obtain ⟨-, -, hlast, -, hcloser⟩ := hloses
    obtain ⟨row, hrowEq⟩ := List.getLast?_eq_some_iff.1 hlast
    rw [hrowEq, ← List.append_assoc] at hrow hout
    rw [hrowEq, ← List.append_assoc, List.dropLast_concat]
    have hkept : Orderly (pre ++ row) := (orderly_concat_iff rfl).1 hrow
    refine ⟨hkept, outline_of_concat_comma hkept hout fun hend => ?_⟩
    rwa [any_leadChar_spaceLine ho hls (hcommas hend)] at hcloser
  · next hkept =>
    refine ⟨hrow, hout.trans (undangle_congr fun hlast => ?_)⟩
    by_contra hnone
    rw [Option.any_none, eq_comm, Bool.not_eq_false] at hnone
    exact hkept (loses_of_outline ho hline hls hshow hlast hnone)

/-- What is kept of lines of code has their outline, undangled. -/
theorem outline_keptRows (ho : o.trailingComma = false) (depth : Int)
    (h : ∀ line ∈ ls, Orderly line) (hshow : CommasShow ls)
    (hcommas : ¬[',', ','] <:+: ls.flatMap outline) :
    (keptRows o depth ls).flatMap outline = undangle none (ls.flatMap outline) ∧
      ∀ kept ∈ keptRows o depth ls, Orderly kept ∧
        ∀ d, isCloser d = false → [',', d] <:+: outline kept →
          ∃ line ∈ ls, [',', d] <:+: outline line := by
  induction ls generalizing depth with
  | nil =>
    have hnil : keptRows o depth [] = [] := by
      rw [keptRows, List.map_nil, indentLines, keptLines_nil]
      rfl
    rw [hnil]
    exact ⟨rfl, fun kept hkept => absurd hkept List.not_mem_nil⟩
  | cons line ls ih =>
    obtain ⟨hline, hls⟩ := List.forall_mem_cons.1 h
    rw [List.flatMap_cons] at hcommas
    have hseam : (outline line).getLast? = some ',' → (ls.flatMap outline).head? ≠ some ',' :=
      fun hlast hhead => hcommas (pair_infix_of_append hlast hhead)
    obtain ⟨kept, depth', hcons, hkept, hout⟩ :=
      exists_outline_keptRows_cons ho depth hline hls hshow hseam
    obtain ⟨hrest, hmem⟩ := ih depth' hls hshow.2 fun hsub =>
      hcommas (hsub.trans (List.suffix_append _ _).isInfix)
    rw [hcons]
    refine ⟨?_, List.forall_mem_cons.2 ⟨⟨hkept, fun d hd hsub => ?_⟩, fun k hk => ?_⟩⟩
    · rw [List.flatMap_cons, List.flatMap_cons, hout, hrest, undangle_append, Option.or_none]
    · rw [hout] at hsub
      exact ⟨line, List.mem_cons_self, infix_of_undangle hd hsub⟩
    · obtain ⟨hk, hbar⟩ := hmem k hk
      refine ⟨hk, fun d hd hsub => ?_⟩
      obtain ⟨l, hl, hlinfix⟩ := hbar d hd hsub
      exact ⟨l, List.mem_cons_of_mem line hl, hlinfix⟩

end

end ReferencePages
