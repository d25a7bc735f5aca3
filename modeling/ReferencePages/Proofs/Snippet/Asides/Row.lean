import ReferencePages.Proofs.Snippet.Asides.Basic
import ReferencePages.Proofs.Snippet.SetLine

/-!
# Asides on a row

The lexemes of a row are those of the line that it sets, but for spaces, quotes and dropped commas
(`Carries`), none of which is an aside. Each lexeme that is set keeps it so
(`CarriesTo.place`, one step): what stands behind a space is read as before, and so is what stands
before one. So the text of a row is like the text that it sets (`alike_placeAll`), and the same is
true of a line, if blanks at its end are not those of a template (`alike_spaceLine`).
-/

namespace ReferencePages

variable {o : FormatOptions} {m : Mode} {src st : List Lexeme} {l : Lexeme} {c n : Char}
  {next : Option Char} {r : Row}

/-! ## What a row has set -/

/-- Lexemes `st` that a row has set for the lexemes `src`, both the last one first: with its quotes
and in the same order, but with more spaces, and without some blanks and commas. -/
inductive Carries (o : FormatOptions) : List Lexeme → List Lexeme → Prop
  | nil : Carries o [] []
  | space {src st : List Lexeme} (h : Carries o src st) : Carries o src (.code ' ' :: st)
  | push {src st : List Lexeme} (h : Carries o src st) (l : Lexeme) :
    Carries o (l :: src) (l.requoted o :: st)
  | skip {src st : List Lexeme} {c : Char} (h : Carries o src st)
    (hc : isBlank c = true ∨ c = ',') : Carries o (.code c :: src) st

theorem Lexeme.aside?_requoted (l : Lexeme) : (l.requoted o).aside? = l.aside? := by
  cases l <;> rfl

namespace Carries

theorem mode (h : Carries o src st) (m : Mode) :
    modeAfterAll m st.reverse = modeAfterAll m src.reverse := by
  induction h with
  | nil => rfl
  | space h ih => exact (modeAfterAll_reverse_cons m _ _).trans ih
  | push h l ih =>
    rw [modeAfterAll_reverse_cons, modeAfterAll_reverse_cons, Lexeme.modeAfter_requoted, ih]
  | skip h hc ih => exact ih.trans (modeAfterAll_reverse_cons m (.code _) _).symm

theorem asides (h : Carries o src st) :
    st.filterMap Lexeme.aside? = src.filterMap Lexeme.aside? := by
  induction h with
  | nil => rfl
  | space h ih => exact ih
  | push h l ih => rw [List.filterMap_cons, List.filterMap_cons, Lexeme.aside?_requoted, ih]
  | skip h hc ih => exact ih

theorem mem (h : Carries o src st) :
    ∀ k ∈ st, k = .code ' ' ∨ ∃ l ∈ src, k = l.requoted o := by
  have hcons {src : List Lexeme} {k : Lexeme} (l : Lexeme)
      (hk : k = .code ' ' ∨ ∃ l' ∈ src, k = l'.requoted o) :
      k = .code ' ' ∨ ∃ l' ∈ l :: src, k = l'.requoted o :=
    hk.imp_right fun ⟨l', hl', hk⟩ => ⟨l', List.mem_cons_of_mem l hl', hk⟩
  induction h with
  | nil => exact fun _ hk => nomatch hk
  | space h ih => exact List.forall_mem_cons.2 ⟨Or.inl rfl, ih⟩
  | push h l ih =>
    exact List.forall_mem_cons.2
      ⟨Or.inr ⟨l, List.mem_cons_self, rfl⟩, fun k hk => hcons l (ih k hk)⟩
  | skip h hc ih => exact fun k hk => hcons _ (ih k hk)

/-- A blank or a comma of code can be taken back. -/
theorem of_cons (h : Carries o src (.code c :: st)) (hc : isBlank c = true ∨ c = ',') :
    Carries o src st := by
  generalize hcons : Lexeme.code c :: st = st' at h
  induction h with
  | nil => cases hcons
  | space h ih =>
    cases hcons
    exact h
  | push h l ih =>
    obtain ⟨hl, rfl⟩ := List.cons.inj hcons
    rw [Lexeme.requoted_eq_code.1 hl.symm]
    exact h.skip hc
  | skip h hc' ih => exact (ih hcons).skip hc'

theorem dropWhile (h : Carries o src st) : Carries o src (st.dropWhile (·.isSpacing)) := by
  induction st with
  | nil => exact h
  | cons l st ih =>
    by_cases hl : l.isSpacing = true
    · rw [List.dropWhile_cons_of_pos hl]
      cases l with
      | code c => exact ih (h.of_cons (Or.inl hl))
      | _ => cases hl
    · rwa [List.dropWhile_cons_of_neg hl]

end Carries

/-- Lexemes that are read back are read back still when blanks at their end are taken back. -/
theorem ReadBack.exists_dropWhile (h : ReadBack m (some n) st)
    (hmode : modeAfterAll m st.reverse = .code) :
    ∃ n', ReadBack m (some n') (st.dropWhile (·.isSpacing)) ∧
      modeAfterAll m (st.dropWhile (·.isSpacing)).reverse = .code := by
  induction st generalizing n with
  | nil => exact ⟨n, h, hmode⟩
  | cons l st ih =>
    by_cases hl : l.isSpacing = true
    · rw [List.dropWhile_cons_of_pos hl]
      cases l with
      | code c => exact ih h.2 h.1.1
      | _ => cases hl
    · rw [List.dropWhile_cons_of_neg hl]
      exact ⟨n, h, hmode⟩

/-! ## Rows that carry the asides of a line -/

/-- A row after the lexemes `src` of a line, before a character: it carries their asides. -/
def CarriesTo (o : FormatOptions) (m : Mode) (src : List Lexeme) (next : Option Char) (r : Row) :
    Prop :=
  ∃ st, r.reversed = (Row.ofStack st).reversed ∧ ReadBack m next st ∧ Carries o src st

namespace CarriesTo

/-- Only the text of a row matters. -/
theorem of_reversed {r' : Row} (h : CarriesTo o m src next r) (hr : r'.reversed = r.reversed) :
    CarriesTo o m src next r' := by
  unfold CarriesTo
  rwa [hr]

theorem skip (h : CarriesTo o m src next r) (hc : isBlank c = true) :
    CarriesTo o m (.code c :: src) next r := by
  obtain ⟨st, hr, hback, hst⟩ := h
  exact ⟨st, hr, hback, hst.skip (Or.inl hc)⟩

/-- A space behind code. -/
theorem space (h : CarriesTo o m src (some n) r) (hmode : modeAfterAll m src.reverse = .code)
    (next : Option Char) : CarriesTo o m src next (r.push ' ') := by
  obtain ⟨st, hr, hback, hst⟩ := h
  refine ⟨.code ' ' :: st, congrArg (' ' :: ·) hr, ⟨?_, hback.of_apart rfl⟩, hst.space⟩
  rw [hst.mode m, hmode]
  exact Lexeme.reads_space next

/-- A space behind code, unless there is one. -/
theorem pad (h : CarriesTo o m src (some n) r) (hmode : modeAfterAll m src.reverse = .code)
    (next : Option Char) : CarriesTo o m src next r.pad := by
  rw [Row.pad_eq]
  split
  · next hpad =>
    obtain ⟨st, hr, hback, hst⟩ := h
    refine ⟨st, hr, ?_, hst⟩
    have hpadded : (Row.ofStack st).isPadded = true := by rwa [Row.isPadded, ← hr]
    rcases (hback.isPadded_iff ((hst.mode m).trans hmode)).1 hpadded with rfl | hhead
    · trivial
    · obtain ⟨st, rfl⟩ := List.head?_eq_some_iff.1 hhead
      have hcode : modeAfterAll m st.reverse = .code :=
        (modeAfterAll_reverse_cons m (.code ' ') st).symm.trans ((hst.mode m).trans hmode)
      exact ⟨hcode ▸ Lexeme.reads_space next, hback.2⟩
  · exact h.space hmode next

/-- A lexeme. -/
theorem append (h : CarriesTo o m src l.text.head? r)
    (hreads : l.Reads (modeAfterAll m src.reverse) next) :
    CarriesTo o m (l :: src) next (r.append (l.requoted o).text) := by
  obtain ⟨st, hr, hback, hst⟩ := h
  have hhead : ReadBack m (l.requoted o).text.head? st := by
    cases l with
    | literal s =>
      obtain ⟨q, hq, -⟩ := hreads.head?_literal
      obtain ⟨q', hq', hquote⟩ := (hreads.requoted (o := o)).head?_literal
      rw [hq] at hback
      refine hback.of_apart ?_
      rw [show ((Lexeme.literal s).requoted o).text.head? = some q' from hq']
      rcases hquote with rfl | rfl <;> rfl
    | _ => exact hback
  exact ⟨l.requoted o :: st, congrArg ((l.requoted o).text.reverse ++ ·) hr,
    ⟨hst.mode m ▸ hreads.requoted, hhead⟩, hst.push l⟩

/-- A space behind code, unless what follows is not parted from it. -/
theorem spaced {q : Bool} (h : CarriesTo o m src next r) (h' : CarriesTo o m src (some ' ') r)
    (hmode : modeAfterAll m src.reverse = .code) :
    CarriesTo o m src next (if q then r else r.push ' ') := by
  cases q with
  | true => exact h
  | false => exact h'.space hmode next

/-- A comma before a closing bracket is dropped. -/
theorem dropComma (h : CarriesTo o m src (some n) r) (hmode : modeAfterAll m src.reverse = .code)
    (hc : joins c = false) : CarriesTo o m src (some c) r.dropComma := by
  obtain ⟨st, hr, hback, hst⟩ := h
  have hcode := (hst.mode m).trans hmode
  have happend : (some c).all (fun c => !joins c) = true := by simp [hc]
  rw [Row.dropComma, hr, hback.dropWhile_reversed hcode]
  split
  · next rest hrest =>
    obtain ⟨n', hback', hcode'⟩ := hback.exists_dropWhile hcode
    have hst' := hst.dropWhile
    cases hdrop : st.dropWhile (·.isSpacing) with
    | nil =>
      rw [hdrop] at hrest
      cases hrest
    | cons k kept =>
      rw [hdrop] at hrest hback' hcode' hst'
      rw [modeAfterAll_reverse_cons] at hcode'
      rcases hback'.1.exists_reverse hcode' with ⟨d, rfl⟩ | ⟨d, s, hs, -, hd⟩
      · obtain ⟨rfl, rfl⟩ := List.cons.inj hrest
        obtain ⟨n'', hback'', -⟩ := ReadBack.exists_dropWhile hback'.2 hback'.1.1
        refine ⟨kept.dropWhile (·.isSpacing), ?_, hback''.of_apart happend,
          (hst'.of_cons (Or.inr rfl)).dropWhile⟩
        exact ReadBack.dropWhile_reversed hback'.2 hback'.1.1
      · rw [Row.ofStack, Row.keep, hs] at hrest
        exact absurd (List.cons.inj hrest).1 hd
  · exact ⟨st, hr, hback.of_apart happend, hst⟩

/-- A character of code as it stands. -/
theorem char (h : CarriesTo o m src (some c) r)
    (hreads : (Lexeme.code c).Reads (modeAfterAll m src.reverse) next) :
    CarriesTo o m (.code c :: src) next (r.push c) :=
  h.append (l := .code c) hreads

/-- A character of code, with a space behind it unless `q` holds of what follows. -/
theorem charSpaced {q : Bool} (h : CarriesTo o m src (some c) r)
    (hreads : (Lexeme.code c).Reads (modeAfterAll m src.reverse) next) :
    CarriesTo o m (.code c :: src) next (if q then r.push c else (r.push c).push ' ') := by
  have hspace : (Lexeme.code c).Reads (modeAfterAll m src.reverse) (some ' ') :=
    ⟨hreads.1, hreads.2.1, hreads.2.2.1, fun _ => by decide, fun _ => by decide⟩
  refine (h.char hreads).spaced (h.char hspace) ?_
  rw [modeAfterAll_reverse_cons]
  exact hreads.mode_eq

theorem close (h : CarriesTo o m src (some c) r) (hc : isCloser c = true)
    (hreads : (Lexeme.code c).Reads (modeAfterAll m src.reverse) next) :
    CarriesTo o m (.code c :: src) next (r.close o c) := by
  have hjoins : joins c = false := by rcases isCloser_iff.1 hc with rfl | rfl | rfl <;> rfl
  have hmode := hreads.mode_eq
  have hdropped : CarriesTo o m src (some c) (if o.trailingComma then r else r.dropComma) := by
    split
    · exact h
    · exact h.dropComma hmode hjoins
  rw [Row.close_eq]
  generalize (if o.trailingComma then r else r.dropComma) = q at hdropped ⊢
  dsimp only
  refine of_reversed (char ?_ hreads) rfl
  split
  · exact hdropped.of_reversed rfl
  · split
    · exact hdropped.space hmode _
    · exact hdropped

theorem equals (h : CarriesTo o m src (some '=') r)
    (hreads : (Lexeme.code '=').Reads (modeAfterAll m src.reverse) next) :
    CarriesTo o m (.code '=' :: src) next (r.equals next) := by
  rw [Row.equals_eq]
  split
  · exact h.char hreads
  · rw [← Row.pad_eq]
    exact (h.pad hreads.mode_eq _).charSpaced hreads

theorem openBrace (h : CarriesTo o m src (some '\x7b') r)
    (hreads : (Lexeme.code '\x7b').Reads (modeAfterAll m src.reverse) next) :
    CarriesTo o m (.code '\x7b' :: src) next (r.openBrace next) := by
  rw [Row.openBrace_eq]
  refine charSpaced ?_ hreads
  split
  · exact h.space hreads.mode_eq _
  · exact h

/-- A character of code. -/
theorem code (h : CarriesTo o m src (some c) r)
    (hreads : (Lexeme.code c).Reads (modeAfterAll m src.reverse) next) :
    CarriesTo o m (.code c :: src) next (r.code o c next) := by
  unfold Row.code
  split
  · next hc => exact (h.pad hreads.mode_eq next).skip (by rcases hc with rfl | rfl <;> rfl)
  split
  · next hc =>
    subst hc
    exact (h.openBrace hreads).of_reversed rfl
  split
  · exact (h.char hreads).of_reversed rfl
  split
  · next hc => exact h.close hc hreads
  split
  · next hc =>
    subst hc
    exact (h.equals hreads).of_reversed rfl
  split
  · rw [Row.spaceAfter_eq]
    exact (h.charSpaced hreads).of_reversed rfl
  · exact (h.char hreads).of_reversed rfl

/-- One lexeme is set before a character: the row still carries the asides of the line. -/
theorem place (h : CarriesTo o m src l.text.head? r)
    (hreads : l.Reads (modeAfterAll m src.reverse) next) :
    CarriesTo o m (l :: src) next (r.place o l next) := by
  cases l with
  | code c => exact h.code hreads
  | arrow =>
    have hmode : modeAfterAll m src.reverse = .code := hreads
    have harrow (next : Option Char) :
        CarriesTo o m (.arrow :: src) next (r.pad.append ['=', '>']) :=
      (h.pad hmode _).append (l := .arrow) hmode
    rw [Row.place_arrow, Row.spaceAfter_eq]
    refine of_reversed ((harrow next).spaced (harrow _) ?_) rfl
    rw [modeAfterAll_reverse_cons]
    exact hmode
  | literal s => exact (h.append (l := .literal s) hreads).of_reversed rfl
  | openComment => exact (h.append (l := .openComment) hreads).of_reversed rfl
  | openTemplate => exact (h.append (l := .openTemplate) hreads).of_reversed rfl
  | lineComment s => exact h.append (l := .lineComment s) hreads
  | commentChar c => exact h.append (l := .commentChar c) hreads
  | closeComment => exact h.append (l := .closeComment) hreads
  | templateChar c => exact h.append (l := .templateChar c) hreads
  | templateEscape c => exact h.append (l := .templateEscape c) hreads
  | closeTemplate => exact h.append (l := .closeTemplate) hreads

/-- All lexemes of a text are set: the row carries their asides. -/
theorem placeAll {m' : Mode} {t : List Char} : ∀ {src : List Lexeme} {r : Row},
    CarriesTo o m src t.head? r → modeAfterAll m src.reverse = m' →
      CarriesTo o m ((scan m' t).reverse ++ src) none (r.placeAll o (scan m' t)) := by
  fun_induction scan m' t with
  | case1 => exact fun h _ => h
  | case2 m' c s p =>
    rename_i ih
    intro src r h hmode
    have hhead : p.1.text.head? = some c := nextLexeme_fst_text_head? m' c s
    have hnext : (scan (p.1.modeAfter m') p.2).head?.bind (·.text.head?) = p.2.head? :=
      head?_scan _ _
    have hplace : CarriesTo o m (p.1 :: src) p.2.head? (r.place o p.1 p.2.head?) :=
      place (by rwa [hhead]) (hmode ▸ reads_nextLexeme m' c s)
    rw [Row.placeAll, hnext, List.reverse_cons, List.append_assoc, List.singleton_append]
    exact ih hplace (by rw [modeAfterAll_reverse_cons, hmode])

end CarriesTo

/-! ## Lines -/

variable {t line : List Char}

/-- The row of a text carries the asides of its lexemes. -/
theorem carriesTo_placeAll (o : FormatOptions) (m : Mode) (t : List Char) :
    CarriesTo o m (scan m t).reverse none (({} : Row).placeAll o (scan m t)) := by
  have h : CarriesTo o m ((scan m t).reverse ++ []) none (({} : Row).placeAll o (scan m t)) :=
    CarriesTo.placeAll ⟨[], rfl, trivial, .nil⟩ rfl
  rwa [List.append_nil] at h

/-- The text of a row is like the one that is set. -/
theorem alike_placeAll (o : FormatOptions) (m : Mode) (t : List Char) :
    Alike m (({} : Row).placeAll o (scan m t)).text t := by
  obtain ⟨st, hr, hback, hst⟩ := carriesTo_placeAll o m t
  have hscan : scan m (({} : Row).placeAll o (scan m t)).text = st.reverse := by
    rw [Row.text, hr]
    exact hback.scan_text
  constructor
  · rw [asides, hscan, List.filterMap_reverse, hst.asides, List.filterMap_reverse,
      List.reverse_reverse]
    rfl
  · rw [endsIn, hscan, hst.mode m, List.reverse_reverse]
    rfl

theorem mem_placeAll (hc : c ∈ (({} : Row).placeAll o (scan m t)).text) :
    c ∈ t ∨ c = ' ' ∨ c = o.quote := by
  obtain ⟨st, hr, -, hst⟩ := carriesTo_placeAll o m t
  rw [Row.text, hr] at hc
  exact mem_text_of_requoted hst.mem hc

/-- The last lexeme of a text that ends in a template is a part of that. -/
theorem ReadBack.exists_of_template (h : ReadBack m none st) (hm : m ≠ .template)
    (hmode : modeAfterAll m st.reverse = .template) :
    ∃ l st', st = l :: st' ∧ l.aside? = some l := by
  cases st with
  | nil => exact absurd hmode hm
  | cons l st =>
    rw [modeAfterAll_reverse_cons] at hmode
    exact ⟨l, st, rfl, h.1.aside?_of_template (Or.inr hmode)⟩

/-- A row ends with a template as the text does. -/
theorem getLast?_placeAll (o : FormatOptions) (hm : m ≠ .template) (h : endsIn m t = .template) :
    (({} : Row).placeAll o (scan m t)).text.getLast? = t.getLast? := by
  obtain ⟨st, hr, hback, hst⟩ := carriesTo_placeAll o m t
  have hmode : modeAfterAll m (scan m t).reverse.reverse = .template := by
    rwa [List.reverse_reverse]
  have hsrc := readBack_scan m t
  have htext := Row.text_ofStack_scan m t
  generalize (scan m t).reverse = src at hst hmode hsrc htext
  obtain ⟨l, st, rfl, hl⟩ := hback.exists_of_template hm ((hst.mode m).trans hmode)
  obtain ⟨k, src, rfl, hk⟩ := hsrc.exists_of_template hm hmode
  have hasides := hst.asides
  rw [List.filterMap_cons, List.filterMap_cons, hl, hk] at hasides
  obtain ⟨rfl, -⟩ := List.cons.inj hasides
  rw [Row.text, hr, ← Row.text, ← htext, Row.text_ofStack_cons, Row.text_ofStack_cons,
    List.getLast?_append_of_ne_nil _ hback.1.text_ne_nil,
    List.getLast?_append_of_ne_nil _ hback.1.text_ne_nil]

/-- A set line is like the line. Where it begins a template, blanks at its end would be lost. -/
theorem alike_spaceLine (o : FormatOptions)
    (h : m ≠ .template → endsIn m line = .template → trimEnd line = line) :
    Alike m line (spaceLine o m line).text := by
  rw [spaceLine, scannedText]
  dsimp only
  by_cases hm : m = .template
  · rw [if_pos hm, if_pos hm]
    exact (alike_placeAll o m line).symm
  · rw [if_neg hm, if_neg hm]
    have hrow := alike_placeAll o m (trim line)
    by_cases hend : endsIn m line = .template
    · have htrim : trim line = trimStart line := trimEnd_trimStart (h hm hend)
      have hlast : trimEnd (({} : Row).placeAll o (scan m (trim line))).text =
          (({} : Row).placeAll o (scan m (trim line))).text := by
        rw [trimEnd_eq_self_iff, getLast?_placeAll o hm (endsIn_trim hm line ▸ hend),
          ← trimEnd_eq_self_iff]
        exact (trim_eq_self_iff.1 (trim_trim line)).2
      rw [hlast]
      refine Alike.trans ?_ hrow.symm
      rw [htrim]
      exact alike_trimStart hm line
    · have hmode : endsIn m (trim line) ≠ .template := by rwa [endsIn_trim hm]
      exact (alike_trim hm hend).trans
        (hrow.symm.trans (alike_trimEnd (hrow.endsIn_eq ▸ hmode)))

end ReferencePages
