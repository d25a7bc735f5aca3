import ReferencePages.Proofs.Snippet.SetLine

/-!
# Laid out lines

Lines are laid out if each one is a set line behind its indentation and none has a comma that
would be dropped (`Laid`). Laying them out again changes nothing (`Laid.keptLines_eq`). Lines whose
commas can be dropped are laid out once (`SteadyLines.laid`), and stay so when empty lines collapse
(`Laid.laid_collapseBlanks`) and when the last line gets a semicolon (`Laid.concat_semicolon`).
-/

namespace ReferencePages

/-! ## The first character of some lines -/

/-- The first character that is not blank. -/
def leadChar (ls : List (List Char)) : Option Char := ls.findSome? fun line => (trim line).head?

theorem leadChar_cons (line : List Char) (ls : List (List Char)) :
    leadChar (line :: ls) = (trim line).head?.or (leadChar ls) := by
  rw [leadChar, List.findSome?_cons]
  cases (trim line).head? <;> rfl

theorem leadChar_cons_of_blank {line : List Char} (h : trim line = []) (ls : List (List Char)) :
    leadChar (line :: ls) = leadChar ls := by
  rw [leadChar_cons, h]
  rfl

theorem leadChar_cons_of_ne_nil {line : List Char} (h : trim line ≠ []) (ls : List (List Char)) :
    leadChar (line :: ls) = (trim line).head? := by
  obtain ⟨c, s, hline⟩ := List.exists_cons_of_ne_nil h
  rw [leadChar_cons, hline]
  rfl

theorem leadChar_append_congr {ks ls : List (List Char)} (h : leadChar ks = leadChar ls)
    (ps : List (List Char)) : leadChar (ps ++ ks) = leadChar (ps ++ ls) := by
  induction ps with
  | nil => exact h
  | cons p ps ih => rw [List.cons_append, List.cons_append, leadChar_cons, leadChar_cons, ih]

theorem leadChar_collapseBlanks (seen gap : Bool) (ls : List (List Char)) :
    leadChar (collapseBlanks seen gap ls) = leadChar ls := by
  induction ls generalizing seen gap with
  | nil => rfl
  | cons line ls ih =>
    rw [collapseBlanks]
    split
    · next hblank => rw [ih, leadChar_cons_of_blank (List.isEmpty_iff.1 hblank)]
    · cases gap with
      | false => exact (leadChar_cons _ _).trans ((ih _ _ ▸ leadChar_cons line ls).symm)
      | true =>
        exact (leadChar_cons_of_blank rfl _).trans
          ((leadChar_cons _ _).trans ((ih _ _ ▸ leadChar_cons line ls).symm))

theorem closesNext_eq (ls : List SnippetLine) :
    closesNext ls = (leadChar (ls.map SnippetLine.text)).any isCloser := by
  induction ls with
  | nil => rfl
  | cons l ls ih =>
    rw [List.map_cons]
    by_cases hblank : trim l.text = []
    · rw [leadChar_cons_of_blank hblank, ← ih, closesNext, closesNext,
        List.find?_cons_of_neg (by simp [hblank])]
    · rw [leadChar_cons_of_ne_nil hblank, closesNext,
        List.find?_cons_of_pos (by simpa using hblank)]

/-! ## Dangling commas -/

/-- A comma at the end of a line of code that closing brackets follow. -/
def Dangles (line : List Char) (rest : List (List Char)) : Prop :=
  line.getLast? = some ',' ∧ contains ['/', '/'] line = false ∧
    (leadChar rest).any isCloser = true

instance (line : List Char) (rest : List (List Char)) : Decidable (Dangles line rest) :=
  inferInstanceAs (Decidable (_ ∧ _ ∧ _))

/-- The comma at the end of a line can be dropped: it is one of code, and another comma or a blank
does not stand before it. -/
def DropsLast (line : List Char) : Prop :=
  (scan .code line).getLast? = some (.code ',') ∧
    line.dropLast.getLast?.any (fun c => !isBlank c && c != ',') = true

instance (line : List Char) : Decidable (DropsLast line) :=
  inferInstanceAs (Decidable (_ ∧ _))

/-- The lines with the commas that the settings leave. -/
def keptLines (o : FormatOptions) (ls : List SnippetLine) : List SnippetLine :=
  if o.trailingComma then ls else dropDanglingCommas ls

/-- Whether the comma at the end of a line is dropped. -/
def Loses (o : FormatOptions) (line : SnippetLine) (rest : List (List Char)) : Prop :=
  o.trailingComma = false ∧ line.opensIn = .code ∧ Dangles line.text rest

instance (o : FormatOptions) (line : SnippetLine) (rest : List (List Char)) :
    Decidable (Loses o line rest) :=
  inferInstanceAs (Decidable (_ ∧ _ ∧ _))

theorem keptLines_nil (o : FormatOptions) : keptLines o [] = [] := by
  unfold keptLines
  split <;> rfl

theorem keptLines_cons (o : FormatOptions) (line : SnippetLine) (rest : List SnippetLine) :
    keptLines o (line :: rest) =
      (if Loses o line (rest.map SnippetLine.text) then { line with text := line.text.dropLast }
        else line) :: keptLines o rest := by
  by_cases ht : o.trailingComma = true
  · have hloses : ¬Loses o line (rest.map SnippetLine.text) := fun h => nomatch ht.symm.trans h.1
    rw [keptLines, keptLines, if_pos ht, if_pos ht, if_neg hloses]
  · rw [keptLines, keptLines, if_neg ht, if_neg ht, dropDanglingCommas]
    refine congrArg (· :: dropDanglingCommas rest) (if_congr ?_ rfl rfl)
    rw [Bool.not_eq_true] at ht
    rw [closesNext_eq]
    exact ⟨fun h => ⟨ht, h⟩, fun h => h.2⟩

/-! ## Laid out lines -/

/-- Lines behind their indentation, from a mode and a depth of brackets on. -/
inductive Laid (o : FormatOptions) : Mode → Int → List (List Char) → Prop
  | nil {m : Mode} {depth : Int} : Laid o m depth []
  | cons {m : Mode} {depth : Int} {rest : List (List Char)} (st : List Lexeme)
      (hline : SetLine o m st)
      (hcomma : o.trailingComma = false → m = .code →
        ¬Dangles (indentLine o depth (lineOf m st)) rest)
      (hrest : Laid o (modeAfterAll m st.reverse) (depth + (lineOf m st).delta) rest) :
      Laid o m depth (indentLine o depth (lineOf m st) :: rest)

/-- Lines that can be laid out for good. -/
def SteadyLines (o : FormatOptions) (m : Mode) : List (List Char) → Prop
  | [] => True
  | line :: rest =>
    let next := modeAfterAll m (scan m (scannedText m line))
    SteadyLine o m line ∧
      (Loses o (spaceLine o m line) ((spaceLines o next rest).map SnippetLine.text) →
        DropsLast (spaceLine o m line).text) ∧
      SteadyLines o next rest

instance decidableSteadyLines (o : FormatOptions) :
    ∀ (m : Mode) (ls : List (List Char)), Decidable (SteadyLines o m ls)
  | _, [] => isTrue trivial
  | m, line :: rest =>
    have := decidableSteadyLines o (modeAfterAll m (scan m (scannedText m line))) rest
    inferInstanceAs (Decidable (_ ∧ _ ∧ _))

section

variable {o : FormatOptions} {m : Mode} {depth : Int} {ls : List (List Char)}

theorem leadChar_indentLines (o : FormatOptions) (depth : Int) (ls : List SnippetLine) :
    leadChar ((indentLines o depth ls).map SnippetLine.text) =
      leadChar (ls.map SnippetLine.text) := by
  induction ls generalizing depth with
  | nil => rfl
  | cons l ls ih =>
    rw [indentLines, List.map_cons, List.map_cons, leadChar_cons, leadChar_cons, ih,
      trim_indentLine]

theorem contains_slashes_indentLine (o : FormatOptions) (depth : Int) (line : SnippetLine) :
    contains ['/', '/'] (indentLine o depth line) = contains ['/', '/'] line.text := by
  obtain ⟨pre, hpre, hline, -⟩ := exists_indentLine o depth line
  rw [hline, Bool.eq_iff_iff, contains_iff, contains_iff]
  refine ⟨fun h => infix_append_of_blank (isBlank_of_indent hpre) ?_ h, fun h => ?_⟩
  · exact fun c hc => by
      obtain rfl : c = '/' := by simpa using hc
      rfl
  · exact h.trans (List.suffix_append pre line.text).isInfix

theorem getLast?_indentLine (o : FormatOptions) (depth : Int) (line : SnippetLine) {c : Char}
    (hc : isBlank c = false) :
    (indentLine o depth line).getLast? = some c ↔ line.text.getLast? = some c := by
  obtain ⟨pre, hpre, hline, -⟩ := exists_indentLine o depth line
  rw [hline]
  by_cases hnil : line.text = []
  · rw [hnil, List.append_nil]
    refine ⟨fun hlast => ?_, fun hlast => nomatch hlast⟩
    have hblank := isBlank_of_indent hpre c (List.mem_of_getLast? hlast)
    rw [hc] at hblank
    cases hblank
  · rw [List.getLast?_append_of_ne_nil _ hnil]

theorem dangles_indentLine_iff (o : FormatOptions) (depth : Int) (line : SnippetLine)
    (rest : List (List Char)) :
    Dangles (indentLine o depth line) rest ↔ Dangles line.text rest := by
  unfold Dangles
  rw [getLast?_indentLine o depth line rfl, contains_slashes_indentLine]

/-- Indentation does not change which commas are dropped. -/
theorem loses_indentLine_iff (o : FormatOptions) (depth depth' : Int) (line : SnippetLine)
    (rest : List SnippetLine) :
    Loses o { line with text := indentLine o depth line }
        ((indentLines o depth' rest).map SnippetLine.text) ↔
      Loses o line (rest.map SnippetLine.text) := by
  unfold Loses
  rw [dangles_indentLine_iff, Dangles, Dangles, leadChar_indentLines]

/-- A set line without the comma at its end, if that can be dropped. -/
theorem SetLine.exists_dropLast {st : List Lexeme} (h : SetLine o .code st)
    (hdrops : DropsLast (lineOf .code st).text) :
    ∃ st', SetLine o .code st' ∧ st = .code ',' :: st' ∧ (lineOf .code st').text ≠ [] ∧
      (lineOf .code st').text.getLast? ≠ some ',' := by
  obtain ⟨hcomma, hlast⟩ := hdrops
  have hscan : scan .code (lineOf .code st).text = st.reverse := h.settled.scan_text
  rw [hscan, List.getLast?_reverse] at hcomma
  obtain ⟨st', rfl⟩ := List.head?_eq_some_iff.1 hcomma
  have hdrop : (lineOf .code (.code ',' :: st')).text.dropLast = (lineOf .code st').text := by
    rw [text_lineOf_cons]
    exact List.dropLast_concat
  rw [hdrop, Option.any_eq_true] at hlast
  obtain ⟨c, hc, hkeep⟩ := hlast
  rw [Bool.and_eq_true, Bool.not_eq_true', bne_iff_ne] at hkeep
  refine ⟨st', h.of_comma ?_, rfl, ?_, ?_⟩
  · rw [hc]
    exact fun d hd => Option.some.inj hd ▸ hkeep.1
  · rintro hnil
    rw [hnil] at hc
    cases hc
  · rw [hc]
    exact fun heq => hkeep.2 (Option.some.inj heq)

/-- Lines that can be laid out for good are laid out, and start as they did. -/
theorem SteadyLines.laid (h : SteadyLines o m ls) (hfeed : ∀ line ∈ ls, '\n' ∉ line) :
    Laid o m depth ((keptLines o (indentLines o depth (spaceLines o m ls))).map SnippetLine.text) ∧
      leadChar ((keptLines o (indentLines o depth (spaceLines o m ls))).map SnippetLine.text) =
        leadChar ((spaceLines o m ls).map SnippetLine.text) := by
  induction ls generalizing m depth with
  | nil =>
    rw [spaceLines, indentLines, keptLines_nil]
    exact ⟨.nil, rfl⟩
  | cons line rest ih =>
    obtain ⟨hline, hdrops, hrest⟩ := h
    obtain ⟨hlineFeed, hrestFeed⟩ := List.forall_mem_cons.1 hfeed
    obtain ⟨st, hst, hspace, hmode⟩ := hline.exists_setLine hlineFeed
    rw [hspace, hmode] at hdrops
    rw [hmode] at hrest
    rw [spaceLines, hspace, hmode]
    obtain ⟨hlaid, hlead⟩ := @ih _ (depth + (lineOf m st).delta) hrest hrestFeed
    generalize spaceLines o (modeAfterAll m st.reverse) rest = spaced at hlaid hlead hdrops ⊢
    rw [indentLines, keptLines_cons, List.map_cons, List.map_cons]
    split
    · next hloses =>
      obtain rfl : m = .code := hloses.2.1
      rw [loses_indentLine_iff] at hloses
      obtain ⟨st', hst', rfl, hne, hlast⟩ := hst.exists_dropLast (hdrops hloses)
      have hclosers : (lineOf .code (.code ',' :: st')).closers = (lineOf .code st').closers :=
        if_neg (by simp [Lexeme.closes, isCloser])
      have hindent : indentLine o depth (lineOf .code (.code ',' :: st')) =
          indentLine o depth (lineOf .code st') ++ [','] :=
        indentLine_append depth hne rfl hclosers (text_lineOf_cons _ _ _)
      have hdelta : (lineOf .code (.code ',' :: st')).delta = (lineOf .code st').delta :=
        Int.add_zero _
      rw [modeAfterAll_reverse_cons, hdelta] at hlaid
      dsimp only
      rw [hindent, List.dropLast_concat, hdelta]
      refine ⟨.cons st' hst' (fun _ _ hdangles => hlast ?_) hlaid, ?_⟩
      · exact (getLast?_indentLine o depth _ rfl).1 hdangles.1
      · have htrim : trim (lineOf .code st').text ≠ [] := by rwa [hst'.trimmed (by decide)]
        rw [leadChar_cons_of_ne_nil (by rwa [trim_indentLine]), trim_indentLine,
          hst'.trimmed (by decide), leadChar_cons_of_ne_nil, hst.trimmed (by decide),
          text_lineOf_cons, List.head?_append_of_ne_nil _ hne]
        rw [hst.trimmed (by decide), text_lineOf_cons]
        exact List.append_ne_nil_of_left_ne_nil hne _
    · next hloses =>
      refine ⟨.cons st hst (fun htrailing hcode hdangles => hloses ?_) hlaid, ?_⟩
      · refine ⟨htrailing, hcode, hdangles.1, hdangles.2.1, ?_⟩
        rw [leadChar_indentLines, ← hlead]
        exact hdangles.2.2
      · rw [leadChar_cons, leadChar_cons, hlead, trim_indentLine]

/-- Laid out lines are indented to themselves. -/
theorem Laid.map_text_indentLines (h : Laid o m depth ls) :
    (indentLines o depth (spaceLines o m ls)).map SnippetLine.text = ls := by
  induction h with
  | nil => rfl
  | @cons m depth rest st hline hcomma hrest ih =>
    have hscanned := hline.scannedText_indentLine depth
    rw [spaceLines, hline.spaceLine_eq hscanned, hline.modeAfterAll_scan hscanned, indentLines,
      List.map_cons, ih]

/-- Laid out lines keep all commas that the settings leave. -/
theorem Laid.keptLines_eq (h : Laid o m depth ls) :
    (keptLines o (indentLines o depth (spaceLines o m ls))).map SnippetLine.text = ls := by
  induction h with
  | nil => rw [spaceLines, indentLines, keptLines_nil, List.map_nil]
  | @cons m depth rest st hline hcomma hrest ih =>
    have hscanned := hline.scannedText_indentLine depth
    rw [spaceLines, hline.spaceLine_eq hscanned, hline.modeAfterAll_scan hscanned, indentLines,
      keptLines_cons, hrest.map_text_indentLines, if_neg, List.map_cons, ih]
    rintro ⟨htrailing, hcode, hdangles⟩
    exact hcomma htrailing hcode hdangles

end

/-! ## Collapsed lines -/

section

variable {o : FormatOptions} {m : Mode} {depth : Int} {ls : List (List Char)}

theorem collapseBlanks_cons_of_blank {line : List Char} (h : trim line = []) (seen gap : Bool)
    (ls : List (List Char)) :
    collapseBlanks seen gap (line :: ls) = collapseBlanks seen seen ls := by
  rw [collapseBlanks, h]
  rfl

theorem collapseBlanks_cons_of_ne_nil {line : List Char} (h : trim line ≠ []) (seen gap : Bool)
    (ls : List (List Char)) :
    collapseBlanks seen gap (line :: ls) =
      (if gap then [[]] else []) ++ line :: collapseBlanks true false ls := by
  rw [collapseBlanks, if_neg (by simpa using h)]

/-- What collapses behind some lines depends on them only by what has been kept of them. -/
theorem exists_collapseBlanks_append (seen gap : Bool) (ps : List (List Char)) :
    ∃ seen' gap', ∀ ls, collapseBlanks seen gap (ps ++ ls) =
      collapseBlanks seen gap ps ++ collapseBlanks seen' gap' ls := by
  induction ps generalizing seen gap with
  | nil => exact ⟨seen, gap, fun ls => rfl⟩
  | cons p ps ih =>
    by_cases hp : trim p = []
    · obtain ⟨seen', gap', h⟩ := ih seen seen
      refine ⟨seen', gap', fun ls => ?_⟩
      rw [List.cons_append, collapseBlanks_cons_of_blank hp, collapseBlanks_cons_of_blank hp, h]
    · obtain ⟨seen', gap', h⟩ := ih true false
      refine ⟨seen', gap', fun ls => ?_⟩
      rw [List.cons_append, collapseBlanks_cons_of_ne_nil hp, collapseBlanks_cons_of_ne_nil hp, h,
        List.append_assoc, List.cons_append]

/-- Collapsed lines collapse no further. -/
theorem collapseBlanks_collapseBlanks {seen gap : Bool} (hgap : gap = true → seen = true)
    (ls : List (List Char)) :
    collapseBlanks seen false (collapseBlanks seen gap ls) = collapseBlanks seen gap ls := by
  induction ls generalizing seen gap with
  | nil => rfl
  | cons line ls ih =>
    by_cases hline : trim line = []
    · rw [collapseBlanks_cons_of_blank hline, ih id]
    · rw [collapseBlanks_cons_of_ne_nil hline]
      have hrest : collapseBlanks true false (collapseBlanks true false ls) =
          collapseBlanks true false ls := ih fun h => nomatch h
      cases gap with
      | false =>
        rw [if_neg Bool.false_ne_true, List.nil_append, collapseBlanks_cons_of_ne_nil hline, hrest]
        rfl
      | true =>
        obtain rfl := hgap rfl
        rw [if_pos rfl, List.singleton_append, collapseBlanks_cons_of_blank rfl,
          collapseBlanks_cons_of_ne_nil hline, hrest]
        rfl

/-- Lines that are not blank stay where they are. -/
theorem collapseBlanks_append_of_ne_nil {ps : List (List Char)} (hps : ∀ p ∈ ps, trim p ≠ [])
    (ls : List (List Char)) :
    collapseBlanks true false (ps ++ ls) = ps ++ collapseBlanks true false ls := by
  induction ps with
  | nil => rfl
  | cons p ps ih =>
    obtain ⟨hp, hps⟩ := List.forall_mem_cons.1 hps
    rw [List.cons_append, collapseBlanks_cons_of_ne_nil hp, ih hps]
    rfl

/-- Collapsing does not tell lines from those they are broken into. -/
theorem collapseBlanks_flatMap {f : List Char → List (List Char)}
    (hblank : ∀ line, trim line = [] → f line = [line])
    (hne : ∀ line ∈ ls, trim line ≠ [] → f line ≠ [] ∧ ∀ p ∈ f line, trim p ≠ [])
    (seen gap : Bool) :
    collapseBlanks seen gap (ls.flatMap f) = (collapseBlanks seen gap ls).flatMap f := by
  induction ls generalizing seen gap with
  | nil => rfl
  | cons line ls ih =>
    obtain ⟨hline, hls⟩ := List.forall_mem_cons.1 hne
    rw [List.flatMap_cons]
    by_cases hempty : trim line = []
    · rw [hblank line hempty, collapseBlanks_cons_of_blank hempty, ← ih hls, List.singleton_append,
        collapseBlanks_cons_of_blank hempty]
    · obtain ⟨hpieces, hps⟩ := hline hempty
      obtain ⟨p, ps, hf⟩ := List.exists_cons_of_ne_nil hpieces
      rw [hf] at hps ⊢
      obtain ⟨hp, hps⟩ := List.forall_mem_cons.1 hps
      have hgap : (if gap then [[]] else []).flatMap f = if gap then [[]] else [] := by
        cases gap with
        | false => rfl
        | true => exact (List.flatMap_singleton f []).trans (hblank [] rfl)
      rw [List.cons_append, collapseBlanks_cons_of_ne_nil hp, collapseBlanks_cons_of_ne_nil hempty,
        collapseBlanks_append_of_ne_nil hps, ih hls, List.flatMap_append, hgap, List.flatMap_cons,
        hf, List.cons_append]

/-- The last of collapsed lines is not blank. -/
theorem trim_getLast?_collapseBlanks (seen gap : Bool) (ls : List (List Char)) :
    ∀ line ∈ (collapseBlanks seen gap ls).getLast?, trim line ≠ [] := by
  induction ls generalizing seen gap with
  | nil => exact fun line hline => nomatch hline
  | cons x ls ih =>
    by_cases hx : trim x = []
    · rw [collapseBlanks_cons_of_blank hx]
      exact ih seen seen
    · rw [collapseBlanks_cons_of_ne_nil hx, List.getLast?_append_of_ne_nil _ (List.cons_ne_nil _ _)]
      intro line hline
      cases hrest : collapseBlanks true false ls with
      | nil =>
        rw [hrest] at hline
        exact Option.some.inj hline ▸ hx
      | cons y ys =>
        rw [List.getLast?_cons_of_ne_nil (by simp [hrest])] at hline
        exact ih true false line hline

/-- Laid out lines stay laid out when they collapse. -/
theorem Laid.laid_collapseBlanks (h : Laid o m depth ls) (seen gap : Bool) :
    Laid o m depth (collapseBlanks seen gap ls) := by
  induction h generalizing seen gap with
  | nil => exact .nil
  | @cons m depth rest st hline hcomma hrest ih =>
    by_cases hblank : trim (lineOf m st).text = []
    · obtain ⟨hmode, hdelta⟩ := hline.of_blank hblank
      rw [collapseBlanks_cons_of_blank (by rw [trim_indentLine, hblank])]
      have hlaid := ih seen seen
      rwa [hmode, hdelta, Int.add_zero] at hlaid
    · rw [collapseBlanks_cons_of_ne_nil (by rwa [trim_indentLine])]
      have hkept : Laid o m depth
          (indentLine o depth (lineOf m st) :: collapseBlanks true false rest) := by
        refine .cons st hline (fun htrailing hcode hdangles => ?_) (ih true false)
        refine hcomma htrailing hcode ⟨hdangles.1, hdangles.2.1, ?_⟩
        rw [← leadChar_collapseBlanks true false]
        exact hdangles.2.2
      cases gap with
      | false => exact hkept
      | true =>
        have hdelta : depth + (lineOf m []).delta = depth := Int.add_zero depth
        rw [if_pos rfl, List.singleton_append, ← indentLine_nil o m depth]
        refine .cons [] (setLine_nil o m) (fun _ _ hdangles => ?_) (hdelta.symm ▸ hkept)
        rw [indentLine_nil] at hdangles
        exact nomatch hdangles.1

/-! ## A semicolon at the end -/

/-- Laid out lines stay laid out when the last one gets a semicolon. -/
theorem Laid.concat_semicolon {line : List Char} (h : Laid o m depth (ls ++ [line]))
    (hne : trim line ≠ []) (hslashes : contains ['/', '/'] line = false)
    (hbrace : line.getLast? ≠ some '\x7b') : Laid o m depth (ls ++ [line ++ [';']]) := by
  generalize hlines : ls ++ [line] = lines at h
  induction h generalizing ls with
  | nil => exact absurd hlines (List.append_ne_nil_of_right_ne_nil ls (List.cons_ne_nil _ _))
  | @cons m depth rest st hline hcomma hrest ih =>
    cases ls with
    | nil =>
      obtain ⟨rfl, rfl⟩ := List.cons.inj hlines
      rw [trim_indentLine] at hne
      rw [contains_slashes_indentLine] at hslashes
      rw [ne_eq, getLast?_indentLine o depth _ rfl] at hbrace
      have htext : (lineOf m st).text ≠ [] := fun hnil => hne (by rw [hnil]; rfl)
      obtain ⟨st', hst', htext', hclosers⟩ := hline.exists_semicolon htext hslashes hbrace
      have hmode : (lineOf m st').opensIn = (lineOf m st).opensIn := rfl
      rw [← indentLine_append depth htext hmode hclosers htext']
      refine .cons st' hst' (fun _ _ hdangles => ?_) .nil
      exact nomatch hdangles.2.2
    | cons x xs =>
      obtain ⟨rfl, hrestLines⟩ := List.cons.inj hlines
      refine .cons st hline (fun htrailing hcode hdangles => ?_) (ih hrestLines)
      refine hcomma htrailing hcode ⟨hdangles.1, hdangles.2.1, ?_⟩
      have hhead : (trim (line ++ [';'])).head? = (trim line).head? := by
        obtain ⟨c, t, htrim⟩ := List.exists_cons_of_ne_nil hne
        have hfind := head?_trim line
        rw [htrim, List.head?_cons] at hfind
        rw [head?_trim, List.find?_append, ← hfind, htrim]
        rfl
      have hlead : leadChar [line ++ [';']] = leadChar [line] := by
        rw [leadChar_cons, leadChar_cons, hhead]
      rw [← hrestLines]
      exact leadChar_append_congr hlead xs ▸ hdangles.2.2

end

end ReferencePages
