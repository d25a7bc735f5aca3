import ReferencePages.Proofs.Snippet.Asides.Pieces
import ReferencePages.Proofs.Snippet.Broken

/-!
# Asides of broken lines

A line that is broken around the items of its parentheses keeps its asides if the parenthesis and
the commas are characters of code or of block comments (`alikeLines_breakParens`), and one that is
broken before the members of its union if the same is true of the bars, and the equals sign and the
semicolon behind the members are of code (`alikeLines_breakUnion`).
-/

namespace ReferencePages

variable {o : FormatOptions} {m : Mode} {s t indent body pre line left side : List Char}
  {ls parts : List (List Char)} {stop : List Char} {c : Char}

/-! ## Parentheses -/

/-- The lines of some items are like the items in one line. -/
theorem alikeLines_itemLines {items : List (List Char)} (h : BreakOff m items)
    (hm : m ≠ .template) (hpre : ∀ c ∈ pre, isBlank c = true) (hne : items ≠ [])
    (hcomma : o.trailingComma = true → endsIn m (joinWith [','] items) = .code) :
    AlikeLines m [joinWith [','] items] (itemLines o pre items) := by
  induction items generalizing m with
  | nil => exact absurd rfl hne
  | cons item items ih =>
    obtain ⟨hitem, hitems⟩ := h
    have hpiece : Alike m item (pre ++ trim item) := hitem.alike_trim hm hpre
    have hbreak : BreaksAfter m (pre ++ trim item) :=
      hitem.prepend fun c hc => isPlain_of_isBlank (hpre c hc)
    cases items with
    | nil =>
      rw [joinWith, List.intercalate_singleton] at hcomma ⊢
      have hlines : itemLines o pre [item] = [pre ++ trim item ++ lastComma o] := rfl
      rw [hlines]
      refine (hpiece.trans ?_).lines
      unfold lastComma
      split
      · next ht =>
        refine (hbreak.alike_append (hpiece.endsIn_eq ▸ hcomma ht) ?_).symm
        exact List.forall_mem_singleton.2 rfl
      · rw [List.append_nil]
        exact .refl m _
    | cons item' items =>
      have hraw := hitem.of_trim
      have hends : endsIn m (item ++ ',' :: joinWith [','] (item' :: items)) =
          endsIn (endsIn m item) (joinWith [','] (item' :: items)) := by
        rw [List.append_cons, endsIn_append (hraw.readBack_concat rfl _), endsIn_concat rfl]
      rw [joinWith_char_cons, hends] at hcomma
      rw [joinWith_char_cons, itemLines_cons_cons]
      refine (hraw.cut rfl _).trans (.cons (hraw.alike_concat hbreak hpiece rfl) ?_)
      rw [endsIn_concat rfl]
      exact ih hitems hraw.1 (List.cons_ne_nil _ _) hcomma

/-- The parenthesis behind `left` and the commas of `inner` can end lines, and the comma that is put
behind the last item is one of code. -/
structure KeepsItems (o : FormatOptions) (m : Mode) (left inner : List Char) : Prop where
  opens : BreaksAfter m left
  items : BreakOff (endsIn m left) (splitTop ',' {} inner)
  comma : o.trailingComma = true → endsIn (endsIn m left) inner = .code

instance (o : FormatOptions) (m : Mode) (left inner : List Char) :
    Decidable (KeepsItems o m left inner) :=
  decidable_of_iff
    (BreaksAfter m left ∧ BreakOff (endsIn m left) (splitTop ',' {} inner) ∧
      (o.trailingComma = true → endsIn (endsIn m left) inner = .code))
    ⟨fun ⟨h₁, h₂, h₃⟩ => ⟨h₁, h₂, h₃⟩, fun ⟨h₁, h₂, h₃⟩ => ⟨h₁, h₂, h₃⟩⟩

theorem apart_of_isCloser {close : List Char} {b : List Char} (hb : ∀ c ∈ b, isBlank c = true)
    (hclose : ∃ c t, close = c :: t ∧ isCloser c = true) :
    (b ++ close).head?.all (fun c => !joins c) = true := by
  refine apart_of_quiet ?_
  cases b with
  | nil =>
    obtain ⟨c, t, rfl, hc⟩ := hclose
    simp [isQuiet, hc]
  | cons d b => simp [isQuiet, hb d List.mem_cons_self]

/-- A line that is broken around the items of its first parentheses. -/
theorem alikeLines_breakParens (h : breakParens o indent body = some ls)
    (hindent : ∀ c ∈ indent, isBlank c = true)
    (hkeeps : ∀ cut ∈ cutTop? '(' {} body, ∀ cut' ∈ cutClose? {} cut.2,
      KeepsItems o m (indent ++ cut.1) (trim (cut'.1.drop 1))) :
    AlikeLines m [indent ++ body] ls := by
  obtain ⟨left, inside, close, hcut, hcutClose, rfl, rfl⟩ := exists_of_breakParens_eq_some h
  have hitems : KeepsItems o m (indent ++ left) (trim inside) := hkeeps _ hcut _ hcutClose
  obtain ⟨b, b', hb, hb', hinside⟩ := exists_eq_append_trim inside
  have hpre : ∀ c ∈ indent ++ o.unit, isBlank c = true :=
    List.forall_mem_append.2 ⟨hindent, isBlank_unit o⟩
  have hm := hitems.opens.1
  have hjoin := joinWith_splitTop ',' {} (trim inside)
  have hlines := alikeLines_itemLines hitems.items hm hpre (splitTop_ne_nil _ _ _)
    (hjoin.symm ▸ hitems.comma)
  have hbreak := hitems.items.joinWith (c := ',') hm rfl (splitTop_ne_nil _ _ _)
  rw [hjoin] at hlines hbreak
  rw [← List.append_assoc]
  refine (hitems.opens.cut rfl _).trans (.cons (.refl m _) ?_)
  rw [endsIn_concat rfl]
  have hcloser := apart_of_isCloser hb' (cutClose?_closer hcutClose)
  have hrest : inside ++ close = b ++ (trim inside ++ (b' ++ close)) := by
    conv => lhs; rw [hinside]
    simp only [List.append_assoc]
  rw [hrest]
  refine (alike_append hb hm _).lines.trans ?_
  refine (alikeLines_cut (hbreak.readBack hcloser) hbreak.1).trans ?_
  exact hlines.append
    ((alike_append hb' hbreak.1 close).trans (alike_append hindent hbreak.1 close).symm).lines

/-! ## Unions -/

theorem Lexeme.reads_equals {next : Option Char} (hnext : next ≠ some '>') :
    (Lexeme.code '=').Reads .code next :=
  ⟨rfl, by decide, by simp [IsQuote], fun h => absurd h (by decide), fun _ => hnext⟩

/-- An equals sign behind code. -/
theorem BreaksAfter.scan_equals (h : BreaksAfter m t) (hend : endsIn m t = .code) :
    scan m (t ++ ['=']) = scan m t ++ [.code '='] := by
  have hscan : scan m (t ++ ['=']) = scan m t ++ scan (endsIn m t) ['='] :=
    scan_append_of_readBack (h.readBack rfl)
  have hreads : (Lexeme.code '=').Reads .code none := Lexeme.reads_equals nofun
  have hone := scan_append_text (t := []) hreads
  rw [List.append_nil, scan] at hone
  rw [hscan, hend]
  exact congrArg (scan m t ++ ·) hone

theorem BreaksAfter.alike_equals (h : BreaksAfter m t) (hend : endsIn m t = .code) :
    Alike m (t ++ ['=']) t := by
  have hscan := h.scan_equals hend
  constructor
  · rw [asides, hscan, List.filterMap_append]
    exact List.append_nil _
  · rw [endsIn, hscan, modeAfterAll_append]
    rfl

theorem BreaksAfter.readBack_equals (h : BreaksAfter m t) (hend : endsIn m t = .code)
    {next : Option Char} (hnext : next ≠ some '>') :
    ReadBack m next (scan m (t ++ ['='])).reverse := by
  have hmode : modeAfterAll m (scan m t) = .code := hend
  rw [h.scan_equals hend, List.reverse_concat]
  refine ⟨?_, h.readBack rfl⟩
  rw [List.reverse_reverse, hmode]
  exact Lexeme.reads_equals hnext

/-- The equals sign behind `left`, the bars between the members and the semicolon behind these can
be parted from what they stand behind. -/
structure KeepsMembers (m : Mode) (left side : List Char) : Prop where
  equals : BreaksAfter m left
  code : endsIn m left = .code
  /-- No blanks of a template are trimmed. -/
  tight : endsIn .code side = .template → trimEnd side = side
  bars : BreakOff .code (unionParts side).dropLast
  /-- No two bars touch, as they may in a comment. -/
  solid : ∀ part ∈ (unionParts side).tail, trim part ≠ []
  stop : (splitStop (trim side)).2 ≠ [] →
    BreakOff .code (unionParts side) ∧ endsIn .code (splitStop (trim side)).1 = .code

instance (m : Mode) (left side : List Char) : Decidable (KeepsMembers m left side) :=
  decidable_of_iff
    (BreaksAfter m left ∧ endsIn m left = .code ∧
      (endsIn .code side = .template → trimEnd side = side) ∧
      BreakOff .code (unionParts side).dropLast ∧
      (∀ part ∈ (unionParts side).tail, trim part ≠ []) ∧
      ((splitStop (trim side)).2 ≠ [] →
        BreakOff .code (unionParts side) ∧ endsIn .code (splitStop (trim side)).1 = .code))
    ⟨fun ⟨h₁, h₂, h₃, h₄, h₅, h₆⟩ => ⟨h₁, h₂, h₃, h₄, h₅, h₆⟩,
      fun ⟨h₁, h₂, h₃, h₄, h₅, h₆⟩ => ⟨h₁, h₂, h₃, h₄, h₅, h₆⟩⟩

/-- A plain character before texts that are alike. -/
theorem Alike.cons_of_isPlain (h : Alike m s t) (hc : isPlain c = true) :
    Alike m (c :: s) (c :: t) := by
  have hscan (t : List Char) := scan_cons_of_isPlain hc m t
  constructor
  · rw [asides, asides, hscan, hscan, List.filterMap_cons, List.filterMap_cons]
    cases (m.char c).aside? with
    | none => exact h.asides_eq
    | some l => exact congrArg (l :: ·) h.asides_eq
  · rw [endsIn_cons_of_isPlain hc, endsIn_cons_of_isPlain hc, h.endsIn_eq]

/-- A member on a line of its own, behind its bar. -/
theorem alike_member (hm : m ≠ .template) (hpre : ∀ c ∈ pre, isBlank c = true)
    (h : Alike m s t) : Alike m ('|' :: s) (pre ++ ['|', ' '] ++ t) := by
  have hspace : Alike m (' ' :: t) t := alike_append (b := [' ']) (by simp; rfl) hm t
  rw [List.append_assoc]
  exact ((h.trans hspace.symm).cons_of_isPlain rfl).trans (alike_append hpre hm _).symm

/-- The parts of a union with a bar before each. -/
def barred (parts : List (List Char)) : List Char := parts.flatMap ('|' :: ·)

theorem joinWith_bar (part : List Char) (parts : List (List Char)) :
    joinWith ['|'] (part :: parts) = part ++ barred parts := by
  induction parts generalizing part with
  | nil => rw [joinWith, List.intercalate_singleton, barred, List.flatMap_nil, List.append_nil]
  | cons part' parts ih => rw [joinWith_char_cons, ih]; rfl

theorem apart_barred (hne : parts ≠ []) :
    (barred parts).head?.all (fun c => !joins c) = true := by
  obtain ⟨part, parts, rfl⟩ := List.exists_cons_of_ne_nil hne
  rfl

/-- The last member on a line of its own, with what is put behind it. -/
theorem alike_lastMember {part : List Char} (hm : m ≠ .template)
    (hpre : ∀ c ∈ pre, isBlank c = true) (htrim : trimEnd part = part)
    (hstop : stop = [] ∨
      stop = [';'] ∧ BreaksAfter m (trim part) ∧ endsIn m ('|' :: part) = .code) :
    Alike m ('|' :: part) (pre ++ ['|', ' '] ++ trim part ++ stop) := by
  have hstart : trim part = trimStart part := trimEnd_trimStart htrim
  have hmember : Alike m ('|' :: part) (pre ++ ['|', ' '] ++ trim part) :=
    alike_member hm hpre (hstart ▸ alike_trimStart hm part)
  rcases hstop with rfl | ⟨rfl, hbreak, hend⟩
  · rwa [List.append_nil]
  · have hplain : ∀ c ∈ pre ++ ['|', ' '], isPlain c = true := by
      refine List.forall_mem_append.2 ⟨fun c hc => isPlain_of_isBlank (hpre c hc), ?_⟩
      simp [isPlain, joins]
    refine hmember.trans ((hbreak.prepend hplain).alike_append (hmember.endsIn_eq ▸ hend) ?_).symm
    exact List.forall_mem_singleton.2 rfl

/-- The lines of the members behind a bar are like the members in one line. -/
theorem alikeLines_memberLines (hm : m ≠ .template) (hpre : ∀ c ∈ pre, isBlank c = true)
    (hne : parts ≠ []) (hbars : BreakOff m parts.dropLast)
    (hlast : ∀ part ∈ parts.getLast?, trimEnd part = part)
    (hstop : stop = [] ∨
      stop = [';'] ∧ BreakOff m parts ∧ endsIn m (barred parts) = .code) :
    AlikeLines m [barred parts] (memberLines pre (parts.map trim) stop) := by
  induction parts generalizing m with
  | nil => exact absurd rfl hne
  | cons part parts ih =>
    have hbarred : barred (part :: parts) = '|' :: (part ++ barred parts) := rfl
    by_cases hnil : parts = []
    · subst hnil
      have hlines : memberLines pre [trim part] stop = [pre ++ ['|', ' '] ++ trim part ++ stop] :=
        rfl
      have hnone : barred [] = [] := rfl
      rw [hnone, List.append_nil] at hbarred
      rw [hbarred] at hstop ⊢
      rw [List.map_singleton, hlines]
      refine (alike_lastMember hm hpre (hlast part rfl) ?_).lines
      exact hstop.imp_right fun ⟨hstop, ⟨hbreak, _⟩, hend⟩ => ⟨hstop, hbreak, hend⟩
    · have hhead := apart_barred hnil
      rw [List.dropLast_cons_of_ne_nil hnil] at hbars
      rw [List.getLast?_cons_of_ne_nil hnil] at hlast
      obtain ⟨hpart, hbars⟩ := hbars
      have hbreak : BreaksAfter m ('|' :: part) :=
        hpart.of_trim.prepend (s := ['|']) (List.forall_mem_singleton.2 rfl)
      have hends : endsIn m ('|' :: part) = endsIn m part := endsIn_cons_of_isPlain rfl m part
      rw [← List.cons_append] at hbarred
      rw [hbarred, hbreak.endsIn_append hhead, hends] at hstop
      rw [hbarred, List.map_cons, memberLines_cons pre _ (by simpa using hnil)]
      refine (alikeLines_cut (hbreak.readBack hhead) hbreak.1).trans
        (.cons (alike_member hm hpre (alike_trim hm (hends ▸ hbreak.1))) ?_)
      rw [hends]
      exact ih (hends ▸ hbreak.1) hnil hbars hlast
        (hstop.imp_right fun ⟨hstop, ⟨_, hparts⟩, hend⟩ => ⟨hstop, hparts, hend⟩)

/-- A plain character before a text in code. -/
theorem alike_cons_of_code (hc : isPlain c = true) (t : List Char) : Alike .code (c :: t) t := by
  refine ⟨?_, endsIn_cons_of_isPlain hc .code t⟩
  rw [asides, scan_cons_of_isPlain hc]
  rfl

/-- The lines of the members behind an equals sign, of which the first one need not be behind a
bar. -/
theorem alikeLines_members {part : List Char} (hpre : ∀ c ∈ pre, isBlank c = true)
    (hne : parts ≠ []) (hbars : BreakOff .code (part :: parts).dropLast)
    (hsolid : ∀ part ∈ parts, trim part ≠ [])
    (hlast : ∀ part ∈ parts.getLast?, trimEnd part = part)
    (hstop : stop = [] ∨ stop = [';'] ∧ BreakOff .code (part :: parts) ∧
      endsIn .code (part ++ barred parts) = .code) :
    AlikeLines .code [part ++ barred parts]
      (memberLines pre (((part :: parts).map trim).filter (!·.isEmpty)) stop) := by
  have hfilter : (parts.map trim).filter (!·.isEmpty) = parts.map trim :=
    List.filter_eq_self.2 (List.forall_mem_map.2 fun part hpart => by simpa using hsolid part hpart)
  rw [List.dropLast_cons_of_ne_nil hne] at hbars
  obtain ⟨hpart, hbars⟩ := hbars
  rw [List.map_cons]
  by_cases hblank : trim part = []
  · have hblanks := alike_append (trim_eq_nil_iff.1 hblank) (m := .code) nofun (barred parts)
    have hends : endsIn .code part = .code := endsIn_of_blank nofun hblank
    rw [hends] at hbars
    rw [hblank, List.filter_cons_of_neg (by simp), hfilter]
    refine hblanks.lines.trans (alikeLines_memberLines nofun hpre hne hbars hlast ?_)
    refine hstop.imp_right fun ⟨hstop, ⟨_, hparts⟩, hend⟩ => ⟨hstop, hends ▸ hparts, ?_⟩
    rwa [hblanks.endsIn_eq] at hend
  · have hhead := apart_barred hne
    have hbreak := hpart.of_trim
    have hmember : Alike .code part (pre ++ ['|', ' '] ++ trim part) :=
      (alike_cons_of_code (c := '|') rfl part).symm.trans
        (alike_member nofun hpre (alike_trim nofun hbreak.1))
    rw [List.filter_cons_of_pos (by simpa using hblank), hfilter,
      memberLines_cons pre _ (by simpa using hne)]
    refine (alikeLines_cut (hbreak.readBack hhead) hbreak.1).trans (.cons hmember ?_)
    refine alikeLines_memberLines hbreak.1 hpre hne hbars hlast ?_
    refine hstop.imp_right fun ⟨hstop, ⟨_, hparts⟩, hend⟩ => ⟨hstop, hparts, ?_⟩
    rwa [hbreak.endsIn_append hhead] at hend

/-- A semicolon at the end of a text is told from it. -/
theorem splitStop_cases (hs : trimEnd s = s) :
    trimEnd (splitStop s).1 = (splitStop s).1 ∧
      ((splitStop s).2 = [] ∧ s = (splitStop s).1 ∨
        (splitStop s).2 = [';'] ∧ ∃ b, (∀ c ∈ b, isBlank c = true) ∧
          s = (splitStop s).1 ++ (b ++ [';'])) := by
  cases hstop : dropSuffix? [';'] s with
  | none =>
    have hsplit : splitStop s = (s, []) := by rw [splitStop, hstop]
    rw [hsplit]
    exact ⟨hs, Or.inl ⟨rfl, rfl⟩⟩
  | some right =>
    have hsplit : splitStop s = (trimEnd right, [';']) := by rw [splitStop, hstop]
    obtain ⟨b, hb, hright⟩ := exists_eq_trimEnd_append right
    rw [hsplit]
    refine ⟨List.rdropWhile_idempotent isBlank right, Or.inr ⟨rfl, b, hb, ?_⟩⟩
    rw [← List.append_assoc, ← hright]
    exact dropSuffix?_eq_some_iff.1 hstop

/-- What stands behind an equals sign is like the lines of its members. -/
theorem KeepsMembers.alikeLines (h : KeepsMembers m left side)
    (hpre : ∀ c ∈ pre, isBlank c = true)
    (hlength : 2 ≤ (((unionParts side).map trim).filter (!·.isEmpty)).length) :
    AlikeLines .code [side] (memberLines pre (((unionParts side).map trim).filter (!·.isEmpty))
      (splitStop (trim side)).2) := by
  have hcode : Mode.code ≠ .template := nofun
  have htrim : Alike .code side (trim side) := by
    by_cases hend : endsIn .code side = .template
    · have hstart : trim side = trimStart side := trimEnd_trimStart (h.tight hend)
      exact hstart ▸ alike_trimStart hcode side
    · exact alike_trim hcode hend
  obtain ⟨hright, hcases⟩ := splitStop_cases (trim_eq_self_iff.1 (trim_trim side)).2
  have hjoin : joinWith ['|'] (unionParts side) = (splitStop (trim side)).1 :=
    joinWith_splitTop '|' {} _
  have hbars := h.bars
  have hsolid := h.solid
  have hstop := h.stop
  have hlast : ∀ part ∈ (unionParts side).getLast?, trimEnd part = part := fun part hpart => by
    by_cases hnil : part = []
    · rw [hnil]
      rfl
    · rw [trimEnd_eq_self_iff, ← getLast?_joinWith ['|'] hpart hnil, hjoin, ← trimEnd_eq_self_iff]
      exact hright
  obtain ⟨part, parts, hparts⟩ := List.exists_cons_of_ne_nil (splitTop_ne_nil '|' {} _)
  have hparts : unionParts side = part :: parts := hparts
  rw [hparts] at hjoin hbars hsolid hstop hlast hlength ⊢
  have hne : parts ≠ [] := by
    rintro rfl
    have hle := (List.length_filter_le (!·.isEmpty) ([part].map trim)).trans_eq (List.length_map _)
    exact absurd (hlength.trans hle) (by simp)
  rw [joinWith_bar] at hjoin
  rw [List.getLast?_cons_of_ne_nil hne] at hlast
  refine htrim.lines.trans (AlikeLines.trans ?_ (alikeLines_members hpre hne hbars hsolid hlast ?_))
  · rcases hcases with ⟨-, hside⟩ | ⟨hstopEq, b, hb, hside⟩
    · rw [hjoin, ← hside]
      exact .refl _ _
    · obtain ⟨hbreak, hend⟩ := hstop (by simp [hstopEq])
      have hbreak := hbreak.joinWith (c := '|') nofun rfl (List.cons_ne_nil part parts)
      rw [joinWith_bar] at hbreak
      rw [← hjoin] at hend hside
      rw [hside]
      refine (hbreak.alike_append hend ?_).lines
      exact List.forall_mem_append.2
        ⟨fun c hc => isPlain_of_isBlank (hb c hc), List.forall_mem_singleton.2 rfl⟩
  · rcases hcases with ⟨hnone, -⟩ | ⟨hstopEq, -⟩
    · exact Or.inl hnone
    · rw [hjoin]
      exact Or.inr ⟨hstopEq, hstop (by simp [hstopEq])⟩

/-- A line that is broken before the members of its union. -/
theorem alikeLines_breakUnion (h : breakUnion o indent body = some ls)
    (hindent : ∀ c ∈ indent, isBlank c = true)
    (hkeeps : ∀ cut ∈ cutTop? '=' {} body,
      KeepsMembers m (indent ++ trimEnd cut.1) (cut.2.drop 1)) :
    AlikeLines m [indent ++ body] ls := by
  obtain ⟨left, side, hcut, rfl, hlength, rfl⟩ := exists_of_breakUnion_eq_some h
  have hmembers : KeepsMembers m (indent ++ trimEnd left) side := hkeeps _ hcut
  obtain ⟨b, hb, hleft⟩ := exists_eq_trimEnd_append left
  have hpre : ∀ c ∈ indent ++ o.unit, isBlank c = true :=
    List.forall_mem_append.2 ⟨hindent, isBlank_unit o⟩
  have hplain : ∀ c ∈ b, isPlain c = true := fun c hc => isPlain_of_isBlank (hb c hc)
  have hequals := hmembers.equals
  have hcode := hmembers.code
  have hbefore := hequals.append_of_isPlain hplain
  have hbeforeCode : endsIn m (indent ++ trimEnd left ++ b) = .code :=
    (endsIn_append_of_isPlain hplain m _).trans hcode
  have hends : endsIn m (indent ++ trimEnd left ++ b ++ ['=']) = .code :=
    (hbefore.alike_equals hbeforeCode).endsIn_eq.trans hbeforeCode
  have hline : indent ++ (left ++ '=' :: side) = indent ++ trimEnd left ++ b ++ ['='] ++ side := by
    conv => lhs; rw [hleft]
    simp only [List.append_assoc, List.singleton_append]
  have hheader : Alike m (indent ++ trimEnd left ++ b ++ ['='])
      (indent ++ trimEnd left ++ [' ', '=']) := by
    have hspace : BreaksAfter m (indent ++ trimEnd left ++ [' ']) := hequals.concat rfl
    have hspaceCode : endsIn m (indent ++ trimEnd left ++ [' ']) = .code :=
      (endsIn_concat rfl m _).trans hcode
    have hplainSpace : ∀ c ∈ [' '], isPlain c = true := List.forall_mem_singleton.2 rfl
    rw [List.append_cons (indent ++ trimEnd left) ' ' ['=']]
    exact ((hbefore.alike_equals hbeforeCode).trans (hequals.alike_append hcode hplain)).trans
      ((hspace.alike_equals hspaceCode).trans (hequals.alike_append hcode hplainSpace)).symm
  rw [hline]
  refine (alikeLines_cut (hbefore.readBack_equals hbeforeCode (head?_ne_of_cutTop? hcut))
    fun h => by cases hends.symm.trans h).trans (.cons hheader ?_)
  rw [hends]
  exact hmembers.alikeLines hpre hlength

/-! ## Lines -/

/-- A line that is left as it is, or broken where its lexemes allow it. -/
def KeepsBreak (o : FormatOptions) (m : Mode) (line : List Char) : Prop :=
  breakLine o line = [line] ∨
    if (breakUnion o (line.takeWhile isBlank) (trimStart line)).isSome then
      ∀ cut ∈ cutTop? '=' {} (trimStart line),
        KeepsMembers m (line.takeWhile isBlank ++ trimEnd cut.1) (cut.2.drop 1)
    else
      ∀ cut ∈ cutTop? '(' {} (trimStart line), ∀ cut' ∈ cutClose? {} cut.2,
        KeepsItems o m (line.takeWhile isBlank ++ cut.1) (trim (cut'.1.drop 1))

instance (o : FormatOptions) (m : Mode) (line : List Char) : Decidable (KeepsBreak o m line) :=
  inferInstanceAs (Decidable (_ ∨ ite _ _ _))

theorem KeepsBreak.alikeLines (h : KeepsBreak o m line) :
    AlikeLines m [line] (breakLine o line) := by
  have hblank : ∀ c ∈ line.takeWhile isBlank, isBlank c = true := fun c hc =>
    List.mem_takeWhile_imp hc
  have hline : line.takeWhile isBlank ++ trimStart line = line := List.takeWhile_append_dropWhile
  rcases h with h | h
  · rw [h]
    exact .refl m _
  · rcases breakLine_cases o line with hsame | hunion | hparens
    · rw [hsame]
      exact .refl m _
    · rw [if_pos (by rw [hunion]; rfl)] at h
      have halike := alikeLines_breakUnion hunion hblank h
      rwa [hline] at halike
    · rw [if_neg (by simp [hparens.1])] at h
      have halike := alikeLines_breakParens hparens.2 hblank h
      rwa [hline] at halike

end ReferencePages
