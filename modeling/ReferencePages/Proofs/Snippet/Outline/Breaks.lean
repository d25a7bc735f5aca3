import ReferencePages.Proofs.Snippet.Cuts
import ReferencePages.Proofs.Snippet.Outline.Commas

/-!
# Outlines of broken lines

Long lines are cut outside of brackets and literals, as the cuts tell them. In an orderly line these
are the literals of the scanner, so the parts have the outlines of the line (`Orderly.cut`). A line
that is broken around its parentheses keeps its outline (`outline_breakParens`); one that is broken
before the members of its union gets more bars and may lose the last ones (`outline_breakUnion`).
Either way a comma comes before a closing bracket only where it did (`SafeFor`).
-/

namespace ReferencePages

open Nesting

section

variable {q c sep : Char} {a s t u v part : List Char} {closed : Bool} {n : Nesting}
  {parts rest : List (List Char)}

/-! ## Parts of an orderly text -/

theorem LiteralRest.of_prefix (h : LiteralRest q closed a) (hs : s <+: a) (hne : s ≠ a) :
    LiteralRest q false s := by
  have single {x d : Char} {s : List Char} (hs : d :: s <+: [x]) : d :: s = [x] := by
    obtain ⟨hd, hs'⟩ := List.cons_prefix_cons.1 hs
    rw [hd, List.prefix_nil.1 hs']
  induction h generalizing s with
  | unclosed => exact absurd (List.prefix_nil.1 hs) hne
  | unclosedEscape =>
    cases s with
    | nil => exact .unclosed
    | cons d s => exact absurd (single hs) hne
  | close =>
    cases s with
    | nil => exact .unclosed
    | cons d s => exact absurd (single hs) hne
  | escape c h ih =>
    rcases s with _ | ⟨d, _ | ⟨e, s⟩⟩
    · exact .unclosed
    · obtain ⟨rfl, -⟩ := List.cons_prefix_cons.1 hs
      exact .unclosedEscape
    · obtain ⟨rfl, hs'⟩ := List.cons_prefix_cons.1 hs
      obtain ⟨rfl, hs''⟩ := List.cons_prefix_cons.1 hs'
      exact .escape e (ih hs'' fun heq => hne (by rw [heq]))
  | char hc hquote h ih =>
    cases s with
    | nil => exact .unclosed
    | cons d s =>
      obtain ⟨rfl, hs'⟩ := List.cons_prefix_cons.1 hs
      exact .char hc hquote (ih hs' fun heq => hne (congrArg _ heq))

/-- The cuts are within a literal where the scanner is. -/
theorem LiteralRest.quote_run_ne (h : LiteralRest q closed a) (hq : IsQuote q)
    (hn : n.quote = none) (hs : s <+: a) (hne : s ≠ a) : (n.run (q :: s)).quote ≠ none := by
  rw [Ne, ((h.of_prefix hs hne).run hq hn).2.2]
  exact fun hnone => Bool.false_ne_true hnone.1

/-- A text of code alone begins with a lexeme of code. -/
theorem Orderly.exists_lexeme (h : Orderly t) (ht : t ≠ []) :
    ∃ (l : Lexeme) (rest : List Char), t = l.text ++ rest ∧ l.Reads .code rest.head? ∧
      l.aside? = none ∧ ¬l.EndsInBackslash ∧ Orderly rest := by
  obtain ⟨c, s, rfl⟩ := List.exists_cons_of_ne_nil ht
  obtain ⟨ha, he⟩ := h
  have hscan : scan .code (c :: s) = (nextLexeme .code c s).1 ::
      scan ((nextLexeme .code c s).1.modeAfter .code) (nextLexeme .code c s).2 := by
    rw [scan]
  rw [ReferencePages.asides, hscan, List.filterMap_eq_nil_iff, List.forall_mem_cons,
    ← List.filterMap_eq_nil_iff] at ha
  rw [hscan, List.forall_mem_cons] at he
  rw [Lexeme.modeAfter_of_aside? ha.1] at ha he
  exact ⟨_, _, (nextLexeme_append .code c s).symm, reads_nextLexeme .code c s, ha.1, he.1, ha.2,
    he.2⟩

theorem Orderly.lexeme_append {l : Lexeme} (h : Orderly t) (hreads : l.Reads .code t.head?)
    (hl : l.aside? = none) (hends : ¬l.EndsInBackslash) :
    Orderly (l.text ++ t) ∧ outline (l.text ++ t) = l.outline ++ outline t := by
  have hscan : scan .code (l.text ++ t) = l :: scan .code t := by
    rw [scan_append_text hreads, Lexeme.modeAfter_of_aside? hl]
  refine ⟨⟨?_, ?_⟩, ?_⟩
  · rw [ReferencePages.asides, hscan, List.filterMap_cons, hl]
    exact h.asides
  · rw [hscan]
    exact List.forall_mem_cons.2 ⟨hends, h.ends⟩
  · rw [outline, hscan]
    rfl

theorem Lexeme.Reads.of_none {l : Lexeme} {m : Mode} {next : Option Char} (h : l.Reads m next) :
    l.Reads m none := by
  cases next with
  | none => exact h
  | some n => exact h.of_apart rfl

/-- Behind a lexeme of code the cuts are outside of literals, unless that is the last one. -/
theorem quote_run_lexeme {l : Lexeme} {next : Option Char} (hreads : l.Reads .code next)
    (hl : l.aside? = none) (hends : ¬l.EndsInBackslash) (hn : n.quote = none) :
    (n.run l.text).quote = none ∨ next = none := by
  rcases hreads.cases_of_aside? hl with ⟨d, rfl⟩ | rfl | ⟨s, rfl⟩
  · obtain ⟨-, htick, hquote, -⟩ := hreads
    refine Or.inl (quote_run_of_not_quote hn (List.forall_mem_singleton.2 ?_))
    rintro (hd | hd | hd)
    · exact hquote (Or.inr hd)
    · exact hquote (Or.inl hd)
    · exact htick hd
  · refine Or.inl (quote_run_of_not_quote hn ?_)
    simp [Lexeme.text]
  · obtain ⟨-, q, a, closed, rfl, hq, hrest, hopen⟩ := hreads
    cases closed with
    | false => exact Or.inr (hopen rfl)
    | true => exact Or.inl ((hrest.run hq hn).2.2.2 ⟨rfl, fun hlast => hends ⟨hrest, hlast⟩⟩)

theorem orderly_equals : Orderly ['='] ∧ outline ['='] = ['='] := by
  have hreads : (Lexeme.code '=').Reads .code none :=
    ⟨rfl, by decide, by decide, nofun, fun _ => nofun⟩
  obtain ⟨hequals, hout⟩ := orderly_nil.lexeme_append hreads rfl id
  rw [outline_nil, List.append_nil] at hout
  exact ⟨hequals, hout⟩

/-- An arrow shows as its two characters, parted or not. -/
theorem Orderly.cut_arrow (h : Orderly t) :
    outline ('=' :: '>' :: t) = outline ['='] ++ outline ('>' :: t) ∧ Orderly ['='] ∧
      Orderly ('>' :: t) := by
  have hreads : (Lexeme.code '>').Reads .code t.head? :=
    ⟨rfl, by decide, by decide, nofun, nofun⟩
  have harrow : Lexeme.arrow.Reads .code t.head? := rfl
  obtain ⟨-, hout⟩ := h.lexeme_append harrow rfl id
  obtain ⟨hgreater, houtGreater⟩ := h.lexeme_append hreads rfl id
  obtain ⟨hequals, houtEquals⟩ := orderly_equals
  refine ⟨?_, hequals, hgreater⟩
  rw [houtEquals]
  exact hout.trans (congrArg ('=' :: ·) houtGreater.symm)

/-- Of the lexemes of code, only an arrow is cut in two outside of literals. -/
theorem Orderly.cut_lexeme {l : Lexeme} {mid : List Char} (h : Orderly t)
    (hreads : l.Reads .code t.head?) (hl : l.aside? = none) (hn : n.quote = none)
    (hu : (n.run u).quote = none) (htext : l.text = u ++ mid) (hne : u ≠ []) (hmid : mid ≠ []) :
    outline (u ++ (mid ++ t)) = outline u ++ outline (mid ++ t) ∧ Orderly u ∧
      Orderly (mid ++ t) := by
  rcases hreads.cases_of_aside? hl with ⟨d, rfl⟩ | rfl | ⟨s, rfl⟩
  · rcases List.append_eq_singleton_iff.1 htext.symm with ⟨hnil, -⟩ | ⟨-, hnil⟩
    · exact absurd hnil hne
    · exact absurd hnil hmid
  · obtain ⟨d, u, rfl⟩ := List.exists_cons_of_ne_nil hne
    obtain ⟨rfl, hgreater⟩ := List.cons.inj htext
    rcases List.append_eq_singleton_iff.1 hgreater.symm with ⟨rfl, rfl⟩ | ⟨-, hnil⟩
    · exact h.cut_arrow
    · exact absurd hnil hmid
  · obtain ⟨-, q, a, closed, rfl, hq, hliteral, -⟩ := hreads
    obtain ⟨d, u, rfl⟩ := List.exists_cons_of_ne_nil hne
    obtain ⟨rfl, ha⟩ := List.cons.inj htext
    refine absurd hu (hliteral.quote_run_ne hq hn ⟨mid, ha.symm⟩ fun heq => hmid ?_)
    rw [heq] at ha
    exact List.append_right_eq_self.1 ha.symm

/-- An orderly text that is cut outside of literals is one of orderly parts. The cut may part the
two characters of an arrow. -/
theorem Orderly.cut (h : Orderly (u ++ v)) (hn : n.quote = none) (hu : (n.run u).quote = none) :
    outline (u ++ v) = outline u ++ outline v ∧ Orderly u ∧ Orderly v := by
  induction hlen : u.length using Nat.strong_induction_on generalizing u n with
  | _ k ih =>
    by_cases hnil : u = []
    · subst hnil
      exact ⟨by rw [outline_nil, List.nil_append]; rfl, orderly_nil, h⟩
    obtain ⟨l, rest, htext, hreads, hl, hends, hrest⟩ :=
      h.exists_lexeme (List.append_ne_nil_of_left_ne_nil hnil v)
    have behind (mid : List Char) (hmid : u = l.text ++ mid) (hrestMid : rest = mid ++ v) :
        outline (u ++ v) = outline u ++ outline v ∧ Orderly u ∧ Orderly v := by
      rcases quote_run_lexeme hreads hl hends hn with hquote | hlast
      · rw [hmid, run_append] at hu
        have hshort : mid.length < k := by
          have hpos := List.length_pos_iff.2 hreads.text_ne_nil
          rw [← hlen, hmid, List.length_append]
          omega
        obtain ⟨hout, horderly, hv⟩ := ih _ hshort (hrestMid ▸ hrest) hquote hu rfl
        have hreadsMid : l.Reads .code mid.head? := by
          cases mid with
          | nil => exact hreads.of_none
          | cons d mid => rwa [hrestMid] at hreads
        obtain ⟨hu', houtU⟩ := horderly.lexeme_append hreadsMid hl hends
        obtain ⟨-, houtAll⟩ := hrest.lexeme_append hreads hl hends
        rw [htext, houtAll, hmid, houtU, hrestMid, hout, List.append_assoc]
        exact ⟨rfl, hu', hv⟩
      · rw [List.head?_eq_none_iff.1 hlast] at hrestMid
        obtain ⟨rfl, rfl⟩ := List.append_eq_nil_iff.1 hrestMid.symm
        rw [List.append_nil] at h ⊢
        exact ⟨by rw [outline_nil, List.append_nil], h, orderly_nil⟩
    -- The cut is within the first lexeme, or behind it.
    rcases List.append_eq_append_iff.1 htext with ⟨mid, hmid, hv⟩ | ⟨mid, hmid, hmidRest⟩
    · by_cases hmidNil : mid = []
      · subst hmidNil
        exact behind [] (by rw [hmid, List.append_nil, List.append_nil]) (by rw [hv]; rfl)
      · rw [hv]
        exact hrest.cut_lexeme hreads hl hn hu hmid hnil hmidNil
    · exact behind mid hmid hmidRest

/-! ## Split texts -/

/-- The first part of a split text, and what is split behind it. -/
theorem splitTop_cons_cases (h : splitTop sep n s = part :: rest) :
    rest = [] ∧ part = s ∨ ∃ s' n', s = part ++ sep :: s' ∧ (n.run part).quote = none ∧
      n'.quote = none ∧ splitTop sep n' s' = rest := by
  induction s generalizing n part with
  | nil =>
    obtain ⟨rfl, rfl⟩ := List.cons.inj h
    exact Or.inl ⟨rfl, rfl⟩
  | cons c s ih =>
    unfold splitTop at h
    split at h
    · next hcut =>
      obtain ⟨rfl, htop⟩ := hcut
      obtain ⟨rfl, hrest⟩ := List.cons.inj h
      have hquote := (isTop_iff.1 htop).2
      exact Or.inr ⟨s, { n with previous := c }, rfl, hquote, hquote, hrest⟩
    · obtain ⟨first, others, hsplit⟩ :=
        List.exists_cons_of_ne_nil (splitTop_ne_nil sep (n.step true c) s)
      rw [hsplit, List.modifyHead_cons] at h
      obtain ⟨rfl, rfl⟩ := List.cons.inj h
      rcases ih hsplit with ⟨hnil, rfl⟩ | ⟨s', n', rfl, hquote, hn', hrest⟩
      · exact Or.inl ⟨hnil, rfl⟩
      · exact Or.inr ⟨s', n', rfl, hquote, hn', hrest⟩

/-- The parts of an orderly text before and behind a separator. -/
theorem Orderly.cut_cons (h : Orderly (part ++ c :: s)) (hc : isPlain c = true)
    (hsolid : isBlank c = false) (hn : n.quote = none) (hpart : (n.run part).quote = none) :
    outline (part ++ c :: s) = outline part ++ c :: outline s ∧ Orderly part ∧ Orderly s := by
  obtain ⟨hout, hleft, hright⟩ := h.cut hn hpart
  rw [outline_cons hc, Lexeme.outline_code hsolid] at hout
  exact ⟨hout, hleft, (orderly_cons_iff hc).1 hright⟩

theorem orderly_of_mem_splitTop (hsep : isPlain sep = true) (hsolid : isBlank sep = false)
    (hn : n.quote = none) (hs : Orderly s) :
    ∀ part ∈ splitTop sep n s, Orderly part ∧ outline part <:+: outline s := by
  generalize hparts : splitTop sep n s = parts
  induction parts generalizing n s with
  | nil => exact absurd hparts (splitTop_ne_nil sep n s)
  | cons part rest ih =>
    rcases splitTop_cons_cases hparts with ⟨rfl, rfl⟩ | ⟨s', n', rfl, hpart, hn', hrest⟩
    · exact List.forall_mem_singleton.2 ⟨hs, List.infix_refl _⟩
    · obtain ⟨hout, hleft, hright⟩ := hs.cut_cons hsep hsolid hn hpart
      rw [hout]
      refine List.forall_mem_cons.2 ⟨⟨hleft, (List.prefix_append _ _).isInfix⟩, fun p hp => ?_⟩
      obtain ⟨horderly, hsub⟩ := ih hn' hright hrest p hp
      exact ⟨horderly, hsub.trans ((List.suffix_cons _ _).trans (List.suffix_append _ _)).isInfix⟩

/-! ## Parentheses -/

theorem quote_of_run {q : Char} (hn : n.quote = none) (h : (n.run s).quote = some q) :
    q = '\'' ∨ q = '"' ∨ q = '`' := by
  induction s using List.reverseRecOn generalizing q with
  | nil => cases hn.symm.trans h
  | append_singleton s c ih =>
    rw [run_concat] at h
    cases hquote : (n.run s).quote with
    | none =>
      by_cases hc : c = '\'' ∨ c = '"' ∨ c = '`'
      · rw [step_quote hquote hc] at h
        exact Option.some.inj h ▸ hc
      · cases (congrArg Prod.fst (quoting_step_of_not_quote hquote hc true)).symm.trans h
    | some q' =>
      unfold step at h
      rw [hquote] at h
      dsimp only at h
      split at h
      · cases h
      · exact ih (hquote.trans h)

theorem not_quote_of_isBlank (hc : isBlank c = true) : ¬(c = '\'' ∨ c = '"' ∨ c = '`') := by
  rintro (rfl | rfl | rfl) <;> cases hc

/-- The cuts are outside of literals before the blanks at the end of a text as they are there. -/
theorem quote_run_trimEnd (hn : n.quote = none) (h : (n.run s).quote = none) :
    (n.run (trimEnd s)).quote = none := by
  obtain ⟨b, hb, hs⟩ := exists_eq_trimEnd_append s
  refine Option.eq_none_iff_forall_ne_some.2 fun q hq => ?_
  have hmem : q ∉ b := fun hmem => not_quote_of_isBlank (hb q hmem) (quote_of_run hn hq)
  rw [hs, run_append, quote_run_of_not_mem hq hmem] at h
  cases h

theorem exists_quote_run_trim (hn : n.quote = none) (h : (n.run s).quote = none) :
    ∃ n' : Nesting, n'.quote = none ∧ (n'.run (trim s)).quote = none := by
  have hstart : (n.run (s.takeWhile isBlank)).quote = none :=
    quote_run_of_not_quote hn fun c hc => not_quote_of_isBlank (List.mem_takeWhile_imp hc)
  refine ⟨n.run (s.takeWhile isBlank), hstart, quote_run_trimEnd hstart ?_⟩
  rwa [← run_append, trimStart, List.takeWhile_append_dropWhile]

/-- What is orderly and ends outside of literals is read alone, before what does not join it. -/
theorem Orderly.readBack {next : Option Char} (h : Orderly s) (hn : n.quote = none)
    (hquote : (n.run s).quote = none) (hnext : next.all (fun c => !joins c) = true) :
    ReadBack .code next (scan .code s).reverse := by
  have hcomma : Orderly (s ++ [',']) := (orderly_concat_iff rfl).2 h
  have hout := (hcomma.cut_cons rfl rfl hn hquote).1
  rcases scan_concat_cases (c := ',') rfl (Or.inl h.asides) with hscan | ⟨init, t, hscan, hscan'⟩
  · have hback := readBack_scan .code (s ++ [','])
    rw [hscan, List.reverse_concat] at hback
    exact ReadBack.of_apart (n := ',') hback.2 hnext
  · -- A literal that goes on over the comma would keep it from the outline.
    rw [outline, outline, hscan, hscan', List.flatMap_append, List.flatMap_append] at hout
    exact absurd (congrArg List.length hout) (by simp [Lexeme.outline])

theorem outline_trim_concat (hs : Orderly s) (hn : n.quote = none)
    (hquote : (n.run s).quote = none) (hc : isPlain c = true) (hsolid : isBlank c = false) :
    outline (trim s ++ [c]) = outline s ++ [c] := by
  obtain ⟨n', hn', htrim⟩ := exists_quote_run_trim hn hquote
  have horderly : Orderly (trim s ++ [c]) := (orderly_concat_iff hc).2 (orderly_trim_iff.2 hs)
  rw [(horderly.cut_cons hc hsolid hn' htrim).1, outline_trim, outline_nil]

end

section

variable {o : FormatOptions} {n : Nesting} {s pre indent body line : List Char}
  {ls : List (List Char)}

/-- The lines of the items have the outline of what was split. -/
theorem outline_itemLines (ho : o.trailingComma = false) (hpre : ∀ c ∈ pre, isBlank c = true)
    (hn : n.quote = none) (hs : Orderly s) :
    (itemLines o pre (splitTop ',' n s)).flatMap outline = outline s := by
  generalize hitems : splitTop ',' n s = items
  induction items generalizing n s with
  | nil => exact absurd hitems (splitTop_ne_nil ',' n s)
  | cons item items ih =>
    rcases splitTop_cons_cases hitems with ⟨rfl, rfl⟩ | ⟨s', n', rfl, hitem, hn', hrest⟩
    · have hlast : lastComma o = [] := by simp [lastComma, ho]
      simp [itemLines, hlast, outline_append_of_blank hpre]
    · obtain ⟨hout, hleft, hright⟩ := hs.cut_cons rfl rfl hn hitem
      obtain ⟨item', items', rfl⟩ : ∃ item' items', items = item' :: items' :=
        List.exists_cons_of_ne_nil (hrest ▸ splitTop_ne_nil ',' n' s')
      rw [itemLines_cons_cons, List.flatMap_cons, List.append_assoc, outline_append_of_blank hpre,
        outline_trim_concat hleft hn hitem rfl rfl, ih hn' hright hrest, hout, List.append_assoc]
      rfl

/-- A line that is broken around its parentheses keeps its outline. -/
theorem outline_breakParens (ho : o.trailingComma = false) (h : breakParens o indent body = some ls)
    (hindent : ∀ c ∈ indent, isBlank c = true) (hbody : Orderly body) :
    ls.flatMap outline = outline body := by
  obtain ⟨left, inside, close, hcut, hclose, rfl, rfl⟩ := exists_of_breakParens_eq_some h
  have hn : ({} : Nesting).quote = none := rfl
  have hleft := (isTop_iff.1 (isTop_of_cutTop? hcut)).2
  obtain ⟨hout, horderly, hright⟩ := hbody.cut hn hleft
  rw [← List.cons_append] at hright
  obtain ⟨houtRight, hopen, hstop⟩ := hright.cut hn (quote_run_of_cutClose? hclose rfl)
  have hinside : Orderly inside := (orderly_cons_iff rfl).1 hopen
  have hpre : ∀ c ∈ indent ++ o.unit, isBlank c = true :=
    List.forall_mem_append.2 ⟨hindent, isBlank_unit o⟩
  have hfirst : outline (left ++ ['(']) = outline left ++ ['('] := by
    have hconcat := ((orderly_concat_iff (c := '(') rfl).2 horderly).cut_cons rfl rfl hn hleft
    rw [hconcat.1, outline_nil]
  rw [List.flatMap_cons, List.flatMap_append, List.flatMap_singleton, List.append_assoc indent,
    outline_append_of_blank hindent, hfirst,
    outline_itemLines ho hpre hn (orderly_trim_iff.2 hinside), outline_trim,
    outline_append_of_blank hindent, hout, ← List.cons_append, houtRight, outline_cons rfl,
    Lexeme.outline_code rfl]
  simp only [List.append_assoc]

/-! ## Unions -/

variable {c : Char} {stop : List Char} {member side : List Char} {members : List (List Char)}

theorem outline_memberLine (hpre : ∀ c ∈ pre, isBlank c = true) (t : List Char) :
    outline (pre ++ ['|', ' '] ++ t) = '|' :: outline t := by
  rw [List.append_assoc, outline_append_of_blank hpre, List.cons_append, outline_cons rfl,
    outline_append_of_blank (List.forall_mem_singleton.2 rfl), Lexeme.outline_code rfl]
  rfl

theorem outline_append_stop (hstop : stop = [] ∨ stop = [';']) (h : Orderly s) :
    outline (s ++ stop) = outline s ++ stop ∨
      stop = [';'] ∧ outline (s ++ stop) = outline s ∧ (outline s).getLast? = some '"' := by
  rcases hstop with rfl | rfl
  · exact Or.inl (by rw [List.append_nil, List.append_nil])
  · exact (outline_concat_cases rfl h.asides).imp id fun h => ⟨rfl, h⟩

theorem head?_outline_memberLines (hpre : ∀ c ∈ pre, isBlank c = true) :
    ((memberLines pre members stop).flatMap outline).head? = members.head?.map fun _ => '|' := by
  rcases members with _ | ⟨member, _ | ⟨member', members⟩⟩
  · rfl
  · simp only [memberLines, List.dropLast_singleton, List.map_nil, List.getLast?_singleton,
      Option.toList_some, List.map_cons, List.nil_append, List.flatMap_singleton]
    rw [List.append_assoc, outline_memberLine hpre]
    rfl
  · rw [memberLines_cons _ _ (List.cons_ne_nil _ _), List.flatMap_cons, outline_memberLine hpre]
    rfl

/-- The lines of the members of a union have no comma before a closing bracket but in a member. -/
theorem infix_of_outline_memberLines (hpre : ∀ c ∈ pre, isBlank c = true)
    (hstop : stop = [] ∨ stop = [';']) (hmembers : ∀ member ∈ members, Orderly member)
    (hc : isCloser c = true)
    (h : [',', c] <:+: (memberLines pre members stop).flatMap outline) :
    ∃ member ∈ members, [',', c] <:+: outline member := by
  have hbar : c ≠ '|' ∧ c ≠ ';' := by rcases isCloser_iff.1 hc with rfl | rfl | rfl <;> decide
  induction members with
  | nil => exact absurd h.length_le (by simp [memberLines])
  | cons member members ih =>
    obtain ⟨hmember, hrest⟩ := List.forall_mem_cons.1 hmembers
    by_cases hnil : members = []
    · subst hnil
      have hsingle : memberLines pre [member] stop = [pre ++ ['|', ' '] ++ member ++ stop] := rfl
      rw [hsingle, List.flatMap_singleton, List.append_assoc, outline_memberLine hpre,
        pair_infix_cons_iff] at h
      refine ⟨member, List.mem_cons_self, ?_⟩
      have hin := h.resolve_left fun hfirst => absurd hfirst.1 (by decide)
      rcases outline_append_stop hstop hmember with hout | ⟨-, hout, -⟩
      · rw [hout] at hin
        rcases pair_infix_append hin with hin | ⟨-, hhead⟩ | hin
        · exact hin
        · rcases hstop with rfl | rfl
          · cases hhead
          · exact absurd (Option.some.inj hhead).symm hbar.2
        · rcases hstop with rfl | rfl <;> exact absurd hin.length_le (by simp)
      · rwa [hout] at hin
    · rw [memberLines_cons _ _ hnil, List.flatMap_cons, outline_memberLine hpre] at h
      rcases pair_infix_append h with h | ⟨-, hhead⟩ | h
      · rw [pair_infix_cons_iff] at h
        exact ⟨member, List.mem_cons_self,
          h.resolve_left fun hfirst => absurd hfirst.1 (by decide)⟩
      · rw [head?_outline_memberLines hpre] at hhead
        obtain ⟨-, -, hc'⟩ := Option.map_eq_some_iff.1 hhead
        exact absurd hc'.symm hbar.1
      · obtain ⟨m, hm, hin⟩ := ih hrest h
        exact ⟨m, List.mem_cons_of_mem member hm, hin⟩

/-- They end in a comma only where the last member does, and no semicolon is behind it. -/
theorem getLast?_outline_memberLines (hpre : ∀ c ∈ pre, isBlank c = true)
    (hstop : stop = [] ∨ stop = [';']) (hmembers : ∀ member ∈ members, Orderly member)
    (h : ((memberLines pre members stop).flatMap outline).getLast? = some ',') :
    stop = [] ∧ ∃ member, members.getLast? = some member ∧
      (outline member).getLast? = some ',' := by
  cases hlast : members.getLast? with
  | none =>
    rw [List.getLast?_eq_none_iff.1 hlast] at h
    cases h
  | some member =>
    obtain ⟨init, hinit⟩ := List.getLast?_eq_some_iff.1 (getLast?_memberLines pre stop hlast)
    rw [hinit, List.flatMap_append, List.flatMap_singleton, List.append_assoc,
      outline_memberLine hpre, List.getLast?_append_of_ne_nil _ (List.cons_ne_nil _ _),
      List.getLast?_cons] at h
    have hend : (outline (member ++ stop)).getLast? = some ',' := by
      cases hout : (outline (member ++ stop)).getLast? with
      | none =>
        rw [hout] at h
        cases h
      | some d => rwa [hout] at h
    rcases outline_append_stop hstop (hmembers member (List.mem_of_getLast? hlast)) with
      hout | ⟨-, hout, hquote⟩
    · rcases hstop with rfl | rfl
      · rw [hout, List.append_nil] at hend
        exact ⟨rfl, member, rfl, hend⟩
      · rw [hout, List.getLast?_concat] at hend
        cases hend
    · rw [hout, hquote] at hend
      cases hend

/-- No comma stands before a bar, so the last member that is left ends in a comma only where the
whole union does. -/
theorem getLast?_outline_of_members (hn : n.quote = none) (hs : Orderly s)
    (hbar : ¬[',', '|'] <:+: outline s)
    (hmember : (((splitTop '|' n s).map trim).filter (!·.isEmpty)).getLast? = some member)
    (hcomma : (outline member).getLast? = some ',') : (outline s).getLast? = some ',' := by
  generalize hparts : splitTop '|' n s = parts at hmember
  induction parts generalizing n s with
  | nil => exact absurd hparts (splitTop_ne_nil '|' n s)
  | cons part rest ih =>
    rw [List.map_cons] at hmember
    have hfirst (hnone : (rest.map trim).filter (!·.isEmpty) = []) :
        outline part = outline member := by
      rw [List.filter_cons, hnone] at hmember
      split at hmember
      · rw [List.getLast?_singleton] at hmember
        rw [← Option.some.inj hmember, outline_trim]
      · cases hmember
    rcases splitTop_cons_cases hparts with ⟨rfl, rfl⟩ | ⟨s', n', rfl, hpart, hn', hrest⟩
    · rw [hfirst rfl]
      exact hcomma
    · obtain ⟨hout, -, hright⟩ := hs.cut_cons rfl rfl hn hpart
      rw [hout] at hbar ⊢
      by_cases hnone : (rest.map trim).filter (!·.isEmpty) = []
      · refine absurd (pair_infix_of_append ?_ rfl) hbar
        rw [hfirst hnone]
        exact hcomma
      · have hlast : ((rest.map trim).filter (!·.isEmpty)).getLast? = some member := by
          rw [List.filter_cons] at hmember
          split at hmember
          · rwa [List.getLast?_cons_of_ne_nil hnone] at hmember
          · exact hmember
        have hbar' : ¬[',', '|'] <:+: outline s' := fun hsub =>
          hbar (hsub.trans ((List.suffix_cons _ _).trans (List.suffix_append _ _)).isInfix)
        have hend := ih hn' hright hbar' hrest hlast
        rw [List.getLast?_append_of_ne_nil _ (List.cons_ne_nil _ _), List.getLast?_cons, hend,
          Option.getD_some]

/-! ## Broken lines -/

/-- An outline that has a comma before a closing bracket only where another has, and the ends of
that one as far as such commas go. -/
structure SafeFor (s t : List Char) : Prop where
  pairs : ∀ c, isCloser c = true → [',', c] <:+: t → [',', c] <:+: s
  head : t.head? = s.head?
  last : t.getLast? = some ',' → s.getLast? = some ','

theorem SafeFor.refl (s : List Char) : SafeFor s s := ⟨fun _ _ => id, rfl, id⟩

theorem SafeFor.append {s s' t t' : List Char} (h : SafeFor s t) (h' : SafeFor s' t') :
    SafeFor (s ++ s') (t ++ t') where
  pairs c hc hsub := by
    rcases pair_infix_append hsub with hleft | ⟨hlast, hhead⟩ | hright
    · exact (h.pairs c hc hleft).trans (List.prefix_append _ _).isInfix
    · exact pair_infix_of_append (h.last hlast) (h'.head ▸ hhead)
    · exact (h'.pairs c hc hright).trans (List.suffix_append _ _).isInfix
  head := by rw [List.head?_append, List.head?_append, h.head, h'.head]
  last hlast := by
    by_cases hnil : t' = []
    · have hnil' : s' = [] := by
        rw [← List.head?_eq_none_iff, ← h'.head, hnil]
        rfl
      rw [hnil, List.append_nil] at hlast
      rw [hnil', List.append_nil]
      exact h.last hlast
    · rw [List.getLast?_append_of_ne_nil _ hnil] at hlast
      have hend := h'.last hlast
      have hne : s' ≠ [] := fun hnil' => by
        rw [hnil'] at hend
        cases hend
      rwa [List.getLast?_append_of_ne_nil _ hne]

/-- What is left of a union without the semicolon at its end. -/
theorem orderly_splitStop (hs : trimEnd s = s) (h : Orderly s) :
    Orderly (splitStop s).1 ∧ outline (splitStop s).1 <:+: outline s ∧
      ((splitStop s).2 = [] ∧ (splitStop s).1 = s ∨ (splitStop s).2 = [';']) := by
  obtain ⟨-, ⟨hstop, heq⟩ | ⟨hstop, b, hb, heq⟩⟩ := splitStop_cases hs
  · rw [← heq]
    exact ⟨h, List.infix_refl _, Or.inl ⟨hstop, rfl⟩⟩
  · rw [← List.append_assoc] at heq
    rw [heq] at h
    have hinit := (orderly_concat_iff rfl).1 h
    refine ⟨(orderly_append_blank_iff hb).1 hinit, ?_, Or.inr hstop⟩
    conv => rhs; rw [heq]
    rcases outline_concat_cases (c := ';') rfl hinit.asides with hout | ⟨hout, -⟩
    · rw [hout, outline_append_blank hb]
      exact (List.prefix_append _ _).isInfix
    · rw [hout, outline_append_blank hb]

theorem orderly_of_mem_members (hside : Orderly side) :
    ∀ member ∈ ((unionParts side).map trim).filter (!·.isEmpty),
      Orderly member ∧ outline member <:+: outline side := fun member hmember => by
  obtain ⟨hright, hsub, -⟩ := orderly_splitStop (trim_eq_self_iff.1 (trim_trim side)).2
    (orderly_trim_iff.2 hside)
  obtain ⟨part, hpart, rfl⟩ := List.mem_map.1 (List.mem_of_mem_filter hmember)
  obtain ⟨horderly, hpartInfix⟩ := orderly_of_mem_splitTop rfl rfl rfl hright part hpart
  rw [outline_trim]
  exact ⟨orderly_trim_iff.2 horderly, hpartInfix.trans (outline_trim side ▸ hsub)⟩

theorem safeFor_members (hpre : ∀ c ∈ pre, isBlank c = true) (hside : Orderly side)
    (hbar : ¬[',', '|'] <:+: outline side) :
    SafeFor ('=' :: outline side) ('=' :: (memberLines pre
      (((unionParts side).map trim).filter (!·.isEmpty)) (splitStop (trim side)).2).flatMap
        outline) := by
  have hn : ({} : Nesting).quote = none := rfl
  obtain ⟨hright, hsub, hcases⟩ := orderly_splitStop (trim_eq_self_iff.1 (trim_trim side)).2
    (orderly_trim_iff.2 hside)
  rw [outline_trim] at hsub
  have hstop : (splitStop (trim side)).2 = [] ∨ (splitStop (trim side)).2 = [';'] :=
    hcases.imp_left And.left
  have hmembers := orderly_of_mem_members hside
  refine ⟨fun c hc hpair => ?_, rfl, fun hlast => ?_⟩
  · rw [pair_infix_cons_iff] at hpair ⊢
    obtain ⟨member, hmember, hpair⟩ := infix_of_outline_memberLines hpre hstop
      (fun member hmember => (hmembers member hmember).1) hc
      (hpair.resolve_left fun hfirst => absurd hfirst.1 (by decide))
    exact Or.inr (hpair.trans (hmembers member hmember).2)
  · have hend : ((memberLines pre (((unionParts side).map trim).filter (!·.isEmpty))
        (splitStop (trim side)).2).flatMap outline).getLast? = some ',' := by
      rw [List.getLast?_cons] at hlast
      generalize List.getLast? _ = last at hlast
      cases last with
      | none => cases hlast
      | some c => exact hlast
    obtain ⟨hnone, member, hmember, hcomma⟩ := getLast?_outline_memberLines hpre hstop
      (fun member hmember => (hmembers member hmember).1) hend
    have hwhole : (splitStop (trim side)).1 = trim side := by
      rcases hcases with ⟨-, hwhole⟩ | hsemicolon
      · exact hwhole
      · cases hnone.symm.trans hsemicolon
    have hside := getLast?_outline_of_members hn hright (fun hin => hbar (hin.trans hsub))
      hmember hcomma
    rw [hwhole, outline_trim] at hside
    rw [List.getLast?_cons, hside]
    rfl

theorem safeFor_breakUnion (h : breakUnion o indent body = some ls)
    (hindent : ∀ c ∈ indent, isBlank c = true) (hbody : Orderly body)
    (hbar : ¬[',', '|'] <:+: outline body) : SafeFor (outline body) (ls.flatMap outline) := by
  obtain ⟨left, side, hcut, rfl, -, rfl⟩ := exists_of_breakUnion_eq_some h
  have hn : ({} : Nesting).quote = none := rfl
  have hleft := (isTop_iff.1 (isTop_of_cutTop? hcut)).2
  obtain ⟨hout, horderly, hright⟩ := hbody.cut hn hleft
  obtain ⟨houtSide, -, hside⟩ := Orderly.cut (u := ['=']) hright hn rfl
  rw [List.singleton_append, orderly_equals.2] at houtSide
  rw [houtSide] at hout
  have hpre : ∀ c ∈ indent ++ o.unit, isBlank c = true :=
    List.forall_mem_append.2 ⟨hindent, isBlank_unit o⟩
  have hfirst : outline (indent ++ trimEnd left ++ [' ', '=']) = outline left ++ ['='] := by
    have htrim := orderly_trimEnd_iff.2 horderly
    rw [List.append_assoc, outline_append_of_blank hindent,
      outline_append (htrim.readBack hn (quote_run_trimEnd hn hleft) rfl) htrim.asides,
      outline_trimEnd, outline_cons (c := ' ') rfl, orderly_equals.2]
    rfl
  rw [List.flatMap_cons, hfirst, hout, List.append_assoc]
  rw [hout] at hbar
  exact (SafeFor.refl _).append (safeFor_members hpre hside fun hsub =>
    hbar (hsub.trans ((List.suffix_cons '=' _).trans (List.suffix_append _ _)).isInfix))

/-- A broken line of code has a comma before a closing bracket only where the line has. -/
theorem safeFor_breakLine (ho : o.trailingComma = false) (h : Orderly line)
    (hbar : ¬[',', '|'] <:+: outline line) :
    SafeFor (outline line) ((breakLine o line).flatMap outline) := by
  have hindent : ∀ c ∈ line.takeWhile isBlank, isBlank c = true := fun _ hc =>
    List.mem_takeWhile_imp hc
  have hbody : Orderly (trimStart line) := orderly_trimStart_iff.2 h
  rw [← outline_trimStart] at hbar ⊢
  rcases breakLine_cases o line with hwhole | hunion | ⟨-, hparens⟩
  · rw [hwhole, List.flatMap_singleton, outline_trimStart]
    exact .refl _
  · exact safeFor_breakUnion hunion hindent hbody hbar
  · rw [outline_breakParens ho hparens hindent hbody]
    exact .refl _

end

end ReferencePages
