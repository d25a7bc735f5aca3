import ReferencePages.Proofs.SiteLink.Pages

/-!
# Moving moved links

Moving links is not idempotent (`moveLinks_moveLinks_twoAnchors`): an anchor that takes the
beginning of another one into its scope leaves that one behind for the next time. It is idempotent
where each anchor stands alone (`TidyAnchors`, `moveLinks_moveLinks`). Three facts carry this: the
second rule leaves no anchor (`noAnchor_moveAnchors`), the third one neither leaves the page of the
command line (`not_infix_moveCommandLine`) nor gives the second rule anything to do
(`noAnchor_moveCommandLine`), and neither of them does so for the first rule
(`movePages_moveAnchors`, `movePages_moveCommandLine`).
-/

namespace ReferencePages.SiteLink

variable {a b s t u v w x scope name member rest : List Char} {c : Char}

/-! ## Anchors that stand alone -/

/-- An anchor in which no other one begins, and whose scope and name end the pages that begin in
them. -/
structure TidyAnchor (scope name member : List Char) : Prop where
  scope_alone : ¬anchorStart <:+: reference ++ scope
  name_alone : ¬anchorStart <:+: name
  member_alone : ¬anchorStart <:+: member
  pages : scope ≠ "$env".toList →
    ∀ x y, scope ++ '-' :: name = x ++ (docs ++ y) → ∃ c ∈ y, EndsPage c
  name_head : scope = "$env".toList → name.head? ≠ some ')'

/-- All anchors of a text stand alone. -/
def TidyAnchors (s : List Char) : Prop :=
  ∀ u v scope name member rest, s = u ++ v → IsAnchor v scope name member rest →
    TidyAnchor scope name member

theorem TidyAnchors.of_append (h : TidyAnchors (u ++ s)) : TidyAnchors s :=
  fun u' v scope name member rest hs hanchor =>
    h (u ++ u') v scope name member rest (by rw [hs, List.append_assoc]) hanchor

theorem IsAnchor.tidy (h : IsAnchor s scope name member rest) (hs : TidyAnchors s) :
    TidyAnchor scope name member :=
  hs [] s scope name member rest rfl h

theorem IsAnchor.tidy_rest (h : IsAnchor s scope name member rest) (hs : TidyAnchors s) :
    TidyAnchors rest := by
  have hsplit : s = anchorStart ++ (scope ++ '-' :: (name ++ '-' :: member)) ++ rest := by
    rw [h.eq]
    simp only [List.append_assoc, List.cons_append]
  exact (hsplit ▸ hs).of_append

/-- The scope as the page of a module spells it. -/
theorem anchorTarget_of_ne (h : scope ≠ "$env".toList) (name member : List Char) :
    ∃ pre, (pre = [] ∨ pre = ['@']) ∧
      anchorTarget scope name member =
        reference ++ (pre ++ (scope ++ '-' :: name) ++ '#' :: member) := by
  rw [anchorTarget, if_neg h]
  dsimp only
  split
  · next hscope =>
    rw [hscope]
    exact ⟨['@'], Or.inr rfl, by simp⟩
  · exact ⟨[], Or.inl rfl, by simp⟩

theorem anchorTarget_env (name member : List Char) :
    anchorTarget "$env".toList name member =
      reference ++
        ("$env-all".toList ++ '#' :: ("$env".toList ++ '-' :: (name ++ '-' :: member))) := by
  rw [anchorTarget, if_pos rfl]
  simp

/-! ## Pages -/

theorem movePages_of_eq_append_cons (h : movePages x = x) (hx : x = a ++ c :: b) (hc : EndsPage c) :
    movePages b = b :=
  ((movePages_append_cons_eq_iff hc).1 (hx ▸ h)).2

/-- The second rule gives the first one nothing to do. -/
theorem movePages_moveAnchors (h : movePages (w ++ s) = w ++ s) (hs : TidyAnchors s) :
    movePages (w ++ moveAnchors s) = w ++ moveAnchors s := by
  induction s using anchorInduction generalizing w with
  | nil => rwa [moveAnchors_nil]
  | char c s hnone ih =>
    rw [moveAnchors_cons hnone, List.append_cons]
    rw [List.append_cons] at h
    exact ih h (TidyAnchors.of_append (u := [c]) hs)
  | anchor s scope name member rest hanchor ih =>
    have hrest : ∀ w, movePages (w ++ rest) = w ++ rest →
        movePages (w ++ moveAnchors rest) = w ++ moveAnchors rest :=
      fun w hw => ih hw (hanchor.tidy_rest hs)
    have hstart : anchorStart = docs ++ ("kit/reference/modules".toList ++ ['#']) := rfl
    have hsplit : w ++ s = w ++ (docs ++ "kit/reference/modules".toList) ++
        '#' :: (scope ++ '-' :: name ++ '-' :: (member ++ rest)) := by
      rw [hanchor.eq, hstart]
      simp only [List.append_assoc, List.cons_append, List.nil_append]
    obtain ⟨hbefore, hbehind⟩ := (movePages_append_cons_eq_iff (Or.inl rfl)).1 (hsplit ▸ h)
    rw [hanchor.moveAnchors]
    by_cases henv : scope = "$env".toList
    · -- Behind the `#`, nothing but the rest is changed.
      subst henv
      rw [anchorTarget_env]
      have hpage : movePages "$env-all".toList = "$env-all".toList :=
        movePages_of_not_infix fun hdocs => absurd (hdocs.subset List.mem_cons_self) (by decide)
      have hmember := hrest ("$env".toList ++ '-' :: name ++ '-' :: member) (by simpa using hbehind)
      have hx := (movePages_append_cons_eq_iff (Or.inl rfl)).2 ⟨hpage, hmember⟩
      have := movePages_reference hbefore fun a c b => movePages_of_eq_append_cons hx
      simpa only [List.append_assoc, List.cons_append] using this
    · -- The page of the module ends behind its name, and the member stands by itself.
      obtain ⟨hname, hmember⟩ := movePages_append_dash hbehind ((hanchor.tidy hs).pages henv)
      obtain ⟨pre, hpre, htarget⟩ := anchorTarget_of_ne henv name member
      have hy := (movePages_append_cons_eq_iff (Or.inl rfl)).2 ⟨hname, hrest member hmember⟩
      have hx : ∀ a c b, pre ++ (scope ++ '-' :: name ++ '#' :: (member ++ moveAnchors rest)) =
          a ++ c :: b → EndsPage c → movePages b = b := by
        intro a c b hab hc
        rcases hpre with rfl | rfl
        · exact movePages_of_eq_append_cons hy hab hc
        · cases a with
          | nil =>
            obtain ⟨rfl, -⟩ := List.cons.inj hab
            rcases hc with hc | hc <;> cases hc
          | cons d a => exact movePages_of_eq_append_cons hy (List.cons.inj hab).2 hc
      have := movePages_reference hbefore hx
      rw [htarget]
      simpa only [List.append_assoc, List.cons_append] using this

/-- The third rule gives the first one nothing to do. -/
theorem movePages_moveCommandLine (h : movePages (w ++ s) = w ++ s) :
    movePages (w ++ moveCommandLine s) = w ++ moveCommandLine s := by
  induction s using commandInduction generalizing w with
  | nil => rwa [moveCommandLine_nil]
  | char c s hnot ih =>
    rw [moveCommandLine_cons hnot, List.append_cons]
    rw [List.append_cons] at h
    exact ih h
  | command s ih =>
    have hsplit : w ++ (commandLine ++ s) = w ++ (docs ++ ("cli".toList ++ s)) := rfl
    rw [hsplit] at h
    have hmoved := movePages_reference (x := "cli".toList ++ s) h fun a c b hx =>
      movePages_of_eq_append_cons (a := w ++ docs ++ a) h (by simp only [hx, List.append_assoc])
    rw [moveCommandLine_append]
    have := @ih (w ++ (reference ++ "cli".toList))
      (by simpa only [List.append_assoc] using hmoved)
    simpa only [List.append_assoc] using this

/-! ## Anchors -/

/-- A text starts with two parts that end at a dash each, and goes on. -/
def HasParts (s : List Char) : Prop :=
  ∃ scope name c t, s = scope ++ '-' :: (name ++ '-' :: c :: t) ∧ scope ≠ [] ∧ '-' ∉ scope ∧
    name ≠ [] ∧ '-' ∉ name ∧ c ≠ '-' ∧ c ≠ ')'

/-- An anchor begins where its start has two parts behind it. -/
theorem moduleAnchor_eq_none_iff_hasParts :
    moduleAnchor (anchorStart ++ s) = none ↔ ¬HasParts s := by
  rw [moduleAnchor_eq_none_iff]
  constructor
  · rintro h ⟨scope, name, c, t, rfl, hscope, hscope', hname, hname', hc⟩
    let inMember := fun c => c != '-' && c != ')'
    have hfirst : inMember c = true := by simpa [inMember] using hc
    have hsplit := List.takeWhile_append_dropWhile (p := inMember) (l := c :: t)
    refine h scope name ((c :: t).takeWhile inMember) ((c :: t).dropWhile inMember)
      ⟨by rw [hsplit], hscope, hscope', hname, hname', ?_, fun d hd => ?_, fun d hd => ?_⟩
    · rw [List.takeWhile_cons_of_pos hfirst]
      exact List.cons_ne_nil _ _
    · simpa [inMember] using List.mem_takeWhile_imp hd
    · have hstop := List.head?_dropWhile_not inMember (c :: t)
      rw [hd] at hstop
      simpa only [inMember, Bool.and_eq_false_iff, bne_eq_false_iff_eq] using hstop
  · rintro h scope name member rest hanchor
    obtain ⟨c, member', rfl⟩ := List.exists_cons_of_ne_nil hanchor.member_ne_nil
    exact h ⟨scope, name, c, member' ++ rest, List.append_cancel_left hanchor.eq,
      hanchor.scope_ne_nil, hanchor.scope, hanchor.name_ne_nil, hanchor.name,
      hanchor.member c List.mem_cons_self⟩

/-- No anchor begins in a text. -/
def NoAnchor (s : List Char) : Prop := ∀ u v, s = u ++ v → moduleAnchor v = none

theorem moveAnchors_of_noAnchor (h : NoAnchor s) : moveAnchors s = s := by
  induction s with
  | nil => exact moveAnchors_nil
  | cons c s ih =>
    rw [moveAnchors_cons (h [] (c :: s) rfl), ih fun u v hs => h (c :: u) v (by rw [hs]; rfl)]

theorem noAnchor_cons (hc : moduleAnchor (c :: s) = none) (hs : NoAnchor s) :
    NoAnchor (c :: s) := by
  intro u v huv
  cases u with
  | nil => exact (show c :: s = v from huv) ▸ hc
  | cons d u => exact hs u v (List.cons.inj huv).2

/-- The first anchor of a text is what the second rule changes first. -/
theorem moveAnchors_eq_self_or (s : List Char) :
    moveAnchors s = s ∨ ∃ u v scope name member rest, s = u ++ v ∧
      IsAnchor v scope name member rest ∧
      moveAnchors s = u ++ (anchorTarget scope name member ++ moveAnchors rest) := by
  induction s using anchorInduction with
  | nil => exact Or.inl moveAnchors_nil
  | char c s hnone ih =>
    rw [moveAnchors_cons hnone]
    rcases ih with h | ⟨u, v, scope, name, member, rest, rfl, hanchor, h⟩
    · exact Or.inl (by rw [h])
    · exact Or.inr ⟨c :: u, v, scope, name, member, rest, rfl, hanchor, by rw [h, List.cons_append]⟩
  | anchor s scope name member rest hanchor ih =>
    exact Or.inr ⟨[], s, scope, name, member, rest, rfl, hanchor, hanchor.moveAnchors⟩

theorem dash_notMem_anchorStart : '-' ∉ anchorStart := by decide

/-- Where an anchor that stands alone leads to, a part begins behind its first dash as the name
does. -/
theorem TidyAnchor.head_ne_of_eq_append {d : Char} (h : TidyAnchor scope (d :: name) member)
    (hscope : '-' ∉ scope) (hu : '-' ∉ u) (ha : '-' ∉ a) (hc : c ≠ ')')
    (heq : u ++ (anchorTarget scope (d :: name) member ++ w) = a ++ '-' :: c :: t) : d ≠ ')' := by
  rintro rfl
  by_cases henv : scope = "$env".toList
  · exact h.name_head henv rfl
  · obtain ⟨pre, hpre, htarget⟩ := anchorTarget_of_ne henv (')' :: name) member
    have hdash : '-' ∉ u ++ (reference ++ (pre ++ scope)) := by
      have hreference : '-' ∉ reference := by decide
      rcases hpre with rfl | rfl <;> simp [hu, hreference, hscope]
    have hcut : u ++ (reference ++ (pre ++ scope)) ++ '-' :: (')' :: name ++ '#' :: member ++ w) =
        a ++ '-' :: c :: t := by
      rw [← heq, htarget]
      simp only [List.append_assoc, List.cons_append]
    exact hc (List.cons.inj (append_cons_inj hdash ha hcut).2).1.symm

/-- What the second rule changes behind a text does not make that the start of an anchor. -/
theorem hasParts_of_moveAnchors (hs : TidyAnchors s) (h : HasParts (moveAnchors s)) :
    HasParts s := by
  rcases moveAnchors_eq_self_or s with heq | ⟨u, v, sc, nm, mb, rest, rfl, hanchor, heq⟩
  · rwa [heq] at h
  rw [heq] at h
  obtain ⟨scope, name, c, t, hparts, hscope, hscope', hname, hname', hc⟩ := h
  have htidy := hanchor.tidy (TidyAnchors.of_append hs)
  obtain ⟨e, nm', rfl⟩ := List.exists_cons_of_ne_nil hanchor.name_ne_nil
  obtain ⟨m, mb', rfl⟩ := List.exists_cons_of_ne_nil hanchor.member_ne_nil
  have hfirst : ∀ {x}, '-' ∉ x → x ++ (anchorStart ++ sc) ≠ [] ∧ '-' ∉ x ++ (anchorStart ++ sc) :=
    fun hx => ⟨List.append_ne_nil_of_right_ne_nil _ (List.cons_ne_nil _ _), by
      simp [hx, dash_notMem_anchorStart, hanchor.scope]⟩
  by_cases hu : '-' ∈ u
  · obtain ⟨u₁, u₂, rfl, hu₁⟩ := List.eq_append_cons_of_mem hu
    rw [List.append_assoc, List.cons_append] at hparts
    obtain ⟨rfl, hsecond⟩ := append_cons_inj hu₁ hscope' hparts
    by_cases hu' : '-' ∈ u₂
    · -- Both parts end before the anchor.
      obtain ⟨u₃, u₄, rfl, hu₃⟩ := List.eq_append_cons_of_mem hu'
      rw [List.append_assoc, List.cons_append] at hsecond
      obtain ⟨rfl, hthird⟩ := append_cons_inj hu₃ hname' hsecond
      cases u₄ with
      | nil =>
        have hv : v = '/' :: v.tail := by
          rw [hanchor.eq]
          rfl
        exact ⟨u₁, u₃, '/', v.tail, by simp [← hv], hscope, hscope', hname, hname', by decide⟩
      | cons d u₄ =>
        obtain ⟨rfl, -⟩ := List.cons.inj hthird
        exact ⟨u₁, u₃, d, u₄ ++ v, by simp, hscope, hscope', hname, hname', hc⟩
    · -- The second part ends with the scope of the anchor.
      obtain ⟨hne, hdash⟩ := hfirst hu'
      exact ⟨u₁, u₂ ++ (anchorStart ++ sc), e, nm' ++ '-' :: (m :: mb' ++ rest),
        by simp [hanchor.eq], hscope, hscope', hne, hdash,
        fun he => hanchor.name (he ▸ List.mem_cons_self),
        htidy.head_ne_of_eq_append hanchor.scope hu' hname' hc.2 hsecond⟩
  · -- The first part ends with the scope of the anchor, and the second one is its name.
    obtain ⟨hne, hdash⟩ := hfirst hu
    exact ⟨u ++ (anchorStart ++ sc), e :: nm', m, mb' ++ rest,
      by simp [hanchor.eq], hne, hdash, List.cons_ne_nil e nm',
      hanchor.name, hanchor.member m List.mem_cons_self⟩

theorem exists_of_moveAnchors_eq_append {m : List Char} (hm : apart docs m = true)
    (h : moveAnchors s = m ++ w) : ∃ b, s = m ++ b ∧ w = moveAnchors b := by
  refine exists_of_replaceMatches_eq_append (fun s x n hmatch => ?_) hm h
  obtain ⟨scope, name, member, -, -, rfl, -⟩ := moduleAnchor_eq_some_iff.1 hmatch
  exact docs_prefix_anchorTarget scope name member

theorem exists_of_moveCommandLine_eq_append {m : List Char} (hm : apart docs m = true)
    (h : moveCommandLine s = m ++ w) : ∃ b, s = m ++ b ∧ w = moveCommandLine b :=
  exists_of_replaceMatches_eq_append (fun _ _ _ _ => ⟨"kit/reference/cli".toList, rfl⟩) hm h

theorem moduleAnchor_eq_none_of_not_start (h : ¬anchorStart <+: s) : moduleAnchor s = none :=
  moduleAnchor_eq_none_iff.2 fun _ _ _ _ hanchor => h ⟨_, hanchor.eq.symm⟩

/-- No anchor begins behind a passed character if neither its start nor its parts are put in. -/
theorem moduleAnchor_cons_of_rewritten {f : List Char → List Char}
    (hstart : ∀ w, f s = anchorStart.tail ++ w → ∃ b, s = anchorStart.tail ++ b ∧ w = f b)
    (hparts : ∀ b, s = anchorStart.tail ++ b → HasParts (f b) → HasParts b)
    (h : moduleAnchor (c :: s) = none) : moduleAnchor (c :: f s) = none := by
  by_cases hprefix : anchorStart <+: c :: f s
  · obtain ⟨w, hw⟩ := hprefix
    have hcons : anchorStart = '/' :: anchorStart.tail := rfl
    rw [hcons, List.cons_append] at hw
    obtain ⟨rfl, htail⟩ := List.cons.inj hw
    obtain ⟨b, hb, rfl⟩ := hstart w htail.symm
    rw [hb, ← List.cons_append, ← hcons, moduleAnchor_eq_none_iff_hasParts] at h
    rw [← htail, ← List.cons_append, ← hcons, moduleAnchor_eq_none_iff_hasParts]
    exact fun hsome => h (hparts b hb hsome)
  · exact moduleAnchor_eq_none_of_not_start hprefix

/-- The second rule makes no anchor behind a character that it passes. -/
theorem moduleAnchor_cons_moveAnchors (hs : TidyAnchors s) (h : moduleAnchor (c :: s) = none) :
    moduleAnchor (c :: moveAnchors s) = none :=
  moduleAnchor_cons_of_rewritten (fun _ => exists_of_moveAnchors_eq_append rfl)
    (fun _ hb => hasParts_of_moveAnchors (TidyAnchors.of_append (hb ▸ hs))) h

/-- An anchor that stands alone leads to a place where no anchor begins. -/
theorem TidyAnchor.not_infix_anchorTarget (h : TidyAnchor scope name member) :
    ¬anchorStart <:+: anchorTarget scope name member := by
  intro hinfix
  by_cases henv : scope = "$env".toList
  · subst henv
    have hsplit : anchorTarget "$env".toList name member =
        reference ++ "$env".toList ++ '-' ::
          ("all#$env".toList ++ '-' :: (name ++ '-' :: member)) := by
      rw [anchorTarget_env]
      simp only [List.append_assoc]
      rfl
    rw [hsplit] at hinfix
    rcases infix_append_cons dash_notMem_anchorStart hinfix with hpage | hparts
    · exact absurd hpage.length_le (by decide)
    rcases infix_append_cons dash_notMem_anchorStart hparts with hanchor | hparts
    · exact absurd hanchor.length_le (by decide)
    · rcases infix_append_cons dash_notMem_anchorStart hparts with hname | hmember
      · exact h.name_alone hname
      · exact h.member_alone hmember
  · obtain ⟨pre, hpre, htarget⟩ := anchorTarget_of_ne henv name member
    have hsplit : anchorTarget scope name member =
        reference ++ (pre ++ scope) ++ '-' :: (name ++ '#' :: member) := by
      rw [htarget]
      simp only [List.append_assoc, List.cons_append]
    rw [hsplit] at hinfix
    rcases infix_append_cons dash_notMem_anchorStart hinfix with hscope | hname
    · rcases hpre with rfl | rfl
      · exact h.scope_alone hscope
      · rcases infix_append_cons (by decide) hscope with hreference | hscope
        · exact absurd hreference.length_le (by decide)
        · exact h.scope_alone (hscope.trans (List.suffix_append reference scope).isInfix)
    · have hstart : anchorStart = docs ++ "kit/reference/modules".toList ++ ['#'] := rfl
      rw [hstart] at hname
      rcases infix_concat_append_cons (by decide) hname with hname | ⟨y, rfl⟩ | hmember
      · exact h.name_alone hname
      · obtain ⟨c, hc, hends⟩ := h.pages henv (scope ++ '-' :: y) "kit/reference/modules".toList
          (by simp only [List.append_assoc, List.cons_append])
        rcases hends with rfl | rfl <;> exact absurd hc (by decide)
      · exact h.member_alone hmember

theorem noAnchor_append_of_apart (hs : apart anchorStart s = true) (ht : NoAnchor t) :
    NoAnchor (s ++ t) := by
  induction s with
  | nil => exact ht
  | cons c s ih =>
    exact noAnchor_cons (moduleAnchor_eq_none_of_not_start (not_prefix_append hs))
      (ih (apart_cons.1 hs).2)

theorem noAnchor_append (hs : ¬anchorStart <:+: s) (ht : NoAnchor t)
    (hhead : ∀ c ∈ t.head?, c ∉ anchorStart) : NoAnchor (s ++ t) := by
  induction s with
  | nil => exact ht
  | cons c s ih =>
    refine noAnchor_cons (moduleAnchor_eq_none_of_not_start fun ⟨w, hw⟩ => ?_)
      (ih fun hrest => hs (hrest.trans (List.suffix_cons c s).isInfix))
    rcases List.append_eq_append_iff.1 (show _ = c :: s ++ t from hw) with
      ⟨r, hr, -⟩ | ⟨r, hr, rfl⟩
    · exact hs ⟨[], r, hr.symm⟩
    · cases r with
      | nil => exact hs ⟨[], [], by rw [hr]; simp⟩
      | cons d r =>
        refine hhead d rfl ?_
        rw [hr]
        simp

/-- The second rule leaves no anchor. -/
theorem noAnchor_moveAnchors (hs : TidyAnchors s) : NoAnchor (moveAnchors s) := by
  induction s using anchorInduction with
  | nil =>
    rw [moveAnchors_nil]
    intro u v huv
    obtain ⟨-, rfl⟩ := List.append_eq_nil_iff.1 huv.symm
    exact moduleAnchor_eq_none_of_not_start (by decide)
  | char c s hnone ih =>
    have htidy : TidyAnchors s := TidyAnchors.of_append (u := [c]) hs
    rw [moveAnchors_cons hnone]
    exact noAnchor_cons (moduleAnchor_cons_moveAnchors htidy hnone) (ih htidy)
  | anchor s scope name member rest hanchor ih =>
    rw [hanchor.moveAnchors]
    refine noAnchor_append (hanchor.tidy hs).not_infix_anchorTarget (ih (hanchor.tidy_rest hs))
      fun c hc => ?_
    have hrest := hanchor.rest
    cases rest with
    | nil =>
      rw [moveAnchors_nil] at hc
      cases hc
    | cons d rest =>
      have hnone : moduleAnchor (d :: rest) = none :=
        moduleAnchor_eq_none_of_not_start fun hprefix => by
          obtain ⟨hslash, -⟩ := List.cons_prefix_cons.1 hprefix
          rcases hrest d rfl with rfl | rfl <;> exact absurd (show '/' = _ from hslash) (by decide)
      rw [moveAnchors_cons hnone] at hc
      obtain rfl := Option.some.inj hc
      rcases hrest d rfl with rfl | rfl <;> decide

/-! ## The command line -/

/-- The third rule leaves no link to the page of the command line. -/
theorem not_infix_moveCommandLine (s : List Char) : ¬commandLine <:+: moveCommandLine s := by
  induction s using commandInduction with
  | nil =>
    rw [moveCommandLine_nil]
    decide
  | char c s hnot ih =>
    rw [moveCommandLine_cons hnot, List.infix_cons_iff]
    refine not_or.2 ⟨fun ⟨w, hw⟩ => ?_, ih⟩
    have hcons : commandLine = '/' :: commandLine.tail := rfl
    rw [hcons, List.cons_append] at hw
    obtain ⟨rfl, htail⟩ := List.cons.inj hw
    obtain ⟨b, rfl, -⟩ := exists_of_moveCommandLine_eq_append rfl htail.symm
    exact hnot ⟨b, rfl⟩
  | command s ih =>
    rw [moveCommandLine_append]
    exact fun hinfix => ih (infix_of_append rfl hinfix)

theorem head?_moveCommandLine (s : List Char) : (moveCommandLine s).head? = s.head? := by
  cases s using commandInduction with
  | nil => rw [moveCommandLine_nil]
  | char c s hnot => rw [moveCommandLine_cons hnot]; rfl
  | command s => rw [moveCommandLine_append]; rfl

/-- The parts of what the third rule leaves are those of the text. -/
theorem exists_of_moveCommandLine_eq_append_dash (h : moveCommandLine s = a ++ '-' :: b)
    (ha : '-' ∉ a) : ∃ a' b', s = a' ++ '-' :: b' ∧ '-' ∉ a' ∧ moveCommandLine a' = a ∧
      moveCommandLine b' = b := by
  have hmem : '-' ∈ s := by
    rw [← List.count_pos_iff, ← count_moveCommandLine, h, List.count_append, List.count_cons_self]
    omega
  obtain ⟨a', b', rfl, ha'⟩ := List.eq_append_cons_of_mem hmem
  rw [moveCommandLine_append_cons (by decide)] at h
  have hdash : '-' ∉ moveCommandLine a' := by
    rw [← List.count_eq_zero, count_moveCommandLine, List.count_eq_zero]
    exact ha'
  obtain ⟨hfirst, hsecond⟩ := append_cons_inj hdash ha h
  exact ⟨a', b', rfl, ha', hfirst, hsecond⟩

theorem hasParts_of_moveCommandLine (h : HasParts (moveCommandLine s)) : HasParts s := by
  obtain ⟨scope, name, c, t, hparts, hscope, hscope', hname, hname', hc⟩ := h
  obtain ⟨scope, b, rfl, hdash, rfl, hb⟩ := exists_of_moveCommandLine_eq_append_dash hparts hscope'
  obtain ⟨name, t', rfl, hdash', rfl, ht⟩ := exists_of_moveCommandLine_eq_append_dash hb hname'
  have hhead := head?_moveCommandLine t'
  rw [ht] at hhead
  obtain ⟨t', rfl⟩ := List.head?_eq_some_iff.1 hhead.symm
  have hne : ∀ {x}, moveCommandLine x ≠ [] → x ≠ [] := fun hx hnil =>
    hx (by rw [hnil, moveCommandLine_nil])
  exact ⟨scope, name, c, t', rfl, hne hscope, hdash, hne hname, hdash', hc⟩

/-- The third rule makes no anchor. -/
theorem noAnchor_moveCommandLine (hs : NoAnchor s) : NoAnchor (moveCommandLine s) := by
  induction s using commandInduction with
  | nil => rwa [moveCommandLine_nil]
  | char c s hnot ih =>
    rw [moveCommandLine_cons hnot]
    refine noAnchor_cons ?_ (ih fun u v huv => hs (c :: u) v (by rw [huv]; rfl))
    exact moduleAnchor_cons_of_rewritten
      (fun _ => exists_of_moveCommandLine_eq_append rfl)
      (fun _ _ => hasParts_of_moveCommandLine) (hs [] (c :: s) rfl)
  | command s ih =>
    rw [moveCommandLine_append]
    exact noAnchor_append_of_apart rfl
      (ih fun u v huv => hs (commandLine ++ u) v (by rw [huv, List.append_assoc]))

/-- Moved links stay where they are if each anchor stands alone. -/
theorem moveLinks_moveLinks (h : TidyAnchors (movePages s)) :
    moveLinks (moveLinks s) = moveLinks s := by
  have hpages : movePages (moveLinks s) = moveLinks s :=
    movePages_moveCommandLine (w := []) (movePages_moveAnchors (w := []) (movePages_movePages s) h)
  have hanchors : moveAnchors (moveLinks s) = moveLinks s :=
    moveAnchors_of_noAnchor (noAnchor_moveCommandLine (noAnchor_moveAnchors h))
  have hcommand : moveCommandLine (moveLinks s) = moveLinks s :=
    moveCommandLine_of_not_infix (not_infix_moveCommandLine _)
  calc moveLinks (moveLinks s)
      = moveCommandLine (moveAnchors (movePages (moveLinks s))) := rfl
    _ = moveLinks s := by rw [hpages, hanchors, hcommand]

/-- Behind the last `#` of a text, an anchor has its parts. -/
theorem IsAnchor.parts_eq (h : IsAnchor v scope name member rest)
    (hs : a ++ (anchorStart ++ b) = u ++ v) (ha : '#' ∉ a) (hb : '#' ∉ b) :
    scope ++ '-' :: (name ++ '-' :: (member ++ rest)) = b := by
  have hstart : ∀ t, anchorStart ++ t = anchorStart.dropLast ++ '#' :: t := fun _ => rfl
  rw [h.eq, hstart, hstart, ← List.append_assoc, ← List.append_assoc] at hs
  have hfirst : '#' ∉ a ++ anchorStart.dropLast := by
    rw [List.mem_append, not_or]
    exact ⟨ha, by decide⟩
  obtain ⟨r, -, hr⟩ := exists_of_append_eq_append_cons hs hfirst
  cases r with
  | nil => exact (List.cons.inj hr).2.symm
  | cons c r =>
    rw [(List.cons.inj hr).2] at hb
    exact absurd (List.mem_append_right r List.mem_cons_self) hb

/-- The only anchor of a text stands alone. -/
theorem tidyAnchors_paths :
    TidyAnchors ("(".toList ++ (anchorStart ++ "$app-paths-base)".toList)) := by
  intro u v scope name member rest hs hanchor
  have hparts := hanchor.parts_eq hs (by decide) (by decide)
  have hcut : "$app-paths-base)".toList =
      "$app".toList ++ '-' :: ("paths".toList ++ '-' :: ("base".toList ++ [')'])) := rfl
  have hdash : '-' ∉ "$app".toList ∧ '-' ∉ "paths".toList := by decide
  rw [hcut] at hparts
  obtain ⟨rfl, hsecond⟩ := append_cons_inj hanchor.scope hdash.1 hparts
  obtain ⟨rfl, hthird⟩ := append_cons_inj hanchor.name hdash.2 hsecond
  obtain ⟨r, hr, -⟩ := exists_of_append_eq_append_cons hthird
    fun hmem => (hanchor.member _ hmem).2 rfl
  refine ⟨fun hinfix => absurd hinfix.length_le (by decide), by decide, fun hinfix => ?_,
    fun _ x y hxy => ?_, fun henv => absurd henv (by decide)⟩
  · have hbase : anchorStart <:+: "base".toList := by
      rw [hr]
      exact hinfix.trans (List.prefix_append member r).isInfix
    exact absurd hbase (by decide)
  · have hdocs : docs <:+: "$app".toList ++ '-' :: "paths".toList :=
      ⟨x, y, by rw [List.append_assoc, hxy]⟩
    exact absurd hdocs (by decide)

theorem moveLinks_moveLinks_paths :
    let s := "(/docs/modules#$app-paths-base)".toList
    moveLinks s = "(/docs/kit/reference/$app-paths#base)".toList ∧
      moveLinks (moveLinks s) = moveLinks s := by
  intro s
  have hpages : movePages s = "(".toList ++ (anchorStart ++ "$app-paths-base)".toList) := by
    decide +kernel
  exact ⟨by decide +kernel, moveLinks_moveLinks (hpages ▸ tidyAnchors_paths)⟩

/-- The second anchor begins in the scope of the first one, and is one of its own the next time. -/
theorem moveLinks_moveLinks_twoAnchors :
    let s := "(/docs/modules#top), (/docs/modules#$app-paths-base) is read-only".toList
    let t := "(/docs/kit/reference/top), ".toList ++
      "(/docs/kit/reference/modules#$app-paths#base) is read-only".toList
    moveLinks s = t ∧ moveLinks (moveLinks s) ≠ moveLinks s := by
  intro s t
  have h : moveLinks s = t := by decide +kernel
  refine ⟨h, ?_⟩
  rw [h]
  decide +kernel

end ReferencePages.SiteLink
