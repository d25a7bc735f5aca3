import ReferencePages.Proofs.SiteLink.PlainLink

/-!
# Anchors on the page of all modules

An anchor of three parts on the page of all modules names a scope, a module and a member
(`IsModuleAnchor`). A link to it between parentheses, in a text without other links, takes two
rules: the first one moves the page, and the second one turns the anchor into a link to the page of
the module itself. Nothing around the parentheses has to do with it (`moveLinks_moduleAnchor`).

What the second rule puts there is a link to an anchor in the reference section, and not on the page
of all modules. Such links are settled: no rule changes them (`moveLinks_settled`), so moving the
links of the text again changes nothing.
-/

namespace ReferencePages.SiteLink

variable {a b p s t way scope name member page : List Char} {c : Char}

/-! ## The parts of an anchor -/

/-- The characters that end a link or a part of its path. -/
def delimiters : List Char := ['#', '(', ')', '/']

/-- The scope, the module and the member of an anchor on the page of all modules. Only the member
may hold dashes. -/
structure IsModuleAnchor (scope name member : List Char) : Prop where
  scope_ne_nil : scope ≠ []
  scope_plain : ∀ c ∈ scope, c ∉ '-' :: delimiters
  name_ne_nil : name ≠ []
  name_plain : ∀ c ∈ name, c ∉ '-' :: delimiters
  member_ne_nil : member ≠ []
  member_head : member.head? ≠ some '-'
  member_plain : ∀ c ∈ member, c ∉ delimiters

/-- The anchor of a member on the page of all modules. -/
def moduleAnchorText (scope name member : List Char) : List Char :=
  scope ++ '-' :: (name ++ '-' :: member)

/-- The page of a module. The modules of the environment share one. -/
def modulePage (scope name : List Char) : List Char :=
  if scope = "$env".toList then "$env-all".toList
  else if scope = "sveltejs".toList then "@sveltejs-".toList ++ name
  else scope ++ '-' :: name

/-- The anchor of a member on the page of its module. -/
def memberAnchor (scope name member : List Char) : List Char :=
  if scope = "$env".toList then "$env-".toList ++ (name ++ '-' :: member) else member

theorem anchorTarget_eq (scope name member : List Char) :
    anchorTarget scope name member =
      reference ++ (modulePage scope name ++ '#' :: memberAnchor scope name member) := by
  unfold anchorTarget modulePage memberAnchor
  split
  · next henv =>
    subst henv
    simp
  · split <;> simp_all

theorem notMem_of_mem_delimiters :
    ∀ c ∈ delimiters, c ∉ "$env-all".toList ∧ c ∉ "@sveltejs-".toList ∧ c ≠ '-' :=
  forall_mem_of_all (by decide)

theorem dash_mem_modulePage (scope name : List Char) : '-' ∈ modulePage scope name := by
  unfold modulePage
  split
  · decide
  split
  · exact List.mem_append_left name (by decide)
  · exact List.mem_append_right scope List.mem_cons_self

/-- The page of all modules is the page of no module. -/
theorem modulePage_ne_modules (scope name : List Char) :
    modulePage scope name ≠ "modules".toList := fun heq =>
  absurd (heq ▸ dash_mem_modulePage scope name) (by decide)

namespace IsModuleAnchor

variable (h : IsModuleAnchor scope name member)
include h

theorem notMem_scope (hc : c ∈ '-' :: delimiters) : c ∉ scope := fun hmem =>
  h.scope_plain c hmem hc

theorem notMem_name (hc : c ∈ '-' :: delimiters) : c ∉ name := fun hmem => h.name_plain c hmem hc

theorem notMem_member (hc : c ∈ delimiters) : c ∉ member := fun hmem => h.member_plain c hmem hc

theorem notMem_modulePage (hc : c ∈ delimiters) : c ∉ modulePage scope name := by
  have hscope := h.notMem_scope (List.mem_cons_of_mem '-' hc)
  have hname := h.notMem_name (List.mem_cons_of_mem '-' hc)
  obtain ⟨henv, hkit, hdash⟩ := notMem_of_mem_delimiters c hc
  unfold modulePage
  split
  · exact henv
  split
  · exact fun hmem => (List.mem_append.1 hmem).elim hkit hname
  · simp [hscope, hname, hdash]

theorem notMem_memberAnchor (hc : c ∈ delimiters) : c ∉ memberAnchor scope name member := by
  have hname := h.notMem_name (List.mem_cons_of_mem '-' hc)
  have hmember := h.notMem_member hc
  obtain ⟨henv, -, hdash⟩ := notMem_of_mem_delimiters c hc
  unfold memberAnchor
  split
  · have hstart : c ∉ "$env-".toList := fun hmem => henv (List.mem_append_left "all".toList hmem)
    simp only [List.mem_append, List.mem_cons, hstart, hname, hdash, hmember, or_self,
      not_false_eq_true]
  · exact hmember

end IsModuleAnchor

/-! ## Before the link -/

theorem movePages_append_opening (ha : ¬docs <:+: a) (s : List Char) :
    movePages (a ++ '(' :: s) = a ++ '(' :: movePages s := by
  refine replaceMatches_append_cons_of_not_infix (fun v x n hmatch => ?_) ha
  obtain ⟨way, page, rest, hlink, -⟩ := pageLink_eq_some_iff.1 hmatch
  have hopening : '(' ∉ way := by
    rcases hlink.way with rfl | rfl <;> decide
  exact ⟨way, ⟨page ++ rest, by rw [hlink.eq, List.append_assoc]⟩, hopening,
    (docs_infix_way hlink.way).1⟩

theorem moveAnchors_append_opening (ha : ¬docs <:+: a) (s : List Char) :
    moveAnchors (a ++ '(' :: s) = a ++ '(' :: moveAnchors s := by
  refine replaceMatches_append_cons_of_not_infix (fun v x n hmatch => ?_) ha
  obtain ⟨scope, name, member, rest, hanchor, -⟩ := moduleAnchor_eq_some_iff.1 hmatch
  refine ⟨anchorStart, ⟨_, hanchor.eq.symm⟩, by decide, ?_⟩
  exact ⟨[], "kit/reference/modules#".toList, rfl⟩

theorem moveCommandLine_append_opening (ha : ¬docs <:+: a) (s : List Char) :
    moveCommandLine (a ++ '(' :: s) = a ++ '(' :: moveCommandLine s :=
  replaceMatches_append_cons_of_not_infix
    (fun _ _ _ hmatch => ⟨commandLine, (exactly_eq_some_iff.1 hmatch).2, by decide,
      docs_infix_of_commandLine List.infix_rfl⟩) ha

/-- No link begins in a text without links before an opening parenthesis. -/
theorem moveLinks_append_opening (ha : ¬docs <:+: a) (s : List Char) :
    moveLinks (a ++ '(' :: s) = a ++ '(' :: moveLinks s := by
  rw [moveLinks, movePages_append_opening ha, moveAnchors_append_opening ha,
    moveCommandLine_append_opening ha, moveLinks]

/-! ## Settled links -/

/-- The way to the page of all modules ends a link to a page of the reference section only if it is
that page. -/
theorem eq_modules_of_suffix (hpage : '/' ∉ page)
    (h : reference ++ "modules".toList <:+ reference ++ page) : page = "modules".toList := by
  obtain ⟨u, hu⟩ := h
  rw [reference_append, reference_append, ← List.append_assoc] at hu
  exact (eq_of_append_cons_eq (by decide) hpage hu).symm

variable (hpage : Whole page) (hdirect : '/' ∉ page) (hmodules : page ≠ "modules".toList)
  (ht : ¬docs <:+: t)

include hpage ht in
theorem movePages_settled :
    movePages (reference ++ (page ++ '#' :: t)) = reference ++ (page ++ '#' :: t) := by
  rw [← List.append_assoc, movePages_append_cons_eq_iff (Or.inl rfl)]
  exact ⟨movePages_reference_of_whole (l := []) (fun _ hc => nomatch hc) hpage,
    movePages_of_not_infix ht⟩

include hpage hdirect hmodules ht in
theorem moveAnchors_settled :
    moveAnchors (reference ++ (page ++ '#' :: t)) = reference ++ (page ++ '#' :: t) := by
  refine moveAnchors_of_not_infix_anchorStart fun hwithin => ?_
  rw [← List.append_assoc] at hwithin
  have hstart : anchorStart = (reference ++ "modules".toList) ++ ['#'] := by decide
  have hfragment : '#' ∉ reference ++ "modules".toList := by decide
  rw [hstart] at hwithin
  rcases infix_concat_append_cons hfragment hwithin with hbefore | hends | hbehind
  · have hmem : '#' ∈ reference ++ page :=
      hbefore.subset (List.mem_append_right _ List.mem_cons_self)
    exact (whole_reference.append hpage) '#' hmem (Or.inl rfl)
  · exact hmodules (eq_modules_of_suffix hdirect hends)
  · exact ht (List.IsInfix.trans ⟨[], "kit/reference/modules#".toList, rfl⟩ hbehind)

include hdirect ht in
theorem moveCommandLine_settled :
    moveCommandLine (reference ++ (page ++ '#' :: t)) = reference ++ (page ++ '#' :: t) := by
  refine moveCommandLine_of_not_infix fun hwithin => ?_
  rw [← List.append_assoc] at hwithin
  have hfragment : '#' ∉ commandLine := by decide
  rcases infix_append_cons hfragment hwithin with hbefore | hbehind
  · exact not_infix_commandLine_reference hdirect hbefore
  · exact ht (docs_infix_of_commandLine hbehind)

include hpage hdirect hmodules ht in
/-- A link to an anchor in the reference section is left alone, unless the anchor is on the page of
all modules. -/
theorem moveLinks_settled :
    moveLinks (reference ++ (page ++ '#' :: t)) = reference ++ (page ++ '#' :: t) := by
  rw [moveLinks, movePages_settled hpage ht, moveAnchors_settled hpage hdirect hmodules ht,
    moveCommandLine_settled hdirect ht]

/-! ## The link -/

theorem memberAnchor_append (scope name member rest : List Char) :
    memberAnchor scope name member ++ rest = memberAnchor scope name (member ++ rest) := by
  unfold memberAnchor
  split
  · rw [List.append_assoc, List.append_assoc, List.cons_append]
  · rfl

/-- What stands behind the first dash of a member is behind it in the moved link as well. -/
theorem anchorTarget_append (scope name member rest : List Char) :
    anchorTarget scope name member ++ rest = anchorTarget scope name (member ++ rest) := by
  rw [anchorTarget_eq, anchorTarget_eq, List.append_assoc, List.append_assoc, List.cons_append,
    memberAnchor_append]

/-- The first rule moves the page of all modules, and leaves what stands behind it. -/
theorem movePages_modules (hway : way = docs ∨ way = host ++ docs) (ht : ¬docs <:+: t) :
    movePages (way ++ ("modules".toList ++ '#' :: t)) = anchorStart ++ t := by
  have hpage : Whole "modules".toList := by decide
  have hlink : IsPageLink (way ++ "modules".toList ++ '#' :: t) way "modules".toList ('#' :: t) :=
    ⟨rfl, hway, by decide, hpage, fun c hc => Or.inl (Option.some.inj hc).symm⟩
  have hbehind : ¬docs <:+: '#' :: t := fun hwithin =>
    (infix_append_cons (a := []) (by decide) hwithin).elim (by decide) ht
  have htarget : pageTarget way "modules".toList = reference ++ "modules".toList :=
    if_pos (by decide +kernel)
  rw [← List.append_assoc, hlink.movePages, movePages_of_not_infix hbehind, htarget, anchorStart,
    List.append_cons, List.append_assoc reference]
  rfl

/-- No link begins in a text without slashes before a closing parenthesis. -/
theorem not_infix_docs_closing (ht : '/' ∉ t) (hb : ¬docs <:+: b) : ¬docs <:+: t ++ ')' :: b :=
  fun hwithin => (infix_append_cons (by decide) hwithin).elim
    (fun hbefore => ht (hbefore.subset (by decide))) hb

namespace IsModuleAnchor

variable (h : IsModuleAnchor scope name member)
include h

theorem slash_notMem_text : '/' ∉ moduleAnchorText scope name member := by
  have hscope := h.notMem_scope (c := '/') (by decide)
  have hname := h.notMem_name (c := '/') (by decide)
  have hmember := h.notMem_member (c := '/') (by decide)
  simp [moduleAnchorText, hscope, hname, hmember]

/-- The part of the member that a match takes, up to the first dash. -/
theorem takeWhile_member_ne_nil : member.takeWhile (· != '-') ≠ [] := by
  obtain ⟨c, rest, rfl⟩ := List.exists_cons_of_ne_nil h.member_ne_nil
  have hc : c ≠ '-' := fun heq => h.member_head (congrArg some heq)
  rw [List.takeWhile_cons_of_pos (by simpa using hc)]
  exact List.cons_ne_nil _ _

theorem isAnchor (b : List Char) :
    IsAnchor (anchorStart ++ (moduleAnchorText scope name member ++ ')' :: b)) scope name
      (member.takeWhile (· != '-')) (member.dropWhile (· != '-') ++ ')' :: b) where
  eq := by
    rw [← List.append_assoc (member.takeWhile _), List.takeWhile_append_dropWhile,
      moduleAnchorText]
    simp only [List.append_assoc, List.cons_append]
  scope_ne_nil := h.scope_ne_nil
  scope := h.notMem_scope List.mem_cons_self
  name_ne_nil := h.name_ne_nil
  name := h.notMem_name List.mem_cons_self
  member_ne_nil := h.takeWhile_member_ne_nil
  member c hc := by
    have hdash : c ≠ '-' := by simpa using List.mem_takeWhile_imp hc
    exact ⟨hdash, fun heq => h.notMem_member (c := ')') (by decide)
      (heq ▸ (List.takeWhile_prefix _).subset hc)⟩
  rest := by
    have hstop := List.head?_dropWhile_not (· != '-') member
    cases hrest : member.dropWhile (· != '-') with
    | nil => exact fun c hc => Or.inr (Option.some.inj hc).symm
    | cons d rest =>
      rw [hrest] at hstop
      exact fun c hc => Or.inl (Option.some.inj hc ▸ by simpa using hstop)

/-- The second rule turns the anchor into the link to the page of its module. -/
theorem moveAnchors_eq (hb : ¬docs <:+: b) :
    moveAnchors (anchorStart ++ (moduleAnchorText scope name member ++ ')' :: b)) =
      anchorTarget scope name member ++ ')' :: b := by
  -- What the match leaves of the member holds no link, and is the end of the moved one.
  have hrest : '/' ∉ member.dropWhile (· != '-') := fun hmem =>
    h.notMem_member (c := '/') (by decide) ((List.dropWhile_suffix _).subset hmem)
  rw [(h.isAnchor b).moveAnchors, moveAnchors_of_not_infix (not_infix_docs_closing hrest hb),
    ← List.append_assoc, anchorTarget_append, List.takeWhile_append_dropWhile]

end IsModuleAnchor

/-- A link to an anchor on the page of all modules becomes the link to the anchor of the member on
the page of the module, whatever text without links stands around it, and moving the links of that
text again changes nothing. -/
theorem moveLinks_moduleAnchor (h : IsModuleAnchor scope name member)
    (hway : way = docs ∨ way = host ++ docs) (ha : ¬docs <:+: a) (hb : ¬docs <:+: b) :
    let link := way ++ ("modules".toList ++ '#' :: moduleAnchorText scope name member)
    let moved := reference ++ (modulePage scope name ++ '#' :: memberAnchor scope name member)
    moveLinks (a ++ '(' :: (link ++ ')' :: b)) = a ++ '(' :: (moved ++ ')' :: b) ∧
      moveLinks (a ++ '(' :: (moved ++ ')' :: b)) = a ++ '(' :: (moved ++ ')' :: b) := by
  intro link moved
  have htext := not_infix_docs_closing h.slash_notMem_text hb
  have hfragment := not_infix_docs_closing (h.notMem_memberAnchor (c := '/') (by decide)) hb
  have hpage : Whole (modulePage scope name) :=
    whole_iff.2 ⟨h.notMem_modulePage (by decide), h.notMem_modulePage (by decide)⟩
  have hdirect : '/' ∉ modulePage scope name := h.notMem_modulePage (by decide)
  have hmodules := modulePage_ne_modules scope name
  have hmoved : moved ++ ')' :: b = reference ++
      (modulePage scope name ++ '#' :: (memberAnchor scope name member ++ ')' :: b)) := by
    simp only [moved, List.append_assoc, List.cons_append]
  have hlink : link ++ ')' :: b =
      way ++ ("modules".toList ++ '#' :: (moduleAnchorText scope name member ++ ')' :: b)) := by
    simp only [link, List.append_assoc, List.cons_append]
  refine ⟨?_, ?_⟩
  · have htarget : anchorTarget scope name member ++ ')' :: b = moved ++ ')' :: b :=
      congrArg (· ++ ')' :: b) (anchorTarget_eq scope name member)
    rw [moveLinks_append_opening ha, moveLinks, hlink, movePages_modules hway htext,
      h.moveAnchors_eq hb, htarget, hmoved, moveCommandLine_settled hdirect hfragment]
  · rw [moveLinks_append_opening ha, hmoved, moveLinks_settled hpage hdirect hmodules hfragment]

/-- A link that names the host, whose member holds a dash, between words with dashes. -/
theorem moveLinks_moduleAnchor_kit :
    let before := "See the built-in [event]".toList
    let behind := " of the server-side load-functions (#top).".toList
    let moved := "See the built-in [event](/docs/kit/reference/@sveltejs-kit#load-event)".toList
    IsModuleAnchor "sveltejs".toList "kit".toList "load-event".toList ∧
      ¬docs <:+: before ∧ ¬docs <:+: behind ∧
      moveLinks (before ++
        "(https://kit.svelte.dev/docs/modules#sveltejs-kit-load-event)".toList ++ behind) =
          moved ++ behind ∧
      moveLinks (moved ++ behind) = moved ++ behind := by
  intro before behind moved
  have hparts : IsModuleAnchor "sveltejs".toList "kit".toList "load-event".toList :=
    ⟨by decide, forall_mem_of_all (by decide), by decide, forall_mem_of_all (by decide), by decide,
      by decide, forall_mem_of_all (by decide)⟩
  have hbefore : ¬docs <:+: before := by decide +kernel
  have hbehind : ¬docs <:+: behind := by decide +kernel
  have hmoves := moveLinks_moduleAnchor hparts (Or.inr rfl) hbefore hbehind
  have hlink : before ++ "(https://kit.svelte.dev/docs/modules#sveltejs-kit-load-event)".toList ++
      behind = before ++ '(' :: (host ++ docs ++ ("modules".toList ++ '#' ::
        moduleAnchorText "sveltejs".toList "kit".toList "load-event".toList) ++ ')' :: behind) := by
    decide +kernel
  have hmoved : moved ++ behind = before ++ '(' :: (reference ++
      (modulePage "sveltejs".toList "kit".toList ++ '#' ::
        memberAnchor "sveltejs".toList "kit".toList "load-event".toList) ++ ')' :: behind) := by
    decide +kernel
  rw [hlink, hmoved]
  exact ⟨hparts, hbefore, hbehind, hmoves⟩

end ReferencePages.SiteLink
