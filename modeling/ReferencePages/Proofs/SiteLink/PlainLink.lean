import ReferencePages.Proofs.SiteLink.Idempotence

/-!
# Links to single pages

A plain link is the way to a page, the page, which lies directly below `/docs/`, and perhaps an
anchor on it. The first rule makes of it what is meant: a page of the reference section is moved,
and every other link is left alone (`movePages_plainLink`). The other rules should find nothing to
do in what it leaves, and the second one does not.

The third rule looks for `/docs/cli` wherever that stands, and not for the page `cli`. So it moves
the links to all pages whose names go on behind `cli`, and only these (`moveLinks_plainLink_iff`).
-/

namespace ReferencePages.SiteLink

variable {way page anchor p s : List Char} {c : Char}

/-- A link to a page directly below `/docs/`, perhaps with an anchor. The page of all modules stands
without one. -/
structure IsPlainLink (way page anchor : List Char) : Prop where
  way_eq : way = docs ∨ way = host ++ docs
  page_ne_nil : page ≠ []
  page_whole : Whole page
  page_direct : '/' ∉ page
  anchor_head : ∀ c ∈ anchor.head?, c = '#'
  anchor_direct : '/' ∉ anchor
  anchor_modules : page = "modules".toList → anchor = []

/-- A text with a link between parentheses. -/
def parenthesized (target anchor : List Char) : List Char := '(' :: (target ++ (anchor ++ [')']))

namespace IsPlainLink

theorem endsPage_head (h : IsPlainLink way page anchor) :
    ∀ c ∈ (anchor ++ [')']).head?, EndsPage c := by
  intro c hc
  cases hanchor : anchor with
  | nil =>
    rw [hanchor] at hc
    exact Or.inr (Option.some.inj hc).symm
  | cons d text =>
    rw [hanchor] at hc
    exact Or.inl (h.anchor_head c (by rw [hanchor]; exact hc))

theorem isPageLink (h : IsPlainLink way page anchor) :
    IsPageLink (way ++ page ++ (anchor ++ [')'])) way page (anchor ++ [')']) :=
  ⟨rfl, h.way_eq, h.page_ne_nil, h.page_whole, h.endsPage_head⟩

theorem slash_notMem_anchor (h : IsPlainLink way page anchor) : '/' ∉ anchor ++ [')'] := by
  simp [h.anchor_direct]

/-- No slash stands behind the way. -/
theorem count_slash (h : IsPlainLink way page anchor) :
    (page ++ (anchor ++ [')'])).count '/' = 0 := by
  rw [List.count_append, List.count_eq_zero.2 h.page_direct,
    List.count_eq_zero.2 h.slash_notMem_anchor]

/-- A text in which no page ends begins what stands behind the way only if it begins the page. -/
theorem prefix_page (h : IsPlainLink way page anchor) (hs : Whole s)
    (hbegins : s <+: page ++ (anchor ++ [')'])) : s <+: page := by
  obtain ⟨t, ht⟩ := hbegins
  obtain ⟨c, rest, hrest⟩ : ∃ c rest, anchor ++ [')'] = c :: rest :=
    List.exists_cons_of_ne_nil (by simp)
  have hc : EndsPage c := h.endsPage_head c (by rw [hrest]; rfl)
  rw [hrest] at ht
  obtain ⟨r, rfl, -⟩ := exists_of_append_eq_append_cons ht (notMem_of_whole hs hc)
  exact List.prefix_append s r

end IsPlainLink

/-! ## The first rule -/

/-- The first rule moves a plain link to a page of the reference section, and leaves others. -/
theorem movePages_plainLink (h : IsPlainLink way page anchor) :
    movePages (parenthesized (way ++ page) anchor) =
      parenthesized (pageTarget way page) anchor := by
  have hopening : ∀ way' page' rest,
      ¬IsPageLink ('(' :: (way ++ page ++ (anchor ++ [')']))) way' page' rest := by
    intro way' page' rest hlink
    have heq := hlink.eq
    rcases hlink.way with rfl | rfl <;> exact absurd (List.cons.inj heq).1 (by decide)
  have hbehind : ¬docs <:+: anchor ++ [')'] := fun hwithin =>
    h.slash_notMem_anchor (hwithin.subset (by decide))
  rw [parenthesized, movePages_cons hopening, h.isPageLink.movePages,
    movePages_of_not_infix hbehind, parenthesized]

/-! ## What stands in a plain link -/

/-- A text that is apart from what stands before a character, and holds that character more often
than what stands behind it, can only begin there. -/
theorem prefix_of_infix_append {w u : List Char} (hw : apart p w = true)
    (hcount : u.count c < p.count c) (hp : p <:+: w ++ c :: u) : p <+: c :: u :=
  (List.infix_cons_iff.1 (infix_of_append hw hp)).resolve_right (not_infix_of_count_lt hcount)

/-- A text with two slashes or more begins a link that is left alone at its way. -/
theorem IsPlainLink.prefix_of_infix (h : IsPlainLink way page anchor)
    (hopening : ∀ w ∈ [['('], '(' :: host], apart p w = true) (hcount : 2 ≤ p.count '/')
    (hp : p <:+: parenthesized (way ++ page) anchor) :
    p <+: docs ++ (page ++ (anchor ++ [')'])) := by
  obtain ⟨w, hw, heq⟩ : ∃ w ∈ [['('], '(' :: host],
      parenthesized (way ++ page) anchor = w ++ (docs ++ (page ++ (anchor ++ [')']))) := by
    rcases h.way_eq with rfl | rfl
    · exact ⟨['('], by simp, by simp [parenthesized]⟩
    · exact ⟨'(' :: host, by simp, by simp [parenthesized]⟩
  have hone : docs.tail.count '/' = 1 := by decide
  have hslashes : (docs.tail ++ (page ++ (anchor ++ [')']))).count '/' < p.count '/' := by
    rw [List.count_append, hone, h.count_slash]
    omega
  rw [heq] at hp
  exact prefix_of_infix_append (hopening w hw) hslashes hp

/-- The page of all modules stands without an anchor. -/
theorem IsPlainLink.not_prefix_modules (h : IsPlainLink way page anchor) :
    ¬"modules#".toList <+: page ++ (anchor ++ [')']) := by
  rintro ⟨t, ht⟩
  have hpage : '#' ∉ page := notMem_of_whole h.page_whole (Or.inl rfl)
  have hmodules : '#' ∉ "modules".toList := by decide
  have hsplit : "modules".toList ++ '#' :: t = page ++ (anchor ++ [')']) := ht
  cases hanchor : anchor with
  | nil =>
    have hmem : '#' ∈ page ++ [')'] := by
      rw [hanchor, List.nil_append] at hsplit
      exact hsplit ▸ List.mem_append_right _ List.mem_cons_self
    simp [hpage] at hmem
  | cons c text =>
    obtain rfl : c = '#' := h.anchor_head c (by rw [hanchor]; rfl)
    rw [hanchor, List.cons_append] at hsplit
    obtain ⟨heq, -⟩ := append_cons_inj hmodules hpage hsplit
    rw [h.anchor_modules heq.symm] at hanchor
    cases hanchor

/-- A text with four slashes or more begins a moved link, if it is apart from what opens that. -/
theorem IsPlainLink.prefix_of_infix_moved (h : IsPlainLink way page anchor)
    (hopening : apart p ['('] = true) (hcount : 4 ≤ p.count '/')
    (hp : p <:+: parenthesized (reference ++ page) anchor) :
    p <+: reference ++ (page ++ (anchor ++ [')'])) := by
  have hthree : reference.tail.count '/' = 3 := by decide
  have hslashes : (reference.tail ++ (page ++ (anchor ++ [')']))).count '/' < p.count '/' := by
    rw [List.count_append, hthree, h.count_slash]
    omega
  rw [parenthesized, List.append_assoc] at hp
  exact prefix_of_infix_append hopening hslashes hp

/-- No anchor on the page of all modules stands in what the first rule leaves of a plain link. -/
theorem IsPlainLink.not_infix_anchorStart (h : IsPlainLink way page anchor) :
    ¬anchorStart <:+: parenthesized (pageTarget way page) anchor := by
  have hfour : anchorStart.count '/' = 4 := by decide
  intro hwithin
  unfold pageTarget at hwithin
  split at hwithin
  · have hbegins : reference ++ "modules#".toList <+: reference ++ (page ++ (anchor ++ [')'])) :=
      h.prefix_of_infix_moved (by decide) hfour.ge hwithin
    exact h.not_prefix_modules ((List.prefix_append_right_inj reference).1 hbegins)
  · -- A link that is left alone has two slashes from its way on, which is too few.
    have hbegins := h.prefix_of_infix (by decide) (by omega) hwithin
    have htwo : docs.count '/' = 2 := by decide
    refine not_infix_of_count_lt (c := '/') ?_ hbegins.isInfix
    rw [List.count_append, htwo, h.count_slash]
    omega

/-- Where the reference section stands, without the slash that follows. -/
def referencePath : List Char := "/docs/kit/reference".toList

theorem reference_append (s : List Char) : reference ++ s = referencePath ++ '/' :: s := by
  have hslash : reference = referencePath ++ ['/'] := by decide
  rw [hslash, List.append_assoc, List.singleton_append]

/-- The page of the command line stands nowhere in a link to a page of the reference section. -/
theorem not_infix_commandLine_reference (hpage : '/' ∉ page) :
    ¬commandLine <:+: reference ++ page := fun hwithin => by
  have hopening : apart commandLine referencePath = true := by decide
  have htwo : commandLine.count '/' = 2 := by decide
  rw [reference_append] at hwithin
  refine not_infix_of_count_lt (c := '/') ?_ (infix_of_append hopening hwithin)
  rw [List.count_cons_self, List.count_eq_zero.2 hpage]
  omega

/-- The page of the command line does not stand in a link that is moved. -/
theorem IsPlainLink.not_infix_commandLine_moved (h : IsPlainLink way page anchor) :
    ¬commandLine <:+: parenthesized (reference ++ page) anchor := by
  intro hwithin
  rw [parenthesized, List.append_assoc] at hwithin
  have hslash : '/' ∉ page ++ (anchor ++ [')']) := List.count_eq_zero.1 h.count_slash
  exact not_infix_commandLine_reference hslash (infix_of_append (s := ['(']) (by decide) hwithin)

/-- The page of the command line stands in a link that is left alone exactly if its page begins like
that one. -/
theorem IsPlainLink.infix_commandLine_left_iff (h : IsPlainLink way page anchor) :
    commandLine <:+: parenthesized (way ++ page) anchor ↔ "cli".toList <+: page := by
  have htwo : commandLine.count '/' = 2 := by decide
  have hsplit : commandLine = docs ++ "cli".toList := rfl
  constructor
  · intro hwithin
    have hbegins := h.prefix_of_infix (by decide) htwo.ge hwithin
    rw [hsplit] at hbegins
    exact h.prefix_page (by decide) ((List.prefix_append_right_inj docs).1 hbegins)
  · rintro ⟨more, rfl⟩
    rw [hsplit]
    rcases h.way_eq with rfl | rfl
    · exact ⟨['('], more ++ (anchor ++ [')']), by simp [parenthesized]⟩
    · exact ⟨'(' :: host, more ++ (anchor ++ [')']), by simp [parenthesized]⟩

/-- Only the page of the command line itself begins like that among the pages of the reference
section. -/
theorem eq_cli_of_mem :
    ∀ page ∈ referencePages, "cli".toList <+: page → page = "cli".toList := by
  decide +kernel

/-- The page of the command line stands in what the first rule leaves exactly if the name of the
page goes on behind it. -/
theorem IsPlainLink.infix_commandLine_iff (h : IsPlainLink way page anchor) :
    commandLine <:+: parenthesized (pageTarget way page) anchor ↔
      "cli".toList <+: page ∧ page ≠ "cli".toList := by
  unfold pageTarget
  split
  · next hlisted =>
    exact iff_of_false h.not_infix_commandLine_moved fun ⟨hcli, hne⟩ =>
      hne (eq_cli_of_mem page (List.elem_iff.1 hlisted) hcli)
  · next hlisted =>
    have hne : page ≠ "cli".toList := by
      rintro rfl
      exact hlisted (by decide +kernel)
    rw [h.infix_commandLine_left_iff, and_iff_left hne]

/-! ## The rules -/

theorem moveAnchors_of_not_infix_anchorStart (h : ¬anchorStart <:+: s) : moveAnchors s = s := by
  refine replaceMatches_of_not_infix (fun t x n hmatch => ?_) h
  obtain ⟨scope, name, member, rest, hanchor, -⟩ := moduleAnchor_eq_some_iff.1 hmatch
  rw [hanchor.eq]
  exact (List.prefix_append _ _).isInfix

theorem moveCommandLine_eq_self_iff : moveCommandLine s = s ↔ ¬commandLine <:+: s :=
  ⟨fun h => h ▸ not_infix_moveCommandLine s, moveCommandLine_of_not_infix⟩

/-- A plain link is moved to the reference section if its page is part of that, and left alone
otherwise, exactly if the name of the page does not go on behind that of the command line. -/
theorem moveLinks_plainLink_iff (h : IsPlainLink way page anchor) :
    moveLinks (parenthesized (way ++ page) anchor) = parenthesized (pageTarget way page) anchor ↔
      ("cli".toList <+: page → page = "cli".toList) := by
  rw [moveLinks, movePages_plainLink h,
    moveAnchors_of_not_infix_anchorStart h.not_infix_anchorStart, moveCommandLine_eq_self_iff,
    h.infix_commandLine_iff, not_and, not_not]

/-- A link to a page of the reference section that names the host and has an anchor. -/
theorem moveLinks_plainLink_configuration :
    IsPlainLink (host ++ docs) "configuration".toList "#kit".toList ∧
      moveLinks "(https://kit.svelte.dev/docs/configuration#kit)".toList =
        "(/docs/kit/reference/configuration#kit)".toList := by
  have hplain : IsPlainLink (host ++ docs) "configuration".toList "#kit".toList :=
    ⟨Or.inr rfl, by decide, by decide, by decide, fun c hc => (Option.some.inj hc).symm,
      by decide, by decide⟩
  have hsource : "(https://kit.svelte.dev/docs/configuration#kit)".toList =
      parenthesized (host ++ docs ++ "configuration".toList) "#kit".toList := by
    decide +kernel
  have htarget : "(/docs/kit/reference/configuration#kit)".toList =
      parenthesized (pageTarget (host ++ docs) "configuration".toList) "#kit".toList := by
    decide +kernel
  refine ⟨hplain, ?_⟩
  rw [hsource, htarget, moveLinks_plainLink_iff hplain]
  decide

/-- A page whose name goes on behind that of the command line is taken for a page of the reference
section. -/
theorem moveLinks_plainLink_client :
    IsPlainLink docs "client".toList [] ∧ "client".toList ∉ referencePages ∧
      moveLinks "(/docs/client)".toList = "(/docs/kit/reference/client)".toList :=
  ⟨⟨Or.inl rfl, by decide, by decide, by decide, by simp, by decide, by decide⟩,
    by decide +kernel, by decide +kernel⟩

end ReferencePages.SiteLink
