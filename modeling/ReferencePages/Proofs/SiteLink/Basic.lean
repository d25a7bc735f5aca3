import Mathlib.Data.List.TakeWhile
import ReferencePages.Proofs.Text.Search
import ReferencePages.SiteLink

/-!
# What the rules match

A link to a page is its way, with or without the host, and the page, which goes on to the next `#`
or `)` (`IsPageLink`, `pageLink_eq_some_iff`). An anchor on the page of all modules has three parts,
of which only the last one ends at a `)` (`IsAnchor`, `moduleAnchor_eq_some_iff`). Each rule is
restated as an equation for a text that starts with a match, and one for a text that does not.

Every match holds `/docs/`, so a text without it stays as it is (`moveLinks_of_not_infix`).
-/

namespace ReferencePages.SiteLink

/-! ## Pages -/

/-- The way to the pages. -/
def docs : List Char := "/docs/".toList

/-- The characters that end a page. -/
def EndsPage (c : Char) : Prop := c = '#' ∨ c = ')'

/-- A text starts with a link to a page. -/
structure IsPageLink (s way page rest : List Char) : Prop where
  eq : s = way ++ page ++ rest
  way : way = docs ∨ way = host ++ docs
  page_ne_nil : page ≠ []
  page : ∀ c ∈ page, ¬EndsPage c
  rest : ∀ c ∈ rest.head?, EndsPage c

/-- What a link to a page is replaced by. -/
def pageTarget (way page : List Char) : List Char :=
  if referencePages.contains page then reference ++ page else way ++ page

variable {a b s t u v way page rest x : List Char} {c : Char} {n : Nat}

theorem dropPrefix?_host_docs (s : List Char) : dropPrefix? host (docs ++ s) = none := rfl

/-- The characters of a page, and what is behind them. -/
theorem takeWhile_page (hpage : ∀ c ∈ page, ¬EndsPage c) (hrest : ∀ c ∈ rest.head?, EndsPage c) :
    (page ++ rest).takeWhile (fun c => c != '#' && c != ')') = page := by
  rw [List.takeWhile_append_of_pos fun c hc => by
    have := hpage c hc
    simpa [EndsPage] using this]
  refine List.append_right_eq_self.2 ?_
  cases rest with
  | nil => rfl
  | cons c rest =>
    refine List.takeWhile_cons_of_neg ?_
    rcases hrest c rfl with rfl | rfl <;> decide

theorem pageLink_way (hway : way = docs ∨ way = host ++ docs) (s : List Char) :
    dropPrefix? docs ((dropPrefix? host (way ++ s)).getD (way ++ s)) = some s := by
  rcases hway with rfl | rfl
  · rw [dropPrefix?_host_docs, Option.getD_none]
    exact dropPrefix?_eq_some_iff.2 rfl
  · rw [List.append_assoc, dropPrefix?_eq_some_iff.2 rfl, Option.getD_some]
    exact dropPrefix?_eq_some_iff.2 rfl

theorem exists_way (h : dropPrefix? docs ((dropPrefix? host s).getD s) = some t) :
    ∃ way, (way = docs ∨ way = host ++ docs) ∧ s = way ++ t := by
  rcases hhost : dropPrefix? host s with _ | s'
  · rw [hhost] at h
    exact ⟨docs, Or.inl rfl, dropPrefix?_eq_some_iff.1 h⟩
  · rw [hhost] at h
    refine ⟨host ++ docs, Or.inr rfl, ?_⟩
    rw [dropPrefix?_eq_some_iff.1 hhost, List.append_assoc]
    exact congrArg (host ++ ·) (dropPrefix?_eq_some_iff.1 h)

theorem IsPageLink.pageLink_eq (h : IsPageLink s way page rest) :
    pageLink s = some (pageTarget way page, (way ++ page).length - 1) := by
  obtain ⟨rfl, hway, hne, hpage, hrest⟩ := h
  have hlength : (way ++ page ++ rest).length - ((page ++ rest).length - page.length) =
      (way ++ page).length := by
    simp only [List.length_append]
    omega
  rw [pageLink]
  have hdrop : dropPrefix? "/docs/".toList ((dropPrefix? host (way ++ page ++ rest)).getD
      (way ++ page ++ rest)) = some (page ++ rest) := by
    rw [List.append_assoc]
    exact pageLink_way hway _
  rw [hdrop, Option.bind_eq_bind, Option.bind_some]
  dsimp only
  rw [takeWhile_page hpage hrest, hlength, List.take_left, if_neg (by simpa using hne), pageTarget]
  split <;> rfl

/-- The first rule matches exactly where a link to a page begins. -/
theorem pageLink_eq_some_iff : pageLink s = some (x, n) ↔
    ∃ way page rest, IsPageLink s way page rest ∧ x = pageTarget way page ∧
      n + 1 = (way ++ page).length := by
  constructor
  · intro h
    obtain ⟨t, ht, h⟩ := Option.bind_eq_some_iff.1 h
    obtain ⟨way, hway, rfl⟩ := exists_way ht
    dsimp only at h
    generalize hpage : t.takeWhile (fun c => c != '#' && c != ')') = page at h
    have hsplit : page ++ t.dropWhile (fun c => c != '#' && c != ')') = t :=
      hpage ▸ List.takeWhile_append_dropWhile
    generalize hrest : t.dropWhile (fun c => c != '#' && c != ')') = rest at hsplit
    subst hsplit
    have hlength : (way ++ (page ++ rest)).length - ((page ++ rest).length - page.length) =
        (way ++ page).length := by
      simp only [List.length_append]
      omega
    rw [hlength, ← List.append_assoc, List.take_left] at h
    have hne : page ≠ [] := fun hnil => by
      rw [hnil] at h
      cases h
    have hends : ∀ c ∈ page, ¬EndsPage c := fun c hc => by
      rw [← hpage] at hc
      have := List.mem_takeWhile_imp hc
      simpa [EndsPage] using this
    have hstop : ∀ c ∈ rest.head?, EndsPage c := fun c hc => by
      rw [← hrest] at hc
      have := List.head?_dropWhile_not (fun c => c != '#' && c != ')') (page ++ rest)
      rw [hc] at this
      simp only [Bool.and_eq_false_iff, bne_eq_false_iff_eq] at this
      exact this
    refine ⟨way, page, rest, ⟨(List.append_assoc _ _ _).symm, hway, hne, hends, hstop⟩, ?_⟩
    have hpos : 0 < (way ++ page).length :=
      List.length_pos_iff.2 (List.append_ne_nil_of_right_ne_nil _ hne)
    rw [if_neg (by simpa using hne)] at h
    unfold pageTarget
    split at h
    · next hmem =>
      obtain ⟨hx, hn⟩ := Prod.mk.inj (Option.some.inj h)
      rw [if_pos hmem]
      exact ⟨hx.symm, by omega⟩
    · next hmem =>
      obtain ⟨hx, hn⟩ := Prod.mk.inj (Option.some.inj h)
      rw [if_neg hmem]
      exact ⟨hx.symm, by omega⟩
  · rintro ⟨way, page, rest, hlink, rfl, hn⟩
    rw [hlink.pageLink_eq, Nat.eq_sub_of_add_eq hn]

/-- No link goes on behind the end of its page. -/
theorem IsPageLink.notMem (h : IsPageLink s way page rest) (hc : EndsPage c) : c ∉ way ++ page := by
  intro hmem
  rcases List.mem_append.1 hmem with hway | hpage
  · rcases hc with rfl | rfl <;> rcases h.way with rfl | rfl <;> revert hway <;> decide
  · exact h.page c hpage hc

theorem IsPageLink.movePages (h : IsPageLink s way page rest) :
    movePages s = pageTarget way page ++ movePages rest := by
  obtain ⟨x, n, hmatch, hx, hn⟩ : ∃ x n, pageLink s = some (x, n) ∧ x = pageTarget way page ∧
      n + 1 = (way ++ page).length := by
    have hpos : 0 < (way ++ page).length :=
      List.length_pos_iff.2 (List.append_ne_nil_of_right_ne_nil _ h.page_ne_nil)
    have hn : (way ++ page).length - 1 + 1 = (way ++ page).length := by omega
    exact ⟨_, _, pageLink_eq_some_iff.2 ⟨way, page, rest, h, rfl, hn⟩, rfl, hn⟩
  obtain rfl := h.eq
  rw [SiteLink.movePages, replaceMatches_append_of_some hmatch hn, hx]
  rfl

@[simp] theorem movePages_nil : movePages [] = [] := replaceMatches_nil

theorem movePages_cons (h : ∀ way page rest, ¬IsPageLink (c :: s) way page rest) :
    movePages (c :: s) = c :: movePages s := by
  refine replaceMatches_cons_of_none (Option.eq_none_iff_forall_ne_some.2 fun ⟨x, n⟩ hmatch => ?_)
  obtain ⟨way, page, rest, hlink, -⟩ := pageLink_eq_some_iff.1 hmatch
  exact h way page rest hlink

/-- The characters that end a page cut the search for links in two. -/
theorem movePages_append_cons (hc : EndsPage c) (a b : List Char) :
    SiteLink.movePages (a ++ c :: b) = SiteLink.movePages a ++ c :: SiteLink.movePages b := by
  refine replaceMatches_append_cons (fun v => Option.ext fun ⟨x, n⟩ => ?_) fun v x n hmatch => ?_
  · rw [pageLink_eq_some_iff, pageLink_eq_some_iff]
    constructor
    · rintro ⟨way, page, rest, hlink, hx⟩
      obtain ⟨r, hv, rfl⟩ := exists_of_append_eq_append_cons hlink.eq.symm (hlink.notMem hc)
      refine ⟨way, page, r, ⟨hv, hlink.way, hlink.page_ne_nil, hlink.page, ?_⟩, hx⟩
      intro d hd
      cases r with
      | nil => cases hd
      | cons e r => exact hlink.rest d hd
    · rintro ⟨way, page, rest, hlink, hx⟩
      refine ⟨way, page, rest ++ c :: b,
        ⟨by rw [hlink.eq, List.append_assoc], hlink.way, hlink.page_ne_nil, hlink.page, ?_⟩, hx⟩
      intro d hd
      cases rest with
      | nil => exact Option.some.inj hd ▸ hc
      | cons e rest => exact hlink.rest d hd
  · obtain ⟨way, page, rest, hlink, -, hn⟩ := pageLink_eq_some_iff.1 hmatch
    rw [hlink.eq, List.length_append]
    omega

/-! ## Anchors -/

/-- Where an anchor on the page of all modules begins. -/
def anchorStart : List Char := reference ++ "modules#".toList

/-- A text starts with an anchor of three parts on the page of all modules. -/
structure IsAnchor (s scope name member rest : List Char) : Prop where
  eq : s = anchorStart ++ (scope ++ '-' :: (name ++ '-' :: (member ++ rest)))
  scope_ne_nil : scope ≠ []
  scope : '-' ∉ scope
  name_ne_nil : name ≠ []
  name : '-' ∉ name
  member_ne_nil : member ≠ []
  member : ∀ c ∈ member, c ≠ '-' ∧ c ≠ ')'
  rest : ∀ c ∈ rest.head?, c = '-' ∨ c = ')'

variable {scope name member : List Char}

/-- A text is cut at its first dash. -/
theorem takeWhile_dash (h : '-' ∉ a) (b : List Char) :
    (a ++ '-' :: b).takeWhile (· != '-') = a := by
  rw [List.takeWhile_append_of_pos fun c hc => by
    simpa using fun heq : c = '-' => h (heq ▸ hc)]
  rw [List.takeWhile_cons_of_neg (by simp), List.append_nil]

theorem eq_of_drop_takeWhile_dash (h : s.drop (s.takeWhile (· != '-')).length = '-' :: b) :
    s = s.takeWhile (· != '-') ++ '-' :: b ∧ '-' ∉ s.takeWhile (· != '-') := by
  rw [drop_length_takeWhile] at h
  refine ⟨?_, fun hmem => by simpa using List.mem_takeWhile_imp hmem⟩
  rw [← h, List.takeWhile_append_dropWhile]

theorem takeWhile_member (hmember : ∀ c ∈ member, c ≠ '-' ∧ c ≠ ')')
    (hrest : ∀ c ∈ rest.head?, c = '-' ∨ c = ')') :
    (member ++ rest).takeWhile (fun c => c != '-' && c != ')') = member := by
  rw [List.takeWhile_append_of_pos fun c hc => by simpa using hmember c hc]
  refine List.append_right_eq_self.2 ?_
  cases rest with
  | nil => rfl
  | cons c rest =>
    refine List.takeWhile_cons_of_neg ?_
    rcases hrest c rfl with rfl | rfl <;> decide

theorem IsAnchor.moduleAnchor_eq (h : IsAnchor s scope name member rest) :
    moduleAnchor s = some (anchorTarget scope name member, s.length - 1 - rest.length) := by
  obtain ⟨rfl, hs, hscope, hn', hname, hm, hmember, hrest⟩ := h
  have hstart : dropPrefix? (reference ++ "modules#".toList)
      (anchorStart ++ (scope ++ '-' :: (name ++ '-' :: (member ++ rest)))) =
        some (scope ++ '-' :: (name ++ '-' :: (member ++ rest))) :=
    dropPrefix?_eq_some_iff.2 rfl
  rw [moduleAnchor, hstart, Option.bind_eq_bind, Option.bind_some]
  simp only [takeWhile_dash hscope, takeWhile_dash hname, takeWhile_member hmember hrest,
    List.drop_left]
  rw [if_neg (by simp [hs, hn', hm])]
  refine congrArg some (Prod.ext rfl ?_)
  simp only [List.length_append, List.length_cons]
  omega

/-- The second rule matches exactly where an anchor of three parts begins. -/
theorem moduleAnchor_eq_some_iff : moduleAnchor s = some (x, n) ↔
    ∃ scope name member rest, IsAnchor s scope name member rest ∧
      x = anchorTarget scope name member ∧ n + 1 + rest.length = s.length := by
  constructor
  · intro h
    obtain ⟨t, ht, h⟩ := Option.bind_eq_some_iff.1 h
    have hs := dropPrefix?_eq_some_iff.1 ht
    dsimp only at h
    split at h
    · next t' hscope =>
      obtain ⟨ht', hscope⟩ := eq_of_drop_takeWhile_dash hscope
      generalize t.takeWhile (· != '-') = scope at h ht' hscope
      split at h
      · next t'' hname =>
        obtain ⟨ht'', hname⟩ := eq_of_drop_takeWhile_dash hname
        generalize t'.takeWhile (· != '-') = name at h ht'' hname
        have hsplit := List.takeWhile_append_dropWhile
          (p := fun c => c != '-' && c != ')') (l := t'')
        have hmember : ∀ c ∈ t''.takeWhile fun c => c != '-' && c != ')', c ≠ '-' ∧ c ≠ ')' :=
          fun c hc => by simpa using List.mem_takeWhile_imp hc
        have hrest : ∀ c ∈ (t''.dropWhile fun c => c != '-' && c != ')').head?,
            c = '-' ∨ c = ')' := fun c hc => by
          have hfalse := List.head?_dropWhile_not (fun c => c != '-' && c != ')') t''
          rw [hc] at hfalse
          simpa only [Bool.and_eq_false_iff, bne_eq_false_iff_eq] using hfalse
        generalize t''.takeWhile (fun c => c != '-' && c != ')') = member at h hsplit hmember
        generalize t''.dropWhile (fun c => c != '-' && c != ')') = rest at hsplit hrest
        split at h
        · cases h
        · next hne =>
          simp only [Bool.or_eq_true, List.isEmpty_iff, not_or] at hne
          obtain ⟨⟨hs', hn'⟩, hm'⟩ := hne
          obtain ⟨hx, hn⟩ := Prod.mk.inj (Option.some.inj h)
          have heq : s = anchorStart ++ (scope ++ '-' :: (name ++ '-' :: (member ++ rest))) := by
            rw [hs, ht', ht'', hsplit]
            rfl
          refine ⟨scope, name, member, rest,
            ⟨heq, hs', hscope, hn', hname, hm', hmember, hrest⟩, hx.symm, ?_⟩
          have hpos := List.length_pos_iff.2 hs'
          rw [← hn, heq, ← hsplit]
          simp only [List.length_append, List.length_cons]
          omega
      · cases h
    · cases h
  · rintro ⟨scope, name, member, rest, hanchor, rfl, hn⟩
    rw [hanchor.moduleAnchor_eq]
    refine congrArg some (Prod.ext rfl ?_)
    dsimp only
    omega

theorem IsAnchor.ne_nil (h : IsAnchor s scope name member rest) : s ≠ [] := by
  rw [h.eq]
  exact List.cons_ne_nil _ _

theorem IsAnchor.moveAnchors (h : IsAnchor s scope name member rest) :
    moveAnchors s = anchorTarget scope name member ++ moveAnchors rest := by
  have hs : s = anchorStart ++ (scope ++ '-' :: (name ++ '-' :: member)) ++ rest := by
    rw [h.eq]
    simp only [List.append_assoc, List.cons_append]
  obtain ⟨n, hn⟩ : ∃ n, n + 1 = (anchorStart ++ (scope ++ '-' :: (name ++ '-' :: member))).length :=
    Nat.exists_eq_add_one.2 (List.length_pos_iff.2 (by simp)) |>.imp fun _ => Eq.symm
  have hmatch : moduleAnchor s = some (anchorTarget scope name member, n) := by
    refine moduleAnchor_eq_some_iff.2 ⟨scope, name, member, rest, h, rfl, ?_⟩
    rw [hn, hs, @List.length_append _ _ rest]
  rw [hs] at hmatch ⊢
  exact replaceMatches_append_of_some hmatch hn

theorem moduleAnchor_eq_none_iff :
    moduleAnchor s = none ↔ ∀ scope name member rest, ¬IsAnchor s scope name member rest := by
  constructor
  · intro hnone scope name member rest h
    have hlength : rest.length < s.length := by
      rw [h.eq]
      simp only [List.length_append, List.length_cons]
      omega
    have hn : s.length - rest.length - 1 + 1 + rest.length = s.length := by omega
    have hsome := moduleAnchor_eq_some_iff.2 ⟨scope, name, member, rest, h, rfl, hn⟩
    rw [hnone] at hsome
    cases hsome
  · intro h
    refine Option.eq_none_iff_forall_ne_some.2 fun ⟨x, n⟩ hmatch => ?_
    obtain ⟨scope, name, member, rest, hanchor, -⟩ := moduleAnchor_eq_some_iff.1 hmatch
    exact h scope name member rest hanchor

theorem moveAnchors_cons (h : moduleAnchor (c :: s) = none) :
    moveAnchors (c :: s) = c :: moveAnchors s :=
  replaceMatches_cons_of_none h

@[simp] theorem moveAnchors_nil : moveAnchors [] = [] := replaceMatches_nil

/-- The search for anchors passes the characters where none begins, and goes on behind each one. -/
theorem anchorInduction {motive : List Char → Prop} (nil : motive [])
    (char : ∀ c s, moduleAnchor (c :: s) = none → motive s → motive (c :: s))
    (anchor : ∀ s scope name member rest, IsAnchor s scope name member rest → motive rest →
      motive s)
    (s : List Char) : motive s := by
  induction hn : s.length using Nat.strong_induction_on generalizing s with
  | _ k ih =>
    subst hn
    rcases s with _ | ⟨c, s⟩
    · exact nil
    · rcases hmatch : moduleAnchor (c :: s) with _ | ⟨x, n⟩
      · exact char c s hmatch (ih _ (by simp) s rfl)
      · obtain ⟨scope, name, member, rest, hanchor, -, hn⟩ := moduleAnchor_eq_some_iff.1 hmatch
        exact anchor _ scope name member rest hanchor (ih _ (by omega) rest rfl)

/-! ## The command line -/

/-- The page of the command line. -/
def commandLine : List Char := "/docs/cli".toList

theorem exactly_commandLine (s : List Char) :
    exactly commandLine (commandLine ++ s) = some ((), 8) :=
  exactly_eq_some_iff.2 ⟨rfl, List.prefix_append commandLine s⟩

theorem exactly_commandLine_eq_none (h : ¬commandLine <+: s) : exactly commandLine s = none :=
  Option.eq_none_iff_forall_ne_some.2 fun _ hmatch => h (exactly_eq_some_iff.1 hmatch).2

theorem moveCommandLine_append (s : List Char) :
    moveCommandLine (commandLine ++ s) = reference ++ "cli".toList ++ moveCommandLine s :=
  replaceMatches_append_of_some (exactly_commandLine s) rfl

theorem moveCommandLine_cons (h : ¬commandLine <+: c :: s) :
    moveCommandLine (c :: s) = c :: moveCommandLine s :=
  replaceMatches_cons_of_none (exactly_commandLine_eq_none h)

@[simp] theorem moveCommandLine_nil : moveCommandLine [] = [] := replaceMatches_nil

/-- The search for the page of the command line passes the characters where it does not stand, and
goes on behind each place where it does. -/
theorem commandInduction {motive : List Char → Prop} (nil : motive [])
    (char : ∀ c s, ¬commandLine <+: c :: s → motive s → motive (c :: s))
    (command : ∀ s, motive s → motive (commandLine ++ s)) (s : List Char) : motive s := by
  induction hn : s.length using Nat.strong_induction_on generalizing s with
  | _ k ih =>
    subst hn
    rcases s with _ | ⟨c, s⟩
    · exact nil
    · by_cases h : commandLine <+: c :: s
      · obtain ⟨t, ht⟩ := h
        rw [← ht]
        refine command t (ih _ ?_ t rfl)
        rw [← ht, List.length_append]
        exact Nat.lt_add_of_pos_left (by decide)
      · exact char c s h (ih _ (by simp) s rfl)

theorem moveCommandLine_append_cons (hc : c ∉ commandLine) (a b : List Char) :
    moveCommandLine (a ++ c :: b) = moveCommandLine a ++ c :: moveCommandLine b :=
  replaceAll_append_cons hc

/-- The third rule neither takes nor adds a dash. -/
theorem count_moveCommandLine (s : List Char) : (moveCommandLine s).count '-' = s.count '-' :=
  count_replaceAll (by decide) (by decide) s

/-! ## Texts without links -/

theorem IsPageLink.docs_infix (h : IsPageLink s way page rest) : docs <:+: s := by
  rw [h.eq]
  rcases h.way with rfl | rfl
  · exact ⟨[], page ++ rest, rfl⟩
  · exact ⟨host, page ++ rest, by simp only [List.append_assoc]⟩

theorem IsAnchor.docs_infix (h : IsAnchor s scope name member rest) : docs <:+: s := by
  rw [h.eq]
  exact ⟨[], "kit/reference/modules#".toList ++ _, rfl⟩

theorem docs_infix_of_commandLine (h : commandLine <:+: s) : docs <:+: s :=
  List.IsInfix.trans ⟨[], "cli".toList, rfl⟩ h

theorem docs_infix_pageTarget (hway : way = docs ∨ way = host ++ docs) (page : List Char) :
    docs <:+: pageTarget way page := by
  unfold pageTarget
  split
  · exact ⟨[], "kit/reference/".toList ++ page, rfl⟩
  · rcases hway with rfl | rfl
    · exact List.infix_append' [] docs page
    · exact List.infix_append host docs page

/-- All that replaces an anchor is in the documentation. -/
theorem docs_prefix_anchorTarget (scope name member : List Char) :
    docs <+: anchorTarget scope name member := by
  unfold anchorTarget
  split
  · exact ⟨"kit/reference/".toList ++ "$env-all#".toList ++ scope ++ '-' :: name ++ '-' :: member,
      rfl⟩
  · exact ⟨"kit/reference/".toList ++ _ ++ '-' :: name ++ '#' :: member, rfl⟩

/-- No text loses all its links. -/
theorem docs_infix_moveLinks (h : docs <:+: s) : docs <:+: moveLinks s := by
  refine infix_replaceMatches (fun _ _ _ _ => ?_)
    (infix_replaceMatches (fun s x n hmatch => ?_)
      (infix_replaceMatches (fun s x n hmatch => ?_) h))
  · exact ⟨[], "kit/reference/cli".toList, rfl⟩
  · obtain ⟨scope, name, member, -, -, rfl, -⟩ := moduleAnchor_eq_some_iff.1 hmatch
    exact (docs_prefix_anchorTarget scope name member).isInfix
  · obtain ⟨way, page, rest, hlink, rfl, -⟩ := pageLink_eq_some_iff.1 hmatch
    exact docs_infix_pageTarget hlink.way page

theorem movePages_of_not_infix (h : ¬docs <:+: s) : movePages s = s := by
  refine replaceMatches_of_not_infix (fun t x n hmatch => ?_) h
  obtain ⟨way, page, rest, hlink, -⟩ := pageLink_eq_some_iff.1 hmatch
  exact hlink.docs_infix

theorem moveAnchors_of_not_infix (h : ¬docs <:+: s) : moveAnchors s = s := by
  refine replaceMatches_of_not_infix (fun t x n hmatch => ?_) h
  obtain ⟨scope, name, member, rest, hanchor, -⟩ := moduleAnchor_eq_some_iff.1 hmatch
  exact hanchor.docs_infix

theorem moveCommandLine_of_not_infix (h : ¬commandLine <:+: s) : moveCommandLine s = s :=
  replaceMatches_of_not_infix (fun _ _ _ hmatch => (exactly_eq_some_iff.1 hmatch).2.isInfix) h

/-- A text without links stays as it is. -/
theorem moveLinks_of_not_infix (h : ¬docs <:+: s) : moveLinks s = s := by
  rw [moveLinks, movePages_of_not_infix h, moveAnchors_of_not_infix h,
    moveCommandLine_of_not_infix fun hcommand => h (docs_infix_of_commandLine hcommand)]

end ReferencePages.SiteLink
