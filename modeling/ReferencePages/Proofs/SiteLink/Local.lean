import ReferencePages.Proofs.SiteLink.Basic

/-!
# Links are moved one by one

The parenthesis that closes a link ends every match of the first rule and of the third one. A match
of the second rule goes over parentheses: only its last part ends at one. So what stands behind a
parenthesis is rewritten as if it stood alone exactly if no anchor on the page of all modules is
left open before it, that is, with fewer than two dashes behind it (`LeavesOpen`,
`moveLinks_closing`).
-/

namespace ReferencePages.SiteLink

variable {s t w scope name member rest : List Char} {c : Char}

/-- An anchor on the page of all modules whose scope or name does not end in the text. -/
def OpenAnchor (s : List Char) : Prop :=
  ∃ w, s = anchorStart ++ w ∧ w.head? ≠ some '-' ∧ w.count '-' ≤ 1

/-- The search for anchors comes to an open one. -/
inductive LeavesOpen : List Char → Prop
  | here {s : List Char} : OpenAnchor s → LeavesOpen s
  | char {c : Char} {s : List Char} :
    moduleAnchor (c :: s) = none → LeavesOpen s → LeavesOpen (c :: s)
  | behind {s scope name member rest : List Char} :
    IsAnchor s scope name member rest → LeavesOpen rest → LeavesOpen s

/-! ## Texts up to a parenthesis -/

/-- A text ends with the parenthesis that closes a link. -/
def Closed (s : List Char) : Prop := ∃ a, s = a ++ [')']

theorem Closed.of_append (h : Closed (s ++ t)) (ht : t ≠ []) : Closed t := by
  obtain ⟨a, ha⟩ := h
  rw [← List.dropLast_concat_getLast ht, ← List.append_assoc] at ha
  obtain ⟨-, hlast⟩ := List.append_inj' ha rfl
  exact ⟨t.dropLast, by rw [← hlast, List.dropLast_concat_getLast]⟩

theorem Closed.of_cons (h : Closed (c :: s)) : s = [] ∨ Closed s := by
  rcases eq_or_ne s [] with hs | hs
  · exact Or.inl hs
  · exact Or.inr (Closed.of_append (s := [c]) h hs)

theorem Closed.not_prefix_anchorStart (h : Closed s) : ¬s <+: anchorStart := fun hprefix => by
  obtain ⟨a, rfl⟩ := h
  have hmem : ')' ∈ anchorStart := hprefix.subset (List.mem_append_right a List.mem_cons_self)
  revert hmem
  decide

/-- The last part of an anchor does not go over a parenthesis. -/
theorem IsAnchor.closed_rest (h : IsAnchor s scope name member rest) (hs : Closed s) :
    rest ≠ [] ∧ Closed rest := by
  have hsplit : s = (anchorStart ++ (scope ++ '-' :: (name ++ ['-']))) ++ (member ++ rest) := by
    rw [h.eq]
    simp only [List.append_assoc, List.cons_append, List.nil_append]
  have hmember : Closed (member ++ rest) :=
    (hsplit ▸ hs).of_append (List.append_ne_nil_of_left_ne_nil h.member_ne_nil rest)
  have hne : rest ≠ [] := fun hnil => by
    obtain ⟨a, ha⟩ := hmember
    rw [hnil, List.append_nil] at ha
    exact (h.member ')' (ha ▸ List.mem_append_right a List.mem_cons_self)).2 rfl
  exact ⟨hne, hmember.of_append hne⟩

theorem IsAnchor.append (h : IsAnchor s scope name member rest) (hrest : rest ≠ [])
    (t : List Char) : IsAnchor (s ++ t) scope name member (rest ++ t) where
  eq := by
    rw [h.eq]
    simp only [List.append_assoc, List.cons_append]
  scope_ne_nil := h.scope_ne_nil
  scope := h.scope
  name_ne_nil := h.name_ne_nil
  name := h.name
  member_ne_nil := h.member_ne_nil
  member := h.member
  rest := by
    cases rest with
    | nil => exact absurd rfl hrest
    | cons c rest => exact h.rest

/-- A part that ends at a dash ends at the first one. -/
theorem exists_of_append_dash (h : s ++ '-' :: t = w ++ rest) (hs : '-' ∉ s) (hw : '-' ∈ w) :
    ∃ r, w = s ++ '-' :: r ∧ t = r ++ rest := by
  rcases List.append_eq_append_iff.1 h with ⟨r, hr, ht⟩ | ⟨r, hr, -⟩
  · cases r with
    | nil =>
      rw [List.append_nil] at hr
      exact absurd (hr ▸ hw) hs
    | cons c r =>
      obtain ⟨rfl, htail⟩ := List.cons.inj ht
      exact ⟨r, hr, htail⟩
  · exact absurd (hr ▸ List.mem_append_left r hw) hs

/-- An anchor that ends its scope and name before a parenthesis does not go over it. -/
theorem moduleAnchor_append_eq_none (hs : Closed s) (hopen : ¬OpenAnchor s)
    (h : moduleAnchor s = none) (t : List Char) : moduleAnchor (s ++ t) = none := by
  rw [moduleAnchor_eq_none_iff] at h ⊢
  intro scope name member rest hanchor
  rcases List.append_eq_append_iff.1 hanchor.eq with ⟨r, hr, -⟩ | ⟨w, rfl, hw⟩
  · exact hs.not_prefix_anchorStart ⟨r, hr.symm⟩
  have hne : w ≠ [] := fun hnil =>
    hs.not_prefix_anchorStart ⟨[], by rw [hnil, List.append_nil, List.append_nil]⟩
  have hhead : w.head? ≠ some '-' := by
    have hscope := hanchor.scope_ne_nil
    have hmem := hanchor.scope
    cases scope with
    | nil => exact absurd rfl hscope
    | cons c scope =>
      cases w with
      | nil => exact absurd rfl hne
      | cons d w =>
        obtain ⟨rfl, -⟩ := List.cons.inj hw
        exact fun hdash => hmem (Option.some.inj hdash ▸ List.mem_cons_self)
  have hcount : 2 ≤ w.count '-' :=
    Nat.lt_of_not_le fun hle => hopen ⟨w, rfl, hhead, hle⟩
  -- Both dashes are before the parenthesis, so that it is the last part that meets it.
  obtain ⟨v, rfl, hv⟩ := exists_of_append_dash hw hanchor.scope (List.count_pos_iff.1 (by omega))
  rw [List.count_append, List.count_eq_zero.2 hanchor.scope, List.count_cons_self] at hcount
  obtain ⟨u, rfl, hu⟩ := exists_of_append_dash hv hanchor.name (List.count_pos_iff.1 (by omega))
  have hclosed : Closed ('-' :: u) := by
    refine Closed.of_append (s := anchorStart ++ (scope ++ '-' :: name)) ?_ (List.cons_ne_nil _ _)
    rwa [List.append_assoc, List.append_assoc, List.cons_append]
  obtain rfl | ⟨a, rfl⟩ := hclosed.of_cons
  · obtain ⟨a, ha⟩ := hclosed
    cases a <;> simp at ha
  rw [List.append_assoc] at hu
  obtain ⟨r, rfl, rfl⟩ := exists_of_append_eq_append_cons hu
    fun hmem => (hanchor.member _ hmem).2 rfl
  refine h scope name member (r ++ [')']) ⟨?_, hanchor.scope_ne_nil, hanchor.scope,
    hanchor.name_ne_nil, hanchor.name, hanchor.member_ne_nil, hanchor.member, ?_⟩
  · rw [List.append_assoc]
  · have hrest := hanchor.rest
    cases r with
    | nil => exact hrest
    | cons c r => exact hrest

/-- The search for anchors comes to the parenthesis. -/
theorem closed_moveAnchors (hs : Closed s) : Closed (moveAnchors s) := by
  induction s using anchorInduction with
  | nil => rwa [moveAnchors_nil]
  | char c s hnone ih =>
    rw [moveAnchors_cons hnone]
    obtain rfl | hrest := hs.of_cons
    · rwa [moveAnchors_nil]
    · obtain ⟨a, ha⟩ := ih hrest
      exact ⟨c :: a, by rw [ha, List.cons_append]⟩
  | anchor s scope name member rest hanchor ih =>
    obtain ⟨-, hrest⟩ := hanchor.closed_rest hs
    obtain ⟨a, ha⟩ := ih hrest
    exact ⟨anchorTarget scope name member ++ a, by rw [hanchor.moveAnchors, ha, List.append_assoc]⟩

/-- Anchors that are closed before a parenthesis are moved without regard to what follows it. -/
theorem moveAnchors_append (hs : Closed s) (h : ¬LeavesOpen s) (t : List Char) :
    moveAnchors (s ++ t) = moveAnchors s ++ moveAnchors t := by
  induction s using anchorInduction with
  | nil => rw [moveAnchors_nil, List.nil_append, List.nil_append]
  | char c s hnone ih =>
    have hnone' := moduleAnchor_append_eq_none hs (fun hopen => h (.here hopen)) hnone t
    have hrest : moveAnchors (s ++ t) = moveAnchors s ++ moveAnchors t := by
      obtain rfl | hrest := hs.of_cons
      · rw [moveAnchors_nil, List.nil_append, List.nil_append]
      · exact ih hrest fun hopen => h (.char hnone hopen)
    rw [moveAnchors_cons hnone, List.cons_append, List.cons_append, ← hrest]
    exact moveAnchors_cons hnone'
  | anchor s scope name member rest hanchor ih =>
    obtain ⟨hne, hrest⟩ := hanchor.closed_rest hs
    rw [(hanchor.append hne t).moveAnchors, hanchor.moveAnchors, List.append_assoc,
      ih hrest fun hopen => h (.behind hanchor hopen)]

/-! ## Open anchors -/

/-- A text that ends what is left open before it. -/
def dashed : List Char := "-x-y".toList

theorem count_anchorTarget (hscope : '-' ∉ scope) (hname : '-' ∉ name) (hmember : '-' ∉ member) :
    (anchorTarget scope name member).count '-' ≠ 2 := by
  rw [← List.count_eq_zero] at hscope hname hmember
  have hreference : reference.count '-' = 0 := by decide
  unfold anchorTarget
  split
  · simp [List.count_append, hreference, hscope, hname, hmember]
  · have hscope' :
        (if scope = "sveltejs".toList then "@sveltejs".toList else scope).count '-' = 0 := by
      split
      · decide
      · exact hscope
    simp only [List.count_append, List.count_cons, hreference, hscope', hname, hmember]
    decide

/-- An anchor holds two dashes. -/
theorem moveAnchors_of_count (h : s.count '-' ≤ 1) : moveAnchors s = s := by
  induction s using anchorInduction with
  | nil => exact moveAnchors_nil
  | char c s hnone ih =>
    have hle : s.count '-' ≤ (c :: s).count '-' := List.count_le_count_cons
    rw [moveAnchors_cons hnone, ih (by omega)]
  | anchor s scope name member rest hanchor ih =>
    rw [hanchor.eq] at h
    simp only [List.count_append, List.count_cons_self] at h
    omega

/-- The dashes behind a parenthesis become those of an anchor that is left open before it. -/
theorem OpenAnchor.count_moveAnchors (hs : Closed s) (h : OpenAnchor s) :
    (moveAnchors (s ++ dashed)).count '-' ≠ (moveAnchors s ++ dashed).count '-' := by
  obtain ⟨w, rfl, hhead, hcount⟩ := h
  have hstart : anchorStart.count '-' = 0 := by decide
  have hw : w ≠ [] := fun hnil =>
    hs.not_prefix_anchorStart ⟨[], by rw [hnil, List.append_nil, List.append_nil]⟩
  have hkept : moveAnchors (anchorStart ++ w) = anchorStart ++ w :=
    moveAnchors_of_count (by rw [List.count_append, hstart]; omega)
  rw [hkept]
  by_cases hdash : '-' ∈ w
  · -- The name is open, and takes what stands before the first dash behind the parenthesis.
    obtain ⟨scope, name, rfl, hscope⟩ := List.eq_append_cons_of_mem hdash
    have hname : '-' ∉ name := by
      rw [List.count_append, List.count_cons_self] at hcount
      exact List.count_eq_zero.1 (by omega)
    have hscope' : scope ≠ [] := fun hnil => hhead (by rw [hnil]; rfl)
    have hname' : name ≠ [] := fun hnil => by
      obtain ⟨a, ha⟩ := hs
      rw [hnil, ← List.append_assoc] at ha
      exact absurd (List.append_inj_right' ha rfl) (by decide)
    have hanchor : IsAnchor (anchorStart ++ (scope ++ '-' :: name) ++ dashed) scope name
        ['x'] "-y".toList :=
      ⟨by simp [dashed], hscope', hscope, hname', hname, by decide,
        List.forall_mem_singleton.2 (by decide), fun _ hc => Or.inl (Option.some.inj hc).symm⟩
    have hmember : '-' ∉ ['x'] := by decide
    have hcount' := count_anchorTarget hscope hname hmember
    have hend : moveAnchors "-y".toList = "-y".toList := moveAnchors_of_count (by decide)
    rw [hanchor.moveAnchors, hend]
    simp only [List.count_append, List.count_cons_self, hstart, List.count_eq_zero.2 hscope,
      List.count_eq_zero.2 hname]
    have hy : "-y".toList.count '-' = 1 := by decide
    have hdashed : dashed.count '-' = 2 := by decide
    omega
  · -- The scope is open, and the name and the member are those behind the parenthesis.
    have hanchor : IsAnchor (anchorStart ++ w ++ dashed) w ['x'] ['y'] [] :=
      ⟨by simp [dashed], hw, hdash, by decide, by decide, by decide,
        List.forall_mem_singleton.2 (by decide), fun _ hc => nomatch hc⟩
    have hbehind : '-' ∉ ['x'] ∧ '-' ∉ ['y'] := by decide
    have hcount' := count_anchorTarget hdash hbehind.1 hbehind.2
    rw [hanchor.moveAnchors, moveAnchors_nil, List.append_nil]
    simp only [List.count_append, hstart, List.count_eq_zero.2 hdash]
    have hdashed : dashed.count '-' = 2 := by decide
    omega

/-- An open anchor goes on behind the parenthesis, at least where two dashes follow. -/
theorem LeavesOpen.count_moveAnchors (hs : Closed s) (h : LeavesOpen s) :
    (moveAnchors (s ++ dashed)).count '-' ≠ (moveAnchors s ++ dashed).count '-' := by
  induction h with
  | here hopen => exact hopen.count_moveAnchors hs
  | @char c s hnone h ih =>
    by_cases hopen : OpenAnchor (c :: s)
    · exact hopen.count_moveAnchors hs
    · have hnone' := moduleAnchor_append_eq_none hs hopen hnone dashed
      obtain rfl | hrest := hs.of_cons
      · cases h with
        | here hopen =>
          obtain ⟨w, hw, -⟩ := hopen
          cases hw
        | behind hanchor => exact absurd rfl hanchor.ne_nil
      · have := ih hrest
        rw [List.cons_append] at hnone' ⊢
        rw [moveAnchors_cons hnone', moveAnchors_cons hnone, List.cons_append, List.count_cons,
          List.count_cons]
        omega
  | @behind s scope name member rest hanchor h ih =>
    obtain ⟨hne, hrest⟩ := hanchor.closed_rest hs
    have := ih hrest
    simp only [(hanchor.append hne _).moveAnchors, hanchor.moveAnchors, List.count_append] at this ⊢
    omega

/-! ## The parenthesis -/

/-- The closing parenthesis of a link ends all that the rules consume, whatever follows it, exactly
if no anchor is left open there. -/
theorem moveLinks_closing (a : List Char) :
    (∀ b, moveLinks (a ++ ')' :: b) = moveLinks (a ++ [')']) ++ moveLinks b) ↔
      ¬LeavesOpen (movePages (a ++ [')'])) := by
  have hpages (b : List Char) :
      movePages (a ++ ')' :: b) = movePages (a ++ [')']) ++ movePages b := by
    rw [movePages_append_cons (Or.inr rfl), movePages_append_cons (Or.inr rfl), movePages_nil,
      List.append_cons]
  have hclosed : Closed (movePages (a ++ [')'])) :=
    ⟨movePages a, by rw [movePages_append_cons (Or.inr rfl), movePages_nil]⟩
  have hlinks : ∀ b, moveLinks (a ++ ')' :: b) =
      moveCommandLine (moveAnchors (movePages (a ++ [')']) ++ movePages b)) :=
    fun b => by rw [moveLinks, hpages]
  have hlinks' :
      moveLinks (a ++ [')']) = moveCommandLine (moveAnchors (movePages (a ++ [')']))) := rfl
  rw [hlinks']
  generalize movePages (a ++ [')']) = s at hlinks hclosed
  constructor
  · intro h hopen
    refine hopen.count_moveAnchors hclosed ?_
    have hdashed : ¬docs <:+: dashed := by decide
    have hkept : movePages dashed = dashed := movePages_of_not_infix hdashed
    have hcount := congrArg (List.count '-') (h dashed)
    rwa [hlinks, hkept, moveLinks_of_not_infix hdashed, count_moveCommandLine, List.count_append,
      count_moveCommandLine, ← List.count_append] at hcount
  · intro hopen b
    obtain ⟨y, hy⟩ := closed_moveAnchors hclosed
    have hcommand := moveCommandLine_append_cons (c := ')') (by decide) y
    calc moveLinks (a ++ ')' :: b)
        = moveCommandLine (moveAnchors s ++ moveAnchors (movePages b)) := by
          rw [hlinks, moveAnchors_append hclosed hopen]
      _ = moveCommandLine y ++ ')' :: moveCommandLine (moveAnchors (movePages b)) := by
          rw [hy, ← List.append_cons, hcommand]
      _ = moveCommandLine (moveAnchors s) ++ moveLinks b := by
          rw [hy, hcommand, moveCommandLine_nil, ← List.append_cons, moveLinks]

/-- The name of an open anchor takes two words of the prose behind the parenthesis. -/
theorem moveLinks_closing_openAnchor :
    let link := "[x](/docs/modules#foo".toList
    let prose := " and some-thing-else".toList
    moveLinks (link ++ ')' :: prose) = "[x](/docs/kit/reference/foo) and some-thing#else".toList ∧
      moveLinks (link ++ ')' :: prose) ≠ moveLinks (link ++ [')']) ++ moveLinks prose := by
  decide +kernel

end ReferencePages.SiteLink
