import ReferencePages.Proofs.SiteLink.Basic

/-!
# Texts that the first rule leaves alone

The characters that end pages cut a text into parts, and the first rule works on each part by itself
(`movePages_append_cons_eq_iff`). A part that holds the way to the reference section is left alone,
whatever stands around it there, since the first link in it goes on to the end of the part
(`movePages_reference_of_whole`). So the rule is idempotent (`movePages_movePages`), and what the
other rules put in does not give it anything to do (`movePages_reference`).
-/

namespace ReferencePages.SiteLink

variable {a b l s t v w x way page rest : List Char} {c : Char}

/-! ## Parts -/

/-- A text in which no page ends. -/
def Whole (s : List Char) : Prop := ∀ c ∈ s, ¬EndsPage c

theorem Whole.append (hs : Whole s) (ht : Whole t) : Whole (s ++ t) := fun c hc =>
  (List.mem_append.1 hc).elim (hs c) (ht c)

theorem notMem_of_whole (hs : Whole s) (hc : EndsPage c) : c ∉ s := fun hmem => hs c hmem hc

theorem whole_iff : Whole s ↔ '#' ∉ s ∧ ')' ∉ s := by
  refine ⟨fun h => ⟨notMem_of_whole h (Or.inl rfl), notMem_of_whole h (Or.inr rfl)⟩, ?_⟩
  rintro ⟨hsharp, hclosing⟩ c hc (rfl | rfl)
  · exact hsharp hc
  · exact hclosing hc

instance (s : List Char) : Decidable (Whole s) := decidable_of_iff _ whole_iff.symm

theorem whole_reference : Whole reference := by decide

/-- A text is one part, or a part, a character that ends pages, and more parts. -/
theorem partsInduction {motive : List Char → Prop} (whole : ∀ s, Whole s → motive s)
    (cons : ∀ a c b, Whole a → EndsPage c → motive b → motive (a ++ c :: b)) (s : List Char) :
    motive s := by
  classical
  induction hn : s.length using Nat.strong_induction_on generalizing s with
  | _ k ih =>
    subst hn
    by_cases hs : Whole s
    · exact whole s hs
    · simp only [Whole, not_forall, not_not] at hs
      obtain ⟨c, b, hsplit, hc⟩ :
          ∃ c b, s.dropWhile (fun c => ¬EndsPage c) = c :: b ∧ EndsPage c := by
        rcases hdrop : s.dropWhile (fun c => ¬EndsPage c) with _ | ⟨c, b⟩
        · obtain ⟨c, hc, hends⟩ := hs
          have := List.dropWhile_eq_nil_iff.1 hdrop c hc
          simp [hends] at this
        · have := List.head?_dropWhile_not (fun c => ¬EndsPage c) s
          rw [hdrop] at this
          exact ⟨c, b, rfl, by simpa using this⟩
      have hs' := List.takeWhile_append_dropWhile (p := fun c => ¬EndsPage c) (l := s)
      rw [hsplit] at hs'
      rw [← hs']
      refine cons _ c b (fun d hd => ?_) hc (ih _ ?_ b rfl)
      · simpa using List.mem_takeWhile_imp hd
      · rw [← hs', List.length_append, List.length_cons]
        omega

/-- The search for links passes the characters where none begins, and goes on behind each page. -/
theorem pageInduction {motive : List Char → Prop} (nil : motive [])
    (char : ∀ c s, (∀ way page rest, ¬IsPageLink (c :: s) way page rest) → motive s →
      motive (c :: s))
    (link : ∀ s way page rest, IsPageLink s way page rest → motive rest → motive s)
    (s : List Char) : motive s := by
  induction hn : s.length using Nat.strong_induction_on generalizing s with
  | _ k ih =>
    subst hn
    rcases s with _ | ⟨c, s⟩
    · exact nil
    · by_cases h : ∃ way page rest, IsPageLink (c :: s) way page rest
      · obtain ⟨way, page, rest, hlink⟩ := h
        refine link _ way page rest hlink (ih _ ?_ rest rfl)
        have hpos := List.length_pos_iff.2 hlink.page_ne_nil
        rw [hlink.eq, List.length_append, List.length_append]
        omega
      · exact char c s (fun way page rest hlink => h ⟨way, page, rest, hlink⟩)
          (ih _ (by simp) s rfl)

theorem count_pageTarget (h : IsPageLink s way page rest) (hc : EndsPage c) :
    (pageTarget way page).count c = 0 := by
  have hmem := h.notMem hc
  unfold pageTarget
  split
  · rw [List.count_eq_zero, List.mem_append, not_or]
    exact ⟨notMem_of_whole whole_reference hc, fun hpage => hmem (List.mem_append_right way hpage)⟩
  · exact List.count_eq_zero.2 hmem

/-- The first rule neither takes nor adds a character that ends pages. -/
theorem count_movePages (hc : EndsPage c) (s : List Char) : (movePages s).count c = s.count c := by
  induction s using pageInduction with
  | nil => rw [movePages_nil]
  | char d s h ih => rw [movePages_cons h, List.count_cons, List.count_cons, ih]
  | link s way page rest hlink ih =>
    calc (movePages s).count c
        = rest.count c := by
          rw [hlink.movePages, List.count_append, count_pageTarget hlink hc, ih, Nat.zero_add]
      _ = s.count c := by
          rw [hlink.eq, List.count_append, List.count_eq_zero.2 (hlink.notMem hc), Nat.zero_add]

theorem whole_movePages (h : Whole s) : Whole (movePages s) := fun c hc hends => by
  have hcount := count_movePages hends s
  rw [List.count_eq_zero.2 (notMem_of_whole h hends)] at hcount
  exact List.count_eq_zero.1 hcount hc

/-- The first rule leaves a text alone if it leaves the parts alone. -/
theorem movePages_append_cons_eq_iff (hc : EndsPage c) :
    movePages (a ++ c :: b) = a ++ c :: b ↔ movePages a = a ∧ movePages b = b := by
  have hcount := count_movePages hc a
  rw [movePages_append_cons hc]
  refine ⟨fun h => ?_, fun ⟨ha, hb⟩ => by rw [ha, hb]⟩
  rcases List.append_eq_append_iff.1 h with ⟨r, ha, hb⟩ | ⟨r, ha, hb⟩
  · cases r with
    | nil => exact ⟨by simpa using ha.symm, (List.cons.inj hb).2⟩
    | cons d r =>
      obtain ⟨rfl, -⟩ := List.cons.inj hb
      have hlt : (movePages a ++ c :: r).count c = a.count c := by rw [← ha]
      rw [List.count_append, List.count_cons_self] at hlt
      omega
  · cases r with
    | nil => exact ⟨by simpa using ha, (List.cons.inj hb).2.symm⟩
    | cons d r =>
      obtain ⟨rfl, -⟩ := List.cons.inj hb
      rw [ha, List.count_append, List.count_cons_self] at hcount
      omega

/-! ## The reference section -/

theorem notMem_of_mem_referencePages : ∀ page ∈ referencePages, '/' ∉ page := by
  decide +kernel

/-- A page below another one is none of the pages that have moved. -/
theorem pageTarget_of_mem (h : '/' ∈ page) : pageTarget way page = way ++ page := by
  refine if_neg fun hlisted => ?_
  exact notMem_of_mem_referencePages page (List.elem_iff.1 hlisted) h

/-- A link that is found before the reference section is one to a page below it. -/
theorem mem_page_of_reference (hway : way = docs ∨ way = host ++ docs)
    (h : way ++ page = l ++ (reference ++ x)) : '/' ∈ page := by
  have hnot : ¬reference <:+: way := by
    rcases hway with rfl | rfl <;> decide +kernel
  have hslash : reference = reference.dropLast ++ ['/'] := by decide
  rcases List.append_eq_append_iff.1 h with ⟨r, -, rfl⟩ | ⟨r, rfl, hr⟩
  · rw [hslash]
    simp
  · rcases List.append_eq_append_iff.1 hr with ⟨r', rfl, -⟩ | ⟨r', hr', rfl⟩
    · exact absurd (List.infix_append' l reference r') hnot
    · rcases List.eq_nil_or_concat r' with rfl | ⟨r', d, rfl⟩
      · rw [List.append_nil] at hr'
        exact absurd ⟨l, [], by rw [hr', List.append_nil]⟩ hnot
      · -- The last character of the reference section is behind the way.
        rw [List.concat_eq_append] at hr' ⊢
        have hsplit := hslash.symm.trans (hr'.trans (List.append_assoc _ _ _).symm)
        obtain ⟨-, hd⟩ := List.append_inj' hsplit rfl
        rw [← hd]
        simp

theorem IsPageLink.rest_eq_nil (h : IsPageLink s way page rest) (hs : Whole s) : rest = [] := by
  cases rest with
  | nil => rfl
  | cons c rest =>
    have hmem : c ∈ s := by
      rw [h.eq]
      exact List.mem_append_right _ List.mem_cons_self
    exact absurd (h.rest c rfl) (hs c hmem)

theorem IsPageLink.movePages_of_reference (h : IsPageLink (l ++ (reference ++ x)) way page rest)
    (hl : Whole l) (hx : Whole x) :
    SiteLink.movePages (l ++ (reference ++ x)) = l ++ (reference ++ x) := by
  obtain rfl := h.rest_eq_nil (hl.append (whole_reference.append hx))
  have heq := h.eq
  rw [List.append_nil] at heq
  rw [h.movePages, movePages_nil, List.append_nil,
    pageTarget_of_mem (mem_page_of_reference h.way heq.symm), heq]

/-- A part that holds the way to the reference section is left alone. -/
theorem movePages_reference_of_whole (hl : Whole l) (hx : Whole x) :
    movePages (l ++ (reference ++ x)) = l ++ (reference ++ x) := by
  induction l with
  | nil =>
    have hpage : Whole ("kit/reference/".toList ++ x) :=
      fun c hc => (whole_reference.append hx) c (List.mem_append_right docs hc)
    have hlink : IsPageLink ([] ++ (reference ++ x)) docs ("kit/reference/".toList ++ x) [] :=
      ⟨(List.append_nil _).symm, Or.inl rfl, List.cons_ne_nil _ _, hpage, fun _ hc => by cases hc⟩
    exact hlink.movePages_of_reference hl hx
  | cons c l ih =>
    by_cases h : ∃ way page rest, IsPageLink (c :: l ++ (reference ++ x)) way page rest
    · obtain ⟨way, page, rest, hlink⟩ := h
      exact hlink.movePages_of_reference hl hx
    · have hnone : ∀ way page rest, ¬IsPageLink (c :: (l ++ (reference ++ x))) way page rest :=
        fun way page rest hlink => h ⟨way, page, rest, hlink⟩
      rw [List.cons_append, movePages_cons hnone,
        ih fun d hd => hl d (List.mem_cons_of_mem c hd)]

/-- The first rule leaves a part as it is, or puts the way to the reference section into it. -/
theorem movePages_of_whole (h : Whole s) :
    movePages s = s ∨ ∃ l x, movePages s = l ++ (reference ++ x) := by
  induction s using pageInduction with
  | nil => exact Or.inl movePages_nil
  | char c s hnone ih =>
    rw [movePages_cons hnone]
    rcases ih fun d hd => h d (List.mem_cons_of_mem c hd) with ih | ⟨l, x, ih⟩
    · exact Or.inl (by rw [ih])
    · exact Or.inr ⟨c :: l, x, by rw [ih, List.cons_append]⟩
  | link s way page rest hlink ih =>
    obtain rfl := hlink.rest_eq_nil h
    rw [hlink.movePages, movePages_nil, List.append_nil]
    unfold pageTarget
    split
    · exact Or.inr ⟨[], page, rfl⟩
    · exact Or.inl (by rw [hlink.eq, List.append_nil])

theorem movePages_movePages_of_whole (hs : Whole s) : movePages (movePages s) = movePages s := by
  rcases movePages_of_whole hs with h | ⟨l, x, h⟩
  · rw [h, h]
  · have hwhole := whole_movePages hs
    rw [h] at hwhole ⊢
    exact movePages_reference_of_whole (fun c hc => hwhole c (List.mem_append_left _ hc))
      fun c hc => hwhole c (List.mem_append_right l (List.mem_append_right reference hc))

/-- The first rule is idempotent. -/
theorem movePages_movePages (s : List Char) : movePages (movePages s) = movePages s := by
  induction s using partsInduction with
  | whole s hs => exact movePages_movePages_of_whole hs
  | cons a c b ha hc ih =>
    rw [movePages_append_cons hc, movePages_append_cons_eq_iff hc]
    exact ⟨movePages_movePages_of_whole ha, ih⟩

/-! ## Texts that the other rules put in -/

/-- Below a link, the way to the reference section can be put in. -/
theorem movePages_reference (h : movePages (w ++ (docs ++ t)) = w ++ (docs ++ t))
    (hx : ∀ a c b, x = a ++ c :: b → EndsPage c → movePages b = b) :
    movePages (w ++ (reference ++ x)) = w ++ (reference ++ x) := by
  induction w using partsInduction with
  | whole w hw =>
    cases x using partsInduction with
    | whole x hx' => exact movePages_reference_of_whole hw hx'
    | cons a c b ha hc =>
      rw [← List.append_assoc, ← List.append_assoc, movePages_append_cons_eq_iff hc,
        List.append_assoc]
      exact ⟨movePages_reference_of_whole hw ha, hx a c b rfl hc⟩
  | cons a c b ha hc ih =>
    rw [List.append_assoc, List.cons_append, movePages_append_cons_eq_iff hc] at h ⊢
    exact ⟨h.1, ih h.2⟩

theorem docs_infix_way (h : way = docs ∨ way = host ++ docs) : docs <:+: way ∧ '-' ∉ way := by
  rcases h with rfl | rfl
  · exact ⟨List.infix_rfl, by decide⟩
  · exact ⟨(List.suffix_append host docs).isInfix, by decide⟩

/-- A dash keeps apart what stands around it, unless a page goes over it. -/
theorem movePages_append_dash (h : movePages (x ++ '-' :: s) = x ++ '-' :: s)
    (hx : ∀ a y, x = a ++ (docs ++ y) → ∃ c ∈ y, EndsPage c) :
    movePages x = x ∧ movePages s = s := by
  induction x using partsInduction with
  | whole x hwhole =>
    have hdocs : ¬docs <:+: x := by
      rintro ⟨a, y, rfl⟩
      obtain ⟨c, hc, hends⟩ := hx a y (List.append_assoc a docs y)
      exact hwhole c (List.mem_append_right _ hc) hends
    have hkept : movePages x = x := movePages_of_not_infix hdocs
    refine ⟨hkept, ?_⟩
    have hway : ∀ v y n, pageLink v = some (y, n) → ∃ w, w <+: v ∧ '-' ∉ w ∧ docs <:+: w := by
      intro v y n hmatch
      obtain ⟨way, page, rest, hlink, -⟩ := pageLink_eq_some_iff.1 hmatch
      obtain ⟨hway, hdash⟩ := docs_infix_way hlink.way
      exact ⟨way, ⟨page ++ rest, by rw [hlink.eq, List.append_assoc]⟩, hdash, hway⟩
    have hsplit : movePages (x ++ '-' :: s) = x ++ '-' :: movePages s :=
      replaceMatches_append_cons_of_not_infix hway hdocs
    exact (List.cons.inj (List.append_cancel_left (hsplit.symm.trans h))).2
  | cons a c b ha hc ih =>
    rw [List.append_assoc, List.cons_append, movePages_append_cons_eq_iff hc] at h
    obtain ⟨hb, hs⟩ := ih h.2 fun a' y hy => hx (a ++ c :: a') y (by
      rw [hy, List.append_assoc, List.cons_append])
    exact ⟨(movePages_append_cons_eq_iff hc).2 ⟨h.1, hb⟩, hs⟩

end ReferencePages.SiteLink
