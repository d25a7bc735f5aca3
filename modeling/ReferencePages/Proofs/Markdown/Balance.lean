import Mathlib.Data.List.Infix
import ReferencePages.Proofs.Markdown.Reading

/-!
# Blocks of a page

Every block that a page opens is closed behind what stands in it (`isBalanced_render`), if no text
of the symbols opens or closes one. The number of blocks that are open is the state of a reader
(`openBlocks`): a text leads from one number to another if it never closes more blocks than are open
and leaves as many as it should (`KeepsBlocks`). No tag reaches over the end of a line, so tags are
counted line by line.
-/

namespace ReferencePages

/-! ## Counting a text in another one -/

section

variable {p s t : List Char} {d : Char}

/-- How often a text stands in another one. -/
def occurrences (p s : List Char) : Nat := s.tails.countP p.isPrefixOf

theorem occurrences_cons (p s : List Char) (c : Char) :
    occurrences p (c :: s) = occurrences p s + if p <+: c :: s then 1 else 0 := by
  simp only [occurrences, List.tails_cons, List.countP_cons, List.isPrefixOf_iff_prefix]

theorem occurrences_eq_zero_iff : occurrences p s = 0 ↔ ¬p <:+: s := by
  simp only [occurrences, List.countP_eq_zero, List.mem_tails, List.isPrefixOf_iff_prefix,
    List.infix_iff_prefix_suffix, not_exists, not_and']

/-- A character that a text does not hold ends what counts for it. -/
theorem occurrences_append_cons (hp : p ≠ []) (hd : d ∉ p) :
    occurrences p (s ++ d :: t) = occurrences p s + occurrences p t := by
  induction s with
  | nil =>
    have hstart : ¬p <+: d :: t := by
      rintro ⟨r, hr⟩
      obtain ⟨c, p, rfl⟩ := List.exists_cons_of_ne_nil hp
      exact hd ((List.cons.inj hr).1 ▸ List.mem_cons_self)
    have hnil : occurrences p [] = 0 := occurrences_eq_zero_iff.2 fun h => hp (List.infix_nil.1 h)
    rw [List.nil_append, occurrences_cons, if_neg hstart, hnil, Nat.zero_add, Nat.add_zero]
  | cons c s ih =>
    have hstart : p <+: c :: (s ++ d :: t) ↔ p <+: c :: s := by
      constructor
      · rintro ⟨r, hr⟩
        obtain ⟨r', hr', -⟩ := exists_of_append_eq_append_cons (a := c :: s) hr hd
        exact ⟨r', hr'.symm⟩
      · exact fun h => h.trans (List.prefix_append (c :: s) (d :: t))
    rw [List.cons_append, occurrences_cons, occurrences_cons, ih]
    simp only [hstart]
    omega

end

namespace Renderer

/-! ## Open blocks -/

/-- What opens a block. -/
def blockStart : List Char := "<div".toList

/-- What closes a block. -/
def blockEnd : List Char := closingTag.toList

/-- Every block of a text is closed, and none before it is opened. -/
structure IsBalanced (s : List Char) : Prop where
  closes (p : List Char) (h : p <+: s) : occurrences blockEnd p ≤ occurrences blockStart p
  closed : occurrences blockStart s = occurrences blockEnd s

/-- Behind `a` open blocks, a text closes none that is not open, and leaves `b` open. -/
structure KeepsBlocks (a b : Nat) (s : List Char) : Prop where
  closes (p : List Char) (h : p <+: s) : occurrences blockEnd p ≤ a + occurrences blockStart p
  leaves : a + occurrences blockStart s = b + occurrences blockEnd s

namespace KeepsBlocks

variable {a b c : Nat} {s t : List Char}

theorem isBalanced (h : KeepsBlocks 0 0 s) : IsBalanced s where
  closes p hp := by simpa using h.closes p hp
  closed := by simpa using h.leaves

theorem line (hs : KeepsBlocks a b s) (ht : KeepsBlocks b c t) :
    KeepsBlocks a c (s ++ '\n' :: t) := by
  have hstart (t : List Char) : occurrences blockStart (s ++ '\n' :: t) =
      occurrences blockStart s + occurrences blockStart t :=
    occurrences_append_cons (by decide) (by decide)
  have hend (t : List Char) : occurrences blockEnd (s ++ '\n' :: t) =
      occurrences blockEnd s + occurrences blockEnd t :=
    occurrences_append_cons (by decide) (by decide)
  have hleaves := hs.leaves
  refine ⟨fun p hp => ?_, ?_⟩
  · rcases List.prefix_or_prefix_of_prefix hp (List.prefix_append s ('\n' :: t)) with h | ⟨q, rfl⟩
    · exact hs.closes p h
    · rcases List.prefix_cons_iff.1 ((List.prefix_append_right_inj s).1 hp) with rfl | ⟨q, rfl, hq⟩
      · rw [List.append_nil]
        exact hs.closes s (List.prefix_refl s)
      · rw [hstart, hend]
        have hcloses := ht.closes q hq
        omega
  · rw [hstart, hend]
    have hleaves' := ht.leaves
    omega

/-- A text that closes no block closes none too many. -/
theorem closes_of_not_infix (hend : ¬blockEnd <:+: s) (a : Nat) (p : List Char) (hp : p <+: s) :
    occurrences blockEnd p ≤ a + occurrences blockStart p := by
  rw [occurrences_eq_zero_iff.2 fun h => hend (h.trans hp.isInfix)]
  exact Nat.zero_le _

/-- A text without tags changes nothing. -/
theorem plain (hstart : ¬blockStart <:+: s) (hend : ¬blockEnd <:+: s) (a : Nat) :
    KeepsBlocks a a s where
  closes := closes_of_not_infix hend a
  leaves := by rw [occurrences_eq_zero_iff.2 hstart, occurrences_eq_zero_iff.2 hend]

theorem opening (hstart : occurrences blockStart s = 1) (hend : ¬blockEnd <:+: s) (a : Nat) :
    KeepsBlocks a (a + 1) s where
  closes := closes_of_not_infix hend a
  leaves := by rw [hstart, occurrences_eq_zero_iff.2 hend]

theorem closing (a : Nat) : KeepsBlocks (a + 1) a blockEnd where
  closes p hp := by
    have hone : ∀ p ∈ blockEnd.inits, occurrences blockEnd p ≤ 1 := by decide
    have := hone p ((List.mem_inits p blockEnd).2 hp)
    omega
  leaves := by
    have hstart : occurrences blockStart blockEnd = 0 := by decide
    have hend : occurrences blockEnd blockEnd = 1 := by decide
    omega

end KeepsBlocks

/-- A text neither opens nor closes a block. -/
def IsFreeOfBlocks (s : List Char) : Prop := ¬blockStart <:+: s ∧ ¬"</div".toList <:+: s

instance (s : List Char) : Decidable (IsFreeOfBlocks s) :=
  inferInstanceAs (Decidable (_ ∧ _))

theorem isFreeOfBlocks_iff {s : List Char} :
    IsFreeOfBlocks s ↔ ∀ p ∈ [blockStart, "</div".toList], ¬p <:+: s := by
  rw [List.forall_mem_cons, List.forall_mem_singleton]
  exact Iff.rfl

theorem IsFreeOfBlocks.keepsBlocks {s : List Char} (h : IsFreeOfBlocks s) (a : Nat) :
    KeepsBlocks a a s :=
  .plain h.1 (fun hin => h.2 ((List.prefix_append "</div".toList ['>']).isInfix.trans hin)) a

/-- The reader that counts the blocks that are open. -/
def openBlocks : LineReader {} Nat where
  marks := [blockStart, "</div".toList]
  Leads := KeepsBlocks
  enter a := a + 1
  take a _ := a
  take_enter _ _ := rfl
  line := .line
  plain hs := (isFreeOfBlocks_iff.2 hs).keepsBlocks
  opening a tag h := by
    have htags : ∀ tag ∈ openingTags, occurrences blockStart tag.toList = 1 ∧
        ¬blockEnd <:+: tag.toList := by decide
    exact .opening (htags tag h).1 (htags tag h).2 a
  closing := .closing
  fenced := by
    intro code hcode a lang hlang
    have hfence : IsFreeOfBlocks ("```" ++ lang).toList := by
      rcases hlang with rfl | rfl <;> decide
    have hclosing : IsFreeOfBlocks "```".toList := by decide
    rw [toList_fence]
    exact (hfence.keepsBlocks a).line
      (.line ((isFreeOfBlocks_iff.2 hcode).keepsBlocks a) (hclosing.keepsBlocks a))
  apart_fixed := by decide

/-- Snippets open and close no block. -/
theorem behind_openBlocks (a : Nat) (ss : List Symbol) : openBlocks.behind a ss = a := by
  induction ss with
  | nil => rfl
  | cons s ss ih => exact ih

theorem isBalanced_of_leads {ss : List Symbol} {s : List Char}
    (h : openBlocks.Leads 0 (openBlocks.behind 0 ss) s) : IsBalanced s := by
  rw [behind_openBlocks] at h
  exact KeepsBlocks.isBalanced h

/-- All blocks of a page are closed, each behind what stands in it. -/
theorem isBalanced_render :
    (∀ s : Symbol, (∀ t ∈ s.texts, IsFreeOfBlocks t.toList) →
      IsBalanced (renderType {} s).toList ∧ IsBalanced (renderExpanded {} s).toList) ∧
    ∀ m : DocModule, (∀ t ∈ m.texts, IsFreeOfBlocks t.toList) →
      IsBalanced (renderModule {} m).toList := by
  refine ⟨fun s hs => ?_, fun m hm => ?_⟩
  · have hunmarked : openBlocks.UnmarkedTexts s := fun t ht => isFreeOfBlocks_iff.1 (hs t ht)
    exact ⟨isBalanced_of_leads (openBlocks.leads_renderType hunmarked 0),
      isBalanced_of_leads (openBlocks.leads_renderExpanded hunmarked 0)⟩
  · have hunmarked (t : String) (ht : t ∈ m.texts) : openBlocks.Unmarked t.toList :=
      isFreeOfBlocks_iff.1 (hm t ht)
    exact isBalanced_of_leads (openBlocks.leads_renderModule hunmarked 0)

/-- A type with members two levels deep, among whose texts are broken tags. -/
def filesType : Symbol where
  name := "KitConfig"
  comment := "Ends in <di"
  snippet := "interface KitConfig \x7b/*…*/\x7d"
  deprecated := some "v class"
  bullets := ["- `x` </di", "v>"]
  children := [{
    name := "files"
    comment := "< div> < /div>"
    snippet := "files?: \x7b/*…*/\x7d;"
    children := [{ name := "assets", snippet := "assets?: '<di';", bullets := ["- v>"] }] }]

/-- The blocks of the type are closed, and so are those of its other pages. -/
theorem isBalanced_render_files :
    (∀ t ∈ filesType.texts, IsFreeOfBlocks t.toList) ∧
      IsBalanced (renderType {} filesType).toList ∧
      IsBalanced (renderExpanded {} filesType).toList ∧
      IsBalanced (renderModule {} { name := "kit", types := [filesType] }).toList := by
  have htexts : ∀ t ∈ filesType.texts, IsFreeOfBlocks t.toList := by decide +kernel
  obtain ⟨htype, hexpanded⟩ := isBalanced_render.1 filesType htexts
  exact ⟨htexts, htype, hexpanded,
    isBalanced_render.2 { name := "kit", types := [filesType] } (by decide +kernel)⟩

end Renderer

end ReferencePages
