import ReferencePages.Proofs.Extraction.Exports

/-!
# Collapsed bodies

The body of an exported class or interface is found by its braces. What collapsing leaves of the
declaration is told exactly by `collapse?_of_endsPart`: its head up to the opening brace, with what
of the gap before the first member ends in such a brace; the mark of a collapsed body; and the
closing brace, with what of the gap behind the last member begins with such a brace.

So where no opening brace stands in the first gap, collapsing removes the whole body and nothing
else exactly if no closing brace stands in the last gap (`collapse?_export_iff`). A comment behind
the last member that holds one is left over (`collapse?_export_closingComment`).
-/

namespace ReferencePages

open TypeScript

variable {source : List Char}

/-! ## Texts cut at a character -/

theorem takeWhile_append_cons (c : Char) (a b : List Char) :
    (a ++ c :: b).takeWhile (· != c) = a.takeWhile (· != c) := by
  induction a with
  | nil => simp
  | cons d a ih =>
    rw [List.cons_append, List.takeWhile_cons, List.takeWhile_cons, ih]

theorem throughLast?_getD (c : Char) (b : List Char) : (throughLast? c b).getD [] =
    b.take (b.length - (b.reverse.takeWhile (· != c)).length) := by
  unfold throughLast?
  dsimp only
  split
  · next hall => rw [hall, Nat.sub_self, List.take_zero, Option.getD_none]
  · rw [Option.getD_some]

/-- The last of a character stands where it last stands in what follows an earlier one, if it
stands there at all. -/
theorem throughLast?_append_cons (c : Char) (a b : List Char) :
    throughLast? c (a ++ c :: b) = some (a ++ c :: (throughLast? c b).getD []) := by
  have hreverse : (a ++ c :: b).reverse = b.reverse ++ c :: a.reverse := by simp
  have hle := (List.takeWhile_prefix (l := b.reverse) (· != c)).length_le
  rw [throughLast?_getD, throughLast?, hreverse, takeWhile_append_cons]
  generalize (b.reverse.takeWhile (· != c)).length = behind at hle ⊢
  rw [List.length_reverse] at hle
  have hlength : (a ++ c :: b).length - behind = a.length + (b.length - behind + 1) := by
    rw [List.length_append, List.length_cons]
    omega
  rw [if_neg (by rw [List.length_append, List.length_cons]; omega), hlength,
    List.take_length_add_append, List.take_succ_cons]

theorem throughLast?_getD_eq_nil_iff {c : Char} {b : List Char} :
    (throughLast? c b).getD [] = [] ↔ c ∉ b := by
  have hself : b.reverse.takeWhile (· != c) = b.reverse ↔ c ∉ b := by
    rw [List.takeWhile_eq_self_iff]
    simp only [List.mem_reverse, bne_iff_ne, ne_eq]
    exact ⟨fun h hc => h c hc rfl, fun h d hd hdc => h (hdc ▸ hd)⟩
  have hle := (List.takeWhile_prefix (l := b.reverse) (· != c)).length_le
  rw [throughLast?_getD, List.take_eq_nil_iff, ← hself, Nat.sub_eq_zero_iff_le,
    ← List.length_reverse]
  constructor
  · rintro (h | rfl)
    · exact (List.takeWhile_prefix _).eq_of_length (le_antisymm hle h)
    · rfl
  · intro h
    exact Or.inl (by rw [h])

theorem fromFirst?_append_cons (c : Char) (a b : List Char) :
    fromFirst? c (a ++ c :: b) = some (a.dropWhile (· != c) ++ c :: b) := by
  have hdrop : (a ++ c :: b).dropWhile (· != c) = a.dropWhile (· != c) ++ c :: b := by
    induction a with
    | nil => simp
    | cons d a ih =>
      rw [List.cons_append, List.dropWhile_cons, List.dropWhile_cons, ih]
      split <;> rfl
  rw [fromFirst?, hdrop]
  simp

/-! ## Spans -/

theorem slice_append_slice {lo mid hi : Nat} (hlo : lo ≤ mid) (hhi : mid ≤ hi) :
    Span.slice ⟨lo, mid⟩ source ++ Span.slice ⟨mid, hi⟩ source = Span.slice ⟨lo, hi⟩ source := by
  have hdrop : source.drop mid = (source.drop lo).drop (mid - lo) := by
    rw [List.drop_drop, Nat.add_sub_cancel' hlo]
  change (source.drop lo).take (mid - lo) ++ (source.drop mid).take (hi - mid) =
    (source.drop lo).take (hi - lo)
  rw [hdrop, ← List.take_add, show mid - lo + (hi - mid) = hi - lo by omega]

theorem slice_succ {c : Char} {lo : Nat} (h : [c] <+: source.drop lo) :
    Span.slice ⟨lo, lo + 1⟩ source = [c] := by
  obtain ⟨rest, hrest⟩ := h
  exact slice_of_drop_eq hrest.symm

/-! ## Members of a body -/

theorem foldl_min_le (comments : List Comment) (start : Nat) :
    comments.foldl (fun start c => min start c.lo) start ≤ start := by
  induction comments generalizing start with
  | nil => exact le_rfl
  | cons c comments ih => exact (ih _).trans (min_le_left _ _)

theorem le_foldl_min {comments : List Comment} {lo start : Nat} (hstart : lo ≤ start)
    (h : ∀ c ∈ comments, lo ≤ c.lo) :
    lo ≤ comments.foldl (fun start c => min start c.lo) start := by
  induction comments generalizing start with
  | nil => exact hstart
  | cons c comments ih =>
    exact ih (le_min hstart (h c List.mem_cons_self)) fun d hd => h d (List.mem_cons_of_mem c hd)

/-- A gap is left behind the last of the parts that fill a span. -/
theorem Fill.gap_behind {hi : Nat} {last : Site} : ∀ {lo : Nat} {first : Site} {rest : List Site},
    Fill source lo (first :: rest) hi → (first :: rest).getLast? = some last →
    first.span.hi ≤ last.span.hi ∧ IsGapOf source last.span.hi hi
  | _, _, [], ⟨_, _, _, hend⟩, hlast => by
    obtain rfl := Option.some.inj hlast
    exact ⟨le_rfl, hend⟩
  | _, _, _ :: _, ⟨_, _, _, hrest⟩, hlast => by
    rw [List.getLast?_cons_cons] at hlast
    obtain ⟨hle, hend⟩ := Fill.gap_behind hrest hlast
    exact ⟨(hrest.1.le.trans hrest.2.2.1).trans hle, hend⟩

theorem clamp_eq_self {lo hi n : Nat} (hlo : lo ≤ n) (hhi : n ≤ hi) : clamp lo hi n = n := by
  rw [clamp, max_eq_right hlo, min_eq_right hhi]

/-! ## What collapsing leaves -/

variable {members : List Site} {part body : Span} {first last : Site}

/-- What collapsing leaves of a part of the source that a body ends. -/
theorem collapse?_of_endsPart (h : EndsPart source members part body)
    (hfirst : members.head? = some first) (hlast : members.getLast? = some last) :
    collapse? source part members = some (Span.slice ⟨part.lo, body.lo + 1⟩ source ++
      (throughLast? '\x7b' (Span.slice ⟨body.lo + 1, first.fullStart⟩ source)).getD [] ++
      collapsedBody ++
      (Span.slice ⟨last.span.hi, body.hi - 1⟩ source).dropWhile (· != '\x7d') ++ ['\x7d']) := by
  obtain ⟨rest, rfl⟩ := List.head?_eq_some_iff.1 hfirst
  obtain ⟨hgap, hcomments, hle, -⟩ := h.fill
  obtain ⟨hlasts, hend⟩ := Fill.gap_behind h.fill hlast
  have hstart : body.lo + 1 ≤ first.fullStart := le_foldl_min hgap.le hcomments
  have hfull : first.fullStart ≤ first.span.lo := foldl_min_le _ _
  have hpos := h.hi_pos
  have hendle := hend.le
  have hlo := h.lo_le
  have hhi := h.hi_eq
  have hopen : Span.slice ⟨part.lo, first.fullStart⟩ source =
      Span.slice ⟨part.lo, body.lo⟩ source ++
        '\x7b' :: Span.slice ⟨body.lo + 1, first.fullStart⟩ source := by
    rw [← slice_append_slice hlo (by omega), ← slice_append_slice (Nat.le_succ body.lo) hstart,
      slice_succ h.opening, List.singleton_append]
  have hclose : Span.slice ⟨last.span.hi, part.hi⟩ source =
      Span.slice ⟨last.span.hi, body.hi - 1⟩ source ++ ['\x7d'] := by
    rw [← slice_succ h.closing, slice_append_slice hendle (Nat.le_add_right _ 1),
      Nat.sub_add_cancel hpos, hhi]
  unfold collapse?
  rw [hfirst, hlast]
  dsimp only
  rw [clamp_eq_self (n := first.fullStart) (by omega) (by omega),
    clamp_eq_self (n := last.span.hi) (by omega) (by omega), hopen, hclose,
    throughLast?_append_cons, fromFirst?_append_cons,
    ← slice_append_slice hlo (Nat.le_add_right _ 1), slice_succ h.opening]
  simp

/-- Where no brace opens in the gap before the first member, collapsing leaves the head, the mark
and the closing brace, exactly if no brace closes in the gap behind the last member. -/
theorem collapse?_eq_some_iff (h : EndsPart source members part body)
    (hfirst : members.head? = some first) (hlast : members.getLast? = some last)
    (hbrace : '\x7b' ∉ Span.slice ⟨body.lo + 1, first.span.lo⟩ source) :
    collapse? source part members = some (Span.slice ⟨part.lo, body.lo + 1⟩ source ++
      collapsedBody ++ Span.slice ⟨body.hi - 1, part.hi⟩ source) ↔
      '\x7d' ∉ Span.slice ⟨last.span.hi, body.hi - 1⟩ source := by
  have hend : Span.slice ⟨body.hi - 1, part.hi⟩ source = ['\x7d'] := by
    rw [← h.hi_eq, ← slice_succ h.closing, Nat.sub_add_cancel h.hi_pos]
  have hstart : '\x7b' ∉ Span.slice ⟨body.lo + 1, first.fullStart⟩ source := fun hmem => hbrace <|
    ((List.take_prefix_take_left (Nat.sub_le_sub_right (foldl_min_le _ _) _)).subset hmem)
  rw [collapse?_of_endsPart h hfirst hlast, throughLast?_getD_eq_nil_iff.2 hstart, hend,
    List.append_nil, Option.some_inj, List.append_cancel_right_eq, List.append_right_eq_self,
    List.dropWhile_eq_nil_iff]
  simp only [bne_iff_ne, ne_eq]
  exact ⟨fun hall hmem => hall _ hmem rfl, fun hnot c hc heq => hnot (heq ▸ hc)⟩

/-! ## Sources -/

/-- Where the exported ones of some items stand, with their members. -/
def exportedSites (items : List Item) : List (Site × List Site) :=
  items.filterMap fun
    | .exported site declaration => some (site, declaration.memberSites)
    | _ => none

theorem exists_export_of_exportedSites {language : Language} {text : List Char} {site : Site}
    {members : List Site} (h : (Source.parse? language text).map (exportedSites ·.items) =
      some [(site, members)]) :
    ∃ src declaration, Source.parse? language text = some src ∧
      Exports src.items site declaration ∧ declaration.memberSites = members := by
  obtain ⟨src, hparse, hsites⟩ := Option.map_eq_some_iff.1 h
  have hmem : (site, members) ∈ exportedSites src.items := hsites ▸ List.mem_singleton_self _
  obtain ⟨item, hitem, hsite⟩ := List.mem_filterMap.1 hmem
  split at hsite
  · next site' declaration =>
    obtain ⟨rfl, hmembers⟩ := Prod.mk.inj (Option.some.inj hsite)
    exact ⟨src, declaration, hparse, .item hitem, hmembers⟩
  · cases hsite

/-- Wherever in a source a class or an interface with members is exported, its members fill a body
that ends the declaration. Whichever body that is, where no brace opens in the gap before the first
member, collapsing leaves the declaration up to the opening brace, the mark of a collapsed body, and
the declaration from the closing brace on, exactly if no brace closes in the gap behind the last
member. -/
theorem collapse?_export_iff {language : Language} {text : List Char} {src : Source} {site : Site}
    {declaration : Declaration} (hparse : Source.parse? language text = some src)
    (hexports : Exports src.items site declaration)
    (hfirst : declaration.memberSites.head? = some first)
    (hlast : declaration.memberSites.getLast? = some last) :
    (∃ body, EndsPart text declaration.memberSites (exportedSpan site) body) ∧
    ∀ body, EndsPart text declaration.memberSites (exportedSpan site) body →
      '\x7b' ∉ Span.slice ⟨body.lo + 1, first.span.lo⟩ text →
      (collapse? text (exportedSpan site) declaration.memberSites =
          some (Span.slice ⟨(exportedSpan site).lo, body.lo + 1⟩ text ++ collapsedBody ++
            Span.slice ⟨body.hi - 1, (exportedSpan site).hi⟩ text) ↔
        '\x7d' ∉ Span.slice ⟨last.span.hi, body.hi - 1⟩ text) := by
  refine ⟨haveBodies_of_parse? hparse site declaration hexports ?_, fun body h hbrace =>
    collapse?_eq_some_iff h hfirst hlast hbrace⟩
  exact List.ne_nil_of_mem (List.mem_of_mem_head? hfirst)

/-- Braces in the head of a declaration are no braces of its body, and a comment behind the last
member goes with the body. -/
theorem collapse?_export_bracedHead :
    let text := "export interface A<T = \x7b\x7d> \x7b\n\ta: T; // last\n\x7d\n".toList
    ∃ src site declaration, ∃ first last : Site,
      Source.parse? { isTyped := true, isAmbient := true } text = some src ∧
      Exports src.items site declaration ∧
      declaration.memberSites.head? = some first ∧ declaration.memberSites.getLast? = some last ∧
      collapse? text (exportedSpan site) declaration.memberSites =
        some " interface A<T = \x7b\x7d> \x7b/*…*/\x7d".toList := by
  intro text
  have hsites : (Source.parse? { isTyped := true, isAmbient := true } text).map
      (exportedSites ·.items) = some [(⟨⟨0, 45⟩, []⟩, [⟨⟨30, 35⟩, []⟩])] := by
    decide +kernel
  obtain ⟨src, declaration, hparse, hexports, hmembers⟩ := exists_export_of_exportedSites hsites
  have hfirst : declaration.memberSites.head? = some ⟨⟨30, 35⟩, []⟩ := by rw [hmembers]; rfl
  have hlast : declaration.memberSites.getLast? = some ⟨⟨30, 35⟩, []⟩ := by rw [hmembers]; rfl
  have hbefore : IsTrivia (Span.slice ⟨28, 30⟩ text) := .blank (.inl rfl) (.blank (.inr rfl) .nil)
  have hbehind : IsTrivia (Span.slice ⟨35, 44⟩ text) := .blank (.inr rfl) <|
    .line "//".toList " last".toList (by decide) (forall_mem_of_all (by decide)) rfl
      (.blank (.inl rfl) .nil)
  have hbody : EndsPart text declaration.memberSites (exportedSpan ⟨⟨0, 45⟩, []⟩) ⟨27, 45⟩ := by
    rw [hmembers]
    exact ⟨⟨by decide, by decide, by decide, ⟨by decide, hbefore⟩, nofun, by decide,
      ⟨by decide, hbehind⟩⟩, by decide, rfl⟩
  obtain ⟨-, hcollapse⟩ := collapse?_export_iff hparse hexports hfirst hlast
  refine ⟨src, _, declaration, _, _, hparse, hexports, hfirst, hlast, ?_⟩
  rw [(hcollapse _ hbody (by decide)).2 (by decide)]
  decide

/-- A comment behind the last member that holds a closing brace is left over from there on. -/
theorem collapse?_export_closingComment :
    let text := "export interface A \x7b\n\ta: string;\n\t// see \x7d\n\x7d\n".toList
    ∃ src site declaration,
      Source.parse? { isTyped := true, isAmbient := true } text = some src ∧
      Exports src.items site declaration ∧
      EndsPart text declaration.memberSites (exportedSpan site) ⟨19, 44⟩ ∧
      collapse? text (exportedSpan site) declaration.memberSites =
        some " interface A \x7b/*…*/\x7d\n\x7d".toList ∧
      Span.slice ⟨(exportedSpan site).lo, 20⟩ text ++ collapsedBody ++
        Span.slice ⟨43, (exportedSpan site).hi⟩ text = " interface A \x7b/*…*/\x7d".toList := by
  intro text
  have hsites : (Source.parse? { isTyped := true, isAmbient := true } text).map
      (exportedSites ·.items) = some [(⟨⟨0, 44⟩, []⟩, [⟨⟨22, 32⟩, []⟩])] := by
    decide +kernel
  obtain ⟨src, declaration, hparse, hexports, hmembers⟩ := exists_export_of_exportedSites hsites
  have hbefore : IsTrivia (Span.slice ⟨20, 22⟩ text) := .blank (.inl rfl) (.blank (.inr rfl) .nil)
  have hbehind : IsTrivia (Span.slice ⟨32, 43⟩ text) := .blank (.inl rfl) <| .blank (.inr rfl) <|
    .line "//".toList " see \x7d".toList (by decide) (forall_mem_of_all (by decide)) rfl
      (.blank (.inl rfl) .nil)
  refine ⟨src, _, declaration, hparse, hexports, ?_, ?_, by decide⟩
  · rw [hmembers]
    exact ⟨⟨by decide, by decide, by decide, ⟨by decide, hbefore⟩, nofun, by decide,
      ⟨by decide, hbehind⟩⟩, by decide, rfl⟩
  · rw [hmembers]
    decide

end ReferencePages
