import Mathlib.Data.List.Infix
import ReferencePages.DocComment.Tag
import ReferencePages.Proofs.Text.Blank
import ReferencePages.Proofs.Text.Search

/-!
# The name of a parameter

The content of a parameter's tag is an optional type in braces and a rest (`TypedRest`). A rest
without a bracket at its start is a name and what is said of the parameter, with a dash between or
without one. The name should be the first word of the rest, and what stands behind that word,
without a dash before it, should be the documentation.

The rest is cut at its first dash between blanks, wherever that stands. So the name is the first
word exactly if what follows it has no such dash, or begins with one (`ofContent_param_iff`): a dash
within the documentation makes the words before it part of the name.
-/

namespace ReferencePages.Tag

variable {content rest tag type word before tail doc s : List Char} {c : Char} {depth : Nat}

/-! ## The type -/

/-- The braces of a text match. -/
structure BracesMatch (s : List Char) : Prop where
  /-- A closing brace closes an open one. -/
  closes (p : List Char) (h : p <+: s) : p.count '}' ≤ p.count '{'
  /-- None is left open. -/
  closed : s.count '{' = s.count '}'

/-- Behind `depth` open braces a text leaves one of them open, at its end and all along. -/
structure KeepsOpen (depth : Nat) (s : List Char) : Prop where
  stays (p : List Char) (h : p <+: s) : p.count '}' < depth + p.count '{'
  ends : depth + s.count '{' = s.count '}' + 1

theorem bracesMatch_iff : BracesMatch s ↔ KeepsOpen 1 s := by
  constructor
  · rintro ⟨hcloses, hclosed⟩
    exact ⟨fun p hp => by have := hcloses p hp; omega, by omega⟩
  · rintro ⟨hstays, hends⟩
    exact ⟨fun p hp => by have := hstays p hp; omega, by omega⟩

theorem KeepsOpen.pos (h : KeepsOpen depth s) : 0 < depth := by
  simpa using h.stays [] List.nil_prefix

theorem keepsOpen_nil : KeepsOpen depth [] ↔ depth = 1 := by
  refine ⟨fun h => by simpa using h.ends, fun h => ⟨fun p hp => ?_, by simp [h]⟩⟩
  rw [List.prefix_nil.1 hp, h]
  decide

/-- The number of open braces behind a character. -/
def depthAfter (depth : Nat) (c : Char) : Nat :=
  if c = '{' then depth + 1 else if c = '}' then depth - 1 else depth

/-- A character opens as many braces as it adds to those that are open. -/
theorem depthAfter_add_count (hdepth : 0 < depth) (c : Char) (p : List Char) :
    depthAfter depth c + p.count '{' + (c :: p).count '}' =
      depth + (c :: p).count '{' + p.count '}' := by
  rw [depthAfter, List.count_cons, List.count_cons]
  rcases eq_or_ne c '{' with rfl | hopen
  · simp
    omega
  · rcases eq_or_ne c '}' with rfl | hclose
    · simp
      omega
    · simp [hopen, hclose]

theorem keepsOpen_cons :
    KeepsOpen depth (c :: s) ↔ 0 < depth ∧ KeepsOpen (depthAfter depth c) s := by
  constructor
  · intro h
    have hcount := depthAfter_add_count h.pos c
    refine ⟨h.pos, fun p hp => ?_, by have := h.ends; have := hcount s; omega⟩
    have hstays := h.stays (c :: p) (List.cons_prefix_cons.2 ⟨rfl, hp⟩)
    have := hcount p
    omega
  · rintro ⟨hdepth, hstays, hends⟩
    have hcount := depthAfter_add_count hdepth c
    refine ⟨fun p hp => ?_, by have := hcount s; omega⟩
    rcases List.prefix_cons_iff.1 hp with rfl | ⟨q, rfl, hq⟩
    · simpa using hdepth
    · have := hstays q hq
      have := hcount q
      omega

/-- A text is cut at the brace that closes the last of those that are open. -/
theorem cutAtClose_eq_some_iff (hdepth : 0 < depth) :
    cutAtClose depth s = some (type, rest) ↔ s = type ++ '}' :: rest ∧ KeepsOpen depth type := by
  induction s generalizing depth type with
  | nil => simp [cutAtClose]
  | cons c s ih =>
    rw [cutAtClose]
    split
    · next h =>
      obtain ⟨rfl, hle⟩ := h
      obtain rfl : depth = 1 := by omega
      cases type with
      | nil => simp [keepsOpen_nil, eq_comm]
      | cons d type =>
        refine iff_of_false (by simp) ?_
        rintro ⟨hcons, hopen⟩
        obtain ⟨rfl, -⟩ := List.cons.inj hcons
        exact absurd (keepsOpen_cons.1 hopen).2.pos (by decide)
    · next h =>
      cases type with
      | nil =>
        refine iff_of_false (by simp) ?_
        rintro ⟨hcons, hopen⟩
        exact h ⟨(List.cons.inj hcons).1, (keepsOpen_nil.1 hopen).le⟩
      | cons d type =>
        have hafter : 0 < depthAfter depth c := by
          rw [depthAfter]
          grind
        rw [map_cons_eq_some_iff, ← depthAfter, ih hafter, List.cons_append, List.cons.injEq,
          and_assoc]
        refine and_congr_right fun hcd => and_congr_right fun _ => ?_
        rw [keepsOpen_cons, and_iff_right hdepth, hcd]

instance (s : List Char) : Decidable (BracesMatch s) :=
  decidable_of_iff (cutAtClose 1 (s ++ ['}']) = some (s, []))
    ((cutAtClose_eq_some_iff Nat.one_pos).trans ((and_iff_right rfl).trans bracesMatch_iff.symm))

/-- A content is a type in braces and a trimmed rest, or a rest alone if it starts with no such
type. -/
inductive TypedRest : List Char → Option (List Char) → List Char → Prop
  | typed (type rest : List Char) (h : BracesMatch type) :
    TypedRest ('{' :: (type ++ '}' :: rest)) (some type) (trim rest)
  | plain (content : List Char)
    (h : ∀ type rest, BracesMatch type → content ≠ '{' :: (type ++ '}' :: rest)) :
    TypedRest content none content

theorem splitType_typed (h : BracesMatch type) (rest : List Char) :
    splitType ('{' :: (type ++ '}' :: rest)) = (some (String.ofList type), trim rest) := by
  have hcut : cutAtClose 1 (type ++ '}' :: rest) = some (type, rest) :=
    (cutAtClose_eq_some_iff Nat.one_pos).2 ⟨rfl, bracesMatch_iff.1 h⟩
  rw [splitType, hcut]

theorem splitType_plain
    (h : ∀ type rest, BracesMatch type → content ≠ '{' :: (type ++ '}' :: rest)) :
    splitType content = (none, content) := by
  unfold splitType
  split
  · split
    · next type rest hcut =>
      obtain ⟨rfl, hopen⟩ := (cutAtClose_eq_some_iff Nat.one_pos).1 hcut
      exact absurd rfl (h type rest (bracesMatch_iff.2 hopen))
    · rfl
  · rfl

/-- Every content is read as its type and its rest. -/
theorem splitType_eq_iff {type : Option (List Char)} :
    splitType content = (type.map String.ofList, rest) ↔ TypedRest content type rest := by
  constructor
  · intro hsplit
    by_cases htyped : ∃ type rest, BracesMatch type ∧ content = '{' :: (type ++ '}' :: rest)
    · obtain ⟨type', rest', h, rfl⟩ := htyped
      obtain ⟨htype, rfl⟩ := Prod.mk.inj ((splitType_typed h rest').symm.trans hsplit)
      obtain ⟨type, rfl, heq⟩ := Option.map_eq_some_iff.1 htype.symm
      rw [String.ofList_injective heq]
      exact .typed type' rest' h
    · have hplain : ∀ type rest, BracesMatch type → content ≠ '{' :: (type ++ '}' :: rest) :=
        fun type rest h heq => htyped ⟨type, rest, h, heq⟩
      obtain ⟨htype, rfl⟩ := Prod.mk.inj ((splitType_plain hplain).symm.trans hsplit)
      rw [Option.map_eq_none_iff.1 htype.symm]
      exact .plain content hplain
  · rintro (⟨type, rest, h⟩ | ⟨content, h⟩)
    · exact splitType_typed h rest
    · exact splitType_plain h

theorem TypedRest.trim_rest {type : Option (List Char)} (h : TypedRest (trim content) type rest) :
    trim rest = rest := by
  generalize htrimmed : trim content = trimmed at h
  cases h with
  | typed type rest _ => exact trim_trim rest
  | plain => rw [← htrimmed, trim_trim]

/-! ## The name -/

/-- The dash that stands between a name and its documentation. -/
def dash : List Char := [' ', '-', ' ']

/-- The first word of a text that does not start with a blank. -/
def firstWord (s : List Char) : List Char := s.takeWhile (!isBlank ·)

/-- What stands behind the first word. -/
def behindFirstWord (s : List Char) : List Char := s.dropWhile (!isBlank ·)

/-- Nothing but blanks stands before the first dash of a text. -/
def LeadingDash (s : List Char) : Prop :=
  ∃ blanks doc, (∀ c ∈ blanks, isBlank c = true) ∧ s = blanks ++ dash ++ doc

/-- A text without the dash that leads it, if one does. -/
def withoutDash (s : List Char) : List Char :=
  match splitAtFirst? dash s with
  | some (before, doc) => if before.all isBlank then doc else s
  | none => s

/-- The dash behind some blanks is the first one. -/
theorem splitAtFirst?_dash {blanks : List Char} (hblanks : ∀ c ∈ blanks, isBlank c = true)
    (doc : List Char) : splitAtFirst? dash (blanks ++ dash ++ doc) = some (blanks, doc) := by
  induction blanks with
  | nil => rfl
  | cons b blanks ih =>
    obtain ⟨hb, hblanks⟩ := List.forall_mem_cons.1 hblanks
    have hstart : dropPrefix? dash (b :: (blanks ++ dash ++ doc)) = none := by
      cases blanks with
      | nil => simp [dash, dropPrefix?]
      | cons b' blanks =>
        have hb' : '-' ≠ b' := by
          rintro rfl
          exact absurd (hblanks '-' List.mem_cons_self) (by decide)
        simp [dash, dropPrefix?, hb']
    rw [List.cons_append, List.cons_append, splitAtFirst?, hstart, ih hblanks]
    rfl

theorem leadingDash_iff : LeadingDash s ↔
    ∃ before doc, splitAtFirst? dash s = some (before, doc) ∧
      ∀ c ∈ before, isBlank c = true := by
  constructor
  · rintro ⟨blanks, doc, hblanks, rfl⟩
    exact ⟨blanks, doc, splitAtFirst?_dash hblanks doc, hblanks⟩
  · rintro ⟨blanks, doc, hcut, hblanks⟩
    exact ⟨blanks, doc, hblanks, append_of_splitAtFirst? hcut⟩

/-- A trimmed text is cut at the first dash behind its first word. -/
theorem splitName_eq (hs : trim s = s) : splitName s =
    match splitAtFirst? dash (behindFirstWord s) with
    | some (before, doc) => (trim (firstWord s ++ before), trim doc)
    | none => (firstWord s, trim (behindFirstWord s)) := by
  have hword : ' ' ∉ firstWord s := fun h => absurd (List.mem_takeWhile_imp h) (by decide)
  have hcut : splitAtFirst? dash s = (splitAtFirst? dash (behindFirstWord s)).map
      fun cut => (firstWord s ++ cut.1, cut.2) := by
    rw [dash, ← splitAtFirst?_append_of_not_mem hword, firstWord, behindFirstWord,
      List.takeWhile_append_dropWhile]
  rw [dash] at hcut ⊢
  rw [splitName, hs, hcut]
  cases splitAtFirst? [' ', '-', ' '] (behindFirstWord s) <;> rfl

/-- A word and blanks are trimmed to the word, and a word and more are not. -/
theorem trim_firstWord_append_eq_iff :
    trim (firstWord s ++ before) = firstWord s ↔ ∀ c ∈ before, isBlank c = true := by
  have hword : ∀ c ∈ firstWord s, isBlank c = false := fun c hc => by
    simpa using List.mem_takeWhile_imp hc
  constructor
  · intro h c hc
    by_contra hblank
    have hfilter := congrArg (List.filter (!isBlank ·)) h
    rw [filter_trim (fun _ hblank => by simp [hblank]), List.filter_append,
      List.append_right_eq_self, List.filter_eq_nil_iff] at hfilter
    exact hfilter c hc (by simpa using hblank)
  · intro hbefore
    rw [trim_append_blank hbefore]
    exact trim_eq_self_iff_forall.2 ⟨fun c hc => hword c (List.mem_of_mem_head? hc),
      fun c hc => hword c (List.mem_of_getLast? hc)⟩

/-- The name of a parameter is the first word of the rest, and its documentation what follows
without a leading dash, exactly if no dash follows the word or one leads what follows. -/
theorem ofContent_param_iff {type : Option (List Char)}
    (htag : String.ofList tag ∈ ["param", "arg", "argument"])
    (hrest : TypedRest (trim content) type rest) (hbracket : rest.head? ≠ some '[') :
    ofContent tag content = .param (String.ofList (firstWord rest)) (type.map String.ofList)
        (nonEmpty (trim (withoutDash (behindFirstWord rest)))) ↔
      (dash <:+: behindFirstWord rest → LeadingDash (behindFirstWord rest)) := by
  have hsplit : splitParam rest = splitName rest := by
    rw [splitParam]
    rintro inner rfl
    exact hbracket rfl
  have hparam : ofContent tag content = .param (String.ofList (splitName rest).1)
      (type.map String.ofList) (nonEmpty (splitName rest).2) := by
    have hof : ofContent tag content = ofParam (trim content) := by
      simp only [List.mem_cons, List.not_mem_nil, or_false] at htag
      rcases htag with h | h | h <;> simp [ofContent, h]
    rw [hof, ofParam, splitType_eq_iff.2 hrest]
    simp only [hsplit]
  rw [hparam, splitName_eq hrest.trim_rest, leadingDash_iff, ← contains_iff, contains, withoutDash]
  cases hcut : splitAtFirst? dash (behindFirstWord rest) with
  | none => simp
  | some cut =>
    obtain ⟨before, doc⟩ := cut
    simp only
    by_cases hbefore : ∀ c ∈ before, isBlank c = true
    · refine iff_of_true ?_ fun _ => ⟨before, doc, rfl, hbefore⟩
      rw [List.all_eq_true.2 hbefore, if_pos rfl, trim_firstWord_append_eq_iff.2 hbefore]
    · refine iff_of_false (fun h => hbefore ?_) fun h => hbefore ?_
      · obtain ⟨hname, -, -⟩ := Tag.param.inj h
        exact trim_firstWord_append_eq_iff.1 (String.ofList_injective hname)
      · obtain ⟨before', doc', heq, hblank⟩ := h rfl
        obtain ⟨rfl, -⟩ := Prod.mk.inj (Option.some.inj heq)
        exact hblank

/-- A type, a name, and a documentation that holds a dash behind the one that leads it. -/
def twoDashes : List Char := "{{a: b}} name - the text - more".toList

/-- A dash within the documentation does no harm behind the one that leads it. -/
theorem ofContent_param_twoDashes :
    TypedRest (trim twoDashes) (some "{a: b}".toList) "name - the text - more".toList ∧
      ofContent "param".toList twoDashes =
        .param "name" (some "{a: b}") (some "the text - more") := by
  have hrest : TypedRest (trim twoDashes) (some "{a: b}".toList)
      "name - the text - more".toList := splitType_eq_iff.1 (by decide +kernel)
  refine ⟨hrest, ((ofContent_param_iff (by decide) hrest (by decide)).2 fun _ => ?_).trans
    (by decide +kernel)⟩
  exact ⟨[], "the text - more".toList, by simp, by decide +kernel⟩

/-- A name and a documentation that holds a dash with none that leads it. -/
def lateDash : List Char := "name the text - more".toList

/-- A dash within the documentation ends the name if none leads it. -/
theorem ofContent_param_lateDash :
    TypedRest (trim lateDash) none lateDash ∧ firstWord lateDash = "name".toList ∧
      ofContent "param".toList lateDash = .param "name the text" none (some "more") :=
  ⟨splitType_eq_iff.1 (by decide +kernel), by decide +kernel, by decide +kernel⟩

end ReferencePages.Tag
