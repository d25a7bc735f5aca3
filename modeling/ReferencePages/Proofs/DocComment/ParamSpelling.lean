import ReferencePages.Proofs.DocComment.ParamName

/-!
# Spellings of a parameter

A parameter may be written as its type in braces, its name, and behind a dash what is said of it. A
name in brackets is optional, with or without a default value (`NameSpelling`).

Each part is cut off where it ends: the type at the brace that closes it, a bracketed name at the
first closing bracket, a plain name at the first dash between blanks. None of these cuts looks at
what follows, so braces and dashes in a default value or in the documentation do no harm, and the
three parts are read back as they were written (`ofParam_spelling`).
-/

namespace ReferencePages.Tag

variable {type name spelling inner after doc : List Char}

/-- A name: a word without the characters that delimit a name in brackets. -/
structure IsName (name : List Char) : Prop where
  ne_nil : name ≠ []
  not_blank : ∀ c ∈ name, isBlank c = false
  plain : ∀ c ∈ name, c ∉ ['[', ']', '=']

instance (name : List Char) : Decidable (IsName name) :=
  decidable_of_iff
    (name ≠ [] ∧ name.all (!isBlank ·) = true ∧ name.all (· ∉ ['[', ']', '=']) = true) <| by
    simp only [List.all_eq_true, Bool.not_eq_true', decide_eq_true_eq]
    exact ⟨fun ⟨hne, hblank, hplain⟩ => ⟨hne, hblank, hplain⟩,
      fun h => ⟨h.ne_nil, h.not_blank, h.plain⟩⟩

/-- The ways to write a name: plain, in brackets, and in brackets with a default value. -/
inductive NameSpelling (name : List Char) : List Char → Prop
  | required : NameSpelling name name
  | optional : NameSpelling name ('[' :: (name ++ [']']))
  | withDefault (value : List Char) (h : ']' ∉ value) :
    NameSpelling name ('[' :: (name ++ '=' :: value ++ [']']))

namespace IsName

theorem not_mem (h : IsName name) {c : Char} (hc : c ∈ ['[', ']', '=']) : c ∉ name :=
  fun hmem => h.plain c hmem hc

theorem trim_eq (h : IsName name) : trim name = name :=
  trim_eq_self_iff_forall.2 ⟨fun c hc => h.not_blank c (List.mem_of_mem_head? hc),
    fun c hc => h.not_blank c (List.mem_of_getLast? hc)⟩

end IsName

/-! ## The name and the documentation -/

/-- A documentation behind a dash is told from it, also where it begins with one itself. -/
theorem trim_dash_append (hne : doc ≠ []) (hdoc : trim doc = doc) :
    trim ((trim (dash ++ doc)).dropWhile (· == '-')) = doc := by
  have hblank : isBlank ' ' = true := rfl
  have htrim : trim ('-' :: ' ' :: doc) = '-' :: ' ' :: doc := by
    rw [trim_eq_self_iff_forall] at hdoc ⊢
    refine ⟨fun c hc => ?_, fun c hc => ?_⟩
    · obtain rfl : '-' = c := Option.some.inj hc
      decide
    · have hlast : (['-', ' '] ++ doc).getLast? = doc.getLast? :=
        List.getLast?_append_of_ne_nil _ hne
      exact hdoc.2 c (hlast ▸ hc)
  calc trim ((trim (dash ++ doc)).dropWhile (· == '-'))
      = trim ((trim (' ' :: '-' :: ' ' :: doc)).dropWhile (· == '-')) := rfl
    _ = trim (('-' :: ' ' :: doc).dropWhile (· == '-')) := by
      rw [trim_cons_of_blank hblank, htrim]
    _ = trim (' ' :: doc) := rfl
    _ = doc := by rw [trim_cons_of_blank hblank, hdoc]

/-- A name in brackets goes on to the first closing bracket. -/
theorem splitParam_bracket (h : ']' ∉ inner) (after : List Char) :
    splitParam ('[' :: (inner ++ ']' :: after)) =
      (trim (inner.takeWhile (· != '=')), trim ((trim after).dropWhile (· == '-'))) := by
  have hcut : splitAtFirst? [']'] (inner ++ ']' :: after) = some (inner, after) := by
    rw [splitAtFirst?_append_of_not_mem h]
    simp [splitAtFirst?, dropPrefix?]
  rw [splitParam, hcut]

/-- A plain name goes on to the first dash between blanks. -/
theorem splitParam_plain (hname : IsName name) (hdoc : trim doc = doc)
    (htrim : trim (name ++ dash ++ doc) = name ++ dash ++ doc) :
    splitParam (name ++ dash ++ doc) = (name, doc) := by
  have hblank : ' ' ∉ name := fun hmem => absurd (hname.not_blank ' ' hmem) (by decide)
  have hbracket : '[' ∉ name := hname.not_mem (by decide)
  have hsplit : splitParam (name ++ dash ++ doc) = splitName (name ++ dash ++ doc) := by
    obtain ⟨c, rest, rfl⟩ := List.exists_cons_of_ne_nil hname.ne_nil
    rw [splitParam]
    rintro inner hcons
    obtain ⟨rfl, -⟩ := List.cons.inj hcons
    exact hbracket List.mem_cons_self
  have hcut : splitAtFirst? [' ', '-', ' '] (name ++ dash ++ doc) = some (name, doc) := by
    rw [List.append_assoc, splitAtFirst?_append_of_not_mem hblank]
    simp [splitAtFirst?, dropPrefix?, dash]
  rw [hsplit, splitName, htrim, hcut]
  exact Prod.ext hname.trim_eq hdoc

/-- A spelling begins with a character that is no blank. -/
theorem NameSpelling.exists_cons (h : NameSpelling name spelling) (hname : IsName name) :
    ∃ c rest, spelling = c :: rest ∧ isBlank c = false := by
  cases h with
  | required =>
    obtain ⟨c, rest, rfl⟩ := List.exists_cons_of_ne_nil hname.ne_nil
    exact ⟨c, rest, rfl, hname.not_blank c List.mem_cons_self⟩
  | optional => exact ⟨'[', _, rfl, by decide⟩
  | withDefault value => exact ⟨'[', _, rfl, by decide⟩

/-- Neither end of a name with its documentation is blank. -/
theorem NameSpelling.trim_append (h : NameSpelling name spelling) (hname : IsName name)
    (hne : doc ≠ []) (hdoc : trim doc = doc) :
    trim (spelling ++ dash ++ doc) = spelling ++ dash ++ doc := by
  obtain ⟨c, rest, rfl, hc⟩ := h.exists_cons hname
  rw [trim_eq_self_iff_forall] at hdoc ⊢
  refine ⟨fun d hd => ?_, fun d hd => ?_⟩
  · exact Option.some.inj hd ▸ hc
  · rw [List.getLast?_append_of_ne_nil _ hne] at hd
    exact hdoc.2 d hd

/-- The name and the documentation are read back from each spelling. -/
theorem NameSpelling.splitParam_eq (h : NameSpelling name spelling) (hname : IsName name)
    (hne : doc ≠ []) (hdoc : trim doc = doc) :
    splitParam (spelling ++ dash ++ doc) = (name, doc) := by
  have htrim := h.trim_append hname hne hdoc
  have hclosing : ']' ∉ name := hname.not_mem (by decide)
  have hequals : ∀ c ∈ name, (c != '=') = true := fun c hc => by
    simpa using fun heq : c = '=' => hname.not_mem (by decide) (heq ▸ hc)
  cases h with
  | required => exact splitParam_plain hname hdoc htrim
  | optional =>
    have hshape : '[' :: (name ++ [']']) ++ dash ++ doc =
        '[' :: (name ++ ']' :: (dash ++ doc)) := by simp
    rw [hshape, splitParam_bracket hclosing, trim_dash_append hne hdoc,
      List.takeWhile_eq_self_iff.2 hequals, hname.trim_eq]
  | withDefault value hvalue =>
    have hinner : ']' ∉ name ++ '=' :: value := by simp [hclosing, hvalue]
    have hshape : '[' :: (name ++ '=' :: value ++ [']']) ++ dash ++ doc =
        '[' :: (name ++ '=' :: value ++ ']' :: (dash ++ doc)) := by simp
    have htake : (name ++ '=' :: value).takeWhile (· != '=') = name := by
      rw [List.takeWhile_append_of_pos hequals, List.takeWhile_cons_of_neg (by simp),
        List.append_nil]
    rw [hshape, splitParam_bracket hinner, trim_dash_append hne hdoc, htake, hname.trim_eq]

/-! ## The tag -/

/-- A parameter that is written with its type, in any spelling of its name, and with its
documentation behind a dash is read as these three. -/
theorem ofParam_spelling (htype : BracesMatch type) (hname : IsName name)
    (hspelling : NameSpelling name spelling) (hne : doc ≠ []) (hdoc : trim doc = doc) :
    ofParam ('{' :: (type ++ '}' :: ' ' :: (spelling ++ dash ++ doc))) =
      .param (String.ofList name) (some (String.ofList type)) (some (String.ofList doc)) := by
  have hrest : trim (' ' :: (spelling ++ dash ++ doc)) = spelling ++ dash ++ doc :=
    (trim_cons_of_blank rfl).trans (hspelling.trim_append hname hne hdoc)
  have hsome : nonEmpty doc = some (String.ofList doc) := if_neg (by simpa using hne)
  rw [ofParam, splitType_typed htype, hrest]
  simp only [hspelling.splitParam_eq hname hne hdoc, hsome]

/-- A default value with what delimits names, types and documentation. -/
def delimiters : List Char := "{[=- - }".toList

/-- Braces in the type, delimiters in the default value and dashes in the documentation are told
from those that delimit the parts. -/
theorem ofParam_spelling_delimiters :
    BracesMatch "{a: {}} - b".toList ∧ IsName "x-y".toList ∧
      NameSpelling "x-y".toList ('[' :: ("x-y".toList ++ '=' :: delimiters ++ [']'])) ∧
      ofParam "{{a: {}} - b} [x-y={[=- - }] - - one - two ]".toList =
        .param "x-y" (some "{a: {}} - b") (some "- one - two ]") := by
  have htype : BracesMatch "{a: {}} - b".toList := by decide +kernel
  have hname : IsName "x-y".toList := by decide +kernel
  have hspelling :
      NameSpelling "x-y".toList ('[' :: ("x-y".toList ++ '=' :: delimiters ++ [']'])) :=
    .withDefault delimiters (by decide)
  have hne : "- one - two ]".toList ≠ [] := by decide
  have hdoc : trim "- one - two ]".toList = "- one - two ]".toList := by decide +kernel
  have hshape : "{{a: {}} - b} [x-y={[=- - }] - - one - two ]".toList =
      '{' :: ("{a: {}} - b".toList ++ '}' :: ' ' ::
        ('[' :: ("x-y".toList ++ '=' :: delimiters ++ [']']) ++ dash ++
          "- one - two ]".toList)) := by
    decide +kernel
  refine ⟨htype, hname, hspelling, ?_⟩
  rw [hshape, ofParam_spelling htype hname hspelling hne hdoc]
  simp only [String.ofList_toList]

end ReferencePages.Tag
