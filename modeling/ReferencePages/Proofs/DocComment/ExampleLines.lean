import ReferencePages.DocComment.Example
import ReferencePages.Proofs.Text.Blank
import ReferencePages.Proofs.Text.Lines
import ReferencePages.Proofs.Text.Search

/-!
# Example code is normalized line by line

Normalizing a description is three passes over the whole text, each on what the one before it left:
the markers of types, the markers of errors, and the indentation. A pass maps each line to one line
and does not look at the others (`Linewise`), and so does one pass after another
(`Linewise.comp`). So a description is normalized line by line, and keeps the number of its lines
(`normalizeExample_lines`).

On a line, a pass replaces what follows the first marker, up to the end of the line
(`replaceMatches_restOfLine`).
-/

namespace ReferencePages

variable {f g : List Char → List Char} {marker value s x v t : List Char} {n : Nat}

/-! ## Functions that work line by line -/

/-- A function maps each line of a text to one line, and does not look at the others. -/
structure Linewise (f : List Char → List Char) : Prop where
  /-- A line and what follows it are mapped each by itself. -/
  line (x s : List Char) (h : '\n' ∉ x) : f (x ++ '\n' :: s) = f x ++ '\n' :: f s
  /-- A line is mapped to one line. -/
  single (x : List Char) (h : '\n' ∉ x) : '\n' ∉ f x

namespace Linewise

theorem comp (hg : Linewise g) (hf : Linewise f) : Linewise (g ∘ f) where
  line x s h := by
    rw [Function.comp_apply, hf.line x s h, hg.line _ _ (hf.single x h)]
    rfl
  single x h := hg.single _ (hf.single x h)

/-- The lines of what a text is mapped to are what its lines are mapped to. -/
theorem splitLines_eq (hf : Linewise f) (s : List Char) :
    splitLines (f s) = (splitLines s).map f := by
  induction s using lineInduction with
  | last s hs =>
    rw [splitLines, splitLines, List.splitOn_eq_singleton hs,
      List.splitOn_eq_singleton (hf.single s hs), List.map_singleton]
  | line x s hx ih =>
    rw [hf.line x s hx, splitLines_append_cons (hf.single x hx), splitLines_append_cons hx, ih,
      List.map_cons]

theorem eq_joinLines (hf : Linewise f) (s : List Char) :
    f s = joinLines ((splitLines s).map f) := by
  rw [← hf.splitLines_eq]
  exact (List.intercalate_splitOn '\n').symm

end Linewise

/-- A line is mapped like the lines of a text. -/
theorem joinLines_map_of_line (g : List Char → List Char) (hx : '\n' ∉ x) :
    joinLines ((splitLines x).map g) = g x := by
  rw [splitLines, List.splitOn_eq_singleton hx]
  simp [joinLines, joinWith]

/-- Mapping the lines of a text works line by line. -/
theorem linewise_joinLines_map (hg : ∀ x, '\n' ∉ x → '\n' ∉ g x) :
    Linewise fun s => joinLines ((splitLines s).map g) := by
  refine ⟨fun x s hx => ?_, fun x hx => ?_⟩
  · have hne : (splitLines s).map g ≠ [] := by simpa using splitLines_ne_nil s
    rw [splitLines_append_cons hx, List.map_cons, joinLines_cons hne, joinLines_map_of_line g hx]
  · rw [joinLines_map_of_line g hx]
    exact hg x hx

/-! ## Markers -/

/-- What stands on the first line of a text. -/
def firstLine (s : List Char) : List Char := s.takeWhile (· != '\n')

theorem firstLine_append_feed (v t : List Char) : firstLine (v ++ '\n' :: t) = firstLine v := by
  rw [firstLine, firstLine, List.takeWhile_append]
  split
  · next h =>
    rw [List.takeWhile_cons_of_neg (by simp), List.append_nil]
    exact ((List.takeWhile_prefix _).eq_of_length h).symm
  · rfl

theorem firstLine_eq_self (hx : '\n' ∉ x) : firstLine x = x :=
  takeWhile_ne_of_not_mem hx

/-- A marker matches where something follows it on its line. -/
theorem restOfLine_eq_some_iff : restOfLine marker s = some (value, n) ↔
    ∃ rest, s = marker ++ rest ∧ value = firstLine rest ∧ value ≠ [] ∧
      n + 1 = (marker ++ value).length := by
  rw [restOfLine, Option.bind_eq_bind, Option.bind_eq_some_iff]
  refine exists_congr fun rest => ?_
  rw [dropPrefix?_eq_some_iff]
  refine and_congr_right fun _ => ?_
  rw [List.length_append, eq_comm (a := value)]
  change (if (firstLine rest).isEmpty then none
    else some (firstLine rest, marker.length + (firstLine rest).length - 1)) = _ ↔ _
  by_cases hnil : firstLine rest = []
  · rw [hnil]
    exact iff_of_false (by simp) fun ⟨heq, hne, _⟩ => hne heq.symm
  · have hpos := List.length_pos_iff.2 hnil
    rw [if_neg (by simpa using hnil), Option.some.injEq, Prod.mk.injEq]
    refine and_congr_right ?_
    rintro rfl
    rw [and_iff_right hnil]
    omega

/-- What follows a marker on its line does not depend on what follows the line. -/
theorem restOfLine_append_feed (hmarker : '\n' ∉ marker) (v t : List Char) :
    restOfLine marker (v ++ '\n' :: t) = restOfLine marker v := by
  refine Option.ext fun ⟨value, n⟩ => ?_
  rw [restOfLine_eq_some_iff, restOfLine_eq_some_iff]
  constructor
  · rintro ⟨rest, heq, hvalue, h⟩
    obtain ⟨r, rfl, rfl⟩ := exists_of_append_eq_append_cons heq.symm hmarker
    exact ⟨r, rfl, by rw [hvalue, firstLine_append_feed], h⟩
  · rintro ⟨rest, rfl, hvalue, h⟩
    exact ⟨rest ++ '\n' :: t, List.append_assoc _ _ _, by rw [hvalue, firstLine_append_feed], h⟩

/-- A marker takes no more than there is. -/
theorem lt_length_of_restOfLine (h : restOfLine marker v = some (value, n)) : n < v.length := by
  obtain ⟨rest, rfl, rfl, -, hn⟩ := restOfLine_eq_some_iff.1 h
  have hle := (List.takeWhile_prefix (· != '\n') (l := rest)).length_le
  rw [List.length_append] at hn ⊢
  rw [firstLine] at hn
  omega

/-- Nothing follows a marker in a text that is no longer than it. -/
theorem replaceMatches_restOfLine_of_length_le (h : s.length ≤ marker.length) :
    replaceMatches (restOfLine marker) f s = s := by
  refine replaceMatches_of_not_hasMatch (Bool.eq_false_iff.2 fun hmatch => ?_)
  obtain ⟨a, c, b, rfl, hsome⟩ := hasMatch_iff.1 hmatch
  obtain ⟨⟨value, n⟩, hvalue⟩ := Option.isSome_iff_exists.1 hsome
  have hlt := lt_length_of_restOfLine hvalue
  obtain ⟨-, -, -, hne, hn⟩ := restOfLine_eq_some_iff.1 hvalue
  have hpos := List.length_pos_iff.2 hne
  rw [List.length_append] at h hn
  omega

/-- On a line, what follows the first marker is replaced, if anything does. -/
theorem replaceMatches_restOfLine (hx : '\n' ∉ x) :
    replaceMatches (restOfLine marker) f x =
      match splitAtFirst? marker x with
      | some (before, value) => if value = [] then x else before ++ f value
      | none => x := by
  induction x with
  | nil =>
    rw [replaceMatches_nil, splitAtFirst?]
    cases marker <;> rfl
  | cons c x ih =>
    rw [splitAtFirst?]
    cases hstart : dropPrefix? marker (c :: x) with
    | some value =>
      have heq : c :: x = marker ++ value := dropPrefix?_eq_some_iff.1 hstart
      -- Nothing behind the marker is no match, and too little is left for a later one.
      by_cases hvalue : value = []
      · simp only [hvalue, if_true]
        rw [hvalue, List.append_nil] at heq
        exact replaceMatches_restOfLine_of_length_le (congrArg List.length heq).le
      · simp only [if_neg hvalue, List.nil_append]
        have hfirst : firstLine value = value :=
          firstLine_eq_self fun hmem => hx (heq ▸ List.mem_append_right marker hmem)
        have hmatch : restOfLine marker (c :: x ++ []) = some (value, x.length) := by
          rw [List.append_nil]
          exact restOfLine_eq_some_iff.2 ⟨value, heq, hfirst.symm, hvalue, by rw [← heq]; rfl⟩
        have hreplace := replaceMatches_append_of_some (f := f) hmatch rfl
        rwa [List.append_nil, replaceMatches_nil, List.append_nil] at hreplace
    | none =>
      have hnone : restOfLine marker (c :: x) = none := by
        rw [restOfLine, hstart]
        rfl
      rw [replaceMatches_cons_of_none hnone, ih fun hmem => hx (List.mem_cons_of_mem c hmem)]
      cases splitAtFirst? marker x with
      | none => rfl
      | some cut =>
        simp only [Option.map_some]
        split <;> simp_all

/-- Replacing what follows a marker works line by line. -/
theorem linewise_replaceMatches (hmarker : '\n' ∉ marker) (hf : ∀ x, '\n' ∉ x → '\n' ∉ f x) :
    Linewise (replaceMatches (restOfLine marker) f) where
  line x s _ := replaceMatches_append_cons (fun v => restOfLine_append_feed hmarker v s)
    fun _ _ _ => lt_length_of_restOfLine
  single x hx := by
    rw [replaceMatches_restOfLine hx]
    split
    · next before value hcut =>
      rw [append_of_splitAtFirst? hcut] at hx
      split
      · exact append_of_splitAtFirst? hcut ▸ hx
      · have hbefore : '\n' ∉ before := fun hmem => hx (by simp [hmem])
        have hvalue : '\n' ∉ value := fun hmem => hx (by simp [hmem])
        exact fun hmem => (List.mem_append.1 hmem).elim hbefore (hf value hvalue)
    · exact hx

/-! ## The passes -/

/-- What marks the type of what follows. -/
def typeMarker : List Char := "/// type: ".toList

/-- What marks the errors that are expected. -/
def errorsMarker : List Char := "/// errors: ".toList

/-- The first pass: the markers of types. -/
def markTypes : List Char → List Char := replaceMatches (restOfLine typeMarker) typeComment

/-- The second pass: the markers of errors. -/
def markErrors : List Char → List Char := replaceMatches (restOfLine errorsMarker) errorsComment

/-- The third pass: the indentation. -/
def indentByTabs (s : List Char) : List Char := joinLines ((splitLines s).map tabIndent)

theorem normalizeExample_eq (s : List Char) :
    normalizeExample s = indentByTabs (markErrors (markTypes s)) := by
  unfold normalizeExample indentByTabs markErrors markTypes typeMarker errorsMarker
  rfl

theorem linewise_markTypes : Linewise markTypes := by
  have hmarker : '\n' ∉ typeMarker := by decide
  refine linewise_replaceMatches hmarker fun x hx => ?_
  have htype : '\n' ∉ trimEnd x := fun h => hx ((isPrefix_trimEnd x).subset h)
  have hopening : '\n' ∉ "/** @type ".toList := by decide
  have hclosing : '\n' ∉ " */".toList := by decide
  unfold typeComment
  dsimp only
  split <;> simp only [List.mem_append, List.mem_cons, htype, hopening, hclosing] <;> decide

theorem linewise_markErrors : Linewise markErrors := by
  have hmarker : '\n' ∉ errorsMarker := by decide
  refine linewise_replaceMatches hmarker fun x hx hmem => ?_
  rcases List.mem_append.1 hmem with h | h
  · revert h
    decide
  · exact hx h

theorem indentByTabs_line (hx : '\n' ∉ x) : indentByTabs x = tabIndent x :=
  joinLines_map_of_line tabIndent hx

theorem linewise_indentByTabs : Linewise indentByTabs := by
  refine linewise_joinLines_map fun x hx => ?_
  fun_induction tabIndent x with
  | case1 s ih => simp_all
  | case2 => exact hx

/-- Normalizing a description works line by line. -/
theorem linewise_normalizeExample : Linewise normalizeExample := by
  have hpasses := (linewise_indentByTabs.comp linewise_markErrors).comp linewise_markTypes
  exact (funext normalizeExample_eq : normalizeExample = _) ▸ hpasses

/-- A description is normalized line by line, and keeps the number of its lines. -/
theorem normalizeExample_lines (s : List Char) :
    normalizeExample s = joinLines ((splitLines s).map normalizeExample) ∧
      (splitLines (normalizeExample s)).length = (splitLines s).length := by
  refine ⟨linewise_normalizeExample.eq_joinLines s, ?_⟩
  rw [linewise_normalizeExample.splitLines_eq, List.length_map]

end ReferencePages
