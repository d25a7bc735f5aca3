import ReferencePages.Proofs.Text.Blank
import ReferencePages.Proofs.Text.Lines
import ReferencePages.Proofs.Text.Search

/-!
# Significant characters

Formatting may put in and take out blanks, commas and bars, and change quotes together with the
backslashes that escape them. All other characters are significant. A text is compared with
another by its significant characters in order (`significant`), so trimming, cutting into lines
and joining lines leave a text as it is.
-/

namespace ReferencePages

/-- A character that formatting may put in or take out. -/
def isFiller (c : Char) : Bool :=
  isBlank c || c == ',' || c == '|' || c == '\\' || c == '\'' || c == '"'

/-- The significant characters of a text. -/
def significant (s : List Char) : List Char := s.filter fun c => !isFiller c

variable {c : Char} {s : List Char}

theorem isFiller_of_isBlank (h : isBlank c = true) : isFiller c = true := by
  simp [isFiller, h]

@[simp] theorem significant_nil : significant [] = [] :=
  rfl

@[simp] theorem significant_append (s t : List Char) :
    significant (s ++ t) = significant s ++ significant t :=
  List.filter_append s t

theorem significant_cons (c : Char) (s : List Char) :
    significant (c :: s) = significant [c] ++ significant s :=
  significant_append [c] s

@[simp] theorem significant_reverse (s : List Char) :
    significant s.reverse = (significant s).reverse :=
  List.filter_reverse

theorem significant_eq_nil (h : ∀ c ∈ s, isFiller c = true) : significant s = [] :=
  List.filter_eq_nil_iff.2 fun c hc => by simp [h c hc]

theorem significant_singleton_of_isFiller (h : isFiller c = true) : significant [c] = [] :=
  significant_eq_nil (by simpa using h)

@[simp] theorem significant_space : significant [' '] = [] :=
  rfl

theorem significant_cons_of_isFiller (h : isFiller c = true) (s : List Char) :
    significant (c :: s) = significant s := by
  rw [significant_cons, significant_singleton_of_isFiller h, List.nil_append]

/-! ## Trimming -/

theorem isSignificant_of_isBlank (c : Char) (h : isBlank c = true) : (!isFiller c) = false := by
  rw [isFiller_of_isBlank h, Bool.not_true]

@[simp] theorem significant_trim (s : List Char) : significant (trim s) = significant s :=
  filter_trim isSignificant_of_isBlank s

@[simp] theorem significant_trimEnd (s : List Char) : significant (trimEnd s) = significant s :=
  filter_trimEnd isSignificant_of_isBlank s

@[simp] theorem significant_dropWhile_isBlank (s : List Char) :
    significant (s.dropWhile isBlank) = significant s :=
  filter_trimStart isSignificant_of_isBlank s

/-- A text of blanks has no significant characters. -/
theorem significant_eq_nil_of_trim (h : (trim s).isEmpty = true) : significant s = [] := by
  rw [← significant_trim, List.isEmpty_iff.1 h, significant_nil]

theorem significant_dropLast (h : ∀ c, s.getLast? = some c → isFiller c = true) :
    significant s.dropLast = significant s := by
  conv => rhs; rw [← dropLast_append_toList_getLast? s]
  rw [significant_append, significant_eq_nil (s := s.getLast?.toList) (by simpa using h),
    List.append_nil]

/-! ## Lines -/

theorem significant_joinLines (ls : List (List Char)) :
    significant (joinLines ls) = ls.flatMap significant := by
  have hfeed : significant ['\n'] = [] := rfl
  exact filter_joinWith hfeed ls

/-- Cutting a text into lines loses nothing. -/
theorem flatMap_significant_lines (s : List Char) :
    (lines s).flatMap significant = significant s :=
  flatMap_filter_lines rfl rfl s

/-! ## Replacing -/

/-- Replacing a text without significant characters by another loses nothing. -/
theorem significant_replaceAll {p q : List Char} (hp : significant p = [])
    (hq : significant q = []) (s : List Char) :
    significant (replaceAll p q s) = significant s := by
  unfold replaceAll replaceMatches
  fun_induction pieces (exactly p) s with
  | case1 => rfl
  | case2 c s x n hmatch ih =>
    rw [List.flatMap_cons, significant_append, ih, exactly_cons_eq_some hmatch,
      significant_append, hp, hq]
  | case3 c s hnone ih =>
    rw [List.flatMap_cons, significant_append, ih]
    exact (significant_cons c s).symm

end ReferencePages
