import ReferencePages.Proofs.Snippet.Marks
import ReferencePages.Snippet.Format

/-!
# Aliases of function types

A source of one line is laid out on a line with its marks (`exists_layoutLines_eq_singleton`). The
marks of an alias of a function type are its equals sign, the parenthesis of its parameters, the
equals sign of its arrow, and those of the result (`FunctionAlias.marks_eq`). So if there is no bar
among the last ones, the line is broken around the parameters or not at all
(`formatLines_functionAlias`). A result that is a union is taken for the end of one
(`formatLines_functionAlias_unionResult`).
-/

namespace ReferencePages

open Nesting

variable {o : FormatOptions} {source s head params result line : List Char}

/-! ## One line -/

/-- A set line has the marks of the line. -/
theorem marks_spaceLine (o : FormatOptions) (h : ReadsLiterals (scan .code (trim s))) :
    ({} : Nesting).marks (spaceLine o .code s).text = ({} : Nesting).marks (trim s) := by
  obtain ⟨b, hb, hrow⟩ := exists_eq_trimEnd_append
    (({} : Row).placeAll o (scan .code (trim s))).text
  have hmarks := marks_placeAll o h
  rw [hrow, marks_append_of_blank hb] at hmarks
  exact hmarks

/-- A source of one line with marks is laid out on a line that has them. -/
theorem exists_layoutLines_eq_singleton (o : FormatOptions) (hsource : lines source = [s])
    (hread : ReadsLiterals (scan .code (trim s))) (hne : ({} : Nesting).marks (trim s) ≠ []) :
    ∃ line, layoutLines o source = [line] ∧
      ({} : Nesting).marks line = ({} : Nesting).marks (trim s) := by
  obtain ⟨pre, hpre, hindent, -⟩ := exists_indentLine o 0 (spaceLine o .code s)
  have hmarks : ({} : Nesting).marks (pre ++ (spaceLine o .code s).text) =
      ({} : Nesting).marks (trim s) := by
    rw [marks_append_of_isTop rfl (isBlank_of_indent hpre), marks_spaceLine o hread]
  generalize pre ++ (spaceLine o .code s).text = line at hindent hmarks
  have hline : trim line ≠ [] := fun hblank => hne <| by
    rw [← hmarks]
    exact marks_eq_nil (fun c hc => isMark_of_isBlank (trim_eq_nil_iff.1 hblank c hc)) _
  have hlayout : layoutLines o source = terminate [line] := by
    have hkept : (keptLines o (indentLines o 0 [spaceLine o .code s])).map SnippetLine.text =
        [line] := by
      rw [indentLines, hindent, indentLines, keptLines_cons, keptLines_nil,
        if_neg fun hloses => by cases hloses.2.2.2.2]
      rfl
    have hcollapse : collapseBlanks false false [line] = [line] := by
      rw [collapseBlanks_cons_of_ne_nil hline]
      rfl
    rw [← hcollapse, ← hkept, layoutLines, hsource]
    rfl
  rw [hlayout]
  rcases terminate_cases [line] with ⟨hsame, -⟩ | ⟨init, last, hlast, hlines, -⟩
  · exact ⟨line, hsame, hmarks⟩
  · have hconcat : [] ++ [line] = init ++ [last] := hlast
    obtain ⟨rfl, hlast⟩ := List.append_inj' hconcat rfl
    obtain rfl := List.singleton_inj.1 hlast
    refine ⟨line ++ [';'], hlines, ?_⟩
    have hstop : ∀ c ∈ [';'], isMark c = false := List.forall_mem_singleton.2 rfl
    rw [marks_append, hmarks, marks_eq_nil hstop, List.append_nil]

/-! ## Aliases -/

/-- A type alias of a function type, by its brackets: the name with its parameters of types, the
parameters of the function, and its result. -/
structure FunctionAlias (s head params result : List Char) : Prop where
  eq : s = head ++ '=' :: (params ++ '=' :: '>' :: result)
  head_isTop : (({} : Nesting).run head).isTop = true
  head_marks : ({} : Nesting).marks head = []
  params_isTop : (({} : Nesting).run params).isTop = true
  params_marks : ({} : Nesting).marks params = ['(']

instance (s head params result : List Char) : Decidable (FunctionAlias s head params result) :=
  decidable_of_iff
    (s = head ++ '=' :: (params ++ '=' :: '>' :: result) ∧
      (({} : Nesting).run head).isTop = true ∧ ({} : Nesting).marks head = [] ∧
      (({} : Nesting).run params).isTop = true ∧ ({} : Nesting).marks params = ['('])
    ⟨fun ⟨h₁, h₂, h₃, h₄, h₅⟩ => ⟨h₁, h₂, h₃, h₄, h₅⟩,
      fun ⟨h₁, h₂, h₃, h₄, h₅⟩ => ⟨h₁, h₂, h₃, h₄, h₅⟩⟩

theorem FunctionAlias.marks_eq (h : FunctionAlias s head params result) :
    ({} : Nesting).marks s = '=' :: '(' :: '=' :: ({} : Nesting).marks result := by
  have harrow : ({} : Nesting).marks ('>' :: result) = ({} : Nesting).marks result :=
    marks_of_isTop (n := ({} : Nesting).step true '>') (by decide) result
  calc ({} : Nesting).marks s
      = (({} : Nesting).run head).marks ('=' :: (params ++ '=' :: '>' :: result)) := by
        rw [h.eq, marks_append, h.head_marks, List.nil_append]
    _ = '=' :: ({} : Nesting).marks (params ++ '=' :: '>' :: result) :=
        marks_cons_of_isTop h.head_isTop rfl (by decide) _
    _ = '=' :: '(' :: (({} : Nesting).run params).marks ('=' :: '>' :: result) := by
        rw [marks_append, h.params_marks, List.singleton_append]
    _ = '=' :: '(' :: '=' :: ({} : Nesting).marks result := by
        rw [marks_cons_of_isTop h.params_isTop rfl (by decide), harrow]

/-- An alias of a function type whose result is no union is left on its line, or broken around the
parameters of the function. -/
theorem formatLines_functionAlias (o : FormatOptions) (hsource : lines source = [s])
    (hread : ReadsLiterals (scan .code (trim s)))
    (halias : FunctionAlias (trim s) head params result)
    (hresult : '|' ∉ ({} : Nesting).marks result) :
    ∃ line, layoutLines o source = [line] ∧
      breakUnion o (line.takeWhile isBlank) (trimStart line) = none ∧
      (formatLines o source = [line] ∨
        ∃ left right, cutTop? '(' {} (trimStart line) = some (left, right) ∧
          ({} : Nesting).marks left = ['='] ∧
          breakParens o (line.takeWhile isBlank) (trimStart line) =
            some (formatLines o source)) := by
  have hsmarks := halias.marks_eq
  obtain ⟨line, hlayout, hmarks⟩ :=
    exists_layoutLines_eq_singleton o hsource hread (by simp [hsmarks])
  have hbody : ({} : Nesting).marks (trimStart line) =
      '=' :: '(' :: '=' :: ({} : Nesting).marks result := by
    have hblanks : ∀ c ∈ line.takeWhile isBlank, isBlank c = true :=
      fun c hc => List.mem_takeWhile_imp hc
    rw [← hsmarks, ← hmarks, ← marks_append_of_isTop (n := {}) rfl hblanks, trimStart,
      List.takeWhile_append_dropWhile]
  have hnone : breakUnion o (line.takeWhile isBlank) (trimStart line) = none := by
    refine breakUnion_eq_none _ ?_
    rw [hbody]
    simpa using hresult
  have hformat : formatLines o source = breakLine o line := by
    rw [formatLines, hlayout, List.flatMap_singleton]
  refine ⟨line, hlayout, hnone, ?_⟩
  rw [hformat]
  rcases breakLine_cases o line with hsame | hunion | ⟨-, hparens⟩
  · exact Or.inl hsame
  · cases hnone.symm.trans hunion
  · obtain ⟨left, inside, close, hcut, -, hline, -⟩ := exists_of_breakParens_eq_some hparens
    refine Or.inr ⟨left, _, hcut, ?_, hparens⟩
    rw [hline, marks_append, marks_cons_of_isMark (isTop_of_cutTop? hcut) rfl] at hbody
    have hcons : _ = ['='] ++ '(' :: _ := hbody
    exact (append_cons_inj (not_mem_marks_of_cutTop? hcut) (by decide) hcons).1

/-- Bars in brackets and literals do not count. -/
theorem formatLines_functionAlias_handler :
    let head := "declare type Handle<T = A | B> ".toList
    let params := " (event: \"a|b\" | T, done: () => T | null) ".toList
    let source := head ++ '=' :: (params ++ '=' :: '>' :: " void".toList)
    ReadsLiterals (scan .code (trim source)) ∧ '|' ∉ ({} : Nesting).marks " void".toList ∧
      ∃ line, layoutLines {} source = [line] ∧
        breakUnion {} (line.takeWhile isBlank) (trimStart line) = none ∧
        (formatLines {} source = [line] ∨
          ∃ left right, cutTop? '(' {} (trimStart line) = some (left, right) ∧
            ({} : Nesting).marks left = ['='] ∧
            breakParens {} (line.takeWhile isBlank) (trimStart line) =
              some (formatLines {} source)) := by
  intro head params source
  have hsource : lines source = [source] := by decide +kernel
  have hread : ReadsLiterals (scan .code (trim source)) := by decide +kernel
  have halias : FunctionAlias (trim source) head params " void".toList := by decide +kernel
  have hresult : '|' ∉ ({} : Nesting).marks " void".toList := by decide +kernel
  exact ⟨hread, hresult, formatLines_functionAlias {} hsource hread halias hresult⟩

/-- A union that is the result of the function is broken as if it were that of the alias. -/
theorem formatLines_functionAlias_unionResult :
    let head := "type Handle "
    let params := " (event: RequestEvent, resolve: Resolve) "
    let result := " Promise<Response> | Response;"
    let source := head ++ "=" ++ params ++ "=>" ++ result
    FunctionAlias source.toList head.toList params.toList result.toList ∧
      formatSnippet {} source =
        "type Handle =\n\t|" ++ params ++ "=> Promise<Response>\n\t| Response;" := by
  decide +kernel

end ReferencePages
