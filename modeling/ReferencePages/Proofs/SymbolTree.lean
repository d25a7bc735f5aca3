import ReferencePages.Symbol

/-!
# Symbols as trees

What is true of a symbol if it is true of its members is true of every symbol
(`Symbol.memberInduction`), however deep its members go. Lists of texts and lists of symbols in
preorder are put together from those of the members.
-/

namespace ReferencePages

variable {P : String → Prop} {s : Symbol} {m : DocModule}

namespace Symbol

mutual

/-- A property of a symbol that its members hand on to it is true of every symbol. -/
@[elab_as_elim]
theorem memberInduction {motive : Symbol → Prop}
    (symbol : ∀ s, (∀ c ∈ s.children, motive c) → motive s) : ∀ s : Symbol, motive s
  | ⟨name, comment, snippet, deprecated, children, bullets⟩ =>
    symbol ⟨name, comment, snippet, deprecated, children, bullets⟩
      (memberInductionOf symbol children)

/-- The same for several symbols. -/
theorem memberInductionOf {motive : Symbol → Prop}
    (symbol : ∀ s, (∀ c ∈ s.children, motive c) → motive s) : ∀ ss : List Symbol, ∀ s ∈ ss, motive s
  | [] => fun _ hs => nomatch hs
  | s :: ss => List.forall_mem_cons.2 ⟨memberInduction symbol s, memberInductionOf symbol ss⟩

end

theorem textsOf_eq_flatMap (ss : List Symbol) : textsOf ss = ss.flatMap texts := by
  induction ss with
  | nil => rfl
  | cons s ss ih => rw [textsOf, ih, List.flatMap_cons]

theorem preorderOf_eq_flatMap (ss : List Symbol) : preorderOf ss = ss.flatMap preorder := by
  induction ss with
  | nil => rfl
  | cons s ss ih => rw [preorderOf, ih, List.flatMap_cons]

theorem preorder_eq (s : Symbol) : s.preorder = s :: s.children.flatMap preorder := by
  cases s
  rw [preorder, preorderOf_eq_flatMap]

/-- Something is true of each text of a symbol and of the symbols below it. -/
structure EachText (P : String → Prop) (s : Symbol) : Prop where
  name : P s.name
  comment : P s.comment
  snippet : P s.snippet
  notice : ∀ t ∈ s.deprecated, P t
  bullet : ∀ t ∈ s.bullets, P t
  member : ∀ c ∈ s.children, ∀ t ∈ c.texts, P t

theorem eachText (h : ∀ t ∈ s.texts, P t) : s.EachText P := by
  obtain ⟨name, comment, snippet, deprecated, children, bullets⟩ := s
  simp only [texts, textsOf_eq_flatMap, List.forall_mem_append, List.forall_mem_cons,
    List.mem_flatMap, Option.mem_toList] at h
  obtain ⟨⟨⟨hname, hcomment, hsnippet, hnotice⟩, hbullet⟩, hmember⟩ := h
  exact ⟨hname, hcomment, hsnippet, hnotice, hbullet, fun c hc t ht => hmember t ⟨c, hc, ht⟩⟩

end Symbol

namespace DocModule

/-- Something is true of each text of a module. -/
structure EachText (P : String → Prop) (m : DocModule) : Prop where
  name : P m.name
  comment : P m.comment
  exported : ∀ s ∈ m.exports, ∀ t ∈ s.texts, P t
  type : ∀ s ∈ m.types, ∀ t ∈ s.texts, P t

theorem eachText (h : ∀ t ∈ m.texts, P t) : m.EachText P := by
  simp only [texts, Symbol.textsOf_eq_flatMap, List.forall_mem_append, List.forall_mem_cons,
    List.mem_flatMap] at h
  obtain ⟨⟨hname, hcomment, hexported⟩, htype⟩ := h
  exact ⟨hname, hcomment, fun s hs t ht => hexported t ⟨s, hs, ht⟩,
    fun s hs t ht => htype t ⟨s, hs, ht⟩⟩

end DocModule

end ReferencePages
