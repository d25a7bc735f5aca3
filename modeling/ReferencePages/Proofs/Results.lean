import Mathlib.Data.List.Forall2

/-!
# Steps that may fail

Two steps succeed together exactly if each of them does (`bind_eq_ok_iff`), and a step for each of
some things if every one of them does, with one result for each (`forall₂_of_mapM_eq_ok`). What
belongs to things that are appended is appended in turn (`forall₂_append_left_iff`), and a list of
results grows with each thing that has one (`forall₂_filter_cons`).
-/

namespace ReferencePages

/-- What corresponds to an appended list is an appended list. -/
theorem forall₂_append_left_iff {α β : Type} {R : α → β → Prop} {xs xs' : List α} {ys : List β} :
    List.Forall₂ R (xs ++ xs') ys ↔
      ∃ zs zs', List.Forall₂ R xs zs ∧ List.Forall₂ R xs' zs' ∧ ys = zs ++ zs' := by
  constructor
  · intro h
    have hfirst := List.forall₂_take xs.length h
    have hrest := List.forall₂_drop xs.length h
    rw [List.take_left] at hfirst
    rw [List.drop_left] at hrest
    exact ⟨_, _, hfirst, hrest, (List.take_append_drop xs.length ys).symm⟩
  · rintro ⟨zs, zs', hfirst, hrest, rfl⟩
    exact List.rel_append hfirst hrest

/-- One more of some things adds its result in front, if it has one exactly where it is picked. -/
theorem forall₂_filter_cons {α β : Type} {R : α → β → Prop} {p : α → Prop} [DecidablePred p] {x : α}
    {y? : Option β} {xs : List α} {ys : List β} (hsome : p x → ∃ y, y? = some y ∧ R x y)
    (hnone : ¬p x → y? = none) (h : List.Forall₂ R (xs.filter fun x => p x) ys) :
    List.Forall₂ R ((x :: xs).filter fun x => p x) (y?.toList ++ ys) := by
  by_cases hx : p x
  · obtain ⟨y, rfl, hy⟩ := hsome hx
    rw [List.filter_cons_of_pos (by simpa using hx)]
    exact .cons hy h
  · rw [List.filter_cons_of_neg (by simpa using hx), hnone hx]
    exact h

theorem bind_eq_ok_iff {α β ε : Type} {x : Except ε α} {f : α → Except ε β} {y : β} :
    (x >>= f) = .ok y ↔ ∃ a, x = .ok a ∧ f a = .ok y := by
  cases x <;> simp [bind, Except.bind]

theorem forall₂_of_mapM_eq_ok {α β ε : Type} {f : α → Except ε β} {xs : List α} {ys : List β}
    (h : xs.mapM f = .ok ys) : List.Forall₂ (fun x y => f x = .ok y) xs ys := by
  induction xs generalizing ys with
  | nil =>
    cases h
    exact .nil
  | cons x xs ih =>
    rw [List.mapM_cons] at h
    rcases hx : f x with e | y
    · rw [hx] at h
      cases h
    · rcases hxs : xs.mapM f with e | rest
      · rw [hx, hxs] at h
        cases h
      · rw [hx, hxs] at h
        cases h
        exact .cons hx (ih hxs)

theorem exists_of_mapM_eq_ok {α β ε : Type} {f : α → Except ε β} {xs : List α} {ys : List β}
    (h : xs.mapM f = .ok ys) :
    (∀ x ∈ xs, ∃ y ∈ ys, f x = .ok y) ∧ ∀ y ∈ ys, ∃ x ∈ xs, f x = .ok y := by
  have hall := forall₂_of_mapM_eq_ok h
  clear h
  induction hall with
  | nil => simp
  | @cons x y xs ys hx hxs ih =>
    obtain ⟨hall, hback⟩ := ih
    refine ⟨fun x' hx' => ?_, fun y' hy' => ?_⟩
    · rcases List.mem_cons.1 hx' with rfl | hx'
      · exact ⟨y, by simp, hx⟩
      · obtain ⟨y', hy', hf⟩ := hall x' hx'
        exact ⟨y', by simp [hy'], hf⟩
    · rcases List.mem_cons.1 hy' with rfl | hy'
      · exact ⟨x, by simp, hx⟩
      · obtain ⟨x', hx', hf⟩ := hback y' hy'
        exact ⟨x', by simp [hx'], hf⟩

end ReferencePages
