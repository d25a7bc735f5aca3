import Mathlib.Data.List.Nodup
import ReferencePages.Symbol

/-!
# Order of names

Sorting by name is stable: the result holds the same things in order of name, and things of one
name are in the order they had (`stablySorted_sortByName`). What is in order already stays as it
is. Where all names differ, the order that things had does not matter (`sortByName_eq_of_perm`).
-/

namespace ReferencePages

variable {α : Type} {name : α → String}

/-- Things are in order of name. -/
def InOrder (name : α → String) (xs : List α) : Prop := xs.Pairwise fun x y => name x ≤ name y

/-- One list is another in order of name, where things of one name keep their order. -/
structure StablySorted (name : α → String) (xs ys : List α) : Prop where
  perm : ys.Perm xs
  inOrder : InOrder name ys
  stable : ∀ n, ys.filter (name · = n) = xs.filter (name · = n)

theorem sortByName_of_inOrder {xs : List α} (h : InOrder name xs) : sortByName name xs = xs :=
  List.mergeSort_of_pairwise (h.imp fun hle => by simpa using hle)

/-- Sorting by name is stable. -/
theorem stablySorted_sortByName (name : α → String) (xs : List α) :
    StablySorted name xs (sortByName name xs) := by
  have htrans : ∀ x y z : α, decide (name x ≤ name y) = true → decide (name y ≤ name z) = true →
      decide (name x ≤ name z) = true := fun x y z hxy hyz => by
    simp only [decide_eq_true_eq] at *
    exact String.le_trans hxy hyz
  have htotal : ∀ x y : α, (decide (name x ≤ name y) || decide (name y ≤ name x)) = true :=
    fun x y => by
      simpa using String.le_total (name x) (name y)
  have hperm : (sortByName name xs).Perm xs := List.mergeSort_perm xs _
  refine ⟨hperm, ?_, fun n => ?_⟩
  · exact (List.pairwise_mergeSort htrans htotal xs).imp fun hle => by simpa using hle
  · -- The things of one name are in order as they stand, so sorting leaves them in that order.
    have hpairwise : (xs.filter (name · = n)).Pairwise fun x y =>
        decide (name x ≤ name y) = true := by
      refine List.pairwise_of_forall_mem_list fun x hx y hy => ?_
      have hx : name x = n := by simpa using (List.mem_filter.1 hx).2
      have hy : name y = n := by simpa using (List.mem_filter.1 hy).2
      simp only [hx, hy, String.le_refl, decide_true]
    have hsub := (List.sublist_mergeSort htrans htotal hpairwise List.filter_sublist).filter
      (name · = n)
    rw [List.filter_filter] at hsub
    simp only [Bool.and_self] at hsub
    exact (hsub.eq_of_length (hperm.filter _).length_eq.symm).symm

/-- Things in order of name whose names all differ have only this order. -/
theorem InOrder.eq_of_perm {xs ys : List α} (hxs : InOrder name xs) (hys : InOrder name ys)
    (hperm : xs.Perm ys) (hnodup : (xs.map name).Nodup) : xs = ys := by
  refine hperm.eq_of_pairwise (fun x y hx hy hle hge => ?_) hxs hys
  exact List.inj_on_of_nodup_map hnodup hx (hperm.mem_iff.2 hy) (String.le_antisymm hle hge)

theorem sortByName_eq_of_perm {xs ys : List α} (hperm : xs.Perm ys)
    (hnodup : (xs.map name).Nodup) : sortByName name xs = sortByName name ys := by
  have hxs := stablySorted_sortByName name xs
  have hys := stablySorted_sortByName name ys
  exact hxs.inOrder.eq_of_perm hys.inOrder ((hxs.perm.trans hperm).trans hys.perm.symm)
    ((hxs.perm.map name).nodup_iff.2 hnodup)

end ReferencePages
