import ReferencePages.Sync.Step

/-!
# Running steps

`runOn` takes a step apart: a sequence of steps runs the first, and goes on from the tree that
it leaves unless it failed (`runOn_bind`). A step that only reads leaves the tree as it is
(`runOn_reading`).
-/

namespace ReferencePages.TreeStep

variable {α β : Type}

@[simp] theorem runOn_pure (x : α) (t : FileTree) : (pure x : TreeStep α).runOn t = (.ok x, t) :=
  rfl

@[simp] theorem runOn_get (t : FileTree) : (get : TreeStep FileTree).runOn t = (.ok t, t) :=
  rfl

@[simp] theorem runOn_set (s t : FileTree) : (set s : TreeStep Unit).runOn t = (.ok (), s) :=
  rfl

theorem runOn_bind (x : TreeStep α) (f : α → TreeStep β) (t : FileTree) :
    (x >>= f).runOn t =
      match x.runOn t with
      | (.ok a, s) => (f a).runOn s
      | (.error e, s) => (.error e, s) := by
  simp only [runOn, ExceptT.run_bind, StateT.run_bind]
  rcases (ExceptT.run x).run t with ⟨a | a, s⟩ <;> rfl

theorem runOn_bind_of_ok {x : TreeStep α} {f : α → TreeStep β} {t s : FileTree} {a : α}
    (h : x.runOn t = (.ok a, s)) : (x >>= f).runOn t = (f a).runOn s := by
  rw [runOn_bind, h]

theorem runOn_bind_of_error {x : TreeStep α} {f : α → TreeStep β} {t s : FileTree} {e : DocError}
    (h : x.runOn t = (.error e, s)) : (x >>= f).runOn t = (.error e, s) := by
  rw [runOn_bind, h]

/-- A sequence of steps succeeds if both do. -/
theorem runOn_bind_eq_ok {x : TreeStep α} {f : α → TreeStep β} {t s : FileTree} {b : β}
    (h : (x >>= f).runOn t = (.ok b, s)) :
    ∃ a r, x.runOn t = (.ok a, r) ∧ (f a).runOn r = (.ok b, s) := by
  rcases hx : x.runOn t with ⟨e | a, r⟩
  · rw [runOn_bind_of_error hx] at h
    cases h
  · rw [runOn_bind_of_ok hx] at h
    exact ⟨a, r, rfl, h⟩

/-- A sequence of steps fails if the first does, or the second behind it. -/
theorem runOn_bind_eq_error {x : TreeStep α} {f : α → TreeStep β} {t s : FileTree} {e : DocError}
    (h : (x >>= f).runOn t = (.error e, s)) :
    x.runOn t = (.error e, s) ∨
      ∃ a r, x.runOn t = (.ok a, r) ∧ (f a).runOn r = (.error e, s) := by
  rcases hx : x.runOn t with ⟨e' | a, r⟩
  · rw [runOn_bind_of_error hx] at h
    cases h
    exact Or.inl rfl
  · rw [runOn_bind_of_ok hx] at h
    exact Or.inr ⟨a, r, rfl, h⟩

/-- A step that is followed by one that leaves the tree as it is. -/
theorem snd_runOn_bind {x : TreeStep α} {f : α → TreeStep β} (t : FileTree)
    (h : ∀ a s, ((f a).runOn s).2 = s) : ((x >>= f).runOn t).2 = (x.runOn t).2 := by
  rw [runOn_bind]
  rcases x.runOn t with ⟨e | a, s⟩
  · rfl
  · exact h a s

/-- A step that is followed by one whose outcome has nothing to do with the tree. -/
theorem fst_runOn_bind_congr {x : TreeStep α} {f : α → TreeStep β} {s t : FileTree}
    (hx : (x.runOn s).1 = (x.runOn t).1) (hf : ∀ a r r', ((f a).runOn r).1 = ((f a).runOn r').1) :
    ((x >>= f).runOn s).1 = ((x >>= f).runOn t).1 := by
  rw [runOn_bind, runOn_bind]
  rcases hs : x.runOn s with ⟨a, s'⟩
  rcases ht : x.runOn t with ⟨b, t'⟩
  rw [hs, ht] at hx
  obtain rfl : a = b := hx
  rcases a with e | a
  · rfl
  · exact hf a s' t'

@[simp] theorem runOn_map (f : α → β) (x : TreeStep α) (t : FileTree) :
    (f <$> x).runOn t = ((x.runOn t).1.map f, (x.runOn t).2) := by
  rw [← bind_pure_comp, runOn_bind]
  rcases x.runOn t with ⟨e | a, s⟩ <;> rfl

@[simp] theorem runOn_reading (f : FileTree → Except DocError α) (t : FileTree) :
    (reading f).runOn t = (f t, t) := by
  unfold reading
  rw [runOn_bind_of_ok (runOn_get t)]
  cases f t <;> rfl

@[simp] theorem runOn_ofExcept (x : Except DocError α) (t : FileTree) :
    (ofExcept x).runOn t = (x, t) :=
  runOn_reading _ t

end ReferencePages.TreeStep
