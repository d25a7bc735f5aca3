import ReferencePages.Text.Blank

/-!
# Places in bytes

A place in a text is the number of bytes before it in UTF-8. A text can be cut at a place only
where a character begins or the text ends, so `splitBytes?` gives nothing at any other place
(`splitBytes?_eq_some_iff`). What stands behind a place, or between two of them, is told by such
cuts: nothing is read behind the end of a text, in the middle of a character, or up to a place
that comes too early.
-/

namespace ReferencePages

/-- The number of bytes of a text. -/
def byteLength (s : List Char) : Nat := (String.ofList s).utf8ByteSize

@[simp] theorem byteLength_nil : byteLength [] = 0 :=
  rfl

@[simp] theorem byteLength_append (a b : List Char) :
    byteLength (a ++ b) = byteLength a + byteLength b := by
  rw [byteLength, String.ofList_append, String.utf8ByteSize_append]
  rfl

@[simp] theorem byteLength_cons (c : Char) (s : List Char) :
    byteLength (c :: s) = c.utf8Size + byteLength s := by
  have hone : byteLength [c] = c.utf8Size := by
    rw [byteLength, ← String.singleton_eq_ofList, String.utf8ByteSize_singleton]
  rw [← List.singleton_append, byteLength_append, hone]

theorem byteLength_concat (s : List Char) (c : Char) :
    byteLength (s ++ [c]) = byteLength s + c.utf8Size := by
  rw [byteLength_append, byteLength_cons, byteLength_nil, Nat.add_zero]

/-- What stands before and behind a place, if the text can be cut there. -/
def splitBytes? : Nat → List Char → Option (List Char × List Char)
  | 0, s => some ([], s)
  | _ + 1, [] => none
  | n + 1, c :: s =>
    if c.utf8Size ≤ n + 1 then
      (splitBytes? (n + 1 - c.utf8Size) s).map fun cut => (c :: cut.1, cut.2)
    else none

/-- What stands behind a place, if the text can be cut there. -/
def dropBytes? (place : Nat) (s : List Char) : Option (List Char) :=
  (splitBytes? place s).map Prod.snd

/-- What stands between two places, if the text can be cut at both. -/
def sliceBytes? (lo hi : Nat) (s : List Char) : Option (List Char) :=
  (splitBytes? hi s).bind fun cut => dropBytes? lo cut.1

/-- A text is cut at a place exactly if that many bytes stand before the cut. -/
theorem splitBytes?_eq_some_iff {n : Nat} {s a b : List Char} :
    splitBytes? n s = some (a, b) ↔ s = a ++ b ∧ n = byteLength a := by
  induction s generalizing n a with
  | nil =>
    cases n with
    | zero => cases a <;> simp [splitBytes?, eq_comm]
    | succ n => cases a <;> simp [splitBytes?]
  | cons c s ih =>
    have hpos := c.utf8Size_pos
    cases n with
    | zero =>
      cases a with
      | nil => simp [splitBytes?, eq_comm]
      | cons d a =>
        have := d.utf8Size_pos
        simp [splitBytes?]
        omega
    | succ n =>
      cases a with
      | nil => rw [splitBytes?]; split <;> simp
      | cons d a =>
        rw [splitBytes?, List.cons_append, List.cons.injEq, byteLength_cons]
        split
        · next hle =>
          rw [Option.map_eq_some_iff]
          constructor
          · rintro ⟨⟨a', b'⟩, hcut, heq⟩
            obtain ⟨hhead, rfl⟩ := Prod.mk.inj heq
            obtain ⟨rfl, rfl⟩ := List.cons.inj hhead
            obtain ⟨rfl, hn : n + 1 - c.utf8Size = byteLength a'⟩ := ih.1 hcut
            exact ⟨⟨rfl, rfl⟩, by simp only; omega⟩
          · rintro ⟨⟨rfl, rfl⟩, hn⟩
            exact ⟨(a, b), ih.2 ⟨rfl, by omega⟩, rfl⟩
        · next hlt =>
          constructor
          · rintro ⟨⟩
          · rintro ⟨⟨rfl, -⟩, hn⟩
            omega

/-- A text is cut at a place in one way. -/
theorem append_inj_of_byteLength {a b a' b' : List Char} (h : a ++ b = a' ++ b')
    (hlength : byteLength a = byteLength a') : a = a' ∧ b = b' := by
  have hcut : splitBytes? (byteLength a) (a ++ b) = some (a, b) :=
    splitBytes?_eq_some_iff.2 ⟨rfl, rfl⟩
  have hcut' : splitBytes? (byteLength a) (a ++ b) = some (a', b') :=
    splitBytes?_eq_some_iff.2 ⟨h, hlength⟩
  exact Prod.mk.inj (Option.some.inj (hcut.symm.trans hcut'))

theorem dropBytes?_append (a b : List Char) : dropBytes? (byteLength a) (a ++ b) = some b := by
  rw [dropBytes?, splitBytes?_eq_some_iff.2 ⟨rfl, rfl⟩]
  rfl

theorem sliceBytes?_append (a b c : List Char) :
    sliceBytes? (byteLength a) (byteLength a + byteLength b) (a ++ b ++ c) = some b := by
  have hcut : splitBytes? (byteLength a + byteLength b) (a ++ b ++ c) = some (a ++ b, c) :=
    splitBytes?_eq_some_iff.2 ⟨rfl, (byteLength_append a b).symm⟩
  rw [sliceBytes?, hcut]
  exact dropBytes?_append a b

end ReferencePages
