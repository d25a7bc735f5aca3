import Mathlib.Data.List.Nodup
import ReferencePages.Keyed

/-!
# Keys and values

A key has the value of its entry, and there is only one (`get?_eq_some_iff`). A value that is put
under a key is the value of that key and of no other (`get?_insert`).
-/

namespace ReferencePages.Keyed

variable {κ α : Type} [DecidableEq κ] {m : Keyed κ α} {key : κ} {value : α}

theorem lookup_cons_pair (k key : κ) (value : α) (entries : List (κ × α)) :
    ((key, value) :: entries).lookup k = if k = key then some value else entries.lookup k := by
  rw [List.lookup_cons]
  by_cases h : k = key
  · simp [h]
  · rw [if_neg h, beq_eq_false_iff_ne.2 h]

theorem isSome_get?_iff : (m.get? key).isSome ↔ key ∈ m.keys := by
  rw [get?, List.lookup_isSome_iff, keys, List.mem_map]
  exact exists_congr fun e => and_congr_right fun _ => beq_iff_eq.trans eq_comm

theorem get?_eq_some_iff : m.get? key = some value ↔ (key, value) ∈ m.entries := by
  obtain ⟨entries, hnodup⟩ := m
  rw [get?]
  induction entries with
  | nil => simp
  | cons e rest ih =>
    obtain ⟨k, v⟩ := e
    obtain ⟨hnew, hrest⟩ := List.nodup_cons.1 hnodup
    rw [lookup_cons_pair, List.mem_cons, Prod.mk.injEq, ← ih hrest]
    split
    · next hkey =>
      have hnone : rest.lookup key ≠ some value := fun hlookup =>
        hnew (List.mem_map.2 ⟨(key, value), (ih hrest).1 hlookup, hkey⟩)
      rw [or_iff_left hnone, Option.some.injEq, and_iff_right hkey, eq_comm]
    · next hkey => rw [or_iff_right fun h => hkey h.1]

theorem mem_keys_of_get? (h : m.get? key = some value) : key ∈ m.keys :=
  isSome_get?_iff.1 (by rw [h]; rfl)

theorem lookup_insertEntry (k key : κ) (value : α) (entries : List (κ × α)) :
    (insertEntry key value entries).lookup k =
      if k = key then some value else entries.lookup k := by
  induction entries with
  | nil => exact lookup_cons_pair k key value []
  | cons e rest ih =>
    obtain ⟨key', value'⟩ := e
    rw [insertEntry, lookup_cons_pair]
    split
    · next hkey =>
      obtain rfl : key' = key := hkey
      rw [lookup_cons_pair]
      split <;> rfl
    · next hkey =>
      rw [lookup_cons_pair, ih]
      split
      · next hk => rw [if_neg fun h => hkey (hk.symm.trans h)]
      · rfl

theorem insertEntry_insertEntry (key : κ) (value value' : α) (entries : List (κ × α)) :
    insertEntry key value' (insertEntry key value entries) = insertEntry key value' entries := by
  induction entries with
  | nil => simp [insertEntry]
  | cons e rest ih => by_cases h : e.1 = key <;> simp [insertEntry, h, ih]

/-- A value takes the place of the one that was put under its key before. -/
theorem insert_insert (m : Keyed κ α) (key : κ) (value value' : α) :
    (m.insert key value).insert key value' = m.insert key value' := by
  simp only [insert, insertEntry_insertEntry]

/-- Putting a value under a key changes the value of that key and of no other. -/
theorem get?_insert (m : Keyed κ α) (k key : κ) (value : α) :
    (m.insert key value).get? k = if k = key then some value else m.get? k :=
  lookup_insertEntry k key value m.entries

end ReferencePages.Keyed
