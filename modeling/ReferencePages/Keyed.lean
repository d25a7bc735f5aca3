/-!
# Keyed lists

Values under distinct keys, in the order in which the keys were first inserted.
-/

namespace ReferencePages

/-- Values with their keys, in order. No key stands twice. -/
structure Keyed (κ α : Type) where
  entries : List (κ × α) := []
  nodup : (entries.map Prod.fst).Nodup := by simp
deriving Repr

namespace Keyed

variable {κ α : Type}

instance : Inhabited (Keyed κ α) := ⟨{}⟩

/-- The keys, in order. -/
def keys (m : Keyed κ α) : List κ := m.entries.map Prod.fst

/-- The values, in order. -/
def values (m : Keyed κ α) : List α := m.entries.map Prod.snd

/-- The entries whose keys satisfy `p`. -/
def filter (m : Keyed κ α) (p : κ → Bool) : Keyed κ α where
  entries := m.entries.filter fun e => p e.1
  nodup := m.nodup.sublist (List.filter_sublist.map Prod.fst)

variable [DecidableEq κ]

/-- The value of a key. -/
def get? (m : Keyed κ α) (key : κ) : Option α := m.entries.lookup key

/-- Put a value under a key of some entries; a key that is there keeps its place. -/
def insertEntry (key : κ) (value : α) : List (κ × α) → List (κ × α)
  | [] => [(key, value)]
  | e :: rest => if e.1 = key then (key, value) :: rest else e :: insertEntry key value rest

theorem mem_map_fst_insertEntry {key k : κ} {value : α} {entries : List (κ × α)} :
    k ∈ (insertEntry key value entries).map Prod.fst ↔ k = key ∨ k ∈ entries.map Prod.fst := by
  induction entries with
  | nil => simp [insertEntry]
  | cons e rest ih =>
    rw [insertEntry]
    split
    · next h => simp [← h]
    · rw [List.map_cons, List.mem_cons, ih, List.map_cons, List.mem_cons, or_left_comm]

/-- Keys that are distinct stay so. -/
theorem nodup_map_fst_insertEntry {key : κ} {value : α} {entries : List (κ × α)}
    (h : (entries.map Prod.fst).Nodup) : ((insertEntry key value entries).map Prod.fst).Nodup := by
  induction entries with
  | nil => simp [insertEntry]
  | cons e rest ih =>
    obtain ⟨hnew, hrest⟩ := List.nodup_cons.1 h
    rw [insertEntry]
    split
    · next hkey => exact List.nodup_cons.2 ⟨hkey ▸ hnew, hrest⟩
    · next hkey =>
      refine List.nodup_cons.2 ⟨fun hmem => ?_, ih hrest⟩
      exact (mem_map_fst_insertEntry.1 hmem).elim hkey hnew

/-- Put a value under a key; a key that is there keeps its place. -/
def insert (m : Keyed κ α) (key : κ) (value : α) : Keyed κ α where
  entries := insertEntry key value m.entries
  nodup := nodup_map_fst_insertEntry m.nodup

/-- The values of some entries, each inserted in turn. -/
def ofList (entries : List (κ × α)) : Keyed κ α :=
  entries.foldl (fun m e => m.insert e.1 e.2) {}

end Keyed

end ReferencePages
