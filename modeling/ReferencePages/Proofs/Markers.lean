import Mathlib.Control.Monad.Basic
import ReferencePages.Include
import ReferencePages.Proofs.Text.Search

/-!
# Markers that substitution leaves

Substitution puts renderings into a page as they are. What it leaves therefore holds a marker
exactly if a marker touches one of these renderings: lies in it, or reaches over one of its ends
(`hasMarkers_substitute`). The text between two renderings never holds one, since a marker there
would have been found.

A comment that quotes a marker is such a rendering (`hasMarkers_substitute_quotingTable`).
-/

namespace ReferencePages

/-! ## Markers -/

/-- A marker: a name on one line, in its brackets. -/
def IsMarker (m : List Char) : Prop :=
  ∃ name, name ≠ [] ∧ '\n' ∉ name ∧ m = markerOpen ++ name ++ markerClose

theorem IsMarker.ne_nil {m : List Char} (h : IsMarker m) : m ≠ [] := by
  obtain ⟨name, hname, -, rfl⟩ := h
  simp [hname]

theorem markerName?_eq_some {s name : List Char} (h : markerName? s = some name) :
    name ≠ [] ∧ '\n' ∉ name ∧ ∃ rest, s = name ++ markerClose ++ rest := by
  induction s generalizing name with
  | nil => cases h
  | cons c s ih =>
    unfold markerName? at h
    split at h
    · cases h
    · next hc =>
      split at h
      · next hclose =>
        obtain ⟨rest, rfl⟩ := startsWith_iff.1 hclose
        cases h
        exact ⟨by simp, by simpa using Ne.symm hc, rest, rfl⟩
      · obtain ⟨name', hname', rfl⟩ := Option.map_eq_some_iff.1 h
        obtain ⟨-, hline, rest, rfl⟩ := ih hname'
        exact ⟨by simp, by simp [hline, Ne.symm hc], rest, rfl⟩

theorem isSome_markerName? {name : List Char} (hne : name ≠ []) (hline : '\n' ∉ name)
    (rest : List Char) : (markerName? (name ++ markerClose ++ rest)).isSome := by
  induction name with
  | nil => exact absurd rfl hne
  | cons c name ih =>
    obtain ⟨hc, hname⟩ := List.ne_and_not_mem_of_not_mem_cons hline
    rw [List.cons_append, List.cons_append, markerName?, if_neg hc.symm]
    split
    · rfl
    · next hclose =>
      rw [Option.isSome_map]
      refine ih (fun hnil => hclose ?_) hname
      exact startsWith_iff.2 ⟨rest, by rw [hnil, List.nil_append]⟩

/-- The pattern matches exactly where a marker begins. -/
theorem isSome_includeMarker_iff {s : List Char} :
    (includeMarker s).isSome ↔ ∃ m rest, IsMarker m ∧ s = m ++ rest := by
  constructor
  · intro h
    obtain ⟨hit, hit_eq⟩ := Option.isSome_iff_exists.1 h
    obtain ⟨t, ht, hrest⟩ := Option.bind_eq_some_iff.1 hit_eq
    obtain ⟨name, hname, -⟩ := Option.bind_eq_some_iff.1 hrest
    obtain ⟨hne, hline, rest, rfl⟩ := markerName?_eq_some hname
    refine ⟨_, rest, ⟨name, hne, hline, rfl⟩, ?_⟩
    rw [dropPrefix?_eq_some_iff.1 ht]
    simp only [List.append_assoc]
  · rintro ⟨m, rest, ⟨name, hne, hline, rfl⟩, rfl⟩
    have hopen : dropPrefix? markerOpen (markerOpen ++ name ++ markerClose ++ rest) =
        some (name ++ markerClose ++ rest) :=
      dropPrefix?_eq_some_iff.2 (by simp only [List.append_assoc])
    obtain ⟨found, hfound⟩ := Option.isSome_iff_exists.1 (isSome_markerName? hne hline rest)
    rw [includeMarker, hopen, Option.bind_eq_bind, Option.bind_some, hfound]
    rfl

/-- A text has markers exactly if a marker stands in it somewhere. -/
theorem hasMarkers_iff {s : String} :
    hasMarkers s = true ↔ ∃ a m b, IsMarker m ∧ s.toList = a ++ m ++ b := by
  refine hasMatch_iff.trans ⟨?_, ?_⟩
  · rintro ⟨a, c, b, hs, hmatch⟩
    obtain ⟨m, rest, hm, hb⟩ := isSome_includeMarker_iff.1 hmatch
    exact ⟨a, m, rest, hm, by rw [hs, hb, List.append_assoc]⟩
  · rintro ⟨a, m, b, hm, hs⟩
    obtain ⟨c, m', rfl⟩ := List.exists_cons_of_ne_nil hm.ne_nil
    exact ⟨a, c, m' ++ b, by simpa using hs, isSome_includeMarker_iff.2 ⟨_, b, hm, rfl⟩⟩

/-- Between two matches, the pieces of a text spell no marker. -/
theorem not_isMarker_of_pieces_eq {s m : List Char} {before after : List (Piece (List Char))}
    (h : pieces includeMarker s = before ++ m.map .char ++ after) : ¬IsMarker m := by
  intro hm
  obtain ⟨c, m', rfl⟩ := List.exists_cons_of_ne_nil hm.ne_nil
  obtain ⟨a, b, -, hnone, hrest⟩ := exists_of_pieces_eq_char (h.trans (List.append_assoc _ _ _))
  obtain ⟨rest, rfl⟩ := append_of_pieces_eq hrest
  have hsome : (includeMarker (c :: (m' ++ rest))).isSome :=
    isSome_includeMarker_iff.2 ⟨_, rest, hm, rfl⟩
  rw [hnone] at hsome
  cases hsome

/-! ## Substitution -/

namespace ReferenceTable

/-- What a table puts in the stead of a piece of a page; nothing for a name it does not know. -/
def fill (table : ReferenceTable) : Piece (List Char) → List Char
  | .char c => [c]
  | .hit name =>
    match table.resolve (String.ofList name) with
    | .ok text => text.toList
    | .error _ => []

variable {table : ReferenceTable}

theorem substitutePieces_eq_ok {ps : List (Piece (List Char))} {out : List Char}
    (h : table.substitutePieces ps = .ok out) : out = ps.flatMap table.fill := by
  induction ps generalizing out with
  | nil =>
    cases h
    rfl
  | cons p ps ih =>
    cases p with
    | char c =>
      rcases hps : table.substitutePieces ps with e | rest
      · rw [substitutePieces, hps] at h
        cases h
      · rw [substitutePieces, hps] at h
        cases h
        rw [List.flatMap_cons, ← ih hps]
        rfl
    | hit name =>
      rcases hname : table.resolve (String.ofList name) with e | text
      · rw [substitutePieces, hname] at h
        cases h
      · rcases hps : table.substitutePieces ps with e | rest
        · rw [substitutePieces, hname, hps] at h
          cases h
        · rw [substitutePieces, hname, hps] at h
          cases h
          rw [List.flatMap_cons, ← ih hps, fill, hname]

theorem substitute_eq_ok {text out : String} (h : table.substitute text = .ok out) :
    out.toList = (pieces includeMarker text.toList).flatMap table.fill := by
  rcases hps : table.substitutePieces (pieces includeMarker text.toList) with e | cs
  · rw [substitute, hps] at h
    cases h
  · rw [substitute, hps] at h
    cases h
    rw [String.toList_ofList, substitutePieces_eq_ok hps]

@[simp] theorem flatMap_fill_map_char (cs : List Char) :
    (cs.map Piece.char).flatMap table.fill = cs := by
  induction cs with
  | nil => rfl
  | cons c cs ih => rw [List.map_cons, List.flatMap_cons, ih, fill, List.singleton_append]

end ReferenceTable

/-- A marker lies in a rendering that stands between two texts, or reaches over one of its ends. -/
def MarkerTouches (before rendering after : List Char) : Prop :=
  ∃ a m b, IsMarker m ∧ before ++ rendering ++ after = a ++ m ++ b ∧
    a.length < before.length + rendering.length ∧ before.length < a.length + m.length

/-- A marker in a page that was filled in touches a rendering. -/
theorem exists_markerTouches {table : ReferenceTable} {s m a b : List Char} (hm : IsMarker m)
    (h : (pieces includeMarker s).flatMap table.fill = a ++ m ++ b) :
    ∃ before name after, pieces includeMarker s = before ++ .hit name :: after ∧
      MarkerTouches (before.flatMap table.fill) (table.fill (.hit name))
        (after.flatMap table.fill) := by
  -- It is enough to find a match that is filled in neither before the marker nor behind it.
  have hfound : ∀ before name after, pieces includeMarker s = before ++ .hit name :: after →
      a.length < (before.flatMap table.fill).length + (table.fill (.hit name)).length →
      (before.flatMap table.fill).length < a.length + m.length →
      ∃ before name after, pieces includeMarker s = before ++ .hit name :: after ∧
        MarkerTouches (before.flatMap table.fill) (table.fill (.hit name))
          (after.flatMap table.fill) := fun before name after hpieces h₁ h₂ => by
    refine ⟨before, name, after, hpieces, a, m, b, hm, ?_, h₁, h₂⟩
    rw [← h, hpieces, List.flatMap_append, List.flatMap_cons, List.append_assoc]
  obtain ⟨c, m', rfl⟩ := List.exists_cons_of_ne_nil hm.ne_nil
  rw [List.append_assoc, List.cons_append] at h
  obtain ⟨before, p, after, hpieces, hle, hlt⟩ := exists_of_flatMap_eq_cons h
  cases p with
  | hit name => exact hfound before name after hpieces hlt (by rw [List.length_cons]; omega)
  | char d =>
    have hlen : (before.flatMap table.fill).length = a.length := by
      simp only [ReferenceTable.fill, List.length_singleton] at hlt
      omega
    rw [hpieces, List.flatMap_append, List.flatMap_cons] at h
    obtain ⟨-, hrest⟩ := List.append_inj h hlen
    obtain ⟨rfl, hafter⟩ := List.cons.inj hrest
    rcases prefix_of_flatMap_eq_append (fun _ => rfl) hafter with
      ⟨after', rfl⟩ | ⟨cs, name, after', rfl, hcs⟩
    · have hspelled : pieces includeMarker s = before ++ (d :: m').map .char ++ after' := by
        rw [hpieces, List.map_cons, List.append_assoc, List.cons_append]
      exact absurd hm (not_isMarker_of_pieces_eq hspelled)
    · have hlen' : ((before ++ Piece.char d :: cs.map Piece.char).flatMap table.fill).length =
          a.length + (1 + cs.length) := by
        rw [List.flatMap_append, List.flatMap_cons, ReferenceTable.flatMap_fill_map_char,
          List.length_append, List.length_append, hlen, ReferenceTable.fill, List.length_singleton]
      refine hfound (before ++ Piece.char d :: cs.map Piece.char) name after' ?_ ?_ ?_
      · rw [hpieces, List.append_assoc, List.cons_append]
      · omega
      · simp only [List.length_cons]
        omega

/-- Substitution leaves no marker exactly where no marker touches one of the renderings that it
puts into the page. -/
theorem hasMarkers_substitute (table : ReferenceTable) (text out : String)
    (h : table.substitute text = .ok out) :
    hasMarkers out = false ↔ ∀ before name after,
      pieces includeMarker text.toList = before ++ .hit name :: after →
        ¬MarkerTouches (before.flatMap table.fill) (table.fill (.hit name))
          (after.flatMap table.fill) := by
  have hout := ReferenceTable.substitute_eq_ok h
  constructor
  · rintro hnone before name after hpieces ⟨a, m, b, hm, heq, -, -⟩
    have hmarkers : hasMarkers out = true := by
      refine hasMarkers_iff.2 ⟨a, m, b, hm, ?_⟩
      rw [hout, hpieces, List.flatMap_append, List.flatMap_cons, ← heq, List.append_assoc]
    rw [hnone] at hmarkers
    cases hmarkers
  · intro hall
    refine Bool.eq_false_iff.2 fun hmarkers => ?_
    obtain ⟨a, m, b, hm, heq⟩ := hasMarkers_iff.1 hmarkers
    obtain ⟨before, name, after, hpieces, htouches⟩ := exists_markerTouches hm (hout ▸ heq)
    exact hall before name after hpieces htouches

/-- A table of a module whose comment quotes the marker of another. -/
def quotingTable : ReferenceTable where
  modules := [
    { name := "a", comment := "<!-- @include b -->" },
    { name := "b", comment := "B" }]

/-- The markup of the other module has no marker, so the page of its marker has none either. -/
theorem hasMarkers_substitute_plain :
    quotingTable.substitute "see <!-- @include b -->." = .ok "see B." ∧
      (hasMarkers "see B." = false ↔ ∀ before name after,
        pieces includeMarker "see <!-- @include b -->.".toList = before ++ .hit name :: after →
          ¬MarkerTouches (before.flatMap quotingTable.fill) (quotingTable.fill (.hit name))
            (after.flatMap quotingTable.fill)) := by
  have h : quotingTable.substitute "see <!-- @include b -->." = .ok "see B." := by decide +kernel
  exact ⟨h, hasMarkers_substitute quotingTable _ _ h⟩

/-- The quoted marker is left. -/
theorem hasMarkers_substitute_quotingTable :
    quotingTable.substitute "<!-- @include a -->" = .ok "<!-- @include b -->" ∧
      hasMarkers "<!-- @include b -->" = true := by
  decide +kernel

end ReferencePages
