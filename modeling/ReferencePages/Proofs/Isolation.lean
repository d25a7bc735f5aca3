import Mathlib.Data.List.Perm.Basic
import Mathlib.Order.Lattice
import Mathlib.Tactic.SplitIfs
import ReferencePages.Isolation

/-!
# What isolation takes and what it leaves

Isolation looks at the first module of a name and at the first types of two names in it. Where
the two names differ, it succeeds exactly if both types are there, and takes these two entries out
of that module and nothing else (`isolateConfigTypes_conserves`). Where it fails, the modules are
left as they were, unless the two names are one and the module has a single type of it
(`snd_isolateConfigTypes_of_error`): the look for the second type finds the one that is then taken
as the first (`snd_isolateConfigTypes_loneType`).
-/

namespace ReferencePages

variable {names : ConfigTypeNames} {m m' : DocModule} {types : List Symbol} {name other : String}
  {i j : Nat} {type type' : Symbol}

/-! ## The first type of a name -/

/-- The type at a position of a list is the first one of a name. -/
structure IsFirstType (types : List Symbol) (name : String) (i : Nat) (type : Symbol) : Prop where
  here : types[i]? = some type
  name_eq : type.name = name
  first : ∀ j < i, ∀ earlier, types[j]? = some earlier → earlier.name ≠ name

theorem findType_eq_some_iff :
    m.findType name = some type ↔ ∃ i, IsFirstType m.types name i type := by
  rw [DocModule.findType, List.find?_eq_some_iff_getElem]
  constructor
  · rintro ⟨hname, i, hi, rfl, hfirst⟩
    refine ⟨i, List.getElem?_eq_getElem hi, by simpa using hname, fun j hj t ht => ?_⟩
    obtain ⟨hlt, rfl⟩ := List.getElem?_eq_some_iff.1 ht
    simpa using hfirst j hj
  · rintro ⟨i, hhere, hname, hfirst⟩
    obtain ⟨hi, rfl⟩ := List.getElem?_eq_some_iff.1 hhere
    exact ⟨by simpa using hname, i, hi, rfl, fun j hj => by
      simpa using hfirst j hj _ (List.getElem?_eq_getElem (hj.trans hi))⟩

theorem findType_eq_none_iff : m.findType name = none ↔ ∀ t ∈ m.types, t.name ≠ name := by
  simp [DocModule.findType]

theorem exists_isFirstType (h : ∃ t ∈ m.types, t.name = name) :
    ∃ i type, IsFirstType m.types name i type := by
  rcases hfind : m.findType name with _ | type
  · obtain ⟨t, ht, hname⟩ := h
    exact absurd hname (findType_eq_none_iff.1 hfind t ht)
  · obtain ⟨i, hi⟩ := findType_eq_some_iff.1 hfind
    exact ⟨i, type, hi⟩

namespace IsFirstType

theorem mem (h : IsFirstType types name i type) : type ∈ types := List.mem_of_getElem? h.here

theorem eraseP_eq (h : IsFirstType types name i type) :
    types.eraseP (·.name = name) = types.eraseIdx i := by
  obtain ⟨hi, rfl⟩ := List.getElem?_eq_some_iff.1 h.here
  have hfind : types.findIdx? (fun t => decide (t.name = name)) = some i :=
    List.findIdx?_eq_some_iff_getElem.2 ⟨hi, by simpa using h.name_eq, fun j hj => by
      simpa using h.first j hj _ (List.getElem?_eq_getElem (hj.trans hi))⟩
  rw [List.eraseP_eq_eraseIdx, hfind]

theorem position_ne (hi : IsFirstType types name i type) (hj : IsFirstType types other j type')
    (hne : name ≠ other) : i ≠ j := by
  rintro rfl
  obtain rfl : type = type' := Option.some.inj (hi.here.symm.trans hj.here)
  exact hne (hi.name_eq.symm.trans hj.name_eq)

/-- Where a type of another name is taken away, the first type of a name stays the first one. -/
theorem eraseIdx (hi : IsFirstType types name i type) (hj : IsFirstType types other j type')
    (hne : name ≠ other) :
    IsFirstType (types.eraseIdx i) other (if j < i then j else j - 1) type' := by
  have hij := hi.position_ne hj hne
  rcases Nat.lt_or_gt_of_ne hij with h | h
  · rw [if_neg (by omega)]
    refine ⟨?_, hj.name_eq, fun k hk t ht => ?_⟩
    · rw [List.getElem?_eraseIdx, if_neg (by omega), Nat.sub_add_cancel (by omega)]
      exact hj.here
    · rw [List.getElem?_eraseIdx] at ht
      split_ifs at ht with hki
      · exact hj.first k (by omega) t ht
      · exact hj.first (k + 1) (by omega) t ht
  · rw [if_pos h]
    refine ⟨?_, hj.name_eq, fun k hk t ht => ?_⟩
    · rw [List.getElem?_eraseIdx, if_pos h]
      exact hj.here
    · rw [List.getElem?_eraseIdx, if_pos (hk.trans h)] at ht
      exact hj.first k hk t ht

/-- The first type of a name is the only one exactly if none is left behind it. -/
theorem countP_eq_one_iff (h : IsFirstType types name i type) :
    types.countP (·.name = name) = 1 ↔ ∀ t ∈ types.eraseIdx i, t.name ≠ name := by
  obtain ⟨hi, htype⟩ := List.getElem?_eq_some_iff.1 h.here
  have hname : decide (types[i].name = name) = true := by simpa [htype] using h.name_eq
  have hperm := (List.getElem_cons_eraseIdx_perm hi).countP_eq fun t => decide (t.name = name)
  rw [← hperm, List.countP_cons, if_pos hname, Nat.add_eq_right, List.countP_eq_zero]
  simp only [decide_eq_true_eq, ne_eq]

end IsFirstType

/-- What is taken is the first type of the name, which leaves its position. -/
theorem takeType_eq_some_iff : m.takeType name = some (type, m') ↔
    ∃ i, IsFirstType m.types name i type ∧ m' = { m with types := m.types.eraseIdx i } := by
  rw [DocModule.takeType, Option.map_eq_some_iff]
  constructor
  · rintro ⟨t, ht, heq⟩
    obtain ⟨rfl, rfl⟩ := Prod.mk.inj heq
    obtain ⟨i, hi⟩ := findType_eq_some_iff.1 ht
    exact ⟨i, hi, by rw [hi.eraseP_eq]⟩
  · rintro ⟨i, hi, rfl⟩
    exact ⟨type, findType_eq_some_iff.2 ⟨i, hi⟩, by rw [hi.eraseP_eq]⟩

theorem takeType_eq_none_iff : m.takeType name = none ↔ ∀ t ∈ m.types, t.name ≠ name := by
  rw [DocModule.takeType, Option.map_eq_none_iff, findType_eq_none_iff]

/-- Of two entries the earlier one may be erased first; the later one has then moved up. -/
theorem eraseIdx_eraseIdx_of_ne (types : List Symbol) (hij : i ≠ j) :
    (types.eraseIdx i).eraseIdx (if j < i then j else j - 1) =
      (types.eraseIdx (max i j)).eraseIdx (min i j) := by
  rcases Nat.lt_or_gt_of_ne hij with h | h
  · rw [if_neg (by omega), max_eq_right h.le, min_eq_left h.le]
    refine List.ext_getElem? fun k => ?_
    simp only [List.getElem?_eraseIdx]
    split_ifs <;> first | rfl | omega
  · rw [if_pos h, max_eq_left h.le, min_eq_right h.le]

/-! ## One module -/

/-- Where both names are found, the outcome is that of taking the two types one by one. -/
theorem isolate_of_found {collapsed : Symbol}
    (hi : IsFirstType m.types names.collapsed i collapsed)
    (hexpanded : ∃ t ∈ m.types, t.name = names.expanded) :
    m.isolate names =
      match ({ m with types := m.types.eraseIdx i } : DocModule).takeType names.expanded with
      | none => (.error (.symbolNotFound names.module), { m with types := m.types.eraseIdx i })
      | some (expanded, m) => (.ok ⟨collapsed, expanded⟩, m) := by
  have hfound : [names.collapsed, names.expanded].find? (fun name => (m.findType name).isNone) =
      none := by
    obtain ⟨j, t, ht⟩ := exists_isFirstType hexpanded
    simp [findType_eq_some_iff.2 ⟨i, hi⟩, findType_eq_some_iff.2 ⟨j, ht⟩]
  have htake := takeType_eq_some_iff.2 ⟨i, hi, rfl⟩
  rcases hsecond : ({ m with types := m.types.eraseIdx i } : DocModule).takeType
      names.expanded with _ | ⟨expanded, left⟩ <;>
    simp only [DocModule.isolate, hfound, htake, hsecond]

/-- Both types are taken out of a module that has a type of each of two names. -/
theorem isolate_of_first {collapsed expanded : Symbol} (hne : names.collapsed ≠ names.expanded)
    (hi : IsFirstType m.types names.collapsed i collapsed)
    (hj : IsFirstType m.types names.expanded j expanded) :
    m.isolate names = (.ok ⟨collapsed, expanded⟩,
      { m with types := (m.types.eraseIdx (max i j)).eraseIdx (min i j) }) := by
  have htake : ({ m with types := m.types.eraseIdx i } : DocModule).takeType names.expanded =
      some (expanded, { m with types := (m.types.eraseIdx (max i j)).eraseIdx (min i j) }) :=
    takeType_eq_some_iff.2
      ⟨_, hi.eraseIdx hj hne, by rw [eraseIdx_eraseIdx_of_ne _ (hi.position_ne hj hne)]⟩
  rw [isolate_of_found hi ⟨_, hj.mem, hj.name_eq⟩, htake]

/-- A module that lacks a type of one of the names is left as it is. -/
theorem isolate_of_missing (h : (∀ t ∈ m.types, t.name ≠ names.collapsed) ∨
    ∀ t ∈ m.types, t.name ≠ names.expanded) : ∃ e, m.isolate names = (.error e, m) := by
  have hmissing : ∃ name, [names.collapsed, names.expanded].find?
      (fun name => (m.findType name).isNone) = some name := by
    rw [← Option.isSome_iff_exists, List.find?_isSome]
    rcases h with h | h
    · exact ⟨names.collapsed, by simp, by simpa using findType_eq_none_iff.2 h⟩
    · exact ⟨names.expanded, by simp, by simpa using findType_eq_none_iff.2 h⟩
  obtain ⟨name, hname⟩ := hmissing
  exact ⟨.symbolNotFound (names.module ++ "#" ++ name), by simp only [DocModule.isolate, hname]⟩

/-- The two names are one, and the module has a single type of it. -/
def HasLoneType (names : ConfigTypeNames) (m : DocModule) : Prop :=
  names.collapsed = names.expanded ∧ m.types.countP (·.name = names.collapsed) = 1

/-- The first type of a name that is both names is taken before the second is missed. -/
theorem isolate_of_same {collapsed : Symbol} (heq : names.collapsed = names.expanded)
    (hi : IsFirstType m.types names.collapsed i collapsed) :
    (HasLoneType names m ∧ m.isolate names = (.error (.symbolNotFound names.module),
      { m with types := m.types.eraseIdx i })) ∨
    (¬HasLoneType names m ∧ ∃ config left, m.isolate names = (.ok config, left)) := by
  have hlone : HasLoneType names m ↔
      ({ m with types := m.types.eraseIdx i } : DocModule).takeType names.expanded = none := by
    rw [takeType_eq_none_iff, ← heq, HasLoneType, and_iff_right heq, hi.countP_eq_one_iff]
  rw [hlone, isolate_of_found hi ⟨_, hi.mem, hi.name_eq.trans heq⟩]
  rcases ({ m with types := m.types.eraseIdx i } : DocModule).takeType names.expanded with
    _ | ⟨expanded, left⟩
  · exact Or.inl ⟨rfl, rfl⟩
  · exact Or.inr ⟨nofun, _, left, rfl⟩

/-- Where a module has no single type of both names, a failure leaves it as it was. -/
theorem snd_isolate_of_error {e : DocError} (h : (m.isolate names).1 = .error e)
    (hlone : ¬HasLoneType names m) : (m.isolate names).2 = m := by
  by_cases hmissing : (∀ t ∈ m.types, t.name ≠ names.collapsed) ∨
      ∀ t ∈ m.types, t.name ≠ names.expanded
  · obtain ⟨e, he⟩ := isolate_of_missing hmissing
    rw [he]
  push Not at hmissing
  obtain ⟨i, collapsed, hi⟩ := exists_isFirstType hmissing.1
  obtain ⟨j, expanded, hj⟩ := exists_isFirstType hmissing.2
  by_cases heq : names.collapsed = names.expanded
  · obtain ⟨hlone', -⟩ | ⟨-, config, left, hok⟩ := isolate_of_same heq hi
    · exact absurd hlone' hlone
    · rw [hok] at h
      cases h
  · rw [isolate_of_first heq hi hj] at h
    cases h

/-- A single type of both names is lost. -/
theorem snd_isolate_of_loneType (h : HasLoneType names m) :
    (m.isolate names).1 = .error (.symbolNotFound names.module) ∧ (m.isolate names).2 ≠ m := by
  have hmem : ∃ t ∈ m.types, t.name = names.collapsed := by
    have hpos : 0 < m.types.countP (·.name = names.collapsed) := h.2 ▸ Nat.one_pos
    simpa only [decide_eq_true_eq] using List.countP_pos_iff.1 hpos
  obtain ⟨i, collapsed, hi⟩ := exists_isFirstType hmem
  obtain ⟨-, heq⟩ | ⟨hlone, -⟩ := isolate_of_same h.1 hi
  · rw [heq]
    refine ⟨rfl, fun hsame => ?_⟩
    have hlt : i < m.types.length := (List.getElem?_eq_some_iff.1 hi.here).1
    have hlength := congrArg (fun m : DocModule => m.types.length) hsame
    simp only [List.length_eraseIdx_of_lt hlt] at hlength
    omega
  · exact absurd h hlone

/-! ## All modules -/

variable {ms before after : List DocModule}

theorem isolateConfigTypes_of_no_module (h : ∀ m ∈ ms, m.name ≠ names.module) :
    isolateConfigTypes names ms = (.error (.symbolNotFound names.module), ms) := by
  induction ms with
  | nil => rfl
  | cons m ms ih =>
    rw [isolateConfigTypes, if_neg (h m List.mem_cons_self),
      ih fun n hn => h n (List.mem_cons_of_mem m hn)]

/-- Only the first module of the name is looked at. -/
theorem isolateConfigTypes_append_cons (hbefore : ∀ n ∈ before, n.name ≠ names.module)
    (hname : m.name = names.module) : isolateConfigTypes names (before ++ m :: after) =
      ((m.isolate names).1, before ++ (m.isolate names).2 :: after) := by
  induction before with
  | nil => rw [List.nil_append, isolateConfigTypes, if_pos hname, List.nil_append]
  | cons n before ih =>
    rw [List.cons_append, isolateConfigTypes, if_neg (hbefore n List.mem_cons_self),
      ih fun k hk => hbefore k (List.mem_cons_of_mem n hk), List.cons_append]

/-- The modules are split at the first one of the name, if there is one. -/
theorem find?_module_eq_some_iff : ms.find? (·.name = names.module) = some m ↔
    m.name = names.module ∧ ∃ before after, ms = before ++ m :: after ∧
      ∀ n ∈ before, n.name ≠ names.module := by
  simp [List.find?_eq_some_iff_append]

/-- A failure leaves the modules as they were, unless the two names are one and the first module
of the name has a single type of it. -/
theorem snd_isolateConfigTypes_of_error {e : DocError}
    (h : (isolateConfigTypes names ms).1 = .error e) : (isolateConfigTypes names ms).2 = ms ↔
      ∀ m, ms.find? (·.name = names.module) = some m → ¬HasLoneType names m := by
  rcases hfind : ms.find? (·.name = names.module) with _ | m
  · rw [isolateConfigTypes_of_no_module (by simpa using hfind)]
    simp [hfind]
  · obtain ⟨hname, before, after, rfl, hbefore⟩ := find?_module_eq_some_iff.1 hfind
    rw [isolateConfigTypes_append_cons hbefore hname] at h ⊢
    rw [List.append_cancel_left_eq, List.cons.injEq, and_iff_left rfl]
    simp only [hfind, Option.some.injEq, forall_eq']
    exact ⟨fun hsame hlone => (snd_isolate_of_loneType hlone).2 hsame, snd_isolate_of_error h⟩

/-- A module with a type of the first name and none of the second keeps it. -/
theorem snd_isolateConfigTypes_of_error_oneType :
    let names : ConfigTypeNames := ⟨"kit", "Config", "KitConfig"⟩
    let ms : List DocModule := [{ name := "kit", types := [{ name := "Config" }] }]
    (isolateConfigTypes names ms).1 = .error (.symbolNotFound "kit#KitConfig") ∧
      (isolateConfigTypes names ms).2 = ms := by
  intro names ms
  have herror : (isolateConfigTypes names ms).1 = .error (.symbolNotFound "kit#KitConfig") := rfl
  refine ⟨herror, (snd_isolateConfigTypes_of_error herror).2 fun m _ hlone => ?_⟩
  exact absurd hlone.1 (by decide)

/-- A module whose only type goes by both names loses it, though isolation fails. -/
theorem snd_isolateConfigTypes_loneType :
    let names : ConfigTypeNames := ⟨"kit", "Config", "Config"⟩
    let ms : List DocModule := [{ name := "kit", types := [{ name := "Config" }] }]
    isolateConfigTypes names ms = (.error (.symbolNotFound "kit"), [{ name := "kit" }]) ∧
      (isolateConfigTypes names ms).2 ≠ ms := by
  intro names ms
  have heq : isolateConfigTypes names ms =
      (.error (.symbolNotFound "kit"), [{ name := "kit" }]) := rfl
  refine ⟨heq, fun hsame => ?_⟩
  rw [heq] at hsame
  simp [ms] at hsame

/-- Isolation of types of two names succeeds exactly if the first module of the name has a type of
each. It gives the first type of each name, and of all modules only this one is changed: exactly
these two entries of its types are gone. -/
theorem isolateConfigTypes_conserves (hne : names.collapsed ≠ names.expanded) :
    ((∃ config left, isolateConfigTypes names ms = (.ok config, left)) ↔
      ∃ m, ms.find? (·.name = names.module) = some m ∧
        (∃ t ∈ m.types, t.name = names.collapsed) ∧ ∃ t ∈ m.types, t.name = names.expanded) ∧
    ∀ config left, isolateConfigTypes names ms = (.ok config, left) →
      ∃ before m after i j, ms = before ++ m :: after ∧
        (∀ n ∈ before, n.name ≠ names.module) ∧ m.name = names.module ∧
        IsFirstType m.types names.collapsed i config.collapsed ∧
        IsFirstType m.types names.expanded j config.expanded ∧
        left = before ++
          { m with types := (m.types.eraseIdx (max i j)).eraseIdx (min i j) } :: after := by
  rcases hfind : ms.find? (·.name = names.module) with _ | m
  · rw [isolateConfigTypes_of_no_module (by simpa using hfind)]
    simp [hfind]
  obtain ⟨hname, before, after, rfl, hbefore⟩ := find?_module_eq_some_iff.1 hfind
  rw [isolateConfigTypes_append_cons hbefore hname]
  simp only [hfind, Option.some.injEq, exists_eq_left']
  by_cases hmissing : (∀ t ∈ m.types, t.name ≠ names.collapsed) ∨
      ∀ t ∈ m.types, t.name ≠ names.expanded
  · obtain ⟨e, he⟩ := isolate_of_missing hmissing
    rw [he]
    refine ⟨⟨nofun, ?_⟩, nofun⟩
    rintro ⟨⟨s, hs, hcollapsed⟩, t, ht, hexpanded⟩
    exact (hmissing.elim (fun h => h s hs hcollapsed) fun h => h t ht hexpanded).elim
  push Not at hmissing
  obtain ⟨i, collapsed, hi⟩ := exists_isFirstType hmissing.1
  obtain ⟨j, expanded, hj⟩ := exists_isFirstType hmissing.2
  rw [isolate_of_first hne hi hj]
  refine ⟨⟨fun _ => hmissing, fun _ => ⟨_, _, rfl⟩⟩, fun config left h => ?_⟩
  obtain ⟨hconfig, rfl⟩ := Prod.mk.inj h
  obtain rfl := Except.ok.inj hconfig
  exact ⟨before, m, after, i, j, rfl, hbefore, hname, hi, hj, rfl⟩

/-- Both types are taken whichever of them comes first; a second type of a name stays, and so does
a second module of the name. -/
theorem isolateConfigTypes_conserves_repeated :
    let names : ConfigTypeNames := ⟨"kit", "Config", "KitConfig"⟩
    let first : Symbol := { name := "KitConfig", comment := "first" }
    let second : Symbol := { name := "KitConfig", comment := "second" }
    let types : List Symbol := [first, { name := "Handle" }, { name := "Config" }, second]
    let ms : List DocModule := [{ name := "kit", types }, { name := "kit", types }]
    let left : List DocModule :=
      [{ name := "kit", types := [{ name := "Handle" }, second] }, { name := "kit", types }]
    names.collapsed ≠ names.expanded ∧
      isolateConfigTypes names ms = (.ok ⟨{ name := "Config" }, first⟩, left) ∧
      ∃ before m after i j, ms = before ++ m :: after ∧
        (∀ n ∈ before, n.name ≠ names.module) ∧ m.name = names.module ∧
        IsFirstType m.types names.collapsed i { name := "Config" } ∧
        IsFirstType m.types names.expanded j first ∧
        left = before ++
          { m with types := (m.types.eraseIdx (max i j)).eraseIdx (min i j) } :: after := by
  intro names first second types ms left
  have hne : names.collapsed ≠ names.expanded := by decide
  have h : isolateConfigTypes names ms = (.ok ⟨{ name := "Config" }, first⟩, left) := rfl
  exact ⟨hne, h, (isolateConfigTypes_conserves hne).2 _ _ h⟩

end ReferencePages
