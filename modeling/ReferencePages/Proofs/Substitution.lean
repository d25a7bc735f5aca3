import Mathlib.Data.List.Forall2
import ReferencePages.Proofs.Markers

/-!
# Substitution, told by the cut of a text

A text is cut at its markers, leftmost first (`MarkerCut`): a marker is what begins a marker,
the shortest name on its line behind which a marker ends, and that end. The cut of a text
exists and is unique, and substitution is told by it (`substitute_reference`): it splices the
renderings of the names between the literal segments, or fails with the first name that stands
for nothing.
-/

namespace ReferencePages

/-! ## The marker at the start of a text -/

/-- A text that begins with a marker: the name in it is the shortest of those on its line, and
`rest` stands behind the marker. -/
structure MarkerAt (text name rest : List Char) : Prop where
  eq : text = markerOpen ++ name ++ markerClose ++ rest
  ne_nil : name ≠ []
  line : '\n' ∉ name
  shortest : ∀ name' rest', text = markerOpen ++ name' ++ markerClose ++ rest' →
    name' ≠ [] → '\n' ∉ name' → name.length ≤ name'.length

theorem length_le_of_markerName? {s name name' rest : List Char}
    (h : markerName? s = some name) (hs : s = name' ++ markerClose ++ rest)
    (hne : name' ≠ []) (hline : '\n' ∉ name') : name.length ≤ name'.length := by
  induction name' generalizing s name with
  | nil => exact absurd rfl hne
  | cons c name' ih =>
    obtain ⟨hc, hline'⟩ := List.ne_and_not_mem_of_not_mem_cons hline
    rw [hs, List.cons_append, List.cons_append, markerName?, if_neg hc.symm] at h
    split at h
    · cases h
      simp
    · next hclose =>
      obtain ⟨found, hfound, rfl⟩ := Option.map_eq_some_iff.1 h
      have hname' : name' ≠ [] := fun hnil =>
        hclose (startsWith_iff.2 ⟨rest, by rw [hnil, List.nil_append]⟩)
      exact Nat.succ_le_succ (ih hfound rfl hname' hline')

/-- A shortest name is the only one. -/
theorem MarkerAt.name_unique {text name name' rest rest' : List Char}
    (h : MarkerAt text name rest) (h' : MarkerAt text name' rest') : name = name' := by
  have hlen : name.length = name'.length :=
    Nat.le_antisymm (h.shortest name' rest' h'.eq h'.ne_nil h'.line)
      (h'.shortest name rest h.eq h.ne_nil h.line)
  have htext := h.eq.symm.trans h'.eq
  simp only [List.append_assoc] at htext
  exact (List.append_inj (List.append_cancel_left htext) hlen).1

theorem markerAt_of_includeMarker {text name : List Char} {n : Nat}
    (h : includeMarker text = some (name, n)) :
    ∃ rest, MarkerAt text name rest ∧ n + 1 = (markerOpen ++ name ++ markerClose).length := by
  obtain ⟨t, ht, hrest⟩ := Option.bind_eq_some_iff.1 h
  obtain ⟨found, hfound, hhit⟩ := Option.bind_eq_some_iff.1 hrest
  obtain ⟨rfl, rfl⟩ := Prod.mk.inj (Option.some.inj hhit)
  obtain ⟨hne, hline, rest, rfl⟩ := markerName?_eq_some hfound
  have htext := dropPrefix?_eq_some_iff.1 ht
  refine ⟨rest, ⟨by simpa using htext, hne, hline, fun name' rest' htext' hne' hline' => ?_⟩, ?_⟩
  · have hcut : found ++ markerClose ++ rest = name' ++ markerClose ++ rest' :=
      List.append_cancel_left (htext.symm.trans (by rw [htext']; simp only [List.append_assoc]))
    exact length_le_of_markerName? hfound hcut hne' hline'
  · simp only [List.length_append]
    have hopen : 0 < markerOpen.length := by decide
    omega

/-- The pattern matches where a marker begins, and takes the whole of it. -/
theorem MarkerAt.includeMarker_eq {text name rest : List Char} (h : MarkerAt text name rest) :
    ∃ n, includeMarker text = some (name, n) ∧
      n + 1 = (markerOpen ++ name ++ markerClose).length := by
  have hsome : (includeMarker text).isSome :=
    isSome_includeMarker_iff.2 ⟨_, rest, ⟨name, h.ne_nil, h.line, rfl⟩, h.eq⟩
  obtain ⟨⟨name', n⟩, hhit⟩ := Option.isSome_iff_exists.1 hsome
  obtain ⟨rest', h', hn⟩ := markerAt_of_includeMarker hhit
  obtain rfl := h.name_unique h'
  exact ⟨n, hhit, hn⟩

theorem includeMarker_eq_none_iff {text : List Char} :
    includeMarker text = none ↔ ∀ name rest, ¬MarkerAt text name rest := by
  constructor
  · intro hnone name rest h
    obtain ⟨n, hhit, -⟩ := h.includeMarker_eq
    rw [hnone] at hhit
    cases hhit
  · refine fun hall => Option.eq_none_iff_forall_ne_some.2 fun ⟨name, n⟩ hhit => ?_
    obtain ⟨rest, h, -⟩ := markerAt_of_includeMarker hhit
    exact hall name rest h

/-! ## The cut of a text -/

/-- No marker begins in `before` where `text` stands behind it. -/
def NoMarkerBegins (before text : List Char) : Prop :=
  ∀ a b, before = a ++ b → b ≠ [] → ∀ name rest, ¬MarkerAt (b ++ text) name rest

theorem noMarkerBegins_nil (text : List Char) : NoMarkerBegins [] text := fun _ _ h hb =>
  absurd (List.append_eq_nil_iff.1 h.symm).2 hb

theorem noMarkerBegins_cons {before text : List Char} {c : Char} :
    NoMarkerBegins (c :: before) text ↔
      includeMarker (c :: (before ++ text)) = none ∧ NoMarkerBegins before text := by
  constructor
  · refine fun h => ⟨includeMarker_eq_none_iff.2 (h [] (c :: before) rfl (by simp)), ?_⟩
    rintro a b rfl hb
    exact h (c :: a) b rfl hb
  · rintro ⟨hc, h⟩ a b hab hb
    rcases List.cons_eq_append_iff.1 hab with ⟨rfl, rfl⟩ | ⟨a', rfl, hbefore⟩
    · exact includeMarker_eq_none_iff.1 hc
    · exact h a' b hbefore hb

/-- A marker of a text, with the literal segment before it. -/
structure Cut where
  before : List Char
  name : List Char

/-- The cut of a text at its markers, leftmost first, and the segment behind the last one. -/
inductive MarkerCut : List Char → List Cut → List Char → Prop
  | last {text : List Char} (h : NoMarkerBegins text []) : MarkerCut text [] text
  | marker {before text name rest last : List Char} {cuts : List Cut}
      (first : NoMarkerBegins before text) (here : MarkerAt text name rest)
      (more : MarkerCut rest cuts last) :
      MarkerCut (before ++ text) (⟨before, name⟩ :: cuts) last

/-- The pieces of a cut text. -/
def cutPieces (cuts : List Cut) (last : List Char) : List (Piece (List Char)) :=
  cuts.flatMap (fun cut => cut.before.map .char ++ [.hit cut.name]) ++ last.map .char

theorem cutPieces_cons (cut : Cut) (cuts : List Cut) (last : List Char) :
    cutPieces (cut :: cuts) last =
      cut.before.map .char ++ .hit cut.name :: cutPieces cuts last := by
  simp [cutPieces]

theorem pieces_append_of_noMarkerBegins {before text : List Char}
    (h : NoMarkerBegins before text) :
    pieces includeMarker (before ++ text) = before.map .char ++ pieces includeMarker text := by
  induction before with
  | nil => rfl
  | cons c before ih =>
    obtain ⟨hc, hbefore⟩ := noMarkerBegins_cons.1 h
    rw [List.cons_append, pieces_cons_of_none hc, ih hbefore, List.map_cons, List.cons_append]

theorem MarkerAt.pieces_eq {text name rest : List Char} (h : MarkerAt text name rest) :
    pieces includeMarker text = .hit name :: pieces includeMarker rest := by
  obtain ⟨n, hhit, hn⟩ := h.includeMarker_eq
  obtain ⟨c, m, hm⟩ := List.exists_cons_of_ne_nil
    (IsMarker.ne_nil ⟨name, h.ne_nil, h.line, rfl⟩)
  have htext := h.eq
  rw [hm] at hn htext
  obtain rfl : n = m.length := by simpa using hn
  rw [htext, List.cons_append] at hhit ⊢
  rw [pieces_cons_of_some hhit, List.drop_left]

/-- The search for markers finds those of the cut. -/
theorem MarkerCut.pieces_eq {text last : List Char} {cuts : List Cut}
    (h : MarkerCut text cuts last) : pieces includeMarker text = cutPieces cuts last := by
  induction h with
  | last hlast => simpa [cutPieces] using pieces_append_of_noMarkerBegins hlast
  | marker first here _ ih =>
    rw [pieces_append_of_noMarkerBegins first, here.pieces_eq, ih, cutPieces_cons]

theorem exists_markerCut (text : List Char) : ∃ cuts last, MarkerCut text cuts last := by
  induction text using pieces.induct includeMarker with
  | case1 => exact ⟨[], [], .last (noMarkerBegins_nil [])⟩
  | case2 c s name n hhit ih =>
    obtain ⟨cuts, last, hcut⟩ := ih
    obtain ⟨rest, here, hn⟩ := markerAt_of_includeMarker hhit
    have hrest : s.drop n = rest := by
      have hdrop : (c :: s).drop (n + 1) = rest := by rw [hn, here.eq, List.drop_left]
      exact hdrop
    exact ⟨_, last, .marker (noMarkerBegins_nil (c :: s)) here (hrest ▸ hcut)⟩
  | case3 c s hnone ih =>
    obtain ⟨cuts, last, hcut⟩ := ih
    cases hcut with
    | last hlast =>
      exact ⟨[], c :: s, .last (noMarkerBegins_cons.2 ⟨by rwa [List.append_nil], hlast⟩)⟩
    | marker first here more =>
      exact ⟨_, last, .marker (noMarkerBegins_cons.2 ⟨hnone, first⟩) here more⟩

/-- The cuts that a text in pieces shows, and its last segment. -/
def gatherCuts : List (Piece (List Char)) → List Cut × List Char
  | [] => ([], [])
  | .hit name :: ps => (⟨[], name⟩ :: (gatherCuts ps).1, (gatherCuts ps).2)
  | .char c :: ps =>
    match gatherCuts ps with
    | ([], last) => ([], c :: last)
    | (cut :: cuts, last) => (⟨c :: cut.before, cut.name⟩ :: cuts, last)

theorem gatherCuts_cutPieces (cuts : List Cut) (last : List Char) :
    gatherCuts (cutPieces cuts last) = (cuts, last) := by
  induction cuts with
  | nil =>
    induction last with
    | nil => rfl
    | cons c last ih =>
      have h : gatherCuts (last.map .char) = ([], last) := ih
      simp only [cutPieces, List.flatMap_nil, List.nil_append, List.map_cons, gatherCuts, h]
  | cons cut cuts ih =>
    obtain ⟨before, name⟩ := cut
    rw [cutPieces_cons]
    induction before with
    | nil => simp only [List.map_nil, List.nil_append, gatherCuts, ih]
    | cons c before ihb =>
      simp only [List.map_cons, List.cons_append, gatherCuts, ihb]

theorem MarkerCut.unique {text last last' : List Char} {cuts cuts' : List Cut}
    (h : MarkerCut text cuts last) (h' : MarkerCut text cuts' last') :
    cuts' = cuts ∧ last' = last := by
  have hpieces : cutPieces cuts' last' = cutPieces cuts last :=
    h'.pieces_eq.symm.trans h.pieces_eq
  have hgather := congrArg gatherCuts hpieces
  rw [gatherCuts_cutPieces, gatherCuts_cutPieces] at hgather
  exact Prod.mk.inj hgather

/-- The literal segments of a cut, unchanged, with a rendering in place of each marker. -/
def splice (cuts : List Cut) (renderings : List String) (last : List Char) : List Char :=
  (List.zipWith (fun cut rendering => cut.before ++ rendering.toList) cuts renderings).flatten ++
    last

/-! ## What a name stands for -/

namespace ReferenceTable

/-- What a name stands for: the collapsed configuration type, then the expanded one, then the
first module of the name. -/
inductive Renders (table : ReferenceTable) (name : String) : String → Prop
  | collapsed {config : ConfigTypes} (hconfig : table.config = some config)
      (h : config.collapsed.name = name) :
      Renders table name (table.renderer.renderType config.collapsed)
  | expanded {config : ConfigTypes} (hconfig : table.config = some config)
      (hcollapsed : config.collapsed.name ≠ name) (h : config.expanded.name = name) :
      Renders table name (table.renderer.renderExpanded config.expanded)
  | firstModule {before after : List DocModule} {m : DocModule}
      (hcollapsed : ∀ config, table.config = some config → config.collapsed.name ≠ name)
      (hexpanded : ∀ config, table.config = some config → config.expanded.name ≠ name)
      (hmodules : table.modules = before ++ m :: after)
      (first : ∀ m' ∈ before, m'.name ≠ name) (h : m.name = name) :
      Renders table name (table.renderer.renderModule m)

variable {table : ReferenceTable} {name : String}

theorem resolveModule?_eq_some_iff {rendering : String} :
    table.resolveModule? name = some rendering ↔ ∃ before m after,
      table.modules = before ++ m :: after ∧ (∀ m' ∈ before, m'.name ≠ name) ∧ m.name = name ∧
        table.renderer.renderModule m = rendering := by
  simp only [resolveModule?, Option.map_eq_some_iff, List.find?_eq_some_iff_append,
    decide_eq_true_eq, Bool.not_eq_true', decide_eq_false_iff_not]
  constructor
  · rintro ⟨m, ⟨hname, before, after, hmodules, first⟩, hm⟩
    exact ⟨before, m, after, hmodules, first, hname, hm⟩
  · rintro ⟨before, m, after, hmodules, first, hname, hm⟩
    exact ⟨m, ⟨hname, before, after, hmodules, first⟩, hm⟩

theorem resolveConfig?_eq_some_iff {rendering : String} :
    table.resolveConfig? name = some rendering ↔ ∃ config, table.config = some config ∧
      (config.collapsed.name = name ∧ table.renderer.renderType config.collapsed = rendering ∨
        config.collapsed.name ≠ name ∧ config.expanded.name = name ∧
          table.renderer.renderExpanded config.expanded = rendering) := by
  rcases hconfig : table.config with _ | config
  · simp [resolveConfig?, hconfig]
  · simp only [resolveConfig?, hconfig, Option.bind_eq_bind, Option.bind_some, Option.some.injEq,
      exists_eq_left', eq_comm (a := name)]
    split_ifs with hcollapsed hexpanded
    · simp [hcollapsed]
    · simp [hcollapsed, hexpanded]
    · simp [hcollapsed, hexpanded]

theorem resolveConfig?_eq_none_iff :
    table.resolveConfig? name = none ↔ ∀ config, table.config = some config →
      config.collapsed.name ≠ name ∧ config.expanded.name ≠ name := by
  rcases hconfig : table.config with _ | config
  · simp [resolveConfig?, hconfig]
  · simp only [resolveConfig?, hconfig, Option.bind_eq_bind, Option.bind_some, Option.some.injEq,
      forall_eq', eq_comm (a := name)]
    split_ifs <;> simp_all

/-- A name is resolved to what it stands for. -/
theorem resolve_eq_ok_iff {rendering : String} :
    table.resolve name = .ok rendering ↔ table.Renders name rendering := by
  have hresolve : table.resolve name = .ok rendering ↔
      (table.resolveConfig? name).or (table.resolveModule? name) = some rendering := by
    rw [resolve]
    split
    · next h => rw [h, Except.ok.injEq, Option.some.injEq]
    · next h => simp [h]
  rw [hresolve, Option.or_eq_some_iff, resolveConfig?_eq_some_iff, resolveConfig?_eq_none_iff,
    resolveModule?_eq_some_iff]
  constructor
  · rintro (⟨config, hconfig, ⟨h, rfl⟩ | ⟨hcollapsed, h, rfl⟩⟩ |
      ⟨hnone, before, m, after, hmodules, first, h, rfl⟩)
    · exact .collapsed hconfig h
    · exact .expanded hconfig hcollapsed h
    · exact .firstModule (fun config hc => (hnone config hc).1)
        (fun config hc => (hnone config hc).2)
        hmodules first h
  · rintro (⟨hconfig, h⟩ | ⟨hconfig, hcollapsed, h⟩ | ⟨hcollapsed, hexpanded, hmodules, first, h⟩)
    · exact Or.inl ⟨_, hconfig, Or.inl ⟨h, rfl⟩⟩
    · exact Or.inl ⟨_, hconfig, Or.inr ⟨hcollapsed, h, rfl⟩⟩
    · exact Or.inr ⟨fun config hc => ⟨hcollapsed config hc, hexpanded config hc⟩,
        _, _, _, hmodules, first, h, rfl⟩

/-- A name that stands for nothing fails with itself. -/
theorem resolve_of_not_renders (h : ∀ rendering, ¬table.Renders name rendering) :
    table.resolve name = .error (.referenceNotFound name) := by
  have hnone : (table.resolveConfig? name).or (table.resolveModule? name) = none := by
    refine Option.eq_none_iff_forall_ne_some.2 fun rendering hsome => h rendering ?_
    rw [← resolve_eq_ok_iff, resolve, hsome]
  rw [resolve, hnone]

/-! ## Substitution -/

theorem substitutePieces_map_char (cs : List Char) (ps : List (Piece (List Char))) :
    table.substitutePieces (cs.map .char ++ ps) = (table.substitutePieces ps).map (cs ++ ·) := by
  induction cs with
  | nil =>
    rw [List.map_nil, List.nil_append]
    cases table.substitutePieces ps <;> rfl
  | cons c cs ih =>
    rw [List.map_cons, List.cons_append, substitutePieces, ih]
    cases table.substitutePieces ps <;> rfl

/-- Every marker stands for something, and the renderings are spliced in. -/
theorem substitutePieces_of_renders {cuts : List Cut} {renderings : List String}
    (h : List.Forall₂ (fun cut rendering => table.Renders (String.ofList cut.name) rendering)
      cuts renderings) (last : List Char) :
    table.substitutePieces (cutPieces cuts last) = .ok (splice cuts renderings last) := by
  induction h with
  | nil =>
    have hlast : table.substitutePieces (last.map .char ++ []) = _ :=
      substitutePieces_map_char last []
    rw [List.append_nil] at hlast
    simpa [cutPieces, splice, substitutePieces, Except.map] using hlast
  | @cons cut rendering cuts renderings hname _ ih =>
    rw [cutPieces_cons, substitutePieces_map_char, substitutePieces, resolve_eq_ok_iff.2 hname, ih]
    simp [splice, Except.map, bind, Except.bind, pure, Except.pure]

/-- The first marker that stands for nothing fails the text. -/
theorem substitutePieces_of_not_renders {before after : List Cut} {cut : Cut} (last : List Char)
    (hbefore : ∀ c ∈ before, ∃ rendering, table.Renders (String.ofList c.name) rendering)
    (h : ∀ rendering, ¬table.Renders (String.ofList cut.name) rendering) :
    table.substitutePieces (cutPieces (before ++ cut :: after) last) =
      .error (.referenceNotFound (String.ofList cut.name)) := by
  induction before with
  | nil =>
    rw [List.nil_append, cutPieces_cons, substitutePieces_map_char, substitutePieces,
      resolve_of_not_renders h]
    rfl
  | cons c before ih =>
    obtain ⟨⟨rendering, hname⟩, hbefore'⟩ := List.forall_mem_cons.1 hbefore
    rw [List.cons_append, cutPieces_cons, substitutePieces_map_char, substitutePieces,
      resolve_eq_ok_iff.2 hname, ih hbefore']
    rfl

/-- Either every marker of a text stands for something, or there is a first that does not. -/
theorem forall₂_renders_or (table : ReferenceTable) (cuts : List Cut) :
    (∃ renderings, List.Forall₂
        (fun cut rendering => table.Renders (String.ofList cut.name) rendering) cuts renderings) ∨
      ∃ before cut after, cuts = before ++ cut :: after ∧
        (∀ c ∈ before, ∃ rendering, table.Renders (String.ofList c.name) rendering) ∧
        ∀ rendering, ¬table.Renders (String.ofList cut.name) rendering := by
  induction cuts with
  | nil => exact Or.inl ⟨[], .nil⟩
  | cons cut cuts ih =>
    by_cases hcut : ∃ rendering, table.Renders (String.ofList cut.name) rendering
    · obtain ⟨rendering, hname⟩ := hcut
      rcases ih with ⟨renderings, h⟩ | ⟨before, c, after, rfl, hbefore, h⟩
      · exact Or.inl ⟨rendering :: renderings, .cons hname h⟩
      · exact Or.inr ⟨cut :: before, c, after, rfl,
          List.forall_mem_cons.2 ⟨⟨rendering, hname⟩, hbefore⟩, h⟩
    · exact Or.inr ⟨[], cut, cuts, rfl, by simp, not_exists.1 hcut⟩

theorem substitute_eq (table : ReferenceTable) (text : String) :
    table.substitute text =
      (table.substitutePieces (pieces includeMarker text.toList)).map String.ofList := by
  rw [substitute]
  cases table.substitutePieces (pieces includeMarker text.toList) <;> rfl

theorem substitute_of_renders {text : String} {cuts : List Cut} {last : List Char}
    {renderings : List String} (hcut : MarkerCut text.toList cuts last)
    (h : List.Forall₂ (fun cut rendering => table.Renders (String.ofList cut.name) rendering)
      cuts renderings) :
    table.substitute text = .ok (String.ofList (splice cuts renderings last)) := by
  rw [substitute_eq, hcut.pieces_eq, substitutePieces_of_renders h]
  rfl

theorem substitute_of_not_renders {text : String} {before after : List Cut} {cut : Cut}
    {last : List Char} (hcut : MarkerCut text.toList (before ++ cut :: after) last)
    (hbefore : ∀ c ∈ before, ∃ rendering, table.Renders (String.ofList c.name) rendering)
    (h : ∀ rendering, ¬table.Renders (String.ofList cut.name) rendering) :
    table.substitute text = .error (.referenceNotFound (String.ofList cut.name)) := by
  rw [substitute_eq, hcut.pieces_eq, substitutePieces_of_not_renders last hbefore h]
  rfl

/-- Substitution is told by the cut of the text at its markers, which exists and is unique: with
a rendering for each marker, the renderings are spliced between the literal segments; else the
first name that stands for nothing fails the text. -/
theorem substitute_reference (table : ReferenceTable) (text : String) :
    ∃ cuts last, MarkerCut text.toList cuts last ∧
      (∀ cuts' last', MarkerCut text.toList cuts' last' → cuts' = cuts ∧ last' = last) ∧
      (∀ out, table.substitute text = .ok out ↔ ∃ renderings,
        List.Forall₂ (fun cut rendering => table.Renders (String.ofList cut.name) rendering)
          cuts renderings ∧
        out = String.ofList (splice cuts renderings last)) ∧
      (∀ e, table.substitute text = .error e ↔ ∃ before cut after,
        cuts = before ++ cut :: after ∧
          (∀ c ∈ before, ∃ rendering, table.Renders (String.ofList c.name) rendering) ∧
          (∀ rendering, ¬table.Renders (String.ofList cut.name) rendering) ∧
          e = .referenceNotFound (String.ofList cut.name)) ∧
      ∀ name rendering, table.resolve name = .ok rendering ↔ table.Renders name rendering := by
  obtain ⟨cuts, last, hcut⟩ := exists_markerCut text.toList
  refine ⟨cuts, last, hcut, fun _ _ => hcut.unique, fun out => ⟨fun hout => ?_, ?_⟩,
    fun e => ⟨fun he => ?_, ?_⟩, fun _ _ => resolve_eq_ok_iff⟩
  · rcases forall₂_renders_or table cuts with
      ⟨renderings, h⟩ | ⟨before, cut, after, rfl, hbefore, h⟩
    · exact ⟨renderings, h, Except.ok.inj (hout.symm.trans (substitute_of_renders hcut h))⟩
    · cases hout.symm.trans (substitute_of_not_renders hcut hbefore h)
  · rintro ⟨renderings, h, rfl⟩
    exact substitute_of_renders hcut h
  · rcases forall₂_renders_or table cuts with
      ⟨renderings, h⟩ | ⟨before, cut, after, rfl, hbefore, h⟩
    · cases he.symm.trans (substitute_of_renders hcut h)
    · exact ⟨before, cut, after, rfl, hbefore, h,
        Except.error.inj (he.symm.trans (substitute_of_not_renders hcut hbefore h))⟩
  · rintro ⟨before, cut, after, rfl, hbefore, h, rfl⟩
    exact substitute_of_not_renders hcut hbefore h

end ReferenceTable

end ReferencePages
