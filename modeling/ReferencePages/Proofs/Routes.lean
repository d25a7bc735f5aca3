import ReferencePages.Proofs.Keyed
import ReferencePages.Proofs.Text.Blank
import ReferencePages.Proofs.Text.Search
import ReferencePages.Routes

/-!
# Paths of only a name

A path of only a name leads to the last numbered version of a package whose name *ends* with it
(`resolve_name`). That is the last version of the package of that name, unless a
version of another such package stands behind it (`resolve_bareName`): on a site of `kit` and
`sveltekit`, the path `kit` leads to the documentation of `sveltekit`
(`not_leadsToLast_kit`).
-/

namespace ReferencePages

/-! ## Numbered versions -/

/-- Whether a key is a numbered version of a package: the name, a slash, `v` and digits. -/
def isNumberedKey (name key : List Char) : Bool :=
  match dropPrefix? (name ++ ['/', 'v']) key with
  | some digits => !digits.isEmpty && digits.all isDigit
  | none => false

theorem isNumberedKey_iff {name key : List Char} : isNumberedKey name key = true ↔
    ∃ digits, digits ≠ [] ∧ (∀ c ∈ digits, isDigit c = true) ∧
      key = name ++ ['/', 'v'] ++ digits := by
  constructor
  · intro h
    rw [isNumberedKey] at h
    split at h
    · next digits hkey =>
      simp only [Bool.and_eq_true, Bool.not_eq_true', List.isEmpty_eq_false_iff,
        List.all_eq_true] at h
      exact ⟨digits, h.1, h.2, dropPrefix?_eq_some_iff.1 hkey⟩
    · cases h
  · rintro ⟨digits, hne, hdigits, rfl⟩
    rw [isNumberedKey, dropPrefix?_eq_some_iff.2 rfl]
    simpa [hne] using hdigits

theorem dropEndWhile_isDigit_of_isNumberedKey {name key : List Char}
    (h : isNumberedKey name key = true) : dropEndWhile isDigit key = name ++ ['/', 'v'] := by
  obtain ⟨digits, -, hdigits, rfl⟩ := isNumberedKey_iff.1 h
  have hnone : dropEndWhile isDigit digits = [] := List.rdropWhile_eq_nil_iff.2 hdigits
  rw [List.append_assoc, List.cons_append, List.cons_append, List.nil_append,
    ← List.singleton_append, ← List.append_assoc, dropEndWhile_append_cons (by decide), hnone]
  simp

/-- A key is a version of one package. -/
theorem eq_of_isNumberedKey {name other key : List Char} (h : isNumberedKey name key = true)
    (h' : isNumberedKey other key = true) : name = other := by
  have hstem := dropEndWhile_isDigit_of_isNumberedKey h
  rw [dropEndWhile_isDigit_of_isNumberedKey h'] at hstem
  exact (List.append_cancel_right hstem).symm

/-- A slug is taken for a version of every path with which the text before its version ends. -/
theorem isVersionOf_iff {slug path : String} : isVersionOf slug path = true ↔
    ∃ stem, path.toList <:+ stem ∧ isNumberedKey stem slug.toList = true := by
  rw [isVersionOf, Bool.and_eq_true, decide_eq_true_iff]
  constructor
  · rintro ⟨hlength, hmatch⟩
    split at hmatch
    · next stem hstem =>
      have hsplit := List.rdropWhile_append_rtakeWhile (p := isDigit) (l := slug.toList)
      refine ⟨stem, endsWith_iff.1 hmatch, isNumberedKey_iff.2
        ⟨slug.toList.rtakeWhile isDigit, ?_, fun c hc => List.mem_rtakeWhile_imp hc, ?_⟩⟩
      · intro hnil
        rw [hnil, List.append_nil] at hsplit
        rw [dropEndWhile, ← List.rdropWhile, hsplit] at hlength
        exact absurd hlength (lt_irrefl _)
      · rw [← dropSuffix?_eq_some_iff.1 hstem]
        exact hsplit.symm
    · cases hmatch
  · rintro ⟨stem, hpath, hstem⟩
    rw [dropEndWhile_isDigit_of_isNumberedKey hstem, dropSuffix?_eq_some_iff.2 rfl]
    obtain ⟨digits, hne, -, hslug⟩ := isNumberedKey_iff.1 hstem
    refine ⟨?_, endsWith_iff.2 hpath⟩
    have := List.length_pos_of_ne_nil hne
    simp only [hslug, List.length_append]
    omega

/-! ## Sites of versioned packages -/

/-- Every topic stands under `name/version`, with that key behind `docs/` as its slug. -/
structure DocsIndex.Versioned (index : DocsIndex) : Prop where
  keyed : ∀ e ∈ index.topics.entries, e.2.slug = "docs/" ++ e.1 ∧ ∃ name version : List Char,
    name ≠ [] ∧ version ≠ [] ∧ '/' ∉ name ∧ '/' ∉ version ∧ e.1.toList = name ++ '/' :: version

/-- The part behind the last slash of a text. -/
theorem append_slash_inj {a b c d : List Char} (hb : '/' ∉ b) (hd : '/' ∉ d)
    (h : a ++ '/' :: b = c ++ '/' :: d) : a = c ∧ b = d := by
  rcases List.append_eq_append_iff.1 h with ⟨t, rfl, ht⟩ | ⟨t, rfl, ht⟩
  · cases t with
    | nil => simpa using ht
    | cons x t =>
      obtain ⟨-, rfl⟩ := List.cons.inj ht
      simp at hb
  · cases t with
    | nil => simpa using ht.symm
    | cons x t =>
      obtain ⟨-, rfl⟩ := List.cons.inj ht
      simp at hd

theorem suffix_of_suffix_append_slash {s a b : List Char} (hs : '/' ∉ s)
    (h : s <:+ a ++ '/' :: b) : s <:+ b := by
  obtain ⟨t, ht⟩ := h
  rcases List.append_eq_append_iff.1 ht with ⟨u, -, rfl⟩ | ⟨u, -, hu⟩
  · simp at hs
  · cases u with
    | nil =>
      rw [List.nil_append] at hu
      simp [← hu] at hs
    | cons x u => exact ⟨u, (List.cons.inj hu).2.symm⟩

namespace DocsIndex

variable {index : DocsIndex} {name : String}

/-- On a versioned site, a path of only a name finds the versions of the packages whose name ends
with it. -/
theorem Versioned.isVersionOf_iff (hindex : index.Versioned) (hname : '/' ∉ name.toList)
    {e : String × Topic} (he : e ∈ index.topics.entries) :
    isVersionOf e.2.slug name = true ↔
      ∃ other, name.toList <:+ other ∧ isNumberedKey other e.1.toList = true := by
  obtain ⟨hslug, package, version, -, -, -, hversion, hkey⟩ := hindex.keyed e he
  have hdocs : ("docs/" ++ e.1).toList = "docs/".toList ++ package ++ '/' :: version := by
    rw [String.toList_append, hkey, List.append_assoc]
  rw [ReferencePages.isVersionOf_iff, hslug, hdocs, hkey]
  constructor
  · rintro ⟨stem, hsuffix, hstem⟩
    obtain ⟨digits, hne, hdigits, hsplit⟩ := isNumberedKey_iff.1 hstem
    have hslash : '/' ∉ 'v' :: digits := by
      intro hmem
      rcases List.mem_cons.1 hmem with h | h
      · exact absurd h (by decide)
      · exact absurd (hdigits _ h) (by decide)
    obtain ⟨rfl, rfl⟩ := append_slash_inj hversion hslash
      (hsplit.trans (List.append_assoc _ _ _))
    exact ⟨package, suffix_of_suffix_append_slash (a := "docs".toList) hname hsuffix,
      isNumberedKey_iff.2 ⟨digits, hne, hdigits, by simp⟩⟩
  · rintro ⟨other, hsuffix, hother⟩
    obtain ⟨digits, hne, hdigits, hsplit⟩ := isNumberedKey_iff.1 hother
    refine ⟨"docs/".toList ++ other, hsuffix.trans (List.suffix_append _ _),
      isNumberedKey_iff.2 ⟨digits, hne, hdigits, ?_⟩⟩
    rw [List.append_assoc, hsplit]
    simp only [List.append_assoc]

theorem latest?_eq (index : DocsIndex) (name : String) : index.latest? name =
    (index.topics.entries.reverse.find? fun e => isVersionOf e.2.slug name).map Prod.snd := by
  rw [latest?, Keyed.values, ← List.map_reverse, List.find?_map]
  rfl

/-- A path of only a name leads to the first page of the last topic that is found for it. -/
theorem resolve_name (hname : '/' ∉ name.toList) :
    index.resolve name = toFirstPage (index.latest? name) := by
  rw [resolve, pathParts, List.splitOn_eq_singleton hname]

/-- The key of a topic leads to the first page of the topic. -/
theorem Versioned.resolve_key (hindex : index.Versioned) {e : String × Topic}
    (he : e ∈ index.topics.entries) : index.resolve e.1 = toFirstPage (some e.2) := by
  obtain ⟨-, package, version, -, -, hpackage, hversion, hkey⟩ := hindex.keyed e he
  have hparts : pathParts e.1 = [package, version] := by
    rw [pathParts, hkey, List.splitOn_append_cons_self_of_not_mem hpackage,
      List.splitOn_eq_singleton hversion]
  have hget : index.topics.get? (String.ofList (package ++ '/' :: version)) = some e.2 := by
    rw [← hkey, String.ofList_toList]
    exact Keyed.get?_eq_some_iff.2 he
  rw [resolve, hparts]
  simp only [hget, List.isEmpty_nil, if_true]

/-! ## The last version of a package -/

/-- The last topic that is a numbered version of a package. -/
def lastVersion? (index : DocsIndex) (name : String) : Option (String × Topic) :=
  index.topics.entries.reverse.find? fun e => isNumberedKey name.toList e.1.toList

/-- A name leads where the key of the last version of its package leads: to the first page of
that topic, if it has one. -/
def LeadsToLast (index : DocsIndex) (name : String) : Prop :=
  match index.lastVersion? name with
  | some (key, topic) => index.resolve name = index.resolve key ∧
      index.resolve key =
        match topic.firstPage with
        | some slug => .redirect ("/" ++ slug) redirectStatus
        | none => .notFound
  | none => index.resolve name = .notFound

/-- Behind the last version of a package, or anywhere if it has none, stands a version of another
package whose name ends with that of the first. -/
def Shadowed (index : DocsIndex) (name : String) : Prop :=
  ∃ before e after, index.topics.entries = before ++ e :: after ∧
    (∃ other, other ≠ name.toList ∧ name.toList <:+ other ∧
      isNumberedKey other e.1.toList = true) ∧
    ∀ e' ∈ after, isNumberedKey name.toList e'.1.toList = false

/-- Every topic has a first page, which is that of no other topic. -/
def HasOwnPages (index : DocsIndex) : Prop :=
  ∀ e ∈ index.topics.entries, ∃ slug, e.2.firstPage = some slug ∧
    ∀ e' ∈ index.topics.entries, e'.2.firstPage = some slug → e'.1 = e.1

theorem Versioned.isVersionOf_of_isNumberedKey (hindex : index.Versioned)
    (hname : '/' ∉ name.toList) {e : String × Topic} (he : e ∈ index.topics.entries)
    (hkey : isNumberedKey name.toList e.1.toList = true) : isVersionOf e.2.slug name = true :=
  (hindex.isVersionOf_iff hname he).2 ⟨_, List.suffix_refl _, hkey⟩

/-- A name that no longer name shadows leads to the last version of its package. -/
theorem Versioned.leadsToLast (hindex : index.Versioned) (hname : '/' ∉ name.toList)
    (hshadow : ¬index.Shadowed name) : index.LeadsToLast name := by
  have hresolve : index.resolve name = toFirstPage (index.latest? name) := resolve_name hname
  rw [latest?_eq] at hresolve
  rcases hfind : index.topics.entries.reverse.find? fun e => isVersionOf e.2.slug name with _ | e
  · have hnone : index.lastVersion? name = none := by
      refine List.find?_eq_none.2 fun e he hkey => List.find?_eq_none.1 hfind e he ?_
      exact hindex.isVersionOf_of_isNumberedKey hname (List.mem_reverse.1 he) hkey
    rw [LeadsToLast, hnone, hresolve, hfind]
    rfl
  · obtain ⟨hversion, later, earlier, hsplit, hlater⟩ := List.find?_eq_some_iff_append.1 hfind
    have hentries : index.topics.entries = earlier.reverse ++ e :: later.reverse := by
      rw [← List.reverse_inj, hsplit]
      simp
    have he : e ∈ index.topics.entries := by simp [hentries]
    have hlater' : ∀ e' ∈ later, isNumberedKey name.toList e'.1.toList = false := by
      intro e' he'
      by_contra hkey
      have := hindex.isVersionOf_of_isNumberedKey hname (e := e') (by simp [hentries, he'])
        (by simpa using hkey)
      simpa [this] using hlater e' he'
    obtain ⟨other, hsuffix, hother⟩ := (hindex.isVersionOf_iff hname he).1 hversion
    have hkey : isNumberedKey name.toList e.1.toList = true := by
      by_contra hkey
      refine hshadow ⟨_, e, _, hentries, ⟨other, ?_, hsuffix, hother⟩, by simpa using hlater'⟩
      rintro rfl
      exact hkey hother
    have hlast : index.lastVersion? name = some e := List.find?_eq_some_iff_append.2
      ⟨hkey, later, earlier, hsplit, by simpa using hlater'⟩
    have hpage := hindex.resolve_key he
    rw [LeadsToLast, hlast]
    exact ⟨by rw [hresolve, hfind, hpage]; rfl, hpage⟩

/-- A shadowed name leads to a topic that is no version of its package. -/
theorem Versioned.exists_of_shadowed (hindex : index.Versioned) (hname : '/' ∉ name.toList)
    (hshadow : index.Shadowed name) : ∃ e ∈ index.topics.entries,
      isNumberedKey name.toList e.1.toList = false ∧
        index.resolve name = toFirstPage (some e.2) := by
  obtain ⟨before, e, after, hentries, ⟨other, hne, hsuffix, hother⟩, hafter⟩ := hshadow
  have hreverse : index.topics.entries.reverse = after.reverse ++ e :: before.reverse := by
    simp [hentries]
  have hresolve : index.resolve name = toFirstPage (index.latest? name) := resolve_name hname
  rw [latest?_eq, hreverse, List.find?_append] at hresolve
  rcases hlater : after.reverse.find? fun e => isVersionOf e.2.slug name with _ | f
  · have he : e ∈ index.topics.entries := by simp [hentries]
    have hfound := (hindex.isVersionOf_iff hname he).2 ⟨other, hsuffix, hother⟩
    have hkey : isNumberedKey name.toList e.1.toList = false := by
      by_contra hkey
      exact hne (eq_of_isNumberedKey hother (by simpa using hkey))
    refine ⟨e, he, hkey, ?_⟩
    rw [hresolve, hlater, Option.none_or, List.find?_cons, hfound]
    rfl
  · have hf : f ∈ after := List.mem_reverse.1 (List.mem_of_find?_eq_some hlater)
    exact ⟨f, by simp [hentries, hf], hafter f hf, by rw [hresolve, hlater]; rfl⟩

/-- A shadowed name leads away from the last version of its package. -/
theorem Versioned.not_leadsToLast (hindex : index.Versioned) (hname : '/' ∉ name.toList)
    (hpages : index.HasOwnPages) (hshadow : index.Shadowed name) : ¬index.LeadsToLast name := by
  obtain ⟨e, he, hkey, hresolve⟩ := hindex.exists_of_shadowed hname hshadow
  obtain ⟨slug, hslug, hown⟩ := hpages e he
  rw [toFirstPage, Option.bind_some, hslug] at hresolve
  rcases hlast : index.lastVersion? name with _ | k
  · rw [LeadsToLast, hlast, hresolve]
    exact Route.noConfusion
  · have hk : k ∈ index.topics.entries := List.mem_reverse.1 (List.mem_of_find?_eq_some hlast)
    have hkkey : isNumberedKey name.toList k.1.toList = true := by
      rw [lastVersion?] at hlast
      simpa using List.find?_some hlast
    rw [LeadsToLast, hlast, hresolve]
    rintro ⟨hroute, hpage⟩
    obtain ⟨slug', hslug', -⟩ := hpages k hk
    rw [← hroute, hslug'] at hpage
    have hsame : slug' = slug := by simpa using hpage.symm
    rw [hown k hk (hsame ▸ hslug'), hkey] at hkkey
    cases hkkey

/-- A topic with one page. -/
def onePageTopic (key : String) : Topic where
  slug := "docs/" ++ key
  title := key
  children := [{
    slug := key, title := key, children := [{ slug := key ++ "/start", title := key }] }]

/-- A site of topics with one page each. -/
def onePageSite (keys : List String) (hkeys : keys.Nodup := by decide) : DocsIndex where
  topics := {
    entries := keys.map fun key => (key, onePageTopic key)
    nodup := by simpa [Function.comp_def] using hkeys }

theorem versioned_onePageSite {keys : List String} (hnodup : keys.Nodup)
    (hkeys : ∀ key ∈ keys, ∃ name version : List Char, name ≠ [] ∧ version ≠ [] ∧ '/' ∉ name ∧
      '/' ∉ version ∧ key.toList = name ++ '/' :: version) :
    (onePageSite keys hnodup).Versioned where
  keyed := by
    intro e he
    obtain ⟨key, hkey, rfl⟩ := List.mem_map.1 he
    exact ⟨rfl, hkeys key hkey⟩

/-- A path of only a name leads to the last version of its package if no version of a package
whose name ends with that name stands behind it, and where pages differ, only then. -/
theorem resolve_bareName (hindex : index.Versioned) (hname : '/' ∉ name.toList) :
    (¬index.Shadowed name → index.LeadsToLast name) ∧
      (index.HasOwnPages → index.LeadsToLast name → ¬index.Shadowed name) :=
  ⟨hindex.leadsToLast hname, fun hpages hlast hshadow =>
    hindex.not_leadsToLast hname hpages hshadow hlast⟩

/-- `kit` leads to its last version where `sveltekit` stands before it. -/
theorem resolve_bareName_kit : (onePageSite ["sveltekit/v1", "kit/v2"]).Versioned ∧
    '/' ∉ "kit".toList ∧ ¬(onePageSite ["sveltekit/v1", "kit/v2"]).Shadowed "kit" ∧
    (onePageSite ["sveltekit/v1", "kit/v2"]).LeadsToLast "kit" := by
  have hindex : (onePageSite ["sveltekit/v1", "kit/v2"]).Versioned := by
    refine versioned_onePageSite (by decide) ?_
    simp only [List.mem_cons, List.not_mem_nil, or_false, forall_eq_or_imp, forall_eq]
    exact ⟨⟨"sveltekit".toList, "v1".toList, by decide⟩, "kit".toList, "v2".toList, by decide⟩
  have hshadow : ¬(onePageSite ["sveltekit/v1", "kit/v2"]).Shadowed "kit" := by
    rintro ⟨before, e, after, hentries, ⟨other, hne, -, hother⟩, hafter⟩
    rcases before with _ | ⟨_, _ | ⟨_, before⟩⟩
    · obtain ⟨-, rfl⟩ := List.cons.inj hentries
      exact absurd (hafter _ (List.mem_singleton_self _)) (by decide)
    · obtain ⟨rfl, -⟩ := List.cons.inj (List.cons.inj hentries).2
      exact hne (eq_of_isNumberedKey hother (by decide))
    · simp [onePageSite] at hentries
  exact ⟨hindex, by decide, hshadow, (resolve_bareName hindex (by decide)).1 hshadow⟩

/-- `kit` leads to `sveltekit` where that stands behind it. -/
theorem not_leadsToLast_kit : (onePageSite ["kit/v2", "sveltekit/v1"]).Versioned ∧
    '/' ∉ "kit".toList ∧
    (onePageSite ["kit/v2", "sveltekit/v1"]).resolve "kit" =
      .redirect "/sveltekit/v1/start" 307 ∧
    ¬(onePageSite ["kit/v2", "sveltekit/v1"]).LeadsToLast "kit" := by
  refine ⟨?_, by decide, by decide, fun hlast => ?_⟩
  · refine versioned_onePageSite (by decide) ?_
    simp only [List.mem_cons, List.not_mem_nil, or_false, forall_eq_or_imp, forall_eq]
    exact ⟨⟨"kit".toList, "v2".toList, by decide⟩, "sveltekit".toList, "v1".toList, by decide⟩
  · have hroute : (onePageSite ["kit/v2", "sveltekit/v1"]).resolve "kit" =
        (onePageSite ["kit/v2", "sveltekit/v1"]).resolve "kit/v2" := hlast.1
    exact absurd hroute (by decide)

end DocsIndex

end ReferencePages
