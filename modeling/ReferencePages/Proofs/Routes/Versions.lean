import Mathlib.Data.List.Nodup
import ReferencePages.Proofs.Routes

/-!
# The versions of a layout

A path has a layout exactly if a page stands behind the key of a topic in it
(`resolve_eq_layout_iff`). The topic is found by its whole key, its versions by cutting the name of
the package off every key; the two agree (`layout_versions`): the version of the path is among the
versions, and on a site whose keys are a name and a version each, the versions are those of the
package, in the order of the topics. A package whose name only begins with that of another one adds
none to it.
-/

namespace ReferencePages

/-! ## Layouts -/

/-- The key of a version of a package. -/
def topicKey (name version : List Char) : String := String.ofList (name ++ '/' :: version)

namespace DocsIndex

variable {index : DocsIndex} {path : String} {layout : Layout} {name : List Char}

/-- A path has a layout if the part behind a second slash is a page of a topic. -/
theorem resolve_eq_layout_iff : index.resolve path = .layout layout ↔
    ∃ name version page topic, path.toList = name ++ '/' :: version ++ '/' :: page ∧
      '/' ∉ name ∧ '/' ∉ version ∧ index.topics.get? (topicKey name version) = some topic ∧
      layout = ⟨topic.children, String.ofList version, index.versions name⟩ := by
  have htoFirst (topic : Option Topic) : toFirstPage topic ≠ .layout layout := by
    rw [toFirstPage]
    split <;> exact Route.noConfusion
  constructor
  · intro h
    by_cases hslash : '/' ∈ path.toList
    · obtain ⟨name, behind, hpath, hname⟩ := List.eq_append_cons_of_mem hslash
      rw [resolve, pathParts, hpath, List.splitOn_append_cons_self_of_not_mem hname] at h
      by_cases hpage : '/' ∈ behind
      · obtain ⟨version, page, rfl, hversion⟩ := List.eq_append_cons_of_mem hpage
        rw [List.splitOn_append_cons_self_of_not_mem hversion] at h
        simp only [List.isEmpty_eq_false_iff.2 (List.splitOn_ne_nil '/' page)] at h
        split at h
        · cases h
        · next topic htopic =>
          refine ⟨name, version, page, topic, ?_, hname, hversion, htopic, ?_⟩
          · rw [hpath, List.append_assoc, List.cons_append]
          · exact (Route.layout.inj h).symm
      · rw [List.splitOn_eq_singleton hpage] at h
        simp only [List.isEmpty_nil, if_true] at h
        split at h
        · cases h
        · exact absurd h (htoFirst _)
    · rw [resolve, pathParts, List.splitOn_eq_singleton hslash] at h
      exact absurd h (htoFirst _)
  · rintro ⟨name, version, page, topic, hpath, hname, hversion, htopic, rfl⟩
    rw [List.append_assoc, List.cons_append] at hpath
    rw [resolve, pathParts, hpath, List.splitOn_append_cons_self_of_not_mem hname,
      List.splitOn_append_cons_self_of_not_mem hversion]
    rw [topicKey] at htopic
    simp only [htopic, List.isEmpty_eq_false_iff.2 (List.splitOn_ne_nil '/' page)]
    rfl

/-- What is listed for a key: the part up to the next slash behind the name of the package. -/
theorem mem_versions_iff {v : String} : v ∈ index.versions name ↔
    ∃ key ∈ index.topics.keys, ∃ rest, key.toList = name ++ '/' :: rest ∧
      v = String.ofList (rest.takeWhile (· != '/')) := by
  simp only [versions, List.mem_filterMap, Option.map_eq_some_iff, dropPrefix?_eq_some_iff,
    List.append_assoc, List.singleton_append, eq_comm (b := v)]

/-- The version of a key is listed among the versions of its package. -/
theorem mem_versions_of_mem {version : List Char} (hversion : '/' ∉ version)
    (h : topicKey name version ∈ index.topics.keys) :
    String.ofList version ∈ index.versions name := by
  refine mem_versions_iff.2 ⟨_, h, version, String.toList_ofList, ?_⟩
  rw [takeWhile_ne_of_not_mem hversion]

/-- On a site whose keys are a name and a version each, the keys of the listed versions are the keys
that begin with the name of the package. -/
theorem map_topicKey_versions (hkeys : ∀ key ∈ index.topics.keys, key.toList.count '/' = 1) :
    (index.versions name).map (fun v => topicKey name v.toList) =
      index.topics.keys.filter fun key => startsWith (name ++ ['/']) key.toList := by
  rw [versions, List.map_filterMap, ← List.filterMap_eq_filter]
  refine List.filterMap_congr fun key hkey => ?_
  rcases hcut : dropPrefix? (name ++ ['/']) key.toList with _ | rest
  · rw [Option.guard, startsWith, hcut]
    rfl
  · have hcount := hkeys key hkey
    have hsplit := dropPrefix?_eq_some_iff.1 hcut
    rw [hsplit, List.count_append, List.count_append, List.count_singleton_self] at hcount
    have hrest : '/' ∉ rest := List.count_eq_zero.1 (by omega)
    have hstart : startsWith (name ++ ['/']) key.toList = true := by rw [startsWith, hcut]; rfl
    rw [Option.guard, if_pos hstart, Option.map_some, Option.map_some,
      takeWhile_ne_of_not_mem hrest, String.toList_ofList, topicKey, List.append_cons, ← hsplit,
      String.ofList_toList]

/-- The versions of a package, in the order of the topics. -/
structure ListsVersions (index : DocsIndex) (name : List Char) (versions : List String) : Prop where
  /-- Listed is what is a version of the package. -/
  mem_iff (v : String) : v ∈ versions ↔ topicKey name v.toList ∈ index.topics.keys
  /-- The versions stand as their topics do. -/
  inOrder : (versions.map fun v => topicKey name v.toList).Sublist index.topics.keys

theorem topicKey_injective (name : List Char) :
    Function.Injective fun v : String => topicKey name v.toList := by
  intro v w h
  have hlist := congrArg String.toList h
  simp only [topicKey, String.toList_ofList, List.append_cancel_left_eq, List.cons.injEq,
    true_and] at hlist
  exact String.toList_inj.1 hlist

theorem listsVersions (hkeys : ∀ key ∈ index.topics.keys, key.toList.count '/' = 1) :
    index.ListsVersions name (index.versions name) where
  mem_iff v := by
    rw [← List.mem_map_of_injective (topicKey_injective name), map_topicKey_versions hkeys,
      List.mem_filter]
    refine and_iff_left_of_imp fun _ => startsWith_iff.2 ⟨v.toList, ?_⟩
    rw [topicKey, String.toList_ofList, List.append_cons]
  inOrder := by
    rw [map_topicKey_versions hkeys]
    exact List.filter_sublist

/-- No version is listed twice, since no topic is. -/
theorem ListsVersions.nodup {versions : List String} (h : index.ListsVersions name versions) :
    versions.Nodup :=
  .of_map (fun v => topicKey name v.toList) (index.topics.nodup.sublist h.inOrder)

/-- The version of a layout is the second part of its path and one of its versions. If every key of
the index is a name and a version, its versions are those of the package that is the first part of
the path, in the order of the topics and none of them twice. -/
theorem layout_versions (h : index.resolve path = .layout layout) :
    ∃ name version page, path.toList = name ++ '/' :: version ++ '/' :: page ∧
      '/' ∉ name ∧ '/' ∉ version ∧ layout.version = String.ofList version ∧
      layout.version ∈ layout.versions ∧
      ((∀ key ∈ index.topics.keys, key.toList.count '/' = 1) →
        index.ListsVersions name layout.versions ∧ layout.versions.Nodup) := by
  obtain ⟨name, version, page, topic, hpath, hname, hversion, htopic, rfl⟩ :=
    resolve_eq_layout_iff.1 h
  exact ⟨name, version, page, hpath, hname, hversion, rfl,
    mem_versions_of_mem hversion (Keyed.mem_keys_of_get? htopic),
    fun hkeys => ⟨listsVersions hkeys, (listsVersions hkeys).nodup⟩⟩

/-- A site of a package whose name begins that of a second one and ends that of a third one. -/
def kitSite : DocsIndex := onePageSite ["kit/v2", "kit-node/v3", "sveltekit/v4", "kit/v1"]

/-- A page of the first version of `kit` has that version, and two versions in all. -/
theorem layout_versions_kit : ∃ layout, kitSite.resolve "kit/v1/start" = .layout layout ∧
    (∀ key ∈ kitSite.topics.keys, key.toList.count '/' = 1) ∧
    layout.version = "v1" ∧ layout.versions = ["v2", "v1"] ∧
    kitSite.ListsVersions "kit".toList layout.versions ∧ layout.versions.Nodup := by
  have hkeys : ∀ key ∈ kitSite.topics.keys, key.toList.count '/' = 1 := by decide
  have h : kitSite.resolve "kit/v1/start" = .layout {
      sections := [{ slug := "kit/v1", title := "kit/v1"
                     children := [{ slug := "kit/v1/start", title := "kit/v1" }] }]
      version := "v1"
      versions := ["v2", "v1"] } := by
    decide
  obtain ⟨name, version, page, hpath, hname, -, -, -, hlists⟩ := layout_versions h
  rw [List.append_assoc, List.cons_append] at hpath
  obtain ⟨rfl, -⟩ := append_cons_inj (a := "kit".toList) (x := "v1/start".toList) (by decide) hname
    hpath
  obtain ⟨hversions, hdistinct⟩ := hlists hkeys
  exact ⟨_, h, hkeys, rfl, rfl, hversions, hdistinct⟩

end DocsIndex

end ReferencePages
