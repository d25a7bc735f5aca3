import Mathlib.Data.List.Nodup
import ReferencePages.Proofs.Sync.Inputs

/-!
# Configurations that are accepted

A configuration is accepted exactly if it has packages, no two of one name and each with a source
for its modules. Otherwise it is refused for the first package that is at fault; where this one
repeats a name and has no source either, it is refused for the name (`FirstFault`).

Reading the modules of a package fails in many ways, but only a package that has no source is found
to have none (`runOn_packageModules_eq_noModuleSource_iff`). So whatever programs and files do, this
happens to no package of a configuration that is accepted (`validate_exact`).
-/

namespace ReferencePages

/-! ## Faults of packages -/

/-- A package has declaration files, or a program that writes a listing. -/
def Package.HasSource (p : Package) : Prop :=
  p.declarations.isSome ∨ ∃ g, p.generator = some g ∧ g.listing.isSome

/-- Packages of different names, each of which has a source. -/
structure SoundPackages (ps : List Package) : Prop where
  names : (ps.map Package.name).Nodup
  sources : ∀ p ∈ ps, p.HasSource

/-- What is wrong with the first of some packages that has the name of one before it or has no
source. -/
inductive FirstFault : List Package → ConfigFailure → Prop
  | duplicateName {before after : List Package} {p : Package} (hbefore : SoundPackages before)
      (hname : p.name ∈ before.map Package.name) :
      FirstFault (before ++ p :: after) (.duplicateName p.name)
  | noSource {before after : List Package} {p : Package} (hbefore : SoundPackages before)
      (hname : p.name ∉ before.map Package.name) (hsource : ¬p.HasSource) :
      FirstFault (before ++ p :: after) (.noSource p.name)

variable {ps : List Package} {p : Package} {seen : List String} {f : ConfigFailure}

theorem Package.hasSource_iff : p.hasSource = true ↔ p.HasSource := by
  rw [hasSource, Bool.or_eq_true, usesListing, Option.any_eq_true]
  rfl

theorem packageFault?_eq_none_iff :
    Config.packageFault? seen p = none ↔ p.name ∉ seen ∧ p.HasSource := by
  rw [← Package.hasSource_iff, Config.packageFault?]
  by_cases hname : p.name ∈ seen
  · simp [hname]
  · simp [hname]

theorem packageFault?_eq_some_iff :
    Config.packageFault? seen p = some f ↔
      (p.name ∈ seen ∧ f = .duplicateName p.name) ∨
        (p.name ∉ seen ∧ ¬p.HasSource ∧ f = .noSource p.name) := by
  rw [← Package.hasSource_iff, Config.packageFault?]
  by_cases hname : p.name ∈ seen
  · simp [hname, eq_comm (b := f)]
  · by_cases hsource : p.hasSource = true
    · simp [hname, hsource]
    · simp [hname, hsource, eq_comm (b := f)]

theorem packageFault?_congr {seen' : List String} (h : ∀ name, name ∈ seen ↔ name ∈ seen')
    (p : Package) : Config.packageFault? seen p = Config.packageFault? seen' p := by
  have hcontains : seen.contains p.name = seen'.contains p.name := by
    rw [Bool.eq_iff_iff, List.contains_iff_mem, List.contains_iff_mem, h]
  rw [Config.packageFault?, Config.packageFault?, hcontains]

/-! ## The first fault -/

theorem soundPackages_cons :
    SoundPackages (p :: ps) ↔ p.HasSource ∧ p.name ∉ ps.map Package.name ∧ SoundPackages ps := by
  constructor
  · rintro ⟨hnames, hsources⟩
    obtain ⟨hname, hnames⟩ := List.nodup_cons.1 hnames
    obtain ⟨hsource, hsources⟩ := List.forall_mem_cons.1 hsources
    exact ⟨hsource, hname, hnames, hsources⟩
  · rintro ⟨hsource, hname, hnames, hsources⟩
    exact ⟨List.nodup_cons.2 ⟨hname, hnames⟩, List.forall_mem_cons.2 ⟨hsource, hsources⟩⟩

/-- No package is at fault behind packages of some names if none has one of the names and the
packages are sound. -/
theorem firstFault?_eq_none_iff :
    Config.firstFault? seen ps = none ↔
      (∀ name ∈ ps.map Package.name, name ∉ seen) ∧ SoundPackages ps := by
  induction ps generalizing seen with
  | nil => simp [Config.firstFault?, SoundPackages.mk]
  | cons p ps ih =>
    rw [Config.firstFault?, Option.or_eq_none_iff, packageFault?_eq_none_iff, ih,
      soundPackages_cons, List.map_cons, List.forall_mem_cons]
    constructor
    · rintro ⟨⟨hname, hsource⟩, hseen, hsound⟩
      refine ⟨⟨hname, fun name hmem hold => ?_⟩, hsource, fun hmem => ?_, hsound⟩
      · exact hseen name hmem (List.mem_cons_of_mem _ hold)
      · exact hseen p.name hmem List.mem_cons_self
    · rintro ⟨⟨hname, hseen⟩, hsource, hfresh, hsound⟩
      refine ⟨⟨hname, hsource⟩, fun name hmem => ?_, hsound⟩
      rw [List.mem_cons, not_or]
      exact ⟨fun heq => hfresh (heq ▸ hmem), hseen name hmem⟩

/-- The fault that is found is that of a package behind packages without fault. -/
theorem firstFault?_eq_some_iff :
    Config.firstFault? seen ps = some f ↔
      ∃ before p after, ps = before ++ p :: after ∧ Config.firstFault? seen before = none ∧
        Config.packageFault? (before.map Package.name ++ seen) p = some f := by
  induction ps generalizing seen with
  | nil => simp [Config.firstFault?]
  | cons q ps ih =>
    rw [Config.firstFault?]
    cases hq : Config.packageFault? seen q with
    | some fault =>
      constructor
      · intro h
        exact ⟨[], q, ps, rfl, rfl, hq.trans h⟩
      · rintro ⟨_ | ⟨q', before⟩, p, after, hps, hnone, hfault⟩
        · obtain ⟨rfl, -⟩ := List.cons.inj hps
          exact hq.symm.trans hfault
        · obtain ⟨rfl, -⟩ := List.cons.inj hps
          rw [Config.firstFault?, hq] at hnone
          cases hnone
    | none =>
      rw [Option.none_or, ih]
      -- The name of the first package is among the names before a later one.
      have hmove : ∀ (before : List Package) (p : Package),
          Config.packageFault? (before.map Package.name ++ q.name :: seen) p =
            Config.packageFault? ((q :: before).map Package.name ++ seen) p := fun before p =>
        packageFault?_congr (fun name => by simp [or_left_comm]) p
      constructor
      · rintro ⟨before, p, after, rfl, hnone, hfault⟩
        refine ⟨q :: before, p, after, rfl, ?_, (hmove before p).symm.trans hfault⟩
        rw [Config.firstFault?, hq, Option.none_or, hnone]
      · rintro ⟨_ | ⟨q', before⟩, p, after, hps, hnone, hfault⟩
        · obtain ⟨rfl, -⟩ := List.cons.inj hps
          cases hq.symm.trans hfault
        · obtain ⟨rfl, rfl⟩ := List.cons.inj hps
          rw [Config.firstFault?, hq, Option.none_or] at hnone
          exact ⟨before, p, after, rfl, hnone, (hmove before p).trans hfault⟩

theorem firstFault?_nil_eq_none_iff : Config.firstFault? [] ps = none ↔ SoundPackages ps := by
  simp [firstFault?_eq_none_iff]

theorem firstFault?_nil_eq_some_iff : Config.firstFault? [] ps = some f ↔ FirstFault ps f := by
  simp only [firstFault?_eq_some_iff, firstFault?_nil_eq_none_iff, List.append_nil,
    packageFault?_eq_some_iff]
  constructor
  · rintro ⟨before, p, after, rfl, hbefore, ⟨hname, rfl⟩ | ⟨hname, hsource, rfl⟩⟩
    · exact .duplicateName hbefore hname
    · exact .noSource hbefore hname hsource
  · rintro (⟨hbefore, hname⟩ | ⟨hbefore, hname, hsource⟩)
    · exact ⟨_, _, _, rfl, hbefore, Or.inl ⟨hname, rfl⟩⟩
    · exact ⟨_, _, _, rfl, hbefore, Or.inr ⟨hname, hsource, rfl⟩⟩

/-! ## The verdict -/

theorem validate_eq_ok_iff {c : Config} :
    c.validate = .ok c ↔ c.packages ≠ [] ∧ SoundPackages c.packages := by
  rw [← firstFault?_nil_eq_none_iff, Config.validate, Config.fault?]
  rcases c.packages with _ | ⟨p, ps⟩
  · simp
  · cases Config.firstFault? [] (p :: ps) <;> simp

theorem validate_eq_error_iff {c : Config} {e : DocError} :
    c.validate = .error e ↔
      (c.packages = [] ∧ e = .config .noPackages) ∨
        ∃ f, FirstFault c.packages f ∧ e = .config f := by
  simp only [← firstFault?_nil_eq_some_iff, Config.validate, Config.fault?]
  rcases c.packages with _ | ⟨p, ps⟩
  · simp [Config.firstFault?, eq_comm]
  · cases Config.firstFault? [] (p :: ps) <;> simp [eq_comm]

/-! ## Outcomes that are no refused configuration -/

/-- An outcome is not a refused configuration. -/
def NotRefused {α : Type} (x : Except DocError α) : Prop := ∀ f, x ≠ .error (.config f)

namespace NotRefused

variable {α β : Type}

theorem ok (a : α) : NotRefused (.ok a) := fun _ h => nomatch h

theorem error {e : DocError} (h : ∀ f, e ≠ .config f) : NotRefused (.error e : Except DocError α) :=
  fun f he => h f (Except.error.inj he)

theorem bind {x : Except DocError α} {f : α → Except DocError β} (hx : NotRefused x)
    (hf : ∀ a, NotRefused (f a)) : NotRefused (x >>= f) := by
  rcases x with e | a
  · exact fun failure h => hx failure (congrArg Except.error (Except.error.inj h))
  · exact hf a

theorem mapM {f : α → Except DocError β} (hf : ∀ a, NotRefused (f a)) (xs : List α) :
    NotRefused (xs.mapM f) := by
  induction xs with
  | nil => exact ok []
  | cons x xs ih =>
    rw [List.mapM_cons]
    exact bind (hf x) fun y => bind ih fun ys => ok (y :: ys)

theorem foldlM {f : β → α → Except DocError β} (hf : ∀ b a, NotRefused (f b a)) (b : β)
    (xs : List α) : NotRefused (xs.foldlM f b) := by
  induction xs generalizing b with
  | nil => exact ok b
  | cons x xs ih =>
    rw [List.foldlM_cons]
    exact bind (hf b x) ih

end NotRefused

/-! ### Reading modules -/

variable {readers : Readers} {o : FormatOptions} {t : FileTree}

theorem notRefused_readDeclarations (path : String) (t : FileTree) :
    NotRefused (readDeclarations path t) := by
  unfold readDeclarations
  repeat' split
  · exact .ok _
  · exact .error nofun
  · exact .error nofun

theorem notRefused_readDeclarationSource (path : String) (t : FileTree) :
    NotRefused (readDeclarationSource readers path t) := by
  refine .bind (notRefused_readDeclarations path t) fun text => ?_
  unfold readSource
  repeat' split
  · exact .error nofun
  · exact .ok _
  · exact .error nofun

theorem notRefused_ofItems (source : List Char) (items : List TypeScript.Item) :
    NotRefused (Extraction.ofItems o source items) := by
  have hadd : ∀ (e : Extraction) (item : TypeScript.Item),
      NotRefused (Extraction.add o source e item) := by
    intro e item
    unfold Extraction.add exportedSymbol
    repeat' split
    · exact .bind (.error nofun) fun _ => .ok _
    · exact .bind (.ok _) fun _ => .ok _
    · exact .ok e
    · exact .ok e
  exact .bind (.foldlM hadd _ items) fun e => .ok e.sort

theorem notRefused_entryModules (origin : Option String) (path : String) (t : FileTree) :
    NotRefused (entryModules readers o origin path t) :=
  .bind (notRefused_readDeclarationSource path t) fun source =>
    .mapM (fun (_, _, items) => .bind (notRefused_ofItems source.text items) fun _ => .ok _) _

theorem notRefused_privateModule (path : String) (t : FileTree) :
    NotRefused (privateModule readers o path t) :=
  .bind (notRefused_readDeclarationSource path t) fun source =>
    .bind (notRefused_ofItems source.text source.items) fun _ => .ok _

theorem notRefused_fragmentModules (origin : Option String) (directory : String) (t : FileTree) :
    NotRefused (fragmentModules origin directory t) := by
  unfold fragmentModules
  repeat' split
  · exact .mapM (fun name => .bind (notRefused_readDeclarations _ t) fun _ => .ok _) _
  · exact .ok _
  · exact .error nofun
  · exact .error nofun

theorem notRefused_assembleModules (sources : DeclarationSources) (t : FileTree) :
    NotRefused (assembleModules readers o sources t) :=
  .bind (.mapM (fun path => notRefused_privateModule path t) _) fun _ =>
    .bind (.mapM (fun path => notRefused_fragmentModules sources.origin path t) _) fun _ =>
      .bind (notRefused_entryModules sources.origin sources.entry t) fun _ => .ok _

theorem notRefused_readListing (path command : String) (t : FileTree) :
    NotRefused (readListing readers path command t) := by
  unfold readListing
  repeat' split
  · exact .error nofun
  · exact .ok _
  · exact .error nofun

theorem notRefused_outcome (programs : Programs) (p : Package) (t : FileTree) :
    NotRefused (p.outcome programs t) := by
  unfold Package.outcome Generator.outcome
  repeat' split
  · exact .error nofun
  · exact .ok _
  · exact .error nofun
  · exact .ok _

/-- What a package with a source is read from is a listing, or its declaration files. -/
theorem notRefused_readModules (hsource : p.HasSource) (t : FileTree) :
    NotRefused (p.readModules readers o t) := by
  have hdeclared : p.declarations.isSome → NotRefused (p.declaredModules readers o t) := by
    intro hsome
    obtain ⟨sources, hsources⟩ := Option.isSome_iff_exists.1 hsome
    rw [Package.declaredModules, hsources]
    exact notRefused_assembleModules sources t
  unfold Package.readModules
  split
  · next g hg =>
    split
    · exact notRefused_readListing _ _ t
    · next hpath =>
      refine hdeclared (hsource.resolve_right ?_)
      rintro ⟨g', hg', hlisting⟩
      obtain rfl : g = g' := Option.some.inj (hg.symm.trans hg')
      rw [Option.map_eq_none_iff.1 hpath] at hlisting
      cases hlisting
  · next hg =>
    refine hdeclared (hsource.resolve_right ?_)
    rintro ⟨g', hg', -⟩
    cases hg.symm.trans hg'

/-- A package that has a source is not refused when its modules are read, whatever its program does
and whatever is in the files. -/
theorem notRefused_runOn_packageModules (hsource : p.HasSource) (programs : Programs)
    (t : FileTree) : NotRefused ((packageModules readers programs o p).runOn t).1 := by
  rw [runOn_packageModules]
  exact .bind (notRefused_outcome programs p t) fun _ =>
    .bind (notRefused_readModules hsource _) fun _ => .ok _

/-- A package without a source has nothing that its modules could be read from. -/
theorem readModules_of_not_hasSource (hsource : ¬p.HasSource) (t : FileTree) :
    p.readModules readers o t = .error (.config (.noModuleSource p.name)) := by
  obtain ⟨hdeclarations, hlisting⟩ := not_or.1 hsource
  have hdeclared : p.declaredModules readers o t = .error (.config (.noModuleSource p.name)) := by
    rw [Package.declaredModules, Option.not_isSome_iff_eq_none.1 hdeclarations]
  unfold Package.readModules
  split
  · next g hg =>
    have hnone : g.listing = none :=
      Option.not_isSome_iff_eq_none.1 fun hsome => hlisting ⟨g, hg, hsome⟩
    rw [Generator.listingPath?, hnone]
    exact hdeclared
  · exact hdeclared

/-- A package is found to have no source exactly if it has none and its program, where there is one,
has ended well. -/
theorem runOn_packageModules_eq_noModuleSource_iff {programs : Programs} {name : String} :
    ((packageModules readers programs o p).runOn t).1 = .error (.config (.noModuleSource name)) ↔
      ¬p.HasSource ∧ p.outcome programs t = .ok () ∧ name = p.name := by
  by_cases hsource : p.HasSource
  · simp [hsource, notRefused_runOn_packageModules hsource programs t (.noModuleSource name)]
  rw [runOn_packageModules, readModules_of_not_hasSource hsource]
  have hnot := notRefused_outcome programs p t (.noModuleSource name)
  rcases houtcome : p.outcome programs t with e | ⟨⟩
  · have he : e ≠ .config (.noModuleSource name) := fun heq =>
      hnot (houtcome.trans (congrArg Except.error heq))
    simpa [hsource, bind, Except.bind] using he
  · simp [hsource, bind, Except.bind, eq_comm]

/-! ## Accepted configurations -/

/-- A configuration is accepted exactly if it has packages, of different names and each with a
source; if not, it is refused for having none or for its first fault. No package of an accepted
configuration is found to have no source for its modules. -/
theorem validate_exact (c : Config) :
    (c.validate = .ok c ↔ c.packages ≠ [] ∧ SoundPackages c.packages) ∧
      (∀ e, c.validate = .error e ↔ (c.packages = [] ∧ e = .config .noPackages) ∨
        ∃ f, FirstFault c.packages f ∧ e = .config f) ∧
      (c.validate = .ok c →
        ∀ p ∈ c.packages, ∀ (readers : Readers) (programs : Programs) (t : FileTree)
          (name : String),
          ((packageModules readers programs c.format p).runOn t).1 ≠
            .error (.config (.noModuleSource name))) := by
  refine ⟨validate_eq_ok_iff, fun e => validate_eq_error_iff,
    fun hvalid p hp readers programs t name => ?_⟩
  obtain ⟨-, hsound⟩ := validate_eq_ok_iff.1 hvalid
  exact fun h => (runOn_packageModules_eq_noModuleSource_iff.1 h).1 (hsound.sources p hp)

/-- A package that is listed by a program, and one that is read from a declaration file. -/
def twoSourcesConfig : Config where
  packages := [
    { name := "svelte"
      referenceDir := "svelte"
      generator := some { program := "node", directory := "", listing := some "types.json" } },
    { name := "kit", referenceDir := "kit", declarations := some { entry := "index.d.ts" } }]

theorem validate_exact_twoSources :
    twoSourcesConfig.validate = .ok twoSourcesConfig ∧
      ∀ p ∈ twoSourcesConfig.packages, ∀ (readers : Readers) (programs : Programs) (t : FileTree)
        (name : String),
        ((packageModules readers programs twoSourcesConfig.format p).runOn t).1 ≠
          .error (.config (.noModuleSource name)) := by
  have hvalid : twoSourcesConfig.validate = .ok twoSourcesConfig := rfl
  exact ⟨hvalid, (validate_exact twoSourcesConfig).2.2 hvalid⟩

/-- A package that repeats a name and has no source is refused for its name. -/
example :
    let kit : Package := { name := "kit", referenceDir := "kit" }
    let sourced := { kit with declarations := some { entry := "index.d.ts" } }
    Config.validate { packages := [sourced, kit] } = .error (.config (.duplicateName "kit")) :=
  rfl

end ReferencePages
