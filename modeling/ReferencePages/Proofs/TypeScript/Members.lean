import ReferencePages.Proofs.TypeScript.Body
import ReferencePages.Proofs.TypeScript.Yields
import ReferencePages.TypeScript.Grammar.Classes

/-!
# Members of classes and interfaces

The members that are read of a class, an interface or an object type fill its body.
-/

namespace ReferencePages.TypeScript

open TypeScript.Parser TypeScript.Grammar

variable {source : List Char} {g : Nested} {scope : Scope} {c d : Cursor}

theorem takes_of_typeMember {member : TypeMember} (h : (typeMember g).Reads scope c member d) :
    c.Leads d ∧ Takes member.site c d := by
  refine ⟨h.leads, ?_⟩
  obtain ⟨⟨site, key, shape⟩, m, hlocated, hmember⟩ := reads_bind.1 h
  have htakes := (reads_located.1 hlocated).2
  split at hmember
  · next heq =>
    cases heq
    obtain ⟨rfl, rfl⟩ := reads_pure.1 hmember
    exact htakes
  · next heq =>
    cases heq
    obtain ⟨rfl, rfl⟩ := reads_pure.1 hmember
    exact htakes

theorem takes_of_classMember {member : ClassMember} (h : (classMember g).Reads scope c member d) :
    c.Leads d ∧ Takes member.site c d := by
  refine ⟨h.leads, ?_⟩
  obtain ⟨⟨site, silent, key⟩, m, hlocated, hmember⟩ := reads_bind.1 h
  have htakes := (reads_located.1 hlocated).2
  obtain ⟨rfl, rfl⟩ := reads_pure.1 hmember
  cases silent with
  | false => exact htakes
  | true => exact htakes

/-- Members between braces fill a body. -/
theorem yields_members {α : Type} {p : Parser α} {site : α → Site}
    (hp : ∀ {scope c x d}, p.Reads scope c x d → c.Leads d ∧ Takes (site x) c d) :
    Yields source (do mark "\x7b"; manyUntil "\x7d" p)
      fun xs body => IsBody source (xs.map site) body := by
  intro scope c xs d hc h
  obtain ⟨_, m, hopen, hmembers⟩ := reads_bind.1 h
  obtain ⟨m', hall, hclose⟩ := readsAll_of_manyUntil hmembers
  exact isBody_of_readsAll hopen.passes_mark hall hclose hc fun _ _ _ => hp

theorem yields_typeMembers : Yields source (typeMembers g)
    fun members body => IsBody source (members.map TypeMember.site) body :=
  yields_members takes_of_typeMember

theorem yields_classRest : Yields source (classRest g)
    fun members body => IsBody source (members.map ClassMember.site) body :=
  .skip fun _ => yields_members takes_of_classMember

end ReferencePages.TypeScript
