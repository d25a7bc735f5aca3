import ReferencePages.Proofs.TypeScript.Reads

/-!
# What is told of all that a parser finds

A parser of a source yields a property of what it finds and of the part of the source that it is
found in (`Parser.Yields`). Such a property is carried along the grammar, rule by rule: whatever
has been read before a part only moves it on.
-/

namespace ReferencePages.TypeScript.Parser

variable {α β : Type} {source : List Char} {p q : Parser α} {f : α → Parser β}
  {P Q : α → Span → Prop} {R : β → Span → Prop}

/-- What a parser finds in a source has a property, together with a part of the source that begins
behind the token before and ends where the parser stops. -/
def Yields (source : List Char) (p : Parser α) (Q : α → Span → Prop) : Prop :=
  ∀ scope c x d, c.IsOf source → p.Reads scope c x d → ∃ lo, c.last ≤ lo ∧ Q x ⟨lo, d.last⟩

/-- A property of what is found, if something is. -/
def IfSome (Q : α → Span → Prop) (found : Option α) (part : Span) : Prop :=
  ∀ x ∈ found, Q x part

namespace Yields

theorem pure {x : α} (h : ∀ part, Q x part) : Yields source (pure x) Q := by
  intro scope c y d _ hread
  obtain ⟨rfl, rfl⟩ := reads_pure.1 hread
  exact ⟨_, le_rfl, h _⟩

theorem none : Yields source (Pure.pure .none : Parser (Option α)) (IfSome Q) := .pure nofun

theorem refuse : Yields source (Parser.refuse : Parser α) Q := fun _ _ _ _ _ hread =>
  absurd hread not_reads_refuse

/-- What a parser finds is either passed over by what follows, or it is all that is made use of. -/
theorem bind (hp : Yields source p Q)
    (hf : ∀ x, Yields source (f x) R ∨ ∃ y, f x = Pure.pure y ∧ ∀ part, Q x part → R y part) :
    Yields source (p >>= f) R := by
  intro scope c y d hc hread
  obtain ⟨x, m, hx, hy⟩ := reads_bind.1 hread
  rcases hf x with hskip | ⟨y', hpure, hR⟩
  · obtain ⟨hm, hle⟩ := hx.leads.isOf hc
    obtain ⟨lo, hlo, hR⟩ := hskip scope m y d hm hy
    exact ⟨lo, hle.trans hlo, hR⟩
  · rw [hpure] at hy
    obtain ⟨rfl, rfl⟩ := reads_pure.1 hy
    obtain ⟨lo, hlo, hQ⟩ := hp scope c x d hc hx
    exact ⟨lo, hlo, hR _ hQ⟩

/-- What is read before a part does not tell what is found. -/
theorem skip (h : ∀ x, Yields source (f x) R) : Yields source (p >>= f) R :=
  bind (Q := fun _ _ => True) (fun _ c _ _ _ _ => ⟨c.last, le_rfl, trivial⟩) fun x => .inl (h x)

theorem map (g : α → β) (hp : Yields source p Q) (h : ∀ x part, Q x part → R (g x) part) :
    Yields source (p >>= fun x => Pure.pure (g x)) R :=
  hp.bind fun x => .inr ⟨g x, rfl, h x⟩

theorem some (hp : Yields source p Q) :
    Yields source (p >>= fun x => Pure.pure (.some x)) (IfSome Q) :=
  hp.map _ fun _ _ hQ _ hy => Option.some.inj hy ▸ hQ

theorem ite {condition : Prop} [Decidable condition] (hp : Yields source p Q)
    (hq : Yields source q Q) : Yields source (if condition then p else q) Q := by
  split
  · exact hp
  · exact hq

theorem withReader {change : Scope → Scope} (hp : Yields source p Q) :
    Yields source (withReader change p) Q := fun scope => hp (change scope)

theorem attempt (hp : Yields source p Q) : Yields source (attempt p) (IfSome Q) := by
  intro scope c found d hc hread
  cases found with
  | none => exact ⟨d.last, (hread.leads.isOf hc).2, nofun⟩
  | some x =>
    obtain ⟨lo, hlo, hQ⟩ := hp scope c x d hc hread.of_attempt
    exact ⟨lo, hlo, fun y hy => Option.some.inj hy ▸ hQ⟩

/-- What the first parser finds, or what the second one does where the first finds nothing. -/
theorem orElse {p : Parser (Option α)} {k : Option α → Parser (Option α)}
    (hp : Yields source p (IfSome Q)) (hnone : Yields source (k .none) (IfSome Q))
    (hsome : ∀ x, k (.some x) = Pure.pure (.some x)) : Yields source (p >>= k) (IfSome Q) :=
  hp.bind fun
    | .some x => .inr ⟨_, hsome x, fun _ h => h⟩
    | .none => .inl hnone

theorem located (hp : Yields source p Q) :
    Yields source (located p) fun found part => Q found.2 part := by
  intro scope c found d hc hread
  exact hp scope c found.2 d hc (reads_located.1 hread).1

theorem forall_of_readsAll {scope : Scope} {c d : Cursor} {xs : List α} {H : α → Prop}
    (hp : Yields source p fun x _ => H x) (h : ReadsAll (p.Reads scope) c xs d)
    (hc : c.IsOf source) : ∀ x ∈ xs, H x := by
  induction h with
  | nil => nofun
  | cons head _ ih =>
    obtain ⟨_, _, hx⟩ := hp scope _ _ _ hc head
    exact List.forall_mem_cons.2 ⟨hx, ih (head.leads.isOf hc).1⟩

end Yields

end ReferencePages.TypeScript.Parser
