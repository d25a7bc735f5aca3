import ReferencePages.Proofs.TypeScript.Cursor

/-!
# What a parser reads

A parser that is put together reads what its parts read one after the other (`Parser.Reads`): so a
mark or word passes the next token (`Parser.Passes`), a part with its place takes what stands
between two cursors (`Parser.Takes`), and a repetition reads one part behind the other
(`Parser.ReadsAll`).
-/

namespace ReferencePages.TypeScript

namespace Parser

variable {α β : Type}

/-- A parser finds something and stops at a cursor. -/
def Reads (p : Parser α) (scope : Scope) (c : Cursor) (x : α) (d : Cursor) : Prop :=
  ∃ leads, p scope c = .found x d leads

variable {p : Parser α} {f : α → Parser β} {scope : Scope} {c d : Cursor} {x : α} {y : β}

theorem Reads.leads (h : p.Reads scope c x d) : c.Leads d := h.1

@[simp] theorem reads_pure {x' : α} :
    (pure x : Parser α).Reads scope c x' d ↔ x' = x ∧ d = c := by
  constructor
  · rintro ⟨_, h⟩
    cases h
    exact ⟨rfl, rfl⟩
  · rintro ⟨rfl, rfl⟩
    exact ⟨.refl d, rfl⟩

theorem bind_apply (p : Parser α) (f : α → Parser β) (scope : Scope) (c : Cursor) :
    (p >>= f) scope c =
      match p scope c with
      | .found x rest leads => (f x scope rest).after leads
      | .refused rest leads => .refused rest leads := rfl

@[simp] theorem reads_bind :
    (p >>= f).Reads scope c y d ↔ ∃ x m, p.Reads scope c x m ∧ (f x).Reads scope m y d := by
  constructor
  · rintro ⟨leads, h⟩
    rw [bind_apply] at h
    split at h
    · next x m first hp =>
      rcases hf : f x scope m with ⟨y', d', second⟩ | ⟨d', second⟩
      · rw [hf] at h
        cases h
        exact ⟨x, m, ⟨first, hp⟩, second, hf⟩
      · rw [hf] at h
        cases h
    · cases h
  · rintro ⟨x, m, ⟨first, hp⟩, second, hf⟩
    refine ⟨first.trans second, ?_⟩
    rw [bind_apply, hp]
    change (f x scope m).after first = _
    rw [hf]
    rfl

@[simp] theorem reads_discard {u : Unit} :
    (discard p).Reads scope c u d ↔ ∃ x, p.Reads scope c x d := by
  change (p >>= fun _ => pure ()).Reads scope c u d ↔ _
  simp

@[simp] theorem not_reads_refuse : ¬(refuse : Parser α).Reads scope c x d := by
  rintro ⟨_, h⟩
  cases h

@[simp] theorem reads_cursor {c' : Cursor} :
    cursor.Reads scope c c' d ↔ c' = c ∧ d = c := by
  constructor
  · rintro ⟨_, h⟩
    cases h
    exact ⟨rfl, rfl⟩
  · rintro ⟨rfl, rfl⟩
    exact ⟨.refl _, rfl⟩

@[simp] theorem reads_ensure {condition : Bool} {u : Unit} :
    (ensure condition).Reads scope c u d ↔ condition = true ∧ d = c := by
  cases condition <;> simp [ensure]

@[simp] theorem reads_next {token : Token} :
    next.Reads scope c token d ↔ c.token = some token ∧ d = c.behind token := by
  constructor
  · rintro ⟨leads, h⟩
    unfold next at h
    split at h
    · next token' htoken =>
      cases h
      exact ⟨htoken, rfl⟩
    · cases h
  · rintro ⟨htoken, rfl⟩
    refine ⟨.read htoken, ?_⟩
    unfold next
    split
    · next token' htoken' =>
      obtain rfl := Option.some.inj (htoken.symm.trans htoken')
      rfl
    · next hnone => cases htoken.symm.trans hnone

theorem Reads.of_attempt (h : (attempt p).Reads scope c (some x) d) : p.Reads scope c x d := by
  obtain ⟨leads, h⟩ := h
  rcases hp : p scope c with ⟨x', d', leads'⟩ | ⟨d', leads'⟩
  · rw [attempt, hp] at h
    cases h
    exact ⟨leads, hp⟩
  · rw [attempt, hp] at h
    cases h

/-! ## Tokens -/

@[simp] theorem reads_peek? {token : Option Token} :
    peek?.Reads scope c token d ↔ token = c.token ∧ d = c := by
  simp [peek?, and_assoc, and_comm]

@[simp] theorem reads_nextIs {q : TokenKind → Bool} {holds : Bool} :
    (nextIs q).Reads scope c holds d ↔ holds = c.token.any (q ·.kind) ∧ d = c := by
  simp [nextIs, and_assoc, and_comm]

@[simp] theorem reads_atEnd {holds : Bool} :
    atEnd.Reads scope c holds d ↔ holds = c.token.isNone ∧ d = c := by
  simp [atEnd, and_assoc, and_comm]

/-- A token of a kind is the next one of a cursor, and another cursor stands behind it. -/
def Passes (kind : TokenKind) (c d : Cursor) : Prop :=
  ∃ token, c.token = some token ∧ token.kind = kind ∧ d = c.behind token

theorem exists_passes {kind : TokenKind} {token : Token} (htoken : c.token = some token)
    (hany : true = c.token.any (·.kind == kind)) : Passes kind c (c.behind token) := by
  rw [htoken, Option.any_some, eq_comm, beq_iff_eq] at hany
  exact ⟨token, htoken, hany, rfl⟩

theorem Reads.passes_mark {text : String} {u : Unit} (h : (mark text).Reads scope c u d) :
    Passes (.punct text) c d := by
  simp only [mark, isMark, reads_bind, reads_nextIs, reads_ensure, reads_discard,
    reads_next] at h
  obtain ⟨_, _, ⟨rfl, rfl⟩, _, _, ⟨hany, rfl⟩, token, htoken, rfl⟩ := h
  exact exists_passes htoken hany.symm

theorem Reads.passes_word {text : String} {u : Unit} (h : (word text).Reads scope c u d) :
    Passes (.word text false) c d := by
  simp only [word, isWord, reads_bind, reads_nextIs, reads_ensure, reads_discard,
    reads_next] at h
  obtain ⟨_, _, ⟨rfl, rfl⟩, _, _, ⟨hany, rfl⟩, token, htoken, rfl⟩ := h
  exact exists_passes htoken hany.symm

theorem reads_eat {text : String} {eaten : Bool} (h : (eat text).Reads scope c eaten d) :
    if eaten then Passes (.punct text) c d else d = c := by
  simp only [eat, isMark, reads_bind, reads_nextIs] at h
  obtain ⟨holds, _, ⟨hany, rfl⟩, h⟩ := h
  cases holds with
  | false =>
    obtain ⟨rfl, rfl⟩ := reads_pure.1 h
    rfl
  | true =>
    simp only [if_true, reads_bind, reads_discard, reads_next, reads_pure] at h
    obtain ⟨_, _, ⟨token, htoken, rfl⟩, rfl, rfl⟩ := h
    exact exists_passes htoken hany

/-- A part that is read from one cursor to another stands between them, with its comments before
its first token. -/
def Takes (site : Site) (c d : Cursor) : Prop :=
  ∃ first, c.token = some first ∧ first.span.lo ≤ d.last ∧
    site = ⟨⟨first.span.lo, d.last⟩, first.comments⟩

theorem reads_located {site : Site} :
    (located p).Reads scope c (site, x) d ↔ p.Reads scope c x d ∧ Takes site c d := by
  simp only [located, reads_bind, reads_peek?]
  constructor
  · rintro ⟨_, _, ⟨rfl, rfl⟩, h⟩
    split at h
    · next first htoken =>
      simp only [reads_bind, reads_cursor, reads_ensure, reads_pure, decide_eq_true_eq,
        Prod.mk.injEq] at h
      obtain ⟨x', m, hp, _, _, ⟨rfl, rfl⟩, _, _, ⟨hle, rfl⟩, ⟨rfl, rfl⟩, rfl⟩ := h
      exact ⟨hp, first, htoken, hle, rfl⟩
    · exact absurd h not_reads_refuse
  · rintro ⟨hp, first, htoken, hle, rfl⟩
    refine ⟨_, _, ⟨rfl, rfl⟩, ?_⟩
    rw [htoken]
    simp only [reads_bind, reads_cursor, reads_ensure, reads_pure, decide_eq_true_eq]
    exact ⟨x, d, hp, d, d, ⟨rfl, rfl⟩, (), d, ⟨hle, rfl⟩, rfl, rfl⟩

/-! ## Repetition -/

/-- One part after the other is read. -/
inductive ReadsAll (R : Cursor → α → Cursor → Prop) : Cursor → List α → Cursor → Prop where
  | nil (c : Cursor) : ReadsAll R c [] c
  | cons {c m d : Cursor} {x : α} {xs : List α} (head : R c x m) (tail : ReadsAll R m xs d) :
      ReadsAll R c (x :: xs) d

theorem ReadsAll.mono {R R' : Cursor → α → Cursor → Prop} {xs : List α} (h : ReadsAll R c xs d)
    (hR : ∀ c x d, R c x d → R' c x d) : ReadsAll R' c xs d := by
  induction h with
  | nil c => exact .nil c
  | cons head _ ih => exact .cons (hR _ _ _ head) ih

variable {step : Parser (Option α)} {xs : List α}

/-- Parts are read one after the other, until none is found. -/
theorem readsAll_of_repeatUpTo {n : Nat} (h : (repeatUpTo step n).Reads scope c xs d) :
    ∃ m, ReadsAll (fun c x d => step.Reads scope c (some x) d) c xs m ∧
      step.Reads scope m none d := by
  induction n generalizing c xs with
  | zero => exact absurd h not_reads_refuse
  | succ n ih =>
    obtain ⟨found, m, hstep, h⟩ := reads_bind.1 h
    cases found with
    | none =>
      obtain ⟨rfl, rfl⟩ := reads_pure.1 h
      exact ⟨c, .nil c, hstep⟩
    | some x =>
      obtain ⟨xs', m', hrest, h⟩ := reads_bind.1 h
      obtain ⟨rfl, rfl⟩ := reads_pure.1 h
      obtain ⟨stop, hall, hstop⟩ := ih hrest
      exact ⟨stop, .cons hstep hall, hstop⟩

theorem readsAll_of_many (h : (many step).Reads scope c xs d) :
    ∃ m, ReadsAll (fun c x d => step.Reads scope c (some x) d) c xs m ∧
      step.Reads scope m none d := by
  obtain ⟨c', _, hcursor, hrepeat⟩ := reads_bind.1 h
  obtain ⟨rfl, rfl⟩ := reads_cursor.1 hcursor
  exact readsAll_of_repeatUpTo hrepeat

/-- A part is read, unless something ends the parts. -/
theorem reads_unless {stop : Parser Bool} {found : Option α}
    (h : (do if ← stop then return none else step : Parser (Option α)).Reads scope c found d) :
    found = none ∧ stop.Reads scope c true d ∨
      ∃ m, stop.Reads scope c false m ∧ step.Reads scope m found d := by
  obtain ⟨stops, m, hstop, hstep⟩ := reads_bind.1 h
  cases stops with
  | false => exact Or.inr ⟨m, hstop, hstep⟩
  | true =>
    obtain ⟨rfl, rfl⟩ := reads_pure.1 hstep
    exact Or.inl ⟨rfl, hstop⟩

theorem reads_some {found : Option α}
    (h : (do return some (← p) : Parser (Option α)).Reads scope c found d) :
    ∃ x, found = some x ∧ p.Reads scope c x d := by
  obtain ⟨x, m, hp, hsome⟩ := reads_bind.1 h
  obtain ⟨rfl, rfl⟩ := reads_pure.1 hsome
  exact ⟨x, rfl, hp⟩

/-- A closing mark that is the next token is read; otherwise a part is. -/
theorem reads_eat_or {close : String} {found : Option α}
    (h : (do if ← eat close then return none else return some (← p) : Parser (Option α)).Reads
      scope c found d) :
    match found with
    | none => Passes (.punct close) c d
    | some x => p.Reads scope c x d := by
  rcases reads_unless h with ⟨rfl, heat⟩ | ⟨m, heat, hsome⟩
  · exact reads_eat heat
  · obtain ⟨x, rfl, hp⟩ := reads_some hsome
    obtain rfl : m = c := reads_eat heat
    exact hp

theorem readsAll_of_manyUntil {close : String} (h : (manyUntil close p).Reads scope c xs d) :
    ∃ m, ReadsAll (p.Reads scope) c xs m ∧ Passes (.punct close) m d := by
  obtain ⟨m, hall, hstop⟩ := readsAll_of_many h
  exact ⟨m, hall.mono fun _ _ _ => reads_eat_or, reads_eat_or hstop⟩

theorem reads_of_unless_atEnd
    (h : (do if ← atEnd then return none else step : Parser (Option α)).Reads
      scope c (some x) d) : step.Reads scope c (some x) d := by
  rcases reads_unless h with ⟨hnone, -⟩ | ⟨m, hend, hstep⟩
  · cases hnone
  · obtain ⟨-, rfl⟩ := reads_atEnd.1 hend
    exact hstep

theorem readsAll_of_blockOf (h : (blockOf p).Reads scope c xs d) :
    ∃ m, ReadsAll (p.Reads scope) c xs m := by
  obtain ⟨m, hall, -⟩ := readsAll_of_many h
  exact ⟨m, hall.mono fun _ _ _ hstep => reads_eat_or (reads_of_unless_atEnd hstep)⟩

end Parser

end ReferencePages.TypeScript
