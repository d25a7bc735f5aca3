import ReferencePages.Proofs.TypeScript.Reads

/-!
# Bodies of members

A body of members stands between two braces, and its members fill it: one follows the other, with
nothing but trivia between them, before them and behind them (`IsBody`). The comments of a member
begin behind the member before it, or behind the opening brace.
-/

namespace ReferencePages.TypeScript

variable {source : List Char} {lo hi : Nat}

/-- Parts stand one after the other from one position to another, with nothing but trivia around
them. -/
def Fill (source : List Char) : Nat → List Site → Nat → Prop
  | lo, [], hi => IsGapOf source lo hi
  | lo, site :: sites, hi =>
    IsGapOf source lo site.span.lo ∧ (∀ c ∈ site.comments, lo ≤ c.lo) ∧
      site.span.lo ≤ site.span.hi ∧ Fill source site.span.hi sites hi

/-- Members fill a body, from its opening brace up to the closing one. -/
structure IsBody (source : List Char) (members : List Site) (body : Span) : Prop where
  opening : ['\x7b'] <+: source.drop body.lo
  closing : ['\x7d'] <+: source.drop (body.hi - 1)
  hi_pos : 0 < body.hi
  fill : Fill source (body.lo + 1) members (body.hi - 1)

namespace Parser

variable {α : Type} {c d : Cursor}

theorem Passes.mark {text : String} (h : Passes (.punct text) c d) (hc : c.IsOf source) :
    ∃ lo, IsGapOf source c.last lo ∧ text.toList <+: source.drop lo ∧
      d.last = lo + text.length := by
  obtain ⟨token, htoken, hkind, rfl⟩ := h
  have hbehind := hc.token token htoken
  obtain ⟨hstart, hhi⟩ := hbehind.mark text hkind
  exact ⟨token.span.lo, hbehind.gap, hstart, (Cursor.last_ofGap ..).trans hhi⟩

theorem Passes.leads {kind : TokenKind} (h : Passes kind c d) : c.Leads d := by
  obtain ⟨token, htoken, -, rfl⟩ := h
  exact .read htoken

theorem ReadsAll.leads {R : Cursor → α → Cursor → Prop} {xs : List α} (h : ReadsAll R c xs d)
    (hR : ∀ c x d, R c x d → c.Leads d) : c.Leads d := by
  induction h with
  | nil c => exact .refl c
  | cons head _ ih => exact (hR _ _ _ head).trans ih

theorem fill_of_readsAll {R : Cursor → α → Cursor → Prop} {site : α → Site} {xs : List α}
    (h : ReadsAll R c xs d) (hc : c.IsOf source)
    (hR : ∀ c x d, R c x d → c.Leads d ∧ Takes (site x) c d) (hgap : IsGapOf source d.last hi) :
    Fill source c.last (xs.map site) hi := by
  induction h with
  | nil => exact hgap
  | @cons c m _ x xs head _ ih =>
    obtain ⟨hleads, first, hfirst, hle, hsite⟩ := hR c x m head
    have hbehind := hc.token first hfirst
    rw [List.map_cons, Fill, hsite]
    exact ⟨hbehind.gap, fun comment hcomment => (hbehind.comments comment hcomment).1, hle,
      ih (hleads.isOf hc).1 hgap⟩

/-- Members that are read between two braces fill the body. -/
theorem isBody_of_readsAll {R : Cursor → α → Cursor → Prop} {site : α → Site} {xs : List α}
    {m m' : Cursor} (hopen : Passes (.punct "\x7b") c m) (h : ReadsAll R m xs m')
    (hclose : Passes (.punct "\x7d") m' d) (hc : c.IsOf source)
    (hR : ∀ c x d, R c x d → c.Leads d ∧ Takes (site x) c d) :
    ∃ lo, c.last ≤ lo ∧ IsBody source (xs.map site) ⟨lo, d.last⟩ := by
  obtain ⟨lo, hgap, hopening, hlo⟩ := hopen.mark hc
  have hm := (hopen.leads.isOf hc).1
  have hm' := ((h.leads fun c x d hx => (hR c x d hx).1).isOf hm).1
  obtain ⟨close, hend, hclosing, hhi⟩ := hclose.mark hm'
  have hfill := fill_of_readsAll h hm hR hend
  rw [show m.last = lo + 1 from hlo] at hfill
  rw [show d.last = close + 1 from hhi]
  exact ⟨lo, hgap.le, hopening, hclosing, Nat.succ_pos close, hfill⟩

end Parser

end ReferencePages.TypeScript
