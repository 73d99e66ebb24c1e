import SchemaScope.Proofs.Registry.Ledger

/-!
What an operation on a registry leaves alone.

An operation speaks of one uri. A resource that is inserted may also take its id away from another
one. For every other uri the outcome stays, and with it what an import path leads to.
-/

set_option autoImplicit false

namespace SchemaScope

namespace Registry

variable {registry : Registry}

/-- The outcome of a uri may be changed by an operation. -/
def Touches (registry : Registry) : Operation → String → Prop
  | .idFor _, _ => False
  | .insert resource, uri =>
      Text.canonicalPath uri = Text.canonicalPath resource.uri ∨
        registry.uri? resource.id = some (Text.canonicalPath uri)
  | .markUnparseable other _, uri => Text.canonicalPath uri = Text.canonicalPath other
  | .remove other, uri => Text.canonicalPath uri = Text.canonicalPath other

theorem resolve_congr {other : Registry} {uri : String}
    (same : registry.outcome? uri = other.outcome? uri) :
    registry.resolve uri = other.resolve uri := by
  unfold resolve
  rw [same]

theorem outcome?_congr (registry : Registry) {uri other : String}
    (same : Text.canonicalPath uri = Text.canonicalPath other) :
    registry.outcome? uri = registry.outcome? other := by
  unfold outcome?
  rw [same]

theorem outcome?_of_resolve {uri : String} {resource : Resource}
    (resolved : registry.resolve uri = .ok resource) :
    registry.outcome? uri = some (.parsed resource) :=
  get?_eq_some_iff.mp (resolve_eq_ok_iff.mp resolved)

/-- Releasing an id forgets a binding exactly if its uri holds that id, so one other uri at most is
left without an outcome. -/
theorem Consistent.outcome?_insert (consistent : registry.Consistent) (resource : Resource)
    (uri : String) :
    (registry.insert resource).outcome? uri =
      if Text.canonicalPath uri = Text.canonicalPath resource.uri then some (.parsed resource)
      else if registry.uri? resource.id = some (Text.canonicalPath uri) then none
      else registry.outcome? uri := by
  rw [← outcome?_ledger, ← outcome?_ledger, consistent.ledger_insert resource]
  by_cases own : Text.canonicalPath uri = Text.canonicalPath resource.uri
  · simp [Ledger.outcome?, Ledger.insert, Ledger.bind, own]
  · have released : (registry.ledger.insert resource).outcome? uri =
        ((registry.ledger.binding? (Text.canonicalPath uri)).filter fun binding =>
          !decide (binding.id = resource.id)).bind Binding.outcome := by
      simp [Ledger.outcome?, Ledger.insert, Ledger.bind, Ledger.release, own]
    rw [released, if_neg own, Ledger.outcome?]
    cases bound : registry.ledger.binding? (Text.canonicalPath uri) with
    | none => simp
    | some binding =>
        obtain ⟨id, outcome⟩ := binding
        have held := (consistent.inverse _ id).mp (binding?_eq_some_iff.mp bound).1
        by_cases taken : id = resource.id
        · subst taken
          simp [Option.filter_some, uri?, held]
        · have kept : registry.uri? resource.id ≠ some (Text.canonicalPath uri) := by
            intro owner
            exact taken (consistent.id_unique held owner)
          simp [Option.filter_some, taken, kept]

end Registry

namespace Ledger

variable {ledger : Ledger}

/-- A uri that has just been given its id has no outcome yet, so no answer changes. -/
private theorem outcome?_of_idFor? {next : Ledger} {other : String} {id : FileId}
    (numbered : ledger.idFor? other = some (id, next)) (uri : String) :
    next.outcome? uri = ledger.outcome? uri := by
  unfold idFor? at numbered
  cases bound : ledger.binding? (Text.canonicalPath other) with
  | some binding =>
      simp only [bound] at numbered
      cases numbered
      rfl
  | none =>
      simp only [bound] at numbered
      split at numbered
      next => cases numbered
      next =>
          cases numbered
          by_cases same : Text.canonicalPath uri = Text.canonicalPath other
          · simp [outcome?, bind, same, bound]
          · simp [outcome?, bind, same]

private theorem outcome?_idFor (ledger : Ledger) (uri other : String) :
    (ledger.apply (.idFor other)).outcome? uri = ledger.outcome? uri := by
  simp only [apply]
  cases numbered : ledger.idFor? other with
  | none => rfl
  | some result => exact outcome?_of_idFor? numbered uri

private theorem outcome?_markUnparseable (ledger : Ledger) {uri other : String} (reason : String)
    (different : Text.canonicalPath uri ≠ Text.canonicalPath other) :
    (ledger.apply (.markUnparseable other reason)).outcome? uri = ledger.outcome? uri := by
  simp only [apply, markUnparseable?]
  cases numbered : ledger.idFor? other with
  | none => rfl
  | some result =>
      rw [← outcome?_of_idFor? numbered uri]
      simp [outcome?, bind, different]

private theorem outcome?_remove (ledger : Ledger) {uri other : String}
    (different : Text.canonicalPath uri ≠ Text.canonicalPath other) :
    (ledger.apply (.remove other)).outcome? uri = ledger.outcome? uri := by
  simp [apply, remove, outcome?, different]

end Ledger

namespace Registry

variable {registry : Registry}

private theorem Consistent.outcome?_apply_of_ledger (consistent : registry.Consistent)
    {operation : Operation} {uri : String}
    (same : (registry.ledger.apply operation).outcome? uri = registry.ledger.outcome? uri) :
    (registry.apply operation).outcome? uri = registry.outcome? uri := by
  rw [← outcome?_ledger, ← outcome?_ledger, consistent.ledger_apply]
  exact same

/-- An operation leaves the outcome of every uri alone that it does not touch. -/
theorem Consistent.outcome?_apply (consistent : registry.Consistent) {operation : Operation}
    {uri : String} (untouched : ¬ registry.Touches operation uri) :
    (registry.apply operation).outcome? uri = registry.outcome? uri := by
  cases operation with
  | insert resource =>
      obtain ⟨different, kept⟩ := not_or.mp untouched
      rw [apply_insert, consistent.outcome?_insert, if_neg different, if_neg kept]
  | idFor other =>
      exact consistent.outcome?_apply_of_ledger (Ledger.outcome?_idFor _ uri other)
  | markUnparseable other reason =>
      exact consistent.outcome?_apply_of_ledger
        (Ledger.outcome?_markUnparseable _ reason untouched)
  | remove other =>
      exact consistent.outcome?_apply_of_ledger (Ledger.outcome?_remove _ untouched)

end Registry

end SchemaScope
