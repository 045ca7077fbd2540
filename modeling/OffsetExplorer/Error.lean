/-!
# Errors

The error kinds of the back end, and a report: a kind with what was attached to it on the way up,
in the order of attachment.
-/

namespace OffsetExplorer

/-- The kinds of failure; the last two are verdicts of the broker on the credentials and the ACLs. -/
inductive AppError where
  | db
  | kafka
  | secrets
  | validation
  | notFound
  | zookeeper
  | schemaRegistry
  | decode
  | authentication
  | authorization
  deriving DecidableEq

/-- `Display`. -/
def AppError.text : AppError → String
  | .db => "database error"
  | .kafka => "kafka error"
  | .secrets => "secrets store error"
  | .validation => "validation error"
  | .notFound => "not found"
  | .zookeeper => "zookeeper error"
  | .schemaRegistry => "schema registry error"
  | .decode => "payload decode error"
  | .authentication => "authentication error"
  | .authorization => "authorization error"

/-- An error report: its current kind and its attachments. -/
structure Report where
  error : AppError
  attachments : List String := []
  deriving DecidableEq

theorem bind_eq_ok {ε α β : Type} {x : Except ε α} {f : α → Except ε β} {b : β} :
    (x >>= f) = .ok b ↔ ∃ a, x = .ok a ∧ f a = .ok b := by
  cases x with
  | error e =>
    constructor
    · intro h
      cases h
    · rintro ⟨a, h, -⟩
      cases h
  | ok a =>
    constructor
    · intro h
      exact ⟨a, rfl, h⟩
    · rintro ⟨a', h, hf⟩
      cases h
      exact hf

end OffsetExplorer
