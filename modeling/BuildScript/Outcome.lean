import BuildScript.Error

/-!
# Outcomes

A step of the conversion may report several diagnostics before it yields a value or
fails. Its outcome keeps both, so that a later step can append its own; a handler
takes the diagnostics in the order of the reports.
-/

namespace BuildScript

/-- The result of a step with the diagnostics that it reported, in order. -/
structure Outcome (α : Type) where
  reports : List Error
  result : Except Error α
  deriving Repr

namespace Outcome

def ofExcept {α : Type} (result : Except Error α) : Outcome α :=
  ⟨[], result⟩

/-- The next step on a result, its diagnostics after the earlier ones. -/
def andThen {α β : Type} (outcome : Outcome α) (next : α → Outcome β) : Outcome β :=
  match outcome.result with
  | .error error => ⟨outcome.reports, .error error⟩
  | .ok value => ⟨outcome.reports ++ (next value).reports, (next value).result⟩

def map {α β : Type} (f : α → β) (outcome : Outcome α) : Outcome β :=
  ⟨outcome.reports, outcome.result.map f⟩

end Outcome

/-- A receiver of diagnostics that can tell whether it received any. -/
structure Handler (σ : Type) where
  receive : σ → Error → σ
  hasReceived : σ → Bool

namespace Handler

def collecting : Handler (List Error) :=
  ⟨fun kept error => kept ++ [error], fun kept => !kept.isEmpty⟩

/-- Forgets every diagnostic, and that there were any. -/
def discarding : Handler Unit :=
  ⟨fun _ _ => (), fun _ => false⟩

/-- Only remembers that there was a diagnostic. -/
def printing : Handler Bool :=
  ⟨fun _ _ => true, fun received => received⟩

/-- The receiver behind a tracker that remembers whether anything came through. -/
def tracking {σ : Type} (handler : Handler σ) : Handler (σ × Bool) :=
  ⟨fun (state, _) error => (handler.receive state error, true), fun (_, received) => received⟩

def deliver {σ α : Type} (handler : Handler σ) (before : σ) (outcome : Outcome α) : σ :=
  outcome.reports.foldl handler.receive before

end Handler

end BuildScript
