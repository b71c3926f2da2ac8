import ExprLang.Fault

/-!
# Stages

A stage of the front end works on a state that outlives it.  It is done with a value, or it fails after it has
reported why, or it runs into a fault.  The state is kept in all three cases, so that nothing that has been
reported is lost.
-/

namespace ExprLang

/-- How a stage ends. -/
inductive Outcome (α : Type) where
  | done (value : α)
  /-- The reason has been reported. -/
  | failed
  | fault (cause : Fault)
  deriving DecidableEq, Repr

/-- A computation of an `α` that works on a state `σ`. -/
def Stage (σ α : Type) : Type :=
  σ → Outcome α × σ

namespace Stage

variable {σ α β : Type}

/-- Runs a stage. -/
@[inline] def run (stage : Stage σ α) (state : σ) : Outcome α × σ :=
  stage state

/-- The stage that is done at once. -/
@[always_inline, inline] protected def pure (value : α) : Stage σ α :=
  fun state => (.done value, state)

/-- The second stage follows the first if that is done. -/
@[always_inline, inline] protected def bind (first : Stage σ α) (next : α → Stage σ β) : Stage σ β :=
  fun state => match first state with
    | (.done value, state) => next value state
    | (.failed, state) => (.failed, state)
    | (.fault cause, state) => (.fault cause, state)

instance : Monad (Stage σ) where
  pure := Stage.pure
  bind := Stage.bind

/-- Ends in failure, the reason having been reported. -/
@[inline] def fail : Stage σ α :=
  fun state => (.failed, state)

/-- Ends in a fault. -/
@[inline] def raise (cause : Fault) : Stage σ α :=
  fun state => (.fault cause, state)

/-- A part of the state, or whatever is computed from it. -/
@[inline] def observe (f : σ → α) : Stage σ α :=
  fun state => (.done (f state), state)

/-- Changes the state. -/
@[inline] def change (f : σ → σ) : Stage σ Unit :=
  fun state => (.done (), f state)

/-- A result that may be a fault. -/
@[inline] def ofExcept (result : Except Fault α) : Stage σ α :=
  match result with
  | .ok value => Stage.pure value
  | .error cause => raise cause

/-- Runs a stage and tells a value from a failure. -/
@[inline] def attempt (stage : Stage σ α) : Stage σ (Option α) :=
  fun state => match stage state with
    | (.done value, state) => (.done (some value), state)
    | (.failed, state) => (.done none, state)
    | (.fault cause, state) => (.fault cause, state)

/-- Changes the state around a stage, however the stage ends.  What `save` takes from the state before is at
hand afterwards. -/
@[inline] def around (save : σ → β) (enter : σ → σ) (leave : β → σ → σ) (stage : Stage σ α) : Stage σ α :=
  fun state =>
    let saved := save state
    match stage (enter state) with
    | (outcome, state) => (outcome, leave saved state)

theorem pure_apply (value : α) (state : σ) : (pure value : Stage σ α) state = (.done value, state) := rfl

theorem bind_apply (first : Stage σ α) (next : α → Stage σ β) (state : σ) :
    (first >>= next) state = match first state with
      | (.done value, state) => next value state
      | (.failed, state) => (.failed, state)
      | (.fault cause, state) => (.fault cause, state) := rfl

end Stage

end ExprLang
