import ExprLang.Proofs.Stages

/-!
# Courses of stages

A course is a stage together with the states on its way: those that it passes, and those where a part of it stops, in
a failure or a fault.  Courses are put together like stages, from steps that are not divided any more, and the stage
of what is put together is put together in the same way from the stages.  What each part of a course keeps is kept by
the whole (`Course.Keeps`), and then the states on the way are all known.
-/

namespace ExprLang

/-- A stage with the states on its way. -/
structure Course (σ α : Type) where
  stage : Stage σ α
  /-- Whether the stage, when it begins in the first state, passes the second one. -/
  passes : σ → σ → Prop
  /-- Whether a part of the stage, when it begins in the first state, ends in the second one without being done. -/
  stops : σ → σ → Prop

/-- What is to hold of the states on the way: of those between the parts of a course, and of those where a part has not
been done. -/
structure Account (σ : Type) (inside stopped : σ → Prop) where
  between : σ → Prop
  failing : σ → Prop
  inside_of_between : ∀ {state}, between state → inside state
  stopped_of_failing : ∀ {state}, failing state → stopped state

namespace Stage

variable {σ α : Type} {inside stopped : σ → Prop}

/-- Whether a stage ends in a state and is done. -/
def Passes (stage : Stage σ α) (before after : σ) : Prop :=
  ∃ value, stage before = (.done value, after)

/-- Whether a stage ends in a state and is not done. -/
def Stops (stage : Stage σ α) (before after : σ) : Prop :=
  stage before = (.failed, after) ∨ ∃ cause, stage before = (.fault cause, after)

/-- Whether a stage that begins between two parts ends there too if it is done, or else where a part has not been. -/
structure Ends (stage : Stage σ α) (account : Account σ inside stopped) : Prop where
  done : ∀ {before after}, account.between before → stage.Passes before after → account.between after
  failing : ∀ {before after}, account.between before → stage.Stops before after → account.failing after

variable {account : Account σ inside stopped}

/-- It is enough to look at the end. -/
theorem Ends.of_match {stage : Stage σ α} (h : ∀ before, account.between before → match stage before with
    | (.done _, after) => account.between after
    | (.failed, after) | (.fault _, after) => account.failing after) : stage.Ends account where
  done hbefore := by
    rintro ⟨value, hdone⟩
    have hend := h _ hbefore
    rwa [hdone] at hend
  failing hbefore := by
    rintro (hfailed | ⟨cause, hfault⟩)
    · have hend := h _ hbefore
      rwa [hfailed] at hend
    · have hend := h _ hbefore
      rwa [hfault] at hend

private theorem Ends.match {stage : Stage σ α} (h : stage.Ends account) {before : σ}
    (hbefore : account.between before) :
    match stage before with
    | (.done _, after) => account.between after
    | (.failed, after) | (.fault _, after) => account.failing after := by
  split
  · rename_i value after hdone
    exact h.done hbefore ⟨value, hdone⟩
  · rename_i after hfailed
    exact h.failing hbefore (.inl hfailed)
  · rename_i cause after hfault
    exact h.failing hbefore (.inr ⟨cause, hfault⟩)

end Stage

namespace Course

variable {σ α β : Type}

/-- A stage that is one step. -/
def step (stage : Stage σ α) : Course σ α where
  stage := stage
  passes before state := state = before ∨ stage.Passes before state
  stops := stage.Stops

/-- The second course follows the first if that is done. -/
protected def bind (first : Course σ α) (next : α → Course σ β) : Course σ β where
  stage := first.stage >>= fun value => (next value).stage
  passes before state := first.passes before state ∨
    ∃ value middle, first.stage before = (.done value, middle) ∧ (next value).passes middle state
  stops before state := first.stops before state ∨
    ∃ value middle, first.stage before = (.done value, middle) ∧ (next value).stops middle state

instance : Monad (Course σ) where
  pure value := step (pure value)
  bind := Course.bind

/-- Takes a course and tells a value from a failure, after which it goes on. -/
def attempt (course : Course σ α) : Course σ (Option α) where
  stage := Stage.attempt course.stage
  passes before state := course.passes before state ∨ (Stage.attempt course.stage).Passes before state
  stops := course.stops

/-- Changes the state around a course. -/
def around (save : σ → β) (enter : σ → σ) (leave : β → σ → σ) (course : Course σ α) : Course σ α where
  stage := Stage.around save enter leave course.stage
  passes before state := state = before ∨ course.passes (enter before) state ∨
    (Stage.around save enter leave course.stage).Passes before state
  stops before state := course.stops (enter before) state ∨
    (Stage.around save enter leave course.stage).Stops before state

private theorem stage_bind (first : Course σ α) (next : α → Course σ β) :
    (first >>= next).stage = first.stage >>= fun value => (next value).stage := rfl

/-- Courses of the same stages are courses of the same stage. -/
theorem stage_bind_eq {first : Course σ α} {next : α → Course σ β} {stage : Stage σ α} {following : α → Stage σ β}
    (h : first.stage = stage) (hnext : ∀ value, (next value).stage = following value) :
    (first >>= next).stage = stage >>= following := by
  rw [stage_bind, h]
  exact congrArg _ (funext hnext)

theorem stage_around_eq {save : σ → β} {enter : σ → σ} {leave : β → σ → σ} {course : Course σ α} {stage : Stage σ α}
    (h : course.stage = stage) : (around save enter leave course).stage = Stage.around save enter leave stage :=
  congrArg (Stage.around save enter leave) h

theorem stage_attempt_eq {course : Course σ α} {stage : Stage σ α} (h : course.stage = stage) :
    course.attempt.stage = Stage.attempt stage :=
  congrArg Stage.attempt h

/-! ### What is kept on the way -/

variable {inside stopped : σ → Prop} {account outer inner : Account σ inside stopped}

/-- Whether the states on the way of a course, and the one where it ends, are as they are to be. -/
structure Keeps (account : Account σ inside stopped) (course : Course σ α) : Prop where
  ends : course.stage.Ends account
  passes : ∀ before state, account.between before → course.passes before state → inside state
  stops : ∀ before state, account.between before → course.stops before state → stopped state

theorem keeps_step {stage : Stage σ α} (h : stage.Ends account) : (step stage).Keeps account where
  ends := h
  passes before state hbefore hpasses := by
    rcases hpasses with rfl | hpasses
    · exact account.inside_of_between hbefore
    · exact account.inside_of_between (h.done hbefore hpasses)
  stops before state hbefore hstops := account.stopped_of_failing (h.failing hbefore hstops)

theorem keeps_pure (value : α) : (pure value : Course σ α).Keeps account :=
  keeps_step (.of_match fun _ hbefore => hbefore)

theorem Keeps.bind {first : Course σ α} {next : α → Course σ β} (h : first.Keeps account)
    (hnext : ∀ value, (next value).Keeps account) : (first >>= next).Keeps account where
  ends := by
    refine .of_match fun before hbefore => ?_
    have hfirst := h.ends.match hbefore
    rw [stage_bind, Stage.bind_apply]
    generalize first.stage before = result at hfirst ⊢
    rcases result with ⟨value | _ | _, middle⟩
    · exact (hnext value).ends.match hfirst
    · exact hfirst
    · exact hfirst
  passes before state hbefore hpasses := by
    rcases hpasses with hpasses | ⟨value, middle, hdone, hpasses⟩
    · exact h.passes before state hbefore hpasses
    · exact (hnext value).passes middle state (h.ends.done hbefore ⟨value, hdone⟩) hpasses
  stops before state hbefore hstops := by
    rcases hstops with hstops | ⟨value, middle, hdone, hstops⟩
    · exact h.stops before state hbefore hstops
    · exact (hnext value).stops middle state (h.ends.done hbefore ⟨value, hdone⟩) hstops

/-- What is observed may be known from the account. -/
theorem keeps_observe_bind {f : σ → α} {next : α → Course σ β} {value : α}
    (hvalue : ∀ state, account.between state → f state = value) (hnext : (next value).Keeps account) :
    (step (Stage.observe f) >>= next).Keeps account := by
  have hobserve : ∀ before, account.between before →
      (step (Stage.observe f)).stage before = (.done value, before) := by
    intro before hbefore
    rw [← hvalue before hbefore]
    rfl
  refine ⟨.of_match fun before hbefore => ?_, fun before state hbefore hpasses => ?_,
    fun before state hbefore hstops => ?_⟩
  · rw [stage_bind, Stage.bind_of_done (hobserve before hbefore)]
    exact hnext.ends.match hbefore
  · rcases hpasses with (rfl | ⟨observed, hdone⟩) | ⟨observed, middle, hdone, hpasses⟩
    · exact account.inside_of_between hbefore
    · obtain ⟨-, rfl⟩ := Prod.mk.inj hdone
      exact account.inside_of_between hbefore
    · obtain ⟨rfl, rfl⟩ : value = observed ∧ before = middle := by simpa [hobserve before hbefore] using hdone
      exact hnext.passes before state hbefore hpasses
  · rcases hstops with (hfailed | ⟨cause, hfault⟩) | ⟨observed, middle, hdone, hstops⟩
    · cases hfailed
    · cases hfault
    · obtain ⟨rfl, rfl⟩ : value = observed ∧ before = middle := by simpa [hobserve before hbefore] using hdone
      exact hnext.stops before state hbefore hstops

/-- Where a failure makes no difference, an attempt is done in any case. -/
theorem Keeps.attempt {course : Course σ α} (h : course.Keeps account)
    (hfailing : ∀ state, account.failing state → account.between state) : course.attempt.Keeps account := by
  have hends : (Stage.attempt course.stage).Ends account := by
    refine .of_match fun before hbefore => ?_
    have hend := h.ends.match hbefore
    rw [Stage.attempt]
    generalize course.stage before = result at hend ⊢
    rcases result with ⟨_ | _ | _, after⟩
    · exact hend
    · exact hfailing after hend
    · exact hend
  refine ⟨hends, fun before state hbefore hpasses => ?_, h.stops⟩
  rcases hpasses with hpasses | hpasses
  · exact h.passes before state hbefore hpasses
  · exact account.inside_of_between (hends.done hbefore hpasses)

/-- Inside of what is changed around a course, another account is kept. -/
theorem Keeps.around {save : σ → β} {enter : σ → σ} {leave : β → σ → σ} {course : Course σ α} (h : course.Keeps inner)
    (henter : ∀ before, outer.between before → inner.between (enter before))
    (hdone : ∀ before after, outer.between before → inner.between after → outer.between (leave (save before) after))
    (hfailing : ∀ before after, outer.between before → inner.failing after →
      outer.failing (leave (save before) after)) : (around save enter leave course).Keeps outer := by
  have hends : (Stage.around save enter leave course.stage).Ends outer := by
    refine .of_match fun before hbefore => ?_
    have hend := h.ends.match (henter before hbefore)
    rw [Stage.around]
    generalize course.stage (enter before) = result at hend ⊢
    rcases result with ⟨_ | _ | _, after⟩
    · exact hdone before after hbefore hend
    · exact hfailing before after hbefore hend
    · exact hfailing before after hbefore hend
  refine ⟨hends, fun before state hbefore hpasses => ?_, fun before state hbefore hstops => ?_⟩
  · rcases hpasses with rfl | hpasses | hpasses
    · exact outer.inside_of_between hbefore
    · exact h.passes _ state (henter before hbefore) hpasses
    · exact outer.inside_of_between (hends.done hbefore hpasses)
  · rcases hstops with hstops | hstops
    · exact h.stops _ state (henter before hbefore) hstops
    · exact outer.stopped_of_failing (hends.failing hbefore hstops)

end Course

end ExprLang
