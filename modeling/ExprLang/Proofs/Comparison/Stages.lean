import ExprLang.Proofs.Stages

/-!
# Two stages side by side

Two stages match if both are done or both fail, and what they end in is related; nothing is said of stages that run
into a fault (`Stage.Matches`).  There are rules for the ways of putting stages together.
-/

namespace ExprLang

/-! ### Results -/

section

variable {α β γ : Type} {first second : Except Fault α}

/-- Whether the second of two results is the same as the first, unless that is a fault. -/
def ExtendedBy (first second : Except Fault α) : Prop :=
  ∀ value, first = .ok value → second = .ok value

theorem extendedBy_rfl : ExtendedBy first first := fun _ h => h

theorem extendedBy_error {cause : Fault} : ExtendedBy (.error cause) second := by
  intro _ h
  cases h

theorem extendedBy_bind {second : Except Fault γ} {next : α → Except Fault β} {further : γ → Except Fault β}
    (h : ∀ value, first = .ok value → ∃ result, second = .ok result ∧ ExtendedBy (next value) (further result)) :
    ExtendedBy (first >>= next) (second >>= further) := by
  intro last hlast
  cases hfirst : first with
  | error cause =>
    rw [hfirst] at hlast
    cases hlast
  | ok value =>
    obtain ⟨result, hresult, hnext⟩ := h value hfirst
    rw [hfirst] at hlast
    rw [hresult]
    exact hnext last hlast

theorem ExtendedBy.bind {next further : α → Except Fault β} (h : ExtendedBy first second)
    (hnext : ∀ value, ExtendedBy (next value) (further value)) :
    ExtendedBy (first >>= next) (second >>= further) :=
  extendedBy_bind fun value hvalue => ⟨value, h value hvalue, hnext value⟩

end

/-! ### Stages -/

namespace Stage

variable {σ τ α β γ δ : Type} {state : σ} {other : τ}

/-- Whether two stages end alike: in `Q` if they are done, in `F` if they fail, and anyhow if one of them runs into a
fault. -/
inductive EndsAlike (Q : α → σ → β → τ → Prop) (F : σ → τ → Prop) : Outcome α × σ → Outcome β × τ → Prop
  | done {value after result last} (h : Q value after result last) :
      EndsAlike Q F (.done value, after) (.done result, last)
  | failed {after last} (h : F after last) : EndsAlike Q F (.failed, after) (.failed, last)
  | faultLeft {cause after last} : EndsAlike Q F (.fault cause, after) last
  | faultRight {cause after last} : EndsAlike Q F after (.fault cause, last)

/-- Whether two stages match. -/
def Matches (first : Stage σ α) (state : σ) (second : Stage τ β) (other : τ) (Q : α → σ → β → τ → Prop)
    (F : σ → τ → Prop) : Prop :=
  EndsAlike Q F (first state) (second other)

variable {first : Stage σ α} {second : Stage τ β} {Q : α → σ → β → τ → Prop} {F : σ → τ → Prop}

theorem Matches.of_done {value : α} {result : β} {after : σ} {last : τ} (hfirst : first state = (.done value, after))
    (hsecond : second other = (.done result, last)) (h : Q value after result last) :
    first.Matches state second other Q F := by
  rw [Matches, hfirst, hsecond]
  exact .done h

/-- If the first of two stages that match is done, so is the second, unless it runs into a fault. -/
theorem Matches.of_left_done (h : first.Matches state second other Q F) {value : α} {after : σ}
    (hfirst : first state = (.done value, after)) :
    (∃ result last, second other = (.done result, last) ∧ Q value after result last) ∨
      ∃ cause last, second other = (.fault cause, last) := by
  rw [Matches, hfirst] at h
  generalize second other = finish at h ⊢
  cases h with
  | done h => exact .inl ⟨_, _, rfl, h⟩
  | faultRight => exact .inr ⟨_, _, rfl⟩

theorem Matches.mono {Q' : α → σ → β → τ → Prop} {F' : σ → τ → Prop} (h : first.Matches state second other Q F)
    (hQ : ∀ value after result last, Q value after result last → Q' value after result last)
    (hF : ∀ after last, F after last → F' after last) : first.Matches state second other Q' F' := by
  unfold Matches at h ⊢
  generalize first state = start, second other = finish at h
  cases h with
  | done h => exact .done (hQ _ _ _ _ h)
  | failed h => exact .failed (hF _ _ h)
  | faultLeft => exact .faultLeft
  | faultRight => exact .faultRight

/-- What each of two stages that match meets on its own can be added. -/
theorem Matches.and_meets {P : α → σ → Prop} {P' : β → τ → Prop} {G : σ → Prop} {G' : τ → Prop}
    (h : first.Matches state second other Q F) (hfirst : first.Meets state P G) (hsecond : second.Meets other P' G') :
    first.Matches state second other (fun value after result last => Q value after result last ∧ P value after ∧
      P' result last) fun after last => F after last ∧ G after ∧ G' last := by
  unfold Matches at h ⊢
  unfold Meets at hfirst hsecond
  generalize first state = start, second other = finish at h hfirst hsecond
  cases h with
  | done h => exact .done ⟨h, hfirst, hsecond⟩
  | failed h => exact .failed ⟨h, hfirst, hsecond⟩
  | faultLeft => exact hfirst.elim
  | faultRight => exact hsecond.elim

theorem matches_pure {value : α} {result : β} (h : Q value state result other) :
    (pure value : Stage σ α).Matches state (pure result) other Q F :=
  .done h

theorem matches_fail (h : F state other) : (fail : Stage σ α).Matches state (fail : Stage τ β) other Q F :=
  .failed h

theorem matches_raise {cause cause' : Fault} :
    (raise cause : Stage σ α).Matches state (raise cause' : Stage τ β) other Q F :=
  .faultLeft

/-- Stages that follow matching ones match if they do so wherever those end. -/
theorem Matches.bind {next : α → Stage σ γ} {further : β → Stage τ δ} {Q : γ → σ → δ → τ → Prop}
    {R : α → σ → β → τ → Prop} (h : first.Matches state second other R F)
    (hnext : ∀ value after result last, R value after result last →
      (next value).Matches after (further result) last Q F) :
    (first >>= next).Matches state (second >>= further) other Q F := by
  unfold Matches at h
  rw [Matches, bind_apply, bind_apply]
  generalize first state = start, second other = finish at h
  cases h with
  | done h => exact hnext _ _ _ _ h
  | failed h => exact .failed h
  | faultLeft => exact .faultLeft
  | faultRight => exact .faultRight

theorem matches_observe_bind {f : σ → α} {g : τ → β} {next : α → Stage σ γ} {further : β → Stage τ δ}
    {Q : γ → σ → δ → τ → Prop} :
    (observe f >>= next).Matches state (observe g >>= further) other Q F ↔
      (next (f state)).Matches state (further (g other)) other Q F :=
  Iff.rfl

/-- Results that may be faults match if what follows matches for what they can be. -/
theorem matches_ofExcept_bind_of_ok {value : Except Fault α} {result : Except Fault β} {next : α → Stage σ γ}
    {further : β → Stage τ δ} {Q : γ → σ → δ → τ → Prop}
    (h : ∀ a b, value = .ok a → result = .ok b → (next a).Matches state (further b) other Q F) :
    (ofExcept value >>= next).Matches state (ofExcept result >>= further) other Q F := by
  cases value with
  | error cause => exact .faultLeft
  | ok a =>
    cases result with
    | error cause => exact .faultRight
    | ok b => exact h a b rfl rfl

/-- Results that may be faults match whatever they are, if what follows matches for all of them. -/
theorem matches_ofExcept_bind {value : Except Fault α} {result : Except Fault β} {next : α → Stage σ γ}
    {further : β → Stage τ δ} {Q : γ → σ → δ → τ → Prop}
    (h : ∀ a b, (next a).Matches state (further b) other Q F) :
    (ofExcept value >>= next).Matches state (ofExcept result >>= further) other Q F :=
  matches_ofExcept_bind_of_ok fun a b _ _ => h a b

/-- Results that are the same unless they are faults match if what follows matches for the same result. -/
theorem matches_ofExcept_bind_of_extendedBy {value result : Except Fault α} {next : α → Stage σ γ}
    {further : α → Stage τ δ} {Q : γ → σ → δ → τ → Prop} (hsame : ExtendedBy value result)
    (h : ∀ a, (next a).Matches state (further a) other Q F) :
    (ofExcept value >>= next).Matches state (ofExcept result >>= further) other Q F := by
  refine matches_ofExcept_bind_of_ok fun a b ha hb => ?_
  rw [hsame a ha] at hb
  obtain rfl := Except.ok.inj hb
  exact h a

/-- Attempts at matching stages are done, both with a value or both without one. -/
theorem Matches.attempt {Q : Option α → σ → Option β → τ → Prop} {R : α → σ → β → τ → Prop} {G : σ → τ → Prop}
    (h : first.Matches state second other R G)
    (hsome : ∀ value after result last, R value after result last → Q (some value) after (some result) last)
    (hnone : ∀ after last, G after last → Q none after none last) :
    (Stage.attempt first).Matches state (Stage.attempt second) other Q F := by
  unfold Matches at h
  rw [Matches, Stage.attempt, Stage.attempt]
  generalize first state = start, second other = finish at h
  cases h with
  | done h => exact .done (hsome _ _ _ _ h)
  | failed h => exact .done (hnone _ _ h)
  | faultLeft => exact .faultLeft
  | faultRight => exact .faultRight

/-- Stages that follow an attempt at matching ones match if they do so after success and after failure. -/
theorem Matches.attempt_bind {next : Option α → Stage σ γ} {further : Option β → Stage τ δ}
    {Q : γ → σ → δ → τ → Prop} {R : α → σ → β → τ → Prop} {G : σ → τ → Prop}
    (h : first.Matches state second other R G)
    (hsome : ∀ value after result last, R value after result last →
      (next (some value)).Matches after (further (some result)) last Q F)
    (hnone : ∀ after last, G after last → (next none).Matches after (further none) last Q F) :
    (Stage.attempt first >>= next).Matches state (Stage.attempt second >>= further) other Q F :=
  (h.attempt (Q := fun value after result last => (next value).Matches after (further result) last Q F) hsome
    hnone).bind fun _ _ _ _ h => h

theorem Matches.around {save : σ → γ} {enter : σ → σ} {leave : γ → σ → σ} {save' : τ → δ} {enter' : τ → τ}
    {leave' : δ → τ → τ} {R : α → σ → β → τ → Prop} {G : σ → τ → Prop}
    (h : first.Matches (enter state) second (enter' other) R G)
    (hQ : ∀ value after result last, R value after result last →
      Q value (leave (save state) after) result (leave' (save' other) last))
    (hF : ∀ after last, G after last → F (leave (save state) after) (leave' (save' other) last)) :
    (around save enter leave first).Matches state (around save' enter' leave' second) other Q F := by
  unfold Matches at h
  unfold Matches Stage.around
  generalize first (enter state) = start, second (enter' other) = finish at h
  cases h with
  | done h => exact .done (hQ _ _ _ _ h)
  | failed h => exact .failed (hF _ _ h)
  | faultLeft => exact .faultLeft
  | faultRight => exact .faultRight

end Stage

end ExprLang
