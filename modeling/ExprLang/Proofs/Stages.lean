import ExprLang.Stage

/-!
# What a stage meets

A stage meets two conditions if it runs into no fault and ends in the first when it is done and in the second
when it fails (`Stage.Meets`).  It leaves two conditions if the same holds unless it runs into a fault (`Stage.Leaves`).
There are rules for the ways of putting stages together.
-/

namespace ExprLang

namespace Stage

variable {σ α β : Type} {state : σ}

private theorem id_map (stage : Stage σ α) : id <$> stage = stage := by
  funext state
  show Stage.bind stage _ state = _
  unfold Stage.bind
  rcases stage state with ⟨_ | _ | _, _⟩ <;> rfl

instance : LawfulMonad (Stage σ) :=
  .mk' _ id_map (fun _ _ => rfl) fun stage _ _ => by
    funext state
    simp only [bind_apply]
    rcases stage state with ⟨_ | _ | _, _⟩ <;> rfl

/-- Whether a stage runs into no fault, and ends in `Q` if it is done and in `F` if it fails. -/
def Meets (stage : Stage σ α) (state : σ) (Q : α → σ → Prop) (F : σ → Prop) : Prop :=
  match stage state with
  | (.done value, after) => Q value after
  | (.failed, after) => F after
  | (.fault _, _) => False

variable {Q : α → σ → Prop} {F : σ → Prop}

theorem Meets.of_done {stage : Stage σ α} {value : α} {after : σ} (h : stage state = (.done value, after))
    (hQ : Q value after) : stage.Meets state Q F := by
  rw [Meets, h]
  exact hQ

theorem Meets.of_failed {stage : Stage σ α} {after : σ} (h : stage state = (.failed, after)) (hF : F after) :
    stage.Meets state Q F := by
  rw [Meets, h]
  exact hF

theorem meets_of_done {stage : Stage σ α} {value : α} {after : σ} (h : stage state = (.done value, after)) :
    stage.Meets state Q F ↔ Q value after := by
  rw [Meets, h]

/-- A stage that meets two conditions ends in one of them. -/
theorem Meets.cases {stage : Stage σ α} (h : stage.Meets state Q F) :
    (∃ value after, stage state = (.done value, after) ∧ Q value after) ∨
      ∃ after, stage state = (.failed, after) ∧ F after := by
  rw [Meets] at h
  split at h
  · rename_i value after hrun
    exact .inl ⟨value, after, hrun, h⟩
  · rename_i after hrun
    exact .inr ⟨after, hrun, h⟩
  · exact h.elim

theorem Meets.ne_fault {stage : Stage σ α} (h : stage.Meets state Q F) (cause : Fault) :
    (stage state).1 ≠ .fault cause := by
  rcases h.cases with ⟨value, after, hrun, -⟩ | ⟨after, hrun, -⟩ <;> simp [hrun]

/-- A stage that cannot fail is done. -/
theorem Meets.exists_done {stage : Stage σ α} (h : stage.Meets state Q fun _ => False) :
    ∃ value after, stage state = (.done value, after) ∧ Q value after := by
  rcases h.cases with hdone | ⟨after, -, hfalse⟩
  · exact hdone
  · exact hfalse.elim

theorem Meets.mono {stage : Stage σ α} {Q' : α → σ → Prop} {F' : σ → Prop} (h : stage.Meets state Q F)
    (hQ : ∀ value after, Q value after → Q' value after) (hF : ∀ after, F after → F' after) :
    stage.Meets state Q' F' := by
  rcases h.cases with ⟨value, after, hrun, hvalue⟩ | ⟨after, hrun, hafter⟩
  · exact .of_done hrun (hQ value after hvalue)
  · exact .of_failed hrun (hF after hafter)

theorem meets_observe (f : σ → α) : (observe f).Meets state Q F ↔ Q (f state) state := Iff.rfl

theorem meets_bind {first : Stage σ α} {next : α → Stage σ β} {Q : β → σ → Prop} :
    (first >>= next).Meets state Q F ↔ first.Meets state (fun value after => (next value).Meets after Q F) F := by
  simp only [Meets, bind_apply]
  rcases first state with ⟨_ | _ | _, after⟩ <;> exact Iff.rfl

theorem bind_of_done {first : Stage σ α} {next : α → Stage σ β} {value : α} {after : σ}
    (h : first state = (.done value, after)) : (first >>= next) state = next value after := by
  rw [bind_apply, h]

theorem meets_bind_of_done {first : Stage σ α} {next : α → Stage σ β} {value : α} {after : σ}
    {Q : β → σ → Prop} (h : first state = (.done value, after)) :
    (first >>= next).Meets state Q F ↔ (next value).Meets after Q F := by
  rw [Meets, Meets, bind_of_done h]

theorem meets_attempt {stage : Stage σ α} {Q : Option α → σ → Prop} :
    (attempt stage).Meets state Q F ↔ stage.Meets state (fun value after => Q (some value) after) (Q none) := by
  simp only [Meets, attempt]
  rcases stage state with ⟨_ | _ | _, after⟩ <;> exact Iff.rfl

theorem meets_around {save : σ → β} {enter : σ → σ} {leave : β → σ → σ} {stage : Stage σ α} :
    (around save enter leave stage).Meets state Q F ↔
      stage.Meets (enter state) (fun value after => Q value (leave (save state) after))
        (fun after => F (leave (save state) after)) := by
  simp only [Meets, around]
  rcases stage (enter state) with ⟨_ | _ | _, after⟩ <;> exact Iff.rfl

/-! ### Stages that may run into a fault -/

/-- Whether a stage ends in `Q` if it is done and in `F` if it fails.  Of a fault nothing is said. -/
def Leaves (stage : Stage σ α) (state : σ) (Q : α → σ → Prop) (F : σ → Prop) : Prop :=
  match stage state with
  | (.done value, after) => Q value after
  | (.failed, after) => F after
  | (.fault _, _) => True

theorem Leaves.mono {stage : Stage σ α} {Q' : α → σ → Prop} {F' : σ → Prop} (h : stage.Leaves state Q F)
    (hQ : ∀ value after, Q value after → Q' value after) (hF : ∀ after, F after → F' after) :
    stage.Leaves state Q' F' := by
  unfold Leaves at h ⊢
  generalize stage state = result at h ⊢
  rcases result with ⟨_ | _ | _, after⟩
  · exact hQ _ after h
  · exact hF after h
  · trivial

theorem leaves_bind {first : Stage σ α} {next : α → Stage σ β} {Q : β → σ → Prop} :
    (first >>= next).Leaves state Q F ↔ first.Leaves state (fun value after => (next value).Leaves after Q F) F := by
  simp only [Leaves, bind_apply]
  rcases first state with ⟨_ | _ | _, after⟩ <;> exact Iff.rfl

theorem leaves_observe_bind {f : σ → α} {next : α → Stage σ β} {Q : β → σ → Prop} :
    (observe f >>= next).Leaves state Q F ↔ (next (f state)).Leaves state Q F := Iff.rfl

theorem leaves_attempt {stage : Stage σ α} {Q : Option α → σ → Prop} :
    (attempt stage).Leaves state Q F ↔ stage.Leaves state (fun value after => Q (some value) after) (Q none) := by
  simp only [Leaves, attempt]
  rcases stage state with ⟨_ | _ | _, after⟩ <;> exact Iff.rfl

theorem leaves_mapM_some {stage : α → Stage σ β} {value : α} {Q : Option β → σ → Prop} :
    ((some value).mapM stage).Leaves state Q F ↔ (stage value).Leaves state (fun result => Q (some result)) F := by
  show (stage value >>= fun result => pure (some result)).Leaves state Q F ↔ _
  rw [leaves_bind]
  rfl

theorem leaves_ofExcept_bind {result : Except Fault α} {next : α → Stage σ β} {Q : β → σ → Prop}
    (h : ∀ value, result = .ok value → (next value).Leaves state Q F) :
    (ofExcept result >>= next).Leaves state Q F := by
  cases result with
  | ok value => exact h value rfl
  | error => trivial

/-- What is met and left holds of the end. -/
theorem Meets.and_leaves {stage : Stage σ α} {Q' : α → σ → Prop} {F' : σ → Prop} (h : stage.Meets state Q F)
    (h' : stage.Leaves state Q' F') :
    stage.Meets state (fun value after => Q value after ∧ Q' value after) fun after => F after ∧ F' after := by
  unfold Meets at h ⊢
  unfold Leaves at h'
  generalize stage state = result at h h' ⊢
  rcases result with ⟨_ | _ | _, after⟩
  · exact ⟨h, h'⟩
  · exact ⟨h, h'⟩
  · exact h

end Stage

end ExprLang
