import RawLift.Node

/-!
Steps that may stop at a gap. Whether they stop or not, they leave a state behind.
-/

namespace RawLift

/-! ### Any outcome -/

section
variable {m : Type → Type} [Monad m] [LawfulMonad m] {σ α β : Type} {s s' : σ}
  {action : ExceptT Gap (StateT σ m) α}

theorem run_bind_of_pure_ok {a : α} (taken : action.run.run s = pure (.ok a, s'))
    (next : α → ExceptT Gap (StateT σ m) β) :
    (action >>= next).run.run s = (next a).run.run s' := by
  rw [ExceptT.run_bind, StateT.run_bind, taken, pure_bind]

/-- Nothing comes after a gap. -/
theorem run_bind_of_pure_error {gap : Gap} (taken : action.run.run s = pure (.error gap, s'))
    (next : α → ExceptT Gap (StateT σ m) β) :
    (action >>= next).run.run s = pure (.error gap, s') := by
  rw [ExceptT.run_bind, StateT.run_bind, taken, pure_bind]
  rfl

end

/-! ### Steps with an outcome -/

abbrev Step (σ α : Type) := ExceptT Gap (StateM σ) α

namespace Step

variable {σ α β : Type}

/-- Takes a step: what comes of it, and the state afterwards. -/
def run (s : σ) (step : Step σ α) : Except Gap α × σ := StateT.run (ExceptT.run step) s

theorem run_get (s : σ) : run s (get : Step σ σ) = (.ok s, s) := rfl

theorem run_modify (s : σ) (f : σ → σ) : run s (modify f : Step σ Unit) = (.ok (), f s) := rfl

section
variable {s s' : σ} {step : Step σ α}

theorem run_bind_of_ok {a : α} (taken : run s step = (.ok a, s')) (next : α → Step σ β) :
    run s (step >>= next) = run s' (next a) :=
  run_bind_of_pure_ok taken next

theorem run_bind_of_error {gap : Gap} (taken : run s step = (.error gap, s'))
    (next : α → Step σ β) : run s (step >>= next) = (.error gap, s') :=
  run_bind_of_pure_error taken next

end

theorem run_bind (s : σ) (step : Step σ α) (next : α → Step σ β) :
    run s (step >>= next) = match run s step with
      | (.ok a, s') => run s' (next a)
      | (.error gap, s') => (.error gap, s') := by
  rcases taken : run s step with ⟨_ | _, s'⟩
  · exact run_bind_of_error taken next
  · exact run_bind_of_ok taken next

/-- Only the value of a step that succeeds is changed. -/
theorem run_map (s : σ) (step : Step σ α) (f : α → β) :
    run s (step >>= fun a => pure (f a)) = ((run s step).1.map f, (run s step).2) := by
  rw [run_bind]
  rcases run s step with ⟨_ | _, s'⟩ <;> rfl

end Step

end RawLift
