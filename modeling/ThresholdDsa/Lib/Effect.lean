/-
# Fallible code over a state that survives its faults

A call that fails half way leaves behind what it wrote before.  `Effect σ` is the
exception monad over the state monad, so that an error carries no rollback, and
`exec` runs a computation from a state to its outcome and the state it leaves.

`Within R` says that a computation only moves the state along the relation `R`,
whether it returns, fails or panics.  For a reflexive and transitive `R` it is
closed under sequencing and loops, so an invariant of a long function is one fact
for each operation it calls.
-/
import ThresholdDsa.Lib.Outcome

namespace ThresholdDsa

abbrev Effect (σ : Type) := ExceptT Fault (StateM σ)

namespace Effect

variable {σ α β : Type}

def exec (x : Effect σ α) (st : σ) : Outcome α × σ := x.run.run st

def ofOutcome (x : Outcome α) : Effect σ α := ExceptT.mk (pure x)

/-- The function of the state gives the outcome and the next state. -/
def ofStep (f : σ → Outcome α × σ) : Effect σ α := ExceptT.mk f

@[simp] theorem exec_pure (a : α) (st : σ) : exec (pure a : Effect σ α) st = (.ok a, st) := rfl

@[simp] theorem exec_ofOutcome (x : Outcome α) (st : σ) :
    exec (ofOutcome x : Effect σ α) st = (x, st) := rfl

@[simp] theorem exec_ofStep (f : σ → Outcome α × σ) (st : σ) : exec (ofStep f) st = f st := rfl

variable {x : Effect σ α} {f : α → Effect σ β} {st : σ}

theorem exec_bind_ok {st' : σ} {a : α} (first : exec x st = (.ok a, st')) :
    exec (x >>= f) st = exec (f a) st' := by
  simp only [exec, ExceptT.run_bind, StateT.run_bind] at first ⊢
  rw [first]
  rfl

theorem exec_bind_error {st' : σ} {fault : Fault} (first : exec x st = (.error fault, st')) :
    exec (x >>= f) st = (.error fault, st') := by
  simp only [exec, ExceptT.run_bind, StateT.run_bind] at first ⊢
  rw [first]
  rfl

/-- A sequence that returns: its first part returned. -/
theorem exec_bind_eq_ok {st₂ : σ} {b : β} (both : exec (x >>= f) st = (.ok b, st₂)) :
    ∃ a st₁, exec x st = (.ok a, st₁) ∧ exec (f a) st₁ = (.ok b, st₂) := by
  rcases first : exec x st with ⟨_ | a, st₁⟩
  · rw [exec_bind_error first] at both
    cases both
  · rw [exec_bind_ok first] at both
    exact ⟨a, st₁, rfl, both⟩

/-! ## Computations that stay within a relation -/

section

variable (R : σ → σ → Prop)

def Within (x : Effect σ α) : Prop := ∀ st, R st (exec x st).2

variable {R}

theorem Within.of_exec {st' : σ} {outcome : Outcome α} (within : Within R x)
    (ran : exec x st = (outcome, st')) : R st st' := by
  have moved := within st
  rwa [ran] at moved

theorem within_ofStep {f : σ → Outcome α × σ} (step : ∀ st, R st (f st).2) : Within R (ofStep f) :=
  step

theorem within_pure [Std.Refl R] (a : α) : Within R (pure a : Effect σ α) := fun st => Std.Refl.refl st

theorem within_ofOutcome [Std.Refl R] (x : Outcome α) : Within R (ofOutcome x : Effect σ α) :=
  fun st => Std.Refl.refl st

theorem within_bind [IsTrans σ R] (first : Within R x)
    (second : ∀ a, Within R (f a)) : Within R (x >>= f) := by
  intro st
  rcases ran : exec x st with ⟨_ | a, st'⟩
  · rw [exec_bind_error ran]
    exact first.of_exec ran
  · rw [exec_bind_ok ran]
    exact IsTrans.trans _ _ _ (first.of_exec ran) (second a st')

theorem within_forM [Std.Refl R] [IsTrans σ R] {f : α → Effect σ PUnit} {xs : List α}
    (each : ∀ a, Within R (f a)) : Within R (xs.forM f) := by
  induction xs with
  | nil => exact within_pure PUnit.unit
  | cons a xs ih => exact within_bind (each a) fun _ => ih

end

end Effect

end ThresholdDsa
