import Mathlib.Logic.Basic

/-! Finite runs of a partial step function under a guard on its actions. The
guard restricts the environment (a schedule, a failure model), never the step. -/
namespace Transition

/-- A finite run; every action is allowed in the state it is taken in. -/
inductive Run (step : S → A → Option S) (allowed : S → A → Prop) : S → List A → S → Prop where
  | nil : Run step allowed s [] s
  | cons : allowed s action → step s action = some next → Run step allowed next rest final →
      Run step allowed s (action :: rest) final

variable {S A : Type} {step : S → A → Option S} {allowed permitted : S → A → Prop}

/-- A weaker guard admits every run of a stronger one. -/
theorem Run.relax (weaker : ∀ s action, allowed s action → permitted s action)
    (run : Run step allowed s actions final) : Run step permitted s actions final := by
  induction run with
  | nil => exact .nil
  | cons permits taken _ ih => exact .cons (weaker _ _ permits) taken ih

/-- The guard may also use that the action belongs to the run. -/
theorem Run.of_mem (run : Run step allowed s actions final) :
    Run step (fun s action => allowed s action ∧ action ∈ actions) s actions final := by
  induction run with
  | nil => exact .nil
  | cons permits taken _ ih =>
    refine .cons ⟨permits, List.mem_cons_self⟩ taken (ih.relax ?_)
    rintro s action ⟨permits, member⟩
    exact ⟨permits, List.mem_cons_of_mem _ member⟩

theorem Run.invariant (property : S → Prop)
    (preserved : ∀ s action next, property s → allowed s action → step s action = some next →
      property next)
    (run : Run step allowed s actions final) (initial : property s) : property final := by
  induction run with
  | nil => exact initial
  | cons permits taken _ ih => exact ih (preserved _ _ _ initial permits taken)

/-- A natural-number rank that every step lowers bounds the length of every run. -/
theorem Run.length_le (rank : S → Nat) (property : S → Prop)
    (preserved : ∀ s action next, property s → allowed s action → step s action = some next →
      property next)
    (lowers : ∀ s action next, property s → allowed s action → step s action = some next →
      rank next < rank s)
    (run : Run step allowed s actions final) (initial : property s) :
    actions.length + rank final ≤ rank s := by
  induction run with
  | nil => simp
  | cons permits taken _ ih =>
    have tail := ih (preserved _ _ _ initial permits taken)
    have head := lowers _ _ _ initial permits taken
    simp only [List.length_cons]
    omega

/-- Steps that count lower the rank, and the others do not raise it. -/
theorem Run.countP_le (rank : S → Nat) (property : S → Prop) (counts : A → Bool)
    (preserved : ∀ s action next, property s → allowed s action → step s action = some next →
      property next)
    (lowers : ∀ s action next, property s → allowed s action → step s action = some next →
      rank next + (counts action).toNat ≤ rank s)
    (run : Run step allowed s actions final) (initial : property s) :
    actions.countP counts + rank final ≤ rank s := by
  induction run with
  | nil => simp
  | cons permits taken _ ih =>
    have tail := ih (preserved _ _ _ initial permits taken)
    have head := lowers _ _ _ initial permits taken
    rw [List.countP_cons]
    split
    · rename_i counted
      rw [counted, Bool.toNat_true] at head
      omega
    · omega

/-- Whatever the environment chooses, a state with the given property is reached: no run
under the guard gets stuck before, and none goes on for ever. -/
inductive Inevitable (step : S → A → Option S) (allowed : S → A → Prop) (goal : S → Prop) :
    S → Prop where
  | here : goal s → Inevitable step allowed goal s
  | onward (action : A) : allowed s action → step s action = some next →
      (∀ action next, allowed s action → step s action = some next →
        Inevitable step allowed goal next) →
      Inevitable step allowed goal s

/-- One phase after another. -/
theorem Inevitable.trans {middle goal : S → Prop} (first : Inevitable step allowed middle s)
    (second : ∀ t, middle t → Inevitable step allowed goal t) : Inevitable step allowed goal s := by
  induction first with
  | here reached => exact second _ reached
  | onward action permits taken _ ih => exact .onward action permits taken ih

/-- A run that ends where nothing can follow has reached what was inevitable. -/
theorem Inevitable.of_stuck {goal : S → Prop} (inevitable : Inevitable step allowed goal s)
    (final : ∀ t action next, goal t → step t action ≠ some next)
    (run : Run step allowed s actions t) (stuck : ∀ action next, step t action ≠ some next) :
    goal t := by
  induction inevitable generalizing actions with
  | here reached =>
    cases run with
    | nil => exact reached
    | cons _ taken _ => exact absurd taken (final _ _ _ reached)
  | onward action permits taken _ ih =>
    cases run with
    | nil => exact absurd taken (stuck _ _)
    | cons permits taken rest => exact ih _ _ permits taken rest

/-- At some point of the run, this action is taken in this state. -/
inductive Occurs (step : S → A → Option S) (event : S → A → Prop) : S → List A → Prop where
  | now : event s action → Occurs step event s (action :: rest)
  | later : step s action = some next → Occurs step event next rest →
      Occurs step event s (action :: rest)

/-- What does not happen at once happens later. -/
theorem Occurs.later_of {event : S → A → Prop}
    (occurs : Occurs step event s (action :: rest)) (not_now : ¬ event s action)
    (taken : step s action = some next) : Occurs step event next rest := by
  cases occurs with
  | now happens => exact absurd happens not_now
  | later moved tail =>
    cases Option.some.inj (taken.symm.trans moved)
    exact tail

/-- A property that only one kind of event can break holds, or there was one. -/
theorem Run.held_or_occurs (event : S → A → Prop) (invariant held : S → Prop)
    (kept : ∀ s action next, invariant s → allowed s action → step s action = some next →
      invariant next)
    (preserved : ∀ s action next, invariant s → held s → allowed s action →
      step s action = some next → held next ∨ event s action)
    (run : Run step allowed s actions final) (initially : invariant s) (initial : held s) :
    held final ∨ Occurs step event s actions := by
  induction run with
  | nil => exact .inl initial
  | cons permits taken _ ih =>
    rcases preserved _ _ _ initially initial permits taken with still | broken
    · rcases ih (kept _ _ _ initially permits taken) still with held | occurs
      · exact .inl held
      · exact .inr (.later taken occurs)
    · exact .inr (.now broken)

/-- Execution of a list of actions under a guard that can be checked, for
evaluating a concrete run. -/
def execute (step : S → A → Option S) (allowed : S → A → Prop) [∀ s, DecidablePred (allowed s)] :
    List A → S → Option S
  | [], s => some s
  | action :: rest, s =>
    if allowed s action then (step s action).bind (execute step allowed rest) else none

theorem Run.of_execute [∀ s, DecidablePred (allowed s)]
    (executed : execute step allowed actions s = some final) : Run step allowed s actions final := by
  induction actions generalizing s with
  | nil =>
    cases executed
    exact .nil
  | cons action rest ih =>
    by_cases permits : allowed s action
    · simp only [execute, permits, ↓reduceIte] at executed
      obtain ⟨next, taken, tail⟩ := Option.bind_eq_some_iff.mp executed
      exact .cons permits taken (ih tail)
    · simp [execute, permits] at executed

end Transition
