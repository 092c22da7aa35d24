import Mathlib.Logic.Basic

/-! Computations that may fail: what one that succeeds went through, and where one that
fails stopped. -/
namespace Fallible

theorem except_ok {x : Except E A} {f : A → Except E B} {b : B} (done : x >>= f = .ok b) :
    ∃ a, x = .ok a ∧ f a = .ok b := by
  cases x with
  | error e => cases done
  | ok a => exact ⟨a, rfl, done⟩

theorem bind_ok {x : EStateM E S A} {f : A → EStateM E S B} : (x >>= f) s = .ok b final ↔
    ∃ a mid, x s = .ok a mid ∧ f a mid = .ok b final := by
  cases done : x s <;> simp [bind, EStateM.bind, done, and_assoc]

theorem bind_error {x : EStateM E S A} {f : A → EStateM E S B} :
    (x >>= f) s = .error e final ↔
      x s = .error e final ∨ ∃ a mid, x s = .ok a mid ∧ f a mid = .error e final := by
  cases done : x s <;> simp [bind, EStateM.bind, done, and_assoc]

theorem bind_next {x : EStateM E S A} {f : A → EStateM E S B} (done : x s = .ok a mid) :
    (x >>= f) s = f a mid := by
  simp [bind, EStateM.bind, done]

theorem adapt_ok {x : EStateM E S A} {f : E → F} :
    x.adaptExcept f s = .ok a final ↔ x s = .ok a final := by
  cases done : x s <;> simp [EStateM.adaptExcept, done]

theorem adapt_error {x : EStateM E S A} {f : E → F} :
    x.adaptExcept f s = .error e final ↔ ∃ cause, x s = .error cause final ∧ e = f cause := by
  cases done : x s with
  | ok a after => simp [EStateM.adaptExcept, done]
  | error cause after =>
    simp only [EStateM.adaptExcept, done, EStateM.Result.error.injEq]
    constructor
    · rintro ⟨rfl, rfl⟩
      exact ⟨cause, ⟨rfl, rfl⟩, rfl⟩
    · rintro ⟨_, ⟨rfl, rfl⟩, rfl⟩
      exact ⟨rfl, rfl⟩

end Fallible
