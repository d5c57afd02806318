import Mathlib.Tactic.Common

/-!
# Steps that can fail

What a chain of steps in `Except` that succeeded says of each of its steps.
-/

set_option autoImplicit false

namespace VeraCrypt
namespace Lib

variable {ε α β : Type _} {x : Except ε α} {f : α → Except ε β} {b : β}

theorem bind_eq_ok : (x >>= f) = .ok b ↔ ∃ a, x = .ok a ∧ f a = .ok b := by
  cases x with
  | error e =>
    constructor
    · intro h
      exact absurd h (by simp [bind, Except.bind])
    · rintro ⟨a, ha, -⟩
      exact absurd ha (by simp)
  | ok a =>
    constructor
    · intro h
      exact ⟨a, rfl, h⟩
    · rintro ⟨a', ha, hf⟩
      cases ha
      exact hf

@[simp] theorem bind_ok {a : α} : (Except.ok a >>= f) = f a := rfl

/-- A check in front of a step. -/
theorem guard_eq_ok {c : Prop} [Decidable c] {e : ε} {y : Except ε β} :
    (if c then .error e else y) = .ok b ↔ ¬ c ∧ y = .ok b := by
  by_cases hc : c
  · rw [if_pos hc]
    simp [hc]
  · rw [if_neg hc]
    simp [hc]

theorem eq_ok_of_toOption {a : α} (h : x.toOption = some a) : x = .ok a := by
  cases x with
  | error e => exact absurd h (by simp [Except.toOption])
  | ok b => exact congrArg _ (Option.some.inj h)

/-- A step that is known to succeed, at the value it then has. -/
theorem eq_ok_getD {d : α} (h : x.toOption.isSome) : x = .ok (x.toOption.getD d) := by
  obtain ⟨a, ha⟩ := Option.isSome_iff_exists.mp h
  rw [ha]
  exact eq_ok_of_toOption ha

end Lib
end VeraCrypt
