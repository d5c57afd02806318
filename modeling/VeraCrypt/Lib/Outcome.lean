import Mathlib.Tactic.Common

/-!
# Outcomes of computations that can stop

Two relations on `Except`. `Yields E P x` says how `x` can end: with a value that satisfies `P`, or
stopped for a reason that satisfies `E`; it goes through a chain of steps (`yields_bind`) and through
a list of them (`yields_mapM`). `FuelLe stop x y` says that `y` is `x` with more fuel: `x` either
stopped for want of it or ended the same way.
-/

set_option autoImplicit false

namespace VeraCrypt
namespace Lib

variable {ε α β : Type _} {E : ε → Prop} {P : α → Prop} {Q : β → Prop} {stop : ε}

/-! ## How a computation ends -/

def Yields (E : ε → Prop) (P : α → Prop) : Except ε α → Prop
  | .ok a => P a
  | .error e => E e

theorem yields_ok {a : α} (h : P a) : Yields E P (.ok a) := h

theorem yields_error {e : ε} (h : E e) : Yields E P (.error e : Except ε α) := h

theorem Yields.of_ok {x : Except ε α} {a : α} (h : Yields E P x) (hx : x = .ok a) : P a := by
  subst hx
  exact h

theorem Yields.of_error {x : Except ε α} {e : ε} (h : Yields E P x) (hx : x = .error e) : E e := by
  subst hx
  exact h

theorem Yields.imp {P' : α → Prop} {x : Except ε α} (h : Yields E P x) (hP : ∀ a, P a → P' a) :
    Yields E P' x := by
  cases x with
  | ok a => exact hP a h
  | error e => exact h

theorem yields_bind {x : Except ε α} {f : α → Except ε β} (hx : Yields E P x)
    (hf : ∀ a, P a → Yields E Q (f a)) : Yields E Q (x >>= f) := by
  cases x with
  | ok a => exact hf a hx
  | error e => exact hx

theorem yields_ite {c : Prop} [Decidable c] {x y : Except ε α} (hx : c → Yields E P x)
    (hy : ¬ c → Yields E P y) : Yields E P (if c then x else y) := by
  by_cases hc : c
  · rw [if_pos hc]
    exact hx hc
  · rw [if_neg hc]
    exact hy hc

/-- The steps over a list, each with what it makes of its own element. -/
theorem yields_mapM {R : α → β → Prop} {f : α → Except ε β} {l : List α}
    (hf : ∀ a ∈ l, Yields E (R a) (f a)) : Yields E (List.Forall₂ R l) (l.mapM f) := by
  induction l with
  | nil => exact List.Forall₂.nil
  | cons a l ih =>
    rw [List.mapM_cons]
    refine yields_bind (hf a (List.mem_cons_self ..)) (fun b hb => ?_)
    refine yields_bind (ih (fun a ha => hf a (List.mem_cons_of_mem _ ha))) (fun bs hbs => ?_)
    exact List.Forall₂.cons hb hbs

/-! ## More fuel -/

def FuelLe (stop : ε) (x y : Except ε α) : Prop := x = .error stop ∨ x = y

theorem FuelLe.refl (x : Except ε α) : FuelLe stop x x := .inr rfl

theorem FuelLe.trans {x y z : Except ε α} (h : FuelLe stop x y) (h' : FuelLe stop y z) :
    FuelLe stop x z := by
  rcases h with h | rfl
  · exact .inl h
  · exact h'

theorem FuelLe.bind {x y : Except ε α} {f g : α → Except ε β} (h : FuelLe stop x y)
    (hf : ∀ a, FuelLe stop (f a) (g a)) : FuelLe stop (x >>= f) (y >>= g) := by
  rcases h with rfl | rfl
  · exact .inl rfl
  · cases x with
    | error e => exact .inr rfl
    | ok a => exact hf a

theorem FuelLe.mapM {f g : α → Except ε β} (l : List α) (hf : ∀ a, FuelLe stop (f a) (g a)) :
    FuelLe stop (l.mapM f) (l.mapM g) := by
  induction l with
  | nil => exact .refl _
  | cons a l ih =>
    rw [List.mapM_cons, List.mapM_cons]
    exact (hf a).bind (fun b => ih.bind (fun bs => .refl _))

/-- One step at a time: from any fuel to any larger one. -/
theorem FuelLe.add {run : Nat → Except ε α} (h : ∀ n, FuelLe stop (run n) (run (n + 1)))
    (n extra : Nat) : FuelLe stop (run n) (run (n + extra)) := by
  induction extra with
  | zero => exact .refl _
  | succ extra ih => exact ih.trans (h (n + extra))

theorem FuelLe.eq_of_ne {x y : Except ε α} (h : FuelLe stop x y) (hx : x ≠ .error stop) :
    y = x := by
  rcases h with h | h
  · exact absurd h hx
  · exact h.symm

end Lib
end VeraCrypt
