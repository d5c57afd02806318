import Mathlib.Tactic.Common
import Mathlib.Algebra.Group.Nat.Defs

/-!
# Unsigned arithmetic that may wrap

A computation on `UInt32` in which every subtraction goes through `sub32` keeps, beside its value,
whether no subtraction went below zero.
-/

set_option autoImplicit false

namespace VeraCrypt
namespace Lib

/-- A value, and whether it was computed without a subtraction that wrapped. -/
structure Unsigned (α : Type) where
  val : α
  exact : Bool
  deriving DecidableEq

namespace Unsigned

instance : Monad Unsigned where
  pure a := ⟨a, true⟩
  bind x f := ⟨(f x.val).val, x.exact && (f x.val).exact⟩

variable {α β : Type} {x : Unsigned α} {f : α → Unsigned β}

@[simp] theorem val_pure (a : α) : (pure a : Unsigned α).val = a := rfl

@[simp] theorem exact_pure (a : α) : (pure a : Unsigned α).exact = true := rfl

@[simp] theorem val_bind : (x >>= f).val = (f x.val).val := rfl

@[simp] theorem exact_bind : (x >>= f).exact = (x.exact && (f x.val).exact) := rfl

end Unsigned

def sub32 (a b : UInt32) : Unsigned UInt32 := ⟨a - b, decide (b ≤ a)⟩

@[simp] theorem val_sub32 (a b : UInt32) : (sub32 a b).val = a - b := rfl

theorem exact_sub32 {a b : UInt32} : (sub32 a b).exact = true ↔ b.toNat ≤ a.toNat := by
  rw [sub32, decide_eq_true_eq, UInt32.le_iff_toNat_le]

/-- What a subtraction gives modulo the size of the type, wrapped or not. -/
theorem toNat_sub32 (a b : UInt32) :
    (a - b).toNat = (a.toNat + (2 ^ 32 - b.toNat)) % 2 ^ 32 := by
  rw [UInt32.toNat_sub, Nat.add_comm]

theorem toNat_sub32_of_le {a b : UInt32} (h : b.toNat ≤ a.toNat) :
    (a - b).toNat = a.toNat - b.toNat := by
  have ha := a.toNat_lt
  rw [toNat_sub32]
  omega

end Lib
end VeraCrypt
