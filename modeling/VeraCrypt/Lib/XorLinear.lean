import Mathlib.Data.List.Basic
import Mathlib.Data.UInt

/-!
# Maps of bytes that are additive for xor

Such a map is determined by its values at the eight bytes with one bit set
(`XorAdditive.ext`). An identity between expressions that are additive in each of their
variables is therefore proved by checking it at those bytes.
-/

set_option autoImplicit false

namespace VeraCrypt
namespace Lib

/-- `f` carries xor to xor. -/
def XorAdditive (f : UInt8 → UInt8) : Prop := ∀ a b, f (a ^^^ b) = f a ^^^ f b

/-- The bytes with one bit set. -/
def bitBytes : List UInt8 := [1, 2, 4, 8, 16, 32, 64, 128]

/-- The bits of a byte, each as a byte, and zero for a bit that is clear. -/
def bitsOf (a : UInt8) : List UInt8 := bitBytes.map (fun i => i &&& a)

/-- What holds of the 256 bytes, counted through, holds of every byte. -/
theorem forall_byte {p : UInt8 → Prop} (h : ∀ n < 256, p (UInt8.ofNat n)) (a : UInt8) : p a := by
  have hn := h a.toNat a.toNat_lt
  rwa [UInt8.ofNat_toNat] at hn

/-- A byte is the xor of its bits. -/
theorem foldr_bitsOf : ∀ a : UInt8, (bitsOf a).foldr (· ^^^ ·) 0 = a :=
  forall_byte (by decide +kernel)

theorem mem_bitsOf {a x : UInt8} (h : x ∈ bitsOf a) : x = 0 ∨ x ∈ bitBytes := by
  have hall : ∀ a : UInt8, bitBytes.all (fun i => i &&& a == 0 || i &&& a == i) = true :=
    forall_byte (by decide +kernel)
  obtain ⟨i, hi, rfl⟩ := List.mem_map.mp h
  have hbit := List.all_eq_true.mp (hall a) i hi
  simp only [Bool.or_eq_true, beq_iff_eq] at hbit
  rcases hbit with hzero | hbit
  · exact Or.inl hzero
  · rw [hbit]
    exact Or.inr hi

namespace XorAdditive

variable {f g : UInt8 → UInt8}

theorem map_zero (hf : XorAdditive f) : f 0 = 0 := by
  have h := hf 0 0
  rw [UInt8.xor_self, UInt8.xor_self] at h
  exact h

theorem comp (hg : XorAdditive g) (hf : XorAdditive f) : XorAdditive (fun a => g (f a)) := by
  intro a b
  simp only [hf a b, hg (f a) (f b)]

theorem map_foldr (hf : XorAdditive f) (l : List UInt8) :
    f (l.foldr (· ^^^ ·) 0) = (l.map f).foldr (· ^^^ ·) 0 := by
  induction l with
  | nil => exact hf.map_zero
  | cons x l ih => rw [List.foldr_cons, hf, ih, List.map_cons, List.foldr_cons]

/-- **Additive maps that agree at every single bit agree.** -/
theorem ext (hf : XorAdditive f) (hg : XorAdditive g) (h : ∀ i ∈ bitBytes, f i = g i)
    (a : UInt8) : f a = g a := by
  have hbits : (bitsOf a).map f = (bitsOf a).map g := by
    refine List.map_congr_left ?_
    intro x hx
    rcases mem_bitsOf hx with rfl | hbit
    · rw [hf.map_zero, hg.map_zero]
    · exact h x hbit
  rw [← foldr_bitsOf a, hf.map_foldr, hg.map_foldr, hbits]

end XorAdditive

end Lib
end VeraCrypt
