import VeraCrypt.Lib.Endian
import VeraCrypt.Lib.Region

/-!
# Fields packed in a little-endian number

A run of bytes is a number, the first byte lowest, and a table of entries of `w` bits is the
same number cut every `w` bits. Where the highest field of one width stands says where those of
another width can stand: both are bounds on the number.
-/

set_option autoImplicit false

namespace VeraCrypt
namespace Lib

/-- Field `i` of width `w` of a number. -/
def field (w i n : Nat) : Nat := n / 2 ^ (w * i) % 2 ^ w

theorem field_zero_right (w i : Nat) : field w i 0 = 0 := by
  rw [field, Nat.zero_div, Nat.zero_mod]

theorem two_pow_le_of_field_ne_zero {w i n : Nat} (h : field w i n ≠ 0) : 2 ^ (w * i) ≤ n := by
  by_contra hlt
  apply h
  rw [field, Nat.div_eq_of_lt (Nat.not_le.mp hlt), Nat.zero_mod]

/-- A number whose highest field is zero is one field shorter. -/
theorem lt_of_field_eq_zero {w i n : Nat} (hn : n < 2 ^ (w * (i + 1))) (h : field w i n = 0) :
    n < 2 ^ (w * i) := by
  have hdiv : n / 2 ^ (w * i) < 2 ^ w := by
    rw [Nat.div_lt_iff_lt_mul (Nat.two_pow_pos _), ← pow_add, Nat.add_comm w, ← Nat.mul_succ]
    exact hn
  rw [field, Nat.mod_eq_of_lt hdiv] at h
  exact (Nat.div_eq_zero_iff.mp h).resolve_left (Nat.two_pow_pos _).ne'

/-! ## Bytes -/

theorem leNat_take (bs : List UInt8) (n : Nat) : leNat (bs.take n) = leNat bs % 256 ^ n := by
  by_cases hn : n ≤ bs.length
  · have hlen : (bs.take n).length = n := List.length_take_of_le hn
    have hlt := leNat_lt (bs.take n)
    rw [hlen] at hlt
    conv_rhs => rw [← List.take_append_drop n bs, leNat_append, hlen, Nat.add_mul_mod_self_left]
    rw [Nat.mod_eq_of_lt hlt]
  · have hlt := leNat_lt bs
    have hle : bs.length ≤ n := Nat.le_of_lt (Nat.not_le.mp hn)
    rw [List.take_of_length_le hle,
      Nat.mod_eq_of_lt (hlt.trans_le (Nat.pow_le_pow_right (by decide) hle))]

theorem leNat_drop (bs : List UInt8) (n : Nat) : leNat (bs.drop n) = leNat bs / 256 ^ n := by
  by_cases hn : n ≤ bs.length
  · have hlen : (bs.take n).length = n := List.length_take_of_le hn
    have hlt := leNat_lt (bs.take n)
    rw [hlen] at hlt
    conv_rhs => rw [← List.take_append_drop n bs, leNat_append, hlen,
      Nat.add_mul_div_left _ _ (Nat.pow_pos (by decide)), Nat.div_eq_of_lt hlt, Nat.zero_add]
  · have hlt := leNat_lt bs
    have hle : bs.length ≤ n := Nat.le_of_lt (Nat.not_le.mp hn)
    rw [List.drop_eq_nil_of_le hle, Nat.div_eq_of_lt
      (hlt.trans_le (Nat.pow_le_pow_right (by decide) hle))]
    rfl

/-- A slice of whole fields of bytes is a field of the number. -/
theorem leNat_slice (bs : List UInt8) (i k : Nat) :
    leNat (slice bs (k * i) k) = field (8 * k) i (leNat bs) := by
  have hpow : ∀ m : Nat, 256 ^ m = 2 ^ (8 * m) := by
    intro m
    rw [pow_mul]
    rfl
  rw [slice, leNat_take, leNat_drop, hpow, hpow, field, Nat.mul_assoc]

end Lib
end VeraCrypt
