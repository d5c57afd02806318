import VeraCrypt.Common.Xts

/-!
# The 64-bit operators of the boot loader (`Boot/Windows/Platform.cpp`)

The 16-bit compiler has no 64-bit integers, so the boot loader computes with two halves, and takes
the carry from the flags of the processor. What the operators return are the sums, differences and
orders of the numbers that the halves stand for.
-/

set_option autoImplicit false

namespace VeraCrypt
namespace Boot

open Xts (Uint64Struct)

namespace Uint64

/-- `operator+`: the carry flag after the addition of the low parts. -/
def add (a b : Uint64Struct) : Uint64Struct :=
  let carry : UInt32 := if 2 ^ 32 ≤ a.lowPart.toNat + b.lowPart.toNat then 1 else 0
  { lowPart := a.lowPart + b.lowPart, highPart := a.highPart + b.highPart + carry }

/-- `operator-`: the carry flag is the borrow. -/
def sub (a b : Uint64Struct) : Uint64Struct :=
  let carry : UInt32 := if a.lowPart.toNat < b.lowPart.toNat then 1 else 0
  { lowPart := a.lowPart - b.lowPart, highPart := a.highPart - b.highPart - carry }

/-- A `uint32` as a `uint64`. -/
def ofUint32 (b : UInt32) : Uint64Struct := { highPart := 0, lowPart := b }

def eq (a b : Uint64Struct) : Bool := a.highPart == b.highPart && a.lowPart == b.lowPart

def gt (a b : Uint64Struct) : Bool :=
  b.highPart < a.highPart || (a.highPart == b.highPart && b.lowPart < a.lowPart)

def lt (a b : Uint64Struct) : Bool :=
  a.highPart < b.highPart || (a.highPart == b.highPart && a.lowPart < b.lowPart)

def ge (a b : Uint64Struct) : Bool := gt a b || eq a b

def le (a b : Uint64Struct) : Bool := lt a b || eq a b

/-! ## The numbers -/

/-- The number that the halves stand for. -/
def num (a : Uint64Struct) : Nat := a.lowPart.toNat + 2 ^ 32 * a.highPart.toNat

theorem num_lt (a : Uint64Struct) : num a < 2 ^ 64 := by
  have hlow := a.lowPart.toNat_lt
  have hhigh := a.highPart.toNat_lt
  unfold num
  omega

theorem lowPart_of_num_lt {a : Uint64Struct} (h : num a < 2 ^ 32) : a.lowPart.toNat = num a := by
  unfold num at h ⊢
  omega

theorem num_ofUint32 (b : UInt32) : num (ofUint32 b) = b.toNat := by
  simp [num, ofUint32]

theorem num_add (a b : Uint64Struct) : num (add a b) = (num a + num b) % 2 ^ 64 := by
  have hla := a.lowPart.toNat_lt
  have hlb := b.lowPart.toNat_lt
  have hha := a.highPart.toNat_lt
  have hhb := b.highPart.toNat_lt
  simp only [num, add]
  by_cases hcarry : 2 ^ 32 ≤ a.lowPart.toNat + b.lowPart.toNat
  · have hone : (1 : UInt32).toNat = 1 := rfl
    rw [if_pos hcarry, UInt32.toNat_add, UInt32.toNat_add, UInt32.toNat_add, hone]
    omega
  · have hzero : (0 : UInt32).toNat = 0 := rfl
    rw [if_neg hcarry, UInt32.toNat_add, UInt32.toNat_add, UInt32.toNat_add, hzero]
    omega

theorem num_sub (a b : Uint64Struct) : num (sub a b) = (num a + (2 ^ 64 - num b)) % 2 ^ 64 := by
  have hla := a.lowPart.toNat_lt
  have hlb := b.lowPart.toNat_lt
  have hha := a.highPart.toNat_lt
  have hhb := b.highPart.toNat_lt
  simp only [num, sub]
  by_cases hcarry : a.lowPart.toNat < b.lowPart.toNat
  · have hone : (1 : UInt32).toNat = 1 := rfl
    rw [if_pos hcarry, UInt32.toNat_sub, UInt32.toNat_sub, UInt32.toNat_sub, hone]
    omega
  · have hzero : (0 : UInt32).toNat = 0 := rfl
    rw [if_neg hcarry, UInt32.toNat_sub, UInt32.toNat_sub, UInt32.toNat_sub, hzero]
    omega

theorem lt_iff (a b : Uint64Struct) : lt a b = true ↔ num a < num b := by
  have hla := a.lowPart.toNat_lt
  have hlb := b.lowPart.toNat_lt
  simp only [lt, num, Bool.or_eq_true, Bool.and_eq_true, decide_eq_true_eq, beq_iff_eq,
    UInt32.lt_iff_toNat_lt, ← UInt32.toNat_inj]
  omega

theorem gt_iff (a b : Uint64Struct) : gt a b = true ↔ num b < num a := by
  have hla := a.lowPart.toNat_lt
  have hlb := b.lowPart.toNat_lt
  simp only [gt, num, Bool.or_eq_true, Bool.and_eq_true, decide_eq_true_eq, beq_iff_eq,
    UInt32.lt_iff_toNat_lt, ← UInt32.toNat_inj]
  omega

theorem eq_iff (a b : Uint64Struct) : eq a b = true ↔ num a = num b := by
  have hla := a.lowPart.toNat_lt
  have hlb := b.lowPart.toNat_lt
  simp only [eq, num, Bool.and_eq_true, beq_iff_eq, ← UInt32.toNat_inj]
  omega

theorem le_iff (a b : Uint64Struct) : le a b = true ↔ num a ≤ num b := by
  rw [le, Bool.or_eq_true, lt_iff, eq_iff]
  omega

theorem ge_iff (a b : Uint64Struct) : ge a b = true ↔ num b ≤ num a := by
  rw [ge, Bool.or_eq_true, gt_iff, eq_iff]
  omega

end Uint64

/-! ## Regions -/

/-- `intersectEnd` of `RegionsIntersect` -/
def intersectEndOf (start1 : Uint64Struct) (length1 : UInt32) (end2 : Uint64Struct) :
    Uint64Struct :=
  let end1 := Uint64.sub (Uint64.add start1 (Uint64.ofUint32 length1)) (Uint64.ofUint32 1)
  if Uint64.le end1 end2 then end1 else end2

/-- `intersectStart` of `RegionsIntersect` -/
def intersectStartOf (start1 start2 : Uint64Struct) : Uint64Struct :=
  if Uint64.ge start1 start2 then start1 else start2

/-- `RegionsIntersect` -/
def regionsIntersect (start1 : Uint64Struct) (length1 : UInt32) (start2 end2 : Uint64Struct) :
    Bool :=
  let intersectEnd := intersectEndOf start1 length1 end2
  let intersectStart := intersectStartOf start1 start2
  if Uint64.gt intersectStart intersectEnd then false
  else (Uint64.sub (Uint64.add intersectEnd (Uint64.ofUint32 1)) intersectStart).lowPart != 0

/-- A first region that ends below 4 GB: the regions meet if neither is in front of the other. -/
theorem regionsIntersect_iff {start1 : Uint64Struct} {length1 : UInt32} (start2 end2 : Uint64Struct)
    (hlen : 0 < length1.toNat) (hfit : Uint64.num start1 + length1.toNat < 2 ^ 32) :
    regionsIntersect start1 length1 start2 end2 = true ↔
      Uint64.num start1 ≤ Uint64.num end2 ∧ Uint64.num start2 ≤ Uint64.num end2 ∧
        Uint64.num start2 < Uint64.num start1 + length1.toNat := by
  have hend2 := Uint64.num_lt end2
  have hone : Uint64.num (Uint64.ofUint32 1) = 1 := rfl
  -- the last byte of the first region
  have hend1 : Uint64.num (Uint64.sub (Uint64.add start1 (Uint64.ofUint32 length1))
      (Uint64.ofUint32 1)) = Uint64.num start1 + length1.toNat - 1 := by
    rw [Uint64.num_sub, Uint64.num_add, Uint64.num_ofUint32, hone]
    omega
  have hends : Uint64.num (intersectEndOf start1 length1 end2) =
      min (Uint64.num start1 + length1.toNat - 1) (Uint64.num end2) := by
    simp only [intersectEndOf, Uint64.le_iff, hend1]
    split
    · rw [hend1]
      omega
    · omega
  have hstarts : Uint64.num (intersectStartOf start1 start2) =
      max (Uint64.num start1) (Uint64.num start2) := by
    simp only [intersectStartOf, Uint64.ge_iff]
    split <;> omega
  rw [regionsIntersect]
  by_cases hgt : Uint64.gt (intersectStartOf start1 start2) (intersectEndOf start1 length1 end2) =
      true
  · rw [if_pos hgt]
    rw [Uint64.gt_iff, hends, hstarts] at hgt
    simp only [Bool.false_eq_true, false_iff]
    omega
  · rw [if_neg hgt]
    rw [Uint64.gt_iff, hends, hstarts] at hgt
    -- the bytes that both have are at most those of the first, so the low part counts them
    have hcount := Uint64.num_sub (Uint64.add (intersectEndOf start1 length1 end2)
      (Uint64.ofUint32 1)) (intersectStartOf start1 start2)
    rw [Uint64.num_add, hends, hstarts, hone] at hcount
    have hlow := Uint64.lowPart_of_num_lt (hcount.trans_lt (by omega))
    simp only [bne_iff_ne, ne_eq, ← UInt32.toNat_inj, hlow, hcount, UInt32.toNat_zero]
    omega

end Boot
end VeraCrypt
