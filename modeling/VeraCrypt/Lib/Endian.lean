import Mathlib.Data.List.Basic
import Mathlib.Tactic.Ring

/-!
# Fixed-width integers as bytes

Little- and big-endian encodings of a natural number in `n` bytes, and the two decoders. An
encoding keeps the number modulo `256 ^ n` (`leNat_leBytes`, `beNat_beBytes`), and a decoder
loses nothing of a buffer of the right length (`beBytes_beNat`), so a fixed-width field of a
record determines, and is determined by, its bytes.
-/

set_option autoImplicit false

namespace VeraCrypt
namespace Lib

/-- `v` in `n` bytes, least significant first. -/
def leBytes : Nat → Nat → List UInt8
  | 0, _ => []
  | n + 1, v => UInt8.ofNat v :: leBytes n (v / 256)

/-- `v` in `n` bytes, most significant first. -/
def beBytes (n v : Nat) : List UInt8 := (leBytes n v).reverse

def leNat : List UInt8 → Nat
  | [] => 0
  | b :: bs => b.toNat + 256 * leNat bs

def beNat (bs : List UInt8) : Nat := bs.foldl (fun v b => v * 256 + b.toNat) 0

@[simp] theorem length_leBytes (n v : Nat) : (leBytes n v).length = n := by
  induction n generalizing v with
  | zero => rfl
  | succ n ih => simp [leBytes, ih]

@[simp] theorem length_beBytes (n v : Nat) : (beBytes n v).length = n := by
  simp [beBytes]

theorem leNat_leBytes (n v : Nat) : leNat (leBytes n v) = v % 256 ^ n := by
  induction n generalizing v with
  | zero => simp [leBytes, leNat, Nat.mod_one]
  | succ n ih =>
    have hb : (UInt8.ofNat v).toNat = v % 256 := UInt8.toNat_ofNat'
    rw [leBytes, leNat, ih, hb, pow_succ, Nat.mul_comm (256 ^ n) 256, Nat.mod_mul]

example : leNat (leBytes 2 0x1234) = 0x1234 := by simp [leBytes, leNat]

/-- Big-endian decoding reads the reversed bytes little-endian. -/
theorem beNat_eq_leNat_reverse (bs : List UInt8) : beNat bs = leNat bs.reverse := by
  have hfold : ∀ (l : List UInt8), leNat l = l.foldr (fun b v => v * 256 + b.toNat) 0 := by
    intro l
    induction l with
    | nil => rfl
    | cons b l ih => rw [leNat, ih, List.foldr_cons]; ring
  rw [hfold, List.foldr_reverse]
  rfl

/-- A byte shifted in at the end. -/
theorem beBytes_succ (n v : Nat) (b : UInt8) :
    beBytes (n + 1) (v * 256 + b.toNat) = beBytes n v ++ [b] := by
  have hb : b.toNat < 256 := b.toNat_lt
  have hlow : UInt8.ofNat (v * 256 + b.toNat) = b := by
    apply UInt8.toNat_inj.mp
    rw [UInt8.toNat_ofNat']
    omega
  have hhigh : (v * 256 + b.toNat) / 256 = v := by omega
  rw [beBytes, leBytes, hlow, hhigh, List.reverse_cons]
  rfl

theorem beBytes_one (b : UInt8) : beBytes 1 b.toNat = [b] := by
  have hone : beBytes 1 (0 * 256 + b.toNat) = [b] := beBytes_succ 0 0 b
  rwa [Nat.zero_mul, Nat.zero_add] at hone

theorem beNat_beBytes (n v : Nat) : beNat (beBytes n v) = v % 256 ^ n := by
  rw [beNat_eq_leNat_reverse, beBytes, List.reverse_reverse, leNat_leBytes]

theorem leNat_lt (bs : List UInt8) : leNat bs < 256 ^ bs.length := by
  induction bs with
  | nil => simp [leNat]
  | cons b bs ih =>
    have hb : b.toNat < 256 := b.toNat_lt
    rw [leNat, List.length_cons, pow_succ]
    omega

theorem beNat_lt (bs : List UInt8) : beNat bs < 256 ^ bs.length := by
  have h := leNat_lt bs.reverse
  rwa [List.length_reverse, ← beNat_eq_leNat_reverse] at h

theorem leBytes_leNat (bs : List UInt8) : leBytes bs.length (leNat bs) = bs := by
  induction bs with
  | nil => rfl
  | cons b bs ih =>
    have hb : b.toNat < 256 := b.toNat_lt
    have hq : (b.toNat + 256 * leNat bs) / 256 = leNat bs := by omega
    have hr : UInt8.ofNat (b.toNat + 256 * leNat bs) = b := by
      apply UInt8.toNat_inj.mp
      rw [UInt8.toNat_ofNat']
      omega
    rw [List.length_cons, leNat, leBytes, hq, hr, ih]

theorem leNat_inj {a c : List UInt8} (hlen : a.length = c.length) (h : leNat a = leNat c) : a = c := by
  rw [← leBytes_leNat a, ← leBytes_leNat c, hlen, h]

theorem leNat_append (a b : List UInt8) : leNat (a ++ b) = leNat a + 256 ^ a.length * leNat b := by
  induction a with
  | nil => simp [leNat]
  | cons x a ih =>
    rw [List.cons_append, leNat, leNat, ih, List.length_cons, pow_succ]
    ring

theorem beBytes_beNat {bs : List UInt8} {n : Nat} (h : bs.length = n) :
    beBytes n (beNat bs) = bs := by
  subst h
  have hle := leBytes_leNat bs.reverse
  rw [List.length_reverse] at hle
  rw [beBytes, beNat_eq_leNat_reverse, hle, List.reverse_reverse]

end Lib
end VeraCrypt
