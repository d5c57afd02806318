import Mathlib.Data.Nat.Digits.Lemmas
import Mathlib.Data.UInt

/-!
# Groups of bits of one width into groups of another

A loop takes groups of `v` bits into an accumulator and gives out groups of `w` bits, highest
bits first, as long as it holds that many. What it keeps true is that the groups taken in and
the groups given out, with the bits still held behind them, are one number in base `2 ^ v` and
base `2 ^ w` (`Regroup.Holds`). The accumulator is a word that loses its high bits; those have
been given out by then.
-/

set_option autoImplicit false

namespace VeraCrypt
namespace Lib

/-! ## Numbers, most significant digit first -/

/-- The number with the digits `xs` in base `b`. -/
def bigEndian (b : Nat) (xs : List UInt8) : Nat := Nat.ofDigits b (xs.reverse.map UInt8.toNat)

@[simp] theorem bigEndian_nil (b : Nat) : bigEndian b [] = 0 := rfl

theorem bigEndian_append_singleton (b : Nat) (xs : List UInt8) (d : UInt8) :
    bigEndian b (xs ++ [d]) = bigEndian b xs * b + d.toNat := by
  unfold bigEndian
  rw [List.reverse_append, List.map_append, List.reverse_singleton, List.map_singleton,
    List.singleton_append, Nat.ofDigits_cons]
  ring

/-- Digits below the base are determined by their number and their count. -/
theorem bigEndian_inj {b : Nat} (hb : 1 < b) {xs ys : List UInt8} (hlen : xs.length = ys.length)
    (hx : ∀ x ∈ xs, x.toNat < b) (hy : ∀ y ∈ ys, y.toNat < b)
    (h : bigEndian b xs = bigEndian b ys) : xs = ys := by
  have hdigits : xs.reverse.map UInt8.toNat = ys.reverse.map UInt8.toNat := by
    apply Nat.ofDigits_inj_of_len_eq hb (by simp [hlen]) ?_ ?_ h
    · intro d hd
      simp only [List.mem_map, List.mem_reverse] at hd
      obtain ⟨x, hmem, rfl⟩ := hd
      exact hx x hmem
    · intro d hd
      simp only [List.mem_map, List.mem_reverse] at hd
      obtain ⟨y, hmem, rfl⟩ := hd
      exact hy y hmem
  have hrev := List.map_injective_iff.mpr (fun _ _ he => UInt8.toNat_inj.mp he) hdigits
  exact List.reverse_injective hrev

/-! ## The loop -/

/-- The accumulator, how many of its low bits are still held, and what has been given out. -/
structure Groups where
  acc : UInt32
  bits : Nat
  out : List UInt8

/-- Gives out groups of `w` bits while that many are held; `none` when the output is full. -/
def drain (w cap : Nat) : (fuel : Nat) → Groups → Option Groups
  | 0, s => some s
  | fuel + 1, s =>
    if w ≤ s.bits then
      if cap ≤ s.out.length then none
      else
        let bits := s.bits - w
        let group := (s.acc >>> UInt32.ofNat bits) &&& UInt32.ofNat (2 ^ w - 1)
        drain w cap fuel { s with bits := bits, out := s.out ++ [group.toUInt8] }
    else some s

/-- Takes one group of `v` bits. -/
def takeGroup (v w cap : Nat) (s : Groups) (d : UInt8) : Option Groups :=
  drain w cap (s.bits + v)
    { s with acc := (s.acc <<< UInt32.ofNat v) ||| d.toUInt32, bits := s.bits + v }

def regroup (v w cap : Nat) (data : List UInt8) : Option Groups :=
  data.foldlM (takeGroup v w cap) ⟨0, 0, []⟩

/-! ## What it keeps true -/

namespace Groups

/-- The groups taken in are the groups given out and the bits held. -/
structure Holds (v w : Nat) (data : List UInt8) (s : Groups) : Prop where
  size : v * data.length = w * s.out.length + s.bits
  lt : ∀ x ∈ s.out, x.toNat < 2 ^ w
  value : bigEndian (2 ^ v) data = bigEndian (2 ^ w) s.out * 2 ^ s.bits + s.acc.toNat % 2 ^ s.bits

variable {v w cap : Nat} {data : List UInt8} {s s' : Groups}

theorem Holds.start (v w : Nat) : Holds v w [] ⟨0, 0, []⟩ where
  size := by simp
  lt := by simp
  value := by simp [Nat.mod_one]

/-- The group that is given out next. -/
theorem toNat_group (acc : UInt32) {bits : Nat} (hw : w ≤ 8) (hbits : bits < 32) :
    ((acc >>> UInt32.ofNat bits) &&& UInt32.ofNat (2 ^ w - 1)).toUInt8.toNat =
      acc.toNat / 2 ^ bits % 2 ^ w := by
  have hmask : (2 ^ w - 1) % 2 ^ 32 = 2 ^ w - 1 := by
    have hle := Nat.pow_le_pow_right (n := 2) (by omega) hw
    apply Nat.mod_eq_of_lt
    omega
  have hpos : 0 < 2 ^ w := Nat.two_pow_pos w
  have hle : 2 ^ w ≤ 2 ^ 8 := Nat.pow_le_pow_right (by omega) hw
  have hlt := Nat.mod_lt (acc.toNat / 2 ^ bits) hpos
  rw [UInt32.toNat_toUInt8, UInt32.toNat_and, UInt32.toNat_shiftRight, UInt32.toNat_ofNat',
    UInt32.toNat_ofNat', Nat.mod_eq_of_lt (by omega : bits < 2 ^ 32), Nat.mod_eq_of_lt hbits, hmask,
    Nat.and_two_pow_sub_one_eq_mod, Nat.shiftRight_eq_div_pow, Nat.mod_eq_of_lt (by omega)]

/-- The bits that are still held, moved up to the top of a group. -/
theorem toNat_pad (acc : UInt32) {bits : Nat} (hw : w ≤ 8) (hbits : bits ≤ w) :
    ((acc <<< UInt32.ofNat (w - bits)) &&& UInt32.ofNat (2 ^ w - 1)).toNat =
      acc.toNat % 2 ^ bits * 2 ^ (w - bits) := by
  have hmask : (2 ^ w - 1) % 2 ^ 32 = 2 ^ w - 1 := by
    have hle := Nat.pow_le_pow_right (n := 2) (by omega) hw
    apply Nat.mod_eq_of_lt
    omega
  have hdvd : 2 ^ w ∣ 2 ^ 32 := Nat.pow_dvd_pow 2 (by omega)
  have hsplit : 2 ^ w = 2 ^ bits * 2 ^ (w - bits) := by rw [← pow_add, Nat.add_sub_cancel' hbits]
  rw [UInt32.toNat_and, UInt32.toNat_shiftLeft, UInt32.toNat_ofNat', UInt32.toNat_ofNat',
    Nat.mod_eq_of_lt (by omega : w - bits < 2 ^ 32), Nat.mod_eq_of_lt (by omega : w - bits < 32),
    hmask, Nat.and_two_pow_sub_one_eq_mod, Nat.mod_mod_of_dvd _ hdvd, Nat.shiftLeft_eq]
  conv_lhs => rw [hsplit, Nat.mul_mod_mul_right]

/-- The accumulator after a group has been taken in. -/
theorem toNat_takeGroup (acc : UInt32) (d : UInt8) {bits : Nat} (hd : d.toNat < 2 ^ v)
    (hbits : bits + v < 32) :
    ((acc <<< UInt32.ofNat v) ||| d.toUInt32).toNat % 2 ^ (bits + v) =
      acc.toNat % 2 ^ bits * 2 ^ v + d.toNat := by
  have hword : (acc <<< UInt32.ofNat v).toNat = (acc.toNat % 2 ^ (32 - v)) <<< v := by
    rw [UInt32.toNat_shiftLeft, UInt32.toNat_ofNat', Nat.mod_eq_of_lt (by omega : v < 2 ^ 32),
      Nat.mod_eq_of_lt (by omega : v < 32), Nat.shiftLeft_eq, Nat.shiftLeft_eq]
    have hsplit : 2 ^ 32 = 2 ^ (32 - v) * 2 ^ v := by rw [← pow_add]; congr 1; omega
    rw [hsplit, Nat.mul_mod_mul_right]
  have hdvd' : 2 ^ bits ∣ 2 ^ (32 - v) := Nat.pow_dvd_pow 2 (by omega)
  rw [UInt32.toNat_or, UInt8.toNat_toUInt32, hword, ← Nat.shiftLeft_add_eq_or_of_lt hd,
    Nat.shiftLeft_eq, pow_add, Nat.mul_comm (2 ^ bits) (2 ^ v), Nat.mod_mul,
    Nat.mul_add_mod_self_right, Nat.mod_eq_of_lt hd, Nat.mul_comm _ (2 ^ v),
    Nat.mul_add_div (Nat.two_pow_pos v), Nat.div_eq_of_lt hd, Nat.add_zero,
    Nat.mod_mod_of_dvd _ hdvd']
  ring

/-- Giving groups out keeps the number, and stops below one group. -/
theorem Holds.drain (hw : 0 < w) (hw8 : w ≤ 8) {fuel : Nat} (hfuel : s.bits ≤ fuel)
    (hbits : s.bits < 32) (h : Holds v w data s) (hs : drain w cap fuel s = some s') :
    Holds v w data s' ∧ s'.bits < w := by
  induction fuel generalizing s with
  | zero =>
    cases hs
    exact ⟨h, by omega⟩
  | succ fuel ih =>
    unfold Lib.drain at hs
    by_cases hmore : w ≤ s.bits
    · rw [if_pos hmore] at hs
      by_cases hfull : cap ≤ s.out.length
      · rw [if_pos hfull] at hs
        cases hs
      rw [if_neg hfull] at hs
      refine ih ?_ ?_ ?_ hs
      · change s.bits - w ≤ fuel
        omega
      · change s.bits - w < 32
        omega
      have hgroup := @toNat_group w s.acc (s.bits - w) hw8 (by omega)
      refine ⟨?_, ?_, ?_⟩
      · rw [h.size, List.length_append, List.length_singleton, Nat.mul_succ]
        change w * s.out.length + s.bits = w * s.out.length + w + (s.bits - w)
        omega
      · intro x hx
        rcases List.mem_append.mp hx with hx | hx
        · exact h.lt x hx
        · rw [List.mem_singleton.mp hx, hgroup]
          exact Nat.mod_lt _ (Nat.two_pow_pos w)
      · have hsplit : 2 ^ s.bits = 2 ^ (s.bits - w) * 2 ^ w := by
          rw [← pow_add, Nat.sub_add_cancel hmore]
        rw [h.value, bigEndian_append_singleton, hgroup, hsplit, Nat.mod_mul]
        ring
    · rw [if_neg hmore] at hs
      cases hs
      exact ⟨h, by omega⟩

/-- There is room for what is given out when there is room for all the bits. -/
theorem drain_isSome (hw : 0 < w) {fuel : Nat}
    (hroom : (w * s.out.length + s.bits) / w ≤ cap) : ∃ s', Lib.drain w cap fuel s = some s' := by
  induction fuel generalizing s with
  | zero => exact ⟨s, rfl⟩
  | succ fuel ih =>
    unfold Lib.drain
    by_cases hmore : w ≤ s.bits
    · have hcount : (w * s.out.length + s.bits) / w = s.out.length + s.bits / w :=
        Nat.mul_add_div hw _ _
      have hone : 1 ≤ s.bits / w := (Nat.one_le_div_iff hw).mpr hmore
      rw [if_pos hmore, if_neg (by omega)]
      apply ih
      have hsame : w * (s.out.length + 1) + (s.bits - w) = w * s.out.length + s.bits := by
        rw [Nat.mul_succ]
        omega
      rw [List.length_append, List.length_singleton, hsame]
      exact hroom
    · rw [if_neg hmore]
      exact ⟨s, rfl⟩

theorem Holds.takeGroup (hw : 0 < w) (hw8 : w ≤ 8) (hvw : v + w ≤ 32) {d : UInt8}
    (hd : d.toNat < 2 ^ v) (h : Holds v w data s) (hbits : s.bits < w)
    (hs : takeGroup v w cap s d = some s') : Holds v w (data ++ [d]) s' ∧ s'.bits < w := by
  unfold Lib.takeGroup at hs
  set next : Groups :=
    { s with acc := (s.acc <<< UInt32.ofNat v) ||| d.toUInt32, bits := s.bits + v } with hnext
  have hlow : next.bits < 32 := by
    rw [hnext]
    change s.bits + v < 32
    omega
  refine Holds.drain hw hw8 (Nat.le_refl next.bits) hlow ?_ hs
  refine ⟨?_, h.lt, ?_⟩
  · rw [List.length_append, List.length_singleton, Nat.mul_succ, h.size, Nat.add_assoc]
  · rw [bigEndian_append_singleton, h.value, toNat_takeGroup s.acc d hd (by omega), pow_add]
    ring

theorem Holds.run (hw : 0 < w) (hw8 : w ≤ 8) (hvw : v + w ≤ 32) {rest : List UInt8}
    (hrest : ∀ d ∈ rest, d.toNat < 2 ^ v) (h : Holds v w data s) (hbits : s.bits < w)
    (hs : rest.foldlM (Lib.takeGroup v w cap) s = some s') :
    Holds v w (data ++ rest) s' ∧ s'.bits < w := by
  induction rest generalizing data s with
  | nil =>
    cases hs
    rw [List.append_nil]
    exact ⟨h, hbits⟩
  | cons d rest ih =>
    rw [List.foldlM_cons] at hs
    obtain ⟨mid, hmid, hrun⟩ := Option.bind_eq_some_iff.mp hs
    obtain ⟨hnext, hlow⟩ := h.takeGroup hw hw8 hvw (hrest d (by simp)) hbits hmid
    have hall := ih (fun e he => hrest e (by simp [he])) hnext hlow hrun
    rwa [List.append_assoc, List.singleton_append] at hall

/-- **What the loop ends with**: the groups it was given as one number, in groups of the other
    width and fewer bits than one of those. -/
theorem regroup_holds (hw : 0 < w) (hw8 : w ≤ 8) (hvw : v + w ≤ 32)
    (hdata : ∀ d ∈ data, d.toNat < 2 ^ v) (hs : regroup v w cap data = some s) :
    Holds v w data s ∧ s.bits < w := by
  have hrun := (Holds.start v w).run hw hw8 hvw hdata hw hs
  rwa [List.nil_append] at hrun

/-- **It gets there** when the output has room for all the bits. -/
theorem regroup_isSome (hw : 0 < w) (hw8 : w ≤ 8) (hvw : v + w ≤ 32)
    (hdata : ∀ d ∈ data, d.toNat < 2 ^ v) (hroom : v * data.length / w ≤ cap) :
    ∃ s, regroup v w cap data = some s := by
  have hrun : ∀ (rest pre : List UInt8) (s : Groups), Holds v w pre s → s.bits < w →
      (∀ d ∈ rest, d.toNat < 2 ^ v) → v * (pre ++ rest).length / w ≤ cap →
      ∃ s', rest.foldlM (Lib.takeGroup v w cap) s = some s' := by
    intro rest
    induction rest with
    | nil => exact fun _ s _ _ _ _ => ⟨s, rfl⟩
    | cons d rest ih =>
      intro pre s h hbits hrest hcap
      have htake : ∃ mid, Lib.takeGroup v w cap s d = some mid := by
        unfold Lib.takeGroup
        apply drain_isSome hw
        have hle : w * s.out.length + (s.bits + v) ≤ v * (pre ++ d :: rest).length := by
          have hsize := h.size
          rw [List.length_append, List.length_cons, Nat.mul_add, Nat.mul_succ]
          omega
        exact (Nat.div_le_div_right hle).trans hcap
      obtain ⟨mid, hmid⟩ := htake
      obtain ⟨hnext, hlow⟩ := h.takeGroup hw hw8 hvw (hrest d (by simp)) hbits hmid
      obtain ⟨s', hs'⟩ := ih (pre ++ [d]) mid hnext hlow (fun e he => hrest e (by simp [he]))
        (by rwa [List.append_assoc, List.singleton_append])
      refine ⟨s', ?_⟩
      rw [List.foldlM_cons, hmid]
      exact hs'
  exact hrun data [] _ (Holds.start v w) hw hdata hroom

end Groups

end Lib
end VeraCrypt
