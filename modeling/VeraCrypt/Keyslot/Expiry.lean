import VeraCrypt.Keyslot.Policy
import VeraCrypt.Lib.SlotTable

/-!
# Expiry

The header promises that an expired slot behaves as one the passphrase does not match. Two
statements make that precise, and the code keeps each of them only under a condition.

* **The mount open.** `KeyslotOpenPolicy` selects the first slot that unwraps and looks at the
  expiry of that one only, after the scan. An expired slot therefore masks an unexpired one
  behind it. The open is the open of the first unexpired match exactly where there is no such
  pair (`openPolicy_lowestUnexpired_iff`).
* **The indexed open.** A wrong passphrase is counted in the clear, the right passphrase of an
  expired slot is not. The two runs are the same exactly where nothing is counted
  (`openAtPolicy_silent_iff`).
-/

set_option autoImplicit false

namespace VeraCrypt

open Lib

section
variable (P : Primitives) (cfg : KeyslotStoreCfg) (area : KeyslotArea)

/-! ## The mount open -/

def WrapsAt (pass : Bytes) (i : Nat) : Prop := (matchAt P cfg area pass i).isSome

instance (pass : Bytes) (i : Nat) : Decidable (WrapsAt P cfg area pass i) :=
  inferInstanceAs (Decidable (_ = true))

/-- What slot `i` would give a policy open: it wraps under the passphrase and has not expired. -/
def unexpiredAt (pass : Bytes) (nowUnix : UInt64) (i : Nat) : Option OpenedPolicy :=
  (matchAt P cfg area pass i).bind (policyOffer P cfg nowUnix)

/-- The open hands out exactly what the lowest unexpired slot of the passphrase holds. -/
def OpensLowestUnexpired (pass : Bytes) (nowUnix : UInt64) : Prop :=
  ∀ r, keyslotOpenPolicy P cfg area pass nowUnix = some r ↔
    ∃ i, i < nSlots cfg area ∧ unexpiredAt P cfg area pass nowUnix i = some r ∧
      ∀ j, j < i → unexpiredAt P cfg area pass nowUnix j = none

/-- The first slot of the passphrase has not expired, or all of them have. -/
def NothingMasked (pass : Bytes) (nowUnix : UInt64) : Prop :=
  (∀ i, i < nSlots cfg area → WrapsAt P cfg area pass i →
      (∀ j, j < i → ¬ WrapsAt P cfg area pass j) →
      (unexpiredAt P cfg area pass nowUnix i).isSome) ∨
    ∀ i, i < nSlots cfg area → unexpiredAt P cfg area pass nowUnix i = none

variable {P cfg area} {pass : Bytes}

/-- The open answers for the first slot that wraps, and for no other. -/
theorem openPolicy_of_first (nowUnix : UInt64) (hpol : cfg.policy ≠ 0) (hl : isLabeled cfg.backend = true)
    (hfit : recFits cfg) {i : Nat} (hi : i < nSlots cfg area) (hw : WrapsAt P cfg area pass i)
    (hpre : ∀ j, j < i → ¬ WrapsAt P cfg area pass j) :
    keyslotOpenPolicy P cfg area pass nowUnix = unexpiredAt P cfg area pass nowUnix i := by
  obtain ⟨blob, hblob⟩ := Option.isSome_iff_exists.mp hw
  have hfirst : firstMatch P cfg area pass = some blob :=
    findSome?_range_eq_some_iff.mpr ⟨i, hi, hblob, fun j hj => by
      simpa [WrapsAt] using hpre j hj⟩
  rw [keyslotOpenPolicy_eq P hpol hl hfit, hfirst, unexpiredAt, hblob]

theorem openPolicy_of_no_match (nowUnix : UInt64) (hpol : cfg.policy ≠ 0) (hl : isLabeled cfg.backend = true)
    (hfit : recFits cfg) (h : ∀ i, i < nSlots cfg area → ¬ WrapsAt P cfg area pass i) :
    keyslotOpenPolicy P cfg area pass nowUnix = none := by
  have hnone : firstMatch P cfg area pass = none :=
    findSome?_range_eq_none_iff.mpr fun i hi => by simpa [WrapsAt] using h i hi
  rw [keyslotOpenPolicy_eq P hpol hl hfit, hnone]
  rfl

theorem wrapsAt_of_unexpiredAt {nowUnix : UInt64} {i : Nat}
    (h : (unexpiredAt P cfg area pass nowUnix i).isSome) : WrapsAt P cfg area pass i := by
  unfold unexpiredAt at h
  unfold WrapsAt
  cases hm : matchAt P cfg area pass i with
  | none => simp [hm] at h
  | some blob => rfl

theorem unexpiredAt_eq_none {nowUnix : UInt64} {i : Nat} (h : ¬ WrapsAt P cfg area pass i) :
    unexpiredAt P cfg area pass nowUnix i = none := by
  rw [← Option.isNone_iff_eq_none, ← Option.not_isSome, Bool.not_eq_true']
  rw [Bool.eq_false_iff]
  exact fun hs => h (wrapsAt_of_unexpiredAt hs)

/-- Some slot wraps first, or none does. -/
theorem first_wrap_or_none (P : Primitives) (cfg : KeyslotStoreCfg) (area : KeyslotArea)
    (pass : Bytes) :
    (∃ i, i < nSlots cfg area ∧ WrapsAt P cfg area pass i ∧
      ∀ j, j < i → ¬ WrapsAt P cfg area pass j) ∨
    ∀ i, i < nSlots cfg area → ¬ WrapsAt P cfg area pass i := by
  cases hf : firstMatch P cfg area pass with
  | none =>
    right
    intro i hi hw
    rw [WrapsAt, findSome?_range_eq_none_iff.mp hf i hi] at hw
    simp at hw
  | some blob =>
    left
    obtain ⟨i, hi, hm, hpre⟩ := findSome?_range_eq_some_iff.mp hf
    refine ⟨i, hi, by rw [WrapsAt, hm]; rfl, fun j hj hw => ?_⟩
    rw [WrapsAt, hpre j hj] at hw
    simp at hw

/-- **The mount open is silent about expiry exactly where no expired slot hides an unexpired
    one of the same passphrase.** -/
theorem openPolicy_lowestUnexpired_iff (P : Primitives) (cfg : KeyslotStoreCfg)
    (area : KeyslotArea) (pass : Bytes) (nowUnix : UInt64) (hpol : cfg.policy ≠ 0)
    (hl : isLabeled cfg.backend = true) (hfit : recFits cfg) :
    OpensLowestUnexpired P cfg area pass nowUnix ↔ NothingMasked P cfg area pass nowUnix := by
  rcases first_wrap_or_none P cfg area pass with ⟨i, hi, hw, hpre⟩ | hno
  · have hopen := openPolicy_of_first nowUnix hpol hl hfit hi hw hpre
    have hbefore : ∀ j, j < i → unexpiredAt P cfg area pass nowUnix j = none :=
      fun j hj => unexpiredAt_eq_none (hpre j hj)
    constructor
    · intro h
      cases hu : unexpiredAt P cfg area pass nowUnix i with
      | some r =>
        -- the first match is the one slot the condition asks about
        left
        intro k hk hwk hprek
        rcases Nat.lt_trichotomy i k with hlt | rfl | hgt
        · exact absurd hw (hprek i hlt)
        · rw [hu]
          rfl
        · exact absurd hwk (hpre k hgt)
      | none =>
        right
        by_contra hsome
        -- some slot is unexpired; the lowest one contradicts the open's `none`
        have hex : ((List.range (nSlots cfg area)).findSome?
            (unexpiredAt P cfg area pass nowUnix)).isSome := by
          rw [← Option.not_isNone, Bool.not_eq_true', ← Bool.not_eq_true]
          exact fun hn => hsome (findSome?_range_eq_none_iff.mp (Option.isNone_iff_eq_none.mp hn))
        obtain ⟨r, hr⟩ := Option.isSome_iff_exists.mp hex
        have hfound := (h r).mpr (findSome?_range_eq_some_iff.mp hr)
        rw [hopen, hu] at hfound
        simp at hfound
    · intro hcond r
      rw [hopen]
      constructor
      · exact fun hr => ⟨i, hi, hr, hbefore⟩
      · rintro ⟨k, hk, hrk, hprek⟩
        have hsome : (unexpiredAt P cfg area pass nowUnix i).isSome := by
          rcases hcond with hfirst | hall
          · exact hfirst i hi hw hpre
          · rw [hall k hk] at hrk
            simp at hrk
        -- both are the lowest unexpired slot
        rcases Nat.lt_trichotomy i k with hlt | rfl | hgt
        · rw [hprek i hlt] at hsome
          simp at hsome
        · exact hrk
        · rw [hbefore k hgt] at hrk
          simp at hrk
  · have hopen := openPolicy_of_no_match nowUnix hpol hl hfit hno
    refine ⟨fun _ => Or.inl fun i hi hw _ => absurd hw (hno i hi), fun _ r => ?_⟩
    rw [hopen]
    constructor
    · intro hr
      simp at hr
    · rintro ⟨i, hi, hr, -⟩
      rw [unexpiredAt_eq_none (hno i hi)] at hr
      simp at hr

/-- The area after two policy adds under one passphrase, with the given expiries. -/
def twoExpiries (first second : UInt64) : KeyslotArea :=
  let one := (keyslotAddPolicy .demo (.demo .header 1) (.blank 2048) [1] 0 [7] first 0 .demo).2
  (keyslotAddPolicy .demo (.demo .header 1) one [1] 0 [8] second 0 .demo).2

/-- At the time 2 the first of them opens. -/
example : (keyslotOpenPolicy .demo (.demo .header 1) (twoExpiries 5 1) [1] 2).isSome = true := by
  decide +kernel

theorem openPolicy_lowestUnexpired_demo :
    OpensLowestUnexpired .demo (.demo .header 1) (twoExpiries 5 1) [1] 2 :=
  (openPolicy_lowestUnexpired_iff .demo (.demo .header 1) (twoExpiries 5 1) [1] 2 (by decide) rfl
    (by decide)).mpr (Or.inl (by decide +kernel))

/-- At time 2 the first enrolment has expired and the second never does. -/
theorem openPolicy_masks :
    ¬ OpensLowestUnexpired .demo (.demo .header 1) (twoExpiries 1 0) [1] 2 := by
  intro h
  obtain ⟨hin, hsecond, hfirst, hnone⟩ : 1 < nSlots (.demo .header 1) (twoExpiries 1 0) ∧
      unexpiredAt .demo (.demo .header 1) (twoExpiries 1 0) [1] 2 1 =
        some { opened := { vmk := [8], flags := 0 }, expiry := 0 } ∧
      (∀ j < 1, unexpiredAt .demo (.demo .header 1) (twoExpiries 1 0) [1] 2 j = none) ∧
      keyslotOpenPolicy .demo (.demo .header 1) (twoExpiries 1 0) [1] 2 = none := by
    decide +kernel
  have hopen := (h _).mpr ⟨1, hin, hsecond, hfirst⟩
  rw [hnone] at hopen
  simp at hopen

/-! ## The indexed open -/

/-- The right passphrase of a slot and a wrong one lead to the same outcome: return code,
    outputs and final area. -/
def ExpirySilent (P : Primitives) (cfg : KeyslotStoreCfg) (area : KeyslotArea) (index : Int)
    (right wrong : Bytes) (nowUnix : UInt64) : Prop :=
  keyslotOpenAtPolicy P cfg area index right nowUnix =
    keyslotOpenAtPolicy P cfg area index wrong nowUnix

/-- **The indexed open is silent about expiry exactly where a wrong passphrase is not
    counted**: the slot is locked, has no counter, or its counter is full. -/
theorem openAtPolicy_silent_iff (P : Primitives) (cfg : KeyslotStoreCfg) (area : KeyslotArea)
    (index : Int) (rec blob right wrong : Bytes) (nowUnix : UInt64) (hcfg : PolicyCfg cfg)
    (hrec : labeledRecAt cfg area index = some rec)
    (hright : recUnwrapCT P cfg right rec = (true, blob))
    (hexp : expired nowUnix (payloadExpiry (afMerge P blob (plenOf cfg) (afOf cfg))) = true)
    (hwrong : (recUnwrapCT P cfg wrong rec).1 = false) :
    ExpirySilent P cfg area index right wrong nowUnix ↔
      PolicyLocked cfg rec ∨ polMarked cfg rec = false ∨ polAttA cfg rec = 255 := by
  unfold ExpirySilent
  by_cases hlock : PolicyLocked cfg rec
  · rw [keyslotOpenAtPolicy_locked P hcfg hrec hlock, keyslotOpenAtPolicy_locked P hcfg hrec hlock]
    exact ⟨fun _ => Or.inl hlock, fun _ => rfl⟩
  rw [keyslotOpenAtPolicy_expired P hcfg hrec hlock hright hexp,
    keyslotOpenAtPolicy_fail P hcfg hrec hlock hwrong]
  have hbyte : polAttA cfg rec ≤ 255 := by
    unfold polAttA
    split
    · exact Nat.le_of_lt_succ (UInt8.toNat_lt _)
    · exact Nat.zero_le _
  by_cases hcount : polMarked cfg rec = true ∧ polAttA cfg rec < 255
  · -- the wrong run reports one attempt more than the right one
    rw [if_pos hcount]
    constructor
    · intro heq
      have hatt := congrArg OpenAtPolicy.attempts heq
      simp at hatt
    · rintro (h | h | h)
      · exact absurd h hlock
      · rw [hcount.1] at h
        exact absurd h (by decide)
      · omega
  · rw [if_neg hcount]
    refine ⟨fun _ => Or.inr ?_, fun _ => rfl⟩
    cases hmark : polMarked cfg rec with
    | false => exact Or.inl rfl
    | true =>
      have hfull : ¬ polAttA cfg rec < 255 := fun hlt => hcount ⟨hmark, hlt⟩
      exact Or.inr (by omega)

/-- The record of the first slot of `twoExpiries 1 0`, expired at time 2. -/
def expiredRecord : Bytes := slotAt (twoExpiries 1 0) 0

theorem openAtPolicy_silent_demo :
    ExpirySilent .demo (.demo .header 1) (twoExpiries 1 0) 0 [1] [2] 2 ↔
      PolicyLocked (.demo .header 1) expiredRecord ∨
        polMarked (.demo .header 1) expiredRecord = false ∨
        polAttA (.demo .header 1) expiredRecord = 255 := by
  have hin : (0 : Int).toNat < nSlots (.demo .header 1) (twoExpiries 1 0) ∧
      (twoExpiries 1 0).readFails ((0 : Int).toNat * keyslotTableStride) = false ∧
      slice expiredRecord 0 4 = ksMagic := by decide +kernel
  have hpair : ∀ p : Bool × Bytes, p.1 = true → p = (true, p.2) := by
    intro p hp
    rw [← hp]
  have hunwrap : (recUnwrapCT .demo (.demo .header 1) [1] expiredRecord).1 = true ∧
      expired 2 (payloadExpiry (afMerge .demo
        (recUnwrapCT .demo (.demo .header 1) [1] expiredRecord).2 (plenOf (.demo .header 1))
        (afOf (.demo .header 1)))) = true ∧
      (recUnwrapCT .demo (.demo .header 1) [2] expiredRecord).1 = false := by decide +kernel
  exact openAtPolicy_silent_iff .demo (.demo .header 1) (twoExpiries 1 0) 0 expiredRecord
    (recUnwrapCT .demo (.demo .header 1) [1] expiredRecord).2 [1] [2] 2
    ⟨by decide, rfl, by decide, by decide⟩
    (labeledRecAt_of_read ⟨Int.le_refl 0, hin.1⟩ hin.2.1 hin.2.2)
    (hpair _ hunwrap.1) hunwrap.2.1 hunwrap.2.2

example : slice expiredRecord 0 4 = ksMagic := by decide +kernel

theorem openAtPolicy_leaks :
    ¬ ExpirySilent .demo (.demo .header 1) (twoExpiries 1 0) 0 [1] [2] 2 := by
  intro h
  have hatt := congrArg OpenAtPolicy.attempts h
  revert hatt
  decide +kernel

end

end VeraCrypt
