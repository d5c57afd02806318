import VeraCrypt.Keyslot.Policy
import VeraCrypt.Lib.Run

/-!
# The attempt budget

`KeyslotOpenAtPolicy` counts failed unwraps of a policy slot in a byte of its pad and refuses
to try once the count has reached the slot's maximum. This file follows the count through
whole runs of calls. The machine is instrumented with the number of unwraps that have failed
since the last success (`Tally.fails`), which is counted from what the calls did and not from
the byte; the invariant `Budget` says that the byte agrees with it and that it never passes
the maximum.

A run may change passphrase and time from call to call, and reads of the medium may fail in
any of them; writes succeed.
-/

set_option autoImplicit false

namespace VeraCrypt

open Lib

/-! ## Runs of the indexed open -/

/-- One call: its passphrase and time, and the reads that fail during it. -/
structure Attempt where
  pass : Bytes
  nowUnix : UInt64
  readFails : Nat → Bool

/-- The medium as the call finds it. -/
def Attempt.on (c : Attempt) (area : KeyslotArea) : KeyslotArea :=
  { area with readFails := c.readFails }

structure Tally where
  area : KeyslotArea
  fails : Nat

section
variable (P : Primitives) (cfg : KeyslotStoreCfg) (index : Int)

def attempt (area : KeyslotArea) (c : Attempt) : OpenAtPolicy :=
  keyslotOpenAtPolicy P cfg (c.on area) index c.pass c.nowUnix

/-- The call has got as far as an unwrap of its slot, and the unwrap has failed. -/
def failedUnwrap (area : KeyslotArea) (c : Attempt) : Bool :=
  (attempt P cfg index area c).rc == 0 &&
    match labeledRecAt cfg (c.on area) index with
    | none => false
    | some rec => !(recUnwrapCT P cfg c.pass rec).1

def tallyStep (s : Tally) (c : Attempt) : Tally × OpenAtPolicy :=
  let r := attempt P cfg index s.area c
  ({ area := r.area
     fails := if r.rc = 1 then 0
       else if failedUnwrap P cfg index s.area c then s.fails + 1 else s.fails }, r)

/-- The counter as it stands in the slot. -/
def storedAttempts (area : KeyslotArea) : Nat := polAttA cfg (slotAt area index.toNat)

/-! ## The invariant -/

/-- The slot named by `index` is a policy slot with `m` attempts whose sealed part is `part`, and
    its counter is the tally. -/
structure Budget (m : Nat) (part : Bytes) (s : Tally) : Prop where
  cfgOk : PolicyCfg cfg
  plen : 0 < ctOf cfg
  writes : ∀ off, s.area.writeFault off = none
  inRange : 0 ≤ index ∧ index.toNat < nSlots cfg s.area
  sealed : sealedPart cfg (slotAt s.area index.toNat) = part
  magic : slice part 0 4 = ksMagic
  mark : slice (slotAt s.area index.toNat) (ksPolOff cfg).toNat 2 = ksPolMark
  maxA : (slotAt s.area index.toNat)[(ksPolOff cfg).toNat + 2]? = some (UInt8.ofNat m)
  attA : (slotAt s.area index.toNat)[(ksPolOff cfg).toNat + 3]? = some (UInt8.ofNat s.fails)
  bounds : 0 < m ∧ m ≤ 255 ∧ s.fails ≤ m

variable {P cfg index} {m : Nat} {part : Bytes} {s : Tally} {c : Attempt}

theorem Budget.polMarked (h : Budget cfg index m part s) :
    polMarked cfg (slotAt s.area index.toNat) = true := decide_eq_true h.mark

theorem Budget.polMaxA (h : Budget cfg index m part s) :
    polMaxA cfg (slotAt s.area index.toNat) = m := by
  have hm := h.bounds.2.1
  rw [VeraCrypt.polMaxA, if_pos h.polMarked, List.getD_eq_getElem?_getD, h.maxA, Option.getD_some,
    UInt8.toNat_ofNat']
  omega

theorem Budget.polAttA (h : Budget cfg index m part s) :
    polAttA cfg (slotAt s.area index.toNat) = s.fails := by
  have hm := h.bounds
  rw [VeraCrypt.polAttA, if_pos h.polMarked, List.getD_eq_getElem?_getD, h.attA, Option.getD_some,
    UInt8.toNat_ofNat']
  omega

theorem Budget.magicAt (h : Budget cfg index m part s) :
    slice (slotAt s.area index.toNat) 0 4 = ksMagic := by
  rw [← @magic_sealedPart cfg, h.sealed, h.magic]

theorem Budget.slotLength (h : Budget cfg index m part s) :
    (slotAt s.area index.toNat).length = keyslotTableStride := length_slotAt h.inRange.2

/-- Reads that fail in a call do not change what the slots hold. -/
theorem Budget.on (h : Budget cfg index m part s) (c : Attempt) :
    Budget cfg index m part { area := c.on s.area, fails := s.fails } :=
  ⟨h.cfgOk, h.plen, h.writes, h.inRange, h.sealed, h.magic, h.mark, h.maxA, h.attA, h.bounds⟩

/-- Writing the counter back keeps the budget, at the new count. -/
theorem Budget.put (h : Budget cfg index m part s) {n : Nat} (hn : n ≤ m) :
    Budget cfg index m part
      { area := s.area.put (index.toNat * keyslotTableStride)
          (setAttempts cfg (slotAt s.area index.toNat) n)
        fails := n } := by
  have hlen := h.slotLength
  have hroom := polOff_lt h.cfgOk.polFits h.plen
  have hset : (setAttempts cfg (slotAt s.area index.toNat) n).length = keyslotTableStride := by
    unfold setAttempts
    rw [length_patch (by rw [hlen]; simp; omega), hlen]
  have hself := slotAt_put_self h.inRange.2 hset
  have hsize := KeyslotArea.size_put (a := s.area) (by rw [hset]; exact slot_le_size h.inRange.2)
  have hle : (ksPolOff cfg).toNat + 3 ≤ (slotAt s.area index.toNat).length := by omega
  refine ⟨h.cfgOk, h.plen, h.writes, ⟨h.inRange.1, ?_⟩, ?_, h.magic, ?_, ?_, ?_, ?_⟩
  · rw [nSlots_congr hsize]
    exact h.inRange.2
  · rw [hself, ← h.sealed]
    refine slice_patch_disjoint hle (Or.inl ?_)
    rw [toNat_ksPolOff h.plen]
    omega
  · rw [hself, ← h.mark]
    exact slice_patch_disjoint hle (Or.inl (by omega))
  · rw [hself, setAttempts, getElem?_patch hle, if_neg (by omega), h.maxA]
  · rw [hself, setAttempts, getElem?_patch hle, if_pos (by simp), Nat.sub_self]
    rfl
  · exact ⟨h.bounds.1, h.bounds.2.1, hn⟩

/-! ## Everything a call can do -/

/-- The outcome of one call on a slot with a budget. -/
inductive Outcome (P : Primitives) (cfg : KeyslotStoreCfg) (index : Int) (m : Nat) (s : Tally)
    (c : Attempt) : Prop
  | unreadable (fails : c.readFails (index.toNat * keyslotTableStride) = true)
      (rc : (attempt P cfg index s.area c).rc = 0)
      (area : (attempt P cfg index s.area c).area = c.on s.area)
      (failed : failedUnwrap P cfg index s.area c = false)
  | locked (full : s.fails = m) (rc : (attempt P cfg index s.area c).rc = keyslotLocked)
      (area : (attempt P cfg index s.area c).area = c.on s.area)
  | wrong (left : s.fails < m)
      (unwrap : (recUnwrapCT P cfg c.pass (slotAt s.area index.toNat)).1 = false)
      (rc : (attempt P cfg index s.area c).rc = 0)
      (area : (attempt P cfg index s.area c).area =
        (c.on s.area).put (index.toNat * keyslotTableStride)
          (setAttempts cfg (slotAt s.area index.toNat) (s.fails + 1)))
      (failed : failedUnwrap P cfg index s.area c = true)
  | expired (left : s.fails < m) (blob : Bytes)
      (unwrap : recUnwrapCT P cfg c.pass (slotAt s.area index.toNat) = (true, blob))
      (expiry : expired c.nowUnix
        (payloadExpiry (afMerge P blob (plenOf cfg) (afOf cfg))) = true)
      (rc : (attempt P cfg index s.area c).rc = 0)
      (area : (attempt P cfg index s.area c).area = c.on s.area)
      (failed : failedUnwrap P cfg index s.area c = false)
  | opened (left : s.fails < m) (rc : (attempt P cfg index s.area c).rc = 1)
      (area : (attempt P cfg index s.area c).area =
        if s.fails ≠ 0 then
          (c.on s.area).put (index.toNat * keyslotTableStride)
            (setAttempts cfg (slotAt s.area index.toNat) 0)
        else c.on s.area)

theorem Budget.outcome (h : Budget cfg index m part s) (c : Attempt) :
    Outcome P cfg index m s c := by
  have hon := h.on c
  cases hr : c.readFails (index.toNat * keyslotTableStride) with
  | true =>
    have hrec : labeledRecAt cfg (c.on s.area) index = none := by
      have hread : (c.on s.area).read (index.toNat * keyslotTableStride) keyslotTableStride =
          none := by
        have hfail : (c.on s.area).readFails (index.toNat * keyslotTableStride) = true := hr
        unfold KeyslotArea.read
        rw [if_neg]
        rintro ⟨-, hok⟩
        rw [hfail] at hok
        exact absurd hok (by decide)
      unfold labeledRecAt
      rw [hread]
      simp
    have hatt := keyslotOpenAtPolicy_of_no_rec P hrec c.pass c.nowUnix
    refine .unreadable hr ?_ ?_ ?_
    · rw [attempt, hatt]
    · rw [attempt, hatt]
    · rw [failedUnwrap, hrec]
      simp
  | false =>
    have hrec : labeledRecAt cfg (c.on s.area) index = some (slotAt s.area index.toNat) :=
      labeledRecAt_of_read hon.inRange hr hon.magicAt
    have hlock : PolicyLocked cfg (slotAt s.area index.toNat) ↔ s.fails = m := by
      unfold PolicyLocked
      rw [h.polMaxA, h.polAttA]
      have hb := h.bounds
      omega
    have hfit : ∀ rec : Bytes, rec.length = keyslotTableStride →
        (c.on s.area).write (index.toNat * keyslotTableStride) rec =
          (true, (c.on s.area).put (index.toNat * keyslotTableStride) rec) := by
      intro rec hlen
      exact KeyslotArea.write_of_ok (by rw [hlen]; exact slot_le_size hon.inRange.2) (hon.writes _)
    have hset : ∀ n, (setAttempts cfg (slotAt s.area index.toNat) n).length =
        keyslotTableStride := by
      intro n
      have hroom := polOff_lt h.cfgOk.polFits h.plen
      unfold setAttempts
      rw [length_patch (by rw [h.slotLength]; simp; omega), h.slotLength]
    by_cases hfull : s.fails = m
    · have hatt := keyslotOpenAtPolicy_locked P h.cfgOk hrec (hlock.mpr hfull) c.pass c.nowUnix
      exact .locked hfull (by rw [attempt, hatt]) (by rw [attempt, hatt])
    have hleft : s.fails < m := Nat.lt_of_le_of_ne h.bounds.2.2 hfull
    have hopen : ¬ PolicyLocked cfg (slotAt s.area index.toNat) := fun hl => hfull (hlock.mp hl)
    cases hu : recUnwrapCT P cfg c.pass (slotAt s.area index.toNat) with
    | mk ok blob =>
      cases ok with
      | false =>
        have hatt := keyslotOpenAtPolicy_fail P h.cfgOk hrec hopen
          (show (recUnwrapCT P cfg c.pass (slotAt s.area index.toNat)).1 = false by rw [hu])
          c.nowUnix
        have hm := h.bounds
        rw [if_pos ⟨h.polMarked, by rw [h.polAttA]; omega⟩, h.polAttA, hfit _ (hset _)] at hatt
        refine .wrong hleft (by rw [hu]) (by rw [attempt, hatt]) (by rw [attempt, hatt]) ?_
        rw [failedUnwrap, attempt, hatt, hrec]
        simp [hu]
      | true =>
        cases hexp : VeraCrypt.expired c.nowUnix
            (payloadExpiry (afMerge P blob (plenOf cfg) (afOf cfg))) with
        | true =>
          have hatt := keyslotOpenAtPolicy_expired P h.cfgOk hrec hopen hu hexp
          refine .expired hleft blob hu hexp (by rw [attempt, hatt]) (by rw [attempt, hatt]) ?_
          rw [failedUnwrap, hrec]
          simp [hu]
        | false =>
          have hatt := keyslotOpenAtPolicy_open P h.cfgOk hrec hopen hu hexp
          refine .opened hleft (by rw [attempt, hatt]) ?_
          rw [attempt, hatt, hfit _ (hset _), h.polAttA]
          simp [h.polMarked]

/-- **A call keeps the budget.** -/
theorem Budget.step (h : Budget cfg index m part s) (c : Attempt) :
    Budget cfg index m part (tallyStep P cfg index s c).1 := by
  have hon := h.on c
  unfold tallyStep
  cases h.outcome (P := P) c with
  | unreadable _ rc area failed =>
    simp only [rc, area, failed]
    exact hon
  | locked _ rc area =>
    have hfailed : failedUnwrap P cfg index s.area c = false := by
      rw [failedUnwrap, rc]
      rfl
    simp only [rc, area, hfailed]
    exact hon
  | wrong left _ rc area failed =>
    simp only [rc, area, failed]
    exact hon.put left
  | expired _ _ _ _ rc area failed =>
    simp only [rc, area, failed]
    exact hon
  | opened _ rc area =>
    simp only [rc, area, if_true]
    by_cases hz : s.fails = 0
    · rw [hz] at hon
      rw [if_neg (fun hne => hne hz)]
      exact hon
    · rw [if_pos hz]
      exact hon.put (Nat.zero_le m)

/-! ## Where a run starts -/

/-- A successful policy add leaves a slot with a full budget, which opens under the passphrase
    it was made with. -/
theorem budget_of_keyslotAddPolicy {area : KeyslotArea} {pass vmk : Bytes} {flags : Int}
    {expiryUnix : UInt64} {maxAttempts : Int} {env : AddEnv}
    (hwrites : ∀ off, area.writeFault off = none) (hmax : 0 < maxAttempts)
    (hadd : 0 ≤ (keyslotAddPolicy P cfg area pass flags vmk expiryUnix maxAttempts env).1) :
    ∃ part blob,
      Budget cfg (keyslotAddPolicy P cfg area pass flags vmk expiryUnix maxAttempts env).1
        maxAttempts.toNat part
        { area := (keyslotAddPolicy P cfg area pass flags vmk expiryUnix maxAttempts env).2
          fails := 0 } ∧
      maxAttempts ≤ 255 ∧ addPolicyOk cfg maxAttempts ∧
      (∀ rec, sealedPart cfg rec = part → recUnwrapCT P cfg pass rec = (true, blob)) ∧
      afMerge P blob (plenOf cfg) (afOf cfg) = addPolicyPayload cfg flags vmk expiryUnix env := by
  by_cases hok : addPolicyOk cfg maxAttempts
  swap
  · rw [keyslotAddPolicy_of_not_ok P hok] at hadd
    simp at hadd
  obtain ⟨blob, hblob, hmerge, heq⟩ :=
    keyslotAddPolicy_eq P area hok pass flags vmk expiryUnix env
  rw [heq] at hadd ⊢
  by_cases hfree : labeledFirstFree cfg area < 0
  · rw [if_pos hfree] at hadd
    simp at hadd
  rw [if_neg hfree] at hadd ⊢
  obtain ⟨hpol, hl, haddOk, hfits, -, hle⟩ := id hok
  have hfit := recFits_labeled hl haddOk.2.2
  have hsalt : (addSalt env).length = keyslotSaltSize := RandStream.length_bytes _ _ _
  have hfill : (addFill env).length = keyslotTableStride := RandStream.length_bytes _ _ _
  have hct := ctOf_pos haddOk
  have hoff := toNat_ksPolOff hct
  have hroom := polOff_lt hfits hct
  have hlen0 : (labeledRecord P cfg pass (addSalt env) (addFill env) blob).length =
      keyslotTableStride := length_labeledRecord P hfit hsalt hfill hblob
  have hmagic0 : slice (labeledRecord P cfg pass (addSalt env) (addFill env) blob) 0 4 = ksMagic :=
    magic_labeledRecord P hfit hsalt hfill hblob
  have hunwrap0 : recUnwrapCT P cfg pass
      (labeledRecord P cfg pass (addSalt env) (addFill env) blob) = (true, blob) :=
    recUnwrapCT_labeledRecord P hfit hsalt hfill hblob
  generalize labeledRecord P cfg pass (addSalt env) (addFill env) blob = rec0
    at hadd hlen0 hmagic0 hunwrap0 ⊢
  have htrail : (ksPolMark ++ [UInt8.ofNat maxAttempts.toNat, 0]).length = 4 := rfl
  have hle0 : (ksPolOff cfg).toNat ≤ rec0.length := by omega
  obtain ⟨hlen, hsealed⟩ := patch_trailer hfits hct htrail hlen0
  obtain ⟨hput, hslot⟩ := putRecord_firstFree hlen (Int.not_lt.mp hfree) hadd
  have hin := labeledFirstFree_lt (Int.not_lt.mp hfree)
  have hsize := KeyslotArea.size_put (a := area) (by rw [hlen]; exact slot_le_size hin)
  rw [hput]
  refine ⟨sealedPart cfg rec0, blob, ⟨⟨hpol, hl, haddOk.2.2, hfits⟩, hct, hwrites,
    ⟨Int.not_lt.mp hfree, ?_⟩, ?_, ?_, ?_, ?_, ?_, ?_⟩, hle, hok, fun rec hrec => ?_, hmerge⟩
  · rw [nSlots_congr hsize]
    exact hin
  · rw [hslot, hsealed]
  · rw [magic_sealedPart, hmagic0]
  · rw [hslot]
    exact slice_patch_within (k := 0) hle0 (by rw [htrail]; decide)
  · rw [hslot, getElem?_patch hle0, if_pos (by rw [htrail]; omega), Nat.add_sub_cancel_left]
    rfl
  · rw [hslot, getElem?_patch hle0, if_pos (by rw [htrail]; omega), Nat.add_sub_cancel_left]
    rfl
  · exact ⟨by omega, by omega, Nat.zero_le _⟩
  · rw [recUnwrapCT_congr P pass hrec, hunwrap0]

/-! ## Runs -/

theorem Budget.run (h : Budget cfg index m part s) (calls : List Attempt) :
    Budget cfg index m part (Lib.run (tallyStep P cfg index) s calls).1 := by
  have hall : ∀ (s : Tally) (calls : List Attempt),
      Along (tallyStep P cfg index) (fun _ _ => True) s calls := by
    intro s calls
    induction calls generalizing s with
    | nil => trivial
    | cons c calls ih => exact ⟨trivial, ih _⟩
  exact run_invariant (Q := fun _ _ => True) (fun s c hs _ => hs.step c) h (hall s calls)

/-- A slot whose budget is spent stays as it is. -/
theorem Budget.locked_run (h : Budget cfg index m part s) (hfull : s.fails = m)
    (calls : List Attempt) :
    (Lib.run (tallyStep P cfg index) s calls).1.fails = m ∧
      (Lib.run (tallyStep P cfg index) s calls).1.area.bytes = s.area.bytes := by
  induction calls generalizing s with
  | nil => exact ⟨hfull, rfl⟩
  | cons c calls ih =>
    have hstep := h.step (P := P) c
    have hstay : (tallyStep P cfg index s c).1.fails = m ∧
        (tallyStep P cfg index s c).1.area.bytes = s.area.bytes := by
      unfold tallyStep
      cases h.outcome (P := P) c with
      | unreadable _ rc area failed => simp [rc, area, failed, hfull, Attempt.on]
      | locked _ rc area =>
        have hfailed : failedUnwrap P cfg index s.area c = false := by
          rw [failedUnwrap, rc]
          rfl
        simp [rc, area, hfailed, hfull, Attempt.on, keyslotLocked]
      | wrong left => omega
      | expired left => omega
      | opened left => omega
    obtain ⟨h1, h2⟩ := ih hstep hstay.1
    exact ⟨h1, h2.trans hstay.2⟩

/-- **The lockout holds along every run of calls** on a slot that a policy add made with
    `m > 0` attempts: at most `m` unwraps fail after the last success; once `m` have, every later
    call that reads the slot answers `KEYSLOT_LOCKED` and changes nothing; before that the right
    passphrase opens the slot until it expires, and every success clears the counter. -/
theorem openAtPolicy_lockout (P : Primitives) (cfg : KeyslotStoreCfg) (area : KeyslotArea)
    (pass : Bytes) (flags : Int) (vmk : Bytes) (expiryUnix : UInt64) (m : Int) (env : AddEnv)
    (hm : 0 < m) (hwrites : ∀ off, area.writeFault off = none)
    (hvmk : vmk.length = cfg.vmkLen.toNat)
    (hadd : 0 ≤ (keyslotAddPolicy P cfg area pass flags vmk expiryUnix m env).1)
    (calls : List Attempt) :
    let index := (keyslotAddPolicy P cfg area pass flags vmk expiryUnix m env).1
    let start : Tally :=
      { area := (keyslotAddPolicy P cfg area pass flags vmk expiryUnix m env).2, fails := 0 }
    let s := (run (tallyStep P cfg index) start calls).1
    s.fails ≤ m ∧ storedAttempts cfg index s.area = s.fails ∧
    (s.fails = m → ∀ (later : List Attempt) (c : Attempt),
      let s' := (run (tallyStep P cfg index) s later).1
      s'.area.bytes = s.area.bytes ∧
      (attempt P cfg index s'.area c).area.bytes = s.area.bytes ∧
      (c.readFails (index.toNat * keyslotTableStride) = false →
        (attempt P cfg index s'.area c).rc = keyslotLocked)) ∧
    (s.fails < m → ∀ c : Attempt,
      ((attempt P cfg index s.area c).rc = 1 →
        storedAttempts cfg index (attempt P cfg index s.area c).area = 0) ∧
      (c.readFails (index.toNat * keyslotTableStride) = false → c.pass = pass →
        expired c.nowUnix expiryUnix.toNat = false →
        (attempt P cfg index s.area c).rc = 1)) := by
  intro index start s
  obtain ⟨part, blob, hbudget, hle, hok, hunwrap, hmerge⟩ :=
    budget_of_keyslotAddPolicy hwrites hm hadd
  have hrun : Budget cfg index m.toNat part s := hbudget.run calls
  have hbounds := hrun.bounds
  have hexpiry : payloadExpiry (afMerge P blob (plenOf cfg) (afOf cfg)) = expiryUnix.toNat := by
    rw [hmerge, addPolicyPayload_eq hok.2.2.1 hok.1 hvmk, payloadExpiry, slice, List.drop_one,
      List.tail_cons, List.take_left' (length_beBytes _ _), beNat_beBytes]
    exact Nat.mod_eq_of_lt expiryUnix.toNat_lt
  refine ⟨by omega, hrun.polAttA, fun hfull later c => ?_, fun hleft c => ⟨fun hrc => ?_, ?_⟩⟩
  · have hfull' : s.fails = m.toNat := by omega
    obtain ⟨hfails, hbytes⟩ := hrun.locked_run (P := P) hfull' later
    have hlater := hrun.run (P := P) later
    generalize (run (tallyStep P cfg index) s later).1 = s' at hfails hbytes hlater ⊢
    refine ⟨hbytes, ?_⟩
    cases hlater.outcome (P := P) c with
    | unreadable fails rc area =>
      rw [area]
      exact ⟨hbytes, fun hr => by rw [fails] at hr; exact absurd hr (by decide)⟩
    | locked _ rc area =>
      rw [area]
      exact ⟨hbytes, fun _ => rc⟩
    | wrong left => omega
    | expired left => omega
    | opened left => omega
  · have hstep := hrun.step (P := P) c
    have hzero : (tallyStep P cfg index s c).1.fails = 0 := by
      unfold tallyStep
      simp only [hrc, if_true]
    have hstored := hstep.polAttA
    rw [hzero] at hstored
    exact hstored
  · intro hr hpass hexp
    have hu := hunwrap _ hrun.sealed
    rw [← hpass] at hu
    cases hrun.outcome (P := P) c with
    | unreadable fails =>
      rw [fails] at hr
      exact absurd hr (by decide)
    | locked full => omega
    | wrong _ unwrap =>
      rw [hu] at unwrap
      simp at unwrap
    | expired _ blob' unwrap expiry =>
      rw [hu] at unwrap
      obtain rfl : blob = blob' := congrArg Prod.snd unwrap
      rw [hexpiry, hexp] at expiry
      exact absurd expiry (by decide)
    | opened _ rc => exact rc

/-- Two attempts, and a first call with the wrong passphrase: one is left. -/
theorem openAtPolicy_lockout_demo :
    storedAttempts (.demo .header 1) 0
      (run (tallyStep .demo (.demo .header 1) 0)
        { area := (keyslotAddPolicy .demo (.demo .header 1) (.blank 1024) [1] 0 [7] 0 2 .demo).2
          fails := 0 }
        [{ pass := [2], nowUnix := 0, readFails := fun _ => false }]).1.area = 1 := by
  have hadd : (keyslotAddPolicy .demo (.demo .header 1) (.blank 1024) [1] 0 [7] 0 2 .demo).1 = 0 := by
    decide +kernel
  have h := (openAtPolicy_lockout .demo (.demo .header 1) (.blank 1024) [1] 0 [7] 0 2 .demo
    (by decide) (fun _ => rfl) rfl (by rw [hadd])
    [{ pass := [2], nowUnix := 0, readFails := fun _ => false }]).2.1
  rw [hadd] at h
  rw [h]
  decide +kernel

end

end VeraCrypt
