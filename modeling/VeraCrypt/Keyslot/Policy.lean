import VeraCrypt.Keyslot.StoreSpec

/-!
# Per-slot policy (`Common/KeyslotStore.c`, the policy half)

A policy slot carries an expiry in its encrypted payload, `flags[1] || expiryUnix[8] || vmk`,
and an attempt counter in clear in the pad behind its tag, `"KP" || maxAttempts || attempts`.
This file is the three functions that write and read them, and what each of them does: the
record an add puts (`keyslotAddPolicy_eq`), and the outcome of the indexed open on a slot it
can read (`keyslotOpenAtPolicy_of_rec`).
-/

set_option autoImplicit false

namespace VeraCrypt

open Lib

/-! ## The functions -/

/-- `KEYSLOT_LOCKED` -/
def keyslotLocked : Int := -2

/-- "KP" -/
def ksPolMark : Bytes := [0x4b, 0x50]

def ksPolOff (cfg : KeyslotStoreCfg) : Int := lCt + ctOf cfg + keyslotTagSize

def ksPolFits (cfg : KeyslotStoreCfg) : Prop := ksPolOff cfg + 4 ≤ keyslotTableStride

instance (cfg : KeyslotStoreCfg) : Decidable (ksPolFits cfg) :=
  inferInstanceAs (Decidable (_ ≤ _))

/-- `KeyslotAddPolicy` -/
def keyslotAddPolicy (P : Primitives) (cfg : KeyslotStoreCfg) (area : KeyslotArea)
    (pass : Bytes) (flags : Int) (vmk : Bytes) (expiryUnix : UInt64) (maxAttempts : Int)
    (env : AddEnv) : Int × KeyslotArea :=
  if cfg.policy = 0 ∨ isLabeled cfg.backend = false then (-1, area)
  else if cfg.vmkLen ≤ 0 ∨ cfg.vmkLen > keyslotVmkMax ∨ ¬ recFits cfg ∨ ¬ ksPolFits cfg then
    (-1, area)
  else if maxAttempts < 0 ∨ maxAttempts > 255 then (-1, area)
  else
    let payload := payloadBuf env
      (flagByte flags :: (beBytes ksExpiryBytes expiryUnix.toNat ++ slice vmk 0 cfg.vmkLen.toNat))
    match afSplit P (slice payload 0 (plenOf cfg).toNat) (plenOf cfg) (afOf cfg)
        (addStripes env) with
    | none => (-1, area)
    | some blob =>
      let idx := labeledFirstFree cfg area
      if idx < 0 then (-1, area)
      else
        let rec0 := labeledRecord P cfg pass (addSalt env) (addFill env) blob
        putRecord area idx
          (patch rec0 (ksPolOff cfg).toNat (ksPolMark ++ [UInt8.ofNat maxAttempts.toNat, 0]))

/-- `nowUnix != 0 && expiry != 0 && nowUnix > expiry` -/
def expired (nowUnix : UInt64) (expiry : Nat) : Bool :=
  nowUnix.toNat != 0 && expiry != 0 && decide (nowUnix.toNat > expiry)

def payloadExpiry (payload : Bytes) : Nat := beNat (slice payload 1 ksExpiryBytes)

/-- The VMK and flags of a merged payload in the `flags[1] || expiryUnix[8] || vmk` layout. -/
def openedV2 (cfg : KeyslotStoreCfg) (payload : Bytes) : Opened :=
  { vmk := slice payload (1 + ksExpiryBytes) cfg.vmkLen.toNat, flags := payload.headD 0 }

structure OpenedPolicy where
  opened : Opened
  expiry : Nat
  deriving DecidableEq, Repr

/-- `KeyslotOpenPolicy`, over the same scan as `KeyslotOpen`. -/
def keyslotOpenPolicy (P : Primitives) (cfg : KeyslotStoreCfg) (area : KeyslotArea)
    (pass : Bytes) (nowUnix : UInt64) : Option OpenedPolicy :=
  if cfg.policy = 0 ∨ isLabeled cfg.backend = false ∨ ¬ recFits cfg then none
  else
    let scan := ksScanLabeled P cfg area pass
    if scan.1 then
      let payload := afMerge P scan.2 (plenOf cfg) (afOf cfg)
      if expired nowUnix (payloadExpiry payload) then none
      else some { opened := openedV2 cfg payload, expiry := payloadExpiry payload }
    else none

/-- The outcome of `KeyslotOpenAtPolicy`: the return code, the outputs it has written (`none`
    for one it has not), and the area afterwards. -/
structure OpenAtPolicy where
  rc : Int
  opened : Option Opened
  attempts : Option Nat
  maxAttempts : Option Nat
  area : KeyslotArea

/-- Whether the pad of a record begins with the trailer's marker. -/
def polMarked (cfg : KeyslotStoreCfg) (rec : Bytes) : Bool :=
  decide (slice rec (ksPolOff cfg).toNat 2 = ksPolMark)

def polMaxA (cfg : KeyslotStoreCfg) (rec : Bytes) : Nat :=
  if polMarked cfg rec then (rec.getD ((ksPolOff cfg).toNat + 2) 0).toNat else 0

def polAttA (cfg : KeyslotStoreCfg) (rec : Bytes) : Nat :=
  if polMarked cfg rec then (rec.getD ((ksPolOff cfg).toNat + 3) 0).toNat else 0

/-- The record with its attempt counter set. -/
def setAttempts (cfg : KeyslotStoreCfg) (rec : Bytes) (n : Nat) : Bytes :=
  patch rec ((ksPolOff cfg).toNat + 3) [UInt8.ofNat n]

/-- `KeyslotOpenAtPolicy` -/
def keyslotOpenAtPolicy (P : Primitives) (cfg : KeyslotStoreCfg) (area : KeyslotArea)
    (index : Int) (pass : Bytes) (nowUnix : UInt64) : OpenAtPolicy :=
  let refused : OpenAtPolicy :=
    { rc := 0, opened := none, attempts := none, maxAttempts := none, area := area }
  if cfg.policy = 0 ∨ isLabeled cfg.backend = false ∨ ¬ recFits cfg ∨ ¬ ksPolFits cfg then refused
  else
    match labeledRecAt cfg area index with
    | none => refused
    | some rec =>
      let off := index.toNat * keyslotTableStride
      let maxA := polMaxA cfg rec
      let attA := polAttA cfg rec
      if maxA > 0 ∧ attA ≥ maxA then
        { refused with rc := keyslotLocked, attempts := some attA, maxAttempts := some maxA }
      else
        let u := recUnwrapCT P cfg pass rec
        if u.1 = false then
          if polMarked cfg rec ∧ attA < 255 then
            { refused with
              attempts := some (attA + 1), maxAttempts := some maxA
              area := (area.write off (setAttempts cfg rec (attA + 1))).2 }
          else { refused with attempts := some attA, maxAttempts := some maxA }
        else
          let payload := afMerge P u.2 (plenOf cfg) (afOf cfg)
          if expired nowUnix (payloadExpiry payload) then
            { refused with attempts := some attA, maxAttempts := some maxA }
          else if polMarked cfg rec ∧ attA ≠ 0 then
            { rc := 1, opened := some (openedV2 cfg payload), attempts := some 0
              maxAttempts := some maxA, area := (area.write off (setAttempts cfg rec 0)).2 }
          else
            { rc := 1, opened := some (openedV2 cfg payload), attempts := some attA
              maxAttempts := some maxA, area := area }

/-! ## What an add puts -/

section
variable (P : Primitives) {cfg : KeyslotStoreCfg} {area : KeyslotArea}

/-- The payload a policy add splits. -/
def addPolicyPayload (cfg : KeyslotStoreCfg) (flags : Int) (vmk : Bytes) (expiryUnix : UInt64)
    (env : AddEnv) : Bytes :=
  slice (payloadBuf env (flagByte flags ::
    (beBytes ksExpiryBytes expiryUnix.toNat ++ slice vmk 0 cfg.vmkLen.toNat))) 0 (plenOf cfg).toNat

theorem length_policyFields (hok : addOk cfg) (flags : Int) (vmk : Bytes) (expiryUnix : UInt64) :
    (flagByte flags :: (beBytes ksExpiryBytes expiryUnix.toNat ++
      slice vmk 0 cfg.vmkLen.toNat)).length ≤ ksPayloadMax := by
  have hv := length_slice_le vmk 0 cfg.vmkLen.toNat
  have hmax : cfg.vmkLen ≤ 512 := hok.2.1
  simp only [List.length_cons, List.length_append, length_beBytes, ksExpiryBytes, ksPayloadMax]
  omega

theorem addPolicyPayload_eq {flags : Int} {vmk : Bytes} {expiryUnix : UInt64} {env : AddEnv}
    (hok : addOk cfg) (hpol : cfg.policy ≠ 0) (hvmk : vmk.length = cfg.vmkLen.toNat) :
    addPolicyPayload cfg flags vmk expiryUnix env =
      flagByte flags :: (beBytes ksExpiryBytes expiryUnix.toNat ++ vmk) := by
  have hv : slice vmk 0 cfg.vmkLen.toNat = vmk := slice_all (by omega)
  have hplen : (plenOf cfg).toNat =
      (flagByte flags :: (beBytes ksExpiryBytes expiryUnix.toNat ++ vmk)).length := by
    have hpos := hok.1
    simp only [List.length_cons, List.length_append, length_beBytes, hvmk, plenOf, if_pos hpol,
      ksExpiryBytes]
    omega
  unfold addPolicyPayload payloadBuf
  rw [hv, hplen]
  exact slice_patch_self (Nat.zero_le _) rfl

/-- What a policy add checks before it does anything. -/
def addPolicyOk (cfg : KeyslotStoreCfg) (maxAttempts : Int) : Prop :=
  cfg.policy ≠ 0 ∧ isLabeled cfg.backend = true ∧ addOk cfg ∧ ksPolFits cfg ∧
    0 ≤ maxAttempts ∧ maxAttempts ≤ 255

/-- **A policy add** puts the record of a plain add with the trailer in its pad, or nothing. -/
theorem keyslotAddPolicy_eq (area : KeyslotArea) {maxAttempts : Int} (h : addPolicyOk cfg maxAttempts) (pass : Bytes)
    (flags : Int) (vmk : Bytes) (expiryUnix : UInt64) (env : AddEnv) :
    ∃ blob, blob.length = (ctOf cfg).toNat ∧
      afMerge P blob (plenOf cfg) (afOf cfg) = addPolicyPayload cfg flags vmk expiryUnix env ∧
      keyslotAddPolicy P cfg area pass flags vmk expiryUnix maxAttempts env =
        if labeledFirstFree cfg area < 0 then (-1, area)
        else putRecord area (labeledFirstFree cfg area)
          (patch (labeledRecord P cfg pass (addSalt env) (addFill env) blob) (ksPolOff cfg).toNat
            (ksPolMark ++ [UInt8.ofNat maxAttempts.toNat, 0])) := by
  obtain ⟨hpol, hl, hok, hfits, hlo, hhi⟩ := h
  have hlen : (addPolicyPayload cfg flags vmk expiryUnix env).length = (plenOf cfg).toNat :=
    length_payload hok (length_policyFields hok flags vmk expiryUnix)
  obtain ⟨blob, hs, hblob, hm⟩ := exists_blob P hok hlen (addStripes env)
  refine ⟨blob, hblob, hm, ?_⟩
  have hrefused : ¬ (cfg.vmkLen ≤ 0 ∨ cfg.vmkLen > keyslotVmkMax ∨ ¬ recFits cfg ∨
      ¬ ksPolFits cfg) := by
    rintro (h | h | h | h)
    · exact absurd hok.1 (Int.not_lt.mpr h)
    · exact absurd hok.2.1 (Int.not_le.mpr h)
    · exact h hok.2.2
    · exact h hfits
  unfold keyslotAddPolicy
  rw [if_neg (by simp [hpol, hl]), if_neg hrefused, if_neg (by omega)]
  unfold addPolicyPayload at hs
  simp only [hs]

theorem keyslotAddPolicy_of_not_ok {maxAttempts : Int} (h : ¬ addPolicyOk cfg maxAttempts)
    (pass : Bytes) (flags : Int) (vmk : Bytes) (expiryUnix : UInt64) (env : AddEnv) :
    keyslotAddPolicy P cfg area pass flags vmk expiryUnix maxAttempts env = (-1, area) := by
  unfold keyslotAddPolicy
  by_cases h1 : cfg.policy = 0 ∨ isLabeled cfg.backend = false
  · rw [if_pos h1]
  by_cases h2 : cfg.vmkLen ≤ 0 ∨ cfg.vmkLen > keyslotVmkMax ∨ ¬ recFits cfg ∨ ¬ ksPolFits cfg
  · rw [if_neg h1, if_pos h2]
  by_cases h3 : maxAttempts < 0 ∨ maxAttempts > 255
  · rw [if_neg h1, if_neg h2, if_pos h3]
  exfalso
  apply h
  simp only [not_or, Int.not_le, Int.not_lt, not_not, Bool.not_eq_false] at h1 h2 h3
  exact ⟨h1.1, h1.2, ⟨h2.1, by omega, h2.2.2.1⟩, h2.2.2.2, h3.1, by omega⟩

theorem toNat_ksPolOff (h : 0 < ctOf cfg) : (ksPolOff cfg).toNat = sealedLen cfg := by
  unfold ksPolOff sealedLen
  omega

theorem polOff_lt (hfit : ksPolFits cfg) (h : 0 < ctOf cfg) :
    (ksPolOff cfg).toNat + 4 ≤ keyslotTableStride := by
  unfold ksPolFits at hfit
  unfold ksPolOff at hfit ⊢
  omega

theorem ctOf_pos (hok : addOk cfg) : 0 < ctOf cfg := by
  have hs := one_le_afOf cfg
  exact Int.mul_pos (plenOf_pos hok).1 (by omega)

/-- The trailer lies behind the sealed part of a record. -/
theorem patch_trailer {rec0 trailer : Bytes} (hfits : ksPolFits cfg) (hct : 0 < ctOf cfg)
    (htrail : trailer.length = 4) (hlen : rec0.length = keyslotTableStride) :
    (patch rec0 (ksPolOff cfg).toNat trailer).length = keyslotTableStride ∧
      sealedPart cfg (patch rec0 (ksPolOff cfg).toNat trailer) = sealedPart cfg rec0 := by
  have hroom := polOff_lt hfits hct
  have hoff := toNat_ksPolOff hct
  exact ⟨by rw [length_patch (by omega), hlen],
    slice_patch_disjoint (by omega) (Or.inl (by omega))⟩

/-! ## What the opens answer -/

/-- What an enabled policy configuration satisfies: the checks all three functions make. -/
structure PolicyCfg (cfg : KeyslotStoreCfg) : Prop where
  policy : cfg.policy ≠ 0
  labeled : isLabeled cfg.backend = true
  fits : recFits cfg
  polFits : ksPolFits cfg

def PolicyLocked (cfg : KeyslotStoreCfg) (rec : Bytes) : Prop :=
  polMaxA cfg rec > 0 ∧ polAttA cfg rec ≥ polMaxA cfg rec

instance (cfg : KeyslotStoreCfg) (rec : Bytes) : Decidable (PolicyLocked cfg rec) :=
  inferInstanceAs (Decidable (_ ∧ _))

/-- What a policy open makes of an unwrapped blob: nothing, where it has expired. -/
def policyOffer (cfg : KeyslotStoreCfg) (nowUnix : UInt64) (blob : Bytes) : Option OpenedPolicy :=
  let payload := afMerge P blob (plenOf cfg) (afOf cfg)
  if expired nowUnix (payloadExpiry payload) then none
  else some { opened := openedV2 cfg payload, expiry := payloadExpiry payload }

theorem keyslotOpenPolicy_eq (h : cfg.policy ≠ 0) (hl : isLabeled cfg.backend = true)
    (hfit : recFits cfg) (pass : Bytes) (nowUnix : UInt64) :
    keyslotOpenPolicy P cfg area pass nowUnix =
      (firstMatch P cfg area pass).bind (policyOffer P cfg nowUnix) := by
  unfold keyslotOpenPolicy
  rw [if_neg (by simp [h, hl, hfit])]
  simp only [ksScanLabeled_eq P (recFits_labeled hl hfit)]
  cases firstMatch P cfg area pass <;> rfl

variable {index : Int} {rec : Bytes}

theorem keyslotOpenAtPolicy_of_no_rec (h : labeledRecAt cfg area index = none) (pass : Bytes)
    (nowUnix : UInt64) :
    keyslotOpenAtPolicy P cfg area index pass nowUnix =
      { rc := 0, opened := none, attempts := none, maxAttempts := none, area := area } := by
  unfold keyslotOpenAtPolicy
  rw [h]
  simp

/-- A locked slot is refused whatever the passphrase, and nothing is written. -/
theorem keyslotOpenAtPolicy_locked (hcfg : PolicyCfg cfg)
    (hrec : labeledRecAt cfg area index = some rec) (hlock : PolicyLocked cfg rec) (pass : Bytes)
    (nowUnix : UInt64) :
    keyslotOpenAtPolicy P cfg area index pass nowUnix =
      { rc := keyslotLocked, opened := none, attempts := some (polAttA cfg rec)
        maxAttempts := some (polMaxA cfg rec), area := area } := by
  unfold PolicyLocked at hlock
  unfold keyslotOpenAtPolicy
  simp only [hcfg.policy, hcfg.labeled, hcfg.fits, hcfg.polFits, hrec, not_true_eq_false, or_self,
    Bool.true_eq_false, if_false]
  rw [if_pos hlock]

/-- A failed unwrap of an open slot is counted, as far as a byte counts. -/
theorem keyslotOpenAtPolicy_fail (hcfg : PolicyCfg cfg)
    (hrec : labeledRecAt cfg area index = some rec) (hlock : ¬ PolicyLocked cfg rec) {pass : Bytes}
    (hu : (recUnwrapCT P cfg pass rec).1 = false) (nowUnix : UInt64) :
    keyslotOpenAtPolicy P cfg area index pass nowUnix =
      if polMarked cfg rec ∧ polAttA cfg rec < 255 then
        { rc := 0, opened := none, attempts := some (polAttA cfg rec + 1)
          maxAttempts := some (polMaxA cfg rec)
          area := (area.write (index.toNat * keyslotTableStride)
            (setAttempts cfg rec (polAttA cfg rec + 1))).2 }
      else
        { rc := 0, opened := none, attempts := some (polAttA cfg rec)
          maxAttempts := some (polMaxA cfg rec), area := area } := by
  unfold PolicyLocked at hlock
  unfold keyslotOpenAtPolicy
  simp only [hcfg.policy, hcfg.labeled, hcfg.fits, hcfg.polFits, hrec, not_true_eq_false, or_self,
    Bool.true_eq_false, if_false, hu, if_true]
  rw [if_neg hlock]

/-- The right passphrase of an expired slot is refused, and nothing is written. -/
theorem keyslotOpenAtPolicy_expired (hcfg : PolicyCfg cfg)
    (hrec : labeledRecAt cfg area index = some rec) (hlock : ¬ PolicyLocked cfg rec)
    {pass blob : Bytes} {nowUnix : UInt64} (hu : recUnwrapCT P cfg pass rec = (true, blob))
    (hexp : expired nowUnix
      (payloadExpiry (afMerge P blob (plenOf cfg) (afOf cfg))) = true) :
    keyslotOpenAtPolicy P cfg area index pass nowUnix =
      { rc := 0, opened := none, attempts := some (polAttA cfg rec)
        maxAttempts := some (polMaxA cfg rec), area := area } := by
  unfold PolicyLocked at hlock
  unfold keyslotOpenAtPolicy
  simp only [hcfg.policy, hcfg.labeled, hcfg.fits, hcfg.polFits, hrec, not_true_eq_false, or_self,
    Bool.true_eq_false, if_false, hu, hexp, if_true]
  rw [if_neg hlock]

/-- The right passphrase of an unexpired slot opens it, and clears the counter. -/
theorem keyslotOpenAtPolicy_open (hcfg : PolicyCfg cfg)
    (hrec : labeledRecAt cfg area index = some rec) (hlock : ¬ PolicyLocked cfg rec)
    {pass blob : Bytes} {nowUnix : UInt64} (hu : recUnwrapCT P cfg pass rec = (true, blob))
    (hexp : expired nowUnix
      (payloadExpiry (afMerge P blob (plenOf cfg) (afOf cfg))) = false) :
    keyslotOpenAtPolicy P cfg area index pass nowUnix =
      { rc := 1
        opened := some (openedV2 cfg (afMerge P blob (plenOf cfg) (afOf cfg)))
        attempts := some 0, maxAttempts := some (polMaxA cfg rec)
        area := if polMarked cfg rec ∧ polAttA cfg rec ≠ 0 then
            (area.write (index.toNat * keyslotTableStride) (setAttempts cfg rec 0)).2
          else area } := by
  unfold PolicyLocked at hlock
  unfold keyslotOpenAtPolicy
  simp only [hcfg.policy, hcfg.labeled, hcfg.fits, hcfg.polFits, hrec, not_true_eq_false, or_self,
    Bool.true_eq_false, if_false, hu, hexp]
  rw [if_neg hlock, if_neg Bool.false_ne_true]
  by_cases hm : polMarked cfg rec = true ∧ polAttA cfg rec ≠ 0
  · rw [if_pos hm, if_pos hm]
  · rw [if_neg hm, if_neg hm]
    have hz : polAttA cfg rec = 0 := by
      by_contra hne
      cases hmark : polMarked cfg rec with
      | true => exact hm ⟨hmark, hne⟩
      | false => exact hne (by simp [polAttA, hmark])
    rw [hz]

end

end VeraCrypt
