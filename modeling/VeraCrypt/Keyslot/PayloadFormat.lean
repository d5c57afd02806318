import VeraCrypt.Keyslot.Parallel
import VeraCrypt.Keyslot.Policy

/-!
# Two payload formats, two writers, five readers

A v1 payload is `flags || vmk`, a policy payload `flags || expiry || vmk`. Which of the two a
record holds depends on the function that wrote it; how long it is depends on `cfg.policy`;
where the VMK is looked for depends on the function that reads it. The three do not consult
each other, so under a policy configuration a plain add read by a policy open, and a policy
add read by a plain open, meet eight bytes apart.

The argument has two halves. A reader that takes slot `i` hands out the bytes of the slot's
payload at its own offset (`Reader.read_eq`), and an add leaves its own payload in its slot
(`Writer.slotPayload_enrol`). What is left is a statement about two lists
(`FormatsAgree`), and it is exact (`enrolled_vmk_iff`).
-/

set_option autoImplicit false

namespace VeraCrypt

open Lib

/-! ## The payload of a slot -/

section
variable (P : Primitives) (cfg : KeyslotStoreCfg)

/-- The merged payload of a record, where it unwraps under the passphrase. -/
def slotPayload (pass rec : Bytes) : Option Bytes :=
  let u := if isLabeled cfg.backend then recUnwrapCT P cfg pass rec else bareUnwrapCT P cfg pass rec
  if u.1 then some (afMerge P u.2 (plenOf cfg) (afOf cfg)) else none

/-- The length of a record of the backend, without the pad. -/
def recLen : Nat :=
  (if isLabeled cfg.backend then lCt else bCt) + (ctOf cfg).toNat + keyslotTagSize

variable {cfg}

theorem bareUnwrapCT_congr {rec rec' : Bytes} (pass : Bytes)
    (h : slice rec 0 (bCt + (ctOf cfg).toNat + keyslotTagSize) =
      slice rec' 0 (bCt + (ctOf cfg).toNat + keyslotTagSize)) :
    bareUnwrapCT P cfg pass rec = bareUnwrapCT P cfg pass rec' := by
  have hpart : ∀ k m, k + m ≤ bCt + (ctOf cfg).toNat + keyslotTagSize →
      slice rec k m = slice rec' k m := by
    intro k m hkm
    have h1 : slice (slice rec 0 (bCt + (ctOf cfg).toNat + keyslotTagSize)) k m =
        slice rec (0 + k) m := slice_slice hkm
    have h2 : slice (slice rec' 0 (bCt + (ctOf cfg).toNat + keyslotTagSize)) k m =
        slice rec' (0 + k) m := slice_slice hkm
    rw [Nat.zero_add] at h1 h2
    rw [← h1, h, h2]
  unfold bareUnwrapCT
  simp only
  rw [hpart 0 keyslotSaltSize (by simp only [bCt, keyslotSaltSize]; omega),
    hpart bCt (ctOf cfg).toNat (by omega),
    hpart (bCt + (ctOf cfg).toNat) keyslotTagSize (Nat.le_refl _)]

theorem slotPayload_congr {rec rec' : Bytes} (pass : Bytes)
    (h : slice rec 0 (recLen cfg) = slice rec' 0 (recLen cfg)) :
    slotPayload P cfg pass rec = slotPayload P cfg pass rec' := by
  unfold recLen at h
  unfold slotPayload
  cases hl : isLabeled cfg.backend with
  | true =>
    rw [hl, if_pos rfl] at h
    simp only [if_true, recUnwrapCT_congr P pass h]
  | false =>
    rw [hl, if_neg (by decide)] at h
    simp only [Bool.false_eq_true, if_false, bareUnwrapCT_congr P pass h]

/-! ### Bare records -/

variable {pass salt fill blob : Bytes}

theorem length_bareRecord (hfit : bCt + (ctOf cfg).toNat + keyslotTagSize ≤ keyslotTableStride)
    (hsalt : salt.length = keyslotSaltSize) (hfill : fill.length = keyslotTableStride)
    (hblob : blob.length = (ctOf cfg).toNat) :
    (bareRecord P cfg pass salt fill blob).length = keyslotTableStride := by
  simp only [bCt, keyslotTagSize, keyslotSaltSize] at *
  unfold bareRecord
  simp only [bCt]
  have h1 : (patch fill 0 salt).length = fill.length := length_patch (by omega)
  have h2 : (patch (patch fill 0 salt) 32 (keyslotWrap P cfg.kdf cfg.cost pass salt
      (ksBareDomain ++ salt) blob).1).length = fill.length := by
    rw [length_patch (by rw [h1, length_keyslotWrap_ct]; omega), h1]
  rw [length_patch (by rw [h2, length_keyslotWrap_tag]; simp only [keyslotTagSize]; omega), h2,
    hfill]

/-- **A bare record unwraps under the passphrase it was written with, to what was put in it.** -/
theorem bareUnwrapCT_bareRecord
    (hfit : bCt + (ctOf cfg).toNat + keyslotTagSize ≤ keyslotTableStride)
    (hsalt : salt.length = keyslotSaltSize) (hfill : fill.length = keyslotTableStride)
    (hblob : blob.length = (ctOf cfg).toNat) :
    bareUnwrapCT P cfg pass (bareRecord P cfg pass salt fill blob) = (true, blob) := by
  have hw1 := length_keyslotWrap_ct P cfg.kdf cfg.cost pass salt (ksBareDomain ++ salt) blob
  have hw2 := length_keyslotWrap_tag P cfg.kdf cfg.cost pass salt (ksBareDomain ++ salt) blob
  have hunwrap := keyslotUnwrapCT_keyslotWrap P cfg.kdf cfg.cost pass salt (ksBareDomain ++ salt) blob
  unfold bareRecord
  simp only
  generalize keyslotWrap P cfg.kdf cfg.cost pass salt (ksBareDomain ++ salt) blob = w
    at hw1 hw2 hunwrap ⊢
  simp only [bCt, keyslotTagSize, keyslotSaltSize] at *
  have h1 : (patch fill 0 salt).length = fill.length := length_patch (by omega)
  have h2 : (patch (patch fill 0 salt) 32 w.1).length = fill.length := by
    rw [length_patch (by omega), h1]
  generalize hr1 : patch fill 0 salt = r1 at h1 h2 ⊢
  generalize hr2 : patch r1 32 w.1 = r2 at h2 ⊢
  -- the three fields are read back one behind the other
  have hsalt' : slice (patch r2 (32 + (ctOf cfg).toNat) w.2) 0 32 = salt := by
    rw [slice_patch_disjoint (by omega) (Or.inl (by omega)), ← hr2,
      slice_patch_disjoint (by omega) (Or.inl (by omega)), ← hr1]
    exact slice_patch_self (Nat.zero_le _) hsalt.symm
  have hct : slice (patch r2 (32 + (ctOf cfg).toNat) w.2) 32 (ctOf cfg).toNat = w.1 := by
    rw [slice_patch_disjoint (by omega) (Or.inl (by omega)), ← hr2]
    exact slice_patch_self (by omega) (by omega)
  have htag : slice (patch r2 (32 + (ctOf cfg).toNat) w.2) (32 + (ctOf cfg).toNat) 32 = w.2 :=
    slice_patch_self (by omega) hw2.symm
  unfold bareUnwrapCT
  simp only [bCt, keyslotTagSize, keyslotSaltSize]
  rw [hsalt', hct, htag]
  exact hunwrap

end

/-! ## Writers -/

inductive Writer where
  | add
  | addPolicy (expiryUnix : UInt64) (maxAttempts : Int)

section
variable (P : Primitives) (cfg : KeyslotStoreCfg) (area : KeyslotArea)

def Writer.enrol (w : Writer) (pass : Bytes) (flags : Int) (vmk : Bytes) (env : AddEnv) :
    Int × KeyslotArea :=
  match w with
  | .add => keyslotAdd P cfg area pass flags vmk env
  | .addPolicy expiryUnix maxAttempts =>
    keyslotAddPolicy P cfg area pass flags vmk expiryUnix maxAttempts env

def Writer.payload (w : Writer) (flags : Int) (vmk : Bytes) (env : AddEnv) : Bytes :=
  match w with
  | .add => addPayload cfg flags vmk env
  | .addPolicy expiryUnix _ => addPolicyPayload cfg flags vmk expiryUnix env

variable {P cfg area} {pass vmk : Bytes} {flags : Int} {env : AddEnv}

theorem slotPayload_of_labeled {rec blob payload : Bytes} (hl : isLabeled cfg.backend = true)
    (hu : recUnwrapCT P cfg pass rec = (true, blob))
    (hm : afMerge P blob (plenOf cfg) (afOf cfg) = payload) :
    slotPayload P cfg pass rec = some payload := by
  simp only [slotPayload, hl, if_true, hu, hm]

theorem recLen_labeled (hl : isLabeled cfg.backend = true) : recLen cfg = sealedLen cfg := by
  rw [recLen, if_pos hl, sealedLen]

/-- An add that succeeded has left its payload in the slot it answered. -/
theorem slotPayload_keyslotAdd (h : 0 ≤ (keyslotAdd P cfg area pass flags vmk env).1) :
    addOk cfg ∧
      slotPayload P cfg pass (slotAt (keyslotAdd P cfg area pass flags vmk env).2
        (keyslotAdd P cfg area pass flags vmk env).1.toNat) =
      some (addPayload cfg flags vmk env) := by
  by_cases hok : addOk cfg
  swap
  · rw [keyslotAdd_of_not_ok P area hok] at h
    simp at h
  refine ⟨hok, ?_⟩
  have hsalt : (addSalt env).length = keyslotSaltSize := RandStream.length_bytes _ _ _
  have hfill : (addFill env).length = keyslotTableStride := RandStream.length_bytes _ _ _
  cases hl : isLabeled cfg.backend with
  | true =>
    obtain ⟨blob, hblob, hmerge, heq⟩ := keyslotAdd_labeled P area hok hl pass flags vmk env
    rw [heq] at h ⊢
    by_cases hfree : labeledFirstFree cfg area < 0
    · rw [if_pos hfree] at h
      simp at h
    rw [if_neg hfree] at h ⊢
    have hfit := recFits_labeled hl hok.2.2
    obtain ⟨hput, hslot⟩ := putRecord_firstFree
      (length_labeledRecord P hfit hsalt hfill hblob) (Int.not_lt.mp hfree) h
    rw [hput, hslot]
    exact slotPayload_of_labeled hl (recUnwrapCT_labeledRecord P hfit hsalt hfill hblob) hmerge
  | false =>
    obtain ⟨blob, hblob, hmerge, heq⟩ := keyslotAdd_bare P area hok hl pass flags vmk env
    rw [heq] at h ⊢
    have hfit := recFits_bare hl hok.2.2
    have hlen : (bareRecord P cfg pass (addSalt env) (addFill env) blob).length =
        keyslotTableStride := length_bareRecord P hfit hsalt hfill hblob
    obtain ⟨hidx, hput, hsz⟩ := putRecord_nonneg h
    have hbound := toInt32_lt (deniableIndex P cfg area pass)
    generalize toInt32 (deniableIndex P cfg area pass) = idx at hidx hput hsz hbound ⊢
    have hoff : slotOff idx = idx.toNat * keyslotTableStride := by
      have hcast : idx = (idx.toNat : Int) := (Int.toNat_of_nonneg hidx).symm
      rw [hcast, slotOff_ofNat (by omega), Int.toNat_natCast]
    rw [hoff] at hput hsz
    rw [hput]
    have hslot := slotAt_put_of_fits hsz hlen
    rw [hslot]
    unfold slotPayload
    rw [hl]
    simp only [Bool.false_eq_true, if_false, bareUnwrapCT_bareRecord P hfit hsalt hfill hblob,
      if_true, hmerge]

theorem slotPayload_keyslotAddPolicy {expiryUnix : UInt64} {maxAttempts : Int}
    (h : 0 ≤ (keyslotAddPolicy P cfg area pass flags vmk expiryUnix maxAttempts env).1) :
    addPolicyOk cfg maxAttempts ∧
      slotPayload P cfg pass
        (slotAt (keyslotAddPolicy P cfg area pass flags vmk expiryUnix maxAttempts env).2
          (keyslotAddPolicy P cfg area pass flags vmk expiryUnix maxAttempts env).1.toNat) =
      some (addPolicyPayload cfg flags vmk expiryUnix env) := by
  by_cases hok : addPolicyOk cfg maxAttempts
  swap
  · rw [keyslotAddPolicy_of_not_ok P hok] at h
    simp at h
  refine ⟨hok, ?_⟩
  obtain ⟨blob, hblob, hmerge, heq⟩ :=
    keyslotAddPolicy_eq P area hok pass flags vmk expiryUnix env
  rw [heq] at h ⊢
  by_cases hfree : labeledFirstFree cfg area < 0
  · rw [if_pos hfree] at h
    simp at h
  rw [if_neg hfree] at h ⊢
  obtain ⟨-, hl, haddOk, hfits, -, -⟩ := hok
  have hsalt : (addSalt env).length = keyslotSaltSize := RandStream.length_bytes _ _ _
  have hfill : (addFill env).length = keyslotTableStride := RandStream.length_bytes _ _ _
  have hfit := recFits_labeled hl haddOk.2.2
  have hlen0 : (labeledRecord P cfg pass (addSalt env) (addFill env) blob).length =
      keyslotTableStride := length_labeledRecord P hfit hsalt hfill hblob
  obtain ⟨hlen, hsealed⟩ := patch_trailer hfits (ctOf_pos haddOk)
    (show (ksPolMark ++ [UInt8.ofNat maxAttempts.toNat, 0]).length = 4 from rfl) hlen0
  obtain ⟨hput, hslot⟩ := putRecord_firstFree hlen (Int.not_lt.mp hfree) h
  rw [hput, hslot]
  refine slotPayload_of_labeled hl ?_ hmerge
  rw [recUnwrapCT_congr P pass hsealed]
  exact recUnwrapCT_labeledRecord P hfit hsalt hfill hblob

theorem Writer.slotPayload_enrol (w : Writer) (h : 0 ≤ (w.enrol P cfg area pass flags vmk env).1) :
    slotPayload P cfg pass (slotAt (w.enrol P cfg area pass flags vmk env).2
        (w.enrol P cfg area pass flags vmk env).1.toNat) = some (w.payload cfg flags vmk env) := by
  cases w with
  | add => exact (slotPayload_keyslotAdd h).2
  | addPolicy expiryUnix maxAttempts => exact (slotPayload_keyslotAddPolicy h).2

end

/-! ## Readers -/

inductive Reader where
  | open
  | openParallel (pf : KeyslotParallelFor) (runsAll : ∀ round n, (pf round n).Perm (List.range n))
      (stack : Nat → UInt8)
  | openAt (index : Int)
  | openPolicy (nowUnix : UInt64)
  | openAtPolicy (index : Int) (nowUnix : UInt64)

/-- Whether the reader is one of the policy opens. -/
def Reader.isPolicy : Reader → Bool
  | .open => false
  | .openParallel _ _ _ => false
  | .openAt _ => false
  | .openPolicy _ => true
  | .openAtPolicy _ _ => true

/-- Where the reader looks for the VMK in a payload. -/
def Reader.vmkOff (r : Reader) : Nat := if r.isPolicy then 1 + ksExpiryBytes else 1

section
variable (P : Primitives) (cfg : KeyslotStoreCfg) (area : KeyslotArea)

/-- The VMK a successful open hands out. -/
def Reader.vmkOut (r : Reader) (pass : Bytes) : Option Bytes :=
  match r with
  | .open => (keyslotOpen P cfg area pass).map (·.vmk)
  | .openParallel pf _ stack => (keyslotOpenParallel P cfg area pass pf stack).map (·.vmk)
  | .openAt index => (keyslotOpenAt P cfg area index pass).map (·.vmk)
  | .openPolicy nowUnix => (keyslotOpenPolicy P cfg area pass nowUnix).map (·.opened.vmk)
  | .openAtPolicy index nowUnix =>
    (keyslotOpenAtPolicy P cfg area index pass nowUnix).opened.map (·.vmk)

/-- The slot a mount open takes: the first that unwraps, or the one the passphrase names. -/
def openSlot (pass : Bytes) : Option Nat :=
  if isLabeled cfg.backend then
    (List.range (nSlots cfg area)).find? fun i => (matchAt P cfg area pass i).isSome
  else some (deniableIndex P cfg area pass)

/-- The slot a reader takes the VMK from. -/
def Reader.slot (r : Reader) (pass : Bytes) : Option Nat :=
  match r with
  | .open => openSlot P cfg area pass
  | .openParallel _ _ _ => openSlot P cfg area pass
  | .openAt index => some index.toNat
  | .openPolicy _ => openSlot P cfg area pass
  | .openAtPolicy index _ => some index.toNat

variable {P cfg area} {pass vmk : Bytes} {i : Nat}

theorem firstMatch_of_openSlot (hl : isLabeled cfg.backend = true)
    (h : openSlot P cfg area pass = some i) :
    ∃ blob, firstMatch P cfg area pass = some blob ∧
      recUnwrapCT P cfg pass (slotAt area i) = (true, blob) := by
  rw [openSlot, if_pos hl, List.find?_range_eq_some] at h
  obtain ⟨hsome, hi, hpre⟩ := h
  obtain ⟨blob, hblob⟩ := Option.isSome_iff_exists.mp hsome
  refine ⟨blob, findSome?_range_eq_some_iff.mpr ⟨i, List.mem_range.mp hi, hblob, fun j hj => ?_⟩,
    (matchAt_eq_some P hblob).2⟩
  simpa using hpre j hj

theorem keyslotOpen_vmk (hvmk : (keyslotOpen P cfg area pass).map (·.vmk) = some vmk)
    (hslot : openSlot P cfg area pass = some i) :
    ∃ payload, slotPayload P cfg pass (slotAt area i) = some payload ∧
      vmk = slice payload 1 cfg.vmkLen.toNat := by
  by_cases hfit : recFits cfg
  swap
  · rw [keyslotOpen_of_not_fits P hfit] at hvmk
    simp at hvmk
  cases hl : isLabeled cfg.backend with
  | true =>
    obtain ⟨blob, hfirst, hu⟩ := firstMatch_of_openSlot hl hslot
    rw [keyslotOpen_labeled P hl hfit, hfirst] at hvmk
    exact ⟨_, slotPayload_of_labeled hl hu rfl, (Option.some.inj hvmk).symm⟩
  | false =>
    rw [openSlot, hl] at hslot
    obtain rfl : deniableIndex P cfg area pass = i := by simpa using hslot
    unfold keyslotOpen ksOpenImpl at hvmk
    rw [if_neg (fun h => h hfit), hl] at hvmk
    simp only [Bool.false_eq_true, if_false] at hvmk
    cases hr : area.read (deniableIndex P cfg area pass * keyslotTableStride)
        keyslotTableStride with
    | none => simp [hr] at hvmk
    | some rec =>
      obtain rfl := read_slot hr
      simp only [hr] at hvmk
      unfold slotPayload
      rw [hl]
      simp only [Bool.false_eq_true, if_false]
      cases hu : (bareUnwrapCT P cfg pass
          (slotAt area (deniableIndex P cfg area pass))).1 with
      | false => simp [hu] at hvmk
      | true =>
        rw [hu, if_pos rfl] at hvmk
        exact ⟨_, rfl, (Option.some.inj hvmk).symm⟩

theorem keyslotOpenAt_vmk {index : Int}
    (hvmk : (keyslotOpenAt P cfg area index pass).map (·.vmk) = some vmk) :
    ∃ payload, slotPayload P cfg pass (slotAt area index.toNat) = some payload ∧
      vmk = slice payload 1 cfg.vmkLen.toNat := by
  unfold keyslotOpenAt at hvmk
  split at hvmk
  · simp at hvmk
  · next hcfg =>
    have hl : isLabeled cfg.backend = true := by
      rw [not_or, Bool.not_eq_false] at hcfg
      exact hcfg.1
    cases hr : labeledRecAt cfg area index with
    | none => simp [hr] at hvmk
    | some rec =>
      obtain rfl := labeledRecAt_eq_some hr
      simp only [hr] at hvmk
      cases hu : recUnwrapCT P cfg pass (slotAt area index.toNat) with
      | mk ok blob =>
        cases ok with
        | false => simp [hu] at hvmk
        | true =>
          simp only [hu, if_true] at hvmk
          exact ⟨_, slotPayload_of_labeled hl hu rfl, (Option.some.inj hvmk).symm⟩

theorem keyslotOpenPolicy_vmk {nowUnix : UInt64}
    (hvmk : (keyslotOpenPolicy P cfg area pass nowUnix).map (·.opened.vmk) = some vmk)
    (hslot : openSlot P cfg area pass = some i) :
    ∃ payload, slotPayload P cfg pass (slotAt area i) = some payload ∧
      vmk = slice payload (1 + ksExpiryBytes) cfg.vmkLen.toNat := by
  by_cases hcfg : cfg.policy = 0 ∨ isLabeled cfg.backend = false ∨ ¬ recFits cfg
  · unfold keyslotOpenPolicy at hvmk
    rw [if_pos hcfg] at hvmk
    simp at hvmk
  rw [not_or, not_or, not_not, Bool.not_eq_false] at hcfg
  obtain ⟨hpol, hl, hfit⟩ := hcfg
  obtain ⟨blob, hfirst, hu⟩ := firstMatch_of_openSlot hl hslot
  rw [keyslotOpenPolicy_eq P hpol hl hfit, hfirst, Option.bind_some, policyOffer] at hvmk
  refine ⟨_, slotPayload_of_labeled hl hu rfl, ?_⟩
  split at hvmk
  · simp at hvmk
  · exact (Option.some.inj hvmk).symm

theorem keyslotOpenAtPolicy_vmk {index : Int} {nowUnix : UInt64}
    (hvmk : (keyslotOpenAtPolicy P cfg area index pass nowUnix).opened.map (·.vmk) = some vmk) :
    ∃ payload, slotPayload P cfg pass (slotAt area index.toNat) = some payload ∧
      vmk = slice payload (1 + ksExpiryBytes) cfg.vmkLen.toNat := by
  by_cases hcfg : cfg.policy = 0 ∨ isLabeled cfg.backend = false ∨ ¬ recFits cfg ∨ ¬ ksPolFits cfg
  · unfold keyslotOpenAtPolicy at hvmk
    rw [if_pos hcfg] at hvmk
    simp at hvmk
  rw [not_or, not_or, not_or, not_not, not_not, Bool.not_eq_false] at hcfg
  have hpc : PolicyCfg cfg := ⟨hcfg.1, hcfg.2.1, hcfg.2.2.1, hcfg.2.2.2⟩
  cases hr : labeledRecAt cfg area index with
  | none =>
    rw [keyslotOpenAtPolicy_of_no_rec P hr] at hvmk
    simp at hvmk
  | some rec =>
    obtain rfl := labeledRecAt_eq_some hr
    by_cases hlock : PolicyLocked cfg (slotAt area index.toNat)
    · rw [keyslotOpenAtPolicy_locked P hpc hr hlock] at hvmk
      simp at hvmk
    cases hu : recUnwrapCT P cfg pass (slotAt area index.toNat) with
    | mk ok blob =>
      cases ok with
      | false =>
        rw [keyslotOpenAtPolicy_fail P hpc hr hlock (by rw [hu])] at hvmk
        split at hvmk <;> simp at hvmk
      | true =>
        refine ⟨_, slotPayload_of_labeled hpc.labeled hu rfl, ?_⟩
        cases hexp : expired nowUnix (payloadExpiry (afMerge P blob (plenOf cfg) (afOf cfg))) with
        | true =>
          rw [keyslotOpenAtPolicy_expired P hpc hr hlock hu hexp] at hvmk
          simp at hvmk
        | false =>
          rw [keyslotOpenAtPolicy_open P hpc hr hlock hu hexp] at hvmk
          exact (Option.some.inj hvmk).symm

/-- **A reader hands out the bytes of its slot's payload at its own offset.** -/
theorem Reader.read_eq (r : Reader) (hvmk : r.vmkOut P cfg area pass = some vmk)
    (hslot : r.slot P cfg area pass = some i) :
    ∃ payload, slotPayload P cfg pass (slotAt area i) = some payload ∧
      vmk = slice payload r.vmkOff cfg.vmkLen.toNat := by
  cases r with
  | «open» => exact keyslotOpen_vmk hvmk hslot
  | openParallel pf runsAll stack =>
    simp only [vmkOut, keyslotOpenParallel_eq_keyslotOpen P runsAll] at hvmk
    exact keyslotOpen_vmk hvmk hslot
  | openAt index =>
    obtain rfl := Option.some.inj hslot
    exact keyslotOpenAt_vmk hvmk
  | openPolicy nowUnix => exact keyslotOpenPolicy_vmk hvmk hslot
  | openAtPolicy index nowUnix =>
    obtain rfl := Option.some.inj hslot
    exact keyslotOpenAtPolicy_vmk hvmk

end

/-! ## The agreement -/

/-- The eight buffer bytes behind the fields of a v1 payload, which a plain add under a policy
    configuration seals without having written them. -/
def staleTail (cfg : KeyslotStoreCfg) (env : AddEnv) : Bytes :=
  (List.range ksExpiryBytes).map fun k => env.stack (1 + cfg.vmkLen.toNat + k)

/-- Writer and reader use one format, or the bytes eight places off happen to be the VMK. -/
def FormatsAgree (cfg : KeyslotStoreCfg) (w : Writer) (r : Reader) (vmk : Bytes)
    (env : AddEnv) : Prop :=
  match w, r.isPolicy with
  | .add, false => True
  | .addPolicy _ _, true => True
  | .add, true => (vmk ++ staleTail cfg env).drop ksExpiryBytes = vmk
  | .addPolicy expiryUnix _, false =>
    (beBytes ksExpiryBytes expiryUnix.toNat ++ vmk).take cfg.vmkLen.toNat = vmk

section
variable {P : Primitives} {cfg : KeyslotStoreCfg} {area : KeyslotArea} {pass vmk : Bytes}
  {flags : Int} {env : AddEnv}

theorem Reader.policy_of_vmkOut {r : Reader} (hr : r.isPolicy = true)
    (hvmk : r.vmkOut P cfg area pass = some vmk) : cfg.policy ≠ 0 := by
  intro hpol
  cases r with
  | «open» => simp [isPolicy] at hr
  | openParallel pf runsAll stack => simp [isPolicy] at hr
  | openAt index => simp [isPolicy] at hr
  | openPolicy nowUnix =>
    unfold vmkOut keyslotOpenPolicy at hvmk
    simp [hpol] at hvmk
  | openAtPolicy index nowUnix =>
    unfold vmkOut keyslotOpenAtPolicy at hvmk
    simp [hpol] at hvmk

/-- The payload a plain add seals under a policy configuration. -/
theorem addPayload_of_policy (hok : addOk cfg) (hpol : cfg.policy ≠ 0)
    (hvmk : vmk.length = cfg.vmkLen.toNat) :
    addPayload cfg flags vmk env = flagByte flags :: (vmk ++ staleTail cfg env) := by
  have hv : slice vmk 0 cfg.vmkLen.toNat = vmk := slice_all (by omega)
  have hmax : cfg.vmkLen ≤ 512 := hok.2.1
  have hpos := hok.1
  have hplen : (plenOf cfg).toNat = vmk.length + 9 := by
    rw [plenOf, if_pos hpol, hvmk, ksExpiryBytes]
    omega
  apply List.ext_getElem?
  intro k
  unfold addPayload payloadBuf
  rw [hv, hplen, getElem?_slice, Nat.zero_add, getElem?_patch (Nat.zero_le _), List.length_cons,
    Nat.sub_zero, Nat.zero_add, ← List.cons_append]
  by_cases hk : k < vmk.length + 9
  swap
  · rw [if_neg hk, List.getElem?_eq_none]
    simp [staleTail, ksExpiryBytes]
    omega
  rw [if_pos hk]
  by_cases hin : k < vmk.length + 1
  · rw [if_pos ⟨Nat.zero_le _, hin⟩, List.getElem?_append_left (by simpa using hin)]
  · -- behind the fields the buffer holds what it held before
    rw [if_neg (by omega), List.getElem?_append_right (by simp; omega), List.length_cons,
      List.getElem?_map, List.getElem?_range (by simp only [ksPayloadMax]; omega), staleTail,
      List.getElem?_map, List.getElem?_range (by simp only [ksExpiryBytes]; omega), Option.map_some,
      Option.map_some, ← hvmk]
    congr 2
    omega

/-! What each kind of reader makes of each writer's payload. -/

theorem slice_addPayload_v1 (hok : addOk cfg) (hvmk : vmk.length = cfg.vmkLen.toNat) :
    slice (addPayload cfg flags vmk env) 1 cfg.vmkLen.toNat = vmk := by
  by_cases hp : cfg.policy = 0
  · rw [addPayload_of_v1 hok hp hvmk, slice, List.drop_one, List.tail_cons,
      List.take_of_length_le (by omega)]
  · rw [addPayload_of_policy hok hp hvmk, slice, List.drop_one, List.tail_cons,
      List.take_left' hvmk]

theorem slice_addPayload_policy (hok : addOk cfg) (hpol : cfg.policy ≠ 0)
    (hvmk : vmk.length = cfg.vmkLen.toNat) :
    slice (addPayload cfg flags vmk env) (1 + ksExpiryBytes) cfg.vmkLen.toNat =
      (vmk ++ staleTail cfg env).drop ksExpiryBytes := by
  have hstale : (staleTail cfg env).length = ksExpiryBytes := by simp [staleTail]
  rw [addPayload_of_policy hok hpol hvmk, slice, Nat.add_comm, List.drop_succ_cons,
    List.take_of_length_le]
  rw [List.length_drop, List.length_append, hstale]
  omega

theorem slice_addPolicyPayload_v1 {expiryUnix : UInt64} (hok : addOk cfg) (hpol : cfg.policy ≠ 0)
    (hvmk : vmk.length = cfg.vmkLen.toNat) :
    slice (addPolicyPayload cfg flags vmk expiryUnix env) 1 cfg.vmkLen.toNat =
      (beBytes ksExpiryBytes expiryUnix.toNat ++ vmk).take cfg.vmkLen.toNat := by
  rw [addPolicyPayload_eq hok hpol hvmk, slice, List.drop_one, List.tail_cons]

theorem slice_addPolicyPayload_policy {expiryUnix : UInt64} (hok : addOk cfg)
    (hpol : cfg.policy ≠ 0) (hvmk : vmk.length = cfg.vmkLen.toNat) :
    slice (addPolicyPayload cfg flags vmk expiryUnix env) (1 + ksExpiryBytes) cfg.vmkLen.toNat =
      vmk := by
  rw [addPolicyPayload_eq hok hpol hvmk, slice, Nat.add_comm, List.drop_succ_cons,
    List.drop_left' (length_beBytes _ _), List.take_of_length_le (by omega)]

theorem Writer.addOk_of_enrol (w : Writer) (h : 0 ≤ (w.enrol P cfg area pass flags vmk env).1) :
    addOk cfg ∧ (w ≠ .add → cfg.policy ≠ 0) := by
  cases w with
  | add => exact ⟨(slotPayload_keyslotAdd h).1, fun hne => absurd rfl hne⟩
  | addPolicy expiryUnix maxAttempts =>
    have hok := (slotPayload_keyslotAddPolicy h).1
    exact ⟨hok.2.2.1, fun _ => hok.1⟩

/-- **An enrolled VMK comes back exactly when writer and reader use one format**, or the bytes
    eight places off happen to be the VMK itself. The slot may have changed hands in between, as
    long as its record is still the enrolled one, and the reader may hold any passphrase that the
    record unwraps under. -/
theorem enrolled_vmk_iff (P : Primitives) (cfg : KeyslotStoreCfg) (area area' : KeyslotArea)
    (w : Writer) (r : Reader) (pass pass' : Bytes) (flags : Int) (vmk vmk' : Bytes) (env : AddEnv)
    (hvmk : vmk.length = cfg.vmkLen.toNat)
    (henrol : 0 ≤ (w.enrol P cfg area pass flags vmk env).1)
    (hkept : slice (slotAt area' (w.enrol P cfg area pass flags vmk env).1.toNat) 0 (recLen cfg) =
      slice (slotAt (w.enrol P cfg area pass flags vmk env).2
        (w.enrol P cfg area pass flags vmk env).1.toNat) 0 (recLen cfg))
    (hideal : (slotPayload P cfg pass'
      (slotAt area' (w.enrol P cfg area pass flags vmk env).1.toNat)).isSome → pass' = pass)
    (hslot : r.slot P cfg area' pass' = some (w.enrol P cfg area pass flags vmk env).1.toNat)
    (hread : r.vmkOut P cfg area' pass' = some vmk') :
    vmk' = vmk ↔ FormatsAgree cfg w r vmk env := by
  obtain ⟨hok, hpolw⟩ := w.addOk_of_enrol henrol
  obtain ⟨payload, hpay, rfl⟩ := r.read_eq hread hslot
  obtain rfl := hideal (by rw [hpay]; rfl)
  rw [slotPayload_congr P pass' hkept, w.slotPayload_enrol henrol] at hpay
  obtain rfl := Option.some.inj hpay
  unfold FormatsAgree Reader.vmkOff
  cases hr : r.isPolicy with
  | false =>
    simp only [Bool.false_eq_true, if_false]
    cases w with
    | add => simp only [Writer.payload, slice_addPayload_v1 hok hvmk]
    | addPolicy expiryUnix maxAttempts =>
      rw [Writer.payload, slice_addPolicyPayload_v1 hok (hpolw (by simp)) hvmk]
  | true =>
    have hpol := Reader.policy_of_vmkOut hr hread
    simp only [if_true]
    cases w with
    | add => rw [Writer.payload, slice_addPayload_policy hok hpol hvmk]
    | addPolicy expiryUnix maxAttempts =>
      simp only [Writer.payload, slice_addPolicyPayload_policy hok hpol hvmk]

/-- A plain add of the VMK `[7]` under a policy configuration. -/
def plainUnderPolicy : KeyslotArea :=
  (Writer.add.enrol .demo (.demo .header 1) (.blank 1024) [1] 0 [7] .demo).2

theorem enrolled_vmk_demo :
    ([7] : Bytes) = [7] ↔ FormatsAgree (.demo .header 1) .add .open [7] .demo := by
  have hidx : (Writer.add.enrol .demo (.demo .header 1) (.blank 1024) [1] 0 [7] .demo).1 = 0 := by
    decide +kernel
  exact enrolled_vmk_iff .demo (.demo .header 1) (.blank 1024) plainUnderPolicy .add .open [1] [1] 0
    [7] [7] .demo rfl (by rw [hidx]) rfl (fun _ => rfl) (by rw [hidx]; decide +kernel)
    (by decide +kernel)

/-- The policy open of that slot succeeds, and hands out a byte the add never wrote. -/
theorem enrolled_vmk_shifted :
    (Writer.add.enrol .demo (.demo .header 1) (.blank 1024) [1] 0 [7] .demo).1 = 0 ∧
      (Reader.openPolicy 0).vmkOut .demo (.demo .header 1) plainUnderPolicy [1] = some [0] ∧
      ([0] : Bytes) ≠ [7] := by
  refine ⟨by decide +kernel, by decide +kernel, by decide⟩

end

end VeraCrypt
