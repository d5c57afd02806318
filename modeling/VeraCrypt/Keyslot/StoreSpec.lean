import VeraCrypt.Keyslot.Store
import VeraCrypt.Lib.SlotTable

/-!
# What the store's functions do

One lemma for each function of `Keyslot/Store.lean`, so that nothing after this file unfolds
them. Reads and writes are stated by slot (`slotAt`); the scans by what each slot offers
(`matchAt`) and the first slot that offers something; an add by the record it puts and the
slot it picks.

The bytes an unwrap looks at are the header, the ciphertext and the tag of a record. They are
its *sealed part*, and `recUnwrapCT` is a function of it (`recUnwrapCT_congr`): what an open
answers survives every change to the pad behind.
-/

set_option autoImplicit false

namespace VeraCrypt

open Lib

/-! ## Reads and writes -/

namespace KeyslotArea

variable {a a' : KeyslotArea} {off n i j : Nat} {buf : Bytes}

theorem read_eq_some (h : a.read off n = some buf) :
    buf = slice a.bytes off n ∧ off + n ≤ a.size := by
  unfold read at h
  split at h
  · next hok => exact ⟨(Option.some.inj h).symm, hok.1⟩
  · simp at h

theorem read_of_ok (h : off + n ≤ a.size) (hr : a.readFails off = false) :
    a.read off n = some (slice a.bytes off n) := if_pos ⟨h, hr⟩

theorem write_true (h : a.write off buf = (true, a')) :
    off + buf.length ≤ a.size ∧ a' = a.put off buf := by
  unfold write at h
  split at h
  · next hfit =>
    split at h
    · exact ⟨hfit, (congrArg Prod.snd h).symm⟩
    · simp at h
  · simp at h

theorem write_of_ok (h : off + buf.length ≤ a.size) (hw : a.writeFault off = none) :
    a.write off buf = (true, a.put off buf) := by
  unfold write
  rw [if_pos h, hw]

theorem size_put (h : off + buf.length ≤ a.size) : (a.put off buf).size = a.size :=
  length_patch h

end KeyslotArea

section
variable {cfg : KeyslotStoreCfg} {area : KeyslotArea} {i j : Nat}

theorem nSlots_le (cfg : KeyslotStoreCfg) (area : KeyslotArea) :
    nSlots cfg area ≤ area.size / keyslotTableStride := by
  simp only [nSlots]
  generalize (if cfg.maxSlots > 0 then cfg.maxSlots.toNat else _) = byCfg
  split
  · exact Nat.le_refl _
  · next h => exact Nat.le_of_not_lt h

theorem slot_le_size (h : i < nSlots cfg area) :
    i * keyslotTableStride + keyslotTableStride ≤ area.size := by
  have hdiv : i < area.size / keyslotTableStride := Nat.lt_of_lt_of_le h (nSlots_le cfg area)
  have hmul := Nat.div_mul_le_self area.size keyslotTableStride
  have hstep := Nat.mul_le_mul_right keyslotTableStride hdiv
  rw [Nat.succ_mul] at hstep
  omega

theorem nSlots_congr {area' : KeyslotArea} (h : area'.size = area.size) :
    nSlots cfg area' = nSlots cfg area := by
  simp only [nSlots, h]

theorem length_slotAt (h : i < nSlots cfg area) :
    (slotAt area i).length = keyslotTableStride :=
  length_slice (slot_le_size h)

theorem slotAt_put_of_fits {rec : Bytes} (hsz : i * keyslotTableStride + rec.length ≤ area.size)
    (hrec : rec.length = keyslotTableStride) :
    slotAt (area.put (i * keyslotTableStride) rec) i = rec :=
  slice_patch_self (Nat.le_trans (Nat.le_add_right _ _) hsz) hrec.symm

theorem slotAt_put_self {rec : Bytes} (hi : i < nSlots cfg area)
    (hrec : rec.length = keyslotTableStride) :
    slotAt (area.put (i * keyslotTableStride) rec) i = rec :=
  slotAt_put_of_fits (by rw [hrec]; exact slot_le_size hi) hrec

/-- Writing into one slot leaves the others as they are, however much is written. -/
theorem slotAt_put_other {buf : Bytes} (hi : i < nSlots cfg area)
    (hbuf : buf.length ≤ keyslotTableStride) (hij : i ≠ j) :
    slotAt (area.put (i * keyslotTableStride) buf) j = slotAt area j := by
  have hle : i * keyslotTableStride ≤ area.bytes.length := by
    have hsz := slot_le_size hi
    exact Nat.le_trans (Nat.le_add_right _ _) hsz
  refine slice_patch_disjoint hle ?_
  rcases Nat.lt_or_gt_of_ne hij with hlt | hgt
  · right
    have hmul := Nat.mul_le_mul_right keyslotTableStride hlt
    rw [Nat.succ_mul] at hmul
    exact Nat.le_trans (Nat.add_le_add_left hbuf _) hmul
  · left
    have hmul := Nat.mul_le_mul_right keyslotTableStride hgt
    rwa [Nat.succ_mul] at hmul

theorem slotAt_put_ne {rec : Bytes} (hi : i < nSlots cfg area)
    (hrec : rec.length = keyslotTableStride) (hij : i ≠ j) :
    slotAt (area.put (i * keyslotTableStride) rec) j = slotAt area j :=
  slotAt_put_other hi (Nat.le_of_eq hrec) hij

/-- The first bytes of a slot are those read at its offset. -/
theorem read_slot_front {n : Nat} {buf : Bytes} (hn : n ≤ keyslotTableStride)
    (h : area.read (i * keyslotTableStride) n = some buf) : buf = slice (slotAt area i) 0 n := by
  have hs : slice (slotAt area i) 0 n = slice area.bytes (i * keyslotTableStride + 0) n :=
    slice_slice (by omega)
  rw [(KeyslotArea.read_eq_some h).1, hs, Nat.add_zero]

theorem read_slot {buf : Bytes}
    (h : area.read (i * keyslotTableStride) keyslotTableStride = some buf) :
    buf = slotAt area i := (KeyslotArea.read_eq_some h).1

theorem slotOff_ofNat (h : (i : Int) < 2 ^ 31) : slotOff i = i * keyslotTableStride := by
  unfold slotOff keyslotTableStride
  omega

theorem toInt32_of_lt {v : Nat} (h : v < 2 ^ 31) : toInt32 v = v := by
  unfold toInt32
  rw [Int.bmod_def]
  omega

theorem toInt32_lt (v : Nat) : toInt32 v < 2 ^ 31 := by
  unfold toInt32
  rw [Int.bmod_def]
  omega

end

/-! ## The sealed part of a record -/

section
variable (P : Primitives) (cfg : KeyslotStoreCfg)

def sealedLen : Nat := lCt + (ctOf cfg).toNat + keyslotTagSize

def sealedPart (rec : Bytes) : Bytes := slice rec 0 (sealedLen cfg)

variable {cfg}

theorem slice_sealedPart {rec : Bytes} {k m : Nat} (h : k + m ≤ sealedLen cfg) :
    slice (sealedPart cfg rec) k m = slice rec k m := by
  have hs : slice (slice rec 0 (sealedLen cfg)) k m = slice rec (0 + k) m := slice_slice h
  rwa [Nat.zero_add] at hs

theorem magic_sealedPart (rec : Bytes) : slice (sealedPart cfg rec) 0 4 = slice rec 0 4 :=
  slice_sealedPart (by unfold sealedLen lCt; omega)

/-- An unwrap reads nothing of a record but its sealed part. -/
theorem recUnwrapCT_congr {rec rec' : Bytes} (pass : Bytes)
    (h : sealedPart cfg rec = sealedPart cfg rec') :
    recUnwrapCT P cfg pass rec = recUnwrapCT P cfg pass rec' := by
  have hpart : ∀ k m, k + m ≤ sealedLen cfg → slice rec k m = slice rec' k m := by
    intro k m hkm
    rw [← @slice_sealedPart cfg rec k m hkm, h, slice_sealedPart hkm]
  unfold recUnwrapCT
  simp only
  rw [hpart lSalt keyslotSaltSize (by simp only [sealedLen, lSalt, lCt, keyslotSaltSize]; omega),
    hpart 0 lAadLen (by simp only [sealedLen, lAadLen, lCt]; omega),
    hpart lCt (ctOf cfg).toNat (by unfold sealedLen; omega),
    hpart (lCt + (ctOf cfg).toNat) keyslotTagSize (Nat.le_refl _)]

end

/-! ## What a freshly built record holds -/

section
variable (P : Primitives) {cfg : KeyslotStoreCfg} {pass salt fill blob : Bytes}

theorem length_labeledHeader (hsalt : salt.length = keyslotSaltSize) :
    (labeledHeader cfg salt).length = lCt := by
  unfold labeledHeader
  simp only [List.length_append, length_leBytes, hsalt]
  split <;> simp [ksMagic, keyslotSaltSize, lCt]

theorem slice_labeledHeader_magic (salt : Bytes) :
    slice (labeledHeader cfg salt) 0 4 = ksMagic := by
  unfold labeledHeader
  simp only [List.append_assoc]
  rw [slice_append_left (by simp [ksMagic]), slice_all (by simp [ksMagic])]

theorem slice_labeledHeader_salt (hsalt : salt.length = keyslotSaltSize) :
    slice (labeledHeader cfg salt) lSalt keyslotSaltSize = salt := by
  have hfront : (ksMagic ++ [if afOf cfg ≥ 2 then 2 else 1, 1] ++
      (if afOf cfg ≥ 2 then leBytes 2 (afOf cfg).toNat else [0, 0]) ++
      leBytes 4 cfg.cost.toNat ++ leBytes 2 (plenOf cfg).toNat : Bytes).length = lSalt := by
    simp only [List.length_append, length_leBytes]
    split <;> simp [ksMagic, lSalt]
  unfold labeledHeader
  rw [slice_append_right (by rw [hfront]), hfront, Nat.sub_self, slice_all (by rw [hsalt])]

/-- The header, the ciphertext and the tag of a record land end to end. -/
theorem labeledRecord_eq (hfit : lCt + (ctOf cfg).toNat + keyslotTagSize ≤ keyslotTableStride)
    (hsalt : salt.length = keyslotSaltSize) (hfill : fill.length = keyslotTableStride)
    (hblob : blob.length = (ctOf cfg).toNat) :
    labeledRecord P cfg pass salt fill blob =
      patch fill 0 (labeledHeader cfg salt ++
        (keyslotWrap P cfg.kdf cfg.cost pass salt (labeledHeader cfg salt) blob).1 ++
        (keyslotWrap P cfg.kdf cfg.cost pass salt (labeledHeader cfg salt) blob).2) := by
  have hh : (labeledHeader cfg salt).length = lCt := length_labeledHeader hsalt
  have haad : slice (patch fill 0 (labeledHeader cfg salt)) 0 lAadLen = labeledHeader cfg salt :=
    slice_patch_self (Nat.zero_le _) hh.symm
  unfold labeledRecord
  simp only [haad]
  have hroom : lCt + blob.length ≤ (patch fill 0 (labeledHeader cfg salt)).length := by
    rw [length_patch (by omega)]
    omega
  rw [patch_patch_adjacent (by rw [length_keyslotWrap_ct]; exact hroom)
      (by rw [length_keyslotWrap_ct, hblob]),
    patch_patch_adjacent (by omega) (by omega), List.append_assoc]

theorem length_labeledRecord (hfit : lCt + (ctOf cfg).toNat + keyslotTagSize ≤ keyslotTableStride)
    (hsalt : salt.length = keyslotSaltSize) (hfill : fill.length = keyslotTableStride)
    (hblob : blob.length = (ctOf cfg).toNat) :
    (labeledRecord P cfg pass salt fill blob).length = keyslotTableStride := by
  have hh : (labeledHeader cfg salt).length = lCt := length_labeledHeader hsalt
  rw [labeledRecord_eq P hfit hsalt hfill hblob, length_patch, hfill]
  simp only [List.length_append, length_keyslotWrap_ct, length_keyslotWrap_tag]
  omega

theorem sealedPart_labeledRecord
    (hfit : lCt + (ctOf cfg).toNat + keyslotTagSize ≤ keyslotTableStride)
    (hsalt : salt.length = keyslotSaltSize) (hfill : fill.length = keyslotTableStride)
    (hblob : blob.length = (ctOf cfg).toNat) :
    sealedPart cfg (labeledRecord P cfg pass salt fill blob) =
      labeledHeader cfg salt ++
        (keyslotWrap P cfg.kdf cfg.cost pass salt (labeledHeader cfg salt) blob).1 ++
        (keyslotWrap P cfg.kdf cfg.cost pass salt (labeledHeader cfg salt) blob).2 := by
  have hh : (labeledHeader cfg salt).length = lCt := length_labeledHeader hsalt
  rw [labeledRecord_eq P hfit hsalt hfill hblob]
  refine slice_patch_self (Nat.zero_le _) ?_
  simp only [List.length_append, length_keyslotWrap_ct, length_keyslotWrap_tag, sealedLen]
  omega

theorem magic_labeledRecord
    (hfit : lCt + (ctOf cfg).toNat + keyslotTagSize ≤ keyslotTableStride)
    (hsalt : salt.length = keyslotSaltSize) (hfill : fill.length = keyslotTableStride)
    (hblob : blob.length = (ctOf cfg).toNat) :
    slice (labeledRecord P cfg pass salt fill blob) 0 4 = ksMagic := by
  have hh : (labeledHeader cfg salt).length = lCt := length_labeledHeader hsalt
  rw [← @magic_sealedPart cfg, sealedPart_labeledRecord P hfit hsalt hfill hblob,
    List.append_assoc, slice_append_left (by rw [hh]; decide), slice_labeledHeader_magic]

/-- An unwrap of a record by its three fields. -/
theorem recUnwrapCT_of_sealedPart {rec hdr ct tag : Bytes} (pass : Bytes)
    (h : sealedPart cfg rec = hdr ++ ct ++ tag) (hhdr : hdr.length = lCt)
    (hct : ct.length = (ctOf cfg).toNat) (htag : tag.length = keyslotTagSize) :
    recUnwrapCT P cfg pass rec =
      keyslotUnwrapCT P cfg.kdf cfg.cost pass (slice hdr lSalt keyslotSaltSize) hdr ct tag := by
  have hpart : ∀ k m, k + m ≤ sealedLen cfg → slice rec k m = slice (hdr ++ (ct ++ tag)) k m := by
    intro k m hkm
    rw [← @slice_sealedPart cfg rec k m hkm, h, List.append_assoc]
  have hsalt : slice rec lSalt keyslotSaltSize = slice hdr lSalt keyslotSaltSize := by
    rw [hpart _ _ (by simp only [sealedLen, lSalt, lCt, keyslotSaltSize]; omega),
      slice_append_left (by rw [hhdr]; decide)]
  have haad : slice rec 0 lAadLen = hdr := by
    rw [hpart _ _ (by simp only [sealedLen, lAadLen, lCt]; omega),
      slice_append_left (by rw [hhdr]; decide), slice_all (by rw [hhdr]; decide)]
  have hmid : slice rec lCt (ctOf cfg).toNat = ct := by
    rw [hpart _ _ (by unfold sealedLen; omega), slice_append_right (by omega), hhdr,
      Nat.sub_self, slice_append_left (by omega), slice_all (by omega)]
  have hend : slice rec (lCt + (ctOf cfg).toNat) keyslotTagSize = tag := by
    rw [hpart _ _ (Nat.le_refl _), slice_append_right (by omega), hhdr, Nat.add_sub_cancel_left,
      slice_append_right (by omega), hct, Nat.sub_self, slice_all (by omega)]
  simp only [recUnwrapCT, hsalt, haad, hmid, hend]

/-- **A record unwraps under the passphrase it was written with, to what was put in it.** -/
theorem recUnwrapCT_labeledRecord
    (hfit : lCt + (ctOf cfg).toNat + keyslotTagSize ≤ keyslotTableStride)
    (hsalt : salt.length = keyslotSaltSize) (hfill : fill.length = keyslotTableStride)
    (hblob : blob.length = (ctOf cfg).toNat) :
    recUnwrapCT P cfg pass (labeledRecord P cfg pass salt fill blob) = (true, blob) := by
  rw [recUnwrapCT_of_sealedPart P pass (sealedPart_labeledRecord P hfit hsalt hfill hblob)
      (length_labeledHeader hsalt) (by rw [length_keyslotWrap_ct, hblob])
      (length_keyslotWrap_tag _ _ _ _ _ _ _),
    slice_labeledHeader_salt hsalt, keyslotUnwrapCT_keyslotWrap]

end

/-! ## Add -/

section
variable (P : Primitives) {cfg : KeyslotStoreCfg} {area : KeyslotArea}

def marked (area : KeyslotArea) (i : Nat) : Bool := decide (slice (slotAt area i) 0 4 = ksMagic)

/-- The lowest slot without the magic. -/
def lowestUnmarked (cfg : KeyslotStoreCfg) (area : KeyslotArea) : Option Nat :=
  (List.range (nSlots cfg area)).find? fun i => !marked area i

theorem slice_read_magic {i : Nat} {hdr : Bytes}
    (h : area.read (i * keyslotTableStride) lCt = some hdr) :
    slice hdr 0 4 = slice (slotAt area i) 0 4 := by
  rw [read_slot_front (by decide) h]
  exact slice_slice (by decide)

theorem firstFreeFrom_nonneg {l : List Nat} (h : 0 ≤ firstFreeFrom area l) :
    ∃ i ∈ l, l.find? (fun i => !marked area i) = some i ∧ firstFreeFrom area l = toInt32 i := by
  induction l with
  | nil => simp [firstFreeFrom] at h
  | cons i l ih =>
    unfold firstFreeFrom at h ⊢
    cases hr : area.read (i * keyslotTableStride) lCt with
    | none => simp [hr] at h
    | some hdr =>
      simp only [hr, slice_read_magic hr] at h ⊢
      by_cases hm : slice (slotAt area i) 0 4 = ksMagic
      · rw [if_pos hm] at h ⊢
        obtain ⟨j, hj, hfind, heq⟩ := ih h
        exact ⟨j, List.mem_cons_of_mem _ hj, by simp [marked, hm, ← hfind], heq⟩
      · rw [if_neg hm]
        exact ⟨i, List.mem_cons_self, by simp [marked, hm], rfl⟩

/-- The slot an add picks is a slot of the table, even where the conversion of its index to
    `int` does not keep it. -/
theorem labeledFirstFree_lt (h : 0 ≤ labeledFirstFree cfg area) :
    (labeledFirstFree cfg area).toNat < nSlots cfg area := by
  obtain ⟨i, hi, -, heq⟩ := firstFreeFrom_nonneg h
  have hle : toInt32 i ≤ i := by
    unfold toInt32
    rw [Int.bmod_def]
    omega
  have hlt := List.mem_range.mp hi
  have hidx : labeledFirstFree cfg area = toInt32 i := heq
  omega

theorem firstFreeFrom_of_reads {l : List Nat}
    (hr : ∀ i ∈ l, i * keyslotTableStride + lCt ≤ area.size)
    (hok : ∀ off, area.readFails off = false) :
    firstFreeFrom area l =
      match l.find? (fun i => !marked area i) with
      | some i => toInt32 i
      | none => -1 := by
  induction l with
  | nil => rfl
  | cons i l ih =>
    have hread : area.read (i * keyslotTableStride) lCt = some _ :=
      KeyslotArea.read_of_ok (hr i (by simp)) (hok _)
    unfold firstFreeFrom
    simp only [hread, slice_read_magic hread]
    by_cases hm : slice (slotAt area i) 0 4 = ksMagic
    · rw [if_pos hm, ih (fun j hj => hr j (by simp [hj]))]
      simp [marked, hm]
    · rw [if_neg hm]
      simp [marked, hm]

theorem labeledFirstFree_of_reads (hok : ∀ off, area.readFails off = false) :
    labeledFirstFree cfg area =
      match lowestUnmarked cfg area with
      | some i => toInt32 i
      | none => -1 := by
  refine firstFreeFrom_of_reads (fun i hi => ?_) hok
  have hsz := slot_le_size (List.mem_range.mp hi)
  exact Nat.le_trans (Nat.add_le_add_left (by decide) _) hsz

/-- What every add checks before it does anything. -/
def addOk (cfg : KeyslotStoreCfg) : Prop :=
  0 < cfg.vmkLen ∧ cfg.vmkLen ≤ keyslotVmkMax ∧ recFits cfg

instance (cfg : KeyslotStoreCfg) : Decidable (addOk cfg) :=
  inferInstanceAs (Decidable (_ ∧ _ ∧ _))

theorem refused_iff (cfg : KeyslotStoreCfg) :
    (cfg.vmkLen ≤ 0 ∨ cfg.vmkLen > keyslotVmkMax ∨ ¬ recFits cfg) ↔ ¬ addOk cfg := by
  unfold addOk
  rw [not_and_or, not_and_or, Int.not_lt, Int.not_le]

/-- The payload a v1 add splits: where the configuration asks for the longer policy payload,
    its last bytes are whatever the buffer held. -/
def addPayload (cfg : KeyslotStoreCfg) (flags : Int) (vmk : Bytes) (env : AddEnv) : Bytes :=
  slice (payloadBuf env (flagByte flags :: slice vmk 0 cfg.vmkLen.toNat)) 0 (plenOf cfg).toNat

theorem plenOf_pos (h : addOk cfg) : 0 < plenOf cfg ∧ plenOf cfg ≤ ksPayloadMax := by
  obtain ⟨hpos, hmax, -⟩ := h
  unfold plenOf ksPayloadMax ksExpiryBytes keyslotVmkMax at *
  split <;> omega

theorem one_le_afOf (cfg : KeyslotStoreCfg) : 1 ≤ afOf cfg := by
  unfold afOf
  split <;> omega

theorem toNat_ctOf (h : addOk cfg) :
    (ctOf cfg).toNat = (afOf cfg).toNat * (plenOf cfg).toNat := by
  have hp := (plenOf_pos h).1
  have ha := one_le_afOf cfg
  rw [ctOf, Int.toNat_mul (by omega) (by omega), Nat.mul_comm]

theorem recFits_labeled (hl : isLabeled cfg.backend = true) (h : recFits cfg) :
    lCt + (ctOf cfg).toNat + keyslotTagSize ≤ keyslotTableStride := by
  unfold recFits at h
  rw [if_pos hl] at h
  simp only [lCt, keyslotTagSize, keyslotTableStride] at *
  omega

theorem recFits_bare (hl : isLabeled cfg.backend = false) (h : recFits cfg) :
    bCt + (ctOf cfg).toNat + keyslotTagSize ≤ keyslotTableStride := by
  unfold recFits at h
  rw [if_neg (by simp [hl])] at h
  simp only [bCt, keyslotTagSize, keyslotTableStride] at *
  omega

theorem length_payloadBuf {env : AddEnv} {fields : Bytes} (h : fields.length ≤ ksPayloadMax) :
    (payloadBuf env fields).length = ksPayloadMax := by
  unfold payloadBuf
  rw [length_patch (by simpa using h)]
  simp

theorem length_payload {env : AddEnv} {fields : Bytes} (hok : addOk cfg)
    (h : fields.length ≤ ksPayloadMax) :
    (slice (payloadBuf env fields) 0 (plenOf cfg).toNat).length = (plenOf cfg).toNat := by
  have hp := plenOf_pos hok
  refine length_slice ?_
  rw [length_payloadBuf h]
  omega

theorem length_addPayload (hok : addOk cfg) (flags : Int) (vmk : Bytes) (env : AddEnv) :
    (addPayload cfg flags vmk env).length = (plenOf cfg).toNat := by
  refine length_payload hok ?_
  have hv := length_slice_le vmk 0 cfg.vmkLen.toNat
  have hmax : cfg.vmkLen ≤ 512 := hok.2.1
  rw [List.length_cons]
  simp only [ksPayloadMax]
  omega

theorem addPayload_of_v1 {flags : Int} {vmk : Bytes} {env : AddEnv} (hok : addOk cfg)
    (hpol : cfg.policy = 0) (hvmk : vmk.length = cfg.vmkLen.toNat) :
    addPayload cfg flags vmk env = flagByte flags :: vmk := by
  have hplen : (plenOf cfg).toNat = (flagByte flags :: vmk).length := by
    have hpos := hok.1
    rw [List.length_cons, hvmk, plenOf, if_neg (by simp [hpol])]
    omega
  have hv : slice vmk 0 cfg.vmkLen.toNat = vmk := slice_all (by omega)
  unfold addPayload payloadBuf
  rw [hv, hplen]
  exact slice_patch_self (Nat.zero_le _) rfl

/-- A checked configuration always splits, and merging gives the payload back. -/
theorem exists_blob (hok : addOk cfg) {payload : Bytes}
    (hlen : payload.length = (plenOf cfg).toNat) (rng : RandStream) :
    ∃ blob, afSplit P payload (plenOf cfg) (afOf cfg) rng = some blob ∧
      blob.length = (ctOf cfg).toNat ∧ afMerge P blob (plenOf cfg) (afOf cfg) = payload := by
  have hp := plenOf_pos hok
  have ha := one_le_afOf cfg
  cases hs : afSplit P payload (plenOf cfg) (afOf cfg) rng with
  | none =>
    unfold afSplit at hs
    rw [if_neg] at hs
    · simp at hs
    · simp only [ksPayloadMax, afBufSize] at hp ⊢
      omega
  | some blob =>
    exact ⟨blob, rfl, by rw [length_afSplit hlen hs, toNat_ctOf hok], afMerge_afSplit hlen hs⟩

theorem keyslotAdd_of_not_ok (area : KeyslotArea) (h : ¬ addOk cfg) (pass : Bytes) (flags : Int)
    (vmk : Bytes) (env : AddEnv) : keyslotAdd P cfg area pass flags vmk env = (-1, area) := by
  unfold keyslotAdd
  rw [if_pos ((refused_iff cfg).mpr h)]

/-- **A labeled add** puts one record into the slot it picks, or nothing at all. -/
theorem keyslotAdd_labeled (area : KeyslotArea) (hok : addOk cfg)
    (hl : isLabeled cfg.backend = true) (pass : Bytes) (flags : Int) (vmk : Bytes) (env : AddEnv) :
    ∃ blob, blob.length = (ctOf cfg).toNat ∧
      afMerge P blob (plenOf cfg) (afOf cfg) = addPayload cfg flags vmk env ∧
      keyslotAdd P cfg area pass flags vmk env =
        if labeledFirstFree cfg area < 0 then (-1, area)
        else putRecord area (labeledFirstFree cfg area)
          (labeledRecord P cfg pass (addSalt env) (addFill env) blob) := by
  obtain ⟨blob, hs, hlen, hm⟩ :=
    exists_blob P hok (length_addPayload hok flags vmk env) (addStripes env)
  refine ⟨blob, hlen, hm, ?_⟩
  unfold keyslotAdd
  rw [if_neg (fun h => (refused_iff cfg).mp h hok)]
  unfold addPayload at hs
  simp only [hs, hl, if_true]

theorem keyslotAdd_bare (area : KeyslotArea) (hok : addOk cfg)
    (hl : isLabeled cfg.backend = false) (pass : Bytes) (flags : Int) (vmk : Bytes) (env : AddEnv) :
    ∃ blob, blob.length = (ctOf cfg).toNat ∧
      afMerge P blob (plenOf cfg) (afOf cfg) = addPayload cfg flags vmk env ∧
      keyslotAdd P cfg area pass flags vmk env =
        putRecord area (toInt32 (deniableIndex P cfg area pass))
          (bareRecord P cfg pass (addSalt env) (addFill env) blob) := by
  obtain ⟨blob, hs, hlen, hm⟩ :=
    exists_blob P hok (length_addPayload hok flags vmk env) (addStripes env)
  refine ⟨blob, hlen, hm, ?_⟩
  unfold keyslotAdd
  rw [if_neg (fun h => (refused_iff cfg).mp h hok)]
  unfold addPayload at hs
  simp only [hs, hl, if_false, Bool.false_eq_true]

/-- A record that was stored is what its slot holds, and no other slot has changed. -/
theorem putRecord_nonneg {idx : Int} {rec : Bytes} (h : 0 ≤ (putRecord area idx rec).1) :
    0 ≤ idx ∧ putRecord area idx rec = (idx, area.put (slotOff idx) rec) ∧
      slotOff idx + rec.length ≤ area.size := by
  unfold putRecord at h ⊢
  cases hw : area.write (slotOff idx) rec with
  | mk ok area' =>
    cases ok with
    | false => simp [hw] at h
    | true =>
      obtain ⟨hfit, rfl⟩ := KeyslotArea.write_true hw
      rw [hw] at h
      exact ⟨h, rfl, hfit⟩

/-- The free slot that a search answers lies where its number says. -/
theorem slotOff_firstFree (hfree : 0 ≤ labeledFirstFree cfg area) :
    slotOff (labeledFirstFree cfg area) =
      (labeledFirstFree cfg area).toNat * keyslotTableStride := by
  obtain ⟨i, -, -, hidx⟩ := firstFreeFrom_nonneg hfree
  have hbound := toInt32_lt i
  rw [← hidx] at hbound
  have hcast : labeledFirstFree cfg area = ((labeledFirstFree cfg area).toNat : Int) :=
    (Int.toNat_of_nonneg hfree).symm
  rw [hcast, slotOff_ofNat (by rw [← hcast]; exact hbound), Int.toNat_natCast]

/-- A labeled add that succeeded: its record is in the slot it answered. -/
theorem putRecord_firstFree {rec : Bytes} (hrec : rec.length = keyslotTableStride)
    (hfree : 0 ≤ labeledFirstFree cfg area)
    (h : 0 ≤ (putRecord area (labeledFirstFree cfg area) rec).1) :
    putRecord area (labeledFirstFree cfg area) rec =
        (labeledFirstFree cfg area,
          area.put ((labeledFirstFree cfg area).toNat * keyslotTableStride) rec) ∧
      slotAt (area.put ((labeledFirstFree cfg area).toNat * keyslotTableStride) rec)
        (labeledFirstFree cfg area).toNat = rec := by
  have hlt := labeledFirstFree_lt hfree
  obtain ⟨-, hput, -⟩ := putRecord_nonneg h
  rw [slotOff_firstFree hfree] at hput
  exact ⟨hput, slotAt_put_self hlt hrec⟩

end

/-! ## Open -/

theorem openedV1_cons (cfg : KeyslotStoreCfg) (f : UInt8) {vmk : Bytes}
    (h : vmk.length = cfg.vmkLen.toNat) :
    openedV1 cfg (f :: vmk) = { vmk := vmk, flags := f } := by
  have hv : slice (f :: vmk) 1 cfg.vmkLen.toNat = vmk := by
    rw [slice, List.drop_one, List.tail_cons, List.take_of_length_le (by omega)]
  rw [openedV1, hv, List.headD_cons]

section
variable (P : Primitives) {cfg : KeyslotStoreCfg} {area : KeyslotArea} {pass : Bytes}

/-- What slot `i` offers an open: its unwrapped blob, where it can be read and its tag
    verifies. -/
def matchAt (cfg : KeyslotStoreCfg) (area : KeyslotArea) (pass : Bytes) (i : Nat) :
    Option Bytes :=
  match area.read (i * keyslotTableStride) keyslotTableStride with
  | none => none
  | some rec =>
    let u := recUnwrapCT P cfg pass rec
    if u.1 then some u.2 else none

theorem length_recUnwrapCT {rec : Bytes} (pass : Bytes) (hrec : rec.length = keyslotTableStride)
    (hfit : lCt + (ctOf cfg).toNat + keyslotTagSize ≤ keyslotTableStride) :
    (recUnwrapCT P cfg pass rec).2.length = (ctOf cfg).toNat := by
  unfold recUnwrapCT
  rw [length_keyslotUnwrapCT, length_slice (by omega)]

theorem matchAt_eq_some {i : Nat} {blob : Bytes} (h : matchAt P cfg area pass i = some blob) :
    area.read (i * keyslotTableStride) keyslotTableStride = some (slotAt area i) ∧
      recUnwrapCT P cfg pass (slotAt area i) = (true, blob) := by
  unfold matchAt at h
  cases hr : area.read (i * keyslotTableStride) keyslotTableStride with
  | none => simp [hr] at h
  | some rec =>
    obtain rfl := read_slot hr
    simp only [hr] at h
    cases hu : recUnwrapCT P cfg pass (slotAt area i) with
    | mk ok tmp =>
      cases ok with
      | false => simp [hu] at h
      | true =>
        simp only [hu, if_true, Option.some.injEq] at h
        exact ⟨rfl, by rw [h]⟩

theorem matchAt_of_read {i : Nat}
    (hr : area.read (i * keyslotTableStride) keyslotTableStride = some (slotAt area i)) :
    matchAt P cfg area pass i =
      if (recUnwrapCT P cfg pass (slotAt area i)).1 then
        some (recUnwrapCT P cfg pass (slotAt area i)).2 else none := by
  unfold matchAt
  rw [hr]

/-- Blending by the select mask is an `if` on the two bits it is made of. -/
theorem foldSelect_eq (st : Bool × Bytes) (m : Bool) (tmp : Bytes)
    (h : st.2.length = tmp.length) :
    foldSelect st m tmp = (st.1 || m, if m && !st.1 then tmp else st.2) := by
  unfold foldSelect
  cases hsel : m && !st.1 with
  | false => rw [show selMask false = 0 from rfl, ctBlend_zero h, if_neg (by decide)]
  | true => rw [show selMask true = 255 from rfl, ctBlend_ones h, if_pos rfl]

theorem ksScanSlot_miss {st : Bool × Bytes} {i : Nat}
    (hfit : lCt + (ctOf cfg).toNat + keyslotTagSize ≤ keyslotTableStride)
    (hst : st.2.length = (ctOf cfg).toNat) (h : matchAt P cfg area pass i = none) :
    ksScanSlot P cfg area pass st i = st := by
  unfold matchAt at h
  unfold ksScanSlot
  cases hr : area.read (i * keyslotTableStride) keyslotTableStride with
  | none => rfl
  | some rec =>
    have hrec : rec.length = keyslotTableStride := by
      obtain ⟨rfl, hsz⟩ := KeyslotArea.read_eq_some hr
      exact length_slice hsz
    simp only [hr] at h ⊢
    have hm : (recUnwrapCT P cfg pass rec).1 = false := by
      cases hb : (recUnwrapCT P cfg pass rec).1 with
      | false => rfl
      | true => simp [hb] at h
    rw [foldSelect_eq _ _ _ (by rw [hst, length_recUnwrapCT P pass hrec hfit]), hm]
    simp

theorem ksScanSlot_hit {st : Bool × Bytes} {i : Nat} {blob : Bytes}
    (hfit : lCt + (ctOf cfg).toNat + keyslotTagSize ≤ keyslotTableStride)
    (hst : st.2.length = (ctOf cfg).toNat) (h : matchAt P cfg area pass i = some blob) :
    ksScanSlot P cfg area pass st i = (true, if st.1 then st.2 else blob) := by
  obtain ⟨hr, hu⟩ := matchAt_eq_some P h
  have hrec : (slotAt area i).length = keyslotTableStride :=
    length_slice (KeyslotArea.read_eq_some hr).2
  have hlen := length_recUnwrapCT P pass hrec hfit
  unfold ksScanSlot
  simp only [hr, hu] at hlen ⊢
  rw [foldSelect_eq _ _ _ (by rw [hst, hlen])]
  cases st.1 <;> simp

theorem length_matchAt (hfit : lCt + (ctOf cfg).toNat + keyslotTagSize ≤ keyslotTableStride)
    {i : Nat} {blob : Bytes} (h : matchAt P cfg area pass i = some blob) :
    blob.length = (ctOf cfg).toNat := by
  obtain ⟨hr, hu⟩ := matchAt_eq_some P h
  have hrec : (slotAt area i).length = keyslotTableStride :=
    length_slice (KeyslotArea.read_eq_some hr).2
  have hlen := length_recUnwrapCT P pass hrec hfit
  rwa [hu] at hlen

/-- The first slot that offers a blob, and that blob. -/
def firstMatch (cfg : KeyslotStoreCfg) (area : KeyslotArea) (pass : Bytes) : Option Bytes :=
  (List.range (nSlots cfg area)).findSome? (matchAt P cfg area pass)

/-- **The serial scan selects the first slot that verifies.** -/
theorem ksScanLabeled_eq
    (hfit : lCt + (ctOf cfg).toNat + keyslotTagSize ≤ keyslotTableStride) :
    ksScanLabeled P cfg area pass =
      ((firstMatch P cfg area pass).isSome,
        (firstMatch P cfg area pass).getD (List.replicate (ctOf cfg).toNat 0)) :=
  @foldl_scan Nat Bytes (matchAt P cfg area pass) (ksScanSlot P cfg area pass)
    (fun b => b.length = (ctOf cfg).toNat)
    (fun _ _ h => length_matchAt P hfit h)
    (fun _ _ hst h => ksScanSlot_miss P hfit hst h)
    (fun _ _ _ hst h => ksScanSlot_hit P hfit hst h)
    (List.range (nSlots cfg area)) (List.replicate (ctOf cfg).toNat 0) List.length_replicate

theorem keyslotOpen_labeled (hl : isLabeled cfg.backend = true) (hfit : recFits cfg) :
    keyslotOpen P cfg area pass =
      (firstMatch P cfg area pass).map fun blob =>
        openedV1 cfg (afMerge P blob (plenOf cfg) (afOf cfg)) := by
  unfold keyslotOpen ksOpenImpl
  rw [if_neg (fun h => h hfit), if_pos hl]
  simp only [ksScanLabeled_eq P (recFits_labeled hl hfit)]
  cases firstMatch P cfg area pass <;> simp

theorem keyslotOpen_of_not_fits (h : ¬ recFits cfg) : keyslotOpen P cfg area pass = none := by
  unfold keyslotOpen ksOpenImpl
  rw [if_pos h]

end

section
variable {cfg : KeyslotStoreCfg} {index : Int}

theorem labeledRecAt_eq_some {area : KeyslotArea} {rec : Bytes}
    (h : labeledRecAt cfg area index = some rec) : rec = slotAt area index.toNat := by
  unfold labeledRecAt at h
  split at h
  · simp at h
  · cases hr : area.read (index.toNat * keyslotTableStride) keyslotTableStride with
    | none => simp [hr] at h
    | some rec' =>
      simp only [hr] at h
      split at h
      · rw [← Option.some.inj h, read_slot hr]
      · simp at h

/-- A slot in range that can be read and carries the magic is what the indexed opens work on. -/
theorem labeledRecAt_of_read {area : KeyslotArea} (hin : 0 ≤ index ∧ index.toNat < nSlots cfg area)
    (hr : area.readFails (index.toNat * keyslotTableStride) = false)
    (hmagic : slice (slotAt area index.toNat) 0 4 = ksMagic) :
    labeledRecAt cfg area index = some (slotAt area index.toNat) := by
  have hread : area.read (index.toNat * keyslotTableStride) keyslotTableStride =
      some (slotAt area index.toNat) := KeyslotArea.read_of_ok (slot_le_size hin.2) hr
  unfold labeledRecAt
  rw [if_neg (by omega), hread]
  simp only [hmagic, if_true]

end

/-! ## Revoke -/

theorem keyslotRevoke_out_of_range (cfg : KeyslotStoreCfg) (area : KeyslotArea) (index : Int)
    (h : index < 0 ∨ index.toNat ≥ nSlots cfg area) (rand : RandStream) :
    keyslotRevoke cfg area index rand = (-1, area) := if_pos h

theorem keyslotRevoke_in_range (cfg : KeyslotStoreCfg) (area : KeyslotArea) (index : Int)
    (h : 0 ≤ index ∧ index.toNat < nSlots cfg area) (hw : ∀ off, area.writeFault off = none)
    (rand : RandStream) :
    keyslotRevoke cfg area index rand =
      (0, area.put (index.toNat * keyslotTableStride)
        (RandStream.bytes rand 0 keyslotTableStride)) := by
  have hsz := slot_le_size h.2
  unfold keyslotRevoke
  rw [if_neg (by omega), KeyslotArea.write_of_ok (by simpa using hsz) (hw _)]

end VeraCrypt
