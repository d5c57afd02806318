import VeraCrypt.Keyslot.AfSplit
import VeraCrypt.Keyslot.Wrap
import VeraCrypt.Lib.Jobs

/-!
# The keyslot store (`Common/KeyslotStore.c`)

Where keyslot records live and how they are found. Records sit in slots of 1024 bytes of an
abstract medium (`KeyslotArea`); the labeled backends mark an occupied slot by the magic
`VCKS`, the deniable one finds its single slot from the passphrase. This file is the store as
the code has it: configuration, record layout, add, open (serial and batched), indexed open
and revoke. The per-slot policy functions are in `Keyslot/Policy.lean`.

C `int`s of the configuration are `Int`s. The products the code forms of them are exact here;
in C a product that leaves the `int` range has no defined value, so a configuration that
overflows is one the exact `recFits` refuses.
-/

set_option autoImplicit false

namespace VeraCrypt

open Lib

/-! ## Medium and configuration -/

/-- The medium behind `KeyslotArea`'s callbacks: its bytes, the offsets at which a read
    reports an error, and the offsets at which a write fails after `k` bytes have landed. -/
structure KeyslotArea where
  bytes : Bytes
  readFails : Nat → Bool
  writeFault : Nat → Option Nat

namespace KeyslotArea

/-- `n` zero bytes on a medium that works. -/
def blank (n : Nat) : KeyslotArea where
  bytes := List.replicate n 0
  readFails _ := false
  writeFault _ := none

def size (a : KeyslotArea) : Nat := a.bytes.length

/-- `area->read`: nothing on an error or out of range. -/
def read (a : KeyslotArea) (off n : Nat) : Option Bytes :=
  if off + n ≤ a.size ∧ a.readFails off = false then some (slice a.bytes off n) else none

/-- The medium with `buf` landed at `off`. -/
def put (a : KeyslotArea) (off : Nat) (buf : Bytes) : KeyslotArea :=
  { a with bytes := patch a.bytes off buf }

/-- `area->write`: whether it succeeded, and the medium afterwards. -/
def write (a : KeyslotArea) (off : Nat) (buf : Bytes) : Bool × KeyslotArea :=
  if off + buf.length ≤ a.size then
    match a.writeFault off with
    | none => (true, a.put off buf)
    | some k => (false, a.put off (buf.take k))
  else (false, a)

end KeyslotArea

inductive KeyslotBackend where
  | header
  | deniable
  | sidecar
  deriving DecidableEq, Repr

def isLabeled : KeyslotBackend → Bool
  | .header => true
  | .deniable => false
  | .sidecar => true

/-- `KeyslotStoreCfg`. The random source is handed to each call instead of being a field. -/
structure KeyslotStoreCfg where
  backend : KeyslotBackend
  kdf : KeyslotKdfFn
  cost : UInt32
  vmkLen : Int
  maxSlots : Int
  afStripes : Int
  policy : Int

/-- A small configuration for runs on concrete inputs: one-byte VMKs, no stripes, a derivation
    that depends on every byte of passphrase and salt. -/
def KeyslotStoreCfg.demo (backend : KeyslotBackend) (policy : Int) : KeyslotStoreCfg where
  backend := backend
  kdf := fun pass salt _ n => List.replicate n ((pass ++ salt).foldl (fun d b => 3 * d + b) 0)
  cost := 1
  vmkLen := 1
  maxSlots := 0
  afStripes := 0
  policy := policy

def keyslotTableStride : Nat := 1024

def lSalt : Nat := 14
def lCt : Nat := 46
def lAadLen : Nat := 46
def bCt : Nat := 32
def ksExpiryBytes : Nat := 8

/-- `KS_PAYLOAD_MAX`, the size of the payload buffers. -/
def ksPayloadMax : Nat := 521

/-- "VCKS" -/
def ksMagic : Bytes := [0x56, 0x43, 0x4b, 0x53]

/-- "VCKSbare" -/
def ksBareDomain : Bytes := [0x56, 0x43, 0x4b, 0x53, 0x62, 0x61, 0x72, 0x65]

/-- "VCKSloc" -/
def ksLocDomain : Bytes := [0x56, 0x43, 0x4b, 0x53, 0x6c, 0x6f, 0x63]

/-- v1 payload = flags[1] || vmk ; v2 (policy) payload = flags[1] || expiryUnix[8] || vmk -/
def plenOf (cfg : KeyslotStoreCfg) : Int :=
  if cfg.policy ≠ 0 then cfg.vmkLen + 1 + ksExpiryBytes else cfg.vmkLen + 1

def afOf (cfg : KeyslotStoreCfg) : Int := if cfg.afStripes ≥ 2 then cfg.afStripes else 1

def ctOf (cfg : KeyslotStoreCfg) : Int := plenOf cfg * afOf cfg

def recFits (cfg : KeyslotStoreCfg) : Prop :=
  (if isLabeled cfg.backend then lCt else bCt) + ctOf cfg + keyslotTagSize ≤ keyslotTableStride

instance (cfg : KeyslotStoreCfg) : Decidable (recFits cfg) :=
  inferInstanceAs (Decidable (_ ≤ _))

def nSlots (cfg : KeyslotStoreCfg) (area : KeyslotArea) : Nat :=
  let bySize := area.size / keyslotTableStride
  let byCfg := if cfg.maxSlots > 0 then cfg.maxSlots.toNat else bySize
  if bySize < byCfg then bySize else byCfg

/-- The bytes of slot `i`. -/
def slotAt (area : KeyslotArea) (i : Nat) : Bytes :=
  slice area.bytes (i * keyslotTableStride) keyslotTableStride

/-- The conversion of a `uint64` to `int`: modulo 2^32, into the signed range. -/
def toInt32 (v : Nat) : Int := Int.bmod v (2 ^ 32)

/-- `(uint64) idx * KEYSLOT_TABLE_STRIDE`. -/
def slotOff (idx : Int) : Nat := (idx * keyslotTableStride % 2 ^ 64).toNat

/-- slot index of a bare record = H("VCKSloc" || pass) mod nSlots -/
def deniableIndex (P : Primitives) (cfg : KeyslotStoreCfg) (area : KeyslotArea)
    (pass : Bytes) : Nat :=
  let ns := nSlots cfg area
  if ns = 0 then 0
  else leNat (slice (P.sha256 (ksLocDomain ++ pass.take 512)) 0 4) % ns

/-! ## Add -/

/-- The loop of `labeled_first_free` over the slots still to be looked at. -/
def firstFreeFrom (area : KeyslotArea) : List Nat → Int
  | [] => -1
  | i :: rest =>
    match area.read (i * keyslotTableStride) lCt with
    | none => -1
    | some hdr => if slice hdr 0 4 = ksMagic then firstFreeFrom area rest else toInt32 i

def labeledFirstFree (cfg : KeyslotStoreCfg) (area : KeyslotArea) : Int :=
  firstFreeFrom area (List.range (nSlots cfg area))

/-- What a call that writes a record finds: the random source, and the bytes its
    uninitialised payload buffer happens to hold. -/
structure AddEnv where
  rand : RandStream
  stack : Nat → UInt8

/-- A source that counts. -/
def AddEnv.demo : AddEnv where
  rand := UInt8.ofNat
  stack _ := 0

/-- `(unsigned char) flags` -/
def flagByte (flags : Int) : UInt8 := UInt8.ofNat (flags % 256).toNat

/-- The payload buffer after `fields` have been stored from its start. -/
def payloadBuf (env : AddEnv) (fields : Bytes) : Bytes :=
  patch ((List.range ksPayloadMax).map env.stack) 0 fields

/-- The 46 bytes of a labeled record in front of the ciphertext:
    magic, version, kdf id, reserved, cost, payload length, salt. -/
def labeledHeader (cfg : KeyslotStoreCfg) (salt : Bytes) : Bytes :=
  let s := afOf cfg
  ksMagic ++ [if s ≥ 2 then 2 else 1, 1] ++
    (if s ≥ 2 then leBytes 2 s.toNat else [0, 0]) ++
    leBytes 4 cfg.cost.toNat ++ leBytes 2 (plenOf cfg).toNat ++ salt

/-- The labeled record over the random fill of its slot. -/
def labeledRecord (P : Primitives) (cfg : KeyslotStoreCfg) (pass salt fill blob : Bytes) :
    Bytes :=
  let rec0 := patch fill 0 (labeledHeader cfg salt)
  let wrapped := keyslotWrap P cfg.kdf cfg.cost pass salt (slice rec0 0 lAadLen) blob
  patch (patch rec0 lCt wrapped.1) (lCt + (ctOf cfg).toNat) wrapped.2

/-- The bare record over the random fill of its slot. -/
def bareRecord (P : Primitives) (cfg : KeyslotStoreCfg) (pass salt fill blob : Bytes) :
    Bytes :=
  let wrapped := keyslotWrap P cfg.kdf cfg.cost pass salt (ksBareDomain ++ salt) blob
  patch (patch (patch fill 0 salt) bCt wrapped.1) (bCt + (ctOf cfg).toNat) wrapped.2

/-- Store a finished record at slot `idx`: the index, or -1 when the write failed. -/
def putRecord (area : KeyslotArea) (idx : Int) (rec : Bytes) : Int × KeyslotArea :=
  match area.write (slotOff idx) rec with
  | (true, area') => (idx, area')
  | (false, area') => (-1, area')

/-- The salt, the slot fill and the stripe draws of an add, in the order they are drawn. -/
def addSalt (env : AddEnv) : Bytes := RandStream.bytes env.rand 0 keyslotSaltSize
def addFill (env : AddEnv) : Bytes := RandStream.bytes env.rand keyslotSaltSize keyslotTableStride
def addStripes (env : AddEnv) : RandStream :=
  fun i => env.rand (keyslotSaltSize + keyslotTableStride + i)

/-- `KeyslotAdd`: the slot index (or -1) and the area afterwards. -/
def keyslotAdd (P : Primitives) (cfg : KeyslotStoreCfg) (area : KeyslotArea)
    (pass : Bytes) (flags : Int) (vmk : Bytes) (env : AddEnv) : Int × KeyslotArea :=
  if cfg.vmkLen ≤ 0 ∨ cfg.vmkLen > keyslotVmkMax ∨ ¬ recFits cfg then (-1, area)
  else
    let payload := payloadBuf env (flagByte flags :: slice vmk 0 cfg.vmkLen.toNat)
    match afSplit P (slice payload 0 (plenOf cfg).toNat) (plenOf cfg) (afOf cfg)
        (addStripes env) with
    | none => (-1, area)
    | some blob =>
      if isLabeled cfg.backend then
        let idx := labeledFirstFree cfg area
        if idx < 0 then (-1, area)
        else putRecord area idx (labeledRecord P cfg pass (addSalt env) (addFill env) blob)
      else
        putRecord area (toInt32 (deniableIndex P cfg area pass))
          (bareRecord P cfg pass (addSalt env) (addFill env) blob)

/-! ## Open -/

/-- `KeyslotUnwrapCT` on a labeled record as read from its slot. -/
def recUnwrapCT (P : Primitives) (cfg : KeyslotStoreCfg) (pass rec : Bytes) : Bool × Bytes :=
  let ct := (ctOf cfg).toNat
  keyslotUnwrapCT P cfg.kdf cfg.cost pass (slice rec lSalt keyslotSaltSize)
    (slice rec 0 lAadLen) (slice rec lCt ct) (slice rec (lCt + ct) keyslotTagSize)

/-- `KeyslotUnwrapCT` on a bare record as read from its slot. -/
def bareUnwrapCT (P : Primitives) (cfg : KeyslotStoreCfg) (pass rec : Bytes) : Bool × Bytes :=
  let ct := (ctOf cfg).toNat
  let salt := slice rec 0 keyslotSaltSize
  keyslotUnwrapCT P cfg.kdf cfg.cost pass salt (ksBareDomain ++ salt) (slice rec bCt ct)
    (slice rec (bCt + ct) keyslotTagSize)

/-- `(unsigned char) (0u - (unsigned) sel)` -/
def selMask (sel : Bool) : UInt8 := 0 - (if sel then 1 else 0)

/-- Fold one unwrapped slot into `(found, selp)`: take the first match only. -/
def foldSelect (st : Bool × Bytes) (m : Bool) (tmp : Bytes) : Bool × Bytes :=
  (st.1 || m, ctBlend (selMask (m && !st.1)) st.2 tmp)

/-- The body of the serial scan at slot `i`; a slot that cannot be read is passed over. -/
def ksScanSlot (P : Primitives) (cfg : KeyslotStoreCfg) (area : KeyslotArea) (pass : Bytes)
    (st : Bool × Bytes) (i : Nat) : Bool × Bytes :=
  match area.read (i * keyslotTableStride) keyslotTableStride with
  | none => st
  | some rec =>
    let u := recUnwrapCT P cfg pass rec
    foldSelect st u.1 u.2

/-- The serial scan of the labeled table. -/
def ksScanLabeled (P : Primitives) (cfg : KeyslotStoreCfg) (area : KeyslotArea)
    (pass : Bytes) : Bool × Bytes :=
  (List.range (nSlots cfg area)).foldl (ksScanSlot P cfg area pass)
    (false, List.replicate (ctOf cfg).toNat 0)

/-- `KS_PARALLEL_BATCH` -/
def ksParallelBatch : Nat := 16

/-- An executor: in its `round`-th call, with `n` jobs, the indices it runs the body at, in
    the order it runs them. -/
abbrev KeyslotParallelFor := (round n : Nat) → List Nat

/-- The batch-local buffers the jobs of one round write. -/
structure ParBufs where
  tmps : Bytes
  mret : List Int

/-- `ks_par_scan_body`: job `i` of a batch, over the records and read flags of the batch. -/
def ksParScanBody (P : Primitives) (cfg : KeyslotStoreCfg) (pass recs : Bytes)
    (okread : List Bool) (bufs : ParBufs) (i : Nat) : ParBufs :=
  if okread.getD i false = false then { bufs with mret := bufs.mret.set i 0 }
  else
    let u := recUnwrapCT P cfg pass (slice recs (i * keyslotTableStride) keyslotTableStride)
    { tmps := patch bufs.tmps (i * (ctOf cfg).toNat) u.2
      mret := bufs.mret.set i (if u.1 then 1 else 0) }

/-- Phase 1 of a batch: read its records serially. A failed read leaves whatever the reused
    buffer held. -/
def ksParRead (area : KeyslotArea) (recs : Bytes) (base bn : Nat) : Bytes × List Bool :=
  (List.range bn).foldl
    (fun st j =>
      match area.read ((base + j) * keyslotTableStride) keyslotTableStride with
      | none => (st.1, st.2 ++ [false])
      | some rec => (patch st.1 (j * keyslotTableStride) rec, st.2 ++ [true]))
    (recs, [])

/-- Phase 3 of a batch: fold its unwraps into `(found, selp)` in index order. A slot the
    executor never ran still holds -1 and counts as no match. -/
def ksParFold (cfg : KeyslotStoreCfg) (bufs : ParBufs) (bn : Nat) (st : Bool × Bytes) :
    Bool × Bytes :=
  let ct := (ctOf cfg).toNat
  (List.range bn).foldl
    (fun st j =>
      let m := bufs.mret.getD j (-1)
      foldSelect st (decide (0 < m)) (slice bufs.tmps (j * ct) ct))
    st

/-- What a round carries to the next: the reused record and output buffers, and the
    selection so far. -/
structure ParScan where
  recs : Bytes
  tmps : Bytes
  sel : Bool × Bytes

/-- One round of `ks_scan_labeled_parallel`. -/
def ksParRound (P : Primitives) (cfg : KeyslotStoreCfg) (area : KeyslotArea) (pass : Bytes)
    (pf : KeyslotParallelFor) (st : ParScan) (k : Nat) : ParScan :=
  let base := ksParallelBatch * k
  let bn := min ksParallelBatch (nSlots cfg area - base)
  let rd := ksParRead area st.recs base bn
  let bufs := (pf k bn).foldl (ksParScanBody P cfg pass rd.1 rd.2)
    { tmps := st.tmps, mret := List.replicate ksParallelBatch (-1) }
  { recs := rd.1, tmps := bufs.tmps, sel := ksParFold cfg bufs bn st.sel }

/-- `ks_scan_labeled_parallel`: rounds of at most 16 slots. The two buffers start
    uninitialised, so what they hold is a parameter. -/
def ksScanLabeledParallel (P : Primitives) (cfg : KeyslotStoreCfg) (area : KeyslotArea)
    (pass : Bytes) (pf : KeyslotParallelFor) (stack : Nat → UInt8) : Bool × Bytes :=
  let uninit := (List.range (ksParallelBatch * keyslotTableStride)).map stack
  ((List.range ((nSlots cfg area + ksParallelBatch - 1) / ksParallelBatch)).foldl
    (ksParRound P cfg area pass pf)
    { recs := uninit, tmps := uninit
      sel := (false, List.replicate (ctOf cfg).toNat 0) }).sel

/-- What an open hands out: the VMK and the flags byte. -/
structure Opened where
  vmk : Bytes
  flags : UInt8
  deriving DecidableEq, Repr

/-- The VMK and flags of a merged payload in the `flags[1] || vmk` layout. -/
def openedV1 (cfg : KeyslotStoreCfg) (payload : Bytes) : Opened :=
  { vmk := slice payload 1 cfg.vmkLen.toNat, flags := payload.headD 0 }

/-- `ks_open_impl`: `none` is the return value 0. An executor comes with the bytes its
    uninitialised batch buffers hold. -/
def ksOpenImpl (P : Primitives) (cfg : KeyslotStoreCfg) (area : KeyslotArea) (pass : Bytes)
    (pf : Option (KeyslotParallelFor × (Nat → UInt8))) : Option Opened :=
  if ¬ recFits cfg then none
  else if isLabeled cfg.backend then
    let scan :=
      match pf with
      | none => ksScanLabeled P cfg area pass
      | some (pf, stack) =>
        if nSlots cfg area > 1 then ksScanLabeledParallel P cfg area pass pf stack
        else ksScanLabeled P cfg area pass
    if scan.1 then some (openedV1 cfg (afMerge P scan.2 (plenOf cfg) (afOf cfg))) else none
  else
    match area.read (deniableIndex P cfg area pass * keyslotTableStride) keyslotTableStride with
    | none => none
    | some rec =>
      let u := bareUnwrapCT P cfg pass rec
      if u.1 then some (openedV1 cfg (afMerge P u.2 (plenOf cfg) (afOf cfg))) else none

def keyslotOpen (P : Primitives) (cfg : KeyslotStoreCfg) (area : KeyslotArea) (pass : Bytes) :
    Option Opened :=
  ksOpenImpl P cfg area pass none

def keyslotOpenParallel (P : Primitives) (cfg : KeyslotStoreCfg) (area : KeyslotArea)
    (pass : Bytes) (pf : KeyslotParallelFor) (stack : Nat → UInt8) : Option Opened :=
  ksOpenImpl P cfg area pass (some (pf, stack))

/-- The record at a labeled index, where the index is in range, the slot can be read and it
    carries the magic: the common front of the indexed opens. -/
def labeledRecAt (cfg : KeyslotStoreCfg) (area : KeyslotArea) (index : Int) : Option Bytes :=
  if index < 0 ∨ index.toNat ≥ nSlots cfg area then none
  else
    match area.read (index.toNat * keyslotTableStride) keyslotTableStride with
    | none => none
    | some rec => if slice rec 0 4 = ksMagic then some rec else none

/-- `KeyslotOpenAt` -/
def keyslotOpenAt (P : Primitives) (cfg : KeyslotStoreCfg) (area : KeyslotArea) (index : Int)
    (pass : Bytes) : Option Opened :=
  if isLabeled cfg.backend = false ∨ ¬ recFits cfg then none
  else
    match labeledRecAt cfg area index with
    | none => none
    | some rec =>
      let u := recUnwrapCT P cfg pass rec
      if u.1 then some (openedV1 cfg (afMerge P u.2 (plenOf cfg) (afOf cfg))) else none

/-! ## Revoke -/

/-- `KeyslotRevoke`: 0 on success, and the area afterwards. -/
def keyslotRevoke (cfg : KeyslotStoreCfg) (area : KeyslotArea) (index : Int)
    (rand : RandStream) : Int × KeyslotArea :=
  if index < 0 ∨ index.toNat ≥ nSlots cfg area then (-1, area)
  else
    match area.write (index.toNat * keyslotTableStride)
        (RandStream.bytes rand 0 keyslotTableStride) with
    | (true, area') => (0, area')
    | (false, area') => (-1, area')

end VeraCrypt
