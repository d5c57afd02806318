import VeraCrypt.Main.KeyslotCommand

/-!
# The structural check (`KeyslotStructuralCheck`)

Without a passphrase the check reads the front of every labeled slot and compares what each writer
put there with what the configuration says. Two functions write a record, and two more write a slot
again: a slot that carries the magic has the front of a record throughout (`Framed`), so the check
raises no alarm over what they leave, and raises one as soon as a field of a record is another
(`structuralCheck_of_run`).

The deniable backend has no front to check and is refused. The medium is one that works: it is read
everywhere, and a write that fails leaves what was there (`Working`).
-/

set_option autoImplicit false

namespace VeraCrypt

open Lib

/-! ## The functions -/

/-- The tests of `KeyslotStructuralCheck` on the front of an occupied slot. -/
def frameOk (cfg : KeyslotStoreCfg) (hdr : Bytes) : Prop :=
  hdr.getD 4 0 = (if afOf cfg ≥ 2 then 2 else 1) ∧
    hdr.getD 5 0 = 1 ∧
    leNat (slice hdr 8 4) = cfg.cost.toNat ∧
    (leNat (slice hdr 12 2) : Int) = plenOf cfg ∧
    recFits cfg

instance (cfg : KeyslotStoreCfg) (hdr : Bytes) : Decidable (frameOk cfg hdr) :=
  inferInstanceAs (Decidable (_ ∧ _))

/-- The loop of `KeyslotStructuralCheck` over the slots still to be looked at: how many are
well-formed and how many malformed, or nothing when a read fails. -/
def structuralScan (cfg : KeyslotStoreCfg) (area : KeyslotArea) :
    List Nat → Nat × Nat → Option (Nat × Nat)
  | [], counts => some counts
  | i :: rest, (good, bad) =>
    match area.read (i * keyslotTableStride) lSalt with
    | none => none
    | some hdr =>
      if slice hdr 0 4 ≠ ksMagic then structuralScan cfg area rest (good, bad)
      else if frameOk cfg hdr then structuralScan cfg area rest (good + 1, bad)
      else structuralScan cfg area rest (good, bad + 1)

/-- `KeyslotStructuralCheck`: the code returned, and what `wellFormed` and `malformed` receive. -/
def keyslotStructuralCheck (cfg : KeyslotStoreCfg) (area : KeyslotArea) :
    Int × Option (Nat × Nat) :=
  if isLabeled cfg.backend = false then (-1, none)
  else
    match structuralScan cfg area (List.range (nSlots cfg area)) (0, 0) with
    | none => (-1, none)
    | some (good, bad) => (if bad ≠ 0 then -1 else 0, some (good, bad))

/-- "VCKSSHRED1" -/
def ksShredDomain : Bytes := [0x56, 0x43, 0x4b, 0x53, 0x53, 0x48, 0x52, 0x45, 0x44, 0x31]

/-- `KeyslotShred`: the code, the attestation if there is one, and the area afterwards. -/
def keyslotShred (P : Primitives) (cfg : KeyslotStoreCfg) (area : KeyslotArea) (index : Int)
    (rand : RandStream) : Int × Option Bytes × KeyslotArea :=
  if index < 0 ∨ index.toNat ≥ nSlots cfg area then (-1, none, area)
  else
    let off := index.toNat * keyslotTableStride
    match area.read off keyslotTableStride with
    | none => (-1, none, area)
    | some before =>
      match area.write off (RandStream.bytes rand 0 keyslotTableStride) with
      | (false, area) => (-1, none, area)
      | (true, area) =>
        match area.read off keyslotTableStride with
        | none => (-1, none, area)
        | some after =>
          (0, some (P.sha256 (ksShredDomain ++ beBytes 4 index.toNat ++ P.sha256 before ++
            P.sha256 after)), area)

/-! ## Runs -/

/-- A call on the table. -/
inductive TableCall where
  | add (pass : Bytes) (flags : Int) (vmk : Bytes) (env : AddEnv)
  | addPolicy (pass : Bytes) (flags : Int) (vmk : Bytes) (expiryUnix : UInt64)
      (maxAttempts : Int) (env : AddEnv)
  | openAtPolicy (index : Int) (pass : Bytes) (nowUnix : UInt64)
  | revoke (index : Int) (rand : RandStream)
  | shred (index : Int) (rand : RandStream)

/-- The random fill of a slot does not begin with the magic. -/
def TableCall.NoMagic : TableCall → Prop
  | .revoke _ rand => slice (RandStream.bytes rand 0 keyslotTableStride) 0 4 ≠ ksMagic
  | .shred _ rand => slice (RandStream.bytes rand 0 keyslotTableStride) 0 4 ≠ ksMagic
  | _ => True

section

variable (P : Primitives) (cfg : KeyslotStoreCfg)

def tableCall (area : KeyslotArea) : TableCall → KeyslotArea
  | .add pass flags vmk env => (keyslotAdd P cfg area pass flags vmk env).2
  | .addPolicy pass flags vmk expiryUnix maxAttempts env =>
    (keyslotAddPolicy P cfg area pass flags vmk expiryUnix maxAttempts env).2
  | .openAtPolicy index pass nowUnix => (keyslotOpenAtPolicy P cfg area index pass nowUnix).area
  | .revoke index rand => (keyslotRevoke cfg area index rand).2
  | .shred index rand => (keyslotShred P cfg area index rand).2.2

def tableCalls (area : KeyslotArea) (calls : List TableCall) : KeyslotArea :=
  calls.foldl (tableCall P cfg) area

end

/-- A medium that is read everywhere, and on which a failing write leaves nothing. -/
structure Working (area : KeyslotArea) : Prop where
  reads : ∀ off, area.readFails off = false
  writes : ∀ off, area.writeFault off = none ∨ area.writeFault off = some 0

/-- A slot that has the front of a record if it carries the magic. -/
def HasFront (cfg : KeyslotStoreCfg) (rec : Bytes) : Prop :=
  slice rec 0 4 = ksMagic → addOk cfg ∧ frameOk cfg (slice rec 0 lSalt)

/-- A state of the medium `start` in which every slot with the magic has the front of a record. -/
structure Framed (cfg : KeyslotStoreCfg) (start area : KeyslotArea) : Prop where
  same : SameMedium start area
  slots : ∀ i < nSlots cfg area, HasFront cfg (slotAt area i)

/-! ## The front of a record -/

section

variable {cfg : KeyslotStoreCfg} {area : KeyslotArea}

/-- The fields of the front, where they pass. -/
structure Fields (cfg : KeyslotStoreCfg) (hdr : Bytes) : Prop where
  version : hdr.getD 4 0 = (if afOf cfg ≥ 2 then 2 else 1)
  kdf : hdr.getD 5 0 = 1
  cost : slice hdr 8 4 = leBytes 4 cfg.cost.toNat
  plen : slice hdr 12 2 = leBytes 2 (plenOf cfg).toNat

theorem frameOk.fields {hdr : Bytes} (h : frameOk cfg hdr) (hlen : lSalt ≤ hdr.length) :
    Fields cfg hdr := by
  obtain ⟨hver, hkdf, hcost, hplen, -⟩ := h
  have hsalt : lSalt = 14 := rfl
  have h4 : (slice hdr 8 4).length = 4 := length_slice (by omega)
  have h2 : (slice hdr 12 2).length = 2 := length_slice (by omega)
  refine ⟨hver, hkdf, ?_, ?_⟩
  · have hback := leBytes_leNat (slice hdr 8 4)
    rw [h4, hcost] at hback
    exact hback.symm
  · have hnat : leNat (slice hdr 12 2) = (plenOf cfg).toNat := by omega
    have hback := leBytes_leNat (slice hdr 12 2)
    rw [h2, hnat] at hback
    exact hback.symm

theorem plenOf_lt (hok : addOk cfg) : (plenOf cfg).toNat < 256 ^ 2 := by
  have hp := (plenOf_pos hok).2
  unfold ksPayloadMax at hp
  omega

variable (cfg) in
/-- The front of a record, field by field. -/
theorem slice_labeledHeader_front (salt : Bytes) :
    ∃ rsv : Bytes, rsv.length = 2 ∧
      slice (labeledHeader cfg salt) 0 lSalt =
        ksMagic ++ ([if afOf cfg ≥ 2 then 2 else 1, 1] ++ (rsv ++
          (leBytes 4 cfg.cost.toNat ++ leBytes 2 (plenOf cfg).toNat))) := by
  refine ⟨if afOf cfg ≥ 2 then leBytes 2 (afOf cfg).toNat else [0, 0], by split <;> simp, ?_⟩
  refine slice_of_eq_append (p := []) (q := salt) ?_ rfl ?_
  · simp [labeledHeader]
  · simp only [List.length_append, length_leBytes]
    split <;> simp [ksMagic, lSalt]

/-- The header of a record passes the tests. -/
theorem frameOk_labeledHeader (hok : addOk cfg) (salt : Bytes) :
    frameOk cfg (slice (labeledHeader cfg salt) 0 lSalt) := by
  obtain ⟨rsv, hrsv, hfront⟩ := slice_labeledHeader_front cfg salt
  obtain ⟨r0, r1, rfl⟩ := List.length_eq_two.mp hrsv
  have hplen := plenOf_lt hok
  have hpos := (plenOf_pos hok).1
  have hcost : leNat (leBytes 4 cfg.cost.toNat) = cfg.cost.toNat := by
    rw [leNat_leBytes]
    exact Nat.mod_eq_of_lt cfg.cost.toNat_lt
  have hlen : leNat (leBytes 2 (plenOf cfg).toNat) = (plenOf cfg).toNat := by
    rw [leNat_leBytes]
    exact Nat.mod_eq_of_lt hplen
  rw [hfront]
  refine ⟨rfl, rfl, ?_, ?_, hok.2.2⟩
  · exact hcost
  · show (leNat (leBytes 2 (plenOf cfg).toNat) : Int) = plenOf cfg
    rw [hlen]
    omega

theorem HasFront.congr {rec rec' : Bytes} (h : HasFront cfg rec)
    (hsame : slice rec' 0 lSalt = slice rec 0 lSalt) : HasFront cfg rec' := by
  have hmagic : ∀ r : Bytes, slice r 0 4 = slice (slice r 0 lSalt) 0 4 := by
    intro r
    have hin : 0 + 4 ≤ lSalt := by decide
    exact (slice_slice hin).symm
  intro h4
  rw [hmagic, hsame, ← hmagic] at h4
  rw [hsame]
  exact h h4

/-- A slot that does not carry the magic. -/
theorem hasFront_of_noMagic {rec : Bytes} (h : slice rec 0 4 ≠ ksMagic) : HasFront cfg rec :=
  fun h4 => absurd h4 h

theorem hasFront_labeledRecord {P : Primitives} (hok : addOk cfg)
    (hl : isLabeled cfg.backend = true) {pass salt fill blob : Bytes}
    (hsalt : salt.length = keyslotSaltSize) (hfill : fill.length = keyslotTableStride)
    (hblob : blob.length = (ctOf cfg).toNat) :
    HasFront cfg (labeledRecord P cfg pass salt fill blob) := by
  have hfit := recFits_labeled hl hok.2.2
  have hhdr : (labeledHeader cfg salt).length = lCt := length_labeledHeader hsalt
  have hfront : slice (labeledRecord P cfg pass salt fill blob) 0 lSalt =
      slice (labeledHeader cfg salt) 0 lSalt := by
    have hin : 0 + lSalt ≤ sealedLen cfg := by
      unfold sealedLen lSalt lCt
      omega
    rw [← slice_sealedPart hin, sealedPart_labeledRecord P hfit hsalt hfill hblob,
      List.append_assoc, slice_append_left (by rw [hhdr]; decide)]
  intro _
  rw [hfront]
  exact ⟨hok, frameOk_labeledHeader hok salt⟩

/-- What is put into the pad of a record is behind its front. -/
theorem HasFront.pad {rec : Bytes} (h : HasFront cfg rec) (pad : Bytes) (hok : addOk cfg)
    (hlen : rec.length = keyslotTableStride) {off : Nat} (hlow : (ksPolOff cfg).toNat ≤ off)
    (hhigh : off + pad.length ≤ keyslotTableStride) :
    (patch rec off pad).length = keyslotTableStride ∧ HasFront cfg (patch rec off pad) := by
  have hoff := toNat_ksPolOff (ctOf_pos hok)
  have hsealed : lSalt ≤ sealedLen cfg := by
    unfold sealedLen lSalt lCt
    omega
  refine ⟨by rw [length_patch (by omega), hlen], h.congr ?_⟩
  exact slice_patch_disjoint (by omega) (.inl (by omega))

/-! ## A medium that works -/

theorem Working.congr {area' : KeyslotArea} (h : Working area) (hsame : SameMedium area area') :
    Working area' := by
  constructor
  · intro off
    rw [hsame.reads]
    exact h.reads off
  · intro off
    rw [hsame.faults]
    exact h.writes off

/-- A write has landed or left nothing. -/
theorem Working.write_cases (h : Working area) (off : Nat) (buf : Bytes) :
    (area.write off buf).2 = area ∨ (area.write off buf).2 = area.put off buf := by
  unfold KeyslotArea.write
  split
  · rcases h.writes off with hok | hfail
    · rw [hok]
      exact .inr rfl
    · rw [hfail]
      refine .inl ?_
      simp [KeyslotArea.put, patch]
  · exact .inl rfl

theorem Working.read_slot (h : Working area) {i n : Nat} (hi : i < nSlots cfg area)
    (hn : n ≤ keyslotTableStride) :
    area.read (i * keyslotTableStride) n = some (slice (slotAt area i) 0 n) := by
  have hsize := slot_le_size hi
  have hread := KeyslotArea.read_of_ok (a := area) (show i * keyslotTableStride + n ≤ area.size by
    omega) (h.reads _)
  rw [hread, read_slot_front hn hread]

/-! ## What the calls leave -/

section calls

variable {P : Primitives} {start : KeyslotArea} (hw : Working start)

include hw in
/-- A record with a front, or a fill without the magic, into a slot. -/
theorem Framed.write (h : Framed cfg start area) {j : Nat} {rec : Bytes}
    (hj : j < nSlots cfg area) (hlen : rec.length = keyslotTableStride)
    (hrec : HasFront cfg rec) :
    Framed cfg start (area.write (j * keyslotTableStride) rec).2 := by
  have hsame := h.same.trans (KeyslotArea.sameMedium_write area (j * keyslotTableStride) rec)
  refine ⟨hsame, ?_⟩
  rcases (hw.congr h.same).write_cases (j * keyslotTableStride) rec with hkept | hput
  · rw [hkept]
    exact h.slots
  · rw [hput]
    have hsize := KeyslotArea.size_put (a := area) (by rw [hlen]; exact slot_le_size hj)
    intro i hi
    rw [nSlots_congr hsize] at hi
    by_cases hij : j = i
    · subst hij
      rw [slotAt_put_self hj hlen]
      exact hrec
    · rw [slotAt_put_ne hj hlen hij]
      exact h.slots i hi

include hw in
/-- A record put into the slot that was found free. -/
theorem Framed.putRecord (h : Framed cfg start area) {rec : Bytes}
    (hlen : rec.length = keyslotTableStride) (hrec : HasFront cfg rec) :
    Framed cfg start (if labeledFirstFree cfg area < 0 then ((-1 : Int), area)
      else putRecord area (labeledFirstFree cfg area) rec).2 := by
  by_cases hfree : labeledFirstFree cfg area < 0
  · rw [if_pos hfree]
    exact h
  · rw [if_neg hfree, snd_putRecord, slotOff_firstFree (Int.not_lt.mp hfree)]
    exact h.write hw (labeledFirstFree_lt (Int.not_lt.mp hfree)) hlen hrec

include hw in
theorem Framed.add (h : Framed cfg start area) (hl : isLabeled cfg.backend = true)
    (pass : Bytes) (flags : Int) (vmk : Bytes) (env : AddEnv) :
    Framed cfg start (keyslotAdd P cfg area pass flags vmk env).2 := by
  by_cases hok : addOk cfg
  · obtain ⟨blob, hblob, -, hadd⟩ := keyslotAdd_labeled P area hok hl pass flags vmk env
    have hsalt := RandStream.length_bytes env.rand 0 keyslotSaltSize
    have hfill := RandStream.length_bytes env.rand keyslotSaltSize keyslotTableStride
    rw [hadd]
    exact h.putRecord hw
      (length_labeledRecord P (recFits_labeled hl hok.2.2) hsalt hfill hblob)
      (hasFront_labeledRecord hok hl hsalt hfill hblob)
  · rw [keyslotAdd_of_not_ok P area hok]
    exact h

include hw in
theorem Framed.addPolicy (h : Framed cfg start area) (pass : Bytes) (flags : Int) (vmk : Bytes)
    (expiryUnix : UInt64) (maxAttempts : Int) (env : AddEnv) :
    Framed cfg start
      (keyslotAddPolicy P cfg area pass flags vmk expiryUnix maxAttempts env).2 := by
  by_cases hok : addPolicyOk cfg maxAttempts
  · obtain ⟨blob, hblob, -, hadd⟩ := keyslotAddPolicy_eq P area hok pass flags vmk expiryUnix env
    obtain ⟨-, hl, haddOk, hfits, -⟩ := hok
    have hsalt := RandStream.length_bytes env.rand 0 keyslotSaltSize
    have hfill := RandStream.length_bytes env.rand keyslotSaltSize keyslotTableStride
    have hrec : HasFront cfg (labeledRecord P cfg pass (addSalt env) (addFill env) blob) :=
      hasFront_labeledRecord haddOk hl hsalt hfill hblob
    obtain ⟨hlen, hfront⟩ := hrec.pad (ksPolMark ++ [UInt8.ofNat maxAttempts.toNat, 0]) haddOk
      (length_labeledRecord P (recFits_labeled hl haddOk.2.2) hsalt hfill hblob) (Nat.le_refl _)
      (polOff_lt hfits (ctOf_pos haddOk))
    rw [hadd]
    exact h.putRecord hw hlen hfront
  · rw [keyslotAddPolicy_of_not_ok P hok]
    exact h

/-- An indexed open writes the counter of an occupied slot, or nothing. -/
theorem openAtPolicy_area (index : Int) (pass : Bytes) (nowUnix : UInt64) :
    (keyslotOpenAtPolicy P cfg area index pass nowUnix).area = area ∨
      ∃ rec n, labeledRecAt cfg area index = some rec ∧ ksPolFits cfg ∧
        (keyslotOpenAtPolicy P cfg area index pass nowUnix).area =
          (area.write (index.toNat * keyslotTableStride) (setAttempts cfg rec n)).2 := by
  unfold keyslotOpenAtPolicy
  dsimp only
  by_cases hcfg : cfg.policy = 0 ∨ isLabeled cfg.backend = false ∨ ¬recFits cfg ∨ ¬ksPolFits cfg
  · rw [if_pos hcfg]
    exact .inl rfl
  · rw [if_neg hcfg]
    have hfits : ksPolFits cfg := by
      by_contra hno
      exact hcfg (.inr (.inr (.inr hno)))
    cases hrec : labeledRecAt cfg area index with
    | none => exact .inl rfl
    | some rec =>
      dsimp only
      split
      · exact .inl rfl
      · split
        · split
          · exact .inr ⟨rec, _, rfl, hfits, rfl⟩
          · exact .inl rfl
        · split
          · exact .inl rfl
          · split
            · exact .inr ⟨rec, _, rfl, hfits, rfl⟩
            · exact .inl rfl

/-- An indexed open works on a slot in range that carries the magic. -/
theorem labeledRecAt_occupied {index : Int} {rec : Bytes}
    (h : labeledRecAt cfg area index = some rec) :
    index.toNat < nSlots cfg area ∧ slice rec 0 4 = ksMagic := by
  unfold labeledRecAt at h
  split at h
  · cases h
  · next hin =>
    cases hr : area.read (index.toNat * keyslotTableStride) keyslotTableStride with
    | none => simp [hr] at h
    | some rec' =>
      simp only [hr] at h
      split at h
      · next hmagic =>
        rw [← Option.some.inj h]
        exact ⟨by omega, hmagic⟩
      · cases h

include hw in
theorem Framed.openAtPolicy (h : Framed cfg start area) (index : Int) (pass : Bytes)
    (nowUnix : UInt64) :
    Framed cfg start (keyslotOpenAtPolicy P cfg area index pass nowUnix).area := by
  have harea : (keyslotOpenAtPolicy P cfg area index pass nowUnix).area = area ∨ _ :=
    openAtPolicy_area index pass nowUnix
  rcases harea with hsame | ⟨rec, n, hrec, hfits, hwrite⟩
  · rw [hsame]
    exact h
  · obtain ⟨hin, hmagic⟩ := labeledRecAt_occupied hrec
    have hslot := labeledRecAt_eq_some hrec
    have hfront := h.slots index.toNat hin
    rw [← hslot] at hfront
    have hok := (hfront hmagic).1
    have hroom := polOff_lt hfits (ctOf_pos hok)
    have hlen : rec.length = keyslotTableStride := by
      rw [hslot]
      exact length_slotAt hin
    obtain ⟨hlen', hfront'⟩ := hfront.pad [UInt8.ofNat n] hok hlen
      (Nat.le_add_right _ 3) (by rw [List.length_singleton]; omega)
    rw [hwrite]
    exact h.write hw hin hlen' hfront'

include hw in
theorem Framed.revoke (h : Framed cfg start area) (index : Int) {rand : RandStream}
    (hrand : slice (RandStream.bytes rand 0 keyslotTableStride) 0 4 ≠ ksMagic) :
    Framed cfg start (keyslotRevoke cfg area index rand).2 := by
  unfold keyslotRevoke
  by_cases hin : index < 0 ∨ index.toNat ≥ nSlots cfg area
  · rw [if_pos hin]
    exact h
  · rw [if_neg hin]
    have hwrite := h.write hw (show index.toNat < nSlots cfg area by omega)
      (RandStream.length_bytes rand 0 keyslotTableStride) (hasFront_of_noMagic hrand)
    cases hr : area.write (index.toNat * keyslotTableStride)
        (RandStream.bytes rand 0 keyslotTableStride) with
    | mk done area' =>
      rw [hr] at hwrite
      cases done <;> exact hwrite

include hw in
theorem Framed.shred (h : Framed cfg start area) (index : Int) {rand : RandStream}
    (hrand : slice (RandStream.bytes rand 0 keyslotTableStride) 0 4 ≠ ksMagic) :
    Framed cfg start (keyslotShred P cfg area index rand).2.2 := by
  unfold keyslotShred
  by_cases hin : index < 0 ∨ index.toNat ≥ nSlots cfg area
  · rw [if_pos hin]
    exact h
  · rw [if_neg hin]
    have hwrite := h.write hw (show index.toNat < nSlots cfg area by omega)
      (RandStream.length_bytes rand 0 keyslotTableStride) (hasFront_of_noMagic hrand)
    dsimp only
    split
    · exact h
    · cases hr : area.write (index.toNat * keyslotTableStride)
          (RandStream.bytes rand 0 keyslotTableStride) with
      | mk done area' =>
        rw [hr] at hwrite
        cases done with
        | false => exact hwrite
        | true =>
          dsimp only
          split <;> exact hwrite

include hw in
theorem Framed.call (h : Framed cfg start area) (hl : isLabeled cfg.backend = true)
    {call : TableCall} (hcall : call.NoMagic) :
    Framed cfg start (tableCall P cfg area call) := by
  cases call with
  | add pass flags vmk env => exact h.add hw hl pass flags vmk env
  | addPolicy pass flags vmk expiryUnix maxAttempts env =>
    exact h.addPolicy hw pass flags vmk expiryUnix maxAttempts env
  | openAtPolicy index pass nowUnix => exact h.openAtPolicy hw index pass nowUnix
  | revoke index rand => exact h.revoke hw index hcall
  | shred index rand => exact h.shred hw index hcall

include hw in
theorem Framed.calls (h : Framed cfg start area) (hl : isLabeled cfg.backend = true)
    {calls : List TableCall} (hcalls : ∀ call ∈ calls, call.NoMagic) :
    Framed cfg start (tableCalls P cfg area calls) := by
  induction calls generalizing area with
  | nil => exact h
  | cons call calls ih =>
    have hstep : Framed cfg start (tableCall P cfg area call) :=
      h.call hw hl (hcalls call List.mem_cons_self)
    exact ih hstep (fun c hc => hcalls c (List.mem_cons_of_mem _ hc))

end calls

/-! ## What the check counts -/

variable (cfg) in
/-- The scan of a medium that can be read. -/
theorem structuralScan_eq (hw : Working area) (slots : List Nat)
    (hslots : ∀ i ∈ slots, i < nSlots cfg area) (good bad : Nat) :
    structuralScan cfg area slots (good, bad) =
      some (good + (slots.filter (fun i => marked area i = true ∧
            frameOk cfg (slice (slotAt area i) 0 lSalt))).length,
        bad + (slots.filter (fun i => marked area i = true ∧
            ¬frameOk cfg (slice (slotAt area i) 0 lSalt))).length) := by
  induction slots generalizing good bad with
  | nil => rfl
  | cons i slots ih =>
    have hread := hw.read_slot (hslots i List.mem_cons_self) (show lSalt ≤ keyslotTableStride by
      decide)
    have hin : 0 + 4 ≤ lSalt := by decide
    have hfront : slice (slice (slotAt area i) 0 lSalt) 0 4 = slice (slotAt area i) 0 4 :=
      slice_slice hin
    have hrest := ih (fun j hj => hslots j (List.mem_cons_of_mem _ hj))
    rw [structuralScan, hread]
    dsimp only
    rw [hfront]
    by_cases hmark : slice (slotAt area i) 0 4 = ksMagic
    · have hm : marked area i = true := decide_eq_true hmark
      rw [if_neg (not_not.mpr hmark)]
      by_cases hok : frameOk cfg (slice (slotAt area i) 0 lSalt)
      · rw [if_pos hok, hrest]
        simp [hm, hok]
        omega
      · rw [if_neg hok, hrest]
        simp [hm, hok]
        omega
    · have hm : marked area i = false := decide_eq_false hmark
      rw [if_pos hmark, hrest]
      simp [hm]

theorem keyslotCount_eq (hl : isLabeled cfg.backend = true) (hw : Working area) :
    keyslotCount cfg area =
      ((List.range (nSlots cfg area)).filter (fun i => marked area i = true)).length := by
  unfold keyslotCount
  rw [if_neg (by simp [hl])]
  congr 1
  refine List.filter_congr ?_
  intro i hi
  have hread := hw.read_slot (List.mem_range.mp hi) (show 4 ≤ keyslotTableStride by decide)
  rw [hread]
  simp [marked]

theorem check_framed {start : KeyslotArea} (hl : isLabeled cfg.backend = true)
    (hw : Working area) (h : Framed cfg start area) :
    keyslotStructuralCheck cfg area = (0, some (keyslotCount cfg area, 0)) := by
  have hscan := structuralScan_eq cfg hw (List.range (nSlots cfg area))
    (fun i hi => List.mem_range.mp hi) 0 0
  have hgood : (List.range (nSlots cfg area)).filter (fun i => marked area i = true ∧
      frameOk cfg (slice (slotAt area i) 0 lSalt)) =
      (List.range (nSlots cfg area)).filter (fun i => marked area i = true) := by
    refine List.filter_congr ?_
    intro i hi
    by_cases hm : marked area i = true
    · simp [hm, (h.slots i (List.mem_range.mp hi) (of_decide_eq_true hm)).2]
    · simp [hm]
  have hbad : (List.range (nSlots cfg area)).filter (fun i => marked area i = true ∧
      ¬frameOk cfg (slice (slotAt area i) 0 lSalt)) = [] := by
    refine List.filter_eq_nil_iff.mpr ?_
    intro i hi hm
    rw [decide_eq_true_eq] at hm
    exact hm.2 (h.slots i (List.mem_range.mp hi) (of_decide_eq_true hm.1)).2
  unfold keyslotStructuralCheck
  rw [if_neg (by simp [hl]), hscan, hgood, hbad, ← keyslotCount_eq hl hw]
  simp

/-! ## Damage -/

/-- The bytes of the version, the KDF, the cost and the payload length. -/
def frameBytes : List Nat := [4, 5, 8, 9, 10, 11, 12, 13]

theorem getD_slice {xs : Bytes} {off n k : Nat} (h : k < n) :
    (slice xs off n).getD k 0 = xs.getD (off + k) 0 := by
  rw [List.getD_eq_getElem?_getD, List.getD_eq_getElem?_getD, getElem?_slice, if_pos h]

/-- Two fronts that pass agree in the fields. -/
theorem Fields.agree {hdr hdr' : Bytes} (h : Fields cfg hdr) (h' : Fields cfg hdr') :
    ∀ k ∈ frameBytes, hdr'.getD k 0 = hdr.getD k 0 := by
  have hcost : ∀ k < 4, hdr'.getD (8 + k) 0 = hdr.getD (8 + k) 0 := by
    intro k hk
    rw [← getD_slice hk, ← getD_slice hk, h.cost, h'.cost]
  have hplen : ∀ k < 2, hdr'.getD (12 + k) 0 = hdr.getD (12 + k) 0 := by
    intro k hk
    rw [← getD_slice hk, ← getD_slice hk, h.plen, h'.plen]
  intro k hk
  simp only [frameBytes, List.mem_cons, List.not_mem_nil, or_false] at hk
  rcases hk with rfl | rfl | rfl | rfl | rfl | rfl | rfl | rfl
  · rw [h.version, h'.version]
  · rw [h.kdf, h'.kdf]
  · exact hcost 0 (by decide)
  · exact hcost 1 (by decide)
  · exact hcost 2 (by decide)
  · exact hcost 3 (by decide)
  · exact hplen 0 (by decide)
  · exact hplen 1 (by decide)

/-- A malformed slot is counted. -/
theorem check_malformed (hl : isLabeled cfg.backend = true) (hw : Working area) {i : Nat}
    (hi : i < nSlots cfg area) (hmagic : slice (slotAt area i) 0 4 = ksMagic)
    (hbad : ¬frameOk cfg (slice (slotAt area i) 0 lSalt)) :
    (keyslotStructuralCheck cfg area).1 = -1 := by
  have hscan := structuralScan_eq cfg hw (List.range (nSlots cfg area))
    (fun i hi => List.mem_range.mp hi) 0 0
  have hm : marked area i = true := decide_eq_true hmagic
  have hmem : i ∈ (List.range (nSlots cfg area)).filter (fun i => marked area i = true ∧
      ¬frameOk cfg (slice (slotAt area i) 0 lSalt)) := by
    rw [List.mem_filter, decide_eq_true_eq]
    exact ⟨List.mem_range.mpr hi, hm, hbad⟩
  have hpos := List.length_pos_of_mem hmem
  unfold keyslotStructuralCheck
  rw [if_neg (by simp [hl]), hscan]
  dsimp only
  rw [if_pos (by omega)]

/-- A slot whose fields were changed is malformed. -/
theorem check_damaged {start area' : KeyslotArea} (hl : isLabeled cfg.backend = true)
    (hw : Working start) (h : Framed cfg start area) (hsame : SameMedium area area') {i : Nat}
    (hi : i < nSlots cfg area) (hmagic : slice (slotAt area i) 0 4 = ksMagic)
    (hmagic' : slice (slotAt area' i) 0 4 = ksMagic)
    (hchanged : ∃ k ∈ frameBytes, (slotAt area' i).getD k 0 ≠ (slotAt area i).getD k 0) :
    (keyslotStructuralCheck cfg area').1 = -1 := by
  have hi' : i < nSlots cfg area' := by
    rw [hsame.nSlots_eq]
    exact hi
  have hfront : ∀ {a : KeyslotArea}, i < nSlots cfg a →
      lSalt ≤ (slice (slotAt a i) 0 lSalt).length := by
    intro a ha
    have hlen := length_slotAt ha
    rw [length_slice (by rw [hlen]; decide)]
  refine check_malformed hl (hw.congr (h.same.trans hsame)) hi' hmagic' ?_
  intro hok'
  obtain ⟨k, hk, hne⟩ := hchanged
  have hfields := (h.slots i hi hmagic).2.fields (hfront hi)
  have hagree := hfields.agree (hok'.fields (hfront hi')) k hk
  have hfront14 : ∀ k ∈ frameBytes, k < lSalt := by decide
  have hlt := hfront14 k hk
  rw [getD_slice hlt, getD_slice hlt, Nat.zero_add] at hagree
  exact hne hagree

end

/-- **No false alarm**: from a medium filled at random, whatever labeled calls were made, the check
finds every occupied slot well-formed, and it finds a slot malformed as soon as a field of its front
is another. -/
theorem structuralCheck_of_run (P : Primitives) (cfg : KeyslotStoreCfg) (start : KeyslotArea)
    (calls : List TableCall) (hl : isLabeled cfg.backend = true) (hw : Working start)
    (hfill : ∀ i < nSlots cfg start, marked start i = false)
    (hcalls : ∀ call ∈ calls, call.NoMagic) :
    keyslotStructuralCheck cfg (tableCalls P cfg start calls) =
        (0, some (keyslotCount cfg (tableCalls P cfg start calls), 0)) ∧
      ∀ (area' : KeyslotArea) (i : Nat), SameMedium (tableCalls P cfg start calls) area' →
        i < nSlots cfg (tableCalls P cfg start calls) →
        marked (tableCalls P cfg start calls) i = true → marked area' i = true →
        (∃ k ∈ frameBytes, (slotAt area' i).getD k 0 ≠
          (slotAt (tableCalls P cfg start calls) i).getD k 0) →
        (keyslotStructuralCheck cfg area').1 = -1 := by
  have hstart : Framed cfg start start :=
    ⟨SameMedium.refl start, fun i hi => hasFront_of_noMagic (of_decide_eq_false (hfill i hi))⟩
  have hrun : Framed cfg start (tableCalls P cfg start calls) := hstart.calls hw hl hcalls
  refine ⟨check_framed hl (hw.congr hrun.same) hrun, ?_⟩
  intro area' i hsame hi hm hm' hchanged
  exact check_damaged hl hw hrun hsame hi (of_decide_eq_true hm) (of_decide_eq_true hm') hchanged

/-- One record on a blank medium. -/
theorem structuralCheck_of_run_demo :
    keyslotStructuralCheck (.demo .header 0)
        (tableCalls .demo (.demo .header 0) (.blank 1024) [.add [1] 0 [7] .demo]) =
      (0, some (keyslotCount (.demo .header 0)
        (tableCalls .demo (.demo .header 0) (.blank 1024) [.add [1] 0 [7] .demo]), 0)) := by
  refine (structuralCheck_of_run .demo (.demo .header 0) (.blank 1024) [.add [1] 0 [7] .demo] rfl
    ⟨fun _ => rfl, fun _ => .inl rfl⟩ (by decide +kernel) ?_).1
  intro call hcall
  rw [List.mem_singleton.mp hcall]
  trivial

/-- A blank slot on which four bytes of every write land. -/
def tornSlot : KeyslotArea := { KeyslotArea.blank 1024 with writeFault := fun _ => some 4 }

/-- The deniable backend is refused, and so is a record of which only the magic landed. -/
theorem structuralCheck_alarms :
    keyslotStructuralCheck (.demo .deniable 0)
        (tableCalls .demo (.demo .deniable 0) (.blank 1024) []) = (-1, none) ∧
      keyslotStructuralCheck (.demo .header 0)
        (tableCalls .demo (.demo .header 0) tornSlot [.add [1] 0 [7] .demo]) =
        (-1, some (0, 1)) := by
  refine ⟨by decide +kernel, by decide +kernel⟩

end VeraCrypt
