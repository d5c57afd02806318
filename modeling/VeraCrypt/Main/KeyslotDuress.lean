import VeraCrypt.Main.KeyslotRotation

/-!
# Duress slots and the keyslot command

A slot with the duress flag is not to give its master key away: `Volume::Open` throws
`KeyslotDuress` when one matches. When no header accepts the password, the command asks the table
itself for the master key and does not look at the flag, so an add without `--keyslot-duress`
makes a full slot of a duress passphrase. `duress_never_full` is about the runs in which that
does not happen: no slot without the flag comes into the hands of those who know duress
passphrases only.
-/

set_option autoImplicit false

namespace VeraCrypt

open Lib

/-! ## What a slot gives a passphrase -/

/-- The payload that a slot gives a passphrase. -/
def opensTo (P : Primitives) (cfg : KeyslotStoreCfg) (pass slot : Bytes) : Option Opened :=
  let u := recUnwrapCT P cfg pass slot
  if u.1 then some (openedV1 cfg (afMerge P u.2 (plenOf cfg) (afOf cfg))) else none

def Opened.IsDuress (opened : Opened) : Prop :=
  opened.flags &&& OpenEnv.keyslotFlagDuress ≠ 0

/-- Under the passphrases of `K` the table opens duress slots only. -/
def OnlyDuress (P : Primitives) (cfg : KeyslotStoreCfg) (K : Bytes → Prop) (area : KeyslotArea) :
    Prop :=
  ∀ i < nSlots cfg area, ∀ p, K p → ∀ opened,
    opensTo P cfg p (slotAt area i) = some opened → opened.IsDuress

section
variable {P : Primitives} {cfg : KeyslotStoreCfg} {area : KeyslotArea} {K : Bytes → Prop}

theorem opensTo_of_unwrap {pass slot blob : Bytes}
    (h : recUnwrapCT P cfg pass slot = (true, blob)) :
    opensTo P cfg pass slot = some (openedV1 cfg (afMerge P blob (plenOf cfg) (afOf cfg))) := by
  unfold opensTo
  simp only [h, if_true]

/-- An open of a labeled table gives what one of its slots gives. -/
theorem opensTo_of_keyslotOpen (hl : isLabeled cfg.backend = true) (hfit : recFits cfg)
    {pass : Bytes} {opened : Opened} (h : keyslotOpen P cfg area pass = some opened) :
    ∃ i < nSlots cfg area, opensTo P cfg pass (slotAt area i) = some opened := by
  rw [keyslotOpen_labeled P hl hfit] at h
  obtain ⟨blob, hfirst, hopened⟩ := Option.map_eq_some_iff.mp h
  obtain ⟨i, hi, hmatch⟩ := List.exists_of_findSome?_eq_some hfirst
  obtain ⟨-, hunwrap⟩ := matchAt_eq_some P hmatch
  refine ⟨i, List.mem_range.mp hi, ?_⟩
  rw [opensTo_of_unwrap hunwrap]
  exact congrArg some hopened

theorem OnlyDuress.keyslotOpen (h : OnlyDuress P cfg K area)
    (hl : isLabeled cfg.backend = true) (hfit : recFits cfg) {pass : Bytes} (hpass : K pass)
    {opened : Opened} (hopen : VeraCrypt.keyslotOpen P cfg area pass = some opened) :
    opened.IsDuress := by
  obtain ⟨i, hi, hslot⟩ := opensTo_of_keyslotOpen hl hfit hopen
  exact h i hi pass hpass opened hslot

/-- What an added slot gives the new passphrase. -/
theorem Added.opensTo {before added : KeyslotArea} {i : Nat} {pass vmk : Bytes} {flags : Int}
    (h : Added P cfg before added i pass vmk flags) :
    VeraCrypt.opensTo P cfg pass (slotAt added i) = some { vmk := vmk, flags := flagByte flags } := by
  obtain ⟨blob, hunwrap, hopened⟩ := h.holds
  rw [opensTo_of_unwrap hunwrap, hopened]

end

/-! ## What an add writes -/

/-- The record of an add to a table of the command. -/
def addedRecord (P : Primitives) (cfg : KeyslotStoreCfg) (pass : Bytes) (flags : Int) (vmk : Bytes)
    (env : AddEnv) : Bytes :=
  labeledRecord P cfg pass (addSalt env) (addFill env) (flagByte flags :: vmk)

/-- Slot `i` after a write, of which the medium may have taken a part. -/
def slotWritten (area : KeyslotArea) (i : Nat) (buf : Bytes) : Bytes :=
  slotAt (area.write (i * keyslotTableStride) buf).2 i

/-- Slot `i` after a command that writes a record and erases slots. -/
def Worked (area area' : KeyslotArea) (i : Nat) (record fill : Bytes) : Prop :=
  slotAt area' i = slotAt area i ∨ slotAt area' i = slotWritten area i record ∨
    slotAt area' i = slotWritten area i fill

section
variable {P : Primitives} {cfg : KeyslotStoreCfg} {store : Bytes} {a : KeyslotFileArea}
  {area : KeyslotArea} {pass vmk : Bytes} {flags : Int} {env : AddEnv}

theorem LabeledTable.plenOf_eq (htable : LabeledTable store a cfg) : plenOf cfg = 450 := by
  rw [plenOf, if_neg (not_not.mpr htable.plain), htable.vmkLen]
  rfl

theorem LabeledTable.ctOf_eq (htable : LabeledTable store a cfg) : ctOf cfg = 450 := by
  rw [ctOf, htable.plenOf_eq, htable.unsplit]
  rfl

theorem LabeledTable.length_payload (htable : LabeledTable store a cfg)
    (hvmk : vmk.length = cfg.vmkLen.toNat) :
    (flagByte flags :: vmk).length = (ctOf cfg).toNat := by
  rw [List.length_cons, hvmk, htable.ctOf_eq, htable.vmkLen]
  rfl

theorem LabeledTable.afMerge_eq (htable : LabeledTable store a cfg) {blob : Bytes}
    (hblob : blob.length = (ctOf cfg).toNat) :
    afMerge P blob (plenOf cfg) (afOf cfg) = blob := by
  rw [htable.ctOf_eq] at hblob
  rw [htable.unsplit, htable.plenOf_eq]
  exact afMerge_one P (by decide) hblob

/-- The record is not split, so it holds flag and master key as they are. -/
theorem keyslotAdd_record (htable : LabeledTable store a cfg)
    (hvmk : vmk.length = cfg.vmkLen.toNat) :
    keyslotAdd P cfg area pass flags vmk env =
      if labeledFirstFree cfg area < 0 then (-1, area)
      else putRecord area (labeledFirstFree cfg area) (addedRecord P cfg pass flags vmk env) := by
  obtain ⟨blob, hblob, hmerge, hadd⟩ :=
    keyslotAdd_labeled P area htable.adds htable.labeled pass flags vmk env
  rw [htable.afMerge_eq hblob, addPayload_of_v1 htable.adds htable.plain hvmk] at hmerge
  rw [hadd, hmerge]
  rfl

/-- What the record gives the passphrase it was made for. -/
theorem opensTo_addedRecord (htable : LabeledTable store a cfg)
    (hvmk : vmk.length = cfg.vmkLen.toNat) :
    opensTo P cfg pass (addedRecord P cfg pass flags vmk env) =
      some { vmk := vmk, flags := flagByte flags } := by
  have hblob := @LabeledTable.length_payload _ _ _ _ flags htable hvmk
  have hunwrap := @recUnwrapCT_labeledRecord P _ pass _ _ _
    (recFits_labeled htable.labeled htable.adds.2.2)
    (RandStream.length_bytes env.rand 0 keyslotSaltSize)
    (RandStream.length_bytes env.rand keyslotSaltSize keyslotTableStride) hblob
  unfold addedRecord addSalt addFill
  rw [opensTo_of_unwrap hunwrap, htable.afMerge_eq hblob, openedV1_cons cfg _ hvmk]

theorem length_addedRecord (htable : LabeledTable store a cfg)
    (hvmk : vmk.length = cfg.vmkLen.toNat) :
    (addedRecord P cfg pass flags vmk env).length = keyslotTableStride :=
  length_labeledRecord P (recFits_labeled htable.labeled htable.adds.2.2)
    (RandStream.length_bytes _ _ _) (RandStream.length_bytes _ _ _)
    (htable.length_payload hvmk)

/-- What an add does to a table, also when it fails. -/
theorem keyslotAdd_slots (htable : LabeledTable store a cfg)
    (hvmk : vmk.length = cfg.vmkLen.toNat) :
    SameMedium area (keyslotAdd P cfg area pass flags vmk env).2 ∧
      ∀ j, slotAt (keyslotAdd P cfg area pass flags vmk env).2 j = slotAt area j ∨
        slotAt (keyslotAdd P cfg area pass flags vmk env).2 j =
          slotWritten area j (addedRecord P cfg pass flags vmk env) := by
  rw [keyslotAdd_record htable hvmk]
  by_cases hfree : labeledFirstFree cfg area < 0
  · rw [if_pos hfree]
    exact ⟨SameMedium.refl area, fun _ => Or.inl rfl⟩
  · have hfree' := Int.not_lt.mp hfree
    have hin := labeledFirstFree_lt hfree'
    have hlen := Nat.le_of_eq (@length_addedRecord P _ _ _ pass _ flags env htable hvmk)
    rw [if_neg hfree, snd_putRecord, slotOff_firstFree hfree']
    refine ⟨KeyslotArea.sameMedium_write area _ _, ?_⟩
    intro j
    by_cases hj : (labeledFirstFree cfg area).toNat = j
    · subst hj
      exact Or.inr rfl
    · exact Or.inl (slotAt_write_ne hin hlen hj)

/-- The bytes that a revocation of slot `i` writes. -/
def KeyslotMachine.fill (machine : KeyslotMachine) (i : Nat) : Bytes :=
  RandStream.bytes (machine.revoke i) 0 keyslotTableStride

/-- **What an add or a rotation does to a table**, also when it fails. -/
theorem addKeyslot_slots (htable : LabeledTable store a cfg)
    (hvmk : vmk.length = cfg.vmkLen.toNat) (scan : Nat) (rotate : Bool)
    (options : KeyslotOptions) (machine : KeyslotMachine) (password : Bytes) :
    SameMedium area (addKeyslot P cfg area scan rotate options machine password vmk).2 ∧
      ∀ j, Worked area (addKeyslot P cfg area scan rotate options machine password vmk).2 j
        (addedRecord P cfg options.keyslotPassword options.flags vmk machine.add)
        (machine.fill j) := by
  obtain ⟨hmedium, hslots⟩ := @keyslotAdd_slots P _ _ _ area options.keyslotPassword _
    options.flags machine.add htable hvmk
  have hadded : ∀ j, Worked area
      (keyslotAdd P cfg area options.keyslotPassword options.flags vmk machine.add).2 j
      (addedRecord P cfg options.keyslotPassword options.flags vmk machine.add)
      (machine.fill j) := fun j => (hslots j).imp_right Or.inl
  unfold addKeyslot
  simp only
  by_cases hfailed :
      (keyslotAdd P cfg area options.keyslotPassword options.flags vmk machine.add).1 < 0
  · rw [if_pos hfailed]
    exact ⟨hmedium, hadded⟩
  · rw [if_neg hfailed]
    by_cases hrotate : rotate = true
    · rw [if_pos hrotate]
      obtain ⟨i, hidx, -, hadd⟩ := added_of_keyslotAdd htable.labeled htable.plain hvmk
        (Int.not_lt.mp hfailed)
      rw [hidx]
      have hsearched := @searched P _ _ _ _ scan password _ _ _ machine.revoke
        htable.labeled htable.adds.2.2 hadd
      refine ⟨hsearched.medium, ?_⟩
      intro j
      by_cases htried : Attempted P cfg password i machine.revoke area (List.range scan) j
      · have hin := ((keyslotOpenAt_isSome_iff htable.labeled htable.adds.2.2).mp htried.2.1.2).1
        refine Or.inr (Or.inr ?_)
        rw [hsearched.tried j htried, keyslotRevoke_eq hin]
        simp only [slotWritten, KeyslotMachine.fill]
      · unfold Worked
        rw [hsearched.kept j htried]
        exact hadded j
    · rw [if_neg hrotate]
      exact ⟨hmedium, hadded⟩

/-- An add or a rotation fails, or its record stays in the slot it reports. -/
theorem addKeyslot_cases (htable : LabeledTable store a cfg)
    (hvmk : vmk.length = cfg.vmkLen.toNat) (scan : Nat) (rotate : Bool)
    (options : KeyslotOptions) (machine : KeyslotMachine) (password : Bytes) :
    (∃ e, (addKeyslot P cfg area scan rotate options machine password vmk).1 = .error e) ∨
    ∃ i : Nat, ((addKeyslot P cfg area scan rotate options machine password vmk).1 =
        .ok (.added i) ∨
      ∃ killed, (addKeyslot P cfg area scan rotate options machine password vmk).1 =
        .ok (.rotated i killed)) ∧
      opensTo P cfg options.keyslotPassword
        (slotAt (addKeyslot P cfg area scan rotate options machine password vmk).2 i) =
        some { vmk := vmk, flags := flagByte options.flags } := by
  unfold addKeyslot
  simp only
  by_cases hfailed :
      (keyslotAdd P cfg area options.keyslotPassword options.flags vmk machine.add).1 < 0
  · rw [if_pos hfailed]
    exact Or.inl ⟨_, rfl⟩
  · rw [if_neg hfailed]
    obtain ⟨i, hidx, -, hadd⟩ := added_of_keyslotAdd htable.labeled htable.plain hvmk
      (Int.not_lt.mp hfailed)
    right
    refine ⟨i, ?_⟩
    rw [hidx]
    by_cases hrotate : rotate = true
    · rw [if_pos hrotate]
      refine ⟨Or.inr ⟨_, rfl⟩, ?_⟩
      have hsearched := @searched P _ _ _ _ scan password _ _ _ machine.revoke
        htable.labeled htable.adds.2.2 hadd
      rw [hsearched.kept i (fun h => h.2.1.1 rfl)]
      exact hadd.opensTo
    · rw [if_neg hrotate]
      exact ⟨Or.inl rfl, hadd.opensTo⟩

end

/-! ## Who can open what -/

/-- What a write of the command leaves of a slot gives a known passphrase what it gave before,
    or, when the new passphrase is known as well, what the record gives that: nothing verifies
    by accident, not the record under a passphrase it was not made for, not the bytes of a
    revocation, not a slot that was written in part. -/
structure Unforged (P : Primitives) (cfg : KeyslotStoreCfg) (K : Bytes → Prop)
    (area : KeyslotArea) (new record : Bytes) (fill : Nat → Bytes) : Prop where
  added : ∀ i < nSlots cfg area, ∀ p, K p → ∀ opened,
    opensTo P cfg p (slotWritten area i record) = some opened →
      opensTo P cfg p (slotAt area i) = some opened ∨
        K new ∧ opensTo P cfg new record = some opened
  erased : ∀ i < nSlots cfg area, ∀ p, K p → ∀ opened,
    opensTo P cfg p (slotWritten area i (fill i)) = some opened →
      opensTo P cfg p (slotAt area i) = some opened

section
variable {P : Primitives} {cfg : KeyslotStoreCfg} {store : Bytes} {a : KeyslotFileArea}
  {area : KeyslotArea} {vmk : Bytes} {K : Bytes → Prop}

theorem OnlyDuress.congr {area' : KeyslotArea} (h : OnlyDuress P cfg K area)
    (hbytes : area'.bytes = area.bytes) : OnlyDuress P cfg K area' := by
  have hsize : area'.size = area.size := congrArg List.length hbytes
  intro i hi p hp opened hopened
  rw [nSlots_congr hsize] at hi
  unfold slotAt at hopened
  rw [hbytes] at hopened
  exact h i hi p hp opened hopened

theorem isDuress_of_flag {options : KeyslotOptions} (h : options.keyslotDuress = true) :
    Opened.IsDuress { vmk := vmk, flags := flagByte options.flags } := by
  unfold Opened.IsDuress KeyslotOptions.flags
  rw [if_pos h]
  show flagByte (OpenEnv.keyslotFlagDuress.toNat : Int) &&& OpenEnv.keyslotFlagDuress ≠ 0
  decide

/-- A table that opened duress slots only does so after an add whose slot, if anyone of `K` can
    open it, has the flag. -/
theorem OnlyDuress.addKeyslot (h : OnlyDuress P cfg K area) (htable : LabeledTable store a cfg)
    (hvmk : vmk.length = cfg.vmkLen.toNat) {options : KeyslotOptions} {machine : KeyslotMachine}
    (hunforged : Unforged P cfg K area options.keyslotPassword
      (addedRecord P cfg options.keyslotPassword options.flags vmk machine.add) machine.fill)
    (hnew : K options.keyslotPassword → options.keyslotDuress = true) (scan : Nat) (rotate : Bool)
    (password : Bytes) :
    OnlyDuress P cfg K
      (VeraCrypt.addKeyslot P cfg area scan rotate options machine password vmk).2 := by
  obtain ⟨hmedium, hslots⟩ := @addKeyslot_slots P _ _ _ area _ htable hvmk scan rotate
    options machine password
  intro i hi p hp opened hopened
  rw [hmedium.nSlots_eq cfg] at hi
  rcases hslots i with hsame | hrecord | herased
  · rw [hsame] at hopened
    exact h i hi p hp opened hopened
  · rw [hrecord] at hopened
    rcases hunforged.added i hi p hp opened hopened with hbefore | ⟨hknown, hgives⟩
    · exact h i hi p hp opened hbefore
    · rw [opensTo_addedRecord htable hvmk] at hgives
      rw [← Option.some.inj hgives]
      exact isDuress_of_flag (hnew hknown)
  · rw [herased] at hopened
    exact h i hi p hp opened (hunforged.erased i hi p hp opened hopened)

end

/-! ## The tables of the files -/

/-- A slot of a window, in the file. -/
theorem KeyslotFileArea.slotAt_area {a : KeyslotFileArea} {file : Bytes} {io : KeyslotFileIo}
    {i : Nat} (h : i * keyslotTableStride + keyslotTableStride ≤ a.len.toNat) :
    slotAt (a.area file io) i =
      slice file (a.base.toNat + i * keyslotTableStride) keyslotTableStride :=
  slice_slice h

/-- The window of a labeled backend. -/
def labeledWindow (store : Bytes) : KeyslotBackend → KeyslotFileArea
  | .sidecar => keyslotBindSidecar store
  | .header | .deniable => keyslotBindHeaderSlack

/-- The configuration of a labeled backend. -/
def labeledCfg (kdf : KeyslotKdfFn) : KeyslotBackend → KeyslotStoreCfg
  | .sidecar => keyslotSidecarCfg kdf (1 + keyslotPayloadSize)
  | .header | .deniable => keyslotHeaderCfg kdf (1 + keyslotPayloadSize)

theorem keyslotBind_eq {backend : KeyslotBackend} (hl : isLabeled backend = true)
    (kdf : KeyslotKdfFn) (store : Bytes) :
    keyslotBind kdf store backend = some (labeledWindow store backend, labeledCfg kdf backend) := by
  cases backend with
  | header => rfl
  | sidecar => rfl
  | deniable => cases hl

theorem recFits_labeledCfg (kdf : KeyslotKdfFn) (backend : KeyslotBackend) :
    recFits (labeledCfg kdf backend) := by
  cases backend <;> exact (show (46 : Int) + 450 + 32 ≤ 1024 by decide)

/-- Under the passphrases of `K` the tables in the files open duress slots only. -/
structure KnowsOnlyDuress (P : Primitives) (kdf : KeyslotKdfFn) (K : Bytes → Prop)
    (files : KeyslotFiles) : Prop where
  header : ∀ io, OnlyDuress P (labeledCfg kdf .header) K
    (keyslotBindHeaderSlack.area files.container io)
  sidecar : ∀ bytes, files.sidecar = some bytes → ∀ io,
    OnlyDuress P (labeledCfg kdf .sidecar) K ((keyslotBindSidecar bytes).area bytes io)

section
variable {P : Primitives} {kdf : KeyslotKdfFn} {K : Bytes → Prop} {files : KeyslotFiles}

/-- A command changes one table. -/
theorem KnowsOnlyDuress.put (h : KnowsOnlyDuress P kdf K files) {backend : KeyslotBackend}
    (hl : isLabeled backend = true) {store : Bytes} {io : KeyslotFileIo}
    (htable : OnlyDuress P (labeledCfg kdf backend) K
      ((labeledWindow store backend).area store io)) :
    KnowsOnlyDuress P kdf K (files.put store backend) := by
  cases backend with
  | header => exact ⟨fun _ => htable.congr rfl, h.sidecar⟩
  | sidecar =>
    refine ⟨h.header, ?_⟩
    rintro bytes hbytes io'
    obtain rfl := Option.some.inj hbytes
    exact htable.congr rfl
  | deniable => cases hl

/-- The store keeps its length, so its window stays where it is. -/
theorem labeledWindow_store {backend : KeyslotBackend} {store : Bytes} {io : KeyslotFileIo}
    {area : KeyslotArea} (hinside : (labeledWindow store backend).Inside store)
    (hmedium : SameMedium ((labeledWindow store backend).area store io) area) :
    labeledWindow ((labeledWindow store backend).store store area) backend =
      labeledWindow store backend := by
  have hlen := KeyslotFileArea.length_store hinside
    (hmedium.size_eq.trans (hinside.size_area io))
  cases backend with
  | header => rfl
  | deniable => rfl
  | sidecar =>
    unfold labeledWindow keyslotBindSidecar at hlen ⊢
    rw [hlen]

end

/-! ## Runs of the command -/

/-- An add or a rotation on a labeled table, by a program whose primitives are `P` and whose
    parallel executor runs every job once. -/
structure KeyslotStep (P : Primitives) (kdf : KeyslotKdfFn) where
  env : OpenEnv
  machine : KeyslotMachine
  rotate : Bool
  options : KeyslotOptions
  prims : env.P = P
  derives : env.keyslotKdf = kdf
  executor : ∀ round n, (env.parallelFor round n).Perm (List.range n)
  labeled : isLabeled options.backend = true

namespace KeyslotStep

variable {P : Primitives} {kdf : KeyslotKdfFn}

def command (s : KeyslotStep P kdf) : KeyslotCommandId := if s.rotate then .rotate else .add

def exec (files : KeyslotFiles) (s : KeyslotStep P kdf) :
    KeyslotFiles × Except KeyslotError KeyslotReport :=
  let r := keyslotCommand s.env s.machine s.command s.options files
  (r.2, r.1)

def store (s : KeyslotStep P kdf) (files : KeyslotFiles) : Bytes :=
  files.store s.machine s.options.backend

def cfg (s : KeyslotStep P kdf) : KeyslotStoreCfg := labeledCfg kdf s.options.backend

/-- The table that the step works on. -/
def area (s : KeyslotStep P kdf) (files : KeyslotFiles) : KeyslotArea :=
  (labeledWindow (s.store files) s.options.backend).area (s.store files)
    (storeIo s.env s.machine s.options.backend)

/-- The slot of the table that the passphrase given opens has the duress flag. -/
def MatchesDuress (s : KeyslotStep P kdf) (files : KeyslotFiles) : Prop :=
  ∃ password opened, s.options.password = some password ∧
    keyslotOpen P s.cfg (s.area files) password = some opened ∧ opened.IsDuress

/-- The step fails, or the slot it enrols has the duress flag. -/
def EnrolsDuress (s : KeyslotStep P kdf) (files : KeyslotFiles) : Prop :=
  (∃ e, (exec files s).2 = .error e) ∨
  ∃ i : Nat, ((exec files s).2 = .ok (.added i) ∨
      ∃ killed, (exec files s).2 = .ok (.rotated i killed)) ∧
    ∃ opened, opensTo P s.cfg s.options.keyslotPassword (slotAt (s.area (exec files s).1) i) =
      some opened ∧ opened.IsDuress

/-- What keeps a duress passphrase from a full slot: the flag is asked for again, or it is not
    one, or `Volume::Open` ends with another exception than that for a wrong password. -/
def Guarded (s : KeyslotStep P kdf) (files : KeyslotFiles) : Prop :=
  s.options.keyslotDuress = true ∨ ¬ s.MatchesDuress files ∨
    ∃ e, openVolume (s.env.on files.container) s.machine.mem s.options.request = .error e ∧
      e.isPasswordException = false

/-- A passphrase of `K` is enrolled as a duress passphrase, or by someone who authorises with a
    passphrase of `K` that no header accepts. -/
def Within (K : Bytes → Prop) (files : KeyslotFiles) (s : KeyslotStep P kdf) : Prop :=
  K s.options.keyslotPassword → s.options.keyslotDuress = true ∨
    (∀ password, s.options.password = some password → K password) ∧
      K s.options.passwordWithKeyfiles ∧
      ∀ found, (s.env.on files.container).findHeader s.options.request ≠ .ok (some found)

/-- What a step does not give away to those who know `K`. -/
structure Secret (K : Bytes → Prop) (files : KeyslotFiles) (s : KeyslotStep P kdf) : Prop where
  within : Within K files s
  /-- A sidecar that the step creates holds nothing that they open. -/
  fresh : s.options.backend = .sidecar → files.sidecar = none →
    OnlyDuress P s.cfg K (s.area files)
  unforged : ∀ password vmk, s.options.password = some password →
    recoverVmk s.env s.machine s.options files.container (s.store files) password = .ok vmk →
    Unforged P s.cfg K (s.area files) s.options.keyslotPassword
      (addedRecord P s.cfg s.options.keyslotPassword s.options.flags vmk s.machine.add)
      s.machine.fill

variable {s : KeyslotStep P kdf} {files : KeyslotFiles} {K : Bytes → Prop}

theorem bind_eq (s : KeyslotStep P kdf) (files : KeyslotFiles) :
    keyslotBind s.env.keyslotKdf (files.store s.machine s.options.backend) s.options.backend =
      some (labeledWindow (s.store files) s.options.backend, s.cfg) := by
  rw [keyslotBind_eq s.labeled, s.derives]
  rfl

theorem table (s : KeyslotStep P kdf) (hsized : files.Sized) :
    LabeledTable (s.store files) (labeledWindow (s.store files) s.options.backend) s.cfg :=
  keyslotBind_labeled hsized s.labeled (s.bind_eq files)

/-- Where a step got to, with what it did to the table. -/
theorem exec_cases (s : KeyslotStep P kdf) (files : KeyslotFiles) :
    (∃ e, exec files s = (files, .error e)) ∨
    (∃ e, exec files s = (files.put (s.store files) s.options.backend, .error e)) ∨
    ∃ password vmk, s.options.password = some password ∧
      recoverVmk s.env s.machine s.options files.container (s.store files) password = .ok vmk ∧
      let r := addKeyslot P s.cfg (s.area files) (scanSlots s.cfg
        (labeledWindow (s.store files) s.options.backend).len) s.rotate s.options s.machine
        password vmk
      exec files s = (files.put ((labeledWindow (s.store files) s.options.backend).store
        (s.store files) r.2) s.options.backend, r.1) := by
  have hcommand : s.command = .add ∨ s.command = .rotate := by
    unfold command
    cases s.rotate with
    | false => exact Or.inl rfl
    | true => exact Or.inr rfl
  have hrotate : decide (s.command = .rotate) = s.rotate := by
    unfold command
    cases s.rotate <;> rfl
  unfold exec
  rcases @keyslotCommand_add_cases s.env s.machine s.options files _ hcommand with ⟨e, h⟩ | ⟨e, h⟩ | ⟨password, vmk, a, cfg, henrols, h⟩
  · rw [h]
    exact Or.inl ⟨e, rfl⟩
  · rw [h]
    exact Or.inr (Or.inl ⟨e, rfl⟩)
  · have hbound := henrols.bound
    rw [s.bind_eq files] at hbound
    obtain ⟨rfl, rfl⟩ := Prod.mk.inj (Option.some.inj hbound)
    refine Or.inr (Or.inr ⟨password, vmk, henrols.given, henrols.recovered, ?_⟩)
    rw [h, hrotate, s.prims]
    rfl

/-- The table after a step that wrote to it. -/
theorem area_written (s : KeyslotStep P kdf) (hsized : files.Sized) {area' : KeyslotArea}
    (hmedium : SameMedium (s.area files) area') :
    s.area (files.put ((labeledWindow (s.store files) s.options.backend).store (s.store files)
      area') s.options.backend) = area' := by
  have hinside := (s.table hsized).inside
  have hstore : s.store (files.put ((labeledWindow (s.store files) s.options.backend).store
      (s.store files) area') s.options.backend) =
      (labeledWindow (s.store files) s.options.backend).store (s.store files) area' :=
    KeyslotFiles.store_put _ _
  unfold area
  rw [hstore, labeledWindow_store hinside hmedium]
  exact area_store_of_sameMedium hinside hmedium

/-- The files of a step that wrote to its table, in the sizes they had. -/
theorem sized_put (s : KeyslotStep P kdf) (hsized : files.Sized) {store : Bytes}
    (hlen : store.length = (s.store files).length) :
    (files.put store s.options.backend).Sized := by
  have hmax := (s.table hsized).inside.addressable
  rw [← hlen] at hmax
  have hlabeled := s.labeled
  cases hb : s.options.backend with
  | header =>
    have hcontainer : store.length = files.container.length := by
      rw [hlen]
      unfold KeyslotStep.store
      rw [hb]
      rfl
    refine ⟨?_, hmax, hsized.sidecar⟩
    show volumeHeaderSize ≤ store.length
    rw [hcontainer]
    exact hsized.header
  | deniable =>
    rw [hb] at hlabeled
    cases hlabeled
  | sidecar =>
    refine ⟨hsized.header, hsized.container, ?_⟩
    rintro bytes hbytes
    obtain rfl := Option.some.inj hbytes
    exact hmax

/-- Files keep their sizes. -/
theorem sized_exec (s : KeyslotStep P kdf) (hsized : files.Sized) : (exec files s).1.Sized := by
  rcases s.exec_cases files with ⟨e, h⟩ | ⟨e, h⟩ | ⟨password, vmk, hgiven, hvmk, h⟩
  · rw [h]
    exact hsized
  · rw [h]
    exact s.sized_put hsized rfl
  · have htable := s.table hsized
    have hlen : vmk.length = s.cfg.vmkLen.toNat := by
      rw [length_recoverVmk hsized s.labeled hvmk, htable.vmkLen]
      rfl
    obtain ⟨hmedium, -⟩ := @addKeyslot_slots P _ _ _ (s.area files) _ htable hlen
      (scanSlots s.cfg (labeledWindow (s.store files) s.options.backend).len) s.rotate s.options
      s.machine password
    rw [h]
    exact s.sized_put hsized (KeyslotFileArea.length_store htable.inside
      (hmedium.size_eq.trans (htable.inside.size_area _)))

theorem length_vmk (s : KeyslotStep P kdf) (hsized : files.Sized) {password vmk : Bytes}
    (h : recoverVmk s.env s.machine s.options files.container (s.store files) password =
      .ok vmk) : vmk.length = s.cfg.vmkLen.toNat := by
  rw [length_recoverVmk hsized s.labeled h, (s.table hsized).vmkLen]
  rfl

/-- An open of the header area does not depend on how the area is written to. -/
theorem keyslotOpen_congr {cfg : KeyslotStoreCfg} {area area' : KeyslotArea}
    (hbytes : area'.bytes = area.bytes) (hreads : area'.readFails = area.readFails)
    (hl : isLabeled cfg.backend = true) (hfit : recFits cfg) (pass : Bytes) :
    keyslotOpen P cfg area' pass = keyslotOpen P cfg area pass := by
  have hsize : area'.size = area.size := congrArg List.length hbytes
  rw [keyslotOpen_labeled P hl hfit, keyslotOpen_labeled P hl hfit]
  unfold firstMatch matchAt KeyslotArea.read
  rw [nSlots_congr hsize, hsize, hreads, hbytes]

/-- `Volume::Open` searches the header area as the command does. -/
theorem openSlot_eq (s : KeyslotStep P kdf) (hsized : files.Sized) :
    (s.env.on files.container).openSlot s.machine.mem s.options.request =
      keyslotOpen P (labeledCfg kdf .header) (keyslotBindHeaderSlack.area files.container
        (storeIo s.env s.machine .header)) s.options.passwordWithKeyfiles := by
  have hbytes := @OpenEnv.keyslotArea_bytes (s.env.on files.container) s.machine.mem
    hsized.header
  have hreads : ((s.env.on files.container).keyslotArea s.machine.mem).readFails =
      (keyslotBindHeaderSlack.area files.container (storeIo s.env s.machine .header)).readFails := by
    funext off
    show s.env.readFails (UInt64.ofNat (512 + off)) = s.env.readFails (512 + UInt64.ofNat off)
    rw [UInt64.ofNat_add]
    rfl
  have hcfg : (s.env.on files.container).keyslotCfg = labeledCfg kdf .header := by
    have hderives : (s.env.on files.container).keyslotKdf = kdf := s.derives
    unfold OpenEnv.keyslotCfg
    rw [hderives]
    rfl
  have hprims : (s.env.on files.container).P = P := s.prims
  have hexecutor : ∀ round n,
      ((s.env.on files.container).parallelFor round n).Perm (List.range n) := s.executor
  unfold OpenEnv.openSlot
  rw [keyslotOpenParallel_eq_keyslotOpen _ hexecutor, hprims, hcfg]
  exact keyslotOpen_congr hbytes hreads rfl (recFits_labeledCfg kdf .header) _

/-- Who knows duress passphrases only does not get the master key with one that no header
    accepts, where the step is guarded. -/
theorem not_recovered (s : KeyslotStep P kdf) (hsized : files.Sized)
    (honly : KnowsOnlyDuress P kdf K files) (htable : OnlyDuress P s.cfg K (s.area files))
    (hguarded : s.Guarded files) (hflag : ¬ s.options.keyslotDuress = true)
    (hkeyfiles : K s.options.passwordWithKeyfiles)
    (hheader : ∀ found,
      (s.env.on files.container).findHeader s.options.request ≠ .ok (some found))
    {password vmk : Bytes} (hgiven : s.options.password = some password) (hpass : K password) :
    recoverVmk s.env s.machine s.options files.container (s.store files) password ≠ .ok vmk := by
  intro h
  unfold recoverVmk at h
  simp only at h
  cases hopen : openVolume (s.env.on files.container) s.machine.mem s.options.request with
  | ok v =>
    rcases OpenEnv.openWith_ok hopen with ⟨layout, header, w, hfind, -, -⟩ | ⟨-, hslot⟩
    · exact hheader _ hfind
    · obtain ⟨opened, header, hopened, -, -⟩ := OpenEnv.openKeyslot_some hslot
      have hzero := OpenEnv.openKeyslot_not_duress hslot hopened
      rw [s.openSlot_eq hsized] at hopened
      exact (honly.header _).keyslotOpen rfl (recFits_labeledCfg kdf .header) hkeyfiles hopened
        hzero
  | error e =>
    simp only [hopen] at h
    by_cases hexc : e.isPasswordException = true
    · rw [if_pos hexc] at h
      have hbind : keyslotBind s.env.keyslotKdf (s.store files) s.options.backend = _ :=
        s.bind_eq files
      rw [hbind] at h
      simp only at h
      cases hslot : keyslotOpen P s.cfg (s.area files) password with
      | none =>
        rw [s.prims] at h
        unfold KeyslotStep.area at hslot
        rw [hslot] at h
        cases h
      | some opened =>
        have htab := s.table hsized
        have hduress := htable.keyslotOpen htab.labeled htab.adds.2.2 hpass hslot
        rcases hguarded with hasked | hnot | ⟨e', he', hother⟩
        · exact hflag hasked
        · exact hnot ⟨password, opened, hgiven, hslot, hduress⟩
        · rw [hopen] at he'
          obtain rfl := Except.error.inj he'
          rw [hother] at hexc
          cases hexc
    · rw [if_neg hexc] at h
      cases h

theorem knowsOnlyDuress_written (s : KeyslotStep P kdf) (hsized : files.Sized)
    (honly : KnowsOnlyDuress P kdf K files) {area' : KeyslotArea}
    (hmedium : SameMedium (s.area files) area') (hafter : OnlyDuress P s.cfg K area') :
    KnowsOnlyDuress P kdf K (files.put ((labeledWindow (s.store files) s.options.backend).store
      (s.store files) area') s.options.backend) := by
  have hinside := (s.table hsized).inside
  refine @KnowsOnlyDuress.put _ _ _ _ honly _ s.labeled _
    (storeIo s.env s.machine s.options.backend) ?_
  rw [labeledWindow_store hinside hmedium, area_store_of_sameMedium hinside hmedium]
  exact hafter

/-- **The step lemma of the secret.** -/
theorem knowsOnlyDuress_exec (s : KeyslotStep P kdf) (hsized : files.Sized)
    (honly : KnowsOnlyDuress P kdf K files) (hguarded : s.Guarded files)
    (hsecret : s.Secret K files) : KnowsOnlyDuress P kdf K (exec files s).1 := by
  have hlabeled := s.labeled
  have htab := s.table hsized
  -- the table before the step, also when the step creates it
  have htable : OnlyDuress P s.cfg K (s.area files) := by
    have hfresh := hsecret.fresh
    unfold KeyslotStep.cfg KeyslotStep.area KeyslotStep.store at hfresh ⊢
    cases hb : s.options.backend with
    | header => exact honly.header _
    | deniable =>
      rw [hb] at hlabeled
      cases hlabeled
    | sidecar =>
      cases hside : files.sidecar with
      | none =>
        rw [hb] at hfresh
        exact hfresh rfl hside
      | some bytes =>
        have hstore : files.store s.machine .sidecar = bytes := by
          unfold KeyslotFiles.store
          rw [hside, Option.getD_some]
        rw [hstore]
        exact honly.sidecar bytes hside _
  rcases s.exec_cases files with ⟨e, h⟩ | ⟨e, h⟩ | ⟨password, vmk, hgiven, hvmk, h⟩
  · rw [h]
    exact honly
  · rw [h]
    exact honly.put hlabeled htable
  · have hlen := s.length_vmk hsized hvmk
    have hnew : K s.options.keyslotPassword → s.options.keyslotDuress = true := by
      intro hknown
      by_contra hflag
      rcases hsecret.within hknown with hasked | ⟨hpass, hkeyfiles, hheader⟩
      · exact hflag hasked
      · exact s.not_recovered hsized honly htable hguarded hflag hkeyfiles hheader hgiven
          (hpass password hgiven) hvmk
    have hunforged := hsecret.unforged password vmk hgiven hvmk
    have hafter := htable.addKeyslot htab hlen hunforged hnew (scanSlots s.cfg
      (labeledWindow (s.store files) s.options.backend).len) s.rotate password
    obtain ⟨hmedium, -⟩ := @addKeyslot_slots P _ _ _ (s.area files) _ htab hlen
      (scanSlots s.cfg (labeledWindow (s.store files) s.options.backend).len) s.rotate s.options
      s.machine password
    rw [h]
    exact s.knowsOnlyDuress_written hsized honly hmedium hafter

/-- What a step enrols has the flag that was asked for. -/
theorem enrols_cases (s : KeyslotStep P kdf) (hsized : files.Sized) :
    (∃ e, (exec files s).2 = .error e) ∨
    ∃ password vmk, ∃ i : Nat, s.options.password = some password ∧
      recoverVmk s.env s.machine s.options files.container (s.store files) password = .ok vmk ∧
      ((exec files s).2 = .ok (.added i) ∨
        ∃ killed, (exec files s).2 = .ok (.rotated i killed)) ∧
      opensTo P s.cfg s.options.keyslotPassword (slotAt (s.area (exec files s).1) i) =
        some { vmk := vmk, flags := flagByte s.options.flags } := by
  rcases s.exec_cases files with ⟨e, h⟩ | ⟨e, h⟩ | ⟨password, vmk, hgiven, hvmk, h⟩
  · exact Or.inl ⟨e, congrArg Prod.snd h⟩
  · exact Or.inl ⟨e, congrArg Prod.snd h⟩
  · have htab := s.table hsized
    have hlen := s.length_vmk hsized hvmk
    obtain ⟨hmedium, -⟩ := @addKeyslot_slots P _ _ _ (s.area files) _ htab hlen
      (scanSlots s.cfg (labeledWindow (s.store files) s.options.backend).len) s.rotate s.options
      s.machine password
    rw [h]
    simp only
    rw [s.area_written hsized hmedium]
    rcases @addKeyslot_cases P _ _ _ (s.area files) _ htab hlen
        (scanSlots s.cfg (labeledWindow (s.store files) s.options.backend).len) s.rotate s.options
        s.machine password with herr | ⟨i, hreport, hslot⟩
    · exact Or.inl herr
    · exact Or.inr ⟨password, vmk, i, hgiven, hvmk, hreport, hslot⟩

/-- **The step lemma of the flag.** -/
theorem enrolsDuress_of_guarded (s : KeyslotStep P kdf) (hsized : files.Sized)
    (hguarded : s.Guarded files) (hmatch : s.MatchesDuress files) : s.EnrolsDuress files := by
  rcases s.enrols_cases hsized with herr | ⟨password, vmk, i, -, hvmk, hreport, hslot⟩
  · exact Or.inl herr
  · rcases hguarded with hasked | hnot | ⟨e, hopen, hother⟩
    · exact Or.inr ⟨i, hreport, _, hslot, isDuress_of_flag hasked⟩
    · exact absurd hmatch hnot
    · unfold recoverVmk at hvmk
      simp only [hopen, hother] at hvmk
      cases hvmk

/-- Of a step that reports success, with a passphrase that a duress slot matches, the guard is
    all there is. -/
theorem guarded_of_enrolsDuress (s : KeyslotStep P kdf) (hsized : files.Sized)
    {report : KeyslotReport} (hok : (exec files s).2 = .ok report)
    (h : s.EnrolsDuress files) : s.Guarded files := by
  rcases s.enrols_cases hsized with ⟨e, herr⟩ | ⟨password, vmk, i, -, -, hreport, hslot⟩
  · rw [herr] at hok
    cases hok
  · rcases h with ⟨e, herr⟩ | ⟨i', hreport', opened, hopened, hduress⟩
    · rw [herr] at hok
      cases hok
    · have hsame : i' = i := by
        rcases hreport with hr | ⟨killed, hr⟩ <;> rcases hreport' with hr' | ⟨killed', hr'⟩ <;>
          rw [hr] at hr' <;> cases hr' <;> rfl
      subst hsame
      rw [hslot] at hopened
      obtain rfl := Option.some.inj hopened
      left
      by_contra hflag
      unfold Opened.IsDuress KeyslotOptions.flags at hduress
      rw [if_neg hflag] at hduress
      exact hduress (show flagByte 0 &&& OpenEnv.keyslotFlagDuress = 0 by decide)

/-- The table of the header is guarded by `Volume::Open` itself, without keyfiles and where no
    header accepts the password. -/
theorem guarded_of_header (s : KeyslotStep P kdf) (hsized : files.Sized)
    (hbackend : s.options.backend = .header)
    (hplain : s.options.password = some s.options.passwordWithKeyfiles)
    (hfind : (s.env.on files.container).findHeader s.options.request = .ok none) :
    s.Guarded files := by
  by_cases hmatch : s.MatchesDuress files
  · obtain ⟨password, opened, hgiven, hslot, hduress⟩ := hmatch
    obtain rfl : s.options.passwordWithKeyfiles = password :=
      Option.some.inj (hplain.symm.trans hgiven)
    unfold KeyslotStep.cfg KeyslotStep.area KeyslotStep.store at hslot
    rw [hbackend] at hslot
    have hopen := s.openSlot_eq hsized
    rw [show keyslotOpen P (labeledCfg kdf .header) (keyslotBindHeaderSlack.area files.container
      (storeIo s.env s.machine .header)) s.options.passwordWithKeyfiles = some opened from hslot]
      at hopen
    refine Or.inr (Or.inr ⟨.keyslotDuress, ?_, rfl⟩)
    have hkeyslot : (s.env.on files.container).openKeyslot s.machine.mem s.options.request =
        .error .keyslotDuress := by
      unfold OpenEnv.openKeyslot
      have hflag : opened.flags &&& OpenEnv.keyslotFlagDuress ≠ 0 := hduress
      rw [if_neg (by simp [KeyslotOptions.request]), hopen]
      simp only
      rw [if_pos hflag]
    unfold openVolume OpenEnv.openWith
    rw [hfind, hkeyslot]
  · exact Or.inr (Or.inl hmatch)

end KeyslotStep

/-- **No full slot comes of duress passphrases.** In a run whose steps are all guarded, a step
    that authorises with a passphrase whose slot has the duress flag fails or enrols a slot with
    the flag; and those who know passphrases of duress slots only, and of no header, open duress
    slots only at the end of it as well. -/
theorem duress_never_full {P : Primitives} {kdf : KeyslotKdfFn} (files : KeyslotFiles)
    (steps : List (KeyslotStep P kdf)) (hsized : files.Sized)
    (hguarded : Along KeyslotStep.exec (fun files s => s.Guarded files) files steps) :
    Along KeyslotStep.exec (fun files s => s.MatchesDuress files → s.EnrolsDuress files) files
        steps ∧
      ∀ K, KnowsOnlyDuress P kdf K files →
        Along KeyslotStep.exec (fun files s => s.Secret K files) files steps →
        KnowsOnlyDuress P kdf K (run KeyslotStep.exec files steps).1 := by
  constructor
  · exact @along_mono _ _ _ _ _ _ KeyslotFiles.Sized (fun _ s hs _ => s.sized_exec hs)
      (fun _ s hs hg hmatch => s.enrolsDuress_of_guarded hs hg hmatch) _ _ hsized hguarded
  · intro K honly hsecret
    have hstep : ∀ files (s : KeyslotStep P kdf),
        files.Sized ∧ KnowsOnlyDuress P kdf K files → s.Guarded files ∧ s.Secret K files →
        (KeyslotStep.exec files s).1.Sized ∧
          KnowsOnlyDuress P kdf K (KeyslotStep.exec files s).1 := by
      rintro files s ⟨hs, hk⟩ ⟨hg, hsec⟩
      exact ⟨s.sized_exec hs, s.knowsOnlyDuress_exec hs hk hg hsec⟩
    exact (@run_invariant _ _ _ _ _ (fun files => files.Sized ∧ KnowsOnlyDuress P kdf K files) hstep
      _ _ ⟨hsized, honly⟩ (along_and hguarded hsecret)).2

/-! ## A container with nothing in its slots -/

/-- What is left of a slot of a medium that takes every write. -/
theorem slotWritten_of_writes {cfg : KeyslotStoreCfg} {area : KeyslotArea} {i : Nat} {buf : Bytes}
    (hi : i < nSlots cfg area) (hbuf : buf.length = keyslotTableStride)
    (hwrites : ∀ off, area.writeFault off = none) : slotWritten area i buf = buf := by
  have hsize := slot_le_size hi
  unfold slotWritten
  rw [KeyslotArea.write_of_ok (by rw [hbuf]; exact hsize) (hwrites _)]
  exact slotAt_put_self hi hbuf

/-- The first slot of a table answers an open that it matches. -/
theorem Added.keyslotOpen_first {P : Primitives} {cfg : KeyslotStoreCfg}
    {before added : KeyslotArea} {pass vmk : Bytes} {flags : Int}
    (h : Added P cfg before added 0 pass vmk flags) (hl : isLabeled cfg.backend = true)
    (hfit : recFits cfg) (hreads : ∀ off, before.readFails off = false) :
    keyslotOpen P cfg added pass = some { vmk := vmk, flags := flagByte flags } := by
  obtain ⟨blob, hunwrap, hopened⟩ := h.holds
  have hin : 0 < nSlots cfg added := by
    rw [h.medium.nSlots_eq cfg]
    exact h.inTable
  have hread : added.read (0 * keyslotTableStride) keyslotTableStride = some (slotAt added 0) :=
    KeyslotArea.read_of_ok (slot_le_size hin) (by rw [h.medium.reads]; exact hreads _)
  have hmatch : matchAt P cfg added pass 0 = some blob := by
    rw [matchAt_of_read P hread, hunwrap]
    rfl
  have hfirst : firstMatch P cfg added pass = some blob := by
    unfold firstMatch
    rw [findSome?_range_eq_some_iff]
    exact ⟨0, hin, hmatch, fun j hj => absurd hj (Nat.not_lt_zero j)⟩
  rw [keyslotOpen_labeled P hl hfit, hfirst, Option.map_some, hopened]

/-- An open that neither a header nor a slot accepts. -/
theorem openVolume_wrongPassword {env : OpenEnv} {mem : OpenMemory} {req : OpenRequest}
    (hfind : env.findHeader req = .ok none) (hslot : env.openSlot mem req = none) :
    openVolume env mem req = .error (env.wrongPassword req) := by
  have hkeyslot : env.openKeyslot mem req = .ok none := by
    unfold OpenEnv.openKeyslot
    rw [hslot]
    simp only [ite_self]
  unfold openVolume OpenEnv.openWith
  rw [hfind, hkeyslot]

/-- The report of an add that succeeded. -/
theorem addKeyslot_added {P : Primitives} {cfg : KeyslotStoreCfg} {area : KeyslotArea}
    {scan : Nat} {options : KeyslotOptions} {machine : KeyslotMachine} {password vmk : Bytes}
    {idx : Int}
    (hadd : (keyslotAdd P cfg area options.keyslotPassword options.flags vmk machine.add).1 = idx)
    (hidx : 0 ≤ idx) :
    (addKeyslot P cfg area scan false options machine password vmk).1 = .ok (.added idx) := by
  unfold addKeyslot
  simp only
  rw [hadd, if_neg (Int.not_lt.mpr hidx), if_neg (by decide)]

/-- The answer of an add whose record was written. -/
theorem KeyslotStep.exec_added {P : Primitives} {kdf : KeyslotKdfFn} (s : KeyslotStep P kdf)
    (files : KeyslotFiles) (hrotate : s.rotate = false)
    (hpath : ¬ (s.options.backend = .sidecar ∧ s.options.hasSidecarPath = false))
    {password vmk : Bytes} {idx : Int} (hgiven : s.options.password = some password)
    (hvmk : recoverVmk s.env s.machine s.options files.container (s.store files) password =
      .ok vmk)
    (hadd : (keyslotAdd P s.cfg (s.area files) s.options.keyslotPassword s.options.flags vmk
      s.machine.add).1 = idx) (hidx : 0 ≤ idx) :
    (KeyslotStep.exec files s).2 = .ok (.added idx) := by
  have henrols : Enrols s.env s.machine s.options files password vmk
      (labeledWindow (s.store files) s.options.backend) s.cfg := ⟨hgiven, hvmk, s.bind_eq files⟩
  have hkind : decide (KeyslotCommandId.add = .rotate) = false := rfl
  have hrun := keyslotCommand_of_enrols (Or.inl rfl) hpath henrols
  rw [hkind, s.prims] at hrun
  unfold KeyslotStep.exec KeyslotStep.command
  rw [if_neg (by rw [hrotate]; decide), hrun]
  exact addKeyslot_added hadd hidx

/-- The master key of a slot, where the volume does not open. -/
theorem recoverVmk_of_slot {env : OpenEnv} {machine : KeyslotMachine} {options : KeyslotOptions}
    {container store password : Bytes} {e : Exception} {a : KeyslotFileArea}
    {cfg : KeyslotStoreCfg} {opened : Opened}
    (hopen : openVolume (env.on container) machine.mem options.request = .error e)
    (hpass : e.isPasswordException = true)
    (hbind : keyslotBind env.keyslotKdf store options.backend = some (a, cfg))
    (hslot : keyslotOpen env.P cfg (a.area store (storeIo env machine options.backend)) password =
      some opened) :
    recoverVmk env machine options container store password = .ok opened.vmk := by
  unfold recoverVmk
  simp only [hopen, hpass, if_true, hbind, hslot]

namespace SlotContainer

/-- The header of the container, and zeros behind it. -/
def bare : Bytes := slice headerGroup 0 effectiveHeaderSize ++ List.replicate 262144 0

theorem length_bare : bare.length = 262656 := by
  rw [bare, List.length_append, length_front, List.length_replicate]

theorem slice_bare {off n : Nat} (hoff : 512 ≤ off) (hin : off + n ≤ 262656) :
    slice bare off n = List.replicate n 0 := by
  have hfront := length_front
  have hn : min n (262144 - (off - 512)) = n := by omega
  rw [bare, slice_append_right (by rw [hfront]; exact hoff), hfront, slice, List.drop_replicate,
    List.take_replicate, hn]

theorem sized_bare {sidecar : KeyslotArea} (hsize : sidecar.size = 3 * keyslotTableStride) :
    KeyslotFiles.Sized { container := bare, sidecar := some sidecar.bytes } := by
  refine ⟨?_, ?_, ?_⟩
  · show volumeHeaderSize ≤ bare.length
    rw [length_bare]
    decide
  · show bare.length ≤ offsetMax
    rw [length_bare]
    decide
  · rintro bytes hbytes
    obtain rfl := Option.some.inj hbytes
    show sidecar.size ≤ offsetMax
    rw [hsize]
    decide

/-- A slot that was never written opens under neither passphrase. -/
theorem blank_rejects : ∀ p ∈ [[5], [8]],
    (recUnwrapCT .demo sidecarCfg p (List.replicate keyslotTableStride 0)).1 = false := by
  decide +kernel

/-- The slots of the header of the container were never written. -/
theorem slotAt_bare {io : KeyslotFileIo} {i : Nat}
    (hi : i < nSlots (labeledCfg env.keyslotKdf .header) (keyslotBindHeaderSlack.area bare io)) :
    slotAt (keyslotBindHeaderSlack.area bare io) i = List.replicate keyslotTableStride 0 := by
  have hinside : keyslotBindHeaderSlack.Inside bare :=
    keyslotBindHeaderSlack_inside (by rw [length_bare]; decide) (by rw [length_bare]; decide)
  have hin := slot_le_size hi
  rw [hinside.size_area] at hin
  have hbase : keyslotBindHeaderSlack.base.toNat = 512 := rfl
  have hlen : keyslotBindHeaderSlack.len.toNat = 65024 := rfl
  have hstride : keyslotTableStride = 1024 := rfl
  rw [KeyslotFileArea.slotAt_area hin, hbase]
  rw [hlen, hstride] at hin
  exact slice_bare (by omega) (by rw [hstride]; omega)

/-- The step that adds a slot for `08` to the sidecar, authorised by `password`. -/
def addStep (password : Bytes) (duress : Bool) : KeyslotStep .demo env.keyslotKdf where
  env := env
  machine := machine
  rotate := false
  options := { rotation with
    password := some password
    passwordWithKeyfiles := password
    keyslotDuress := duress }
  prims := rfl
  derives := rfl
  executor _ n := List.Perm.refl (List.range n)
  labeled := rfl

def bareFiles (sidecar : KeyslotArea) : KeyslotFiles where
  container := bare
  sidecar := some sidecar.bytes

theorem area_addStep {sidecar : KeyslotArea} {password : Bytes} {duress : Bool}
    (hmedium : SameMedium (.blank (3 * keyslotTableStride)) sidecar) :
    (addStep password duress).area (bareFiles sidecar) = sidecar := by
  have hsize : sidecar.size = 3 * keyslotTableStride :=
    hmedium.size_eq.trans List.length_replicate
  have hstore : (addStep password duress).store (bareFiles sidecar) = sidecar.bytes := rfl
  unfold KeyslotStep.area
  rw [hstore]
  exact area_sidecar hsize hmedium

theorem sized_bareFiles {sidecar : KeyslotArea}
    (hmedium : SameMedium (.blank (3 * keyslotTableStride)) sidecar) :
    (bareFiles sidecar).Sized :=
  sized_bare (hmedium.size_eq.trans List.length_replicate)

theorem opensTo_blank {p : Bytes} (hp : p ∈ [[5], [8]]) :
    opensTo .demo sidecarCfg p (List.replicate keyslotTableStride 0) = none := by
  unfold opensTo
  simp only [blank_rejects p hp, Bool.false_eq_true, if_false]

theorem slotAt_blank {i : Nat} (hi : i < nSlots sidecarCfg (.blank (3 * keyslotTableStride))) :
    slotAt (.blank (3 * keyslotTableStride)) i = List.replicate keyslotTableStride 0 := by
  have hin := slot_le_size hi
  have hlen : (KeyslotArea.blank (3 * keyslotTableStride)).size = 3 * keyslotTableStride :=
    List.length_replicate
  rw [hlen] at hin
  have hn : min keyslotTableStride (3 * keyslotTableStride - i * keyslotTableStride) =
      keyslotTableStride := by omega
  unfold slotAt KeyslotArea.blank
  rw [slice, List.drop_replicate, List.take_replicate, hn]

theorem onlyDuress_blank :
    OnlyDuress .demo sidecarCfg (fun p => p = [8]) (.blank (3 * keyslotTableStride)) := by
  rintro i hi p rfl opened hopened
  rw [slotAt_blank hi, opensTo_blank (by decide)] at hopened
  cases hopened

/-- The passphrase `08` is in no slot. -/
theorem knowsOnlyDuress_blank : KnowsOnlyDuress .demo env.keyslotKdf (fun p => p = [8])
    (bareFiles (.blank (3 * keyslotTableStride))) := by
  refine ⟨?_, ?_⟩
  · rintro io i hi p rfl opened hopened
    have hopened' : opensTo .demo sidecarCfg [8] (slotAt (keyslotBindHeaderSlack.area bare io) i) =
        some opened := hopened
    rw [slotAt_bare hi, opensTo_blank (by decide)] at hopened'
    cases hopened'
  · rintro bytes hbytes io
    obtain rfl := Option.some.inj hbytes
    have hsize : (KeyslotArea.blank (3 * keyslotTableStride)).size = 3 * keyslotTableStride :=
      List.length_replicate
    have hwindow := congrArg KeyslotArea.bytes (area_sidecar hsize (SameMedium.refl _))
    exact onlyDuress_blank.congr hwindow

/-- A step that enrols `08` as a duress passphrase gives nothing else to who knows it. -/
theorem secret_addStep : KeyslotStep.Secret (fun p => p = [8])
    (bareFiles (.blank (3 * keyslotTableStride))) (addStep [7] true) := by
  have hsized := sized_bareFiles (SameMedium.refl (.blank (3 * keyslotTableStride)))
  have harea : (addStep [7] true).area (bareFiles (.blank (3 * keyslotTableStride))) =
      .blank (3 * keyslotTableStride) := area_addStep (SameMedium.refl _)
  refine ⟨fun _ => Or.inl rfl, ?_, ?_⟩
  · intro _ hside
    cases hside
  · intro password vmk _ hvmk
    have hlen := (addStep [7] true).length_vmk hsized hvmk
    have htable := (addStep [7] true).table hsized
    rw [harea]
    refine ⟨?_, ?_⟩
    · rintro i hi p rfl opened hopened
      rw [slotWritten_of_writes hi (length_addedRecord htable hlen) (fun _ => rfl)] at hopened
      exact Or.inr ⟨rfl, hopened⟩
    · rintro i hi p rfl opened hopened
      have hfill : (addStep [7] true).machine.fill i = List.replicate keyslotTableStride 0 := by
        show (List.range keyslotTableStride).map (fun _ => (0 : UInt8)) = _
        rw [List.map_const', List.length_range]
      rw [hfill, slotWritten_of_writes hi List.length_replicate (fun _ => rfl)] at hopened
      have hnone : opensTo .demo sidecarCfg [8] (List.replicate keyslotTableStride 0) = none :=
        opensTo_blank (by decide)
      exact absurd (hnone.symm.trans hopened) (by simp)

/-- A run that enrols a duress passphrase. -/
theorem duress_never_full_demo :
    Along KeyslotStep.exec (fun files s => s.MatchesDuress files → s.EnrolsDuress files)
        (bareFiles (.blank (3 * keyslotTableStride))) [addStep [7] true] ∧
      KnowsOnlyDuress .demo env.keyslotKdf (fun p => p = [8])
        (run KeyslotStep.exec (bareFiles (.blank (3 * keyslotTableStride)))
          [addStep [7] true]).1 := by
  obtain ⟨hflag, hsecret⟩ := duress_never_full (bareFiles (.blank (3 * keyslotTableStride)))
    [addStep [7] true] (sized_bareFiles (SameMedium.refl _)) ⟨Or.inl rfl, trivial⟩
  exact ⟨hflag, hsecret _ knowsOnlyDuress_blank ⟨secret_addStep, trivial⟩⟩

/-! ### A duress passphrase that becomes a full one -/

/-- The sidecar after an add with flags. -/
def withFlags (area : KeyslotArea) (pass : Bytes) (flags : Int) : KeyslotArea :=
  (keyslotAdd .demo sidecarCfg area pass flags (List.replicate 449 1) .demo).2

theorem added_withFlags {area : KeyslotArea} {k : Nat} (h : NextFree sidecarCfg area k)
    (hint : k < 2 ^ 31) (pass : Bytes) (flags : Int) :
    Added .demo sidecarCfg area (withFlags area pass flags) k pass (List.replicate 449 1) flags :=
  h.added hint rfl rfl (by decide) List.length_replicate pass flags .demo

/-- A sidecar with a duress slot under `05`. -/
def duressSidecar : KeyslotArea :=
  (keyslotAdd .demo sidecarCfg (.blank (3 * keyslotTableStride)) [5] 1 (List.replicate 449 1)
    .demo).2

theorem added_duressSidecar : Added .demo sidecarCfg (.blank (3 * keyslotTableStride))
    duressSidecar 0 [5] (List.replicate 449 1) 1 := by
  have hadded : duressSidecar = withFlags (.blank (3 * keyslotTableStride)) [5] 1 := rfl
  rw [hadded]
  exact added_withFlags nextFree_blank (by decide) [5] 1

theorem nextFree_duressSidecar : NextFree sidecarCfg duressSidecar 1 :=
  nextFree_blank.next added_duressSidecar (by decide +kernel)

/-- No header of the container accepts `05`. -/
theorem findHeader_bare :
    (env.on bare).findHeader (addStep [5] false).options.request = .ok none := by
  have hfront := length_front
  have hblock : slice bare encryptedHeaderDataOffset bytesPerXtsBlock =
      [81, 66, 85, 70, 7, 2, 6, 12, 59, 108, 98, 253, 7, 7, 7, 7] := by
    rw [← first_block, host, bare, slice_append_left (by rw [hfront]; decide),
      slice_append_left (by rw [hfront]; decide)]
  have hprimary : ∀ a ∈ getAvailableAlgorithms,
      slice ((headerAlgorithm a (List.replicate headerKeyDerivationSize 5)).decryptBlockAt .demo 0 0
        [81, 66, 85, 70, 7, 2, 6, 12, 59, 108, 98, 253, 7, 7, 7, 7]) 0 4 ≠ headerMagic := by
    decide
  have hhidden : ∀ a ∈ getAvailableAlgorithms,
      slice ((headerAlgorithm a (List.replicate headerKeyDerivationSize 5)).decryptBlockAt .demo 0 0
        (List.replicate bytesPerXtsBlock 0)) 0 4 ≠ headerMagic := by
    decide
  have hpw : (addStep [5] false).options.request.password ≠ [] :=
    show ([5] : Bytes) ≠ [] by decide
  refine OpenEnv.findHeader_unknown_none rfl rfl rfl ?_ ?_
  · refine OpenEnv.tryLayout_rejects (Or.inl rfl) hpw rfl (by decide) rfl ?_ (fun _ => rfl) rfl rfl
      rfl (show 0 + volumeHeaderSize ≤ bare.length by rw [length_bare]; decide)
    intro a ha
    rw [show (env.on bare).host = bare from rfl,
      show VolumeLayout.getHeaderOffset .v2Normal + encryptedHeaderDataOffset =
        encryptedHeaderDataOffset from rfl, hblock]
    exact hprimary a ha
  · refine OpenEnv.tryLayout_rejects (Or.inr rfl) hpw rfl (by decide) rfl ?_ (fun _ => rfl) rfl rfl
      rfl (show volumeHeaderSize + volumeHeaderSize ≤ bare.length by rw [length_bare]; decide)
    have hzero : slice bare (VolumeLayout.getHeaderOffset .v2Hidden + encryptedHeaderDataOffset)
        bytesPerXtsBlock = List.replicate bytesPerXtsBlock 0 := slice_bare (by decide) (by decide)
    intro a ha
    rw [show (env.on bare).host = bare from rfl, hzero]
    exact hhidden a ha

theorem keyslotOpen_bare {io : KeyslotFileIo} (hreads : ∀ position, io.readFails position = false) :
    keyslotOpen .demo (labeledCfg env.keyslotKdf .header) (keyslotBindHeaderSlack.area bare io) [5] =
      none := by
  refine (keyslotOpen_eq_none_iff rfl (recFits_labeledCfg _ .header)).mpr ?_
  intro j hj
  have hblank : (recUnwrapCT .demo (labeledCfg env.keyslotKdf .header) [5]
      (List.replicate keyslotTableStride 0)).1 = false := blank_rejects [5] (by decide)
  have hread := KeyslotArea.read_of_ok (slot_le_size hj) (hreads _)
  rw [matchAt_of_read .demo hread, slotAt_bare hj, if_neg (by rw [hblank]; decide)]

/-- Nothing in the container accepts `05`. -/
theorem openVolume_bare : openVolume (env.on bare) machine.mem (addStep [5] false).options.request =
    .error ((env.on bare).wrongPassword (addStep [5] false).options.request) := by
  have hsized := sized_bareFiles added_duressSidecar.medium
  have hopen := (addStep [5] false).openSlot_eq hsized
  have hslot : (env.on bare).openSlot machine.mem (addStep [5] false).options.request = none :=
    hopen.trans (keyslotOpen_bare (fun _ => rfl))
  exact openVolume_wrongPassword findHeader_bare hslot

theorem keyslotOpen_duressSidecar : keyslotOpen .demo sidecarCfg duressSidecar [5] =
    some { vmk := List.replicate 449 1, flags := flagByte 1 } :=
  added_duressSidecar.keyslotOpen_first rfl (by decide) (fun _ => rfl)

theorem area_duressSidecar :
    (addStep [5] false).area (bareFiles duressSidecar) = duressSidecar :=
  area_addStep added_duressSidecar.medium

section
variable {sidecar : KeyslotArea} {vmk : Bytes} {flags : UInt8}
  (hmedium : SameMedium (.blank (3 * keyslotTableStride)) sidecar)
  (hopens : keyslotOpen .demo sidecarCfg sidecar [5] = some { vmk := vmk, flags := flags })
include hmedium hopens

/-- The sidecar gives its master key to the duress passphrase. -/
theorem recoverVmk_duress : recoverVmk env machine (addStep [5] false).options bare
    sidecar.bytes [5] = .ok vmk := by
  have harea : (keyslotBindSidecar sidecar.bytes).area sidecar.bytes
      (storeIo env machine (addStep [5] false).options.backend) = sidecar :=
    area_addStep hmedium
  have hslot : keyslotOpen env.P sidecarCfg ((keyslotBindSidecar sidecar.bytes).area
      sidecar.bytes (storeIo env machine (addStep [5] false).options.backend)) [5] =
        some { vmk := vmk, flags := flags } := by
    rw [harea]
    exact hopens
  exact recoverVmk_of_slot openVolume_bare rfl rfl hslot

/-- The add goes to slot 1. -/
theorem exec_addStep_of_slot (hnext : NextFree sidecarCfg sidecar 1) :
    (KeyslotStep.exec (bareFiles sidecar) (addStep [5] false)).2 = .ok (.added 1) := by
  have hfirst := hnext.labeledFirstFree_eq (by decide)
  have hidx := keyslotAdd_of_free (P := .demo) rfl (show addOk sidecarCfg by decide)
    hnext.writes (by rw [hfirst]; decide) [8] vmk 0 .demo
  refine (addStep [5] false).exec_added (bareFiles sidecar) rfl
    (show ¬ (KeyslotBackend.sidecar = .sidecar ∧ true = false) by decide) rfl
    (recoverVmk_duress hmedium hopens) ?_ (by decide)
  rw [area_addStep hmedium]
  exact hidx.trans hfirst

end

theorem matches_duressSidecar : (addStep [5] false).MatchesDuress (bareFiles duressSidecar) := by
  refine ⟨[5], { vmk := List.replicate 449 1, flags := flagByte 1 }, rfl, ?_, ?_⟩
  · rw [area_duressSidecar]
    exact keyslotOpen_duressSidecar
  · show flagByte 1 &&& OpenEnv.keyslotFlagDuress ≠ 0
    decide

theorem exec_addStep :
    (KeyslotStep.exec (bareFiles duressSidecar) (addStep [5] false)).2 = .ok (.added 1) :=
  exec_addStep_of_slot added_duressSidecar.medium keyslotOpen_duressSidecar nextFree_duressSidecar

/-- **An add with a duress passphrase**: it succeeds, and the new slot gives the master key to
    its passphrase with no flag. -/
theorem duress_becomes_full :
    (addStep [5] false).MatchesDuress (bareFiles duressSidecar) ∧
      (KeyslotStep.exec (bareFiles duressSidecar) (addStep [5] false)).2 = .ok (.added 1) ∧
      ¬ (addStep [5] false).EnrolsDuress (bareFiles duressSidecar) := by
  refine ⟨matches_duressSidecar, exec_addStep, ?_⟩
  intro henrols
  have hsized := sized_bareFiles added_duressSidecar.medium
  rcases (addStep [5] false).guarded_of_enrolsDuress hsized exec_addStep henrols with
    hasked | hnot | ⟨e, hopen, hother⟩
  · cases hasked
  · exact hnot matches_duressSidecar
  · have hwrong := openVolume_bare.symm.trans hopen
    rw [← Except.error.inj hwrong] at hother
    cases hother

end SlotContainer

end VeraCrypt
