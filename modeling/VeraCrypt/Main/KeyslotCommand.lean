import VeraCrypt.Keyslot.PayloadFormat
import VeraCrypt.Keyslot.SlotWrites
import VeraCrypt.Volume.Container
import VeraCrypt.Volume.KeyslotVolumeBinding

/-!
# The keyslot command (`UserInterface::KeyslotCommand`)

The command works on the container and, for the sidecar backend, on a file beside it. To add or
rotate it needs the master key: it opens the volume with the password given and, when no header
accepts it, a keyslot of the table it is about to write to. A rotation is an add, then a search
of the table for a slot that the old password opens, which is revoked.
-/

set_option autoImplicit false

namespace VeraCrypt

open Lib

inductive KeyslotCommandId where
  | list | kill | open | add | rotate
  deriving DecidableEq

/-- The options of `CmdLine` that the command reads. -/
structure KeyslotOptions where
  backend : KeyslotBackend
  /-- Whether `--keyslot-sidecar` names a file. -/
  hasSidecarPath : Bool
  /-- `ArgPassword`, and what the keyfiles make of it. -/
  password : Option Bytes
  passwordWithKeyfiles : Bytes
  pim : Int
  kdf : Option Pkcs5Kdf
  hasKeyfiles : Bool
  keyslotPassword : Bytes
  keyslotIndex : Int
  keyslotDuress : Bool

/-- The container, and the sidecar file where there is one. -/
structure KeyslotFiles where
  container : Bytes
  sidecar : Option Bytes

/-- What the machine does in one run of the command. -/
structure KeyslotMachine where
  mem : OpenMemory
  containerFault : (position : UInt64) → Option Nat
  sidecarIo : KeyslotFileIo
  sidecarFill : RandStream
  add : AddEnv
  /-- The draw of the revocation of a slot. -/
  revoke : (slot : Nat) → RandStream

/-- What the command throws: an exception of the open, or `throw_err`. -/
inductive KeyslotError where
  | thrown (e : Exception)
  | err (message : String)
  deriving DecidableEq

/-- What the command reports. -/
inductive KeyslotReport where
  | counted (n : Nat)
  | revoked
  | opens (duress : Bool)
  | added (idx : Int)
  | rotated (idx : Int) (killed : Option Nat)
  deriving DecidableEq

/-! ## The store -/

/-- The bytes of the store file once it is open: a sidecar that does not exist is created with
    64 KiB of random bytes. -/
def KeyslotFiles.store (files : KeyslotFiles) (machine : KeyslotMachine) :
    KeyslotBackend → Bytes
  | .sidecar =>
    files.sidecar.getD (RandStream.bytes machine.sidecarFill 0 (64 * keyslotTableStride))
  | .header | .deniable => files.container

def KeyslotFiles.put (files : KeyslotFiles) (store : Bytes) : KeyslotBackend → KeyslotFiles
  | .sidecar => { files with sidecar := some store }
  | .header | .deniable => { files with container := store }

/-- The I/O on the store file. -/
def storeIo (env : OpenEnv) (machine : KeyslotMachine) : KeyslotBackend → KeyslotFileIo
  | .sidecar => machine.sidecarIo
  | .header | .deniable =>
    { readFails := env.readFails, writeFault := machine.containerFault }

/-- `KS_BIND`: the window of the store file and the configuration; `none` where the deniable
    window cannot hold a slot. -/
def keyslotBind (kdf : KeyslotKdfFn) (store : Bytes) :
    KeyslotBackend → Option (KeyslotFileArea × KeyslotStoreCfg)
  | .sidecar => some (keyslotBindSidecar store, keyslotSidecarCfg kdf (1 + keyslotPayloadSize))
  | .deniable =>
    (keyslotBindDeniable (UInt64.ofNat volumeHeaderGroupSize) (UInt64.ofNat store.length) 0).map
      (fun a => (a, keyslotDeniableCfg kdf (1 + keyslotPayloadSize)))
  | .header => some (keyslotBindHeaderSlack, keyslotHeaderCfg kdf (1 + keyslotPayloadSize))

/-! ## The master key -/

/-- The arguments of `Core->OpenVolume`. -/
def KeyslotOptions.request (options : KeyslotOptions) : OpenRequest where
  password := options.passwordWithKeyfiles
  pim := options.pim
  kdf := options.kdf
  hasKeyfiles := options.hasKeyfiles
  protection := .readOnly
  protectionPassword := []
  protectionPim := 0
  protectionKdf := none
  protectionHasKeyfiles := false
  volumeType := .unknown
  useBackupHeaders := false
  partitionInSystemEncryptionScope := false

/-- The environment of an open of the container. -/
def OpenEnv.on (env : OpenEnv) (container : Bytes) : OpenEnv := { env with host := container }

/-- What a keyslot wraps: the index of the cipher, and the decrypted header. -/
def vmkOf (v : Volume) : Except KeyslotError Bytes :=
  match getAvailableAlgorithms.findIdx? (· = v.ea.algorithm) with
  | none => .error (.err "internal: cannot index the volume cipher for the keyslot")
  | some eaIndex => .ok (UInt8.ofNat eaIndex :: v.header.effectivePlaintext)

/-- The master key of the container, by its header or by a keyslot of the store. -/
def recoverVmk (env : OpenEnv) (machine : KeyslotMachine) (options : KeyslotOptions)
    (container store password : Bytes) : Except KeyslotError Bytes :=
  let notRecovered : KeyslotError :=
    .err "could not recover the master key: --password did not open the native header or any keyslot"
  match openVolume (env.on container) machine.mem options.request with
  | .ok v => vmkOf v
  | .error e =>
    if e.isPasswordException then
      match keyslotBind env.keyslotKdf store options.backend with
      | none => .error notRecovered
      | some (a, cfg) =>
        match keyslotOpen env.P cfg (a.area store (storeIo env machine options.backend))
            password with
        | none => .error notRecovered
        | some opened => .ok opened.vmk
    else .error (.thrown e)

/-! ## The operations on the table -/

/-- `KeyslotCount`. A slot that cannot be read is passed over. -/
def keyslotCount (cfg : KeyslotStoreCfg) (area : KeyslotArea) : Nat :=
  if isLabeled cfg.backend = false then 0
  else
    ((List.range (nSlots cfg area)).filter (fun i =>
      area.read (i * keyslotTableStride) 4 = some ksMagic)).length

/-- The loop of a rotation over the slots still to be looked at: the first slot that the old
    password opens and that can be revoked ends it. -/
def retireOld (P : Primitives) (cfg : KeyslotStoreCfg) (password : Bytes) (idx : Int)
    (revoke : Nat → RandStream) : List Nat → KeyslotArea → Option Nat × KeyslotArea
  | [], area => (none, area)
  | i :: rest, area =>
    if (i : Int) = idx then retireOld P cfg password idx revoke rest area
    else
      match keyslotOpenAt P cfg area i password with
      | none => retireOld P cfg password idx revoke rest area
      | some _ =>
        let r := keyslotRevoke cfg area i (revoke i)
        if r.1 = 0 then (some i, r.2) else retireOld P cfg password idx revoke rest r.2

/-- How many slots a rotation looks at. -/
def scanSlots (cfg : KeyslotStoreCfg) (len : UInt64) : Nat :=
  if cfg.maxSlots > 0 then cfg.maxSlots.toNat
  else (toInt32 (len.toNat / keyslotTableStride)).toNat

/-- The flags of an added slot. -/
def KeyslotOptions.flags (options : KeyslotOptions) : Int :=
  if options.keyslotDuress then OpenEnv.keyslotFlagDuress.toNat else 0

/-- The add of both commands, and the end of a rotation. -/
def addKeyslot (P : Primitives) (cfg : KeyslotStoreCfg) (area : KeyslotArea) (scan : Nat)
    (rotate : Bool) (options : KeyslotOptions) (machine : KeyslotMachine) (password vmk : Bytes) :
    Except KeyslotError KeyslotReport × KeyslotArea :=
  let r := keyslotAdd P cfg area options.keyslotPassword options.flags vmk machine.add
  if r.1 < 0 then (.error (.err "keyslot add failed (table full or write error)"), r.2)
  else if rotate then
    let retired := retireOld P cfg password r.1 machine.revoke (List.range scan) r.2
    (.ok (.rotated r.1 retired.1), retired.2)
  else (.ok (.added r.1), r.2)

/-- The open of a slot: the master key it holds must be the one recovered. -/
def openKeyslotCommand (P : Primitives) (cfg : KeyslotStoreCfg) (area : KeyslotArea)
    (options : KeyslotOptions) (vmk : Bytes) : Except KeyslotError KeyslotReport :=
  match keyslotOpen P cfg area options.keyslotPassword with
  | none => .error (.err "keyslot open failed")
  | some opened =>
    if opened.vmk.length = vmk.length ∧ opened.vmk.tail = vmk.tail then
      .ok (.opens (opened.flags &&& OpenEnv.keyslotFlagDuress ≠ 0))
    else .error (.err "recovered master key does not match")

/-! ## The command -/

/-- The commands that need no master key. -/
def listOrKill (env : OpenEnv) (machine : KeyslotMachine) (kill : Bool)
    (options : KeyslotOptions) (files : KeyslotFiles) :
    Except KeyslotError KeyslotReport × KeyslotFiles :=
  let store := files.store machine options.backend
  let opened := files.put store options.backend
  match keyslotBind env.keyslotKdf store options.backend with
  | none =>
    (.error (.err "keyslot area could not be bound (container too small for the deniable window)"),
      opened)
  | some (a, cfg) =>
    let area := a.area store (storeIo env machine options.backend)
    if kill then
      let r := keyslotRevoke cfg area options.keyslotIndex (machine.revoke options.keyslotIndex.toNat)
      (if r.1 = 0 then .ok .revoked
        else .error (.err "keyslot revoke failed (index out of range or write error)"),
        files.put (a.store store r.2) options.backend)
    else (.ok (.counted (keyslotCount cfg area)), opened)

/-- The commands that work with the master key. -/
def withVmk (env : OpenEnv) (machine : KeyslotMachine) (command : KeyslotCommandId)
    (options : KeyslotOptions) (files : KeyslotFiles) (password : Bytes) :
    Except KeyslotError KeyslotReport × KeyslotFiles :=
  let store := files.store machine options.backend
  let opened := files.put store options.backend
  match recoverVmk env machine options files.container store password with
  | .error e => (.error e, opened)
  | .ok vmk =>
    match keyslotBind env.keyslotKdf store options.backend with
    | none =>
      (.error
        (.err "keyslot area could not be bound (container too small for the deniable window)"),
        opened)
    | some (a, cfg) =>
      let area := a.area store (storeIo env machine options.backend)
      if command = .open then (openKeyslotCommand env.P cfg area options vmk, opened)
      else
        let r := addKeyslot env.P cfg area (scanSlots cfg a.len) (command = .rotate) options
          machine password vmk
        (r.1, files.put (a.store store r.2) options.backend)

/-- `UserInterface::KeyslotCommand`. -/
def keyslotCommand (env : OpenEnv) (machine : KeyslotMachine) (command : KeyslotCommandId)
    (options : KeyslotOptions) (files : KeyslotFiles) :
    Except KeyslotError KeyslotReport × KeyslotFiles :=
  if options.backend = .sidecar ∧ options.hasSidecarPath = false then
    (.error (.err "--keyslot-backend=sidecar requires --keyslot-sidecar <path>"), files)
  else if command = .list ∨ command = .kill then
    listOrKill env machine (command = .kill) options files
  else
    match options.password with
    | none =>
      (.error
        (.err "the existing volume password (--password) is required to recover the master key"),
        files.put (files.store machine options.backend) options.backend)
    | some password => withVmk env machine command options files password

/-! ## What the command does -/

section
variable {env : OpenEnv} {machine : KeyslotMachine} {options : KeyslotOptions}
  {files : KeyslotFiles}

/-- An add or a rotation got as far as the table: the master key was recovered and the window
    bound. -/
structure Enrols (env : OpenEnv) (machine : KeyslotMachine) (options : KeyslotOptions)
    (files : KeyslotFiles) (password vmk : Bytes) (a : KeyslotFileArea) (cfg : KeyslotStoreCfg) :
    Prop where
  given : options.password = some password
  recovered : recoverVmk env machine options files.container (files.store machine options.backend)
    password = .ok vmk
  bound : keyslotBind env.keyslotKdf (files.store machine options.backend) options.backend =
    some (a, cfg)

/-- An add or a rotation that gets as far as the table does to it what `addKeyslot` does. -/
theorem keyslotCommand_of_enrols {command : KeyslotCommandId}
    (hcommand : command = .add ∨ command = .rotate)
    (hpath : ¬ (options.backend = .sidecar ∧ options.hasSidecarPath = false))
    {password vmk : Bytes} {a : KeyslotFileArea} {cfg : KeyslotStoreCfg}
    (h : Enrols env machine options files password vmk a cfg) :
    keyslotCommand env machine command options files =
      ((addKeyslot env.P cfg (a.area (files.store machine options.backend)
          (storeIo env machine options.backend)) (scanSlots cfg a.len) (command = .rotate)
          options machine password vmk).1,
        files.put (a.store (files.store machine options.backend)
          (addKeyslot env.P cfg (a.area (files.store machine options.backend)
            (storeIo env machine options.backend)) (scanSlots cfg a.len) (command = .rotate)
            options machine password vmk).2) options.backend) := by
  have hlist : ¬ (command = .list ∨ command = .kill) := by
    rcases hcommand with rfl | rfl <;> decide
  have hopen : command ≠ .open := by
    rcases hcommand with rfl | rfl <;> decide
  unfold keyslotCommand
  rw [if_neg hpath, if_neg hlist, h.given]
  simp only
  unfold withVmk
  simp only [h.recovered, h.bound, if_neg hopen]

/-- **An add or a rotation inverted.** It ends before the table is touched, with an error, or
    in what `addKeyslot` does to the table. -/
theorem keyslotCommand_add_cases {command : KeyslotCommandId}
    (hcommand : command = .add ∨ command = .rotate) :
    (∃ e, keyslotCommand env machine command options files = (.error e, files)) ∨
    (∃ e, keyslotCommand env machine command options files =
      (.error e, files.put (files.store machine options.backend) options.backend)) ∨
    ∃ password vmk a cfg, Enrols env machine options files password vmk a cfg ∧
      keyslotCommand env machine command options files =
        ((addKeyslot env.P cfg (a.area (files.store machine options.backend)
            (storeIo env machine options.backend)) (scanSlots cfg a.len) (command = .rotate)
            options machine password vmk).1,
          files.put (a.store (files.store machine options.backend)
            (addKeyslot env.P cfg (a.area (files.store machine options.backend)
              (storeIo env machine options.backend)) (scanSlots cfg a.len) (command = .rotate)
              options machine password vmk).2) options.backend) := by
  have hlist : ¬ (command = .list ∨ command = .kill) := by
    rcases hcommand with rfl | rfl <;> decide
  by_cases hpath : options.backend = .sidecar ∧ options.hasSidecarPath = false
  · left
    unfold keyslotCommand
    rw [if_pos hpath]
    exact ⟨_, rfl⟩
  · right
    cases hpw : options.password with
    | none =>
      left
      unfold keyslotCommand
      rw [if_neg hpath, if_neg hlist, hpw]
      exact ⟨_, rfl⟩
    | some password =>
      cases hvmk : recoverVmk env machine options files.container
          (files.store machine options.backend) password with
      | error e =>
        left
        unfold keyslotCommand
        rw [if_neg hpath, if_neg hlist, hpw]
        simp only
        unfold withVmk
        simp only [hvmk]
        exact ⟨e, rfl⟩
      | ok vmk =>
        cases hbind : keyslotBind env.keyslotKdf (files.store machine options.backend)
            options.backend with
        | none =>
          left
          unfold keyslotCommand
          rw [if_neg hpath, if_neg hlist, hpw]
          simp only
          unfold withVmk
          simp only [hvmk, hbind]
          exact ⟨_, rfl⟩
        | some bound =>
          obtain ⟨a, cfg⟩ := bound
          have henrols : Enrols env machine options files password vmk a cfg := ⟨hpw, hvmk, hbind⟩
          exact Or.inr ⟨password, vmk, a, cfg, henrols,
            keyslotCommand_of_enrols hcommand hpath henrols⟩

/-- The table of a labeled backend. -/
structure LabeledTable (store : Bytes) (a : KeyslotFileArea) (cfg : KeyslotStoreCfg) : Prop where
  labeled : isLabeled cfg.backend = true
  adds : addOk cfg
  plain : cfg.policy = 0
  unsplit : afOf cfg = 1
  vmkLen : cfg.vmkLen = 1 + keyslotPayloadSize
  inside : a.Inside store

/-- A container or a sidecar as the command can meet it: the header group of a container is
    whole, and the system can address every byte. -/
structure KeyslotFiles.Sized (files : KeyslotFiles) : Prop where
  header : volumeHeaderSize ≤ files.container.length
  container : files.container.length ≤ offsetMax
  sidecar : ∀ bytes, files.sidecar = some bytes → bytes.length ≤ offsetMax

theorem keyslotBind_labeled (hsized : files.Sized) (hl : isLabeled options.backend = true)
    {a : KeyslotFileArea} {cfg : KeyslotStoreCfg}
    (h : keyslotBind env.keyslotKdf (files.store machine options.backend) options.backend =
      some (a, cfg)) :
    LabeledTable (files.store machine options.backend) a cfg := by
  have adds : ∀ {cfg : KeyslotStoreCfg}, isLabeled cfg.backend = true → cfg.policy = 0 →
      cfg.vmkLen = 1 + keyslotPayloadSize → afOf cfg = 1 → addOk cfg := by
    intro cfg hlabeled hplain hlen hone
    have hplen : plenOf cfg = 450 := by
      rw [plenOf, if_neg (not_not.mpr hplain), hlen]
      rfl
    refine ⟨by rw [hlen]; decide, by rw [hlen]; decide, ?_⟩
    rw [recFits, if_pos hlabeled, ctOf, hplen, hone]
    decide
  cases hb : options.backend with
  | header =>
    rw [hb] at h
    simp only [keyslotBind, Option.some.injEq, Prod.mk.injEq] at h
    obtain ⟨rfl, rfl⟩ := h
    exact ⟨rfl, adds rfl rfl rfl rfl, rfl, rfl, rfl,
      keyslotBindHeaderSlack_inside hsized.header hsized.container⟩
  | deniable =>
    rw [hb] at hl
    cases hl
  | sidecar =>
    rw [hb] at h
    simp only [keyslotBind, Option.some.injEq, Prod.mk.injEq] at h
    obtain ⟨rfl, rfl⟩ := h
    refine ⟨rfl, adds rfl rfl rfl rfl, rfl, rfl, rfl, keyslotBindSidecar_inside ?_⟩
    simp only [KeyslotFiles.store]
    cases hside : files.sidecar with
    | none =>
      rw [Option.getD_none, RandStream.length_bytes]
      decide
    | some bytes => exact hsized.sidecar bytes hside

theorem KeyslotFiles.store_put (store : Bytes) (backend : KeyslotBackend) :
    (files.put store backend).store machine backend = store := by
  cases backend <;> rfl

/-- The window of the store file after the table has been worked on is the table. -/
theorem area_store_of_sameMedium {a : KeyslotFileArea} {store : Bytes} {io : KeyslotFileIo}
    {area : KeyslotArea} (hinside : a.Inside store) (h : SameMedium (a.area store io) area) :
    a.area (a.store store area) io = area := by
  have hbytes := KeyslotFileArea.area_store hinside io (h.size_eq.trans (hinside.size_area io))
  have hreads := h.reads
  have hfaults := h.faults
  cases area with
  | mk bytes readFails writeFault =>
    simp only at hbytes hreads hfaults
    subst hreads hfaults
    unfold KeyslotFileArea.area at hbytes ⊢
    simp only at hbytes ⊢
    rw [hbytes]

/-! ## The length of a master key -/

/-- `Deserialize` keeps the first bytes of a part that has them. -/
theorem length_plaintext_of_deserialize {layout : VolumeLayout} {part : Bytes} {alg : AlgorithmId}
    {pkcs5 : Pkcs5Kdf} {header : VolumeHeader}
    (hd : deserialize layout.getHeaderSize part alg pkcs5 = .ok (some header)) :
    header.effectivePlaintext.length = keyslotPayloadSize := by
  obtain ⟨hlen, -, -, -, -, hplain⟩ := deserialize_some hd
  have hfits := OpenEnv.keyslotPayloadSize_le_headerSize layout
  have hlong : keyslotPayloadSize ≤ part.length := by
    rw [hlen]
    omega
  rw [hplain hlong]
  exact length_slice (by omega)

/-- The decrypted header of a volume that opened is as long as a keyslot payload. -/
theorem length_effectivePlaintext {mem : OpenMemory} {req : OpenRequest} {v : Volume}
    (h : openVolume env mem req = .ok v) :
    v.header.effectivePlaintext.length = keyslotPayloadSize := by
  rcases OpenEnv.openWith_ok h with ⟨layout, header, w, hfind, hw, hv⟩ | ⟨-, hv⟩
  · obtain ⟨-, hheader⟩ := OpenEnv.layout_of_protectRange hv
    obtain ⟨-, hheader'⟩ := OpenEnv.layout_of_openNative hw
    obtain ⟨tried, part, alg, pkcs5, found, hd, hsettle, -⟩ := OpenEnv.findHeader_some hfind
    obtain ⟨-, -, -, -, hsize, -⟩ := deserialize_some hd
    obtain ⟨rfl, -⟩ := OpenEnv.settleLayout_eq hsettle hsize
    have hfound := length_plaintext_of_deserialize hd
    rw [hheader, hheader']
    exact hfound
  · obtain ⟨opened, header, -, hheader, rfl⟩ := OpenEnv.openKeyslot_some hv
    unfold OpenEnv.headerOfPayload at hheader
    cases halg : getAvailableAlgorithms[(opened.vmk.headD 0).toNat]? with
    | none =>
      simp only [halg] at hheader
      cases hheader
    | some alg =>
      simp only [halg] at hheader
      unfold rebuildFromKeyslot at hheader
      by_cases hlen : opened.vmk.tail.length ≠ keyslotPayloadSize
      · rw [if_pos hlen] at hheader
        cases hheader
      · rw [if_neg hlen] at hheader
        exact length_plaintext_of_deserialize hheader

/-- A slot of a labeled table gives a master key of the configured length. -/
theorem length_vmk_of_keyslotOpen {store : Bytes} {a : KeyslotFileArea} {cfg : KeyslotStoreCfg}
    (htable : LabeledTable store a cfg) {area : KeyslotArea} {pass : Bytes} {opened : Opened}
    (h : keyslotOpen env.P cfg area pass = some opened) :
    opened.vmk.length = cfg.vmkLen.toNat := by
  have hfit := htable.adds.2.2
  rw [keyslotOpen_labeled env.P htable.labeled hfit] at h
  obtain ⟨blob, hfirst, rfl⟩ := Option.map_eq_some_iff.mp h
  obtain ⟨i, -, hmatch⟩ := List.exists_of_findSome?_eq_some hfirst
  have hblob := length_matchAt env.P (recFits_labeled htable.labeled hfit) hmatch
  have hvmk : cfg.vmkLen = 449 := htable.vmkLen
  have hplen : plenOf cfg = 450 := by
    rw [plenOf, if_neg (not_not.mpr htable.plain), hvmk]
    rfl
  rw [ctOf, hplen, htable.unsplit] at hblob
  have hmerge : afMerge env.P blob (plenOf cfg) (afOf cfg) = blob := by
    rw [htable.unsplit, hplen]
    exact afMerge_one env.P (by decide) hblob
  have hlen : (slice blob 1 449).length = 449 := length_slice (by rw [hblob]; decide)
  rw [hmerge, openedV1, hvmk]
  exact hlen

/-- **A recovered master key is as long as the configurations say.** -/
theorem length_recoverVmk (hsized : files.Sized) (hl : isLabeled options.backend = true)
    {password vmk : Bytes}
    (h : recoverVmk env machine options files.container (files.store machine options.backend)
      password = .ok vmk) : vmk.length = 1 + keyslotPayloadSize := by
  unfold recoverVmk at h
  simp only at h
  cases hopen : openVolume (env.on files.container) machine.mem options.request with
  | ok v =>
    simp only [hopen] at h
    unfold vmkOf at h
    cases hidx : getAvailableAlgorithms.findIdx? (· = v.ea.algorithm) with
    | none =>
      simp only [hidx] at h
      cases h
    | some eaIndex =>
      simp only [hidx, Except.ok.injEq] at h
      rw [← h, List.length_cons, length_effectivePlaintext hopen, Nat.add_comm]
  | error e =>
    simp only [hopen] at h
    by_cases hpass : e.isPasswordException = true
    · rw [if_pos hpass] at h
      cases hbind : keyslotBind env.keyslotKdf (files.store machine options.backend)
          options.backend with
      | none =>
        simp only [hbind] at h
        cases h
      | some bound =>
        obtain ⟨a, cfg⟩ := bound
        simp only [hbind] at h
        cases hslot : keyslotOpen env.P cfg (a.area (files.store machine options.backend)
            (storeIo env machine options.backend)) password with
        | none =>
          simp only [hslot] at h
          cases h
        | some opened =>
          simp only [hslot, Except.ok.injEq] at h
          have htable := keyslotBind_labeled hsized hl hbind
          rw [← h, length_vmk_of_keyslotOpen htable hslot, htable.vmkLen]
          rfl
    · rw [if_neg hpass] at h
      cases h

/-- The master key of a container whose header accepts the password. -/
theorem recoverVmk_of_findHeader {container store password : Bytes} {layout : VolumeLayout}
    {header : VolumeHeader} {eaIndex : Nat}
    (hfind : (env.on container).findHeader options.request = .ok (some (layout, header)))
    (hdrive : layout.hasDriveHeader = false)
    (hindex : getAvailableAlgorithms.findIdx? (· = header.ea.algorithm) = some eaIndex) :
    recoverVmk env machine options container store password =
      .ok (UInt8.ofNat eaIndex :: header.effectivePlaintext) := by
  have hopen := @OpenEnv.openVolume_of_findHeader _ machine.mem _ _ _ hfind hdrive
    (show VolumeProtection.readOnly ≠ .hiddenVolumeReadOnly by decide)
  have hea : ((env.on container).discover machine.mem ((env.on container).volumeOf machine.mem
      options.request layout header)).ea = header.ea := by
    unfold OpenEnv.discover
    split <;> rfl
  unfold recoverVmk
  rw [hopen]
  simp only
  unfold vmkOf
  rw [hea, OpenEnv.header_discover]
  simp only [hindex]
  rfl

end

end VeraCrypt
