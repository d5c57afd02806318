import VeraCrypt.Volume.Container
import VeraCrypt.Volume.HeaderChecksums
import VeraCrypt.Volume.Plaintext
import VeraCrypt.Volume.WriteConfinement

/-!
# A volume in the kernel (`Core/Unix/Linux/CoreLinux.cpp`)

`MountVolumeNative` has the device mapper decrypt a volume: a `crypt` device for each cipher of the
algorithm, from the last one up, each over the one before and the first over the host. A sector of
the stack should be what `Volume::ReadSectors` gives and `Volume::WriteSectors` stores.

A `crypt` device is XTS with the number of the sector (of 512 bytes) and an offset for the IV. The
code reads the last sector both ways before it mounts a file system. It never looks at the first
one, which `ReadSectors` leaves as it is when it is an NTFS boot sector of a system partition.
-/

set_option autoImplicit false

namespace VeraCrypt

open Lib

namespace CoreLinux

/-! ## The device mapper -/

/-- A device: the host of the volume, or a mapped one. -/
inductive DevicePath where
  | host
  | mapper (name : String)
  deriving DecidableEq

/-- The arguments of a `crypt` device, in sectors: how long it is, its cipher and its key in
    hexadecimal, what is added to the number of a sector for the IV, and where on which device it
    lies. -/
structure CryptArgs where
  length : UInt64
  cipher : Cipher
  key : List Char
  ivOffset : UInt64
  device : DevicePath
  offset : UInt64

/-- A mapped device. The key is the one for the data with the one for the IV behind it. -/
structure CryptDevice where
  name : String
  length : Nat
  cipher : Cipher
  key : Bytes
  ivOffset : UInt64
  device : DevicePath
  offset : Nat

def hexDigits : List Char := ['0', '1', '2', '3', '4', '5', '6', '7', '8', '9', 'a', 'b', 'c', 'd',
  'e', 'f']

/-- `"%02x"` -/
def hexByte (x : UInt8) : List Char :=
  [hexDigits.getD (x.toNat / 16) '0', hexDigits.getD (x.toNat % 16) '0']

/-- The key that an argument says; `none` where it is not in hexadecimal. -/
def decodeKey : List Char → Option Bytes
  | [] => some []
  | hi :: lo :: rest =>
    match hexDigits.idxOf? hi, hexDigits.idxOf? lo, decodeKey rest with
    | some h, some l, some key => some (UInt8.ofNat (16 * h + l) :: key)
    | _, _, _ => none
  | [_] => none

/-- The sectors of a device, the newest one first in the list. -/
def sectorsOf (hostSectors : Nat) : List CryptDevice → DevicePath → Nat
  | _, .host => hostSectors
  | [], .mapper _ => 0
  | d :: devices, .mapper name =>
    if d.name = name then d.length else sectorsOf hostSectors devices (.mapper name)

/-- `dmsetup create`: refused where the device would be empty or the one below it is too short. -/
def dmsetupCreate (hostSectors : Nat) (devices : List CryptDevice) (name : String)
    (args : CryptArgs) : Option (List CryptDevice) :=
  match decodeKey args.key with
  | none => none
  | some key =>
    if args.length = 0 ∨
        sectorsOf hostSectors devices args.device < args.offset.toNat + args.length.toNat then none
    else
      some ({ name := name
              length := args.length.toNat
              cipher := args.cipher
              key := key
              ivOffset := args.ivOffset
              device := args.device
              offset := args.offset.toNat } :: devices)

/-- XTS of a sector: block `j` between two whitenings with value `j` of the IV. -/
def xtsSector (cipher secondary : Bytes → Bytes) (iv : UInt64) (sector : Bytes) : Bytes :=
  ((xtsBlocksOf sector).mapIdx (fun j b =>
    xorBytes (cipher (xorBytes b (whitening secondary iv j))) (whitening secondary iv j))).flatten

namespace CryptDevice

def dataKey (d : CryptDevice) : Bytes := d.key.take (d.key.length / 2)
def ivKey (d : CryptDevice) : Bytes := d.key.drop (d.key.length / 2)

/-- The IV of a sector (`plain64`). -/
def iv (d : CryptDevice) (sector : Nat) : UInt64 := UInt64.ofNat sector + d.ivOffset

def decrypt (C : Ciphers) (d : CryptDevice) (sector : Nat) (data : Bytes) : Bytes :=
  xtsSector (C.decryptBlock d.cipher d.dataKey) (C.encryptBlock d.cipher d.ivKey) (d.iv sector) data

def encrypt (C : Ciphers) (d : CryptDevice) (sector : Nat) (data : Bytes) : Bytes :=
  xtsSector (C.encryptBlock d.cipher d.dataKey) (C.encryptBlock d.cipher d.ivKey) (d.iv sector) data

end CryptDevice

/-- A sector that is read from a device. -/
def readSector (C : Ciphers) (host : Bytes) : List CryptDevice → DevicePath → Nat → Bytes
  | _, .host, sector => slice host (sector * 512) 512
  | [], .mapper _, _ => []
  | d :: devices, .mapper name, sector =>
    if d.name = name then
      d.decrypt C sector (readSector C host devices d.device (d.offset + sector))
    else readSector C host devices (.mapper name) sector

/-- The host after a sector is written to a device. -/
def writeSector (C : Ciphers) (host : Bytes) : List CryptDevice → DevicePath → Nat → Bytes → Bytes
  | _, .host, sector, data => patch host (sector * 512) data
  | [], .mapper _, _, _ => host
  | d :: devices, .mapper name, sector, data =>
    if d.name = name then
      writeSector C host devices d.device (d.offset + sector) (d.encrypt C sector data)
    else writeSector C host devices (.mapper name) sector data

/-- The host after `n` sectors are written one after the other. -/
def writeDevice (C : Ciphers) (devices : List CryptDevice) (path : DevicePath) :
    (n first : Nat) → (data host : Bytes) → Bytes
  | 0, _, _, host => host
  | n + 1, first, data, host =>
    writeDevice C devices path n (first + 1) (data.drop 512)
      (writeSector C host devices path first (data.take 512))

/-! ## MountVolumeNative -/

/-- The key argument: as many characters as the two keys take, and the digits of their bytes put
    into them one byte of each at a time. -/
def keyArgument (cipherKey secondaryKey : Bytes) : List Char :=
  (List.range cipherKey.length).foldl
    (fun args i =>
      patch (patch args (i * 2) (hexByte (cipherKey.getD i 0))) (cipherKey.length * 2 + i * 2)
        (hexByte (secondaryKey.getD i 0)))
    (List.replicate (cipherKeySize * 4 - 1) ' ' ++ ['0'])

/-- `nativeDevName`: all but the last device carry a number. -/
def nativeDevName (slotNumber cipherCount nativeDevCount : Nat) : String :=
  "veracrypt" ++ toString slotNumber ++
    if nativeDevCount ≠ cipherCount - 1 then "_" ++ toString (cipherCount - nativeDevCount - 2)
    else ""

/-- What the loop over the ciphers goes on with. -/
structure NativeDevices where
  devices : List CryptDevice
  nativeDevPath : DevicePath
  nativeDevCount : Nat
  secondaryKeyOffset : Nat

/-- One pass of the loop. -/
def createNativeDevice (v : Volume) (slotNumber hostSectors : Nat) (st : NativeDevices)
    (cipher : Cipher × Bytes × Bytes) : Option NativeDevices :=
  let startSector := v.layout.getDataOffset v.header / encryptionDataUnitSize
  let cipherKey := cipher.2.1
  let secondaryKeyOffset := st.secondaryKeyOffset - cipherKey.length
  let name := nativeDevName slotNumber v.ea.algorithm.ciphers.length st.nativeDevCount
  let args : CryptArgs :=
    { length := v.volumeDataSize / encryptionDataUnitSize
      cipher := cipher.1
      key := keyArgument cipherKey
        (slice v.ea.secondaryKey secondaryKeyOffset cipherKey.length)
      ivOffset := startSector + v.ea.sectorOffset
      device := if st.nativeDevCount = 0 then .host else st.nativeDevPath
      offset := if st.nativeDevCount = 0 then startSector else 0 }
  (dmsetupCreate hostSectors st.devices name args).map (fun devices =>
    { devices := devices
      nativeDevPath := .mapper name
      nativeDevCount := st.nativeDevCount + 1
      secondaryKeyOffset := secondaryKeyOffset })

/-- The loop over the ciphers, from the last one on. -/
def createNativeDevices (v : Volume) (slotNumber hostSectors : Nat) : Option NativeDevices :=
  v.ea.keyed.reverse.foldlM (createNativeDevice v slotNumber hostSectors)
    { devices := []
      nativeDevPath := .host
      nativeDevCount := 0
      secondaryKeyOffset := v.ea.secondaryKey.length }

inductive NativeMountError where
  | notApplicable | executedProcessFailed | kernelCryptoServiceTestFailed
  | exception (e : Exception)
  deriving DecidableEq

/-- The algorithms that the kernel does not have. -/
def algoNotSupported : AlgorithmId → Bool
  | .kuznyechik | .camelliaKuznyechik | .kuznyechikTwofish | .kuznyechikAES
  | .kuznyechikSerpentCamellia => true
  | _ => false

/-- What a device reads from its start to its end. -/
def deviceBytes (C : Ciphers) (host : Bytes) (st : NativeDevices) : Bytes :=
  ((List.range (sectorsOf (host.length / 512) st.devices st.nativeDevPath)).map
    (readSector C host st.devices st.nativeDevPath)).flatten

/-- `CoreLinux::MountVolumeNative` up to the file system, with a kernel of version 2.6.33 or later
    and no failure of the host. -/
def mountVolumeNative (C : Ciphers) (P : Primitives) (v : Volume) (noKernelCrypto : Bool)
    (slotNumber : Nat) (host : Bytes) (uninit uninit2 : RandStream) :
    Except NativeMountError NativeDevices :=
  if v.v2Mac.isActive then .error .notApplicable
  else if noKernelCrypto ∨ algoNotSupported v.ea.algorithm ∨ v.encryptionNotCompleted ∨
      v.protection = .hiddenVolumeReadOnly then .error .notApplicable
  else
    match createNativeDevices v slotNumber (host.length / 512) with
    | none => .error .executedProcessFailed
    | some st =>
      let lastSectorOffset := v.volumeDataSize - v.sectorSize
      match File.readInto (deviceBytes C host st) lastSectorOffset v.sectorSize.toNat false
          uninit with
      | none => .error (.exception .systemException)
      | some lastSectorBuf =>
        match v.readSectors C P host v.sectorSize.toNat lastSectorOffset
            { data := false, tags := false, uninit := uninit2 } with
        | .error e => .error (.exception e)
        | .ok (_, lastSectorBuf2) =>
          if lastSectorBuf ≠ lastSectorBuf2 then .error .kernelCryptoServiceTestFailed else .ok st

/-! ## The key argument -/

theorem idxOf?_hexDigits {n : Nat} (hn : n < 16) :
    hexDigits.idxOf? (hexDigits.getD n '0') = some n := by
  have hall : ∀ n : Fin 16, hexDigits.idxOf? (hexDigits.getD n.val '0') = some n.val := by decide
  exact hall ⟨n, hn⟩

@[simp] theorem length_hexByte (x : UInt8) : (hexByte x).length = 2 := rfl

/-- The kernel reads the bytes that were written. -/
theorem decodeKey_hexByte (key : Bytes) : decodeKey (key.flatMap hexByte) = some key := by
  induction key with
  | nil => rfl
  | cons x key ih =>
    have hx := x.toNat_lt
    have hhi : x.toNat / 16 < 16 := by omega
    have hlo : x.toNat % 16 < 16 := Nat.mod_lt _ (by decide)
    have hback : UInt8.ofNat (16 * (x.toNat / 16) + x.toNat % 16) = x := by
      rw [Nat.div_add_mod]
      exact UInt8.ofNat_toNat
    rw [List.flatMap_cons, hexByte]
    simp only [List.cons_append, List.nil_append, decodeKey, idxOf?_hexDigits hhi,
      idxOf?_hexDigits hlo, ih, hback]

section
variable {cipherKey secondaryKey : Bytes}

/-- The argument after `m` passes: the digits of the first `m` bytes of both keys stand in it. -/
theorem keyArgument_loop (secondaryKey : Bytes) {m : Nat} (hm : m ≤ cipherKeySize)
    (hc : cipherKey.length = cipherKeySize) :
    let args := (List.range m).foldl
      (fun args i =>
        patch (patch args (i * 2) (hexByte (cipherKey.getD i 0))) (cipherKey.length * 2 + i * 2)
          (hexByte (secondaryKey.getD i 0)))
      (List.replicate (cipherKeySize * 4 - 1) ' ' ++ ['0'])
    args.length = cipherKeySize * 4 ∧ ∀ i < m,
      slice args (i * 2) 2 = hexByte (cipherKey.getD i 0) ∧
        slice args (cipherKeySize * 2 + i * 2) 2 = hexByte (secondaryKey.getD i 0) := by
  have h32 : cipherKeySize = 32 := rfl
  induction m with
  | zero =>
    refine ⟨?_, fun i hi => absurd hi (Nat.not_lt_zero i)⟩
    rw [List.range_zero, List.foldl_nil, List.length_append, List.length_replicate]
    rfl
  | succ m ih =>
    obtain ⟨hlen, hdone⟩ := ih (by omega)
    simp only [List.range_succ, List.foldl_append, List.foldl_cons, List.foldl_nil]
    generalize (List.range m).foldl _ _ = args at hlen hdone ⊢
    have hfirst : (patch args (m * 2) (hexByte (cipherKey.getD m 0))).length =
        cipherKeySize * 4 := by
      rw [length_patch, hlen]
      rw [hlen, length_hexByte]
      omega
    rw [hc]
    refine ⟨?_, ?_⟩
    · rw [length_patch, hfirst]
      rw [hfirst, length_hexByte]
      omega
    · intro i hi
      rcases Nat.lt_succ_iff_lt_or_eq.mp hi with hlt | rfl
      · obtain ⟨h1, h2⟩ := hdone i hlt
        rw [slice_patch_disjoint (by omega) (.inl (by omega)),
          slice_patch_disjoint (by omega) (.inl (by omega)),
          slice_patch_disjoint (by omega) (.inl (by omega)),
          slice_patch_disjoint (by omega) (.inr (by rw [length_hexByte]; omega))]
        exact ⟨h1, h2⟩
      · constructor
        · rw [slice_patch_disjoint (by omega) (.inl (by omega))]
          exact slice_patch_self (by omega) rfl
        · exact slice_patch_self (by omega) rfl

/-- **The key argument says the two keys.** -/
theorem decodeKey_keyArgument (hc : cipherKey.length = cipherKeySize)
    (hs : secondaryKey.length = cipherKeySize) :
    decodeKey (keyArgument cipherKey secondaryKey) = some (cipherKey ++ secondaryKey) := by
  have h32 : cipherKeySize = 32 := rfl
  obtain ⟨hlen, hdigits⟩ := keyArgument_loop secondaryKey (Nat.le_refl cipherKeySize) hc
  have hparts : ∀ p ∈ (cipherKey ++ secondaryKey).map hexByte, p.length = 2 := by
    intro p hp
    obtain ⟨x, -, rfl⟩ := List.mem_map.mp hp
    exact length_hexByte x
  have hall : ((cipherKey ++ secondaryKey).flatMap hexByte).length = cipherKeySize * 4 := by
    rw [length_flatMap_const (k := 2) (fun x _ => length_hexByte x), List.length_append]
    omega
  have heq : keyArgument cipherKey secondaryKey = (cipherKey ++ secondaryKey).flatMap hexByte := by
    rw [keyArgument, hc]
    rw [hc] at hlen hdigits
    refine eq_of_slices_eq (n := 2) (by decide) (hlen.trans hall.symm) (by rw [hlen]; rfl) ?_
    intro i hi
    rw [hlen] at hi
    have hi64 : i < ((cipherKey ++ secondaryKey).map hexByte).length := by
      rw [List.length_map, List.length_append]
      omega
    have hright := slice_flatten hparts [] hi64
    rw [List.append_nil, List.getElem_map] at hright
    rw [List.flatMap_def, hright]
    by_cases hfront : i < cipherKeySize
    · rw [(hdigits i hfront).1, List.getElem_append_left (by omega),
        List.getD_eq_getElem _ _ (by omega)]
    · have hback := (hdigits (i - cipherKeySize) (by omega)).2
      rw [show cipherKeySize * 2 + (i - cipherKeySize) * 2 = i * 2 by omega] at hback
      rw [hback, List.getElem_append_right (by omega), List.getD_eq_getElem _ _ (by omega)]
      simp only [hc]
  rw [heq]
  exact decodeKey_hexByte _

end

/-! ## One sector -/

/-- A sector through the layers, one after the other, with one IV. -/
def cascade (C : Ciphers) (f : Cipher → Bytes → Bytes → Bytes) (iv : UInt64)
    (layers : List (Cipher × Bytes × Bytes)) (sector : Bytes) : Bytes :=
  layers.foldl (fun d (c, k, k2) => xtsSector (f c k) (C.encryptBlock c k2) iv d) sector

section
variable {C : Ciphers} {f : Cipher → Bytes → Bytes → Bytes} {sector : Bytes}

/-- A sector is one data unit. -/
theorem bufferXTS_sector (cipher secondary : Bytes → Bytes) (hsector : sector.length = 512)
    (n : UInt64) :
    bufferXTS cipher secondary sector n = some (xtsSector cipher secondary n sector) := by
  have hblocks : sector.length % bytesPerXtsBlock = 0 := by
    rw [hsector]
    decide
  rw [bufferXTS_eq_mapIdx hblocks, xtsSector]
  congr 2
  apply List.ext_getElem?
  intro j
  rw [List.getElem?_mapIdx, List.getElem?_mapIdx, getElem?_xtsBlocksOf, hsector]
  split
  · rename_i hj
    rw [Option.map_some, Option.map_some, xtsBlock_of_lt n (j := j) hj]
    rfl
  · rfl

theorem length_xtsSector {cipher secondary : Bytes → Bytes}
    (hc : ∀ b, (cipher b).length = b.length) (hs : ∀ b, (secondary b).length = b.length)
    (hsector : sector.length = 512) (n : UInt64) :
    (xtsSector cipher secondary n sector).length = 512 := by
  rw [length_bufferXTS hc hs (bufferXTS_sector cipher secondary hsector n), hsector]

theorem length_cascade (hf : ∀ c k b, (f c k b).length = b.length) (iv : UInt64)
    (layers : List (Cipher × Bytes × Bytes)) (hsector : sector.length = 512) :
    (cascade C f iv layers sector).length = 512 := by
  induction layers generalizing sector with
  | nil => exact hsector
  | cons layer layers ih =>
    exact ih (length_xtsSector (hf layer.1 layer.2.1) (C.length_encryptBlock layer.1 layer.2.2)
      hsector iv)

theorem cascade_append (iv : UInt64) (layers layers' : List (Cipher × Bytes × Bytes)) :
    cascade C f iv (layers ++ layers') sector =
      cascade C f iv layers' (cascade C f iv layers sector) :=
  List.foldl_append

/-- The buffer cascade of a sector. -/
theorem foldlM_sector (hf : ∀ c k b, (f c k b).length = b.length) (iv : UInt64)
    (layers : List (Cipher × Bytes × Bytes)) (hsector : sector.length = 512) :
    layers.foldlM (fun d (c, k, k2) => bufferXTS (f c k) (C.encryptBlock c k2) d iv) sector =
      some (cascade C f iv layers sector) := by
  induction layers generalizing sector with
  | nil => rfl
  | cons layer layers ih =>
    obtain ⟨c, k, k2⟩ := layer
    rw [List.foldlM_cons]
    show (bufferXTS (f c k) (C.encryptBlock c k2) sector iv).bind _ = _
    rw [bufferXTS_sector _ _ hsector]
    exact ih (length_xtsSector (hf c k) (C.length_encryptBlock c k2) hsector iv)

theorem decryptBuffer_sector (C : Ciphers) (ea : EncryptionAlgorithm)
    (hsector : sector.length = 512) (n : UInt64) :
    ea.decryptBuffer C sector n =
      some (cascade C C.decryptBlock (n + ea.sectorOffset) ea.keyed.reverse sector) :=
  foldlM_sector C.length_decryptBlock _ _ hsector

theorem encryptBuffer_sector (C : Ciphers) (ea : EncryptionAlgorithm)
    (hsector : sector.length = 512) (n : UInt64) :
    ea.encryptBuffer C sector n =
      some (cascade C C.encryptBlock (n + ea.sectorOffset) ea.keyed sector) :=
  foldlM_sector C.length_encryptBlock _ _ hsector

end

/-! ## The stack -/

/-- The keys of an algorithm as `SetKey` takes them, and the offset of the data as the layout says
    it. -/
structure Keyed (v : Volume) : Prop where
  dataOffset_eq : v.volumeDataOffset = v.layout.getDataOffset v.header
  length_key : v.ea.key.length = v.ea.algorithm.getKeySize
  length_secondaryKey : v.ea.secondaryKey.length = v.ea.algorithm.getKeySize

section
variable {v : Volume} {slotNumber hostSectors : Nat} {st st' : NativeDevices}
  {done : List (Cipher × Bytes × Bytes)}

/-- The first sector of the host that belongs to the data. -/
def startSector (v : Volume) : Nat := v.volumeDataOffset.toNat / 512

/-- The IV of a sector of the volume in the stack. -/
def nativeIv (v : Volume) (sector : Nat) : UInt64 :=
  UInt64.ofNat sector + (v.volumeDataOffset / encryptionDataUnitSize + v.ea.sectorOffset)

/-- What the next device is put on. -/
def NativeDevices.below (st : NativeDevices) : DevicePath :=
  if st.nativeDevCount = 0 then .host else st.nativeDevPath

def NativeDevices.belowOffset (v : Volume) (st : NativeDevices) : Nat :=
  if st.nativeDevCount = 0 then startSector v else 0

/-- The devices for the ciphers that are `done`, the last one of the algorithm first. -/
structure Stacked (v : Volume) (hostSectors : Nat) (done : List (Cipher × Bytes × Bytes))
    (st : NativeDevices) : Prop where
  count : st.nativeDevCount = done.length
  keyOffset : st.secondaryKeyOffset + done.length * cipherKeySize = v.ea.algorithm.getKeySize
  reads : ∀ C host sector,
    readSector C host st.devices st.below (st.belowOffset v + sector) =
      cascade C C.decryptBlock (nativeIv v sector) done
        (slice host ((startSector v + sector) * 512) 512)
  writes : ∀ C host sector data,
    writeSector C host st.devices st.below (st.belowOffset v + sector) data =
      patch host ((startSector v + sector) * 512)
        (cascade C C.encryptBlock (nativeIv v sector) done.reverse data)
  size : done ≠ [] → v.volumeDataSize.toNat / 512 ≠ 0 ∧
    startSector v + v.volumeDataSize.toNat / 512 ≤ hostSectors ∧
    sectorsOf hostSectors st.devices st.nativeDevPath = v.volumeDataSize.toNat / 512

/-- What `dmsetup create` adds. -/
theorem dmsetupCreate_some {devices devices' : List CryptDevice} {name : String} {args : CryptArgs}
    (h : dmsetupCreate hostSectors devices name args = some devices') :
    ∃ key, decodeKey args.key = some key ∧ args.length ≠ 0 ∧
      args.offset.toNat + args.length.toNat ≤ sectorsOf hostSectors devices args.device ∧
      devices' =
        { name := name
          length := args.length.toNat
          cipher := args.cipher
          key := key
          ivOffset := args.ivOffset
          device := args.device
          offset := args.offset.toNat } :: devices := by
  unfold dmsetupCreate at h
  cases hkey : decodeKey args.key with
  | none =>
    rw [hkey] at h
    cases h
  | some key =>
    rw [hkey] at h
    simp only at h
    split at h
    · cases h
    · rename_i hfits
      rw [not_or] at hfits
      exact ⟨key, rfl, hfits.1, Nat.le_of_not_lt hfits.2, (Option.some.inj h).symm⟩

/-- A sector of the newest device. -/
theorem readSector_head (C : Ciphers) (host : Bytes) (d : CryptDevice) (devices : List CryptDevice)
    (sector : Nat) :
    readSector C host (d :: devices) (.mapper d.name) sector =
      d.decrypt C sector (readSector C host devices d.device (d.offset + sector)) := by
  rw [readSector, if_pos rfl]

theorem writeSector_head (C : Ciphers) (host : Bytes) (d : CryptDevice)
    (devices : List CryptDevice) (sector : Nat) (data : Bytes) :
    writeSector C host (d :: devices) (.mapper d.name) sector data =
      writeSector C host devices d.device (d.offset + sector) (d.encrypt C sector data) := by
  rw [writeSector, if_pos rfl]

/-- **One more device.** -/
theorem Stacked.step (hv : Keyed v) {c : Cipher} {k k2 : Bytes} (h : Stacked v hostSectors done st)
    (hk : k.length = cipherKeySize) (hk2len : k2.length = cipherKeySize)
    (hk2 : k2 = slice v.ea.secondaryKey (st.secondaryKeyOffset - cipherKeySize) cipherKeySize)
    (hoffset : cipherKeySize ≤ st.secondaryKeyOffset)
    (hcreate : createNativeDevice v slotNumber hostSectors st (c, k, k2) = some st') :
    Stacked v hostSectors (done ++ [(c, k, k2)]) st' := by
  have h512 : encryptionDataUnitSize.toNat = 512 := rfl
  have hstart : (v.volumeDataOffset / encryptionDataUnitSize).toNat = startSector v := by
    rw [UInt64.toNat_div, h512, startSector]
  have hlength : (v.volumeDataSize / encryptionDataUnitSize).toNat =
      v.volumeDataSize.toNat / 512 := by
    rw [UInt64.toNat_div, h512]
  have hbelow : (if st.nativeDevCount = 0 then
      v.volumeDataOffset / encryptionDataUnitSize else 0).toNat = st.belowOffset v := by
    rw [NativeDevices.belowOffset]
    split
    · exact hstart
    · rfl
  have hpath : (if st.nativeDevCount = 0 then DevicePath.host else st.nativeDevPath) =
      st.below := rfl
  unfold createNativeDevice at hcreate
  simp only [hk, ← hk2, ← hv.dataOffset_eq, hpath] at hcreate
  obtain ⟨devices, hdm, rfl⟩ := Option.map_eq_some_iff.mp hcreate
  obtain ⟨key, hkey, hpos, hroom, rfl⟩ := dmsetupCreate_some hdm
  simp only [decodeKey_keyArgument hk hk2len] at hkey
  obtain rfl := Option.some.inj hkey
  simp only [hbelow, hlength] at hpos hroom ⊢
  have hhalf : (k ++ k2).length / 2 = k.length := by
    rw [List.length_append, hk, hk2len]
    rfl
  have hsize : v.volumeDataSize.toNat / 512 ≠ 0 := by
    intro hzero
    apply hpos
    apply UInt64.toNat_inj.mp
    rw [hlength, hzero]
    rfl
  refine { count := ?_, keyOffset := ?_, reads := ?_, writes := ?_, size := ?_ }
  · rw [List.length_append, List.length_singleton, h.count]
  · have hold := h.keyOffset
    simp only [List.length_append, List.length_singleton, Nat.succ_mul]
    omega
  · intro C host sector
    rw [cascade_append, ← h.reads C host sector]
    simp only [NativeDevices.below, NativeDevices.belowOffset, Nat.succ_ne_zero, if_false,
      Nat.zero_add]
    rw [readSector_head]
    simp only [CryptDevice.decrypt, CryptDevice.dataKey, CryptDevice.ivKey, hhalf,
      List.take_left, List.drop_left]
    rfl
  · intro C host sector data
    rw [List.reverse_append, List.reverse_singleton, cascade_append, ← h.writes C host sector]
    simp only [NativeDevices.below, NativeDevices.belowOffset, Nat.succ_ne_zero, if_false,
      Nat.zero_add]
    rw [writeSector_head]
    simp only [CryptDevice.encrypt, CryptDevice.dataKey, CryptDevice.ivKey, hhalf,
      List.take_left, List.drop_left]
    rfl
  · intro _
    refine ⟨hsize, ?_, ?_⟩
    · -- the first device lies on the host, and so do those on top of it
      cases done with
      | nil =>
        have hzero : st.nativeDevCount = 0 := h.count
        simp only [NativeDevices.belowOffset, NativeDevices.below, if_pos hzero, sectorsOf]
          at hroom
        exact hroom
      | cons d ds => exact (h.size (List.cons_ne_nil d ds)).2.1
    · rw [sectorsOf, if_pos rfl]

/-- A cipher of the algorithm with its two keys. -/
theorem keyed_getElem (hv : Keyed v) {i : Nat} (hi : i < v.ea.keyed.length) :
    v.ea.keyed[i].2.1.length = cipherKeySize ∧ v.ea.keyed[i].2.2.length = cipherKeySize ∧
      v.ea.keyed[i].2.2 = slice v.ea.secondaryKey (i * cipherKeySize) cipherKeySize := by
  have hciphers : i < v.ea.algorithm.ciphers.length := by
    simpa [EncryptionAlgorithm.keyed] using hi
  have hin : i * cipherKeySize + cipherKeySize ≤ v.ea.algorithm.getKeySize := by
    have hmul := Nat.mul_le_mul_right cipherKeySize (Nat.succ_le_of_lt hciphers)
    rwa [Nat.succ_mul] at hmul
  simp only [EncryptionAlgorithm.keyed, List.getElem_mapIdx]
  refine ⟨length_slice ?_, length_slice ?_, trivial⟩
  · rw [hv.length_key]
    exact hin
  · rw [hv.length_secondaryKey]
    exact hin

theorem length_keyed (ea : EncryptionAlgorithm) :
    ea.keyed.length = ea.algorithm.ciphers.length := by
  simp [EncryptionAlgorithm.keyed]

/-- The rest of the loop. -/
theorem Stacked.run (hv : Keyed v) (todo : List (Cipher × Bytes × Bytes)) :
    ∀ (done : List (Cipher × Bytes × Bytes)) (st : NativeDevices),
      v.ea.keyed.reverse = done ++ todo → Stacked v hostSectors done st →
      todo.foldlM (createNativeDevice v slotNumber hostSectors) st = some st' →
      Stacked v hostSectors (done ++ todo) st' := by
  induction todo with
  | nil =>
    intro done st _ h hrun
    rw [List.append_nil, ← Option.some.inj hrun]
    exact h
  | cons ck todo ih =>
    intro done st hall h hrun
    obtain ⟨mid, hcreate, hrest⟩ := Option.bind_eq_some_iff.mp hrun
    have hcount := congrArg List.length hall
    rw [List.length_reverse, List.length_append, List.length_cons] at hcount
    have hi : v.ea.keyed.length - 1 - done.length < v.ea.keyed.length := by omega
    have hck : ck = v.ea.keyed[v.ea.keyed.length - 1 - done.length] := by
      have hget : v.ea.keyed.reverse[done.length]? = some ck := by
        rw [hall, List.getElem?_append_right (Nat.le_refl _), Nat.sub_self]
        rfl
      rw [List.getElem?_reverse (by omega), List.getElem?_eq_getElem hi] at hget
      exact (Option.some.inj hget).symm
    obtain ⟨hk, hk2len, hk2⟩ := keyed_getElem hv hi
    rw [← hck] at hk hk2len hk2
    -- the offset goes down by one key for each cipher
    have hoffset := h.keyOffset
    have hsize : v.ea.algorithm.getKeySize = v.ea.keyed.length * cipherKeySize := by
      rw [length_keyed]
      rfl
    have hplace : st.secondaryKeyOffset - cipherKeySize =
        (v.ea.keyed.length - 1 - done.length) * cipherKeySize := by
      rw [Nat.sub_mul, Nat.sub_mul, Nat.one_mul]
      omega
    have hroom : cipherKeySize ≤ st.secondaryKeyOffset := by
      have hmul := Nat.mul_le_mul_right cipherKeySize
        (show done.length + 1 ≤ v.ea.keyed.length by omega)
      rw [Nat.succ_mul] at hmul
      omega
    rw [← hplace] at hk2
    have hnext := h.step hv (c := ck.1) hk hk2len hk2 hroom hcreate
    have hdone := ih (done ++ [ck]) mid (by rw [hall, List.append_assoc]; rfl) hnext hrest
    rwa [List.append_assoc] at hdone

theorem keyed_ne_nil (ea : EncryptionAlgorithm) : ea.keyed.reverse ≠ [] := by
  intro hnil
  have hlen := congrArg List.length hnil
  rw [List.length_reverse, length_keyed] at hlen
  have hne : ∀ a : AlgorithmId, a.ciphers.length ≠ 0 := by
    intro a
    cases a <;> decide
  exact hne ea.algorithm hlen

/-- **The stack**: a sector goes through all of the ciphers, in the order of the algorithm. -/
theorem stacked_of_create (hv : Keyed v)
    (h : createNativeDevices v slotNumber hostSectors = some st) :
    Stacked v hostSectors v.ea.keyed.reverse st := by
  refine Stacked.run hv v.ea.keyed.reverse [] _ rfl ?_ h
  exact
    { count := rfl
      keyOffset := by simp [hv.length_secondaryKey]
      reads := fun _ _ _ => rfl
      writes := fun _ _ _ _ => rfl
      size := fun hne => absurd rfl hne }

theorem Stacked.count_ne_zero (h : Stacked v hostSectors v.ea.keyed.reverse st) :
    st.nativeDevCount ≠ 0 := by
  rw [h.count]
  intro hzero
  exact keyed_ne_nil v.ea (List.eq_nil_of_length_eq_zero hzero)

/-- What sector `b` of the volume reads in the kernel. -/
theorem Stacked.readSector_eq (h : Stacked v hostSectors v.ea.keyed.reverse st) (C : Ciphers)
    (host : Bytes) (b : Nat) :
    readSector C host st.devices st.nativeDevPath b =
      cascade C C.decryptBlock (nativeIv v b) v.ea.keyed.reverse
        (slice host ((startSector v + b) * 512) 512) := by
  have hreads := h.reads C host b
  rw [NativeDevices.below, NativeDevices.belowOffset, if_neg h.count_ne_zero,
    if_neg h.count_ne_zero, Nat.zero_add] at hreads
  exact hreads

theorem Stacked.writeSector_eq (h : Stacked v hostSectors v.ea.keyed.reverse st) (C : Ciphers)
    (host : Bytes) (b : Nat) (data : Bytes) :
    writeSector C host st.devices st.nativeDevPath b data =
      patch host ((startSector v + b) * 512)
        (cascade C C.encryptBlock (nativeIv v b) v.ea.keyed data) := by
  have hwrites := h.writes C host b data
  rw [NativeDevices.below, NativeDevices.belowOffset, if_neg h.count_ne_zero,
    if_neg h.count_ne_zero, Nat.zero_add, List.reverse_reverse] at hwrites
  exact hwrites

end

/-! ## What user space reads -/

/-- The first sector of the host is an NTFS boot sector in the clear. -/
def ntfsBootSector (host : Bytes) : Bool := beNat (slice host 0 8) = 0xEB52904E54465320

section
variable {C : Ciphers} {P : Primitives} {v : Volume} {host : Bytes}

/-- A volume that `MountVolumeNative` takes on. -/
structure Native (v : Volume) : Prop where
  sectorSize_min : 512 ≤ v.sectorSize.toNat
  sectorSize_max : v.sectorSize.toNat ≤ 4096
  sectorSize_units : v.sectorSize.toNat % 512 = 0
  notV2 : v.v2Mac.isActive = false
  complete : v.encryptionNotCompleted = false

/-- The data unit of sector `b` of the volume in user space. -/
def userUnit (v : Volume) (b : Nat) : Nat :=
  v.volumeDataOffset.toNat / v.sectorSize.toNat * v.sectorSize.toNat / 512 + b

/-- Sector `b` is left as it is. -/
def leftClear (v : Volume) (host : Bytes) (b : Nat) : Bool :=
  decide (b * 512 < v.sectorSize.toNat) && v.systemEncryption && (v.volumeDataOffset = 0 : Bool) &&
    ntfsBootSector host

/-- Sector `b` of the volume in user space. -/
def userSector (C : Ciphers) (v : Volume) (host : Bytes) (b : Nat) : Bytes :=
  let sector := slice host (v.volumeDataOffset.toNat + b * 512) 512
  if leftClear v host b then sector
  else cascade C C.decryptBlock (UInt64.ofNat (userUnit v b) + v.ea.sectorOffset)
    v.ea.keyed.reverse sector

/-- What a read asks for. -/
theorem readSectors_range {v' : Volume} {out : Bytes} {size : Nat} {byteOffset : UInt64}
    {uninit : RandStream} (hmax : host.length ≤ offsetMax) (hsize : 0 < size)
    (h : v.readSectors C P host size byteOffset
      { data := false, tags := false, uninit := uninit } = .ok (v', out)) :
    size % v.sectorSize.toNat = 0 ∧ byteOffset.toNat % v.sectorSize.toNat = 0 ∧
      (v.hostOffset byteOffset).toNat + size ≤ host.length := by
  unfold Volume.readSectors at h
  simp only at h
  split at h
  · cases h
  · rename_i haligned
    rw [not_or, not_not, not_not] at haligned
    obtain ⟨hsizeMod, hoffMod⟩ := haligned
    cases hread : File.readAt host (v.hostOffset byteOffset) size false with
    | none =>
      rw [hread] at h
      cases h
    | some buffer =>
      rw [hread] at h
      simp only at h
      split at h
      · cases h
      · rename_i hlen
        rw [not_not] at hlen
        have hbuffer : buffer = slice host (v.hostOffset byteOffset).toNat size := by
          unfold File.readAt at hread
          split at hread
          · cases hread
          · exact (Option.some.inj hread).symm
        have hin : (v.hostOffset byteOffset).toNat + size ≤ host.length := by
          rw [hbuffer] at hlen
          simp only [slice, List.length_take, List.length_drop] at hlen
          omega
        have hword : (UInt64.ofNat size).toNat = size := by
          simp only [offsetMax] at hmax
          rw [UInt64.toNat_ofNat']
          exact Nat.mod_eq_of_lt (by omega)
        refine ⟨?_, ?_, hin⟩
        · have hmod := congrArg UInt64.toNat hsizeMod
          rwa [UInt64.toNat_mod, hword] at hmod
        · have hmod := congrArg UInt64.toNat hoffMod
          rwa [UInt64.toNat_mod] at hmod

/-- The unit in which a sector of the text starts. -/
theorem sectorUnit_add (h : Volume.Readable P v host) {i j w : Nat}
    (hw : v.sectorSize.toNat = 512 * w) (hi : i < v.wholeSectors) (hj : j < w) :
    v.sectorUnit i + UInt64.ofNat j = UInt64.ofNat (userUnit v (w * i + j)) := by
  have hle := h.sector_le hi
  have hmax := h.addressable
  have h512 : encryptionDataUnitSize.toNat = 512 := rfl
  have hbase := Nat.div_mul_le_self v.volumeDataOffset.toNat v.sectorSize.toNat
  have hindex : i ≤ i * v.sectorSize.toNat := Nat.le_mul_of_pos_right _ h.sectorSize_pos
  have hdivle := Nat.div_le_self v.volumeDataOffset.toNat v.sectorSize.toNat
  simp only [offsetMax] at hmax
  have hsector : (v.volumeDataOffset / v.sectorSize + UInt64.ofNat i).toNat =
      v.volumeDataOffset.toNat / v.sectorSize.toNat + i := by
    rw [UInt64.toNat_add, UInt64.toNat_div, UInt64.toNat_ofNat',
      Nat.mod_eq_of_lt (show i < 2 ^ 64 by omega)]
    exact Nat.mod_eq_of_lt (by omega)
  have hbytes : ((v.volumeDataOffset / v.sectorSize + UInt64.ofNat i) * v.sectorSize).toNat =
      v.volumeDataOffset.toNat / v.sectorSize.toNat * v.sectorSize.toNat +
        i * v.sectorSize.toNat := by
    rw [UInt64.toNat_mul, hsector, Nat.add_mul]
    exact Nat.mod_eq_of_lt (by omega)
  have hunits : i * v.sectorSize.toNat = 512 * (w * i) := by
    rw [hw, Nat.mul_comm i, Nat.mul_assoc]
  apply UInt64.toNat_inj.mp
  rw [Volume.sectorUnit, UInt64.toNat_add, UInt64.toNat_div, hbytes, h512, UInt64.toNat_ofNat',
    UInt64.toNat_ofNat', userUnit]
  generalize v.volumeDataOffset.toNat / v.sectorSize.toNat * v.sectorSize.toNat = base at hbase ⊢
  rw [hunits] at hle ⊢
  generalize w * i = p at hle ⊢
  omega

/-- **512 bytes of the text.** -/
theorem slice_wholeText_sector (C : Ciphers) (hn : Native v) (h : Volume.Readable P v host)
    {b : Nat} (hb : (b + 1) * 512 ≤ v.wholeSectors * v.sectorSize.toNat) :
    slice (v.wholeText C host) (b * 512) 512 = userSector C v host b := by
  obtain ⟨w, hw⟩ := Nat.dvd_of_mod_eq_zero hn.sectorSize_units
  have hmin := hn.sectorSize_min
  have hwpos : 0 < w := by omega
  -- sector `b` is unit `j` of sector `i` of the volume
  obtain ⟨i, j, hj, rfl⟩ : ∃ i j, j < w ∧ b = w * i + j :=
    ⟨b / w, b % w, Nat.mod_lt b hwpos, (Nat.div_add_mod b w).symm⟩
  have hplace : (w * i + j) * 512 = i * v.sectorSize.toNat + j * 512 := by
    rw [hw, Nat.add_mul, Nat.mul_comm (w * i), ← Nat.mul_assoc, Nat.mul_comm i]
  have hi : i < v.wholeSectors := by
    by_contra hge
    have hmul := Nat.mul_le_mul_right v.sectorSize.toNat (Nat.le_of_not_lt hge)
    rw [Nat.succ_mul, hplace] at hb
    omega
  have hinside : j * 512 + 512 ≤ v.sectorSize.toNat := by omega
  have hsector : slice (v.wholeText C host) ((w * i + j) * 512) 512 =
      slice (v.plainSector C host i) (j * 512) 512 := by
    rw [← h.slice_wholeText hi, slice_slice hinside, hplace]
  have hraw : slice (v.sectorAt host i) (j * 512) 512 =
      slice host (v.volumeDataOffset.toNat + (w * i + j) * 512) 512 := by
    rw [Volume.sectorAt, slice_slice hinside, hplace, Nat.add_assoc]
  have hclear : v.clearAt host i = leftClear v host (w * i + j) := by
    have hfirst : (decide ((w * i + j) * 512 < v.sectorSize.toNat)) = decide (i = 0) := by
      rw [hplace]
      apply decide_eq_decide.mpr
      constructor
      · intro hlt
        by_contra hne
        have hmul := Nat.mul_le_mul_right v.sectorSize.toNat (Nat.one_le_iff_ne_zero.mpr hne)
        omega
      · rintro rfl
        omega
    rw [Volume.clearAt, leftClear, hn.complete, Bool.false_and, Bool.or_false, hfirst,
      Volume.skipsFirstSector, ntfsBootSector, Bool.and_assoc, Bool.and_assoc]
    by_cases hzero : v.volumeDataOffset = 0
    · rw [Volume.sectorAt, hzero, Nat.zero_mul, slice_slice (by omega)]
      simp only [Bool.and_assoc]
      rfl
    · simp [hzero]
  rw [hsector, Volume.plainSector, userSector, hclear]
  split
  · exact hraw
  · have hlen := h.length_sectorAt hi
    have hunits : (v.sectorAt host i).length % 512 = 0 := by
      rw [hlen]
      exact hn.sectorSize_units
    obtain ⟨out, hout, -, hpart⟩ := modeBuffer_slice C v.ea .decryptDataUnits hunits (j * 512) 512
      (Nat.mul_mod_left j 512) (by decide) (by rw [hlen]; exact hinside) (v.sectorUnit i)
    have hwhole : v.ea.decryptBuffer C (v.sectorAt host i) (v.sectorUnit i) = some out := hout
    rw [Nat.mul_div_cancel _ (by decide), sectorUnit_add h hw hi hj, hraw] at hpart
    have h512 : (slice host (v.volumeDataOffset.toNat + (w * i + j) * 512) 512).length = 512 := by
      have hle := h.sector_le hi
      rw [hplace]
      exact length_slice (by omega)
    have hdecrypted := (decryptBuffer_sector C v.ea h512
      (UInt64.ofNat (userUnit v (w * i + j)))).symm.trans hpart
    rw [Volume.plainAt, hwhole, Option.getD_some]
    exact (Option.some.inj hdecrypted).symm

/-- A range of sectors one after the other. -/
def sectorRange (sector : Nat → Bytes) (first n : Nat) : Bytes :=
  ((List.range n).map (fun k => sector (first + k))).flatten

theorem length_part_sectorRange {sector : Nat → Bytes} {first n : Nat}
    (h : ∀ k < n, (sector (first + k)).length = 512) :
    ∀ p ∈ (List.range n).map (fun k => sector (first + k)), p.length = 512 := by
  intro p hp
  obtain ⟨k, hk, rfl⟩ := List.mem_map.mp hp
  exact h k (List.mem_range.mp hk)

theorem length_sectorRange {sector : Nat → Bytes} {first n : Nat}
    (h : ∀ k < n, (sector (first + k)).length = 512) :
    (sectorRange sector first n).length = n * 512 := by
  rw [sectorRange, length_flatten_const (length_part_sectorRange h), List.length_map,
    List.length_range]

/-- One sector of a range. -/
theorem slice_sectorRange_one {sector : Nat → Bytes} {first n k : Nat}
    (h : ∀ k < n, (sector (first + k)).length = 512) (hk : k < n) :
    slice (sectorRange sector first n) (k * 512) 512 = sector (first + k) := by
  have hpart := slice_flatten (length_part_sectorRange h) [] (i := k) (by simpa using hk)
  rw [List.append_nil, List.getElem_map, List.getElem_range] at hpart
  exact hpart

/-- Text that is `sector` by `sector` is a range of them. -/
theorem eq_sectorRange {text : Bytes} {sector : Nat → Bytes} {first n : Nat}
    (hlen : text.length = n * 512)
    (h : ∀ k < n, slice text (k * 512) 512 = sector (first + k)) :
    text = sectorRange sector first n := by
  have hsectors : ∀ k < n, (sector (first + k)).length = 512 := by
    intro k hk
    rw [← h k hk]
    apply length_slice
    omega
  have hrange := length_sectorRange hsectors
  apply eq_of_slices_eq (n := 512) (by decide) (hlen.trans hrange.symm)
  · rw [hlen, Nat.mul_mod_left]
  · intro k hk
    rw [hlen, Nat.mul_div_cancel _ (by decide)] at hk
    rw [h k hk, slice_sectorRange_one hsectors hk]

/-- **A range in user space**, in sectors of 512 bytes. -/
theorem readSectors_eq (C : Ciphers) (hn : Native v) (h : Volume.Readable P v host)
    {byteOffset : UInt64} {size : Nat} (hr : v.RangeOk byteOffset size) (uninit : RandStream) :
    ∃ v', v.readSectors C P host size byteOffset
        { data := false, tags := false, uninit := uninit } =
      .ok (v', sectorRange (userSector C v host) (byteOffset.toNat / 512) (size / 512)) := by
  have hoffset := hr.offset_eq
  have hsize := hr.size_eq
  have hinside := hr.inside
  have hunits := hn.sectorSize_units
  have hin : v.rangeFirst byteOffset + v.rangeCount size ≤ v.wholeSectors := by
    have hle := h.dataSize_le.1
    rw [← hoffset, ← hsize, ← Nat.add_mul] at hinside
    exact Nat.le_of_mul_le_mul_right (hinside.trans hle) h.sectorSize_pos
  obtain ⟨v', hread⟩ := h.readSectors_eq C hin hoffset.symm uninit
  rw [hoffset, hsize] at hread
  have hdvd : 512 ∣ v.sectorSize.toNat := Nat.dvd_of_mod_eq_zero hunits
  have hoffset512 : byteOffset.toNat / 512 * 512 = byteOffset.toNat := by
    rw [← hoffset]
    exact Nat.div_mul_cancel (Dvd.dvd.mul_left hdvd _)
  have hsize512 : size / 512 * 512 = size := by
    rw [← hsize]
    exact Nat.div_mul_cancel (Dvd.dvd.mul_left hdvd _)
  have hall := h.dataSize_le.1
  refine ⟨v', hread.trans ?_⟩
  congr 2
  apply eq_sectorRange
  · rw [hsize512]
    apply length_slice
    rw [h.length_wholeText]
    omega
  · intro k hk
    have hk512 := Nat.mul_le_mul_right 512 (Nat.succ_le_of_lt hk)
    rw [Nat.succ_mul, hsize512] at hk512
    rw [slice_slice hk512, ← slice_wholeText_sector C hn h (b := byteOffset.toNat / 512 + k)
      (by rw [Nat.add_mul, Nat.add_mul, hoffset512]; omega), Nat.add_mul, hoffset512]

/-! ## What is written -/

/-- The host after a call of `WriteSectors` that returns. -/
theorem writeSectors_eq (hn : Native v) (h : Volume.Readable P v host) {op : WriteRequest}
    (hr : v.RangeOk op.byteOffset op.buffer.length) {v' : Volume} {host' : Bytes}
    (hwrite : Volume.writeSectors C P (v, host) op = ((v', host'), .ok ())) :
    ∃ ct, v.ea.encryptBuffer C op.buffer
        (UInt64.ofNat (userUnit v (op.byteOffset.toNat / 512))) = some ct ∧
      host' = patch host (v.volumeDataOffset.toNat + op.byteOffset.toNat) ct := by
  have hpos := h.sectorSize_pos
  have hinside := hr.inside
  have hall := h.dataSize_le.1
  have hheld := h.held
  have hmax := h.addressable
  simp only [offsetMax] at hmax
  have hout := Volume.writeSectors_outcome C P v host op
  rw [hwrite] at hout
  cases hout with
  | written ct _ _ check cipher whole counted other =>
    have hlen := EncryptionAlgorithm.length_encryptSectors cipher
    have hhost : (v.hostOffset op.byteOffset).toNat =
        v.volumeDataOffset.toNat + op.byteOffset.toNat := by
      rw [Volume.hostOffset, UInt64.toNat_add]
      exact Nat.mod_eq_of_lt (by omega)
    have hstored : (File.writeAt host (v.hostOffset op.byteOffset) ct op.dataAccepts).1 =
        patch host (v.volumeDataOffset.toNat + op.byteOffset.toNat) ct := by
      simp only [File.writeAt, whole, List.take_length]
      rw [hhost, pwrite_eq_patch]
      rw [hlen]
      omega
    refine ⟨ct, ?_, ?_⟩
    · -- the call encrypts the whole buffer, from the unit that its first sector starts with
      have hempty : op.buffer.length ≠ 0 := by
        intro hzero
        rcases Volume.checkWrite_cases v op with ⟨e, herror, -⟩ | herror | ⟨-, -, -, hone⟩
        · exact Volume.not_accepts_of_error herror check
        · exact Volume.not_accepts_of_error herror check
        · have hone' := UInt64.le_iff_toNat_le.mp hone
          rw [op.toNat_length, hzero] at hone'
          exact absurd hone' (by decide)
      obtain ⟨w, hw⟩ := Nat.dvd_of_mod_eq_zero hn.sectorSize_units
      have hoffset := hr.offset_eq
      have hcount := hr.size_eq
      have hfirst : v.rangeFirst op.byteOffset < v.wholeSectors := by
        by_contra hge
        have hmul := Nat.mul_le_mul_right v.sectorSize.toNat (Nat.le_of_not_lt hge)
        omega
      have hwhole : (op.length / v.sectorSize * v.sectorSize).toNat = op.buffer.length := by
        rw [UInt64.toNat_mul, UInt64.toNat_div, op.toNat_length,
          Nat.div_mul_cancel (Nat.dvd_of_mod_eq_zero hr.size_aligned)]
        exact Nat.mod_eq_of_lt (by omega)
      have hindex : v.hostOffset op.byteOffset / v.sectorSize =
          v.volumeDataOffset / v.sectorSize + UInt64.ofNat (v.rangeFirst op.byteOffset) := by
        have hdivle := Nat.div_le_self v.volumeDataOffset.toNat v.sectorSize.toNat
        have hle : v.rangeFirst op.byteOffset ≤ v.rangeFirst op.byteOffset * v.sectorSize.toNat :=
          Nat.le_mul_of_pos_right _ hpos
        apply UInt64.toNat_inj.mp
        rw [UInt64.toNat_div, hhost, UInt64.toNat_add, UInt64.toNat_div, UInt64.toNat_ofNat',
          Nat.mod_eq_of_lt (show v.rangeFirst op.byteOffset < 2 ^ 64 by omega), ← hoffset,
          Nat.add_mul_div_right _ _ hpos]
        exact (Nat.mod_eq_of_lt (by omega)).symm
      have hunit := sectorUnit_add h hw hfirst (j := 0) (by omega)
      have hsector : w * v.rangeFirst op.byteOffset + 0 = op.byteOffset.toNat / 512 := by
        rw [← hoffset, hw, Nat.add_zero, Nat.mul_comm (v.rangeFirst op.byteOffset), Nat.mul_assoc,
          Nat.mul_div_cancel_left _ (by decide)]
      rw [hsector, Volume.sectorUnit, show UInt64.ofNat 0 = 0 from rfl, UInt64.add_zero] at hunit
      have henc := cipher
      rw [Volume.writeCt, EncryptionAlgorithm.encryptSectors, hindex] at henc
      simp only [hwhole, List.take_length, List.drop_length, List.append_nil, hunit,
        Option.map_id'] at henc
      exact henc
    · rw [V2SectorMacIo.updateRange, if_pos (.inl (by rw [hn.notV2]; rfl))]
      exact hstored

/-- The IV of the next sector. -/
theorem nativeIv_succ (v : Volume) (first : Nat) :
    nativeIv v (first + 1) = nativeIv v first + 1 := by
  rw [nativeIv, nativeIv, UInt64.ofNat_add, UInt64.add_assoc, UInt64.add_comm (UInt64.ofNat 1),
    ← UInt64.add_assoc]
  rfl

/-- A sector in front of `n` others, and the others. -/
theorem next_sector {start first n len : Nat} (h : (start + first + (n + 1)) * 512 ≤ len) :
    (start + (first + 1) + n) * 512 ≤ len ∧ (start + first) * 512 + 512 ≤ len := by
  constructor
  · rw [show start + (first + 1) + n = start + first + (n + 1) by omega]
    exact h
  · omega

/-- **Sectors written through the stack** are written as one buffer that is encrypted. -/
theorem writeDevice_eq {hostSectors : Nat} {st : NativeDevices}
    (hst : Stacked v hostSectors v.ea.keyed.reverse st) (n : Nat) :
    ∀ {first : Nat} {m : UInt64} {data ct host : Bytes}, data.length = n * 512 →
      nativeIv v first = m + v.ea.sectorOffset → v.ea.encryptBuffer C data m = some ct →
      (startSector v + first + n) * 512 ≤ host.length →
      writeDevice C st.devices st.nativeDevPath n first data host =
        patch host ((startSector v + first) * 512) ct := by
  induction n with
  | zero =>
    intro first m data ct host hlen _ hct _
    have hnil : ct = [] := by
      have hlen' := EncryptionAlgorithm.length_encryptBuffer hct
      exact List.eq_nil_of_length_eq_zero (by omega)
    subst hnil
    simp [writeDevice, patch]
  | succ n ih =>
    intro first m data ct host hlen hiv hct hroom
    obtain ⟨hroomNext, hroomFirst⟩ := next_sector hroom
    have hfront : (data.take 512).length = 512 := by
      rw [List.length_take]
      omega
    have hback : (data.drop 512).length = n * 512 := by
      rw [List.length_drop]
      omega
    obtain ⟨outA, outB, hA, hB, hAB⟩ := EncryptionThreadPool.modeBuffer_append C v.ea
      .encryptDataUnits (a := data.take 512) (b := data.drop 512) (by rw [hfront]; decide)
      (by rw [hback, show bytesPerXtsBlock = 16 from rfl]; omega) m
    rw [List.take_append_drop] at hAB
    have hsplit : ct = outA ++ outB := Option.some.inj (hct.symm.trans hAB)
    have hcascade : outA = cascade C C.encryptBlock (nativeIv v first) v.ea.keyed
        (data.take 512) := by
      rw [hiv]
      exact Option.some.inj (hA.symm.trans (encryptBuffer_sector C v.ea hfront m))
    have hA512 : outA.length = 512 := by
      rw [hcascade]
      exact length_cascade C.length_encryptBlock _ _ hfront
    have hpatched : (patch host ((startSector v + first) * 512) outA).length = host.length :=
      length_patch (by rw [hA512]; exact hroomFirst)
    rw [hfront] at hB
    have hivNext : nativeIv v (first + 1) = m + 1 + v.ea.sectorOffset := by
      rw [nativeIv_succ, hiv, UInt64.add_assoc, UInt64.add_comm v.ea.sectorOffset,
        ← UInt64.add_assoc]
    have hnext := ih hback hivNext hB (by rw [hpatched]; exact hroomNext)
    rw [writeDevice, hst.writeSector_eq, ← hcascade, hnext, hsplit]
    have hnextOffset : (startSector v + (first + 1)) * 512 =
        (startSector v + first) * 512 + outA.length := by
      rw [hA512, ← Nat.add_assoc, Nat.succ_mul]
    exact patch_patch_adjacent (by rw [hA512]; exact hroomFirst) hnextOffset

end

/-! ## The kernel and user space -/

/-- **The stack and the volume are one**: a range that `ReadSectors` takes reads alike in the
    kernel, and a write through the stack leaves what `WriteSectors` does. -/
structure KernelAgrees (C : Ciphers) (P : Primitives) (v : Volume) (host : Bytes)
    (st : NativeDevices) : Prop where
  read : ∀ (byteOffset : UInt64) (size : Nat) (uninit : RandStream), v.RangeOk byteOffset size →
    ∃ v', v.readSectors C P host size byteOffset
        { data := false, tags := false, uninit := uninit } =
      .ok (v', sectorRange (readSector C host st.devices st.nativeDevPath)
        (byteOffset.toNat / 512) (size / 512))
  write : ∀ op : WriteRequest, v.RangeOk op.byteOffset op.buffer.length → ∀ v' host',
    Volume.writeSectors C P (v, host) op = ((v', host'), .ok ()) →
    writeDevice C st.devices st.nativeDevPath (op.buffer.length / 512) (op.byteOffset.toNat / 512)
      op.buffer host = host'

/-- A volume as it is after `Volume::Open`. -/
structure Opened (v : Volume) : Prop extends Keyed v where
  sectorSize_min : 512 ≤ v.sectorSize.toNat
  sectorSize_max : v.sectorSize.toNat ≤ 4096
  sectorSize_units : v.sectorSize.toNat % 512 = 0

/-- What a mount has seen of the volume. -/
structure Mounted (v : Volume) (hostLength : Nat) (st : NativeDevices) : Prop where
  native : Native v
  stacked : Stacked v (hostLength / 512) v.ea.keyed.reverse st
  wholeSectors : v.volumeDataSize.toNat % v.sectorSize.toNat = 0
  notEmpty : v.sectorSize.toNat ≤ v.volumeDataSize.toNat
  held : v.volumeDataOffset.toNat + v.volumeDataSize.toNat ≤ hostLength
  addressable : hostLength ≤ offsetMax

section
variable {C : Ciphers} {P : Primitives} {v : Volume} {host : Bytes} {st : NativeDevices}

theorem Mounted.readable (h : Mounted v host.length st) : Volume.Readable P v host where
  sectorSize_min := h.native.sectorSize_min
  sectorSize_max := h.native.sectorSize_max
  sectorSize_units := h.native.sectorSize_units
  held := by
    have hpos : 0 < v.sectorSize.toNat := by
      have hmin := h.native.sectorSize_min
      omega
    have hheld := h.held
    obtain ⟨q, hq⟩ := Nat.dvd_of_mod_eq_zero h.wholeSectors
    have hceil : v.wholeSectors = q := by
      rw [Volume.wholeSectors, hq, Nat.add_sub_assoc hpos, Nat.add_comm,
        Nat.add_mul_div_left _ _ hpos, Nat.div_eq_of_lt (by omega), Nat.zero_add]
    rw [hceil, Nat.mul_comm, ← hq]
    exact hheld
  addressable := h.addressable
  authentic := fun hactive => by
    rw [h.native.notV2] at hactive
    cases hactive

/-- Data that starts at a sector of the volume starts at one of the host. -/
theorem Mounted.startSector_eq (h : Mounted v host.length st)
    (haligned : v.volumeDataOffset.toNat % v.sectorSize.toNat = 0) :
    startSector v * 512 = v.volumeDataOffset.toNat :=
  Nat.div_mul_cancel ((Nat.dvd_of_mod_eq_zero h.native.sectorSize_units).trans
    (Nat.dvd_of_mod_eq_zero haligned))

/-- Then the units are numbered alike. -/
theorem Mounted.nativeIv_eq (h : Mounted v host.length st)
    (haligned : v.volumeDataOffset.toNat % v.sectorSize.toNat = 0) {b : Nat}
    (hb : b ≤ v.volumeDataSize.toNat) :
    nativeIv v b = UInt64.ofNat (userUnit v b) + v.ea.sectorOffset := by
  have hheld := h.held
  have hmax := h.addressable
  simp only [offsetMax] at hmax
  have h512 : encryptionDataUnitSize.toNat = 512 := rfl
  have hbase : v.volumeDataOffset.toNat / v.sectorSize.toNat * v.sectorSize.toNat =
      v.volumeDataOffset.toNat := Nat.div_mul_cancel (Nat.dvd_of_mod_eq_zero haligned)
  rw [nativeIv, ← UInt64.add_assoc, userUnit, hbase]
  congr 1
  apply UInt64.toNat_inj.mp
  rw [UInt64.toNat_add, UInt64.toNat_div, h512, UInt64.toNat_ofNat', UInt64.toNat_ofNat',
    Nat.mod_eq_of_lt (show b < 2 ^ 64 by omega)]
  rw [Nat.add_comm]

/-- Where the data starts at a sector, a sector that is not left alone reads alike. -/
theorem Mounted.userSector_eq (h : Mounted v host.length st)
    (haligned : v.volumeDataOffset.toNat % v.sectorSize.toNat = 0) {b : Nat}
    (hb : b ≤ v.volumeDataSize.toNat) (hclear : leftClear v host b = false) :
    userSector C v host b = readSector C host st.devices st.nativeDevPath b := by
  rw [h.stacked.readSector_eq, h.nativeIv_eq haligned hb, userSector, hclear, Nat.add_mul,
    h.startSector_eq haligned]
  rfl

theorem sectorRange_congr {f g : Nat → Bytes} {first n : Nat}
    (h : ∀ k < n, f (first + k) = g (first + k)) :
    sectorRange f first n = sectorRange g first n := by
  rw [sectorRange, sectorRange, List.map_congr_left (fun k hk => h k (List.mem_range.mp hk))]

/-- **Aligned data that is not in the clear.** -/
theorem Mounted.agrees (h : Mounted v host.length st)
    (haligned : v.volumeDataOffset.toNat % v.sectorSize.toNat = 0)
    (hclear : ¬(v.systemEncryption = true ∧ v.volumeDataOffset = 0 ∧ ntfsBootSector host = true)) :
    KernelAgrees C P v host st := by
  have hread : Volume.Readable P v host := h.readable
  have hdvd : 512 ∣ v.sectorSize.toNat := Nat.dvd_of_mod_eq_zero h.native.sectorSize_units
  have hnever : ∀ b, leftClear v host b = false := by
    intro b
    rw [leftClear]
    simp only [Bool.and_eq_false_iff, decide_eq_false_iff_not]
    by_contra hne
    simp only [not_or, Bool.not_eq_false, not_not] at hne
    exact hclear ⟨hne.1.1.2, hne.1.2, hne.2⟩
  refine ⟨?_, ?_⟩
  · intro byteOffset size uninit hr
    obtain ⟨v', hout⟩ := readSectors_eq C h.native hread hr uninit
    refine ⟨v', ?_⟩
    rw [hout, sectorRange_congr]
    intro k hk
    have hinside := hr.inside
    have hoffset := Nat.div_le_self byteOffset.toNat 512
    have hsize := Nat.div_le_self size 512
    exact h.userSector_eq haligned (by omega) (hnever _)
  · intro op hr v' host' hwrite
    obtain ⟨ct, hct, rfl⟩ := writeSectors_eq h.native hread hr hwrite
    have hinside := hr.inside
    have hheld := h.held
    have hstart := h.startSector_eq haligned
    have hoffsetle := Nat.div_le_self op.byteOffset.toNat 512
    have hoffset : op.byteOffset.toNat / 512 * 512 = op.byteOffset.toNat :=
      Nat.div_mul_cancel (hdvd.trans (Nat.dvd_of_mod_eq_zero hr.offset_aligned))
    have hsize : op.buffer.length / 512 * 512 = op.buffer.length :=
      Nat.div_mul_cancel (hdvd.trans (Nat.dvd_of_mod_eq_zero hr.size_aligned))
    have hroom : (startSector v + op.byteOffset.toNat / 512 + op.buffer.length / 512) * 512 ≤
        host.length := by
      rw [Nat.add_mul, Nat.add_mul, hstart, hoffset, hsize]
      omega
    rw [writeDevice_eq h.stacked _ hsize.symm (h.nativeIv_eq haligned (by omega)) hct hroom,
      Nat.add_mul, hstart, hoffset]

/-! ## When they differ -/

theorem take_sectorRange {sector : Nat → Bytes} {first n : Nat} (hn : 0 < n)
    (hlen : (sector first).length = 512) :
    (sectorRange sector first n).take 512 = sector first := by
  obtain ⟨m, rfl⟩ := Nat.exists_eq_add_of_le' hn
  rw [sectorRange, List.range_succ_eq_map, List.map_cons, List.flatten_cons, Nat.add_zero]
  exact List.take_left' hlen

theorem Mounted.length_slices (h : Mounted v host.length st) :
    (slice host (v.volumeDataOffset.toNat + 0 * 512) 512).length = 512 ∧
      (slice host ((startSector v + 0) * 512) 512).length = 512 := by
  have hmin := h.native.sectorSize_min
  have hne := h.notEmpty
  have hheld := h.held
  have hfloor : startSector v * 512 ≤ v.volumeDataOffset.toNat :=
    Nat.div_mul_le_self v.volumeDataOffset.toNat 512
  constructor
  · exact length_slice (by omega)
  · rw [Nat.add_zero]
    generalize startSector v * 512 = start at hfloor ⊢
    exact length_slice (by omega)

/-- A range of one sector size that reads alike has the same first 512 bytes. -/
theorem KernelAgrees.first_sector (h : KernelAgrees C P v host st)
    (hm : Mounted v host.length st) :
    userSector C v host 0 = cascade C C.decryptBlock (nativeIv v 0) v.ea.keyed.reverse
      (slice host ((startSector v + 0) * 512) 512) := by
  have hmin := hm.native.sectorSize_min
  have hr : v.RangeOk 0 v.sectorSize.toNat :=
    { offset_aligned := Nat.zero_mod _
      size_aligned := Nat.mod_self _
      inside := by
        have hne := hm.notEmpty
        simpa using hne }
  obtain ⟨v₁, hkernel⟩ := h.read 0 v.sectorSize.toNat (fun _ => 0) hr
  obtain ⟨v₂, huser⟩ := readSectors_eq C hm.native hm.readable hr (fun _ => 0)
  rw [hkernel] at huser
  have heq := (Prod.mk.inj (Except.ok.inj huser)).2
  have hpos : 0 < v.sectorSize.toNat / 512 := Nat.div_pos hmin (by decide)
  obtain ⟨huserLen, hkernelLen⟩ := hm.length_slices
  have huser512 : (userSector C v host 0).length = 512 := by
    rw [userSector]
    split
    · exact huserLen
    · exact length_cascade C.length_decryptBlock _ _ huserLen
  rw [← hm.stacked.readSector_eq]
  have hkernel512 : (readSector C host st.devices st.nativeDevPath 0).length = 512 := by
    rw [hm.stacked.readSector_eq]
    exact length_cascade C.length_decryptBlock _ _ hkernelLen
  have htake := congrArg (List.take 512) heq
  rw [show (0 : UInt64).toNat / 512 = 0 from rfl, take_sectorRange hpos hkernel512,
    take_sectorRange hpos huser512] at htake
  exact htake.symm

/-- The first block of a sector that is decrypted. -/
theorem slice_cascade (C : Ciphers) (ea : EncryptionAlgorithm) {sector : Bytes}
    (hsector : sector.length = 512) (n : UInt64) :
    slice (cascade C C.decryptBlock (n + ea.sectorOffset) ea.keyed.reverse sector) 0 16 =
      ea.decryptBlockAt C n 0 (slice sector 0 16) := by
  have hblock := EncryptionAlgorithm.slice_decryptBuffer (i := 0)
    (decryptBuffer_sector C ea hsector n) (by rw [hsector]; decide)
  rwa [Nat.zero_mul] at hblock

end

/-! ### Ciphers that tell units and blocks apart -/

/-- One cipher is `g`, whatever the key, and the others do nothing. -/
def onlyCipher (c₁ : Cipher) (g : Bytes → Bytes) (hlen : ∀ b, (g b).length = b.length)
    (hinv : ∀ b, g (g b) = b) : Ciphers where
  encryptBlock c _ b := if c = c₁ then g b else b
  decryptBlock c _ b := if c = c₁ then g b else b
  length_encryptBlock c _ b := by
    split
    · exact hlen b
    · rfl
  length_decryptBlock c _ b := by
    split
    · exact hlen b
    · rfl
  decrypt_encrypt c _ b := by
    by_cases h : c = c₁
    · simp only [if_pos h, hinv]
    · simp only [if_neg h]
  encrypt_decrypt c _ b := by
    by_cases h : c = c₁
    · simp only [if_pos h, hinv]
    · simp only [if_neg h]

section
variable {c₁ : Cipher} {g : Bytes → Bytes} {hlen : ∀ b, (g b).length = b.length}
  {hinv : ∀ b, g (g b) = b}

/-- A cipher that does nothing is whitened away. -/
theorem xtsBlock_id {secondary : Bytes → Bytes} (hs : ∀ b, (secondary b).length = b.length)
    (n : UInt64) (i : Nat) {b : Bytes} (hb : b.length = 16) :
    xtsBlock (fun b => b) secondary n i b = b := by
  have hw := length_whitening hs (n + UInt64.ofNat (i / blocksPerXtsDataUnit))
    (i % blocksPerXtsDataUnit)
  exact xorBytes_cancel (hb.trans hw.symm)

theorem foldl_others (layers : List (Cipher × Bytes × Bytes)) (h : ∀ ck ∈ layers, ck.1 ≠ c₁)
    (n : UInt64) {b : Bytes} (hb : b.length = 16) :
    layers.foldl (fun b (c, k, k2) =>
      xtsBlock ((onlyCipher c₁ g hlen hinv).decryptBlock c k)
        ((onlyCipher c₁ g hlen hinv).encryptBlock c k2) n 0 b) b = b := by
  induction layers with
  | nil => rfl
  | cons ck layers ih =>
    obtain ⟨c, k, k2⟩ := ck
    have hne : c ≠ c₁ := h (c, k, k2) (by simp)
    rw [List.foldl_cons]
    have hfirst : xtsBlock ((onlyCipher c₁ g hlen hinv).decryptBlock c k)
        ((onlyCipher c₁ g hlen hinv).encryptBlock c k2) n 0 b = b := by
      have hdec : (onlyCipher c₁ g hlen hinv).decryptBlock c k = fun b => b := by
        funext b
        exact if_neg hne
      rw [hdec]
      exact xtsBlock_id ((onlyCipher c₁ g hlen hinv).length_encryptBlock c k2) n 0 hb
    simp only [hfirst]
    exact ih (fun ck hck => h ck (by simp [hck]))

/-- The algorithms use a cipher once. -/
theorem first_cipher (a : AlgorithmId) : ∃ c rest, a.ciphers = c :: rest ∧ c ∉ rest := by
  cases a <;> exact ⟨_, _, rfl, by decide⟩

theorem decryptBlockAt_only {ea : EncryptionAlgorithm} {rest : List Cipher}
    (hciphers : ea.algorithm.ciphers = c₁ :: rest) (hne : c₁ ∉ rest) (n : UInt64) {b : Bytes}
    (hb : b.length = 16) :
    ea.decryptBlockAt (onlyCipher c₁ g hlen hinv) n 0 b =
      xtsBlock g g (n + ea.sectorOffset) 0 b := by
  have hkeyed : ∃ k k2 layers, ea.keyed = (c₁, k, k2) :: layers ∧ ∀ ck ∈ layers, ck.1 ≠ c₁ := by
    refine ⟨_, _, _, by rw [EncryptionAlgorithm.keyed, hciphers, List.mapIdx_cons], ?_⟩
    intro ck hck heq
    obtain ⟨i, hi, rfl⟩ := List.mem_mapIdx.mp hck
    apply hne
    rw [← heq]
    exact List.getElem_mem hi
  obtain ⟨k, k2, layers, hkeyed, hothers⟩ := hkeyed
  rw [EncryptionAlgorithm.decryptBlockAt, hkeyed, List.reverse_cons, List.foldl_append,
    foldl_others layers.reverse (fun ck hck => hothers ck (List.mem_reverse.mp hck)) _ hb]
  have hdec : (onlyCipher c₁ g hlen hinv).decryptBlock c₁ k = g := by
    funext b
    exact if_pos rfl
  have henc : (onlyCipher c₁ g hlen hinv).encryptBlock c₁ k2 = g := by
    funext b
    exact if_pos rfl
  simp only [List.foldl_cons, List.foldl_nil, hdec, henc]

end

/-! ### The three kinds of volume that read differently -/

section
variable {P : Primitives} {v : Volume} {host : Bytes} {st : NativeDevices} {c₁ : Cipher}
  {rest : List Cipher} {g : Bytes → Bytes} {hlen : ∀ b, (g b).length = b.length}
  {hinv : ∀ b, g (g b) = b}

/-- The first block in the kernel. -/
theorem kernel_first_block (hm : Mounted v host.length st)
    (hciphers : v.ea.algorithm.ciphers = c₁ :: rest) (hne : c₁ ∉ rest) :
    slice (cascade (onlyCipher c₁ g hlen hinv) (onlyCipher c₁ g hlen hinv).decryptBlock
      (nativeIv v 0) v.ea.keyed.reverse (slice host ((startSector v + 0) * 512) 512)) 0 16 =
    xtsBlock g g (nativeIv v 0) 0 (slice host (startSector v * 512) 16) := by
  obtain ⟨-, hkernelLen⟩ := hm.length_slices
  have hiv : nativeIv v 0 = v.volumeDataOffset / encryptionDataUnitSize + v.ea.sectorOffset :=
    UInt64.zero_add _
  have h16 : (slice host (startSector v * 512) 16).length = 16 := by
    rw [Nat.add_zero] at hkernelLen
    rw [← Nat.add_zero (startSector v * 512), ← slice_slice (n := 512) (by decide)]
    exact length_slice (by omega)
  rw [hiv, slice_cascade _ _ hkernelLen, slice_slice (by decide), Nat.add_zero, Nat.add_zero,
    decryptBlockAt_only hciphers hne _ h16]

/-- The first blocks, where user space decrypts too. -/
theorem first_blocks (hm : Mounted v host.length st)
    (hciphers : v.ea.algorithm.ciphers = c₁ :: rest) (hne : c₁ ∉ rest)
    (h : KernelAgrees (onlyCipher c₁ g hlen hinv) P v host st)
    (hclear : leftClear v host 0 = false) :
    xtsBlock g g (UInt64.ofNat (userUnit v 0) + v.ea.sectorOffset) 0
        (slice host v.volumeDataOffset.toNat 16) =
      xtsBlock g g (nativeIv v 0) 0 (slice host (startSector v * 512) 16) := by
  obtain ⟨huserLen, -⟩ := hm.length_slices
  have heq := congrArg (fun sector => slice sector 0 16) (h.first_sector hm)
  rw [kernel_first_block hm hciphers hne, userSector, hclear] at heq
  simp only [Bool.false_eq_true, if_false] at heq
  rw [slice_cascade _ _ huserLen, slice_slice (by decide)] at heq
  rw [Nat.zero_mul, Nat.add_zero] at heq
  have h16 : (slice host v.volumeDataOffset.toNat 16).length = 16 := by
    rw [Nat.zero_mul, Nat.add_zero] at huserLen
    rw [← Nat.add_zero v.volumeDataOffset.toNat, ← slice_slice (n := 512) (by decide)]
    exact length_slice (by omega)
  rwa [decryptBlockAt_only hciphers hne _ h16] at heq

/-- A host of zeros but for one byte. -/
def oneByte (n i : Nat) : Bytes := patch (List.replicate n 0) i [1]

theorem getElem?_oneByte {n i j : Nat} (hi : i < n) (hj : j < n) :
    (oneByte n i)[j]? = some (if j = i then 1 else 0) := by
  rw [oneByte, getElem?_patch (by rw [List.length_replicate]; omega), List.length_singleton]
  by_cases h : j = i
  · rw [if_pos (by omega), if_pos h, h, Nat.sub_self]
    rfl
  · rw [if_neg (by omega), if_neg h, List.getElem?_replicate, if_pos hj]

theorem length_oneByte {n i : Nat} (hi : i < n) : (oneByte n i).length = n := by
  rw [oneByte, length_patch (by rw [List.length_replicate, List.length_singleton]; omega),
    List.length_replicate]

/-- An NTFS boot sector starts with `EB`. -/
theorem getElem?_ntfsBootSector (h : ntfsBootSector host = true) (hlen : 8 ≤ host.length) :
    host[0]? = some 0xEB := by
  have h8 : (slice host 0 8).length = 8 := length_slice (by omega)
  have hback := beBytes_beNat h8
  rw [of_decide_eq_true h] at hback
  have hget := congrArg (fun bs : Bytes => bs[0]?) hback
  rw [getElem?_slice, if_pos (by decide), Nat.zero_add] at hget
  rw [← hget]
  decide

/-- Data that does not start at a sector of the host: a volume whose cipher does nothing. -/
theorem not_agrees_of_misaligned {len : Nat} (P : Primitives) (hm : Mounted v len st)
    (hoff : v.volumeDataOffset.toNat % 512 ≠ 0) :
    ∃ C host, host.length = len ∧ ntfsBootSector host = false ∧ ¬KernelAgrees C P v host st := by
  obtain ⟨c₁, rest, hciphers, hne⟩ := first_cipher v.ea.algorithm
  have hmin := hm.native.sectorSize_min
  have hsize := hm.notEmpty
  have hheld := hm.held
  have hin : v.volumeDataOffset.toNat < len := by omega
  have hfloor : startSector v * 512 < v.volumeDataOffset.toNat := by
    rw [startSector]
    omega
  have hlen := length_oneByte hin
  have hfirst : (oneByte len v.volumeDataOffset.toNat)[0]? = some 0 := by
    rw [getElem?_oneByte hin (by omega), if_neg]
    intro hzero
    rw [← hzero] at hoff
    exact hoff rfl
  have hboot : ntfsBootSector (oneByte len v.volumeDataOffset.toNat) = false := by
    cases hb : ntfsBootSector (oneByte len v.volumeDataOffset.toNat) with
    | false => rfl
    | true =>
      rw [getElem?_ntfsBootSector hb (by rw [hlen]; omega)] at hfirst
      cases hfirst
  refine ⟨onlyCipher c₁ (fun b => b) (fun _ => rfl) (fun _ => rfl),
    oneByte len v.volumeDataOffset.toNat, hlen, hboot, ?_⟩
  intro hagrees
  have hclear : leftClear v (oneByte len v.volumeDataOffset.toNat) 0 = false := by
    rw [leftClear, hboot, Bool.and_false]
  have hblocks := first_blocks (by rw [hlen]; exact hm) hciphers hne hagrees hclear
  have h16 : ∀ off, off + 512 ≤ len →
      (slice (oneByte len v.volumeDataOffset.toNat) off 16).length = 16 := by
    intro off hoff
    exact length_slice (by rw [hlen]; omega)
  rw [xtsBlock_id (fun _ => rfl) _ _ (h16 _ (by omega)),
    xtsBlock_id (fun _ => rfl) _ _ (h16 _ (by omega))] at hblocks
  have hget : (slice (oneByte len v.volumeDataOffset.toNat) v.volumeDataOffset.toNat 16)[0]? =
      (slice (oneByte len v.volumeDataOffset.toNat) (startSector v * 512) 16)[0]? :=
    congrArg (fun bs : Bytes => bs[0]?) hblocks
  rw [getElem?_slice, getElem?_slice, if_pos (by decide), if_pos (by decide), Nat.add_zero,
    Nat.add_zero, getElem?_oneByte hin hin, getElem?_oneByte hin (by omega), if_pos rfl,
    if_neg (by omega)] at hget
  cases hget

/-- The first block of zeros under a cipher that turns a block round starts with the unit. -/
theorem take_xtsBlock_reverse (n : UInt64) :
    (xtsBlock List.reverse List.reverse n 0 (List.replicate 16 0)).take 8 =
      leBytes 8 n.toNat := by
  have hw : whitening List.reverse (n + UInt64.ofNat (0 / blocksPerXtsDataUnit))
      (0 % blocksPerXtsDataUnit) = List.replicate 8 0 ++ (leBytes 8 n.toNat).reverse := by
    show firstWhitening List.reverse (n + 0) = _
    rw [UInt64.add_zero, firstWhitening, List.reverse_append, List.reverse_replicate]
  have hL : (leBytes 8 n.toNat).length = 8 := length_leBytes 8 n.toNat
  have hlen : (List.replicate 8 (0 : UInt8) ++ (leBytes 8 n.toNat).reverse).length = 16 := by
    rw [List.length_append, List.length_replicate, List.length_reverse, hL]
  have hzeros : xorBytes (List.replicate 16 0)
      (List.replicate 8 0 ++ (leBytes 8 n.toNat).reverse) =
        List.replicate 8 0 ++ (leBytes 8 n.toNat).reverse := by
    rw [xorBytes_comm, ← hlen]
    exact xorBytes_replicate_zero _
  have hfront : xorBytes (leBytes 8 n.toNat) (List.replicate 8 0) = leBytes 8 n.toNat := by
    have h := xorBytes_replicate_zero (leBytes 8 n.toNat)
    rwa [hL] at h
  rw [xtsBlock, hw]
  simp only [hzeros]
  rw [List.reverse_append, List.reverse_reverse, List.reverse_replicate,
    xorBytes_append (by rw [hL, List.length_replicate]), hfront]
  exact List.take_left' hL

/-- Data that starts at a sector of the host but at none of the volume: a volume of zeros. -/
theorem not_agrees_of_unaligned {len : Nat} (P : Primitives) (hm : Mounted v len st)
    (hoff : v.volumeDataOffset.toNat % 512 = 0)
    (hunaligned : v.volumeDataOffset.toNat % v.sectorSize.toNat ≠ 0) :
    ∃ C host, host.length = len ∧ ntfsBootSector host = false ∧ ¬KernelAgrees C P v host st := by
  obtain ⟨c₁, rest, hciphers, hne⟩ := first_cipher v.ea.algorithm
  have hmin := hm.native.sectorSize_min
  have hsize := hm.notEmpty
  have hheld := hm.held
  have hlen : (List.replicate len (0 : UInt8)).length = len := List.length_replicate
  have hboot : ntfsBootSector (List.replicate len 0) = false := by
    rw [ntfsBootSector, slice_replicate (by omega)]
    decide
  refine ⟨onlyCipher c₁ List.reverse (fun _ => List.length_reverse)
    (fun b => List.reverse_reverse b), List.replicate len 0, hlen, hboot, ?_⟩
  intro hagrees
  have hclear : leftClear v (List.replicate len 0) 0 = false := by
    rw [leftClear, hboot, Bool.and_false]
  have hblocks := first_blocks (by rw [hlen]; exact hm) hciphers hne hagrees hclear
  have hfloor : startSector v * 512 = v.volumeDataOffset.toNat :=
    Nat.div_mul_cancel (Nat.dvd_of_mod_eq_zero hoff)
  rw [hfloor, slice_replicate (by omega)] at hblocks
  have hunits : leBytes 8 (UInt64.ofNat (userUnit v 0) + v.ea.sectorOffset).toNat =
      leBytes 8 (nativeIv v 0).toNat := by
    rw [← take_xtsBlock_reverse, ← take_xtsBlock_reverse, hblocks]
  have heq := congrArg leNat hunits
  rw [leNat_leBytes, leNat_leBytes, show (256 : Nat) ^ 8 = 2 ^ 64 from rfl,
    Nat.mod_eq_of_lt (UInt64.toNat_lt _), Nat.mod_eq_of_lt (UInt64.toNat_lt _),
    UInt64.toNat_inj] at heq
  -- the two numbers are those of different sectors of the host
  have hiv : nativeIv v 0 = v.volumeDataOffset / encryptionDataUnitSize + v.ea.sectorOffset :=
    UInt64.zero_add _
  rw [hiv, UInt64.add_left_inj] at heq
  have hnat := congrArg UInt64.toNat heq
  have hbase := Nat.div_add_mod' v.volumeDataOffset.toNat v.sectorSize.toNat
  have hunits512 := hm.native.sectorSize_units
  have hmax := hm.addressable
  simp only [offsetMax] at hmax
  have hbase512 : v.volumeDataOffset.toNat / v.sectorSize.toNat * v.sectorSize.toNat % 512 = 0 := by
    rw [Nat.mul_mod, hunits512, Nat.mul_zero, Nat.zero_mod]
  rw [UInt64.toNat_ofNat', userUnit, UInt64.toNat_div, Nat.add_zero,
    show encryptionDataUnitSize.toNat = 512 from rfl] at hnat
  generalize v.volumeDataOffset.toNat / v.sectorSize.toNat * v.sectorSize.toNat = base
    at hbase hbase512 hnat
  omega

/-- A cipher that flips a bit of each byte is whitened with no effect. -/
theorem xtsBlock_flip {secondary : Bytes → Bytes} (hs : ∀ b, (secondary b).length = b.length)
    (n : UInt64) (i : Nat) {b : Bytes} (hb : b.length = 16) :
    xtsBlock (List.map (· ^^^ 1)) secondary n i b = b.map (· ^^^ 1) := by
  have hw := length_whitening hs (n + UInt64.ofNat (i / blocksPerXtsDataUnit))
    (i % blocksPerXtsDataUnit)
  rw [xtsBlock]
  generalize whitening secondary (n + UInt64.ofNat (i / blocksPerXtsDataUnit))
    (i % blocksPerXtsDataUnit) = w at hw ⊢
  have hmap : (xorBytes b w).map (· ^^^ 1) = xorBytes (b.map (· ^^^ 1)) w := by
    rw [xorBytes, xorBytes, List.map_zipWith, List.zipWith_map_left]
    congr 1
    funext x y
    rw [UInt8.xor_assoc, UInt8.xor_comm y, ← UInt8.xor_assoc]
  simp only [hmap]
  exact xorBytes_cancel (by rw [List.length_map, hb, hw])

def ntfsBytes : Bytes := [0xEB, 0x52, 0x90, 0x4E, 0x54, 0x46, 0x53, 0x20]

/-- A host that begins with an NTFS boot sector in the clear. -/
def bootHost (n : Nat) : Bytes :=
  patch (List.replicate n 0) 0 ntfsBytes

theorem length_bootHost {n : Nat} (hn : 8 ≤ n) : (bootHost n).length = n := by
  rw [bootHost, length_patch, List.length_replicate]
  rw [List.length_replicate]
  exact hn

theorem ntfsBootSector_bootHost (n : Nat) : ntfsBootSector (bootHost n) = true := by
  have hfront : slice (patch (List.replicate n 0) 0 ntfsBytes) 0 8 = ntfsBytes :=
    slice_patch_self (Nat.zero_le _) rfl
  rw [ntfsBootSector, bootHost, hfront]
  decide

/-- Ciphers of which one flips a bit of each byte. -/
def flipping (c₁ : Cipher) : Ciphers :=
  onlyCipher c₁ (List.map (· ^^^ 1)) (fun _ => List.length_map _) (fun b => map_xor_map_xor 1 b)

/-- A first sector in the clear: the kernel decrypts it. -/
theorem not_agrees_bootHost {len : Nat} (hm : Mounted v len st)
    (hciphers : v.ea.algorithm.ciphers = c₁ :: rest) (hne : c₁ ∉ rest)
    (hsystem : v.systemEncryption = true) (hzero : v.volumeDataOffset = 0) :
    ¬KernelAgrees (flipping c₁) P v (bootHost len) st := by
  have hmin := hm.native.sectorSize_min
  have hsize := hm.notEmpty
  have hheld := hm.held
  have hlen : (bootHost len).length = len := length_bootHost (by omega)
  have hstart : startSector v = 0 := by
    rw [startSector, hzero]
    rfl
  intro hagrees
  have hm' : Mounted v (bootHost len).length st := by
    rw [hlen]
    exact hm
  have hclear : leftClear v (bootHost len) 0 = true := by
    rw [leftClear, hsystem, hzero, ntfsBootSector_bootHost]
    have hpos : 0 < v.sectorSize.toNat := by omega
    simp [hpos]
  have h16 : (slice (bootHost len) 0 16).length = 16 := length_slice (by rw [hlen]; omega)
  have heq := congrArg (fun sector => slice sector 0 16) (hagrees.first_sector hm')
  rw [flipping, kernel_first_block hm' hciphers hne, userSector, hclear, hzero, hstart,
    Nat.zero_mul, xtsBlock_flip (fun _ => List.length_map _) _ _ h16] at heq
  simp only [if_true] at heq
  rw [slice_slice (by decide)] at heq
  have hget : (slice (bootHost len) 0 16)[0]? =
      ((slice (bootHost len) 0 16).map (· ^^^ 1))[0]? :=
    congrArg (fun bs : Bytes => bs[0]?) heq
  have hfirst := getElem?_ntfsBootSector (ntfsBootSector_bootHost len) (by rw [hlen]; omega)
  rw [List.getElem?_map, getElem?_slice, if_pos (by decide), Nat.add_zero, hfirst] at hget
  exact absurd hget (by decide)

end

/-! ## Volumes as they are opened -/

/-- The keys that were cut out of a header. -/
def HeaderKeyed (header : VolumeHeader) : Prop :=
  header.ea.key.length = header.ea.algorithm.getKeySize ∧
    header.ea.secondaryKey.length = header.ea.algorithm.getKeySize

theorem getKeySize_le (a : AlgorithmId) : a.getKeySize * 2 ≤ dataKeyAreaMaxSize := by
  cases a <;> decide

theorem headerKeyed_of_deserialize {layout : VolumeLayout} {part : Bytes} {a : AlgorithmId}
    {pkcs5 : Pkcs5Kdf} {header : VolumeHeader}
    (hd : deserialize layout.getHeaderSize part a pkcs5 = .ok (some header)) :
    HeaderKeyed header := by
  obtain ⟨hlen, -⟩ := deserialize_some hd
  obtain ⟨-, hea, -⟩ := deserialize_derived hd
  have hfits := OpenEnv.keyslotPayloadSize_le_headerSize layout
  have hkey := getKeySize_le a
  simp only [keyslotPayloadSize] at hfits
  rw [HeaderKeyed, hea]
  exact ⟨length_slice (by omega), length_slice (by omega)⟩

section
variable {env : OpenEnv} {mem : OpenMemory} {req : OpenRequest} {layout : VolumeLayout}
  {header : VolumeHeader} {v w : Volume}

theorem headerKeyed_of_findHeader (hfind : env.findHeader req = .ok (some (layout, header))) :
    HeaderKeyed header := by
  obtain ⟨tried, part, a, pkcs5, found, hd, hsettle, -⟩ := OpenEnv.findHeader_some hfind
  obtain ⟨hsize, -⟩ := OpenEnv.headerFits_of_deserialize hd
  have hkeyed : HeaderKeyed found := headerKeyed_of_deserialize hd
  obtain ⟨rfl, -⟩ := OpenEnv.settleLayout_eq hsettle hsize
  exact hkeyed

theorem headerKeyed_of_payload {vmk : Bytes}
    (h : OpenEnv.headerOfPayload vmk = .ok (some header)) : HeaderKeyed header := by
  unfold OpenEnv.headerOfPayload at h
  split at h
  · cases h
  · unfold rebuildFromKeyslot at h
    split at h
    · cases h
    · exact headerKeyed_of_deserialize h

theorem opened_volumeOf (hkeys : HeaderKeyed header) :
    Opened (env.volumeOf mem req layout header) := by
  obtain ⟨hlo, hhi, -⟩ := header.sectorSize_valid
  obtain ⟨-, hunits⟩ := Volume.sectorSize_of_valid header.sectorSize_valid
  refine { dataOffset_eq := rfl, length_key := hkeys.1, length_secondaryKey := hkeys.2,
           sectorSize_min := ?_, sectorSize_max := ?_, sectorSize_units := hunits }
  · show 512 ≤ header.sectorSize.toUInt64.toNat
    rw [UInt32.toNat_toUInt64]
    exact UInt32.le_iff_toNat_le.mp hlo
  · show header.sectorSize.toUInt64.toNat ≤ 4096
    rw [UInt32.toNat_toUInt64]
    exact UInt32.le_iff_toNat_le.mp hhi

/-- Placing, discovering and protecting keep sectors, keys and offset. -/
theorem Opened.of_same (hw : Opened w) (hoffset : v.volumeDataOffset = w.volumeDataOffset)
    (hlayout : v.layout = w.layout) (hheader : v.header = w.header)
    (halgorithm : v.ea.algorithm = w.ea.algorithm) (hkey : v.ea.key = w.ea.key)
    (hkey2 : v.ea.secondaryKey = w.ea.secondaryKey) (hsector : v.sectorSize = w.sectorSize) :
    Opened v where
  dataOffset_eq := by rw [hoffset, hlayout, hheader, hw.dataOffset_eq]
  length_key := by rw [hkey, halgorithm, hw.length_key]
  length_secondaryKey := by rw [hkey2, halgorithm, hw.length_secondaryKey]
  sectorSize_min := by rw [hsector]; exact hw.sectorSize_min
  sectorSize_max := by rw [hsector]; exact hw.sectorSize_max
  sectorSize_units := by rw [hsector]; exact hw.sectorSize_units

theorem opened_discover (hw : Opened w) : Opened (env.discover mem w) := by
  unfold OpenEnv.discover
  split <;> exact hw.of_same rfl rfl rfl rfl rfl rfl rfl

theorem opened_openNative (hkeys : HeaderKeyed header)
    (h : env.openNative mem req layout header = .ok v) : Opened v := by
  obtain ⟨w, hw, rfl⟩ := OpenEnv.openNative_ok h
  apply opened_discover
  have hof : Opened (env.volumeOf mem req layout header) := opened_volumeOf hkeys
  unfold OpenEnv.placeOnDrive at hw
  simp only at hw
  split at hw
  · rw [← Except.ok.inj hw]
    exact hof
  · split at hw
    · cases hw
    · rw [← Except.ok.inj hw]
      exact hof.of_same rfl rfl rfl rfl rfl rfl rfl

/-- **Whatever `Volume::Open` returns.** -/
theorem opened_openVolume (h : openVolume env mem req = .ok v) : Opened v := by
  rcases OpenEnv.openWith_ok h with ⟨layout, header, w, hfind, hw, hprot⟩ | ⟨-, hslot⟩
  · have hopened := opened_openNative (headerKeyed_of_findHeader hfind) hw
    unfold OpenEnv.protectRange at hprot
    split at hprot
    · split at hprot
      · cases hprot
      · split at hprot
        · split at hprot <;> cases hprot
        · rw [← Except.ok.inj hprot]
          exact hopened.of_same rfl rfl rfl rfl rfl rfl rfl
    · rw [← Except.ok.inj hprot]
      exact hopened
  · obtain ⟨opened, header, -, hpayload, rfl⟩ := OpenEnv.openKeyslot_some hslot
    exact opened_volumeOf (headerKeyed_of_payload hpayload)

end

/-! ## The mount -/

section
variable {C : Ciphers} {P : Primitives} {v : Volume} {host : Bytes} {st : NativeDevices}
  {noKernelCrypto : Bool} {slotNumber : Nat} {uninit uninit2 : RandStream}

/-- **A mount that returns** has made the stack, and has read the last sector both ways. -/
theorem mounted_of_mountVolumeNative (hv : Opened v) (hmax : host.length ≤ offsetMax)
    (h : mountVolumeNative C P v noKernelCrypto slotNumber host uninit uninit2 = .ok st) :
    Mounted v host.length st := by
  have hmin := hv.sectorSize_min
  have hupper := hv.sectorSize_max
  unfold mountVolumeNative at h
  split at h
  · cases h
  · rename_i hv2
    split at h
    · cases h
    · rename_i hguard
      rw [not_or, not_or, not_or] at hguard
      cases hcreate : createNativeDevices v slotNumber (host.length / 512) with
      | none =>
        rw [hcreate] at h
        cases h
      | some created =>
        rw [hcreate] at h
        simp only at h
        split at h
        · cases h
        · rename_i buf hbuf
          split at h
          · cases h
          · rename_i v' buf2 hread
            split at h
            · cases h
            · have hst : created = st := Except.ok.inj h
              subst hst
              have hstacked := stacked_of_create hv.toKeyed hcreate
              have hnative : Native v :=
                { sectorSize_min := hmin
                  sectorSize_max := hupper
                  sectorSize_units := hv.sectorSize_units
                  notV2 := by simpa using hv2
                  complete := by simpa using hguard.2.2.1 }
              obtain ⟨-, hroom, -⟩ := hstacked.size (keyed_ne_nil v.ea)
              simp only [offsetMax] at hmax
              have hstart : startSector v = v.volumeDataOffset.toNat / 512 := rfl
              -- an offset that wraps is too large to read at
              have hoffset : (v.volumeDataSize - v.sectorSize).toNat ≤ 2 ^ 63 - 1 := by
                unfold File.readInto File.readAt at hbuf
                split at hbuf
                · cases hbuf
                · rename_i hpos
                  rw [not_or] at hpos
                  exact Nat.le_of_not_lt hpos.2
              have hnotEmpty : v.sectorSize.toNat ≤ v.volumeDataSize.toNat := by
                by_contra hlt
                rw [UInt64.toNat_sub] at hoffset
                have hsize := v.volumeDataSize.toNat_lt
                omega
              have hlast : (v.volumeDataSize - v.sectorSize).toNat =
                  v.volumeDataSize.toNat - v.sectorSize.toNat :=
                UInt64.toNat_sub_of_le _ _ (UInt64.le_iff_toNat_le.mpr hnotEmpty)
              obtain ⟨-, haligned, hin⟩ := readSectors_range hmax (by omega) hread
              rw [Volume.hostOffset, UInt64.toNat_add, hlast,
                Nat.mod_eq_of_lt (by omega)] at hin
              rw [hlast] at haligned
              refine
                { native := hnative
                  stacked := hstacked
                  wholeSectors := ?_
                  notEmpty := hnotEmpty
                  held := by omega
                  addressable := hmax }
              rw [← Nat.mod_eq_sub_mod hnotEmpty] at haligned
              exact haligned

/-- **The stack and the volume are one on every host of a kind exactly if** the data starts at a
    sector of the volume, and the first sector of a system partition is not in the clear:
    `plainBoot` says whether it may be. -/
theorem kernelAgrees_iff (hv : Opened v) (hmax : host.length ≤ offsetMax)
    (h : mountVolumeNative C P v noKernelCrypto slotNumber host uninit uninit2 = .ok st)
    (plainBoot : Bool) :
    (∀ C P host', host'.length = host.length →
      (plainBoot = false → ntfsBootSector host' = false) → KernelAgrees C P v host' st) ↔
    v.volumeDataOffset.toNat % v.sectorSize.toNat = 0 ∧
      ¬(v.systemEncryption = true ∧ v.volumeDataOffset = 0 ∧ plainBoot = true) := by
  have hm := mounted_of_mountVolumeNative hv hmax h
  constructor
  · intro hall
    refine ⟨?_, ?_⟩
    · by_contra hunaligned
      obtain ⟨C', host', hlen, hboot, hnot⟩ : ∃ C host', host'.length = host.length ∧
          ntfsBootSector host' = false ∧ ¬KernelAgrees C P v host' st := by
        by_cases hoff : v.volumeDataOffset.toNat % 512 = 0
        · exact not_agrees_of_unaligned P hm hoff hunaligned
        · exact not_agrees_of_misaligned P hm hoff
      exact hnot (hall C' P host' hlen (fun _ => hboot))
    · rintro ⟨hsystem, hzero, rfl⟩
      obtain ⟨c₁, rest, hciphers, hne⟩ := first_cipher v.ea.algorithm
      have hmin := hm.native.sectorSize_min
      have hsize := hm.notEmpty
      have hheld := hm.held
      have hlen : (bootHost host.length).length = host.length := length_bootHost (by omega)
      exact not_agrees_bootHost hm hciphers hne hsystem hzero
        (hall (flipping c₁) P (bootHost host.length) hlen
          (fun hfalse => absurd hfalse (by decide)))
  · rintro ⟨haligned, hclear⟩ C' P' host' hlen hboot
    have hm' : Mounted v host'.length st := by
      rw [hlen]
      exact hm
    apply hm'.agrees haligned
    rintro ⟨hsystem, hzero, hntfs⟩
    cases plainBoot with
    | false =>
      rw [hboot rfl] at hntfs
      cases hntfs
    | true => exact hclear ⟨hsystem, hzero, rfl⟩

end

/-! ### A system partition of two sectors -/

section
variable {C : Ciphers} {P : Primitives} {v : Volume} {host : Bytes} {st : NativeDevices}

/-- A part of a range. -/
theorem slice_sectorRange {sector : Nat → Bytes} {first n : Nat}
    (h : ∀ b < first + n, (sector b).length = 512) :
    slice (sectorRange sector 0 (first + n)) (first * 512) (n * 512) =
      sectorRange sector first n := by
  have hall : ∀ k < first + n, (sector (0 + k)).length = 512 := by
    intro k hk
    rw [Nat.zero_add]
    exact h k hk
  apply eq_sectorRange
  · apply length_slice
    rw [length_sectorRange hall, Nat.add_mul]
  · intro k hk
    have hk512 := Nat.mul_le_mul_right 512 (Nat.succ_le_of_lt hk)
    rw [Nat.succ_mul] at hk512
    have hone := slice_sectorRange_one hall (show first + k < first + n by omega)
    rw [Nat.zero_add, Nat.add_mul] at hone
    rw [slice_slice hk512, hone]

/-- **A mount returns** when the devices can be made and the last sector reads alike. -/
theorem mountVolumeNative_ok {slotNumber : Nat} {uninit uninit2 : RandStream}
    (hm : Mounted v host.length st)
    (hcreate : createNativeDevices v slotNumber (host.length / 512) = some st)
    (halgorithm : algoNotSupported v.ea.algorithm = false)
    (hprotection : v.protection ≠ .hiddenVolumeReadOnly)
    (hlast : ∀ b, v.volumeDataSize.toNat ≤ b * 512 + v.sectorSize.toNat →
      (b + 1) * 512 ≤ v.volumeDataSize.toNat →
      userSector C v host b = readSector C host st.devices st.nativeDevPath b) :
    mountVolumeNative C P v false slotNumber host uninit uninit2 = .ok st := by
  have hheld := hm.held
  have hmax := hm.addressable
  have hnotEmpty := hm.notEmpty
  have hunits := hm.native.sectorSize_units
  have hlastOffset : (v.volumeDataSize - v.sectorSize).toNat =
      v.volumeDataSize.toNat - v.sectorSize.toNat :=
    UInt64.toNat_sub_of_le _ _ (UInt64.le_iff_toNat_le.mpr hnotEmpty)
  have haligned : (v.volumeDataSize.toNat - v.sectorSize.toNat) % v.sectorSize.toNat = 0 := by
    rw [← Nat.mod_eq_sub_mod hnotEmpty]
    exact hm.wholeSectors
  have hr : v.RangeOk (v.volumeDataSize - v.sectorSize) v.sectorSize.toNat :=
    { offset_aligned := by rw [hlastOffset]; exact haligned
      size_aligned := Nat.mod_self _
      inside := by rw [hlastOffset]; omega }
  obtain ⟨v', huser⟩ := readSectors_eq (P := P) C hm.native hm.readable hr uninit2
  obtain ⟨-, -, hsectors⟩ := hm.stacked.size (keyed_ne_nil v.ea)
  -- the last sector of the volume is the last sectors of the device
  have hdvd : 512 ∣ v.sectorSize.toNat := Nat.dvd_of_mod_eq_zero hunits
  have hfirst : (v.volumeDataSize.toNat - v.sectorSize.toNat) / 512 * 512 =
      v.volumeDataSize.toNat - v.sectorSize.toNat :=
    Nat.div_mul_cancel (hdvd.trans (Nat.dvd_of_mod_eq_zero haligned))
  have hcount : v.sectorSize.toNat / 512 * 512 = v.sectorSize.toNat := Nat.div_mul_cancel hdvd
  have htotal : v.volumeDataSize.toNat / 512 =
      (v.volumeDataSize.toNat - v.sectorSize.toNat) / 512 + v.sectorSize.toNat / 512 := by
    omega
  have hlength : ∀ b < v.volumeDataSize.toNat / 512,
      (readSector C host st.devices st.nativeDevPath b).length = 512 := by
    intro b hb
    rw [hm.stacked.readSector_eq]
    apply length_cascade C.length_decryptBlock
    have hstart : startSector v = v.volumeDataOffset.toNat / 512 := rfl
    have hend : (startSector v + b) * 512 + 512 ≤ host.length := by
      rw [hstart, Nat.add_mul]
      omega
    exact length_slice hend
  have hdevice : deviceBytes C host st =
      sectorRange (readSector C host st.devices st.nativeDevPath) 0
        (v.volumeDataSize.toNat / 512) := by
    rw [deviceBytes, hsectors, sectorRange]
    simp only [Nat.zero_add]
  have hslice := slice_sectorRange (by rw [← htotal]; exact hlength)
  rw [← htotal, ← hdevice, hfirst, hcount, ← hlastOffset] at hslice
  have hkernel : File.readInto (deviceBytes C host st) (v.volumeDataSize - v.sectorSize)
      v.sectorSize.toNat false uninit =
        some (sectorRange (readSector C host st.devices st.nativeDevPath)
          ((v.volumeDataSize - v.sectorSize).toNat / 512) (v.sectorSize.toNat / 512)) := by
    rw [File.readInto_whole, hslice]
    · rw [hdevice, length_sectorRange, hlastOffset]
      · omega
      · intro k hk
        rw [Nat.zero_add]
        exact hlength k hk
    · simp only [offsetMax] at hmax ⊢
      omega
  have hsame : sectorRange (readSector C host st.devices st.nativeDevPath)
        ((v.volumeDataSize - v.sectorSize).toNat / 512) (v.sectorSize.toNat / 512) =
      sectorRange (userSector C v host)
        ((v.volumeDataSize - v.sectorSize).toNat / 512) (v.sectorSize.toNat / 512) := by
    apply sectorRange_congr
    intro k hk
    rw [hlastOffset]
    exact (hlast _ (by rw [Nat.add_mul]; omega) (by rw [Nat.add_mul, Nat.add_mul]; omega)).symm
  rw [mountVolumeNative, hm.native.notV2, halgorithm, hm.native.complete, hcreate]
  simp [hprotection, hkernel, huser, hsame]

end

namespace NativeDemo

/-- A system partition of 1024 bytes. -/
def volume : Volume :=
  { Volume.plainVolume with
    systemEncryption := true
    layout := .systemEncryption
    volumeDataOffset := 0
    volumeDataSize := 1024
    ea :=
      { algorithm := .aes
        key := List.replicate 32 1
        secondaryKey := List.replicate 32 2
        sectorOffset := 2048 } }

theorem opened : Opened volume where
  dataOffset_eq := rfl
  length_key := List.length_replicate
  length_secondaryKey := List.length_replicate
  sectorSize_min := by decide
  sectorSize_max := by decide
  sectorSize_units := by decide

theorem created : ∃ st, createNativeDevices volume 1 (1024 / 512) = some st := by
  apply Option.isSome_iff_exists.mp
  decide +kernel

theorem mounted {host : Bytes} {st : NativeDevices} (hlen : host.length = 1024)
    (h : createNativeDevices volume 1 (1024 / 512) = some st) : Mounted volume host.length st where
  native :=
    { sectorSize_min := by decide
      sectorSize_max := by decide
      sectorSize_units := by decide
      notV2 := rfl
      complete := rfl }
  stacked := by
    rw [hlen]
    exact stacked_of_create opened.toKeyed h
  wholeSectors := by decide
  notEmpty := by decide
  held := by
    rw [hlen]
    decide
  addressable := by
    rw [hlen]
    decide

/-- The second sector is never left alone, so the partition is mounted whatever the first is. -/
theorem mount {C : Ciphers} {P : Primitives} {host : Bytes} {st : NativeDevices}
    (hlen : host.length = 1024) (h : createNativeDevices volume 1 (1024 / 512) = some st) :
    mountVolumeNative C P volume false 1 host (fun _ => 0) (fun _ => 0) = .ok st := by
  have hm := mounted hlen h
  refine mountVolumeNative_ok hm (by rw [hlen]; exact h) rfl (by decide) ?_
  intro b hfirst hlast
  have hsize : volume.volumeDataSize.toNat = 1024 := rfl
  have hsector : volume.sectorSize.toNat = 512 := rfl
  rw [hsize] at hfirst hlast
  rw [hsector] at hfirst
  apply hm.userSector_eq (by decide) (by rw [hsize]; omega)
  have hbehind : ¬ b * 512 < volume.sectorSize.toNat := by omega
  rw [leftClear, decide_eq_false hbehind]
  rfl

end NativeDemo

open NativeDemo in
theorem kernelAgrees_demo : ∃ st,
    mountVolumeNative (flipping .aes) Primitives.demo volume false 1 (List.replicate 1024 0)
      (fun _ => 0) (fun _ => 0) = .ok st ∧
    ∀ C P host', host'.length = 1024 → (false = false → ntfsBootSector host' = false) →
      KernelAgrees C P volume host' st := by
  obtain ⟨st, hcreate⟩ := created
  have hlen : (List.replicate 1024 (0 : UInt8)).length = 1024 := List.length_replicate
  have hmount := mount (C := flipping .aes) (P := Primitives.demo) hlen hcreate
  refine ⟨st, hmount, ?_⟩
  have hiff := kernelAgrees_iff opened (by rw [hlen]; decide) hmount false
  rw [hlen] at hiff
  exact hiff.mpr ⟨by decide, by decide⟩

open NativeDemo in
/-- **The first sector is in the clear**: the partition is mounted, and in the kernel that sector
    is decrypted all the same. -/
theorem clear_sector_decrypted : ∃ st,
    mountVolumeNative (flipping .aes) Primitives.demo volume false 1 (bootHost 1024)
      (fun _ => 0) (fun _ => 0) = .ok st ∧
    ¬KernelAgrees (flipping .aes) Primitives.demo volume (bootHost 1024) st := by
  obtain ⟨st, hcreate⟩ := created
  have hlen : (bootHost 1024).length = 1024 := length_bootHost (by decide)
  have hm := mounted hlen hcreate
  rw [hlen] at hm
  have hciphers : volume.ea.algorithm.ciphers = [.aes] := rfl
  exact ⟨st, mount hlen hcreate, not_agrees_bootHost hm hciphers (by simp) rfl rfl⟩

end CoreLinux

end VeraCrypt
