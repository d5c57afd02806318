import VeraCrypt.Volume.Plaintext

/-!
# Reading through the file system (`fuse_service_read` of `Driver/Fuse/FuseService.cpp`)

The mounted volume is a file of the service. A read is cut at the end of the volume, widened to whole
sectors where it is not made of them, and copied out of these. The two files that tell about the
service are buffers. For a read that starts inside the volume or at its end the reply is the text of
the volume; behind the end the cut wraps (`fuseServiceRead_iff`).

What a call returns is an `int`, a count or a negative error number.
-/

set_option autoImplicit false

namespace VeraCrypt

open Lib

namespace FuseService

/-! ## The code -/

def eperm : Int := 1
def enoent : Int := 2
def eio : Int := 5
def enomem : Int := 12
def eacces : Int := 13
def einval : Int := 22

/-- What ends in `ExceptionToErrorCode`: `std::bad_alloc`, a missing volume, or what the functions of
    `Volume/` throw. -/
inductive Thrown where
  | badAlloc | notInitialized | volume (e : Exception)
  deriving DecidableEq

/-- What the system does with the calls of a read: what the host holds, how it answers the reads of
    the volume and with which error number, and whether there is memory. -/
structure System where
  host : Bytes
  faults : Volume.ReadFaults
  errno : Int
  outOfMemory : Bool
  errno_pos : 0 < errno

def exceptionToErrorCode (sys : System) : Thrown → Int
  | .badAlloc => -enomem
  | .volume .parameterIncorrect => -einval
  | .volume .volumeProtected => -eperm
  | .volume .volumeReadOnly => -eperm
  | .volume .systemException => -sys.errno
  | _ => -eio

def getControlPath : String := "/control"

def getAuxDeviceInfoPath : String := "/aux-device-info"

def getVolumeImagePath : String := "/volume"

/-- The service: whether the caller has access, the volume, and the two files about it. -/
structure Service where
  checkAccessRights : Bool
  mountedVolume : Option Volume
  volumeInfo : Bytes
  auxDeviceInfo : Bytes

/-- A `size_t` as the `int` that is returned. -/
def toInt (size : UInt64) : Int :=
  let n : Nat := size.toNat % 2 ^ 32
  if n < 2 ^ 31 then n else (n : Int) - 2 ^ 32

/-- A read. An object in memory is smaller than half the address space, and a file offset is not
    negative. -/
structure ReadRequest where
  path : String
  size : UInt64
  offset : UInt64
  size_lt : size.toNat < 2 ^ 63
  offset_lt : offset.toNat < 2 ^ 63

/-- What is returned, and the bytes put into the buffer. -/
structure Reply where
  code : Int
  buf : Bytes
  deriving DecidableEq

/-- `SecureBuffer (size)`. No object has more than `PTRDIFF_MAX` bytes. -/
def secureBuffer (sys : System) (size : UInt64) : Except Thrown Unit :=
  if size < 1 then .error (.volume .parameterIncorrect)
  else if sys.outOfMemory ∨ offsetMax < size.toNat then .error .badAlloc
  else .ok ()

/-- How the system answers the read of so many bytes: no read has more than `SSIZE_MAX`. -/
def System.readFaults (sys : System) (size : UInt64) : Volume.ReadFaults where
  data := sys.faults.data || decide (offsetMax < size.toNat)
  tags := sys.faults.tags
  uninit := sys.faults.uninit

def readVolumeSectors (C : Ciphers) (P : Primitives) (sys : System) (v : Volume) (size : UInt64)
    (byteOffset : UInt64) : Except Thrown Bytes :=
  match v.readSectors C P sys.host size.toNat byteOffset (sys.readFaults size) with
  | .error e => .error (.volume e)
  | .ok (_, buffer) => .ok buffer

/-- `size`, cut at the end of the volume. -/
def clampedSize (v : Volume) (req : ReadRequest) : UInt64 :=
  if v.volumeDataSize < req.offset + req.size then v.volumeDataSize - req.offset else req.size

/-- Where the sectors of the read start. -/
def alignedOffset (v : Volume) (req : ReadRequest) : UInt64 :=
  req.offset - req.offset % v.sectorSize

/-- How many bytes they have. -/
def alignedSize (v : Volume) (req : ReadRequest) : UInt64 :=
  let alignedSize := clampedSize v req + req.offset % v.sectorSize
  if alignedSize % v.sectorSize ≠ 0 then
    alignedSize + (v.sectorSize - alignedSize % v.sectorSize)
  else alignedSize

/-- The branch for the volume: the size and the bytes. `none` is a copy that leaves its buffers. -/
def readVolume (C : Ciphers) (P : Primitives) (sys : System) (v : Volume) (req : ReadRequest) :
    Option (Except Thrown (UInt64 × Bytes)) :=
  let size := clampedSize v req
  if size % v.sectorSize ≠ 0 ∨ req.offset % v.sectorSize ≠ 0 then
    match secureBuffer sys (alignedSize v req) with
    | .error e => some (.error e)
    | .ok () =>
      match readVolumeSectors C P sys v (alignedSize v req) (alignedOffset v req) with
      | .error e => some (.error e)
      | .ok alignedBuffer =>
        -- `GetRange` checks the end, which wraps
        if alignedSize v req < req.offset % v.sectorSize + size then
          some (.error (.volume .parameterIncorrect))
        else
          (load alignedBuffer (req.offset % v.sectorSize).toNat size.toNat).map
            (fun range => .ok (size, range))
  else
    match readVolumeSectors C P sys v size req.offset with
    | .error e => some (.error e)
    | .ok buf => some (.ok (size, buf))

/-- The branches for the two buffers. -/
def readInfo (infoBuf : Bytes) (req : ReadRequest) : Reply :=
  let infoSize := UInt64.ofNat infoBuf.length
  if infoSize ≤ req.offset then { code := 0, buf := [] }
  else
    let size := if infoSize < req.offset + req.size then infoSize - req.offset else req.size
    { code := toInt size, buf := slice infoBuf req.offset.toNat size.toNat }

/-- What a read of the volume returns. -/
def reply (sys : System) : Except Thrown (UInt64 × Bytes) → Reply
  | .error (.volume .missingVolumeData) => { code := 0, buf := [] }
  | .error e => { code := exceptionToErrorCode sys e, buf := [] }
  | .ok (size, buf) => { code := toInt size, buf := buf }

/-- `fuse_service_read`. -/
def fuseServiceRead (C : Ciphers) (P : Primitives) (sys : System) (service : Service)
    (req : ReadRequest) : Option Reply :=
  if !service.checkAccessRights then some { code := -eacces, buf := [] }
  else if req.path = getVolumeImagePath then
    match service.mountedVolume with
    | none => some { code := exceptionToErrorCode sys .notInitialized, buf := [] }
    | some v => (readVolume C P sys v req).map (reply sys)
  else if req.path = getControlPath then some (readInfo service.volumeInfo req)
  else if req.path = getAuxDeviceInfoPath then some (readInfo service.auxDeviceInfo req)
  else some { code := -enoent, buf := [] }

/-! ## A read that starts inside the volume -/

section
variable {C : Ciphers} {P : Primitives} {sys : System} {v : Volume} {req : ReadRequest}

theorem toNat_end (req : ReadRequest) :
    (req.offset + req.size).toNat = req.offset.toNat + req.size.toNat := by
  have hsize := req.size_lt
  have hoffset := req.offset_lt
  rw [UInt64.toNat_add]
  exact Nat.mod_eq_of_lt (by omega)

theorem toNat_clampedSize (h : req.offset.toNat ≤ v.volumeDataSize.toNat) :
    (clampedSize v req).toNat =
      min req.size.toNat (v.volumeDataSize.toNat - req.offset.toNat) := by
  unfold clampedSize
  split
  · rename_i hlt
    rw [UInt64.lt_iff_toNat_lt, toNat_end] at hlt
    rw [UInt64.toNat_sub_of_le _ _ (UInt64.le_iff_toNat_le.mpr h)]
    omega
  · rename_i hle
    rw [UInt64.lt_iff_toNat_lt, toNat_end] at hle
    omega

theorem toNat_alignedOffset (v : Volume) (req : ReadRequest) :
    (alignedOffset v req).toNat = req.offset.toNat / v.sectorSize.toNat * v.sectorSize.toNat := by
  have hle := Nat.mod_le req.offset.toNat v.sectorSize.toNat
  have hdiv := Nat.div_add_mod' req.offset.toNat v.sectorSize.toNat
  rw [alignedOffset, UInt64.toNat_sub_of_le, UInt64.toNat_mod]
  · omega
  · rw [UInt64.le_iff_toNat_le, UInt64.toNat_mod]
    exact hle

/-- The sectors of a read are sectors of the volume, and the bytes of the read lie in them. -/
theorem sectors_of_le (h : v.Readable P sys.host)
    (hle : req.offset.toNat ≤ v.volumeDataSize.toNat) :
    ∃ count, (alignedSize v req).toNat = count * v.sectorSize.toNat ∧
      req.offset.toNat / v.sectorSize.toNat + count ≤ v.wholeSectors ∧
      (clampedSize v req).toNat + req.offset.toNat % v.sectorSize.toNat ≤
        count * v.sectorSize.toNat := by
  have hpos := h.sectorSize_pos
  have hmax := h.sectorSize_max
  have hheld := h.held
  have hhost := h.addressable
  have hdata := h.dataSize_le.1
  have hmod := Nat.mod_lt req.offset.toNat hpos
  have hdiv := Nat.div_add_mod' req.offset.toNat v.sectorSize.toNat
  have hsize := toNat_clampedSize hle
  simp only [offsetMax] at hhost
  -- the bytes from the start of the first sector on
  have hsum : (clampedSize v req + req.offset % v.sectorSize).toNat =
      (clampedSize v req).toNat + req.offset.toNat % v.sectorSize.toNat := by
    rw [UInt64.toNat_add, UInt64.toNat_mod]
    exact Nat.mod_eq_of_lt (by omega)
  generalize hbytes : (clampedSize v req).toNat + req.offset.toNat % v.sectorSize.toNat = bytes
    at hsum ⊢
  have hin : req.offset.toNat / v.sectorSize.toNat * v.sectorSize.toNat + bytes ≤
      v.wholeSectors * v.sectorSize.toNat := by omega
  have hbytesMod := Nat.mod_lt bytes hpos
  have hbytesDiv := Nat.div_add_mod' bytes v.sectorSize.toNat
  by_cases hwhole : bytes % v.sectorSize.toNat = 0
  · refine ⟨bytes / v.sectorSize.toNat, ?_, ?_, by omega⟩
    · rw [alignedSize, if_neg, hsum]
      · omega
      · rw [not_not, ← UInt64.toNat_inj, UInt64.toNat_mod, hsum]
        exact hwhole
    · refine Nat.le_of_mul_le_mul_right ?_ hpos
      rw [Nat.add_mul]
      omega
  · refine ⟨bytes / v.sectorSize.toNat + 1, ?_, ?_, by rw [Nat.succ_mul]; omega⟩
    · have hrest : (v.sectorSize -
          (clampedSize v req + req.offset % v.sectorSize) % v.sectorSize).toNat =
            v.sectorSize.toNat - bytes % v.sectorSize.toNat := by
        rw [UInt64.toNat_sub_of_le, UInt64.toNat_mod, hsum]
        rw [UInt64.le_iff_toNat_le, UInt64.toNat_mod, hsum]
        omega
      rw [alignedSize, if_pos, UInt64.toNat_add, hsum, hrest, Nat.succ_mul]
      · rw [Nat.mod_eq_of_lt (by omega)]
        omega
      · intro hzero
        rw [← UInt64.toNat_inj, UInt64.toNat_mod, hsum] at hzero
        exact hwhole hzero
    · -- the last sector is one that the data ends in
      have hlt : req.offset.toNat / v.sectorSize.toNat + bytes / v.sectorSize.toNat <
          v.wholeSectors := by
        refine Nat.lt_of_mul_lt_mul_right (a := v.sectorSize.toNat) ?_
        rw [Nat.add_mul]
        omega
      omega

/-- What the system must do for a read to succeed. -/
structure System.Works (sys : System) : Prop where
  data : sys.faults.data = false
  tags : sys.faults.tags = false
  memory : sys.outOfMemory = false

/-- Whole sectors of the volume are read as its text. -/
theorem readVolumeSectors_eq (C : Ciphers) (h : v.Readable P sys.host) (hworks : sys.Works)
    {size byteOffset : UInt64} {first count : Nat}
    (hoffset : byteOffset.toNat = first * v.sectorSize.toNat)
    (hsize : size.toNat = count * v.sectorSize.toNat) (hin : first + count ≤ v.wholeSectors) :
    readVolumeSectors C P sys v size byteOffset =
      .ok (slice (v.wholeText C sys.host) (first * v.sectorSize.toNat)
        (count * v.sectorSize.toNat)) := by
  have hheld := h.held
  have hhost := h.addressable
  have hle := Nat.mul_le_mul_right v.sectorSize.toNat hin
  rw [Nat.add_mul] at hle
  have hsmall : ¬ offsetMax < size.toNat := by omega
  have hfaults : sys.readFaults size =
      { data := false, tags := false, uninit := sys.faults.uninit } := by
    rw [System.readFaults, hworks.data, hworks.tags, decide_eq_false hsmall, Bool.or_false]
  obtain ⟨v', hread⟩ := h.readSectors_eq C hin hoffset sys.faults.uninit
  rw [readVolumeSectors, hfaults, hsize, hread]

/-- What a read inside the last sector takes from the text is text of the volume. -/
theorem slice_plaintext (C : Ciphers) (host : Bytes)
    (hle : req.offset.toNat ≤ v.volumeDataSize.toNat) :
    slice (v.wholeText C host) req.offset.toNat (clampedSize v req).toNat =
      slice (v.plaintext C host) req.offset.toNat req.size.toNat := by
  rw [toNat_clampedSize hle, slice, slice, Volume.plaintext, List.drop_take, List.take_take]

theorem length_slice_plaintext (C : Ciphers) (h : v.Readable P sys.host)
    (hle : req.offset.toNat ≤ v.volumeDataSize.toNat) :
    (slice (v.plaintext C sys.host) req.offset.toNat req.size.toNat).length =
      (clampedSize v req).toNat := by
  have hdata := h.dataSize_le.1
  have hsize := toNat_clampedSize hle
  rw [← slice_plaintext C sys.host hle, length_slice]
  rw [h.length_wholeText]
  omega

/-- The branch for the volume, up to its end. -/
theorem readVolume_of_le (C : Ciphers) (h : v.Readable P sys.host) (hworks : sys.Works)
    (hle : req.offset.toNat ≤ v.volumeDataSize.toNat) :
    readVolume C P sys v req = some (.ok (clampedSize v req,
      slice (v.plaintext C sys.host) req.offset.toNat req.size.toNat)) := by
  have hpos := h.sectorSize_pos
  have hheld := h.held
  have hhost := h.addressable
  have hdiv := Nat.div_add_mod' req.offset.toNat v.sectorSize.toNat
  obtain ⟨count, hsize, hin, hbytes⟩ := sectors_of_le h hle
  have hread := readVolumeSectors_eq C h hworks (toNat_alignedOffset v req) hsize hin
  have hinBytes := Nat.mul_le_mul_right v.sectorSize.toNat hin
  rw [Nat.add_mul] at hinBytes
  have htext : (slice (v.wholeText C sys.host)
      (req.offset.toNat / v.sectorSize.toNat * v.sectorSize.toNat)
      (count * v.sectorSize.toNat)).length = count * v.sectorSize.toNat := by
    rw [length_slice]
    rw [h.length_wholeText]
    exact hinBytes
  simp only [offsetMax] at hhost
  rw [readVolume]
  split
  · rename_i hcut
    have hsecure : secureBuffer sys (alignedSize v req) = .ok () := by
      have hsome : 0 < (alignedSize v req).toNat := by
        rw [hsize]
        refine Nat.pos_of_ne_zero fun hzero => ?_
        rw [hzero] at hbytes
        rw [ne_eq, ne_eq, ← UInt64.toNat_inj, ← UInt64.toNat_inj, UInt64.toNat_mod,
          UInt64.toNat_mod, show (clampedSize v req).toNat = 0 by omega,
          show req.offset.toNat % v.sectorSize.toNat = 0 by omega, Nat.zero_mod] at hcut
        rcases hcut with hne | hne
        · exact hne rfl
        · exact hne rfl
      rw [secureBuffer, if_neg, if_neg]
      · rintro (hmem | hbig)
        · rw [hworks.memory] at hmem
          exact absurd hmem (by decide)
        · rw [hsize] at hbig
          simp only [offsetMax] at hbig
          omega
      · rw [UInt64.lt_iff_toNat_lt]
        show ¬ (alignedSize v req).toNat < 1
        omega
    have hend : (req.offset % v.sectorSize + clampedSize v req).toNat =
        req.offset.toNat % v.sectorSize.toNat + (clampedSize v req).toNat := by
      rw [UInt64.toNat_add, UInt64.toNat_mod]
      exact Nat.mod_eq_of_lt (by omega)
    rw [hsecure, hread]
    dsimp only
    rw [if_neg (by rw [UInt64.lt_iff_toNat_lt, hend, hsize]; omega),
      load_eq_some (by rw [htext, UInt64.toNat_mod]; omega), Option.map_some,
      UInt64.toNat_mod, slice_slice (by omega), hdiv, slice_plaintext C sys.host hle]
  · rename_i hwhole
    rw [not_or, not_not, not_not, ← UInt64.toNat_inj, ← UInt64.toNat_inj, UInt64.toNat_mod,
      UInt64.toNat_mod] at hwhole
    obtain ⟨hsizeWhole, hoffsetWhole⟩ := hwhole
    have hzero : (0 : UInt64).toNat = 0 := rfl
    rw [hzero] at hsizeWhole hoffsetWhole
    have hoffsetEq : req.offset.toNat =
        req.offset.toNat / v.sectorSize.toNat * v.sectorSize.toNat := by omega
    have hsizeEq : (clampedSize v req).toNat =
        (clampedSize v req).toNat / v.sectorSize.toNat * v.sectorSize.toNat :=
      (Nat.div_mul_cancel (Nat.dvd_of_mod_eq_zero hsizeWhole)).symm
    have hcount : (clampedSize v req).toNat / v.sectorSize.toNat ≤ count :=
      (Nat.div_le_iff_le_mul_add_pred hpos).mpr (by rw [Nat.mul_comm]; omega)
    rw [readVolumeSectors_eq C h hworks hoffsetEq hsizeEq (by omega), ← hoffsetEq, ← hsizeEq,
      slice_plaintext C sys.host hle]

/-! ## A read that starts behind the end -/

/-- The size is a number below zero. -/
theorem toNat_clampedSize_behind (h : v.volumeDataSize.toNat < req.offset.toNat) :
    (clampedSize v req).toNat + (req.offset.toNat - v.volumeDataSize.toNat) = 2 ^ 64 := by
  have hoffset := req.offset_lt
  rw [clampedSize, if_pos, UInt64.toNat_sub]
  · omega
  · rw [UInt64.lt_iff_toNat_lt, toNat_end]
    omega

theorem readVolumeSectors_of_unaligned (C : Ciphers) (P : Primitives) (sys : System)
    {size : UInt64} (hsize : size.toNat % v.sectorSize.toNat ≠ 0) (byteOffset : UInt64) :
    readVolumeSectors C P sys v size byteOffset = .error (.volume .parameterIncorrect) := by
  have hunaligned : UInt64.ofNat size.toNat % v.sectorSize ≠ 0 := by
    rw [UInt64.ofNat_toNat, ne_eq, ← UInt64.toNat_inj, UInt64.toNat_mod]
    exact hsize
  rw [readVolumeSectors, Volume.readSectors]
  dsimp only
  rw [if_pos (.inl hunaligned)]

/-- A read of more bytes than any object has is refused. -/
theorem readVolumeSectors_of_huge (C : Ciphers) (P : Primitives) (sys : System) (v : Volume)
    {size : UInt64} (hsize : offsetMax < size.toNat) (byteOffset : UInt64) :
    readVolumeSectors C P sys v size byteOffset = .error (.volume .parameterIncorrect) ∨
      readVolumeSectors C P sys v size byteOffset = .error (.volume .systemException) := by
  have hfails : (sys.readFaults size).data = true := by
    rw [System.readFaults, decide_eq_true hsize, Bool.or_true]
  rw [readVolumeSectors, Volume.readSectors]
  dsimp only
  split_ifs with haligned
  · exact .inl rfl
  · right
    rw [hfails, File.readAt, if_pos (.inl rfl)]

theorem secureBuffer_cases (sys : System) (size : UInt64) :
    secureBuffer sys size = .error (.volume .parameterIncorrect) ∨
      secureBuffer sys size = .error .badAlloc ∨
      (secureBuffer sys size = .ok () ∧ 0 < size.toNat ∧ size.toNat ≤ offsetMax) := by
  unfold secureBuffer
  split_ifs with hnone hlarge
  · exact .inl rfl
  · exact .inr (.inl rfl)
  · rw [UInt64.lt_iff_toNat_lt] at hnone
    exact .inr (.inr ⟨rfl, Nat.pos_of_ne_zero fun hzero => hnone (hzero ▸ Nat.one_pos),
      Nat.le_of_not_lt fun hlt => hlarge (.inr hlt)⟩)

/-- The sectors of a read behind the end, as far as there is memory for them: a number of bytes that
    is no number of sectors, or the sector that the data ends in. -/
theorem sectors_of_gt (h : v.Readable P sys.host)
    (hgt : v.volumeDataSize.toNat < req.offset.toNat) (hpos : 0 < (alignedSize v req).toNat)
    (hmemory : (alignedSize v req).toNat ≤ offsetMax) :
    (alignedSize v req).toNat % v.sectorSize.toNat ≠ 0 ∨
      ((alignedSize v req).toNat = 1 * v.sectorSize.toNat ∧
        req.offset.toNat - v.volumeDataSize.toNat < req.offset.toNat % v.sectorSize.toNat) := by
  have hss := h.sectorSize_pos
  have hmax := h.sectorSize_max
  have hoffset := req.offset_lt
  have hsize := toNat_clampedSize_behind hgt
  have hmod := Nat.mod_lt req.offset.toNat hss
  simp only [offsetMax] at hmemory
  have hsum : (clampedSize v req + req.offset % v.sectorSize).toNat =
      ((clampedSize v req).toNat + req.offset.toNat % v.sectorSize.toNat) % 2 ^ 64 := by
    rw [UInt64.toNat_add, UInt64.toNat_mod]
  generalize hbytes : (clampedSize v req + req.offset % v.sectorSize) = bytes at hsum
  have hbytesLt := bytes.toNat_lt
  have hbytesMod := Nat.mod_lt bytes.toNat hss
  have hrest : (v.sectorSize - bytes % v.sectorSize).toNat =
      v.sectorSize.toNat - bytes.toNat % v.sectorSize.toNat := by
    rw [UInt64.toNat_sub_of_le, UInt64.toNat_mod]
    rw [UInt64.le_iff_toNat_le, UInt64.toNat_mod]
    omega
  have haligned : (alignedSize v req).toNat =
      if bytes.toNat % v.sectorSize.toNat = 0 then bytes.toNat
      else (bytes.toNat + (v.sectorSize.toNat - bytes.toNat % v.sectorSize.toNat)) % 2 ^ 64 := by
    have hzero : bytes % v.sectorSize = 0 ↔ bytes.toNat % v.sectorSize.toNat = 0 := by
      rw [← UInt64.toNat_inj, UInt64.toNat_mod]
      rfl
    rw [alignedSize, hbytes]
    by_cases hwhole : bytes.toNat % v.sectorSize.toNat = 0
    · rw [if_neg (by rw [not_not, hzero]; exact hwhole), if_pos hwhole]
    · rw [if_pos (by rw [ne_eq, hzero]; exact hwhole), if_neg hwhole, UInt64.toNat_add, hrest]
  rcases Nat.lt_trichotomy (req.offset.toNat % v.sectorSize.toNat)
    (req.offset.toNat - v.volumeDataSize.toNat) with hless | heq | hmore
  · -- too many bytes, unless rounding them up wraps
    have hhuge : 2 ^ 63 ≤ bytes.toNat := by omega
    left
    by_cases hwhole : bytes.toNat % v.sectorSize.toNat = 0
    · rw [if_pos hwhole] at haligned
      omega
    · rw [if_neg hwhole] at haligned
      rw [Nat.mod_eq_of_lt (a := (alignedSize v req).toNat) (by omega)]
      omega
  · -- no byte
    have hzero : bytes.toNat = 0 := by omega
    rw [hzero, Nat.zero_mod, if_pos rfl] at haligned
    omega
  · have hfew : bytes.toNat = req.offset.toNat % v.sectorSize.toNat -
        (req.offset.toNat - v.volumeDataSize.toNat) := by omega
    have hself : bytes.toNat % v.sectorSize.toNat = bytes.toNat :=
      Nat.mod_eq_of_lt (by omega)
    rw [hself, if_neg (by omega)] at haligned
    right
    exact ⟨by omega, hmore⟩

/-- Behind the end the branch for the volume throws, or the copy leaves its buffers. -/
theorem readVolume_of_gt (C : Ciphers) (h : v.Readable P sys.host) (hworks : sys.Works)
    (hgt : v.volumeDataSize.toNat < req.offset.toNat)
    {result : Except Thrown (UInt64 × Bytes)} (hresult : readVolume C P sys v req = some result) :
    ∃ e, result = .error e ∧ e ≠ .volume .missingVolumeData := by
  have hss := h.sectorSize_pos
  have hoffset := req.offset_lt
  have hsize := toNat_clampedSize_behind hgt
  have hmod := Nat.mod_lt req.offset.toNat hss
  rw [readVolume] at hresult
  split at hresult
  · rcases secureBuffer_cases sys (alignedSize v req) with hnone | hmem | ⟨hok, hpos, hmemory⟩
    · rw [hnone] at hresult
      exact ⟨_, (Option.some.inj hresult).symm, by decide⟩
    · rw [hmem] at hresult
      exact ⟨_, (Option.some.inj hresult).symm, by decide⟩
    · rw [hok] at hresult
      rcases sectors_of_gt h hgt hpos hmemory with hunaligned | ⟨hone, hmore⟩
      · rw [readVolumeSectors_of_unaligned C P sys hunaligned] at hresult
        exact ⟨_, (Option.some.inj hresult).symm, by decide⟩
      · -- the last sector is read, and more is copied than it has
        have hdiv := Nat.div_add_mod' req.offset.toNat v.sectorSize.toNat
        have hin : req.offset.toNat / v.sectorSize.toNat + 1 ≤ v.wholeSectors := by
          have hdata := h.dataSize_le.1
          refine Nat.lt_of_mul_lt_mul_right (a := v.sectorSize.toNat) ?_
          omega
        have hend : (req.offset % v.sectorSize + clampedSize v req).toNat =
            req.offset.toNat % v.sectorSize.toNat -
              (req.offset.toNat - v.volumeDataSize.toNat) := by
          rw [UInt64.toNat_add, UInt64.toNat_mod]
          omega
        have hlen := Nat.mul_le_mul_right v.sectorSize.toNat hin
        rw [Nat.add_mul] at hlen
        rw [readVolumeSectors_eq C h hworks (toNat_alignedOffset v req) hone hin] at hresult
        dsimp only at hresult
        rw [if_neg (by rw [UInt64.lt_iff_toNat_lt, hend, hone]; omega), load, if_neg] at hresult
        · exact absurd hresult (by simp)
        · rw [length_slice (by rw [h.length_wholeText]; exact hlen), UInt64.toNat_mod]
          have hmax := h.sectorSize_max
          omega
  · rcases readVolumeSectors_of_huge C P sys v
      (show offsetMax < (clampedSize v req).toNat by simp only [offsetMax]; omega) req.offset with hparam | hsystem
    · rw [hparam] at hresult
      exact ⟨_, (Option.some.inj hresult).symm, by decide⟩
    · rw [hsystem] at hresult
      exact ⟨_, (Option.some.inj hresult).symm, by decide⟩

/-! ## Replies -/

theorem toInt_eq_iff (size : UInt64) : toInt size = size.toNat ↔ size.toNat < 2 ^ 31 := by
  have hlt := size.toNat_lt
  rw [toInt]
  split <;> omega

theorem exceptionToErrorCode_neg (sys : System) (e : Thrown) :
    exceptionToErrorCode sys e < 0 := by
  have herrno := sys.errno_pos
  unfold exceptionToErrorCode
  split <;> first | decide | omega

theorem code_reply_error (sys : System) {e : Thrown} (h : e ≠ .volume .missingVolumeData) :
    (reply sys (.error e)).code = exceptionToErrorCode sys e := by
  unfold reply
  split
  · rename_i hmissing
    exact absurd (Except.error.inj hmissing) h
  · rename_i hother
    rw [Except.error.inj hother]
  · rename_i hok
    exact absurd hok (by simp)

/-- **A file about the service** is read up to its end, and behind it nothing is. -/
theorem readInfo_eq {infoBuf : Bytes} (hlen : infoBuf.length < 2 ^ 31) (req : ReadRequest) :
    readInfo infoBuf req =
      { code := (slice infoBuf req.offset.toNat req.size.toNat).length
        buf := slice infoBuf req.offset.toNat req.size.toNat } := by
  have hinfo : (UInt64.ofNat infoBuf.length).toNat = infoBuf.length := by
    rw [UInt64.toNat_ofNat']
    exact Nat.mod_eq_of_lt (by omega)
  rw [readInfo]
  dsimp only
  split
  · rename_i hbehind
    rw [UInt64.le_iff_toNat_le, hinfo] at hbehind
    rw [slice, List.drop_eq_nil_of_le hbehind, List.take_nil]
    rfl
  · rename_i hinside
    rw [UInt64.le_iff_toNat_le, hinfo] at hinside
    generalize hsize : (if UInt64.ofNat infoBuf.length < req.offset + req.size then
      UInt64.ofNat infoBuf.length - req.offset else req.size) = size
    have hval : size.toNat = min req.size.toNat (infoBuf.length - req.offset.toNat) := by
      rw [← hsize]
      split
      · rename_i hlt
        rw [UInt64.lt_iff_toNat_lt, toNat_end, hinfo] at hlt
        rw [UInt64.toNat_sub_of_le _ _ (UInt64.le_iff_toNat_le.mpr (by omega)), hinfo]
        omega
      · rename_i hle
        rw [UInt64.lt_iff_toNat_lt, toNat_end, hinfo] at hle
        omega
    have hslice : slice infoBuf req.offset.toNat size.toNat =
        slice infoBuf req.offset.toNat req.size.toNat := by
      rw [slice, slice, List.take_eq_take_iff, List.length_drop, hval]
      omega
    have hlength : (slice infoBuf req.offset.toNat req.size.toNat).length = size.toNat := by
      rw [← hslice, length_slice (by omega)]
    rw [hslice, hlength, (toInt_eq_iff size).mpr (by omega)]

/-- A read is served: the reply is the text of the range and how long it is, and every sector that
    was read is one of the volume. -/
structure Served (C : Ciphers) (sys : System) (v : Volume) (req : ReadRequest)
    (reply : Option Reply) : Prop where
  reply_eq : reply = some
    { code := (slice (v.plaintext C sys.host) req.offset.toNat req.size.toNat).length
      buf := slice (v.plaintext C sys.host) req.offset.toNat req.size.toNat }
  inside : (alignedOffset v req).toNat + (alignedSize v req).toNat ≤
    v.wholeSectors * v.sectorSize.toNat

/-- **When a read of the volume is served**: it does not start behind the end, and the number of
    bytes that there are is an `int`. -/
theorem fuseServiceRead_iff (C : Ciphers) (P : Primitives) (sys : System) (service : Service)
    (v : Volume) (req : ReadRequest) (haccess : service.checkAccessRights = true)
    (hmounted : service.mountedVolume = some v) (hpath : req.path = getVolumeImagePath)
    (h : v.Readable P sys.host) (hworks : sys.Works) :
    Served C sys v req (fuseServiceRead C P sys service req) ↔
      req.offset.toNat ≤ v.volumeDataSize.toNat ∧
        min req.size.toNat (v.volumeDataSize.toNat - req.offset.toNat) < 2 ^ 31 := by
  have hread : fuseServiceRead C P sys service req =
      (readVolume C P sys v req).map (reply sys) := by
    rw [fuseServiceRead, haccess, if_neg (by decide), if_pos hpath, hmounted]
  rw [hread]
  by_cases hle : req.offset.toNat ≤ v.volumeDataSize.toNat
  · have hlen := length_slice_plaintext C h hle
    rw [readVolume_of_le C h hworks hle, Option.map_some, and_iff_right hle,
      ← toNat_clampedSize hle, ← toInt_eq_iff]
    constructor
    · intro hserved
      have hcode := congrArg Reply.code (Option.some.inj hserved.reply_eq)
      rw [hlen] at hcode
      exact hcode
    · intro hcode
      refine ⟨by rw [reply, hlen, hcode], ?_⟩
      obtain ⟨count, hsize, hin, -⟩ := sectors_of_le h hle
      rw [toNat_alignedOffset, hsize, ← Nat.add_mul]
      exact Nat.mul_le_mul_right _ hin
  · -- the reply would be no bytes
    refine iff_of_false (fun hserved => ?_) (fun hcond => hle hcond.1)
    have hempty : slice (v.plaintext C sys.host) req.offset.toNat req.size.toNat = [] := by
      rw [slice, List.drop_eq_nil_of_le, List.take_nil]
      rw [Volume.plaintext, List.length_take]
      omega
    have hreply := hserved.reply_eq
    rw [hempty] at hreply
    obtain ⟨result, hresult, hcode⟩ := Option.map_eq_some_iff.mp hreply
    obtain ⟨e, rfl, hne⟩ := readVolume_of_gt C h hworks (Nat.lt_of_not_le hle) hresult
    have hneg := exceptionToErrorCode_neg sys e
    rw [← code_reply_error sys hne, hcode] at hneg
    exact absurd hneg (by simp)

end

/-- A volume of two sectors. -/
def smallVolume : Volume :=
  { Volume.outerVolume Primitives.demo 0 0 with
    protection := .none
    volumeHostSize := 1024
    volumeDataOffset := 0
    volumeDataSize := 1024
    encryptedDataSize := 1024
    v2Mac := V2SectorMacIo.init }

def smallService : Service where
  checkAccessRights := true
  mountedVolume := some smallVolume
  volumeInfo := []
  auxDeviceInfo := []

def smallSystem : System where
  host := List.replicate 1024 0
  faults := { data := false, tags := false, uninit := fun _ => 0 }
  errno := 14
  outOfMemory := false
  errno_pos := by decide

/-- A read across the end. -/
def readAcross : ReadRequest where
  path := "/volume"
  size := 100
  offset := 1000
  size_lt := by decide
  offset_lt := by decide

/-- A read of a sector, a sector behind the end. -/
def readBehind : ReadRequest where
  path := "/volume"
  size := 512
  offset := 1536
  size_lt := by decide
  offset_lt := by decide

theorem smallVolume_readable : smallVolume.Readable Primitives.demo smallSystem.host where
  sectorSize_min := by decide
  sectorSize_max := by decide
  sectorSize_units := by decide
  held := by
    show _ ≤ (List.replicate 1024 (0 : UInt8)).length
    rw [List.length_replicate]
    decide
  addressable := by
    show (List.replicate 1024 (0 : UInt8)).length ≤ offsetMax
    rw [List.length_replicate]
    decide
  authentic hactive := absurd hactive (by decide)

theorem fuseServiceRead_iff_demo :
    Served Ciphers.demo smallSystem smallVolume readAcross
        (fuseServiceRead Ciphers.demo Primitives.demo smallSystem smallService readAcross) ↔
      1000 ≤ 1024 ∧ min 100 (1024 - 1000) < 2 ^ 31 :=
  fuseServiceRead_iff Ciphers.demo Primitives.demo smallSystem smallService smallVolume readAcross
    rfl rfl rfl smallVolume_readable ⟨rfl, rfl, rfl⟩

/-- Behind the end there is an error. -/
theorem fuseServiceRead_behind :
    fuseServiceRead Ciphers.demo Primitives.demo smallSystem smallService readBehind =
        some { code := -14, buf := [] } ∧
      ¬ Served Ciphers.demo smallSystem smallVolume readBehind
        (fuseServiceRead Ciphers.demo Primitives.demo smallSystem smallService readBehind) := by
  have hreply : fuseServiceRead Ciphers.demo Primitives.demo smallSystem smallService readBehind =
      some { code := -14, buf := [] } := by
    decide +kernel
  refine ⟨hreply, fun hserved => ?_⟩
  have hsame := congrArg Reply.code (Option.some.inj (hreply.symm.trans hserved.reply_eq))
  dsimp only at hsame
  omega

end FuseService

end VeraCrypt
