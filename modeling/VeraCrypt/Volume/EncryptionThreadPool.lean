import VeraCrypt.Lib.InPlace
import VeraCrypt.Volume.XtsDataUnits

/-!
# Handing out a request (`Volume/EncryptionThreadPool.cpp`)

`DoWork` cuts a request of data units into one fragment for each thread, the first ones a unit
longer than the others where the division leaves a remainder, and waits until the workers have
processed all of them in place. The fragments tile the request (`fragments_units`), and a buffer
of XTS units can be cut anywhere, so whatever the order of the workers the buffer ends up as one
call would leave it (`doWork_eq_sectorsCurrentThread`). The number of a fragment's first unit is
multiplied out modulo 2^64 for each fragment anew, while one call counts on: the two part where
the bytes of a request cross a multiple of 2^64.
-/

set_option autoImplicit false

namespace VeraCrypt

open Lib

namespace EncryptionThreadPool

/-- `WorkType`, without the derivation of keys. -/
inductive WorkType where
  | encryptDataUnits | decryptDataUnits
  deriving DecidableEq

/-- What `Start` and `Stop` leave: a pool that runs has threads. -/
structure Pool where
  threadPoolRunning : Bool
  threadCount : Nat
  running_pos : threadPoolRunning = true → 0 < threadCount

/-- `Encryption` of a work item; `data` is where its units start in the buffer. -/
structure Fragment where
  data : Nat
  startUnitNo : UInt64
  unitCount : Nat
  deriving DecidableEq

/-- The loop over the work items: `fragmentCount` are left. -/
def enqueue (sectorSize : Nat) : (fragmentCount unitsPerFragment remainder : Nat) →
    (fragmentData : Nat) → (fragmentStartUnitNo : UInt64) → List Fragment
  | 0, _, _, _, _ => []
  | fragmentCount + 1, unitsPerFragment, remainder, fragmentData, fragmentStartUnitNo =>
    { data := fragmentData
      startUnitNo := fragmentStartUnitNo
      unitCount := unitsPerFragment } ::
    enqueue sectorSize fragmentCount
      (if 0 < remainder ∧ remainder - 1 = 0 then unitsPerFragment - 1 else unitsPerFragment)
      (remainder - 1) (fragmentData + unitsPerFragment * sectorSize)
      (fragmentStartUnitNo + UInt64.ofNat unitsPerFragment)

/-- The fragments of a request. -/
def fragments (threadCount : Nat) (startUnitNo unitCount sectorSize : UInt64) : List Fragment :=
  let units := unitCount.toNat
  if units ≤ threadCount then enqueue sectorSize.toNat units 1 0 0 startUnitNo
  else
    let remainder := units % threadCount
    enqueue sectorSize.toNat threadCount
      (if 0 < remainder then units / threadCount + 1 else units / threadCount) remainder 0
      startUnitNo

/-- `EncryptSectorsCurrentThread` and `DecryptSectorsCurrentThread`. -/
def sectorsCurrentThread (C : Ciphers) (ea : EncryptionAlgorithm) (type : WorkType)
    (data : Bytes) (startUnitNo unitCount sectorSize : UInt64) : Option Bytes :=
  match type with
  | .encryptDataUnits => ea.encryptSectors C data startUnitNo unitCount sectorSize
  | .decryptDataUnits => ea.decryptSectors C data startUnitNo unitCount sectorSize

/-- A worker on a fragment, whose pointer leads into the buffer. -/
def runFragment (C : Ciphers) (ea : EncryptionAlgorithm) (type : WorkType) (sectorSize : UInt64)
    (data : Bytes) (fragment : Fragment) : Option Bytes :=
  (sectorsCurrentThread C ea type (data.drop fragment.data) fragment.startUnitNo
    (UInt64.ofNat fragment.unitCount) sectorSize).map (fun out => data.take fragment.data ++ out)

/-- `EncryptionThreadPool::DoWork`; `order` is the one in which the workers come to the
    fragments. -/
def doWork (C : Ciphers) (ea : EncryptionAlgorithm) (pool : Pool)
    (order : List Fragment → List Fragment) (type : WorkType) (data : Bytes)
    (startUnitNo unitCount sectorSize : UInt64) : Option Bytes :=
  if unitCount = 0 then some data
  else if !pool.threadPoolRunning ∨ unitCount = 1 then
    sectorsCurrentThread C ea type data startUnitNo unitCount sectorSize
  else
    (order (fragments pool.threadCount startUnitNo unitCount sectorSize)).foldlM
      (runFragment C ea type sectorSize) data

/-! ## The fragments tile the request -/

/-- Where the units of a fragment stand in the buffer, and their numbers. -/
def Fragment.units (sectorSize : Nat) (fragment : Fragment) : List (Nat × UInt64) :=
  (List.range fragment.unitCount).map
    (fun i => (fragment.data + i * sectorSize, fragment.startUnitNo + UInt64.ofNat i))

/-- Fragments that follow one another, none empty, from a place in the buffer and a unit number
    on, `n` units in all. -/
inductive Tiles (sectorSize : Nat) : Nat → UInt64 → Nat → List Fragment → Prop where
  | nil (data : Nat) (startUnitNo : UInt64) : Tiles sectorSize data startUnitNo 0 []
  | cons {data n units : Nat} {startUnitNo : UInt64} {rest : List Fragment} :
      0 < units →
      Tiles sectorSize (data + units * sectorSize) (startUnitNo + UInt64.ofNat units) n rest →
      Tiles sectorSize data startUnitNo (units + n) (⟨data, startUnitNo, units⟩ :: rest)

section
variable {sectorSize data n : Nat} {startUnitNo : UInt64} {rest : List Fragment}

/-- Fragments of one length. -/
theorem tiles_enqueue_even {units : Nat} (hunits : 0 < units) (count : Nat) :
    ∀ (data : Nat) (startUnitNo : UInt64),
      Tiles sectorSize data startUnitNo (count * units)
        (enqueue sectorSize count units 0 data startUnitNo) := by
  induction count with
  | zero =>
    intro data startUnitNo
    rw [Nat.zero_mul]
    exact .nil data startUnitNo
  | succ count ih =>
    intro data startUnitNo
    rw [Nat.succ_mul, Nat.add_comm]
    exact .cons hunits (ih _ _)

/-- The first `remainder` fragments are a unit longer. -/
theorem tiles_enqueue {units : Nat} (hunits : 0 < units) (remainder : Nat) :
    ∀ (more data : Nat) (startUnitNo : UInt64),
      Tiles sectorSize data startUnitNo ((remainder + more) * units + remainder)
        (enqueue sectorSize (remainder + more)
          (if 0 < remainder then units + 1 else units) remainder data startUnitNo) := by
  induction remainder with
  | zero =>
    intro more data startUnitNo
    rw [Nat.zero_add, Nat.add_zero]
    exact tiles_enqueue_even hunits more data startUnitNo
  | succ remainder ih =>
    intro more data startUnitNo
    have hcount : remainder + 1 + more = (remainder + more) + 1 := by omega
    have hsum : (remainder + 1 + more) * units + (remainder + 1) =
        (units + 1) + ((remainder + more) * units + remainder) := by
      rw [hcount, Nat.succ_mul]
      omega
    have hnext : (if 0 < remainder + 1 ∧ remainder + 1 - 1 = 0 then units + 1 - 1
        else units + 1) = if 0 < remainder then units + 1 else units := by
      rw [Nat.add_sub_cancel]
      by_cases hlast : remainder = 0
      · rw [if_pos ⟨Nat.succ_pos _, hlast⟩, if_neg (by omega), Nat.add_sub_cancel]
      · rw [if_neg (fun h => hlast h.2), if_pos (by omega)]
    rw [hsum, hcount, if_pos (Nat.succ_pos _), enqueue, hnext, Nat.add_sub_cancel]
    exact .cons (Nat.succ_pos _) (ih more _ _)

/-- **The fragments of a request follow one another**, for every number of threads. -/
theorem tiles_fragments {threadCount : Nat} (hthreads : 0 < threadCount)
    (startUnitNo unitCount sectorSize : UInt64) :
    Tiles sectorSize.toNat 0 startUnitNo unitCount.toNat
      (fragments threadCount startUnitNo unitCount sectorSize) := by
  unfold fragments
  simp only
  by_cases hfew : unitCount.toNat ≤ threadCount
  · rw [if_pos hfew]
    have heven := @tiles_enqueue_even sectorSize.toNat 1 Nat.one_pos unitCount.toNat 0 startUnitNo
    rwa [Nat.mul_one] at heven
  · rw [if_neg hfew]
    have hmod := Nat.mod_lt unitCount.toNat hthreads
    have hdiv := Nat.div_add_mod unitCount.toNat threadCount
    have hall := @tiles_enqueue sectorSize.toNat (unitCount.toNat / threadCount)
      (Nat.div_pos (by omega) hthreads) (unitCount.toNat % threadCount)
      (threadCount - unitCount.toNat % threadCount) 0 startUnitNo
    rwa [Nat.add_sub_cancel' (Nat.le_of_lt hmod), hdiv] at hall

theorem Tiles.eq_nil {frags : List Fragment} (h : Tiles sectorSize data startUnitNo n frags)
    (hn : n = 0) : frags = [] := by
  cases h with
  | nil => rfl
  | cons hpos htail => omega

/-- What tiles a request holds each of its units once, in order, with its place and number. -/
theorem Tiles.flatMap_units {frags : List Fragment}
    (h : Tiles sectorSize data startUnitNo n frags) :
    frags.flatMap (Fragment.units sectorSize) =
      (List.range n).map (fun i => (data + i * sectorSize, startUnitNo + UInt64.ofNat i)) := by
  induction h with
  | nil data startUnitNo => rfl
  | @cons data n units startUnitNo rest hpos htail ih =>
    rw [List.flatMap_cons, ih, List.range_add, List.map_append, List.map_map]
    refine congrArg _ (List.map_congr_left ?_)
    intro i _
    simp only [Function.comp_apply, Nat.add_mul, UInt64.ofNat_add, Nat.add_assoc,
      UInt64.add_assoc]

end

/-! ## One call on a buffer cut at unit boundaries -/

/-- What `EncryptBuffer` or `DecryptBuffer` makes of a buffer. -/
def modeBuffer (C : Ciphers) (ea : EncryptionAlgorithm) (type : WorkType) (data : Bytes)
    (dataUnitNo : UInt64) : Option Bytes :=
  match type with
  | .encryptDataUnits => ea.encryptBuffer C data dataUnitNo
  | .decryptDataUnits => ea.decryptBuffer C data dataUnitNo

section
variable {C : Ciphers} {ea : EncryptionAlgorithm} {type : WorkType}

theorem sectorsCurrentThread_eq (data : Bytes) (startUnitNo unitCount sectorSize : UInt64) :
    sectorsCurrentThread C ea type data startUnitNo unitCount sectorSize =
      (modeBuffer C ea type (data.take (unitCount * sectorSize).toNat)
        (startUnitNo * sectorSize / encryptionDataUnitSize)).map
        (fun out => out ++ data.drop (unitCount * sectorSize).toNat) := by
  cases type <;> rfl

theorem length_modeBuffer {data out : Bytes} {n : UInt64}
    (h : modeBuffer C ea type data n = some out) : out.length = data.length := by
  cases type with
  | encryptDataUnits => exact EncryptionAlgorithm.length_encryptBuffer h
  | decryptDataUnits => exact EncryptionAlgorithm.length_decryptBuffer h

theorem modeBuffer_isSome (C : Ciphers) (ea : EncryptionAlgorithm) (type : WorkType)
    {data : Bytes} (h : data.length % bytesPerXtsBlock = 0) (n : UInt64) :
    ∃ out, modeBuffer C ea type data n = some out := by
  cases type with
  | encryptDataUnits => exact EncryptionAlgorithm.encryptBuffer_isSome C ea h n
  | decryptDataUnits => exact EncryptionAlgorithm.decryptBuffer_isSome C ea h n

/-- Nothing goes to nothing. -/
theorem modeBuffer_nil (n : UInt64) : modeBuffer C ea type [] n = some [] := by
  have hwhole : ([] : Bytes).length % bytesPerXtsBlock = 0 := rfl
  obtain ⟨out, hout⟩ := modeBuffer_isSome C ea type hwhole n
  rw [hout, List.eq_nil_of_length_eq_zero (length_modeBuffer hout)]

/-- A cascade on a buffer cut at a unit boundary. -/
theorem cascade_append {f : Cipher → Bytes → Bytes → Bytes}
    (hf : ∀ c k b, (f c k b).length = b.length) (ks : List (Cipher × Bytes × Bytes)) :
    ∀ {a b : Bytes}, a.length % encryptionDataUnitSize.toNat = 0 →
    b.length % bytesPerXtsBlock = 0 → ∀ (n : UInt64),
    ∃ outA outB,
      ks.foldlM (fun d (c, k, k2) => bufferXTS (f c k) (C.encryptBlock c k2) d n) a =
        some outA ∧
      ks.foldlM (fun d (c, k, k2) => bufferXTS (f c k) (C.encryptBlock c k2) d
        (n + UInt64.ofNat (a.length / encryptionDataUnitSize.toNat))) b = some outB ∧
      ks.foldlM (fun d (c, k, k2) => bufferXTS (f c k) (C.encryptBlock c k2) d n) (a ++ b) =
        some (outA ++ outB) := by
  induction ks with
  | nil =>
    intro a b _ _ n
    exact ⟨a, b, rfl, rfl, rfl⟩
  | cons ck ks ih =>
    intro a b ha hb n
    obtain ⟨c, k, k2⟩ := ck
    obtain ⟨midA, midB, hA, hB, hAB⟩ :=
      @bufferXTS_append (f c k) (C.encryptBlock c k2) a b ha hb n
    have hlenA := length_bufferXTS (hf c k) (C.length_encryptBlock c k2) hA
    have hlenB := length_bufferXTS (hf c k) (C.length_encryptBlock c k2) hB
    obtain ⟨outA, outB, hA', hB', hAB'⟩ := ih (a := midA) (b := midB) (by rw [hlenA]; exact ha)
      (by rw [hlenB]; exact hb) n
    rw [hlenA] at hB'
    exact ⟨outA, outB, Option.bind_eq_some_iff.mpr ⟨midA, hA, hA'⟩,
      Option.bind_eq_some_iff.mpr ⟨midB, hB, hB'⟩, Option.bind_eq_some_iff.mpr ⟨_, hAB, hAB'⟩⟩

/-- **A buffer can be cut at any unit boundary**, in either direction. -/
theorem modeBuffer_append (C : Ciphers) (ea : EncryptionAlgorithm) (type : WorkType) {a b : Bytes}
    (ha : a.length % encryptionDataUnitSize.toNat = 0) (hb : b.length % bytesPerXtsBlock = 0) (n : UInt64) :
    ∃ outA outB, modeBuffer C ea type a n = some outA ∧
      modeBuffer C ea type b (n + UInt64.ofNat (a.length / encryptionDataUnitSize.toNat)) =
        some outB ∧
      modeBuffer C ea type (a ++ b) n = some (outA ++ outB) := by
  have hunit : n + UInt64.ofNat (a.length / encryptionDataUnitSize.toNat) + ea.sectorOffset =
      n + ea.sectorOffset + UInt64.ofNat (a.length / encryptionDataUnitSize.toNat) := by
    rw [UInt64.add_assoc, UInt64.add_comm (UInt64.ofNat _), ← UInt64.add_assoc]
  cases type with
  | encryptDataUnits =>
    simp only [modeBuffer, EncryptionAlgorithm.encryptBuffer, hunit]
    exact cascade_append (C := C) C.length_encryptBlock ea.keyed ha hb (n + ea.sectorOffset)
  | decryptDataUnits =>
    simp only [modeBuffer, EncryptionAlgorithm.decryptBuffer, hunit]
    exact cascade_append (C := C) C.length_decryptBlock ea.keyed.reverse ha hb
      (n + ea.sectorOffset)

/-! ## The workers -/

/-- What the worker of a fragment makes of its units. -/
def fragmentOut (C : Ciphers) (ea : EncryptionAlgorithm) (type : WorkType) (sectorSize : UInt64)
    (fragment : Fragment) (units : Bytes) : Bytes :=
  (modeBuffer C ea type units
    (fragment.startUnitNo * sectorSize / encryptionDataUnitSize)).getD units

/-- The bytes of a fragment. -/
def Fragment.bytes (sectorSize : UInt64) (fragment : Fragment) : Nat :=
  fragment.unitCount * sectorSize.toNat

/-- Units of a multiple of 512 bytes are whole blocks. -/
theorem units_whole {sectorSize : UInt64} (hsize : sectorSize.toNat % 512 = 0) (units : Nat) :
    units * sectorSize.toNat % bytesPerXtsBlock = 0 := by
  have hblocks : sectorSize.toNat % bytesPerXtsBlock = 0 := by
    show sectorSize.toNat % 16 = 0
    omega
  rw [Nat.mul_mod, hblocks, Nat.mul_zero, Nat.zero_mod]

theorem length_fragmentOut (C : Ciphers) (ea : EncryptionAlgorithm) (type : WorkType)
    {sectorSize : UInt64} (hsize : sectorSize.toNat % 512 = 0) (fragment : Fragment) {units : Bytes} (h : units.length = fragment.bytes sectorSize) :
    (fragmentOut C ea type sectorSize fragment units).length = fragment.bytes sectorSize := by
  have hwhole : units.length % bytesPerXtsBlock = 0 := by
    rw [h]
    exact units_whole hsize _
  obtain ⟨out, hout⟩ := modeBuffer_isSome C ea type hwhole
    (fragment.startUnitNo * sectorSize / encryptionDataUnitSize)
  rw [fragmentOut, hout, Option.getD_some, length_modeBuffer hout, h]

/-- A worker rewrites the bytes of its fragment. -/
theorem runFragment_eq {sectorSize : UInt64} (hsize : sectorSize.toNat % 512 = 0)
    {fragment : Fragment} {data : Bytes} (hmem : data.length < 2 ^ 64)
    (hin : fragment.data + fragment.bytes sectorSize ≤ data.length) :
    runFragment C ea type sectorSize data fragment =
      some (inPlace Fragment.data (Fragment.bytes sectorSize)
        (fragmentOut C ea type sectorSize) data fragment) := by
  have hlen := length_slice hin
  have hout := length_fragmentOut C ea type hsize fragment hlen
  have hbytes : (UInt64.ofNat fragment.unitCount * sectorSize).toNat =
      fragment.bytes sectorSize := by
    rw [UInt64.toNat_mul, UInt64.toNat_ofNat', Nat.mod_mul_mod]
    exact Nat.mod_eq_of_lt (by
      show fragment.bytes sectorSize < 2 ^ 64
      omega)
  have hwhole : (slice data fragment.data (fragment.bytes sectorSize)).length %
      bytesPerXtsBlock = 0 := by
    rw [hlen]
    exact units_whole hsize _
  obtain ⟨out, hsome⟩ := modeBuffer_isSome C ea type hwhole
    (fragment.startUnitNo * sectorSize / encryptionDataUnitSize)
  have htake : (data.drop fragment.data).take (fragment.bytes sectorSize) =
      slice data fragment.data (fragment.bytes sectorSize) := rfl
  rw [runFragment, sectorsCurrentThread_eq, hbytes, htake, hsome, Option.map_some,
    Option.map_some, inPlace, patch, hout, fragmentOut, hsome, Option.getD_some,
    List.drop_drop, List.append_assoc]

/-! ## All fragments -/

/-- The fragments of a request lie in it and do not meet. -/
theorem Tiles.inPlaceOk (C : Ciphers) (ea : EncryptionAlgorithm) (type : WorkType)
    {sectorSize : UInt64} (hsize : sectorSize.toNat % 512 = 0) {data n length : Nat} {startUnitNo : UInt64} {frags : List Fragment}
    (h : Tiles sectorSize.toNat data startUnitNo n frags)
    (hin : data + n * sectorSize.toNat ≤ length) :
    (∀ fragment ∈ frags, data ≤ fragment.data) ∧
      InPlaceOk Fragment.data (Fragment.bytes sectorSize) (fragmentOut C ea type sectorSize)
        length frags := by
  induction h with
  | nil data startUnitNo =>
    exact ⟨fun _ h => absurd h List.not_mem_nil, ⟨fun _ h => absurd h List.not_mem_nil,
      fun _ h => absurd h List.not_mem_nil, List.Pairwise.nil⟩⟩
  | @cons data n units startUnitNo rest hpos htail ih =>
    have hbytes : data + (units + n) * sectorSize.toNat =
        data + units * sectorSize.toNat + n * sectorSize.toNat := by
      rw [Nat.add_mul, Nat.add_assoc]
    rw [hbytes] at hin
    obtain ⟨hbehind, hok⟩ := ih hin
    refine ⟨?_, ?_, ?_, ?_⟩
    · intro fragment hmem
      rcases List.mem_cons.mp hmem with rfl | hmem
      · exact Nat.le_refl _
      · exact Nat.le_trans (Nat.le_add_right _ _) (hbehind fragment hmem)
    · intro fragment hmem
      rcases List.mem_cons.mp hmem with rfl | hmem
      · exact Nat.le_trans (Nat.le_add_right _ _) hin
      · exact hok.inside fragment hmem
    · intro fragment hmem units' hunits'
      exact length_fragmentOut C ea type hsize fragment hunits'
    · refine List.pairwise_cons.mpr ⟨?_, hok.apart⟩
      intro fragment hmem
      exact Or.inl (hbehind fragment hmem)

/-- The unit number behind `units` units, where the bytes of the request do not cross a multiple
    of 2^64. -/
theorem dataUnitNo_add {startUnitNo sectorSize : UInt64} {units : Nat}
    (hsize : sectorSize.toNat % 512 = 0)
    (hlow : (startUnitNo * sectorSize).toNat + units * sectorSize.toNat < 2 ^ 64) :
    ((startUnitNo + UInt64.ofNat units) * sectorSize).toNat =
        (startUnitNo * sectorSize).toNat + units * sectorSize.toNat ∧
      (startUnitNo + UInt64.ofNat units) * sectorSize / encryptionDataUnitSize =
        startUnitNo * sectorSize / encryptionDataUnitSize +
          UInt64.ofNat (units * sectorSize.toNat / encryptionDataUnitSize.toNat) := by
  have h512 : encryptionDataUnitSize.toNat = 512 := rfl
  have hsum : ((startUnitNo + UInt64.ofNat units) * sectorSize).toNat =
      (startUnitNo * sectorSize).toNat + units * sectorSize.toNat := by
    rw [UInt64.add_mul, UInt64.toNat_add, UInt64.toNat_mul (UInt64.ofNat units),
      UInt64.toNat_ofNat', Nat.mod_mul_mod, Nat.add_mod_mod]
    exact Nat.mod_eq_of_lt hlow
  have hwhole : units * sectorSize.toNat % 512 = 0 := by
    rw [Nat.mul_mod, hsize, Nat.mul_zero]
  refine ⟨hsum, UInt64.toNat_inj.mp ?_⟩
  rw [UInt64.toNat_div, hsum, UInt64.toNat_add, UInt64.toNat_div, UInt64.toNat_ofNat', h512]
  omega

/-- **The fragments in their order are one call**: they leave the buffer as the cascade leaves
    the bytes of the request. -/
theorem Tiles.foldl_eq (C : Ciphers) (ea : EncryptionAlgorithm) (type : WorkType)
    {sectorSize : UInt64} (hsize : sectorSize.toNat % 512 = 0) {data n : Nat} {startUnitNo : UInt64} {frags : List Fragment}
    (h : Tiles sectorSize.toNat data startUnitNo n frags) :
    ∀ {buffer : Bytes}, data + n * sectorSize.toNat ≤ buffer.length →
    (startUnitNo * sectorSize).toNat + n * sectorSize.toNat ≤ 2 ^ 64 →
    ∃ out, modeBuffer C ea type (slice buffer data (n * sectorSize.toNat))
        (startUnitNo * sectorSize / encryptionDataUnitSize) = some out ∧
      frags.foldl (inPlace Fragment.data (Fragment.bytes sectorSize)
        (fragmentOut C ea type sectorSize)) buffer = patch buffer data out := by
  induction h with
  | nil data startUnitNo =>
    intro buffer hin hlow
    have hslice : slice buffer data (0 * sectorSize.toNat) = [] := by
      rw [Nat.zero_mul, slice, List.take_zero]
    refine ⟨[], by rw [hslice]; exact modeBuffer_nil _, ?_⟩
    rw [List.foldl_nil, patch, List.append_nil, List.length_nil, Nat.add_zero,
      List.take_append_drop]
  | @cons data n units startUnitNo rest hpos htail ih =>
    intro buffer hin hlow
    generalize hfirst : units * sectorSize.toNat = first at *
    generalize hmore : n * sectorSize.toNat = more at *
    have hbytes : (units + n) * sectorSize.toNat = first + more := by
      rw [Nat.add_mul, hfirst, hmore]
    rw [hbytes] at hin hlow ⊢
    have hwhole : first % 512 = 0 := by
      rw [← hfirst, Nat.mul_mod, hsize, Nat.mul_zero]
    have hlenA : (slice buffer data first).length = first := length_slice (by omega)
    have hlenB : (slice buffer (data + first) more).length = more := length_slice (by omega)
    have hwholeA : (slice buffer data first).length % encryptionDataUnitSize.toNat = 0 := by
      rw [hlenA]
      exact hwhole
    have hwholeB : (slice buffer (data + first) more).length % bytesPerXtsBlock = 0 := by
      rw [hlenB, ← hmore]
      exact units_whole hsize n
    obtain ⟨outA, outB, hA, hB, hAB⟩ := modeBuffer_append C ea type hwholeA hwholeB
      (startUnitNo * sectorSize / encryptionDataUnitSize)
    have hcut : slice buffer data (first + more) =
        slice buffer data first ++ slice buffer (data + first) more := by
      unfold slice
      rw [List.take_add, List.drop_drop]
    have hlenOut : outA.length = first := (length_modeBuffer hA).trans hlenA
    have hstep : inPlace Fragment.data (Fragment.bytes sectorSize)
        (fragmentOut C ea type sectorSize) buffer ⟨data, startUnitNo, units⟩ =
          patch buffer data outA := by
      show patch buffer data ((modeBuffer C ea type (slice buffer data
        (units * sectorSize.toNat)) _).getD _) = _
      rw [hfirst, hA, Option.getD_some]
    rw [List.foldl_cons, hstep]
    rw [hlenA] at hB
    refine ⟨outA ++ outB, by rw [hcut]; exact hAB, ?_⟩
    by_cases hlast : (startUnitNo * sectorSize).toNat + first < 2 ^ 64
    · have hlastUnits : (startUnitNo * sectorSize).toNat + units * sectorSize.toNat < 2 ^ 64 := by
        rw [hfirst]
        exact hlast
      obtain ⟨hnext, hunit⟩ := dataUnitNo_add hsize hlastUnits
      have hpatched : (patch buffer data outA).length = buffer.length :=
        length_patch (by omega)
      have hinRest : data + first + more ≤ (patch buffer data outA).length := by omega
      obtain ⟨out, hout, hrest⟩ := ih hinRest (by rw [hnext, hfirst]; omega)
      have hbehind : slice (patch buffer data outA) (data + first) more =
          slice buffer (data + first) more :=
        slice_patch_disjoint (by omega) (Or.inr (by omega))
      rw [hbehind, hunit, hfirst, hB] at hout
      cases hout
      rw [hrest]
      exact patch_patch_adjacent (by omega) (by omega)
    · -- the request ends where the numbers do, and this is its last fragment
      have hmoreZero : more = 0 := by omega
      have hn : n = 0 := by
        rcases Nat.mul_eq_zero.mp (hmore.trans hmoreZero) with hn | hzero
        · exact hn
        · have hsector : startUnitNo * sectorSize = 0 := by
            rw [show sectorSize = 0 from UInt64.toNat_inj.mp hzero, UInt64.mul_zero]
          rw [hsector, ← hfirst, hzero, Nat.mul_zero] at hlast
          exact absurd (by decide) hlast
      have houtB : outB = [] := by
        have hlenOutB := length_modeBuffer hB
        rw [hlenB, hmoreZero] at hlenOutB
        exact List.eq_nil_of_length_eq_zero hlenOutB
      rw [htail.eq_nil hn, houtB, List.append_nil, List.foldl_nil]

/-- **The pool is one thread**, whatever the number of threads and the order in which they come
    to their fragments. -/
theorem doWork_eq_sectorsCurrentThread {pool : Pool} {order : List Fragment → List Fragment}
    (horder : ∀ l, (order l).Perm l) {data : Bytes} {startUnitNo unitCount sectorSize : UInt64}
    (hsize : sectorSize.toNat % 512 = 0) (hmem : data.length < 2 ^ 64)
    (hin : unitCount.toNat * sectorSize.toNat ≤ data.length)
    (hlow : (startUnitNo * sectorSize).toNat + unitCount.toNat * sectorSize.toNat ≤ 2 ^ 64) :
    doWork C ea pool order type data startUnitNo unitCount sectorSize =
      sectorsCurrentThread C ea type data startUnitNo unitCount sectorSize := by
  have hbytes : (unitCount * sectorSize).toNat = unitCount.toNat * sectorSize.toNat := by
    rw [UInt64.toNat_mul]
    exact Nat.mod_eq_of_lt (by omega)
  unfold doWork
  by_cases hnone : unitCount = 0
  · rw [if_pos hnone, sectorsCurrentThread_eq, hnone, UInt64.zero_mul]
    have hnil : data.take (0 : UInt64).toNat = [] := List.take_zero
    rw [hnil, modeBuffer_nil, Option.map_some]
    rfl
  rw [if_neg hnone]
  by_cases halone : !pool.threadPoolRunning ∨ unitCount = 1
  · rw [if_pos halone]
  rw [if_neg halone]
  have hrunning : pool.threadPoolRunning = true := by
    by_contra hstopped
    exact halone (Or.inl (by simpa using hstopped))
  have htiles := tiles_fragments (pool.running_pos hrunning) startUnitNo unitCount sectorSize
  have hinside : 0 + unitCount.toNat * sectorSize.toNat ≤ data.length := by
    rw [Nat.zero_add]
    exact hin
  obtain ⟨-, hok⟩ := htiles.inPlaceOk C ea type hsize hinside
  have hperm := horder (fragments pool.threadCount startUnitNo unitCount sectorSize)
  have hokOrder := hok.perm hperm.symm
  have hjob : ∀ ys : Bytes, ys.length = data.length →
      ∀ fragment ∈ order (fragments pool.threadCount startUnitNo unitCount sectorSize),
        runFragment C ea type sectorSize ys fragment = some (inPlace Fragment.data
          (Fragment.bytes sectorSize) (fragmentOut C ea type sectorSize) ys fragment) := by
    intro ys hys fragment hmem'
    refine runFragment_eq hsize (hys ▸ hmem) ?_
    rw [hys]
    exact hokOrder.inside fragment hmem'
  have hworkers := foldlM_inPlace hokOrder hjob
  obtain ⟨out, hout, hfold⟩ := htiles.foldl_eq C ea type hsize hinside hlow
  have hlen : (slice data 0 (unitCount.toNat * sectorSize.toNat)).length =
      unitCount.toNat * sectorSize.toNat := length_slice (by rw [Nat.zero_add]; exact hin)
  have htake : data.take (unitCount.toNat * sectorSize.toNat) =
      slice data 0 (unitCount.toNat * sectorSize.toNat) := rfl
  rw [hworkers, foldl_inPlace_perm hok hperm.symm, hfold, sectorsCurrentThread_eq, hbytes, htake,
    hout, Option.map_some, patch, List.take_zero, List.nil_append, Nat.zero_add,
    length_modeBuffer hout, hlen]

/-- **The size of the units cannot be seen** where it divides the offset and the length. -/
theorem sectorsCurrentThread_units {sectorSize offset n : UInt64} (data : Bytes)
    (hsize : sectorSize.toNat % 512 = 0) (hoffset : offset % sectorSize = 0)
    (hn : n % sectorSize = 0) :
    sectorsCurrentThread C ea type data (offset / sectorSize) (n / sectorSize) sectorSize =
      sectorsCurrentThread C ea type data (offset / encryptionDataUnitSize)
        (n / encryptionDataUnitSize) encryptionDataUnitSize := by
  have hback : ∀ {x size : UInt64}, x % size = 0 → x / size * size = x := by
    intro x size hx
    have hdvd : size.toNat ∣ x.toNat := by
      apply Nat.dvd_of_mod_eq_zero
      rw [← UInt64.toNat_mod, hx]
      rfl
    apply UInt64.toNat_inj.mp
    rw [UInt64.toNat_mul, UInt64.toNat_div, Nat.div_mul_cancel hdvd]
    exact Nat.mod_eq_of_lt x.toNat_lt
  have hunits : ∀ {x : UInt64}, x % sectorSize = 0 → x % encryptionDataUnitSize = 0 := by
    intro x hx
    apply UInt64.toNat_inj.mp
    have hdvd : sectorSize.toNat ∣ x.toNat := by
      apply Nat.dvd_of_mod_eq_zero
      rw [← UInt64.toNat_mod, hx]
      rfl
    rw [UInt64.toNat_mod]
    exact Nat.mod_eq_zero_of_dvd ((Nat.dvd_of_mod_eq_zero hsize).trans hdvd)
  rw [sectorsCurrentThread_eq, sectorsCurrentThread_eq, hback hoffset, hback hn,
    hback (hunits hoffset), hback (hunits hn)]

end

/-- **Handing out a request**: the fragments hold each of its units once, with its place and its
    number, for every number of threads; where the bytes of the request do not cross a multiple
    of 2^64 the buffer ends up as one call leaves it, whatever the order of the workers; and
    units of a size that divides offset and length are the same bytes as units of 512. -/
theorem doWork_correct (C : Ciphers) (ea : EncryptionAlgorithm) (pool : Pool)
    (order : List Fragment → List Fragment) (horder : ∀ l, (order l).Perm l) :
    (∀ (threadCount : Nat) (startUnitNo unitCount sectorSize : UInt64), 0 < threadCount →
      (fragments threadCount startUnitNo unitCount sectorSize).flatMap
          (Fragment.units sectorSize.toNat) =
        (List.range unitCount.toNat).map
          (fun i => (i * sectorSize.toNat, startUnitNo + UInt64.ofNat i))) ∧
    (∀ (type : WorkType) (data : Bytes) (startUnitNo unitCount sectorSize : UInt64),
      sectorSize.toNat % 512 = 0 → data.length < 2 ^ 64 →
      unitCount.toNat * sectorSize.toNat ≤ data.length →
      (startUnitNo * sectorSize).toNat + unitCount.toNat * sectorSize.toNat ≤ 2 ^ 64 →
      doWork C ea pool order type data startUnitNo unitCount sectorSize =
        sectorsCurrentThread C ea type data startUnitNo unitCount sectorSize) ∧
    ∀ (type : WorkType) (data : Bytes) (offset n sectorSize : UInt64),
      sectorSize.toNat % 512 = 0 → offset % sectorSize = 0 → n % sectorSize = 0 →
      sectorsCurrentThread C ea type data (offset / sectorSize) (n / sectorSize) sectorSize =
        sectorsCurrentThread C ea type data (offset / 512) (n / 512) 512 := by
  refine ⟨?_, ?_, ?_⟩
  · intro threadCount startUnitNo unitCount sectorSize hthreads
    rw [(tiles_fragments hthreads startUnitNo unitCount sectorSize).flatMap_units]
    simp only [Nat.zero_add]
  · intro type data startUnitNo unitCount sectorSize hsize hmem hin hlow
    exact doWork_eq_sectorsCurrentThread horder hsize hmem hin hlow
  · intro type data offset n sectorSize hsize hoffset hn
    exact sectorsCurrentThread_units data hsize hoffset hn

/-! ## A concrete request -/

namespace PoolDemo

/-- Ciphers that rotate a block by a byte. -/
def ciphers : Ciphers where
  encryptBlock _ _ b := b.rotate 1
  decryptBlock _ _ b := b.rotate (b.length - 1)
  length_encryptBlock _ _ b := List.length_rotate b 1
  length_decryptBlock _ _ b := List.length_rotate b _
  decrypt_encrypt _ _ b := by
    rw [List.length_rotate, List.rotate_rotate]
    cases b with
    | nil => rfl
    | cons x b =>
      rw [List.length_cons, Nat.add_sub_cancel, Nat.add_comm]
      exact List.rotate_length _
  encrypt_decrypt _ _ b := by
    rw [List.rotate_rotate]
    cases b with
    | nil => rfl
    | cons x b =>
      rw [List.length_cons, Nat.add_sub_cancel]
      exact List.rotate_length _

def aes : EncryptionAlgorithm where
  algorithm := .aes
  key := List.replicate 32 0
  secondaryKey := List.replicate 32 0
  sectorOffset := 0

/-- Two threads that come to their fragments in order. -/
def pool : Pool where
  threadPoolRunning := true
  threadCount := 2
  running_pos _ := by decide

/-- Two units of 512 bytes. -/
def data : Bytes := List.replicate 1024 0

theorem doWork_correct_demo :
    doWork ciphers aes pool List.reverse .encryptDataUnits data 5 2 512 =
        sectorsCurrentThread ciphers aes .encryptDataUnits data 5 2 512 ∧
      sectorsCurrentThread ciphers aes .encryptDataUnits data (4096 / 1024) (1024 / 1024) 1024 =
        sectorsCurrentThread ciphers aes .encryptDataUnits data (4096 / 512) (1024 / 512) 512 :=
  have hall := doWork_correct ciphers aes pool List.reverse List.reverse_perm
  have hlen : data.length = 1024 := List.length_replicate
  ⟨hall.2.1 .encryptDataUnits data 5 2 512 (by decide) (by rw [hlen]; decide)
      (by rw [hlen]; decide) (by decide),
    hall.2.2 .encryptDataUnits data 4096 1024 1024 (by decide) (by decide) (by decide)⟩

/-- With one cipher the mode is one pass of XTS. -/
theorem modeBuffer_aes (d : Bytes) (n : UInt64) :
    modeBuffer ciphers aes .encryptDataUnits d n =
      bufferXTS (fun b => b.rotate 1) (fun b => b.rotate 1) d n := by
  have hzero : n + (0 : UInt64) = n := UInt64.add_zero n
  show (bufferXTS (fun b => b.rotate 1) (fun b => b.rotate 1) d (n + 0)).bind some = _
  rw [hzero, Option.bind_fun_some]

/-- A block of a buffer of zeros. -/
theorem block_of_zeros {m i : Nat} {n : UInt64} {out : Bytes}
    (h : modeBuffer ciphers aes .encryptDataUnits (List.replicate m 0) n = some out)
    (hi : i < m / bytesPerXtsBlock) :
    slice out (i * bytesPerXtsBlock) bytesPerXtsBlock =
      xtsBlock (fun b => b.rotate 1) (fun b => b.rotate 1) n i
        (List.replicate bytesPerXtsBlock 0) := by
  rw [modeBuffer_aes] at h
  have hle : i * bytesPerXtsBlock + bytesPerXtsBlock ≤ m := by
    have hmul := Nat.mul_le_mul_right bytesPerXtsBlock (Nat.succ_le_of_lt hi)
    have hdiv := Nat.div_mul_le_self m bytesPerXtsBlock
    rw [Nat.succ_mul] at hmul
    omega
  rw [slice_bufferXTS (fun b => List.length_rotate b 1) (fun b => List.length_rotate b 1) h
    (by rw [List.length_replicate]; exact hi), slice_replicate hle]

/-- **A request across the end of the numbers**: its second unit is the first one of the bytes
    behind 2^64. The worker of it takes it for unit 0, one call for unit 2^55. -/
theorem doWork_wraps :
    doWork ciphers aes pool id .encryptDataUnits data 36028797018963967 2 512 ≠
      sectorsCurrentThread ciphers aes .encryptDataUnits data 36028797018963967 2 512 := by
  intro hsame
  have hlen : data.length = 1024 := List.length_replicate
  have hfrags : fragments 2 36028797018963967 2 512 =
      [⟨0, 36028797018963967, 1⟩, ⟨512, 36028797018963968, 1⟩] := by decide
  have htwo : 0 < 2 := by decide
  have hinside : 0 + (2 : UInt64).toNat * (512 : UInt64).toNat ≤ data.length := by
    rw [hlen]
    decide
  have hok := (tiles_fragments htwo 36028797018963967 2 512).inPlaceOk ciphers aes
    .encryptDataUnits (by decide) hinside
  rw [hfrags] at hok
  have hjob : ∀ ys : Bytes, ys.length = data.length →
      ∀ fragment ∈ [(⟨0, 36028797018963967, 1⟩ : Fragment), ⟨512, 36028797018963968, 1⟩],
        runFragment ciphers aes .encryptDataUnits 512 ys fragment = some (inPlace Fragment.data
          (Fragment.bytes 512) (fragmentOut ciphers aes .encryptDataUnits 512) ys fragment) := by
    intro ys hys fragment hmem
    refine runFragment_eq (by decide) (by rw [hys, hlen]; decide) ?_
    rw [hys]
    exact hok.2.inside fragment hmem
  have hworkers := foldlM_inPlace hok.2 hjob
  obtain ⟨-, hregions, -⟩ := foldl_inPlace hok.2
  have hsecond := hregions ⟨512, 36028797018963968, 1⟩ (by simp)
  -- the second fragment as its worker leaves it
  have hwholePart : (List.replicate 512 (0 : UInt8)).length % bytesPerXtsBlock = 0 := by
    rw [List.length_replicate]
    decide
  obtain ⟨part, hpart⟩ := modeBuffer_isSome ciphers aes .encryptDataUnits hwholePart 0
  have hzeros : slice data 512 512 = List.replicate 512 0 := slice_replicate (by decide)
  have hout : fragmentOut ciphers aes .encryptDataUnits 512 ⟨512, 36028797018963968, 1⟩
      (slice data 512 512) = part := by
    rw [fragmentOut, show (36028797018963968 : UInt64) * 512 / encryptionDataUnitSize = 0 by decide,
      hzeros, hpart, Option.getD_some]
  -- the same bytes as one call leaves them
  have hwholeData : data.length % bytesPerXtsBlock = 0 := by
    rw [hlen]
    decide
  obtain ⟨whole, hwhole⟩ := modeBuffer_isSome ciphers aes .encryptDataUnits hwholeData
    36028797018963967
  have htake : data.take ((2 : UInt64) * 512).toNat = data := List.take_of_length_le (by
    rw [hlen]
    decide)
  have hdrop : data.drop ((2 : UInt64) * 512).toNat = [] := List.drop_eq_nil_of_le (by
    rw [hlen]
    decide)
  have hone : sectorsCurrentThread ciphers aes .encryptDataUnits data 36028797018963967 2 512 =
      some whole := by
    rw [sectorsCurrentThread_eq, htake, hdrop,
      show (36028797018963967 : UInt64) * 512 / encryptionDataUnitSize = 36028797018963967 by
        decide, hwhole, Option.map_some, List.append_nil]
  have hpool : doWork ciphers aes pool id .encryptDataUnits data 36028797018963967 2 512 =
      [(⟨0, 36028797018963967, 1⟩ : Fragment), ⟨512, 36028797018963968, 1⟩].foldlM
        (runFragment ciphers aes .encryptDataUnits 512) data := by
    rw [← hfrags]
    rfl
  rw [hpool, hworkers, hone] at hsame
  rw [Option.some.inj hsame] at hsecond
  have hblock := block_of_zeros (i := 0) hpart (by decide)
  have hblock' := block_of_zeros (m := 1024) (i := 32) hwhole (by decide)
  have hsame' : slice part 0 16 = slice whole 512 16 := by
    have hpartEq : slice whole 512 512 = part := hsecond.trans hout
    rw [← hpartEq]
    exact slice_slice (by decide)
  rw [show slice whole 512 16 = slice whole (32 * bytesPerXtsBlock) bytesPerXtsBlock from rfl,
    hblock', show slice part 0 16 = slice part (0 * bytesPerXtsBlock) bytesPerXtsBlock from rfl,
    hblock] at hsame'
  exact absurd hsame' (by decide)

end PoolDemo

end EncryptionThreadPool

end VeraCrypt
