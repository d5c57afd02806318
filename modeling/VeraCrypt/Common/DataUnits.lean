import VeraCrypt.Common.Volumes
import VeraCrypt.Lib.BlockDevice
import VeraCrypt.Volume.XtsDataUnits

/-!
# Data units in the C code (`EncryptDataUnits`, `DecryptDataUnits` of `Common/Crypto.c`)

Both run every cipher of the cascade over the whole buffer. What comes out is unit by unit: unit
`j` of a buffer that starts at unit `n` is encrypted as unit `n + j` on its own
(`onBuffer_encryptDataUnits`), so the two functions are a `UnitCipher`.
-/

set_option autoImplicit false

namespace VeraCrypt

open Lib

namespace Common

/-- `EncryptDataUnits`: the buffer starts at data unit `unitNo`. -/
def encryptDataUnits (C : Ciphers) (schedule : List (Cipher × Bytes × Bytes)) (unitNo : UInt64)
    (buf : Bytes) : Option Bytes :=
  schedule.foldlM (fun b (c, k, k2) =>
    bufferXTS (C.encryptBlock c k) (C.encryptBlock c k2) b unitNo) buf

/-- `DecryptDataUnits`: the ciphers from the last one on. -/
def decryptDataUnits (C : Ciphers) (schedule : List (Cipher × Bytes × Bytes)) (unitNo : UInt64)
    (buf : Bytes) : Option Bytes :=
  schedule.reverse.foldlM (fun b (c, k, k2) =>
    bufferXTS (C.decryptBlock c k) (C.encryptBlock c k2) b unitNo) buf

/-- `ENCRYPTION_DATA_UNIT_SIZE` -/
def dataUnitSize : Nat := 512

instance : NeZero dataUnitSize := ⟨by decide⟩

/-- A function of bytes on the first `n` bytes of a buffer. -/
def onBuffer (n : Nat) (f : Bytes → Option Bytes) (buf : Nat → UInt8) : Nat → UInt8 :=
  (f (bytesOf buf n)).elim buf (fun out i => if i < n then out.getD i 0 else buf i)

/-! ## One unit of a buffer -/

section

variable {C : Ciphers} {f : Cipher → Bytes → Bytes → Bytes} {ks : List (Cipher × Bytes × Bytes)}
  {n : UInt64} {data out : Bytes}

theorem length_cascade (hf : ∀ c k b, (f c k b).length = b.length)
    (h : ks.foldlM (fun d (c, k, k2) => bufferXTS (f c k) (C.encryptBlock c k2) d n) data =
      some out) : out.length = data.length :=
  length_foldlM_bufferXTS hf h

/-- The blocks of unit `u` are those of a buffer that starts there. -/
theorem foldl_xtsBlock_add_units (u i : Nat) (b : Bytes) :
    ks.foldl (fun b (c, k, k2) =>
      xtsBlock (f c k) (C.encryptBlock c k2) n (blocksPerXtsDataUnit * u + i) b) b =
    ks.foldl (fun b (c, k, k2) =>
      xtsBlock (f c k) (C.encryptBlock c k2) (n + UInt64.ofNat u) i b) b := by
  induction ks generalizing b with
  | nil => rfl
  | cons ck ks ih =>
    rcases ck with ⟨c, k, k2⟩
    rw [List.foldl_cons, List.foldl_cons, ih]
    simp only [xtsBlock_add_units]

/-- **A cascade works unit by unit.** -/
theorem slice_cascade (hf : ∀ c k b, (f c k b).length = b.length) {count u : Nat} {unit : Bytes}
    (h : ks.foldlM (fun d (c, k, k2) => bufferXTS (f c k) (C.encryptBlock c k2) d n) data =
      some out)
    (hlen : data.length = dataUnitSize * count) (hu : u < count)
    (hunit : ks.foldlM (fun d (c, k, k2) =>
        bufferXTS (f c k) (C.encryptBlock c k2) d (n + UInt64.ofNat u))
      (slice data (dataUnitSize * u) dataUnitSize) = some unit) :
    slice out (dataUnitSize * u) dataUnitSize = unit := by
  have hin : 512 * u + 512 ≤ data.length := by
    rw [hlen]
    have hmul := Nat.mul_le_mul_left 512 (Nat.succ_le_of_lt hu)
    rw [Nat.mul_succ] at hmul
    exact hmul
  have hout := length_cascade hf h
  have hpartLen : (slice data (dataUnitSize * u) dataUnitSize).length = 512 := length_slice hin
  have hunitLen : unit.length = 512 := by rw [length_cascade hf hunit, hpartLen]
  have hleft : (slice out (dataUnitSize * u) dataUnitSize).length = 512 :=
    length_slice (show 512 * u + 512 ≤ out.length by rw [hout]; exact hin)
  apply eq_of_slices_eq (n := bytesPerXtsBlock) (by decide) (by rw [hleft, hunitLen])
    (by rw [hleft]; decide)
  intro i hi
  rw [hleft] at hi
  have hi32 : i < 32 := hi
  have hblock : ∀ xs : Bytes, slice (slice xs (dataUnitSize * u) dataUnitSize)
      (i * bytesPerXtsBlock) bytesPerXtsBlock =
      slice xs ((blocksPerXtsDataUnit * u + i) * bytesPerXtsBlock) bytesPerXtsBlock := by
    intro xs
    have hfits : i * bytesPerXtsBlock + bytesPerXtsBlock ≤ dataUnitSize := by
      show i * 16 + 16 ≤ 512
      omega
    have hoff : dataUnitSize * u + i * bytesPerXtsBlock =
        (blocksPerXtsDataUnit * u + i) * bytesPerXtsBlock := by
      show 512 * u + i * 16 = (32 * u + i) * 16
      omega
    rw [slice_slice hfits, hoff]
  have hplace : blocksPerXtsDataUnit * u + i < data.length / bytesPerXtsBlock := by
    show 32 * u + i < data.length / 16
    omega
  rw [hblock, slice_foldlM_bufferXTS hf h hplace, foldl_xtsBlock_add_units, ← hblock,
    ← slice_foldlM_bufferXTS hf hunit (by rw [hpartLen]; exact hi)]

end

/-! ## The unit cipher -/

section

variable (C : Ciphers) (schedule : List (Cipher × Bytes × Bytes))

/-- A function of bytes on one unit. -/
def onUnit (f : Bytes → Option Bytes) (b : Fin dataUnitSize → UInt8) : Fin dataUnitSize → UInt8 :=
  (f (List.ofFn b)).elim b (fun out (k : Fin dataUnitSize) => out.getD k 0)

variable {C schedule}

theorem onUnit_of_eq_some {f : Bytes → Option Bytes} {b : Fin dataUnitSize → UInt8} {out : Bytes}
    (h : f (List.ofFn b) = some out) :
    onUnit f b = fun k : Fin dataUnitSize => out.getD k 0 := by
  rw [onUnit, h]
  rfl

theorem encryptDataUnits_isSome (n : UInt64) {buf : Bytes} (h : buf.length % bytesPerXtsBlock = 0) :
    ∃ out, encryptDataUnits C schedule n buf = some out ∧ out.length = buf.length := by
  rcases foldlM_bufferXTS_isSome C.length_encryptBlock h n schedule with ⟨out, hout⟩
  exact ⟨out, hout, length_cascade C.length_encryptBlock hout⟩

theorem decryptDataUnits_encryptDataUnits {n : UInt64} {buf out : Bytes}
    (h : encryptDataUnits C schedule n buf = some out) :
    decryptDataUnits C schedule n out = some buf :=
  foldlM_bufferXTS_reverse h

theorem ofFn_getD {out : Bytes} (h : out.length = dataUnitSize) :
    List.ofFn (fun k : Fin dataUnitSize => out.getD k 0) = out := by
  apply List.ext_getElem (by rw [List.length_ofFn, h])
  intro i _ hi
  rw [List.getElem_ofFn]
  exact List.getD_eq_getElem _ _ hi

theorem onUnit_dec_enc (n : UInt64) (b : Fin dataUnitSize → UInt8) :
    onUnit (decryptDataUnits C schedule n) (onUnit (encryptDataUnits C schedule n) b) = b := by
  have hlen : (List.ofFn b).length = dataUnitSize := List.length_ofFn
  have hblocks : (List.ofFn b).length % bytesPerXtsBlock = 0 := by
    rw [hlen]
    decide
  rcases @encryptDataUnits_isSome C schedule n _ hblocks with ⟨out, hout, houtLen⟩
  rw [onUnit_of_eq_some hout]
  have hback : decryptDataUnits C schedule n
      (List.ofFn (fun k : Fin dataUnitSize => out.getD k 0)) = some (List.ofFn b) := by
    rw [ofFn_getD (houtLen.trans hlen)]
    exact decryptDataUnits_encryptDataUnits hout
  rw [onUnit_of_eq_some hback]
  funext k
  have hk : (k : Nat) < (List.ofFn b).length := by
    rw [hlen]
    exact k.isLt
  rw [List.getD_eq_getElem _ _ hk, List.getElem_ofFn]

variable (C schedule)

/-- The cascade of a schedule as a cipher of units. -/
def dataCipher : UnitCipher dataUnitSize where
  enc n := onUnit (encryptDataUnits C schedule (UInt64.ofNat n))
  dec n := onUnit (decryptDataUnits C schedule (UInt64.ofNat n))
  dec_enc n b := onUnit_dec_enc (UInt64.ofNat n) b

variable {C schedule}

theorem slice_bytesOf (buf : Nat → UInt8) {count u : Nat} (hu : u < count) :
    slice (bytesOf buf (dataUnitSize * count)) (dataUnitSize * u) dataUnitSize =
      List.ofFn (unitAt dataUnitSize buf u) := by
  have hin : 512 * u + 512 ≤ 512 * count := by
    have hmul := Nat.mul_le_mul_left 512 (Nat.succ_le_of_lt hu)
    rw [Nat.mul_succ] at hmul
    exact hmul
  have hlen : (slice (bytesOf buf (dataUnitSize * count)) (dataUnitSize * u) dataUnitSize).length =
      dataUnitSize := by
    apply length_slice
    rw [length_bytesOf]
    exact hin
  apply List.ext_getElem (by rw [hlen, List.length_ofFn])
  intro k hk _
  rw [hlen] at hk
  have hk512 : k < 512 := hk
  have hget : (slice (bytesOf buf (dataUnitSize * count)) (dataUnitSize * u) dataUnitSize)[k]? =
      some (buf (dataUnitSize * u + k)) := by
    have hplace : dataUnitSize * u + k < dataUnitSize * count := by
      show 512 * u + k < 512 * count
      omega
    rw [getElem?_slice, if_pos hk, bytesOf, List.getElem?_map, List.getElem?_range hplace]
    rfl
  rw [List.getElem_ofFn]
  exact List.getElem_of_getElem? hget |>.2

/-- A cascade over a buffer is one over each of its units. -/
theorem onBuffer_cascade {f : Cipher → Bytes → Bytes → Bytes} {ks : List (Cipher × Bytes × Bytes)}
    (hf : ∀ c k b, (f c k b).length = b.length) (first count : Nat) (buf : Nat → UInt8) :
    onBuffer (dataUnitSize * count) (fun b => ks.foldlM (fun d (c, k, k2) =>
        bufferXTS (f c k) (C.encryptBlock c k2) d (UInt64.ofNat first)) b) buf =
      onUnits (fun n => onUnit (fun b => ks.foldlM (fun d (c, k, k2) =>
        bufferXTS (f c k) (C.encryptBlock c k2) d (UInt64.ofNat n)) b)) first count buf := by
  have hlen : (bytesOf buf (dataUnitSize * count)).length = dataUnitSize * count :=
    length_bytesOf _ _
  have hwhole : (bytesOf buf (dataUnitSize * count)).length % bytesPerXtsBlock = 0 := by
    rw [hlen]
    show 512 * count % 16 = 0
    omega
  rcases foldlM_bufferXTS_isSome hf hwhole (UInt64.ofNat first) ks with ⟨out, hout⟩
  funext i
  rw [onBuffer, hout]
  by_cases hi : i < dataUnitSize * count
  · have hu : i / dataUnitSize < count := Nat.div_lt_of_lt_mul hi
    have hunitLen : (List.ofFn (unitAt dataUnitSize buf (i / dataUnitSize))).length % bytesPerXtsBlock =
        0 := by
      rw [List.length_ofFn]
      decide
    rcases foldlM_bufferXTS_isSome hf hunitLen
      (UInt64.ofNat first + UInt64.ofNat (i / dataUnitSize)) ks with ⟨unit, hunit⟩
    have hslice := slice_cascade hf hout hlen hu (by rw [slice_bytesOf buf hu]; exact hunit)
    rw [← UInt64.ofNat_add] at hunit
    have hpos : 0 < dataUnitSize := Nat.pos_of_neZero dataUnitSize
    have hmod : i % dataUnitSize < dataUnitSize := Nat.mod_lt i hpos
    have hget : out[i]? = unit[i % dataUnitSize]? := by
      rw [← hslice, getElem?_slice, if_pos hmod, Nat.div_add_mod]
    have hon : onUnit (fun b => ks.foldlM (fun d (c, k, k2) =>
        bufferXTS (f c k) (C.encryptBlock c k2) d (UInt64.ofNat (first + i / dataUnitSize))) b)
        (unitAt dataUnitSize buf (i / dataUnitSize)) =
        fun k : Fin dataUnitSize => unit.getD k 0 := onUnit_of_eq_some hunit
    have hleft : (if i < dataUnitSize * count then out.getD i 0 else buf i) =
        unit.getD (i % dataUnitSize) 0 := by
      rw [if_pos hi, List.getD_eq_getElem?_getD, List.getD_eq_getElem?_getD, hget]
    rw [onUnits, if_pos hi, hon]
    exact hleft
  · rw [onUnits, if_neg hi]
    exact if_neg hi

/-- **`EncryptDataUnits` encrypts unit by unit.** -/
theorem onBuffer_encryptDataUnits (first count : Nat) (buf : Nat → UInt8) :
    onBuffer (dataUnitSize * count) (encryptDataUnits C schedule (UInt64.ofNat first)) buf =
      onUnits (dataCipher C schedule).enc first count buf :=
  onBuffer_cascade C.length_encryptBlock first count buf

theorem onBuffer_decryptDataUnits (first count : Nat) (buf : Nat → UInt8) :
    onBuffer (dataUnitSize * count) (decryptDataUnits C schedule (UInt64.ofNat first)) buf =
      onUnits (dataCipher C schedule).dec first count buf :=
  onBuffer_cascade C.length_decryptBlock first count buf

end

end Common

end VeraCrypt
