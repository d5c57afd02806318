import VeraCrypt.Keyslot.StoreSpec

/-!
# The keyslot-area MAC (`Common/KeyslotAreaMac.c`)

Every record of the table is sealed by itself; this MAC seals the set of them. The trailer
behind the slot region holds `HMAC(K_area, "VCKSAREA1" || slotCount || region)`, streamed over
the region in chunks of one stride, and the slot count in clear.

What a verified trailer says is `keyslotAreaMacVerify_ok_iff`; everything else here is read off
it. A change that leaves the tag alone is accepted only where two different inputs have one
HMAC, a change of the tag alone never is. A trailer put back together with the region it was
made for is accepted: the code keeps no state that would tell an old table from the new one.

Offsets are exact here. In C they are `uint64`s, and no medium reaches their end.
-/

set_option autoImplicit false

namespace VeraCrypt

open Lib

/-! ## The functions -/

/-- `KAM_TRAILER_MAGIC`, "VCKSAREA1" -/
def kamTrailerMagic : Bytes := [0x56, 0x43, 0x4b, 0x53, 0x41, 0x52, 0x45, 0x41, 0x31]

def kamTrailerMagicLen : Nat := 9
def kamTrailerVer : UInt8 := 1

/-- `KAM_TRAILER_SIZE` -/
def kamTrailerSize : Nat := kamTrailerMagicLen + 1 + 4 + 32

def kamOk : Int := 0
def kamTampered : Int := -1
def kamNoTrailer : Int := -2
def kamErrIo : Int := -3

/-- The loop of `count_slots` over the slots still to be looked at, with the count so far. -/
def countSlotsFrom (area : KeyslotArea) : List Nat → Nat → Nat
  | [], n => n
  | i :: rest, n =>
    match area.read (i * keyslotTableStride) 4 with
    | none => n
    | some m => countSlotsFrom area rest (if m = ksMagic then (n + 1) % 2 ^ 32 else n)

/-- `count_slots` -/
def countSlots (area : KeyslotArea) (regionLen : Nat) : Nat :=
  countSlotsFrom area (List.range (regionLen / keyslotTableStride)) 0

/-- What the streaming loop feeds the digest from `off` on, in at most `k` chunks. -/
def readChunks (area : KeyslotArea) (regionLen : Nat) : (off k : Nat) → Option Bytes
  | _, 0 => some []
  | off, k + 1 =>
    if off < regionLen then
      let n := min (regionLen - off) keyslotTableStride
      match area.read off n with
      | none => none
      | some buf => (readChunks area regionLen (off + n) k).map (buf ++ ·)
    else some []

/-- The HMAC of the area: a 32-byte key, and a message that begins with `hdr`. -/
def kamHmac (P : Primitives) (kArea msg : Bytes) : Bytes :=
  let k0 := slice kArea 0 32 ++ List.replicate 32 0
  let inner := P.sha256 (k0.map (· ^^^ 0x36) ++ msg)
  P.sha256 (k0.map (· ^^^ 0x5c) ++ inner)

/-- `KeyslotAreaMacCompute`: the tag, or nothing where the region could not be read. -/
def keyslotAreaMacCompute (P : Primitives) (area : KeyslotArea) (regionLen : Nat)
    (kArea : Bytes) : Option Bytes :=
  let hdr := kamTrailerMagic ++ beBytes 4 (countSlots area regionLen)
  match readChunks area regionLen 0
      ((regionLen + keyslotTableStride - 1) / keyslotTableStride) with
  | none => none
  | some region => some (kamHmac P kArea (hdr ++ region))

def kamTrailer (slots : Nat) (tag : Bytes) : Bytes :=
  kamTrailerMagic ++ ([kamTrailerVer] ++ (beBytes 4 slots ++ tag))

/-- `KeyslotAreaMacWrite`: the code, and the area afterwards. -/
def keyslotAreaMacWrite (P : Primitives) (area : KeyslotArea) (regionLen trailerOff : Nat)
    (kArea : Bytes) : Int × KeyslotArea :=
  match keyslotAreaMacCompute P area regionLen kArea with
  | none => (kamErrIo, area)
  | some tag =>
    match area.write trailerOff (kamTrailer (countSlots area regionLen) tag) with
    | (true, area') => (kamOk, area')
    | (false, area') => (kamErrIo, area')

/-- `KeyslotAreaMacVerify` -/
def keyslotAreaMacVerify (P : Primitives) (area : KeyslotArea) (regionLen trailerOff : Nat)
    (kArea : Bytes) : Int :=
  match area.read trailerOff kamTrailerSize with
  | none => kamErrIo
  | some trailer =>
    if slice trailer 0 kamTrailerMagicLen ≠ kamTrailerMagic then kamNoTrailer
    else if slice trailer kamTrailerMagicLen 1 ≠ [kamTrailerVer] then kamNoTrailer
    else
      match keyslotAreaMacCompute P area regionLen kArea with
      | none => kamErrIo
      | some tag =>
        if beNat (slice trailer (kamTrailerMagicLen + 1) 4) ≠ countSlots area regionLen then
          kamTampered
        else if slice trailer (kamTrailerMagicLen + 1 + 4) 32 ≠ tag then kamTampered
        else kamOk

/-! ## What the MAC covers -/

/-- The covered bytes. -/
def kamRegion (area : KeyslotArea) (regionLen : Nat) : Bytes := slice area.bytes 0 regionLen

/-- The number of occupied slots of a region, as a `uint32`. -/
def regionSlots (region : Bytes) : Nat :=
  ((List.range (region.length / keyslotTableStride)).countP
    (fun i => decide (slice region (i * keyslotTableStride) 4 = ksMagic))) % 2 ^ 32

/-- The message that is MACed. -/
def kamInput (region : Bytes) : Bytes :=
  kamTrailerMagic ++ beBytes 4 (regionSlots region) ++ region

/-- The slot count and the tag an area's trailer holds. -/
def kamStoredCount (area : KeyslotArea) (trailerOff : Nat) : Nat :=
  beNat (slice area.bytes (trailerOff + (kamTrailerMagicLen + 1)) 4)

def kamStoredTag (area : KeyslotArea) (trailerOff : Nat) : Bytes :=
  slice area.bytes (trailerOff + (kamTrailerMagicLen + 1 + 4)) 32

section
variable (P : Primitives) {area : KeyslotArea} {regionLen trailerOff : Nat} {kArea : Bytes}

theorem KeyslotArea.eq_of_read {off n : Nat} {buf : Bytes} (h : area.read off n = some buf) :
    off + n ≤ area.size ∧ area.readFails off = false ∧ buf = slice area.bytes off n := by
  obtain ⟨hbuf, hsize⟩ := KeyslotArea.read_eq_some h
  refine ⟨hsize, ?_, hbuf⟩
  unfold KeyslotArea.read at h
  cases hf : area.readFails off with
  | false => rfl
  | true =>
    rw [hf, if_neg (by simp)] at h
    cases h

/-- Chunks that could all be read are the rest of the region, and every stride of it can be
    read from its start. -/
theorem readChunks_eq_some {off k : Nat} {bytes : Bytes}
    (h : readChunks area regionLen off k = some bytes)
    (hk : regionLen ≤ off + k * keyslotTableStride) :
    bytes = slice area.bytes off (regionLen - off) ∧
      (off < regionLen → regionLen ≤ area.size) ∧
      ∀ j, off + j * keyslotTableStride < regionLen →
        area.readFails (off + j * keyslotTableStride) = false := by
  have hstride : keyslotTableStride = 1024 := rfl
  induction k generalizing off bytes with
  | zero =>
    simp only [readChunks, Option.some.injEq] at h
    subst h
    have hz : regionLen - off = 0 := by omega
    refine ⟨by simp [hz, slice], fun hlt => by omega, fun j hj => by omega⟩
  | succ k ih =>
    rw [Nat.succ_mul] at hk
    unfold readChunks at h
    by_cases hoff : off < regionLen
    · rw [if_pos hoff] at h
      cases hread : area.read off (min (regionLen - off) keyslotTableStride) with
      | none => simp [hread] at h
      | some buf =>
        simp only [hread, Option.map_eq_some_iff] at h
        obtain ⟨rest, hrest, rfl⟩ := h
        obtain ⟨hroom, hfails, rfl⟩ := KeyslotArea.eq_of_read hread
        rcases Nat.le_total (regionLen - off) keyslotTableStride with hlast | hmore
        · -- the last chunk: nothing is left behind it
          rw [Nat.min_eq_left hlast] at hrest hroom ⊢
          obtain ⟨hbytes, -, -⟩ := ih hrest (by omega)
          have hnil : rest = [] := by
            rw [hbytes]
            simp [slice, show regionLen - (off + (regionLen - off)) = 0 by omega]
          refine ⟨by rw [hnil, List.append_nil], fun _ => by omega, fun j hj => ?_⟩
          cases j with
          | zero =>
            rw [Nat.zero_mul, Nat.add_zero]
            exact hfails
          | succ j =>
            rw [Nat.succ_mul] at hj
            omega
        · rw [Nat.min_eq_right hmore] at hrest hroom ⊢
          obtain ⟨hbytes, hsize, hstrides⟩ := ih hrest (by omega)
          refine ⟨?_, fun _ => ?_, fun j hj => ?_⟩
          · have hcut : regionLen - off =
                keyslotTableStride + (regionLen - (off + keyslotTableStride)) := by omega
            rw [hbytes, hcut]
            simp only [slice, List.take_add, List.drop_drop]
          · rcases Nat.lt_or_ge (off + keyslotTableStride) regionLen with hlt | hge
            · exact hsize hlt
            · omega
          · cases j with
            | zero =>
              rw [Nat.zero_mul, Nat.add_zero]
              exact hfails
            | succ j =>
              have hoffs : off + (j + 1) * keyslotTableStride =
                  off + keyslotTableStride + j * keyslotTableStride := by
                rw [Nat.succ_mul]
                omega
              rw [hoffs] at hj ⊢
              exact hstrides j hj
    · rw [if_neg hoff, Option.some.injEq] at h
      subst h
      have hz : regionLen - off = 0 := by omega
      exact ⟨by simp [hz, slice], fun hlt => absurd hlt hoff, fun j hj => by omega⟩

/-- A region of a medium that works can be read. -/
theorem readChunks_isSome (hsize : regionLen ≤ area.size)
    (hreads : ∀ o, area.readFails o = false) (off k : Nat) :
    ∃ bytes, readChunks area regionLen off k = some bytes := by
  induction k generalizing off with
  | zero => exact ⟨[], rfl⟩
  | succ k ih =>
    unfold readChunks
    by_cases hoff : off < regionLen
    · rw [if_pos hoff]
      have hroom : off + min (regionLen - off) keyslotTableStride ≤ area.size := by omega
      obtain ⟨rest, hrest⟩ := ih (off + min (regionLen - off) keyslotTableStride)
      simp only [KeyslotArea.read_of_ok hroom (hreads off), hrest, Option.map_some]
      exact ⟨_, rfl⟩
    · exact ⟨[], if_neg hoff⟩

/-- Slots that can all be read are counted as the region has them. -/
theorem countSlotsFrom_eq {l : List Nat} (hsize : regionLen ≤ area.size)
    (hl : ∀ i ∈ l, i * keyslotTableStride + keyslotTableStride ≤ regionLen ∧
      area.readFails (i * keyslotTableStride) = false) (n : Nat) :
    countSlotsFrom area l n % 2 ^ 32 = (n + l.countP (fun i => decide
      (slice (kamRegion area regionLen) (i * keyslotTableStride) 4 = ksMagic))) % 2 ^ 32 := by
  have hstride : keyslotTableStride = 1024 := rfl
  induction l generalizing n with
  | nil => rfl
  | cons i rest ih =>
    obtain ⟨hroom, hfails⟩ := hl i (by simp)
    have hread : area.read (i * keyslotTableStride) 4 =
        some (slice area.bytes (i * keyslotTableStride) 4) :=
      KeyslotArea.read_of_ok (by omega) hfails
    have hin : slice (kamRegion area regionLen) (i * keyslotTableStride) 4 =
        slice area.bytes (i * keyslotTableStride) 4 := by
      rw [kamRegion, slice_slice (by omega), Nat.zero_add]
    have hrest := ih (fun j hj => hl j (by simp [hj]))
    simp only [countSlotsFrom, hread, List.countP_cons, hin]
    by_cases hm : slice area.bytes (i * keyslotTableStride) 4 = ksMagic
    · simp only [hm, if_true, hrest, decide_true]
      omega
    · simp only [hm, if_false, hrest, decide_false]
      rfl

theorem countSlotsFrom_lt {l : List Nat} {n : Nat} (h : n < 2 ^ 32) :
    countSlotsFrom area l n < 2 ^ 32 := by
  induction l generalizing n with
  | nil => exact h
  | cons i rest ih =>
    unfold countSlotsFrom
    cases area.read (i * keyslotTableStride) 4 with
    | none => exact h
    | some m =>
      apply ih
      by_cases hm : m = ksMagic
      · rw [if_pos hm]
        exact Nat.mod_lt _ (by decide)
      · rw [if_neg hm]
        exact h

theorem length_kamRegion (h : regionLen ≤ area.size) :
    (kamRegion area regionLen).length = regionLen :=
  length_slice (by rw [Nat.zero_add]; exact h)

/-- **What a computed tag is**: the HMAC of the region and of the count of its slots. -/
theorem keyslotAreaMacCompute_eq_some {tag : Bytes}
    (h : keyslotAreaMacCompute P area regionLen kArea = some tag) :
    tag = kamHmac P kArea (kamInput (kamRegion area regionLen)) ∧
      countSlots area regionLen = regionSlots (kamRegion area regionLen) := by
  have hstride : keyslotTableStride = 1024 := rfl
  unfold keyslotAreaMacCompute at h
  cases hread : readChunks area regionLen 0
      ((regionLen + keyslotTableStride - 1) / keyslotTableStride) with
  | none => simp [hread] at h
  | some region =>
    have hcover : regionLen ≤
        0 + (regionLen + keyslotTableStride - 1) / keyslotTableStride * keyslotTableStride := by
      rw [hstride]
      omega
    obtain ⟨hregion, hsize, hfails⟩ := readChunks_eq_some hread hcover
    have hle : regionLen ≤ area.size := by
      rcases Nat.eq_zero_or_pos regionLen with hz | hpos
      · omega
      · exact hsize hpos
    have hcount : countSlots area regionLen = regionSlots (kamRegion area regionLen) := by
      have hreads : ∀ i ∈ List.range (regionLen / keyslotTableStride),
          i * keyslotTableStride + keyslotTableStride ≤ regionLen ∧
            area.readFails (i * keyslotTableStride) = false := by
        intro i hi
        have hlt := List.mem_range.mp hi
        have hbound : i * keyslotTableStride + keyslotTableStride ≤ regionLen := by
          rw [hstride] at hlt ⊢
          omega
        have hf := hfails i (by omega)
        rw [Nat.zero_add] at hf
        exact ⟨hbound, hf⟩
      have hfrom := countSlotsFrom_eq hle hreads 0
      have hlt : countSlotsFrom area (List.range (regionLen / keyslotTableStride)) 0 < 2 ^ 32 :=
        countSlotsFrom_lt (by decide)
      rw [Nat.mod_eq_of_lt hlt, Nat.zero_add] at hfrom
      rw [countSlots, hfrom, regionSlots, length_kamRegion hle]
    simp only [hread, Option.some.injEq] at h
    rw [← h, hregion, hcount]
    exact ⟨rfl, rfl⟩

theorem length_kamHmac (msg : Bytes) : (kamHmac P kArea msg).length = 32 := P.length_sha256 _

/-! ## What verify answers -/

/-- The trailer's parts, read from the area itself. -/
theorem slice_trailer (area : KeyslotArea) (trailerOff : Nat) {k n : Nat}
    (h : k + n ≤ kamTrailerSize) :
    slice (slice area.bytes trailerOff kamTrailerSize) k n =
      slice area.bytes (trailerOff + k) n :=
  slice_slice h

/-- **What a verified trailer says.** -/
theorem keyslotAreaMacVerify_ok
    (h : keyslotAreaMacVerify P area regionLen trailerOff kArea = kamOk) :
    kamStoredCount area trailerOff = regionSlots (kamRegion area regionLen) ∧
      kamStoredTag area trailerOff = kamHmac P kArea (kamInput (kamRegion area regionLen)) := by
  unfold keyslotAreaMacVerify at h
  cases hread : area.read trailerOff kamTrailerSize with
  | none =>
    simp only [hread] at h
    exact absurd h (by decide)
  | some trailer =>
    obtain ⟨-, -, rfl⟩ := KeyslotArea.eq_of_read hread
    simp only [hread] at h
    by_cases hmagic : slice (slice area.bytes trailerOff kamTrailerSize) 0 kamTrailerMagicLen ≠
        kamTrailerMagic
    · rw [if_pos hmagic] at h
      exact absurd h (by decide)
    rw [if_neg hmagic] at h
    by_cases hver : slice (slice area.bytes trailerOff kamTrailerSize) kamTrailerMagicLen 1 ≠
        [kamTrailerVer]
    · rw [if_pos hver] at h
      exact absurd h (by decide)
    rw [if_neg hver] at h
    cases hcomp : keyslotAreaMacCompute P area regionLen kArea with
    | none =>
      simp only [hcomp] at h
      exact absurd h (by decide)
    | some tag =>
      obtain ⟨htag, hcount⟩ := keyslotAreaMacCompute_eq_some P hcomp
      have hcountAt := @slice_trailer area trailerOff (kamTrailerMagicLen + 1) 4 (by decide)
      have htagAt := @slice_trailer area trailerOff (kamTrailerMagicLen + 1 + 4) 32 (by decide)
      simp only [hcomp, hcountAt, htagAt] at h
      by_cases hc : beNat (slice area.bytes (trailerOff + (kamTrailerMagicLen + 1)) 4) ≠
          countSlots area regionLen
      · rw [if_pos hc] at h
        exact absurd h (by decide)
      rw [if_neg hc] at h
      by_cases ht : slice area.bytes (trailerOff + (kamTrailerMagicLen + 1 + 4)) 32 ≠ tag
      · rw [if_pos ht] at h
        exact absurd h (by decide)
      exact ⟨(not_not.mp hc).trans hcount, (not_not.mp ht).trans htag⟩

theorem length_kamTrailer (slots : Nat) {tag : Bytes} (h : tag.length = 32) :
    (kamTrailer slots tag).length = kamTrailerSize := by
  simp only [kamTrailer, List.length_append, length_beBytes, h]
  rfl

/-- Reads in front of the trailer do not see it. -/
theorem read_put_trailer {trailer : Bytes} {off n : Nat}
    (hfit : trailerOff + trailer.length ≤ area.size) (h : off + n ≤ trailerOff) :
    (area.put trailerOff trailer).read off n = area.read off n := by
  have hlen : (area.put trailerOff trailer).size = area.size := length_patch hfit
  have hle : trailerOff ≤ area.bytes.length := by
    have : area.size = area.bytes.length := rfl
    omega
  have hslice : slice (area.put trailerOff trailer).bytes off n = slice area.bytes off n :=
    slice_patch_disjoint hle (Or.inl h)
  simp only [KeyslotArea.read, hlen, hslice]
  rfl

theorem readChunks_put_trailer {trailer : Bytes} {off k : Nat}
    (hfit : trailerOff + trailer.length ≤ area.size) (hout : regionLen ≤ trailerOff) :
    readChunks (area.put trailerOff trailer) regionLen off k = readChunks area regionLen off k := by
  induction k generalizing off with
  | zero => rfl
  | succ k ih =>
    unfold readChunks
    by_cases hoff : off < regionLen
    · have hin : off + min (regionLen - off) keyslotTableStride ≤ trailerOff := by omega
      have hread := read_put_trailer hfit hin
      simp only [if_pos hoff, hread, ih]
    · rw [if_neg hoff, if_neg hoff]

theorem countSlots_put_trailer {trailer : Bytes}
    (hfit : trailerOff + trailer.length ≤ area.size) (hout : regionLen ≤ trailerOff) :
    countSlots (area.put trailerOff trailer) regionLen = countSlots area regionLen := by
  have hstride : keyslotTableStride = 1024 := rfl
  have hfrom : ∀ (l : List Nat) (n : Nat), (∀ i ∈ l, i < regionLen / keyslotTableStride) →
      countSlotsFrom (area.put trailerOff trailer) l n = countSlotsFrom area l n := by
    intro l
    induction l with
    | nil => exact fun n _ => rfl
    | cons i rest ih =>
      intro n hl
      have hi := hl i (by simp)
      have hroom : i * keyslotTableStride + 4 ≤ trailerOff := by
        rw [hstride] at hi ⊢
        omega
      unfold countSlotsFrom
      rw [read_put_trailer hfit hroom]
      cases area.read (i * keyslotTableStride) 4 with
      | none => rfl
      | some m => exact ih _ (fun j hj => hl j (by simp [hj]))
  exact hfrom _ 0 (fun i hi => List.mem_range.mp hi)

theorem keyslotAreaMacCompute_put_trailer {trailer : Bytes}
    (hfit : trailerOff + trailer.length ≤ area.size) (hout : regionLen ≤ trailerOff) :
    keyslotAreaMacCompute P (area.put trailerOff trailer) regionLen kArea =
      keyslotAreaMacCompute P area regionLen kArea := by
  unfold keyslotAreaMacCompute
  rw [countSlots_put_trailer hfit hout, readChunks_put_trailer hfit hout]

/-- **What a write leaves**: the trailer of the area's own tag, and nothing else changed. -/
theorem keyslotAreaMacWrite_ok
    (h : (keyslotAreaMacWrite P area regionLen trailerOff kArea).1 = kamOk) :
    ∃ tag, keyslotAreaMacCompute P area regionLen kArea = some tag ∧ tag.length = 32 ∧
      trailerOff + kamTrailerSize ≤ area.size ∧
      (keyslotAreaMacWrite P area regionLen trailerOff kArea).2 =
        area.put trailerOff (kamTrailer (countSlots area regionLen) tag) := by
  unfold keyslotAreaMacWrite at h ⊢
  cases hcomp : keyslotAreaMacCompute P area regionLen kArea with
  | none =>
    simp only [hcomp] at h
    exact absurd h (by decide)
  | some tag =>
    have htag : tag.length = 32 := by
      rw [(keyslotAreaMacCompute_eq_some P hcomp).1]
      exact length_kamHmac P _
    have htrailer := length_kamTrailer (countSlots area regionLen) htag
    simp only [hcomp, KeyslotArea.write, htrailer] at h ⊢
    by_cases hroom : trailerOff + kamTrailerSize ≤ area.size
    · simp only [if_pos hroom] at h ⊢
      cases hf : area.writeFault trailerOff with
      | none => exact ⟨tag, rfl, htag, hroom, rfl⟩
      | some k =>
        simp only [hf] at h
        exact absurd h (by decide)
    · simp only [if_neg hroom] at h
      exact absurd h (by decide)

/-- A medium that works takes the trailer. -/
theorem keyslotAreaMacWrite_of_works (hout : regionLen ≤ trailerOff)
    (hroom : trailerOff + kamTrailerSize ≤ area.size) (hreads : ∀ o, area.readFails o = false)
    (hwrite : area.writeFault trailerOff = none) :
    (keyslotAreaMacWrite P area regionLen trailerOff kArea).1 = kamOk := by
  have hle : regionLen ≤ area.size := by omega
  obtain ⟨region, hregion⟩ := readChunks_isSome hle hreads 0
    ((regionLen + keyslotTableStride - 1) / keyslotTableStride)
  have hcomp : keyslotAreaMacCompute P area regionLen kArea =
      some (kamHmac P kArea (kamTrailerMagic ++ beBytes 4 (countSlots area regionLen) ++ region)) := by
    unfold keyslotAreaMacCompute
    simp only [hregion]
  have htag := @length_kamHmac P kArea
    (kamTrailerMagic ++ beBytes 4 (countSlots area regionLen) ++ region)
  have htrailer := length_kamTrailer (countSlots area regionLen) htag
  unfold keyslotAreaMacWrite
  simp only [hcomp, KeyslotArea.write, htrailer, if_pos hroom, hwrite]

theorem slice_kamTrailer_count (slots : Nat) (tag : Bytes) :
    slice (kamTrailer slots tag) (kamTrailerMagicLen + 1) 4 = beBytes 4 slots := by
  refine slice_of_eq_append (p := kamTrailerMagic ++ [kamTrailerVer]) (q := tag) ?_ rfl
    (length_beBytes 4 _).symm
  simp only [kamTrailer, List.append_assoc]

theorem slice_kamTrailer_tag (slots : Nat) {tag : Bytes} (h : tag.length = 32) :
    slice (kamTrailer slots tag) (kamTrailerMagicLen + 1 + 4) 32 = tag := by
  refine slice_of_eq_append (p := kamTrailerMagic ++ ([kamTrailerVer] ++ beBytes 4 slots))
    (q := []) ?_ ?_ h.symm
  · simp only [kamTrailer, List.append_assoc, List.append_nil]
  · rw [List.length_append, List.length_append, length_beBytes]
    rfl

/-- The trailer a write leaves, part by part. -/
theorem keyslotAreaMacWrite_stored (hout : regionLen ≤ trailerOff)
    (h : (keyslotAreaMacWrite P area regionLen trailerOff kArea).1 = kamOk) :
    kamStoredCount (keyslotAreaMacWrite P area regionLen trailerOff kArea).2 trailerOff =
        regionSlots (kamRegion (keyslotAreaMacWrite P area regionLen trailerOff kArea).2
          regionLen) ∧
      kamStoredTag (keyslotAreaMacWrite P area regionLen trailerOff kArea).2 trailerOff =
        kamHmac P kArea (kamInput
          (kamRegion (keyslotAreaMacWrite P area regionLen trailerOff kArea).2 regionLen)) := by
  obtain ⟨tag, hcomp, htag, hroom, harea⟩ := keyslotAreaMacWrite_ok P h
  obtain ⟨heq, hslots⟩ := keyslotAreaMacCompute_eq_some P hcomp
  have hlen := length_kamTrailer (countSlots area regionLen) htag
  have hle : trailerOff ≤ area.bytes.length := by
    have : area.size = area.bytes.length := rfl
    omega
  have hregion : kamRegion (area.put trailerOff (kamTrailer (countSlots area regionLen) tag))
      regionLen = kamRegion area regionLen :=
    slice_patch_disjoint hle (Or.inl (by omega))
  -- a count of slots is a `uint32`, so the four bytes hold all of it
  have hsmall : countSlots area regionLen % 256 ^ 4 = countSlots area regionLen := by
    apply Nat.mod_eq_of_lt
    rw [hslots]
    exact Nat.mod_lt _ (by decide)
  rw [harea, hregion]
  constructor
  · have hcount : kamStoredCount (area.put trailerOff
        (kamTrailer (countSlots area regionLen) tag)) trailerOff =
        beNat (slice (kamTrailer (countSlots area regionLen) tag) (kamTrailerMagicLen + 1) 4) :=
      congrArg beNat (slice_patch_within hle (by rw [hlen]; decide))
    rw [hcount, slice_kamTrailer_count, beNat_beBytes, hsmall, hslots]
  · have hstored : kamStoredTag (area.put trailerOff
        (kamTrailer (countSlots area regionLen) tag)) trailerOff =
        slice (kamTrailer (countSlots area regionLen) tag) (kamTrailerMagicLen + 1 + 4) 32 :=
      slice_patch_within hle (by rw [hlen]; decide)
    rw [hstored, slice_kamTrailer_tag _ htag, heq]

/-- **A written area verifies**, as long as its trailer can be read. -/
theorem keyslotAreaMacVerify_write (hout : regionLen ≤ trailerOff)
    (h : (keyslotAreaMacWrite P area regionLen trailerOff kArea).1 = kamOk)
    (hread : area.readFails trailerOff = false) :
    keyslotAreaMacVerify P (keyslotAreaMacWrite P area regionLen trailerOff kArea).2 regionLen
      trailerOff kArea = kamOk := by
  obtain ⟨hcount, hstored⟩ := keyslotAreaMacWrite_stored P hout h
  obtain ⟨tag, hcomp, htag, hroom, harea⟩ := keyslotAreaMacWrite_ok P h
  have hlen := length_kamTrailer (countSlots area regionLen) htag
  have hfit : trailerOff + (kamTrailer (countSlots area regionLen) tag).length ≤ area.size := by
    rw [hlen]
    exact hroom
  have hle : trailerOff ≤ area.bytes.length := by
    have : area.size = area.bytes.length := rfl
    omega
  rw [harea] at hcount hstored ⊢
  have hcomp' : keyslotAreaMacCompute P
      (area.put trailerOff (kamTrailer (countSlots area regionLen) tag)) regionLen kArea =
        some tag := by
    rw [keyslotAreaMacCompute_put_trailer P hfit hout, hcomp]
  obtain ⟨heq, hslots⟩ := keyslotAreaMacCompute_eq_some P hcomp'
  have hsize : (area.put trailerOff (kamTrailer (countSlots area regionLen) tag)).size =
      area.size := length_patch hfit
  have hin : trailerOff + kamTrailerSize ≤
      (area.put trailerOff (kamTrailer (countSlots area regionLen) tag)).size := by
    rw [hsize]
    exact hroom
  have hback := KeyslotArea.read_of_ok hin hread
  have htrailer : slice (area.put trailerOff (kamTrailer (countSlots area regionLen) tag)).bytes
      trailerOff kamTrailerSize = kamTrailer (countSlots area regionLen) tag :=
    slice_patch_self hle hlen.symm
  have hmagic : slice (kamTrailer (countSlots area regionLen) tag) 0 kamTrailerMagicLen =
      kamTrailerMagic := slice_of_eq_append (p := []) rfl rfl rfl
  have hver : slice (kamTrailer (countSlots area regionLen) tag) kamTrailerMagicLen 1 =
      [kamTrailerVer] := slice_of_eq_append (p := kamTrailerMagic) rfl rfl rfl
  have hcountAt := @slice_trailer (area.put trailerOff
    (kamTrailer (countSlots area regionLen) tag)) trailerOff (kamTrailerMagicLen + 1) 4 (by decide)
  have htagAt := @slice_trailer (area.put trailerOff
    (kamTrailer (countSlots area regionLen) tag)) trailerOff (kamTrailerMagicLen + 1 + 4) 32
    (by decide)
  unfold kamStoredCount at hcount
  unfold kamStoredTag at hstored
  unfold keyslotAreaMacVerify
  simp only [hback, hcomp', hslots, hcountAt, htagAt, hcount, hstored, ← heq]
  rw [htrailer, hmagic, hver]
  simp only [ne_eq, not_true_eq_false, if_false]

/-! ## The area MAC -/

/-- Two regions of which one has the input of the other are one region. -/
theorem kamInput_inj {r r' : Bytes} (h : kamInput r = kamInput r') : r = r' := by
  have hparts := List.append_inj_right h (by simp only [List.length_append, length_beBytes])
  exact hparts

/-- **The area MAC.** A medium that works takes the trailer; a written area verifies; and of an
    area changed afterwards a verify can only say yes

    * where the tag is the old one: if the old and the new input, which differ, have one HMAC;
    * where the region is the old one: if count and tag are the old ones;
    * in any case: if the tag it holds is the HMAC of the region it holds. -/
theorem keyslotAreaMac_sound (hout : regionLen ≤ trailerOff) :
    (trailerOff + kamTrailerSize ≤ area.size → (∀ o, area.readFails o = false) →
      area.writeFault trailerOff = none →
      (keyslotAreaMacWrite P area regionLen trailerOff kArea).1 = kamOk) ∧
    ∀ written, keyslotAreaMacWrite P area regionLen trailerOff kArea = (kamOk, written) →
      (area.readFails trailerOff = false →
        keyslotAreaMacVerify P written regionLen trailerOff kArea = kamOk) ∧
      ∀ changed, keyslotAreaMacVerify P changed regionLen trailerOff kArea = kamOk →
        (kamStoredTag changed trailerOff = kamStoredTag written trailerOff →
          kamRegion changed regionLen ≠ kamRegion written regionLen ∨
            kamStoredCount changed trailerOff ≠ kamStoredCount written trailerOff →
          kamInput (kamRegion changed regionLen) ≠ kamInput (kamRegion written regionLen) ∧
            kamHmac P kArea (kamInput (kamRegion changed regionLen)) =
              kamHmac P kArea (kamInput (kamRegion written regionLen))) ∧
        (kamRegion changed regionLen = kamRegion written regionLen →
          kamStoredCount changed trailerOff = kamStoredCount written trailerOff ∧
            kamStoredTag changed trailerOff = kamStoredTag written trailerOff) ∧
        kamStoredTag changed trailerOff =
          kamHmac P kArea (kamInput (kamRegion changed regionLen)) := by
  refine ⟨fun hroom hreads hwrite => keyslotAreaMacWrite_of_works P hout hroom hreads hwrite, ?_⟩
  intro written hwritten
  have hok : (keyslotAreaMacWrite P area regionLen trailerOff kArea).1 = kamOk := by rw [hwritten]
  have hstored := keyslotAreaMacWrite_stored P hout hok
  rw [hwritten] at hstored
  refine ⟨fun hread => ?_, fun changed hverify => ?_⟩
  · have hv := keyslotAreaMacVerify_write P hout hok hread
    rwa [hwritten] at hv
  · obtain ⟨hcount, htag⟩ := keyslotAreaMacVerify_ok P hverify
    refine ⟨fun hsame hchange => ⟨fun hinput => ?_, ?_⟩, fun hregion => ?_, htag⟩
    · have hregion := kamInput_inj hinput
      rcases hchange with hr | hc
      · exact hr hregion
      · exact hc (by rw [hcount, hstored.1, hregion])
    · rw [← htag, hsame, hstored.2]
    · exact ⟨by rw [hcount, hstored.1, hregion], by rw [htag, hstored.2, hregion]⟩

end

/-! ## A run -/

namespace KamDemo

def key : Bytes := List.replicate 32 7

/-- A medium with eight bytes of table and room for a trailer behind them. -/
def area : KeyslotArea := KeyslotArea.blank 54

def older : KeyslotArea := (keyslotAreaMacWrite Primitives.demo area 8 8 key).2

/-- The table with one byte changed, under a trailer of its own. -/
def newer : KeyslotArea := (keyslotAreaMacWrite Primitives.demo (older.put 0 [1]) 8 8 key).2

theorem keyslotAreaMac_sound_demo :
    (keyslotAreaMacWrite Primitives.demo area 8 8 key).1 = kamOk ∧
      keyslotAreaMacVerify Primitives.demo older 8 8 key = kamOk := by
  have hsound := @keyslotAreaMac_sound Primitives.demo area 8 8 key (Nat.le_refl 8)
  have hwrite := hsound.1 (by decide) (fun _ => rfl) rfl
  exact ⟨hwrite, (hsound.2 older (Prod.ext hwrite rfl)).1 rfl⟩

/-- An older table put back with the trailer it had: region and tag have changed, the two
    inputs do not collide, and the area verifies. -/
theorem rollback_verifies :
    (keyslotAreaMacWrite Primitives.demo (older.put 0 [1]) 8 8 key).1 = kamOk ∧
      kamRegion older 8 ≠ kamRegion newer 8 ∧ kamStoredTag older 8 ≠ kamStoredTag newer 8 ∧
      kamHmac Primitives.demo key (kamInput (kamRegion older 8)) ≠
        kamHmac Primitives.demo key (kamInput (kamRegion newer 8)) ∧
      keyslotAreaMacVerify Primitives.demo older 8 8 key = kamOk := by
  decide +kernel

end KamDemo

end VeraCrypt
