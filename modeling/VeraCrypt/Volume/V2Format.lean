import VeraCrypt.Keyslot.Wrap
import VeraCrypt.Lib.Endian

/-!
# The version 2 sector authentication (`Common/V2Format.c`)

    K_mac[mode] = HMAC-SHA256(masterKey, "VeraCrypt/v2/mac/" || mode)
    tag_i       = HMAC-SHA256(K_mac, le64(i) || ciphertext_i)[0..16)

Nothing on disk says that a volume carries tags, or which mode they belong to: at mount the tag
of sector 0 is recomputed under the key of each mode.
-/

set_option autoImplicit false

namespace VeraCrypt

open Lib

def v2MacTagLen : Nat := 16
def v2KeyLen : Nat := 32

/-- `V2Mode` without `V2_MODE_NONE`, which is `none` of an option. -/
inductive V2Mode where
  | hctr2 | adiantum
  deriving DecidableEq

/-- `v2_hmac_sha256`: the construction of `ks_hmac_sha256` over one message. -/
def v2HmacSha256 (P : Primitives) (key msg : Bytes) : Bytes := ksHmacSha256 P key msg []

/-- `V2FormatModeLabel`, in ASCII. -/
def v2FormatModeLabel (mode : V2Mode) : Bytes :=
  let stem : Bytes := [0x56, 0x65, 0x72, 0x61, 0x43, 0x72, 0x79, 0x70, 0x74, 0x2f, 0x76, 0x32,
    0x2f, 0x6d, 0x61, 0x63, 0x2f]
  match mode with
  | .hctr2 => stem ++ [0x68, 0x63, 0x74, 0x72, 0x32]
  | .adiantum => stem ++ [0x61, 0x64, 0x69, 0x61, 0x6e, 0x74, 0x75, 0x6d]

def v2FormatDeriveModeKey (P : Primitives) (masterKey : Bytes) (mode : V2Mode) : Bytes :=
  v2HmacSha256 P masterKey (v2FormatModeLabel mode)

def v2FormatSectorTag (P : Primitives) (macKey : Bytes) (index : UInt64) (ct : Bytes) : Bytes :=
  (ksHmacSha256 P macKey (leBytes 8 index.toNat) ct).take v2MacTagLen

def v2FormatSectorVerify (P : Primitives) (macKey : Bytes) (index : UInt64) (ct tag : Bytes) :
    Bool :=
  ctEqual (v2FormatSectorTag P macKey index ct) tag

/-- `V2FormatDiscoverMode`: every mode is tried, and the last one that verifies is found. -/
def v2FormatDiscoverMode (P : Primitives) (masterKey sector0Ct storedTag : Bytes) :
    Option V2Mode :=
  [V2Mode.hctr2, V2Mode.adiantum].foldl (fun found mode =>
    if v2FormatSectorVerify P (v2FormatDeriveModeKey P masterKey mode) 0 sector0Ct storedTag then
      some mode
    else found) none

/-! ## Where the table lies -/

/-- A sector size of 0 stands for 512. -/
def v2SectorBytes (sectorSize : UInt32) : UInt64 :=
  if sectorSize = 0 then 512 else sectorSize.toUInt64

/-- `V2FormatMacTableBytes`: one slot for each data sector, in whole sectors. -/
def v2FormatMacTableBytes (dataSectors : UInt64) (sectorSize : UInt32) : UInt64 :=
  let raw := dataSectors * UInt64.ofNat v2MacTagLen
  let ss := v2SectorBytes sectorSize
  (raw + ss - 1) / ss * ss

/-- The test in the loop of `V2FormatSplitDataArea`. -/
def v2SplitFits (ss totalSectors usableSectors : UInt64) : Bool :=
  usableSectors + (usableSectors * UInt64.ofNat v2MacTagLen + ss - 1) / ss ≤ totalSectors

/-- The loop of `V2FormatSplitDataArea`, counting down. -/
def v2SplitLoop (ss totalSectors : UInt64) : (usableSectors : Nat) → Option UInt64
  | 0 => if v2SplitFits ss totalSectors 0 then some 0 else none
  | n + 1 =>
    if v2SplitFits ss totalSectors (UInt64.ofNat (n + 1)) then some (UInt64.ofNat (n + 1))
    else v2SplitLoop ss totalSectors n

/-- `V2FormatSplitDataArea`: the usable bytes and the offset of the table behind them; `none`
    is the return value 1. -/
def v2FormatSplitDataArea (totalDataBytes : UInt64) (sectorSize : UInt32) :
    Option (UInt64 × UInt64) :=
  let ss := v2SectorBytes sectorSize
  if totalDataBytes < 2 * ss then none
  else
    let totalSectors := totalDataBytes / ss
    match v2SplitLoop ss totalSectors totalSectors.toNat with
    | none => none
    | some usableSectors =>
      if usableSectors = 0 then none else some (usableSectors * ss, usableSectors * ss)

/-- `V2FormatSlotOffset`. -/
def v2FormatSlotOffset (index : UInt64) : UInt64 := index * UInt64.ofNat v2MacTagLen

@[simp] theorem length_v2FormatSectorTag (P : Primitives) (macKey : Bytes) (index : UInt64)
    (ct : Bytes) : (v2FormatSectorTag P macKey index ct).length = v2MacTagLen := by
  rw [v2FormatSectorTag, List.length_take, length_ksHmacSha256]
  rfl

@[simp] theorem length_v2FormatDeriveModeKey (P : Primitives) (masterKey : Bytes)
    (mode : V2Mode) : (v2FormatDeriveModeKey P masterKey mode).length = v2KeyLen :=
  length_ksHmacSha256 P _ _ _

end VeraCrypt
