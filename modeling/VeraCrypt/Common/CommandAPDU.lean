import VeraCrypt.Crypto.Primitives
import VeraCrypt.Lib.Region

/-!
# Command APDUs (`Common/CommandAPDU.cpp`)

`init` lays a command out as bytes in the short or the extended form of ISO 7816-4, and the
constructor from bytes takes such a vector apart again. What `parse` reads before its labels is
right: it accepts the vectors that are a command in one of the forms and no others
(`dispatch_iff`), with the fields that were laid out. Its label `success` runs into `failure`,
though, which clears the object: no accepted vector is kept (`codec_meets_iff`).
-/

set_option autoImplicit false

namespace VeraCrypt
namespace Apdu

open Lib

structure CommandAPDU where
  apdu : Bytes
  nc : Nat
  ne : Nat
  dataOffset : Nat
  isExtendedAPDU : Bool
  parsingErrorStr : String
  parsedSuccessfully : Bool

/-! ## The object -/

/-- `CommandAPDU ()` -/
def CommandAPDU.new : CommandAPDU := ⟨[], 0, 0, 0, false, "", false⟩

namespace CommandAPDU

def clear (o : CommandAPDU) : CommandAPDU :=
  { o with apdu := [], nc := 0, ne := 0, dataOffset := 0 }

def byte (o : CommandAPDU) (i : Nat) : UInt8 := o.apdu.getD i 0

def getData (o : CommandAPDU) : Bytes := if o.nc > 0 then slice o.apdu o.dataOffset o.nc else []

def isValid (o : CommandAPDU) : Bool := o.parsedSuccessfully

/-- The labels of `parse`. -/
inductive Label where
  | success | failure
  deriving DecidableEq

def fail (o : CommandAPDU) (parsingErrorStr : String) : CommandAPDU × Label :=
  ({ o with parsingErrorStr := parsingErrorStr }, .failure)

/-- The cases of `parse` where the first length byte is not zero. -/
def dispatchShort (o : CommandAPDU) (size l1 short long : Nat) : CommandAPDU × Label :=
  if size = short then ({ o with nc := l1, dataOffset := 5 }, .success)
  else if size = long then
    let l2 := (o.byte (size - 1)).toNat
    ({ o with nc := l1, dataOffset := 5, ne := if l2 = 0 then 256 else l2 }, .success)
  else
    o.fail (s!"Invalid APDU : b1 = {l1}, expected length to be {short} or {long}" ++
      s!", got {size}")

/-- The cases of the extended form. -/
def dispatchExtended (o : CommandAPDU) (size l1 l2 short long : Nat) : CommandAPDU × Label :=
  if size = 7 then
    ({ o with ne := if l2 = 0 then 65536 else l2, isExtendedAPDU := true }, .success)
  else if l2 = 0 then
    o.fail s!"Invalid APDU: b1 = {l1}, b2||b3 = {l2}, length = {size}"
  else if size = short then
    ({ o with nc := l2, dataOffset := 7, isExtendedAPDU := true }, .success)
  else if size = long then
    let leOfs := size - 2
    let l3 := (o.byte leOfs).toNat * 2 ^ 8 + (o.byte (leOfs + 1)).toNat
    ({ o with
        nc := l2
        dataOffset := 7
        ne := if l3 = 0 then 65536 else l3
        isExtendedAPDU := true }, .success)
  else
    o.fail (s!"Invalid APDU : b1 = {l1}, b2||b3 = {l2}" ++
      s!", expected length to be {short} or {long}, got {size}")

/-- `parse` on a vector of `size` bytes, up to one of its labels. -/
def dispatchSize (o : CommandAPDU) (size l1 l2 : Nat) : CommandAPDU × Label :=
  if size < 4 then o.fail s!"APDU must be at least 4 bytes long - Length = {size}"
  else if size = 4 then (o, .success)
  else if size = 5 then ({ o with ne := if l1 = 0 then 256 else l1 }, .success)
  else if l1 ≠ 0 then o.dispatchShort size l1 (4 + 1 + l1) (4 + 2 + l1)
  else if size < 7 then
    o.fail s!"Invalid APDU : b1 = {l1}, expected length to be >= 7 , got {size}"
  else o.dispatchExtended size l1 l2 (4 + 3 + l2) (4 + 5 + l2)

/-- `parse` up to one of its labels. The bytes are read where the vector has them. -/
def dispatch (o : CommandAPDU) : CommandAPDU × Label :=
  let o := { o with parsingErrorStr := "", parsedSuccessfully := false }
  o.dispatchSize o.apdu.length (o.byte 4).toNat ((o.byte 5).toNat * 2 ^ 8 + (o.byte 6).toNat)

/-- `parse`: there is no jump between its labels. -/
def parse (o : CommandAPDU) : CommandAPDU :=
  match o.dispatch with
  | (o, .success) => clear { o with parsedSuccessfully := true }
  | (o, .failure) => clear o

/-- `CommandAPDU (const vector<uint8>& apdu)` -/
def ofVector (apdu : Bytes) : CommandAPDU := parse { CommandAPDU.new with apdu := apdu }

/-- `m_apdu.resize (size, 0)` -/
def resize (o : CommandAPDU) (size : Nat) : CommandAPDU :=
  { o with apdu := o.apdu.take size ++ List.replicate (size - o.apdu.length) 0 }

def setByte (o : CommandAPDU) (i : Nat) (b : UInt8) : CommandAPDU :=
  { o with apdu := o.apdu.set i b }

def setHeader (o : CommandAPDU) (cla ins p1 p2 : UInt8) : CommandAPDU :=
  (((o.setByte 0 cla).setByte 1 ins).setByte 2 p1).setByte 3 p2

/-- The two bytes of a length in the extended form. -/
def setLength (o : CommandAPDU) (i n : Nat) : CommandAPDU :=
  (o.setByte i (UInt8.ofNat (n / 2 ^ 8))).setByte (i + 1) (UInt8.ofNat n)

/-- `memcpy` to the data of the command. -/
def copyData (o : CommandAPDU) (off : Nat) (data : Bytes) : CommandAPDU :=
  { o with dataOffset := off, apdu := patch o.apdu off data }

/-- The cases of `init`, once the lengths are set. -/
def layOut (o : CommandAPDU) (cla ins p1 p2 : UInt8) (data : Bytes) (ne : Nat) : CommandAPDU :=
  let dataLength := data.length
  if dataLength = 0 then
    if ne = 0 then (o.resize 4).setHeader cla ins p1 p2
    else if ne ≤ 256 then
      let len := if ne ≠ 256 then UInt8.ofNat ne else 0
      ((o.resize 5).setHeader cla ins p1 p2).setByte 4 len
    else
      let o := (o.resize 7).setHeader cla ins p1 p2
      let o := o.setLength 5 (if ne = 65536 then 0 else ne)
      { o with isExtendedAPDU := true }
  else if ne = 0 then
    if dataLength ≤ 255 then
      let o := (o.resize (4 + 1 + dataLength)).setHeader cla ins p1 p2
      (o.setByte 4 (UInt8.ofNat dataLength)).copyData 5 data
    else
      let o := (o.resize (4 + 3 + dataLength)).setHeader cla ins p1 p2
      let o := ((o.setByte 4 0).setLength 5 dataLength).copyData 7 data
      { o with isExtendedAPDU := true }
  else if dataLength ≤ 255 ∧ ne ≤ 256 then
    let o := (o.resize (4 + 2 + dataLength)).setHeader cla ins p1 p2
    let o := (o.setByte 4 (UInt8.ofNat dataLength)).copyData 5 data
    o.setByte (o.apdu.length - 1) (if ne ≠ 256 then UInt8.ofNat ne else 0)
  else
    let o := (o.resize (4 + 5 + dataLength)).setHeader cla ins p1 p2
    let o := ((o.setByte 4 0).setLength 5 dataLength).copyData 7 data
    let o := if ne ≠ 65536 then o.setLength (o.apdu.length - 2) ne else o
    { o with isExtendedAPDU := true }

def init (o : CommandAPDU) (cla ins p1 p2 : UInt8) (data : Bytes) (ne : Nat) : CommandAPDU :=
  let o :=
    { o with
      nc := 0
      ne := 0
      dataOffset := 0
      isExtendedAPDU := false
      parsingErrorStr := ""
      parsedSuccessfully := false }
  let dataLength := data.length
  if dataLength > 65535 then
    clear { o with
      parsingErrorStr := s!"dataLength is too large (> 65535) - dataLength = {dataLength}" }
  else if ne > 65536 then
    clear { o with parsingErrorStr := s!"ne is too large (> 65536) - ne = {ne}" }
  else
    let o := { o with ne := ne, nc := dataLength }
    { o.layOut cla ins p1 p2 data ne with parsedSuccessfully := true }

/-- `CommandAPDU (cla, ins, p1, p2, data, dataOffset, dataLength, ne)` -/
def ofFields (cla ins p1 p2 : UInt8) (data : Bytes) (ne : Nat) : CommandAPDU :=
  init CommandAPDU.new cla ins p1 p2 data ne

end CommandAPDU

/-! ## The forms of a command -/

/-- A length in two bytes: 65536 is written as zero. -/
def be16 (n : Nat) : Bytes := [UInt8.ofNat (n / 2 ^ 8), UInt8.ofNat n]

/-- A command with the form it has. -/
structure Command where
  cla : UInt8
  ins : UInt8
  p1 : UInt8
  p2 : UInt8
  data : Bytes
  ne : Nat
  extended : Bool

/-- The form has room for the lengths, and the extended one has a length in it. -/
def Command.Fits (c : Command) : Prop :=
  if c.extended then c.data.length ≤ 65535 ∧ c.ne ≤ 65536 ∧ (c.data ≠ [] ∨ c.ne ≠ 0)
  else c.data.length ≤ 255 ∧ c.ne ≤ 256

/-- The bytes of a command. In the short form a length of 256 is written as zero. -/
def Command.encode (c : Command) : Bytes :=
  if c.extended then
    c.cla :: c.ins :: c.p1 :: c.p2 :: 0 ::
      ((if c.data = [] then [] else be16 c.data.length ++ c.data) ++
        (if c.ne = 0 then [] else be16 c.ne))
  else
    c.cla :: c.ins :: c.p1 :: c.p2 ::
      ((if c.data = [] then [] else UInt8.ofNat c.data.length :: c.data) ++
        (if c.ne = 0 then [] else [UInt8.ofNat c.ne]))

/-- The form that `init` chooses. -/
def Command.chosen (cla ins p1 p2 : UInt8) (data : Bytes) (ne : Nat) : Command :=
  ⟨cla, ins, p1, p2, data, ne, !(data.length ≤ 255 ∧ ne ≤ 256)⟩

/-- An object holds a command. -/
structure CommandAPDU.Holds (o : CommandAPDU) (c : Command) : Prop where
  apdu : o.apdu = c.encode
  data : o.getData = c.data
  nc : o.nc = c.data.length
  ne : o.ne = c.ne
  extended : o.isExtendedAPDU = c.extended

/-! ## `init` lays a command out -/

/-- A fresh vector with its header set. -/
theorem header_resize {o : CommandAPDU} (h : o.apdu = []) (cla ins p1 p2 : UInt8) {k n : Nat}
    (hk : k = n + 4) :
    (o.resize k).setHeader cla ins p1 p2 =
      { o with apdu := cla :: ins :: p1 :: p2 :: List.replicate n 0 } := by
  subst hk
  unfold CommandAPDU.resize CommandAPDU.setHeader CommandAPDU.setByte
  simp [h, List.replicate_succ]

/-- The data in the room that was left for it, up to `n` bytes before the end. -/
theorem patch_room (front data : Bytes) {off m n : Nat} (hoff : off = front.length)
    (hm : m = data.length + n) :
    patch (front ++ List.replicate m 0) off data = front ++ (data ++ List.replicate n 0) := by
  subst hoff hm
  simp [patch]

/-- An object before `layOut`. -/
structure CommandAPDU.Sized (o : CommandAPDU) (data : Bytes) (ne : Nat) : Prop where
  apdu : o.apdu = []
  nc : o.nc = data.length
  ne : o.ne = ne
  dataOffset : o.dataOffset = 0
  extended : o.isExtendedAPDU = false

theorem getData_eq {o : CommandAPDU} {front data rest : Bytes}
    (h : o.apdu = front ++ (data ++ rest)) (hoff : o.dataOffset = front.length)
    (hnc : o.nc = data.length) : o.getData = data := by
  unfold CommandAPDU.getData
  rw [h, hnc, slice_of_eq_append rfl hoff rfl]
  by_cases hd : data = []
  · simp [hd]
  · rw [if_pos (List.length_pos_iff.mpr hd)]

theorem layOut_holds {o : CommandAPDU} (cla ins p1 p2 : UInt8) {data : Bytes} {ne : Nat}
    (ho : o.Sized data ne) (hne : ne ≤ 65536) :
    (o.layOut cla ins p1 p2 data ne).Holds (Command.chosen cla ins p1 p2 data ne) := by
  obtain ⟨hapdu, hnc, hne', hoff, hext⟩ := ho
  have h256 : (if ne ≠ 256 then UInt8.ofNat ne else 0) = UInt8.ofNat ne := by
    split_ifs with h
    · rfl
    · rw [not_not.mp h]
      rfl
  unfold CommandAPDU.layOut Command.chosen
  dsimp only
  by_cases hd : data = []
  · subst hd
    rw [if_pos List.length_nil]
    by_cases hz : ne = 0
    · rw [if_pos hz, header_resize (n := 0) hapdu cla ins p1 p2 rfl]
      constructor <;> simp [hz, Command.encode, CommandAPDU.getData, hnc, hext, hne']
    · rw [if_neg hz]
      by_cases hs : ne ≤ 256
      · rw [if_pos hs, header_resize (n := 1) hapdu cla ins p1 p2 rfl, h256]
        constructor <;>
          simp [hz, hs, Command.encode, CommandAPDU.getData, CommandAPDU.setByte, hnc, hext, hne']
      · rw [if_neg hs, header_resize (n := 3) hapdu cla ins p1 p2 rfl]
        have hlen : be16 (if ne = 65536 then 0 else ne) = be16 ne := by
          split_ifs with h
          · rw [h]
            rfl
          · rfl
        rw [be16] at hlen
        constructor <;>
          simp [hz, hs, Command.encode, CommandAPDU.getData, CommandAPDU.setByte,
            CommandAPDU.setLength, hnc, hext, hne', List.replicate_succ, ← hlen]
  · have hpos : 0 < data.length := List.length_pos_iff.mpr hd
    rw [if_neg (by omega)]
    by_cases hz : ne = 0
    · rw [if_pos hz]
      by_cases hs : data.length ≤ 255
      · -- case 3s
        rw [if_pos hs, header_resize (n := data.length + 1) hapdu cla ins p1 p2 (by omega)]
        have hfill : patch ([cla, ins, p1, p2, UInt8.ofNat data.length] ++
            List.replicate data.length 0) 5 data =
            [cla, ins, p1, p2, UInt8.ofNat data.length] ++ (data ++ List.replicate 0 0) :=
          patch_room _ data rfl rfl
        exact
          { apdu := hfill.trans (by simp [Command.encode, hs, hz, hd])
            data := getData_eq hfill rfl hnc
            nc := hnc
            ne := hne'
            extended := by simp [CommandAPDU.copyData, CommandAPDU.setByte, hext, hs, hz] }
      · -- case 3e
        rw [if_neg hs, header_resize (n := data.length + 3) hapdu cla ins p1 p2 (by omega)]
        have hfill : patch ([cla, ins, p1, p2, 0] ++ be16 data.length ++
            List.replicate data.length 0) 7 data =
            ([cla, ins, p1, p2, 0] ++ be16 data.length) ++ (data ++ List.replicate 0 0) :=
          patch_room _ data rfl rfl
        exact
          { apdu := hfill.trans (by simp [Command.encode, hs, hz, hd])
            data := getData_eq hfill rfl hnc
            nc := hnc
            ne := hne'
            extended := by simp [hs] }
    · rw [if_neg hz]
      by_cases hs : data.length ≤ 255 ∧ ne ≤ 256
      · -- case 4s
        rw [if_pos hs, header_resize (n := data.length + 2) hapdu cla ins p1 p2 (by omega), h256]
        have hfill : patch ([cla, ins, p1, p2, UInt8.ofNat data.length] ++
            List.replicate (data.length + 1) 0) 5 data =
            [cla, ins, p1, p2, UInt8.ofNat data.length] ++ (data ++ List.replicate 1 0) :=
          patch_room _ data rfl rfl
        have hall : (patch ([cla, ins, p1, p2, UInt8.ofNat data.length] ++
            List.replicate (data.length + 1) 0) 5 data).set
            ((patch ([cla, ins, p1, p2, UInt8.ofNat data.length] ++
              List.replicate (data.length + 1) 0) 5 data).length - 1) (UInt8.ofNat ne) =
            [cla, ins, p1, p2, UInt8.ofNat data.length] ++ (data ++ [UInt8.ofNat ne]) := by
          rw [hfill]
          simp
        exact
          { apdu := hall.trans (by simp [Command.encode, hs, hz, hd])
            data := getData_eq hall rfl hnc
            nc := hnc
            ne := hne'
            extended := by simp [CommandAPDU.copyData, CommandAPDU.setByte, hext, hs] }
      · -- case 4e
        rw [if_neg hs, header_resize (n := data.length + 5) hapdu cla ins p1 p2 (by omega)]
        have hfill : patch ([cla, ins, p1, p2, 0] ++ be16 data.length ++
            List.replicate (data.length + 2) 0) 7 data =
            ([cla, ins, p1, p2, 0] ++ be16 data.length) ++ (data ++ List.replicate 2 0) :=
          patch_room _ data rfl rfl
        have hchosen : (!decide (data.length ≤ 255 ∧ ne ≤ 256)) = true := by
          rw [decide_eq_false hs]
          rfl
        by_cases hmax : ne = 65536
        · have hzero : List.replicate 2 (0 : UInt8) = be16 ne := by
            rw [hmax]
            rfl
          rw [if_neg (not_not.mpr hmax)]
          rw [hzero] at hfill
          exact
            { apdu := hfill.trans (by rw [Command.encode, if_pos hchosen]; simp [hz, hd])
              data := getData_eq hfill rfl hnc
              nc := hnc
              ne := hne'
              extended := hchosen.symm }
        · rw [if_pos hmax]
          have hall : ((patch ([cla, ins, p1, p2, 0] ++ be16 data.length ++
              List.replicate (data.length + 2) 0) 7 data).set
              ((patch ([cla, ins, p1, p2, 0] ++ be16 data.length ++
                List.replicate (data.length + 2) 0) 7 data).length - 2)
              (UInt8.ofNat (ne / 2 ^ 8))).set
              ((patch ([cla, ins, p1, p2, 0] ++ be16 data.length ++
                List.replicate (data.length + 2) 0) 7 data).length - 2 + 1) (UInt8.ofNat ne) =
              ([cla, ins, p1, p2, 0] ++ be16 data.length) ++ (data ++ be16 ne) := by
            rw [hfill]
            simp [be16, List.replicate_succ]
          exact
            { apdu := hall.trans (by rw [Command.encode, if_pos hchosen]; simp [hz, hd])
              data := getData_eq hall rfl hnc
              nc := hnc
              ne := hne'
              extended := hchosen.symm }

theorem init_holds (cla ins p1 p2 : UInt8) {data : Bytes} {ne : Nat} (hdata : data.length ≤ 65535)
    (hne : ne ≤ 65536) :
    (CommandAPDU.ofFields cla ins p1 p2 data ne).Holds (Command.chosen cla ins p1 p2 data ne) ∧
      (CommandAPDU.ofFields cla ins p1 p2 data ne).isValid = true := by
  have hsized : ({ CommandAPDU.new with ne := ne, nc := data.length } : CommandAPDU).Sized
      data ne := ⟨rfl, rfl, rfl, rfl, rfl⟩
  have hholds := layOut_holds cla ins p1 p2 hsized hne
  unfold CommandAPDU.ofFields CommandAPDU.init
  dsimp only
  rw [if_neg (by omega), if_neg (by omega)]
  exact ⟨{ hholds with }, rfl⟩

theorem chosen_fits (cla ins p1 p2 : UInt8) {data : Bytes} {ne : Nat} (hdata : data.length ≤ 65535)
    (hne : ne ≤ 65536) : (Command.chosen cla ins p1 p2 data ne).Fits := by
  have hlen : data = [] ↔ data.length = 0 := List.length_eq_zero_iff.symm
  unfold Command.Fits Command.chosen
  dsimp only
  by_cases h : data.length ≤ 255 ∧ ne ≤ 256
  · rw [decide_eq_true h]
    exact h
  · rw [decide_eq_false h]
    refine ⟨hdata, hne, ?_⟩
    rw [Ne, hlen]
    omega

/-! ## What `parse` reads -/

/-- The object of a vector before `parse`. -/
def CommandAPDU.raw (apdu : Bytes) : CommandAPDU := { CommandAPDU.new with apdu := apdu }

theorem toNat_be16 {n : Nat} (h : n < 2 ^ 16) :
    (UInt8.ofNat (n / 2 ^ 8)).toNat * 2 ^ 8 + (UInt8.ofNat n).toNat = n := by
  rw [UInt8.toNat_ofNat', UInt8.toNat_ofNat']
  omega

theorem be16_toNat (a b : UInt8) : be16 (a.toNat * 2 ^ 8 + b.toNat) = [a, b] := by
  have ha := a.toNat_lt
  have hb := b.toNat_lt
  have hhigh : UInt8.ofNat ((a.toNat * 2 ^ 8 + b.toNat) / 2 ^ 8) = a := by
    apply UInt8.toNat_inj.mp
    rw [UInt8.toNat_ofNat']
    omega
  have hlow : UInt8.ofNat (a.toNat * 2 ^ 8 + b.toNat) = b := by
    apply UInt8.toNat_inj.mp
    rw [UInt8.toNat_ofNat']
    omega
  rw [be16, hhigh, hlow]

/-- A length byte of the short form. -/
theorem short_length {n : Nat} (h : n ≤ 256) (hz : n ≠ 0) :
    (if (UInt8.ofNat n).toNat = 0 then 256 else (UInt8.ofNat n).toNat) = n := by
  rw [UInt8.toNat_ofNat']
  split_ifs <;> omega

/-- The two length bytes of the extended form. -/
theorem extended_length {n : Nat} (h : n ≤ 65536) (hz : n ≠ 0) :
    (if (UInt8.ofNat (n / 2 ^ 8)).toNat * 2 ^ 8 + (UInt8.ofNat n).toNat = 0 then 65536
      else (UInt8.ofNat (n / 2 ^ 8)).toNat * 2 ^ 8 + (UInt8.ofNat n).toNat) = n := by
  rw [UInt8.toNat_ofNat', UInt8.toNat_ofNat']
  split_ifs <;> omega

section

variable {v : Bytes} {l : Nat}

/-- `parse` on a fresh object. -/
theorem dispatch_raw (v : Bytes) :
    (CommandAPDU.raw v).dispatch =
      (CommandAPDU.raw v).dispatchSize v.length (v.getD 4 0).toNat
        ((v.getD 5 0).toNat * 2 ^ 8 + (v.getD 6 0).toNat) := rfl

theorem dispatch_3s (hsize : v.length = 4 + 1 + l) (hb : (v.getD 4 0).toNat = l) (hl : l ≠ 0) :
    (CommandAPDU.raw v).dispatch =
      ({ CommandAPDU.raw v with nc := l, dataOffset := 5 }, .success) := by
  rw [dispatch_raw, hsize, hb, CommandAPDU.dispatchSize, if_neg (by omega), if_neg (by omega),
    if_neg (by omega), if_pos hl, CommandAPDU.dispatchShort, if_pos rfl]

theorem dispatch_4s (hsize : v.length = 4 + 2 + l) (hb : (v.getD 4 0).toNat = l) (hl : l ≠ 0) :
    (CommandAPDU.raw v).dispatch =
      ({ CommandAPDU.raw v with
          nc := l
          dataOffset := 5
          ne := if (v.getD (v.length - 1) 0).toNat = 0 then 256
            else (v.getD (v.length - 1) 0).toNat }, .success) := by
  rw [dispatch_raw, hsize, hb, CommandAPDU.dispatchSize, if_neg (by omega), if_neg (by omega),
    if_neg (by omega), if_pos hl, CommandAPDU.dispatchShort, if_neg (by omega), if_pos rfl]
  rfl

theorem dispatch_2e (hsize : v.length = 7) (hb : (v.getD 4 0).toNat = 0)
    (hl : (v.getD 5 0).toNat * 2 ^ 8 + (v.getD 6 0).toNat = l) :
    (CommandAPDU.raw v).dispatch =
      ({ CommandAPDU.raw v with ne := if l = 0 then 65536 else l, isExtendedAPDU := true },
        .success) := by
  rw [dispatch_raw, hsize, hb, hl, CommandAPDU.dispatchSize, if_neg (by omega), if_neg (by omega),
    if_neg (by omega), if_neg (not_not.mpr rfl), if_neg (by omega), CommandAPDU.dispatchExtended,
    if_pos rfl]

theorem dispatch_3e (hsize : v.length = 4 + 3 + l) (hb : (v.getD 4 0).toNat = 0)
    (hl : (v.getD 5 0).toNat * 2 ^ 8 + (v.getD 6 0).toNat = l) (hz : l ≠ 0) :
    (CommandAPDU.raw v).dispatch =
      ({ CommandAPDU.raw v with nc := l, dataOffset := 7, isExtendedAPDU := true }, .success) := by
  rw [dispatch_raw, hsize, hb, hl, CommandAPDU.dispatchSize, if_neg (by omega), if_neg (by omega),
    if_neg (by omega), if_neg (not_not.mpr rfl), if_neg (by omega), CommandAPDU.dispatchExtended,
    if_neg (by omega), if_neg hz, if_pos rfl]

theorem dispatch_4e (hsize : v.length = 4 + 5 + l) (hb : (v.getD 4 0).toNat = 0)
    (hl : (v.getD 5 0).toNat * 2 ^ 8 + (v.getD 6 0).toNat = l) (hz : l ≠ 0) {n : Nat}
    (hn : (v.getD (v.length - 2) 0).toNat * 2 ^ 8 + (v.getD (v.length - 2 + 1) 0).toNat = n) :
    (CommandAPDU.raw v).dispatch =
      ({ CommandAPDU.raw v with
          nc := l
          dataOffset := 7
          ne := if n = 0 then 65536 else n
          isExtendedAPDU := true }, .success) := by
  rw [dispatch_raw, hb, hl, CommandAPDU.dispatchSize, if_neg (by omega), if_neg (by omega),
    if_neg (by omega), if_neg (not_not.mpr rfl), if_neg (by omega), CommandAPDU.dispatchExtended,
    if_neg (by omega), if_neg hz, if_neg (by omega), if_pos hsize, ← hn]
  rfl

end

/-- A vector that is a command is accepted, and the fields read are those of the command. -/
theorem dispatch_encode {c : Command} (h : c.Fits) :
    (CommandAPDU.raw c.encode).dispatch.2 = .success ∧
      (CommandAPDU.raw c.encode).dispatch.1.Holds c := by
  obtain ⟨cla, ins, p1, p2, data, ne, extended⟩ := c
  cases extended with
  | false =>
    obtain ⟨hdata, hne⟩ : data.length ≤ 255 ∧ ne ≤ 256 := h
    by_cases hd : data = []
    · by_cases hz : ne = 0
      · subst hd hz
        exact ⟨rfl, ⟨rfl, rfl, rfl, rfl, rfl⟩⟩
      · have hl := short_length hne hz
        have henc : Command.encode ⟨cla, ins, p1, p2, data, ne, false⟩ =
            [cla, ins, p1, p2, UInt8.ofNat ne] := by
          simp [Command.encode, hd, hz]
        rw [henc]
        refine ⟨rfl, ?_⟩
        exact ⟨henc.symm, hd.symm, by rw [hd]; rfl, hl, rfl⟩
    · have hpos : 0 < data.length := List.length_pos_iff.mpr hd
      have hl1 : (UInt8.ofNat data.length).toNat = data.length := by
        rw [UInt8.toNat_ofNat']
        omega
      by_cases hz : ne = 0
      · have henc : Command.encode ⟨cla, ins, p1, p2, data, ne, false⟩ =
            [cla, ins, p1, p2, UInt8.ofNat data.length] ++ (data ++ []) := by
          simp [Command.encode, hd, hz]
        have hdisp := dispatch_3s (v := Command.encode ⟨cla, ins, p1, p2, data, ne, false⟩)
          (l := data.length) (by rw [henc]; simp; omega) (by rw [henc]; exact hl1) (by omega)
        rw [hdisp]
        exact ⟨rfl, rfl, getData_eq henc rfl rfl, rfl, hz.symm, rfl⟩
      · have henc : Command.encode ⟨cla, ins, p1, p2, data, ne, false⟩ =
            [cla, ins, p1, p2, UInt8.ofNat data.length] ++ (data ++ [UInt8.ofNat ne]) := by
          simp [Command.encode, hd, hz]
        have hdisp := dispatch_4s (v := Command.encode ⟨cla, ins, p1, p2, data, ne, false⟩)
          (l := data.length) (by rw [henc]; simp; omega) (by rw [henc]; exact hl1) (by omega)
        have hlast : (Command.encode ⟨cla, ins, p1, p2, data, ne, false⟩).getD
            ((Command.encode ⟨cla, ins, p1, p2, data, ne, false⟩).length - 1) 0 =
            UInt8.ofNat ne := by
          rw [henc]
          simp
        rw [hlast, short_length hne hz] at hdisp
        rw [hdisp]
        exact ⟨rfl, rfl, getData_eq henc rfl rfl, rfl, rfl, rfl⟩
  | true =>
    obtain ⟨hdata, hne, hsome⟩ : data.length ≤ 65535 ∧ ne ≤ 65536 ∧ (data ≠ [] ∨ ne ≠ 0) := h
    by_cases hd : data = []
    · have hz : ne ≠ 0 := hsome.resolve_left (not_not.mpr hd)
      have henc : Command.encode ⟨cla, ins, p1, p2, data, ne, true⟩ =
          [cla, ins, p1, p2, 0] ++ be16 ne := by
        simp [Command.encode, hd, hz]
      have hl := extended_length hne hz
      have hdisp := dispatch_2e (v := Command.encode ⟨cla, ins, p1, p2, data, ne, true⟩)
        (l := (UInt8.ofNat (ne / 2 ^ 8)).toNat * 2 ^ 8 + (UInt8.ofNat ne).toNat)
        (by rw [henc]; rfl) (by rw [henc]; rfl) (by rw [henc]; rfl)
      rw [hl] at hdisp
      rw [hdisp]
      exact ⟨rfl, rfl, hd.symm, by rw [hd]; rfl, rfl, rfl⟩
    · have hpos : 0 < data.length := List.length_pos_iff.mpr hd
      have hl := toNat_be16 (n := data.length) (by omega)
      by_cases hz : ne = 0
      · have henc : Command.encode ⟨cla, ins, p1, p2, data, ne, true⟩ =
            ([cla, ins, p1, p2, 0] ++ be16 data.length) ++ (data ++ []) := by
          simp [Command.encode, hd, hz]
        have hdisp := dispatch_3e (v := Command.encode ⟨cla, ins, p1, p2, data, ne, true⟩)
          (l := data.length) (by rw [henc]; simp [be16]; omega) (by rw [henc]; rfl)
          (by rw [henc]; exact hl) (by omega)
        rw [hdisp]
        exact ⟨rfl, rfl, getData_eq henc rfl rfl, rfl, hz.symm, rfl⟩
      · have henc : Command.encode ⟨cla, ins, p1, p2, data, ne, true⟩ =
            ([cla, ins, p1, p2, 0] ++ be16 data.length) ++ (data ++ be16 ne) := by
          simp [Command.encode, hd, hz]
        have hdisp := dispatch_4e (v := Command.encode ⟨cla, ins, p1, p2, data, ne, true⟩)
          (l := data.length) (by rw [henc]; simp [be16]; omega) (by rw [henc]; rfl)
          (by rw [henc]; exact hl) (by omega)
          (n := (UInt8.ofNat (ne / 2 ^ 8)).toNat * 2 ^ 8 + (UInt8.ofNat ne).toNat)
          (by rw [henc]; simp [be16])
        rw [extended_length hne hz] at hdisp
        rw [hdisp]
        exact ⟨rfl, rfl, getData_eq henc rfl rfl, rfl, rfl, rfl⟩

/-- Every byte is an expected length of the short form: a zero stands for 256. -/
theorem exists_short (e : UInt8) : ∃ n, n ≤ 256 ∧ n ≠ 0 ∧ UInt8.ofNat n = e := by
  have hlt := e.toNat_lt
  by_cases hz : e.toNat = 0
  · exact ⟨256, by omega, by omega, UInt8.toNat_inj.mp (by rw [hz]; rfl)⟩
  · exact ⟨e.toNat, by omega, hz, UInt8.ofNat_toNat⟩

/-- Any two bytes are one of the extended form: two zeros stand for 65536. -/
theorem exists_extended (x y : UInt8) : ∃ n, n ≤ 65536 ∧ n ≠ 0 ∧ be16 n = [x, y] := by
  have hx := x.toNat_lt
  have hy := y.toNat_lt
  by_cases hz : x.toNat * 2 ^ 8 + y.toNat = 0
  · have hxz : x = 0 := UInt8.toNat_inj.mp (by show x.toNat = 0; omega)
    have hyz : y = 0 := UInt8.toNat_inj.mp (by show y.toNat = 0; omega)
    exact ⟨65536, by omega, by omega, by rw [hxz, hyz]; rfl⟩
  · exact ⟨x.toNat * 2 ^ 8 + y.toNat, by omega, hz, be16_toNat x y⟩

/-- A nonzero length byte, and as much data or one byte more. -/
theorem short_sound {cla ins p1 p2 e : UInt8} {rest : Bytes} (he : e.toNat ≠ 0)
    (h : rest.length = e.toNat ∨ rest.length = e.toNat + 1) :
    ∃ c : Command, c.Fits ∧ cla :: ins :: p1 :: p2 :: e :: rest = c.encode := by
  have hlt := e.toNat_lt
  have hback : UInt8.ofNat e.toNat = e := UInt8.ofNat_toNat
  rcases h with hlen | hlen
  · have hd : rest ≠ [] := by
      rintro rfl
      exact he hlen.symm
    have hfits : rest.length ≤ 255 := by omega
    refine ⟨⟨cla, ins, p1, p2, rest, 0, false⟩, ⟨hfits, Nat.zero_le _⟩, ?_⟩
    simp [Command.encode, hd, hlen, hback]
  · have hne : rest ≠ [] := by
      rintro rfl
      simp at hlen
    have hd : rest.dropLast ≠ [] := by
      intro hnil
      have hdl := congrArg List.length hnil
      rw [List.length_dropLast, hlen] at hdl
      exact he hdl
    have hdl : rest.dropLast.length = e.toNat := by rw [List.length_dropLast, hlen]; rfl
    obtain ⟨n, hn, hnz, hnl⟩ := exists_short (rest.getLast hne)
    refine ⟨⟨cla, ins, p1, p2, rest.dropLast, n, false⟩, ⟨by rw [hdl]; omega, hn⟩, ?_⟩
    have hsplit := List.dropLast_append_getLast hne
    simp [Command.encode, hd, hdl, hback, hnz, hnl, hsplit]

/-- A zero byte, a nonzero length and as much data or two bytes more. -/
theorem extended_sound {cla ins p1 p2 f g : UInt8} {rest : Bytes}
    (hl : f.toNat * 2 ^ 8 + g.toNat ≠ 0)
    (h : rest.length = f.toNat * 2 ^ 8 + g.toNat ∨ rest.length = f.toNat * 2 ^ 8 + g.toNat + 2) :
    ∃ c : Command, c.Fits ∧ cla :: ins :: p1 :: p2 :: 0 :: f :: g :: rest = c.encode := by
  have hf := f.toNat_lt
  have hg := g.toNat_lt
  have hback := be16_toNat f g
  rcases h with hlen | hlen
  · have hd : rest ≠ [] := by
      rintro rfl
      exact hl hlen.symm
    have hfits : rest.length ≤ 65535 := by omega
    rw [← hlen] at hback
    refine ⟨⟨cla, ins, p1, p2, rest, 0, true⟩, ⟨hfits, Nat.zero_le _, .inl hd⟩, ?_⟩
    simp [Command.encode, hd, hback]
  · obtain ⟨data, x, y, hsplit⟩ : ∃ data x y, rest = data ++ [x, y] := by
      have hdrop : (rest.drop (rest.length - 2)).length = 2 := by
        rw [List.length_drop]
        omega
      obtain ⟨x, y, hxy⟩ := List.length_eq_two.mp hdrop
      exact ⟨rest.take (rest.length - 2), x, y, by rw [← hxy, List.take_append_drop]⟩
    have hdl : data.length = f.toNat * 2 ^ 8 + g.toNat := by
      rw [hsplit, List.length_append] at hlen
      simpa using hlen
    have hd : data ≠ [] := by
      rintro rfl
      exact hl hdl.symm
    have hfits : data.length ≤ 65535 := by omega
    rw [← hdl] at hback
    obtain ⟨n, hn, hnz, hnl⟩ := exists_extended x y
    refine ⟨⟨cla, ins, p1, p2, data, n, true⟩, ⟨hfits, hn, .inl hd⟩, ?_⟩
    simp [Command.encode, hd, hback, hnz, hnl, hsplit]

/-- What is accepted is a command in one of the forms. -/
theorem dispatch_sound {v : Bytes} (h : (CommandAPDU.raw v).dispatch.2 = .success) :
    ∃ c : Command, c.Fits ∧ v = c.encode := by
  rcases v with _ | ⟨cla, _ | ⟨ins, _ | ⟨p1, _ | ⟨p2, _ | ⟨e, rest⟩⟩⟩⟩⟩
  · cases h
  · cases h
  · cases h
  · cases h
  · exact ⟨⟨cla, ins, p1, p2, [], 0, false⟩, ⟨Nat.zero_le _, Nat.zero_le _⟩, rfl⟩
  · rw [dispatch_raw] at h
    have hlen : (cla :: ins :: p1 :: p2 :: e :: rest).length = rest.length + 5 := rfl
    have hbyte : (cla :: ins :: p1 :: p2 :: e :: rest).getD 4 0 = e := rfl
    rw [hlen, hbyte, CommandAPDU.dispatchSize, if_neg (by omega), if_neg (by omega)] at h
    have helt := e.toNat_lt
    by_cases hfive : rest.length + 5 = 5
    · -- case 2s
      have hrest : rest = [] := List.length_eq_zero_iff.mp (by omega)
      subst hrest
      obtain ⟨n, hn, hnz, hnl⟩ := exists_short e
      refine ⟨⟨cla, ins, p1, p2, [], n, false⟩, ⟨by simp, hn⟩, ?_⟩
      simp [Command.encode, hnz, hnl]
    · rw [if_neg hfive] at h
      by_cases he : e.toNat ≠ 0
      · rw [if_pos he, CommandAPDU.dispatchShort] at h
        by_cases hs : rest.length + 5 = 4 + 1 + e.toNat
        · exact short_sound he (.inl (by omega))
        · rw [if_neg hs] at h
          by_cases hl : rest.length + 5 = 4 + 2 + e.toNat
          · exact short_sound he (.inr (by omega))
          · rw [if_neg hl] at h
            cases h
      · have hzero : e = 0 := UInt8.toNat_inj.mp (not_not.mp he)
        subst hzero
        rw [if_neg he] at h
        rcases rest with _ | ⟨f, _ | ⟨g, rest⟩⟩
        · cases h
        · cases h
        · have hf : (cla :: ins :: p1 :: p2 :: 0 :: f :: g :: rest).getD 5 0 = f := rfl
          have hg : (cla :: ins :: p1 :: p2 :: 0 :: f :: g :: rest).getD 6 0 = g := rfl
          have hseven : (f :: g :: rest).length + 5 = rest.length + 7 := rfl
          rw [hf, hg, hseven, if_neg (by omega), CommandAPDU.dispatchExtended] at h
          have hflt := f.toNat_lt
          have hglt := g.toNat_lt
          by_cases h7 : rest.length + 7 = 7
          · -- case 2e
            have hrest : rest = [] := List.length_eq_zero_iff.mp (by omega)
            subst hrest
            obtain ⟨n, hn, hnz, hnl⟩ := exists_extended f g
            refine ⟨⟨cla, ins, p1, p2, [], n, true⟩, ⟨by simp, hn, .inr hnz⟩, ?_⟩
            simp [Command.encode, hnz, hnl]
          · rw [if_neg h7] at h
            by_cases hl : f.toNat * 2 ^ 8 + g.toNat = 0
            · rw [if_pos hl] at h
              cases h
            · rw [if_neg hl] at h
              by_cases hs : rest.length + 7 = 4 + 3 + (f.toNat * 2 ^ 8 + g.toNat)
              · exact extended_sound hl (.inl (by omega))
              · rw [if_neg hs] at h
                by_cases hlong : rest.length + 7 = 4 + 5 + (f.toNat * 2 ^ 8 + g.toNat)
                · exact extended_sound hl (.inr (by omega))
                · rw [if_neg hlong] at h
                  cases h

theorem dispatch_iff (v : Bytes) :
    (CommandAPDU.raw v).dispatch.2 = .success ↔ ∃ c : Command, c.Fits ∧ v = c.encode := by
  constructor
  · exact dispatch_sound
  · rintro ⟨c, hc, rfl⟩
    exact (dispatch_encode hc).1

/-- What `init` laid out is read back, up to the labels: the fields are right there. -/
theorem dispatch_init (cla ins p1 p2 : UInt8) {data : Bytes} {ne : Nat}
    (hdata : data.length ≤ 65535) (hne : ne ≤ 65536) :
    (CommandAPDU.raw (CommandAPDU.ofFields cla ins p1 p2 data ne).apdu).dispatch.2 = .success ∧
      (CommandAPDU.raw (CommandAPDU.ofFields cla ins p1 p2 data ne).apdu).dispatch.1.Holds
        (Command.chosen cla ins p1 p2 data ne) := by
  rw [(init_holds cla ins p1 p2 hdata hne).1.apdu]
  exact dispatch_encode (chosen_fits cla ins p1 p2 hdata hne)

/-! ## What `parse` leaves -/

/-- The constructor from bytes on what `init` produced. -/
def RoundTrips (cla ins p1 p2 : UInt8) (data : Bytes) (ne : Nat) : Prop :=
  let o := CommandAPDU.ofFields cla ins p1 p2 data ne
  let o' := CommandAPDU.ofVector o.apdu
  o'.isValid = true ∧ o'.byte 0 = cla ∧ o'.byte 1 = ins ∧ o'.byte 2 = p1 ∧ o'.byte 3 = p2 ∧
    o'.getData = data ∧ o'.nc = data.length ∧ o'.ne = ne ∧
    o'.isExtendedAPDU = o.isExtendedAPDU ∧ o'.apdu = o.apdu

/-- An accepted vector is kept, and is the command that the object holds; a rejected one leaves an
empty object. -/
def VectorMeets (v : Bytes) : Prop :=
  let o := CommandAPDU.ofVector v
  if o.isValid then o.apdu = v ∧ ∃ c : Command, c.Fits ∧ o.Holds c
  else o.apdu = [] ∧ o.nc = 0 ∧ o.ne = 0 ∧ o.dataOffset = 0

/-- Both labels end in `clear`. -/
theorem ofVector_cleared (v : Bytes) :
    (CommandAPDU.ofVector v).apdu = [] ∧ (CommandAPDU.ofVector v).nc = 0 ∧
      (CommandAPDU.ofVector v).ne = 0 ∧ (CommandAPDU.ofVector v).dataOffset = 0 := by
  show (CommandAPDU.raw v).parse.apdu = [] ∧ (CommandAPDU.raw v).parse.nc = 0 ∧
    (CommandAPDU.raw v).parse.ne = 0 ∧ (CommandAPDU.raw v).parse.dataOffset = 0
  unfold CommandAPDU.parse
  split <;> exact ⟨rfl, rfl, rfl, rfl⟩

section

variable (o : CommandAPDU) (size l1 l2 short long : Nat)

theorem dispatchShort_flag :
    (o.dispatchShort size l1 short long).1.parsedSuccessfully = o.parsedSuccessfully := by
  rw [CommandAPDU.dispatchShort]
  split
  · rfl
  · split <;> rfl

theorem dispatchExtended_flag :
    (o.dispatchExtended size l1 l2 short long).1.parsedSuccessfully = o.parsedSuccessfully := by
  rw [CommandAPDU.dispatchExtended]
  split
  · rfl
  · split
    · rfl
    · split
      · rfl
      · split <;> rfl

/-- No case up to the labels sets the flag. -/
theorem dispatchSize_flag :
    (o.dispatchSize size l1 l2).1.parsedSuccessfully = o.parsedSuccessfully := by
  rw [CommandAPDU.dispatchSize]
  split
  · rfl
  · split
    · rfl
    · split
      · rfl
      · split
        · exact dispatchShort_flag o size l1 _ _
        · split
          · rfl
          · exact dispatchExtended_flag o size l1 l2 _ _

end

theorem dispatch_flag (v : Bytes) : (CommandAPDU.raw v).dispatch.1.parsedSuccessfully = false := by
  rw [dispatch_raw, dispatchSize_flag]
  rfl

theorem ofVector_valid_iff (v : Bytes) :
    (CommandAPDU.ofVector v).isValid = true ↔ ∃ c : Command, c.Fits ∧ v = c.encode := by
  have hflag := dispatch_flag v
  rw [← dispatch_iff]
  show (CommandAPDU.raw v).parse.parsedSuccessfully = true ↔ _
  unfold CommandAPDU.parse
  generalize (CommandAPDU.raw v).dispatch = result at hflag
  obtain ⟨o, label⟩ := result
  cases label with
  | success => simp [CommandAPDU.clear]
  | failure =>
    have ho : o.parsedSuccessfully = false := hflag
    simp [CommandAPDU.clear, ho]

theorem encode_ne_nil (c : Command) : c.encode ≠ [] := by
  unfold Command.encode
  split_ifs <;> simp

theorem vectorMeets_iff (v : Bytes) :
    VectorMeets v ↔ ¬∃ c : Command, c.Fits ∧ v = c.encode := by
  have hvalid := ofVector_valid_iff v
  obtain ⟨hapdu, hnc, hne, hoff⟩ := ofVector_cleared v
  unfold VectorMeets
  dsimp only
  by_cases h : (CommandAPDU.ofVector v).isValid = true
  · obtain ⟨c, hc, hv⟩ := hvalid.mp h
    rw [if_pos h, hapdu, ← hvalid]
    constructor
    · rintro ⟨hempty, -⟩
      exact absurd (hempty.trans hv).symm (encode_ne_nil c)
    · intro hnot
      exact absurd h hnot
  · rw [if_neg h, ← hvalid]
    exact ⟨fun _ => h, fun _ => ⟨hapdu, hnc, hne, hoff⟩⟩

theorem not_roundTrips (cla ins p1 p2 : UInt8) {data : Bytes} {ne : Nat}
    (hdata : data.length ≤ 65535) (hne : ne ≤ 65536) : ¬RoundTrips cla ins p1 p2 data ne := by
  rintro ⟨-, -, -, -, -, -, -, -, -, happ⟩
  rw [(ofVector_cleared _).1, (init_holds cla ins p1 p2 hdata hne).1.apdu] at happ
  exact encode_ne_nil _ happ.symm

/-- No command survives the constructor from bytes, and a vector is handled as it should be exactly
when it is no command in either form. -/
theorem codec_meets_iff (cla ins p1 p2 : UInt8) {data : Bytes} {ne : Nat}
    (hdata : data.length ≤ 65535) (hne : ne ≤ 65536) (v : Bytes) :
    ¬RoundTrips cla ins p1 p2 data ne ∧
      (VectorMeets v ↔ ¬∃ c : Command, c.Fits ∧ v = c.encode) :=
  ⟨not_roundTrips cla ins p1 p2 hdata hne, vectorMeets_iff v⟩

theorem codec_meets_iff_demo :
    ¬RoundTrips 0x00 0xa4 0x04 0x00 [] 0 ∧
      (VectorMeets [0x00, 0xa4] ↔ ¬∃ c : Command, c.Fits ∧ [0x00, 0xa4] = c.encode) :=
  codec_meets_iff 0x00 0xa4 0x04 0x00 (Nat.zero_le _) (Nat.zero_le _) [0x00, 0xa4]

/-- SELECT without data. -/
theorem select_not_kept : ¬RoundTrips 0x00 0xa4 0x04 0x00 [] 0 :=
  not_roundTrips _ _ _ _ (by decide) (by decide)

end Apdu
end VeraCrypt
