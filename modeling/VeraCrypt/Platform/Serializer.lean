import VeraCrypt.Crypto.Primitives
import VeraCrypt.Lib.ByteReader
import VeraCrypt.Lib.Endian

/-!
# The serializer (`Platform/Serializer.cpp`)

Requests and answers between the user's process and the elevated one are sequences of named fields.
A field is its name, a string, and then its value; a number stands behind its width, a string behind
its size in bytes, terminator included.

A string is read into a vector of the size the stream gives and taken from there up to its first
terminator. What the stream says is not tested: a size of zero indexes an empty vector, a string
without a terminator is read past its end, and a wide string whose size is no multiple of the
character's is read into a vector that is too small. And a string that holds a terminator itself
is cut there. `deserialize_inside_iff` says for which streams a call keeps to its buffers,
`takesOnly_deserialize` that a value depends on the bytes taken alone, and
`deserialize_serialize_reads` what comes back of a value.
-/

set_option autoImplicit false

namespace VeraCrypt

open Lib Lib.ByteReader

namespace Serializer

/-- What ends a call: an exception, or an access outside the buffer it has allocated. -/
inductive Stop where
  | parameterIncorrect | insufficientData | badAlloc | runtimeError | outside
  deriving DecidableEq

abbrev Reader (α : Type) := ByteReader Stop α

/-- The heap: whether a vector of so many bytes can be had. -/
structure Memory where
  allocates : Nat → Bool

/-- A `wstring`: characters of four bytes. -/
abbrev WString := List UInt32

def sizeofWchar : Nat := 4

/-! ## Reading -/

/-- `ReadCompleteBuffer` of `n` bytes into a buffer that has `capacity`. Bytes are stored as they
    come, also where the stream ends before the last of them. -/
def readCompleteBuffer (capacity n : Nat) : Reader Bytes := fun s =>
  if capacity < min n s.length then .error (.outside, s)
  else if s.length < n then .error (.insufficientData, [])
  else .ok (s.take n, s.drop n)

/-- `Deserialize <T>`, of a number of `width` bytes. -/
def deserializeNumber (width : Nat) : Reader Nat := do
  let size ← readCompleteBuffer 8 8
  if beNat size ≠ width then stop .parameterIncorrect
  else do
    let data ← readCompleteBuffer width width
    pure (beNat data)

/-- `vector <T> data (n)`, of so many bytes. -/
def allocate (mem : Memory) (bytes : Nat) : Reader Unit :=
  if mem.allocates bytes then pure () else stop .badAlloc

/-- `string (&data[0])`: up to the terminator. -/
def cString (data : Bytes) : Reader Bytes :=
  if 0 ∈ data then pure (data.takeWhile (· ≠ 0)) else stop .outside

/-- `DeserializeString` -/
def deserializeString (mem : Memory) : Reader Bytes := do
  let size ← deserializeNumber 8
  allocate mem size
  -- `&data[0]` of an empty vector
  if size = 0 then stop .outside
  else do
    let data ← readCompleteBuffer size size
    cString data

/-- Bytes of memory as characters. -/
def wchars (data : Bytes) : WString :=
  (List.range (data.length / sizeofWchar)).map (fun i =>
    UInt32.ofNat (leNat ((data.drop (sizeofWchar * i)).take sizeofWchar)))

/-- `wstring (&data[0])` -/
def wString (data : WString) : Reader WString :=
  if 0 ∈ data then pure (data.takeWhile (· ≠ 0)) else stop .outside

/-- `DeserializeWString` -/
def deserializeWString (mem : Memory) : Reader WString := do
  let size ← deserializeNumber 8
  let count := size / sizeofWchar
  allocate mem (sizeofWchar * count)
  if count = 0 then stop .outside
  else do
    let data ← readCompleteBuffer (sizeofWchar * count) size
    wString (wchars data)

/-- `ValidateName` -/
def validateName (mem : Memory) (name : Bytes) : Reader Unit := do
  let dName ← deserializeString mem
  if dName ≠ name then stop .parameterIncorrect else pure ()

/-- The items of a list, `n` of them to go. -/
def deserializeItems {α : Type} (item : Reader α) : Nat → Reader (List α)
  | 0 => pure []
  | n + 1 => do
    let x ← item
    let xs ← deserializeItems item n
    pure (x :: xs)

/-! ## Fields -/

/-- What a field holds. A buffer is one that the caller has, of a size it knows. -/
inductive FieldType where
  | bool | uint8 | int32 | int64 | uint32 | uint64 | string | wstring
  | buffer (size : Nat) | stringList | wstringList

@[reducible] def FieldType.Value : FieldType → Type
  | .bool => Bool
  | .uint8 => UInt8
  | .int32 => Int32
  | .int64 => Int64
  | .uint32 => UInt32
  | .uint64 => UInt64
  | .string => Bytes
  | .wstring => WString
  | .buffer size => { data : Bytes // data.length = size }
  | .stringList => List Bytes
  | .wstringList => List WString

/-- `Deserialize (name, const BufferPtr &data)`, behind the name. -/
def deserializeBuffer (size : Nat) : Reader { data : Bytes // data.length = size } := do
  let stated ← deserializeNumber 8
  if size ≠ stated then stop .parameterIncorrect
  else do
    let data ← readCompleteBuffer size size
    if h : data.length = size then pure ⟨data, h⟩ else stop .insufficientData

/-- What a `Deserialize` of a type reads behind the name. -/
def deserializeValue (mem : Memory) : (t : FieldType) → Reader t.Value
  | .bool => do
    let data ← deserializeNumber 1
    pure (decide (data = 1))
  | .uint8 => do
    let data ← deserializeNumber 1
    pure (UInt8.ofNat data)
  | .int32 => do
    let data ← deserializeNumber 4
    pure (UInt32.ofNat data).toInt32
  | .int64 => do
    let data ← deserializeNumber 8
    pure (UInt64.ofNat data).toInt64
  | .uint32 => do
    let data ← deserializeNumber 4
    pure (UInt32.ofNat data)
  | .uint64 => do
    let data ← deserializeNumber 8
    pure (UInt64.ofNat data)
  | .string => deserializeString mem
  | .wstring => deserializeWString mem
  | .buffer size => deserializeBuffer size
  | .stringList => do
    let listSize ← deserializeNumber 8
    deserializeItems (deserializeString mem) listSize
  | .wstringList => do
    let listSize ← deserializeNumber 8
    deserializeItems (deserializeWString mem) listSize

/-- `Deserialize (name, data)`, and `DeserializeBool` and so on. -/
def deserialize (mem : Memory) (name : Bytes) (t : FieldType) : Reader t.Value := do
  validateName mem name
  deserializeValue mem t

/-! ## Writing -/

/-- `Serialize (T data)` -/
def serializeNumber (width v : Nat) : Bytes := beBytes 8 width ++ beBytes width v

/-- `SerializeString` -/
def serializeString (data : Bytes) : Bytes := serializeNumber 8 (data.length + 1) ++ data ++ [0]

/-- `SerializeWString` -/
def serializeWString (data : WString) : Bytes :=
  serializeNumber 8 ((data.length + 1) * sizeofWchar) ++
    (data ++ [0]).flatMap (fun ch : UInt32 => leBytes sizeofWchar ch.toNat)

/-- What a `Serialize` of a type writes behind the name. -/
def serializeValue : (t : FieldType) → t.Value → Bytes
  | .bool, data => serializeNumber 1 (Bool.toNat data)
  | .uint8, data => serializeNumber 1 (UInt8.toNat data)
  | .int32, data => serializeNumber 4 (Int32.toUInt32 data).toNat
  | .int64, data => serializeNumber 8 (Int64.toUInt64 data).toNat
  | .uint32, data => serializeNumber 4 (UInt32.toNat data)
  | .uint64, data => serializeNumber 8 (UInt64.toNat data)
  | .string, data => serializeString data
  | .wstring, data => serializeWString data
  | .buffer size, data => serializeNumber 8 size ++ data.val
  | .stringList, data => serializeNumber 8 (List.length data) ++ List.flatMap serializeString data
  | .wstringList, data => serializeNumber 8 (List.length data) ++ List.flatMap serializeWString data

/-- `Serialize (name, data)` -/
def serialize (name : Bytes) (t : FieldType) (data : t.Value) : Bytes :=
  serializeString name ++ serializeValue t data

/-! ## Numbers -/

section Reading

variable {mem : Memory} {s rest : Bytes}

theorem readInto_ok_iff {capacity n : Nat} {data : Bytes} :
    (readCompleteBuffer capacity n).run s = .ok (data, rest) ↔
      n ≤ capacity ∧ data.length = n ∧ s = data ++ rest := by
  show readCompleteBuffer capacity n s = _ ↔ _
  rw [readCompleteBuffer]
  split
  case isTrue hout =>
    constructor
    · intro h
      cases h
    · rintro ⟨hcap, hlen, rfl⟩
      rw [List.length_append] at hout
      omega
  case isFalse hin =>
    split
    case isTrue hshort =>
      constructor
      · intro h
        cases h
      · rintro ⟨-, hlen, rfl⟩
        rw [List.length_append] at hshort
        omega
    case isFalse hlong =>
      constructor
      · intro h
        cases h
        exact ⟨by omega, by rw [List.length_take]; omega, (List.take_append_drop n s).symm⟩
      · rintro ⟨-, rfl, rfl⟩
        simp

theorem readInto_inside_iff {capacity n : Nat} :
    Avoids (readCompleteBuffer capacity n) .outside s ↔ min n s.length ≤ capacity := by
  show (∀ left, readCompleteBuffer capacity n s ≠ .error (.outside, left)) ↔ _
  rw [readCompleteBuffer]
  split
  case isTrue h =>
    constructor
    · intro hin
      exact absurd rfl (hin s)
    · intro hin
      omega
  case isFalse h =>
    have hin : min n s.length ≤ capacity := by omega
    split <;> simp [hin]

/-- A buffer of the size that is read. -/
theorem readCompleteBuffer_ok_iff {n : Nat} {data : Bytes} :
    (readCompleteBuffer n n).run s = .ok (data, rest) ↔ data.length = n ∧ s = data ++ rest := by
  simp [readInto_ok_iff]

theorem readCompleteBuffer_inside (n : Nat) : Avoids (readCompleteBuffer n n) .outside s :=
  readInto_inside_iff.mpr (Nat.min_le_left n s.length)

theorem deserializeNumber_ok_iff {width v : Nat} (hw : width < 2 ^ 64) :
    (deserializeNumber width).run s = .ok (v, rest) ↔
      v < 256 ^ width ∧ s = serializeNumber width v ++ rest := by
  rw [deserializeNumber, bind_ok_iff]
  constructor
  · rintro ⟨size, mid, hsize, h⟩
    obtain ⟨hlen, rfl⟩ := readCompleteBuffer_ok_iff.mp hsize
    by_cases hne : beNat size ≠ width
    · rw [if_pos hne] at h
      exact absurd h stop_ne_ok
    rw [if_neg hne] at h
    obtain ⟨data, mid', hdata, hpure⟩ := bind_ok_iff.mp h
    obtain ⟨hlen', rfl⟩ := readCompleteBuffer_ok_iff.mp hdata
    obtain ⟨rfl, rfl⟩ := pure_ok_iff.mp hpure
    have hwidth : beNat size = width := not_not.mp hne
    refine ⟨hlen' ▸ beNat_lt data, ?_⟩
    rw [serializeNumber, beBytes_beNat hlen', ← hwidth, beBytes_beNat hlen, List.append_assoc]
  · rintro ⟨hv, rfl⟩
    have hsize : beNat (beBytes 8 width) = width := by
      rw [beNat_beBytes]
      exact Nat.mod_eq_of_lt (lt_of_lt_of_eq hw (by norm_num))
    refine ⟨beBytes 8 width, beBytes width v ++ rest,
      readCompleteBuffer_ok_iff.mpr ⟨length_beBytes 8 width, by simp [serializeNumber]⟩, ?_⟩
    rw [if_neg (not_not.mpr hsize), bind_ok_iff]
    refine ⟨beBytes width v, rest,
      readCompleteBuffer_ok_iff.mpr ⟨length_beBytes width v, rfl⟩, ?_⟩
    rw [run_pure, beNat_beBytes, Nat.mod_eq_of_lt hv]

theorem deserializeNumber_inside (width : Nat) :
    Avoids (deserializeNumber width) .outside s := by
  rw [deserializeNumber, bind_avoids_iff]
  refine ⟨readCompleteBuffer_inside 8, fun size mid _ => ?_⟩
  split
  · exact stop_avoids (by simp)
  · rw [bind_avoids_iff]
    exact ⟨readCompleteBuffer_inside width, fun data mid _ => pure_avoids⟩

/-- The size that stands before a string, a buffer or a list. -/
theorem deserializeSize_ok_iff {n : Nat} :
    (deserializeNumber 8).run s = .ok (n, rest) ↔
      n < 2 ^ 64 ∧ s = serializeNumber 8 n ++ rest :=
  deserializeNumber_ok_iff (by decide)

/-! ## Strings -/

/-- The text `text` stands at the front of the stream, `rest` behind it. -/
def TextAt (mem : Memory) (s text rest : Bytes) : Prop :=
  ∃ n data, n < 2 ^ 64 ∧ s = serializeNumber 8 n ++ (data ++ rest) ∧ data.length = n ∧
    mem.allocates n ∧ 0 ∈ data ∧ text = data.takeWhile (· ≠ 0)

/-- A string that can be read at the front of the stream has a size, and a terminator within it. -/
def TextSafe (mem : Memory) (s : Bytes) : Prop :=
  ∀ n behind, n < 2 ^ 64 → s = serializeNumber 8 n ++ behind → mem.allocates n →
    n ≠ 0 ∧ (n ≤ behind.length → 0 ∈ behind.take n)

/-- The wide text `text` stands at the front of the stream. -/
def WTextAt (mem : Memory) (s : Bytes) (text : WString) (rest : Bytes) : Prop :=
  ∃ n data, n < 2 ^ 64 ∧ s = serializeNumber 8 n ++ (data ++ rest) ∧ data.length = n ∧
    n % sizeofWchar = 0 ∧ mem.allocates n ∧ 0 ∈ wchars data ∧
    text = (wchars data).takeWhile (· ≠ 0)

/-- A wide string that can be read holds a character, its bytes as far as the stream has them fit
    the whole characters of its size, and one of those is the terminator. -/
def WTextSafe (mem : Memory) (s : Bytes) : Prop :=
  ∀ n behind, n < 2 ^ 64 → s = serializeNumber 8 n ++ behind →
    mem.allocates (sizeofWchar * (n / sizeofWchar)) →
    sizeofWchar ≤ n ∧ min n behind.length ≤ sizeofWchar * (n / sizeofWchar) ∧
      (n ≤ behind.length → 0 ∈ wchars (behind.take n))

theorem allocate_ok_iff {bytes : Nat} {u : Unit} :
    (allocate mem bytes).run s = .ok (u, rest) ↔ mem.allocates bytes ∧ s = rest := by
  rw [allocate]
  split
  case isTrue h =>
    rw [pure_ok_iff]
    simp [h]
  case isFalse h =>
    constructor
    · intro hok
      exact absurd hok stop_ne_ok
    · rintro ⟨halloc, -⟩
      exact absurd halloc h

theorem allocate_inside (bytes : Nat) : Avoids (allocate mem bytes) .outside s := by
  rw [allocate]
  split
  · exact pure_avoids
  · exact stop_avoids (by simp)

theorem deserializeString_ok_iff {text : Bytes} :
    (deserializeString mem).run s = .ok (text, rest) ↔ TextAt mem s text rest := by
  rw [deserializeString, bind_ok_iff]
  constructor
  · rintro ⟨n, mid, hn, h⟩
    obtain ⟨hlt, rfl⟩ := deserializeSize_ok_iff.mp hn
    obtain ⟨u, mid', ha, hread⟩ := bind_ok_iff.mp h
    obtain ⟨halloc, rfl⟩ := allocate_ok_iff.mp ha
    by_cases hzero : n = 0
    · rw [if_pos hzero] at hread
      exact absurd hread stop_ne_ok
    rw [if_neg hzero] at hread
    obtain ⟨data, mid'', hd, htext⟩ := bind_ok_iff.mp hread
    obtain ⟨hlen, rfl⟩ := readCompleteBuffer_ok_iff.mp hd
    by_cases hterm : 0 ∈ data
    · rw [cString, if_pos hterm] at htext
      obtain ⟨rfl, rfl⟩ := pure_ok_iff.mp htext
      exact ⟨n, data, hlt, rfl, hlen, halloc, hterm, rfl⟩
    · rw [cString, if_neg hterm] at htext
      exact absurd htext stop_ne_ok
  · rintro ⟨n, data, hlt, rfl, hlen, halloc, hterm, rfl⟩
    have hzero : n ≠ 0 := by
      rintro rfl
      rw [List.length_eq_zero_iff.mp hlen] at hterm
      simp at hterm
    refine ⟨n, _, deserializeSize_ok_iff.mpr ⟨hlt, rfl⟩, bind_ok_iff.mpr
      ⟨(), _, allocate_ok_iff.mpr ⟨halloc, rfl⟩, ?_⟩⟩
    rw [if_neg hzero, bind_ok_iff]
    refine ⟨data, rest, readCompleteBuffer_ok_iff.mpr ⟨hlen, rfl⟩, ?_⟩
    rw [cString, if_pos hterm, run_pure]

theorem deserializeString_inside_iff :
    Avoids (deserializeString mem) .outside s ↔ TextSafe mem s := by
  rw [deserializeString, bind_avoids_iff]
  constructor
  · rintro ⟨-, h⟩ n behind hlt rfl halloc
    have hsize := h n behind (deserializeSize_ok_iff.mpr ⟨hlt, rfl⟩)
    rw [bind_avoids_iff] at hsize
    have hread := hsize.2 () behind (allocate_ok_iff.mpr ⟨halloc, rfl⟩)
    by_cases hzero : n = 0
    · rw [if_pos hzero] at hread
      exact absurd hread not_avoids_stop
    rw [if_neg hzero, bind_avoids_iff] at hread
    refine ⟨hzero, fun hlong => ?_⟩
    -- the bytes of the string are there, so the vector is filled and then read up to its terminator
    have htext := hread.2 (behind.take n) (behind.drop n) (readCompleteBuffer_ok_iff.mpr
      ⟨by rw [List.length_take]; omega, (List.take_append_drop n behind).symm⟩)
    by_contra hterm
    rw [cString, if_neg hterm] at htext
    exact not_avoids_stop htext
  · intro h
    refine ⟨deserializeNumber_inside 8, fun n behind hn => ?_⟩
    obtain ⟨hlt, rfl⟩ := deserializeSize_ok_iff.mp hn
    rw [bind_avoids_iff]
    refine ⟨allocate_inside n, fun _ mid ha => ?_⟩
    obtain ⟨halloc, rfl⟩ := allocate_ok_iff.mp ha
    obtain ⟨hzero, hterm⟩ := h n behind hlt rfl halloc
    rw [if_neg hzero, bind_avoids_iff]
    refine ⟨readCompleteBuffer_inside n, fun data mid hd => ?_⟩
    obtain ⟨hlen, rfl⟩ := readCompleteBuffer_ok_iff.mp hd
    have hmem := hterm (by rw [List.length_append]; omega)
    rw [← hlen, List.take_left] at hmem
    rw [cString, if_pos hmem]
    exact pure_avoids

/-! ## Wide strings -/

theorem deserializeWString_ok_iff {text : WString} :
    (deserializeWString mem).run s = .ok (text, rest) ↔ WTextAt mem s text rest := by
  rw [deserializeWString, bind_ok_iff]
  constructor
  · rintro ⟨n, mid, hn, h⟩
    obtain ⟨hlt, rfl⟩ := deserializeSize_ok_iff.mp hn
    obtain ⟨u, mid', ha, hread⟩ := bind_ok_iff.mp h
    obtain ⟨halloc, rfl⟩ := allocate_ok_iff.mp ha
    by_cases hzero : n / sizeofWchar = 0
    · rw [if_pos hzero] at hread
      exact absurd hread stop_ne_ok
    rw [if_neg hzero] at hread
    obtain ⟨data, mid'', hd, htext⟩ := bind_ok_iff.mp hread
    obtain ⟨hcap, hlen, rfl⟩ := readInto_ok_iff.mp hd
    have hmul : n % sizeofWchar = 0 := by
      have hdiv := Nat.div_add_mod n sizeofWchar
      omega
    have hwhole : sizeofWchar * (n / sizeofWchar) = n := Nat.mul_div_cancel' (Nat.dvd_of_mod_eq_zero hmul)
    by_cases hterm : 0 ∈ wchars data
    · rw [wString, if_pos hterm] at htext
      obtain ⟨rfl, rfl⟩ := pure_ok_iff.mp htext
      exact ⟨n, data, hlt, rfl, hlen, hmul, hwhole ▸ halloc, hterm, rfl⟩
    · rw [wString, if_neg hterm] at htext
      exact absurd htext stop_ne_ok
  · rintro ⟨n, data, hlt, rfl, hlen, hmul, halloc, hterm, rfl⟩
    have hwhole : sizeofWchar * (n / sizeofWchar) = n := Nat.mul_div_cancel' (Nat.dvd_of_mod_eq_zero hmul)
    have hzero : n / sizeofWchar ≠ 0 := by
      intro hnone
      rw [← hlen] at hnone
      simp [wchars, hnone] at hterm
    refine ⟨n, _, deserializeSize_ok_iff.mpr ⟨hlt, rfl⟩, bind_ok_iff.mpr
      ⟨(), _, allocate_ok_iff.mpr ⟨hwhole.symm ▸ halloc, rfl⟩, ?_⟩⟩
    rw [if_neg hzero, bind_ok_iff]
    refine ⟨data, rest, readInto_ok_iff.mpr ⟨le_of_eq hwhole.symm, hlen, rfl⟩, ?_⟩
    rw [wString, if_pos hterm, run_pure]

theorem deserializeWString_inside_iff :
    Avoids (deserializeWString mem) .outside s ↔ WTextSafe mem s := by
  rw [deserializeWString, bind_avoids_iff]
  constructor
  · rintro ⟨-, h⟩ n behind hlt rfl halloc
    have hsize := h n behind (deserializeSize_ok_iff.mpr ⟨hlt, rfl⟩)
    rw [bind_avoids_iff] at hsize
    have hread := hsize.2 () behind (allocate_ok_iff.mpr ⟨halloc, rfl⟩)
    by_cases hzero : n / sizeofWchar = 0
    · rw [if_pos hzero] at hread
      exact absurd hread not_avoids_stop
    rw [if_neg hzero, bind_avoids_iff] at hread
    have hfits := readInto_inside_iff.mp hread.1
    have hsome : sizeofWchar ≤ n := by
      by_contra hfew
      exact hzero (Nat.div_eq_of_lt (by omega))
    refine ⟨hsome, hfits, fun hlong => ?_⟩
    have htext := hread.2 (behind.take n) (behind.drop n) (readInto_ok_iff.mpr
      ⟨by omega, by rw [List.length_take]; omega, (List.take_append_drop n behind).symm⟩)
    by_contra hterm
    rw [wString, if_neg hterm] at htext
    exact not_avoids_stop htext
  · intro h
    refine ⟨deserializeNumber_inside 8, fun n behind hn => ?_⟩
    obtain ⟨hlt, rfl⟩ := deserializeSize_ok_iff.mp hn
    rw [bind_avoids_iff]
    refine ⟨allocate_inside _, fun _ mid ha => ?_⟩
    obtain ⟨halloc, rfl⟩ := allocate_ok_iff.mp ha
    obtain ⟨hsome, hfits, hterm⟩ := h n behind hlt rfl halloc
    have hzero : n / sizeofWchar ≠ 0 :=
      Nat.ne_of_gt (Nat.div_pos hsome (by decide))
    rw [if_neg hzero, bind_avoids_iff]
    refine ⟨readInto_inside_iff.mpr hfits, fun data mid hd => ?_⟩
    obtain ⟨-, hlen, rfl⟩ := readInto_ok_iff.mp hd
    have hmem := hterm (by rw [List.length_append]; omega)
    rw [← hlen, List.take_left] at hmem
    rw [wString, if_pos hmem]
    exact pure_avoids

/-! ## Lists -/

variable {α : Type} {item : Reader α}

/-- `n` items can be read, one behind the other, `At` being what it is for one to stand at the front
    of a stream. -/
def ItemsSafe (safe : Bytes → Prop) (At : Bytes → Bytes → Prop) : Nat → Bytes → Prop
  | 0, _ => True
  | n + 1, s => safe s ∧ ∀ rest, At s rest → ItemsSafe safe At n rest

theorem deserializeItems_inside_iff {safe : Bytes → Prop} {At : Bytes → Bytes → Prop}
    (hsafe : ∀ s, Avoids item .outside s ↔ safe s)
    (hat : ∀ s rest, (∃ x, item.run s = .ok (x, rest)) ↔ At s rest) (n : Nat) (s : Bytes) :
    Avoids (deserializeItems item n) .outside s ↔ ItemsSafe safe At n s := by
  induction n generalizing s with
  | zero =>
    simp only [deserializeItems, ItemsSafe, iff_true]
    exact pure_avoids
  | succ n ih =>
    simp only [deserializeItems, ItemsSafe]
    rw [bind_avoids_iff, hsafe]
    refine and_congr_right fun _ => ?_
    have htail : ∀ x rest, Avoids (deserializeItems item n >>= fun xs => (pure (x :: xs) : Reader _))
        .outside rest ↔ ItemsSafe safe At n rest := by
      intro x rest
      rw [bind_avoids_iff, ih]
      exact and_iff_left fun _ _ _ => pure_avoids
    constructor
    · intro h rest hrest
      obtain ⟨x, hx⟩ := (hat s rest).mpr hrest
      exact (htail x rest).mp (h x rest hx)
    · intro h x rest hx
      exact (htail x rest).mpr (h rest ((hat s rest).mp ⟨x, hx⟩))

end Reading

/-! ## What was written -/

section Writing

variable {mem : Memory}

theorem serializeNumber_inj {n m : Nat} {a b : Bytes} (hn : n < 2 ^ 64) (hm : m < 2 ^ 64)
    (h : serializeNumber 8 n ++ a = serializeNumber 8 m ++ b) : n = m ∧ a = b := by
  have hleft : (deserializeNumber 8).run (serializeNumber 8 n ++ a) = .ok (n, a) :=
    deserializeSize_ok_iff.mpr ⟨hn, rfl⟩
  have hright : (deserializeNumber 8).run (serializeNumber 8 m ++ b) = .ok (m, b) :=
    deserializeSize_ok_iff.mpr ⟨hm, rfl⟩
  rw [h, hright] at hleft
  cases hleft
  exact ⟨rfl, rfl⟩

theorem deserializeNumber_serializeNumber (width v : Nat) (hw : width < 2 ^ 64)
    (hv : v < 256 ^ width) : ReadsIf True (deserializeNumber width) (serializeNumber width v) v := by
  intro rest u rest'
  have hback : (deserializeNumber width).run (serializeNumber width v ++ rest) = .ok (v, rest) :=
    (deserializeNumber_ok_iff hw).mpr ⟨hv, rfl⟩
  rw [hback]
  constructor
  · intro h
    cases h
    exact ⟨trivial, rfl, rfl⟩
  · rintro ⟨-, rfl, rfl⟩
    rfl

theorem takeWhile_terminated {α : Type} [DecidableEq α] (zero : α) (data : List α) :
    (data ++ [zero]).takeWhile (· ≠ zero) = data.takeWhile (· ≠ zero) := by
  induction data with
  | nil => simp
  | cons x data ih =>
    by_cases hx : x = zero
    · simp [hx]
    · simpa [List.takeWhile_cons, hx] using ih

/-- What comes back of a string is what stands before its first terminator. -/
theorem deserializeString_serializeString (mem : Memory) {data : Bytes} (h : data.length + 1 < 2 ^ 64) :
    ReadsIf (mem.allocates (data.length + 1)) (deserializeString mem) (serializeString data)
      (data.takeWhile (· ≠ 0)) := by
  intro rest text rest'
  have htail := takeWhile_terminated 0 data
  rw [deserializeString_ok_iff]
  constructor
  · rintro ⟨n, body, hlt, heq, hlen, halloc, -, rfl⟩
    rw [serializeString, List.append_assoc, List.append_assoc] at heq
    obtain ⟨rfl, hbody⟩ := serializeNumber_inj h hlt heq
    rw [← List.append_assoc] at hbody
    obtain ⟨rfl, rfl⟩ := List.append_inj hbody (by simp [hlen])
    exact ⟨halloc, htail, rfl⟩
  · rintro ⟨halloc, rfl, rfl⟩
    exact ⟨data.length + 1, data ++ [0], h, by simp [serializeString], by simp, halloc, by simp,
      htail.symm⟩

theorem wchars_cons (ch : UInt32) (bytes : Bytes) :
    wchars (leBytes sizeofWchar ch.toNat ++ bytes) = ch :: wchars bytes := by
  have hcount : (leBytes sizeofWchar ch.toNat ++ bytes).length / sizeofWchar =
      bytes.length / sizeofWchar + 1 := by
    rw [List.length_append, length_leBytes, Nat.add_comm, Nat.add_div_right _ (by decide)]
  rw [wchars, hcount, List.range_succ_eq_map, List.map_cons, List.map_map, wchars]
  refine congrArg₂ List.cons ?_ ?_
  · have hch : ch.toNat < 256 ^ sizeofWchar := ch.toNat_lt
    rw [Nat.mul_zero, List.drop_zero, List.take_left' (length_leBytes _ _), leNat_leBytes,
      Nat.mod_eq_of_lt hch]
    exact UInt32.ofNat_toNat
  · refine List.map_congr_left fun i _ => ?_
    have hstep : sizeofWchar * i.succ = sizeofWchar + sizeofWchar * i := by
      rw [Nat.mul_succ, Nat.add_comm]
    rw [Function.comp_apply, hstep, ← List.drop_drop, List.drop_left' (length_leBytes _ _)]

theorem wchars_flatMap (data : WString) :
    wchars (data.flatMap (fun ch : UInt32 => leBytes sizeofWchar ch.toNat)) = data := by
  induction data with
  | nil => rfl
  | cons ch data ih => rw [List.flatMap_cons, wchars_cons, ih]

theorem length_flatMap_leBytes (data : WString) :
    (data.flatMap (fun ch : UInt32 => leBytes sizeofWchar ch.toNat)).length =
      data.length * sizeofWchar := by
  induction data with
  | nil => rfl
  | cons ch data ih =>
    rw [List.flatMap_cons, List.length_append, ih, length_leBytes, List.length_cons, Nat.succ_mul,
      Nat.add_comm]

theorem deserializeWString_serializeWString (mem : Memory) {data : WString}
    (h : (data.length + 1) * sizeofWchar < 2 ^ 64) :
    ReadsIf (mem.allocates ((data.length + 1) * sizeofWchar)) (deserializeWString mem)
      (serializeWString data) (data.takeWhile (· ≠ 0)) := by
  intro rest text rest'
  have htail := takeWhile_terminated 0 data
  have hlength := length_flatMap_leBytes (data ++ [0])
  rw [List.length_append, List.length_singleton] at hlength
  rw [deserializeWString_ok_iff]
  constructor
  · rintro ⟨n, body, hlt, heq, hlen, -, halloc, -, rfl⟩
    rw [serializeWString, List.append_assoc] at heq
    obtain ⟨rfl, hbody⟩ := serializeNumber_inj h hlt heq
    obtain ⟨rfl, rfl⟩ := List.append_inj hbody (by rw [hlength, hlen])
    rw [wchars_flatMap]
    exact ⟨halloc, htail, rfl⟩
  · rintro ⟨halloc, rfl, rfl⟩
    refine ⟨(data.length + 1) * sizeofWchar, _, h, by rw [serializeWString, List.append_assoc],
      hlength, Nat.mul_mod_left _ _, halloc, ?_, ?_⟩
    · rw [wchars_flatMap]
      simp
    · rw [wchars_flatMap, htail]

theorem deserializeItems_flatMap {α : Type} {item : Reader α} {write : α → Bytes} {cond : α → Prop}
    {back : α → α} (xs : List α) (h : ∀ x ∈ xs, ReadsIf (cond x) item (write x) (back x)) :
    ReadsIf (∀ x ∈ xs, cond x) (deserializeItems item xs.length) (xs.flatMap write) (xs.map back) := by
  induction xs with
  | nil =>
    simp only [List.length_nil, deserializeItems, List.flatMap_nil, List.map_nil]
    exact (readsIf_pure []).congr (by simp)
  | cons x xs ih =>
    simp only [List.length_cons, deserializeItems, List.flatMap_cons, List.map_cons]
    have htail := ih fun y hy => h y (List.mem_cons_of_mem x hy)
    exact ((h x List.mem_cons_self).bind htail.map).congr (by simp)

/-! ## Values -/

/-- Sizes are of 64 bits. -/
def Sized : (t : FieldType) → t.Value → Prop
  | .string, data => List.length data + 1 < 2 ^ 64
  | .wstring, data => (List.length data + 1) * sizeofWchar < 2 ^ 64
  | .buffer size, _ => size < 2 ^ 64
  | .stringList, items =>
    List.length items < 2 ^ 64 ∧ ∀ data : Bytes, data ∈ (items : List Bytes) → data.length + 1 < 2 ^ 64
  | .wstringList, items =>
    List.length items < 2 ^ 64 ∧
      ∀ data : WString, data ∈ (items : List WString) → (data.length + 1) * sizeofWchar < 2 ^ 64
  | _, _ => True

/-- The strings of a value can be allocated. -/
def HasRoom (mem : Memory) : (t : FieldType) → t.Value → Prop
  | .string, data => mem.allocates (List.length data + 1)
  | .wstring, data => mem.allocates ((List.length data + 1) * sizeofWchar)
  | .stringList, items => ∀ data : Bytes, data ∈ (items : List Bytes) → mem.allocates (data.length + 1)
  | .wstringList, items =>
    ∀ data : WString, data ∈ (items : List WString) → mem.allocates ((data.length + 1) * sizeofWchar)
  | _, _ => True

/-- No string of a value holds a terminator. -/
def Whole : (t : FieldType) → t.Value → Prop
  | .string, data => (0 : UInt8) ∉ (data : Bytes)
  | .wstring, data => (0 : UInt32) ∉ (data : WString)
  | .stringList, items => ∀ data : Bytes, data ∈ (items : List Bytes) → 0 ∉ data
  | .wstringList, items => ∀ data : WString, data ∈ (items : List WString) → 0 ∉ data
  | _, _ => True

/-- What of a value comes back. -/
def cut : (t : FieldType) → t.Value → t.Value
  | .string, data => List.takeWhile (· ≠ (0 : UInt8)) data
  | .wstring, data => List.takeWhile (· ≠ (0 : UInt32)) data
  | .stringList, items => List.map (List.takeWhile (· ≠ (0 : UInt8))) items
  | .wstringList, items => List.map (List.takeWhile (· ≠ (0 : UInt32))) items
  | _, data => data

theorem takeWhile_eq_self_iff {α : Type} [DecidableEq α] {zero : α} {data : List α} :
    data.takeWhile (· ≠ zero) = data ↔ zero ∉ data := by
  induction data with
  | nil => simp
  | cons x data ih =>
    by_cases hx : x = zero
    · simp [hx]
    · have hx' : zero ≠ x := fun h => hx h.symm
      simpa [List.takeWhile_cons, hx, hx'] using ih

theorem map_takeWhile_eq_self_iff {α : Type} [DecidableEq α] {zero : α} {items : List (List α)} :
    items.map (List.takeWhile (· ≠ zero)) = items ↔ ∀ data ∈ items, zero ∉ data := by
  induction items with
  | nil => simp
  | cons data items ih =>
    rw [List.map_cons, List.cons.injEq, ih, takeWhile_eq_self_iff]
    simp

theorem cut_eq_self_iff (t : FieldType) (v : t.Value) : cut t v = v ↔ Whole t v := by
  cases t with
  | string => exact takeWhile_eq_self_iff
  | wstring => exact takeWhile_eq_self_iff
  | stringList => exact map_takeWhile_eq_self_iff
  | wstringList => exact map_takeWhile_eq_self_iff
  | _ => exact ⟨fun _ => trivial, fun _ => rfl⟩

theorem deserializeBuffer_serialize {size : Nat} (h : size < 2 ^ 64)
    (data : { data : Bytes // data.length = size }) :
    ReadsIf True (deserializeBuffer size) (serializeNumber 8 size ++ data.val) data := by
  have hbody : ReadsIf True (if size ≠ size then stop Stop.parameterIncorrect
      else do
        let data ← readCompleteBuffer size size
        if h : data.length = size then pure ⟨data, h⟩ else stop Stop.insufficientData :
          Reader { data : Bytes // data.length = size }) data.val data := by
    intro rest b rest'
    rw [if_neg (not_not.mpr rfl), bind_ok_iff]
    constructor
    · rintro ⟨x, mid, hread, hpure⟩
      obtain ⟨hlen, heq⟩ := readCompleteBuffer_ok_iff.mp hread
      obtain ⟨hx, hmid⟩ := List.append_inj heq (data.property.trans hlen.symm)
      rw [dif_pos hlen] at hpure
      obtain ⟨hb, hrest⟩ := pure_ok_iff.mp hpure
      exact ⟨trivial, hb.symm.trans (Subtype.ext hx.symm), hrest.symm.trans hmid.symm⟩
    · rintro ⟨-, rfl, rfl⟩
      refine ⟨b.val, rest', readCompleteBuffer_ok_iff.mpr ⟨b.property, rfl⟩, ?_⟩
      rw [dif_pos b.property]
      rfl
  exact ((deserializeNumber_serializeNumber _ _ (by decide) h).bind hbody).congr (and_self_iff)

theorem deserializeValue_serializeValue (t : FieldType) (v : t.Value) (h : Sized t v) :
    ReadsIf (HasRoom mem t v) (deserializeValue mem t) (serializeValue t v) (cut t v) := by
  cases t with
  | bool =>
    cases v with
    | false => exact (deserializeNumber_serializeNumber _ _ (by decide) (by decide)).map
    | true => exact (deserializeNumber_serializeNumber _ _ (by decide) (by decide)).map
  | uint8 =>
    have hread := (deserializeNumber_serializeNumber 1 _ (by decide)
      (UInt8.toNat_lt v)).map (g := UInt8.ofNat)
    rwa [UInt8.ofNat_toNat] at hread
  | int32 =>
    have hread := (deserializeNumber_serializeNumber 4 _ (by decide)
      (UInt32.toNat_lt (Int32.toUInt32 v))).map (g := fun data => (UInt32.ofNat data).toInt32)
    rwa [UInt32.ofNat_toNat, Int32.toInt32_toUInt32] at hread
  | int64 =>
    have hread := (deserializeNumber_serializeNumber 8 _ (by decide)
      (UInt64.toNat_lt (Int64.toUInt64 v))).map (g := fun data => (UInt64.ofNat data).toInt64)
    rwa [UInt64.ofNat_toNat, Int64.toInt64_toUInt64] at hread
  | uint32 =>
    have hread := (deserializeNumber_serializeNumber 4 _ (by decide)
      (UInt32.toNat_lt v)).map (g := UInt32.ofNat)
    rwa [UInt32.ofNat_toNat] at hread
  | uint64 =>
    have hread := (deserializeNumber_serializeNumber 8 _ (by decide)
      (UInt64.toNat_lt v)).map (g := UInt64.ofNat)
    rwa [UInt64.ofNat_toNat] at hread
  | string => exact deserializeString_serializeString mem h
  | wstring => exact deserializeWString_serializeWString mem h
  | buffer size => exact deserializeBuffer_serialize h v
  | stringList =>
    have hitems := deserializeItems_flatMap v fun data hdata =>
      deserializeString_serializeString mem (h.2 data hdata)
    exact ((deserializeNumber_serializeNumber _ _ (by decide) h.1).bind hitems).congr (and_iff_right trivial)
  | wstringList =>
    have hitems := deserializeItems_flatMap v fun data hdata =>
      deserializeWString_serializeWString mem (h.2 data hdata)
    exact ((deserializeNumber_serializeNumber _ _ (by decide) h.1).bind hitems).congr (and_iff_right trivial)

theorem validateName_serializeString {name : Bytes} (h : name.length + 1 < 2 ^ 64) :
    ReadsIf (mem.allocates (name.length + 1) ∧ 0 ∉ name) (validateName mem name)
      (serializeString name) () := by
  intro rest u rest'
  rw [validateName, bind_ok_iff]
  constructor
  · rintro ⟨dName, mid, hread, hcheck⟩
    obtain ⟨halloc, rfl, rfl⟩ := (deserializeString_serializeString mem h _ _ _).mp hread
    by_cases hcut : name.takeWhile (· ≠ 0) ≠ name
    · rw [if_pos hcut] at hcheck
      exact absurd hcheck stop_ne_ok
    · rw [if_neg hcut] at hcheck
      obtain ⟨-, hrest⟩ := pure_ok_iff.mp hcheck
      exact ⟨⟨halloc, takeWhile_eq_self_iff.mp (not_not.mp hcut)⟩, rfl, hrest.symm⟩
  · rintro ⟨⟨halloc, hwhole⟩, -, rfl⟩
    refine ⟨_, rest', (deserializeString_serializeString mem h _ _ _).mpr ⟨halloc, rfl, rfl⟩, ?_⟩
    rw [if_neg (not_not.mpr (takeWhile_eq_self_iff.mpr hwhole))]
    rfl

/-! ## A call -/

/-- What stands behind the name can be read within its buffers. -/
def PayloadSafe (mem : Memory) : FieldType → Bytes → Prop
  | .string, s => TextSafe mem s
  | .wstring, s => WTextSafe mem s
  | .stringList, s => ∀ n behind, n < 2 ^ 64 → s = serializeNumber 8 n ++ behind →
    ItemsSafe (TextSafe mem) (fun s rest => ∃ text, TextAt mem s text rest) n behind
  | .wstringList, s => ∀ n behind, n < 2 ^ 64 → s = serializeNumber 8 n ++ behind →
    ItemsSafe (WTextSafe mem) (fun s rest => ∃ text, WTextAt mem s text rest) n behind
  | _, _ => True

/-- The strings that a call reads, as far as it comes, are terminated within their sizes, and the
    sizes are those of whole characters. -/
def StreamSafe (mem : Memory) (name : Bytes) (t : FieldType) (s : Bytes) : Prop :=
  TextSafe mem s ∧ ∀ rest, TextAt mem s name rest → PayloadSafe mem t rest

theorem deserialize_serialize_reads {name : Bytes} (hname : name.length + 1 < 2 ^ 64)
    (t : FieldType) (v : t.Value) (h : Sized t v) :
    ReadsIf ((mem.allocates (name.length + 1) ∧ 0 ∉ name) ∧ HasRoom mem t v) (deserialize mem name t)
      (serialize name t v) (cut t v) :=
  (validateName_serializeString hname).bind (deserializeValue_serializeValue t v h)

theorem validateName_inside_iff {name s : Bytes} :
    Avoids (validateName mem name) .outside s ↔ TextSafe mem s := by
  rw [validateName, bind_avoids_iff, deserializeString_inside_iff]
  refine and_iff_left fun dName rest _ => ?_
  split
  · exact stop_avoids (by simp)
  · exact pure_avoids

theorem validateName_ok_iff {name s rest : Bytes} {u : Unit} :
    (validateName mem name).run s = .ok (u, rest) ↔ TextAt mem s name rest := by
  rw [validateName, bind_ok_iff]
  constructor
  · rintro ⟨dName, mid, hread, hcheck⟩
    by_cases hne : dName ≠ name
    · rw [if_pos hne] at hcheck
      exact absurd hcheck stop_ne_ok
    · rw [if_neg hne] at hcheck
      obtain ⟨-, rfl⟩ := pure_ok_iff.mp hcheck
      obtain rfl := not_not.mp hne
      exact deserializeString_ok_iff.mp hread
  · intro h
    refine ⟨name, rest, deserializeString_ok_iff.mpr h, ?_⟩
    rw [if_neg (not_not.mpr rfl)]
    rfl

theorem number_inside {α : Type} {width : Nat} {f : Nat → α} {s : Bytes} :
    Avoids (deserializeNumber width >>= fun data => (pure (f data) : Reader α)) .outside s := by
  rw [bind_avoids_iff]
  exact ⟨deserializeNumber_inside width, fun _ _ _ => pure_avoids⟩

theorem deserializeBuffer_inside {size : Nat} {s : Bytes} :
    Avoids (deserializeBuffer size) .outside s := by
  rw [deserializeBuffer, bind_avoids_iff]
  refine ⟨deserializeNumber_inside 8, fun stated mid _ => ?_⟩
  split
  · exact stop_avoids (by simp)
  · rw [bind_avoids_iff]
    refine ⟨readCompleteBuffer_inside size, fun data mid _ => ?_⟩
    split
    · exact pure_avoids
    · exact stop_avoids (by simp)

theorem list_inside_iff {α : Type} {item : Reader α} {safe : Bytes → Prop}
    {At : Bytes → Bytes → Prop} (hsafe : ∀ s, Avoids item .outside s ↔ safe s)
    (hat : ∀ s rest, (∃ x, item.run s = .ok (x, rest)) ↔ At s rest) (s : Bytes) :
    Avoids (deserializeNumber 8 >>= fun listSize => deserializeItems item listSize) .outside s ↔
      ∀ n behind, n < 2 ^ 64 → s = serializeNumber 8 n ++ behind → ItemsSafe safe At n behind := by
  rw [bind_avoids_iff, and_iff_right (deserializeNumber_inside 8)]
  constructor
  · intro h n behind hlt hs
    exact (deserializeItems_inside_iff hsafe hat n behind).mp
      (h n behind (deserializeSize_ok_iff.mpr ⟨hlt, hs⟩))
  · intro h n behind hn
    obtain ⟨hlt, hs⟩ := deserializeSize_ok_iff.mp hn
    exact (deserializeItems_inside_iff hsafe hat n behind).mpr (h n behind hlt hs)

theorem deserializeValue_inside_iff (t : FieldType) (s : Bytes) :
    Avoids (deserializeValue mem t) .outside s ↔ PayloadSafe mem t s := by
  cases t with
  | string => exact deserializeString_inside_iff
  | wstring => exact deserializeWString_inside_iff
  | stringList =>
    exact list_inside_iff (fun _ => deserializeString_inside_iff)
      (fun _ _ => exists_congr fun _ => deserializeString_ok_iff) s
  | wstringList =>
    exact list_inside_iff (fun _ => deserializeWString_inside_iff)
      (fun _ _ => exists_congr fun _ => deserializeWString_ok_iff) s
  | buffer size => exact iff_of_true deserializeBuffer_inside trivial
  | _ => exact iff_of_true number_inside trivial

theorem deserialize_inside_iff (name : Bytes) (t : FieldType) (s : Bytes) :
    Avoids (deserialize mem name t) .outside s ↔ StreamSafe mem name t s := by
  rw [deserialize, bind_avoids_iff, validateName_inside_iff]
  refine and_congr_right fun _ => ?_
  constructor
  · intro h rest hname
    exact (deserializeValue_inside_iff t rest).mp (h () rest (validateName_ok_iff.mpr hname))
  · intro h _ rest hname
    exact (deserializeValue_inside_iff t rest).mpr (h rest (validateName_ok_iff.mp hname))

/-! ## What a value is made of -/

theorem takesOnly_readCompleteBuffer (capacity n : Nat) :
    TakesOnly (readCompleteBuffer capacity n) := by
  intro s data rest h
  obtain ⟨hcap, hlen, rfl⟩ := readInto_ok_iff.mp h
  exact ⟨data, rfl, fun rest' => readInto_ok_iff.mpr ⟨hcap, hlen, rfl⟩⟩

theorem takesOnly_deserializeNumber (width : Nat) : TakesOnly (deserializeNumber width) :=
  (takesOnly_readCompleteBuffer 8 8).bind fun _ =>
    takesOnly_ite (takesOnly_stop _)
      ((takesOnly_readCompleteBuffer width width).bind fun _ => takesOnly_pure _)

theorem takesOnly_allocate (bytes : Nat) : TakesOnly (allocate mem bytes) :=
  takesOnly_ite (takesOnly_pure _) (takesOnly_stop _)

theorem takesOnly_deserializeString : TakesOnly (deserializeString mem) :=
  (takesOnly_deserializeNumber 8).bind fun size =>
    (takesOnly_allocate size).bind fun _ => takesOnly_ite (takesOnly_stop _)
      ((takesOnly_readCompleteBuffer size size).bind fun _ =>
        takesOnly_ite (takesOnly_pure _) (takesOnly_stop _))

theorem takesOnly_deserializeWString : TakesOnly (deserializeWString mem) :=
  (takesOnly_deserializeNumber 8).bind fun size =>
    (takesOnly_allocate _).bind fun _ => takesOnly_ite (takesOnly_stop _)
      ((takesOnly_readCompleteBuffer _ size).bind fun _ =>
        takesOnly_ite (takesOnly_pure _) (takesOnly_stop _))

theorem takesOnly_deserializeItems {α : Type} {item : Reader α} (h : TakesOnly item) (n : Nat) :
    TakesOnly (deserializeItems item n) := by
  induction n with
  | zero => exact takesOnly_pure []
  | succ n ih => exact h.bind fun _ => ih.bind fun _ => takesOnly_pure _

theorem takesOnly_deserializeBuffer (size : Nat) : TakesOnly (deserializeBuffer size) := by
  refine (takesOnly_deserializeNumber 8).bind fun _ => takesOnly_ite (takesOnly_stop _)
    ((takesOnly_readCompleteBuffer size size).bind fun data => ?_)
  by_cases h : data.length = size
  · rw [dif_pos h]
    exact takesOnly_pure _
  · rw [dif_neg h]
    exact takesOnly_stop _

theorem takesOnly_deserializeValue (t : FieldType) : TakesOnly (deserializeValue mem t) := by
  cases t with
  | string => exact takesOnly_deserializeString
  | wstring => exact takesOnly_deserializeWString
  | stringList =>
    exact (takesOnly_deserializeNumber 8).bind (takesOnly_deserializeItems takesOnly_deserializeString)
  | wstringList =>
    exact (takesOnly_deserializeNumber 8).bind (takesOnly_deserializeItems takesOnly_deserializeWString)
  | buffer size => exact takesOnly_deserializeBuffer size
  | _ => exact (takesOnly_deserializeNumber _).bind fun _ => takesOnly_pure _

theorem takesOnly_deserialize (name : Bytes) (t : FieldType) : TakesOnly (deserialize mem name t) :=
  TakesOnly.bind
    (takesOnly_deserializeString.bind fun _ => takesOnly_ite (takesOnly_stop _) (takesOnly_pure _))
    fun _ => takesOnly_deserializeValue t

/-- A call keeps to its buffers on exactly the streams whose strings are terminated within sizes of
    whole characters; what it gives is made of the bytes it has taken; and what was written comes
    back exactly where no string of it, its name among them, holds a terminator. -/
theorem deserialize_faithful_iff {name : Bytes} (hname : name.length + 1 < 2 ^ 64) (t : FieldType) :
    (∀ s, Avoids (deserialize mem name t) .outside s ↔ StreamSafe mem name t s) ∧
      TakesOnly (deserialize mem name t) ∧
      ∀ v, Sized t v → ∀ rest, (deserialize mem name t).run (serialize name t v ++ rest) = .ok (v, rest) ↔
        (mem.allocates (name.length + 1) ∧ HasRoom mem t v) ∧ 0 ∉ name ∧ Whole t v := by
  refine ⟨deserialize_inside_iff name t, takesOnly_deserialize name t, fun v hv rest => ?_⟩
  rw [deserialize_serialize_reads hname t v hv rest v rest, eq_comm (a := v), cut_eq_self_iff]
  constructor
  · rintro ⟨⟨⟨halloc, hname⟩, hroom⟩, hwhole, -⟩
    exact ⟨⟨halloc, hroom⟩, hname, hwhole⟩
  · rintro ⟨⟨halloc, hroom⟩, hname, hwhole⟩
    exact ⟨⟨⟨halloc, hname⟩, hroom⟩, hwhole, rfl⟩

end Writing

/-- A heap of a megabyte. -/
def demoMemory : Memory := ⟨fun bytes => decide (bytes ≤ 2 ^ 20)⟩

theorem deserialize_faithful_demo :
    (∀ s, Avoids (deserialize demoMemory [97] .string) .outside s ↔
        StreamSafe demoMemory [97] .string s) ∧
      TakesOnly (deserialize demoMemory [97] .string) ∧
      ∀ v, Sized .string v → ∀ rest,
        (deserialize demoMemory [97] .string).run (serialize [97] .string v ++ rest) = .ok (v, rest) ↔
          (demoMemory.allocates 2 ∧ HasRoom demoMemory .string v) ∧ (0 : UInt8) ∉ [97] ∧ Whole .string v :=
  deserialize_faithful_iff (by decide) .string

set_option maxRecDepth 4000 in
/-- A size of zero, a string with no terminator, a wide string of six bytes, and a string that holds
    a terminator. -/
theorem deserialize_not_faithful :
    ¬ Avoids (deserialize demoMemory [97] .string) .outside
        (serializeString [97] ++ serializeNumber 8 0) ∧
      ¬ Avoids (deserialize demoMemory [97] .string) .outside
        (serializeString [97] ++ serializeNumber 8 1 ++ [98]) ∧
      ¬ Avoids (deserialize demoMemory [97] .wstring) .outside
        (serializeString [97] ++ serializeNumber 8 6 ++ [98, 0, 0, 0, 0, 0]) ∧
      (deserialize demoMemory [97] .string).run (serialize [97] .string [98, 0, 99]) =
        .ok ([98], []) :=
  ⟨fun h => h _ rfl, fun h => h _ rfl, fun h => h _ rfl, rfl⟩

end Serializer

end VeraCrypt
