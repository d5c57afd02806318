import VeraCrypt.Crypto.Primitives
import VeraCrypt.Lib.Endian
import VeraCrypt.Lib.Outcome

/-!
# TLV data of a card (`Common/TLVParser.cpp`)

A buffer is what lies behind a pointer and a declared size; an index that is not below the size ends
the parse as `outside`, apart from the exceptions of the source. The loop over the sub-nodes and the
recursion into them run on fuel, which `tlvParse_sound` shows the size of the buffer to be enough of.

What is proved of a parse is that it loses nothing: the bytes of a node are those it was read from,
and the value of a node with sub-nodes is the bytes of these, one after the other, at every depth.
-/

set_option autoImplicit false

namespace VeraCrypt
namespace Common

open Lib

structure TLVNode where
  tag : UInt16
  length : UInt16
  value : Bytes
  tagSize : UInt8
  lengthSize : UInt8
  moreFlag : UInt16
  subFlag : UInt16
  subs : List TLVNode

/-- How a parse can end without a node. -/
inductive TlvStop where
  /-- `ThrowTLVParseException` -/
  | parseError (message : String) (index size : Nat)
  /-- the exception of `CheckBit` -/
  | badBit (bit : Nat)
  /-- a read of a byte that the buffer does not have -/
  | outside (index : Nat)
  | fuel
  deriving DecidableEq

/-- A `TLVException`. -/
def TlvStop.Thrown : TlvStop → Prop
  | .parseError .. => True
  | .badBit _ => True
  | .outside _ => False
  | .fuel => False

/-! ## The code -/

def maxTLVNodeLength : Nat := 0xffff

def throwTLVParseException {α : Type} (message : String) (index size : Nat) : Except TlvStop α :=
  .error (.parseError message index size)

def bitvalue : List UInt8 := [0x01, 0x02, 0x04, 0x08, 0x10, 0x20, 0x40, 0x80]

/-- `CheckBit` -/
def checkBit (value : UInt8) (bit : Nat) : Except TlvStop UInt16 :=
  if 1 ≤ bit ∧ bit ≤ 8 then
    if value &&& bitvalue.getD (bit - 1) 0 ≠ 0 then .ok 1 else .ok 0
  else .error (.badBit bit)

/-- `buf[index]` -/
def readByte (buf : Nat → UInt8) (size index : Nat) : Except TlvStop UInt8 :=
  if index < size then .ok (buf index) else .error (.outside index)

/-- The `n` bytes from an index on. -/
def bytesAt (buf : Nat → UInt8) (index n : Nat) : Bytes :=
  (List.range n).map (fun i => buf (index + i))

/-- `memcpy` of `n` bytes from an index on. -/
def readBytes (buf : Nat → UInt8) (size index n : Nat) : Except TlvStop Bytes :=
  if index + n ≤ size then .ok (bytesAt buf index n) else .error (.outside size)

/-- What the tag zone gives: `tag1`, `tag2`, `tagsize` and the index behind it. -/
structure TagZone where
  tag1 : UInt8
  tag2 : UInt8
  tagsize : UInt8
  index : Nat

def tagZone (buf : Nat → UInt8) (size : Nat) : Except TlvStop TagZone := do
  let tag1 ← readByte buf size 0
  if tag1 &&& 0x1f = 0x1f then
    if size ≤ 1 then throwTLVParseException "missing extended tag byte" 1 size
    else
      let tag2 ← readByte buf size 1
      if tag2 &&& 0x80 ≠ 0 then throwTLVParseException "unsupported multi-byte tag" 2 size
      else .ok { tag1 := tag1, tag2 := tag2, tagsize := 2, index := 2 }
  else .ok { tag1 := tag1, tag2 := 0, tagsize := 1, index := 1 }

def TagZone.tag (z : TagZone) : UInt16 :=
  if z.tagsize = 1 then z.tag1.toUInt16 else (z.tag1.toUInt16 <<< 8) + z.tag2.toUInt16

/-- The loop over the bytes of a long-form length; so many are left. -/
def lengthLoop (buf : Nat → UInt8) (size : Nat) : Nat → Nat → Nat → Except TlvStop Nat
  | 0, _, len => .ok len
  | left + 1, index, len =>
    if size ≤ index then throwTLVParseException "truncated long-form length" index size
    else if maxTLVNodeLength >>> 8 < len then
      throwTLVParseException "length exceeds uint16 range" index size
    else do
      let b ← readByte buf size index
      lengthLoop buf size left (index + 1) ((len <<< 8) + b.toNat)

/-- The length zone from an index on: `len` and `lensize`. -/
def lengthZone (buf : Nat → UInt8) (size index : Nat) : Except TlvStop (Nat × UInt8) := do
  if size ≤ index then throwTLVParseException "missing length byte" index size
  else
    let lengthField ← readByte buf size index
    let long ← checkBit lengthField 8
    if long = 0 then .ok (lengthField.toNat, 1)
    else
      let lensize := lengthField &&& 0x7f
      if lensize = 0 then
        throwTLVParseException "indefinite length form is unsupported" (index + 1) size
      else
        let len ← lengthLoop buf size lensize.toNat (index + 1) 0
        .ok (len, lensize + 1)

/-- `TLV_Parse_One` behind the test of the arguments. -/
def tlvParseBuffer (buf : Nat → UInt8) (size : Nat) : Except TlvStop TLVNode := do
  let zone ← tagZone buf size
  let subFlag ← checkBit zone.tag1 6
  let (len, lensize) ← lengthZone buf size zone.index
  let index := zone.index + lensize.toNat
  if maxTLVNodeLength < len then throwTLVParseException "length exceeds uint16 range" index size
  else if size - index < len then
    throwTLVParseException "declared value length exceeds remaining input" index size
  else
    let value ← readBytes buf size index len
    let node (moreFlag : UInt16) : TLVNode :=
      { tag := zone.tag
        length := UInt16.ofNat len
        value := value
        tagSize := zone.tagsize
        lengthSize := lensize
        moreFlag := moreFlag
        subFlag := subFlag
        subs := [] }
    if index + len < size then .ok (node 1)
    else if index + len = size then .ok (node 0)
    else throwTLVParseException "internal parser state exceeded input" (index + len) size

/-- `TLV_Parse_One`; `none` is a null pointer. -/
def tlvParseOne (buf : Option (Nat → UInt8)) (size : Nat) : Except TlvStop TLVNode :=
  match buf with
  | none => throwTLVParseException "empty or null input" 0 size
  | some mem =>
    if size = 0 then throwTLVParseException "empty or null input" 0 size
    else tlvParseBuffer mem size

/-- `sublen`, which wraps: the bytes of the sub-nodes parsed so far. -/
def TLVNode.sublen (parent : TLVNode) : UInt16 :=
  parent.subs.foldl (fun sublen sub => sublen +
    UInt16.ofNat (sub.tagSize.toNat + sub.length.toNat + sub.lengthSize.toNat)) 0

/-- `TLV_Parse_SubNodes`: the parent afterwards, and what is returned. -/
def tlvParseSubNodes (parent : TLVNode) : Except TlvStop (TLVNode × UInt16) :=
  if parent.subFlag = 0 then .ok (parent, 0)
  else
    let sublen := parent.sublen.toNat
    if sublen < parent.value.length then do
      let subnode ← tlvParseOne (some (fun i => parent.value.getD (sublen + i) 0))
        (parent.value.length - sublen)
      .ok ({ parent with subs := parent.subs ++ [subnode] }, subnode.moreFlag)
    else .ok (parent, 0)

/-- `while (TLV_Parse_SubNodes (parent) != 0)` -/
def subNodesLoop : Nat → TLVNode → Except TlvStop TLVNode
  | 0, _ => .error .fuel
  | fuel + 1, parent => do
    let (parent, more) ← tlvParseSubNodes parent
    if more ≠ 0 then subNodesLoop fuel parent else .ok parent

/-- `TLV_Parse_Sub` -/
def tlvParseSub : Nat → TLVNode → Except TlvStop TLVNode
  | 0, _ => .error .fuel
  | fuel + 1, parent =>
    if parent.subFlag ≠ 0 then do
      let parent ← subNodesLoop (fuel + 1) parent
      let subs ← parent.subs.mapM
        (fun sub => if sub.subFlag ≠ 0 then tlvParseSub fuel sub else .ok sub)
      .ok { parent with subs := subs }
    else .ok parent

/-- `TLV_Parse` -/
def tlvParse (fuel : Nat) (buf : Option (Nat → UInt8)) (size : Nat) : Except TlvStop TLVNode := do
  let node ← tlvParseOne buf size
  tlvParseSub fuel node

mutual

/-- `TLV_Find` -/
def tlvFind (tag : UInt16) : TLVNode → Option TLVNode
  | ⟨t, length, value, tagSize, lengthSize, moreFlag, subFlag, subs⟩ =>
    if t = tag then some ⟨t, length, value, tagSize, lengthSize, moreFlag, subFlag, subs⟩
    else tlvFindSub tag subs

/-- The loop of `TLV_Find` over the sub-nodes. -/
def tlvFindSub (tag : UInt16) : List TLVNode → Option TLVNode
  | [] => none
  | sub :: subs =>
    match tlvFind tag sub with
    | some node => some node
    | none => tlvFindSub tag subs

end

/-! ## The bytes of a node -/

def lengthBytes (lensize : UInt8) (len : Nat) : Bytes :=
  if lensize = 1 then beBytes 1 len
  else (0x80 + (lensize - 1)) :: beBytes (lensize.toNat - 1) len

/-- A node as it stood in the input: its tag, its length in as many bytes as it had, its value. -/
def TLVNode.encoded (node : TLVNode) : Bytes :=
  beBytes node.tagSize.toNat node.tag.toNat ++ lengthBytes node.lengthSize node.length.toNat ++
    node.value

/-- The fields of a node say what its parts take. -/
structure TLVNode.Measured (node : TLVNode) : Prop where
  length_eq : node.length.toNat = node.value.length
  tagSize_pos : 0 < node.tagSize.toNat
  lengthSize_pos : 0 < node.lengthSize.toNat

/-- At every depth: what says to have sub-nodes is the bytes of these one after the other, and what
    does not has none. -/
inductive TLVNode.Tiled : TLVNode → Prop where
  | mk {node : TLVNode} (measured : node.Measured)
      (leaf : node.subFlag = 0 → node.subs = [])
      (tiles : node.subFlag ≠ 0 → node.value = node.subs.flatMap TLVNode.encoded)
      (subs : ∀ sub ∈ node.subs, TLVNode.Tiled sub) : TLVNode.Tiled node

theorem length_lengthBytes {lensize : UInt8} (h : 0 < lensize.toNat) (len : Nat) :
    (lengthBytes lensize len).length = lensize.toNat := by
  unfold lengthBytes
  by_cases hone : lensize = 1
  · rw [if_pos hone, hone, length_beBytes]
    rfl
  · rw [if_neg hone, List.length_cons, length_beBytes]
    omega

/-- Headers and lengths add up. -/
theorem TLVNode.Measured.length_encoded {node : TLVNode} (h : node.Measured) :
    node.encoded.length = node.tagSize.toNat + node.length.toNat + node.lengthSize.toNat := by
  rw [encoded, List.length_append, List.length_append, length_beBytes,
    length_lengthBytes h.lengthSize_pos, h.length_eq]
  omega

/-! ## One node -/

section
variable {buf : Nat → UInt8} {size index : Nat}

@[simp] theorem length_bytesAt (buf : Nat → UInt8) (index n : Nat) :
    (bytesAt buf index n).length = n := by
  rw [bytesAt, List.length_map, List.length_range]

theorem bytesAt_succ (buf : Nat → UInt8) (index n : Nat) :
    bytesAt buf index (n + 1) = buf index :: bytesAt buf (index + 1) n := by
  rw [bytesAt, List.range_succ_eq_map, List.map_cons, List.map_map, Nat.add_zero]
  refine congrArg _ (List.map_congr_left (fun i _ => ?_))
  rw [Function.comp_apply, Nat.add_assoc, Nat.add_comm 1]

theorem bytesAt_add (buf : Nat → UInt8) (index m n : Nat) :
    bytesAt buf index (m + n) = bytesAt buf index m ++ bytesAt buf (index + m) n := by
  rw [bytesAt, List.range_add, List.map_append, List.map_map]
  refine congrArg _ (List.map_congr_left (fun i _ => ?_))
  rw [Function.comp_apply, Nat.add_assoc]

theorem readByte_eq (h : index < size) : readByte buf size index = .ok (buf index) := if_pos h

theorem checkBit_tag (value : UInt8) :
    checkBit value 6 = .ok (if value &&& 0x20 ≠ 0 then 1 else 0) := by
  unfold checkBit
  rw [if_pos (by decide)]
  exact (apply_ite Except.ok _ _ _).symm

theorem checkBit_length (value : UInt8) :
    checkBit value 8 = .ok (if value &&& 0x80 ≠ 0 then 1 else 0) := by
  unfold checkBit
  rw [if_pos (by decide)]
  exact (apply_ite Except.ok _ _ _).symm

theorem TagZone.toNat_tag_two (tag1 tag2 : UInt8) (index : Nat) :
    (TagZone.tag ⟨tag1, tag2, 2, index⟩).toNat = tag1.toNat * 256 + tag2.toNat := by
  have h1 : tag1.toNat < 256 := tag1.toNat_lt
  have h2 : tag2.toNat < 256 := tag2.toNat_lt
  show ((tag1.toUInt16 <<< 8) + tag2.toUInt16).toNat = _
  rw [UInt16.toNat_add, UInt16.toNat_shiftLeft, UInt8.toNat_toUInt16, UInt8.toNat_toUInt16,
    show (8 : UInt16).toNat % 16 = 8 from rfl, Nat.shiftLeft_eq]
  omega

/-- The tag is the bytes of its zone. -/
theorem tagZone_yields (hsize : 0 < size) :
    Yields TlvStop.Thrown (fun z : TagZone => z.index = z.tagsize.toNat ∧ 0 < z.tagsize.toNat ∧
      z.index ≤ size ∧ beBytes z.tagsize.toNat z.tag.toNat = bytesAt buf 0 z.index)
      (tagZone buf size) := by
  unfold tagZone
  rw [readByte_eq hsize]
  refine yields_ite (fun _ => yields_ite (fun _ => trivial) (fun hmore => ?_)) (fun _ => ?_)
  · have hin : 1 < size := Nat.lt_of_not_le hmore
    rw [readByte_eq hin]
    refine yields_ite (fun _ => trivial) (fun _ => ⟨rfl, Nat.succ_pos _, hin, ?_⟩)
    have htwo := beBytes_succ 1 (buf 0).toNat (buf 1)
    rw [beBytes_one] at htwo
    rw [TagZone.toNat_tag_two]
    exact htwo
  · exact ⟨rfl, Nat.succ_pos _, hsize, beBytes_one (buf 0)⟩

/-- The loop shifts in the bytes that are left, and no more than two bytes come to count. -/
theorem lengthLoop_yields (left : Nat) : ∀ {index len : Nat}, index ≤ size →
    len ≤ maxTLVNodeLength →
    Yields TlvStop.Thrown (fun out => out ≤ maxTLVNodeLength ∧ index + left ≤ size ∧
      ∀ d, beBytes (d + left) out = beBytes d len ++ bytesAt buf index left)
      (lengthLoop buf size left index len) := by
  induction left with
  | zero =>
    intro index len hindex hlen
    refine ⟨hlen, hindex, fun d => ?_⟩
    exact (List.append_nil _).symm
  | succ left ih =>
    intro index len hindex hlen
    refine yields_ite (fun _ => trivial) (fun hin => yields_ite (fun _ => trivial) (fun hhigh => ?_))
    rw [readByte_eq (by omega)]
    have hb : (buf index).toNat < 256 := (buf index).toNat_lt
    have hnext : (len <<< 8) + (buf index).toNat = len * 256 + (buf index).toNat := by
      rw [Nat.shiftLeft_eq]
    have hle : (len <<< 8) + (buf index).toNat ≤ maxTLVNodeLength := by
      have hbound : maxTLVNodeLength >>> 8 = 255 := rfl
      have hmax : maxTLVNodeLength = 65535 := rfl
      rw [hbound] at hhigh
      omega
    refine (ih (by omega) hle).imp (fun out h => ?_)
    obtain ⟨hout, hend, hbytes⟩ := h
    refine ⟨hout, by omega, fun d => ?_⟩
    have hmore := hbytes (d + 1)
    rw [hnext, beBytes_succ, List.append_assoc, Nat.add_assoc, Nat.add_comm 1] at hmore
    rw [hmore, bytesAt_succ]
    rfl

/-- A first length byte with its high bit. -/
theorem add_of_long {b : UInt8} (h : b &&& 0x80 ≠ 0) :
    0x80 + (b &&& 0x7f) = b ∧ (b &&& 0x7f).toNat < 128 := by
  have hall : ∀ n : Fin 256, UInt8.ofNat n.val &&& 0x80 ≠ 0 →
      0x80 + (UInt8.ofNat n.val &&& 0x7f) = UInt8.ofNat n.val ∧
        (UInt8.ofNat n.val &&& 0x7f).toNat < 128 := by decide +kernel
  have hb := hall ⟨b.toNat, b.toNat_lt⟩
  rw [UInt8.ofNat_toNat] at hb
  exact hb h

/-- The length is the bytes of its zone. -/
theorem lengthZone_yields :
    Yields TlvStop.Thrown (fun z : Nat × UInt8 => z.1 ≤ maxTLVNodeLength ∧ 0 < z.2.toNat ∧
      index + z.2.toNat ≤ size ∧ lengthBytes z.2 z.1 = bytesAt buf index z.2.toNat)
      (lengthZone buf size index) := by
  unfold lengthZone
  refine yields_ite (fun _ => trivial) (fun hin => ?_)
  rw [readByte_eq (Nat.lt_of_not_le hin)]
  show Yields _ _ (checkBit (buf index) 8 >>= _)
  rw [checkBit_length]
  by_cases hlong : buf index &&& 0x80 ≠ 0
  · rw [if_pos hlong]
    obtain ⟨hfirst, hsmall⟩ := add_of_long hlong
    -- the count of the bytes that follow
    generalize buf index &&& 0x7f = lensize at hfirst hsmall
    show Yields _ _ (if lensize = 0 then _ else _)
    refine yields_ite (fun _ => trivial) (fun hcount => ?_)
    refine yields_bind (lengthLoop_yields lensize.toNat (Nat.lt_of_not_le hin)
      (Nat.zero_le _)) (fun len h => ?_)
    obtain ⟨hlen, hend, hbytes⟩ := h
    have hsize : (lensize + 1).toNat = lensize.toNat + 1 := by
      rw [UInt8.toNat_add]
      exact Nat.mod_eq_of_lt (by show lensize.toNat + 1 < 256; omega)
    have hne : lensize + 1 ≠ 1 := by
      intro h
      exact hcount (by rw [← UInt8.add_sub_cancel lensize 1, h]; rfl)
    have hall := hbytes 0
    rw [Nat.zero_add] at hall
    refine ⟨hlen, by rw [hsize]; exact Nat.succ_pos _, by rw [hsize]; omega, ?_⟩
    rw [lengthBytes, if_neg hne, UInt8.add_sub_cancel, hfirst, hsize, Nat.add_sub_cancel, hall,
      bytesAt_succ]
    rfl
  · rw [if_neg hlong]
    have hb : (buf index).toNat < 256 := (buf index).toNat_lt
    refine ⟨?_, Nat.succ_pos _, Nat.lt_of_not_le hin, beBytes_one (buf index)⟩
    show (buf index).toNat ≤ 65535
    omega

/-- A node that was read from the start of a buffer, without its sub-nodes. -/
structure ParsedAt (buf : Nat → UInt8) (size : Nat) (node : TLVNode) : Prop where
  measured : node.Measured
  subs_nil : node.subs = []
  encoded_eq : node.encoded = bytesAt buf 0 node.encoded.length
  encoded_le : node.encoded.length ≤ size
  more_iff : node.moreFlag ≠ 0 ↔ node.encoded.length < size

/-- **What `TLV_Parse_One` reads is the bytes of its node**, and nothing behind the buffer. -/
theorem tlvParseBuffer_yields (hsize : 0 < size) :
    Yields TlvStop.Thrown (ParsedAt buf size) (tlvParseBuffer buf size) := by
  unfold tlvParseBuffer
  refine yields_bind (tagZone_yields hsize) (fun zone hzone => ?_)
  obtain ⟨hindex, htagPos, htagEnd, htag⟩ := hzone
  rw [checkBit_tag]
  show Yields _ _ (lengthZone buf size zone.index >>= _)
  refine yields_bind lengthZone_yields (fun len h => ?_)
  obtain ⟨len, lensize⟩ := len
  obtain ⟨hlen, hlenPos, hlenEnd, hlength⟩ := h
  simp only at hlen hlenPos hlenEnd hlength
  refine yields_ite (fun _ => trivial) (fun _ => yields_ite (fun _ => trivial) (fun hfits => ?_))
  have hread : readBytes buf size (zone.index + lensize.toNat) len =
      .ok (bytesAt buf (zone.index + lensize.toNat) len) := if_pos (by omega)
  rw [hread]
  have hlenEq : (UInt16.ofNat len).toNat = len := by
    rw [UInt16.toNat_ofNat']
    exact Nat.mod_eq_of_lt (by simp only [maxTLVNodeLength] at hlen; omega)
  have hnode : ∀ moreFlag subFlag : UInt16,
      (moreFlag ≠ 0 ↔ zone.index + lensize.toNat + len < size) →
      ParsedAt buf size ⟨zone.tag, UInt16.ofNat len,
        bytesAt buf (zone.index + lensize.toNat) len, zone.tagsize, lensize, moreFlag, subFlag,
        []⟩ := by
    intro moreFlag subFlag hmore
    have hmeasured : TLVNode.Measured ⟨zone.tag, UInt16.ofNat len,
        bytesAt buf (zone.index + lensize.toNat) len, zone.tagsize, lensize, moreFlag, subFlag,
        []⟩ := ⟨by rw [hlenEq, length_bytesAt], htagPos, hlenPos⟩
    have hend := hmeasured.length_encoded
    simp only [hlenEq] at hend
    refine ⟨hmeasured, rfl, ?_, by omega, by rw [hmore, hend]; omega⟩
    rw [hend, Nat.add_right_comm, ← hindex, bytesAt_add, bytesAt_add, Nat.zero_add, Nat.zero_add,
      ← htag, ← hlength]
    simp only [TLVNode.encoded, hlenEq]
  refine yields_ite (fun hlt => ?_) (fun hlt => yields_ite (fun heq => ?_) (fun _ => trivial))
  · exact hnode 1 _ ⟨fun _ => hlt, fun _ => by decide⟩
  · exact hnode 0 _ ⟨fun h => absurd rfl h, fun h => absurd h hlt⟩

theorem tlvParseOne_yields (buf : Option (Nat → UInt8)) (size : Nat) :
    Yields TlvStop.Thrown (fun node => ∃ mem, buf = some mem ∧ ParsedAt mem size node)
      (tlvParseOne buf size) := by
  cases buf with
  | none => exact trivial
  | some mem =>
    refine yields_ite (fun _ => trivial) (fun hsize => ?_)
    exact (tlvParseBuffer_yields (Nat.pos_of_ne_zero hsize)).imp (fun node h => ⟨mem, rfl, h⟩)

end

/-! ## The sub-nodes of one node -/

/-- The bytes of the sub-nodes parsed so far. -/
def TLVNode.parsed (parent : TLVNode) : Bytes := parent.subs.flatMap TLVNode.encoded

/-- A node whose sub-nodes were replaced. -/
def TLVNode.withSubs (node : TLVNode) (subs : List TLVNode) : TLVNode :=
  { node with subs := subs }

@[simp] theorem TLVNode.withSubs_value (node : TLVNode) (subs : List TLVNode) :
    (node.withSubs subs).value = node.value := rfl

@[simp] theorem TLVNode.withSubs_subFlag (node : TLVNode) (subs : List TLVNode) :
    (node.withSubs subs).subFlag = node.subFlag := rfl

@[simp] theorem TLVNode.withSubs_withSubs (node : TLVNode) (subs subs' : List TLVNode) :
    (node.withSubs subs).withSubs subs' = node.withSubs subs' := rfl

theorem TLVNode.withSubs_self (node : TLVNode) : node.withSubs node.subs = node := by
  cases node
  rfl

/-- The state of a parent between two calls of `TLV_Parse_SubNodes`. -/
structure SubsParsed (parent : TLVNode) : Prop where
  short : parent.value.length ≤ maxTLVNodeLength
  isPrefix : parent.parsed <+: parent.value
  measured : ∀ sub ∈ parent.subs, sub.Measured
  fresh : ∀ sub ∈ parent.subs, sub.subs = []

section
variable {parent : TLVNode}

theorem foldl_sublen {subs : List TLVNode} (h : ∀ sub ∈ subs, sub.Measured) :
    ∀ n : UInt16, subs.foldl (fun sublen sub => sublen +
      UInt16.ofNat (sub.tagSize.toNat + sub.length.toNat + sub.lengthSize.toNat)) n =
      n + UInt16.ofNat (subs.flatMap TLVNode.encoded).length := by
  induction subs with
  | nil =>
    intro n
    exact (UInt16.add_zero n).symm
  | cons sub subs ih =>
    intro n
    rw [List.foldl_cons, ih (fun s hs => h s (List.mem_cons_of_mem _ hs)), List.flatMap_cons,
      List.length_append, (h sub (List.mem_cons_self ..)).length_encoded, UInt16.add_assoc,
      ← UInt16.ofNat_add]

/-- The 16-bit sum does not wrap: it is the number of bytes parsed. -/
theorem SubsParsed.toNat_sublen (h : SubsParsed parent) :
    parent.sublen.toNat = parent.parsed.length := by
  have hle := h.isPrefix.length_le
  have hshort := h.short
  simp only [maxTLVNodeLength] at hshort
  rw [TLVNode.sublen, foldl_sublen h.measured, UInt16.zero_add, UInt16.toNat_ofNat']
  exact Nat.mod_eq_of_lt (by show parent.parsed.length < 2 ^ 16; omega)

/-- What is read of a value from an index on. -/
theorem bytesAt_getD {value : Bytes} {index n : Nat} (h : index + n ≤ value.length) :
    bytesAt (fun i => value.getD (index + i) 0) 0 n = (value.drop index).take n := by
  apply List.ext_getElem
  · rw [length_bytesAt, List.length_take, List.length_drop]
    omega
  · intro i hi hi'
    rw [length_bytesAt] at hi
    simp only [bytesAt, List.getElem_map, List.getElem_range, Nat.zero_add, List.getElem_take,
      List.getElem_drop]
    rw [List.getD_eq_getElem?_getD, List.getElem?_eq_getElem (by omega), Option.getD_some]

/-- **One call takes the next node**, or finds the value at its end. -/
theorem tlvParseSubNodes_yields (hflag : parent.subFlag ≠ 0) (h : SubsParsed parent) :
    Yields TlvStop.Thrown (fun r : TLVNode × UInt16 =>
      r.1 = parent.withSubs r.1.subs ∧ SubsParsed r.1 ∧
        (r.2 = 0 → r.1.value = r.1.parsed) ∧
        (r.2 ≠ 0 → parent.parsed.length < r.1.parsed.length ∧
          r.1.parsed.length < r.1.value.length))
      (tlvParseSubNodes parent) := by
  have hle := h.isPrefix.length_le
  unfold tlvParseSubNodes
  rw [if_neg hflag, h.toNat_sublen]
  refine yields_ite (fun hmore => ?_) (fun hend => ?_)
  · refine yields_bind (tlvParseOne_yields _ _) (fun sub hsub => ?_)
    obtain ⟨mem, hmem, hsub⟩ := hsub
    cases hmem
    have hspan := hsub.measured.length_encoded
    have htag := hsub.measured.tagSize_pos
    have hin := hsub.encoded_le
    have hnext : sub.encoded <+: parent.value.drop parent.parsed.length := by
      rw [hsub.encoded_eq, bytesAt_getD (by omega)]
      exact List.take_prefix _ _
    have hparsed : TLVNode.parsed { parent with subs := parent.subs ++ [sub] } =
        parent.parsed ++ sub.encoded := by
      simp only [TLVNode.parsed, List.flatMap_append, List.flatMap_singleton]
    have hfront : parent.parsed ++ sub.encoded <+: parent.value := by
      have hvalue := (List.prefix_append_right_inj parent.parsed).mpr hnext
      rwa [List.prefix_iff_eq_append.mp h.isPrefix] at hvalue
    have hboth : ∀ {p : TLVNode → Prop}, (∀ s ∈ parent.subs, p s) → p sub →
        ∀ s ∈ parent.subs ++ [sub], p s := by
      intro p hold hnew s hs
      rcases List.mem_append.mp hs with hs | hs
      · exact hold s hs
      · rw [List.mem_singleton.mp hs]
        exact hnew
    refine ⟨rfl, ⟨h.short, by rw [hparsed]; exact hfront, hboth h.measured hsub.measured,
      hboth h.fresh hsub.subs_nil⟩, ?_, ?_⟩
    · intro hlast
      have hall : ¬ sub.encoded.length < parent.value.length - parent.parsed.length :=
        fun hlt => hsub.more_iff.mpr hlt hlast
      rw [hparsed]
      refine (hfront.eq_of_length ?_).symm
      rw [List.length_append]
      omega
    · intro hagain
      have hlt := hsub.more_iff.mp hagain
      rw [hparsed, List.length_append]
      exact ⟨by omega, by show _ < parent.value.length; omega⟩
  · refine ⟨parent.withSubs_self.symm, h, fun _ => ?_, fun hne => absurd rfl hne⟩
    exact (h.isPrefix.eq_of_length (by omega)).symm

/-- **The loop ends, with sub-nodes that tile the value**, on as much fuel as there are bytes
    left. -/
theorem subNodesLoop_yields (fuel : Nat) : ∀ {parent : TLVNode}, parent.subFlag ≠ 0 →
    SubsParsed parent → parent.value.length - parent.parsed.length < fuel →
    Yields TlvStop.Thrown (fun r => r = parent.withSubs r.subs ∧ SubsParsed r ∧
      r.value = r.parsed) (subNodesLoop fuel parent) := by
  induction fuel with
  | zero =>
    intro parent _ _ hfuel
    exact absurd hfuel (Nat.not_lt_zero _)
  | succ fuel ih =>
    intro parent hflag h hfuel
    refine yields_bind (tlvParseSubNodes_yields hflag h) (fun r hr => ?_)
    obtain ⟨r, more⟩ := r
    obtain ⟨hsame, hparsed, hlast, hagain⟩ := hr
    simp only at hsame hparsed hlast hagain
    refine yields_ite (fun hmore => ?_) (fun hmore => ?_)
    · obtain ⟨hgrows, hleft⟩ := hagain hmore
      have hvalue : r.value = parent.value := by rw [hsame, TLVNode.withSubs_value]
      have hflag' : r.subFlag ≠ 0 := by rwa [hsame, TLVNode.withSubs_subFlag]
      refine (ih hflag' hparsed (by rw [hvalue] at hleft ⊢; omega)).imp (fun out hout => ?_)
      obtain ⟨houtSame, hout⟩ := hout
      refine ⟨?_, hout⟩
      rwa [hsame, TLVNode.withSubs_withSubs] at houtSame
    · exact ⟨hsame, hparsed, hlast (not_not.mp hmore)⟩

end

/-! ## The tree -/

theorem SubsParsed.of_fresh {node : TLVNode} (h : node.Measured) (hsubs : node.subs = []) :
    SubsParsed node := by
  have hlen := node.length.toNat_lt
  refine ⟨?_, ?_, ?_, ?_⟩
  · simp only [maxTLVNodeLength]
    rw [← h.length_eq]
    omega
  · rw [TLVNode.parsed, hsubs]
    exact List.nil_prefix
  · rw [hsubs]
    exact fun _ hmem => absurd hmem List.not_mem_nil
  · rw [hsubs]
    exact fun _ hmem => absurd hmem List.not_mem_nil

/-- The bytes of a sub-node are bytes of the value. -/
theorem length_encoded_le_of_mem {sub : TLVNode} {subs : List TLVNode} (h : sub ∈ subs) :
    sub.encoded.length ≤ (subs.flatMap TLVNode.encoded).length := by
  rw [List.flatMap_def]
  exact (List.sublist_flatten_of_mem (List.mem_map_of_mem h)).length_le

theorem flatMap_encoded_congr {subs subs' : List TLVNode}
    (h : List.Forall₂ (fun sub sub' => sub'.Tiled ∧ sub'.encoded = sub.encoded) subs subs') :
    subs'.flatMap TLVNode.encoded = subs.flatMap TLVNode.encoded ∧ ∀ sub ∈ subs', sub.Tiled := by
  induction h with
  | nil => exact ⟨rfl, fun _ hmem => absurd hmem List.not_mem_nil⟩
  | cons hsub _ ih =>
    obtain ⟨htiled, hencoded⟩ := hsub
    refine ⟨by rw [List.flatMap_cons, List.flatMap_cons, hencoded, ih.1], ?_⟩
    intro s hs
    rcases List.mem_cons.mp hs with rfl | hs
    · exact htiled
    · exact ih.2 s hs

/-- **The recursion ends, with a tree that is tiled at every depth.** A sub-node is shorter than
    what it stands in, so the fuel is enough for it. -/
theorem tlvParseSub_yields (fuel : Nat) : ∀ {node : TLVNode}, node.Measured → node.subs = [] →
    node.value.length < fuel →
    Yields TlvStop.Thrown (fun r => r.Tiled ∧ r.encoded = node.encoded)
      (tlvParseSub fuel node) := by
  induction fuel with
  | zero =>
    intro node _ _ hfuel
    exact absurd hfuel (Nat.not_lt_zero _)
  | succ fuel ih =>
    intro node hnode hsubs hfuel
    refine yields_ite (fun hflag => ?_) (fun hflag => ?_)
    · refine yields_bind (subNodesLoop_yields (fuel + 1) hflag (.of_fresh hnode hsubs) (by omega))
        (fun r hr => ?_)
      obtain ⟨hsame, hparsed, htiles⟩ := hr
      have hvalue : r.value = node.value := by rw [hsame, TLVNode.withSubs_value]
      have hsub : ∀ sub ∈ r.subs,
          Yields TlvStop.Thrown (fun sub' => sub'.Tiled ∧ sub'.encoded = sub.encoded)
            (if sub.subFlag ≠ 0 then tlvParseSub fuel sub else .ok sub) := by
        intro sub hmem
        have hmeasured := hparsed.measured sub hmem
        have hfresh := hparsed.fresh sub hmem
        refine yields_ite (fun _ => ?_) (fun hleaf => ?_)
        · have hin := length_encoded_le_of_mem hmem
          have hlen := congrArg List.length htiles
          rw [hvalue, TLVNode.parsed] at hlen
          have hspan := hmeasured.length_encoded
          have hmeas := hmeasured.length_eq
          have hpos := hmeasured.tagSize_pos
          exact ih hmeasured hfresh (by omega)
        · refine ⟨.mk hmeasured (fun _ => hfresh) (fun h => absurd h hleaf) ?_, rfl⟩
          rw [hfresh]
          exact fun _ h => absurd h List.not_mem_nil
      refine yields_bind (yields_mapM hsub) (fun subs hall => ?_)
      obtain ⟨hencoded, htiled⟩ := flatMap_encoded_congr hall
      rw [hsame]
      refine ⟨.mk ⟨hnode.length_eq, hnode.tagSize_pos, hnode.lengthSize_pos⟩
        (fun h => absurd h hflag) (fun _ => ?_) htiled, rfl⟩
      show node.value = subs.flatMap TLVNode.encoded
      rw [hencoded, ← hvalue, htiles]
      rfl
    · refine ⟨.mk hnode (fun _ => hsubs) (fun h => absurd h hflag) ?_, rfl⟩
      rw [hsubs]
      exact fun _ h => absurd h List.not_mem_nil

/-! ## More fuel changes nothing -/

theorem subNodesLoop_fuelLe (fuel : Nat) : ∀ parent : TLVNode,
    FuelLe .fuel (subNodesLoop fuel parent) (subNodesLoop (fuel + 1) parent) := by
  induction fuel with
  | zero => exact fun _ => .inl rfl
  | succ fuel ih =>
    intro parent
    refine (FuelLe.refl _).bind (fun r => ?_)
    show FuelLe _ (if r.2 ≠ 0 then _ else _) (if r.2 ≠ 0 then _ else _)
    by_cases hmore : r.2 ≠ 0
    · rw [if_pos hmore, if_pos hmore]
      exact ih r.1
    · rw [if_neg hmore, if_neg hmore]
      exact .refl _

theorem tlvParseSub_fuelLe (fuel : Nat) : ∀ node : TLVNode,
    FuelLe .fuel (tlvParseSub fuel node) (tlvParseSub (fuel + 1) node) := by
  induction fuel with
  | zero => exact fun _ => .inl rfl
  | succ fuel ih =>
    intro node
    rw [tlvParseSub, tlvParseSub]
    by_cases hflag : node.subFlag ≠ 0
    · rw [if_pos hflag, if_pos hflag]
      refine (subNodesLoop_fuelLe (fuel + 1) node).bind (fun r => ?_)
      refine (FuelLe.mapM _ (fun sub => ?_)).bind (fun subs => .refl _)
      by_cases hsub : sub.subFlag ≠ 0
      · rw [if_pos hsub, if_pos hsub]
        exact ih sub
      · rw [if_neg hsub, if_neg hsub]
        exact .refl _
    · rw [if_neg hflag, if_neg hflag]
      exact .refl _

theorem tlvParse_fuelLe (buf : Option (Nat → UInt8)) (size fuel : Nat) :
    FuelLe .fuel (tlvParse fuel buf size) (tlvParse (fuel + 1) buf size) :=
  (FuelLe.refl _).bind (fun node => tlvParseSub_fuelLe fuel node)

/-- What a parse of a whole buffer gives. -/
theorem tlvParse_yields (buf : Option (Nat → UInt8)) (size : Nat) :
    Yields TlvStop.Thrown (fun root => root.Tiled ∧ ∃ mem, buf = some mem ∧
      root.encoded.length ≤ size ∧ root.encoded = bytesAt mem 0 root.encoded.length)
      (tlvParse size buf size) := by
  refine yields_bind (tlvParseOne_yields buf size) (fun node hnode => ?_)
  obtain ⟨mem, hmem, hnode⟩ := hnode
  have hspan := hnode.measured.length_encoded
  have hlen := hnode.measured.length_eq
  have hpos := hnode.measured.tagSize_pos
  have hle := hnode.encoded_le
  refine (tlvParseSub_yields size hnode.measured hnode.subs_nil (by omega)).imp (fun root h => ?_)
  obtain ⟨htiled, hencoded⟩ := h
  refine ⟨htiled, mem, hmem, ?_⟩
  rw [hencoded]
  exact ⟨hle, hnode.encoded_eq⟩

/-- **`TLV_Parse` on every buffer.** It ends: the size of the buffer is fuel enough and more changes
    nothing. It ends with a `TLVException`, never with a read behind the buffer, or with a tree: the
    bytes of the root are the first ones of the buffer, and at every depth the sub-nodes tile the
    value of their parent. -/
theorem tlvParse_sound (buf : Option (Nat → UInt8)) (size extra : Nat) :
    tlvParse (size + extra) buf size = tlvParse size buf size ∧
      (∀ stop, tlvParse size buf size = .error stop → stop.Thrown) ∧
      ∀ root, tlvParse size buf size = .ok root →
        root.Tiled ∧ ∃ mem, buf = some mem ∧ root.encoded.length ≤ size ∧
          root.encoded = bytesAt mem 0 root.encoded.length := by
  have hyields := tlvParse_yields buf size
  refine ⟨?_, fun stop h => hyields.of_error h, fun root h => hyields.of_ok h⟩
  refine (FuelLe.add (tlvParse_fuelLe buf size) size extra).eq_of_ne (fun hfuel => ?_)
  exact hyields.of_error hfuel

/-- A template with an identifier and a priority. -/
example : (tlvParse 8 (some (fun i => [0x70, 0x06, 0x4F, 0x01, 0xAA, 0x87, 0x01, 0x02].getD i 0))
    8).toOption.map (fun root => root.subs.map (fun sub => (sub.tag, sub.value))) =
      some [(0x4F, [0xAA]), (0x87, [0x02])] := by decide

end Common
end VeraCrypt
