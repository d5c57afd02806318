import Mathlib.Algebra.Order.BigOperators.Group.List
import VeraCrypt.Platform.Serializer

/-!
# Objects on the stream (`Platform/Serializable.cpp`)

An object is the name of its class and then its fields, each under a name. A pointer is a flag that
says whether it is null, and what it points to where it is not. What is read under the names it was
written under, in the same order and with memory enough, is the object with each of its strings cut
at the first terminator.
-/

set_option autoImplicit false

namespace VeraCrypt

open Lib Lib.ByteReader

namespace Serializer

/-- A narrow literal. -/
def ascii (s : String) : Bytes := s.toList.map (fun c => UInt8.ofNat c.toNat)

/-- A wide literal. -/
def wide (s : String) : WString := s.toList.map (fun c => UInt32.ofNat c.toNat)

/-- A field under its name. -/
def read (mem : Memory) (name : String) (t : FieldType) : Reader t.Value :=
  deserialize mem (ascii name) t

def write (name : String) (t : FieldType) (data : t.Value) : Bytes := serialize (ascii name) t data

/-- What `catch (...)` catches. -/
def Stop.isException : Stop → Bool
  | .outside => false
  | _ => true

/-- `Serializable::Serialize`, the header with the name of the class. -/
def serializeHeader (className : String) : Bytes :=
  write "SerializableName" .string (ascii className)

/-- `DeserializeNew <T>`: the factory has nothing for a name it does not know, and an object of
    another class is no `T`. -/
def deserializeNew {α : Type} (mem : Memory) (className : String) (object : Reader α) : Reader α := do
  let name ← read mem "SerializableName" .string
  if name ≠ ascii className then stop .runtimeError else object

/-- A pointer behind its `Null` flag. -/
def deserializePointer {α : Type} (mem : Memory) (nullName : String) (item : Reader α) :
    Reader (Option α) := do
  let null ← read mem nullName .bool
  if null = true then pure none
  else do
    let x ← item
    pure (some x)

def serializePointer {α : Type} (nullName : String) (item : α → Bytes) (x : Option α) : Bytes :=
  write nullName .bool x.isNone ++ x.elim [] item

/-! ## Memory enough -/

/-- How much memory the strings of a value take, and how many items it has. -/
def footprint : (t : FieldType) → t.Value → Nat
  | .string, data => List.length data + 1
  | .wstring, data => (List.length data + 1) * sizeofWchar
  | .buffer size, _ => size
  | .stringList, items => List.length items + (List.map (fun data : Bytes => data.length + 1) items).sum
  | .wstringList, items =>
    List.length items + (List.map (fun data : WString => (data.length + 1) * sizeofWchar) items).sum
  | _, _ => 0

/-- Vectors of up to `n` bytes can be had, the names of the fields among them. -/
structure Ample (mem : Memory) (n : Nat) : Prop where
  small : n < 2 ^ 64
  names : 64 ≤ n
  allocates : ∀ bytes ≤ n, mem.allocates bytes

/-- A name as fields have them. -/
def Plain (name : String) : Prop := (ascii name).length < 64 ∧ 0 ∉ ascii name

instance (name : String) : Decidable (Plain name) := instDecidableAnd

variable {mem : Memory} {n : Nat}

theorem sized_of_footprint (h : Ample mem n) (t : FieldType) (v : t.Value) (hv : footprint t v ≤ n) :
    Sized t v := by
  have hsmall := h.small
  cases t with
  | string => exact lt_of_le_of_lt hv hsmall
  | wstring => exact lt_of_le_of_lt hv hsmall
  | buffer size => exact lt_of_le_of_lt hv hsmall
  | stringList =>
    simp only [footprint] at hv
    refine ⟨by omega, fun data hdata => ?_⟩
    have hle := List.single_le_sum (fun _ _ => Nat.zero_le _) _
      (List.mem_map_of_mem (f := fun data : Bytes => data.length + 1) hdata)
    omega
  | wstringList =>
    simp only [footprint] at hv
    refine ⟨by omega, fun data hdata => ?_⟩
    have hle := List.single_le_sum (fun _ _ => Nat.zero_le _) _
      (List.mem_map_of_mem (f := fun data : WString => (data.length + 1) * sizeofWchar) hdata)
    omega
  | _ => trivial

theorem hasRoom_of_footprint (h : Ample mem n) (t : FieldType) (v : t.Value)
    (hv : footprint t v ≤ n) : HasRoom mem t v := by
  cases t with
  | string => exact h.allocates _ hv
  | wstring => exact h.allocates _ hv
  | stringList =>
    simp only [footprint] at hv
    refine fun data hdata => h.allocates _ ?_
    have hle := List.single_le_sum (fun _ _ => Nat.zero_le _) _
      (List.mem_map_of_mem (f := fun data : Bytes => data.length + 1) hdata)
    omega
  | wstringList =>
    simp only [footprint] at hv
    refine fun data hdata => h.allocates _ ?_
    have hle := List.single_le_sum (fun _ _ => Nat.zero_le _) _
      (List.mem_map_of_mem (f := fun data : WString => (data.length + 1) * sizeofWchar) hdata)
    omega
  | _ => trivial

/-! ## Fields, pointers and objects -/

theorem reads_field (h : Ample mem n) {name : String} (hname : Plain name) (t : FieldType)
    (v : t.Value) (hv : footprint t v ≤ n) :
    Reads (read mem name t) (write name t v) (cut t v) := by
  have hshort := hname.1
  have hnames := h.names
  exact (deserialize_serialize_reads (by omega) t v (sized_of_footprint h t v hv)).reads
    ⟨⟨h.allocates _ (by omega), hname.2⟩, hasRoom_of_footprint h t v hv⟩

/-- A field in front of what is read after it. -/
theorem reads_then {α : Type} {name : String} {t : FieldType} {v : t.Value}
    {f : t.Value → Reader α} {w : Bytes} {a : α} (h : Ample mem n) (hname : Plain name)
    (hv : footprint t v ≤ n) (hrest : Reads (f (cut t v)) w a) :
    Reads (read mem name t >>= f) (write name t v ++ w) a :=
  (reads_field h hname t v hv).bind hrest

theorem reads_pointer {α : Type} {item : Reader α} {itemBytes : α → Bytes} {back : α → α}
    (h : Ample mem n) {nullName : String} (hname : Plain nullName) (x : Option α)
    (hitem : ∀ y, x = some y → Reads item (itemBytes y) (back y)) :
    Reads (deserializePointer mem nullName item) (serializePointer nullName itemBytes x) (x.map back) := by
  refine (reads_field h hname .bool x.isNone (Nat.zero_le n)).bind ?_
  cases x with
  | none => exact reads_pure none
  | some y => exact (hitem y rfl).map

theorem reads_object {α : Type} {object : Reader α} {w : Bytes} {a : α} (h : Ample mem n)
    (className : String) (hname : Plain className) (hobject : Reads object w a) :
    Reads (deserializeNew mem className object) (serializeHeader className ++ w) a := by
  have hshort := hname.1
  have hnames := h.names
  have hcut : cut .string (ascii className) = ascii className := (cut_eq_self_iff _ _).mpr hname.2
  have hheader : Reads (read mem "SerializableName" .string) _ _ :=
    reads_field h (by decide) .string (ascii className) (by simp only [footprint]; omega)
  rw [hcut] at hheader
  rw [deserializeNew, serializeHeader]
  refine hheader.bind ?_
  have hsame : ¬ ascii className ≠ ascii className := fun hne => hne rfl
  simpa only [if_neg hsame] using hobject

end Serializer

end VeraCrypt
