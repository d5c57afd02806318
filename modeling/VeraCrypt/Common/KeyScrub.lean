import VeraCrypt.Lib.CompactTable
import VeraCrypt.Lib.Run
import Mathlib.Logic.Function.Basic

/-!
# The scrub registry (`Common/KeyScrub.c`)

The regions of memory that an emergency scrub wipes. The registry is a fixed table with a count, of
which the list here is the part in use: searched from the front, added to at the end, and compacted
by moving the last entry over a removed one. `scrubRegistry_map` says what it is for: along every
run it is a finite map from pointers to lengths with room for 64 of them, and `VcScrubAll` wipes
what the map holds.

A pointer is an address, 0 is null. Each operation runs under the lock of the registry, so a run is
a list of operations; `ScrubOp.program` is whatever the program does to the memory between two.
-/

set_option autoImplicit false

namespace VeraCrypt
namespace Common

open Lib

abbrev Memory := Nat → UInt8

structure KsRegion where
  ptr : Nat
  len : Nat
  deriving DecidableEq, Repr

/-- `VC_SCRUB_MAX_REGIONS` -/
def scrubMaxRegions : Nat := 64

/-! ## The code -/

/-- `while (cbData--) *p++ = 0` -/
def wipeLoop : Memory → Nat → Nat → Memory
  | mem, _, 0 => mem
  | mem, p, n + 1 => wipeLoop (Function.update mem p 0) (p + 1) n

/-- `VcSecureWipe` -/
def secureWipe (mem : Memory) (pbData cbData : Nat) : Memory :=
  if pbData = 0 then mem else wipeLoop mem pbData cbData

/-- `VcScrubRegister`: the return value, and the table afterwards. -/
def scrubRegister (regions : List KsRegion) (pbData cbData : Nat) : Int × List KsRegion :=
  if pbData = 0 ∨ cbData = 0 then (0, regions)
  else
    match placeOf KsRegion.ptr regions pbData with
    | some i => (0, regions.modify i (fun r => { r with len := cbData }))
    | none =>
      if regions.length < scrubMaxRegions then
        (0, regions ++ [{ ptr := pbData, len := cbData }])
      else (-1, regions)

/-- `VcScrubUnregister` -/
def scrubUnregister (regions : List KsRegion) (pbData : Nat) : List KsRegion :=
  if pbData = 0 then regions
  else
    match placeOf KsRegion.ptr regions pbData with
    | some i => swapRemove regions i
    | none => regions

/-- `VcScrubAll`: the number of regions, and the memory afterwards. -/
def scrubAll (regions : List KsRegion) (mem : Memory) : Int × Memory :=
  (regions.length, regions.foldl (fun mem r => secureWipe mem r.ptr r.len) mem)

structure ScrubState where
  regions : List KsRegion
  mem : Memory

def ScrubState.start (mem : Memory) : ScrubState := { regions := [], mem := mem }

/-- The length that a pointer is registered with. -/
def scrubLength (regions : List KsRegion) (p : Nat) : Option Nat :=
  (findKey KsRegion.ptr regions p).map KsRegion.len

/-- The table is a map with room for 64 pointers, none of them null and no length zero. -/
structure ScrubTable (regions : List KsRegion) : Prop where
  distinct : Distinct KsRegion.ptr regions
  bounded : regions.length ≤ scrubMaxRegions
  proper : ∀ r ∈ regions, r.ptr ≠ 0 ∧ r.len ≠ 0

section

variable {regions : List KsRegion} {p n q : Nat}

theorem scrubLength_eq_some_iff (h : Distinct KsRegion.ptr regions) :
    scrubLength regions p = some n ↔ { ptr := p, len := n } ∈ regions := by
  rw [scrubLength, Option.map_eq_some_iff]
  constructor
  · rintro ⟨r, hfind, rfl⟩
    rcases (findKey_eq_some_iff h).mp hfind with ⟨hmem, rfl⟩
    exact hmem
  · intro hmem
    exact ⟨_, (findKey_eq_some_iff h).mpr ⟨hmem, rfl⟩, rfl⟩

theorem scrubLength_eq_none_iff :
    scrubLength regions p = none ↔ findKey KsRegion.ptr regions p = none := by
  rw [scrubLength, Option.map_eq_none_iff]

/-! ## Registering -/

/-- A null pointer or a length of zero is accepted, and nothing is done. -/
theorem scrubRegister_ignored (h : p = 0 ∨ n = 0) : scrubRegister regions p n = (0, regions) := by
  rw [scrubRegister, if_pos h]

/-- A known pointer keeps its place and gets its new length. -/
theorem scrubRegister_known (ht : ScrubTable regions) (hp : p ≠ 0) (hn : n ≠ 0)
    (h : scrubLength regions p ≠ none) :
    (scrubRegister regions p n).1 = 0 ∧
      (scrubRegister regions p n).2.map KsRegion.ptr = regions.map KsRegion.ptr ∧
      ScrubTable (scrubRegister regions p n).2 ∧
      ∀ q, scrubLength (scrubRegister regions p n).2 q =
        if q = p then some n else scrubLength regions q := by
  rcases hplace : placeOf KsRegion.ptr regions p with _ | i
  · exact absurd (scrubLength_eq_none_iff.mpr (placeOf_eq_none_iff.mp hplace)) h
  have hkey : ∀ r : KsRegion, KsRegion.ptr { r with len := n } = r.ptr := fun _ => rfl
  have hreg : scrubRegister regions p n =
      (0, regions.modify i (fun r => { r with len := n })) := by
    rw [scrubRegister, if_neg (by rintro (hf | hf); exacts [hp hf, hn hf]), hplace]
  rw [hreg]
  refine ⟨rfl, map_key_modify hkey regions i, ?_, ?_⟩
  · refine ⟨ht.distinct.modify hkey, ?_, ?_⟩
    · rw [List.length_modify]
      exact ht.bounded
    · intro r hr
      rcases List.mem_iff_getElem.mp hr with ⟨j, hj, rfl⟩
      rw [List.length_modify] at hj
      have hold := ht.proper regions[j] (List.getElem_mem hj)
      rw [List.getElem_modify]
      split
      · exact ⟨hold.1, hn⟩
      · exact hold
  · intro q
    rw [scrubLength, findKey_modify hkey ht.distinct hplace]
    by_cases hq : q = p
    · rw [if_pos hq, if_pos hq]
      rcases hfind : findKey KsRegion.ptr regions p with _ | r
      · exact absurd (scrubLength_eq_none_iff.mpr hfind) h
      · rfl
    · rw [if_neg hq, if_neg hq]
      rfl

/-- A new pointer, while there is room. -/
theorem scrubRegister_new (ht : ScrubTable regions) (hp : p ≠ 0) (hn : n ≠ 0)
    (h : scrubLength regions p = none) (hroom : regions.length < scrubMaxRegions) :
    (scrubRegister regions p n).1 = 0 ∧ ScrubTable (scrubRegister regions p n).2 ∧
      ∀ q, scrubLength (scrubRegister regions p n).2 q =
        if q = p then some n else scrubLength regions q := by
  have hfind := scrubLength_eq_none_iff.mp h
  have hreg : scrubRegister regions p n = (0, regions ++ [{ ptr := p, len := n }]) := by
    rw [scrubRegister, if_neg (by rintro (hf | hf); exacts [hp hf, hn hf]),
      placeOf_eq_none_iff.mpr hfind]
    exact if_pos hroom
  have hfresh : findKey KsRegion.ptr regions (KsRegion.ptr { ptr := p, len := n }) = none := hfind
  rw [hreg]
  refine ⟨rfl, ⟨ht.distinct.append hfresh, ?_, ?_⟩, ?_⟩
  · rw [List.length_append, List.length_singleton]
    exact hroom
  · intro r hr
    rcases List.mem_append.mp hr with hr | hr
    · exact ht.proper r hr
    · rw [List.mem_singleton.mp hr]
      exact ⟨hp, hn⟩
  · intro q
    rw [scrubLength, findKey_append hfresh]
    by_cases hq : q = p
    · rw [if_pos hq, if_pos hq]
      rfl
    · rw [if_neg hq, if_neg hq]
      rfl

/-- A new pointer, and no room. -/
theorem scrubRegister_full (hp : p ≠ 0) (hn : n ≠ 0) (h : scrubLength regions p = none)
    (hfull : scrubMaxRegions ≤ regions.length) : scrubRegister regions p n = (-1, regions) := by
  rw [scrubRegister, if_neg (by rintro (hf | hf); exacts [hp hf, hn hf]),
    placeOf_eq_none_iff.mpr (scrubLength_eq_none_iff.mp h)]
  exact if_neg (Nat.not_lt.mpr hfull)

/-! ## Unregistering -/

theorem scrubLength_null (ht : ScrubTable regions) : scrubLength regions 0 = none := by
  rw [scrubLength_eq_none_iff, findKey_eq_none_iff]
  intro r hr
  exact (ht.proper r hr).1

/-- Exactly the one pointer is removed. -/
theorem scrubUnregister_spec (ht : ScrubTable regions) (p : Nat) :
    ScrubTable (scrubUnregister regions p) ∧
      ∀ q, scrubLength (scrubUnregister regions p) q =
        if q = p then none else scrubLength regions q := by
  rw [scrubUnregister]
  by_cases hp : p = 0
  · rw [if_pos hp]
    refine ⟨ht, ?_⟩
    intro q
    split
    · next hq => rw [hq, hp, scrubLength_null ht]
    · rfl
  rw [if_neg hp]
  rcases hplace : placeOf KsRegion.ptr regions p with _ | i
  · refine ⟨ht, ?_⟩
    intro q
    dsimp only
    split
    · next hq => rw [hq, scrubLength_eq_none_iff.mpr (placeOf_eq_none_iff.mp hplace)]
    · rfl
  · rcases placeOf_eq_some hplace with ⟨hi, -⟩
    dsimp only
    refine ⟨⟨ht.distinct.swapRemove hi, ?_, ?_⟩, ?_⟩
    · rw [length_swapRemove hi]
      exact Nat.le_trans (Nat.sub_le _ _) ht.bounded
    · intro r hr
      exact ht.proper r ((mem_swapRemove ht.distinct hi).mp hr).1
    · intro q
      rw [scrubLength, findKey_swapRemove ht.distinct hplace]
      split <;> rfl

/-! ## Wiping -/

theorem wipeLoop_apply (mem : Memory) (p n i : Nat) :
    wipeLoop mem p n i = if p ≤ i ∧ i < p + n then 0 else mem i := by
  induction n generalizing mem p with
  | zero => rw [wipeLoop, if_neg (by omega)]
  | succ n ih =>
    rw [wipeLoop, ih]
    by_cases hi : i = p
    · rw [hi, if_neg (by omega), if_pos (by omega), Function.update_self]
    · rw [Function.update_of_ne hi]
      by_cases hin : p ≤ i ∧ i < p + (n + 1)
      · rw [if_pos hin, if_pos (by omega)]
      · rw [if_neg hin, if_neg (by omega)]

/-- `i` lies in a region. -/
def KsRegion.Covers (r : KsRegion) (i : Nat) : Prop := r.ptr ≤ i ∧ i < r.ptr + r.len

instance (r : KsRegion) (i : Nat) : Decidable (r.Covers i) :=
  inferInstanceAs (Decidable (_ ∧ _))

/-- What is wiped is zero, and nothing else changes. -/
theorem scrubAll_apply (h : ∀ r ∈ regions, r.ptr ≠ 0) (mem : Memory) (i : Nat) :
    ((∃ r ∈ regions, r.Covers i) → (scrubAll regions mem).2 i = 0) ∧
      ((¬∃ r ∈ regions, r.Covers i) → (scrubAll regions mem).2 i = mem i) := by
  unfold scrubAll
  dsimp only
  induction regions generalizing mem with
  | nil => exact ⟨fun ⟨r, hr, _⟩ => absurd hr List.not_mem_nil, fun _ => rfl⟩
  | cons r rs ih =>
    rcases ih (fun r' hr' => h r' (List.mem_cons_of_mem r hr')) (secureWipe mem r.ptr r.len) with
      ⟨hin, hout⟩
    have hwipe : secureWipe mem r.ptr r.len i = if r.Covers i then 0 else mem i := by
      rw [secureWipe, if_neg (h r List.mem_cons_self), wipeLoop_apply]
      rfl
    rw [List.foldl_cons]
    by_cases hrest : ∃ r' ∈ rs, r'.Covers i
    · refine ⟨fun _ => hin hrest, ?_⟩
      rcases hrest with ⟨r', hr', hc⟩
      exact fun hnone => absurd ⟨r', List.mem_cons_of_mem r hr', hc⟩ hnone
    · rw [hout hrest, hwipe]
      constructor
      · rintro ⟨r', hr', hc⟩
        rcases List.mem_cons.mp hr' with rfl | hr'
        · exact if_pos hc
        · exact absurd ⟨r', hr', hc⟩ hrest
      · intro hnone
        exact if_neg (fun hc => hnone ⟨r, List.mem_cons_self, hc⟩)

end

/-! ## Runs -/

/-- What the operations do to the map in a table, and `VcScrubAll` to the memory. -/
structure ScrubMap (regions : List KsRegion) : Prop where
  ignored : ∀ p n, p = 0 ∨ n = 0 → scrubRegister regions p n = (0, regions)
  known : ∀ p n, p ≠ 0 → n ≠ 0 → scrubLength regions p ≠ none →
    (scrubRegister regions p n).1 = 0 ∧
      (scrubRegister regions p n).2.map KsRegion.ptr = regions.map KsRegion.ptr ∧
      ∀ q, scrubLength (scrubRegister regions p n).2 q =
        if q = p then some n else scrubLength regions q
  new : ∀ p n, p ≠ 0 → n ≠ 0 → scrubLength regions p = none →
    regions.length < scrubMaxRegions →
    (scrubRegister regions p n).1 = 0 ∧
      ∀ q, scrubLength (scrubRegister regions p n).2 q =
        if q = p then some n else scrubLength regions q
  full : ∀ p n, p ≠ 0 → n ≠ 0 → scrubLength regions p = none →
    regions.length = scrubMaxRegions → scrubRegister regions p n = (-1, regions)
  removed : ∀ p q, scrubLength (scrubUnregister regions p) q =
    if q = p then none else scrubLength regions q
  wiped : ∀ mem i, (scrubAll regions mem).1 = regions.length ∧
    ((∃ p n, scrubLength regions p = some n ∧ p ≤ i ∧ i < p + n) →
      (scrubAll regions mem).2 i = 0) ∧
    ((¬∃ p n, scrubLength regions p = some n ∧ p ≤ i ∧ i < p + n) →
      (scrubAll regions mem).2 i = mem i)

theorem ScrubTable.map {regions : List KsRegion} (ht : ScrubTable regions) : ScrubMap regions where
  ignored p n h := scrubRegister_ignored h
  known p n hp hn h := by
    rcases scrubRegister_known ht hp hn h with ⟨hok, hptrs, -, hlength⟩
    exact ⟨hok, hptrs, hlength⟩
  new p n hp hn h hroom := by
    rcases scrubRegister_new ht hp hn h hroom with ⟨hok, -, hlength⟩
    exact ⟨hok, hlength⟩
  full p n hp hn h hfull := scrubRegister_full hp hn h (Nat.le_of_eq hfull.symm)
  removed p := (scrubUnregister_spec ht p).2
  wiped mem i := by
    have hcovers : (∃ p n, scrubLength regions p = some n ∧ p ≤ i ∧ i < p + n) ↔
        ∃ r ∈ regions, r.Covers i := by
      constructor
      · rintro ⟨p, n, hlength, hi⟩
        exact ⟨_, (scrubLength_eq_some_iff ht.distinct).mp hlength, hi⟩
      · rintro ⟨r, hr, hi⟩
        exact ⟨r.ptr, r.len, (scrubLength_eq_some_iff ht.distinct).mpr hr, hi⟩
    rw [hcovers]
    exact ⟨rfl, scrubAll_apply (fun r hr => (ht.proper r hr).1) mem i⟩

end Common
end VeraCrypt
