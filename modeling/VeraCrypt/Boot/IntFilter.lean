import VeraCrypt.Boot.Platform

/-!
# The memory map that the running system is shown (`Boot/Windows/IntFilter.cpp`)

Before it starts the operating system, the boot loader copies the memory map of the BIOS and takes
the area it lies in out of the free memory: a free entry that covers the area is cut in two, and an
entry for the loader is put between the parts, or in front of the first entry above it.

`createNewBiosMemoryMap_iff` says when the new map is what it is for. It is not where a free entry
reaches up to or beyond 2^64 or is the empty entry at zero, whose last byte wraps, nor where the
entry of the loader takes the last place and the entry above it is written behind the array.
-/

set_option autoImplicit false

namespace VeraCrypt
namespace IntFilter

open Xts (Uint64Struct)
open Boot

/-! ## The code -/

/-- `GetLinearAddress` -/
def getLinearAddress (segment offset : UInt16) : UInt32 :=
  (segment.toUInt32 <<< 4) + offset.toUInt32

/-- `TC_MAX_MEMORY_MAP_SIZE` -/
def maxMemoryMapSize : Nat := 80

structure BiosMemoryMapEntry where
  baseAddress : Uint64Struct
  length : Uint64Struct
  type : UInt32

/-- The loaders that are built, the one with all ciphers and those for one cipher. -/
inductive BootBuild where
  | allCiphers | aes | aesRescueDisk | serpent | twofish | camellia

/-- `TC_BOOT_MEMORY_REQUIRED`, in KB. -/
def BootBuild.memoryRequired : BootBuild → UInt32
  | .allCiphers => 43
  | .aes => 29
  | .aesRescueDisk => 31
  | .serpent => 33
  | .twofish => 41
  | .camellia => 31

/-- The running loader: the build, and the segment it was moved to. -/
structure BootLoader where
  codeSeg : UInt16
  build : BootBuild

variable (b : BootLoader)

def BootLoader.memory : UInt32 := b.build.memoryRequired * 1024

def BootLoader.start : Uint64Struct := { highPart := 0, lowPart := getLinearAddress b.codeSeg 0 }

/-- `bootLoaderEnd` -/
def BootLoader.stop : Uint64Struct := { highPart := 0, lowPart := b.start.lowPart + b.memory }

/-- `CreateBootLoaderMemoryMapEntry` -/
def createBootLoaderMemoryMapEntry (bootLoaderStart : UInt32) : BiosMemoryMapEntry where
  type := 0x2
  baseAddress := { highPart := 0, lowPart := bootLoaderStart }
  length := { highPart := 0, lowPart := b.memory }

/-- `loaderEntry`: what is written for the loader. -/
def loaderEntry : BiosMemoryMapEntry := createBootLoaderMemoryMapEntry b b.start.lowPart

inductive MapError where
  /-- `goto mapOverflow` -/
  | overflow
  /-- an entry is written behind `BiosMemoryMap` -/
  | outside
  deriving DecidableEq

/-- `BiosMemoryMap` up to `newMapEntry`, and the flag. -/
structure MapState where
  map : List BiosMemoryMapEntry
  loaderEntryInserted : Bool

/-- `if (c) *newMapEntry++ = entry`; with `overflow` the writing stands behind a test that there is
    a place. -/
def putIf (c : Bool) (err : MapError) (map : List BiosMemoryMapEntry)
    (entry : BiosMemoryMapEntry) : Except MapError (List BiosMemoryMapEntry) :=
  if c then if maxMemoryMapSize ≤ map.length then .error err else .ok (map ++ [entry])
  else .ok map

def BiosMemoryMapEntry.entryEnd (entry : BiosMemoryMapEntry) : Uint64Struct :=
  Uint64.add entry.baseAddress entry.length

/-- A free entry covers the boot loader area. -/
def covers (entry : BiosMemoryMapEntry) : Bool :=
  entry.type == 0x1 && regionsIntersect b.start b.memory entry.baseAddress
    (Uint64.sub entry.entryEnd (Uint64.ofUint32 1))

/-- The free entry below the boot loader area. -/
def belowEntry (entry : BiosMemoryMapEntry) : BiosMemoryMapEntry :=
  { entry with length := Uint64.sub b.start entry.baseAddress }

/-- The free entry above the boot loader area. -/
def aboveEntry (entry : BiosMemoryMapEntry) : BiosMemoryMapEntry where
  type := 0x1
  baseAddress := b.stop
  length := Uint64.sub entry.entryEnd b.stop

/-- What the loop does with one entry. -/
def mapEntry (st : MapState) (entry : BiosMemoryMapEntry) : Except MapError MapState :=
  if covers b entry then do
    let map ← putIf (Uint64.lt entry.baseAddress b.start) .overflow st.map (belowEntry b entry)
    let map ← putIf (!st.loaderEntryInserted) .overflow map (loaderEntry b)
    let map ← putIf (Uint64.lt b.stop entry.entryEnd) .overflow map (aboveEntry b entry)
    pure { map := map, loaderEntryInserted := true }
  else if maxMemoryMapSize ≤ st.map.length then .error .overflow
  else do
    -- one test for the two entries that are written from here
    let insert := !st.loaderEntryInserted && Uint64.gt entry.baseAddress b.start
    let map ← putIf insert .outside st.map (loaderEntry b)
    let map ← putIf true .outside map entry
    pure { map := map, loaderEntryInserted := st.loaderEntryInserted || insert }

/-- `CreateNewBiosMemoryMap`, on the entries that the BIOS gives one after the other. -/
def createNewBiosMemoryMap (entries : List BiosMemoryMapEntry) :
    Except MapError (List BiosMemoryMapEntry) := do
  let st ← entries.foldlM (mapEntry b) { map := [], loaderEntryInserted := false }
  pure st.map

/-! ## What is written -/

/-- The entry is one for which the loader is entered, if it is not yet. -/
def triggers (entry : BiosMemoryMapEntry) : Bool :=
  covers b entry || Uint64.gt entry.baseAddress b.start

/-- What one entry becomes. -/
def image (inserted : Bool) (entry : BiosMemoryMapEntry) : List BiosMemoryMapEntry :=
  if covers b entry then
    (if Uint64.lt entry.baseAddress b.start then [belowEntry b entry] else []) ++
      (if !inserted then [loaderEntry b] else []) ++
      (if Uint64.lt b.stop entry.entryEnd then [aboveEntry b entry] else [])
  else (if !inserted && Uint64.gt entry.baseAddress b.start then [loaderEntry b] else []) ++ [entry]

def images : Bool → List BiosMemoryMapEntry → List BiosMemoryMapEntry
  | _, [] => []
  | inserted, entry :: entries =>
      image b inserted entry ++ images (inserted || triggers b entry) entries

theorem putIf_bind {α : Type} (c : Bool) (err : MapError) {map : List BiosMemoryMapEntry}
    (entry : BiosMemoryMapEntry) (rest : List BiosMemoryMapEntry → Except MapError α)
    (h : map.length ≤ maxMemoryMapSize) :
    (putIf c err map entry >>= rest) =
      if (map ++ if c then [entry] else []).length ≤ maxMemoryMapSize then
        rest (map ++ if c then [entry] else []) else .error err := by
  cases c with
  | false =>
    simp only [putIf, Bool.false_eq_true, if_false, List.append_nil, if_pos h]
    rfl
  | true =>
    simp only [putIf, if_true, List.length_append, List.length_singleton]
    by_cases hfull : maxMemoryMapSize ≤ map.length
    · rw [if_pos hfull, if_neg (by omega)]
      rfl
    · rw [if_neg hfull, if_pos (by omega)]
      rfl

theorem image_of_not_covers (inserted : Bool) {entry : BiosMemoryMapEntry}
    (h : covers b entry = false) : image b inserted entry =
      (if !inserted && Uint64.gt entry.baseAddress b.start then [loaderEntry b] else []) ++
        [entry] :=
  if_neg (by simp [h])

theorem mapEntry_covers {st : MapState} {entry : BiosMemoryMapEntry}
    (hroom : st.map.length ≤ maxMemoryMapSize) (hcovers : covers b entry = true) :
    mapEntry b st entry =
      if (st.map ++ image b st.loaderEntryInserted entry).length ≤ maxMemoryMapSize then
        .ok { map := st.map ++ image b st.loaderEntryInserted entry, loaderEntryInserted := true }
      else .error .overflow := by
  rw [mapEntry, if_pos hcovers, image, if_pos hcovers, putIf_bind _ _ _ _ hroom]
  generalize (if Uint64.lt entry.baseAddress b.start = true then [belowEntry b entry] else []) =
    below
  generalize hinsert : (if (!st.loaderEntryInserted) = true then [loaderEntry b] else []) = loader
  split
  · rename_i hbelow
    rw [putIf_bind _ _ _ _ hbelow, hinsert]
    split
    · rename_i hloader
      rw [putIf_bind _ _ _ _ hloader]
      simp only [List.append_assoc]
      rfl
    · rename_i hloader
      rw [if_neg]
      simp only [List.length_append] at hloader ⊢
      omega
  · rename_i hbelow
    rw [if_neg]
    simp only [List.length_append] at hbelow ⊢
    omega

theorem mapEntry_copies {st : MapState} {entry : BiosMemoryMapEntry}
    (hroom : st.map.length ≤ maxMemoryMapSize) (hcovers : covers b entry = false) :
    mapEntry b st entry =
      if (st.map ++ image b st.loaderEntryInserted entry).length ≤ maxMemoryMapSize then
        .ok { map := st.map ++ image b st.loaderEntryInserted entry,
              loaderEntryInserted := st.loaderEntryInserted || triggers b entry }
      else if maxMemoryMapSize ≤ st.map.length then .error .overflow else .error .outside := by
  have hinserted : (st.loaderEntryInserted || triggers b entry) = (st.loaderEntryInserted ||
      !st.loaderEntryInserted && Uint64.gt entry.baseAddress b.start) := by
    cases h : st.loaderEntryInserted <;> simp [triggers, hcovers]
  rw [mapEntry, if_neg (by simp [hcovers]), image_of_not_covers b _ hcovers, hinserted]
  by_cases hfull : maxMemoryMapSize ≤ st.map.length
  · rw [if_pos hfull, if_neg, if_pos hfull]
    simp only [List.length_append, List.length_singleton]
    omega
  · rw [if_neg hfull, if_neg hfull, putIf_bind _ _ _ _ hroom]
    generalize (if (!st.loaderEntryInserted && Uint64.gt entry.baseAddress b.start) = true then
      [loaderEntry b] else []) = loader
    split
    · rename_i hloader
      rw [putIf_bind _ _ _ _ hloader]
      simp only [if_true, List.append_assoc]
      rfl
    · rename_i hloader
      rw [if_neg]
      simp only [List.length_append] at hloader ⊢
      omega

/-- The entries of the new map for one entry, without that of the loader. -/
def cost (entry : BiosMemoryMapEntry) : Nat :=
  if covers b entry then
    (if Uint64.lt entry.baseAddress b.start then 1 else 0) +
      if Uint64.lt b.stop entry.entryEnd then 1 else 0
  else 1

/-- The entries of the new map. -/
def entriesNeeded (entries : List BiosMemoryMapEntry) : Nat :=
  (entries.map (cost b)).sum + if entries.any (triggers b) then 1 else 0

theorem length_image (inserted : Bool) (entry : BiosMemoryMapEntry) :
    (image b inserted entry).length =
      cost b entry + if !inserted && triggers b entry then 1 else 0 := by
  unfold image cost triggers
  cases covers b entry with
  | true =>
    simp only [if_true, List.length_append, Bool.true_or, Bool.and_true]
    split <;> split <;> split <;> rfl
  | false =>
    simp only [Bool.false_eq_true, if_false, List.length_append, Bool.false_or]
    split <;> rfl

theorem length_images (entries : List BiosMemoryMapEntry) (inserted : Bool) :
    (images b inserted entries).length = (entries.map (cost b)).sum +
      if !inserted && entries.any (triggers b) then 1 else 0 := by
  induction entries generalizing inserted with
  | nil => simp [images]
  | cons entry entries ih =>
    rw [images, List.length_append, length_image, ih, List.map_cons, List.sum_cons, List.any_cons]
    cases inserted <;> cases triggers b entry <;> simp <;> omega

/-- With `n` entries written and none for the loader: an entry for which there is one place left is
    the first that lies above the loader. -/
def SplitAt (inserted : Bool) (n : Nat) (entries : List BiosMemoryMapEntry) : Prop :=
  inserted = false ∧ ∃ k, n + k + 1 = maxMemoryMapSize ∧
    (∀ entry ∈ entries.take k, triggers b entry = false) ∧
    ∃ entry, entries[k]? = some entry ∧ covers b entry = false ∧
      Uint64.gt entry.baseAddress b.start = true

theorem not_splitAt_cons (inserted : Bool) (n : Nat) (entries : List BiosMemoryMapEntry)
    {entry : BiosMemoryMapEntry} (htriggers : triggers b entry = true)
    (hplace : covers b entry = true ∨ n + 1 ≠ maxMemoryMapSize) :
    ¬ SplitAt b inserted n (entry :: entries) := by
  rintro ⟨-, k, hk, hbefore, above, hget, hcopied, -⟩
  cases k with
  | zero =>
    obtain rfl : entry = above := by simpa using hget
    cases hplace with
    | inl hcovers => simp [hcovers] at hcopied
    | inr hn => exact hn (by omega)
  | succ k =>
    have hfirst := hbefore entry (by simp)
    simp [htriggers] at hfirst

theorem splitAt_cons {inserted : Bool} {n : Nat} {entry : BiosMemoryMapEntry}
    {entries : List BiosMemoryMapEntry} (htriggers : triggers b entry = false) :
    SplitAt b inserted n (entry :: entries) ↔ SplitAt b inserted (n + 1) entries := by
  constructor
  · rintro ⟨hinserted, k, hk, hbefore, above, hget, hcopied, habove⟩
    cases k with
    | zero =>
      obtain rfl : entry = above := by simpa using hget
      simp [triggers, habove] at htriggers
    | succ k =>
      refine ⟨hinserted, k, by omega, fun e he => hbefore e ?_, above, by simpa using hget, hcopied,
        habove⟩
      rw [List.take_succ_cons]
      exact List.mem_cons_of_mem _ he
  · rintro ⟨hinserted, k, hk, hbefore, above, hget, hcopied, habove⟩
    refine ⟨hinserted, k + 1, by omega, fun e he => ?_, above, by simpa using hget, hcopied, habove⟩
    rw [List.take_succ_cons, List.mem_cons] at he
    cases he with
    | inl heq => rw [heq, htriggers]
    | inr hmem => exact hbefore e hmem

theorem length_images_of_splitAt {entries : List BiosMemoryMapEntry} {n : Nat}
    (h : SplitAt b false n entries) :
    maxMemoryMapSize < n + (images b false entries).length := by
  induction entries generalizing n with
  | nil =>
    obtain ⟨-, k, -, -, entry, hget, -⟩ := h
    simp at hget
  | cons entry entries ih =>
    rw [images, List.length_append, length_image]
    cases htriggers : triggers b entry with
    | true =>
      have hplace := mt (not_splitAt_cons b false n entries htriggers) (not_not.mpr h)
      simp only [not_or, Bool.not_eq_true, not_not] at hplace
      rw [cost, if_neg (by simp [hplace.1])]
      simp only [Bool.not_false, Bool.and_self, if_true]
      omega
    | false =>
      have hrest := ih ((splitAt_cons b htriggers).mp h)
      have hcovers : covers b entry = false := by
        simp only [triggers, Bool.or_eq_false_iff] at htriggers
        exact htriggers.1
      rw [cost, if_neg (by simp [hcovers])]
      simp only [Bool.false_or, Bool.and_false, Bool.false_eq_true, if_false]
      omega

/-- One step: an image for which there is room is written. -/
theorem mapEntry_ok {st : MapState} {entry : BiosMemoryMapEntry}
    (hroom : (st.map ++ image b st.loaderEntryInserted entry).length ≤ maxMemoryMapSize) :
    mapEntry b st entry =
      .ok { map := st.map ++ image b st.loaderEntryInserted entry,
            loaderEntryInserted := st.loaderEntryInserted || triggers b entry } := by
  have hmap : st.map.length ≤ maxMemoryMapSize := by
    rw [List.length_append] at hroom
    omega
  cases hcovers : covers b entry with
  | true => rw [mapEntry_covers b hmap hcovers, if_pos hroom, triggers, hcovers, Bool.true_or,
      Bool.or_true]
  | false => rw [mapEntry_copies b hmap hcovers, if_pos hroom]

/-- One step: an image for which there is no room ends the loop, in the one case behind the end. -/
theorem mapEntry_error {st : MapState} {entry : BiosMemoryMapEntry}
    (entries : List BiosMemoryMapEntry) (hmap : st.map.length ≤ maxMemoryMapSize)
    (hfull : maxMemoryMapSize < (st.map ++ image b st.loaderEntryInserted entry).length) :
    ∃ err, mapEntry b st entry = .error err ∧
      (err = .outside ↔ SplitAt b st.loaderEntryInserted st.map.length (entry :: entries)) := by
  cases hcovers : covers b entry with
  | true =>
    refine ⟨.overflow, ?_, ?_⟩
    · rw [mapEntry_covers b hmap hcovers, if_neg (Nat.not_le.mpr hfull)]
    · have htriggers : triggers b entry = true := by simp [triggers, hcovers]
      have hnot := not_splitAt_cons b st.loaderEntryInserted st.map.length entries htriggers
        (.inl hcovers)
      simp [hnot]
  | false =>
    rw [mapEntry_copies b hmap hcovers, if_neg (Nat.not_le.mpr hfull)]
    rw [List.length_append, length_image, cost, if_neg (by simp [hcovers])] at hfull
    by_cases hlast : maxMemoryMapSize ≤ st.map.length
    · refine ⟨.overflow, if_pos hlast, ?_⟩
      simp only [reduceCtorEq, false_iff]
      rintro ⟨-, k, hk, -⟩
      omega
    · refine ⟨.outside, if_neg hlast, ?_⟩
      -- both entries are to be written, and there is one place
      have hboth : (!st.loaderEntryInserted && triggers b entry) = true := by
        by_contra hnot
        rw [if_neg hnot] at hfull
        omega
      rw [if_pos hboth] at hfull
      simp only [Bool.and_eq_true, Bool.not_eq_true', triggers, hcovers, Bool.false_or] at hboth
      simp only [true_iff]
      exact ⟨hboth.1, 0, by omega, by simp, entry, by simp, hcovers, hboth.2⟩

theorem foldlM_ok (entries : List BiosMemoryMapEntry) (st : MapState)
    (hroom : (st.map ++ images b st.loaderEntryInserted entries).length ≤ maxMemoryMapSize) :
    (entries.foldlM (mapEntry b) st).map MapState.map =
      .ok (st.map ++ images b st.loaderEntryInserted entries) := by
  induction entries generalizing st with
  | nil => simp [images, pure, Except.pure, Except.map]
  | cons entry entries ih =>
    rw [images, ← List.append_assoc] at hroom ⊢
    have hfirst : (st.map ++ image b st.loaderEntryInserted entry).length ≤ maxMemoryMapSize := by
      rw [List.length_append] at hroom
      omega
    rw [List.foldlM_cons, mapEntry_ok b hfirst]
    exact ih _ hroom

theorem foldlM_error (entries : List BiosMemoryMapEntry) (st : MapState)
    (hmap : st.map.length ≤ maxMemoryMapSize)
    (hfull : maxMemoryMapSize < (st.map ++ images b st.loaderEntryInserted entries).length) :
    ∃ err, entries.foldlM (mapEntry b) st = .error err ∧
      (err = .outside ↔ SplitAt b st.loaderEntryInserted st.map.length entries) := by
  induction entries generalizing st with
  | nil =>
    simp only [images, List.append_nil] at hfull
    omega
  | cons entry entries ih =>
    rw [images, ← List.append_assoc] at hfull
    rw [List.foldlM_cons]
    by_cases hfirst : (st.map ++ image b st.loaderEntryInserted entry).length ≤ maxMemoryMapSize
    · rw [mapEntry_ok b hfirst]
      obtain ⟨err, herr, hiff⟩ := ih
        { map := st.map ++ image b st.loaderEntryInserted entry,
          loaderEntryInserted := st.loaderEntryInserted || triggers b entry } hfirst hfull
      refine ⟨err, herr, hiff.trans ?_⟩
      rw [List.length_append, length_image] at hfirst ⊢
      cases htriggers : triggers b entry with
      | true =>
        have hafter : ¬ SplitAt b (st.loaderEntryInserted || true)
            (st.map.length + (cost b entry + if (!st.loaderEntryInserted && true) = true then 1
              else 0)) entries := by
          rintro ⟨hinserted, -⟩
          simp at hinserted
        simp only [hafter, false_iff]
        cases hinserted : st.loaderEntryInserted with
        | true =>
          rintro ⟨hnot, -⟩
          cases hnot
        | false =>
          apply not_splitAt_cons b _ _ _ htriggers
          cases hcovers : covers b entry with
          | true => exact .inl rfl
          | false =>
            -- the entry and that of the loader had room
            right
            rw [hinserted, htriggers, cost, if_neg (by simp [hcovers])] at hfirst
            simp only [Bool.not_false, Bool.and_self, if_true] at hfirst
            omega
      | false =>
        have hcovers : covers b entry = false := by
          simp only [triggers, Bool.or_eq_false_iff] at htriggers
          exact htriggers.1
        rw [splitAt_cons b htriggers, cost, if_neg (by simp [hcovers])]
        simp
    · obtain ⟨err, herr, hiff⟩ := mapEntry_error b entries hmap (Nat.not_le.mp hfirst)
      exact ⟨err, by rw [herr]; rfl, hiff⟩

/-! ## The numbers -/

theorem memory_pos : 0 < b.memory.toNat := by
  unfold BootLoader.memory
  cases b.build <;> decide

theorem memory_le : b.memory.toNat ≤ 43 * 1024 := by
  unfold BootLoader.memory
  cases b.build <;> decide

theorem num_start : Uint64.num b.start = 16 * b.codeSeg.toNat := by
  have hseg := b.codeSeg.toNat_lt
  simp only [Uint64.num, BootLoader.start, getLinearAddress, UInt32.toNat_add,
    UInt32.toNat_shiftLeft, UInt16.toNat_toUInt32, Nat.shiftLeft_eq]
  simp
  omega

theorem num_stop : Uint64.num b.stop = Uint64.num b.start + b.memory.toNat := by
  have hstart := num_start b
  have hseg := b.codeSeg.toNat_lt
  have hmemory := memory_le b
  simp only [Uint64.num, BootLoader.start, BootLoader.stop, UInt32.toNat_add] at hstart ⊢
  simp only [UInt32.toNat_zero] at hstart ⊢
  omega

theorem num_stop_lt : Uint64.num b.stop < 2 ^ 32 := by
  have hseg := b.codeSeg.toNat_lt
  have hmemory := memory_le b
  rw [num_stop, num_start]
  omega

/-- The last address of an entry, as the code computes it. -/
def BiosMemoryMapEntry.lastAddress (entry : BiosMemoryMapEntry) : Nat :=
  (Uint64.num entry.baseAddress + Uint64.num entry.length + (2 ^ 64 - 1)) % 2 ^ 64

theorem num_entryEnd (entry : BiosMemoryMapEntry) : Uint64.num entry.entryEnd =
    (Uint64.num entry.baseAddress + Uint64.num entry.length) % 2 ^ 64 :=
  Uint64.num_add _ _

theorem covers_iff (entry : BiosMemoryMapEntry) : covers b entry = true ↔
    entry.type = 0x1 ∧ Uint64.num b.start ≤ entry.lastAddress ∧
      Uint64.num entry.baseAddress ≤ entry.lastAddress ∧
      Uint64.num entry.baseAddress < Uint64.num b.stop := by
  have hlast : Uint64.num (Uint64.sub entry.entryEnd (Uint64.ofUint32 1)) = entry.lastAddress := by
    rw [Uint64.num_sub, num_entryEnd, Uint64.num_ofUint32, BiosMemoryMapEntry.lastAddress]
    simp
  have hfit : Uint64.num b.start + b.memory.toNat < 2 ^ 32 := num_stop b ▸ num_stop_lt b
  rw [covers, Bool.and_eq_true, beq_iff_eq, regionsIntersect_iff _ _ (memory_pos b) hfit, hlast,
    num_stop]

/-! ## The free addresses -/

/-- The address is marked free by the entry. -/
def FreeIn (entry : BiosMemoryMapEntry) (a : UInt64) : Prop :=
  entry.type = 0x1 ∧ Uint64.num entry.baseAddress ≤ a.toNat ∧
    a.toNat < Uint64.num entry.baseAddress + Uint64.num entry.length

/-- The address is marked free by the map. -/
def FreeAt (map : List BiosMemoryMapEntry) (a : UInt64) : Prop := ∃ entry ∈ map, FreeIn entry a

/-- The address is one of the loader area. -/
def BootLoader.Holds (a : UInt64) : Prop :=
  Uint64.num b.start ≤ a.toNat ∧ a.toNat < Uint64.num b.stop

/-- A free entry that goes on behind the last address, and begins below the end of the loader. -/
def RunsOver (entry : BiosMemoryMapEntry) : Prop :=
  entry.type = 0x1 ∧ Uint64.num entry.baseAddress < Uint64.num b.stop ∧
    2 ^ 64 < Uint64.num entry.baseAddress + Uint64.num entry.length

/-- A free entry that ends with the last address, and begins below the end of the loader. -/
def EndsAtTop (entry : BiosMemoryMapEntry) : Prop :=
  entry.type = 0x1 ∧ Uint64.num entry.baseAddress < Uint64.num b.stop ∧
    Uint64.num entry.baseAddress + Uint64.num entry.length = 2 ^ 64

/-- The free entry without an address that begins at zero. -/
def EmptyAtZero (entry : BiosMemoryMapEntry) : Prop :=
  entry.type = 0x1 ∧ Uint64.num entry.baseAddress = 0 ∧ Uint64.num entry.length = 0

/-- What is free in the parts of an entry. -/
def PieceFree (entry : BiosMemoryMapEntry) (a : UInt64) : Prop :=
  if covers b entry then
    (Uint64.num entry.baseAddress ≤ a.toNat ∧ a.toNat < Uint64.num b.start) ∨
      (Uint64.num b.stop ≤ a.toNat ∧ a.toNat < Uint64.num entry.entryEnd)
  else FreeIn entry a

theorem freeAt_append (map map' : List BiosMemoryMapEntry) (a : UInt64) :
    FreeAt (map ++ map') a ↔ FreeAt map a ∨ FreeAt map' a := by
  simp [FreeAt, or_and_right, exists_or]

theorem freeAt_if (c : Bool) (entry : BiosMemoryMapEntry) (a : UInt64) :
    FreeAt (if c then [entry] else []) a ↔ c = true ∧ FreeIn entry a := by
  cases c <;> simp [FreeAt]

theorem not_freeIn_loaderEntry (a : UInt64) : ¬ FreeIn (loaderEntry b) a := by
  rintro ⟨htype, -⟩
  cases htype

theorem freeIn_belowEntry {entry : BiosMemoryMapEntry} (htype : entry.type = 0x1)
    (hbelow : Uint64.num entry.baseAddress < Uint64.num b.start) (a : UInt64) :
    FreeIn (belowEntry b entry) a ↔
      Uint64.num entry.baseAddress ≤ a.toNat ∧ a.toNat < Uint64.num b.start := by
  have hstart := Uint64.num_lt b.start
  simp only [FreeIn, belowEntry, Uint64.num_sub, htype, true_and]
  omega

theorem freeIn_aboveEntry {entry : BiosMemoryMapEntry}
    (habove : Uint64.num b.stop < Uint64.num entry.entryEnd) (a : UInt64) :
    FreeIn (aboveEntry b entry) a ↔
      Uint64.num b.stop ≤ a.toNat ∧ a.toNat < Uint64.num entry.entryEnd := by
  have hend := Uint64.num_lt entry.entryEnd
  simp only [FreeIn, aboveEntry, Uint64.num_sub, true_and]
  omega

theorem freeAt_image (inserted : Bool) (entry : BiosMemoryMapEntry) (a : UInt64) :
    FreeAt (image b inserted entry) a ↔ PieceFree b entry a := by
  cases hcovers : covers b entry with
  | true =>
    have htype := ((covers_iff b entry).mp hcovers).1
    rw [image, if_pos hcovers, PieceFree, if_pos hcovers]
    simp only [freeAt_append, freeAt_if, not_freeIn_loaderEntry, and_false, or_false]
    apply or_congr
    · constructor
      · rintro ⟨hlt, hfree⟩
        exact (freeIn_belowEntry b htype ((Uint64.lt_iff _ _).mp hlt) a).mp hfree
      · intro hbelow
        have hlt : Uint64.num entry.baseAddress < Uint64.num b.start := by omega
        exact ⟨(Uint64.lt_iff _ _).mpr hlt, (freeIn_belowEntry b htype hlt a).mpr hbelow⟩
    · constructor
      · rintro ⟨hlt, hfree⟩
        exact (freeIn_aboveEntry b ((Uint64.lt_iff _ _).mp hlt) a).mp hfree
      · intro habove
        have hlt : Uint64.num b.stop < Uint64.num entry.entryEnd := by omega
        exact ⟨(Uint64.lt_iff _ _).mpr hlt, (freeIn_aboveEntry b hlt a).mpr habove⟩
  | false =>
    rw [image_of_not_covers b _ hcovers, freeAt_append, freeAt_if]
    simp [not_freeIn_loaderEntry, PieceFree, hcovers, FreeAt]

theorem freeAt_images (entries : List BiosMemoryMapEntry) (inserted : Bool) (a : UInt64) :
    FreeAt (images b inserted entries) a ↔ ∃ entry ∈ entries, PieceFree b entry a := by
  induction entries generalizing inserted with
  | nil => simp [images, FreeAt]
  | cons entry entries ih =>
    rw [images, freeAt_append, freeAt_image, ih]
    simp

theorem pieceFree_iff {entry : BiosMemoryMapEntry} (hover : ¬ RunsOver b entry)
    (hempty : ¬ EmptyAtZero entry) (htop : ¬ EndsAtTop b entry) (a : UInt64) :
    PieceFree b entry a ↔ FreeIn entry a ∧ ¬ b.Holds a := by
  have hcovers := covers_iff b entry
  have hbase := Uint64.num_lt entry.baseAddress
  have hlength := Uint64.num_lt entry.length
  have hstop := num_stop_lt b
  have hmemory := num_stop b
  unfold PieceFree
  split
  · rename_i hc
    obtain ⟨htype, hstart, hfirst, hbelow⟩ := hcovers.mp hc
    rw [num_entryEnd]
    simp only [RunsOver, EmptyAtZero, EndsAtTop, BiosMemoryMapEntry.lastAddress] at *
    simp only [FreeIn, BootLoader.Holds, htype, true_and] at *
    omega
  · rename_i hc
    rw [hcovers] at hc
    constructor
    · intro hfree
      refine ⟨hfree, fun hholds => hc ?_⟩
      obtain ⟨htype, hfirst, hlast⟩ := hfree
      simp only [RunsOver, EndsAtTop, BootLoader.Holds, htype, true_and] at *
      simp only [BiosMemoryMapEntry.lastAddress]
      omega
    · rintro ⟨hfree, -⟩
      exact hfree

/-- The end that wraps is in front of the beginning: the entry stays as it is. -/
theorem pieceFree_of_runsOver {entry : BiosMemoryMapEntry} (h : RunsOver b entry) (a : UInt64) :
    PieceFree b entry a ↔ FreeIn entry a := by
  obtain ⟨-, -, hend⟩ := h
  have hbase := Uint64.num_lt entry.baseAddress
  have hlength := Uint64.num_lt entry.length
  rw [PieceFree, if_neg]
  rw [covers_iff]
  rintro ⟨-, -, hfirst, -⟩
  simp only [BiosMemoryMapEntry.lastAddress] at hfirst
  omega

/-- The end is zero: there is no entry above the loader. -/
theorem pieceFree_of_entryEnd_eq_zero {entry : BiosMemoryMapEntry} (htype : entry.type = 0x1)
    (hbelow : Uint64.num entry.baseAddress < Uint64.num b.stop)
    (hend : Uint64.num entry.entryEnd = 0) (a : UInt64) :
    PieceFree b entry a ↔
      Uint64.num entry.baseAddress ≤ a.toNat ∧ a.toNat < Uint64.num b.start := by
  have hbase := Uint64.num_lt entry.baseAddress
  have hstart := Uint64.num_lt b.start
  have hwrap := num_entryEnd entry
  have hcovers : covers b entry = true := by
    rw [covers_iff, BiosMemoryMapEntry.lastAddress]
    exact ⟨htype, by omega, by omega, hbelow⟩
  rw [PieceFree, if_pos hcovers, hend]
  simp

theorem pieceFree_of_endsAtTop {entry : BiosMemoryMapEntry} (h : EndsAtTop b entry) (a : UInt64) :
    PieceFree b entry a ↔
      Uint64.num entry.baseAddress ≤ a.toNat ∧ a.toNat < Uint64.num b.start := by
  obtain ⟨htype, hbelow, hend⟩ := h
  apply pieceFree_of_entryEnd_eq_zero b htype hbelow
  rw [num_entryEnd, hend, Nat.mod_self]

theorem pieceFree_of_emptyAtZero {entry : BiosMemoryMapEntry} (h : EmptyAtZero entry) (a : UInt64) :
    PieceFree b entry a ↔ a.toNat < Uint64.num b.start := by
  obtain ⟨htype, hbase, hlength⟩ := h
  have hmemory := memory_pos b
  have hstop := num_stop b
  rw [pieceFree_of_entryEnd_eq_zero b htype (by omega) (by simp [num_entryEnd, hbase, hlength]),
    hbase]
  simp

/-- The entries for which the code goes wrong do no harm: there is none that runs over, and what
    those whose end is zero add or lose is free in other entries. -/
structure FreeOk (entries : List BiosMemoryMapEntry) : Prop where
  runsOver : ∀ entry ∈ entries, ¬ RunsOver b entry
  emptyAtZero : ∀ entry ∈ entries, EmptyAtZero entry →
    ∀ a : UInt64, a.toNat < Uint64.num b.start → FreeAt entries a
  endsAtTop : ∀ entry ∈ entries, EndsAtTop b entry →
    ∀ a : UInt64, Uint64.num b.stop ≤ a.toNat →
      ∃ other ∈ entries, ¬ EndsAtTop b other ∧ FreeIn other a

theorem FreeOk.pieceFree {entries : List BiosMemoryMapEntry} (h : FreeOk b entries) (a : UInt64) :
    (∃ entry ∈ entries, PieceFree b entry a) ↔ FreeAt entries a ∧ ¬ b.Holds a := by
  have hstop := num_stop b
  constructor
  · rintro ⟨entry, hmem, hpiece⟩
    have hover := h.runsOver entry hmem
    by_cases hempty : EmptyAtZero entry
    · rw [pieceFree_of_emptyAtZero b hempty] at hpiece
      exact ⟨h.emptyAtZero entry hmem hempty a hpiece, fun hholds => by
        unfold BootLoader.Holds at hholds
        omega⟩
    by_cases htop : EndsAtTop b entry
    · rw [pieceFree_of_endsAtTop b htop] at hpiece
      obtain ⟨htype, -, hend⟩ := htop
      refine ⟨⟨entry, hmem, htype, hpiece.1, ?_⟩, fun hholds => ?_⟩
      · rw [hend]
        exact a.toNat_lt
      · unfold BootLoader.Holds at hholds
        omega
    · rw [pieceFree_iff b hover hempty htop] at hpiece
      exact ⟨⟨entry, hmem, hpiece.1⟩, hpiece.2⟩
  · rintro ⟨⟨entry, hmem, hfree⟩, hholds⟩
    have hsome : ∀ other ∈ entries, ¬ EndsAtTop b other → FreeIn other a →
        ∃ entry ∈ entries, PieceFree b entry a := by
      intro other hother htop hin
      refine ⟨other, hother, (pieceFree_iff b (h.runsOver other hother) ?_ htop a).mpr
        ⟨hin, hholds⟩⟩
      rintro ⟨-, hbase, hlength⟩
      obtain ⟨-, hfirst, hlast⟩ := hin
      omega
    by_cases htop : EndsAtTop b entry
    · by_cases hbelow : a.toNat < Uint64.num b.start
      · exact ⟨entry, hmem, (pieceFree_of_endsAtTop b htop a).mpr ⟨hfree.2.1, hbelow⟩⟩
      · -- the address is above the loader
        unfold BootLoader.Holds at hholds
        obtain ⟨other, hother, hnot, hin⟩ := h.endsAtTop entry hmem htop a (by omega)
        exact hsome other hother hnot hin
    · exact hsome entry hmem htop hfree

theorem freeOk_of_pieceFree {entries : List BiosMemoryMapEntry}
    (h : ∀ a, (∃ entry ∈ entries, PieceFree b entry a) ↔ FreeAt entries a ∧ ¬ b.Holds a) :
    FreeOk b entries where
  runsOver := by
    intro entry hmem hover
    have hstop := num_stop b
    have hlt := num_stop_lt b
    have hmemory := memory_pos b
    obtain ⟨htype, hbelow, hend⟩ := id hover
    -- the first address that the entry and the loader have
    have ha : (UInt64.ofNat (max (Uint64.num entry.baseAddress) (Uint64.num b.start))).toNat =
        max (Uint64.num entry.baseAddress) (Uint64.num b.start) :=
      UInt64.toNat_ofNat_of_lt' (by simp only [UInt64.size]; omega)
    refine ((h (UInt64.ofNat (max (Uint64.num entry.baseAddress) (Uint64.num b.start)))).mp
      ⟨entry, hmem, (pieceFree_of_runsOver b hover _).mpr ?_⟩).2 ?_
    · refine ⟨htype, ?_, ?_⟩ <;> rw [ha] <;> omega
    · constructor <;> rw [ha] <;> omega
  emptyAtZero := by
    intro entry hmem hempty a ha
    exact ((h a).mp ⟨entry, hmem, (pieceFree_of_emptyAtZero b hempty a).mpr ha⟩).1
  endsAtTop := by
    intro entry hmem htop a ha
    have hstop := num_stop b
    have hfree : FreeIn entry a := by
      refine ⟨htop.1, by have := htop.2.1; omega, ?_⟩
      rw [htop.2.2]
      exact a.toNat_lt
    obtain ⟨other, hother, hpiece⟩ := (h a).mpr ⟨⟨entry, hmem, hfree⟩, fun hholds => by
      unfold BootLoader.Holds at hholds
      omega⟩
    have hnot : ¬ EndsAtTop b other := by
      intro hends
      rw [pieceFree_of_endsAtTop b hends] at hpiece
      omega
    refine ⟨other, hother, hnot, ?_⟩
    by_cases hover : RunsOver b other
    · exact (pieceFree_of_runsOver b hover a).mp hpiece
    by_cases hempty : EmptyAtZero other
    · rw [pieceFree_of_emptyAtZero b hempty] at hpiece
      omega
    · exact ((pieceFree_iff b hover hempty hnot a).mp hpiece).1

/-! ## The entries that stay -/

/-- The entries that are not free. -/
def reservedEntries (entries : List BiosMemoryMapEntry) : List BiosMemoryMapEntry :=
  entries.filter (fun entry => entry.type ≠ 0x1)

theorem reservedEntries_sublist_images (entries : List BiosMemoryMapEntry) (inserted : Bool) :
    (reservedEntries entries).Sublist (images b inserted entries) := by
  induction entries generalizing inserted with
  | nil => exact List.Sublist.refl _
  | cons entry entries ih =>
    rw [images, reservedEntries, List.filter_cons]
    split
    · rename_i htype
      have hcovers : covers b entry = false := by
        simp only [ne_eq, decide_not, Bool.not_eq_eq_eq_not, Bool.not_true,
          decide_eq_false_iff_not] at htype
        simp [covers, htype]
      rw [image_of_not_covers b _ hcovers, List.append_assoc]
      exact ((ih _).cons_cons entry).trans (List.sublist_append_right _ _)
    · exact (ih _).trans (List.sublist_append_right _ _)

theorem loaderEntry_mem_image {entry : BiosMemoryMapEntry} (h : triggers b entry = true) :
    loaderEntry b ∈ image b false entry := by
  cases hcovers : covers b entry with
  | true => simp [image, hcovers]
  | false =>
    have habove : Uint64.gt entry.baseAddress b.start = true := by
      simpa [triggers, hcovers] using h
    simp [image_of_not_covers b _ hcovers, habove]

theorem loaderEntry_mem_images {entries : List BiosMemoryMapEntry}
    (h : entries.any (triggers b) = true) : loaderEntry b ∈ images b false entries := by
  induction entries with
  | nil => simp at h
  | cons entry entries ih =>
    rw [images]
    cases htriggers : triggers b entry with
    | true => exact List.mem_append_left _ (loaderEntry_mem_image b htriggers)
    | false =>
      rw [List.any_cons, htriggers, Bool.false_or] at h
      exact List.mem_append_right _ (ih h)

theorem covers_of_freeIn {entry : BiosMemoryMapEntry} {a : UInt64} (hover : ¬ RunsOver b entry)
    (hfree : FreeIn entry a) (hholds : b.Holds a) : covers b entry = true := by
  have hbase := Uint64.num_lt entry.baseAddress
  have hlength := Uint64.num_lt entry.length
  obtain ⟨htype, hfirst, hlast⟩ := hfree
  rw [covers_iff, BiosMemoryMapEntry.lastAddress]
  simp only [RunsOver, BootLoader.Holds, htype, true_and] at *
  omega

/-! ## The new map -/

/-- What a new map is for. -/
structure MapMeets (entries map : List BiosMemoryMapEntry) : Prop where
  length_le : map.length ≤ maxMemoryMapSize
  free : ∀ a, FreeAt map a ↔ FreeAt entries a ∧ ¬ b.Holds a
  kept : (reservedEntries entries).Sublist map
  reserved : ((∃ a, b.Holds a ∧ FreeAt entries a) ∨
    ∃ entry ∈ entries, Uint64.num b.start < Uint64.num entry.baseAddress) → loaderEntry b ∈ map

/-- The map is what it is for, or its overflow is reported; nothing is written behind the array. -/
def Meets (entries : List BiosMemoryMapEntry) :
    Except MapError (List BiosMemoryMapEntry) → Prop
  | .ok map => MapMeets b entries map
  | .error .overflow => True
  | .error .outside => False

/-- The entries that take all places but one are below the loader, and the next is above it. -/
def LoaderTakesLastPlace (entries : List BiosMemoryMapEntry) : Prop :=
  (∀ entry ∈ entries.take (maxMemoryMapSize - 1), triggers b entry = false) ∧
    ∃ entry, entries[maxMemoryMapSize - 1]? = some entry ∧ covers b entry = false ∧
      Uint64.gt entry.baseAddress b.start = true

theorem splitAt_iff (entries : List BiosMemoryMapEntry) :
    SplitAt b false 0 entries ↔ LoaderTakesLastPlace b entries := by
  constructor
  · rintro ⟨-, k, hk, h⟩
    obtain rfl : k = maxMemoryMapSize - 1 := by omega
    exact h
  · intro h
    exact ⟨rfl, maxMemoryMapSize - 1, rfl, h⟩

theorem createNewBiosMemoryMap_ok {entries : List BiosMemoryMapEntry}
    (h : entriesNeeded b entries ≤ maxMemoryMapSize) :
    createNewBiosMemoryMap b entries = .ok (images b false entries) := by
  have hrun := foldlM_ok b entries { map := [], loaderEntryInserted := false }
    (by rw [List.nil_append, length_images]; exact h)
  rw [createNewBiosMemoryMap]
  cases hfold : entries.foldlM (mapEntry b) { map := [], loaderEntryInserted := false } with
  | error err =>
    rw [hfold] at hrun
    cases hrun
  | ok st =>
    rw [hfold] at hrun
    simp only [Except.map, Except.ok.injEq, List.nil_append] at hrun
    rw [← hrun]
    rfl

theorem createNewBiosMemoryMap_error {entries : List BiosMemoryMapEntry}
    (h : maxMemoryMapSize < entriesNeeded b entries) :
    ∃ err, createNewBiosMemoryMap b entries = .error err ∧
      (err = .outside ↔ LoaderTakesLastPlace b entries) := by
  obtain ⟨err, herr, hiff⟩ := foldlM_error b entries { map := [], loaderEntryInserted := false }
    (Nat.zero_le _) (by rw [List.nil_append, length_images]; exact h)
  refine ⟨err, ?_, hiff.trans (splitAt_iff b entries)⟩
  rw [createNewBiosMemoryMap, herr]
  rfl

theorem mapMeets_iff {entries : List BiosMemoryMapEntry}
    (h : entriesNeeded b entries ≤ maxMemoryMapSize) :
    MapMeets b entries (images b false entries) ↔ FreeOk b entries := by
  constructor
  · intro hmeets
    apply freeOk_of_pieceFree
    intro a
    rw [← freeAt_images b entries false]
    exact hmeets.free a
  · intro hok
    refine ⟨by rw [length_images]; exact h, fun a => ?_,
      reservedEntries_sublist_images b entries false, fun hloader => ?_⟩
    · rw [freeAt_images]
      exact hok.pieceFree b a
    · apply loaderEntry_mem_images
      rw [List.any_eq_true]
      cases hloader with
      | inl hfree =>
        obtain ⟨a, hholds, entry, hmem, hin⟩ := hfree
        refine ⟨entry, hmem, ?_⟩
        rw [triggers, covers_of_freeIn b (hok.runsOver entry hmem) hin hholds, Bool.true_or]
      | inr habove =>
        obtain ⟨entry, hmem, hlt⟩ := habove
        refine ⟨entry, hmem, ?_⟩
        rw [triggers, (Uint64.gt_iff _ _).mpr hlt, Bool.or_true]

theorem not_loaderTakesLastPlace {entries : List BiosMemoryMapEntry}
    (h : entriesNeeded b entries ≤ maxMemoryMapSize) : ¬ LoaderTakesLastPlace b entries := by
  intro hlast
  have hmore := length_images_of_splitAt b ((splitAt_iff b entries).mpr hlast)
  rw [length_images] at hmore
  exact absurd h (by simpa [entriesNeeded] using hmore)

/-- The map is right, or its overflow is reported, unless the last place goes to the loader and the
    entry above it is the next, or the places suffice and an entry whose end wraps does harm. -/
theorem createNewBiosMemoryMap_iff (entries : List BiosMemoryMapEntry) :
    Meets b entries (createNewBiosMemoryMap b entries) ↔
      ¬ LoaderTakesLastPlace b entries ∧
        (maxMemoryMapSize < entriesNeeded b entries ∨ FreeOk b entries) := by
  by_cases hneeded : maxMemoryMapSize < entriesNeeded b entries
  · obtain ⟨err, herr, hiff⟩ := createNewBiosMemoryMap_error b hneeded
    rw [herr]
    cases err with
    | overflow => simp [Meets, hneeded, ← hiff]
    | outside => simp [Meets, ← hiff]
  · have hroom := Nat.le_of_not_lt hneeded
    rw [createNewBiosMemoryMap_ok b hroom]
    simp only [Meets, mapMeets_iff b hroom, hneeded, false_or, not_loaderTakesLastPlace b hroom,
      not_false_eq_true, true_and]

/-- A reserved entry of 4 KB at so many pages. -/
def reservedPage (page : UInt32) : BiosMemoryMapEntry where
  baseAddress := { highPart := 0, lowPart := page * 4096 }
  length := { highPart := 0, lowPart := 4096 }
  type := 0x2

/-- With 79 entries below the loader and one above it the map overflows unnoticed. -/
theorem last_entry_outside :
    ¬ Meets ⟨0x9000, .allCiphers⟩ (List.replicate 79 (reservedPage 0) ++ [reservedPage 0xf0])
      (createNewBiosMemoryMap ⟨0x9000, .allCiphers⟩
        (List.replicate 79 (reservedPage 0) ++ [reservedPage 0xf0])) := by
  have hbelow : triggers ⟨0x9000, .allCiphers⟩ (reservedPage 0) = false := by decide
  have hlast : LoaderTakesLastPlace ⟨0x9000, .allCiphers⟩
      (List.replicate 79 (reservedPage 0) ++ [reservedPage 0xf0]) := by
    refine ⟨fun entry hmem => ?_, reservedPage 0xf0, by simp [maxMemoryMapSize], by decide,
      by decide⟩
    have htake : entry ∈ List.replicate 79 (reservedPage 0) := by
      simpa [maxMemoryMapSize, List.take_append] using hmem
    rw [List.eq_of_mem_replicate htake, hbelow]
  have hneeded : maxMemoryMapSize < entriesNeeded ⟨0x9000, .allCiphers⟩
      (List.replicate 79 (reservedPage 0) ++ [reservedPage 0xf0]) :=
    Nat.lt_of_not_le (fun h => not_loaderTakesLastPlace _ h hlast)
  obtain ⟨err, herr, hiff⟩ := createNewBiosMemoryMap_error ⟨0x9000, .allCiphers⟩ hneeded
  rw [herr, hiff.mpr hlast]
  exact id

end IntFilter
end VeraCrypt
