import VeraCrypt.Keyslot.Wrap
import VeraCrypt.Lib.Endian
import VeraCrypt.Lib.Run

/-!
# Atomic header writes (`Common/AtomicHeader.c`)

    copy      = header || gen[8, big-endian] || commitTag[32]
    commitTag = HMAC-SHA256(K, header || gen)

Two copies, A and B. A commit selects the current copy and writes the new header, under the
next generation, to the other one. A crash in the middle of that write leaves the new bytes
up to some point and the old ones behind it.

`commit` is the protocol of the header comment as a step, with the point of the crash as an
input. `Reached` is the invariant of its runs: the selection gives the header that was
committed last.
-/

set_option autoImplicit false

namespace VeraCrypt

open Lib

def atomicHeaderGenSize : Nat := 8
def atomicHeaderTagSize : Nat := 32
def atomicHeaderOverhead : Nat := atomicHeaderGenSize + atomicHeaderTagSize

/-- `ah_hmac`: the construction of `ks_hmac_sha256` under a 32-byte key. -/
def ahHmac (P : Primitives) (key m1 m2 : Bytes) : Bytes := ksHmacSha256 P key m1 m2

def putGen (gen : UInt64) : Bytes := beBytes atomicHeaderGenSize gen.toNat

def readGen (p : Bytes) : UInt64 := UInt64.ofNat (beNat (slice p 0 atomicHeaderGenSize))

/-- `AtomicHeaderBuild`. -/
def atomicHeaderBuild (P : Primitives) (K header : Bytes) (gen : UInt64) : Bytes :=
  header ++ putGen gen ++ ahHmac P K header (putGen gen)

/-- `AtomicHeaderValid`. -/
def atomicHeaderValid (P : Primitives) (K copy : Bytes) (headerLen : Nat) : Bool :=
  ctEqual
    (ahHmac P K (slice copy 0 headerLen) (slice copy headerLen atomicHeaderGenSize))
    (slice copy (headerLen + atomicHeaderGenSize) atomicHeaderTagSize)

/-- `AtomicHeaderGen`. -/
def atomicHeaderGen (copy : Bytes) (headerLen : Nat) : UInt64 := readGen (copy.drop headerLen)

/-- Which of the two copies. -/
inductive HeaderCopy where
  | a | b
  deriving DecidableEq

/-- The two copies on the medium. -/
structure HeaderPair where
  copyA : Bytes
  copyB : Bytes
  deriving DecidableEq

/-- What a selection hands out. -/
structure SelectedHeader where
  chosen : HeaderCopy
  header : Bytes
  gen : UInt64
  deriving DecidableEq

/-- `AtomicHeaderSelect`; `none` is the return value -1. -/
def atomicHeaderSelect (P : Primitives) (K : Bytes) (pair : HeaderPair) (headerLen : Nat) :
    Option SelectedHeader :=
  let va := atomicHeaderValid P K pair.copyA headerLen
  let vb := atomicHeaderValid P K pair.copyB headerLen
  let pick (chosen : HeaderCopy) (c : Bytes) : SelectedHeader :=
    { chosen := chosen, header := slice c 0 headerLen, gen := atomicHeaderGen c headerLen }
  if !va && !vb then none
  else if va && !vb then some (pick .a pair.copyA)
  else if vb && !va then some (pick .b pair.copyB)
  else if atomicHeaderGen pair.copyB headerLen > atomicHeaderGen pair.copyA headerLen then
    some (pick .b pair.copyB)
  else some (pick .a pair.copyA)

/-- One of the two tests of `AtomicHeaderNextGen`. -/
def raiseGen (P : Primitives) (K : Bytes) (headerLen : Nat) (g : UInt64) (copy : Bytes) : UInt64 :=
  if atomicHeaderValid P K copy headerLen then
    let gc := atomicHeaderGen copy headerLen
    if gc > g then gc else g
  else g

/-- `AtomicHeaderNextGen`. -/
def atomicHeaderNextGen (P : Primitives) (K : Bytes) (pair : HeaderPair) (headerLen : Nat) :
    UInt64 :=
  raiseGen P K headerLen (raiseGen P K headerLen 0 pair.copyA) pair.copyB + 1

namespace HeaderPair

def get (pair : HeaderPair) : HeaderCopy → Bytes
  | .a => pair.copyA
  | .b => pair.copyB

def set (pair : HeaderPair) (c : HeaderCopy) (copy : Bytes) : HeaderPair :=
  match c with
  | .a => { pair with copyA := copy }
  | .b => { pair with copyB := copy }

end HeaderPair

def HeaderCopy.other : HeaderCopy → HeaderCopy
  | .a => .b
  | .b => .a

/-- A commit: the header, how many bytes of its copy are written before the write is
    interrupted (all of them, if it is not), and the copy that is written where neither is
    valid. -/
structure Commit where
  header : Bytes
  written : Nat
  whereNone : HeaderCopy

/-- The two copies, and the headers that were committed completely, the last one in front. -/
structure HeaderMedium where
  pair : HeaderPair
  committed : List Bytes

section
variable (P : Primitives) (K : Bytes) (headerLen : Nat)

/-- The inactive copy: the one the selection does not pick. -/
def inactiveCopy (pair : HeaderPair) (c : Commit) : HeaderCopy :=
  match atomicHeaderSelect P K pair headerLen with
  | some selected => selected.chosen.other
  | none => c.whereNone

/-- The copy a commit is to write. -/
def newCopy (pair : HeaderPair) (c : Commit) : Bytes :=
  atomicHeaderBuild P K c.header (atomicHeaderNextGen P K pair headerLen)

/-- The new bytes up to the interruption, and the old ones behind it. -/
def tornCopy (pair : HeaderPair) (c : Commit) : Bytes :=
  (newCopy P K headerLen pair c).take c.written ++
    (pair.get (inactiveCopy P K headerLen pair c)).drop c.written

/-- A commit, interrupted or not. It is complete when every byte of the copy it was to write
    is on the medium. -/
def commitHeader (s : HeaderMedium) (c : Commit) : HeaderMedium × Unit :=
  let copy := tornCopy P K headerLen s.pair c
  ({ pair := s.pair.set (inactiveCopy P K headerLen s.pair c) copy
     committed :=
       if copy = newCopy P K headerLen s.pair c then c.header :: s.committed else s.committed },
    ())

/-- Torn bytes do not forge a tag: a copy that is neither the old nor the new one in full does
    not verify. -/
def NoForgery (pair : HeaderPair) (c : Commit) : Prop :=
  atomicHeaderValid P K (tornCopy P K headerLen pair c) headerLen = true →
    tornCopy P K headerLen pair c = pair.get (inactiveCopy P K headerLen pair c) ∨
      tornCopy P K headerLen pair c = newCopy P K headerLen pair c

instance (pair : HeaderPair) (c : Commit) : Decidable (NoForgery P K headerLen pair c) :=
  inferInstanceAs (Decidable (_ → _))

end

namespace HeaderPair

variable (pair : HeaderPair) (copy : Bytes)

@[simp] theorem get_set (c : HeaderCopy) : (pair.set c copy).get c = copy := by
  cases c <;> rfl

@[simp] theorem get_other_set (c : HeaderCopy) : (pair.set c copy).get c.other = pair.get c.other := by
  cases c <;> rfl

@[simp] theorem set_get (c : HeaderCopy) : pair.set c (pair.get c) = pair := by
  cases c <;> rfl

end HeaderPair

@[simp] theorem HeaderCopy.other_other (c : HeaderCopy) : c.other.other = c := by
  cases c <;> rfl

/-! ## A copy that was built -/

section
variable {P : Primitives} {K header : Bytes} {headerLen : Nat} {gen : UInt64}

theorem slice_atomicHeaderBuild_header (hlen : header.length = headerLen) :
    slice (atomicHeaderBuild P K header gen) 0 headerLen = header := by
  have hsplit : atomicHeaderBuild P K header gen =
      [] ++ (header ++ (putGen gen ++ ahHmac P K header (putGen gen))) :=
    List.append_assoc _ _ _
  exact slice_of_eq_append hsplit rfl hlen.symm

theorem slice_atomicHeaderBuild_gen (hlen : header.length = headerLen) :
    slice (atomicHeaderBuild P K header gen) headerLen atomicHeaderGenSize = putGen gen := by
  have hsplit : atomicHeaderBuild P K header gen =
      header ++ (putGen gen ++ ahHmac P K header (putGen gen)) := List.append_assoc _ _ _
  exact slice_of_eq_append hsplit hlen.symm (length_beBytes _ _).symm

theorem slice_atomicHeaderBuild_tag (hlen : header.length = headerLen) :
    slice (atomicHeaderBuild P K header gen) (headerLen + atomicHeaderGenSize)
      atomicHeaderTagSize = ahHmac P K header (putGen gen) := by
  have hfront : (header ++ putGen gen).length = headerLen + atomicHeaderGenSize := by
    rw [List.length_append, hlen, putGen, length_beBytes]
  have hsplit : atomicHeaderBuild P K header gen =
      (header ++ putGen gen) ++ (ahHmac P K header (putGen gen) ++ []) := by
    rw [List.append_nil]
    rfl
  exact slice_of_eq_append hsplit hfront.symm (length_ksHmacSha256 P K header (putGen gen)).symm

/-- What is built verifies. -/
theorem atomicHeaderValid_build (hlen : header.length = headerLen) :
    atomicHeaderValid P K (atomicHeaderBuild P K header gen) headerLen = true := by
  rw [atomicHeaderValid, slice_atomicHeaderBuild_header hlen, slice_atomicHeaderBuild_gen hlen,
    slice_atomicHeaderBuild_tag hlen, ctEqual_self]

theorem readGen_putGen (rest : Bytes) : readGen (putGen gen ++ rest) = gen := by
  have hslice : slice (putGen gen ++ rest) 0 atomicHeaderGenSize = putGen gen :=
    @slice_of_eq_append _ _ [] (putGen gen) rest _ _ rfl rfl (length_beBytes _ _).symm
  have hlt : gen.toNat < 2 ^ 64 := gen.toNat_lt
  rw [readGen, hslice, putGen, beNat_beBytes]
  apply UInt64.toNat_inj.mp
  rw [UInt64.toNat_ofNat', atomicHeaderGenSize]
  omega

theorem atomicHeaderGen_build (hlen : header.length = headerLen) :
    atomicHeaderGen (atomicHeaderBuild P K header gen) headerLen = gen := by
  rw [atomicHeaderGen, atomicHeaderBuild, List.append_assoc, ← hlen, List.drop_left,
    readGen_putGen]

end

/-! ## Generations -/

section
variable (P : Primitives) (K : Bytes) (headerLen : Nat)

/-- The generation of a copy that verifies, and 0 where none does. -/
def validGen (copy : Bytes) : Nat :=
  if atomicHeaderValid P K copy headerLen then (atomicHeaderGen copy headerLen).toNat else 0

/-- The greatest generation on the medium. -/
def topGen (pair : HeaderPair) : Nat :=
  max (validGen P K headerLen pair.copyA) (validGen P K headerLen pair.copyB)

variable {P K headerLen}

theorem validGen_of_valid {copy : Bytes} (h : atomicHeaderValid P K copy headerLen = true) :
    validGen P K headerLen copy = (atomicHeaderGen copy headerLen).toNat := if_pos h

theorem validGen_le_topGen (pair : HeaderPair) (c : HeaderCopy) :
    validGen P K headerLen (pair.get c) ≤ topGen P K headerLen pair := by
  cases c with
  | a => exact Nat.le_max_left _ _
  | b => exact Nat.le_max_right _ _

theorem topGen_le {pair : HeaderPair} {n : Nat} (c : HeaderCopy)
    (h : validGen P K headerLen (pair.get c) ≤ n)
    (hother : validGen P K headerLen (pair.get c.other) ≤ n) :
    topGen P K headerLen pair ≤ n := by
  cases c with
  | a => exact Nat.max_le.mpr ⟨h, hother⟩
  | b => exact Nat.max_le.mpr ⟨hother, h⟩

theorem toNat_raiseGen (g : UInt64) (copy : Bytes) :
    (raiseGen P K headerLen g copy).toNat = max g.toNat (validGen P K headerLen copy) := by
  unfold raiseGen validGen
  by_cases hv : atomicHeaderValid P K copy headerLen = true
  · rw [if_pos hv, if_pos hv]
    simp only
    by_cases hgt : atomicHeaderGen copy headerLen > g
    · rw [if_pos hgt]
      exact (Nat.max_eq_right (Nat.le_of_lt (UInt64.lt_iff_toNat_lt.mp hgt))).symm
    · rw [if_neg hgt]
      have hle : (atomicHeaderGen copy headerLen).toNat ≤ g.toNat := by
        rw [gt_iff_lt, UInt64.lt_iff_toNat_lt] at hgt
        exact Nat.le_of_not_lt hgt
      exact (Nat.max_eq_left hle).symm
  · rw [if_neg hv, if_neg hv, Nat.max_zero]

/-- The next generation is the greatest one on the medium and 1, unless that wraps. -/
theorem toNat_atomicHeaderNextGen {pair : HeaderPair}
    (h : topGen P K headerLen pair + 1 < 2 ^ 64) :
    (atomicHeaderNextGen P K pair headerLen).toNat = topGen P K headerLen pair + 1 := by
  have htop : (raiseGen P K headerLen (raiseGen P K headerLen 0 pair.copyA) pair.copyB).toNat =
      topGen P K headerLen pair := by
    rw [toNat_raiseGen, toNat_raiseGen, UInt64.toNat_zero, Nat.zero_max]
    rfl
  rw [atomicHeaderNextGen, UInt64.toNat_add, htop, UInt64.toNat_one]
  exact Nat.mod_eq_of_lt h

/-! ## Selection -/

/-- A selection gives a copy that verifies. -/
theorem atomicHeaderSelect_some {pair : HeaderPair} {selected : SelectedHeader}
    (h : atomicHeaderSelect P K pair headerLen = some selected) :
    atomicHeaderValid P K (pair.get selected.chosen) headerLen = true ∧
      selected.header = slice (pair.get selected.chosen) 0 headerLen := by
  unfold atomicHeaderSelect at h
  cases hva : atomicHeaderValid P K pair.copyA headerLen <;>
    cases hvb : atomicHeaderValid P K pair.copyB headerLen <;>
    simp only [hva, hvb, Bool.not_true, Bool.not_false, Bool.and_true, Bool.and_false,
      Bool.and_self, Bool.false_eq_true, if_true, if_false] at h
  · exact absurd h (by simp)
  · rw [← Option.some.inj h]
    exact ⟨hvb, rfl⟩
  · rw [← Option.some.inj h]
    exact ⟨hva, rfl⟩
  · split at h
    · rw [← Option.some.inj h]
      exact ⟨hvb, rfl⟩
    · rw [← Option.some.inj h]
      exact ⟨hva, rfl⟩

theorem atomicHeaderSelect_eq_none_iff {pair : HeaderPair} (c : HeaderCopy) :
    atomicHeaderSelect P K pair headerLen = none ↔
      atomicHeaderValid P K (pair.get c) headerLen = false ∧
        atomicHeaderValid P K (pair.get c.other) headerLen = false := by
  unfold atomicHeaderSelect
  cases c <;> simp only [HeaderPair.get, HeaderCopy.other] <;>
    cases hva : atomicHeaderValid P K pair.copyA headerLen <;>
    cases hvb : atomicHeaderValid P K pair.copyB headerLen <;> simp <;> split <;> simp

/-- The copy that verifies alone, or with the greater generation, is selected. -/
theorem atomicHeaderSelect_of_newer {pair : HeaderPair} {c : HeaderCopy}
    (hv : atomicHeaderValid P K (pair.get c) headerLen = true)
    (hnewer : atomicHeaderValid P K (pair.get c.other) headerLen = true →
      (atomicHeaderGen (pair.get c.other) headerLen).toNat <
        (atomicHeaderGen (pair.get c) headerLen).toNat) :
    (atomicHeaderSelect P K pair headerLen).map SelectedHeader.header =
      some (slice (pair.get c) 0 headerLen) := by
  unfold atomicHeaderSelect
  cases c with
  | a =>
    simp only [HeaderPair.get, HeaderCopy.other] at hv hnewer ⊢
    cases hvb : atomicHeaderValid P K pair.copyB headerLen with
    | false => simp [hv]
    | true =>
      have hlt := hnewer hvb
      have hno : ¬ atomicHeaderGen pair.copyA headerLen < atomicHeaderGen pair.copyB headerLen := by
        rw [UInt64.lt_iff_toNat_lt]
        exact Nat.not_lt.mpr (Nat.le_of_lt hlt)
      simp [hv, hno]
  | b =>
    simp only [HeaderPair.get, HeaderCopy.other] at hv hnewer ⊢
    cases hva : atomicHeaderValid P K pair.copyA headerLen with
    | false => simp [hv]
    | true =>
      have hlt : atomicHeaderGen pair.copyA headerLen < atomicHeaderGen pair.copyB headerLen :=
        UInt64.lt_iff_toNat_lt.mpr (hnewer hva)
      simp [hv, hlt]

end

/-! ## Runs of the protocol -/

section
variable (P : Primitives) (K : Bytes) (headerLen : Nat)

/-- The header the selection gives. -/
def pickedHeader (pair : HeaderPair) : Option Bytes :=
  (atomicHeaderSelect P K pair headerLen).map SelectedHeader.header

/-- Two copies to start from. What they hold counts as committed if it is selected. -/
def HeaderMedium.start (pair : HeaderPair) : HeaderMedium where
  pair := pair
  committed := (pickedHeader P K headerLen pair).toList

/-- A header of the right length, and no forgery by the bytes left of an interrupted write. -/
def CleanCommit (s : HeaderMedium) (c : Commit) : Prop :=
  c.header.length = headerLen ∧ NoForgery P K headerLen s.pair c

/-- Every byte of the copy the commit was to write is on the medium. -/
def CompletesCommit (s : HeaderMedium) (c : Commit) : Prop :=
  tornCopy P K headerLen s.pair c = newCopy P K headerLen s.pair c

/-- The invariant: the selection gives the header committed last, and no generation is beyond
    the number of commits. -/
structure Reached (s : HeaderMedium) (gens : Nat) : Prop where
  picked : pickedHeader P K headerLen s.pair = s.committed.head?
  gens_le : topGen P K headerLen s.pair ≤ gens

instance (s : HeaderMedium) (c : Commit) : Decidable (CleanCommit P K headerLen s c) :=
  inferInstanceAs (Decidable (_ ∧ _))

variable {P K headerLen} {s : HeaderMedium} {c : Commit} {gens : Nat}

theorem Reached.start (pair : HeaderPair) :
    Reached P K headerLen (HeaderMedium.start P K headerLen pair)
      (topGen P K headerLen pair) where
  picked := by
    unfold HeaderMedium.start
    cases pickedHeader P K headerLen pair <;> rfl
  gens_le := Nat.le_refl _

/-- The copy that is not written keeps the selection where the written one does not verify. -/
theorem pickedHeader_set_invalid {copy : Bytes}
    (hcopy : atomicHeaderValid P K copy headerLen = false) :
    pickedHeader P K headerLen (s.pair.set (inactiveCopy P K headerLen s.pair c) copy) =
      pickedHeader P K headerLen s.pair := by
  unfold inactiveCopy pickedHeader
  cases hsel : atomicHeaderSelect P K s.pair headerLen with
  | none =>
    obtain ⟨-, hother⟩ := (atomicHeaderSelect_eq_none_iff c.whereNone).mp hsel
    have hnone : atomicHeaderSelect P K (s.pair.set c.whereNone copy) headerLen = none := by
      rw [atomicHeaderSelect_eq_none_iff c.whereNone, HeaderPair.get_set,
        HeaderPair.get_other_set]
      exact ⟨hcopy, hother⟩
    simp only [hnone]
  | some selected =>
    obtain ⟨hvalid, hheader⟩ := atomicHeaderSelect_some hsel
    have hkept := HeaderPair.get_other_set s.pair copy selected.chosen.other
    rw [HeaderCopy.other_other] at hkept
    simp only
    rw [@atomicHeaderSelect_of_newer P K headerLen _ selected.chosen, hkept, Option.map_some,
      hheader]
    · rw [hkept]
      exact hvalid
    · intro hv
      rw [HeaderPair.get_set, hcopy] at hv
      exact absurd hv (by simp)

theorem atomicHeaderValid_newCopy {pair : HeaderPair} (hlen : c.header.length = headerLen) :
    atomicHeaderValid P K (newCopy P K headerLen pair c) headerLen = true :=
  atomicHeaderValid_build hlen

/-- The copy of a commit has the greatest generation on the medium and 1. -/
theorem toNat_gen_newCopy {pair : HeaderPair} (hlen : c.header.length = headerLen)
    (hgens : topGen P K headerLen pair + 1 < 2 ^ 64) :
    (atomicHeaderGen (newCopy P K headerLen pair c) headerLen).toNat =
      topGen P K headerLen pair + 1 := by
  have hgen : atomicHeaderGen (newCopy P K headerLen pair c) headerLen =
      atomicHeaderNextGen P K pair headerLen := atomicHeaderGen_build hlen
  rw [hgen, toNat_atomicHeaderNextGen hgens]

/-- A commit that completes is selected. -/
theorem pickedHeader_set_new (hlen : c.header.length = headerLen)
    (hgens : topGen P K headerLen s.pair + 1 < 2 ^ 64) (ic : HeaderCopy) :
    pickedHeader P K headerLen (s.pair.set ic (newCopy P K headerLen s.pair c)) =
      some c.header := by
  unfold pickedHeader
  rw [@atomicHeaderSelect_of_newer P K headerLen _ ic, HeaderPair.get_set]
  · exact congrArg some (slice_atomicHeaderBuild_header hlen)
  · rw [HeaderPair.get_set]
    exact atomicHeaderValid_newCopy hlen
  · intro hv
    rw [HeaderPair.get_other_set] at hv
    have hle := @validGen_le_topGen P K headerLen s.pair ic.other
    rw [validGen_of_valid hv] at hle
    rw [HeaderPair.get_set, HeaderPair.get_other_set, toNat_gen_newCopy hlen hgens]
    exact Nat.lt_succ_of_le hle

/-- **One commit, interrupted anywhere**, keeps the invariant. -/
theorem Reached.commit (h : Reached P K headerLen s gens) (hclean : CleanCommit P K headerLen s c)
    (hgens : gens + 1 < 2 ^ 64) :
    Reached P K headerLen (commitHeader P K headerLen s c).1 (gens + 1) := by
  obtain ⟨hlen, hforge⟩ := hclean
  have htop : topGen P K headerLen s.pair + 1 < 2 ^ 64 :=
    Nat.lt_of_le_of_lt (Nat.succ_le_succ h.gens_le) hgens
  have hkept : validGen P K headerLen
      (s.pair.get (inactiveCopy P K headerLen s.pair c).other) ≤ gens + 1 :=
    Nat.le_succ_of_le (Nat.le_trans (validGen_le_topGen _ _) h.gens_le)
  unfold commitHeader
  simp only
  by_cases hnew : tornCopy P K headerLen s.pair c = newCopy P K headerLen s.pair c
  · rw [if_pos hnew, hnew]
    refine ⟨pickedHeader_set_new hlen htop _, ?_⟩
    refine topGen_le (inactiveCopy P K headerLen s.pair c) ?_ ?_
    · rw [HeaderPair.get_set, validGen_of_valid (atomicHeaderValid_newCopy hlen),
        toNat_gen_newCopy hlen htop]
      exact Nat.succ_le_succ h.gens_le
    · rw [HeaderPair.get_other_set]
      exact hkept
  · rw [if_neg hnew]
    cases hv : atomicHeaderValid P K (tornCopy P K headerLen s.pair c) headerLen with
    | true =>
      -- nothing of the new copy has reached the medium
      rcases hforge hv with hold | hnew'
      · rw [hold, HeaderPair.set_get]
        exact ⟨h.picked, Nat.le_succ_of_le h.gens_le⟩
      · exact absurd hnew' hnew
    | false =>
      refine ⟨(pickedHeader_set_invalid hv).trans h.picked, ?_⟩
      refine topGen_le (inactiveCopy P K headerLen s.pair c) ?_ ?_
      · have hzero : validGen P K headerLen (tornCopy P K headerLen s.pair c) = 0 := by
          rw [validGen, hv]
          rfl
        rw [HeaderPair.get_set, hzero]
        exact Nat.zero_le _
      · rw [HeaderPair.get_other_set]
        exact hkept

/-- The invariant of a whole run. -/
theorem Reached.run {is : List Commit} (h : Reached P K headerLen s gens)
    (hclean : Along (commitHeader P K headerLen) (CleanCommit P K headerLen) s is)
    (hgens : gens + is.length < 2 ^ 64) :
    Reached P K headerLen (Lib.run (commitHeader P K headerLen) s is).1 (gens + is.length) := by
  induction is generalizing s gens with
  | nil => exact h
  | cons c is ih =>
    rw [List.length_cons] at hgens ⊢
    obtain ⟨hfirst, hrest⟩ := hclean
    have hstep := h.commit hfirst (by omega)
    have hend := ih hstep hrest (by omega)
    rw [show gens + (is.length + 1) = gens + 1 + is.length by omega]
    exact hend

/-- What is committed stays in the history. -/
theorem committed_suffix (s : HeaderMedium) (is : List Commit) :
    s.committed <:+ (Lib.run (commitHeader P K headerLen) s is).1.committed := by
  induction is generalizing s with
  | nil => exact List.suffix_rfl
  | cons c is ih =>
    refine List.IsSuffix.trans ?_ (ih _)
    unfold commitHeader
    simp only
    split
    · exact List.suffix_cons _ _
    · exact List.suffix_rfl

/-- **Crash safety of the pair.** After any run of commits, each interrupted anywhere, the
    selection gives the header committed last: so it is the one committed before the last
    write or the one that write was about, and there is one once a commit has completed. -/
theorem pickedHeader_run {pair : HeaderPair} {is : List Commit}
    (hclean : Along (commitHeader P K headerLen) (CleanCommit P K headerLen)
      (HeaderMedium.start P K headerLen pair) is)
    (hgens : topGen P K headerLen pair + is.length < 2 ^ 64) :
    let after (l : List Commit) : HeaderMedium :=
      (Lib.run (commitHeader P K headerLen) (HeaderMedium.start P K headerLen pair) l).1
    let picked := pickedHeader P K headerLen (after is).pair
    picked = (after is).committed.head? ∧
      (∀ front c, is = front ++ [c] →
        picked = (after front).committed.head? ∨ picked = some c.header) ∧
      ∀ front c back, is = front ++ c :: back →
        CompletesCommit P K headerLen (after front) c → picked ≠ none := by
  intro after picked
  have hend : picked = (after is).committed.head? :=
    ((Reached.start pair).run hclean hgens).picked
  refine ⟨hend, ?_, ?_⟩
  · intro front c hsplit
    have hrun : after is = (commitHeader P K headerLen (after front) c).1 := by
      have happ := (@run_append _ _ _ (commitHeader P K headerLen)
        (HeaderMedium.start P K headerLen pair) front [c]).1
      rw [← hsplit] at happ
      exact happ
    rw [hend, hrun]
    unfold commitHeader
    simp only
    split
    · exact Or.inr rfl
    · exact Or.inl rfl
  · intro front c back hsplit hdone hnone
    have hrun : after is =
        (Lib.run (commitHeader P K headerLen) (commitHeader P K headerLen (after front) c).1
          back).1 := by
      have happ := (@run_append _ _ _ (commitHeader P K headerLen)
        (HeaderMedium.start P K headerLen pair) front (c :: back)).1
      rw [← hsplit] at happ
      exact happ
    have hmem : (commitHeader P K headerLen (after front) c).1.committed =
        c.header :: (after front).committed := if_pos hdone
    have hsuf := @committed_suffix P K headerLen (commitHeader P K headerLen (after front) c).1
      back
    rw [← hrun, hmem] at hsuf
    rw [hend, List.head?_eq_none_iff] at hnone
    rw [hnone] at hsuf
    exact absurd (List.suffix_nil.mp hsuf) (by simp)

/-- A medium with nothing on it, and three commits of a one-byte header; the second is
    interrupted after three bytes. -/
def HeaderPair.blank : HeaderPair where
  copyA := List.replicate 41 0
  copyB := List.replicate 41 0

def demoCommits : List Commit :=
  [{ header := [5], written := 41, whereNone := .a },
   { header := [6], written := 3, whereNone := .a },
   { header := [7], written := 41, whereNone := .a }]

theorem pickedHeader_run_demo :
    let after := (Lib.run (commitHeader .demo (List.replicate 32 9) 1)
      (HeaderMedium.start .demo (List.replicate 32 9) 1 .blank) demoCommits).1
    pickedHeader .demo (List.replicate 32 9) 1 after.pair = after.committed.head? ∧
      after.committed = [[7], [5]] :=
  ⟨(pickedHeader_run (by decide +kernel) (by decide +kernel)).1, by decide +kernel⟩

end

end VeraCrypt
