import Mathlib.Tactic.Common
import VeraCrypt.Lib.Run
import Mathlib.Algebra.Group.Nat.Defs
import Mathlib.Algebra.Ring.Int.Defs

/-!
# The I/O thread of an encrypted queue (`IoThreadProc` of `Driver/EncryptedIoQueue.c`)

A request of the boot drive whose encrypted area is remapped is performed in up to three pieces, in
front of the area, in it and behind it. The status of the item is assigned by each piece, so the last
one decides. `subFragments_report_iff` says when that status is an honest one.

What the device answers is a parameter, a status for each piece; NTSTATUS values are signed, and
those from zero on are successes.
-/

set_option autoImplicit false

namespace VeraCrypt
namespace Driver

open Lib

/-! ## The code -/

abbrev NtStatus := Int

def statusSuccess : NtStatus := 0

/-- `STATUS_DEVICE_BUSY`, 0x80000011 -/
def statusDeviceBusy : NtStatus := -2147483631

/-- `STATUS_END_OF_FILE`, 0xC0000011 -/
def statusEndOfFile : NtStatus := -1073741807

/-- `NT_SUCCESS` -/
def NtSuccess (status : NtStatus) : Prop := 0 ≤ status

instance (status : NtStatus) : Decidable (NtSuccess status) := inferInstanceAs (Decidable (0 ≤ _))

/-- The fields of `EncryptedIoQueue` that the I/O thread reads and writes. -/
structure IoQueue where
  isFilterDevice : Bool
  threadBlockReadWrite : Bool
  remapEncryptedArea : Bool
  remappedAreaOffset : Int
  readAheadBufferValid : Bool
  readAheadOffset : Int
  readAheadLength : Nat
  lastReadOffset : Int
  lastReadLength : Nat

/-- `EncryptedIoRequest`; `write` is that of its item. -/
structure IoRequest where
  write : Bool
  offset : Int
  length : Nat
  encryptedOffset : Int
  encryptedLength : Nat

/-- The `(ULONG)` of a 64-bit number. -/
def toUlong (n : Int) : Nat := (n % 2 ^ 32).toNat

/-- What a device does with a call: its status, and the bytes that it reports to have moved. -/
structure IoResult where
  status : NtStatus
  information : Nat

/-- A device call, and its status. -/
structure IoCall where
  offset : Int
  length : Nat
  status : NtStatus

/-- What the thread keeps while it performs a request: the queue, the status of the item, and the
pieces performed so far. -/
structure IoState where
  queue : IoQueue
  status : NtStatus
  calls : List IoCall

/-- `TCCachedRead` finds the range in the read-ahead buffer. -/
def IoQueue.cached (q : IoQueue) (offset : Int) (length : Nat) : Bool :=
  q.readAheadBufferValid && decide (q.readAheadOffset = offset) &&
    decide (length ≤ q.readAheadLength)

/-- `TCWriteDevice`, or `TCCachedRead` on a filter device. -/
def transferFilter (write : Bool) (offset : Int) (length : Nat) (io : IoResult) (st : IoState) :
    IoState :=
  if write then
    { st with
      status := io.status
      calls := st.calls ++ [{ offset := offset, length := length, status := io.status }] }
  else
    let status := if st.queue.cached offset length then statusSuccess else io.status
    { queue := { st.queue with lastReadOffset := offset, lastReadLength := length }
      status := status
      calls := st.calls ++ [{ offset := offset, length := length, status := status }] }

/-- `ZwWriteFile`, or `TCCachedRead` on a file, which reports the bytes moved. -/
def transferFile (write : Bool) (offset : Int) (length : Nat) (io : IoResult) (st : IoState) :
    IoState :=
  let cached := !write && st.queue.cached offset length
  let status := if cached then statusSuccess else io.status
  let information := if cached then length else io.information
  let status := if NtSuccess status ∧ information ≠ length then statusEndOfFile else status
  { queue := if write then st.queue
      else { st.queue with lastReadOffset := offset, lastReadLength := length }
    status := status
    calls := st.calls ++ [{ offset := offset, length := length, status := status }] }

/-- Where a piece of a partially remapped request starts, and how long it is. -/
def subFragment (q : IoQueue) (r : IoRequest) (i : Fin 3) : Int × Nat :=
  match i with
  | 0 => (r.offset, toUlong r.encryptedOffset)
  | 1 => (r.offset + (r.encryptedOffset + q.remappedAreaOffset), r.encryptedLength)
  | 2 => (r.offset + (r.encryptedOffset + r.encryptedLength),
      toUlong (r.length - (r.encryptedOffset + r.encryptedLength)))

/-- One turn of the loop over the pieces. -/
def performSubFragment (q : IoQueue) (r : IoRequest) (io : Nat → IoResult) (st : IoState)
    (i : Fin 3) : IoState :=
  let piece := subFragment q r i
  if piece.2 > 0 then transferFilter r.write piece.1 piece.2 (io i) st else st

/-- The I/O of a request whose item has the status `st.status`. -/
def performIo (r : IoRequest) (io : Nat → IoResult) (st : IoState) : IoState :=
  if ¬NtSuccess st.status then st
  else if st.queue.threadBlockReadWrite then { st with status := statusDeviceBusy }
  else if st.queue.isFilterDevice then
    if st.queue.remapEncryptedArea ∧ r.encryptedLength > 0 then
      if r.encryptedLength ≠ r.length then
        [0, 1, 2].foldl (performSubFragment st.queue r io) st
      else
        transferFilter r.write (r.offset + st.queue.remappedAreaOffset) r.length (io 0) st
    else transferFilter r.write r.offset r.length (io 0) st
  else transferFile r.write r.offset r.length (io 0) st

/-- What follows the I/O: a write invalidates the read-ahead buffer. -/
def finishIo (r : IoRequest) (st : IoState) : IoState :=
  if r.write then { st with queue := { st.queue with readAheadBufferValid := false } } else st

/-- A request of an item, and what the device answers to it. The item completes with the status
behind its last request. -/
def ioStep (st : IoState) (p : IoRequest × (Nat → IoResult)) : IoState × Unit :=
  (finishIo p.1 (performIo p.1 p.2 st), ())

/-! ## What a request reports -/

/-- The item is not reported to have succeeded where a call of it has failed. -/
def Honest (st : IoState) : Prop := NtSuccess st.status → ∀ c ∈ st.calls, NtSuccess c.status

instance (st : IoState) : Decidable (Honest st) := inferInstanceAs (Decidable (_ → _))

/-- The request is performed in pieces. -/
def Split (q : IoQueue) (r : IoRequest) : Prop :=
  q.threadBlockReadWrite = false ∧ q.isFilterDevice = true ∧ q.remapEncryptedArea = true ∧
    0 < r.encryptedLength ∧ r.encryptedLength ≠ r.length

/-- Piece `i` fails: it is not empty, it is not served from the read-ahead buffer, and the device
reports a failure. -/
def Fails (q : IoQueue) (r : IoRequest) (io : Nat → IoResult) (i : Fin 3) : Prop :=
  0 < (subFragment q r i).2 ∧
    (r.write = false → q.cached (subFragment q r i).1 (subFragment q r i).2 = false) ∧
    ¬NtSuccess (io i).status

/-- **If a piece fails, so does the last one that is not empty.** -/
def LastFails (q : IoQueue) (r : IoRequest) (io : Nat → IoResult) : Prop :=
  ∀ i, Fails q r io i → ∃ j, Fails q r io j ∧ ∀ k, 0 < (subFragment q r k).2 → k ≤ j

section

variable {q : IoQueue} {r : IoRequest} {io : Nat → IoResult} {st : IoState}

/-- The read-ahead buffer is the same. -/
def SameBuffer (q q' : IoQueue) : Prop :=
  q'.readAheadBufferValid = q.readAheadBufferValid ∧ q'.readAheadOffset = q.readAheadOffset ∧
    q'.readAheadLength = q.readAheadLength

theorem SameBuffer.cached {q' : IoQueue} (h : SameBuffer q q') (offset : Int) (length : Nat) :
    q'.cached offset length = q.cached offset length := by
  rw [IoQueue.cached, h.1, h.2.1, h.2.2, IoQueue.cached]

/-- The status that a piece gives. -/
def pieceStatus (q : IoQueue) (r : IoRequest) (io : Nat → IoResult) (i : Fin 3) : NtStatus :=
  if r.write = false ∧ q.cached (subFragment q r i).1 (subFragment q r i).2 = true then
    statusSuccess
  else (io i).status

/-- A piece that is not empty adds a call, and its status is that of the item. -/
theorem performSubFragment_eq (io : Nat → IoResult) (h : SameBuffer q st.queue) {i : Fin 3}
    (hi : 0 < (subFragment q r i).2) :
    SameBuffer q (performSubFragment q r io st i).queue ∧
      (performSubFragment q r io st i).status = pieceStatus q r io i ∧
      (performSubFragment q r io st i).calls = st.calls ++
        [{ offset := (subFragment q r i).1, length := (subFragment q r i).2
           status := pieceStatus q r io i }] := by
  rw [performSubFragment, pieceStatus, ← h.cached, if_pos hi, transferFilter]
  cases r.write with
  | true => exact ⟨h, rfl, rfl⟩
  | false =>
    refine ⟨h, ?_⟩
    cases st.queue.cached (subFragment q r i).1 (subFragment q r i).2 with
    | true => exact ⟨rfl, rfl⟩
    | false => exact ⟨rfl, rfl⟩

theorem performSubFragment_empty {i : Fin 3} (hi : ¬0 < (subFragment q r i).2) :
    performSubFragment q r io st i = st := if_neg hi

theorem fails_iff (i : Fin 3) :
    Fails q r io i ↔ 0 < (subFragment q r i).2 ∧ ¬NtSuccess (pieceStatus q r io i) := by
  unfold Fails pieceStatus
  have hok : NtSuccess statusSuccess := Int.le_refl 0
  cases r.write with
  | true => simp
  | false =>
    cases q.cached (subFragment q r i).1 (subFragment q r i).2 with
    | true => simp [hok]
    | false => simp

/-- The call that a piece makes. -/
def pieceCall (q : IoQueue) (r : IoRequest) (io : Nat → IoResult) (i : Fin 3) : IoCall :=
  { offset := (subFragment q r i).1, length := (subFragment q r i).2
    status := pieceStatus q r io i }

/-- The pieces that are not empty. -/
def pieces (q : IoQueue) (r : IoRequest) (is : List (Fin 3)) : List (Fin 3) :=
  is.filter (fun i => decide (0 < (subFragment q r i).2))

/-- **The loop**: every piece that is not empty makes its call, and the last one gives the
status. -/
theorem foldl_performSubFragment (r : IoRequest) (io : Nat → IoResult)
    (h : SameBuffer q st.queue) (is : List (Fin 3)) :
    (is.foldl (performSubFragment q r io) st).calls =
        st.calls ++ (pieces q r is).map (pieceCall q r io) ∧
      (is.foldl (performSubFragment q r io) st).status =
        ((pieces q r is).getLast?.map (pieceStatus q r io)).getD st.status := by
  induction is generalizing st with
  | nil => exact ⟨(List.append_nil _).symm, rfl⟩
  | cons i is ih =>
    rw [List.foldl_cons]
    by_cases hi : 0 < (subFragment q r i).2
    · rcases performSubFragment_eq io h hi with ⟨hsame, hstatus, hcalls⟩
      rcases ih hsame with ⟨hcalls', hstatus'⟩
      have hpieces : pieces q r (i :: is) = i :: pieces q r is :=
        List.filter_cons_of_pos (decide_eq_true hi)
      rw [hcalls', hstatus', hcalls, hstatus, hpieces, List.map_cons, List.append_assoc]
      refine ⟨rfl, ?_⟩
      rw [List.getLast?_cons]
      cases (pieces q r is).getLast? with
      | none => rfl
      | some l => rfl
    · rw [performSubFragment_empty hi]
      have hpieces : pieces q r (i :: is) = pieces q r is :=
        List.filter_cons_of_neg (by simpa using hi)
      rw [hpieces]
      exact ih h

theorem mem_pieces {i : Fin 3} : i ∈ pieces q r [0, 1, 2] ↔ 0 < (subFragment q r i).2 := by
  have hall : ∀ i : Fin 3, i ∈ ([0, 1, 2] : List (Fin 3)) := by decide
  rw [pieces, List.mem_filter, decide_eq_true_eq]
  exact and_iff_right (hall i)

/-- The last of the pieces is behind all of them. -/
theorem le_getLast_pieces {l k : Fin 3} (hl : (pieces q r [0, 1, 2]).getLast? = some l)
    (hk : k ∈ pieces q r [0, 1, 2]) : k ≤ l := by
  have hsorted : (pieces q r [0, 1, 2]).Pairwise (· ≤ ·) :=
    List.Pairwise.filter _ (by decide)
  rcases List.getLast?_eq_some_iff.mp hl with ⟨init, heq⟩
  rw [heq] at hsorted hk
  rcases List.mem_append.mp hk with hin | hin
  · exact (List.pairwise_append.mp hsorted).2.2 k hin l List.mem_cons_self
  · exact Nat.le_of_eq (congrArg Fin.val (List.mem_singleton.mp hin))

/-- **Pieces report what has failed exactly if the last one does.** -/
theorem honest_pieces_iff (hok : NtSuccess st.status) (hcalls : ∀ c ∈ st.calls, NtSuccess c.status)
    (h : SameBuffer q st.queue) :
    Honest (([0, 1, 2] : List (Fin 3)).foldl (performSubFragment q r io) st) ↔
      LastFails q r io := by
  rcases foldl_performSubFragment r io h [0, 1, 2] with ⟨hcalls', hstatus⟩
  unfold Honest
  rw [hcalls', hstatus]
  constructor
  · intro hhonest i hi
    rcases (fails_iff i).mp hi with ⟨hpos, hfail⟩
    have hmem : i ∈ pieces q r [0, 1, 2] := mem_pieces.mpr hpos
    rcases hl : (pieces q r [0, 1, 2]).getLast? with _ | l
    · rw [List.getLast?_eq_none_iff.mp hl] at hmem
      exact absurd hmem List.not_mem_nil
    · refine ⟨l, ?_, fun k hk => le_getLast_pieces hl (mem_pieces.mpr hk)⟩
      rw [fails_iff]
      refine ⟨mem_pieces.mp (List.mem_of_getLast? hl), ?_⟩
      intro hsuccess
      rw [hl] at hhonest
      exact hfail (hhonest hsuccess (pieceCall q r io i)
        (List.mem_append_right _ (List.mem_map_of_mem hmem)))
  · intro hlast hsuccess c hc
    rcases List.mem_append.mp hc with hc | hc
    · exact hcalls c hc
    rcases List.mem_map.mp hc with ⟨i, hi, rfl⟩
    by_cases hpiece : NtSuccess (pieceStatus q r io i)
    · exact hpiece
    rcases hlast i ((fails_iff i).mpr ⟨mem_pieces.mp hi, hpiece⟩) with ⟨j, hj, hmax⟩
    rcases (fails_iff j).mp hj with ⟨hjpos, hjfail⟩
    rcases hl : (pieces q r [0, 1, 2]).getLast? with _ | l
    · rw [List.getLast?_eq_none_iff.mp hl] at hi
      exact absurd hi List.not_mem_nil
    · have hjl : j = l := Fin.le_antisymm (le_getLast_pieces hl (mem_pieces.mpr hjpos))
        (hmax l (mem_pieces.mp (List.mem_of_getLast? hl)))
      rw [hl] at hsuccess
      exact absurd (hjl ▸ hsuccess) hjfail

/-! ## One call -/

theorem honest_transferFilter (write : Bool) (offset : Int) (length : Nat) (res : IoResult)
    (hcalls : ∀ c ∈ st.calls, NtSuccess c.status) :
    Honest (transferFilter write offset length res st) := by
  intro hok c hc
  unfold transferFilter at hok hc
  cases write with
  | true =>
    rcases List.mem_append.mp hc with hc | hc
    · exact hcalls c hc
    · rw [List.mem_singleton.mp hc]
      exact hok
  | false =>
    rcases List.mem_append.mp hc with hc | hc
    · exact hcalls c hc
    · rw [List.mem_singleton.mp hc]
      exact hok

theorem honest_transferFile (write : Bool) (offset : Int) (length : Nat) (res : IoResult)
    (hcalls : ∀ c ∈ st.calls, NtSuccess c.status) :
    Honest (transferFile write offset length res st) := by
  intro hok c hc
  rcases List.mem_append.mp hc with hc | hc
  · exact hcalls c hc
  · rw [List.mem_singleton.mp hc]
    exact hok

/-- **A request reports the failures of its calls exactly if** it is performed in one piece, or a
failure of one of its pieces is one of the last. -/
theorem subFragments_report_iff (r : IoRequest) (io : Nat → IoResult) (st : IoState)
    (h : Honest st) :
    Honest (performIo r io st) ↔
      (NtSuccess st.status → Split st.queue r → LastFails st.queue r io) := by
  rw [performIo]
  by_cases hok : NtSuccess st.status
  swap
  · rw [if_pos hok]
    exact iff_of_true h (fun hsuccess => absurd hsuccess hok)
  have hcalls := h hok
  rw [if_neg (not_not_intro hok)]
  by_cases hblock : st.queue.threadBlockReadWrite = true
  · rw [if_pos hblock]
    refine iff_of_true (fun hbusy => ?_) ?_
    · exact absurd (show NtSuccess statusDeviceBusy from hbusy) (by decide)
    · rintro - ⟨hfree, -⟩
      rw [hfree] at hblock
      cases hblock
  rw [if_neg hblock]
  by_cases hfilter : st.queue.isFilterDevice = true
  swap
  · rw [if_neg hfilter]
    exact iff_of_true (honest_transferFile _ _ _ _ hcalls) (fun _ hs => absurd hs.2.1 hfilter)
  rw [if_pos hfilter]
  by_cases hremap : st.queue.remapEncryptedArea = true ∧ r.encryptedLength > 0
  swap
  · rw [if_neg hremap]
    exact iff_of_true (honest_transferFilter _ _ _ _ hcalls)
      (fun _ hs => absurd ⟨hs.2.2.1, hs.2.2.2.1⟩ hremap)
  rw [if_pos hremap]
  by_cases hpart : r.encryptedLength ≠ r.length
  · rw [if_pos hpart, honest_pieces_iff hok hcalls ⟨rfl, rfl, rfl⟩]
    have hsplit : Split st.queue r :=
      ⟨Bool.eq_false_iff.mpr hblock, hfilter, hremap.1, hremap.2, hpart⟩
    exact ⟨fun hlast _ _ => hlast, fun hlast => hlast hok hsplit⟩
  · rw [if_neg hpart]
    exact iff_of_true (honest_transferFilter _ _ _ _ hcalls)
      (fun _ hs => absurd hs.2.2.2.2 hpart)

/-- An item whose requests meet the condition reports every failure. -/
theorem honest_run {requests : List (IoRequest × (Nat → IoResult))} (h : Honest st)
    (hmeet : Along ioStep (fun st p =>
      NtSuccess st.status → Split st.queue p.1 → LastFails st.queue p.1 p.2) st requests) :
    Honest (run ioStep st requests).1 := by
  refine run_invariant ?_ h hmeet
  intro st p hst hp
  have hperform := (subFragments_report_iff p.1 p.2 st hst).mpr hp
  show Honest (finishIo p.1 (performIo p.1 p.2 st))
  rw [finishIo]
  split
  · exact hperform
  · exact hperform

end

/-! ## An example -/

namespace RemappedExample

def queue : IoQueue where
  isFilterDevice := true
  threadBlockReadWrite := false
  remapEncryptedArea := true
  remappedAreaOffset := 4096
  readAheadBufferValid := false
  readAheadOffset := 0
  readAheadLength := 0
  lastReadOffset := 0
  lastReadLength := 0

/-- A write across the front of the encrypted area. -/
def request : IoRequest where
  write := true
  offset := 0
  length := 1024
  encryptedOffset := 512
  encryptedLength := 512

def start : IoState := { queue := queue, status := statusSuccess, calls := [] }

/-- The piece in front of the area fails, or none does. -/
def answers (front : NtStatus) : Nat → IoResult := fun i =>
  { status := if i = 0 then front else statusSuccess, information := 512 }

end RemappedExample

theorem subFragments_report_demo :
    Honest (performIo RemappedExample.request (RemappedExample.answers statusSuccess)
        RemappedExample.start) ↔
      (NtSuccess RemappedExample.start.status →
        Split RemappedExample.start.queue RemappedExample.request →
        LastFails RemappedExample.start.queue RemappedExample.request
          (RemappedExample.answers statusSuccess)) :=
  subFragments_report_iff RemappedExample.request (RemappedExample.answers statusSuccess)
    RemappedExample.start (by decide)

/-- **A failure that is overwritten**: the piece in front of the encrypted area is not written, and
the item succeeds. -/
theorem subFragment_failure_lost :
    NtSuccess (performIo RemappedExample.request (RemappedExample.answers statusDeviceBusy)
        RemappedExample.start).status ∧
      ¬Honest (performIo RemappedExample.request (RemappedExample.answers statusDeviceBusy)
        RemappedExample.start) := by
  decide

end Driver
end VeraCrypt
