import VeraCrypt.Format.HeaderUpdate
import VeraCrypt.Lib.StreamXor

/-!
# The crypto contexts of a header update (`FastVolumeHeaderUpdate`)

`FastVolumeHeaderUpdate` works with two crypto contexts of its caller, one for the header and one
for the volume. Where keys in memory are encrypted it makes a copy of the first one, decrypts the
keys of the copy and closes the copy at the end. Until the copy is made the pointer is the caller's,
and the one exit that lies in front of that closes what it points to.

`fastVolumeHeaderUpdate_iff` says when a call keeps both contexts, so that it can be made again.

The keys of a context stand for what `ks` and `ks2` are scheduled from. `VcProtectMemory` is the xor
with the keystream `stream`, which `VcGetEncryptionID`, a sum of addresses, chooses.
-/

set_option autoImplicit false

namespace VeraCrypt

open Lib

namespace Common

/-! ## Memory -/

/-- What an update uses of a `CRYPTO_INFO`. -/
structure CryptoContext where
  ea : Nat
  keys : Bytes
  encryptedAreaStart : UInt64
  encryptedAreaLength : UInt64
  headerFlags : UInt32

/-- The process: whether RAM encryption is on, and how it encrypts. -/
structure RamEncryption where
  enabled : Bool
  stream : UInt64 → Nat → UInt8
  encryptionId : Nat → UInt64

/-- The effective backup header on the device, and the contexts that are open. -/
structure UpdateState where
  header : Bytes
  contexts : Nat → Option CryptoContext

/-- What a call meets: the two allocations, and the two accesses of the device. -/
structure UpdateInput where
  headerAllocated : Bool
  readSucceeds : Bool
  /-- Where `crypto_open` finds room. -/
  room : Option Nat
  writeSucceeds : Bool

inductive UpdateStatus where
  | success | outOfMemory | osError | parameterIncorrect | fatal
  deriving DecidableEq

/-- `crypto_open`; memory in use is not given out again. -/
def cryptoOpen (st : UpdateState) (i : UpdateInput) : Option Nat :=
  i.room.filter (fun p => (st.contexts p).isNone)

def cryptoClose (st : UpdateState) (p : Nat) : UpdateState :=
  { st with contexts := Function.update st.contexts p none }

/-- `VcProtectKeys` and `VcUnprotectKeys`, which are the same. -/
def vcProtectKeys (m : RamEncryption) (encId : UInt64) (c : CryptoContext) : CryptoContext :=
  { c with keys := xorStream (m.stream encId) c.keys }

/-- `closing_seq` -/
def closingSeq (m : RamEncryption) (status : UpdateStatus) (pCryptoInfo : Option Nat)
    (st : UpdateState) : UpdateStatus × UpdateState :=
  (status,
    match pCryptoInfo with
    | some p => if m.enabled then cryptoClose st p else st
    | none => st)

/-- The flag set in the context of the volume. -/
def setInplaceFlag (st : UpdateState) (masterCryptoInfo : Nat) (c : CryptoContext) : UpdateState :=
  { st with
    contexts := Function.update st.contexts masterCryptoInfo
      (some { c with headerFlags := c.headerFlags ||| headerFlagNonsysInplaceEnc }) }

/-- From the decryption of the header to its writing. -/
def updateStoredHeader (C : Ciphers) (m : RamEncryption) (i : UpdateInput)
    (pCryptoInfo masterCryptoInfo : Nat) (st : UpdateState) : UpdateStatus × UpdateState :=
  match st.contexts pCryptoInfo, st.contexts masterCryptoInfo with
  | some h, some c =>
    match updateHeader C (eaInit h.ea h.keys (h.keys.drop (eaGetKeySize h.ea))) st.header
        c.encryptedAreaStart c.encryptedAreaLength c.headerFlags with
    | .error .parameterIncorrect => closingSeq m .parameterIncorrect (some pCryptoInfo) st
    | .error _ => (.fatal, st)
    | .ok updated =>
      let st := setInplaceFlag st masterCryptoInfo c
      if i.writeSucceeds then
        closingSeq m .success (some pCryptoInfo) { st with header := updated }
      else closingSeq m .osError (some pCryptoInfo) st
  | _, _ => (.fatal, st)

/-- `FastVolumeHeaderUpdate` -/
def fastVolumeHeaderUpdate (C : Ciphers) (m : RamEncryption) (i : UpdateInput)
    (headerCryptoInfo masterCryptoInfo : Nat) (st : UpdateState) : UpdateStatus × UpdateState :=
  if i.headerAllocated = false then (.outOfMemory, st)
  else if i.readSucceeds = false then closingSeq m .osError (some headerCryptoInfo) st
  else if m.enabled then
    match cryptoOpen st i, st.contexts headerCryptoInfo with
    | none, _ => closingSeq m .outOfMemory none st
    | some p, some h =>
      let copy := vcProtectKeys m (m.encryptionId headerCryptoInfo) h
      updateStoredHeader C m i p masterCryptoInfo
        { st with contexts := Function.update st.contexts p (some copy) }
    | some _, none => (.fatal, st)
  else updateStoredHeader C m i headerCryptoInfo masterCryptoInfo st

/-! ## The plaintext of an updated header -/

section

variable {C : Ciphers} {a : AlgorithmId} {dk header : Bytes}

/-- **An update fails on a wrong magic number only**, and changes the fields it is for and no other
byte of the plaintext. -/
theorem updateHeader_patched (C : Ciphers) (a : AlgorithmId) (dk : Bytes)
    (hlen : header.length = volumeHeaderEffectiveSize) (start length : UInt64) (flags : UInt32) :
    updateHeader C (eaInit a.ea dk (dk.drop (eaGetKeySize a.ea))) header start length flags =
        .error .parameterIncorrect ∨
      ∃ updated plain patched,
        updateHeader C (eaInit a.ea dk (dk.drop (eaGetKeySize a.ea))) header start length flags =
          .ok updated ∧ updated.length = volumeHeaderEffectiveSize ∧
        decryptStoredHeader C a dk header = some plain ∧
        decryptStoredHeader C a dk updated = some patched ∧
        Patched plain patched start length flags := by
  have h512 : header.length = 512 := hlen
  have hbody : (slice header headerEncryptedDataOffset headerEncryptedDataSize).length = 448 :=
    length_slice (by rw [h512]; decide)
  have hblocks : (slice header headerEncryptedDataOffset headerEncryptedDataSize).length %
      bytesPerXtsBlock = 0 := by
    rw [hbody]
    decide
  obtain ⟨decrypted, hdec⟩ := EncryptionAlgorithm.decryptBuffer_isSome C (headerAlgorithm a dk)
    hblocks 0
  rw [← decryptBuffer_eq] at hdec
  have hplain : decryptStoredHeader C a dk header =
      some (patch header headerEncryptedDataOffset decrypted) := by
    rw [decryptStoredHeader, hdec, Option.map_some]
  have hp := patched_patchHeader (length_decryptStoredHeader hlen hplain) start length flags
  simp only [updateHeader, hdec]
  by_cases hmagic : getHeaderField32 (patch header headerEncryptedDataOffset decrypted)
      headerOffsetMagic ≠ headerMagicNumber
  · exact .inl (if_pos hmagic)
  · right
    generalize patchHeader (patch header headerEncryptedDataOffset decrypted) start length flags =
      patched at hp ⊢
    obtain ⟨out, henc, houtLen, hback⟩ := encryptStoredHeader_some C a dk hp.length_eq
    obtain ⟨encrypted, hbuffer, rfl⟩ := Option.map_eq_some_iff.mp henc
    refine ⟨_, _, patched, ?_, houtLen, hplain, hback, hp⟩
    rw [if_neg hmagic, hbuffer]

end

/-! ## What a call does -/

section

variable {C : Ciphers} {a : AlgorithmId} {dk : Bytes} {m : RamEncryption}
  {headerCryptoInfo masterCryptoInfo : Nat} {st : UpdateState}

/-- The contexts as `EncryptPartitionInPlaceResume` has them behind `ReadVolumeHeader`: both are
    open, and the one for the header holds its key, encrypted if keys in memory are. -/
structure Ready (a : AlgorithmId) (dk : Bytes) (m : RamEncryption)
    (headerCryptoInfo masterCryptoInfo : Nat) (st : UpdateState) : Prop where
  distinct : headerCryptoInfo ≠ masterCryptoInfo
  length_eq : st.header.length = volumeHeaderEffectiveSize
  header_open : ∃ h, st.contexts headerCryptoInfo = some h ∧ h.ea = a.ea ∧
    h.keys = if m.enabled then xorStream (m.stream (m.encryptionId headerCryptoInfo)) dk else dk
  master_open : ∃ c, st.contexts masterCryptoInfo = some c

/-- Status and header of a call, with the context `c` for the volume; `room` says that a copy of the
    other context can be made, or is not needed. -/
def callResult (C : Ciphers) (a : AlgorithmId) (dk : Bytes) (i : UpdateInput) (room : Bool)
    (header : Bytes) (c : CryptoContext) : UpdateStatus × Bytes :=
  if i.headerAllocated = false then (.outOfMemory, header)
  else if i.readSucceeds = false then (.osError, header)
  else if room = false then (.outOfMemory, header)
  else
    match updateHeader C (eaInit a.ea dk (dk.drop (eaGetKeySize a.ea))) header
        c.encryptedAreaStart c.encryptedAreaLength c.headerFlags with
    | .error _ => (.parameterIncorrect, header)
    | .ok updated => if i.writeSucceeds then (.success, updated) else (.osError, header)

/-- Nothing has changed but, at most, the flag and the header. -/
def SameContexts (masterCryptoInfo : Nat) (c : CryptoContext) (st st' : UpdateState) : Prop :=
  st'.contexts = st.contexts ∨
    st'.contexts = (setInplaceFlag st masterCryptoInfo c).contexts

theorem closingSeq_alias (hm : ¬m.enabled = true) (status : UpdateStatus) (p : Nat) :
    closingSeq m status (some p) st = (status, st) := by
  simp only [closingSeq, if_neg hm]

theorem closingSeq_copy (hm : m.enabled = true) (status : UpdateStatus) (p : Nat) :
    closingSeq m status (some p) st = (status, cryptoClose st p) := by
  simp only [closingSeq, if_pos hm]

/-- **From the decryption to the writing**, with the clear key in the context at `p`. `close` is
what the end of the function does with `p`. -/
theorem updateStoredHeader_eq {h c : CryptoContext} {p : Nat} (i : UpdateInput)
    (hlen : st.header.length = volumeHeaderEffectiveSize) (hp : st.contexts p = some h)
    (hea : h.ea = a.ea) (hkeys : h.keys = dk) (hc : st.contexts masterCryptoInfo = some c)
    {close : UpdateState → UpdateState}
    (hclose : ∀ status st, closingSeq m status (some p) st = (status, close st)) :
    updateStoredHeader C m i p masterCryptoInfo st =
      match updateHeader C (eaInit a.ea dk (dk.drop (eaGetKeySize a.ea))) st.header
          c.encryptedAreaStart c.encryptedAreaLength c.headerFlags with
      | .error _ => (.parameterIncorrect, close st)
      | .ok updated =>
        if i.writeSucceeds then
          (.success, close { setInplaceFlag st masterCryptoInfo c with header := updated })
        else (.osError, close (setInplaceFlag st masterCryptoInfo c)) := by
  simp only [updateStoredHeader, hp, hc, hea, hkeys]
  rcases updateHeader_patched C a dk hlen c.encryptedAreaStart c.encryptedAreaLength
    c.headerFlags with herror | ⟨updated, -, -, hok, -⟩
  · simp only [herror, hclose]
  · simp only [hok, hclose]

/-- **A call, if the header is read or its keys are clear**: status and header, and contexts that
are still open. -/
theorem fastVolumeHeaderUpdate_eq (hr : Ready a dk m headerCryptoInfo masterCryptoInfo st)
    (i : UpdateInput)
    (hread : ¬(m.enabled = true ∧ i.headerAllocated = true ∧ i.readSucceeds = false))
    {c : CryptoContext} (hc : st.contexts masterCryptoInfo = some c) :
    (fastVolumeHeaderUpdate C m i headerCryptoInfo masterCryptoInfo st).1 =
        (callResult C a dk i (!m.enabled || (cryptoOpen st i).isSome) st.header c).1 ∧
      (fastVolumeHeaderUpdate C m i headerCryptoInfo masterCryptoInfo st).2.header =
        (callResult C a dk i (!m.enabled || (cryptoOpen st i).isSome) st.header c).2 ∧
      SameContexts masterCryptoInfo c st
        (fastVolumeHeaderUpdate C m i headerCryptoInfo masterCryptoInfo st).2 := by
  obtain ⟨h, hopen, hea, hkeys⟩ := hr.header_open
  unfold fastVolumeHeaderUpdate callResult
  by_cases halloc : i.headerAllocated = false
  · simp only [if_pos halloc]
    exact ⟨trivial, trivial, .inl rfl⟩
  simp only [if_neg halloc]
  by_cases hfail : i.readSucceeds = false
  · have hm : ¬m.enabled = true := fun hm => hread ⟨hm, by simpa using halloc, hfail⟩
    simp only [if_pos hfail, closingSeq_alias hm]
    exact ⟨trivial, trivial, .inl rfl⟩
  simp only [if_neg hfail]
  by_cases hm : m.enabled = true
  · simp only [hm, if_true, Bool.not_true, Bool.false_or]
    rw [if_pos hm] at hkeys
    cases hroom : cryptoOpen st i with
    | none => exact ⟨rfl, rfl, .inl rfl⟩
    | some p =>
      have hfree : st.contexts p = none := by
        have hfilter := (Option.filter_eq_some_iff.mp hroom).2
        simpa using hfilter
      have hpm : masterCryptoInfo ≠ p := by
        rintro rfl
        rw [hfree] at hc
        cases hc
      have hclear : xorStream (m.stream (m.encryptionId headerCryptoInfo)) h.keys = dk := by
        rw [hkeys, xorStream_xorStream]
      simp only [hopen, Option.isSome_some, Bool.true_eq_false, if_false]
      -- the copy is open under the clear keys, and closed in the end
      generalize hwith : ({ st with
        contexts := Function.update st.contexts p
          (some (vcProtectKeys m (m.encryptionId headerCryptoInfo) h)) } : UpdateState) = st₁
      have hcopy : st₁.contexts p =
          some (vcProtectKeys m (m.encryptionId headerCryptoInfo) h) := by
        rw [← hwith]
        exact Function.update_self _ _ _
      have hmaster : st₁.contexts masterCryptoInfo = some c := by
        rw [← hwith]
        exact (Function.update_of_ne hpm _ _).trans hc
      have hsame : st₁.header = st.header := by rw [← hwith]
      rw [updateStoredHeader_eq i (hsame ▸ hr.length_eq) hcopy hea hclear hmaster
        (fun status _ => closingSeq_copy hm status p), hsame]
      subst hwith
      have hback : ∀ contexts : Nat → Option CryptoContext, contexts p = none → ∀ copy,
          Function.update (Function.update contexts p copy) p none = contexts := by
        intro contexts hnone copy
        rw [Function.update_idem, ← hnone, Function.update_eq_self]
      have hflag : ∀ flagged copy, Function.update (Function.update
          (Function.update st.contexts p copy) masterCryptoInfo flagged) p none =
            Function.update st.contexts masterCryptoInfo flagged := by
        intro flagged copy
        rw [Function.update_comm hpm, hback _ hfree]
      split
      · exact ⟨rfl, rfl, .inl (hback st.contexts hfree _)⟩
      · split
        · exact ⟨rfl, rfl, .inr (hflag _ _)⟩
        · exact ⟨rfl, rfl, .inr (hflag _ _)⟩
  · have hoff : m.enabled = false := Bool.eq_false_iff.mpr hm
    rw [if_neg hm] at hkeys
    simp only [hoff, Bool.false_eq_true, if_false, Bool.not_false, Bool.true_or, Bool.true_eq_false]
    rw [updateStoredHeader_eq i hr.length_eq hopen hea hkeys hc
      (fun status _ => closingSeq_alias hm status headerCryptoInfo)]
    split
    · exact ⟨rfl, rfl, .inl rfl⟩
    · split
      · exact ⟨rfl, rfl, .inr rfl⟩
      · exact ⟨rfl, rfl, .inr rfl⟩

end

/-! ## Calls that can be made again -/

/-- The context at `p` is open before and afterwards, with the same keys. -/
def KeepsKeys (st st' : UpdateState) (p : Nat) : Prop :=
  ∃ c c', st.contexts p = some c ∧ st'.contexts p = some c' ∧ c'.ea = c.ea ∧ c'.keys = c.keys

/-- The header is updated from the context `c`: under the same salt and key it opens with the new
    numbers and the flag, and no other field of its plaintext has changed but the checksum. -/
def HeaderUpdated (C : Ciphers) (a : AlgorithmId) (dk : Bytes) (c : CryptoContext)
    (header header' : Bytes) : Prop :=
  (∀ info, OpensAs C a dk header info →
    slice header' 0 headerEncryptedDataOffset = slice header 0 headerEncryptedDataOffset ∧
      OpensAs C a dk header' (info.withArea c.encryptedAreaStart c.encryptedAreaLength
        (c.headerFlags ||| headerFlagNonsysInplaceEnc))) ∧
    ∃ plain patched, decryptStoredHeader C a dk header = some plain ∧
      decryptStoredHeader C a dk header' = some patched ∧
      Patched plain patched c.encryptedAreaStart c.encryptedAreaLength c.headerFlags

/-- What a call has to keep: on success the header is updated; on failure it is as it was, and
    another call does what it would have done at first. The contexts keep their keys. -/
structure CallKeeps (C : Ciphers) (a : AlgorithmId) (dk : Bytes) (m : RamEncryption)
    (headerCryptoInfo masterCryptoInfo : Nat) (st : UpdateState) (i : UpdateInput) : Prop where
  headerContext : KeepsKeys st
    (fastVolumeHeaderUpdate C m i headerCryptoInfo masterCryptoInfo st).2 headerCryptoInfo
  masterContext : KeepsKeys st
    (fastVolumeHeaderUpdate C m i headerCryptoInfo masterCryptoInfo st).2 masterCryptoInfo
  updated : (fastVolumeHeaderUpdate C m i headerCryptoInfo masterCryptoInfo st).1 = .success →
    ∃ c, st.contexts masterCryptoInfo = some c ∧ HeaderUpdated C a dk c st.header
      (fastVolumeHeaderUpdate C m i headerCryptoInfo masterCryptoInfo st).2.header
  unchanged : (fastVolumeHeaderUpdate C m i headerCryptoInfo masterCryptoInfo st).1 ≠ .success →
    (fastVolumeHeaderUpdate C m i headerCryptoInfo masterCryptoInfo st).2.header = st.header
  again : (fastVolumeHeaderUpdate C m i headerCryptoInfo masterCryptoInfo st).1 ≠ .success →
    ∀ i', (fastVolumeHeaderUpdate C m i' headerCryptoInfo masterCryptoInfo
          (fastVolumeHeaderUpdate C m i headerCryptoInfo masterCryptoInfo st).2).1 =
        (fastVolumeHeaderUpdate C m i' headerCryptoInfo masterCryptoInfo st).1 ∧
      (fastVolumeHeaderUpdate C m i' headerCryptoInfo masterCryptoInfo
          (fastVolumeHeaderUpdate C m i headerCryptoInfo masterCryptoInfo st).2).2.header =
        (fastVolumeHeaderUpdate C m i' headerCryptoInfo masterCryptoInfo st).2.header

section

variable {C : Ciphers} {a : AlgorithmId} {dk : Bytes} {m : RamEncryption}
  {headerCryptoInfo masterCryptoInfo : Nat} {st st' : UpdateState} {c : CryptoContext}

/-- The context of the volume behind a call. -/
theorem SameContexts.master (h : SameContexts masterCryptoInfo c st st')
    (hc : st.contexts masterCryptoInfo = some c) :
    ∃ c', st'.contexts masterCryptoInfo = some c' ∧ c'.ea = c.ea ∧ c'.keys = c.keys ∧
      c'.encryptedAreaStart = c.encryptedAreaStart ∧
      c'.encryptedAreaLength = c.encryptedAreaLength ∧
      c'.headerFlags ||| headerFlagNonsysInplaceEnc =
        c.headerFlags ||| headerFlagNonsysInplaceEnc := by
  rcases h with hsame | hflag
  · exact ⟨c, by rw [hsame, hc], rfl, rfl, rfl, rfl, rfl⟩
  · refine ⟨{ c with headerFlags := c.headerFlags ||| headerFlagNonsysInplaceEnc }, ?_, rfl, rfl,
      rfl, rfl, ?_⟩
    · rw [hflag]
      exact Function.update_self _ _ _
    · rw [UInt32.or_assoc, UInt32.or_self]

theorem SameContexts.other (h : SameContexts masterCryptoInfo c st st') {p : Nat}
    (hp : p ≠ masterCryptoInfo) : st'.contexts p = st.contexts p := by
  rcases h with hsame | hflag
  · rw [hsame]
  · rw [hflag]
    exact Function.update_of_ne hp _ _

theorem SameContexts.cryptoOpen (h : SameContexts masterCryptoInfo c st st')
    (hc : st.contexts masterCryptoInfo = some c) (i : UpdateInput) :
    cryptoOpen st' i = cryptoOpen st i := by
  have hfree : ∀ p, (st'.contexts p).isNone = (st.contexts p).isNone := by
    intro p
    by_cases hp : p = masterCryptoInfo
    · obtain ⟨c', hc', -⟩ := h.master hc
      rw [hp, hc', hc]
      rfl
    · rw [h.other hp]
  simp only [Common.cryptoOpen, hfree]

/-- The flag is set in the header either way. -/
theorem updateHeader_flags (C : Ciphers) (schedule : List (Cipher × Bytes × Bytes))
    (header : Bytes) (start length : UInt64) {flags flags' : UInt32}
    (h : flags' ||| headerFlagNonsysInplaceEnc = flags ||| headerFlagNonsysInplaceEnc) :
    updateHeader C schedule header start length flags' =
      updateHeader C schedule header start length flags := by
  have hpatch : ∀ plain, patchHeader plain start length flags' =
      patchHeader plain start length flags := by
    intro plain
    simp only [patchHeader, h]
  simp only [updateHeader, hpatch]

theorem callResult_congr {c' : CryptoContext} (i : UpdateInput) (room : Bool) (header : Bytes)
    (hstart : c'.encryptedAreaStart = c.encryptedAreaStart)
    (hlength : c'.encryptedAreaLength = c.encryptedAreaLength)
    (hflags : c'.headerFlags ||| headerFlagNonsysInplaceEnc =
      c.headerFlags ||| headerFlagNonsysInplaceEnc) :
    callResult C a dk i room header c' = callResult C a dk i room header c := by
  simp only [callResult, hstart, hlength, updateHeader_flags C _ _ _ _ hflags]

/-- A result that is no success has left the header. -/
theorem callResult_header {i : UpdateInput} {room : Bool} {header : Bytes}
    (h : (callResult C a dk i room header c).1 ≠ .success) :
    (callResult C a dk i room header c).2 = header := by
  unfold callResult at h ⊢
  by_cases h1 : i.headerAllocated = false
  · rw [if_pos h1]
  by_cases h2 : i.readSucceeds = false
  · rw [if_neg h1, if_pos h2]
  by_cases h3 : room = false
  · rw [if_neg h1, if_neg h2, if_pos h3]
  simp only [if_neg h1, if_neg h2, if_neg h3] at h ⊢
  split
  · rfl
  · rename_i updated hok
    simp only [hok] at h
    by_cases hwrite : i.writeSucceeds = true
    · rw [if_pos hwrite] at h
      exact absurd rfl h
    · rw [if_neg hwrite]

theorem callResult_success {i : UpdateInput} {room : Bool} {header : Bytes}
    (h : (callResult C a dk i room header c).1 = .success) :
    updateHeader C (eaInit a.ea dk (dk.drop (eaGetKeySize a.ea))) header c.encryptedAreaStart
      c.encryptedAreaLength c.headerFlags = .ok (callResult C a dk i room header c).2 := by
  unfold callResult at h ⊢
  split at h
  · cases h
  rename_i h1
  split at h
  · cases h
  rename_i h2
  split at h
  · cases h
  rename_i h3
  simp only [if_neg h1, if_neg h2, if_neg h3]
  split at h
  · cases h
  · rename_i updated hok
    split at h
    · rename_i hwrite
      simp only [hok, if_pos hwrite]
    · cases h

/-- A call that closes the caller's context. -/
theorem fastVolumeHeaderUpdate_closes (i : UpdateInput)
    (h : m.enabled = true ∧ i.headerAllocated = true ∧ i.readSucceeds = false) :
    (fastVolumeHeaderUpdate C m i headerCryptoInfo masterCryptoInfo st).2.contexts
      headerCryptoInfo = none := by
  obtain ⟨hm, halloc, hread⟩ := h
  simp only [fastVolumeHeaderUpdate, halloc, Bool.true_eq_false, if_false, if_pos hread,
    closingSeq_copy hm]
  exact Function.update_self _ _ _

/-- The status and the header of a call never depend on what it closes. -/
theorem fastVolumeHeaderUpdate_result
    (hr : Ready a dk m headerCryptoInfo masterCryptoInfo st) (i : UpdateInput)
    (hc : st.contexts masterCryptoInfo = some c) :
    (fastVolumeHeaderUpdate C m i headerCryptoInfo masterCryptoInfo st).1 =
        (callResult C a dk i (!m.enabled || (cryptoOpen st i).isSome) st.header c).1 ∧
      (fastVolumeHeaderUpdate C m i headerCryptoInfo masterCryptoInfo st).2.header =
        (callResult C a dk i (!m.enabled || (cryptoOpen st i).isSome) st.header c).2 := by
  by_cases hbad : m.enabled = true ∧ i.headerAllocated = true ∧ i.readSucceeds = false
  · obtain ⟨hm, halloc, hread⟩ := hbad
    simp only [fastVolumeHeaderUpdate, callResult, halloc, Bool.true_eq_false, if_false,
      if_pos hread, closingSeq_copy hm]
    exact ⟨trivial, rfl⟩
  · obtain ⟨hstatus, hheader, -⟩ := fastVolumeHeaderUpdate_eq hr i hbad hc
    exact ⟨hstatus, hheader⟩

/-- **A header update can be made again exactly if it has not closed its caller's context**: if it
did not fail to read the header while keys in memory are encrypted. -/
theorem fastVolumeHeaderUpdate_iff (C : Ciphers)
    (hr : Ready a dk m headerCryptoInfo masterCryptoInfo st) (i : UpdateInput) :
    CallKeeps C a dk m headerCryptoInfo masterCryptoInfo st i ↔
      ¬(m.enabled = true ∧ i.headerAllocated = true ∧ i.readSucceeds = false) := by
  constructor
  · intro hkeeps hbad
    obtain ⟨-, c', -, hopen, -⟩ := hkeeps.headerContext
    rw [fastVolumeHeaderUpdate_closes i hbad] at hopen
    cases hopen
  · intro hgood
    obtain ⟨c, hc⟩ := hr.master_open
    obtain ⟨h, hopen, hea, hkeys⟩ := hr.header_open
    obtain ⟨hstatus, hheader, hsame⟩ := fastVolumeHeaderUpdate_eq (C := C) hr i hgood hc
    have hother := hsame.other hr.distinct
    obtain ⟨c', hc', hea', hkeys', hstart, hlength, hflags⟩ := hsame.master hc
    refine ⟨⟨h, h, hopen, hother.trans hopen, rfl, rfl⟩, ⟨c, c', hc, hc', hea', hkeys'⟩, ?_, ?_,
      ?_⟩
    · intro hsuccess
      rw [hstatus] at hsuccess
      have hupdate := callResult_success hsuccess
      rw [← hheader] at hupdate
      refine ⟨c, hc, ?_, ?_⟩
      · intro info hopens
        obtain ⟨updated, hok, hsalt, hnew⟩ := updateHeader_opens hopens.mendable
          c.encryptedAreaStart c.encryptedAreaLength c.headerFlags
        rw [hok] at hupdate
        rw [← Except.ok.inj hupdate]
        exact ⟨hsalt, hnew⟩
      · rcases updateHeader_patched C a dk hr.length_eq c.encryptedAreaStart c.encryptedAreaLength
          c.headerFlags with herror | ⟨updated, plain, patched, hok, -, hplain, hpatched, hp⟩
        · rw [herror] at hupdate
          cases hupdate
        · rw [hok] at hupdate
          rw [← Except.ok.inj hupdate]
          exact ⟨plain, patched, hplain, hpatched, hp⟩
    · intro hfailed
      rw [hstatus] at hfailed
      rw [hheader]
      exact callResult_header hfailed
    · intro hfailed i'
      rw [hstatus] at hfailed
      have hkept := hheader.trans (callResult_header hfailed)
      generalize (fastVolumeHeaderUpdate C m i headerCryptoInfo masterCryptoInfo st).2 = st'
        at hsame hother hc' hkept ⊢
      have hr' : Ready a dk m headerCryptoInfo masterCryptoInfo st' :=
        { distinct := hr.distinct
          length_eq := by rw [hkept]; exact hr.length_eq
          header_open := ⟨h, hother.trans hopen, hea, hkeys⟩
          master_open := ⟨c', hc'⟩ }
      obtain ⟨h1, h2⟩ := fastVolumeHeaderUpdate_result (C := C) hr' i' hc'
      obtain ⟨h3, h4⟩ := fastVolumeHeaderUpdate_result (C := C) hr i' hc
      rw [h1, h2, h3, h4, hkept, hsame.cryptoOpen hc,
        callResult_congr i' _ _ hstart hlength hflags]
      exact ⟨rfl, rfl⟩

end

/-! ## An example -/

namespace UpdateExample

def headerKey : Bytes := List.replicate 192 1

/-- Keys in memory are encrypted. -/
def ramEncryption : RamEncryption where
  enabled := true
  stream := fun encId j => encId.toUInt8 + UInt8.ofNat j
  encryptionId := fun p => UInt64.ofNat p

def context (p : Nat) : CryptoContext where
  ea := AlgorithmId.aes.ea
  keys := xorStream (ramEncryption.stream (ramEncryption.encryptionId p)) headerKey
  encryptedAreaStart := 131072
  encryptedAreaLength := 512
  headerFlags := 0

/-- The contexts at 1, for the header, and at 2, for the volume. -/
def state (header : Bytes) : UpdateState where
  header := header
  contexts := fun p => if p = 1 ∨ p = 2 then some (context p) else none

/-- The call meets a read error, or none at all. -/
def input (readSucceeds : Bool) : UpdateInput where
  headerAllocated := true
  readSucceeds := readSucceeds
  room := some 3
  writeSucceeds := true

theorem length_keys : ∀ k ∈ some (List.replicate 256 (7 : UInt8)), k.length = 256 := by
  intro k hk
  rw [← Option.some.inj hk]
  exact List.length_replicate

theorem length_salt : (List.replicate 64 (3 : UInt8)).length = 64 := List.length_replicate

theorem length_drawn : (List.replicate 256 (0 : UInt8)).length = 256 := List.length_replicate

def request : HeaderRequest where
  ea := AlgorithmId.aes.ea
  masterKeydata := some (List.replicate 256 7)
  volumeSize := 1048576
  hiddenVolumeSize := 0
  encryptedAreaStart := 1179648
  encryptedAreaLength := 0
  requiredProgramVersion := 0
  headerFlags := headerFlagNonsysInplaceEnc
  sectorSize := 512
  salt := List.replicate 64 3
  drawn := List.replicate 256 0
  length_masterKeydata := length_keys
  length_salt := length_salt
  length_drawn := length_drawn

theorem exists_header : ∃ header info, OpensAs Ciphers.demo .aes headerKey header info := by
  obtain ⟨header, hheader⟩ : ∃ header,
      createVolumeHeaderInMemory Ciphers.demo request headerKey = .ok header :=
    createVolumeHeaderInMemory_isOk (a := .aes) rfl
      (show request.masterKeydata = some (List.replicate 256 7) from rfl) (by decide)
  have hlong : AlgorithmId.aes.getKeySize * 2 ≤ headerKey.length := by
    rw [headerKey, List.length_replicate]
    decide
  obtain ⟨-, info, hopens, -⟩ :=
    createVolumeHeaderInMemory_opens (a := .aes) rfl hlong (by decide) hheader
  exact ⟨header, info, hopens⟩

theorem contexts_state (header : Bytes) {p : Nat} (hp : p = 1 ∨ p = 2) :
    (state header).contexts p = some (context p) := by
  simp only [state, if_pos hp]

theorem ready {header : Bytes} (hlen : header.length = volumeHeaderEffectiveSize) :
    Ready .aes headerKey ramEncryption 1 2 (state header) := by
  refine { distinct := by decide, length_eq := hlen, header_open := ?_, master_open := ?_ }
  · refine ⟨context 1, contexts_state header (.inl rfl), by simp only [context], ?_⟩
    simp only [context, ramEncryption, if_true]
  · exact ⟨context 2, contexts_state header (.inr rfl)⟩

end UpdateExample

open UpdateExample in
theorem fastVolumeHeaderUpdate_demo : ∃ header info,
    OpensAs Ciphers.demo .aes headerKey header info ∧
      CallKeeps Ciphers.demo .aes headerKey ramEncryption 1 2 (state header) (input true) := by
  obtain ⟨header, info, hopens⟩ := exists_header
  refine ⟨header, info, hopens, ?_⟩
  exact (fastVolumeHeaderUpdate_iff Ciphers.demo (ready hopens.length_eq) (input true)).mpr
    (by decide)

open UpdateExample in
/-- **The header cannot be read**: the context that the caller goes on with is closed. -/
theorem read_error_closes_context : ∃ header info,
    OpensAs Ciphers.demo .aes headerKey header info ∧
      (fastVolumeHeaderUpdate Ciphers.demo ramEncryption (input false) 1 2
        (state header)).1 = .osError ∧
      ¬CallKeeps Ciphers.demo .aes headerKey ramEncryption 1 2 (state header) (input false) := by
  obtain ⟨header, info, hopens⟩ := exists_header
  refine ⟨header, info, hopens, rfl, ?_⟩
  intro hkeeps
  obtain ⟨-, c', -, hopen, -⟩ := hkeeps.headerContext
  rw [fastVolumeHeaderUpdate_closes (input false) (by decide)] at hopen
  cases hopen

end Common

end VeraCrypt
