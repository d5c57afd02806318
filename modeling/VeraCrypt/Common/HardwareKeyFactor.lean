import VeraCrypt.Common.Keyfiles

/-!
# Mixing a hardware response into a password (`Common/HardwareKeyFactor.c`)

The response of a token goes into the password as a keyfile does, with a CRC table that is computed
and not written down. The pool always has 128 bytes, also for the passwords for which a keyfile has
a pool of 64 (`hkfMix_eq_keyfile_iff`). Up to 32 bytes every byte of the response has four entries
of the pool to itself, and can be read back (`hkfMix_injective`).
-/

set_option autoImplicit false

namespace VeraCrypt

open Lib

/-- One round of `hkf_crc_init`. -/
def hkfCrcBit (c : UInt32) : UInt32 :=
  if c &&& 1 ≠ 0 then (0xedb88320 : UInt32) ^^^ (c >>> 1) else c >>> 1

/-- `hkf_crc_tab` after `hkf_crc_init`. -/
def hkfCrcTab : List UInt32 :=
  (List.range 256).map (fun n => (List.range 8).foldl (fun c _ => hkfCrcBit c) (UInt32.ofNat n))

/-- `HKF_UPDC32` -/
def hkfUpdc32 (octet : UInt8) (crc : UInt32) : UInt32 :=
  hkfCrcTab.getD ((crc ^^^ octet.toUInt32) &&& 0xff).toNat 0 ^^^ (crc >>> 8)

/-- `HKF_POOL_SIZE` -/
def hkfPoolSize : Nat := 128

/-- The variables of `HKFMixResponseIntoPassword`. -/
structure HkfMixState where
  pool : Bytes
  crc : UInt32
  writePos : Nat

/-- The body of its first loop. -/
def hkfMixByte (s : HkfMixState) (b : UInt8) : HkfMixState :=
  let crc := hkfUpdc32 b s.crc
  let pool := s.pool.modify s.writePos (· + (crc >>> 24).toUInt8)
  let pool := pool.modify (s.writePos + 1) (· + (crc >>> 16).toUInt8)
  let pool := pool.modify (s.writePos + 2) (· + (crc >>> 8).toUInt8)
  let pool := pool.modify (s.writePos + 3) (· + crc.toUInt8)
  let writePos := s.writePos + 4
  { pool := pool
    crc := crc
    writePos := if writePos ≥ hkfPoolSize then 0 else writePos }

/-- `HKFMixResponseIntoPassword` -/
def hkfMixResponseIntoPassword (password : Password) (response : Bytes) : Password :=
  let s := response.foldl hkfMixByte
    { pool := List.replicate hkfPoolSize 0, crc := 0xffffffff, writePos := 0 }
  { text := mixPool hkfPoolSize s.pool password.length password.text
    length := if password.length < hkfPoolSize then hkfPoolSize else password.length
    room := by
      rw [mixPool, List.length_mapIdx]
      exact password.room
    length_le := by
      split
      · exact Nat.le_refl _
      · exact password.length_le }

/-! ## The response as a keyfile -/

theorem hkfCrcTab_eq : hkfCrcTab = crc32Table := by decide +kernel

theorem hkfUpdc32_eq (octet : UInt8) (crc : UInt32) : hkfUpdc32 octet crc = updc32 octet crc := by
  unfold hkfUpdc32 updc32
  rw [hkfCrcTab_eq]

theorem foldl_hkfMixByte (response : Bytes) (s : HkfMixState) :
    (response.foldl hkfMixByte s).pool =
      addAll s.pool (poolWrites hkfPoolSize s.crc s.writePos response) := by
  induction response generalizing s with
  | nil => rfl
  | cons b bs ih =>
    have hpool : (hkfMixByte s b).pool = addAll s.pool
        [(s.writePos, (updc32 b s.crc >>> 24).toUInt8),
          (s.writePos + 1, (updc32 b s.crc >>> 16).toUInt8),
          (s.writePos + 2, (updc32 b s.crc >>> 8).toUInt8),
          (s.writePos + 3, (updc32 b s.crc).toUInt8)] := by
      unfold hkfMixByte
      rw [hkfUpdc32_eq]
      rfl
    have hcrc : (hkfMixByte s b).crc = updc32 b s.crc := hkfUpdc32_eq b s.crc
    have hpos : (hkfMixByte s b).writePos =
        if s.writePos + 4 ≥ hkfPoolSize then 0 else s.writePos + 4 := rfl
    rw [List.foldl_cons, ih, hpool, ← addAll_append, hcrc, hpos]
    rfl

/-- **What the mixing computes**: the padded password and the additions of the response. -/
theorem bytes_hkfMix (p : Password) (response : Bytes) :
    (hkfMixResponseIntoPassword p response).bytes =
      addAll (padded 128 p.bytes) (poolWrites 128 0xffffffff 0 response) := by
  have hroom : 128 ≤ p.text.length := p.room
  have hle : p.length ≤ 128 := p.length_le
  have hlength : (if p.length < hkfPoolSize then hkfPoolSize else p.length) = 128 := by
    show (if p.length < 128 then 128 else p.length) = 128
    split <;> omega
  unfold hkfMixResponseIntoPassword
  simp only [foldl_hkfMixByte, hlength]
  exact take_mixPool_addAll hle hroom (Nat.le_refl 128) _

theorem length_padded {size : Nat} {password : Bytes} (h : password.length ≤ size) :
    (padded size password).length = size := by
  rw [padded, List.length_append, List.length_replicate]
  omega

theorem length_bytes_hkfMix (p : Password) (response : Bytes) :
    (hkfMixResponseIntoPassword p response).bytes.length = 128 := by
  have hle : p.bytes.length ≤ 128 := by
    rw [length_bytes]
    exact p.length_le
  rw [bytes_hkfMix, length_addAll, length_padded hle]

theorem length_keyfileMix {password : Bytes} (h : password.length ≤ maxPassword)
    (contents : List Bytes) : (keyfileMix password contents).length = poolSizeFor password.length :=
  (length_addAll _ _).trans (length_padded (poolSizeFor_bounds h).1)

/-- **The response mixed in is a keyfile applied** for the passwords that are longer than a legacy
    one, and for no others. A response is never longer than a keyfile is read, and an empty one is
    no keyfile. -/
theorem hkfMix_eq_keyfile_iff (p : Password) {response : Bytes}
    (hmax : response.length ≤ keyfileMaxReadLen) {file file' : KeyfileReads}
    (hfile : file.content = response) (hfile' : file'.content = response) :
    ((keyFilesApply p [file]).1 = true ∧
        (keyFilesApply p [file]).2.bytes = (hkfMixResponseIntoPassword p response).bytes ∧
        applyListToPassword [file'] p.bytes =
          .ok (hkfMixResponseIntoPassword p response).bytes) ↔
      maxLegacyPassword < p.length ∧ response ≠ [] := by
  have hpassword : p.bytes.length ≤ maxPassword := by
    rw [length_bytes]
    exact p.length_le
  have hlegacy : maxLegacyPassword = 64 := rfl
  obtain ⟨hstatus, hbytes⟩ := keyFilesApply_eq p (List.cons_ne_nil file [])
  rw [List.map_singleton, hfile] at hbytes
  rw [List.all_cons, List.all_nil, Bool.and_true, hfile] at hstatus
  constructor
  · rintro ⟨htaken, hsame, -⟩
    rw [hstatus] at htaken
    refine ⟨?_, of_decide_eq_true htaken⟩
    -- the lengths of the results tell the pools apart
    have hlength := congrArg List.length hsame
    rw [hbytes, length_keyfileMix hpassword, length_bytes_hkfMix, length_bytes] at hlength
    by_contra hshort
    unfold poolSizeFor at hlength
    rw [if_pos (by omega)] at hlength
    omega
  · rintro ⟨hlong, hne⟩
    have hsize : poolSizeFor p.bytes.length = 128 := by
      rw [length_bytes]
      exact if_neg (by omega)
    have hmix : keyfileMix p.bytes [response] = (hkfMixResponseIntoPassword p response).bytes := by
      rw [bytes_hkfMix]
      unfold keyfileMix keyfileWrites
      rw [hsize, List.flatMap_singleton, List.take_of_length_le hmax]
    refine ⟨hstatus.trans (decide_eq_true hne), hbytes.trans hmix, ?_⟩
    have happly := applyListToPassword_eq hpassword (List.cons_ne_nil file' []) (by
      intro f hf
      rw [List.mem_singleton.mp hf, hfile']
      exact hne)
    rw [List.map_singleton, hfile', hmix] at happly
    exact happly

/-! ## Nothing of the response is lost -/

/-- The bytes of the CRC after each byte of the response. -/
def crcBytes : (crc : UInt32) → Bytes → Bytes
  | _, [] => []
  | crc, b :: bs =>
    let crc := updc32 b crc
    (crc >>> 24).toUInt8 :: (crc >>> 16).toUInt8 :: (crc >>> 8).toUInt8 :: crc.toUInt8 ::
      crcBytes crc bs

theorem length_crcBytes (crc : UInt32) (bs : Bytes) : (crcBytes crc bs).length = 4 * bs.length := by
  induction bs generalizing crc with
  | nil => rfl
  | cons b bs ih =>
    rw [crcBytes, List.length_cons, List.length_cons, List.length_cons, List.length_cons, ih,
      List.length_cons]
    omega

/-- As long as the pool is not full, the additions come one after another. -/
theorem poolWrites_eq_consecutive {size : Nat} (bs : Bytes) (crc : UInt32) {pos : Nat}
    (h : pos + 4 * bs.length ≤ size) :
    poolWrites size crc pos bs = consecutive pos (crcBytes crc bs) := by
  induction bs generalizing crc pos with
  | nil => rfl
  | cons b bs ih =>
    rw [List.length_cons] at h
    rw [poolWrites, crcBytes, consecutive_cons, consecutive_cons, consecutive_cons,
      consecutive_cons]
    refine congrArg _ (congrArg _ (congrArg _ (congrArg _ ?_)))
    by_cases hfull : pos + 4 ≥ size
    · -- the pool is full, and nothing comes after
      have hnil : bs = [] := List.length_eq_zero_iff.mp (by omega)
      rw [hnil]
      rfl
    · rw [if_neg hfull]
      exact ih _ (by omega)

/-- Byte `t` is the place of the entry with the top byte `t`. -/
def packedIndex : Nat :=
  [0xd3921051551496d79edf5d1c1859db9a49088acbcf8e0c4d0445c78682c34100,
   0xa6e765242061e3a2ebaa28696d2caeef3c7dffbebafb79387130b2f3f7b63475,
   0x3978fabbbffe7c3d7435b7f6f2b33170a3e260212564e6a7eeaf2d6c6829abea,
   0x4c0d8fceca8b09480140c28387c64405d6971554501193d29bda58191d5cde9f,
   0x460785c4c08103420b4ac8898dcc4e0fdc9d1f5e5a1b99d891d052131756d495,
   0x3372f0b1b5f476377e3fbdfcf8b93b7aa9e86a2b2f6eecade4a527666223a1e0,
   0xaced6f2e2a6be9a8e1a022636726a4e53677f5b4b0f173327b3ab8f9fdbc3e7f,
   0xd9981a5b5f1e9cdd94d557161253d190430280c1c58406470e4fcd8c88c94b0a].foldr
    (fun word rest => word + 2 ^ 256 * rest) 0

/-- The place of an entry of the table, from its top byte and a table packed in a number. -/
def crc32Index (entry : UInt32) : Nat :=
  packedIndex >>> (8 * (entry >>> 24).toNat) % 256

/-- The entries of the table are different. -/
theorem crc32Index_entry : ∀ p ∈ crc32Table.zipIdx, crc32Index p.1 = p.2 := by decide +kernel

theorem crc32Table_inj {i j : Nat} (hi : i < crc32Table.length) (hj : j < crc32Table.length)
    (h : crc32Table[i] = crc32Table[j]) : i = j := by
  have hplace : ∀ {k : Nat} (hk : k < crc32Table.length), crc32Index crc32Table[k] = k := by
    intro k hk
    refine crc32Index_entry (crc32Table[k], k) ?_
    exact List.mk_mem_zipIdx_iff_getElem?.mpr (List.getElem?_eq_getElem hk)
  rw [← hplace hi, h, hplace hj]

theorem updc32_injective {b b' : UInt8} {crc : UInt32} (h : updc32 b crc = updc32 b' crc) :
    b = b' := by
  have hlen : crc32Table.length = 256 := by decide +kernel
  have hindex : ∀ c : UInt8, ((crc ^^^ c.toUInt32) &&& 0xff).toNat < crc32Table.length := by
    intro c
    have hmask : UInt32.toNat 0xff = 2 ^ 8 - 1 := rfl
    rw [UInt32.toNat_and, hmask, Nat.and_two_pow_sub_one_eq_mod, hlen]
    exact Nat.mod_lt _ (by decide)
  unfold updc32 at h
  have htab := (UInt32.xor_left_inj _).mp h
  rw [List.getD_eq_getElem _ _ (hindex b), List.getD_eq_getElem _ _ (hindex b')] at htab
  have hsame := crc32Table_inj (hindex b) (hindex b') htab
  -- the low byte of the CRC is xored onto both
  have hlow : ∀ c : UInt8, ((crc ^^^ c.toUInt32) &&& 0xff).toNat = (crc.toUInt8 ^^^ c).toNat := by
    intro c
    have hmask : UInt32.toNat 0xff = 2 ^ 8 - 1 := rfl
    rw [UInt32.toNat_and, hmask, Nat.and_two_pow_sub_one_eq_mod, UInt32.toNat_xor,
      UInt8.toNat_xor, UInt32.toNat_toUInt8, UInt8.toNat_toUInt32, Nat.xor_mod_two_pow,
      Nat.mod_eq_of_lt c.toNat_lt]
  rw [hlow, hlow] at hsame
  exact (UInt8.xor_right_inj _).mp (UInt8.toNat_inj.mp hsame)

/-- A word is its four bytes. -/
theorem word_of_bytes {x y : UInt32} (h₃ : (x >>> 24).toUInt8 = (y >>> 24).toUInt8)
    (h₂ : (x >>> 16).toUInt8 = (y >>> 16).toUInt8) (h₁ : (x >>> 8).toUInt8 = (y >>> 8).toUInt8)
    (h₀ : x.toUInt8 = y.toUInt8) : x = y := by
  have hshift : ∀ (z : UInt32) (n : Nat), n < 32 →
      (z >>> UInt32.ofNat n).toUInt8.toNat = z.toNat / 2 ^ n % 256 := by
    intro z n hn
    rw [UInt32.toNat_toUInt8, UInt32.toNat_shiftRight, UInt32.toNat_ofNat',
      Nat.mod_eq_of_lt (by omega : n < 2 ^ 32), Nat.mod_eq_of_lt hn, Nat.shiftRight_eq_div_pow]
  have hx := x.toNat_lt
  have hy := y.toNat_lt
  have e₃ := (hshift x 24 (by omega)).symm.trans
    ((congrArg UInt8.toNat h₃).trans (hshift y 24 (by omega)))
  have e₂ := (hshift x 16 (by omega)).symm.trans
    ((congrArg UInt8.toNat h₂).trans (hshift y 16 (by omega)))
  have e₁ := (hshift x 8 (by omega)).symm.trans
    ((congrArg UInt8.toNat h₁).trans (hshift y 8 (by omega)))
  have e₀ := congrArg UInt8.toNat h₀
  rw [UInt32.toNat_toUInt8, UInt32.toNat_toUInt8] at e₀
  apply UInt32.toNat_inj.mp
  omega

theorem crcBytes_injective {crc : UInt32} {bs bs' : Bytes} (hlen : bs.length = bs'.length)
    (h : crcBytes crc bs = crcBytes crc bs') : bs = bs' := by
  induction bs generalizing crc bs' with
  | nil => exact (List.length_eq_zero_iff.mp hlen.symm).symm
  | cons b bs ih =>
    cases bs' with
    | nil => exact absurd hlen (Nat.succ_ne_zero _)
    | cons b' bs' =>
      rw [crcBytes, crcBytes] at h
      simp only [List.cons.injEq] at h
      obtain ⟨h₃, h₂, h₁, h₀, hrest⟩ := h
      have hcrc := word_of_bytes h₃ h₂ h₁ h₀
      rw [updc32_injective hcrc]
      rw [hcrc] at hrest
      rw [ih (Nat.succ_inj.mp hlen) hrest]

/-- **The response can be read back** from the mixed password, up to 32 bytes. -/
theorem hkfMix_injective (p : Password) {response response' : Bytes}
    (hlen : response.length = response'.length) (hmax : response.length ≤ 32)
    (h : (hkfMixResponseIntoPassword p response).bytes =
      (hkfMixResponseIntoPassword p response').bytes) : response = response' := by
  have hle : p.bytes.length ≤ 128 := by
    rw [length_bytes]
    exact p.length_le
  rw [bytes_hkfMix, bytes_hkfMix, poolWrites_eq_consecutive _ _ (by omega),
    poolWrites_eq_consecutive _ _ (by omega)] at h
  apply @crcBytes_injective 0xffffffff _ _ hlen
  apply List.ext_getElem?
  intro i
  have hlength := length_crcBytes 0xffffffff response
  have hlength' := length_crcBytes 0xffffffff response'
  by_cases hi : i < 4 * response.length
  · obtain ⟨x, hx⟩ : ∃ x, (padded 128 p.bytes)[0 + i]? = some x :=
      ⟨_, List.getElem?_eq_getElem (by rw [length_padded hle]; omega)⟩
    obtain ⟨v, hv⟩ : ∃ v, (crcBytes 0xffffffff response)[i]? = some v :=
      ⟨_, List.getElem?_eq_getElem (by omega)⟩
    obtain ⟨v', hv'⟩ : ∃ v', (crcBytes 0xffffffff response')[i]? = some v' :=
      ⟨_, List.getElem?_eq_getElem (by omega)⟩
    have hentry := congrArg (fun l : Bytes => l[0 + i]?) h
    simp only [getElem?_addAll_consecutive, hx, hv, hv', Option.map_some, Option.some.injEq]
      at hentry
    rw [hv, hv', (UInt8.add_right_inj _).mp hentry]
  · rw [List.getElem?_eq_none (by omega), List.getElem?_eq_none (by omega)]

namespace HkfDemo

open KeyfilesDemo

/-- A password of 65 bytes. -/
def long : Password where
  text := List.replicate 65 7 ++ List.replicate 64 0
  length := 65
  room := by
    rw [List.length_append, List.length_replicate, List.length_replicate]
    decide
  length_le := by decide

theorem hkfMix_eq_keyfile_iff_demo :
    (keyFilesApply long [file]).1 = true ∧
      (keyFilesApply long [file]).2.bytes = (hkfMixResponseIntoPassword long [1, 2, 3]).bytes ∧
      applyListToPassword [file] long.bytes =
        .ok (hkfMixResponseIntoPassword long [1, 2, 3]).bytes :=
  (@hkfMix_eq_keyfile_iff long [1, 2, 3] (by decide) file file rfl rfl).mpr
    ⟨by decide, by decide⟩

/-- With a password of two bytes, the lengths differ. -/
theorem not_a_keyfile :
    (keyFilesApply short [file]).2.bytes ≠ (hkfMixResponseIntoPassword short [1, 2, 3]).bytes := by
  intro h
  have hlength := congrArg List.length h
  rw [(keyFilesApply_eq short (List.cons_ne_nil file [])).2, length_bytes_hkfMix,
    length_keyfileMix (by decide)] at hlength
  exact absurd hlength (by decide)

theorem hkfMix_injective_demo :
    (hkfMixResponseIntoPassword short [1, 2, 3]).bytes ≠
      (hkfMixResponseIntoPassword short [1, 2, 4]).bytes := by
  intro h
  exact absurd (@hkfMix_injective short [1, 2, 3] [1, 2, 4] rfl (by decide) h) (by decide)

end HkfDemo

end VeraCrypt
