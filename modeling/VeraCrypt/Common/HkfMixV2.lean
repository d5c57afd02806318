import VeraCrypt.Common.HardwareKeyFactor
import VeraCrypt.Crypto.Sha256Stream
import VeraCrypt.Lib.Hkdf

/-!
# The second mixing of a hardware response (`Common/HardwareKeyFactor.c`)

The password and the response are hashed one behind the other, as the key material of an
HKDF-SHA256, and 128 bytes of it take the place of the password. The contexts are those of
`Crypto/Sha2.c`; `wbuf` is what the stack holds where one of them begins.

What is mixed is the HKDF (`hkfV2Mix_eq`). The material is the concatenation without a length, so
that a byte can move from the end of the password to the start of the response: such pairs are the
only ones that are fed alike (`mix_v2_meets_iff`), and they leave the same password.
-/

set_option autoImplicit false

namespace VeraCrypt
namespace HkfV2

open Lib Sha256

/-- `HKF_HMAC_BLOCK`, `HKF_HMAC_DIGEST` -/
def HKF_HMAC_BLOCK : Nat := 64
def HKF_HMAC_DIGEST : Nat := 32

/-- `HKF_MAX_RESPONSE` -/
def HKF_MAX_RESPONSE : Nat := 64

/-- `HKF_MIX_V2` -/
def HKF_MIX_V2 : Int := 2

/-- `HKF_V2_INFO` without its terminator: `VeraCrypt/HKF/mix/v2`. -/
def HKF_V2_INFO : Bytes :=
  [0x56, 0x65, 0x72, 0x61, 0x43, 0x72, 0x79, 0x70, 0x74, 0x2f, 0x48, 0x4b, 0x46, 0x2f, 0x6d, 0x69,
    0x78, 0x2f, 0x76, 0x32]

/-- `HKF_V2_ZERO_SALT` -/
def HKF_V2_ZERO_SALT : Bytes := List.replicate HKF_HMAC_DIGEST 0

section

variable (compress : Words → Bytes → Words) (wbuf : Bytes)

/-! ## The functions -/

/-- `k0` in `hkf_v2_hmac`. -/
def keyBlock (key : Bytes) : Bytes :=
  if key.length > HKF_HMAC_BLOCK then
    sha256End compress (sha256Hash compress key (sha256Begin wbuf)) ++
      List.replicate (HKF_HMAC_BLOCK - HKF_HMAC_DIGEST) 0
  else key ++ List.replicate (HKF_HMAC_BLOCK - key.length) 0

/-- The context that has been given a key with a pad. -/
def padded (k0 : Bytes) (pad : UInt8) : Ctx :=
  sha256Hash compress (k0.map (· ^^^ pad)) (sha256Begin wbuf)

/-- The context of the inner hash in `hkf_v2_hmac`, before its end. -/
def innerCtx (key m1 m2 : Bytes) : Ctx :=
  let c := padded compress wbuf (keyBlock compress wbuf key) 0x36
  let c := if m1.length > 0 then sha256Hash compress m1 c else c
  if m2.length > 0 then sha256Hash compress m2 c else c

/-- `hkf_v2_hmac` -/
def hkfV2Hmac (key m1 m2 : Bytes) : Bytes :=
  let inner := sha256End compress (innerCtx compress wbuf key m1 m2)
  let c := padded compress wbuf (keyBlock compress wbuf key) 0x5c
  sha256End compress (sha256Hash compress inner c)

/-- The variables of the loop of `hkf_v2_mix`. -/
structure Expand where
  T : Bytes
  tLen : Nat
  okm : Bytes
  got : Nat

/-- The body of the loop. -/
def expandBlock (prk : Bytes) (s : Expand) (blk : Nat) : Expand :=
  let ctr := UInt8.ofNat blk
  let k0 := prk ++ List.replicate (HKF_HMAC_BLOCK - HKF_HMAC_DIGEST) 0
  let c := padded compress wbuf k0 0x36
  let c := if s.tLen > 0 then sha256Hash compress (s.T.take s.tLen) c else c
  let c := sha256Hash compress HKF_V2_INFO c
  let c := sha256Hash compress [ctr] c
  let inner := sha256End compress c
  let c := padded compress wbuf k0 0x5c
  let T := sha256End compress (sha256Hash compress inner c)
  let n := if hkfPoolSize - s.got < HKF_HMAC_DIGEST then hkfPoolSize - s.got else HKF_HMAC_DIGEST
  { T := T
    tLen := HKF_HMAC_DIGEST
    okm := patch s.okm s.got (T.take n)
    got := s.got + n }

/-- The loop, up to its block `k`. -/
def expandBlocks (prk : Bytes) (s : Expand) (k : Nat) : Expand :=
  (List.range k).foldl (fun s i => expandBlock compress wbuf prk s (i + 1)) s

/-- The variables before the loop. -/
def Expand.start : Expand :=
  { T := List.replicate HKF_HMAC_DIGEST 0
    tLen := 0
    okm := List.replicate hkfPoolSize 0
    got := 0 }

/-- A password that is overwritten from its start keeps its room. -/
theorem room_patch (password : Password) (okm : Bytes) :
    maxPassword ≤ (patch password.text 0 okm).length := by
  have hroom := password.room
  simp only [patch, List.take_zero, List.nil_append, List.length_append, List.length_drop]
  omega

/-- `hkf_v2_mix` -/
def hkfV2Mix (password : Password) (response extractSalt : Bytes) : Password :=
  let blocks := (hkfPoolSize + HKF_HMAC_DIGEST - 1) / HKF_HMAC_DIGEST
  let prk := hkfV2Hmac compress wbuf extractSalt password.bytes response
  let okm := (expandBlocks compress wbuf prk Expand.start blocks).okm
  { text := patch password.text 0 okm
    length := hkfPoolSize
    room := room_patch password okm
    length_le := Nat.le_refl _ }

/-- `HKFMixResponseIntoPasswordV2` -/
def hkfMixResponseIntoPasswordV2 (password : Password) (response : Bytes) : Password :=
  hkfV2Mix compress wbuf password response HKF_V2_ZERO_SALT

/-- `HKFMixResponseIntoPasswordV2Salt`, with no salt as an empty one. -/
def hkfMixResponseIntoPasswordV2Salt (password : Password) (response salt : Bytes) : Password :=
  if salt.length > 0 then hkfV2Mix compress wbuf password response salt
  else hkfV2Mix compress wbuf password response HKF_V2_ZERO_SALT

/-- `HKFMixResponseIntoPasswordVerSalt` -/
def hkfMixResponseIntoPasswordVerSalt (version : Int) (password : Password)
    (response salt : Bytes) : Password :=
  if version = HKF_MIX_V2 then
    hkfMixResponseIntoPasswordV2Salt compress wbuf password response salt
  else hkfMixResponseIntoPassword password response

/-! ## What is asked of the mixing -/

/-- What the extraction is fed, behind the salt. -/
def extractInput (password : Password) (response : Bytes) : Bytes := password.bytes ++ response

/-- The password becomes the HKDF of the two, and another pair is fed otherwise. -/
structure MixMeets (password : Password) (response salt : Bytes) (password' : Password)
    (response' : Bytes) : Prop where
  mixed : (hkfV2Mix compress wbuf password response salt).bytes =
    hkdf (Sha256.hashOf compress) 64 32 salt (password.bytes ++ response) HKF_V2_INFO 128
  length : (hkfV2Mix compress wbuf password response salt).length = 128
  bound : extractInput password response ≠ extractInput password' response'

end

/-- The end of one password is the start of the response of the other. -/
def Regrouped (password response password' response' : Bytes) : Prop :=
  ∃ moved : Bytes, moved ≠ [] ∧
    (password' = password ++ moved ∧ response = moved ++ response' ∨
      password = password' ++ moved ∧ response' = moved ++ response)

/-! ## HMAC -/

section

variable (compress : Words → Bytes → Words) {wbuf : Bytes} (hwbuf : wbuf.length = 64)

include hwbuf in
theorem keyBlock_eq (key : Bytes) :
    keyBlock compress wbuf key = hmacKey (Sha256.hashOf compress) 64 key := by
  have hbegin := absorbed_hash compress (absorbed_begin compress hwbuf) rfl key
  have hlen := length_hashOf compress key
  rw [List.nil_append] at hbegin
  unfold keyBlock hmacKey
  dsimp only
  by_cases h : 64 < key.length
  · rw [if_pos (show key.length > HKF_HMAC_BLOCK from h), if_pos h, sha256End_eq compress hbegin,
      hlen]
    rfl
  · rw [if_neg (show ¬key.length > HKF_HMAC_BLOCK from h), if_neg h]
    rfl

/-- A key of the length of a digest. -/
theorem hmacKey_digest {prk : Bytes} (h : prk.length = 32) :
    hmacKey (Sha256.hashOf compress) 64 prk =
      prk ++ List.replicate (HKF_HMAC_BLOCK - HKF_HMAC_DIGEST) 0 := by
  unfold hmacKey
  dsimp only
  rw [if_neg (by omega), h]
  rfl

include hwbuf in
theorem absorbed_padded (k0 : Bytes) (pad : UInt8) :
    Absorbed compress (k0.map (· ^^^ pad)) (padded compress wbuf k0 pad) :=
  absorbed_hash compress (absorbed_begin compress hwbuf) rfl (k0.map (· ^^^ pad))

variable {compress} in
/-- A segment is skipped when it is empty. -/
theorem absorbed_segment {m : Bytes} {c : Ctx} (h : Absorbed compress m c) {data : Bytes}
    (hdata : data.length < 2 ^ 31) :
    Absorbed compress (m ++ data) (if data.length > 0 then sha256Hash compress data c else c) := by
  by_cases hpos : data.length > 0
  · rw [if_pos hpos]
    exact absorbed_more compress h hdata
  · have hnil : data = [] := List.length_eq_zero_iff.mp (by omega)
    rw [if_neg hpos, hnil, List.append_nil]
    exact h

include hwbuf in
/-- The inner hash is given the padded key and the two segments. -/
theorem innerCtx_absorbed (key : Bytes) {m1 m2 : Bytes} (h1 : m1.length < 2 ^ 31)
    (h2 : m2.length < 2 ^ 31) :
    Absorbed compress ((hmacKey (Sha256.hashOf compress) 64 key).map (· ^^^ 0x36) ++ (m1 ++ m2))
      (innerCtx compress wbuf key m1 m2) := by
  have hkey := absorbed_padded compress hwbuf (keyBlock compress wbuf key) 0x36
  rw [← keyBlock_eq compress hwbuf, ← List.append_assoc]
  exact absorbed_segment (absorbed_segment hkey h1) h2

include hwbuf in
/-- The outer hash. -/
theorem outer_eq (k0 inner : Bytes) (hinner : inner.length = 32) :
    sha256End compress (sha256Hash compress inner (padded compress wbuf k0 0x5c)) =
      Sha256.hashOf compress (k0.map (· ^^^ 0x5c) ++ inner) := by
  have hkey := absorbed_padded compress hwbuf k0 0x5c
  exact sha256End_eq compress (absorbed_more compress hkey (by omega))

include hwbuf in
theorem hkfV2Hmac_eq (key : Bytes) {m1 m2 : Bytes} (h1 : m1.length < 2 ^ 31)
    (h2 : m2.length < 2 ^ 31) :
    hkfV2Hmac compress wbuf key m1 m2 = hmac (Sha256.hashOf compress) 64 key (m1 ++ m2) := by
  have hinner := sha256End_eq compress (innerCtx_absorbed compress hwbuf key h1 h2)
  unfold hkfV2Hmac
  dsimp only
  rw [hinner, outer_eq compress hwbuf _ _ (length_hashOf compress _), keyBlock_eq compress hwbuf]
  rfl

/-! ## The blocks -/

include hwbuf in
/-- The next block of the expansion is an HMAC of the block before it. -/
theorem expandBlock_T {prk : Bytes} (hprk : prk.length = 32) {s : Expand}
    (hT : (s.T.take s.tLen).length = s.tLen) (hlen : s.tLen ≤ 32) (blk : Nat) :
    (expandBlock compress wbuf prk s blk).T =
      hmac (Sha256.hashOf compress) 64 prk
        (s.T.take s.tLen ++ HKF_V2_INFO ++ [UInt8.ofNat blk]) := by
  have hkey := absorbed_padded compress hwbuf
    (prk ++ List.replicate (HKF_HMAC_BLOCK - HKF_HMAC_DIGEST) 0) 0x36
  have hfirst := absorbed_segment hkey (show (s.T.take s.tLen).length < 2 ^ 31 by omega)
  rw [hT] at hfirst
  have hinfo := absorbed_more compress hfirst (show HKF_V2_INFO.length < 2 ^ 31 by decide)
  have hctr := absorbed_more compress hinfo (show [UInt8.ofNat blk].length < 2 ^ 31 by simp)
  have hinner := sha256End_eq compress hctr
  unfold expandBlock
  dsimp only
  rw [hinner, outer_eq compress hwbuf _ _ (length_hashOf compress _),
    ← hmacKey_digest compress hprk, List.append_assoc, List.append_assoc,
    ← List.append_assoc (s.T.take s.tLen)]
  rfl

/-- What the loop leaves after `k` blocks. -/
structure Expanded (prf : Octets → Octets) (k : Nat) (s : Expand) : Prop where
  block : s.T.take s.tLen = hkdfT prf HKF_V2_INFO k
  tLen : s.tLen = (hkdfT prf HKF_V2_INFO k).length
  got : s.got = 32 * k
  length : s.okm.length = 128
  okm : s.okm.take s.got = hkdfBlocks prf HKF_V2_INFO k

theorem length_hmac (key m : Bytes) : (hmac (Sha256.hashOf compress) 64 key m).length = 32 :=
  length_hashOf compress _

variable {compress} in
theorem Expanded.step {prk : Bytes} {k : Nat} {s : Expand} (hprk : prk.length = 32)
    (h : Expanded (hmac (Sha256.hashOf compress) 64 prk) k s) (hk : k < 4)
    (hwbuf : wbuf.length = 64) :
    Expanded (hmac (Sha256.hashOf compress) 64 prk) (k + 1)
      (expandBlock compress wbuf prk s (k + 1)) := by
  have hprf := length_hmac compress prk
  have htle : s.tLen ≤ 32 := by
    rw [h.tLen]
    cases k with
    | zero => exact Nat.zero_le _
    | succ k => exact Nat.le_of_eq (hprf _)
  have hTlen : (s.T.take s.tLen).length = s.tLen := by rw [h.block, h.tLen]
  have hT := expandBlock_T compress hwbuf hprk hTlen htle (k + 1)
  rw [h.block] at hT
  have hnext : (expandBlock compress wbuf prk s (k + 1)).T =
      hkdfT (hmac (Sha256.hashOf compress) 64 prk) HKF_V2_INFO (k + 1) := hT
  have hlenT : (expandBlock compress wbuf prk s (k + 1)).T.length = 32 := by
    rw [hT]
    exact hprf _
  have hgot := h.got
  have hlength := h.length
  have hn : (if hkfPoolSize - s.got < HKF_HMAC_DIGEST then hkfPoolSize - s.got
      else HKF_HMAC_DIGEST) = 32 := by
    have hpool : hkfPoolSize = 128 := rfl
    have hdigest : HKF_HMAC_DIGEST = 32 := rfl
    rw [hpool, hdigest, hgot]
    split_ifs <;> omega
  have htake : (expandBlock compress wbuf prk s (k + 1)).T.take 32 =
      (expandBlock compress wbuf prk s (k + 1)).T := List.take_of_length_le (by omega)
  have hokm : (expandBlock compress wbuf prk s (k + 1)).okm =
      patch s.okm s.got (expandBlock compress wbuf prk s (k + 1)).T := by
    rw [← htake, ← hn]
    rfl
  have hgot' : (expandBlock compress wbuf prk s (k + 1)).got = s.got + 32 := by
    rw [← hn]
    rfl
  constructor
  · exact htake.trans hnext
  · rw [← hnext, hlenT]
    rfl
  · omega
  · rw [hokm, length_patch (by omega), hlength]
  · have hfront : patch s.okm s.got (expandBlock compress wbuf prk s (k + 1)).T =
        (s.okm.take s.got ++ (expandBlock compress wbuf prk s (k + 1)).T) ++
          s.okm.drop (s.got + (expandBlock compress wbuf prk s (k + 1)).T.length) := rfl
    rw [hokm, hgot', hfront, List.take_left' (by
      rw [List.length_append, List.length_take, hlenT]
      omega), h.okm, hnext, hkdfBlocks_succ]

theorem expandBlocks_succ (prk : Bytes) (s : Expand) (k : Nat) :
    expandBlocks compress wbuf prk s (k + 1) =
      expandBlock compress wbuf prk (expandBlocks compress wbuf prk s k) (k + 1) := by
  simp [expandBlocks, List.range_succ]

include hwbuf in
theorem expandBlocks_expanded {prk : Bytes} (hprk : prk.length = 32) {k : Nat} (hk : k ≤ 4) :
    Expanded (hmac (Sha256.hashOf compress) 64 prk) k
      (expandBlocks compress wbuf prk Expand.start k) := by
  induction k with
  | zero => exact ⟨rfl, rfl, rfl, rfl, rfl⟩
  | succ k ih =>
    rw [expandBlocks_succ]
    exact (ih (by omega)).step hprk (by omega) hwbuf

/-! ## The mixing -/

include hwbuf in
theorem hkfV2Mix_eq (password : Password) {response : Bytes}
    (hresponse : response.length ≤ HKF_MAX_RESPONSE) (salt : Bytes) :
    (hkfV2Mix compress wbuf password response salt).bytes =
      hkdf (Sha256.hashOf compress) 64 32 salt (password.bytes ++ response) HKF_V2_INFO 128 := by
  have hmax : HKF_MAX_RESPONSE = 64 := rfl
  have hpassword : password.bytes.length ≤ 128 := by
    rw [length_bytes]
    exact password.length_le
  have hprk := hkfV2Hmac_eq compress hwbuf salt (show password.bytes.length < 2 ^ 31 by omega)
    (show response.length < 2 ^ 31 by omega)
  have hall := expandBlocks_expanded compress hwbuf
    (length_hmac compress salt (password.bytes ++ response)) (Nat.le_refl 4)
  have hblocks : (hkfPoolSize + HKF_HMAC_DIGEST - 1) / HKF_HMAC_DIGEST = 4 := rfl
  have hcount : (128 + 32 - 1) / 32 = 4 := rfl
  have hgot := hall.got
  have htake := hall.okm
  have hfull := hall.length
  have hexpand : (hkdfBlocks (hmac (Sha256.hashOf compress) 64
      (hmac (Sha256.hashOf compress) 64 salt (password.bytes ++ response))) HKF_V2_INFO 4).length =
      128 := length_hkdfBlocks HKF_V2_INFO (length_hmac compress _) 4
  rw [hgot, List.take_of_length_le (by omega)] at htake
  have hlength : (hkfV2Mix compress wbuf password response salt).length = 128 := rfl
  have htext : (hkfV2Mix compress wbuf password response salt).text =
      patch password.text 0
        (hkdfBlocks (hmac (Sha256.hashOf compress) 64
          (hmac (Sha256.hashOf compress) 64 salt (password.bytes ++ response))) HKF_V2_INFO 4) := by
    unfold hkfV2Mix
    dsimp only
    rw [hblocks, hprk, htake]
  rw [Password.bytes, hlength, htext, patch, List.take_zero, List.nil_append,
    List.take_left' hexpand, hkdf, hkdfExpand, hkdfExtract, hcount,
    List.take_of_length_le (Nat.le_of_eq hexpand)]

include hwbuf in
/-- Without a salt the extraction is the one that RFC 5869 has for no salt. -/
theorem hkfMixResponseIntoPasswordV2Salt_eq (password : Password) {response : Bytes}
    (hresponse : response.length ≤ HKF_MAX_RESPONSE) (salt : Bytes) :
    (hkfMixResponseIntoPasswordV2Salt compress wbuf password response salt).bytes =
      hkdf (Sha256.hashOf compress) 64 32 salt (password.bytes ++ response) HKF_V2_INFO 128 := by
  unfold hkfMixResponseIntoPasswordV2Salt
  by_cases h : salt.length > 0
  · rw [if_pos h, hkfV2Mix_eq compress hwbuf password hresponse]
  · have hnil : salt = [] := List.length_eq_zero_iff.mp (by omega)
    rw [if_neg h, hkfV2Mix_eq compress hwbuf password hresponse, hnil,
      hkdf_noSalt (Sha256.hashOf compress) 64 (show 32 ≤ 64 by decide)]
    rfl

/-- Two pairs with the same concatenation are the same, or the one is the other regrouped. -/
theorem append_eq_iff (password response password' response' : Bytes)
    (hne : ¬(password = password' ∧ response = response')) :
    password ++ response = password' ++ response' ↔
      Regrouped password response password' response' := by
  constructor
  · intro h
    rcases List.append_eq_append_iff.mp h with ⟨moved, hp, hr⟩ | ⟨moved, hp, hr⟩
    · refine ⟨moved, ?_, .inl ⟨hp, hr⟩⟩
      rintro rfl
      exact hne ⟨by simpa using hp.symm, by simpa using hr⟩
    · refine ⟨moved, ?_, .inr ⟨hp, hr⟩⟩
      rintro rfl
      exact hne ⟨by simpa using hp, by simpa using hr.symm⟩
  · rintro ⟨moved, -, ⟨hp, hr⟩ | ⟨hp, hr⟩⟩
    · rw [hp, hr, List.append_assoc]
    · rw [hp, hr, List.append_assoc]

include hwbuf in
/-- A pair that is regrouped leaves the same password under every salt. -/
theorem mix_regrouped (password password' : Password) {response response' : Bytes}
    (hresponse : response.length ≤ HKF_MAX_RESPONSE)
    (hresponse' : response'.length ≤ HKF_MAX_RESPONSE) (salt : Bytes)
    (h : Regrouped password.bytes response password'.bytes response') :
    (hkfV2Mix compress wbuf password response salt).bytes =
      (hkfV2Mix compress wbuf password' response' salt).bytes := by
  have happ : password.bytes ++ response = password'.bytes ++ response' := by
    obtain ⟨moved, -, ⟨hp, hr⟩ | ⟨hp, hr⟩⟩ := h
    · rw [hp, hr, List.append_assoc]
    · rw [hp, hr, List.append_assoc]
  rw [hkfV2Mix_eq compress hwbuf password hresponse,
    hkfV2Mix_eq compress hwbuf password' hresponse', happ]

include hwbuf in
/-- A pair is mixed as HKDF says and told apart from another exactly when the other is not the same
bytes with a part of the one password at the start of the other response. -/
theorem mix_v2_meets_iff (password password' : Password) {response response' : Bytes}
    (hresponse : response.length ≤ HKF_MAX_RESPONSE) (salt : Bytes)
    (hne : ¬(password.bytes = password'.bytes ∧ response = response')) :
    MixMeets compress wbuf password response salt password' response' ↔
      ¬Regrouped password.bytes response password'.bytes response' := by
  have hiff := append_eq_iff password.bytes response password'.bytes response' hne
  constructor
  · intro h hre
    exact h.bound (hiff.mpr hre)
  · intro hre
    exact ⟨hkfV2Mix_eq compress hwbuf password hresponse salt, rfl, fun h => hre (hiff.mp h)⟩

end

/-- Responses of one length are told apart. -/
theorem not_regrouped {password response password' response' : Bytes}
    (h : response.length = response'.length) :
    ¬Regrouped password response password' response' := by
  rintro ⟨moved, hne, ⟨-, hr⟩ | ⟨-, hr⟩⟩
  · rw [hr, List.length_append] at h
    exact hne (List.length_eq_zero_iff.mp (by omega))
  · rw [hr, List.length_append] at h
    exact hne (List.length_eq_zero_iff.mp (by omega))

/-- The passwords `a` and `ab`. -/
def passwordA : Password :=
  { text := 0x61 :: List.replicate 127 0
    length := 1
    room := by simp [maxPassword]
    length_le := by decide }

theorem two_le_maxPassword : 2 ≤ maxPassword := by decide

def passwordAB : Password :=
  { text := 0x61 :: 0x62 :: List.replicate 126 0
    length := 2
    room := by simp [maxPassword]
    length_le := two_le_maxPassword }

/-- The same response to two passwords. -/
theorem mix_v2_meets_iff_ab :
    MixMeets (fun h _ => h) (List.replicate 64 0) passwordA [0x63] [] passwordAB [0x63] :=
  (mix_v2_meets_iff _ (by decide) passwordA passwordAB (by decide) [] (by decide)).mpr
    (not_regrouped rfl)

/-- `a` with the response `bc` and `ab` with the response `c` are fed alike and mixed alike. -/
theorem a_bc_is_ab_c :
    ¬MixMeets (fun h _ => h) (List.replicate 64 0) passwordA [0x62, 0x63] [] passwordAB [0x63] ∧
      (hkfV2Mix (fun h _ => h) (List.replicate 64 0) passwordA [0x62, 0x63] []).bytes =
        (hkfV2Mix (fun h _ => h) (List.replicate 64 0) passwordAB [0x63] []).bytes := by
  have hre : Regrouped passwordA.bytes [0x62, 0x63] passwordAB.bytes [0x63] :=
    ⟨[0x62], by decide, .inl ⟨rfl, rfl⟩⟩
  refine ⟨fun h => h.bound rfl, ?_⟩
  exact mix_regrouped _ (by decide) passwordA passwordAB (by decide) (by decide) [] hre

end HkfV2
end VeraCrypt
