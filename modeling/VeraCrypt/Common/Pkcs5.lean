import VeraCrypt.Crypto.Sha256Stream
import VeraCrypt.Lib.Pbkdf2

/-!
# PBKDF2 with SHA-256 (`Common/Pkcs5.c`)

`derive_key_sha256` takes the two padded keys through the hash once, and each HMAC starts from a
copy of what that left. The buffer `k` of the context is the padded key, then the salt with the
block number, then each `U` in place. The compression function may be any. `*pAbortKeyDerivation`
is what a reader finds there, read by read; a null pointer is one that finds nothing.

The derived key is that of RFC 8018 (`derive_key_sha256_eq`). The code for the boot loader is left
out.
-/

set_option autoImplicit false

namespace VeraCrypt
namespace Pkcs5

open Lib Sha256

structure HmacSha256Ctx where
  inner : Ctx
  outer : Ctx
  k : Bytes
  u : Bytes

/-- What the stack holds when a derivation starts. -/
structure Stack where
  k : Bytes
  u : Bytes
  wbuf : Bytes
  length_k : k.length = 68
  length_u : u.length = 32
  length_wbuf : wbuf.length = 64

/-- `bswap_32` -/
def bswap32 (b : UInt32) : UInt32 := UInt32.ofNat (beNat (leBytes 4 b.toNat))

section

variable (compress : Words → Bytes → Words)

/-- `hmac_sha256_internal` on a buffer `d`, in place. -/
def hmacSha256Internal (d : Bytes) (ld : Nat) (inner outer : Ctx) : Bytes :=
  let ctx := sha256Hash compress (d.take ld) inner
  let d := patch d 0 (sha256End compress ctx)
  let ctx := sha256Hash compress (d.take 32) outer
  patch d 0 (sha256End compress ctx)

/-- The remaining iterations of `derive_u_sha256`, with the number of reads of the flag. -/
def remaining (abort : Nat → Bool) : Nat → HmacSha256Ctx → Nat → HmacSha256Ctx × Nat
  | 0, hmac, t => (hmac, t)
  | 1, hmac, t => (hmac, t)
  | c + 2, hmac, t =>
    if (c + 2) % 1024 = 0 ∧ abort t then (hmac, t + 1)
    else
      let t := if (c + 2) % 1024 = 0 then t + 1 else t
      let k := hmacSha256Internal compress hmac.k 32 hmac.inner hmac.outer
      remaining abort (c + 1) { hmac with k := k, u := xorOctets hmac.u (k.take 32) } t

/-- `derive_u_sha256` -/
def deriveUSha256 (abort : Nat → Bool) (salt : Bytes) (iterations b : Nat) (hmac : HmacSha256Ctx)
    (t : Nat) : HmacSha256Ctx × Nat :=
  let k := patch hmac.k 0 salt
  let b := bswap32 (UInt32.ofNat b)
  let k := patch k salt.length (leBytes 4 b.toNat)
  let k := hmacSha256Internal compress k (salt.length + 4) hmac.inner hmac.outer
  remaining compress abort iterations { hmac with k := k, u := patch hmac.u 0 (k.take 32) } t

/-- The first `n` blocks from block `b` on: none where the derivation was cancelled. -/
def firstBlocks (abort : Nat → Bool) (salt : Bytes) (iterations : Nat) :
    Nat → Nat → HmacSha256Ctx → Nat → Bytes → Option (HmacSha256Ctx × Nat × Bytes)
  | 0, _, hmac, t, dk => some (hmac, t, dk)
  | n + 1, b, hmac, t, dk =>
    let (hmac, t) := deriveUSha256 compress abort salt iterations b hmac t
    if abort t then none
    else firstBlocks abort salt iterations n (b + 1) hmac (t + 1) (dk ++ hmac.u)

/-- `pwd`, hashed if it is longer than a block of the hash. -/
def shortKey (wbuf pwd : Bytes) : Bytes :=
  if pwd.length > 64 then sha256 compress wbuf pwd else pwd

/-- A padded key in `buf`, taken through the hash. -/
def padKey (wbuf buf key : Bytes) (pad : UInt8) : Bytes × Ctx :=
  let buf := patch buf 0 (key.map (· ^^^ pad))
  let buf := patch buf key.length (List.replicate (64 - key.length) pad)
  (buf, sha256Hash compress (buf.take 64) (sha256Begin wbuf))

/-- `derive_key_sha256`: the bytes of `dk`, none where the derivation was cancelled. -/
def deriveKeySha256 (stack : Stack) (abort : Nat → Bool) (pwd salt : Bytes)
    (iterations dklen : Nat) : Option Bytes := do
  let key := shortKey compress stack.wbuf pwd
  let l := if dklen % 32 ≠ 0 then 1 + dklen / 32 else dklen / 32
  -- `dklen - (l - 1) * 32` of integers
  let r := dklen + 32 - l * 32
  let (buf, inner) := padKey compress stack.wbuf stack.k key 0x36
  let (buf, outer) := padKey compress stack.wbuf buf key 0x5c
  let (hmac, t, dk) ←
    firstBlocks compress abort salt iterations (l - 1) 1 ⟨inner, outer, buf, stack.u⟩ 0 []
  let (hmac, t) := deriveUSha256 compress abort salt iterations (1 + (l - 1)) hmac t
  if abort t then none else some (dk ++ hmac.u.take r)

/-! ## The keys -/

theorem shortKey_eq (stack : Stack) (pwd : Bytes) :
    shortKey compress stack.wbuf pwd ++
        List.replicate (64 - (shortKey compress stack.wbuf pwd).length) 0 =
      hmacKey (hashOf compress) 64 pwd := by
  unfold shortKey hmacKey
  rw [sha256_eq compress stack.length_wbuf]

theorem length_shortKey (stack : Stack) (pwd : Bytes) :
    (shortKey compress stack.wbuf pwd).length ≤ 64 := by
  unfold shortKey
  split_ifs with h
  · rw [sha256_eq compress stack.length_wbuf, length_hashOf]
    decide
  · omega

/-- A padded key is in the buffer, and in the context behind it. -/
theorem padKey_eq {wbuf buf key : Bytes} (hwbuf : wbuf.length = 64) (hbuf : buf.length = 68)
    (hkey : key.length ≤ 64) (pad : UInt8) :
    (padKey compress wbuf buf key pad).1.length = 68 ∧
      Absorbed compress ((key ++ List.replicate (64 - key.length) 0).map (· ^^^ pad))
        (padKey compress wbuf buf key pad).2 := by
  have hpad : patch (patch buf 0 (key.map (· ^^^ pad))) key.length
      (List.replicate (64 - key.length) pad) =
      patch buf 0 (key.map (· ^^^ pad) ++ List.replicate (64 - key.length) pad) :=
    patch_patch_adjacent (by simp; omega) (by simp)
  have hmap : (key ++ List.replicate (64 - key.length) 0).map (· ^^^ pad) =
      key.map (· ^^^ pad) ++ List.replicate (64 - key.length) pad := by
    simp
  have hlen : (key.map (· ^^^ pad) ++ List.replicate (64 - key.length) pad).length = 64 := by
    simp
    omega
  unfold padKey
  dsimp only
  rw [hpad, hmap]
  generalize key.map (· ^^^ pad) ++ List.replicate (64 - key.length) pad = block at hlen ⊢
  refine ⟨by rw [length_patch (by omega), hbuf], ?_⟩
  have htake : (patch buf 0 block).take 64 = block := by
    simp [patch, ← hlen]
  rw [htake]
  exact absorbed_hash compress (absorbed_begin compress hwbuf) rfl block

/-! ## One HMAC -/

/-- What the two contexts hold for a key. -/
structure Keyed (pwd : Bytes) (hmac : HmacSha256Ctx) : Prop where
  inner : Absorbed compress ((hmacKey (hashOf compress) 64 pwd).map (· ^^^ 0x36)) hmac.inner
  outer : Absorbed compress ((hmacKey (hashOf compress) 64 pwd).map (· ^^^ 0x5c)) hmac.outer
  length_k : hmac.k.length = 68
  length_u : hmac.u.length = 32

theorem length_hmacKey (pwd : Bytes) : (hmacKey (hashOf compress) 64 pwd).length = 64 := by
  unfold hmacKey
  have hlen := length_hashOf compress pwd
  dsimp only
  split_ifs with h <;> simp <;> omega

/-- Where no message is longer than the length field, the HMAC is the one over the standard hash. -/
theorem hmac_hashOf {pwd : Bytes} (hpwd : pwd.length < 2 ^ 29) {m : Bytes} (hm : m.length ≤ 68) :
    Lib.hmac (hashOf compress) 64 pwd m = Lib.hmac (sha256Fips compress) 64 pwd m := by
  have hkey : hmacKey (hashOf compress) 64 pwd = hmacKey (sha256Fips compress) 64 pwd := by
    unfold hmacKey
    rw [hashOf_eq_sha256Fips compress hpwd]
  have hlen := length_hmacKey compress pwd
  unfold Lib.hmac
  dsimp only
  rw [← hkey]
  generalize hmacKey (hashOf compress) 64 pwd = key at hlen ⊢
  have hinner : hashOf compress (key.map (· ^^^ 0x36) ++ m) =
      sha256Fips compress (key.map (· ^^^ 0x36) ++ m) := by
    apply hashOf_eq_sha256Fips
    rw [List.length_append, List.length_map]
    omega
  have hdigest := length_hashOf compress (key.map (· ^^^ 0x36) ++ m)
  rw [← hinner]
  apply hashOf_eq_sha256Fips
  rw [List.length_append, List.length_map, hdigest]
  omega

theorem hmacSha256Internal_eq {pwd : Bytes} {hmac : HmacSha256Ctx} (h : Keyed compress pwd hmac)
    {d : Bytes} (hd : 32 ≤ d.length) (ld : Nat) :
    (hmacSha256Internal compress d ld hmac.inner hmac.outer).length = d.length ∧
      (hmacSha256Internal compress d ld hmac.inner hmac.outer).take 32 =
        Lib.hmac (hashOf compress) 64 pwd (d.take ld) := by
  have hpad : ∀ pad : UInt8,
      ((hmacKey (hashOf compress) 64 pwd).map (· ^^^ pad)).length % 64 = 0 := by
    intro pad
    rw [List.length_map, length_hmacKey]
  have hin := sha256End_eq compress (absorbed_hash compress h.inner (hpad 0x36) (d.take ld))
  have htake : ∀ m : Bytes, (patch d 0 (hashOf compress m)).take 32 = hashOf compress m := by
    intro m
    have hlen := length_hashOf compress m
    simp [patch, ← hlen]
  have hout := fun m => sha256End_eq compress
    (absorbed_hash compress h.outer (hpad 0x5c) (hashOf compress m))
  unfold hmacSha256Internal
  dsimp only
  rw [hin, htake, hout, patch_patch_same (by rw [length_hashOf]; omega) (by
    rw [length_hashOf, length_hashOf])]
  exact ⟨length_patch (by rw [length_hashOf]; omega), htake _⟩

/-! ## A block of the derived key -/

/-- The block number in the bytes of the swapped word. -/
theorem leBytes_bswap32 (b : Nat) : leBytes 4 (bswap32 (UInt32.ofNat b)).toNat = beBytes 4 b := by
  have hword : (UInt32.ofNat b).toNat = b % 256 ^ 4 := UInt32.toNat_ofNat'
  have hlt := beNat_lt (leBytes 4 (UInt32.ofNat b).toNat)
  rw [length_leBytes] at hlt
  have hswap : (bswap32 (UInt32.ofNat b)).toNat = beNat (leBytes 4 (UInt32.ofNat b).toNat) := by
    rw [bswap32, UInt32.toNat_ofNat']
    exact Nat.mod_eq_of_lt hlt
  have hmod : leBytes 4 (b % 256 ^ 4) = leBytes 4 b := by
    apply leNat_inj (by simp)
    rw [leNat_leBytes, leNat_leBytes, Nat.mod_mod]
  have hrev : (beBytes 4 (beNat (leBytes 4 b))).reverse = (leBytes 4 b).reverse := by
    rw [beBytes_beNat (length_leBytes 4 b)]
  rw [hswap, hword, hmod, beBytes, ← hrev, beBytes, List.reverse_reverse]

variable {compress} {pwd : Bytes} {abort : Nat → Bool}

/-- The function that the derivation iterates. -/
abbrev prf (compress : Words → Bytes → Words) (pwd : Bytes) : Bytes → Bytes :=
  Lib.hmac (hashOf compress) 64 pwd

/-- The flag was found set in one of the reads from `t` to `t'`. -/
def Raised (abort : Nat → Bool) (t t' : Nat) : Prop := ∃ i, t ≤ i ∧ i < t' ∧ abort i = true

theorem Raised.mono {t t' s s' : Nat} (h : Raised abort t t') (hs : s ≤ t) (hs' : t' ≤ s') :
    Raised abort s s' := by
  obtain ⟨i, hi, hi', ha⟩ := h
  exact ⟨i, by omega, by omega, ha⟩

variable (abort) in
/-- The remaining iterations: the chain goes on in `k`, and `u` takes each of its values. -/
theorem remaining_eq (c : Nat) {hmac : HmacSha256Ctx} (h : Keyed compress pwd hmac) (t : Nat) :
    Keyed compress pwd (remaining compress abort c hmac t).1 ∧
      t ≤ (remaining compress abort c hmac t).2 ∧
      (Raised abort t (remaining compress abort c hmac t).2 ∨
        (remaining compress abort c hmac t).1.u =
          (List.range (c - 1)).foldl
            (fun u j => xorOctets u ((prf compress pwd)^[j + 1] (hmac.k.take 32))) hmac.u) := by
  induction c generalizing hmac t with
  | zero => exact ⟨h, Nat.le_refl t, .inr rfl⟩
  | succ c ih =>
    cases c with
    | zero => exact ⟨h, Nat.le_refl t, .inr rfl⟩
    | succ c =>
      obtain ⟨hlen, hvalue⟩ := hmacSha256Internal_eq compress h (by rw [h.length_k]; decide) 32
      rw [remaining]
      by_cases habort : (c + 2) % 1024 = 0 ∧ abort t = true
      · rw [if_pos habort]
        exact ⟨h, Nat.le_succ t, .inl ⟨t, Nat.le_refl t, Nat.lt_succ_self t, habort.2⟩⟩
      · rw [if_neg habort]
        dsimp only
        generalize hmacSha256Internal compress hmac.k 32 hmac.inner hmac.outer = k at hlen hvalue ⊢
        have hu : (xorOctets hmac.u (k.take 32)).length = 32 := by
          rw [length_xorOctets, h.length_u]
          rw [h.length_u, List.length_take, hlen, h.length_k]
          rfl
        have hnext : Keyed compress pwd { hmac with k := k, u := xorOctets hmac.u (k.take 32) } :=
          { inner := h.inner
            outer := h.outer
            length_k := by rw [hlen, h.length_k]
            length_u := hu }
        have htime : t ≤ (if (c + 2) % 1024 = 0 then t + 1 else t) := by split_ifs <;> omega
        obtain ⟨hkeyed, hle, hresult⟩ := ih hnext (if (c + 2) % 1024 = 0 then t + 1 else t)
        refine ⟨hkeyed, htime.trans hle, ?_⟩
        rcases hresult with hraised | hdone
        · exact .inl (hraised.mono htime (Nat.le_refl _))
        · -- the chain from `k` is the chain from what was there before, one step on
          have hchain := foldl_chain (prf compress pwd) c (hmac.k.take 32) hmac.u
          refine .inr ?_
          rw [hdone]
          show _ = (List.range (c + 1)).foldl _ _
          have hprf : prf compress pwd (hmac.k.take 32) = k.take 32 := hvalue.symm
          rw [hchain, hprf]
          rfl

variable (abort) in
theorem deriveUSha256_eq {salt : Bytes} (hsalt : salt.length ≤ 64) (iterations b : Nat)
    {hmac : HmacSha256Ctx} (h : Keyed compress pwd hmac) (t : Nat) :
    Keyed compress pwd (deriveUSha256 compress abort salt iterations b hmac t).1 ∧
      t ≤ (deriveUSha256 compress abort salt iterations b hmac t).2 ∧
      (Raised abort t (deriveUSha256 compress abort salt iterations b hmac t).2 ∨
        (deriveUSha256 compress abort salt iterations b hmac t).1.u =
          pbkdf2Block (prf compress pwd) salt iterations b) := by
  have hk := h.length_k
  have hbytes := leBytes_bswap32 b
  have hfirst : patch (patch hmac.k 0 salt) salt.length (beBytes 4 b) =
      patch hmac.k 0 (salt ++ beBytes 4 b) :=
    patch_patch_adjacent (by omega) (by simp)
  have hlenfirst : (patch hmac.k 0 (salt ++ beBytes 4 b)).length = 68 := by
    rw [length_patch (by simp; omega), hk]
  have htake : (patch hmac.k 0 (salt ++ beBytes 4 b)).take (salt.length + 4) =
      salt ++ beBytes 4 b := by
    have hfront : ∀ block : Bytes, (patch hmac.k 0 block).take block.length = block := by
      intro block
      simp [patch]
    have hl : salt.length + 4 = (salt ++ beBytes 4 b).length := by simp
    rw [hl, hfront]
  obtain ⟨hlen, hvalue⟩ := hmacSha256Internal_eq compress h
    (by rw [hlenfirst]; decide : 32 ≤ (patch hmac.k 0 (salt ++ beBytes 4 b)).length)
    (salt.length + 4)
  rw [htake] at hvalue
  unfold deriveUSha256
  dsimp only
  rw [hbytes, hfirst]
  generalize hmacSha256Internal compress (patch hmac.k 0 (salt ++ beBytes 4 b)) (salt.length + 4)
    hmac.inner hmac.outer = k at hlen hvalue ⊢
  have hklen : (k.take 32).length = 32 := by
    rw [List.length_take, hlen, hlenfirst]
    rfl
  have hu : patch hmac.u 0 (k.take 32) = k.take 32 := by
    have hend : hmac.u.drop (0 + (k.take 32).length) = [] := by
      apply List.drop_eq_nil_of_le
      rw [h.length_u, hklen]
    rw [patch, hend]
    simp
  rw [hu]
  have hnext : Keyed compress pwd { hmac with k := k, u := k.take 32 } :=
    { inner := h.inner
      outer := h.outer
      length_k := by rw [hlen, hlenfirst]
      length_u := hklen }
  obtain ⟨hkeyed, hle, hresult⟩ := remaining_eq abort iterations hnext t
  refine ⟨hkeyed, hle, ?_⟩
  rcases hresult with hraised | hdone
  · exact .inl hraised
  · refine .inr ?_
    have hprf : prf compress pwd (salt ++ beBytes 4 b) = k.take 32 := hvalue.symm
    rw [hdone, pbkdf2Block, hprf]

/-! ## The derived key -/

/-- A flag that was raised is raised from then on. -/
theorem Raised.later (hstay : ∀ i, abort i = true → abort (i + 1) = true) {t t' : Nat}
    (h : Raised abort t t') : abort t' = true := by
  obtain ⟨i, -, hi, ha⟩ := h
  obtain ⟨d, rfl⟩ : ∃ d, t' = i + d := ⟨t' - i, by omega⟩
  clear hi
  induction d with
  | zero => exact ha
  | succ d ih => exact hstay (i + d) ih

theorem firstBlocks_eq (hstay : ∀ i, abort i = true → abort (i + 1) = true) {salt : Bytes}
    (hsalt : salt.length ≤ 64) (iterations n b : Nat) {hmac : HmacSha256Ctx}
    (h : Keyed compress pwd hmac) (t : Nat) (dk : Bytes) :
    match firstBlocks compress abort salt iterations n b hmac t dk with
    | none => ∃ i, abort i = true
    | some (hmac', _, dk') =>
      Keyed compress pwd hmac' ∧
        dk' = dk ++ (List.range n).flatMap
          (fun i => pbkdf2Block (prf compress pwd) salt iterations (b + i)) := by
  induction n generalizing hmac b t dk with
  | zero => exact ⟨h, by simp⟩
  | succ n ih =>
    obtain ⟨hkeyed, -, hresult⟩ := deriveUSha256_eq abort hsalt iterations b h t
    rw [firstBlocks]
    generalize deriveUSha256 compress abort salt iterations b hmac t = result at hkeyed hresult ⊢
    obtain ⟨hmac', t'⟩ := result
    dsimp only at hkeyed hresult ⊢
    by_cases habort : abort t' = true
    · rw [if_pos habort]
      exact ⟨t', habort⟩
    · rw [if_neg habort]
      have hu := hresult.resolve_left (fun hr => habort (hr.later hstay))
      have hnext := ih (b + 1) hkeyed (t' + 1) (dk ++ hmac'.u)
      cases hrest : firstBlocks compress abort salt iterations n (b + 1) hmac' (t' + 1)
          (dk ++ hmac'.u) with
      | none =>
        rw [hrest] at hnext
        exact hnext
      | some rest =>
        rw [hrest] at hnext
        obtain ⟨hk, hdk⟩ := hnext
        refine ⟨hk, ?_⟩
        rw [hdk, hu, List.range_succ_eq_map, List.flatMap_cons, List.flatMap_map, List.append_assoc]
        simp only [Nat.add_zero, Nat.succ_eq_add_one, Nat.add_assoc, Nat.add_comm 1]

theorem length_prf (compress : Words → Bytes → Words) (pwd m : Bytes) :
    (prf compress pwd m).length = 32 := length_hashOf compress _

/-- The contexts before the first block. -/
theorem keyed_init (compress : Words → Bytes → Words) (stack : Stack) (pwd : Bytes) :
    let key := shortKey compress stack.wbuf pwd
    let inner := padKey compress stack.wbuf stack.k key 0x36
    let outer := padKey compress stack.wbuf inner.1 key 0x5c
    Keyed compress pwd ⟨inner.2, outer.2, outer.1, stack.u⟩ := by
  have hkey := shortKey_eq compress stack pwd
  have hlen := length_shortKey compress stack pwd
  obtain ⟨hbuf, hinner⟩ := padKey_eq compress stack.length_wbuf stack.length_k hlen 0x36
  obtain ⟨hbuf', houter⟩ := padKey_eq compress stack.length_wbuf hbuf hlen 0x5c
  rw [hkey] at hinner houter
  exact { inner := hinner, outer := houter, length_k := hbuf', length_u := stack.length_u }

/-- The number of blocks, and what is taken of the last. -/
theorem block_count {dklen : Nat} (h : 1 ≤ dklen) :
    ∃ n, (if dklen % 32 ≠ 0 then 1 + dklen / 32 else dklen / 32) = n + 1 ∧
      (dklen + 32 - 1) / 32 = n + 1 ∧ dklen + 32 - (n + 1) * 32 = dklen - n * 32 := by
  by_cases hmod : dklen % 32 ≠ 0
  · rw [if_pos hmod]
    exact ⟨dklen / 32, by omega, by omega, by omega⟩
  · rw [if_neg hmod]
    exact ⟨dklen / 32 - 1, by omega, by omega, by omega⟩

variable (compress pwd) in
theorem deriveKeySha256_result (stack : Stack)
    (hstay : ∀ i, abort i = true → abort (i + 1) = true) {salt : Bytes} (hsalt : salt.length ≤ 64)
    (iterations : Nat) {dklen : Nat} (hdk : 1 ≤ dklen) :
    match deriveKeySha256 compress stack abort pwd salt iterations dklen with
    | none => ∃ i, abort i = true
    | some dk => dk = pbkdf2 (prf compress pwd) 32 salt iterations dklen := by
  obtain ⟨n, hl, hcount, hr⟩ := block_count hdk
  have hkeyed := keyed_init compress stack pwd
  have hspec := pbkdf2_eq (by decide) (length_prf compress pwd) salt
    iterations hcount
  unfold deriveKeySha256
  dsimp only at hkeyed ⊢
  rw [hl, hr, Nat.add_sub_cancel]
  have hblocks := firstBlocks_eq hstay hsalt iterations n 1 hkeyed 0 []
  generalize firstBlocks compress abort salt iterations n 1 _ 0 [] = result at hblocks ⊢
  cases result with
  | none => exact hblocks
  | some result =>
    obtain ⟨hmac, t, dk⟩ := result
    obtain ⟨hk, hdk'⟩ := hblocks
    obtain ⟨-, -, hlast⟩ := deriveUSha256_eq abort hsalt iterations (1 + n) hk t
    simp only [Option.bind_eq_bind, Option.bind_some]
    by_cases habort : abort (deriveUSha256 compress abort salt iterations (1 + n) hmac t).2 = true
    · rw [if_pos habort]
      exact ⟨_, habort⟩
    · rw [if_neg habort]
      have hu := hlast.resolve_left (fun hraised => habort (hraised.later hstay))
      show dk ++ _ = _
      rw [hspec, hdk', hu, List.nil_append, Nat.add_comm 1 n]
      simp only [Nat.add_comm 1]

/-- The derived key is that of RFC 8018 for HMAC over the hash of the code, whatever the compression
function is: a derivation that nobody cancels returns it, and where the flag stays raised once it is
raised, no derivation returns another key. Up to 2^29 bytes of password that hash is the one of the
standard. -/
theorem derive_key_sha256_eq (compress : Words → Bytes → Words) (stack : Stack)
    (abort : Nat → Bool) (pwd : Bytes) {salt : Bytes} (hsalt : salt.length ≤ 64) (iterations : Nat)
    {dklen : Nat} (hdk : 1 ≤ dklen) :
    ((∀ i, abort i = false) →
        deriveKeySha256 compress stack abort pwd salt iterations dklen =
          some (pbkdf2 (Lib.hmac (hashOf compress) 64 pwd) 32 salt iterations dklen)) ∧
      ((∀ i, abort i = true → abort (i + 1) = true) →
        ∀ dk, deriveKeySha256 compress stack abort pwd salt iterations dklen = some dk →
          dk = pbkdf2 (Lib.hmac (hashOf compress) 64 pwd) 32 salt iterations dklen) ∧
      (pwd.length < 2 ^ 29 →
        pbkdf2 (Lib.hmac (hashOf compress) 64 pwd) 32 salt iterations dklen =
          pbkdf2 (Lib.hmac (sha256Fips compress) 64 pwd) 32 salt iterations dklen) := by
  refine ⟨?_, ?_, ?_⟩
  · intro hnever
    have hstay : ∀ i, abort i = true → abort (i + 1) = true := by
      intro i hi
      rw [hnever i] at hi
      cases hi
    have hresult := deriveKeySha256_result compress pwd stack hstay hsalt iterations hdk
    cases h : deriveKeySha256 compress stack abort pwd salt iterations dklen with
    | none =>
      rw [h] at hresult
      obtain ⟨i, hi⟩ := hresult
      rw [hnever i] at hi
      cases hi
    | some dk =>
      rw [h] at hresult
      exact congrArg some hresult
  · intro hstay dk h
    have hresult := deriveKeySha256_result compress pwd stack hstay hsalt iterations hdk
    rw [h] at hresult
    exact hresult
  · intro hpwd
    refine pbkdf2_congr (fun m => length_hashOf compress _) ?_ iterations dklen
    intro m hm
    exact hmac_hashOf compress hpwd (hm.trans (by omega))

/-- Two blocks and a half of a key, with nobody to cancel it. -/
theorem derive_key_sha256_eq_demo :
    let stack : Stack :=
      ⟨List.replicate 68 0, List.replicate 32 0, List.replicate 64 0, rfl, rfl, rfl⟩
    let compress : Words → Bytes → Words := fun h m => h.map (· + UInt32.ofNat m.length)
    deriveKeySha256 compress stack (fun _ => false) [1, 2] [3] 2 80 =
      some (pbkdf2 (Lib.hmac (hashOf compress) 64 [1, 2]) 32 [3] 2 80) :=
  (derive_key_sha256_eq _ _ (fun _ => false) [1, 2] (by decide) 2 (by decide)).1 (fun _ => rfl)

end

end Pkcs5
end VeraCrypt
