import VeraCrypt.Crypto.Primitives
import VeraCrypt.Lib.ArrayLoops
import VeraCrypt.Lib.Balloon
import VeraCrypt.Lib.Region

/-!
# The Balloon key derivation (`derive_key_balloon` in `Common/Pkcs5.c`)

The function fills a buffer of blocks and mixes it in place, with one counter for the three kinds of
hash calls. A block outside of the buffer is `none`. The buffer always holds a table of the
documented function (`Holds`): after Expand (`expand_spec`), after each round (`mixRound_spec`) and
at the end (`extract_spec`). A call keeps its contract unless it is refused before there is a buffer
(`deriveKeyBalloon_iff`).
-/

set_option autoImplicit false

namespace VeraCrypt
namespace Pkcs5Balloon

open Lib

/-! ## The functions of the source -/

/-- The buffer of blocks and `cnt`. -/
structure State where
  buf : List Bytes
  cnt : UInt64

/-- `balloon_le64` -/
def balloonLe64 (x : UInt64) : Bytes := leBytes 8 x.toNat

def setBlock (buf : List Bytes) (m : Nat) (block : Bytes) : Option (List Bytes) :=
  if m < buf.length then some (buf.set m block) else none

section

variable (P : Primitives)

/-- `balloon_h`: one SHA-256 over the parts. -/
def balloonH (parts : List Bytes) : Bytes := P.sha256 parts.flatten

/-- The body of the loop of Expand. -/
def expandBlock (s : State) (m : Nat) : Option State := do
  let prev ← s.buf[m - 1]?
  let buf ← setBlock s.buf m (balloonH P [balloonLe64 s.cnt, prev])
  pure { buf := buf, cnt := s.cnt + 1 }

def expand (pwd salt : Bytes) (n : UInt32) (buf : List Bytes) : Option State := do
  let buf ← setBlock buf 0 (balloonH P [balloonLe64 0, pwd, salt])
  (List.range (n.toNat - 1)).foldlM (fun s k => expandBlock P s (k + 1)) { buf := buf, cnt := 1 }

/-- One of the `BALLOON_DELTA` dependencies. -/
def mixDelta (salt : Bytes) (n : UInt32) (t m : Nat) (s : State) (i : Nat) : Option State := do
  let idx := balloonH P [balloonLe64 s.cnt, balloonLe64 (UInt64.ofNat t),
    balloonLe64 (UInt64.ofNat m), balloonLe64 (UInt64.ofNat i), salt]
  let cnt := s.cnt + 1
  let other := UInt64.ofNat (leNat (idx.take 8)) % n.toUInt64
  let cur ← s.buf[m]?
  let dep ← s.buf[other.toNat]?
  let buf ← setBlock s.buf m (balloonH P [balloonLe64 cnt, cur, dep])
  pure { buf := buf, cnt := cnt + 1 }

/-- The body of the loop of Mix over the blocks. -/
def mixBlock (salt : Bytes) (n : UInt32) (t : Nat) (s : State) (m : Nat) : Option State := do
  let prev ← s.buf[((UInt32.ofNat m + n - 1) % n).toNat]?
  let cur ← s.buf[m]?
  let buf ← setBlock s.buf m (balloonH P [balloonLe64 s.cnt, prev, cur])
  (List.range 3).foldlM (mixDelta P salt n t m) { buf := buf, cnt := s.cnt + 1 }

def mixRound (salt : Bytes) (n : UInt32) (t : Nat) (s : State) : Option State :=
  (List.range n.toNat).foldlM (mixBlock P salt n t) s

/-- `k` rounds of Mix from round `t` on; an inner `none` is a derivation that was cancelled. -/
def mix (salt : Bytes) (n : UInt32) (abort : Nat → Bool) : Nat → Nat → State → Option (Option State)
  | 0, _, s => some (some s)
  | k + 1, t, s =>
    if abort t then some none
    else (mixRound P salt n t s).bind (mix salt n abort k (t + 1))

/-- The loop over the blocks of a long key. -/
def expandKey (K salt : Bytes) (dklen off blk : Nat) (dk : Bytes) : Option Bytes :=
  if off < dklen then
    let nb := if dklen - off < 32 then dklen - off else 32
    let blkout := balloonH P [K, beBytes 4 blk, salt]
    (store dk off (blkout.take nb)).bind (expandKey K salt dklen (off + nb) (blk + 1))
  else some dk
termination_by dklen - off
decreasing_by
  split
  · omega
  · omega

/-- The bytes of `dk` from the last block. -/
def extract (n : UInt32) (salt : Bytes) (dk : Bytes) (dklen : Nat) (s : State) : Option Bytes := do
  let K ← s.buf[n.toNat - 1]?
  if dklen ≤ 32 then store dk 0 (K.take dklen) else expandKey P K salt dklen 0 1 dk

/-- The check at the start. -/
def BadParams (pwdLen saltLen : Int) (tcost spaceKib : UInt32) (dklen : Int) : Prop :=
  dklen ≤ 0 ∨ tcost = 0 ∨ spaceKib = 0 ∨ 4194304 < spaceKib ∨ pwdLen < 0 ∨ saltLen < 0

instance (pwdLen saltLen : Int) (tcost spaceKib : UInt32) (dklen : Int) :
    Decidable (BadParams pwdLen saltLen tcost spaceKib dklen) :=
  inferInstanceAs (Decidable (_ ∨ _))

/-- `derive_key_balloon`: the return value and `dk` afterwards. `tcalloc` is the allocator, whose
    blocks hold anything, and `abort t` is the test of the flag in round `t`. -/
def deriveKeyBalloon (tcalloc : (n : Nat) → Option (Vector Bytes n)) (abort : Nat → Bool)
    (pwd : Bytes) (pwdLen : Int) (salt : Bytes) (saltLen : Int) (tcost spaceKib : UInt32)
    (dk : Bytes) (dklen : Int) : Option (Int × Bytes) :=
  if BadParams pwdLen saltLen tcost spaceKib dklen then some (-1, dk)
  else
    let n := spaceKib * (1024 / 32)
    match tcalloc n.toNat with
    | none => some (-1, dk)
    | some buf => do
      let pwd := pwd.take pwdLen.toNat
      let salt := salt.take saltLen.toNat
      let s ← expand P pwd salt n buf.toList
      let mixed ← mix P salt n abort tcost.toNat 0 s
      match mixed with
      | none => do
        let dk ← store dk 0 (List.replicate dklen.toNat 0)
        pure (-2, dk)
      | some s => do
        let dk ← extract P n salt dk dklen.toNat s
        pure (0, dk)

/-! ## The buffer -/

/-- The blocks below `k` are those of `B`, and `c` hash calls have been numbered. -/
structure Holds (n k : Nat) (B : Nat → Bytes) (c : Nat) (s : State) : Prop where
  length : s.buf.length = n
  cnt : s.cnt = UInt64.ofNat c
  blocks : ∀ j < k, s.buf[j]? = some (B j)

theorem balloonLe64_ofNat (v : Nat) : balloonLe64 (UInt64.ofNat v) = Balloon.le64 v := by
  apply leNat_inj
  · rw [balloonLe64, Balloon.le64, length_leBytes, length_leBytes]
  · have hpow : (256 : Nat) ^ 8 = 2 ^ 64 := by decide
    rw [balloonLe64, Balloon.le64, leNat_leBytes, leNat_leBytes, UInt64.toNat_ofNat', hpow,
      Nat.mod_mod]

section
variable {n k : Nat} {B : Nat → Bytes} {c : Nat} {s : State}

/-- The next hash call takes the next number. -/
theorem Holds.cnt_succ (h : Holds n k B c s) (d : Nat) :
    s.cnt + UInt64.ofNat d = UInt64.ofNat (c + d) := by
  rw [h.cnt, UInt64.ofNat_add]

theorem getElem?_setBlock (buf : List Bytes) {m : Nat} (hm : m < buf.length) (block : Bytes)
    (j : Nat) : (buf.set m block)[j]? = if m = j then some block else buf[j]? := by
  rw [List.getElem?_set]
  by_cases hj : m = j
  · rw [if_pos hj, if_pos hj, if_pos hm]
  · rw [if_neg hj, if_neg hj]

/-- The next block of the table is filled in. -/
theorem Holds.fill (h : Holds n k B c s) (hk : k < n) (c' : Nat) :
    ∃ buf, setBlock s.buf k (B k) = some buf ∧ Holds n (k + 1) B c' ⟨buf, UInt64.ofNat c'⟩ := by
  have hlt : k < s.buf.length := by
    rw [h.length]
    exact hk
  refine ⟨s.buf.set k (B k), if_pos hlt, by rw [List.length_set, h.length], rfl, ?_⟩
  intro j hj
  rw [getElem?_setBlock _ hlt]
  by_cases hjk : k = j
  · rw [if_pos hjk, hjk]
  · rw [if_neg hjk, h.blocks j (by omega)]

/-- A block is overwritten. -/
theorem Holds.update (h : Holds n n B c s) {m : Nat} (hm : m < n) (block : Bytes) (c' : Nat) :
    ∃ buf, setBlock s.buf m block = some buf ∧
      Holds n n (Function.update B m block) c' ⟨buf, UInt64.ofNat c'⟩ := by
  have hlt : m < s.buf.length := by
    rw [h.length]
    exact hm
  refine ⟨s.buf.set m block, if_pos hlt, by rw [List.length_set, h.length], rfl, ?_⟩
  intro j hj
  rw [getElem?_setBlock _ hlt]
  by_cases hjm : m = j
  · rw [if_pos hjm, ← hjm, Function.update_self]
  · rw [if_neg hjm, h.blocks j hj, Function.update_of_ne (fun heq => hjm heq.symm)]

end

/-! ## Expand -/

theorem expandBlock_spec {pwd salt : Bytes} {n m : Nat} {s : State} (hm : m + 1 < n)
    (h : Holds n (m + 1) (Balloon.expanded P.sha256 pwd salt) (m + 1) s) :
    ∃ s', expandBlock P s (m + 1) = some s' ∧
      Holds n (m + 2) (Balloon.expanded P.sha256 pwd salt) (m + 2) s' := by
  obtain ⟨buf, hbuf, hnext⟩ := h.fill hm (m + 2)
  refine ⟨⟨buf, UInt64.ofNat (m + 2)⟩, ?_, hnext⟩
  have hblock : balloonH P [balloonLe64 s.cnt, Balloon.expanded P.sha256 pwd salt m] =
      Balloon.expanded P.sha256 pwd salt (m + 1) := by
    rw [h.cnt, balloonLe64_ofNat, Balloon.expanded, balloonH]
    simp
  have hcnt : s.cnt + 1 = UInt64.ofNat (m + 2) := h.cnt_succ 1
  simp [expandBlock, h.blocks m (Nat.lt_succ_self m), hblock, hbuf, hcnt]

/-- **Expand fills the table**, whatever the allocated blocks held. -/
theorem expand_spec (pwd salt : Bytes) {n : UInt32} (hn : 0 < n.toNat) {buf : List Bytes}
    (hbuf : buf.length = n.toNat) :
    ∃ s, expand P pwd salt n buf = some s ∧
      Holds n.toNat n.toNat (Balloon.expanded P.sha256 pwd salt) n.toNat s := by
  have hempty : Holds n.toNat 0 (Balloon.expanded P.sha256 pwd salt) 0 ⟨buf, UInt64.ofNat 0⟩ :=
    ⟨hbuf, rfl, fun j hj => absurd hj (Nat.not_lt_zero j)⟩
  obtain ⟨first, hfirst, hone⟩ := hempty.fill hn 1
  have hblock : balloonH P [balloonLe64 0, pwd, salt] = Balloon.expanded P.sha256 pwd salt 0 := by
    have hzero : balloonLe64 0 = Balloon.le64 0 := balloonLe64_ofNat 0
    rw [hzero, Balloon.expanded, balloonH]
    simp
  obtain ⟨s, hs, hdone⟩ := foldlM_range_some (n := n.toNat - 1)
    (f := fun s k => expandBlock P s (k + 1))
    (P := fun k s => Holds n.toNat (k + 1) (Balloon.expanded P.sha256 pwd salt) (k + 1) s) hone
    (fun k hk s hs => expandBlock_spec P (by omega) hs)
  refine ⟨s, ?_, ?_⟩
  · have hcnt : UInt64.ofNat 1 = 1 := rfl
    rw [hcnt] at hs
    simp [expand, hblock, hfirst, hs]
  · have hlast : n.toNat - 1 + 1 = n.toNat := by omega
    simpa only [hlast] using hdone

/-! ## Mix -/

section
variable {salt : Bytes} {n : UInt32} {t m : Nat}

/-- A dependency reads inside of the buffer. -/
theorem neighbour_lt (hn : 0 < n.toNat) (t m i : Nat) :
    Balloon.neighbour P.sha256 salt n.toNat t m i < n.toNat := Nat.mod_lt _ hn

theorem toNat_other (idx : Bytes) :
    (UInt64.ofNat (leNat (idx.take 8)) % n.toUInt64).toNat = leNat (idx.take 8) % n.toNat := by
  have hlt : leNat (idx.take 8) < 2 ^ 64 := by
    have hbound := leNat_lt (idx.take 8)
    have hlen : (idx.take 8).length ≤ 8 := by
      rw [List.length_take]
      exact Nat.min_le_left ..
    calc leNat (idx.take 8) < 256 ^ (idx.take 8).length := hbound
      _ ≤ 256 ^ 8 := Nat.pow_le_pow_right (by decide) hlen
      _ = 2 ^ 64 := by decide
  rw [UInt64.toNat_mod, UInt64.toNat_ofNat', Nat.mod_eq_of_lt hlt, UInt32.toNat_toUInt64]

theorem ofNat_succ (v : Nat) : UInt64.ofNat v + 1 = UInt64.ofNat (v + 1) :=
  (UInt64.ofNat_add v 1).symm

theorem mixDelta_spec (hn : 0 < n.toNat) (hm : m < n.toNat) {B : Nat → Bytes} {i : Nat} {s : State}
    (h : Holds n.toNat n.toNat B (Balloon.mixNumber n.toNat t m + 1 + 2 * i) s) :
    ∃ s', mixDelta P salt n t m s i = some s' ∧
      Holds n.toNat n.toNat (Balloon.depended P.sha256 salt n.toNat t m B i)
        (Balloon.mixNumber n.toNat t m + 1 + 2 * (i + 1)) s' := by
  obtain ⟨c, hc⟩ : ∃ c, Balloon.mixNumber n.toNat t m + 1 + 2 * i = c := ⟨_, rfl⟩
  have hmix : Balloon.mixNumber n.toNat t m + 2 + 2 * i = c + 1 := by omega
  have hlast : Balloon.mixNumber n.toNat t m + 1 + 2 * (i + 1) = c + 2 := by omega
  rw [hc] at h
  have hindex : (UInt64.ofNat (leNat ((balloonH P [balloonLe64 s.cnt, balloonLe64 (UInt64.ofNat t),
      balloonLe64 (UInt64.ofNat m), balloonLe64 (UInt64.ofNat i), salt]).take 8)) %
        n.toUInt64).toNat = Balloon.neighbour P.sha256 salt n.toNat t m i := by
    rw [toNat_other, h.cnt, balloonLe64_ofNat, balloonLe64_ofNat, balloonLe64_ofNat,
      balloonLe64_ofNat, Balloon.neighbour, balloonH, hc]
    simp
  have hcnt : s.cnt + 1 = UInt64.ofNat (c + 1) := by
    rw [h.cnt, ofNat_succ]
  have hblock : balloonH P [balloonLe64 (s.cnt + 1), B m,
      B (Balloon.neighbour P.sha256 salt n.toNat t m i)] = P.sha256 (Balloon.le64 (c + 1) ++ B m ++
      B (Balloon.neighbour P.sha256 salt n.toNat t m i)) := by
    rw [hcnt, balloonLe64_ofNat, balloonH]
    simp
  obtain ⟨buf, hbuf, hnext⟩ := h.update hm (P.sha256 (Balloon.le64 (c + 1) ++ B m ++
    B (Balloon.neighbour P.sha256 salt n.toNat t m i))) (c + 2)
  have hcnt2 : s.cnt + 1 + 1 = UInt64.ofNat (c + 2) := by
    rw [hcnt, ofNat_succ]
  refine ⟨⟨buf, UInt64.ofNat (c + 2)⟩, ?_, ?_⟩
  · rw [mixDelta]
    simp only [hindex, h.blocks m hm, h.blocks _ (neighbour_lt P hn t m i), Option.bind_eq_bind,
      Option.bind_some, hblock, hbuf, hcnt2]
    rfl
  · rw [Balloon.depended, hmix, hlast]
    exact hnext

/-- The block before, counted round from the first to the last. -/
theorem toNat_prev (hn : n.toNat ≤ 2 ^ 31) (hm : m < n.toNat) :
    ((UInt32.ofNat m + n - 1) % n).toNat = (m + n.toNat - 1) % n.toNat := by
  have hofNat : (UInt32.ofNat m).toNat = m := UInt32.toNat_ofNat_of_lt' (by
    show m < 2 ^ 32
    omega)
  have hsum : (UInt32.ofNat m + n).toNat = m + n.toNat := by
    rw [UInt32.toNat_add, hofNat, Nat.mod_eq_of_lt (by omega)]
  have hle : (1 : UInt32) ≤ UInt32.ofNat m + n := by
    rw [UInt32.le_iff_toNat_le, hsum]
    show 1 ≤ m + n.toNat
    omega
  rw [UInt32.toNat_mod, UInt32.toNat_sub_of_le _ _ hle, hsum]
  rfl

theorem mixBlock_spec (hn : n.toNat ≤ 2 ^ 31) (hm : m < n.toNat) {B : Nat → Bytes} {s : State}
    (h : Holds n.toNat n.toNat B (Balloon.mixNumber n.toNat t m) s) :
    ∃ s', mixBlock P salt n t s m = some s' ∧
      Holds n.toNat n.toNat (Balloon.mixedBlock P.sha256 salt n.toNat t B m)
        (Balloon.mixNumber n.toNat t (m + 1)) s' := by
  have hpos : 0 < n.toNat := Nat.lt_of_le_of_lt (Nat.zero_le m) hm
  have hprev : (m + n.toNat - 1) % n.toNat < n.toNat := Nat.mod_lt _ hpos
  obtain ⟨buf, hbuf, hchained⟩ := h.update hm
    (P.sha256 (Balloon.le64 (Balloon.mixNumber n.toNat t m) ++
      B ((m + n.toNat - 1) % n.toNat) ++ B m)) (Balloon.mixNumber n.toNat t m + 1)
  -- the three dependencies
  obtain ⟨s', hs', hdone⟩ := foldlM_range_some (n := 3) (f := mixDelta P salt n t m)
    (P := fun i s => Holds n.toNat n.toNat ((List.range i).foldl
      (Balloon.depended P.sha256 salt n.toNat t m) (Balloon.chained P.sha256 n.toNat t m B))
      (Balloon.mixNumber n.toNat t m + 1 + 2 * i) s) hchained (by
    intro i _ s hs
    rw [List.range_succ, List.foldl_append, List.foldl_cons, List.foldl_nil]
    exact mixDelta_spec P hpos hm hs)
  refine ⟨s', ?_, ?_⟩
  · have hblock : balloonH P [balloonLe64 s.cnt, B ((m + n.toNat - 1) % n.toNat), B m] =
        P.sha256 (Balloon.le64 (Balloon.mixNumber n.toNat t m) ++
          B ((m + n.toNat - 1) % n.toNat) ++ B m) := by
      rw [h.cnt, balloonLe64_ofNat, balloonH]
      simp
    have hcnt : s.cnt + 1 = UInt64.ofNat (Balloon.mixNumber n.toNat t m + 1) := by
      rw [h.cnt, ofNat_succ]
    rw [mixBlock]
    simp only [toNat_prev hn hm, h.blocks m hm, h.blocks _ hprev, Option.bind_eq_bind,
      Option.bind_some, hblock, hbuf, hcnt]
    exact hs'
  · have hnum : Balloon.mixNumber n.toNat t (m + 1) =
        Balloon.mixNumber n.toNat t m + 1 + 2 * 3 := by
      unfold Balloon.mixNumber
      omega
    rw [hnum]
    exact hdone

variable (salt) in
/-- **One round in place is one round on the table.** -/
theorem mixRound_spec (hn : n.toNat ≤ 2 ^ 31) {B : Nat → Bytes} {s : State}
    (h : Holds n.toNat n.toNat B (Balloon.mixNumber n.toNat t 0) s) :
    ∃ s', mixRound P salt n t s = some s' ∧
      Holds n.toNat n.toNat (Balloon.mixedRound P.sha256 salt n.toNat B t)
        (Balloon.mixNumber n.toNat (t + 1) 0) s' := by
  obtain ⟨s', hs', hdone⟩ := foldlM_range_some (n := n.toNat) (f := mixBlock P salt n t)
    (P := fun m s => Holds n.toNat n.toNat
      ((List.range m).foldl (Balloon.mixedBlock P.sha256 salt n.toNat t) B)
      (Balloon.mixNumber n.toNat t m) s) h (by
    intro m hm s hs
    rw [List.range_succ, List.foldl_append, List.foldl_cons, List.foldl_nil]
    exact mixBlock_spec P hn hm hs)
  refine ⟨s', hs', ?_⟩
  have hnum : Balloon.mixNumber n.toNat (t + 1) 0 = Balloon.mixNumber n.toNat t n.toNat := by
    have hsucc : (t + 1) * n.toNat = t * n.toNat + n.toNat := Nat.succ_mul t n.toNat
    rw [Balloon.mixNumber, Balloon.mixNumber, hsucc, Nat.add_zero]
  rw [hnum]
  exact hdone

/-- The rounds, up to the first in which the flag is set. -/
theorem mix_spec (hn : n.toNat ≤ 2 ^ 31) (abort : Nat → Bool) (B : Nat → Bytes) (k : Nat) :
    ∀ (t : Nat) (s : State),
      Holds n.toNat n.toNat ((List.range t).foldl (Balloon.mixedRound P.sha256 salt n.toNat) B)
        (Balloon.mixNumber n.toNat t 0) s →
      ((∃ i, t ≤ i ∧ i < t + k ∧ abort i = true) ∧ mix P salt n abort k t s = some none) ∨
        ((∀ i, t ≤ i → i < t + k → abort i = false) ∧ ∃ s',
          mix P salt n abort k t s = some (some s') ∧
          Holds n.toNat n.toNat ((List.range (t + k)).foldl
            (Balloon.mixedRound P.sha256 salt n.toNat) B)
            (Balloon.mixNumber n.toNat (t + k) 0) s') := by
  induction k with
  | zero =>
    intro t s h
    exact Or.inr ⟨fun i hi hlt => absurd hlt (by omega), s, rfl, h⟩
  | succ k ih =>
    intro t s h
    rw [mix]
    cases habort : abort t with
    | true => exact Or.inl ⟨⟨t, Nat.le_refl t, by omega, habort⟩, rfl⟩
    | false =>
      obtain ⟨mid, hmid, hround⟩ := mixRound_spec P salt hn h
      have hnext : Holds n.toNat n.toNat ((List.range (t + 1)).foldl
          (Balloon.mixedRound P.sha256 salt n.toNat) B)
          (Balloon.mixNumber n.toNat (t + 1) 0) mid := by
        rw [List.range_succ, List.foldl_append, List.foldl_cons, List.foldl_nil]
        exact hround
      have hsum : t + 1 + k = t + (k + 1) := by omega
      have hrest := ih (t + 1) mid hnext
      rw [hsum] at hrest
      simp only [hmid, Option.bind_some, Bool.false_eq_true, if_false]
      rcases hrest with ⟨⟨i, hlow, hhigh, hset⟩, hnone⟩ | ⟨hclear, hsome⟩
      · exact Or.inl ⟨⟨i, by omega, hhigh, hset⟩, hnone⟩
      · refine Or.inr ⟨?_, hsome⟩
        intro i hlow hhigh
        by_cases hit : i = t
        · rw [hit, habort]
        · exact hclear i (by omega) hhigh

end

/-! ## Extract -/

/-- The loop writes the blocks one behind the other. -/
theorem expandKey_spec (K salt : Bytes) {dklen : Nat} : ∀ (left j : Nat) (dk : Bytes),
    left = (dklen + 31) / 32 - j → 32 * j ≤ dklen + 31 → dklen ≤ dk.length →
      expandKey P K salt dklen (min (32 * j) dklen) (j + 1) dk = some (patch dk (min (32 * j) dklen)
        (((List.range' j left).flatMap (Balloon.outputBlock P.sha256 salt K)).take
          (dklen - 32 * j))) := by
  intro left
  induction left with
  | zero =>
    intro j dk hleft hj hdk
    have hend : dklen ≤ 32 * j := by omega
    have hmin : min (32 * j) dklen = dklen := Nat.min_eq_right hend
    rw [expandKey, hmin, if_neg (Nat.lt_irrefl dklen)]
    simp [patch]
  | succ left ih =>
    intro j dk hleft hj hdk
    have hlt : 32 * j < dklen := by omega
    have hmin : min (32 * j) dklen = 32 * j := Nat.min_eq_left (Nat.le_of_lt hlt)
    have hnb : (if dklen - 32 * j < 32 then dklen - 32 * j else 32) = min 32 (dklen - 32 * j) := by
      split
      · omega
      · omega
    have hblock : balloonH P [K, beBytes 4 (j + 1), salt] =
        Balloon.outputBlock P.sha256 salt K j := by
      rw [balloonH, Balloon.outputBlock]
      simp
    have hlen : (Balloon.outputBlock P.sha256 salt K j).length = 32 := P.length_sha256 _
    have hchunk : ((Balloon.outputBlock P.sha256 salt K j).take (min 32 (dklen - 32 * j))).length =
        min 32 (dklen - 32 * j) := by
      rw [List.length_take, hlen]
      omega
    have hstore : store dk (32 * j) ((Balloon.outputBlock P.sha256 salt K j).take
        (min 32 (dklen - 32 * j))) = some (patch dk (32 * j)
          ((Balloon.outputBlock P.sha256 salt K j).take (min 32 (dklen - 32 * j)))) := by
      rw [store, if_pos (by rw [hchunk]; omega)]
    have hoff : 32 * j + min 32 (dklen - 32 * j) = min (32 * (j + 1)) dklen := by omega
    rw [expandKey, hmin, if_pos hlt, hnb, hblock]
    simp only [hstore, Option.bind_some]
    rw [hoff, ih (j + 1) _ (by omega) (by omega)
      (by rw [length_patch (by rw [hchunk]; omega)]; exact hdk),
      patch_patch_adjacent (by rw [hchunk]; omega) (by rw [hchunk, hoff]), List.range'_succ,
      List.flatMap_cons, List.take_append, hlen]
    have htail : dklen - 32 * j - 32 = dklen - 32 * (j + 1) := by omega
    have hhead : (Balloon.outputBlock P.sha256 salt K j).take (min 32 (dklen - 32 * j)) =
        (Balloon.outputBlock P.sha256 salt K j).take (dklen - 32 * j) := by
      rw [← List.take_take, List.take_of_length_le]
      rw [List.length_take, hlen]
      exact Nat.min_le_right ..
    rw [htail, hhead]

theorem extract_spec {n : UInt32} {pwd salt : Bytes} {tcost : Nat} {s : State} {dk : Bytes}
    {dklen : Nat} (hn : 0 < n.toNat) (hdk : dklen ≤ dk.length)
    (h : Holds n.toNat n.toNat ((List.range tcost).foldl
      (Balloon.mixedRound P.sha256 salt n.toNat) (Balloon.expanded P.sha256 pwd salt))
      (Balloon.mixNumber n.toNat tcost 0) s) :
    extract P n salt dk dklen s =
      some (patch dk 0 (Balloon.output P.sha256 pwd salt n.toNat tcost dklen)) := by
  have hlast : s.buf[n.toNat - 1]? = some (Balloon.balloon P.sha256 pwd salt n.toNat tcost) :=
    h.blocks _ (by omega)
  rw [extract, Balloon.output]
  simp only [hlast, Option.bind_eq_bind, Option.bind_some]
  by_cases hshort : dklen ≤ 32
  · rw [if_pos hshort, if_pos hshort, store, if_pos]
    rw [List.length_take]
    omega
  · have hlong := expandKey_spec P (Balloon.balloon P.sha256 pwd salt n.toNat tcost) salt
      ((dklen + 31) / 32) 0 dk rfl (Nat.zero_le _) hdk
    rw [if_neg hshort, if_neg hshort]
    simpa [List.range_eq_range'] using hlong

/-! ## The whole call -/

/-- What is asked of a call that ends with `out`: the buffer is not left; 0 is returned exactly if
    the parameters are good, there is a buffer and no round finds the flag set, and then the output
    bytes are those of the documented function; with any other value they are zero. -/
def MeetsContract (tcalloc : (n : Nat) → Option (Vector Bytes n)) (abort : Nat → Bool) (pwd : Bytes)
    (pwdLen : Int) (salt : Bytes) (saltLen : Int) (tcost spaceKib : UInt32) (dk : Bytes)
    (dklen : Int) (out : Option (Int × Bytes)) : Prop :=
  ∃ res dk', out = some (res, dk') ∧
    (res = 0 ↔ ¬ BadParams pwdLen saltLen tcost spaceKib dklen ∧
      (tcalloc (spaceKib.toNat * 32)).isSome ∧ ∀ t < tcost.toNat, abort t = false) ∧
    (res = 0 → dk' = patch dk 0 (Balloon.output P.sha256 (pwd.take pwdLen.toNat)
      (salt.take saltLen.toNat) (spaceKib.toNat * 32) tcost.toNat dklen.toNat)) ∧
    (res ≠ 0 → dk'.take dklen.toNat = List.replicate dklen.toNat 0)

theorem toNat_blocks {spaceKib : UInt32} (h : spaceKib ≤ 4194304) :
    (spaceKib * (1024 / 32)).toNat = spaceKib.toNat * 32 := by
  have hle : spaceKib.toNat ≤ 4194304 := h
  have h32 : ((1024 / 32 : UInt32)).toNat = 32 := rfl
  rw [UInt32.toNat_mul, h32, Nat.mod_eq_of_lt (by omega)]

section
variable {tcalloc : (n : Nat) → Option (Vector Bytes n)} {abort : Nat → Bool} {pwd salt : Bytes}
  {pwdLen saltLen : Int} {tcost spaceKib : UInt32} {dk : Bytes} {dklen : Int}

/-- A call that is refused before the buffer exists. -/
theorem meetsContract_refused (h : ¬(¬ BadParams pwdLen saltLen tcost spaceKib dklen ∧
    (tcalloc (spaceKib.toNat * 32)).isSome)) :
    MeetsContract P tcalloc abort pwd pwdLen salt saltLen tcost spaceKib dk dklen
        (some (-1, dk)) ↔ dk.take dklen.toNat = List.replicate dklen.toNat 0 := by
  constructor
  · rintro ⟨res, dk', hout, -, -, hzero⟩
    obtain ⟨rfl, rfl⟩ := Prod.mk.inj (Option.some.inj hout)
    exact hzero (by decide)
  · intro hzero
    refine ⟨-1, dk, rfl, ⟨fun hres => absurd hres (by decide), fun hall => ?_⟩,
      fun hres => absurd hres (by decide), fun _ => hzero⟩
    exact absurd ⟨hall.1, hall.2.1⟩ h

/-- The blocks of good parameters. -/
theorem blocks_of_good (h : ¬ BadParams pwdLen saltLen tcost spaceKib dklen) :
    (spaceKib * (1024 / 32)).toNat = spaceKib.toNat * 32 ∧
      0 < (spaceKib * (1024 / 32)).toNat ∧ (spaceKib * (1024 / 32)).toNat ≤ 2 ^ 31 := by
  have hle : spaceKib ≤ 4194304 := by
    by_contra hnot
    exact h (Or.inr (Or.inr (Or.inr (Or.inl (UInt32.not_le.mp hnot)))))
  have hpos : spaceKib.toNat ≠ 0 := by
    intro hzero
    exact h (Or.inr (Or.inr (Or.inl (UInt32.toNat_inj.mp hzero))))
  have hnat : spaceKib.toNat ≤ 4194304 := hle
  have hblocks := toNat_blocks hle
  exact ⟨hblocks, by omega, by omega⟩

/-- A call that has its buffer keeps the contract. -/
theorem meetsContract_allocated (hdk : dklen.toNat ≤ dk.length)
    (h : ¬ BadParams pwdLen saltLen tcost spaceKib dklen)
    (halloc : (tcalloc (spaceKib * (1024 / 32)).toNat).isSome) :
    MeetsContract P tcalloc abort pwd pwdLen salt saltLen tcost spaceKib dk dklen
      (deriveKeyBalloon P tcalloc abort pwd pwdLen salt saltLen tcost spaceKib dk dklen) := by
  obtain ⟨hblocks, hpos, hle⟩ := blocks_of_good h
  rw [MeetsContract, deriveKeyBalloon, if_neg h, ← hblocks]
  generalize spaceKib * (1024 / 32) = n at hpos hle halloc
  obtain ⟨buf, hbuf⟩ := Option.isSome_iff_exists.mp halloc
  obtain ⟨s, hs, hfilled⟩ := expand_spec P (pwd.take pwdLen.toNat)
    (salt.take saltLen.toNat) hpos (show buf.toList.length = _ by simp)
  have hstart : Holds n.toNat n.toNat ((List.range 0).foldl
      (Balloon.mixedRound P.sha256 (salt.take saltLen.toNat) n.toNat)
      (Balloon.expanded P.sha256 (pwd.take pwdLen.toNat) (salt.take saltLen.toNat)))
      (Balloon.mixNumber n.toNat 0 0) s := by
    have hnum : Balloon.mixNumber n.toNat 0 0 = n.toNat := by simp [Balloon.mixNumber]
    rw [hnum]
    exact hfilled
  simp only [hbuf, hs, Option.bind_eq_bind, Option.bind_some]
  rcases mix_spec P hle abort _ tcost.toNat 0 s hstart with
    ⟨⟨t, -, hlt, hset⟩, hmix⟩ | ⟨hclear, s', hmix, hmixed⟩
  · have hzeros : (List.replicate dklen.toNat (0 : UInt8)).length = dklen.toNat :=
      List.length_replicate
    have hstore : store dk 0 (List.replicate dklen.toNat (0 : UInt8)) =
        some (patch dk 0 (List.replicate dklen.toNat 0)) := by
      rw [store, if_pos]
      simpa using hdk
    refine ⟨-2, patch dk 0 (List.replicate dklen.toNat 0), ?_, ⟨fun hres => absurd hres (by decide),
      fun hall => ?_⟩, fun hres => absurd hres (by decide), fun _ => ?_⟩
    · simp only [hmix, hstore, Option.bind_some]
      rfl
    · have hno := hall.2.2 t (by omega)
      rw [hset] at hno
      exact absurd hno (by decide)
    · simp [patch]
  · rw [Nat.zero_add] at hmixed
    have hextract := extract_spec P hpos hdk hmixed
    refine ⟨0, _, ?_, ⟨fun _ => ⟨h, rfl, fun t ht => hclear t (Nat.zero_le t) (by omega)⟩,
      fun _ => rfl⟩, fun _ => rfl, fun hne => absurd rfl hne⟩
    simp only [hmix, hextract, Option.bind_some]
    rfl

end

/-- **When the call keeps its contract**: the -1 of bad parameters and of a failed allocation leaves
    the output bytes as they were. -/
theorem deriveKeyBalloon_iff (tcalloc : (n : Nat) → Option (Vector Bytes n)) (abort : Nat → Bool)
    (pwd : Bytes) (pwdLen : Int) (salt : Bytes) (saltLen : Int) (tcost spaceKib : UInt32)
    (dk : Bytes) (dklen : Int) (hdk : dklen.toNat ≤ dk.length) :
    MeetsContract P tcalloc abort pwd pwdLen salt saltLen tcost spaceKib dk dklen
        (deriveKeyBalloon P tcalloc abort pwd pwdLen salt saltLen tcost spaceKib dk dklen) ↔
      (¬ BadParams pwdLen saltLen tcost spaceKib dklen ∧ (tcalloc (spaceKib.toNat * 32)).isSome) ∨
        dk.take dklen.toNat = List.replicate dklen.toNat 0 := by
  by_cases hbad : BadParams pwdLen saltLen tcost spaceKib dklen
  · have hrefused : ¬(¬ BadParams pwdLen saltLen tcost spaceKib dklen ∧
        (tcalloc (spaceKib.toNat * 32)).isSome) := fun hall => hall.1 hbad
    rw [deriveKeyBalloon, if_pos hbad, meetsContract_refused P hrefused, or_iff_right hrefused]
  · have hblocks := (blocks_of_good hbad).1
    cases halloc : tcalloc (spaceKib * (1024 / 32)).toNat with
    | none =>
      have hrefused : ¬(¬ BadParams pwdLen saltLen tcost spaceKib dklen ∧
          (tcalloc (spaceKib.toNat * 32)).isSome) := by
        rw [← hblocks, halloc]
        exact fun hall => absurd hall.2 Bool.false_ne_true
      have hcall : deriveKeyBalloon P tcalloc abort pwd pwdLen salt saltLen tcost spaceKib dk
          dklen = some (-1, dk) := by
        rw [deriveKeyBalloon, if_neg hbad]
        simp only [halloc]
      rw [hcall, meetsContract_refused P hrefused, or_iff_right hrefused]
    | some buf =>
      have hsome : (tcalloc (spaceKib * (1024 / 32)).toNat).isSome := by
        rw [halloc]
        rfl
      refine iff_of_true (meetsContract_allocated P hdk hbad hsome) (Or.inl ⟨hbad, ?_⟩)
      rw [← hblocks]
      exact hsome

/-- An allocator that has room, and one that has none. -/
def demoAlloc (room : Bool) (n : Nat) : Option (Vector Bytes n) :=
  if room then some (Vector.replicate n []) else none

theorem deriveKeyBalloon_demo :
    MeetsContract Primitives.demo (demoAlloc true) (fun _ => false) [1, 2] 2 [3] 1 2 1 [9] 1
        (deriveKeyBalloon Primitives.demo (demoAlloc true) (fun _ => false) [1, 2] 2 [3] 1 2 1 [9]
          1) ↔
      (¬ BadParams 2 1 2 1 1 ∧ (demoAlloc true ((1 : UInt32).toNat * 32)).isSome) ∨
        ([9] : Bytes).take 1 = List.replicate 1 0 :=
  deriveKeyBalloon_iff Primitives.demo (demoAlloc true) (fun _ => false) [1, 2] 2 [3] 1 2 1 [9] 1
    (by decide)

/-- Where no buffer can be had, the call fails and the output byte is not zero. -/
theorem failed_alloc_leaves_output :
    deriveKeyBalloon Primitives.demo (demoAlloc false) (fun _ => false) [1, 2] 2 [3] 1 2 1 [9] 1 =
        some (-1, [9]) ∧
      ¬ MeetsContract Primitives.demo (demoAlloc false) (fun _ => false) [1, 2] 2 [3] 1 2 1 [9] 1
        (some (-1, [9])) := by
  refine ⟨rfl, ?_⟩
  rintro ⟨res, dk', hout, -, -, hzero⟩
  obtain ⟨rfl, rfl⟩ := Prod.mk.inj (Option.some.inj hout)
  exact absurd (hzero (by decide)) (by decide)

end

end Pkcs5Balloon
end VeraCrypt
