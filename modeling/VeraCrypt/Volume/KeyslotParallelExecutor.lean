import VeraCrypt.Keyslot.Parallel

/-!
# The shipped executor (`Volume/KeyslotParallelExecutor.h`)

`VolumeKeyslotParallelFor` cuts `[0, n)` into one range a thread, gives up spawning at the
first thread that cannot be created, and runs whatever is left inline. What the machine and
the runtime decide is a parameter (`ThreadEnv`): the reported concurrency, whether the
reserve throws, and which thread fails to start. Whatever they decide, the ranges of the
threads and the inline tail are `[0, n)` cut at some points, in order
(`volumeKeyslotParallelFor_covers`), so every index runs exactly once however the threads
are interleaved.

The `int` arithmetic of the cut wraps here, where C++ leaves an overflow undefined. Near
`INT_MAX` the end of a range then comes out negative, the loop stops, and the rest runs
inline.
-/

set_option autoImplicit false

namespace VeraCrypt

open Lib

/-! ## The executor -/

structure ThreadEnv where
  hardwareConcurrency : UInt32
  reserveOk : Bool
  spawnOk : Nat → Bool

/-- What a call runs: the indices of each thread, and those of the caller after the joins. -/
structure ParRun where
  threads : List (List Nat)
  inline : List Nat
  deriving DecidableEq

/-- An `int` expression: its value modulo 2^32, in the signed range. -/
def int32 (v : Int) : Int := Int.bmod v (2 ^ 32)

/-- The indices of `for (int i = lo; i < hi; ++i)`. -/
def indices (lo hi : Int) : List Nat := List.range' lo.toNat (hi - lo).toNat

/-- The spawn loop over the threads still to be created, on the ranges handed out so far and
    `spawnedHi`. -/
def spawnFrom (spawnOk : Nat → Bool) (n per : Int) :
    List Nat → List (List Nat) × Int → List (List Nat) × Int
  | [], st => st
  | t :: ts, st =>
    let lo := int32 (t * per)
    let hi0 := int32 (lo + per)
    let hi := if hi0 > n then n else hi0
    if lo ≥ hi then st
    else if spawnOk t = false then st
    else spawnFrom spawnOk n per ts (st.1 ++ [indices lo hi], hi)

/-- The `try` block: the ranges of the threads that were created, and `spawnedHi`. -/
def spawn (env : ThreadEnv) (n : Int) : List (List Nat) × Int :=
  if n > 1 then
    let hw := env.hardwareConcurrency.toNat
    let cores := int32 (if hw ≠ 0 then hw else 1)
    let nthreads := if cores > n then n else cores
    -- a negative count is a huge `size_t`, which `reserve` refuses
    if nthreads < 0 ∨ env.reserveOk = false then ([], 0)
    else
      let per := (int32 (int32 (n + nthreads) - 1)).tdiv nthreads
      spawnFrom env.spawnOk n per (List.range nthreads.toNat) ([], 0)
  else ([], 0)

/-- `VolumeKeyslotParallelFor` -/
def volumeKeyslotParallelFor (env : ThreadEnv) (n : Int32) : ParRun :=
  let n := n.toInt
  if n ≤ 0 then { threads := [], inline := [] }
  else { threads := (spawn env n).1, inline := indices (spawn env n).2 n }

/-! ## Every index once -/

theorem int32_of_mem {v : Int} (h : -2 ^ 31 ≤ v ∧ v < 2 ^ 31) : int32 v = v := by
  unfold int32
  rw [Int.bmod_def]
  omega

theorem int32_neg_of_overflow {v : Int} (h : 2 ^ 31 ≤ v ∧ v < 2 ^ 32) : int32 v < 0 := by
  unfold int32
  rw [Int.bmod_def]
  omega

theorem natAbs_int32_le (v : Int) : (int32 v).natAbs ≤ 2 ^ 31 := by
  unfold int32
  rw [Int.bmod_def]
  omega

/-- The ranges handed out so far are a prefix of the indices. -/
def PrefixDone (n : Int) (st : List (List Nat) × Int) : Prop :=
  0 ≤ st.2 ∧ st.2 ≤ n ∧ st.1.flatten = List.range st.2.toNat

/-- Before thread `t` the ranges end at `t * per`, cut off at `n`. -/
theorem spawnFrom_prefix {spawnOk : Nat → Bool} {n per : Int}
    (hper : per.natAbs ≤ 2 ^ 31) (k t : Nat) (st : List (List Nat) × Int)
    (hst : PrefixDone n st) (hlo : 0 ≤ (t : Int) * per ∧ (t : Int) * per < 2 ^ 31)
    (hhi : st.2 = min ((t : Int) * per) n) :
    PrefixDone n (spawnFrom spawnOk n per (List.range' t k) st) := by
  induction k generalizing t st with
  | zero => exact hst
  | succ k ih =>
    obtain ⟨h0, hle, hflat⟩ := id hst
    have hnext : ((t + 1 : Nat) : Int) * per = t * per + per := by
      rw [Int.natCast_add, Int.add_mul]
      omega
    have hih := ih (t + 1)
    rw [hnext] at hih
    rw [List.range'_succ]
    unfold spawnFrom
    simp only
    generalize (t : Int) * per = lo at hlo hhi hih ⊢
    rw [int32_of_mem (v := lo) (by omega)]
    generalize hhi0 : int32 (lo + per) = hi0
    generalize hhi' : (if hi0 > n then n else hi0) = hi
    by_cases hbreak : lo ≥ hi
    · rw [if_pos hbreak]
      exact hst
    rw [if_neg hbreak]
    by_cases hspawn : spawnOk t = false
    · rw [if_pos hspawn]
      exact hst
    rw [if_neg hspawn]
    -- an end that overflowed is negative, and the loop would have stopped
    have hin : lo + per < 2 ^ 31 := by
      rcases Int.lt_or_le (lo + per) (2 ^ 31) with hlt | hover
      · exact hlt
      · have hneg := int32_neg_of_overflow (v := lo + per) (by omega)
        rw [if_neg (by omega)] at hhi'
        omega
    rw [int32_of_mem (by omega)] at hhi0
    have hmin : hi = min (lo + per) n := by
      rw [← hhi', ← hhi0]
      split <;> omega
    -- the new range starts where the old ones end
    have hend : st.2 = lo := by omega
    refine hih _ ⟨?_, ?_, ?_⟩ (by omega) hmin
    · show 0 ≤ hi
      omega
    · show hi ≤ n
      omega
    · have hcut : List.range hi.toNat = List.range lo.toNat ++
          List.range' lo.toNat (hi.toNat - lo.toNat) := range_eq_append_range' (by omega)
      have hlen : (hi - lo).toNat = hi.toNat - lo.toNat := by omega
      simp only [List.flatten_append, List.flatten_cons, List.flatten_nil, List.append_nil]
      rw [hflat, hend, hcut, indices, hlen]

theorem spawn_prefix (env : ThreadEnv) {n : Int} (hpos : 0 < n) : PrefixDone n (spawn env n) := by
  have hnone : PrefixDone n ([], 0) := ⟨Int.le_refl _, Int.le_of_lt hpos, rfl⟩
  unfold spawn
  by_cases hone : n > 1
  swap
  · rw [if_neg hone]
    exact hnone
  rw [if_pos hone]
  simp only
  generalize int32 (if env.hardwareConcurrency.toNat ≠ 0 then _ else 1) = cores
  generalize (if cores > n then n else cores) = nthreads
  by_cases hreserve : nthreads < 0 ∨ env.reserveOk = false
  · rw [if_pos hreserve]
    exact hnone
  rw [if_neg hreserve, List.range_eq_range']
  refine spawnFrom_prefix ?_ _ 0 _ hnone (by simp) ?_
  · exact Nat.le_trans (Int.natAbs_tdiv_le_natAbs _ _) (natAbs_int32_le _)
  · rw [Int.natCast_zero, Int.zero_mul]
    show 0 = min 0 n
    omega

/-- **The threads and the inline tail cover `[0, n)`**, each index once and in order, for every
    `n`, every reported concurrency, and every point at which the reserve or a spawn fails. -/
theorem volumeKeyslotParallelFor_covers (env : ThreadEnv) (n : Int32) :
    (volumeKeyslotParallelFor env n).threads.flatten ++ (volumeKeyslotParallelFor env n).inline =
      List.range n.toInt.toNat := by
  unfold volumeKeyslotParallelFor
  generalize n.toInt = n
  simp only
  by_cases hpos : n ≤ 0
  · have hz : n.toNat = 0 := by omega
    rw [if_pos hpos, hz]
    rfl
  rw [if_neg hpos]
  -- whatever was spawned is a prefix, and the tail is the rest
  obtain ⟨h0, hle, hflat⟩ := spawn_prefix env (Int.not_le.mp hpos)
  have hcut : List.range n.toNat = List.range (spawn env n).2.toNat ++
      List.range' (spawn env n).2.toNat (n.toNat - (spawn env n).2.toNat) :=
    range_eq_append_range' (by omega)
  have hlen : (n - (spawn env n).2).toNat = n.toNat - (spawn env n).2.toNat := by omega
  simp only [hflat]
  rw [hcut, indices, hlen]

/-- An execution of a call: the bodies of the threads interleaved in any way, and then, after
    the joins, the inline tail. -/
def ParRun.Execution (r : ParRun) (order : List Nat) : Prop :=
  ∃ threads : List Nat, threads.Perm r.threads.flatten ∧ order = threads ++ r.inline

theorem volumeKeyslotParallelFor_perm {env : ThreadEnv} {n : Int32} {order : List Nat}
    (h : (volumeKeyslotParallelFor env n).Execution order) :
    order.Perm (List.range n.toInt.toNat) := by
  obtain ⟨threads, hperm, rfl⟩ := h
  rw [← volumeKeyslotParallelFor_covers env n]
  exact hperm.append_right _

/-- **The parallel open is the serial one.** Under any executor that runs each job of a call
    once, the two give the same answer, on every area and under every read fault; and the
    shipped executor is one, whatever the machine and the runtime do. -/
theorem keyslotOpenParallel_agrees :
    (∀ (P : Primitives) (cfg : KeyslotStoreCfg) (area : KeyslotArea) (pass : Bytes)
      (pf : KeyslotParallelFor) (stack : Nat → UInt8),
      (∀ round n, (pf round n).Perm (List.range n)) →
        keyslotOpenParallel P cfg area pass pf stack = keyslotOpen P cfg area pass) ∧
    ∀ (env : ThreadEnv) (n : Int32) (order : List Nat),
      (volumeKeyslotParallelFor env n).Execution order →
        order.Perm (List.range n.toInt.toNat) :=
  ⟨fun P _ _ _ _ stack hpf => keyslotOpenParallel_eq_keyslotOpen P hpf stack,
    fun _ _ _ h => volumeKeyslotParallelFor_perm h⟩

/-- An executor that runs its batches backwards, and a call of five jobs on two cores whose
    second thread does not start. -/
theorem keyslotOpenParallel_agrees_demo :
    keyslotOpenParallel .demo (.demo .sidecar 0) (.blank 2048) [1]
        (fun _ n => (List.range n).reverse) (fun _ => 0) =
      keyslotOpen .demo (.demo .sidecar 0) (.blank 2048) [1] ∧
    [2, 0, 1, 3, 4].Perm (List.range 5) :=
  ⟨keyslotOpenParallel_agrees.1 _ _ _ _ _ _ fun _ n => List.reverse_perm (List.range n),
    keyslotOpenParallel_agrees.2 ⟨2, true, fun t => t == 0⟩ 5 _ ⟨[2, 0, 1], by decide, by decide⟩⟩

end VeraCrypt
