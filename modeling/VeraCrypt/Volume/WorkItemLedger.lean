import VeraCrypt.Volume.WorkItemQueue
import Mathlib.Data.Finset.Card
import Mathlib.Order.Interval.Finset.Nat

/-!
# What the work item queue does

Beside the ring runs a ledger that the threads do not see: the items in the order in which they
were put into the queue, each with how far it has come. An item is a ticket number; it stands in
the slot of that number modulo the size of the ring until the ticket one ring further is put
there. `Records` says what the shared state has to do with the ledger, `records_step` that every
step of every thread keeps it, and `interleave_safe` what follows for all interleavings.
-/

set_option autoImplicit false

namespace VeraCrypt

namespace EncryptionThreadPool

/-! ## The ledger -/

/-- How far an item has come. -/
inductive Phase where
  | unborn | written | ready
  | held (worker : Nat) (stage : Stage)
  | done
  deriving DecidableEq

namespace Phase

/-- A worker has taken the item. -/
def claimed : Phase → Bool
  | .held .. | .done => true
  | _ => false

/-- The item is counted down. -/
def credited : Phase → Bool
  | .held _ .followAgain | .held _ .signal | .done => true
  | _ => false

/-- The item is processed. -/
def ran : Phase → Bool
  | .held _ .run => false
  | .held .. | .done => true
  | _ => false

/-- The state of the slot the item stands in; `kept` says that the slot is not given back with
    the item. -/
def itemState (kept : Bool) : Phase → ItemState
  | .unborn | .written => .free
  | .ready => .ready
  | .held _ .run | .held _ .countDerivation | .held _ .freeDerivation | .held _ .release => .busy
  | .held .. | .done => if kept then .busy else .free

end Phase

/-- The items in the order of the queue, the ticket of each call's first item, how many were
    taken out, and the phase of each. -/
structure Ledger where
  log : List Work
  base : Nat → Nat
  dequeued : Nat
  phase : Nat → Phase

def Ledger.setPhase (g : Ledger) (t : Nat) (phase : Phase) : Ledger :=
  { g with phase := Function.update g.phase t phase }

namespace CallPc

/-- The call holds `EnqueueMutex`. -/
def inside : CallPc → Bool
  | .waitFirst | .fill .. | .publish .. => true
  | _ => false

/-- How many of its items are in the queue. -/
def filled (itemCount : Nat) : CallPc → Nat
  | .start | .waitFirst => 0
  | .fill _ index => index
  | .publish _ index _ => index + 1
  | .waitCompleted _ | .free _ | .returned => itemCount

/-- The counter of its first slot is set and not used up. -/
def counting : CallPc → Bool
  | .fill .. | .publish .. | .waitCompleted _ => true
  | _ => false

end CallPc

/-- The kind of item a stage is for. -/
def Stage.Fits (isDoWork : Bool) : Stage → Prop
  | .run => True
  | .countDerivation | .freeDerivation => isDoWork = false
  | .release | .follow | .credit | .followAgain | .signal => isDoWork = true

/-- The stages in which a worker has its pointer from `FirstFragment`. -/
def Stage.HasFirst : Stage → Prop
  | .credit | .signal => True
  | _ => False

/-- The stages of the worker that counted a call down to the end. -/
def Stage.IsLast : Stage → Prop
  | .followAgain | .signal => True
  | _ => False

section
variable (pool : RingPool) (request : Nat → Request)

/-- Every item of the call is done. -/
def AllDone (g : Ledger) (r : Nat) : Prop :=
  ∀ j < (request r).itemCount pool, g.phase (g.base r + j) = .done

/-- The items of the call that are still to be counted down. -/
def uncredited (g : Ledger) (r : Nat) : Finset Nat :=
  {j ∈ Finset.range ((request r).itemCount pool) | (g.phase (g.base r + j)).credited = false}

/-- Nobody comes back to the item. -/
def Retired (g : Ledger) (call : Nat → CallPc) (t : Nat) : Prop :=
  g.phase t = .done ∧
    ∀ x, g.log[t]? = some x → (request x.call).isDoWork = true → call x.call = .returned

/-- The first slot of a `DoWork` is given back when the call returns, the others by the worker. -/
def keepsSlot (call : Nat → CallPc) (x : Work) : Bool :=
  (request x.call).isDoWork && decide (x.index = 0) && decide (call x.call ≠ .returned)

/-- The state of the slot of an item. -/
def expectedState (g : Ledger) (call : Nat → CallPc) (t : Nat) (x : Work) : ItemState :=
  (g.phase t).itemState (keepsSlot request call x)

/-- What the local variables of a call are. -/
def CallOk (g : Ledger) (r : Nat) : CallPc → Prop
  | .start | .returned => True
  | .waitFirst => (request r).isDoWork = true
  | .fill first index =>
    index < (request r).itemCount pool ∧
      ((request r).isDoWork = true → first = g.base r % pool.queueSize)
  | .publish first index slot =>
    index < (request r).itemCount pool ∧
      ((request r).isDoWork = true → first = g.base r % pool.queueSize) ∧
      slot = (g.base r + index) % pool.queueSize
  | .waitCompleted first | .free first =>
    (request r).isDoWork = true ∧ first = g.base r % pool.queueSize

structure Calls (g : Ledger) (position : Nat) (mutex : Option Nat) (call : Nat → CallPc) : Prop where
  position_eq : position = g.log.length % pool.queueSize
  log_iff : ∀ {t r j : Nat}, g.log[t]? = some ⟨r, j⟩ ↔
    t = g.base r + j ∧ j < (call r).filled ((request r).itemCount pool)
  mutex_iff : ∀ r, (call r).inside = true ↔ mutex = some r
  last : ∀ {r}, (call r).inside = true →
    g.base r + (call r).filled ((request r).itemCount pool) = g.log.length
  ok : ∀ r, CallOk pool request g r (call r)

structure Tickets (g : Ledger) (position : Nat) (call : Nat → CallPc) (worker : Nat → WorkerPc) :
    Prop where
  position_eq : position = g.dequeued % pool.queueSize
  unborn_iff : ∀ t, g.phase t = .unborn ↔ g.log.length ≤ t
  claimed_iff : ∀ t, (g.phase t).claimed = true ↔ t < g.dequeued
  written_iff : ∀ t, g.phase t = .written ↔
    ∃ r first index slot, call r = .publish first index slot ∧ t = g.base r + index
  held : ∀ {t w stage x}, g.phase t = .held w stage → g.log[t]? = some x →
    stage.Fits (request x.call).isDoWork ∧
      ∃ first, worker w = .busy stage (t % pool.queueSize) first x ∧
        (stage.HasFirst → first = g.base x.call % pool.queueSize)
  worker : ∀ {w stage slot first x}, worker w = .busy stage slot first x →
    ∃ t, g.phase t = .held w stage
  unique : ∀ {w stage stage' t t'}, g.phase t = .held w stage → g.phase t' = .held w stage' → t = t'

structure Slots (g : Ledger) (queue : Nat → WorkItem) (call : Nat → CallPc) : Prop where
  /-- a slot is filled again only when nobody comes back to what stood there -/
  window : ∀ {t}, t + pool.queueSize < g.log.length → Retired request g call t
  reserved : ∀ {r first}, call r = .fill first 0 → (request r).isDoWork = true →
    ∀ {t}, t + pool.queueSize = g.log.length → Retired request g call t
  item : ∀ {t x}, g.log[t]? = some x → g.log.length ≤ t + pool.queueSize →
    (queue (t % pool.queueSize)).work = x ∧
      ((request x.call).isDoWork = true →
        (queue (t % pool.queueSize)).firstFragment = g.base x.call % pool.queueSize) ∧
      (queue (t % pool.queueSize)).state = expectedState request g call t x
  unused : ∀ {p}, p < pool.queueSize → g.log.length ≤ p → (queue p).state = .free

structure Counts (g : Ledger) (queue : Nat → WorkItem) (call : Nat → CallPc) : Prop where
  count : ∀ {r}, (request r).isDoWork = true → (call r).counting = true →
    (queue (g.base r % pool.queueSize)).outstandingFragmentCount =
      (uncredited pool request g r).card
  flag : ∀ {p}, (queue p).itemCompleted = true →
    ∃ r, call r = .waitCompleted p ∧ AllDone pool request g r
  last : ∀ {t w stage x}, g.phase t = .held w stage → stage.IsLast → g.log[t]? = some x →
    uncredited pool request g x.call = ∅ ∧
      (queue (g.base x.call % pool.queueSize)).itemCompleted = false ∧
      ∀ {t' w' stage' x'}, g.phase t' = .held w' stage' → stage'.IsLast →
        g.log[t']? = some x' → x'.call = x.call → t' = t
  finished : ∀ {r}, (request r).isDoWork = true →
    (call r = .returned ∨ ∃ first, call r = .free first) → AllDone pool request g r

/-- What has been processed, and how often. -/
structure Processed (g : Ledger) (processed : Work → Nat) : Prop where
  ran : ∀ {t x}, g.log[t]? = some x → processed x = if (g.phase t).ran then 1 else 0
  never : ∀ {x}, x ∉ g.log → processed x = 0

/-- The shared state keeps the ledger. -/
structure Records (g : Ledger) (s : QueueState) : Prop where
  calls : Calls pool request g s.enqueuePosition s.enqueueMutex s.call
  tickets : Tickets pool request g s.dequeuePosition s.call s.worker
  slots : Slots pool request g s.queue s.call
  counts : Counts pool request g s.queue s.call
  processed : Processed g s.processed

end

/-! ## Tickets and slots -/

theorem mod_inj {n t t' : Nat} (h : t % n = t' % n) (hlo : t < t' + n) (hhi : t' < t + n) :
    t = t' := by
  have key : ∀ {a b : Nat}, a ≤ b → a % n = b % n → b < a + n → a = b := by
    intro a b hle hmod hlt
    have hdvd : n ∣ b - a := Nat.dvd_of_mod_eq_zero (Nat.sub_mod_eq_zero_of_mod_eq hmod.symm)
    have hzero := Nat.eq_zero_of_dvd_of_lt hdvd (by omega)
    omega
  rcases Nat.le_total t t' with hle | hle
  · exact key hle h hhi
  · exact (key hle h.symm hlo).symm

theorem RingPool.queueSize_pos (pool : RingPool) : 0 < pool.queueSize :=
  pool.threadCount_pos.trans_le pool.threadCount_le

theorem length_enqueue (sectorSize : Nat) : ∀ (count units remainder data : Nat) (unitNo : UInt64),
    (enqueue sectorSize count units remainder data unitNo).length = count := by
  intro count
  induction count with
  | zero =>
    intro units remainder data unitNo
    rfl
  | succ count ih =>
    intro units remainder data unitNo
    rw [enqueue, List.length_cons, ih]

/-- A request takes an item at least, and no more than the ring holds. -/
theorem Request.itemCount_bounds (pool : RingPool) (request : Request) :
    0 < request.itemCount pool ∧ request.itemCount pool ≤ pool.queueSize := by
  have hpos := pool.threadCount_pos
  have hle := pool.threadCount_le
  cases request with
  | beginKeyDerivation counter => exact ⟨Nat.one_pos, by simp only [itemCount]; omega⟩
  | doWork type startUnitNo unitCount sectorSize two_le =>
    simp only [itemCount, fragments]
    split
    · rw [length_enqueue]
      omega
    · rw [length_enqueue]
      omega

theorem nextPosition_mod (pool : RingPool) (n : Nat) :
    nextPosition pool (n % pool.queueSize) = (n + 1) % pool.queueSize := by
  have hpos := pool.queueSize_pos
  have hlt := Nat.mod_lt n hpos
  unfold nextPosition
  rw [← Nat.mod_add_mod n pool.queueSize 1]
  split
  · rename_i hend
    rw [show n % pool.queueSize + 1 = pool.queueSize by omega, Nat.mod_self]
  · rename_i hinside
    exact (Nat.mod_eq_of_lt (by omega)).symm

theorem CallPc.inside_of_publish {pc : CallPc} {first index slot : Nat}
    (h : pc = .publish first index slot) : pc.inside = true := by rw [h]; rfl

section
variable {pool : RingPool} {request : Nat → Request} {g : Ledger} {s : QueueState}

theorem lt_of_logged {t : Nat} {x : Work} (h : g.log[t]? = some x) : t < g.log.length :=
  (List.getElem?_eq_some_iff.mp h).1

theorem logged_of_lt {t : Nat} (h : t < g.log.length) : ∃ x, g.log[t]? = some x :=
  ⟨_, List.getElem?_eq_getElem h⟩

section
variable {position : Nat} {mutex : Option Nat} {call : Nat → CallPc}

theorem Calls.ticket_eq (h : Calls pool request g position mutex call) {t : Nat} {x : Work}
    (hx : g.log[t]? = some x) : t = g.base x.call + x.index ∧
      x.index < (call x.call).filled ((request x.call).itemCount pool) :=
  h.log_iff.mp hx

theorem Calls.logged (h : Calls pool request g position mutex call) {r j : Nat}
    (hj : j < (call r).filled ((request r).itemCount pool)) : g.log[g.base r + j]? = some ⟨r, j⟩ :=
  h.log_iff.mpr ⟨rfl, hj⟩

theorem Calls.filled_le (h : Calls pool request g position mutex call) (r : Nat) :
    (call r).filled ((request r).itemCount pool) ≤ (request r).itemCount pool := by
  have hok := h.ok r
  cases hpc : call r with
  | start => exact Nat.zero_le _
  | waitFirst => exact Nat.zero_le _
  | fill first index =>
    rw [hpc] at hok
    exact Nat.le_of_lt hok.1
  | publish first index slot =>
    rw [hpc] at hok
    exact hok.1
  | waitCompleted first => exact Nat.le_refl _
  | free first => exact Nat.le_refl _
  | returned => exact Nat.le_refl _

/-- One call at a time is inside. -/
theorem Calls.inside_unique (h : Calls pool request g position mutex call) {r r' : Nat}
    (hr : (call r).inside = true) (hr' : (call r').inside = true) : r = r' :=
  Option.some.inj (((h.mutex_iff r).mp hr).symm.trans ((h.mutex_iff r').mp hr'))

end

/-- A call with items in the queue has its first one there. -/
theorem Calls.first_logged {position : Nat} {mutex : Option Nat} {call : Nat → CallPc}
    (h : Calls pool request g position mutex call) {t : Nat} {x : Work}
    (hx : g.log[t]? = some x) : g.log[g.base x.call]? = some ⟨x.call, 0⟩ := by
  have hlogged := h.logged (r := x.call) (j := 0) (by
    have := (h.ticket_eq hx).2
    omega)
  rwa [Nat.add_zero] at hlogged

/-- What is not done stands in its slot. -/
theorem Records.current (h : Records pool request g s) {t : Nat} (hne : g.phase t ≠ .done) :
    g.log.length ≤ t + pool.queueSize := by
  by_contra hold
  exact hne (h.slots.window (Nat.lt_of_not_le hold)).1

/-- A call that counts has its first item in its slot. -/
theorem Records.current_of_counting (h : Records pool request g s) {r : Nat}
    (hwork : (request r).isDoWork = true) (hne : s.call r ≠ .returned)
    (hlogged : g.log[g.base r]? = some ⟨r, 0⟩) : g.log.length ≤ g.base r + pool.queueSize := by
  by_contra hold
  exact hne ((h.slots.window (Nat.lt_of_not_le hold)).2 _ hlogged hwork)

/-- Two items that stand in one slot are one. -/
theorem ticket_unique {t t' : Nat} (ht : t < g.log.length)
    (hcur : g.log.length ≤ t + pool.queueSize) (ht' : t' < g.log.length)
    (hcur' : g.log.length ≤ t' + pool.queueSize)
    (h : t % pool.queueSize = t' % pool.queueSize) : t = t' :=
  mod_inj h (by omega) (by omega)

theorem Records.allDone_of_returned (h : Records pool request g s) {r : Nat}
    (hwork : (request r).isDoWork = true) (hret : s.call r = .returned) :
    AllDone pool request g r := h.counts.finished hwork (Or.inl hret)

theorem keepsSlot_iff {call : Nat → CallPc} {x : Work} : keepsSlot request call x = true ↔
    (request x.call).isDoWork = true ∧ x.index = 0 ∧ call x.call ≠ .returned := by
  simp only [keepsSlot, Bool.and_eq_true, decide_eq_true_eq, and_assoc]

/-- **A slot found free is done with.** Behind the item that stood in it last, one ring back, the
    first item of its call was passed, and found free too. -/
theorem Records.retired_of_free (h : Records pool request g s)
    (hfree : (s.queue s.enqueuePosition).state = .free)
    (hquiet : ∀ r first index slot, s.call r ≠ .publish first index slot)
    {t : Nat} (ht : t + pool.queueSize = g.log.length) : Retired request g s.call t := by
  have hpos := pool.queueSize_pos
  obtain ⟨x, hx⟩ := logged_of_lt (g := g) (show t < g.log.length by omega)
  have hslot : s.enqueuePosition = t % pool.queueSize := by
    rw [h.calls.position_eq, ← ht, Nat.add_mod_right]
  obtain ⟨-, -, hstate⟩ := h.slots.item hx (by omega)
  rw [← hslot, hfree] at hstate
  obtain ⟨hticket, hindex⟩ := h.calls.ticket_eq hx
  have hfirst := h.calls.first_logged hx
  -- the call of the item has returned: its first slot is this one, or was passed before
  have hreturned : (request x.call).isDoWork = true →
      (x.index = 0 → s.call x.call = .returned) → s.call x.call = .returned := by
    intro hwork hzero
    by_cases hindex0 : x.index = 0
    · exact hzero hindex0
    · have hpassed : g.base x.call + pool.queueSize < g.log.length := by omega
      have hret := (h.slots.window hpassed).2 ⟨x.call, 0⟩ hfirst
      exact hret hwork
  have hkept : ItemState.free = (if keepsSlot request s.call x then .busy else .free) →
      (request x.call).isDoWork = true → x.index = 0 → s.call x.call = .returned := by
    intro hstate hwork hzero
    by_contra hne
    rw [if_pos (keepsSlot_iff.mpr ⟨hwork, hzero, hne⟩)] at hstate
    exact absurd hstate (by simp)
  unfold expectedState at hstate
  generalize hphase : g.phase t = phase at hstate
  unfold Phase.itemState at hstate
  split at hstate
  · exact absurd ((h.tickets.unborn_iff t).mp hphase) (by omega)
  · obtain ⟨r, first, index, slot, hpc, -⟩ := (h.tickets.written_iff t).mp hphase
    exact absurd hpc (hquiet r first index slot)
  · exact absurd hstate (by simp)
  · exact absurd hstate (by simp)
  · exact absurd hstate (by simp)
  · exact absurd hstate (by simp)
  · exact absurd hstate (by simp)
  · rename_i w stage hrun hcount hfreeStage hrelease
    have hfits := (h.tickets.held hphase hx).1
    have hwork : (request x.call).isDoWork = true := by
      cases stage <;> first | exact hfits | exact absurd rfl ‹_›
    have hret := hreturned hwork (hkept hstate hwork)
    have hdone := h.allDone_of_returned hwork hret x.index
      (Nat.lt_of_lt_of_le hindex (h.calls.filled_le x.call))
    rw [← hticket, hphase] at hdone
    exact absurd hdone (by simp)
  · refine ⟨hphase, ?_⟩
    intro y hy hwork
    cases Option.some.inj (hx.symm.trans hy)
    exact hreturned hwork (hkept hstate hwork)

/-- **Two calls that count have two first slots.** -/
theorem Records.counting_unique (h : Records pool request g s) {r r' : Nat}
    (hwork : (request r).isDoWork = true) (hr : (s.call r).counting = true)
    (hwork' : (request r').isDoWork = true) (hr' : (s.call r').counting = true)
    (hslot : g.base r % pool.queueSize = g.base r' % pool.queueSize) : r = r' := by
  have hpos := pool.queueSize_pos
  -- a call that counts either has its first item in the queue, or is about to put it there
  have hcases : ∀ {q}, (request q).isDoWork = true → (s.call q).counting = true →
      (g.log[g.base q]? = some ⟨q, 0⟩ ∧ g.log.length ≤ g.base q + pool.queueSize) ∨
        ((s.call q).inside = true ∧ g.base q = g.log.length ∧
          ∃ first, s.call q = .fill first 0) := by
    intro q hworkq hq
    have hne : s.call q ≠ .returned := by
      intro hret
      rw [hret] at hq
      exact absurd hq (by decide)
    by_cases hfilled : 0 < (s.call q).filled ((request q).itemCount pool)
    · have hlogged := h.calls.logged hfilled
      rw [Nat.add_zero] at hlogged
      exact Or.inl ⟨hlogged, h.current_of_counting hworkq hne hlogged⟩
    · have hcount := ((request q).itemCount_bounds pool).1
      cases hpc : s.call q with
      | start => rw [hpc] at hq; exact absurd hq (by decide)
      | waitFirst => rw [hpc] at hq; exact absurd hq (by decide)
      | fill first index =>
        have hindex : index = 0 := by
          rw [hpc] at hfilled
          simpa [CallPc.filled] using hfilled
        subst hindex
        have hinside : (s.call q).inside = true := by rw [hpc]; rfl
        have hlast := h.calls.last hinside
        rw [hpc] at hlast
        exact Or.inr ⟨rfl, hlast, first, rfl⟩
      | publish first index slot =>
        rw [hpc] at hfilled
        exact absurd (Nat.succ_pos _) hfilled
      | waitCompleted first =>
        rw [hpc] at hfilled
        exact absurd hcount hfilled
      | free first => rw [hpc] at hq; exact absurd hq Bool.false_ne_true
      | returned => exact absurd hpc hne
  rcases hcases hwork hr with ⟨hlog, hcur⟩ | ⟨hin, hbase, first, hpc⟩
  · rcases hcases hwork' hr' with ⟨hlog', hcur'⟩ | ⟨hin', hbase', first', hpc'⟩
    · have hsame := ticket_unique (lt_of_logged hlog) hcur (lt_of_logged hlog') hcur' hslot
      rw [hsame, hlog'] at hlog
      exact (congrArg Work.call (Option.some.inj hlog)).symm
    · have hlt := lt_of_logged hlog
      have hring : g.base r + pool.queueSize = g.log.length := by
        refine mod_inj (n := pool.queueSize) ?_ (by omega) (by omega)
        rw [Nat.add_mod_right, hslot, hbase']
      have hret := (h.slots.reserved hpc' hwork' hring).2 _ hlog hwork
      rw [hret] at hr
      exact absurd hr (by decide)
  · rcases hcases hwork' hr' with ⟨hlog', hcur'⟩ | ⟨hin', hbase', first', hpc'⟩
    · have hlt := lt_of_logged hlog'
      have hring : g.base r' + pool.queueSize = g.log.length := by
        refine mod_inj (n := pool.queueSize) ?_ (by omega) (by omega)
        rw [Nat.add_mod_right, ← hslot, hbase]
      have hret := (h.slots.reserved hpc hwork hring).2 _ hlog' hwork'
      rw [hret] at hr'
      exact absurd hr' (by decide)
    · exact h.calls.inside_unique hin hin'

/-! ## One item goes on -/

section
variable {position : Nat} {mutex : Option Nat} {call : Nat → CallPc} {worker : Nat → WorkerPc}
  {queue queue' : Nat → WorkItem} {t : Nat} {x : Work} {phase : Phase}

@[simp] theorem Ledger.setPhase_log : (g.setPhase t phase).log = g.log := rfl
@[simp] theorem Ledger.setPhase_base : (g.setPhase t phase).base = g.base := rfl
@[simp] theorem Ledger.setPhase_dequeued : (g.setPhase t phase).dequeued = g.dequeued := rfl
@[simp] theorem Ledger.setPhase_self : (g.setPhase t phase).phase t = phase :=
  Function.update_self _ _ _

theorem Ledger.setPhase_of_ne {t' : Nat} (h : t' ≠ t) :
    (g.setPhase t phase).phase t' = g.phase t' := Function.update_of_ne h _ _

theorem Calls.setPhase (h : Calls pool request g position mutex call) :
    Calls pool request (g.setPhase t phase) position mutex call :=
  ⟨h.position_eq, h.log_iff, h.mutex_iff, h.last, h.ok⟩

/-- What was done stays done. -/
theorem done_setPhase (hne : g.phase t ≠ .done) {t' : Nat} (h : g.phase t' = .done) :
    (g.setPhase t phase).phase t' = .done := by
  rw [Ledger.setPhase_of_ne, h]
  rintro rfl
  exact hne h

theorem AllDone.setPhase (hne : g.phase t ≠ .done) {r : Nat} (h : AllDone pool request g r) :
    AllDone pool request (g.setPhase t phase) r := fun j hj => done_setPhase hne (h j hj)

theorem Retired.setPhase (hne : g.phase t ≠ .done) {t' : Nat} (h : Retired request g call t') :
    Retired request (g.setPhase t phase) call t' := ⟨done_setPhase hne h.1, h.2⟩

theorem mem_uncredited {r j : Nat} : j ∈ uncredited pool request g r ↔
    j < (request r).itemCount pool ∧ (g.phase (g.base r + j)).credited = false := by
  simp [uncredited]

/-- An item that goes on to be counted down is the only one that leaves the set. -/
theorem uncredited_setPhase_subset (hcredited : (g.phase t).credited = true →
    phase.credited = true) (r : Nat) :
    uncredited pool request (g.setPhase t phase) r ⊆ uncredited pool request g r := by
  intro j hj
  obtain ⟨hlt, hphase⟩ := mem_uncredited.mp hj
  refine mem_uncredited.mpr ⟨hlt, ?_⟩
  by_cases ht : g.base r + j = t
  · rw [Ledger.setPhase_base, ht, Ledger.setPhase_self] at hphase
    rw [ht]
    by_contra hyes
    rw [hcredited (by simpa using hyes)] at hphase
    exact absurd hphase (by simp)
  · rwa [Ledger.setPhase_base, Ledger.setPhase_of_ne ht] at hphase

/-- The calls that count have tickets of their own. -/
theorem Calls.base_add_ne (h : Calls pool request g position mutex call)
    (hx : g.log[t]? = some x) {r j : Nat} (hr : (call r).counting = true) (hne : r ≠ x.call)
    (hj : j < (request r).itemCount pool) : g.base r + j ≠ t := by
  intro heq
  have hlt := lt_of_logged hx
  have hfilled : ¬ j < (call r).filled ((request r).itemCount pool) := by
    intro hfilled
    have hlogged := h.logged hfilled
    rw [heq, hx] at hlogged
    exact hne (congrArg Work.call (Option.some.inj hlogged)).symm
  by_cases hin : (call r).inside = true
  · have hlast := h.last hin
    omega
  · cases hpc : call r with
    | start => rw [hpc] at hr; exact absurd hr Bool.false_ne_true
    | waitFirst => rw [hpc] at hr; exact absurd hr Bool.false_ne_true
    | fill first index => rw [hpc] at hin; exact absurd rfl hin
    | publish first index slot => rw [hpc] at hin; exact absurd rfl hin
    | waitCompleted first => rw [hpc] at hfilled; exact hfilled hj
    | free first => rw [hpc] at hr; exact absurd hr Bool.false_ne_true
    | returned => rw [hpc] at hr; exact absurd hr Bool.false_ne_true

theorem uncredited_setPhase_other (h : Calls pool request g position mutex call)
    (hx : g.log[t]? = some x) {r : Nat} (hr : (call r).counting = true) (hne : r ≠ x.call) :
    uncredited pool request (g.setPhase t phase) r = uncredited pool request g r := by
  unfold uncredited
  refine Finset.filter_congr ?_
  intro j hj
  rw [Ledger.setPhase_base, Ledger.setPhase_of_ne (h.base_add_ne hx hr hne
    (Finset.mem_range.mp hj))]

theorem uncredited_setPhase (hcredited : phase.credited = (g.phase t).credited) (r : Nat) :
    uncredited pool request (g.setPhase t phase) r = uncredited pool request g r := by
  unfold uncredited
  refine Finset.filter_congr ?_
  intro j _
  rw [Ledger.setPhase_base]
  by_cases hj : g.base r + j = t
  · rw [hj, Ledger.setPhase_self, hcredited]
  · rw [Ledger.setPhase_of_ne hj]

theorem expectedState_of_ne {t' : Nat} (h : t' ≠ t) (y : Work) :
    expectedState request (g.setPhase t phase) call t' y = expectedState request g call t' y := by
  unfold expectedState
  rw [Ledger.setPhase_of_ne h]

/-- A worker goes on with its item. -/
theorem Tickets.advance (h : Tickets pool request g position call worker) {w first : Nat}
    {stage stage' : Stage} (hheld : g.phase t = .held w stage) (hx : g.log[t]? = some x)
    (hfits : stage'.Fits (request x.call).isDoWork)
    (hfirst : stage'.HasFirst → first = g.base x.call % pool.queueSize) :
    Tickets pool request (g.setPhase t (.held w stage')) position call
      (Function.update worker w (.busy stage' (t % pool.queueSize) first x)) where
  position_eq := h.position_eq
  unborn_iff t' := by
    by_cases ht : t' = t
    · subst ht
      rw [Ledger.setPhase_self, Ledger.setPhase_log, ← h.unborn_iff, hheld]
      simp
    · rw [Ledger.setPhase_of_ne ht]
      exact h.unborn_iff t'
  claimed_iff t' := by
    by_cases ht : t' = t
    · subst ht
      rw [Ledger.setPhase_self, Ledger.setPhase_dequeued, ← h.claimed_iff, hheld]
      simp [Phase.claimed]
    · rw [Ledger.setPhase_of_ne ht]
      exact h.claimed_iff t'
  written_iff t' := by
    rw [Ledger.setPhase_base]
    by_cases ht : t' = t
    · subst ht
      rw [Ledger.setPhase_self, ← h.written_iff, hheld]
      simp
    · rw [Ledger.setPhase_of_ne ht]
      exact h.written_iff t'
  held := by
    intro t' w' stage₁ x' hphase hx'
    by_cases ht : t' = t
    · subst ht
      cases Option.some.inj (hx.symm.trans hx')
      rw [Ledger.setPhase_self] at hphase
      obtain ⟨rfl, rfl⟩ := Phase.held.inj hphase
      exact ⟨hfits, first, Function.update_self _ _ _, hfirst⟩
    · rw [Ledger.setPhase_of_ne ht] at hphase
      obtain ⟨hfits', first', hworker, hfirst'⟩ := h.held hphase hx'
      refine ⟨hfits', first', ?_, hfirst'⟩
      rw [Function.update_of_ne, hworker]
      rintro rfl
      exact ht (h.unique hphase hheld)
  worker := by
    intro w' stage₁ slot first' x' hworker
    by_cases hw : w' = w
    · subst hw
      rw [Function.update_self] at hworker
      cases hworker
      exact ⟨t, Ledger.setPhase_self⟩
    · rw [Function.update_of_ne hw] at hworker
      obtain ⟨t', hphase⟩ := h.worker hworker
      refine ⟨t', ?_⟩
      rw [Ledger.setPhase_of_ne, hphase]
      rintro rfl
      exact hw (Phase.held.inj (hphase.symm.trans hheld)).1
  unique := by
    intro w' stage₁ stage₂ t₁ t₂ h₁ h₂
    by_cases ht₁ : t₁ = t
    · by_cases ht₂ : t₂ = t
      · rw [ht₁, ht₂]
      · rw [ht₁, Ledger.setPhase_self] at h₁
        rw [Ledger.setPhase_of_ne ht₂] at h₂
        rw [(Phase.held.inj h₁).1] at hheld
        exact ht₁.trans (h.unique hheld h₂)
    · by_cases ht₂ : t₂ = t
      · rw [ht₂, Ledger.setPhase_self] at h₂
        rw [Ledger.setPhase_of_ne ht₁] at h₁
        rw [(Phase.held.inj h₂).1] at hheld
        exact (h.unique h₁ hheld).trans ht₂.symm
      · rw [Ledger.setPhase_of_ne ht₁] at h₁
        rw [Ledger.setPhase_of_ne ht₂] at h₂
        exact h.unique h₁ h₂

/-- A worker is done with its item. -/
theorem Tickets.finish (h : Tickets pool request g position call worker) {w : Nat}
    {stage : Stage} (hheld : g.phase t = .held w stage) :
    Tickets pool request (g.setPhase t .done) position call (Function.update worker w .idle) where
  position_eq := h.position_eq
  unborn_iff t' := by
    by_cases ht : t' = t
    · subst ht
      rw [Ledger.setPhase_self, Ledger.setPhase_log, ← h.unborn_iff, hheld]
      simp
    · rw [Ledger.setPhase_of_ne ht]
      exact h.unborn_iff t'
  claimed_iff t' := by
    by_cases ht : t' = t
    · subst ht
      rw [Ledger.setPhase_self, Ledger.setPhase_dequeued, ← h.claimed_iff, hheld]
      simp [Phase.claimed]
    · rw [Ledger.setPhase_of_ne ht]
      exact h.claimed_iff t'
  written_iff t' := by
    rw [Ledger.setPhase_base]
    by_cases ht : t' = t
    · subst ht
      rw [Ledger.setPhase_self, ← h.written_iff, hheld]
      simp
    · rw [Ledger.setPhase_of_ne ht]
      exact h.written_iff t'
  held := by
    intro t' w' stage₁ x' hphase hx'
    by_cases ht : t' = t
    · rw [ht, Ledger.setPhase_self] at hphase
      exact absurd hphase (by simp)
    · rw [Ledger.setPhase_of_ne ht] at hphase
      obtain ⟨hfits', first', hworker, hfirst'⟩ := h.held hphase hx'
      refine ⟨hfits', first', ?_, hfirst'⟩
      rw [Function.update_of_ne, hworker]
      rintro rfl
      exact ht (h.unique hphase hheld)
  worker := by
    intro w' stage₁ slot first' x' hworker
    by_cases hw : w' = w
    · subst hw
      rw [Function.update_self] at hworker
      exact absurd hworker (by simp)
    · rw [Function.update_of_ne hw] at hworker
      obtain ⟨t', hphase⟩ := h.worker hworker
      refine ⟨t', ?_⟩
      rw [Ledger.setPhase_of_ne, hphase]
      rintro rfl
      exact hw (Phase.held.inj (hphase.symm.trans hheld)).1
  unique := by
    intro w' stage₁ stage₂ t₁ t₂ h₁ h₂
    have hne : ∀ {t' stage₃}, (g.setPhase t .done).phase t' = .held w' stage₃ →
        g.phase t' = .held w' stage₃ := by
      intro t' stage₃ h₃
      rw [← h₃, Ledger.setPhase_of_ne]
      rintro rfl
      rw [Ledger.setPhase_self] at h₃
      exact absurd h₃ (by simp)
    exact h.unique (hne h₁) (hne h₂)

/-- The slots, where the item of one goes on. -/
theorem Slots.change (h : Slots pool request g queue call) (hx : g.log[t]? = some x)
    (hcur : g.log.length ≤ t + pool.queueSize) (hne : g.phase t ≠ .done)
    (hwork : ∀ p, (queue' p).work = (queue p).work)
    (hfirst : ∀ p, (queue' p).firstFragment = (queue p).firstFragment)
    (hother : ∀ p, p ≠ t % pool.queueSize → (queue' p).state = (queue p).state)
    (hstate : (queue' (t % pool.queueSize)).state =
      expectedState request (g.setPhase t phase) call t x) :
    Slots pool request (g.setPhase t phase) queue' call where
  window := by
    intro t' ht'
    exact (h.window ht').setPhase hne
  reserved := by
    intro r first hpc hdo t' ht'
    exact (h.reserved hpc hdo ht').setPhase hne
  item := by
    intro t' x' hx' hcur'
    obtain ⟨hitem, hpointer, hold⟩ := h.item hx' hcur'
    refine ⟨(hwork _).trans hitem, fun hdo => (hfirst _).trans (hpointer hdo), ?_⟩
    by_cases ht : t' = t
    · subst ht
      cases Option.some.inj (hx.symm.trans hx')
      exact hstate
    · rw [hother, hold, expectedState_of_ne ht]
      intro hslot
      exact ht (ticket_unique (lt_of_logged hx') hcur' (lt_of_logged hx) hcur hslot)
  unused := by
    intro p hp hunused
    have hlt := lt_of_logged hx
    rw [Ledger.setPhase_log] at hunused
    rw [hother, h.unused hp hunused]
    rw [Nat.mod_eq_of_lt (by omega)]
    omega

/-- The counts, where an item goes on that is not counted down by it. -/
theorem Counts.setPhase (h : Counts pool request g queue call) (hne : g.phase t ≠ .done)
    (hsame : ∀ {r}, (request r).isDoWork = true → (call r).counting = true →
      uncredited pool request (g.setPhase t phase) r = uncredited pool request g r)
    (hsub : ∀ r, uncredited pool request (g.setPhase t phase) r ⊆ uncredited pool request g r)
    (hlast : ∀ {w stage}, phase = .held w stage → stage.IsLast →
      ∃ w' stage', g.phase t = .held w' stage' ∧ stage'.IsLast)
    (hcount : ∀ p, (queue' p).outstandingFragmentCount = (queue p).outstandingFragmentCount)
    (hflag : ∀ p, (queue' p).itemCompleted = (queue p).itemCompleted) :
    Counts pool request (g.setPhase t phase) queue' call where
  count := by
    intro r hdo hr
    rw [hsame hdo hr, Ledger.setPhase_base, hcount, h.count hdo hr]
  flag := by
    intro p hp
    obtain ⟨r, hpc, hall⟩ := h.flag ((hflag p).symm.trans hp)
    exact ⟨r, hpc, hall.setPhase hne⟩
  last := by
    have hold : ∀ {t' w stage}, (g.setPhase t phase).phase t' = .held w stage → stage.IsLast →
        ∃ w' stage', g.phase t' = .held w' stage' ∧ stage'.IsLast := by
      intro t' w stage hphase hstage
      by_cases ht : t' = t
      · subst ht
        rw [Ledger.setPhase_self] at hphase
        exact hlast hphase hstage
      · rw [Ledger.setPhase_of_ne ht] at hphase
        exact ⟨w, stage, hphase, hstage⟩
    intro t' w stage x' hphase hstage hx'
    obtain ⟨w₀, stage₀, hphase₀, hstage₀⟩ := hold hphase hstage
    obtain ⟨hnone, hoff, hunique⟩ := h.last hphase₀ hstage₀ hx'
    have hempty := hsub x'.call
    rw [hnone] at hempty
    rw [Ledger.setPhase_base, hflag]
    refine ⟨Finset.subset_empty.mp hempty, hoff, ?_⟩
    intro t'' w'' stage'' x'' hphase'' hstage'' hx'' hcall
    obtain ⟨w₁, stage₁, hphase₁, hstage₁⟩ := hold hphase'' hstage''
    exact hunique hphase₁ hstage₁ hx'' hcall
  finished := by
    intro r hdo hr
    exact (h.finished hdo hr).setPhase hne

theorem Processed.setPhase {processed : Work → Nat} (h : Processed g processed)
    (hran : phase.ran = (g.phase t).ran) : Processed (g.setPhase t phase) processed where
  ran := by
    intro t' x' hx'
    rw [h.ran hx']
    by_cases ht : t' = t
    · subst ht
      rw [Ledger.setPhase_self, hran]
    · rw [Ledger.setPhase_of_ne ht]
  never := h.never

end

end

end EncryptionThreadPool

end VeraCrypt
