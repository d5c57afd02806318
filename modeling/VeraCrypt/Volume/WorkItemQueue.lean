import VeraCrypt.Volume.EncryptionThreadPool

/-!
# The work item queue (`Volume/EncryptionThreadPool.cpp`)

Callers put work items into a ring under `EnqueueMutex`, workers take them out under
`DequeueMutex`, and nothing else orders the two. A worker gives the slot of a fragment back before
it counts the fragment down, and finds the counter through the slot it has given back. That this
is safe comes from the ring: to come to the slot again a caller has to pass the slot of the first
fragment, which stays taken until the call is counted down to the end (`Ledger.retired_of_free`).

A step is one thread's next access to what the threads share; a schedule is any list of threads.
What a thread does alone, or under a mutex on data of that mutex only, is part of the step beside
it. A thread that waits for an item has no step while the item is not as it wants it.
-/

set_option autoImplicit false

namespace VeraCrypt

namespace EncryptionThreadPool

/-! ## The pool and its callers -/

/-- A running pool: `QueueSize` and `ThreadCount`. -/
structure RingPool where
  queueSize : Nat
  threadCount : Nat
  threadCount_pos : 0 < threadCount
  threadCount_le : threadCount ≤ queueSize

/-- What is asked of the pool. `DoWork` with fewer than two units does not use the queue. -/
inductive Request where
  | doWork (type : WorkType) (startUnitNo unitCount sectorSize : UInt64)
      (two_le : 2 ≤ unitCount.toNat)
  | beginKeyDerivation (outstandingWorkItemCount : Nat)

namespace Request

def isDoWork : Request → Bool
  | .doWork .. => true
  | .beginKeyDerivation _ => false

/-- How many work items a request takes. -/
def itemCount (pool : RingPool) : Request → Nat
  | .doWork _ startUnitNo unitCount sectorSize _ =>
    (fragments pool.threadCount startUnitNo unitCount sectorSize).length
  | .beginKeyDerivation _ => 1

end Request

/-! ## The shared state -/

inductive ItemState where
  | free | ready | busy
  deriving DecidableEq

/-- What `Type` and the union of a work item say: which item of which call it is. -/
structure Work where
  call : Nat
  index : Nat
  deriving DecidableEq

structure WorkItem where
  state : ItemState
  work : Work
  firstFragment : Nat
  outstandingFragmentCount : Nat
  /-- `ItemCompletedEvent` is signaled. -/
  itemCompleted : Bool

/-- Where a call of `DoWork` or `BeginKeyDerivation` is, with its local variables. `first` is
    `firstFragmentWorkItem`, `index` counts the items it has put into the queue. -/
inductive CallPc where
  | start
  /-- waits for the first slot of a `DoWork` -/
  | waitFirst
  /-- waits for the next slot, to fill it -/
  | fill (first index : Nat)
  /-- has filled the slot, and will set it ready -/
  | publish (first index slot : Nat)
  /-- waits for `ItemCompletedEvent` -/
  | waitCompleted (first : Nat)
  /-- will set the first slot free -/
  | free (first : Nat)
  | returned
  deriving DecidableEq

/-- What a worker with an item does next. -/
inductive Stage where
  | run | countDerivation | freeDerivation
  /-- gives the slot of a fragment back, unless it is the first -/
  | release
  /-- reads `FirstFragment`, and counts it down -/
  | follow | credit
  /-- reads `FirstFragment` again, and signals its event -/
  | followAgain | signal
  deriving DecidableEq

/-- Where a worker is. `slot` is `workItem`, `first` is what it last read as `FirstFragment`, and
    `taken` is what stood in the slot when the worker took it, which it does not keep itself. -/
inductive WorkerPc where
  | idle
  | busy (stage : Stage) (slot first : Nat) (taken : Work)
  deriving DecidableEq

structure QueueState where
  queue : Nat → WorkItem
  enqueuePosition : Nat
  dequeuePosition : Nat
  enqueueMutex : Option Nat
  call : Nat → CallPc
  worker : Nat → WorkerPc
  /-- the counters that callers of `BeginKeyDerivation` hand in -/
  outstandingWorkItemCount : Nat → Nat
  /-- how often an item has been processed -/
  processed : Work → Nat

/-- What `Start` leaves. -/
def QueueState.init : QueueState where
  queue _ := { state := .free, work := ⟨0, 0⟩, firstFragment := 0, outstandingFragmentCount := 0,
               itemCompleted := false }
  enqueuePosition := 0
  dequeuePosition := 0
  enqueueMutex := none
  call _ := .start
  worker _ := .idle
  outstandingWorkItemCount _ := 0
  processed _ := 0

/-! ## Steps -/

/-- `SharedVal <size_t>::Decrement`. -/
def decrement (count : Nat) : Nat := if count = 0 then 2 ^ 64 - 1 else count - 1

/-- The position behind one of the ring. -/
def nextPosition (pool : RingPool) (position : Nat) : Nat :=
  if pool.queueSize ≤ position + 1 then 0 else position + 1

namespace QueueState

def setItem (s : QueueState) (slot : Nat) (item : WorkItem) : QueueState :=
  { s with queue := Function.update s.queue slot item }

def setCall (s : QueueState) (r : Nat) (pc : CallPc) : QueueState :=
  { s with call := Function.update s.call r pc }

def setWorker (s : QueueState) (w : Nat) (pc : WorkerPc) : QueueState :=
  { s with worker := Function.update s.worker w pc }

end QueueState

/-- The next step of a call. -/
def callStep (pool : RingPool) (request : Nat → Request) (r : Nat) (s : QueueState) :
    Option QueueState :=
  match s.call r with
  | .start =>
    if s.enqueueMutex = none then
      some ({ s with enqueueMutex := some r }.setCall r
        (if (request r).isDoWork then .waitFirst else .fill s.enqueuePosition 0))
    else none
  | .waitFirst =>
    let item := s.queue s.enqueuePosition
    if item.state = .free then
      some ((s.setItem s.enqueuePosition
        { item with outstandingFragmentCount := (request r).itemCount pool }).setCall r
          (.fill s.enqueuePosition 0))
    else none
  | .fill first index =>
    let item := s.queue s.enqueuePosition
    if item.state = .free then
      let s := (s.setItem s.enqueuePosition
        { item with
          work := ⟨r, index⟩
          firstFragment := if (request r).isDoWork then first else item.firstFragment }).setCall r
            (.publish first index s.enqueuePosition)
      some { s with
        enqueuePosition := nextPosition pool s.enqueuePosition
        outstandingWorkItemCount := match request r with
          | .beginKeyDerivation counter =>
            Function.update s.outstandingWorkItemCount counter
              (s.outstandingWorkItemCount counter + 1)
          | .doWork .. => s.outstandingWorkItemCount }
    else none
  | .publish first index slot =>
    let s := s.setItem slot { s.queue slot with state := .ready }
    if index + 1 < (request r).itemCount pool then some (s.setCall r (.fill first (index + 1)))
    else
      some ({ s with enqueueMutex := none }.setCall r
        (if (request r).isDoWork then .waitCompleted first else .returned))
  | .waitCompleted first =>
    if (s.queue first).itemCompleted then
      some ((s.setItem first { s.queue first with itemCompleted := false }).setCall r (.free first))
    else none
  | .free first =>
    some ((s.setItem first { s.queue first with state := .free }).setCall r .returned)
  | .returned => none

/-- The next step of a worker. It holds `DequeueMutex` from the moment it takes a position until
    it has set the item busy. -/
def workerStep (pool : RingPool) (request : Nat → Request) (w : Nat) (s : QueueState) :
    Option QueueState :=
  match s.worker w with
  | .idle =>
    let slot := s.dequeuePosition
    let item := s.queue slot
    if item.state = .ready then
      some ({ s with dequeuePosition := nextPosition pool slot }.setItem slot
        { item with state := .busy } |>.setWorker w (.busy .run slot 0 item.work))
    else none
  | .busy .run slot first taken =>
    let work := (s.queue slot).work
    let processed := Function.update s.processed work (s.processed work + 1)
    some ({ s with processed := processed }.setWorker w
      (.busy (if (request work.call).isDoWork then .release else .countDerivation) slot first
        taken))
  | .busy .countDerivation slot first taken =>
    match request (s.queue slot).work.call with
    | .beginKeyDerivation counter =>
        let count := decrement (s.outstandingWorkItemCount counter)
      let counts := Function.update s.outstandingWorkItemCount counter count
      some ({ s with outstandingWorkItemCount := counts }.setWorker w
        (.busy .freeDerivation slot first taken))
    | .doWork .. => none
  | .busy .freeDerivation slot _ _ =>
    some ((s.setItem slot { s.queue slot with state := .free }).setWorker w .idle)
  | .busy .release slot first taken =>
    let s' := if slot ≠ (s.queue slot).firstFragment then
      s.setItem slot { s.queue slot with state := .free } else s
    some (s'.setWorker w (.busy .follow slot first taken))
  | .busy .follow slot _ taken =>
    some (s.setWorker w (.busy .credit slot (s.queue slot).firstFragment taken))
  | .busy .credit slot first taken =>
    let count := decrement (s.queue first).outstandingFragmentCount
    some ((s.setItem first { s.queue first with outstandingFragmentCount := count }).setWorker w
      (if count = 0 then .busy .followAgain slot first taken else .idle))
  | .busy .followAgain slot _ taken =>
    some (s.setWorker w (.busy .signal slot (s.queue slot).firstFragment taken))
  | .busy .signal _ first _ =>
    some ((s.setItem first { s.queue first with itemCompleted := true }).setWorker w .idle)

inductive ThreadId where
  | call (r : Nat)
  | worker (w : Nat)

def threadStep (pool : RingPool) (request : Nat → Request) (s : QueueState) :
    ThreadId → Option QueueState
  | .call r => callStep pool request r s
  | .worker w => workerStep pool request w s

/-- An interleaving: the threads take their steps in the order of a schedule. -/
def interleave (pool : RingPool) (request : Nat → Request) (schedule : List ThreadId) :
    Option QueueState :=
  schedule.foldlM (threadStep pool request) .init

end EncryptionThreadPool

end VeraCrypt
