import VeraCrypt.Volume.WorkItemLedger

/-!
# The steps of the work item queue

What each step does to the ledger. A step of a worker takes one item further, a step of a call
under `EnqueueMutex` writes one more.
-/

set_option autoImplicit false

namespace VeraCrypt

namespace EncryptionThreadPool

section
variable {pool : RingPool} {request : Nat → Request} {g : Ledger} {s : QueueState}

/-! ## The steps of a worker -/

/-- What a worker with an item works on. -/
theorem Records.held_of_busy (h : Records pool request g s) {w slot first : Nat} {stage : Stage}
    {taken : Work} (hw : s.worker w = .busy stage slot first taken) :
    ∃ t, g.phase t = .held w stage ∧ g.log[t]? = some taken ∧ slot = t % pool.queueSize ∧
      g.log.length ≤ t + pool.queueSize ∧ stage.Fits (request taken.call).isDoWork ∧
      (stage.HasFirst → first = g.base taken.call % pool.queueSize) := by
  obtain ⟨t, hphase⟩ := h.tickets.worker hw
  have hborn : t < g.log.length := by
    by_contra hlate
    have hunborn := (h.tickets.unborn_iff t).mpr (Nat.le_of_not_lt hlate)
    exact absurd (hphase.symm.trans hunborn) (by simp)
  obtain ⟨x, hx⟩ := logged_of_lt hborn
  obtain ⟨hfits, first', hworker, hfirst⟩ := h.tickets.held hphase hx
  obtain ⟨-, rfl, rfl, rfl⟩ := WorkerPc.busy.inj (hw.symm.trans hworker)
  exact ⟨t, hphase, hx, rfl, h.current (by rw [hphase]; simp), hfits, hfirst⟩

/-- The ticket of an item is one. -/
theorem Records.logged_unique (h : Records pool request g s) {t t' : Nat} {x : Work}
    (hx : g.log[t]? = some x) (hx' : g.log[t']? = some x) : t = t' :=
  (h.calls.ticket_eq hx).1.trans (h.calls.ticket_eq hx').1.symm

section
variable {w slot first t : Nat} {stage stage' : Stage} {taken : Work}

theorem Phase.ne_done_of_held {w : Nat} {phase : Phase} (h : phase = .held w stage) :
    phase ≠ .done := by
  rw [h]
  exact Phase.noConfusion

/-- A worker goes on and the slots stay as they are. -/
theorem Records.advance (h : Records pool request g s) (hphase : g.phase t = .held w stage)
    (hx : g.log[t]? = some taken) (hcur : g.log.length ≤ t + pool.queueSize)
    (hfits : stage'.Fits (request taken.call).isDoWork)
    (hfirst : stage'.HasFirst → first = g.base taken.call % pool.queueSize)
    (hcredited : (Phase.held w stage').credited = (Phase.held w stage).credited)
    (hlast : stage'.IsLast → stage.IsLast)
    (hran : (Phase.held w stage').ran = (Phase.held w stage).ran)
    (hstate : expectedState request (g.setPhase t (.held w stage')) s.call t taken =
      expectedState request g s.call t taken) :
    Records pool request (g.setPhase t (.held w stage'))
      (s.setWorker w (.busy stage' (t % pool.queueSize) first taken)) where
  calls := h.calls.setPhase
  tickets := h.tickets.advance hphase hx hfits hfirst
  slots := h.slots.change hx hcur (Phase.ne_done_of_held hphase) (fun _ => rfl) (fun _ => rfl)
    (fun _ _ => rfl) ((h.slots.item hx hcur).2.2.trans hstate.symm)
  counts := by
    have hsame : ∀ r, uncredited pool request (g.setPhase t (.held w stage')) r =
        uncredited pool request g r :=
      uncredited_setPhase (hcredited.trans (congrArg Phase.credited hphase.symm))
    refine h.counts.setPhase (Phase.ne_done_of_held hphase) (fun _ _ => hsame _)
      (fun r => (hsame r).le) ?_ (fun _ => rfl) (fun _ => rfl)
    intro w' stage'' heq hstage''
    rw [← (Phase.held.inj heq).2] at hstage''
    exact ⟨w, stage, hphase, hlast hstage''⟩
  processed := h.processed.setPhase (by rw [hphase, hran])

theorem expectedState_of_phase {g' : Ledger} {call : Nat → CallPc} {phase : Phase} (x : Work)
    (h : g'.phase t = phase) :
    expectedState request g' call t x = phase.itemState (keepsSlot request call x) := by
  rw [expectedState, h]

theorem Records.run_step (h : Records pool request g s)
    (hw : s.worker w = .busy .run slot first taken) {s' : QueueState}
    (hstep : workerStep pool request w s = some s') :
    ∃ g', Records pool request g' s' := by
  obtain ⟨t, hphase, hx, rfl, hcur, -, -⟩ := h.held_of_busy hw
  obtain ⟨hitem, -, hstate⟩ := h.slots.item hx hcur
  unfold workerStep at hstep
  simp only [hw, hitem] at hstep
  cases Option.some.inj hstep
  have hne := Phase.ne_done_of_held hphase
  have hbusy : (s.queue (t % pool.queueSize)).state = .busy := by
    rw [hstate, expectedState_of_phase taken hphase]
    rfl
  -- the two ways on differ in the stage alone
  obtain ⟨stage', hstage', hfits, hnotFirst, hnotLast, hcredited, hran, hstate'⟩ :
      ∃ stage', stage' = (if (request taken.call).isDoWork = true then Stage.release
          else Stage.countDerivation) ∧ stage'.Fits (request taken.call).isDoWork ∧
        ¬ stage'.HasFirst ∧ ¬ stage'.IsLast ∧ (Phase.held w stage').credited = false ∧
        (Phase.held w stage').ran = true ∧
        expectedState request (g.setPhase t (.held w stage')) s.call t taken = .busy := by
    cases hdo : (request taken.call).isDoWork with
    | true =>
      exact ⟨.release, rfl, rfl, id, id, rfl, rfl,
        expectedState_of_phase taken Ledger.setPhase_self⟩
    | false =>
      exact ⟨.countDerivation, rfl, rfl, id, id, rfl, rfl,
        expectedState_of_phase taken Ledger.setPhase_self⟩
  rw [← hstage']
  refine ⟨g.setPhase t (.held w stage'), h.calls.setPhase,
    h.tickets.advance hphase hx hfits (fun hhas => absurd hhas hnotFirst),
    h.slots.change hx hcur hne (fun _ => rfl) (fun _ => rfl) (fun _ _ => rfl)
      (hbusy.trans hstate'.symm), ?_, ?_⟩
  · have hsame : ∀ r, uncredited pool request (g.setPhase t (.held w stage')) r =
        uncredited pool request g r :=
      uncredited_setPhase (hcredited.trans (congrArg Phase.credited hphase.symm))
    refine h.counts.setPhase hne (fun _ _ => hsame _) (fun r => (hsame r).le) ?_ (fun _ => rfl)
      (fun _ => rfl)
    intro w' stage'' heq hstage''
    rw [← (Phase.held.inj heq).2] at hstage''
    exact absurd hstage'' hnotLast
  · have hbefore := h.processed.ran hx
    rw [hphase] at hbefore
    constructor
    · intro t' x' hx'
      show Function.update s.processed taken (s.processed taken + 1) x' = _
      by_cases ht : t' = t
      · subst ht
        cases Option.some.inj (hx.symm.trans hx')
        rw [Function.update_self, Ledger.setPhase_self, hran, hbefore]
        rfl
      · rw [Function.update_of_ne, Ledger.setPhase_of_ne ht, h.processed.ran hx']
        rintro rfl
        exact ht (h.logged_unique hx' hx)
    · intro x' hx'
      show Function.update s.processed taken (s.processed taken + 1) x' = _
      rw [Function.update_of_ne, h.processed.never hx']
      rintro rfl
      exact hx' (List.mem_of_getElem? hx)

theorem Records.countDerivation_step (h : Records pool request g s)
    (hw : s.worker w = .busy .countDerivation slot first taken) {s' : QueueState}
    (hstep : workerStep pool request w s = some s') :
    ∃ g', Records pool request g' s' := by
  obtain ⟨t, hphase, hx, rfl, hcur, hfits, -⟩ := h.held_of_busy hw
  obtain ⟨hitem, -, -⟩ := h.slots.item hx hcur
  have hgo : Records pool request (g.setPhase t (.held w .freeDerivation))
      (s.setWorker w (.busy .freeDerivation (t % pool.queueSize) first taken)) := by
    refine h.advance hphase hx hcur hfits (fun hhas => hhas.elim) rfl (fun hlast => hlast.elim)
      rfl ?_
    rw [expectedState_of_phase taken hphase, expectedState_of_phase taken Ledger.setPhase_self]
    rfl
  unfold workerStep at hstep
  simp only [hw, hitem] at hstep
  split at hstep
  · cases Option.some.inj hstep
    exact ⟨_, hgo.calls, hgo.tickets, hgo.slots, hgo.counts, hgo.processed⟩
  · exact absurd hstep (by simp)

theorem field_update {β : Type _} (f : WorkItem → β) {queue : Nat → WorkItem} {p₀ : Nat}
    {item : WorkItem} (h : f item = f (queue p₀)) (p : Nat) :
    f (Function.update queue p₀ item p) = f (queue p) := by
  by_cases hp : p = p₀
  · rw [hp, Function.update_self, h]
  · rw [Function.update_of_ne hp]

theorem Records.freeDerivation_step (h : Records pool request g s)
    (hw : s.worker w = .busy .freeDerivation slot first taken) {s' : QueueState}
    (hstep : workerStep pool request w s = some s') :
    ∃ g', Records pool request g' s' := by
  obtain ⟨t, hphase, hx, rfl, hcur, hfits, -⟩ := h.held_of_busy hw
  have hne := Phase.ne_done_of_held hphase
  unfold workerStep at hstep
  simp only [hw] at hstep
  cases Option.some.inj hstep
  have hkind : (request taken.call).isDoWork = false := hfits
  refine ⟨g.setPhase t .done, h.calls.setPhase, h.tickets.finish hphase, ?_, ?_,
    h.processed.setPhase (by rw [hphase]; rfl)⟩
  · refine h.slots.change hx hcur hne (field_update WorkItem.work rfl)
      (field_update WorkItem.firstFragment rfl) ?_ ?_
    · intro p hp
      exact congrArg WorkItem.state (Function.update_of_ne hp _ _)
    · rw [expectedState_of_phase taken Ledger.setPhase_self]
      simp [QueueState.setItem, QueueState.setWorker, keepsSlot, hkind, Phase.itemState]
  · refine h.counts.setPhase hne ?_ (uncredited_setPhase_subset (fun _ => rfl)) ?_
      (field_update WorkItem.outstandingFragmentCount rfl)
      (field_update WorkItem.itemCompleted rfl)
    · intro r hdo hr
      refine uncredited_setPhase_other h.calls hx hr ?_
      rintro rfl
      exact absurd (hdo.symm.trans hkind) (by simp)
    · intro w' stage' heq
      exact absurd heq (by simp)

/-- A fragment that a worker is on belongs to a call that counts. -/
theorem Records.counting_of_held (h : Records pool request g s)
    (hphase : g.phase t = .held w stage) (hx : g.log[t]? = some taken)
    (hdo : (request taken.call).isDoWork = true) : (s.call taken.call).counting = true := by
  obtain ⟨hticket, hindex⟩ := h.calls.ticket_eq hx
  have hunfinished : ¬ (s.call taken.call = .returned ∨ ∃ first, s.call taken.call = .free first) := by
    intro hend
    have hdone := h.counts.finished hdo hend taken.index
      (Nat.lt_of_lt_of_le hindex (h.calls.filled_le taken.call))
    rw [← hticket, hphase] at hdone
    exact absurd hdone (by simp)
  cases hpc : s.call taken.call with
  | start => rw [hpc] at hindex; exact absurd hindex (Nat.not_lt_zero _)
  | waitFirst => rw [hpc] at hindex; exact absurd hindex (Nat.not_lt_zero _)
  | fill first index => rfl
  | publish first index slot => rfl
  | waitCompleted first => rfl
  | free first => exact absurd (Or.inr ⟨first, hpc⟩) hunfinished
  | returned => exact absurd (Or.inl hpc) hunfinished

theorem Records.release_step (h : Records pool request g s)
    (hw : s.worker w = .busy .release slot first taken) {s' : QueueState}
    (hstep : workerStep pool request w s = some s') :
    ∃ g', Records pool request g' s' := by
  obtain ⟨t, hphase, hx, rfl, hcur, hfits, -⟩ := h.held_of_busy hw
  have hne := Phase.ne_done_of_held hphase
  have hdo : (request taken.call).isDoWork = true := hfits
  obtain ⟨-, hpointer, hstate⟩ := h.slots.item hx hcur
  rw [expectedState_of_phase taken hphase] at hstate
  have hpointer := hpointer hdo
  obtain ⟨hticket, hindex⟩ := h.calls.ticket_eq hx
  have hcounting := h.counting_of_held hphase hx hdo
  have hin : taken.index < pool.queueSize :=
    Nat.lt_of_lt_of_le hindex ((h.calls.filled_le taken.call).trans
      ((request taken.call).itemCount_bounds pool).2)
  have hcredited : (Phase.held w .follow).credited = (g.phase t).credited := by
    rw [hphase]
    rfl
  have hsame : ∀ r, uncredited pool request (g.setPhase t (.held w .follow)) r =
      uncredited pool request g r := uncredited_setPhase hcredited
  unfold workerStep at hstep
  simp only [hw, hpointer] at hstep
  cases Option.some.inj hstep
  refine ⟨g.setPhase t (.held w .follow), ?_⟩
  by_cases hfirst : t % pool.queueSize = g.base taken.call % pool.queueSize
  · -- the first slot is kept
    have hzero : taken.index = 0 := by
      have := mod_inj hfirst (by omega) (by omega)
      omega
    have hkept : keepsSlot request s.call taken = true := by
      refine keepsSlot_iff.mpr ⟨hdo, hzero, ?_⟩
      intro hret
      rw [hret] at hcounting
      exact absurd hcounting Bool.false_ne_true
    rw [if_neg (not_not.mpr hfirst)]
    refine h.advance hphase hx hcur hdo (fun hhas => hhas.elim) rfl (fun hlast => hlast.elim) rfl ?_
    rw [expectedState_of_phase taken hphase, expectedState_of_phase taken Ledger.setPhase_self,
      hkept]
    rfl
  · -- the others are given back
    have hkept : keepsSlot request s.call taken = false := by
      rw [Bool.eq_false_iff, ne_eq, keepsSlot_iff]
      rintro ⟨-, hzero, -⟩
      rw [hticket, hzero, Nat.add_zero] at hfirst
      exact hfirst rfl
    rw [if_pos hfirst]
    refine ⟨h.calls.setPhase, h.tickets.advance hphase hx hdo (fun hhas => hhas.elim), ?_, ?_,
      h.processed.setPhase (by rw [hphase]; rfl)⟩
    · refine h.slots.change hx hcur hne (field_update WorkItem.work rfl)
        (field_update WorkItem.firstFragment hpointer.symm) ?_ ?_
      · intro p hp
        exact congrArg WorkItem.state (Function.update_of_ne hp _ _)
      · rw [expectedState_of_phase taken Ledger.setPhase_self, hkept]
        simp [QueueState.setItem, QueueState.setWorker, Phase.itemState]
    · refine h.counts.setPhase hne (fun _ _ => hsame _) (fun r => (hsame r).le) ?_
        (field_update WorkItem.outstandingFragmentCount rfl)
        (field_update WorkItem.itemCompleted rfl)
      intro w' stage' heq hlast
      rw [← (Phase.held.inj heq).2] at hlast
      exact hlast.elim

theorem Records.follow_step (h : Records pool request g s)
    (hw : s.worker w = .busy .follow slot first taken) {s' : QueueState}
    (hstep : workerStep pool request w s = some s') :
    ∃ g', Records pool request g' s' := by
  obtain ⟨t, hphase, hx, rfl, hcur, hfits, -⟩ := h.held_of_busy hw
  have hdo : (request taken.call).isDoWork = true := hfits
  obtain ⟨-, hpointer, -⟩ := h.slots.item hx hcur
  unfold workerStep at hstep
  simp only [hw] at hstep
  cases Option.some.inj hstep
  refine ⟨_, h.advance hphase hx hcur hdo (fun _ => hpointer hdo) rfl (fun hlast => hlast.elim) rfl ?_⟩
  rw [expectedState_of_phase taken hphase, expectedState_of_phase taken Ledger.setPhase_self]
  rfl

theorem Records.followAgain_step (h : Records pool request g s)
    (hw : s.worker w = .busy .followAgain slot first taken) {s' : QueueState}
    (hstep : workerStep pool request w s = some s') :
    ∃ g', Records pool request g' s' := by
  obtain ⟨t, hphase, hx, rfl, hcur, hfits, -⟩ := h.held_of_busy hw
  have hdo : (request taken.call).isDoWork = true := hfits
  obtain ⟨-, hpointer, -⟩ := h.slots.item hx hcur
  unfold workerStep at hstep
  simp only [hw] at hstep
  cases Option.some.inj hstep
  refine ⟨_, h.advance hphase hx hcur hdo (fun _ => hpointer hdo) rfl (fun _ => trivial) rfl ?_⟩
  rw [expectedState_of_phase taken hphase, expectedState_of_phase taken Ledger.setPhase_self]
  rfl

end

end

end EncryptionThreadPool

end VeraCrypt
