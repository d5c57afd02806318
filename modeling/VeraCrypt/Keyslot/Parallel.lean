import VeraCrypt.Keyslot.StoreSpec

/-!
# The batched scan is the serial scan

`ks_scan_labeled_parallel` reads a batch of slots, hands their unwraps to an executor, and
folds the results in index order. Here the executor is anything that runs each job of a batch
once, in an order of its own. The jobs of a batch write disjoint places, so the order does not
show (`foldl_job_observe`): after the batch, slot `j` holds what an unwrap of record
`base + j` gives. The fold over a batch is then the serial scan over the same indices
(`ksParFold_eq`), and the batches in turn are the serial scan of the table
(`ksScanLabeledParallel_eq`).

Nothing is asked of the buffers the batches reuse: a slot that could not be read leaves an old
record or an old output behind, and the fold never looks at it.
-/

set_option autoImplicit false

namespace VeraCrypt

open Lib

section
variable (P : Primitives) {cfg : KeyslotStoreCfg} {area : KeyslotArea} {pass : Bytes}

/-! ## Phase 1: the reads of a batch -/

/-- The buffers hold one record or one output for each slot of a batch. -/
def batchLen : Nat := ksParallelBatch * keyslotTableStride

theorem batch_slot_le {j : Nat} (h : j < ksParallelBatch) {ct : Nat} (hct : ct ≤ keyslotTableStride) :
    j * ct + ct ≤ batchLen := by
  have h1 : (j + 1) * ct ≤ ksParallelBatch * ct := Nat.mul_le_mul_right ct h
  have h2 : ksParallelBatch * ct ≤ batchLen := Nat.mul_le_mul_left ksParallelBatch hct
  rw [Nat.succ_mul] at h1
  omega

/-- After the reads, slot `j` of the buffer is the record at `base + j` wherever its read flag
    is set. -/
theorem ksParRead_spec (area : KeyslotArea) {recs : Bytes} (base : Nat) (hrecs : recs.length = batchLen) {bn : Nat}
    (hbn : bn ≤ ksParallelBatch) :
    (ksParRead area recs base bn).1.length = batchLen ∧
      (ksParRead area recs base bn).2.length = bn ∧
      ∀ j, j < bn →
        match area.read ((base + j) * keyslotTableStride) keyslotTableStride with
        | none => (ksParRead area recs base bn).2.getD j false = false
        | some rec => (ksParRead area recs base bn).2.getD j false = true ∧
            slice (ksParRead area recs base bn).1 (j * keyslotTableStride) keyslotTableStride =
              rec := by
  induction bn with
  | zero => exact ⟨hrecs, rfl, fun j hj => absurd hj (Nat.not_lt_zero j)⟩
  | succ bn ih =>
    obtain ⟨hlen, hflags, hslots⟩ := ih (by omega)
    have hstep : ksParRead area recs base (bn + 1) =
        match area.read ((base + bn) * keyslotTableStride) keyslotTableStride with
        | none => ((ksParRead area recs base bn).1, (ksParRead area recs base bn).2 ++ [false])
        | some rec => (patch (ksParRead area recs base bn).1 (bn * keyslotTableStride) rec,
            (ksParRead area recs base bn).2 ++ [true]) := by
      unfold ksParRead
      rw [List.range_succ, List.foldl_append]
      rfl
    generalize ksParRead area recs base bn = rd at hlen hflags hslots hstep
    have hold : ∀ b j, j < bn → (rd.2 ++ [b]).getD j false = rd.2.getD j false := by
      intro b j hj
      rw [List.getD_eq_getElem?_getD, List.getD_eq_getElem?_getD,
        List.getElem?_append_left (by omega)]
    have hnew : ∀ b, (rd.2 ++ [b]).getD bn false = b := by
      intro b
      rw [List.getD_eq_getElem?_getD, List.getElem?_append_right (by omega), hflags,
        Nat.sub_self]
      rfl
    cases hr : area.read ((base + bn) * keyslotTableStride) keyslotTableStride with
    | none =>
      rw [hr] at hstep
      rw [hstep]
      refine ⟨hlen, by simp [hflags], fun j hj => ?_⟩
      rcases Nat.lt_succ_iff_lt_or_eq.mp hj with hlt | rfl
      · simp only [hold false j hlt]
        exact hslots j hlt
      · simp only [hr, hnew]
    | some rec =>
      obtain ⟨hrec, hsz⟩ := KeyslotArea.read_eq_some hr
      have hreclen : rec.length = keyslotTableStride := by
        rw [hrec]
        exact length_slice hsz
      have hin := batch_slot_le (show bn < ksParallelBatch by omega) (Nat.le_refl _)
      rw [hr] at hstep
      rw [hstep]
      refine ⟨by rw [length_patch (by omega), hlen], by simp [hflags], fun j hj => ?_⟩
      rcases Nat.lt_succ_iff_lt_or_eq.mp hj with hlt | rfl
      · have hdis : j * keyslotTableStride + keyslotTableStride ≤ bn * keyslotTableStride := by
          have hmul := Nat.mul_le_mul_right keyslotTableStride hlt
          rwa [Nat.succ_mul] at hmul
        have hkeep : slice (patch rd.1 (bn * keyslotTableStride) rec) (j * keyslotTableStride)
            keyslotTableStride = slice rd.1 (j * keyslotTableStride) keyslotTableStride :=
          slice_patch_disjoint (by omega) (Or.inl hdis)
        simp only [hold true j hlt, hkeep]
        exact hslots j hlt
      · simp only [hr, hnew, true_and]
        exact slice_patch_self (by omega) hreclen.symm

/-! ## Phase 2: the jobs of a batch -/

/-- What phase 3 will make of the place of job `j`: its output where it matched. -/
def parOffer (ct : Nat) (bufs : ParBufs) (j : Nat) : Option Bytes :=
  if 0 < bufs.mret.getD j (-1) then some (slice bufs.tmps (j * ct) ct) else none

def ParBufsOk (bufs : ParBufs) : Prop :=
  bufs.tmps.length = batchLen ∧ bufs.mret.length = ksParallelBatch

theorem getD_set_self {l : List Int} {i : Nat} (h : i < l.length) (v d : Int) :
    (l.set i v).getD i d = v := by
  rw [List.getD_eq_getElem?_getD, List.getElem?_set_self h]
  rfl

theorem getD_set_ne {l : List Int} {i j : Nat} (h : j ≠ i) (v d : Int) :
    (l.set j v).getD i d = l.getD i d := by
  rw [List.getD_eq_getElem?_getD, List.getD_eq_getElem?_getD, List.getElem?_set_ne h]

theorem ksParScanBody_ok {recs : Bytes} {okread : List Bool} {bufs : ParBufs} {i : Nat}
    (hfit : lCt + (ctOf cfg).toNat + keyslotTagSize ≤ keyslotTableStride)
    (hrecs : recs.length = batchLen) (hb : ParBufsOk bufs) (hi : i < ksParallelBatch) :
    ParBufsOk (ksParScanBody P cfg pass recs okread bufs i) := by
  unfold ksParScanBody
  split
  · exact ⟨hb.1, by rw [List.length_set]; exact hb.2⟩
  · have hrec := length_slice (show i * keyslotTableStride + keyslotTableStride ≤ recs.length by
      rw [hrecs]; exact batch_slot_le hi (Nat.le_refl _))
    have hlen := length_recUnwrapCT P pass hrec hfit
    have hroom := batch_slot_le hi (show (ctOf cfg).toNat ≤ keyslotTableStride by omega)
    refine ⟨?_, by rw [List.length_set]; exact hb.2⟩
    rw [length_patch (by rw [hlen, hb.1]; exact hroom)]
    exact hb.1

/-- A job leaves at its own place what the slot it was given offers. -/
theorem parOffer_ksParScanBody_self {recs : Bytes} {okread : List Bool} {bufs : ParBufs}
    {base i : Nat} (hfit : lCt + (ctOf cfg).toNat + keyslotTagSize ≤ keyslotTableStride)
    (hb : ParBufsOk bufs) (hi : i < ksParallelBatch)
    (hread : match area.read ((base + i) * keyslotTableStride) keyslotTableStride with
      | none => okread.getD i false = false
      | some rec => okread.getD i false = true ∧
          slice recs (i * keyslotTableStride) keyslotTableStride = rec) :
    parOffer (ctOf cfg).toNat (ksParScanBody P cfg pass recs okread bufs i) i =
      matchAt P cfg area pass (base + i) := by
  have hret : i < bufs.mret.length := by rw [hb.2]; exact hi
  unfold matchAt parOffer ksParScanBody
  cases hr : area.read ((base + i) * keyslotTableStride) keyslotTableStride with
  | none =>
    simp only [hr] at hread
    rw [if_pos hread]
    simp only [getD_set_self hret]
    rfl
  | some rec =>
    simp only [hr] at hread
    obtain ⟨hok, hrec⟩ := hread
    have hreclen : rec.length = keyslotTableStride := by
      obtain ⟨rfl, hsz⟩ := KeyslotArea.read_eq_some hr
      exact length_slice hsz
    have hlen := length_recUnwrapCT P pass hreclen hfit
    have hroom := batch_slot_le hi (show (ctOf cfg).toNat ≤ keyslotTableStride by omega)
    simp only [hok, hrec, Bool.true_eq_false, if_false, getD_set_self hret]
    rw [slice_patch_self (by rw [hb.1]; omega) hlen.symm]
    cases (recUnwrapCT P cfg pass rec).1 <;> rfl

/-- A job does not disturb the place of another. -/
theorem parOffer_ksParScanBody_ne {recs : Bytes} {okread : List Bool} {bufs : ParBufs} {i j : Nat}
    (hfit : lCt + (ctOf cfg).toNat + keyslotTagSize ≤ keyslotTableStride)
    (hrecs : recs.length = batchLen) (hb : ParBufsOk bufs) (hj : j < ksParallelBatch)
    (hij : i ≠ j) :
    parOffer (ctOf cfg).toNat (ksParScanBody P cfg pass recs okread bufs j) i =
      parOffer (ctOf cfg).toNat bufs i := by
  unfold parOffer ksParScanBody
  split
  · simp only [getD_set_ne (Ne.symm hij)]
  · have hrec := length_slice (show j * keyslotTableStride + keyslotTableStride ≤ recs.length by
      rw [hrecs]; exact batch_slot_le hj (Nat.le_refl _))
    have hlen := length_recUnwrapCT P pass hrec hfit
    have hroom := batch_slot_le hj (show (ctOf cfg).toNat ≤ keyslotTableStride by omega)
    have hct := hb.1
    simp only [getD_set_ne (Ne.symm hij)]
    rw [slice_patch_disjoint (by omega)]
    rw [hlen]
    rcases Nat.lt_or_gt_of_ne hij with hlt | hgt
    · left
      have hmul := Nat.mul_le_mul_right (ctOf cfg).toNat hlt
      rwa [Nat.succ_mul] at hmul
    · right
      have hmul := Nat.mul_le_mul_right (ctOf cfg).toNat hgt
      rwa [Nat.succ_mul] at hmul

/-- **The order of the jobs does not show**: after the jobs of a batch, in any order, place `j`
    offers what slot `base + j` offers. -/
theorem parOffer_foldl {recs : Bytes} {okread : List Bool} {bufs : ParBufs} {base bn : Nat}
    (hfit : lCt + (ctOf cfg).toNat + keyslotTagSize ≤ keyslotTableStride)
    (hrecs : recs.length = batchLen) (hb : ParBufsOk bufs) (hbn : bn ≤ ksParallelBatch)
    (hread : ∀ j, j < bn →
      match area.read ((base + j) * keyslotTableStride) keyslotTableStride with
      | none => okread.getD j false = false
      | some rec => okread.getD j false = true ∧
          slice recs (j * keyslotTableStride) keyslotTableStride = rec)
    {order : List Nat} (horder : order.Perm (List.range bn)) :
    ParBufsOk (order.foldl (ksParScanBody P cfg pass recs okread) bufs) ∧
      ∀ j, j < bn →
        parOffer (ctOf cfg).toNat (order.foldl (ksParScanBody P cfg pass recs okread) bufs) j =
          matchAt P cfg area pass (base + j) := by
  have hlt : ∀ j ∈ order, j < bn := fun j hj => List.mem_range.mp (horder.mem_iff.mp hj)
  constructor
  · exact (foldl_eq_of_inv ParBufsOk order (fun _ _ _ _ => rfl)
      (fun s i hs hi => ksParScanBody_ok P hfit hrecs hs (Nat.lt_of_lt_of_le (hlt i hi) hbn)) hb).2
  · intro j hj
    have hjob := foldl_job_observe (ksParScanBody P cfg pass recs okread)
      (parOffer (ctOf cfg).toNat) (fun i => matchAt P cfg area pass (base + i)) ParBufsOk
      (fun i => i < bn)
      (fun s i hs hi => ksParScanBody_ok P hfit hrecs hs (Nat.lt_of_lt_of_le hi hbn))
      (fun s i hs hi => parOffer_ksParScanBody_self P hfit hs (Nat.lt_of_lt_of_le hi hbn)
        (hread i hi))
      (fun s i k hs _ hk hik => parOffer_ksParScanBody_ne P hfit hrecs hs
        (Nat.lt_of_lt_of_le hk hbn) hik)
      order hlt bufs hb j hj
    rw [hjob, if_pos (horder.mem_iff.mpr (List.mem_range.mpr hj))]

/-! ## Phase 3: the fold of a batch -/

/-- The fold of a batch is the serial scan over its slots. -/
theorem ksParFold_eq {bufs : ParBufs} {base bn : Nat} {st : Bool × Bytes}
    (hfit : lCt + (ctOf cfg).toNat + keyslotTagSize ≤ keyslotTableStride) (hb : ParBufsOk bufs)
    (hbn : bn ≤ ksParallelBatch)
    (hoffer : ∀ j, j < bn →
      parOffer (ctOf cfg).toNat bufs j = matchAt P cfg area pass (base + j))
    (hst : st.2.length = (ctOf cfg).toNat) :
    ksParFold cfg bufs bn st = (List.range' base bn).foldl (ksScanSlot P cfg area pass) st ∧
      (ksParFold cfg bufs bn st).2.length = (ctOf cfg).toNat := by
  rw [List.range'_eq_map_range, List.foldl_map]
  unfold ksParFold
  refine foldl_eq_of_inv (fun st : Bool × Bytes => st.2.length = (ctOf cfg).toNat) _ ?_ ?_ hst
  · intro st j hst hj
    have hj' := List.mem_range.mp hj
    have hroom := batch_slot_le (Nat.lt_of_lt_of_le hj' hbn)
      (show (ctOf cfg).toNat ≤ keyslotTableStride by omega)
    have htmp : (slice bufs.tmps (j * (ctOf cfg).toNat) (ctOf cfg).toNat).length =
        (ctOf cfg).toNat := length_slice (by rw [hb.1]; exact hroom)
    have ho := hoffer j hj'
    unfold parOffer at ho
    simp only
    rw [foldSelect_eq _ _ _ (by rw [hst, htmp])]
    by_cases hm : 0 < bufs.mret.getD j (-1)
    · rw [if_pos hm] at ho
      rw [ksScanSlot_hit P hfit hst ho.symm, decide_eq_true hm]
      cases st.1 <;> simp
    · rw [if_neg hm] at ho
      rw [ksScanSlot_miss P hfit hst ho.symm, decide_eq_false hm]
      simp
  · intro st j hst hj
    have hroom := batch_slot_le (Nat.lt_of_lt_of_le (List.mem_range.mp hj) hbn)
      (show (ctOf cfg).toNat ≤ keyslotTableStride by omega)
    have htmp : (slice bufs.tmps (j * (ctOf cfg).toNat) (ctOf cfg).toNat).length =
        (ctOf cfg).toNat := length_slice (by rw [hb.1]; exact hroom)
    simp only
    rw [foldSelect_eq _ _ _ (by rw [hst, htmp])]
    simp only
    split
    · exact htmp
    · exact hst

/-! ## The rounds -/

/-- One round is the serial scan over the slots of its batch. -/
theorem ksParRound_spec {pf : KeyslotParallelFor} (hpf : ∀ round n, (pf round n).Perm (List.range n))
    (hfit : lCt + (ctOf cfg).toNat + keyslotTagSize ≤ keyslotTableStride) {st : ParScan}
    (hrecs : st.recs.length = batchLen) (htmps : st.tmps.length = batchLen)
    (hsel : st.sel.2.length = (ctOf cfg).toNat) (k : Nat) :
    (ksParRound P cfg area pass pf st k).recs.length = batchLen ∧
      (ksParRound P cfg area pass pf st k).tmps.length = batchLen ∧
      (ksParRound P cfg area pass pf st k).sel =
        (List.range' (ksParallelBatch * k)
          (min ksParallelBatch (nSlots cfg area - ksParallelBatch * k))).foldl
          (ksScanSlot P cfg area pass) st.sel ∧
      (ksParRound P cfg area pass pf st k).sel.2.length = (ctOf cfg).toNat := by
  have hbn : min ksParallelBatch (nSlots cfg area - ksParallelBatch * k) ≤ ksParallelBatch :=
    Nat.min_le_left _ _
  obtain ⟨hlen, -, hread⟩ := ksParRead_spec area (ksParallelBatch * k) hrecs hbn
  have hb : ParBufsOk { tmps := st.tmps, mret := List.replicate ksParallelBatch (-1) } :=
    ⟨htmps, List.length_replicate⟩
  obtain ⟨hbufs, hoffer⟩ := parOffer_foldl P hfit hlen hb hbn hread (hpf k _)
  obtain ⟨hfold, hfoldlen⟩ := ksParFold_eq P hfit hbufs hbn hoffer hsel
  exact ⟨hlen, hbufs.1, hfold, hfoldlen⟩

/-- **The batched scan is the serial scan**, whatever order the executor runs its jobs in. -/
theorem ksScanLabeledParallel_eq {pf : KeyslotParallelFor}
    (hpf : ∀ round n, (pf round n).Perm (List.range n))
    (hfit : lCt + (ctOf cfg).toNat + keyslotTagSize ≤ keyslotTableStride)
    (stack : Nat → UInt8) :
    ksScanLabeledParallel P cfg area pass pf stack = ksScanLabeled P cfg area pass := by
  have hrounds : ∀ (q : Nat) (st : ParScan), st.recs.length = batchLen →
      st.tmps.length = batchLen → st.sel.2.length = (ctOf cfg).toNat →
      let r := (List.range q).foldl (ksParRound P cfg area pass pf) st
      r.recs.length = batchLen ∧ r.tmps.length = batchLen ∧
        r.sel = ((List.range q).flatMap fun k => List.range' (ksParallelBatch * k)
          (min ksParallelBatch (nSlots cfg area - ksParallelBatch * k))).foldl
          (ksScanSlot P cfg area pass) st.sel ∧
        r.sel.2.length = (ctOf cfg).toNat := by
    intro q st h1 h2 h3
    induction q with
    | zero => exact ⟨h1, h2, rfl, h3⟩
    | succ q ih =>
      obtain ⟨hr, ht, hs, hl⟩ := ih
      obtain ⟨hr', ht', hs', hl'⟩ := ksParRound_spec P hpf hfit hr ht hl q
      simp only [List.range_succ, List.foldl_append, List.foldl_cons, List.foldl_nil,
        List.flatMap_append, List.flatMap_singleton]
      exact ⟨hr', ht', by rw [hs', hs], hl'⟩
  have hun : ((List.range batchLen).map stack).length = batchLen := by
    rw [List.length_map, List.length_range]
  have hzero : (List.replicate (ctOf cfg).toNat (0 : UInt8)).length = (ctOf cfg).toNat :=
    List.length_replicate
  unfold ksScanLabeledParallel ksScanLabeled
  unfold batchLen at hun
  generalize (List.range (ksParallelBatch * keyslotTableStride)).map stack = uninit at hun ⊢
  obtain ⟨-, -, hsel, -⟩ := hrounds ((nSlots cfg area + ksParallelBatch - 1) / ksParallelBatch)
    { recs := uninit, tmps := uninit, sel := (false, List.replicate (ctOf cfg).toNat 0) }
    hun hun hzero
  rw [range_eq_chunks (by decide)] at hsel
  exact hsel

/-- **Parallel and serial opens agree**, on every area and under every read fault. -/
theorem keyslotOpenParallel_eq_keyslotOpen {pf : KeyslotParallelFor}
    (hpf : ∀ round n, (pf round n).Perm (List.range n)) (stack : Nat → UInt8) :
    keyslotOpenParallel P cfg area pass pf stack = keyslotOpen P cfg area pass := by
  unfold keyslotOpenParallel keyslotOpen ksOpenImpl
  by_cases hfit : recFits cfg
  · by_cases hl : isLabeled cfg.backend = true
    · have heq : ksScanLabeledParallel P cfg area pass pf stack = ksScanLabeled P cfg area pass :=
        ksScanLabeledParallel_eq P hpf (recFits_labeled hl hfit) stack
      simp only [hl, if_true, heq, ite_self]
    · simp only [hl]
      rfl
  · rw [if_pos hfit, if_pos hfit]

end

end VeraCrypt
