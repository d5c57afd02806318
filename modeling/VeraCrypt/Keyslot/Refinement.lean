import VeraCrypt.Keyslot.StoreSpec
import VeraCrypt.Lib.Run
import Mathlib.Data.List.Find

/-!
# The labeled store is a table of enrolments

What the store is *for* has nothing to do with bytes: a table of slots, each free or holding
one enrolment (a passphrase, a VMK, a flags byte). An add enrols into the lowest free slot, a
revoke empties the slot it names, an open looks up the lowest enrolment of its passphrase.
`tableStep` is that machine.

This file proves that the store of `Keyslot/Store.lean`, under one v1 labeled configuration
and a medium that works, answers as that machine does along every run (`Rep.step`), and that
each call touches only the slot it should.

The cryptography is taken as an ideal wrap, but only as far as a run can see it: the machine
is instrumented with the list of wraps its successful adds have made (`Traced`), and what an
open assumes is that a slot whose tag verifies is one of those, and made under the same
passphrase (`IdealAt`). No record is ever compared with a record that was not written.
-/

set_option autoImplicit false

namespace VeraCrypt

open Lib

/-! ## The abstract machine -/

structure Enrolment where
  pass : Bytes
  vmk : Bytes
  flags : UInt8
  deriving DecidableEq

inductive StoreOp where
  | add (pass : Bytes) (flags : Int) (vmk : Bytes) (env : AddEnv)
  | revoke (index : Int) (rand : RandStream)
  | open (pass : Bytes)

inductive StoreAns where
  | code (rc : Int)
  | opened (r : Option Opened)
  deriving DecidableEq

def Enrolment.opened (e : Enrolment) : Opened := { vmk := e.vmk, flags := e.flags }

/-- One call on the table. An add also needs the index of its slot to be an `int`. -/
def tableStep (cfg : KeyslotStoreCfg) (n : Nat) (t : SlotTable Enrolment) :
    StoreOp → SlotTable Enrolment × StoreAns
  | .add pass flags vmk _ =>
    match lowestFree n t with
    | none => (t, .code (-1))
    | some i =>
      if addOk cfg ∧ i < 2 ^ 31 then
        (Function.update t i (some { pass := pass, vmk := vmk, flags := flagByte flags }), .code i)
      else (t, .code (-1))
  | .revoke index _ =>
    if 0 ≤ index ∧ index.toNat < n then (Function.update t index.toNat none, .code 0)
    else (t, .code (-1))
  | .open pass => (t, .opened ((lookupFirst n t (·.pass = pass)).map Enrolment.opened))

/-! ## The store as a machine -/

/-- A wrap that an add has made: the passphrase and the sealed part of the record. -/
structure Wrap where
  pass : Bytes
  part : Bytes
  deriving DecidableEq

structure Traced where
  area : KeyslotArea
  wraps : List Wrap

section
variable (P : Primitives) (cfg : KeyslotStoreCfg)

def storeStep (area : KeyslotArea) : StoreOp → KeyslotArea × StoreAns
  | .add pass flags vmk env =>
    let r := keyslotAdd P cfg area pass flags vmk env
    (r.2, .code r.1)
  | .revoke index rand =>
    let r := keyslotRevoke cfg area index rand
    (r.2, .code r.1)
  | .open pass => (area, .opened (keyslotOpen P cfg area pass))

/-- The wraps a call adds to the trace: a successful add has made the one now in its slot. -/
def newWraps (area : KeyslotArea) : StoreOp → List Wrap
  | .add pass flags vmk env =>
    let r := keyslotAdd P cfg area pass flags vmk env
    if 0 ≤ r.1 then [{ pass := pass, part := sealedPart cfg (slotAt r.2 r.1.toNat) }] else []
  | .revoke _ _ => []
  | .open _ => []

def tracedStep (s : Traced) (op : StoreOp) : Traced × StoreAns :=
  ({ area := (storeStep P cfg s.area op).1, wraps := s.wraps ++ newWraps P cfg s.area op },
    (storeStep P cfg s.area op).2)

/-- The ideal wrap at one record: if its tag verifies under a passphrase, the record is one
    that was written, and everything written with these bytes was written under that
    passphrase. -/
def IdealAt (wraps : List Wrap) (pass rec : Bytes) : Prop :=
  (recUnwrapCT P cfg pass rec).1 = true →
    (∃ w ∈ wraps, w.part = sealedPart cfg rec) ∧
      ∀ w ∈ wraps, w.part = sealedPart cfg rec → w.pass = pass

instance (wraps : List Wrap) (pass rec : Bytes) : Decidable (IdealAt P cfg wraps pass rec) :=
  inferInstanceAs (Decidable (_ → _ ∧ _))

/-- What a call of a clean run satisfies: an add is handed a VMK of the configured length, the
    fill of a revoke does not begin with the magic, and an open meets an ideal wrap. -/
def CleanCall (s : Traced) : StoreOp → Prop
  | .add _ _ vmk _ => vmk.length = cfg.vmkLen.toNat
  | .revoke _ rand => slice (RandStream.bytes rand 0 keyslotTableStride) 0 4 ≠ ksMagic
  | .open pass => ∀ i, i < nSlots cfg s.area → IdealAt P cfg s.wraps pass (slotAt s.area i)

/-- The medium works, and nothing is enrolled on it. -/
structure Fresh (area : KeyslotArea) : Prop where
  reads : ∀ off, area.readFails off = false
  writes : ∀ off, area.writeFault off = none
  blank : ∀ i, i < nSlots cfg area → marked area i = false

/-! ## The two agree -/

/-- Slot `i` carries the enrolment `e`: it is marked, it unwraps under `e.pass` to what an open
    makes `e` of, and the trace has it. -/
structure Carries (s : Traced) (i : Nat) (e : Enrolment) : Prop where
  mark : marked s.area i = true
  unwraps : ∃ blob, recUnwrapCT P cfg e.pass (slotAt s.area i) = (true, blob) ∧
    openedV1 cfg (afMerge P blob (plenOf cfg) (afOf cfg)) = e.opened
  traced : { pass := e.pass, part := sealedPart cfg (slotAt s.area i) } ∈ s.wraps

/-- The traced store represents the table `t` of `n` slots. -/
structure Rep (n : Nat) (s : Traced) (t : SlotTable Enrolment) : Prop where
  slots : nSlots cfg s.area = n
  reads : ∀ off, s.area.readFails off = false
  writes : ∀ off, s.area.writeFault off = none
  carried : ∀ i e, t i = some e → Carries P cfg s i e
  free : ∀ i, i < n → t i = none → marked s.area i = false
  /-- An enrolment sits where an `int` can name it, and was made by a configuration that adds. -/
  bounded : ∀ i e, t i = some e → i < n ∧ i < 2 ^ 31 ∧ addOk cfg
  /-- Every wrap was made with the magic in front. -/
  labels : ∀ w ∈ s.wraps, slice w.part 0 4 = ksMagic

variable {P : Primitives} {cfg : KeyslotStoreCfg} {n : Nat} {s : Traced} {t : SlotTable Enrolment}

theorem Carries.congr {s' : Traced} {i : Nat} {e : Enrolment} (h : Carries P cfg s i e)
    (hslot : slotAt s'.area i = slotAt s.area i) (hw : ∀ w ∈ s.wraps, w ∈ s'.wraps) :
    Carries P cfg s' i e := by
  refine ⟨?_, ?_, ?_⟩
  · rw [marked, hslot]
    exact h.mark
  · rw [hslot]
    exact h.unwraps
  · rw [hslot]
    exact hw _ h.traced

theorem Rep.init {area : KeyslotArea} (h : Fresh cfg area) :
    Rep P cfg (nSlots cfg area) { area := area, wraps := [] } (fun _ => none) where
  slots := rfl
  reads := h.reads
  writes := h.writes
  carried := fun i e he => by simp at he
  free := fun i hi _ => h.blank i hi
  bounded := fun i e he => by simp at he
  labels := fun w hw => by simp at hw

theorem Rep.marked_eq (h : Rep P cfg n s t) {i : Nat} (hi : i < n) :
    marked s.area i = (t i).isSome := by
  cases ht : t i with
  | none => exact h.free i hi ht
  | some e => exact (h.carried i e ht).mark

theorem Rep.lowestUnmarked_eq (h : Rep P cfg n s t) :
    lowestUnmarked cfg s.area = lowestFree n t := by
  unfold lowestUnmarked
  rw [h.slots]
  refine List.find?_congr fun i hi => ?_
  rw [h.marked_eq (List.mem_range.mp hi)]
  cases t i <;> rfl

/-- The occupied slots are named by `int`s, so the lowest free one is at most one beyond. -/
theorem Rep.lowestFree_le (h : Rep P cfg n s t) {i : Nat} (hi : lowestFree n t = some i) :
    i ≤ 2 ^ 31 := by
  obtain ⟨-, -, hpre⟩ := lowestFree_eq_some_iff.mp hi
  rcases Nat.lt_or_ge (2 ^ 31) i with hlt | hge
  · obtain ⟨e, he⟩ := Option.isSome_iff_exists.mp (hpre _ hlt)
    exact absurd (h.bounded _ e he).2.1 (Nat.lt_irrefl _)
  · exact hge

/-- The slot an add picks, seen from the table. -/
theorem Rep.labeledFirstFree_eq (h : Rep P cfg n s t) :
    labeledFirstFree cfg s.area =
      match lowestFree n t with
      | some i => if i < 2 ^ 31 then (i : Int) else -2 ^ 31
      | none => -1 := by
  rw [labeledFirstFree_of_reads h.reads, h.lowestUnmarked_eq]
  cases hf : lowestFree n t with
  | none => rfl
  | some i =>
    have hle := h.lowestFree_le hf
    by_cases hlt : i < 2 ^ 31
    · simp only [if_pos hlt]
      exact toInt32_of_lt hlt
    · have hi : i = 2 ^ 31 := by omega
      subst hi
      simp only [if_neg hlt]
      decide

/-- **One slot rewritten.** The other slots carry what they carried; the one rewritten must
    carry what the table is given for it. -/
theorem Rep.put (h : Rep P cfg n s t) {k : Nat} {rec : Bytes} {ws : List Wrap}
    {o : Option Enrolment} (hk : k < n) (hrec : rec.length = keyslotTableStride)
    (hws : ∀ w ∈ ws, slice w.part 0 4 = ksMagic)
    (hsome : ∀ e, o = some e → k < 2 ^ 31 ∧ addOk cfg ∧
      Carries P cfg { area := s.area.put (k * keyslotTableStride) rec, wraps := s.wraps ++ ws } k e)
    (hnone : o = none → slice rec 0 4 ≠ ksMagic) :
    Rep P cfg n { area := s.area.put (k * keyslotTableStride) rec, wraps := s.wraps ++ ws }
      (Function.update t k o) := by
  have hkn : k < nSlots cfg s.area := by rw [h.slots]; exact hk
  have hself := slotAt_put_self hkn hrec
  have hsize := KeyslotArea.size_put (by rw [hrec]; exact slot_le_size hkn)
  refine ⟨?_, h.reads, h.writes, fun i e he => ?_, fun i hi he => ?_, fun i e he => ?_,
    fun w hw => ?_⟩
  · rw [nSlots_congr hsize, h.slots]
  · by_cases hik : i = k
    · subst hik
      rw [Function.update_self] at he
      exact (hsome e he).2.2
    · rw [Function.update_of_ne hik] at he
      exact (h.carried i e he).congr (slotAt_put_ne hkn hrec (Ne.symm hik))
        (fun w hw => List.mem_append_left _ hw)
  · by_cases hik : i = k
    · subst hik
      rw [Function.update_self] at he
      rw [marked, hself]
      exact decide_eq_false (hnone he)
    · rw [Function.update_of_ne hik] at he
      rw [marked, slotAt_put_ne hkn hrec (Ne.symm hik)]
      exact h.free i hi he
  · by_cases hik : i = k
    · subst hik
      rw [Function.update_self] at he
      exact ⟨hk, (hsome e he).1, (hsome e he).2.1⟩
    · rw [Function.update_of_ne hik] at he
      exact h.bounded i e he
  · rcases List.mem_append.mp hw with hold | hnew
    · exact h.labels w hold
    · exact hws w hnew

/-! ### Add -/

/-- What an add has put into its slot: a marked record that opens under its passphrase to what
    was enrolled. -/
structure EnrolledRecord (P : Primitives) (cfg : KeyslotStoreCfg) (e : Enrolment)
    (rec : Bytes) : Prop where
  length : rec.length = keyslotTableStride
  magic : slice rec 0 4 = ksMagic
  unwraps : ∃ blob, recUnwrapCT P cfg e.pass rec = (true, blob) ∧
    openedV1 cfg (afMerge P blob (plenOf cfg) (afOf cfg)) = e.opened

/-- An add either enrols into the lowest free slot or refuses and touches nothing. -/
theorem Rep.add_cases (h : Rep P cfg n s t) (hl : isLabeled cfg.backend = true)
    (hpol : cfg.policy = 0) {vmk : Bytes} (hvmk : vmk.length = cfg.vmkLen.toNat) (pass : Bytes)
    (flags : Int) (env : AddEnv) :
    (∃ i rec, lowestFree n t = some i ∧ (addOk cfg ∧ i < 2 ^ 31) ∧
      EnrolledRecord P cfg { pass := pass, vmk := vmk, flags := flagByte flags } rec ∧
      keyslotAdd P cfg s.area pass flags vmk env =
        ((i : Int), s.area.put (i * keyslotTableStride) rec)) ∨
    ((∀ i, lowestFree n t = some i → ¬ (addOk cfg ∧ i < 2 ^ 31)) ∧
      keyslotAdd P cfg s.area pass flags vmk env = (-1, s.area)) := by
  by_cases hok : addOk cfg
  swap
  · right
    exact ⟨fun i _ hi => hok hi.1, keyslotAdd_of_not_ok P s.area hok pass flags vmk env⟩
  obtain ⟨blob, hblob, hmerge, hadd⟩ := keyslotAdd_labeled P s.area hok hl pass flags vmk env
  rw [h.labeledFirstFree_eq] at hadd
  cases hf : lowestFree n t with
  | none =>
    right
    rw [hf] at hadd
    exact ⟨fun i hi => by simp at hi, by rw [hadd, if_pos (by decide)]⟩
  | some i =>
    rw [hf] at hadd
    by_cases hi : i < 2 ^ 31
    swap
    · right
      simp only [if_neg hi] at hadd
      refine ⟨fun j hj hok' => ?_, by rw [hadd, if_pos (by decide)]⟩
      obtain rfl := Option.some.inj hj
      exact hi hok'.2
    · left
      have hfit := recFits_labeled hl hok.2.2
      have hsalt : (addSalt env).length = keyslotSaltSize := RandStream.length_bytes _ _ _
      have hfill : (addFill env).length = keyslotTableStride := RandStream.length_bytes _ _ _
      have hlen : (labeledRecord P cfg pass (addSalt env) (addFill env) blob).length =
          keyslotTableStride := length_labeledRecord P hfit hsalt hfill hblob
      have hin : i < nSlots cfg s.area := by
        rw [h.slots]
        exact (lowestFree_eq_some_iff.mp hf).1
      refine ⟨i, _, rfl, ⟨hok, hi⟩, ⟨hlen, magic_labeledRecord P hfit hsalt hfill hblob,
        blob, recUnwrapCT_labeledRecord P hfit hsalt hfill hblob, ?_⟩, ?_⟩
      · rw [hmerge, addPayload_of_v1 hok hpol hvmk]
        exact openedV1_cons cfg _ hvmk
      · simp only [if_pos hi] at hadd
        rw [hadd, if_neg (by omega), putRecord, slotOff_ofNat (by omega),
          KeyslotArea.write_of_ok (by rw [hlen]; exact slot_le_size hin) (h.writes _)]

theorem Rep.add (h : Rep P cfg n s t) (hl : isLabeled cfg.backend = true)
    (hpol : cfg.policy = 0) {pass vmk : Bytes} {flags : Int} {env : AddEnv}
    (hvmk : vmk.length = cfg.vmkLen.toNat) :
    Rep P cfg n (tracedStep P cfg s (.add pass flags vmk env)).1
        (tableStep cfg n t (.add pass flags vmk env)).1 ∧
      (tracedStep P cfg s (.add pass flags vmk env)).2 =
        (tableStep cfg n t (.add pass flags vmk env)).2 := by
  rcases h.add_cases hl hpol hvmk pass flags env with
    ⟨i, rec, hf, hok, hrec, hadd⟩ | ⟨hno, hadd⟩
  · have hin : i < nSlots cfg s.area := by
      rw [h.slots]
      exact (lowestFree_eq_some_iff.mp hf).1
    have hslot := slotAt_put_self hin hrec.length
    simp only [tracedStep, storeStep, newWraps, tableStep, hadd, hf, if_pos hok,
      if_pos (Int.natCast_nonneg i), Int.toNat_natCast, and_true]
    refine h.put (by rw [← h.slots]; exact hin) hrec.length ?_ ?_ (fun he => by simp at he)
    · intro w hw
      obtain rfl := List.mem_singleton.mp hw
      rw [hslot, magic_sealedPart, hrec.magic]
    · intro e he
      obtain rfl := Option.some.inj he
      refine ⟨hok.2, hok.1, ?_, ?_, List.mem_append_right _ (List.mem_singleton.mpr rfl)⟩
      · exact decide_eq_true (by rw [hslot, hrec.magic])
      · rw [hslot]
        exact hrec.unwraps
  · have hneg : ¬ (0 : Int) ≤ -1 := by decide
    simp only [tracedStep, storeStep, newWraps, tableStep, hadd, if_neg hneg, List.append_nil]
    cases hf : lowestFree n t with
    | none => exact ⟨h, rfl⟩
    | some i => simpa only [if_neg (hno i hf)] using And.intro h trivial

/-! ### Revoke -/

theorem Rep.revoke (h : Rep P cfg n s t) {index : Int} {rand : RandStream}
    (hfill : slice (RandStream.bytes rand 0 keyslotTableStride) 0 4 ≠ ksMagic) :
    Rep P cfg n (tracedStep P cfg s (.revoke index rand)).1
        (tableStep cfg n t (.revoke index rand)).1 ∧
      (tracedStep P cfg s (.revoke index rand)).2 = (tableStep cfg n t (.revoke index rand)).2 := by
  by_cases hin : 0 ≤ index ∧ index.toNat < n
  · have hr := keyslotRevoke_in_range cfg s.area index (by rw [h.slots]; exact hin) h.writes rand
    simp only [tracedStep, storeStep, newWraps, tableStep, hr, if_pos hin, and_true]
    exact h.put hin.2 (RandStream.length_bytes _ _ _) (fun w hw => by simp at hw)
      (fun e he => by simp at he) (fun _ => hfill)
  · have hr := keyslotRevoke_out_of_range cfg s.area index (by rw [h.slots]; omega) rand
    simp only [tracedStep, storeStep, newWraps, tableStep, hr, if_neg hin, List.append_nil]
    exact ⟨h, trivial⟩

/-! ### Open -/

/-- A slot offers an open exactly what the table says it carries under that passphrase. -/
theorem Rep.matchAt_eq (h : Rep P cfg n s t) {pass : Bytes}
    (hideal : ∀ i, i < nSlots cfg s.area → IdealAt P cfg s.wraps pass (slotAt s.area i)) {i : Nat}
    (hi : i < n) :
    (matchAt P cfg s.area pass i).map
        (fun blob => openedV1 cfg (afMerge P blob (plenOf cfg) (afOf cfg))) =
      ((t i).filter (·.pass = pass)).map Enrolment.opened := by
  have hin : i < nSlots cfg s.area := by rw [h.slots]; exact hi
  have hread : s.area.read (i * keyslotTableStride) keyslotTableStride = some (slotAt s.area i) :=
    KeyslotArea.read_of_ok (slot_le_size hin) (h.reads _)
  rw [matchAt_of_read P hread]
  have hid := hideal i hin
  cases ht : t i with
  | none =>
    -- a slot without the magic is no record that was ever written
    have hfalse : (recUnwrapCT P cfg pass (slotAt s.area i)).1 = false := by
      rw [Bool.eq_false_iff]
      intro hv
      obtain ⟨⟨w, hw, hpart⟩, -⟩ := hid hv
      have hmagic := h.labels w hw
      rw [hpart, magic_sealedPart] at hmagic
      have hun := h.free i hi ht
      rw [marked, decide_eq_false_iff_not] at hun
      exact hun hmagic
    rw [hfalse]
    rfl
  | some e =>
    have hc := h.carried i e ht
    obtain ⟨blob, hblob, hopened⟩ := hc.unwraps
    by_cases hp : e.pass = pass
    · subst hp
      rw [hblob]
      simp [hopened]
    · have hfalse : (recUnwrapCT P cfg pass (slotAt s.area i)).1 = false := by
        rw [Bool.eq_false_iff]
        intro hv
        exact hp ((hid hv).2 _ hc.traced rfl)
      rw [hfalse]
      simp [hp]

theorem Rep.keyslotOpen_eq (h : Rep P cfg n s t) (hl : isLabeled cfg.backend = true)
    {pass : Bytes}
    (hideal : ∀ i, i < nSlots cfg s.area → IdealAt P cfg s.wraps pass (slotAt s.area i)) :
    keyslotOpen P cfg s.area pass = (lookupFirst n t (·.pass = pass)).map Enrolment.opened := by
  by_cases hfit : recFits cfg
  · rw [keyslotOpen_labeled P hl hfit, firstMatch, lookupFirst, h.slots, List.map_findSome?,
      List.map_findSome?]
    exact findSome?_range_congr fun i hi => h.matchAt_eq hideal hi
  · -- a configuration whose records do not fit has enrolled nothing
    rw [keyslotOpen_of_not_fits P hfit]
    cases hlook : lookupFirst n t (·.pass = pass) with
    | none => rfl
    | some e =>
      obtain ⟨i, -, hti, -⟩ := lookupFirst_eq_some_iff.mp hlook
      exact absurd (h.bounded i e hti).2.2.2.2 hfit

/-- **Every call answers as the table does**, and leaves a store that represents it. -/
theorem Rep.step (h : Rep P cfg n s t) (hl : isLabeled cfg.backend = true)
    (hpol : cfg.policy = 0) {op : StoreOp} (hclean : CleanCall P cfg s op) :
    Rep P cfg n (tracedStep P cfg s op).1 (tableStep cfg n t op).1 ∧
      (tracedStep P cfg s op).2 = (tableStep cfg n t op).2 := by
  cases op with
  | add pass flags vmk env => exact h.add hl hpol hclean
  | revoke index rand => exact h.revoke hclean
  | «open» pass =>
    simp only [tracedStep, storeStep, newWraps, tableStep, List.append_nil]
    exact ⟨h, by rw [h.keyslotOpen_eq hl hclean]⟩

end

end VeraCrypt
