import VeraCrypt.Keyslot.Refinement

/-!
# The lifetime of an enrolment

`Keyslot/Refinement.lean` compares the store with a table. Here the table is read off the run
itself: an entry of the table is an add of the run that succeeded and that no later revoke
undid (`tableRun_eq_some_iff`). Put together, the two say what an open answers, and what an
add and a revoke touch, in terms of the calls made so far and nothing else
(`keyslotStore_lifetime`).
-/

set_option autoImplicit false

namespace VeraCrypt

open Lib

/-! ## Lifetimes in the table -/

section
variable {cfg : KeyslotStoreCfg} {n : Nat} {t : SlotTable Enrolment}

def tableRun (cfg : KeyslotStoreCfg) (n : Nat) (ops : List StoreOp) : SlotTable Enrolment :=
  (run (tableStep cfg n) (fun _ => none) ops).1

theorem tableRun_concat (ops : List StoreOp) (op : StoreOp) :
    tableRun cfg n (ops ++ [op]) = (tableStep cfg n (tableRun cfg n ops) op).1 :=
  (run_append _ ops [op]).1

/-- An add that answers `i` has enrolled into slot `i`, which was free. -/
theorem tableStep_add_of_code {pass vmk : Bytes} {flags : Int} {env : AddEnv} {i : Nat}
    (h : (tableStep cfg n t (.add pass flags vmk env)).2 = .code i) :
    t i = none ∧ (tableStep cfg n t (.add pass flags vmk env)).1 =
      Function.update t i (some { pass := pass, vmk := vmk, flags := flagByte flags }) := by
  have hneg : ¬ StoreAns.code (-1) = StoreAns.code i := by simp
  unfold tableStep at h ⊢
  cases hf : lowestFree n t with
  | none => simp only [hf] at h; exact absurd h hneg
  | some k =>
    simp only [hf] at h ⊢
    by_cases hok : addOk cfg ∧ k < 2 ^ 31
    · rw [if_pos hok] at h ⊢
      have hki : k = i := by simpa using h
      subst hki
      exact ⟨(lowestFree_eq_some_iff.mp hf).2.1, rfl⟩
    · rw [if_neg hok] at h
      exact absurd h hneg

/-- Any other add has left the table alone. -/
theorem tableStep_add_of_not_code {pass vmk : Bytes} {flags : Int} {env : AddEnv}
    (h : ∀ i : Nat, (tableStep cfg n t (.add pass flags vmk env)).2 ≠ .code i) :
    (tableStep cfg n t (.add pass flags vmk env)).1 = t := by
  unfold tableStep at h ⊢
  cases hf : lowestFree n t with
  | none => rfl
  | some k =>
    simp only [hf] at h ⊢
    by_cases hok : addOk cfg ∧ k < 2 ^ 31
    · simp only [if_pos hok] at h
      exact absurd rfl (h k)
    · rw [if_neg hok]

/-- What a revoke leaves of slot `i`. -/
theorem tableStep_revoke_eq_some_iff {index : Int} {rand : RandStream} {i : Nat} {e : Enrolment}
    (hi : i < n) :
    (tableStep cfg n t (.revoke index rand)).1 i = some e ↔ t i = some e ∧ index ≠ i := by
  unfold tableStep
  by_cases hin : 0 ≤ index ∧ index.toNat < n
  · simp only [if_pos hin]
    by_cases hii : i = index.toNat
    · subst hii
      rw [Function.update_self]
      constructor
      · intro h
        simp at h
      · rintro ⟨-, hne⟩
        omega
    · rw [Function.update_of_ne hii]
      exact ⟨fun h => ⟨h, by omega⟩, fun h => h.1⟩
  · simp only [if_neg hin]
    exact ⟨fun h => ⟨h, by omega⟩, fun h => h.1⟩

theorem tableRun_lt {ops : List StoreOp} {i : Nat} {e : Enrolment}
    (h : tableRun cfg n ops i = some e) : i < n := by
  induction ops using List.reverseRecOn with
  | nil => simp [tableRun, run] at h
  | append_singleton ops op ih =>
    rw [tableRun_concat] at h
    cases op with
    | «open» pass => exact ih h
    | revoke index rand =>
      simp only [tableStep] at h
      split at h
      · next hin =>
        by_cases hii : i = index.toNat
        · omega
        · simp only [Function.update_of_ne hii] at h
          exact ih h
      · exact ih h
    | add pass flags vmk env =>
      simp only [tableStep] at h
      split at h
      · exact ih h
      · next k hf =>
        split at h
        · by_cases hik : i = k
          · subst hik
            exact (lowestFree_eq_some_iff.mp hf).1
          · simp only [Function.update_of_ne hik] at h
            exact ih h
        · exact ih h

/-- **The table is the history of the run**: slot `i` holds an enrolment exactly when some add
    of it answered `i` and no revoke after that add named `i`. -/
theorem tableRun_eq_some_iff {ops : List StoreOp} {i : Nat} {e : Enrolment} :
    tableRun cfg n ops i = some e ↔
      ∃ before flags env after, ops = before ++ .add e.pass flags e.vmk env :: after ∧
        flagByte flags = e.flags ∧
        (tableStep cfg n (tableRun cfg n before) (.add e.pass flags e.vmk env)).2 = .code i ∧
        ∀ rand, .revoke (i : Int) rand ∉ after := by
  induction ops using List.reverseRecOn with
  | nil =>
    constructor
    · intro h
      simp [tableRun, run] at h
    · rintro ⟨before, flags, env, after, hops, -⟩
      simp at hops
  | append_singleton ops op ih =>
    rw [tableRun_concat]
    constructor
    · intro h
      -- an entry that was there before keeps its history, prolonged by a call that is no revoke
      have hold : tableRun cfg n ops i = some e → (∀ rand, op ≠ .revoke (i : Int) rand) →
          ∃ before flags env after, ops ++ [op] = before ++ .add e.pass flags e.vmk env :: after ∧
            flagByte flags = e.flags ∧
            (tableStep cfg n (tableRun cfg n before) (.add e.pass flags e.vmk env)).2 = .code i ∧
            ∀ rand, .revoke (i : Int) rand ∉ after := by
        intro ht hne
        obtain ⟨before, flags, env, after, hops, hflags, hcode, hno⟩ := ih.mp ht
        refine ⟨before, flags, env, after ++ [op], by simp [hops], hflags, hcode, ?_⟩
        intro rand hmem
        rcases List.mem_append.mp hmem with hm | hm
        · exact hno rand hm
        · exact hne rand (List.mem_singleton.mp hm).symm
      cases op with
      | «open» pass => exact hold h (fun rand => by simp)
      | revoke index rand =>
        have hi : i < n := by
          rw [← tableRun_concat] at h
          exact tableRun_lt h
        obtain ⟨ht, hne⟩ := (tableStep_revoke_eq_some_iff hi).mp h
        exact hold ht (fun rand' heq => hne (by injection heq))
      | add pass flags vmk env =>
        by_cases hcode : ∃ k : Nat, (tableStep cfg n (tableRun cfg n ops)
            (.add pass flags vmk env)).2 = .code k
        · obtain ⟨k, hk⟩ := hcode
          obtain ⟨-, hupd⟩ := tableStep_add_of_code hk
          rw [hupd] at h
          by_cases hik : i = k
          · subst hik
            rw [Function.update_self] at h
            obtain rfl := Option.some.inj h
            exact ⟨ops, flags, env, [], rfl, rfl, hk, fun rand => by simp⟩
          · rw [Function.update_of_ne hik] at h
            exact hold h (fun rand => by simp)
        · rw [tableStep_add_of_not_code (fun k hk => hcode ⟨k, hk⟩)] at h
          exact hold h (fun rand => by simp)
    · rintro ⟨before, flags, env, after, hops, hflags, hcode, hno⟩
      rcases List.eq_nil_or_concat after with rfl | ⟨after', last, rfl⟩
      · -- the call itself made the entry
        obtain ⟨rfl, hop⟩ := List.append_inj' hops rfl
        obtain rfl := List.singleton_inj.mp hop
        rw [(tableStep_add_of_code hcode).2, Function.update_self, hflags]
      · obtain ⟨hops', hop⟩ := List.append_inj'
          (show ops ++ [op] = (before ++ .add e.pass flags e.vmk env :: after') ++ [last] by
            rw [hops]; simp) rfl
        obtain rfl := List.singleton_inj.mp hop
        have ht := ih.mpr ⟨before, flags, env, after', hops', hflags, hcode,
          fun rand hm => hno rand (by simp [hm])⟩
        cases op with
        | «open» pass => exact ht
        | revoke index rand =>
          refine (tableStep_revoke_eq_some_iff (tableRun_lt ht)).mpr ⟨ht, fun heq => ?_⟩
          subst heq
          exact hno rand (by simp)
        | add pass flags' vmk env' =>
          by_cases hcode' : ∃ k : Nat, (tableStep cfg n (tableRun cfg n ops)
              (.add pass flags' vmk env')).2 = .code k
          · obtain ⟨k, hk⟩ := hcode'
            obtain ⟨hfree, hupd⟩ := tableStep_add_of_code hk
            have hik : i ≠ k := by
              rintro rfl
              rw [hfree] at ht
              simp at ht
            rw [hupd, Function.update_of_ne hik]
            exact ht
          · rw [tableStep_add_of_not_code (fun k hk => hcode' ⟨k, hk⟩)]
            exact ht

end

/-! ## Lifetimes in the store -/

section
variable (P : Primitives) (cfg : KeyslotStoreCfg) (area : KeyslotArea)

/-- The area after a run of calls. -/
def areaAfter (ops : List StoreOp) : KeyslotArea := (run (storeStep P cfg) area ops).1

/-- A run whose calls are all clean (`CleanCall`), from an area on which nothing is enrolled. -/
def CleanRun (ops : List StoreOp) : Prop :=
  Along (tracedStep P cfg) (CleanCall P cfg) { area := area, wraps := [] } ops

/-- Slot `i` was written by a successful `KeyslotAdd` of the run, and no later
    `KeyslotRevoke` named it. -/
def LiveAt (ops : List StoreOp) (i : Nat) (pass : Bytes) (flags : Int) (vmk : Bytes) : Prop :=
  ∃ before env after, ops = before ++ .add pass flags vmk env :: after ∧
    (keyslotAdd P cfg (areaAfter P cfg area before) pass flags vmk env).1 = i ∧
    ∀ rand, .revoke (i : Int) rand ∉ after

def Occupied (ops : List StoreOp) (i : Nat) : Prop :=
  ∃ pass flags vmk, LiveAt P cfg area ops i pass flags vmk

/-- No byte outside slot `i` differs. -/
def SameOutside (i : Nat) (a a' : KeyslotArea) : Prop :=
  a'.size = a.size ∧ ∀ k, k < i * keyslotTableStride ∨
    i * keyslotTableStride + keyslotTableStride ≤ k → a'.bytes[k]? = a.bytes[k]?

variable {P cfg area} {ops : List StoreOp}

theorem sameOutside_put {i : Nat} {a : KeyslotArea} {rec : Bytes} (hi : i < nSlots cfg a)
    (hrec : rec.length = keyslotTableStride) :
    SameOutside i a (a.put (i * keyslotTableStride) rec) := by
  have hsz := slot_le_size hi
  refine ⟨KeyslotArea.size_put (by rw [hrec]; exact hsz), fun k hk => ?_⟩
  unfold KeyslotArea.put
  rw [getElem?_patch (by unfold KeyslotArea.size at hsz; omega), hrec, if_neg (by omega)]

theorem areaAfter_traced (ops : List StoreOp) :
    (run (tracedStep P cfg) { area := area, wraps := [] } ops).1.area = areaAfter P cfg area ops := by
  have hsim := @run_simulates Traced KeyslotArea StoreOp StoreAns (tracedStep P cfg)
    (fun _ _ => True) (storeStep P cfg) (fun s a => s.area = a)
    (fun s a op hsa _ => by subst hsa; exact ⟨rfl, rfl⟩)
    { area := area, wraps := [] } area ops rfl
  have htriv : ∀ (s : Traced) (is : List StoreOp), Along (tracedStep P cfg) (fun _ _ => True) s is := by
    intro s is
    induction is generalizing s with
    | nil => trivial
    | cons i is ih => exact ⟨trivial, ih _⟩
  exact (hsim (htriv _ _)).1

/-- The store after a clean run represents the table after the same run. -/
theorem rep_of_cleanRun (hl : isLabeled cfg.backend = true) (hpol : cfg.policy = 0)
    (hfresh : Fresh cfg area) (hrun : CleanRun P cfg area ops) :
    Rep P cfg (nSlots cfg area) (run (tracedStep P cfg) { area := area, wraps := [] } ops).1
      (tableRun cfg (nSlots cfg area) ops) := by
  have hstep : ∀ (s : Traced) (t : SlotTable Enrolment) (op : StoreOp),
      Rep P cfg (nSlots cfg area) s t → CleanCall P cfg s op →
      Rep P cfg (nSlots cfg area) (tracedStep P cfg s op).1
        (tableStep cfg (nSlots cfg area) t op).1 ∧
      (tracedStep P cfg s op).2 = (tableStep cfg (nSlots cfg area) t op).2 :=
    fun _ _ _ hr hq => hr.step hl hpol hq
  exact (run_simulates hstep (Rep.init hfresh) hrun).1

/-- **The enrolments of the table are the live adds of the run.** -/
theorem tableRun_eq_some_iff_liveAt (hl : isLabeled cfg.backend = true) (hpol : cfg.policy = 0)
    (hfresh : Fresh cfg area) (hrun : CleanRun P cfg area ops) {i : Nat} {e : Enrolment} :
    tableRun cfg (nSlots cfg area) ops i = some e ↔
      ∃ flags, flagByte flags = e.flags ∧ LiveAt P cfg area ops i e.pass flags e.vmk := by
  -- the table's answer to an add of the run is the store's
  have hans : ∀ before flags env after,
      ops = before ++ .add e.pass flags e.vmk env :: after →
      (tableStep cfg (nSlots cfg area) (tableRun cfg (nSlots cfg area) before)
        (.add e.pass flags e.vmk env)).2 =
      .code (keyslotAdd P cfg (areaAfter P cfg area before) e.pass flags e.vmk env).1 := by
    intro before flags env after hops
    have hcut := hrun
    rw [CleanRun, hops, along_append] at hcut
    have hstep := (rep_of_cleanRun hl hpol hfresh hcut.1).step hl hpol hcut.2.1
    rw [← hstep.2, ← areaAfter_traced]
    rfl
  rw [tableRun_eq_some_iff]
  constructor
  · rintro ⟨before, flags, env, after, hops, hflags, hcode, hno⟩
    rw [hans before flags env after hops] at hcode
    exact ⟨flags, hflags, before, env, after, hops, by injection hcode, hno⟩
  · rintro ⟨flags, hflags, before, env, after, hops, hidx, hno⟩
    exact ⟨before, flags, env, after, hops, hflags, by rw [hans before flags env after hops, hidx],
      hno⟩

theorem occupied_iff (hl : isLabeled cfg.backend = true) (hpol : cfg.policy = 0)
    (hfresh : Fresh cfg area) (hrun : CleanRun P cfg area ops) {i : Nat} :
    Occupied P cfg area ops i ↔ (tableRun cfg (nSlots cfg area) ops i).isSome := by
  rw [Option.isSome_iff_exists]
  constructor
  · rintro ⟨pass, flags, vmk, hlive⟩
    exact ⟨{ pass := pass, vmk := vmk, flags := flagByte flags },
      (tableRun_eq_some_iff_liveAt hl hpol hfresh hrun).mpr ⟨flags, rfl, hlive⟩⟩
  · rintro ⟨e, he⟩
    obtain ⟨flags, -, hlive⟩ := (tableRun_eq_some_iff_liveAt hl hpol hfresh hrun).mp he
    exact ⟨e.pass, flags, e.vmk, hlive⟩

/-! ### What an open answers -/

theorem keyslotOpen_of_cleanRun (hl : isLabeled cfg.backend = true) (hpol : cfg.policy = 0)
    (hfresh : Fresh cfg area) {pass : Bytes} (hrun : CleanRun P cfg area (ops ++ [.open pass])) :
    keyslotOpen P cfg (areaAfter P cfg area ops) pass =
      (lookupFirst (nSlots cfg area) (tableRun cfg (nSlots cfg area) ops) (·.pass = pass)).map
        Enrolment.opened := by
  obtain ⟨hops, hopen⟩ := (along_append _ _ _).mp hrun
  rw [← areaAfter_traced]
  exact (rep_of_cleanRun hl hpol hfresh hops).keyslotOpen_eq hl hopen.1

theorem keyslotOpen_isSome_iff_liveAt (hl : isLabeled cfg.backend = true) (hpol : cfg.policy = 0)
    (hfresh : Fresh cfg area) {pass : Bytes} (hrun : CleanRun P cfg area (ops ++ [.open pass])) :
    (keyslotOpen P cfg (areaAfter P cfg area ops) pass).isSome ↔
      ∃ i flags vmk, LiveAt P cfg area ops i pass flags vmk := by
  have hops := ((along_append _ _ _).mp hrun).1
  rw [keyslotOpen_of_cleanRun hl hpol hfresh hrun, Option.isSome_map, lookupFirst_isSome_iff]
  constructor
  · rintro ⟨i, e, -, he, hp⟩
    obtain rfl : e.pass = pass := by simpa using hp
    obtain ⟨flags, -, hlive⟩ := (tableRun_eq_some_iff_liveAt hl hpol hfresh hops).mp he
    exact ⟨i, flags, e.vmk, hlive⟩
  · rintro ⟨i, flags, vmk, hlive⟩
    have he := (tableRun_eq_some_iff_liveAt hl hpol hfresh hops).mpr
      (show ∃ flags', flagByte flags' = (Enrolment.mk pass vmk (flagByte flags)).flags ∧ _ from
        ⟨flags, rfl, hlive⟩)
    exact ⟨i, _, tableRun_lt he, he, by simp⟩

theorem keyslotOpen_of_lowest_liveAt (hl : isLabeled cfg.backend = true) (hpol : cfg.policy = 0)
    (hfresh : Fresh cfg area) {pass : Bytes} (hrun : CleanRun P cfg area (ops ++ [.open pass]))
    {i : Nat} {flags : Int} {vmk : Bytes} (hlive : LiveAt P cfg area ops i pass flags vmk)
    (hlow : ∀ j flags' vmk', j < i → ¬ LiveAt P cfg area ops j pass flags' vmk') :
    keyslotOpen P cfg (areaAfter P cfg area ops) pass =
      some { vmk := vmk, flags := flagByte flags } := by
  have hops := ((along_append _ _ _).mp hrun).1
  have he := (tableRun_eq_some_iff_liveAt hl hpol hfresh hops).mpr
    (show ∃ flags', flagByte flags' = (Enrolment.mk pass vmk (flagByte flags)).flags ∧ _ from
      ⟨flags, rfl, hlive⟩)
  have hlook : lookupFirst (nSlots cfg area) (tableRun cfg (nSlots cfg area) ops) (·.pass = pass) =
      some { pass := pass, vmk := vmk, flags := flagByte flags } := by
    refine lookupFirst_eq_some_iff.mpr ⟨i, tableRun_lt he, he, by simp, fun j e' hj he' => ?_⟩
    obtain ⟨flags', -, hlive'⟩ := (tableRun_eq_some_iff_liveAt hl hpol hfresh hops).mp he'
    rw [decide_eq_false_iff_not]
    rintro rfl
    exact hlow j flags' e'.vmk hj hlive'
  rw [keyslotOpen_of_cleanRun hl hpol hfresh hrun, hlook]
  rfl

/-! ### What an add and a revoke touch -/

/-- An add takes the lowest slot without a live enrolment, or refuses and touches nothing. -/
theorem keyslotAdd_of_cleanRun (hl : isLabeled cfg.backend = true) (hpol : cfg.policy = 0)
    (hfresh : Fresh cfg area) (hrun : CleanRun P cfg area ops) (pass : Bytes) (flags : Int)
    {vmk : Bytes} (env : AddEnv) (hvmk : vmk.length = cfg.vmkLen.toNat) :
    (∃ i : Nat, (keyslotAdd P cfg (areaAfter P cfg area ops) pass flags vmk env).1 = i ∧
      addOk cfg ∧ i < nSlots cfg area ∧ ¬ Occupied P cfg area ops i ∧
      (∀ j, j < i → Occupied P cfg area ops j) ∧
      SameOutside i (areaAfter P cfg area ops)
        (keyslotAdd P cfg (areaAfter P cfg area ops) pass flags vmk env).2) ∨
    keyslotAdd P cfg (areaAfter P cfg area ops) pass flags vmk env =
      (-1, areaAfter P cfg area ops) := by
  have hrep := rep_of_cleanRun hl hpol hfresh hrun
  have hslots := hrep.slots
  have hcases := hrep.add_cases hl hpol hvmk pass flags env
  rw [areaAfter_traced] at hcases hslots
  rcases hcases with ⟨i, rec, hf, hok, hrec, hadd⟩ | ⟨-, hadd⟩
  · obtain ⟨hin, hfree, hlow⟩ := lowestFree_eq_some_iff.mp hf
    rw [hadd]
    refine Or.inl ⟨i, rfl, hok.1, hin, ?_, fun j hj => ?_,
      sameOutside_put (by rw [hslots]; exact hin) hrec.length⟩
    · rw [occupied_iff hl hpol hfresh hrun, hfree]
      simp
    · exact (occupied_iff hl hpol hfresh hrun).mpr (hlow j hj)
  · exact Or.inr hadd

theorem keyslotRevoke_of_cleanRun (hl : isLabeled cfg.backend = true) (hpol : cfg.policy = 0)
    (hfresh : Fresh cfg area) (hrun : CleanRun P cfg area ops) (index : Int) (rand : RandStream) :
    ((keyslotRevoke cfg (areaAfter P cfg area ops) index rand).1 = 0 ∧ 0 ≤ index ∧
      index.toNat < nSlots cfg area ∧
      SameOutside index.toNat (areaAfter P cfg area ops)
        (keyslotRevoke cfg (areaAfter P cfg area ops) index rand).2) ∨
    keyslotRevoke cfg (areaAfter P cfg area ops) index rand = (-1, areaAfter P cfg area ops) := by
  have hrep := rep_of_cleanRun hl hpol hfresh hrun
  have hslots := hrep.slots
  have hwrites := hrep.writes
  rw [areaAfter_traced] at hslots hwrites
  by_cases hin : 0 ≤ index ∧ index.toNat < nSlots cfg area
  · have hin' : 0 ≤ index ∧ index.toNat < nSlots cfg (areaAfter P cfg area ops) := by
      rw [hslots]
      exact hin
    rw [keyslotRevoke_in_range cfg _ index hin' hwrites]
    exact Or.inl ⟨rfl, hin.1, hin.2, sameOutside_put hin'.2 (RandStream.length_bytes _ _ _)⟩
  · exact Or.inr (keyslotRevoke_out_of_range cfg _ index (by rw [hslots]; omega) rand)

/-- **The store keeps the promises of its header along every clean run.** An open succeeds
    exactly while an add under its passphrase is live, and hands out what the lowest such add
    enrolled; an add changes the lowest free slot only, a revoke the slot it names only; an add
    that finds no free slot, or a VMK too long for a record, changes nothing. -/
theorem keyslotStore_lifetime (P : Primitives) (cfg : KeyslotStoreCfg) (area : KeyslotArea)
    (hl : isLabeled cfg.backend = true) (hpol : cfg.policy = 0) (hfresh : Fresh cfg area)
    (ops : List StoreOp) (hrun : CleanRun P cfg area ops) :
    (∀ pass, CleanRun P cfg area (ops ++ [.open pass]) →
      ((keyslotOpen P cfg (areaAfter P cfg area ops) pass).isSome ↔
        ∃ i flags vmk, LiveAt P cfg area ops i pass flags vmk) ∧
      (∀ i flags vmk, LiveAt P cfg area ops i pass flags vmk →
        (∀ j flags' vmk', j < i → ¬ LiveAt P cfg area ops j pass flags' vmk') →
        keyslotOpen P cfg (areaAfter P cfg area ops) pass =
          some { vmk := vmk, flags := flagByte flags })) ∧
    (∀ pass flags vmk env, vmk.length = cfg.vmkLen.toNat →
      ((∃ i : Nat, (keyslotAdd P cfg (areaAfter P cfg area ops) pass flags vmk env).1 = i ∧
        i < nSlots cfg area ∧ ¬ Occupied P cfg area ops i ∧
        (∀ j, j < i → Occupied P cfg area ops j) ∧
        SameOutside i (areaAfter P cfg area ops)
          (keyslotAdd P cfg (areaAfter P cfg area ops) pass flags vmk env).2) ∨
      keyslotAdd P cfg (areaAfter P cfg area ops) pass flags vmk env =
        (-1, areaAfter P cfg area ops)) ∧
      ((∀ i, i < nSlots cfg area → Occupied P cfg area ops i) ∨ cfg.vmkLen > keyslotVmkMax ∨
          ¬ recFits cfg →
        keyslotAdd P cfg (areaAfter P cfg area ops) pass flags vmk env =
          (-1, areaAfter P cfg area ops))) ∧
    (∀ index rand,
      ((keyslotRevoke cfg (areaAfter P cfg area ops) index rand).1 = 0 ∧ 0 ≤ index ∧
        index.toNat < nSlots cfg area ∧
        SameOutside index.toNat (areaAfter P cfg area ops)
          (keyslotRevoke cfg (areaAfter P cfg area ops) index rand).2) ∨
      keyslotRevoke cfg (areaAfter P cfg area ops) index rand =
        (-1, areaAfter P cfg area ops)) := by
  refine ⟨fun pass hopen => ⟨keyslotOpen_isSome_iff_liveAt hl hpol hfresh hopen,
    fun i flags vmk hlive hlow => keyslotOpen_of_lowest_liveAt hl hpol hfresh hopen hlive hlow⟩,
    fun pass flags vmk env hvmk => ?_,
    fun index rand => keyslotRevoke_of_cleanRun hl hpol hfresh hrun index rand⟩
  rcases keyslotAdd_of_cleanRun hl hpol hfresh hrun pass flags env hvmk with ⟨i, hi, hok, hin, hfree, hlow, hframe⟩ | hno
  · refine ⟨Or.inl ⟨i, hi, hin, hfree, hlow, hframe⟩, fun hbad => ?_⟩
    rcases hbad with hfull | hbig | hfit
    · exact absurd (hfull i hin) hfree
    · exact absurd hok.2.1 (Int.not_le.mpr hbig)
    · exact absurd hok.2.2 hfit
  · exact ⟨Or.inr hno, fun _ => hno⟩

/-- Two enrolments on a table of two slots, and the first one revoked. -/
def demoOps : List StoreOp :=
  [.add [1] 5 [7] .demo, .add [2] 6 [8] .demo, .revoke 0 UInt8.ofNat]

theorem keyslotStore_lifetime_demo :
    (keyslotOpen .demo (.demo .header 0)
      (areaAfter .demo (.demo .header 0) (.blank 2048) demoOps) [2]).isSome = true := by
  have hfresh : Fresh (.demo .header 0) (.blank 2048) :=
    ⟨fun _ => rfl, fun _ => rfl, by decide +kernel⟩
  have hrun : CleanRun .demo (.demo .header 0) (.blank 2048) (demoOps ++ [.open [2]]) :=
    ⟨rfl, rfl, by unfold CleanCall; decide +kernel, by unfold CleanCall; decide +kernel, trivial⟩
  have hops := ((along_append _ demoOps [.open [2]]).mp hrun).1
  refine ((keyslotStore_lifetime .demo (.demo .header 0) (.blank 2048) rfl rfl hfresh demoOps
    hops).1 [2] hrun).1.mpr ?_
  exact ⟨1, 6, [8], [.add [1] 5 [7] .demo], .demo, [.revoke 0 UInt8.ofNat], rfl,
    by decide +kernel, by simp⟩

end

end VeraCrypt
