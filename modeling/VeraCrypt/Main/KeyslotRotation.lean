import VeraCrypt.Main.KeyslotCommand

/-!
# Rotation

A rotation enrols the new passphrase, then goes through the table for a slot that the old one
opens, revokes it and stops. So of several slots under the old passphrase one is revoked, and the
report of success does not say whether others are left. `retireOld_spec` says what the search
does to each slot; `rotate_retires_iff` says when that is what a rotation is for.
-/

set_option autoImplicit false

namespace VeraCrypt

open Lib

/-! ## What depends on one slot -/

section
variable {P : Primitives} {cfg : KeyslotStoreCfg} {area area' : KeyslotArea}

theorem SameMedium.matchAt_eq (h : SameMedium area area') {i : Nat}
    (hslot : slotAt area' i = slotAt area i) (pass : Bytes) :
    matchAt P cfg area' pass i = matchAt P cfg area pass i := by
  unfold matchAt
  rw [h.read_slot hslot]

theorem SameMedium.keyslotOpenAt_eq (h : SameMedium area area') {i : Nat}
    (hslot : slotAt area' i = slotAt area i) (pass : Bytes) :
    keyslotOpenAt P cfg area' i pass = keyslotOpenAt P cfg area i pass := by
  unfold keyslotOpenAt labeledRecAt
  rw [Int.toNat_natCast, h.nSlots_eq cfg, h.read_slot hslot]

/-- When an indexed open finds something. -/
theorem keyslotOpenAt_isSome_iff (hl : isLabeled cfg.backend = true) (hfit : recFits cfg)
    {i : Nat} {pass : Bytes} :
    (keyslotOpenAt P cfg area i pass).isSome = true ↔
      i < nSlots cfg area ∧ marked area i = true ∧ matchAt P cfg area pass i ≠ none := by
  unfold keyslotOpenAt labeledRecAt matchAt
  rw [if_neg (by simp [hl, hfit]), Int.toNat_natCast]
  by_cases hin : i < nSlots cfg area
  · rw [if_neg (by omega)]
    cases hread : area.read (i * keyslotTableStride) keyslotTableStride with
    | none => simp
    | some rec =>
      obtain rfl := read_slot hread
      simp only [marked, decide_eq_true_eq]
      by_cases hmagic : slice (slotAt area i) 0 4 = ksMagic
      · simp only [if_pos hmagic]
        cases (recUnwrapCT P cfg pass (slotAt area i)).1 <;> simp [hin, hmagic]
      · simp [hmagic]
  · rw [if_pos (by omega)]
    simp [hin]

theorem keyslotOpen_eq_none_iff (hl : isLabeled cfg.backend = true) (hfit : recFits cfg)
    {pass : Bytes} :
    keyslotOpen P cfg area pass = none ↔
      ∀ j < nSlots cfg area, matchAt P cfg area pass j = none := by
  rw [keyslotOpen_labeled P hl hfit, Option.map_eq_none_iff, firstMatch, List.findSome?_eq_none_iff]
  constructor
  · intro h j hj
    exact h j (List.mem_range.mpr hj)
  · intro h j hj
    exact h j (List.mem_range.mp hj)

/-- A revocation writes to its slot, whatever it answers. -/
theorem keyslotRevoke_eq {i : Nat} (hi : i < nSlots cfg area) (rand : RandStream) :
    keyslotRevoke cfg area i rand =
      (if (area.write (i * keyslotTableStride) (RandStream.bytes rand 0 keyslotTableStride)).1 then
        0 else -1,
        (area.write (i * keyslotTableStride) (RandStream.bytes rand 0 keyslotTableStride)).2) := by
  unfold keyslotRevoke
  rw [if_neg (by omega), Int.toNat_natCast]
  cases area.write (i * keyslotTableStride) (RandStream.bytes rand 0 keyslotTableStride) with
  | mk done area' => cases done <;> rfl

theorem sameMedium_keyslotRevoke (area : KeyslotArea) (i : Nat) (rand : RandStream) :
    SameMedium area (keyslotRevoke cfg area i rand).2 := by
  by_cases hi : i < nSlots cfg area
  · rw [keyslotRevoke_eq hi]
    simp only
    exact KeyslotArea.sameMedium_write area _ _
  · rw [keyslotRevoke_out_of_range cfg area i (Or.inr (by omega))]
    exact SameMedium.refl area

theorem slotAt_keyslotRevoke_ne {i j : Nat} (hne : i ≠ j) (rand : RandStream) :
    slotAt (keyslotRevoke cfg area i rand).2 j = slotAt area j := by
  by_cases hi : i < nSlots cfg area
  · rw [keyslotRevoke_eq hi]
    simp only
    exact slotAt_write_ne hi (Nat.le_of_eq (RandStream.length_bytes _ _ _)) hne
  · rw [keyslotRevoke_out_of_range cfg area i (Or.inr (by omega))]

/-- A revocation answers, and leaves its slot, as it would on another state of the medium with
    the same slot. -/
theorem SameMedium.keyslotRevoke_eq (h : SameMedium area area') {i : Nat}
    (hi : i < nSlots cfg area) (hslot : slotAt area' i = slotAt area i) (rand : RandStream) :
    (keyslotRevoke cfg area' i rand).1 = (keyslotRevoke cfg area i rand).1 ∧
      slotAt (keyslotRevoke cfg area' i rand).2 i =
        slotAt (keyslotRevoke cfg area i rand).2 i := by
  obtain ⟨hdone, hleft⟩ := h.write_congr hi
    (Nat.le_of_eq (RandStream.length_bytes rand 0 keyslotTableStride)) hslot
  rw [VeraCrypt.keyslotRevoke_eq hi,
    VeraCrypt.keyslotRevoke_eq (by rw [h.nSlots_eq cfg]; exact hi), hdone]
  simp only
  exact ⟨trivial, hleft⟩

end

/-! ## The search -/

section
variable (P : Primitives) (cfg : KeyslotStoreCfg) (password : Bytes) (idx : Int)
  (revoke : Nat → RandStream)

/-- A slot that the search opens. -/
def Seen (area : KeyslotArea) (i : Nat) : Prop :=
  (i : Int) ≠ idx ∧ (keyslotOpenAt P cfg area i password).isSome = true

/-- A slot of `l` that the search tries to revoke: it opens it, and no slot in front of it has
    ended the search. -/
def Attempted (area : KeyslotArea) (l : List Nat) (j : Nat) : Prop :=
  j ∈ l ∧ Seen P cfg password idx area j ∧
    ∀ k ∈ l, k < j → Seen P cfg password idx area k →
      (keyslotRevoke cfg area k (revoke k)).1 ≠ 0

variable {P cfg password idx revoke} {area : KeyslotArea} {i j : Nat} {rest : List Nat}

theorem attempted_cons_unseen (hunseen : ¬ Seen P cfg password idx area i) :
    Attempted P cfg password idx revoke area (i :: rest) j ↔
      Attempted P cfg password idx revoke area rest j := by
  constructor
  · rintro ⟨hmem, hseen, hbefore⟩
    refine ⟨?_, hseen, fun k hk => hbefore k (List.mem_cons_of_mem i hk)⟩
    rcases List.mem_cons.mp hmem with rfl | hrest
    · exact absurd hseen hunseen
    · exact hrest
  · rintro ⟨hmem, hseen, hbefore⟩
    refine ⟨List.mem_cons_of_mem i hmem, hseen, ?_⟩
    intro k hk hlt hseenk
    rcases List.mem_cons.mp hk with rfl | hrest
    · exact absurd hseenk hunseen
    · exact hbefore k hrest hlt hseenk

theorem attempted_cons_self (hsorted : (i :: rest).Pairwise (· < ·))
    (hseen : Seen P cfg password idx area i) :
    Attempted P cfg password idx revoke area (i :: rest) i := by
  refine ⟨List.mem_cons_self, hseen, ?_⟩
  intro k hk hlt
  rcases List.mem_cons.mp hk with rfl | hrest
  · exact absurd hlt (Nat.lt_irrefl k)
  · have hle := (List.pairwise_cons.mp hsorted).1 k hrest
    omega

/-- Behind a slot that was revoked nothing is tried. -/
theorem attempted_cons_done (hsorted : (i :: rest).Pairwise (· < ·))
    (hseen : Seen P cfg password idx area i)
    (hdone : (keyslotRevoke cfg area i (revoke i)).1 = 0)
    (h : Attempted P cfg password idx revoke area (i :: rest) j) : j = i := by
  obtain ⟨hmem, -, hbefore⟩ := h
  rcases List.mem_cons.mp hmem with rfl | hrest
  · rfl
  · have hlt := (List.pairwise_cons.mp hsorted).1 j hrest
    exact absurd hdone (hbefore i List.mem_cons_self hlt hseen)

/-- Behind a slot that could not be revoked the search goes on. -/
theorem attempted_cons_failed (hne : j ≠ i)
    (hfailed : (keyslotRevoke cfg area i (revoke i)).1 ≠ 0) :
    Attempted P cfg password idx revoke area (i :: rest) j ↔
      Attempted P cfg password idx revoke area rest j := by
  constructor
  · rintro ⟨hmem, hseen, hbefore⟩
    refine ⟨?_, hseen, fun k hk => hbefore k (List.mem_cons_of_mem i hk)⟩
    rcases List.mem_cons.mp hmem with rfl | hrest
    · exact absurd rfl hne
    · exact hrest
  · rintro ⟨hmem, hseen, hbefore⟩
    refine ⟨List.mem_cons_of_mem i hmem, hseen, ?_⟩
    intro k hk hlt hseenk
    rcases List.mem_cons.mp hk with rfl | hrest
    · exact hfailed
    · exact hbefore k hrest hlt hseenk

/-- What the search leaves of the table it started from: the slots it tried to revoke as their
    revocation left them, the others as they were. `area₀` is the table before the add. -/
structure Searched (P : Primitives) (cfg : KeyslotStoreCfg) (password : Bytes) (idx : Int)
    (revoke : Nat → RandStream) (area₀ area area' : KeyslotArea) (l : List Nat) : Prop where
  medium : SameMedium area₀ area'
  tried : ∀ j, Attempted P cfg password idx revoke area₀ l j →
    slotAt area' j = slotAt (keyslotRevoke cfg area₀ j (revoke j)).2 j
  kept : ∀ j, ¬ Attempted P cfg password idx revoke area₀ l j → slotAt area' j = slotAt area j

/-- **What the search of a rotation does to the table**, by induction on the slots still to be
    looked at. -/
theorem retireOld_spec (hl : isLabeled cfg.backend = true) (hfit : recFits cfg)
    {area₀ : KeyslotArea} {l : List Nat} :
    ∀ {area : KeyslotArea}, l.Pairwise (· < ·) → SameMedium area₀ area →
      (∀ i ∈ l, (i : Int) ≠ idx → slotAt area i = slotAt area₀ i) →
      Searched P cfg password idx revoke area₀ area
        (retireOld P cfg password idx revoke l area).2 l := by
  induction l with
  | nil =>
    intro area _ hmedium _
    refine ⟨hmedium, ?_, fun _ _ => rfl⟩
    intro j hj
    exact absurd hj.1 List.not_mem_nil
  | cons i rest ih =>
    intro area hsorted hmedium hslots
    obtain ⟨hfirst, hrest⟩ := List.pairwise_cons.mp hsorted
    have hslotsRest : ∀ k ∈ rest, (k : Int) ≠ idx → slotAt area k = slotAt area₀ k :=
      fun k hk => hslots k (List.mem_cons_of_mem i hk)
    have hskip : ¬ Seen P cfg password idx area₀ i →
        Searched P cfg password idx revoke area₀ area
          (retireOld P cfg password idx revoke rest area).2 (i :: rest) := by
      intro hunseen
      have hind := ih hrest hmedium hslotsRest
      refine ⟨hind.medium, ?_, ?_⟩
      · intro j hj
        exact hind.tried j ((attempted_cons_unseen hunseen).mp hj)
      · intro j hj
        exact hind.kept j (fun h => hj ((attempted_cons_unseen hunseen).mpr h))
    unfold retireOld
    by_cases hidx : (i : Int) = idx
    · rw [if_pos hidx]
      exact hskip (fun hseen => hseen.1 hidx)
    · rw [if_neg hidx]
      have hslot := hslots i List.mem_cons_self hidx
      have hopen := @SameMedium.keyslotOpenAt_eq P cfg _ _ hmedium _ hslot password
      cases hfound : keyslotOpenAt P cfg area i password with
      | none =>
        refine hskip ?_
        rintro ⟨-, hsome⟩
        rw [← hopen, hfound] at hsome
        cases hsome
      | some opened =>
        have hseen : Seen P cfg password idx area₀ i := by
          refine ⟨hidx, ?_⟩
          rw [← hopen, hfound]
          rfl
        have hin := ((keyslotOpenAt_isSome_iff hl hfit).mp hseen.2).1
        obtain ⟨hcode, hleft⟩ := hmedium.keyslotRevoke_eq hin hslot (revoke i)
        have hrevoked := hmedium.trans (@sameMedium_keyslotRevoke cfg area i (revoke i))
        simp only
        by_cases hdone : (keyslotRevoke cfg area i (revoke i)).1 = 0
        · -- the search ends here
          rw [if_pos hdone]
          have hdone₀ := hcode.symm.trans hdone
          refine ⟨hrevoked, ?_, ?_⟩
          · intro j hj
            obtain rfl := attempted_cons_done hsorted hseen hdone₀ hj
            exact hleft
          · intro j hj
            refine slotAt_keyslotRevoke_ne ?_ _
            rintro rfl
            exact hj (attempted_cons_self hsorted hseen)
        · rw [if_neg hdone]
          have hfailed₀ : (keyslotRevoke cfg area₀ i (revoke i)).1 ≠ 0 := by
            rw [← hcode]
            exact hdone
          have hind := ih hrest hrevoked (fun k hk hkidx => by
            rw [slotAt_keyslotRevoke_ne (Nat.ne_of_lt (hfirst k hk))]
            exact hslotsRest k hk hkidx)
          refine ⟨hind.medium, ?_, ?_⟩
          · intro j hj
            by_cases hji : j = i
            · subst hji
              have hnot : ¬ Attempted P cfg password idx revoke area₀ rest j :=
                fun h => absurd (hfirst j h.1) (Nat.lt_irrefl j)
              rw [hind.kept j hnot]
              exact hleft
            · exact hind.tried j ((attempted_cons_failed hji hfailed₀).mp hj)
          · intro j hj
            by_cases hji : j = i
            · subst hji
              exact absurd (attempted_cons_self hsorted hseen) hj
            · rw [hind.kept j (fun h => hj ((attempted_cons_failed hji hfailed₀).mpr h))]
              exact slotAt_keyslotRevoke_ne (Ne.symm hji) _

end

/-! ## The add -/

/-- What a successful add to a labeled table has done: its record lies in slot `i`, and nothing
    else has changed. -/
structure Added (P : Primitives) (cfg : KeyslotStoreCfg) (before added : KeyslotArea) (i : Nat)
    (pass vmk : Bytes) (flags : Int) : Prop where
  inTable : i < nSlots cfg before
  medium : SameMedium before added
  others : ∀ j, j ≠ i → slotAt added j = slotAt before j
  mark : marked added i = true
  holds : ∃ blob, recUnwrapCT P cfg pass (slotAt added i) = (true, blob) ∧
    openedV1 cfg (afMerge P blob (plenOf cfg) (afOf cfg)) =
      { vmk := vmk, flags := flagByte flags }

section
variable {P : Primitives} {cfg : KeyslotStoreCfg} {before : KeyslotArea} {pass vmk : Bytes}
  {flags : Int} {env : AddEnv}

theorem added_of_keyslotAdd (hl : isLabeled cfg.backend = true) (hplain : cfg.policy = 0)
    (hvmk : vmk.length = cfg.vmkLen.toNat)
    (h : 0 ≤ (keyslotAdd P cfg before pass flags vmk env).1) :
    ∃ i : Nat, (keyslotAdd P cfg before pass flags vmk env).1 = i ∧
      i = (labeledFirstFree cfg before).toNat ∧ Added P cfg before (keyslotAdd P cfg before pass flags vmk env).2 i pass vmk flags := by
  by_cases hok : addOk cfg
  · obtain ⟨blob, hblob, hmerge, hadd⟩ := keyslotAdd_labeled P before hok hl pass flags vmk env
    rw [hadd] at h ⊢
    by_cases hfree : labeledFirstFree cfg before < 0
    · rw [if_pos hfree] at h
      exact absurd h (show ¬ (0 : Int) ≤ -1 by decide)
    · rw [if_neg hfree] at h ⊢
      have hfit := recFits_labeled hl hok.2.2
      have hsalt : (addSalt env).length = keyslotSaltSize := RandStream.length_bytes _ _ _
      have hfill : (addFill env).length = keyslotTableStride := RandStream.length_bytes _ _ _
      have hlen := @length_labeledRecord P _ pass _ _ _ hfit hsalt hfill hblob
      have hfree' := Int.not_lt.mp hfree
      have hin := labeledFirstFree_lt hfree'
      obtain ⟨hput, hslot⟩ := putRecord_firstFree hlen hfree' h
      refine ⟨(labeledFirstFree cfg before).toNat, ?_, rfl, ?_⟩
      · rw [hput]
        exact (Int.toNat_of_nonneg hfree').symm
      · rw [hput]
        refine ⟨hin, ?_, ?_, ?_, blob, ?_, ?_⟩
        · refine ⟨KeyslotArea.size_put ?_, rfl, rfl⟩
          rw [hlen]
          exact slot_le_size hin
        · intro j hj
          exact slotAt_put_ne hin hlen (Ne.symm hj)
        · rw [marked, hslot]
          exact decide_eq_true (magic_labeledRecord P hfit hsalt hfill hblob)
        · rw [hslot]
          exact recUnwrapCT_labeledRecord P hfit hsalt hfill hblob
        · rw [hmerge, addPayload_of_v1 hok hplain hvmk]
          exact openedV1_cons cfg _ hvmk
  · rw [keyslotAdd_of_not_ok P before hok] at h
    exact absurd h (show ¬ (0 : Int) ≤ -1 by decide)

/-- In a table whose slots an `int` can number, an add goes to a free slot. -/
theorem free_of_keyslotAdd (hl : isLabeled cfg.backend = true)
    (hsmall : nSlots cfg before ≤ 2 ^ 31) {i : Nat}
    (h : (keyslotAdd P cfg before pass flags vmk env).1 = i) : marked before i = false := by
  by_cases hok : addOk cfg
  · obtain ⟨blob, -, -, hadd⟩ := keyslotAdd_labeled P before hok hl pass flags vmk env
    rw [hadd] at h
    by_cases hfree : labeledFirstFree cfg before < 0
    · rw [if_pos hfree] at h
      exact absurd h (by omega)
    · rw [if_neg hfree] at h
      obtain ⟨k, hmem, hfind, hidx⟩ := firstFreeFrom_nonneg (Int.not_lt.mp hfree)
      have hk := List.mem_range.mp hmem
      have hcast : labeledFirstFree cfg before = (k : Int) := by
        rw [labeledFirstFree, hidx, toInt32_of_lt (by omega)]
      obtain ⟨-, hput, -⟩ := putRecord_nonneg (show 0 ≤ (putRecord before
        (labeledFirstFree cfg before)
        (labeledRecord P cfg pass (addSalt env) (addFill env) blob)).1 by rw [h]; omega)
      rw [hput, hcast] at h
      obtain rfl : k = i := Int.ofNat.inj h
      have hunmarked := List.find?_some hfind
      simpa using hunmarked
  · rw [keyslotAdd_of_not_ok P before hok] at h
    exact absurd h (by simp)

end

/-! ## What a rotation is for -/

/-- The old passphrase opens no slot of the table, the new one opens slot `i` with the master
    key, and every slot in use that the old one did not open is as it was. -/
structure RotationDone (P : Primitives) (cfg : KeyslotStoreCfg) (before after : KeyslotArea)
    (i : Nat) (old new vmk : Bytes) (flags : Int) : Prop where
  retired : keyslotOpen P cfg after old = none
  enrolled : keyslotOpenAt P cfg after i new = some { vmk := vmk, flags := flagByte flags }
  others : ∀ j < nSlots cfg before, marked before j = true →
    matchAt P cfg before old j = none → slotAt after j = slotAt before j

/-- A slot, other than `i`, under the old passphrase. -/
def UnderOld (P : Primitives) (cfg : KeyslotStoreCfg) (before : KeyslotArea) (i : Nat)
    (old : Bytes) (j : Nat) : Prop :=
  j < nSlots cfg before ∧ j ≠ i ∧ matchAt P cfg before old j ≠ none

/-- When a rotation that enrolled in slot `i` retires the old passphrase. Where the medium takes
    every write, `first` says that there is at most one slot under it. -/
structure RetiresOld (P : Primitives) (cfg : KeyslotStoreCfg) (before added : KeyslotArea)
    (i scan : Nat) (old : Bytes) (revoke : Nat → RandStream) : Prop where
  /-- The slot of the new record can be read, was free, and does not open under the old
      passphrase. -/
  readable : before.readFails (i * keyslotTableStride) = false
  free : marked before i = true → matchAt P cfg before old i = none →
    slotAt added i = slotAt before i
  fresh : matchAt P cfg added old i = none
  /-- The search comes to every slot under the old passphrase, and its revocation leaves nothing
      that opens. -/
  found : ∀ j, UnderOld P cfg before i old j → j < scan ∧ marked before j = true
  wiped : ∀ j, UnderOld P cfg before i old j →
    matchAt P cfg (keyslotRevoke cfg before j (revoke j)).2 old j = none
  /-- No slot under the old passphrase lies behind one that could be revoked. -/
  first : ∀ j k, UnderOld P cfg before i old j → UnderOld P cfg before i old k → k < j →
    (keyslotRevoke cfg before k (revoke k)).1 ≠ 0

section
variable {P : Primitives} {cfg : KeyslotStoreCfg} {before added : KeyslotArea} {i scan : Nat}
  {old new vmk : Bytes} {flags : Int} {revoke : Nat → RandStream}

theorem seen_iff (hl : isLabeled cfg.backend = true) (hfit : recFits cfg) {j : Nat} :
    Seen P cfg old i before j ↔ UnderOld P cfg before i old j ∧ marked before j = true := by
  unfold Seen UnderOld
  rw [keyslotOpenAt_isSome_iff hl hfit]
  constructor
  · rintro ⟨hne, hin, hmark, hopens⟩
    exact ⟨⟨hin, fun h => hne (congrArg Int.ofNat h), hopens⟩, hmark⟩
  · rintro ⟨⟨hin, hne, hopens⟩, hmark⟩
    exact ⟨fun h => hne (Int.ofNat.inj h), hin, hmark, hopens⟩

/-- The search of a rotation, over the table before the add. -/
theorem searched (hl : isLabeled cfg.backend = true) (hfit : recFits cfg)
    (hadd : Added P cfg before added i new vmk flags) :
    Searched P cfg old i revoke before added
      (retireOld P cfg old i revoke (List.range scan) added).2 (List.range scan) := by
  refine retireOld_spec hl hfit List.pairwise_lt_range hadd.medium ?_
  intro j _ hne
  exact hadd.others j (fun h => hne (congrArg Int.ofNat h))

/-- A slot that unwraps under a passphrase opens by its index, where it can be read. -/
theorem keyslotOpenAt_of_holds (hl : isLabeled cfg.backend = true) (hfit : recFits cfg)
    {area : KeyslotArea} {pass blob : Bytes} (hin : i < nSlots cfg area)
    (hreads : area.readFails (i * keyslotTableStride) = false) (hmark : marked area i = true)
    (hunwrap : recUnwrapCT P cfg pass (slotAt area i) = (true, blob)) :
    keyslotOpenAt P cfg area i pass =
      some (openedV1 cfg (afMerge P blob (plenOf cfg) (afOf cfg))) := by
  have hrec : labeledRecAt cfg area i = some (slotAt area i) := by
    have hat := @labeledRecAt_of_read cfg (i : Int) area
    rw [Int.toNat_natCast] at hat
    exact hat ⟨by omega, hin⟩ hreads (of_decide_eq_true hmark)
  unfold keyslotOpenAt
  rw [if_neg (by simp [hl, hfit]), hrec]
  simp only [hunwrap, if_true]

/-- **A rotation retires the old passphrase exactly under `RetiresOld`.** -/
theorem rotationDone_iff (hl : isLabeled cfg.backend = true) (hfit : recFits cfg)
    (hadd : Added P cfg before added i new vmk flags) :
    RotationDone P cfg before (retireOld P cfg old i revoke (List.range scan) added).2 i old new
        vmk flags ↔
      RetiresOld P cfg before added i scan old revoke := by
  have hsearched := @searched P _ _ _ _ scan old _ _ _ revoke hl hfit hadd
  generalize (retireOld P cfg old i revoke (List.range scan) added).2 = after at hsearched
  have hself : slotAt after i = slotAt added i :=
    hsearched.kept i (fun h => h.2.1.1 rfl)
  have hafter : nSlots cfg after = nSlots cfg before := hsearched.medium.nSlots_eq cfg
  have haddedAfter : SameMedium added after := hadd.medium.symm.trans hsearched.medium
  have hrevokedAfter : ∀ j : Nat, SameMedium (keyslotRevoke cfg before j (revoke j)).2 after :=
    fun j => (sameMedium_keyslotRevoke before j (revoke j)).symm.trans hsearched.medium
  obtain ⟨blob, hunwrap, hopened⟩ := hadd.holds
  constructor
  · intro hdone
    have hretired := (keyslotOpen_eq_none_iff hl hfit).mp hdone.retired
    -- a slot under the old passphrase that was not tried would still open
    have htried : ∀ j, UnderOld P cfg before i old j →
        Attempted P cfg old i revoke before (List.range scan) j := by
      rintro j ⟨hin, hne, hopens⟩
      by_contra hnot
      have hsame : slotAt after j = slotAt before j :=
        (hsearched.kept j hnot).trans (hadd.others j hne)
      rw [← hsearched.medium.matchAt_eq hsame] at hopens
      exact hopens (hretired j (by rw [hafter]; exact hin))
    refine ⟨?_, ?_, ?_, ?_, ?_, ?_⟩
    · have henrolled := hdone.enrolled
      unfold keyslotOpenAt labeledRecAt KeyslotArea.read at henrolled
      rw [hsearched.medium.reads, Int.toNat_natCast] at henrolled
      cases hreads : before.readFails (i * keyslotTableStride) with
      | false => rfl
      | true => simp [hreads] at henrolled
    · intro hmark hnone
      rw [← hself]
      exact hdone.others i hadd.inTable hmark hnone
    · rw [← haddedAfter.matchAt_eq hself]
      exact hretired i (by rw [hafter]; exact hadd.inTable)
    · intro j hj
      obtain ⟨hmem, hseen, -⟩ := htried j hj
      exact ⟨List.mem_range.mp hmem, ((seen_iff hl hfit).mp hseen).2⟩
    · intro j hj
      have hleft := hsearched.tried j (htried j hj)
      rw [← (hrevokedAfter j).matchAt_eq hleft]
      exact hretired j (by rw [hafter]; exact hj.1)
    · intro j k hj hk hlt
      obtain ⟨hmem, -, hbefore⟩ := htried j hj
      have hkmem : k ∈ List.range scan :=
        List.mem_range.mpr (Nat.lt_trans hlt (List.mem_range.mp hmem))
      exact hbefore k hkmem hlt (htried k hk).2.1
  · intro hcond
    refine ⟨?_, ?_, ?_⟩
    · refine (keyslotOpen_eq_none_iff hl hfit).mpr ?_
      intro j hj
      rw [hafter] at hj
      by_cases hji : j = i
      · subst hji
        rw [haddedAfter.matchAt_eq hself]
        exact hcond.fresh
      · by_cases hnone : matchAt P cfg before old j = none
        · have hkept : ¬ Attempted P cfg old i revoke before (List.range scan) j :=
            fun h => ((seen_iff hl hfit).mp h.2.1).1.2.2 hnone
          rw [hsearched.medium.matchAt_eq ((hsearched.kept j hkept).trans (hadd.others j hji))]
          exact hnone
        · have hunder : UnderOld P cfg before i old j := ⟨hj, hji, hnone⟩
          obtain ⟨hscan, hmark⟩ := hcond.found j hunder
          have htried : Attempted P cfg old i revoke before (List.range scan) j := by
            refine ⟨List.mem_range.mpr hscan, (seen_iff hl hfit).mpr ⟨hunder, hmark⟩, ?_⟩
            intro k _ hlt hseen
            exact hcond.first j k hunder ((seen_iff hl hfit).mp hseen).1 hlt
          rw [(hrevokedAfter j).matchAt_eq (hsearched.tried j htried)]
          exact hcond.wiped j hunder
    · rw [← hopened]
      refine keyslotOpenAt_of_holds hl hfit (by rw [hafter]; exact hadd.inTable) ?_ ?_ ?_
      · rw [hsearched.medium.reads]
        exact hcond.readable
      · rw [marked, hself]
        exact hadd.mark
      · rw [hself]
        exact hunwrap
    · intro j hj hmark hnone
      by_cases hji : j = i
      · subst hji
        rw [hself]
        exact hcond.free hmark hnone
      · have hkept : ¬ Attempted P cfg old i revoke before (List.range scan) j :=
          fun h => ((seen_iff hl hfit).mp h.2.1).1.2.2 hnone
        exact (hsearched.kept j hkept).trans (hadd.others j hji)

/-- Where the medium takes every write, a rotation retires a passphrase with one slot at most. -/
theorem RetiresOld.unique (h : RetiresOld P cfg before added i scan old revoke)
    (hwrites : ∀ off, before.writeFault off = none) {j k : Nat}
    (hj : UnderOld P cfg before i old j) (hk : UnderOld P cfg before i old k) : j = k := by
  have hrevokes : ∀ l, UnderOld P cfg before i old l →
      (keyslotRevoke cfg before l (revoke l)).1 = 0 := by
    intro l hl
    rw [keyslotRevoke_in_range cfg before l ⟨by omega, hl.1⟩ hwrites]
  rcases Nat.lt_trichotomy j k with hlt | rfl | hgt
  · exact absurd (hrevokes j hj) (h.first k j hk hj hlt)
  · rfl
  · exact absurd (hrevokes k hk) (h.first j k hj hk hgt)

end

/-! ## The command -/

section
variable {env : OpenEnv} {machine : KeyslotMachine} {options : KeyslotOptions}
  {files files' : KeyslotFiles}

/-- A rotation that reported success: what it did to the table. -/
theorem keyslotCommand_rotated {idx : Int} {killed : Option Nat} (hsized : files.Sized)
    (hl : isLabeled options.backend = true)
    (hrun : keyslotCommand env machine .rotate options files = (.ok (.rotated idx killed), files')) :
    ∃ old vmk a cfg, ∃ i : Nat, Enrols env machine options files old vmk a cfg ∧ idx = i ∧
      LabeledTable (files.store machine options.backend) a cfg ∧
      let before := a.area (files.store machine options.backend)
        (storeIo env machine options.backend)
      let added := (keyslotAdd env.P cfg before options.keyslotPassword options.flags vmk
        machine.add).2
      i = (labeledFirstFree cfg before).toNat ∧
        Added env.P cfg before added i options.keyslotPassword vmk options.flags ∧
        a.area (files'.store machine options.backend) (storeIo env machine options.backend) =
          (retireOld env.P cfg old i machine.revoke (List.range (scanSlots cfg a.len)) added).2 := by
  rcases @keyslotCommand_add_cases _ _ _ _ .rotate (Or.inr rfl) with
    ⟨e, herr⟩ | ⟨e, herr⟩ | ⟨old, vmk, a, cfg, henrols, hdone⟩
  · rw [herr] at hrun
    cases hrun
  · rw [herr] at hrun
    cases hrun
  · have htable := keyslotBind_labeled hsized hl henrols.bound
    have hvmk : vmk.length = cfg.vmkLen.toNat := by
      rw [length_recoverVmk hsized hl henrols.recovered, htable.vmkLen]
      rfl
    rw [hdone] at hrun
    obtain ⟨hreport, hfiles⟩ := Prod.mk.inj hrun
    unfold addKeyslot at hreport hfiles
    simp only at hreport hfiles
    by_cases hfailed : (keyslotAdd env.P cfg (a.area (files.store machine options.backend)
        (storeIo env machine options.backend)) options.keyslotPassword options.flags vmk
        machine.add).1 < 0
    · rw [if_pos hfailed] at hreport
      cases hreport
    · rw [if_neg hfailed] at hreport hfiles
      obtain ⟨i, hidx, hfirst, hadd⟩ := added_of_keyslotAdd htable.labeled htable.plain hvmk
        (Int.not_lt.mp hfailed)
      rw [hidx] at hreport hfiles
      simp only [decide_true, if_true] at hreport hfiles
      cases hreport
      refine ⟨old, vmk, a, cfg, i, henrols, rfl, htable, hfirst, hadd, ?_⟩
      have hsearched := @searched _ _ _ _ _ (scanSlots cfg a.len) old _ _ _ machine.revoke
        htable.labeled htable.adds.2.2 hadd
      rw [← hfiles, KeyslotFiles.store_put]
      exact area_store_of_sameMedium htable.inside hsearched.medium

/-- The rotation that enrolled in slot `idx` has done what it is for (`RotationDone`). -/
def OldRetired (env : OpenEnv) (machine : KeyslotMachine) (options : KeyslotOptions)
    (files files' : KeyslotFiles) (idx : Int) : Prop :=
  ∃ old vmk a cfg, ∃ i : Nat, Enrols env machine options files old vmk a cfg ∧ idx = i ∧
    RotationDone env.P cfg
      (a.area (files.store machine options.backend) (storeIo env machine options.backend))
      (a.area (files'.store machine options.backend) (storeIo env machine options.backend))
      i old options.keyslotPassword vmk options.flags

/-- The table before the rotation meets the condition (`RetiresOld`) for its first free slot. -/
def OldRetirable (env : OpenEnv) (machine : KeyslotMachine) (options : KeyslotOptions)
    (files : KeyslotFiles) : Prop :=
  ∃ old vmk a cfg, Enrols env machine options files old vmk a cfg ∧
    let before := a.area (files.store machine options.backend)
      (storeIo env machine options.backend)
    let added := (keyslotAdd env.P cfg before options.keyslotPassword options.flags vmk
      machine.add).2
    RetiresOld env.P cfg before added (labeledFirstFree cfg before).toNat
      (scanSlots cfg a.len) old machine.revoke

/-- Passphrase, master key and window of a command are determined. -/
theorem Enrols.unique {old old' vmk vmk' : Bytes} {a a' : KeyslotFileArea}
    {cfg cfg' : KeyslotStoreCfg} (h : Enrols env machine options files old vmk a cfg)
    (h' : Enrols env machine options files old' vmk' a' cfg') :
    old' = old ∧ vmk' = vmk ∧ a' = a ∧ cfg' = cfg := by
  obtain rfl : old' = old := Option.some.inj (h'.given.symm.trans h.given)
  obtain rfl : vmk' = vmk := Except.ok.inj (h'.recovered.symm.trans h.recovered)
  have hbound := Option.some.inj (h'.bound.symm.trans h.bound)
  exact ⟨rfl, rfl, congrArg Prod.fst hbound, congrArg Prod.snd hbound⟩

theorem rotated_retires_iff {idx : Int} {killed : Option Nat} (hsized : files.Sized)
    (hl : isLabeled options.backend = true)
    (hrun : keyslotCommand env machine .rotate options files = (.ok (.rotated idx killed), files')) :
    OldRetired env machine options files files' idx ↔
      OldRetirable env machine options files := by
  obtain ⟨old, vmk, a, cfg, i, henrols, hidx, htable, hfirst, hadd, hafter⟩ :=
    keyslotCommand_rotated hsized hl hrun
  have hiff := @rotationDone_iff _ _ _ _ _ (scanSlots cfg a.len) old _ _ _ machine.revoke
    htable.labeled htable.adds.2.2 hadd
  rw [← hafter] at hiff
  constructor
  · rintro ⟨old', vmk', a', cfg', i', henrols', hidx', hdone⟩
    obtain ⟨rfl, rfl, rfl, rfl⟩ := henrols.unique henrols'
    obtain rfl : i' = i := Int.ofNat.inj (hidx'.symm.trans hidx)
    refine ⟨old', vmk', a', cfg', henrols', ?_⟩
    simp only
    rw [← hfirst]
    exact hiff.mp hdone
  · rintro ⟨old', vmk', a', cfg', henrols', hcond⟩
    obtain ⟨rfl, rfl, rfl, rfl⟩ := henrols.unique henrols'
    simp only at hcond
    rw [← hfirst] at hcond
    exact ⟨old', vmk', a', cfg', i, henrols', hidx, hiff.mpr hcond⟩

/-- **When a rotation that reported success has retired the old passphrase**: exactly when the
    search comes to every slot under it, and only the last of them could be revoked. -/
theorem rotate_retires_iff (env : OpenEnv) (machine : KeyslotMachine) (options : KeyslotOptions)
    (files files' : KeyslotFiles) (idx : Int) (killed : Option Nat) (hsized : files.Sized)
    (hl : isLabeled options.backend = true)
    (hrun : keyslotCommand env machine .rotate options files = (.ok (.rotated idx killed), files')) :
    OldRetired env machine options files files' idx ↔
      OldRetirable env machine options files :=
  rotated_retires_iff hsized hl hrun

end

/-! ## A sidecar under two wrappings -/

/-- An add that finds a free slot of a medium that takes every write. -/
theorem keyslotAdd_of_free {P : Primitives} {cfg : KeyslotStoreCfg} {area : KeyslotArea}
    (hl : isLabeled cfg.backend = true) (hok : addOk cfg)
    (hwrites : ∀ off, area.writeFault off = none) (hfree : 0 ≤ labeledFirstFree cfg area)
    (pass vmk : Bytes) (flags : Int) (env : AddEnv) :
    (keyslotAdd P cfg area pass flags vmk env).1 = labeledFirstFree cfg area := by
  obtain ⟨blob, hblob, -, hadd⟩ := keyslotAdd_labeled P area hok hl pass flags vmk env
  have hlen := @length_labeledRecord P _ pass _ _ _ (recFits_labeled hl hok.2.2)
    (RandStream.length_bytes env.rand 0 keyslotSaltSize)
    (RandStream.length_bytes env.rand keyslotSaltSize keyslotTableStride) hblob
  have hin := labeledFirstFree_lt hfree
  have hoff := slotOff_firstFree hfree
  have hwrite := @KeyslotArea.write_of_ok area (slotOff (labeledFirstFree cfg area))
    (labeledRecord P cfg pass (addSalt env) (addFill env) blob)
    (by rw [hoff, show (labeledRecord P cfg pass (addSalt env) (addFill env) blob).length =
          keyslotTableStride from hlen]; exact slot_le_size hin) (hwrites _)
  rw [hadd, if_neg (Int.not_lt.mpr hfree), putRecord, hwrite]

/-- The free slot that a medium that reads gives: the first one without the magic. -/
theorem labeledFirstFree_eq {cfg : KeyslotStoreCfg} {area : KeyslotArea} {k : Nat}
    (hreads : ∀ off, area.readFails off = false) (hin : k < nSlots cfg area) (hint : k < 2 ^ 31)
    (hbefore : ∀ j < k, marked area j = true) (hfree : marked area k = false) :
    labeledFirstFree cfg area = k := by
  have hlowest : lowestUnmarked cfg area = some k := by
    rw [lowestUnmarked, List.find?_range_eq_some]
    refine ⟨by simp [hfree], List.mem_range.mpr hin, ?_⟩
    intro j hj
    simp [hbefore j hj]
  rw [labeledFirstFree_of_reads hreads, hlowest]
  exact toInt32_of_lt hint

/-- The next slot of a table whose first `k` slots are in use. -/
structure NextFree (cfg : KeyslotStoreCfg) (area : KeyslotArea) (k : Nat) : Prop where
  reads : ∀ off, area.readFails off = false
  writes : ∀ off, area.writeFault off = none
  inTable : k < nSlots cfg area
  used : ∀ j < k, marked area j = true
  free : ∀ j, k ≤ j → marked area j = false

theorem NextFree.labeledFirstFree_eq {cfg : KeyslotStoreCfg} {area : KeyslotArea} {k : Nat}
    (h : NextFree cfg area k) (hint : k < 2 ^ 31) : labeledFirstFree cfg area = k :=
  VeraCrypt.labeledFirstFree_eq h.reads h.inTable hint h.used (h.free k (Nat.le_refl k))

theorem NextFree.added {P : Primitives} {cfg : KeyslotStoreCfg} {area : KeyslotArea} {k : Nat}
    (h : NextFree cfg area k) (hint : k < 2 ^ 31) (hl : isLabeled cfg.backend = true)
    (hplain : cfg.policy = 0) (hok : addOk cfg) {vmk : Bytes}
    (hvmk : vmk.length = cfg.vmkLen.toNat) (pass : Bytes) (flags : Int) (env : AddEnv) :
    Added P cfg area (keyslotAdd P cfg area pass flags vmk env).2 k pass vmk flags := by
  have hfirst := h.labeledFirstFree_eq hint
  have hidx := keyslotAdd_of_free (P := P) hl hok h.writes (by rw [hfirst]; omega) pass vmk flags
    env
  rw [hfirst] at hidx
  obtain ⟨i, hi, -, hadd⟩ := @added_of_keyslotAdd P _ area pass _ flags env hl hplain hvmk (by rw [hidx]; omega)
  rw [hidx] at hi
  obtain rfl : k = i := Int.ofNat.inj hi
  exact hadd

/-- After an add the slot behind is the next. -/
theorem NextFree.next {P : Primitives} {cfg : KeyslotStoreCfg} {area added : KeyslotArea} {k : Nat}
    {pass vmk : Bytes} {flags : Int} (h : NextFree cfg area k)
    (hadd : Added P cfg area added k pass vmk flags) (hin : k + 1 < nSlots cfg area) :
    NextFree cfg added (k + 1) := by
  refine ⟨?_, ?_, ?_, ?_, ?_⟩
  · rw [hadd.medium.reads]
    exact h.reads
  · rw [hadd.medium.faults]
    exact h.writes
  · rw [hadd.medium.nSlots_eq cfg]
    exact hin
  · intro j hj
    by_cases hjk : j = k
    · subst hjk
      exact hadd.mark
    · rw [marked, hadd.others j hjk]
      exact h.used j (by omega)
  · intro j hj
    rw [marked, hadd.others j (by omega)]
    exact h.free j (by omega)

/-- A slot under a passphrase, where it can be read. -/
theorem Added.matchAt_ne_none {P : Primitives} {cfg : KeyslotStoreCfg} {before added : KeyslotArea}
    {i : Nat} {pass vmk : Bytes} {flags : Int} (h : Added P cfg before added i pass vmk flags)
    (hreads : ∀ off, before.readFails off = false) : matchAt P cfg added pass i ≠ none := by
  obtain ⟨blob, hunwrap, -⟩ := h.holds
  have hread : added.read (i * keyslotTableStride) keyslotTableStride = some (slotAt added i) :=
    KeyslotArea.read_of_ok (slot_le_size (by rw [h.medium.nSlots_eq cfg]; exact h.inTable))
      (by rw [h.medium.reads]; exact hreads _)
  rw [matchAt_of_read P hread, hunwrap]
  simp

/-- The search ends with the first slot it looks at, where that opens and can be written. -/
theorem retireOld_first {P : Primitives} {cfg : KeyslotStoreCfg} {password : Bytes} {idx : Int}
    {revoke : Nat → RandStream} {area : KeyslotArea} {i : Nat} (rest : List Nat)
    (hne : (i : Int) ≠ idx) (hin : i < nSlots cfg area)
    (hopens : (keyslotOpenAt P cfg area i password).isSome = true)
    (hwrites : ∀ off, area.writeFault off = none) :
    (retireOld P cfg password idx revoke (i :: rest) area).1 = some i := by
  obtain ⟨opened, hopened⟩ := Option.isSome_iff_exists.mp hopens
  have hrevoke := keyslotRevoke_in_range cfg area i ⟨by omega, hin⟩ hwrites (revoke i)
  unfold retireOld
  rw [if_neg hne, hopened]
  simp only
  rw [hrevoke]
  rfl

/-- The report of a rotation whose add succeeded. -/
theorem addKeyslot_rotated {P : Primitives} {cfg : KeyslotStoreCfg} {area : KeyslotArea}
    {scan : Nat} {options : KeyslotOptions} {machine : KeyslotMachine} {password vmk : Bytes}
    {idx : Int}
    (hadd : (keyslotAdd P cfg area options.keyslotPassword options.flags vmk machine.add).1 = idx)
    (hidx : 0 ≤ idx) :
    (addKeyslot P cfg area scan true options machine password vmk).1 =
      .ok (.rotated idx (retireOld P cfg password idx machine.revoke (List.range scan)
        (keyslotAdd P cfg area options.keyslotPassword options.flags vmk machine.add).2).1) := by
  unfold addKeyslot
  simp only
  rw [hadd, if_neg (Int.not_lt.mpr hidx), if_pos trivial]

namespace SlotContainer

/-- A rotation from the password of the container, on a sidecar. -/
def rotation : KeyslotOptions where
  backend := .sidecar
  hasSidecarPath := true
  password := some [7]
  passwordWithKeyfiles := [7]
  pim := 0
  kdf := some .hmacSha512
  hasKeyfiles := false
  keyslotPassword := [8]
  keyslotIndex := 0
  keyslotDuress := false

def machine : KeyslotMachine where
  mem := memory
  containerFault _ := none
  sidecarIo := { readFails := fun _ => false, writeFault := fun _ => none }
  sidecarFill _ := 0
  add := .demo
  revoke _ _ := 0

def sidecarCfg : KeyslotStoreCfg := keyslotSidecarCfg env.keyslotKdf (1 + keyslotPayloadSize)

/-- A table with one more slot under the password of the container. -/
def withSlot (area : KeyslotArea) : KeyslotArea :=
  (keyslotAdd .demo sidecarCfg area [7] 0 (List.replicate 449 1) .demo).2

/-- A sidecar of three slots, with one and with two of them under that password. -/
def once : KeyslotArea := withSlot (.blank (3 * keyslotTableStride))
def twice : KeyslotArea := withSlot once

def withSidecar (area : KeyslotArea) : KeyslotFiles where
  container := host
  sidecar := some area.bytes

theorem sized_withSidecar {area : KeyslotArea} (hsize : area.size = 3 * keyslotTableStride) :
    (withSidecar area).Sized := by
  refine ⟨?_, ?_, ?_⟩
  · show volumeHeaderSize ≤ host.length
    rw [length_host]
    decide
  · show host.length ≤ offsetMax
    rw [length_host]
    decide
  · rintro bytes hbytes
    obtain rfl := Option.some.inj hbytes
    show area.size ≤ offsetMax
    rw [hsize]
    decide

/-- The window of the sidecar is the sidecar. -/
theorem area_sidecar {area : KeyslotArea} (hsize : area.size = 3 * keyslotTableStride)
    (hmedium : SameMedium (.blank (3 * keyslotTableStride)) area) :
    (keyslotBindSidecar area.bytes).area area.bytes machine.sidecarIo = area := by
  have hbytes : slice area.bytes 0 area.bytes.length = area.bytes := slice_all (Nat.le_refl _)
  have hlen : (UInt64.ofNat area.bytes.length).toNat = area.bytes.length := by
    rw [show area.bytes.length = 3072 from hsize]
    decide
  have hreads := hmedium.reads
  have hfaults := hmedium.faults
  cases area with
  | mk bytes readFails writeFault =>
    simp only at hbytes hlen hreads hfaults
    subst hreads hfaults
    unfold KeyslotFileArea.area keyslotBindSidecar keyslotBindWindow
    simp only [UInt64.toNat_zero, hlen, hbytes]
    rfl

/-- The master key that the password of the container gives. -/
theorem recoverVmk_password {options : KeyslotOptions} (hpw : options.passwordWithKeyfiles = [7])
    (hkdf : options.kdf = some .hmacSha512) (store password : Bytes) :
    recoverVmk env machine options host store password =
      .ok (0 :: header.effectivePlaintext) := by
  have hfind : (env.on host).findHeader options.request = .ok (some (.v2Normal, header)) :=
    findHeader_password hpw hkdf (show VolumeType.unknown ≠ .hidden by decide) rfl rfl
  exact recoverVmk_of_findHeader hfind rfl (by decide)

/-- A rotation on a sidecar with a free slot reports success. -/
theorem rotation_succeeds {area : KeyslotArea} {k : Nat}
    (hmedium : SameMedium (.blank (3 * keyslotTableStride)) area)
    (hnext : NextFree sidecarCfg area k) (hint : k < 2 ^ 31) :
    ∃ files', keyslotCommand env machine .rotate rotation (withSidecar area) =
      (.ok (.rotated k (retireOld .demo sidecarCfg [7] k machine.revoke (List.range 3)
        (keyslotAdd .demo sidecarCfg area [8] 0 (0 :: header.effectivePlaintext) .demo).2).1),
        files') := by
  have hsize : area.size = 3 * keyslotTableStride :=
    hmedium.size_eq.trans List.length_replicate
  have henrols : Enrols env machine rotation (withSidecar area) [7]
      (0 :: header.effectivePlaintext) (keyslotBindSidecar area.bytes) sidecarCfg :=
    ⟨rfl, recoverVmk_password rfl rfl area.bytes [7], rfl⟩
  have hscan : scanSlots sidecarCfg (keyslotBindSidecar area.bytes).len = 3 := by
    have hlen : (keyslotBindSidecar area.bytes).len = UInt64.ofNat 3072 :=
      congrArg UInt64.ofNat hsize
    rw [hlen]
    decide
  have hfirst := hnext.labeledFirstFree_eq hint
  have hidx := keyslotAdd_of_free (P := .demo) rfl (show addOk sidecarCfg by decide) hnext.writes
    (by rw [hfirst]; omega) [8] (0 :: header.effectivePlaintext) 0 .demo
  have hrun := @keyslotCommand_of_enrols _ _ _ _ .rotate (Or.inr rfl) (by decide)
    _ _ _ _ henrols
  have hstore : (withSidecar area).store machine rotation.backend = area.bytes := rfl
  have hio : storeIo env machine rotation.backend = machine.sidecarIo := rfl
  rw [hstore, hio, hscan, area_sidecar hsize hmedium] at hrun
  refine ⟨_, hrun.trans (Prod.ext ?_ rfl)⟩
  have hreport := @addKeyslot_rotated .demo _ _ 3 rotation machine [7] _ _ (hidx.trans hfirst) (by omega)
  exact hreport

/-- The sidecar before the first add. -/
theorem nextFree_blank : NextFree sidecarCfg (.blank (3 * keyslotTableStride)) 0 := by
  refine ⟨fun _ => rfl, fun _ => rfl, by decide +kernel, ?_, ?_⟩
  · intro j hj
    exact absurd hj (Nat.not_lt_zero j)
  · intro j _
    refine decide_eq_false ?_
    intro hmagic
    have hmem : (0x56 : UInt8) ∈ (KeyslotArea.blank (3 * keyslotTableStride)).bytes := by
      have hfront : (0x56 : UInt8) ∈ slice (slotAt (.blank (3 * keyslotTableStride)) j) 0 4 := by
        rw [hmagic]
        decide
      exact List.mem_of_mem_drop (List.mem_of_mem_take (List.mem_of_mem_drop
        (List.mem_of_mem_take hfront)))
    exact absurd (List.eq_of_mem_replicate hmem) (by decide)

theorem added_withSlot {area : KeyslotArea} {k : Nat} (h : NextFree sidecarCfg area k)
    (hint : k < 2 ^ 31) :
    Added .demo sidecarCfg area (withSlot area) k [7] (List.replicate 449 1) 0 :=
  h.added hint rfl rfl (by decide) List.length_replicate [7] 0 .demo

theorem added_once : Added .demo sidecarCfg (.blank (3 * keyslotTableStride)) once 0 [7]
    (List.replicate 449 1) 0 :=
  added_withSlot nextFree_blank (by decide)

/-- The sidecar has a table of three slots. -/
example : nSlots sidecarCfg (.blank (3 * keyslotTableStride)) = 3 := by decide +kernel

theorem nextFree_once : NextFree sidecarCfg once 1 :=
  nextFree_blank.next added_once (by decide +kernel)

theorem added_twice : Added .demo sidecarCfg once twice 1 [7] (List.replicate 449 1) 0 :=
  added_withSlot nextFree_once (by decide)

theorem nextFree_twice : NextFree sidecarCfg twice 2 :=
  nextFree_once.next added_twice (by
    rw [added_once.medium.nSlots_eq sidecarCfg]
    decide +kernel)

/-- The rotation of a password with one slot. -/
theorem rotate_retires_demo : ∃ files' killed,
    keyslotCommand env machine .rotate rotation (withSidecar once) =
      (.ok (.rotated 1 killed), files') ∧
    (OldRetired env machine rotation (withSidecar once) files' 1 ↔
      OldRetirable env machine rotation (withSidecar once)) := by
  obtain ⟨files', hrun⟩ := rotation_succeeds added_once.medium nextFree_once (by decide)
  exact ⟨files', _, hrun, rotate_retires_iff env machine rotation (withSidecar once) files' 1 _
    (sized_withSidecar (added_once.medium.size_eq.trans List.length_replicate)) rfl hrun⟩

/-- Both slots open under the password. -/
theorem opens_twice {i : Nat} (hi : i < 2) : matchAt .demo sidecarCfg twice [7] i ≠ none := by
  rcases Nat.lt_or_eq_of_le (Nat.lt_succ_iff.mp hi) with hlt | rfl
  · obtain rfl := Nat.lt_one_iff.mp hlt
    rw [added_twice.medium.matchAt_eq (added_twice.others 0 (by decide))]
    exact added_once.matchAt_ne_none nextFree_blank.reads
  · exact added_twice.matchAt_ne_none nextFree_once.reads

/-- The rotation of a password with the first two slots of a sidecar. -/
theorem rotation_leaves_second {area : KeyslotArea}
    (hmedium : SameMedium (.blank (3 * keyslotTableStride)) area)
    (hnext : NextFree sidecarCfg area 2)
    (hopens : ∀ i < 2, matchAt .demo sidecarCfg area [7] i ≠ none) : ∃ files',
    keyslotCommand env machine .rotate rotation (withSidecar area) =
      (.ok (.rotated 2 (some 0)), files') ∧
    ¬ OldRetired env machine rotation (withSidecar area) files' 2 := by
  have hsize : area.size = 3 * keyslotTableStride := hmedium.size_eq.trans List.length_replicate
  have hunder : ∀ i < 2, UnderOld .demo sidecarCfg area 2 [7] i := fun i hi =>
    ⟨Nat.lt_trans hi hnext.inTable, Nat.ne_of_lt hi, hopens i hi⟩
  have hadded : Added .demo sidecarCfg area (keyslotAdd .demo sidecarCfg area [8] 0
      (0 :: header.effectivePlaintext) .demo).2 2 [8] (0 :: header.effectivePlaintext) 0 := by
    have hvmk := length_recoverVmk (sized_withSidecar hsize) rfl
      (@recoverVmk_password rotation rfl rfl area.bytes [7])
    exact hnext.added (by decide) rfl rfl (by decide) hvmk [8] 0 .demo
  obtain ⟨files', hrun⟩ := rotation_succeeds hmedium hnext (by decide)
  generalize (keyslotAdd .demo sidecarCfg area [8] 0 (0 :: header.effectivePlaintext) .demo).2 =
    added at hadded hrun
  have hfirst : (retireOld .demo sidecarCfg [7] 2 machine.revoke (List.range 3) added).1 =
      some 0 := by
    refine retireOld_first [1, 2] (by decide) ?_ ?_ ?_
    · rw [hadded.medium.nSlots_eq sidecarCfg]
      exact (hunder 0 (by decide)).1
    · rw [hadded.medium.keyslotOpenAt_eq (hadded.others 0 (by decide))]
      exact (keyslotOpenAt_isSome_iff rfl (by decide)).mpr
        ⟨(hunder 0 (by decide)).1, hnext.used 0 (by decide), hopens 0 (by decide)⟩
    · rw [hadded.medium.faults]
      exact hnext.writes
  have hreport : keyslotCommand env machine .rotate rotation (withSidecar area) =
      (.ok (.rotated 2 (some 0)), files') := by
    rw [hrun, ← hfirst]
    rfl
  refine ⟨files', hreport, ?_⟩
  intro hretired
  obtain ⟨old, vmk, a, cfg, henrols, hcond⟩ :=
    (rotated_retires_iff (sized_withSidecar hsize) rfl hreport).mp hretired
  have hdemo : Enrols env machine rotation (withSidecar area) [7]
      (0 :: header.effectivePlaintext) (keyslotBindSidecar area.bytes) sidecarCfg :=
    ⟨rfl, recoverVmk_password rfl rfl area.bytes [7], rfl⟩
  obtain ⟨rfl, rfl, rfl, rfl⟩ := hdemo.unique henrols
  have harea : (keyslotBindSidecar area.bytes).area
      ((withSidecar area).store machine rotation.backend)
      (storeIo env machine rotation.backend) = area := area_sidecar hsize hmedium
  have hfree := hnext.labeledFirstFree_eq (by decide)
  simp only [harea, hfree] at hcond
  -- of two slots under the password only one can have been retired
  have hsame := hcond.unique hnext.writes (hunder 0 (by decide)) (hunder 1 (by decide))
  exact absurd hsame (by decide)

/-- **The rotation of a password with two slots**: the first is revoked and success reported,
    and the second opens as before. -/
theorem rotate_leaves_old : ∃ files',
    keyslotCommand env machine .rotate rotation (withSidecar twice) =
      (.ok (.rotated 2 (some 0)), files') ∧
    ¬ OldRetired env machine rotation (withSidecar twice) files' 2 :=
  rotation_leaves_second (added_once.medium.trans added_twice.medium) nextFree_twice
    (fun _ hi => opens_twice hi)

end SlotContainer

end VeraCrypt
