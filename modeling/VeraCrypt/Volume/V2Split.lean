import VeraCrypt.Lib.TailTable
import VeraCrypt.Volume.V2Format
import Mathlib.Order.CompletePartialOrder

/-!
# The division of a version 2 data area

`V2FormatSplitDataArea` counts down to the greatest number of data sectors whose table still
fits behind them. Where nothing wraps (`SplitExact`) the loop ends at `tailFit`. Data and table then fill the area if and only if its size is a whole number of
sectors that leaves less than a sector over when it is divided by a sector and its slot
(`Closes`).
-/

set_option autoImplicit false

namespace VeraCrypt

open Lib

/-- Data and table fill an area of `totalDataBytes`. -/
def Closes (totalDataBytes ss : Nat) : Prop :=
  totalDataBytes % ss = 0 ∧ totalDataBytes % (ss + v2MacTagLen) < ss

instance (totalDataBytes ss : Nat) : Decidable (Closes totalDataBytes ss) :=
  inferInstanceAs (Decidable (_ ∧ _))

section
variable {ss total usable : UInt64} {sectorSize : UInt32}

/-- No sum or product of the split wraps: a sector holds a slot, or the area is small. -/
def SplitExact (total ss : UInt64) : Prop :=
  0 < ss.toNat ∧ ss.toNat < 2 ^ 32 ∧ (v2MacTagLen ≤ ss.toNat ∨ total.toNat < 2 ^ 59)

theorem splitExact_of_le (total : UInt64) (hlow : v2MacTagLen ≤ ss.toNat)
    (hhigh : ss.toNat < 2 ^ 32) : SplitExact total ss :=
  ⟨Nat.lt_of_lt_of_le (by decide) hlow, hhigh, Or.inl hlow⟩

/-- The slots of an area that has an address have one. -/
theorem slots_lt (hss : SplitExact total ss) {n : Nat} (hn : n ≤ (total / ss).toNat) :
    n * v2MacTagLen + ss.toNat - 1 < 2 ^ 64 := by
  obtain ⟨hpos, hhigh, hroom⟩ := hss
  have htotal := total.toNat_lt
  rw [UInt64.toNat_div] at hn
  have hmul : n * ss.toNat ≤ total.toNat :=
    Nat.le_trans (Nat.mul_le_mul_right _ hn) (Nat.div_mul_le_self _ _)
  show n * 16 + ss.toNat - 1 < 2 ^ 64
  rcases hroom with hlow | hsmall
  · by_cases hfew : n < 16
    · omega
    · obtain ⟨k, hk⟩ := Nat.exists_eq_add_of_le hlow
      have hk' : ss.toNat = 16 + k := hk
      rw [hk', Nat.mul_add] at hmul
      have hprod : 16 * k ≤ n * k := Nat.mul_le_mul_right k (by omega)
      omega
  · have hn' : n ≤ total.toNat := Nat.le_trans hn (Nat.div_le_self _ _)
    omega

theorem toNat_tableSectors (hss : SplitExact total ss) {n : Nat}
    (hn : n ≤ (total / ss).toNat) :
    ((UInt64.ofNat n * UInt64.ofNat v2MacTagLen + ss - 1) / ss).toNat =
      (n * v2MacTagLen + ss.toNat - 1) / ss.toNat := by
  have hpos := hss.1
  have hlt : n * 16 + ss.toNat - 1 < 2 ^ 64 := slots_lt hss hn
  have h16 : (UInt64.ofNat v2MacTagLen).toNat = 16 := rfl
  have hn64 : (UInt64.ofNat n).toNat = n := by
    rw [UInt64.toNat_ofNat']
    omega
  have hsub : (UInt64.ofNat n * UInt64.ofNat v2MacTagLen + ss - 1).toNat =
      n * 16 + ss.toNat - 1 := by
    have hsst := ss.toNat_lt
    rw [UInt64.toNat_sub, UInt64.toNat_add, UInt64.toNat_mul, hn64, h16, UInt64.toNat_one]
    omega
  rw [UInt64.toNat_div, hsub]
  rfl

/-- Data and table sectors together are counted without a wrap. -/
theorem tailUsed_lt (hss : SplitExact total ss) {n : Nat} (hn : n ≤ (total / ss).toNat) :
    n + (n * v2MacTagLen + ss.toNat - 1) / ss.toNat < 2 ^ 64 := by
  have hhigh := hss.2.1
  have hpos := hss.1
  rcases hss.2.2 with hlow | hsmall
  · have hlow' : 16 ≤ ss.toNat := hlow
    have hdiv := (ceilDiv_le_iff hpos).mpr (show n * v2MacTagLen ≤ n * ss.toNat from
      Nat.mul_le_mul_left n hlow)
    have hquot : (total / ss).toNat ≤ (2 ^ 64 - 1) / 16 := by
      rw [UInt64.toNat_div]
      exact Nat.div_le_div (Nat.le_sub_one_of_lt total.toNat_lt) hlow' (by omega)
    omega
  · have hn' : n ≤ total.toNat := by
      rw [UInt64.toNat_div] at hn
      exact Nat.le_trans hn (Nat.div_le_self _ _)
    have hdiv : (n * 16 + ss.toNat - 1) / ss.toNat ≤ n * 16 + ss.toNat - 1 :=
      Nat.div_le_self _ _
    show n + (n * 16 + ss.toNat - 1) / ss.toNat < 2 ^ 64
    omega

/-- The test of the loop, without a wrap. -/
theorem v2SplitFits_iff (hss : SplitExact total ss) {n : Nat} (hn : n ≤ (total / ss).toNat) :
    v2SplitFits ss (total / ss) (UInt64.ofNat n) = true ↔
      n ≤ tailFit v2MacTagLen ss.toNat (total / ss).toNat := by
  have htable := toNat_tableSectors hss hn
  have hn64 : (UInt64.ofNat n).toNat = n := by
    have hlt := (total / ss).toNat_lt
    rw [UInt64.toNat_ofNat']
    omega
  unfold v2SplitFits
  rw [decide_eq_true_iff, UInt64.le_iff_toNat_le, UInt64.toNat_add, htable, hn64,
    Nat.mod_eq_of_lt (tailUsed_lt hss hn)]
  exact tailUsed_le_iff_le_tailFit hss.1

/-- **Where the loop ends**: at the greatest number of sectors that fit. -/
theorem v2SplitLoop_eq (hss : SplitExact total ss) {n : Nat} (hn : n ≤ (total / ss).toNat) :
    v2SplitLoop ss (total / ss) n =
      some (UInt64.ofNat (min n (tailFit v2MacTagLen ss.toNat (total / ss).toNat))) := by
  induction n with
  | zero =>
    have hfits := (@v2SplitFits_iff ss total hss 0 (Nat.zero_le _)).mpr (Nat.zero_le _)
    rw [v2SplitLoop, if_pos (show v2SplitFits ss (total / ss) 0 = true from hfits), Nat.zero_min]
    rfl
  | succ n ih =>
    rw [v2SplitLoop]
    by_cases hfit : n + 1 ≤ tailFit v2MacTagLen ss.toNat (total / ss).toNat
    · rw [if_pos ((v2SplitFits_iff hss hn).mpr hfit), Nat.min_eq_left hfit]
    · have hno : ¬ v2SplitFits ss (total / ss) (UInt64.ofNat (n + 1)) = true := by
        intro h
        exact hfit ((v2SplitFits_iff hss hn).mp h)
      rw [if_neg hno, ih (Nat.le_of_succ_le hn)]
      have hle : tailFit v2MacTagLen ss.toNat (total / ss).toNat ≤ n := by omega
      rw [Nat.min_eq_right hle, Nat.min_eq_right (Nat.le_succ_of_le hle)]

/-- What an area is divided into: `data` sectors for use and `table` sectors behind them. -/
structure Divided (total usable : UInt64) (sectorSize : UInt32) (data table : Nat) : Prop where
  data_eq : data = tailFit v2MacTagLen (v2SectorBytes sectorSize).toNat
    (total / v2SectorBytes sectorSize).toNat
  data_pos : 0 < data
  usable_eq : usable.toNat = data * (v2SectorBytes sectorSize).toNat
  table_eq : (v2FormatMacTableBytes (usable / v2SectorBytes sectorSize) sectorSize).toNat =
    table * (v2SectorBytes sectorSize).toNat
  used : data + table = tailUsed v2MacTagLen (v2SectorBytes sectorSize).toNat data
  used_le : data + table ≤ (total / v2SectorBytes sectorSize).toNat

/-- **What a split that succeeds gives.** -/
theorem v2FormatSplitDataArea_some {tableOffset : UInt64}
    (hss : SplitExact total (v2SectorBytes sectorSize))
    (h : v2FormatSplitDataArea total sectorSize = some (usable, tableOffset)) :
    tableOffset = usable ∧ ∃ data table, Divided total usable sectorSize data table := by
  have hpos := hss.1
  unfold v2FormatSplitDataArea at h
  simp only at h
  split at h
  · exact absurd h (by simp)
  rw [v2SplitLoop_eq hss (Nat.le_refl _)] at h
  simp only at h
  split at h
  · exact absurd h (by simp)
  rename_i hne
  obtain ⟨husable, hoffset⟩ := Prod.mk.inj (Option.some.inj h)
  have hsame : tableOffset = usable := hoffset.symm.trans husable
  have hfit : tailFit v2MacTagLen (v2SectorBytes sectorSize).toNat
      (total / v2SectorBytes sectorSize).toNat ≤ (total / v2SectorBytes sectorSize).toNat := by
    have hle := (tailUsed_le_iff_le_tailFit hpos).mpr (Nat.le_refl
      (tailFit v2MacTagLen (v2SectorBytes sectorSize).toNat
        (total / v2SectorBytes sectorSize).toNat))
    exact Nat.le_trans (Nat.le_add_right _ _) hle
  rw [Nat.min_eq_right hfit] at husable hne
  generalize hdata : tailFit v2MacTagLen (v2SectorBytes sectorSize).toNat
    (total / v2SectorBytes sectorSize).toNat = data at husable hne hfit
  have hquot : (total / v2SectorBytes sectorSize).toNat * (v2SectorBytes sectorSize).toNat ≤
      total.toNat := by
    rw [UInt64.toNat_div]
    exact Nat.div_mul_le_self _ _
  have htotal := total.toNat_lt
  have hroom : data * (v2SectorBytes sectorSize).toNat ≤ total.toNat :=
    Nat.le_trans (Nat.mul_le_mul_right _ hfit) hquot
  have hdata64 : (UInt64.ofNat data).toNat = data := by
    have hlt := (total / v2SectorBytes sectorSize).toNat_lt
    rw [UInt64.toNat_ofNat']
    omega
  have husable_eq : usable.toNat = data * (v2SectorBytes sectorSize).toNat := by
    rw [← husable, UInt64.toNat_mul, hdata64]
    exact Nat.mod_eq_of_lt (by omega)
  have hsectors : usable / v2SectorBytes sectorSize = UInt64.ofNat data := by
    apply UInt64.toNat_inj.mp
    rw [UInt64.toNat_div, husable_eq, hdata64, Nat.mul_div_cancel _ hpos]
  have hused : data + (data * v2MacTagLen + (v2SectorBytes sectorSize).toNat - 1) /
      (v2SectorBytes sectorSize).toNat ≤ (total / v2SectorBytes sectorSize).toNat :=
    (tailUsed_le_iff_le_tailFit hpos).mpr (Nat.le_of_eq hdata.symm)
  refine ⟨hsame, data, _, hdata.symm, ?_, husable_eq, ?_, rfl, hused⟩
  · refine Nat.pos_of_ne_zero ?_
    rintro rfl
    exact hne rfl
  · unfold v2FormatMacTableBytes
    simp only
    rw [hsectors, UInt64.toNat_mul, toNat_tableSectors hss hfit]
    refine Nat.mod_eq_of_lt ?_
    have hle := Nat.mul_le_mul_right (v2SectorBytes sectorSize).toNat
      (Nat.le_trans (Nat.le_add_left _ data) hused)
    omega

/-- Data and table together, and what is left of the area. -/
theorem Divided.total_eq {data table : Nat} (h : Divided total usable sectorSize data table) :
    usable.toNat + (v2FormatMacTableBytes (usable / v2SectorBytes sectorSize) sectorSize).toNat =
      (data + table) * (v2SectorBytes sectorSize).toNat := by
  rw [h.usable_eq, h.table_eq, Nat.add_mul]

/-- **When data and table fill the area.** -/
theorem Divided.closes_iff {data table : Nat} (hss : SplitExact total (v2SectorBytes sectorSize))
    (h : Divided total usable sectorSize data table) :
    usable.toNat + (v2FormatMacTableBytes (usable / v2SectorBytes sectorSize) sectorSize).toNat =
        total.toNat ↔
      Closes total.toNat (v2SectorBytes sectorSize).toNat := by
  have hpos := hss.1
  have hquot := h.used_le
  have hdiv := Nat.div_add_mod total.toNat (v2SectorBytes sectorSize).toNat
  have hfills := @tailUsed_tailFit_eq_iff v2MacTagLen (v2SectorBytes sectorSize).toNat
    (total / v2SectorBytes sectorSize).toNat hpos
  rw [← h.data_eq, ← h.used] at hfills
  rw [UInt64.toNat_div] at hquot hfills
  rw [h.total_eq]
  unfold Closes
  constructor
  · intro heq
    have hmod : total.toNat % (v2SectorBytes sectorSize).toNat = 0 := by
      rw [← heq]
      exact Nat.mul_mod_left _ _
    have hwhole : total.toNat / (v2SectorBytes sectorSize).toNat *
        (v2SectorBytes sectorSize).toNat = total.toNat :=
      Nat.div_mul_cancel (Nat.dvd_of_mod_eq_zero hmod)
    have hall : data + table = total.toNat / (v2SectorBytes sectorSize).toNat :=
      Nat.eq_of_mul_eq_mul_right hpos (heq.trans hwhole.symm)
    have hlt := hfills.mp hall
    rw [hwhole] at hlt
    exact ⟨hmod, hlt⟩
  · rintro ⟨hmod, hlt⟩
    have hwhole : total.toNat / (v2SectorBytes sectorSize).toNat *
        (v2SectorBytes sectorSize).toNat = total.toNat :=
      Nat.div_mul_cancel (Nat.dvd_of_mod_eq_zero hmod)
    rw [hfills.mpr (by rw [hwhole]; exact hlt), hwhole]

end

/-! ## The whole of the split -/

/-- The sums and products of one turn of the loop, as numbers. -/
def v2SplitTurn (ss usableSectors : Nat) : List Nat :=
  [usableSectors * v2MacTagLen, usableSectors * v2MacTagLen + ss,
   usableSectors + (usableSectors * v2MacTagLen + ss - 1) / ss]

/-- The turns the loop takes. -/
def v2SplitTurns (ss totalSectors : UInt64) : (usableSectors : Nat) → List (List Nat)
  | 0 => [v2SplitTurn ss.toNat 0]
  | n + 1 =>
    v2SplitTurn ss.toNat (n + 1) ::
      if v2SplitFits ss totalSectors (UInt64.ofNat (n + 1)) then []
      else v2SplitTurns ss totalSectors n

/-- A table of one slot for each of `dataSectors`, in whole sectors. -/
def tableBytes (ss dataSectors : Nat) : Nat := (dataSectors * v2MacTagLen + ss - 1) / ss * ss

/-- What `V2FormatSplitDataArea` promises for an area and a sector size. -/
structure SplitSound (total : UInt64) (sectorSize : UInt32) (ss : Nat) : Prop where
  succeeds_iff : (v2FormatSplitDataArea total sectorSize).isSome = true ↔ 2 * ss ≤ total.toNat
  /-- nothing wraps in a turn, and there are as many turns as sectors given up, and one -/
  turns : ∀ turn ∈ v2SplitTurns (v2SectorBytes sectorSize) (total / v2SectorBytes sectorSize)
    (total.toNat / ss), ∀ value ∈ turn, value < 2 ^ 64
  turns_length : (v2SplitTurns (v2SectorBytes sectorSize) (total / v2SectorBytes sectorSize)
    (total.toNat / ss)).length = total.toNat / ss - tailFit v2MacTagLen ss (total.toNat / ss) + 1
  greatest : ∀ {usable tableOffset : UInt64},
    v2FormatSplitDataArea total sectorSize = some (usable, tableOffset) →
      IsGreatest {u : Nat | ss ∣ u ∧ u + tableBytes ss (u / ss) ≤ total.toNat} usable.toNat
  /-- the bytes of the table are counted without a wrap, behind the usable ones -/
  table : ∀ {usable tableOffset : UInt64},
    v2FormatSplitDataArea total sectorSize = some (usable, tableOffset) →
      (v2FormatMacTableBytes (usable / v2SectorBytes sectorSize) sectorSize).toNat =
          tableBytes ss (usable.toNat / ss) ∧
        0 < usable.toNat ∧ 0 < tableBytes ss (usable.toNat / ss) ∧
        Disjoint (Set.Ico 0 usable.toNat)
          (Set.Ico tableOffset.toNat (tableOffset.toNat + tableBytes ss (usable.toNat / ss))) ∧
        Set.Ico tableOffset.toNat (tableOffset.toNat + tableBytes ss (usable.toNat / ss)) ⊆
          Set.Iio total.toNat

theorem v2SplitTurns_le {ss totalSectors : UInt64} {n : Nat} {turn : List Nat}
    (h : turn ∈ v2SplitTurns ss totalSectors n) : ∃ k ≤ n, turn = v2SplitTurn ss.toNat k := by
  induction n with
  | zero =>
    rw [v2SplitTurns, List.mem_singleton] at h
    exact ⟨0, Nat.le_refl 0, h⟩
  | succ n ih =>
    rw [v2SplitTurns] at h
    rcases List.mem_cons.mp h with rfl | hlater
    · exact ⟨n + 1, Nat.le_refl _, rfl⟩
    · split at hlater
      · exact absurd hlater List.not_mem_nil
      · obtain ⟨k, hk, rfl⟩ := ih hlater
        exact ⟨k, Nat.le_succ_of_le hk, rfl⟩

section
variable {ss total usable : UInt64} {sectorSize : UInt32}

theorem length_v2SplitTurns (hss : SplitExact total ss) {n : Nat} (hn : n ≤ (total / ss).toNat) :
    (v2SplitTurns ss (total / ss) n).length =
      n - tailFit v2MacTagLen ss.toNat (total / ss).toNat + 1 := by
  induction n with
  | zero => rw [v2SplitTurns, List.length_singleton, Nat.zero_sub]
  | succ n ih =>
    rw [v2SplitTurns, List.length_cons]
    by_cases hfit : n + 1 ≤ tailFit v2MacTagLen ss.toNat (total / ss).toNat
    · rw [if_pos ((v2SplitFits_iff hss hn).mpr hfit), Nat.sub_eq_zero_of_le hfit]
      rfl
    · have hno : ¬ v2SplitFits ss (total / ss) (UInt64.ofNat (n + 1)) = true := by
        intro h
        exact hfit ((v2SplitFits_iff hss hn).mp h)
      rw [if_neg hno, ih (Nat.le_of_succ_le hn)]
      omega

/-- Whole sectors fit in the area with their table where they fit counted in sectors. -/
theorem tableBytes_fits_iff (hss : 0 < ss.toNat) (n : Nat) :
    n * ss.toNat + tableBytes ss.toNat n ≤ total.toNat ↔
      n ≤ tailFit v2MacTagLen ss.toNat (total.toNat / ss.toNat) := by
  rw [← tailUsed_le_iff_le_tailFit hss, Nat.le_div_iff_mul_le hss, tailUsed, Nat.add_mul]
  exact Iff.rfl

/-- **The split succeeds where there are two sectors.** -/
theorem v2FormatSplitDataArea_isSome (hss : SplitExact total (v2SectorBytes sectorSize))
    (hroom : v2MacTagLen ≤ (v2SectorBytes sectorSize).toNat) :
    (v2FormatSplitDataArea total sectorSize).isSome = true ↔
      2 * (v2SectorBytes sectorSize).toNat ≤ total.toNat := by
  have hpos := hss.1
  have hhigh := hss.2.1
  have htwo : (2 * v2SectorBytes sectorSize).toNat = 2 * (v2SectorBytes sectorSize).toNat := by
    have h2 : UInt64.toNat 2 = 2 := rfl
    rw [UInt64.toNat_mul, h2]
    exact Nat.mod_eq_of_lt (by omega)
  have hsmall : total < 2 * v2SectorBytes sectorSize ↔
      total.toNat < 2 * (v2SectorBytes sectorSize).toNat := by
    rw [UInt64.lt_iff_toNat_lt, htwo]
  unfold v2FormatSplitDataArea
  simp only
  by_cases hlt : total < 2 * v2SectorBytes sectorSize
  · rw [if_pos hlt]
    constructor
    · intro h
      exact absurd h (by simp)
    · intro hle
      exact absurd (hsmall.mp hlt) (Nat.not_lt_of_le hle)
  · have hle := Nat.le_of_not_lt (fun h => hlt (hsmall.mpr h))
    rw [if_neg hlt, v2SplitLoop_eq hss (Nat.le_refl _)]
    -- one sector and its slot take two sectors
    have hquot : 2 ≤ (total / v2SectorBytes sectorSize).toNat := by
      rw [UInt64.toNat_div]
      exact (Nat.le_div_iff_mul_le hpos).mpr hle
    have hone : 1 ≤ tailFit v2MacTagLen (v2SectorBytes sectorSize).toNat
        (total / v2SectorBytes sectorSize).toNat := by
      have hceil : (1 * v2MacTagLen + (v2SectorBytes sectorSize).toNat - 1) /
          (v2SectorBytes sectorSize).toNat ≤ 1 := by
        refine (ceilDiv_le_iff hpos).mpr ?_
        rwa [Nat.one_mul, Nat.one_mul]
      exact (tailUsed_le_iff_le_tailFit hpos).mp
        (Nat.le_trans (Nat.add_le_add_left hceil 1) hquot)
    have hbound := (total / v2SectorBytes sectorSize).toNat_lt
    have hne : UInt64.ofNat (min (total / v2SectorBytes sectorSize).toNat
        (tailFit v2MacTagLen (v2SectorBytes sectorSize).toNat
          (total / v2SectorBytes sectorSize).toNat)) ≠ 0 := by
      intro hzero
      have hnat := congrArg UInt64.toNat hzero
      rw [UInt64.toNat_ofNat', Nat.mod_eq_of_lt (by omega)] at hnat
      have h0 : UInt64.toNat 0 = 0 := rfl
      omega
    simp only
    rw [if_neg hne]
    exact ⟨fun _ => hle, fun _ => rfl⟩

/-- **The whole of the split**, for every area and every sector size that a volume may have. -/
theorem v2FormatSplitDataArea_sound (total : UInt64) (sectorSize : UInt32)
    (hsize : sectorSize = 0 ∨ 512 ≤ sectorSize.toNat ∧ sectorSize.toNat ≤ 4096) :
    SplitSound total sectorSize (if sectorSize = 0 then 512 else sectorSize.toNat) := by
  have hbytes : (v2SectorBytes sectorSize).toNat =
      if sectorSize = 0 then 512 else sectorSize.toNat := by
    unfold v2SectorBytes
    split
    · rfl
    · exact UInt32.toNat_toUInt64 _
  have hrange : 512 ≤ (v2SectorBytes sectorSize).toNat ∧
      (v2SectorBytes sectorSize).toNat ≤ 4096 := by
    rw [hbytes]
    split
    · omega
    · rename_i hne
      exact hsize.resolve_left hne
  rw [← hbytes]
  have hpos : 0 < (v2SectorBytes sectorSize).toNat := by omega
  have hslot : v2MacTagLen ≤ (v2SectorBytes sectorSize).toNat := by
    show 16 ≤ _
    omega
  have hss : SplitExact total (v2SectorBytes sectorSize) := splitExact_of_le total hslot (by omega)
  have hquot : total.toNat / (v2SectorBytes sectorSize).toNat =
      (total / v2SectorBytes sectorSize).toNat := (UInt64.toNat_div _ _).symm
  refine ⟨v2FormatSplitDataArea_isSome hss hslot, ?_, ?_, ?_, ?_⟩
  · intro turn hturn value hvalue
    rw [hquot] at hturn
    obtain ⟨n, hn, rfl⟩ := v2SplitTurns_le hturn
    have hused := tailUsed_lt hss hn
    have hfew : n ≤ 2 ^ 55 := by
      rw [← hquot] at hn
      have hcut : total.toNat / (v2SectorBytes sectorSize).toNat ≤ total.toNat / 512 :=
        Nat.div_le_div_left hrange.1 (by omega)
      have htotal := total.toNat_lt
      omega
    have h16 : v2MacTagLen = 16 := rfl
    rw [v2SplitTurn, List.mem_cons, List.mem_cons, List.mem_singleton] at hvalue
    rw [h16] at hvalue
    rcases hvalue with rfl | rfl | rfl
    · omega
    · omega
    · exact hused
  · rw [hquot]
    exact length_v2SplitTurns hss (Nat.le_refl _)
  · intro usable tableOffset h
    obtain ⟨-, data, table, hdiv⟩ := v2FormatSplitDataArea_some hss h
    constructor
    · have hfit := (@tableBytes_fits_iff _ total hpos data).mpr
        (by rw [hquot, ← hdiv.data_eq])
      rw [hdiv.usable_eq]
      refine ⟨Nat.dvd_mul_left _ _, ?_⟩
      rwa [Nat.mul_div_cancel _ hpos]
    · rintro u ⟨⟨n, rfl⟩, hfit⟩
      rw [Nat.mul_comm, Nat.mul_div_cancel _ hpos] at hfit
      have hle := (tableBytes_fits_iff hpos n).mp hfit
      rw [hquot, ← hdiv.data_eq] at hle
      rw [hdiv.usable_eq, Nat.mul_comm]
      exact Nat.mul_le_mul_right _ hle
  · intro usable tableOffset h
    obtain ⟨rfl, data, table, hdiv⟩ := v2FormatSplitDataArea_some hss h
    have hfit := (@tableBytes_fits_iff _ total hpos data).mpr
      (by rw [hquot, ← hdiv.data_eq])
    have htable : table * (v2SectorBytes sectorSize).toNat =
        tableBytes (v2SectorBytes sectorSize).toNat data := by
      have hused := hdiv.used
      rw [tailUsed] at hused
      rw [tableBytes, Nat.add_left_cancel hused]
    have hdata := hdiv.data_pos
    have hmore : 0 < tableBytes (v2SectorBytes sectorSize).toNat data := by
      refine Nat.mul_pos ?_ hpos
      refine Nat.div_pos ?_ hpos
      show (v2SectorBytes sectorSize).toNat ≤ data * 16 + (v2SectorBytes sectorSize).toNat - 1
      omega
    rw [hdiv.usable_eq, Nat.mul_div_cancel _ hpos]
    refine ⟨hdiv.table_eq.trans htable, Nat.mul_pos hdata hpos, hmore, ?_, ?_⟩
    · rw [Set.disjoint_left]
      rintro i ⟨-, husable⟩ ⟨htab, -⟩
      omega
    · rintro i ⟨-, hi⟩
      exact Nat.lt_of_lt_of_le hi hfit

end

/-- An area of 1 MiB in sectors of 512 bytes. -/
theorem v2FormatSplitDataArea_sound_demo :
    SplitSound 1048576 0 512 ∧
      v2FormatSplitDataArea 1048576 0 = some (1016320, 1016320) :=
  ⟨v2FormatSplitDataArea_sound 1048576 0 (Or.inl rfl), by decide +kernel⟩

end VeraCrypt
