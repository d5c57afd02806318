import VeraCrypt.Core.FatFormatter

/-!
# The geometry of a formatted volume

What `GetFatParams` computes, said in numbers that do not wrap: of a volume of `N` sectors of `ss`
bytes, in clusters of `cs` sectors. From it, when the file system fits into the volume and its tables
have room for its clusters (`fatGeometry_iff`), and when the type that is written is the one that
follows from the number of clusters (`fatType_iff`).
-/

set_option autoImplicit false

namespace VeraCrypt

open Lib FatFormatter

/-! ## The numbers -/

/-- The sector sizes that a volume can have. -/
structure SectorSizeOk (ss : Nat) : Prop where
  min : 512 ≤ ss
  max : ss ≤ 4096
  units : ss % 512 = 0

/-- The sectors of a root directory of 512 entries. -/
def rootSectors (ss : Nat) : Nat := (16384 + ss - 1) / ss

/-- The sectors that so many entries of so many bits take. -/
def fatSectors (bits clusters ss : Nat) : Nat := ((bits * clusters + 7) / 8 + ss - 1) / ss

/-- A table for every cluster of an area is put into the area, twice: the remainders add up, the
    tables take no more clusters than there are, and there is room for two more entries, or the
    tables have taken the place of as many clusters. -/
structure AreaOk (bits area cs ss : Nat) : Prop where
  remainder : 2 * fatSectors bits (area / cs) ss % cs ≤ area % cs
  tables : 2 * fatSectors bits (area / cs) ss / cs ≤ area / cs
  room : bits * (area / cs + 2) ≤ 8 * (ss * fatSectors bits (area / cs) ss) +
    bits * (2 * fatSectors bits (area / cs) ss / cs)

/-- With `r` reserved sectors the data area of a FAT32 file system starts at a multiple of 4 KB, or
    it need not. -/
def alignedAt (N cs ss r : Nat) : Bool :=
  ss ≠ 512 || (r + 2 * fatSectors 32 ((N - r) / cs) ss) % 8 = 0

/-- The first number of reserved sectors from 32 on that aligns the data area. -/
def alignedReserved (N cs ss : Nat) : Nat :=
  ((List.range' 32 16).find? (alignedAt N cs ss)).getD 32

/-- The condition under which the geometry is right. -/
def GeometryOk (N cs ss : Nat) : Prop :=
  rootSectors ss + 2 ≤ N ∧
    if (N - rootSectors ss - 2) / cs < 4085 then AreaOk 12 (N - rootSectors ss - 2) cs ss
    else if (N - rootSectors ss - 2) / cs < 65525 then AreaOk 16 (N - rootSectors ss - 2) cs ss
    else 4 * ((N - 32) / cs) + ss < 2 ^ 32 ∧ AreaOk 32 (N - alignedReserved N cs ss) cs ss

/-- The condition under which the type is right: the clusters under the tables do not bring the count
    below the number that its type starts at. -/
def TypeOk (N cs ss : Nat) : Prop :=
  if N < rootSectors ss + 2 then ¬ (ss = 512 ∧ N = 32)
  else if (N - rootSectors ss - 2) / cs < 4085 then
    2 * fatSectors 12 ((N - rootSectors ss - 2) / cs) ss / cs ≤ (N - rootSectors ss - 2) / cs
  else if (N - rootSectors ss - 2) / cs < 65525 then
    4085 + 2 * fatSectors 16 ((N - rootSectors ss - 2) / cs) ss / cs ≤
      (N - rootSectors ss - 2) / cs
  else
    65525 + 2 * fatSectors 32 ((N - alignedReserved N cs ss) / cs) ss / cs ≤
      (N - alignedReserved N cs ss) / cs

/-- The width that is inferred from a number of clusters. -/
def fatType (clusters : Nat) : Nat :=
  if clusters < 4085 then 12 else if clusters < 65525 then 16 else 32

theorem fatType_eq_twelve {n : Nat} : 12 = fatType n ↔ n < 4085 := by
  unfold fatType
  split_ifs <;> omega

theorem fatType_eq_sixteen {n : Nat} : 16 = fatType n ↔ 4085 ≤ n ∧ n < 65525 := by
  unfold fatType
  split_ifs <;> omega

theorem fatType_eq_thirtyTwo {n : Nat} : 32 = fatType n ↔ 65525 ≤ n := by
  unfold fatType
  split_ifs <;> omega

theorem SectorSizeOk.pos {ss : Nat} (h : SectorSizeOk ss) : 0 < ss :=
  Nat.lt_of_lt_of_le (by decide) h.min

theorem SectorSizeOk.rootSectors_le {ss : Nat} (h : SectorSizeOk ss) :
    4 ≤ rootSectors ss ∧ rootSectors ss ≤ 32 := by
  have hmin := h.min
  have hmax := h.max
  constructor
  · exact (Nat.le_div_iff_mul_le h.pos).mpr (by omega)
  · exact Nat.le_of_lt_succ ((Nat.div_lt_iff_lt_mul h.pos).mpr (by omega))

/-- Tables shrink with the size of a sector. -/
theorem fatSectors_le {ss : Nat} (h : SectorSizeOk ss) (bits clusters : Nat) :
    fatSectors bits clusters ss ≤ (bits * clusters + 7) / 8 / 512 + 1 := by
  have hround : ((bits * clusters + 7) / 8 + ss - 1) / ss ≤
      ((bits * clusters + 7) / 8 + ss) / ss := Nat.div_le_div_right (Nat.sub_le _ _)
  rw [Nat.add_div_right _ h.pos] at hround
  have hdiv : (bits * clusters + 7) / 8 / ss ≤ (bits * clusters + 7) / 8 / 512 :=
    Nat.div_le_div_left h.min (by decide)
  rw [fatSectors]
  omega

/-! ## Two tables put into an area -/

section
variable {area cs ss bits tables : Nat}

/-- Clusters taken off a count: the rest fits beside the tables if the remainders do. -/
theorem tables_fit_iff (h : tables / cs ≤ area / cs) :
    tables + (area / cs - tables / cs) * cs ≤ area ↔ tables % cs ≤ area % cs := by
  have harea := Nat.div_add_mod area cs
  have htables := Nat.div_add_mod tables cs
  have hle := Nat.mul_le_mul_left cs h
  rw [Nat.sub_mul, Nat.mul_comm (area / cs), Nat.mul_comm (tables / cs)]
  omega

/-- The entries fit if they fit with those of the clusters that were taken off. -/
theorem entries_fit_iff {count off bytes : Nat} (h : off ≤ count) :
    (count - off + 2) * bits ≤ bytes ↔ bits * (count + 2) ≤ bytes + bits * off := by
  have hsum : count + 2 = (count - off + 2) + off := by omega
  rw [hsum, Nat.mul_add, Nat.mul_comm bits (count - off + 2)]
  omega

end

/-! ## The aligned data area -/

section
variable {N cs ss : Nat}

/-- A sector more or less is at most a cluster more or less. -/
theorem clusters_between (hcs : 0 < cs) {j k : Nat} (hjk : j ≤ k) (hk : k ≤ N) :
    (N - k) / cs ≤ (N - j) / cs ∧ (N - j) / cs ≤ (N - k) / cs + (k - j) := by
  have hsum : N - j = N - k + (k - j) := by omega
  have hle : N - k + (k - j) ≤ N - k + (k - j) * cs :=
    Nat.add_le_add_left (Nat.le_mul_of_pos_right _ hcs) _
  refine ⟨Nat.div_le_div_right (by omega), ?_⟩
  rw [hsum, ← Nat.add_mul_div_right _ _ hcs]
  exact Nat.div_le_div_right hle

/-- Of sixteen numbers of reserved sectors in a row one aligns the data area: the length of the
    table changes at most once on the way, so eight of them in a row have the same. -/
theorem exists_aligned (ss : Nat) (hcs : 0 < cs) (hN : 47 ≤ N) :
    ∃ r, 32 ≤ r ∧ r ≤ 47 ∧ alignedAt N cs ss r = true := by
  by_cases hss : ss = 512
  · subst hss
    have hlen : ∀ n, fatSectors 32 n 512 = (4 * n + 511) / 512 := by
      intro n
      rw [fatSectors]
      omega
    have haligned : ∀ r, (r + 2 * ((4 * ((N - r) / cs) + 511) / 512)) % 8 = 0 →
        alignedAt N cs 512 r = true := by
      intro r hr
      rw [alignedAt, hlen, decide_eq_true hr, Bool.or_true]
    have h39 := clusters_between hcs (j := 32) (k := 39) (N := N) (by omega) (by omega)
    have h47 := clusters_between hcs (j := 39) (k := 47) (N := N) (by omega) (by omega)
    by_cases hsame : (4 * ((N - 32) / cs) + 511) / 512 = (4 * ((N - 39) / cs) + 511) / 512
    · let r := 32 + (8 - 2 * ((4 * ((N - 32) / cs) + 511) / 512) % 8) % 8
      have hr : 32 ≤ r ∧ r ≤ 39 := by omega
      have hlow := clusters_between hcs (j := 32) (k := r) (N := N) (by omega) (by omega)
      have hhigh := clusters_between hcs (j := r) (k := 39) (N := N) (by omega) (by omega)
      exact ⟨r, by omega, by omega, haligned r (by omega)⟩
    · let r := 40 + (8 - 2 * ((4 * ((N - 39) / cs) + 511) / 512) % 8) % 8
      have hr : 40 ≤ r ∧ r ≤ 47 := by omega
      have hlow := clusters_between hcs (j := 39) (k := r) (N := N) (by omega) (by omega)
      have hhigh := clusters_between hcs (j := r) (k := 47) (N := N) (by omega) (by omega)
      exact ⟨r, by omega, by omega, haligned r (by omega)⟩
  · refine ⟨32, Nat.le_refl _, by omega, ?_⟩
    rw [alignedAt, decide_eq_true (p := ss ≠ 512) hss, Bool.true_or]

theorem alignedReserved_spec (ss : Nat) (hcs : 0 < cs) (hN : 47 ≤ N) :
    32 ≤ alignedReserved N cs ss ∧ alignedReserved N cs ss ≤ 47 ∧
      alignedAt N cs ss (alignedReserved N cs ss) = true ∧
      ∀ j, 32 ≤ j → j < alignedReserved N cs ss → alignedAt N cs ss j = false := by
  obtain ⟨r, hlow, hhigh, haligned⟩ := exists_aligned ss hcs hN
  have hsome : ((List.range' 32 16).find? (alignedAt N cs ss)).isSome = true := by
    rw [List.find?_isSome]
    exact ⟨r, List.mem_range'_1.mpr ⟨hlow, by omega⟩, haligned⟩
  obtain ⟨first, hfirst⟩ := Option.isSome_iff_exists.mp hsome
  have heq : alignedReserved N cs ss = first := by
    rw [alignedReserved, hfirst, Option.getD_some]
  obtain ⟨hat, hmem, hbefore⟩ := List.find?_range'_eq_some.mp hfirst
  obtain ⟨hle, hlt⟩ := List.mem_range'_1.mp hmem
  rw [heq]
  refine ⟨hle, by omega, hat, fun j hj hjr => ?_⟩
  exact Bool.not_eq_true' _ ▸ hbefore j hj hjr

end

/-! ## The steps of `GetFatParams` -/

namespace FatParams

/-- What no step changes. -/
structure SameVolume (ft ft' : FatParams) : Prop where
  numSectors : ft'.numSectors = ft.numSectors
  clusterSize : ft'.clusterSize = ft.clusterSize
  sectorSize : ft'.sectorSize = ft.sectorSize
  fats : ft'.fats = ft.fats

theorem SameVolume.trans {ft ft' ft'' : FatParams} (h : ft.SameVolume ft')
    (h' : ft'.SameVolume ft'') : ft.SameVolume ft'' :=
  ⟨h'.numSectors.trans h.numSectors, h'.clusterSize.trans h.clusterSize,
    h'.sectorSize.trans h.sectorSize, h'.fats.trans h.fats⟩

/-- A volume that `GetFatParams` has the sector and cluster sizes of. -/
structure Started (ft : FatParams) : Prop where
  sectorOk : SectorSizeOk ft.sectorSize.toNat
  cluster_pos : 0 < ft.clusterSize.toNat
  cluster_lt : ft.clusterSize.toNat * ft.sectorSize.toNat < 2 ^ 32
  fats : ft.fats = 2

theorem Started.of_same {ft ft' : FatParams} (h : ft.Started) (hsame : ft.SameVolume ft') :
    ft'.Started := by
  obtain ⟨-, hcluster, hsector, hfats⟩ := hsame
  refine ⟨?_, ?_, ?_, ?_⟩
  · rw [hsector]
    exact h.sectorOk
  · rw [hcluster]
    exact h.cluster_pos
  · rw [hcluster, hsector]
    exact h.cluster_lt
  · rw [hfats]
    exact h.fats

section
variable {ft : FatParams}

theorem toNat_inSectors (ft : FatParams) (n : UInt32) :
    (ft.inSectors n).val.toNat =
      (n.toNat + ft.sectorSize.toNat + (2 ^ 32 - 1)) % 2 ^ 32 / ft.sectorSize.toNat := by
  show ((n + ft.sectorSize.toUInt32 - 1) / ft.sectorSize.toUInt32).toNat = _
  rw [UInt32.toNat_div, toNat_sub32, UInt32.toNat_add, UInt16.toNat_toUInt32, Nat.mod_add_mod]
  rfl

theorem exact_inSectors (ft : FatParams) (n : UInt32) :
    (ft.inSectors n).exact = true ↔ (n.toNat + ft.sectorSize.toNat) % 2 ^ 32 ≠ 0 := by
  have hone : (1 : UInt32).toNat = 1 := rfl
  show ((sub32 (n + ft.sectorSize.toUInt32) 1).exact && true) = true ↔ _
  rw [Bool.and_true, exact_sub32, UInt32.toNat_add, UInt16.toNat_toUInt32, hone]
  omega

/-- No more bytes than fit with a sector to spare. -/
theorem inSectors_small (ft : FatParams) (hss : 0 < ft.sectorSize.toNat) {n : UInt32}
    (h : n.toNat + ft.sectorSize.toNat < 2 ^ 32) :
    (ft.inSectors n).exact = true ∧
      (ft.inSectors n).val.toNat = (n.toNat + ft.sectorSize.toNat - 1) / ft.sectorSize.toNat := by
  rw [exact_inSectors, toNat_inSectors, Nat.mod_eq_of_lt h]
  have hwrap : (n.toNat + ft.sectorSize.toNat + (2 ^ 32 - 1)) % 2 ^ 32 =
      n.toNat + ft.sectorSize.toNat - 1 := by omega
  rw [hwrap]
  exact ⟨by omega, rfl⟩

theorem toNat_clustersIn (h : ft.Started) (fatsecs : UInt32) :
    (ft.clustersIn fatsecs).toNat = fatsecs.toNat / ft.clusterSize.toNat := by
  have hlt := fatsecs.toNat_lt
  have hle := Nat.div_le_self fatsecs.toNat ft.clusterSize.toNat
  rw [clustersIn, UInt32.toNat_mul, UInt16.toNat_toUInt32, Nat.mod_eq_of_lt h.cluster_lt,
    Nat.mul_div_mul_right _ _ h.sectorOk.pos, UInt32.toNat_ofNat']
  exact Nat.mod_eq_of_lt (by omega)

/-- The sectors behind the root directory, if there are so many. -/
theorem fatsecs_spec (h : ft.Started) (hroot : ft.sizeRootDir = 512 * 32)
    (hreserved : ft.reserved = 2) :
    (ft.fatsecs.exact = true ↔ rootSectors ft.sectorSize.toNat + 2 ≤ ft.numSectors.toNat) ∧
      (rootSectors ft.sectorSize.toNat + 2 ≤ ft.numSectors.toNat →
        ft.fatsecs.val.toNat =
          ft.numSectors.toNat - rootSectors ft.sectorSize.toNat - 2) := by
  have hmax := h.sectorOk.max
  obtain ⟨hexact, hval⟩ := inSectors_small ft h.sectorOk.pos (n := 512 * 32)
    (by show 16384 + _ < _; omega)
  have hrootVal : (ft.inSectors (512 * 32)).val.toNat = rootSectors ft.sectorSize.toNat := hval
  have htwo : (2 : UInt16).toUInt32.toNat = 2 := rfl
  have hfirst : (sub32 ft.numSectors (ft.inSectors (512 * 32)).val).exact = true ↔
      rootSectors ft.sectorSize.toNat ≤ ft.numSectors.toNat := by
    rw [exact_sub32, hrootVal]
  have hexactAll : ft.fatsecs.exact = true ↔
      (sub32 ft.numSectors (ft.inSectors (512 * 32)).val).exact = true ∧
        (sub32 (ft.numSectors - (ft.inSectors (512 * 32)).val) (2 : UInt16).toUInt32).exact =
          true := by
    rw [fatsecs, hroot, hreserved, Unsigned.exact_bind, Unsigned.exact_bind, hexact,
      Bool.true_and, Bool.and_eq_true]
    rfl
  have hsub : rootSectors ft.sectorSize.toNat ≤ ft.numSectors.toNat →
      (ft.numSectors - (ft.inSectors (512 * 32)).val).toNat =
        ft.numSectors.toNat - rootSectors ft.sectorSize.toNat := by
    intro hle
    rw [toNat_sub32_of_le (by rw [hrootVal]; exact hle), hrootVal]
  constructor
  · rw [hexactAll, hfirst]
    constructor
    · rintro ⟨hle, hsecond⟩
      rw [exact_sub32, hsub hle, htwo] at hsecond
      omega
    · intro hle
      refine ⟨by omega, ?_⟩
      rw [exact_sub32, hsub (by omega), htwo]
      omega
  · intro hle
    show (_ - _ - ft.reserved.toUInt32 : UInt32).toNat = _
    rw [hroot, hreserved, toNat_sub32_of_le (by rw [hsub (by omega), htwo]; omega),
      hsub (by omega), htwo]

/-- The clusters behind the root directory. -/
theorem clusters_spec (h : ft.Started) (hroot : ft.sizeRootDir = 512 * 32)
    (hreserved : ft.reserved = 2) :
    (ft.fatsecs.exact = true ↔ rootSectors ft.sectorSize.toNat + 2 ≤ ft.numSectors.toNat) ∧
      (rootSectors ft.sectorSize.toNat + 2 ≤ ft.numSectors.toNat →
        (ft.clustersIn ft.fatsecs.val).toNat =
          (ft.numSectors.toNat - rootSectors ft.sectorSize.toNat - 2) /
            ft.clusterSize.toNat) := by
  obtain ⟨hexact, hval⟩ := fatsecs_spec h hroot hreserved
  refine ⟨hexact, fun hle => ?_⟩
  rw [toNat_clustersIn h, hval hle]

/-- A file system of the given width before the clusters under its tables are taken off. -/
structure Sized (ft : FatParams) (bits area : Nat) : Prop where
  sizeFat : ft.sizeFat.toNat = bits
  clusterCount : ft.clusterCount.toNat = area / ft.clusterSize.toNat
  fatLength : ft.fatLength.toNat =
    fatSectors bits (area / ft.clusterSize.toNat) ft.sectorSize.toNat

/-- What a step for FAT12 or FAT16 gives: the clusters behind the root directory, if there is one,
    and a table of the given width for them, if they are as few as the width is for. -/
structure Stepped (ft ft' : FatParams) (bits most : Nat) : Prop where
  same : ft.SameVolume ft'
  sizeRootDir : ft'.sizeRootDir = 512 * 32
  reserved : ft'.reserved = 2
  clusterCount : rootSectors ft.sectorSize.toNat + 2 ≤ ft.numSectors.toNat →
    ft'.clusterCount.toNat =
      (ft.numSectors.toNat - rootSectors ft.sectorSize.toNat - 2) / ft.clusterSize.toNat
  sized : rootSectors ft.sectorSize.toNat + 2 ≤ ft.numSectors.toNat →
    ft'.clusterCount.toNat < most →
    ft'.Sized bits (ft.numSectors.toNat - rootSectors ft.sectorSize.toNat - 2)

theorem fat12_spec (h : ft.Started) (hroot : ft.sizeRootDir = 512 * 32) :
    ft.Stepped ft.fat12.val 12 4085 ∧
      (ft.fat12.exact = true ↔ rootSectors ft.sectorSize.toNat + 2 ≤ ft.numSectors.toNat) := by
  have hmin := h.sectorOk.min
  have hmax := h.sectorOk.max
  let ft' : FatParams := { ft with sizeFat := 12, reserved := 2 }
  have hstarted : ft'.Started := h.of_same ⟨rfl, rfl, rfl, rfl⟩
  obtain ⟨hexact, hcount⟩ := clusters_spec hstarted hroot rfl
  obtain ⟨n, hn⟩ : ∃ n, ft'.clustersIn ft'.fatsecs.val = n := ⟨_, rfl⟩
  rw [hn] at hcount
  have hbytes : ((n * 3 + 1) >>> 1).toNat = (n.toNat * 3 + 1) % 2 ^ 32 / 2 := by
    rw [UInt32.toNat_shiftRight, UInt32.toNat_add, UInt32.toNat_mul, Nat.shiftRight_eq_div_pow]
    show ((n.toNat * 3 % 2 ^ 32 + 1) % 2 ^ 32) / 2 = _
    rw [Nat.mod_add_mod]
  obtain ⟨hlenExact, hlen⟩ := inSectors_small ft' h.sectorOk.pos (n := (n * 3 + 1) >>> 1)
    (by rw [hbytes]; show _ + ft.sectorSize.toNat < _; omega)
  have hvalCount : ft.fat12.val.clusterCount = n := hn
  have hvalLength : ft.fat12.val.fatLength = (ft'.inSectors ((n * 3 + 1) >>> 1)).val := by
    rw [← hn]
    rfl
  refine ⟨⟨⟨rfl, rfl, rfl, rfl⟩, hroot, rfl, ?_, ?_⟩, ?_⟩
  · rw [hvalCount]
    exact hcount
  · rw [hvalCount]
    intro hle hfew
    refine ⟨rfl, ?_, ?_⟩
    · rw [hvalCount]
      exact hcount hle
    · have hhalf : (n.toNat * 3 + 1) % 2 ^ 32 / 2 = (12 * n.toNat + 7) / 8 := by omega
      rw [hvalLength, hlen, hbytes, hhalf, hcount hle]
      rfl
  · rw [← hexact]
    show (ft'.fatsecs.exact &&
      ((ft'.inSectors ((ft'.clustersIn ft'.fatsecs.val * 3 + 1) >>> 1)).exact && true)) = true ↔ _
    rw [hn, hlenExact, Bool.true_and, Bool.and_true]

theorem fat16_spec (h : ft.Started) (hroot : ft.sizeRootDir = 512 * 32) :
    ft.Stepped ft.fat16.val 16 65525 ∧
      (rootSectors ft.sectorSize.toNat + 2 ≤ ft.numSectors.toNat →
        ft.fat16.val.clusterCount.toNat < 2 ^ 30 → ft.fat16.exact = true) := by
  have hmin := h.sectorOk.min
  have hmax := h.sectorOk.max
  let ft' : FatParams := { ft with sizeFat := 16, reserved := 2 }
  have hstarted : ft'.Started := h.of_same ⟨rfl, rfl, rfl, rfl⟩
  obtain ⟨hexact, hcount⟩ := clusters_spec hstarted hroot rfl
  obtain ⟨n, hn⟩ : ∃ n, ft'.clustersIn ft'.fatsecs.val = n := ⟨_, rfl⟩
  rw [hn] at hcount
  have hbytes : (n * 2).toNat = n.toNat * 2 % 2 ^ 32 := UInt32.toNat_mul n 2
  have hlen : n.toNat < 2 ^ 30 → (ft'.inSectors (n * 2)).exact = true ∧
      (ft'.inSectors (n * 2)).val.toNat =
        ((n * 2).toNat + ft.sectorSize.toNat - 1) / ft.sectorSize.toNat := by
    intro hfew
    exact inSectors_small ft' h.sectorOk.pos
      (by rw [hbytes]; show _ + ft.sectorSize.toNat < _; omega)
  have hvalCount : ft.fat16.val.clusterCount = n := hn
  have hvalLength : ft.fat16.val.fatLength = (ft'.inSectors (n * 2)).val := by
    rw [← hn]
    rfl
  refine ⟨⟨⟨rfl, rfl, rfl, rfl⟩, hroot, rfl, ?_, ?_⟩, ?_⟩
  · rw [hvalCount]
    exact hcount
  · rw [hvalCount]
    intro hle hfew
    refine ⟨rfl, ?_, ?_⟩
    · rw [hvalCount]
      exact hcount hle
    · have hwidth : n.toNat * 2 % 2 ^ 32 = (16 * n.toNat + 7) / 8 := by omega
      rw [hvalLength, (hlen (by omega)).2, hbytes, hwidth, hcount hle]
      rfl
  · rw [hvalCount]
    intro hle hfew
    show (ft'.fatsecs.exact &&
      ((ft'.inSectors (ft'.clustersIn ft'.fatsecs.val * 2)).exact && true)) = true
    rw [hn, (hlen hfew).1, hexact.mpr hle]
    rfl

/-! ### The loop over the reserved sectors -/

/-- What a round with `r` reserved sectors gives. The length of a table may have wrapped. -/
structure RoundAt (ft : FatParams) (r : Nat) (out : FatParams) : Prop where
  same : ft.SameVolume out
  reserved : out.reserved.toNat = r
  clusterCount : out.clusterCount.toNat = (ft.numSectors.toNat - r) / ft.clusterSize.toNat
  fatLength : out.fatLength.toNat =
    (4 * ((ft.numSectors.toNat - r) / ft.clusterSize.toNat) + ft.sectorSize.toNat +
      (2 ^ 32 - 1)) % 2 ^ 32 / ft.sectorSize.toNat

/-- The sum that a round subtracts one from is not zero. -/
def ExactAt (ft : FatParams) (r : Nat) : Prop :=
  (4 * ((ft.numSectors.toNat - r) / ft.clusterSize.toNat) + ft.sectorSize.toNat) % 2 ^ 32 ≠ 0

theorem fat32Round_spec (h : ft.Started) {r : Nat} (hr : ft.reserved.toNat + 1 = r)
    (hr16 : r < 2 ^ 16) (hN : r ≤ ft.numSectors.toNat) :
    ft.RoundAt r ft.fat32Round.val ∧ (ft.fat32Round.exact = true ↔ ft.ExactAt r) := by
  have hreserved : (ft.reserved + 1).toNat = r := by
    rw [UInt16.toNat_add, ← hr]
    exact Nat.mod_eq_of_lt (by show ft.reserved.toNat + 1 < 2 ^ 16; omega)
  let ft' : FatParams :=
    { ft with
      reserved := ft.reserved + 1
      sizeRootDir := ft.clusterSize * ft.sectorSize.toUInt32 }
  have hstarted : ft'.Started := h.of_same ⟨rfl, rfl, rfl, rfl⟩
  have hle : (ft.reserved + 1).toUInt32.toNat ≤ ft.numSectors.toNat := by
    rw [UInt16.toNat_toUInt32, hreserved]
    exact hN
  obtain ⟨n, hn⟩ : ∃ n, ft'.clustersIn (ft.numSectors - (ft.reserved + 1).toUInt32) = n := ⟨_, rfl⟩
  have hcount : n.toNat = (ft.numSectors.toNat - r) / ft.clusterSize.toNat := by
    rw [← hn, toNat_clustersIn hstarted, toNat_sub32_of_le hle, UInt16.toNat_toUInt32, hreserved]
  have hbytes : (n * 4).toNat = n.toNat * 4 % 2 ^ 32 := UInt32.toNat_mul n 4
  have hvalLength : ft.fat32Round.val.fatLength = (ft'.inSectors (n * 4)).val := by
    rw [← hn]
    rfl
  have hvalExact : ft.fat32Round.exact =
      ((sub32 ft.numSectors (ft.reserved + 1).toUInt32).exact &&
        ((ft'.inSectors (n * 4)).exact && true)) := by
    rw [← hn]
    rfl
  refine ⟨⟨⟨rfl, rfl, rfl, rfl⟩, hreserved, (congrArg _ hn).trans hcount, ?_⟩, ?_⟩
  · rw [hvalLength, toNat_inSectors, hbytes, Nat.add_assoc, Nat.mod_add_mod, ← Nat.add_assoc,
      Nat.mul_comm n.toNat, hcount]
  · rw [hvalExact, Bool.and_true, Bool.and_eq_true, exact_sub32, exact_inSectors, hbytes,
      Nat.mod_add_mod, Nat.mul_comm n.toNat, hcount]
    exact and_iff_right hle

theorem RoundAt.of_same {base out : FatParams} {r : Nat} (h : ft.RoundAt r out)
    (hsame : base.SameVolume ft) : base.RoundAt r out := by
  obtain ⟨houtSame, hreserved, hcount, hlength⟩ := h
  rw [hsame.numSectors, hsame.clusterSize] at hcount
  rw [hsame.numSectors, hsame.clusterSize, hsame.sectorSize] at hlength
  exact ⟨hsame.trans houtSame, hreserved, hcount, hlength⟩

/-- The test of the loop, on the length of the table as it is without a wrap. -/
theorem RoundAt.unaligned_eq {out : FatParams} {r : Nat} (hstart : ft.Started)
    (h : ft.RoundAt r out) :
    out.unaligned =
      !alignedAt ft.numSectors.toNat ft.clusterSize.toNat ft.sectorSize.toNat r := by
  have hsector : out.sectorSize = sectorSizeLegacy ↔ ft.sectorSize.toNat = 512 := by
    rw [h.same.sectorSize]
    exact UInt16.toNat_inj.symm
  have hfats : out.fats.toNat = 2 := by
    rw [h.same.fats, hstart.fats]
    rfl
  unfold unaligned alignedAt
  by_cases hss : ft.sectorSize.toNat = 512
  · have hout : out.sectorSize.toNat = 512 := by rw [h.same.sectorSize, hss]
    have hlen := h.fatLength
    rw [hss] at hlen
    have hsum : (out.reserved.toUInt32 * out.sectorSize.toUInt32 +
        out.fatLength * out.fats * out.sectorSize.toUInt32).toNat =
        (r * 512 % 2 ^ 32 + out.fatLength.toNat * 2 % 2 ^ 32 * 512 % 2 ^ 32) % 2 ^ 32 := by
      rw [UInt32.toNat_add, UInt32.toNat_mul, UInt32.toNat_mul, UInt32.toNat_mul,
        UInt16.toNat_toUInt32, UInt16.toNat_toUInt32, h.reserved, hout, hfats]
    have hzero : (out.reserved.toUInt32 * out.sectorSize.toUInt32 +
        out.fatLength * out.fats * out.sectorSize.toUInt32) % maxVolumeSectorSize = 0 ↔
        (r + 2 * fatSectors 32 ((ft.numSectors.toNat - r) / ft.clusterSize.toNat) 512) % 8 =
          0 := by
      have h4096 : maxVolumeSectorSize.toNat = 4096 := rfl
      rw [← UInt32.toNat_inj, UInt32.toNat_mod, hsum, h4096, fatSectors, hlen]
      generalize (ft.numSectors.toNat - r) / ft.clusterSize.toNat = n
      show _ = 0 ↔ _
      omega
    rw [hss, decide_eq_true (hsector.mpr hss), Bool.true_and]
    simp only [ne_eq, hzero, not_true_eq_false, decide_false, Bool.false_or, decide_not]
  · rw [decide_eq_false (fun h => hss (hsector.mp h)), Bool.false_and,
      decide_eq_true (p := ft.sectorSize.toNat ≠ 512) hss, Bool.true_or]
    rfl

/-- **The loop stops at the first number of reserved sectors that aligns the data area.** -/
theorem fat32Loop_spec {base : FatParams} (hbase : base.Started) (fuel : Nat) :
    ∀ (ft : FatParams) (r last : Nat), base.SameVolume ft → ft.reserved.toNat + 1 = r → r ≤ last →
      last < r + fuel → last < 2 ^ 16 → last ≤ base.numSectors.toNat →
      alignedAt base.numSectors.toNat base.clusterSize.toNat base.sectorSize.toNat last = true →
      (∀ j, r ≤ j → j < last →
        alignedAt base.numSectors.toNat base.clusterSize.toNat base.sectorSize.toNat j = false) →
      ∃ out, fat32Loop fuel ft = some out ∧ base.RoundAt last out.val ∧
        out.val.sizeFat = ft.sizeFat ∧
        (out.exact = true ↔ ∀ j, r ≤ j → j ≤ last → base.ExactAt j) := by
  induction fuel with
  | zero =>
    intro ft r last _ _ hle hlt
    exact absurd hlt (by omega)
  | succ fuel ih =>
    intro ft r last hsame hr hle hlt hlast hN haligned hfirst
    obtain ⟨hround, hexact⟩ := fat32Round_spec (hbase.of_same hsame) hr (by omega)
      (by rw [hsame.numSectors]; omega)
    have hexactBase : ft.fat32Round.exact = true ↔ base.ExactAt r := by
      rw [hexact, ExactAt, ExactAt, hsame.numSectors, hsame.clusterSize, hsame.sectorSize]
    have htest := hround.unaligned_eq (hbase.of_same hsame)
    rw [hsame.numSectors, hsame.clusterSize, hsame.sectorSize] at htest
    rw [fat32Loop]
    simp only [htest]
    by_cases hend : r = last
    · subst hend
      rw [haligned]
      refine ⟨ft.fat32Round, rfl, hround.of_same hsame, rfl, ?_⟩
      rw [hexactBase]
      constructor
      · intro h j hj hj'
        rwa [Nat.le_antisymm hj' hj]
      · intro h
        exact h r (Nat.le_refl r) (Nat.le_refl r)
    · rw [hfirst r (Nat.le_refl r) (by omega)]
      obtain ⟨out, hout, houtRound, houtFat, houtExact⟩ := ih _ (r + 1) last
        (hsame.trans hround.same) (by rw [hround.reserved]) (by omega) (by omega) hlast hN haligned
        (fun j hj hj' => hfirst j (by omega) hj')
      refine ⟨ft.fat32Round >>= fun _ => out, by simp [hout], houtRound,
        houtFat, ?_⟩
      rw [Unsigned.exact_bind, Bool.and_eq_true, hexactBase, houtExact]
      constructor
      · rintro ⟨hnow, hlater⟩ j hj hj'
        by_cases hjr : j = r
        · rwa [hjr]
        · exact hlater j (by omega) hj'
      · intro h
        exact ⟨h r (Nat.le_refl r) hle, fun j hj hj' => h j (by omega) hj'⟩

/-! ### The end -/

/-- The sectors of a root directory in front of the data area; that of a FAT32 file system is a
    cluster. -/
def rootDirSectors (ft : FatParams) : Nat :=
  if ft.sizeFat = 32 then 0
  else (ft.sizeRootDir.toNat + ft.sectorSize.toNat - 1) / ft.sectorSize.toNat

/-- The file system fits into the volume, and its tables have an entry for every cluster, which are
    numbered from 2 on. -/
structure Fits (ft : FatParams) : Prop where
  sectors : ft.reserved.toNat + ft.fats.toNat * ft.fatLength.toNat + ft.rootDirSectors +
    ft.clusterCount.toNat * ft.clusterSize.toNat ≤ ft.numSectors.toNat
  entries : (ft.clusterCount.toNat + 2) * ft.sizeFat.toNat ≤
    8 * (ft.sectorSize.toNat * ft.fatLength.toNat)

/-- What `finish` leaves alone. -/
theorem finish_same (ft : FatParams) :
    ft.SameVolume ft.finish.val ∧ ft.finish.val.reserved = ft.reserved ∧
      ft.finish.val.sizeFat = ft.sizeFat ∧ ft.finish.val.fatLength = ft.fatLength ∧
      ft.finish.val.rootDirSectors = ft.rootDirSectors := by
  rw [finish, Unsigned.val_bind]
  dsimp only
  split
  · exact ⟨⟨rfl, rfl, rfl, rfl⟩, rfl, rfl, rfl, rfl⟩
  · exact ⟨⟨rfl, rfl, rfl, rfl⟩, rfl, rfl, rfl, rfl⟩

theorem toNat_clusters_of_tables (h : ft.Started) (hlen : 2 * ft.fatLength.toNat < 2 ^ 32) :
    (ft.fatLength * ft.fats / ft.clusterSize).toNat =
      2 * ft.fatLength.toNat / ft.clusterSize.toNat := by
  have htwo : (2 : UInt32).toNat = 2 := rfl
  rw [UInt32.toNat_div, UInt32.toNat_mul, h.fats, htwo, Nat.mul_comm, Nat.mod_eq_of_lt hlen]

/-- The clusters under the tables are taken off, if there are so many. -/
theorem finish_count (h : ft.Started) (hlen : 2 * ft.fatLength.toNat < 2 ^ 32) :
    (ft.finish.exact = true ↔
        2 * ft.fatLength.toNat / ft.clusterSize.toNat ≤ ft.clusterCount.toNat) ∧
      ft.finish.val.clusterCount.toNat =
        (ft.clusterCount.toNat + (2 ^ 32 - 2 * ft.fatLength.toNat / ft.clusterSize.toNat)) %
          2 ^ 32 := by
  have hval : ft.finish.val.clusterCount =
      ft.clusterCount - ft.fatLength * ft.fats / ft.clusterSize := by
    rw [finish, Unsigned.val_bind]
    dsimp only
    split
    · rfl
    · rfl
  have hexact : ft.finish.exact =
      (sub32 ft.clusterCount (ft.fatLength * ft.fats / ft.clusterSize)).exact := by
    rw [finish, Unsigned.exact_bind]
    dsimp only
    split
    · exact Bool.and_true _
    · exact Bool.and_true _
  rw [hexact, exact_sub32, hval, toNat_sub32, toNat_clusters_of_tables h hlen]
  exact ⟨Iff.rfl, rfl⟩

/-- **Whether a sized file system fits.** -/
theorem finish_iff (h : ft.Started) {bits area : Nat} (hsized : ft.Sized bits area)
    (hlen : 2 * ft.fatLength.toNat < 2 ^ 32)
    (htotal : ft.reserved.toNat + ft.rootDirSectors + area = ft.numSectors.toNat) :
    (ft.finish.exact = true ∧ ft.finish.val.Fits) ↔
      AreaOk bits area ft.clusterSize.toNat ft.sectorSize.toNat := by
  obtain ⟨hexact, hcount⟩ := finish_count h hlen
  obtain ⟨hsame, hreserved, hfat, hlength, hroot⟩ := finish_same ft
  have hlt := ft.clusterCount.toNat_lt
  have hfats : ft.fats.toNat = 2 := by
    rw [h.fats]
    rfl
  have hfits : 2 * ft.fatLength.toNat / ft.clusterSize.toNat ≤ ft.clusterCount.toNat →
      (ft.finish.val.Fits ↔
        2 * ft.fatLength.toNat % ft.clusterSize.toNat ≤ area % ft.clusterSize.toNat ∧
        bits * (area / ft.clusterSize.toNat + 2) ≤
          8 * (ft.sectorSize.toNat * ft.fatLength.toNat) +
            bits * (2 * ft.fatLength.toNat / ft.clusterSize.toNat)) := by
    intro hle
    have hleft : ft.finish.val.clusterCount.toNat =
        area / ft.clusterSize.toNat - 2 * ft.fatLength.toNat / ft.clusterSize.toNat := by
      rw [hcount, ← hsized.clusterCount]
      generalize 2 * ft.fatLength.toNat / ft.clusterSize.toNat = tables at hle
      omega
    rw [hsized.clusterCount] at hle
    rw [← tables_fit_iff hle, ← entries_fit_iff hle]
    constructor
    · rintro ⟨hsectors, hentries⟩
      rw [hreserved, hsame.fats, hlength, hroot, hsame.clusterSize, hsame.numSectors, hfats,
        hleft] at hsectors
      rw [hfat, hlength, hsame.sectorSize, hsized.sizeFat, hleft] at hentries
      exact ⟨by omega, hentries⟩
    · rintro ⟨hsectors, hentries⟩
      refine ⟨?_, ?_⟩
      · rw [hreserved, hsame.fats, hlength, hroot, hsame.clusterSize, hsame.numSectors, hfats,
          hleft]
        omega
      · rw [hfat, hlength, hsame.sectorSize, hsized.sizeFat, hleft]
        exact hentries
  rw [hexact]
  constructor
  · rintro ⟨hle, hfit⟩
    obtain ⟨hremainder, hroom⟩ := (hfits hle).mp hfit
    rw [hsized.clusterCount] at hle
    rw [hsized.fatLength] at hremainder hroom hle
    exact ⟨hremainder, hle, hroom⟩
  · rintro ⟨hremainder, htables, hroom⟩
    rw [← hsized.fatLength] at hremainder htables hroom
    rw [← hsized.clusterCount] at htables
    exact ⟨htables, (hfits htables).mpr ⟨hremainder, hroom⟩⟩

/-- A table whose length has wrapped has no room for its clusters. -/
theorem not_fits_of_wrapped {r : Nat} {out : FatParams} (h : ft.Started) (hround : ft.RoundAt r out)
    (hfat : out.sizeFat = 32)
    (hwrap : 2 ^ 32 < 4 * ((ft.numSectors.toNat - r) / ft.clusterSize.toNat) +
      ft.sectorSize.toNat) (hexact : out.finish.exact = true) : ¬ out.finish.val.Fits := by
  have hmin := h.sectorOk.min
  have hmax := h.sectorOk.max
  have hout := h.of_same hround.same
  have hcountLt := out.clusterCount.toNat_lt
  have hlength := hround.fatLength
  rw [← hround.clusterCount] at hwrap hlength
  have hbytes : ft.sectorSize.toNat * out.fatLength.toNat ≤
      4 * out.clusterCount.toNat + ft.sectorSize.toNat - 1 - 2 ^ 32 := by
    rw [hlength, Nat.mul_comm]
    refine Nat.le_trans (Nat.div_mul_le_self _ _) ?_
    omega
  have hlen : out.fatLength.toNat ≤ 2 ^ 23 := by
    rw [hlength]
    refine Nat.div_le_of_le_mul ?_
    have hmul := Nat.mul_le_mul_right (2 ^ 23) hmin
    omega
  obtain ⟨hexactIff, hcount⟩ := finish_count hout (by omega)
  have htables := Nat.div_le_self (2 * out.fatLength.toNat) out.clusterSize.toNat
  have hle := hexactIff.mp hexact
  obtain ⟨hsame, -, hfatSame, hlengthSame, -⟩ := finish_same out
  rintro ⟨-, hentries⟩
  have h32 : (32 : UInt32).toNat = 32 := rfl
  rw [hfatSame, hlengthSame, hsame.sectorSize, hround.same.sectorSize, hcount, hfat, h32]
    at hentries
  generalize 2 * out.fatLength.toNat / out.clusterSize.toNat = tables at htables hle hentries
  generalize ft.sectorSize.toNat * out.fatLength.toNat = bytes at hbytes hentries
  omega

end

end FatParams

/-! ## The whole computation -/

namespace FatFormatter

open FatParams

section
variable {numSectors clusterSize : UInt32} {sectorSize : UInt16}

theorem defaultClusterSectors_bounds (ss : UInt32) (h : SectorSizeOk ss.toNat)
    (volumeSize : UInt64) : 0 < (defaultClusterSectors volumeSize ss).toNat ∧
      (defaultClusterSectors volumeSize ss).toNat ≤ 128 := by
  have hmax := h.max
  have hquot : 0 < (maxFatClusterSize / ss).toNat := by
    rw [UInt32.toNat_div]
    exact Nat.div_pos (by show ss.toNat ≤ 262144; omega) h.pos
  obtain ⟨n, hn⟩ : ∃ n, defaultClusterSize volumeSize / ss = n := ⟨_, rfl⟩
  have hone : 0 < (if n = 0 then 1 else n : UInt32).toNat := by
    by_cases hzero : n = 0
    · rw [if_pos hzero]
      decide
    · rw [if_neg hzero]
      exact Nat.pos_of_ne_zero (fun h => hzero (UInt32.toNat_inj.mp h))
  obtain ⟨m, hm⟩ : ∃ m, (if n = 0 then 1 else n : UInt32) = m := ⟨_, rfl⟩
  rw [hm] at hone
  have hcap : 0 < (if maxFatClusterSize < m * ss then maxFatClusterSize / ss else m).toNat := by
    by_cases hlarge : maxFatClusterSize < m * ss
    · rw [if_pos hlarge]
      exact hquot
    · rw [if_neg hlarge]
      exact hone
  unfold defaultClusterSectors
  simp only [hn, hm]
  generalize (if maxFatClusterSize < m * ss then maxFatClusterSize / ss else m) = k at hcap
  by_cases hk : 128 < k
  · rw [if_pos hk]
    exact ⟨by decide, by decide⟩
  · rw [if_neg hk]
    exact ⟨hcap, Nat.le_of_not_lt (fun hlt => hk (UInt32.lt_iff_toNat_lt.mpr hlt))⟩

/-- Clusters have sectors, and their size is a `uint32`. -/
theorem clusterSectors_bounds (numSectors : UInt32) (h : SectorSizeOk sectorSize.toNat)
    (hcluster : clusterSize.toNat * sectorSize.toNat < 2 ^ 32) :
    0 < (clusterSectors numSectors clusterSize sectorSize).toNat ∧
      (clusterSectors numSectors clusterSize sectorSize).toNat * sectorSize.toNat < 2 ^ 32 := by
  have hmax := h.max
  have hdefault := defaultClusterSectors_bounds sectorSize.toUInt32
    (by rw [UInt16.toNat_toUInt32]; exact h) (numSectors.toUInt64 * sectorSize.toUInt64)
  unfold clusterSectors
  simp only
  split
  · exact ⟨by decide, by show 1 * _ < _; omega⟩
  · split
    · have hle := Nat.mul_le_mul hdefault.2 hmax
      exact ⟨hdefault.1, by omega⟩
    · rename_i hzero
      exact ⟨Nat.pos_of_ne_zero (fun h => hzero (UInt32.toNat_inj.mp h)), hcluster⟩

theorem init_started (numSectors : UInt32) (h : SectorSizeOk sectorSize.toNat)
    (hcluster : clusterSize.toNat * sectorSize.toNat < 2 ^ 32) :
    (FatParams.init numSectors clusterSize sectorSize).Started := by
  obtain ⟨hpos, hlt⟩ := clusterSectors_bounds numSectors h hcluster
  exact ⟨h, hpos, hlt, rfl⟩

/-- More fuel does not change a loop that has ended. -/
theorem fat32Loop_add (extra fuel : Nat) : ∀ {ft : FatParams} {out : Unsigned FatParams},
    fat32Loop fuel ft = some out → fat32Loop (fuel + extra) ft = some out := by
  induction fuel with
  | zero =>
    intro ft out h
    exact absurd h (by simp [fat32Loop])
  | succ fuel ih =>
    intro ft out h
    rw [Nat.add_right_comm]
    rw [fat32Loop] at h ⊢
    by_cases hagain : ft.fat32Round.val.unaligned = true
    · simp only [hagain, if_true] at h ⊢
      obtain ⟨rest, hrest, hout⟩ := Option.map_eq_some_iff.mp h
      rw [ih hrest, Option.map_some, hout]
    · simp only [hagain] at h ⊢
      exact h

theorem getFatParams_add {fuel : Nat} {out : Unsigned FatParams} (extra : Nat)
    (h : getFatParams fuel numSectors clusterSize sectorSize = some out) :
    getFatParams (fuel + extra) numSectors clusterSize sectorSize = some out := by
  unfold getFatParams at h ⊢
  generalize upToFat16 numSectors clusterSize sectorSize = ft at h ⊢
  simp only at h ⊢
  by_cases hwide : 65525 ≤ ft.val.clusterCount
  · rw [if_pos hwide] at h ⊢
    obtain ⟨pre, hpre, hout⟩ := Option.map_eq_some_iff.mp h
    obtain ⟨rest, hrest, hpre⟩ := Option.map_eq_some_iff.mp hpre
    rw [fat32, fat32Loop_add extra fuel hrest, Option.map_some, Option.map_some, hpre, hout]
  · rw [if_neg hwide] at h ⊢
    exact h

/-- The choice between FAT12 and FAT16. -/
theorem upToFat16_spec {ft : FatParams} (hft : FatParams.init numSectors clusterSize sectorSize = ft)
    (h : ft.Started)
    (hroot : rootSectors ft.sectorSize.toNat + 2 ≤ ft.numSectors.toNat) {area n : Nat}
    (harea : ft.numSectors.toNat - rootSectors ft.sectorSize.toNat - 2 = area)
    (hn : area / ft.clusterSize.toNat = n) :
    ∃ pre, upToFat16 numSectors clusterSize sectorSize = pre ∧ ft.SameVolume pre.val ∧
      pre.val.sizeRootDir = 512 * 32 ∧ pre.val.reserved = 2 ∧ pre.val.clusterCount.toNat = n ∧
      (n < 65525 → pre.val.Sized (if n < 4085 then 12 else 16) area) ∧
      (n < 2 ^ 30 → pre.exact = true) := by
  have hsizeRoot : ft.sizeRootDir = 512 * 32 := by
    rw [← hft]
    rfl
  obtain ⟨hstep, hexact⟩ := fat12_spec h hsizeRoot
  obtain ⟨hsame, hsizeRoot12, hreserved12, hcount, hsized⟩ := hstep
  have hcount12 := hcount hroot
  have hsized12 := hsized hroot
  rw [harea, hn] at hcount12
  rw [harea] at hsized12
  unfold upToFat16
  rw [hft]
  simp only
  have hchoose : 4085 ≤ ft.fat12.val.clusterCount ↔ 4085 ≤ n := by
    rw [UInt32.le_iff_toNat_le, hcount12]
    exact Iff.rfl
  by_cases hfew : n < 4085
  · rw [if_neg (fun hle => absurd (hchoose.mp hle) (by omega))]
    refine ⟨_, rfl, hsame, hsizeRoot12, hreserved12, hcount12, fun _ => ?_, fun _ => hexact.mpr hroot⟩
    rw [if_pos hfew]
    exact hsized12 (by rw [hcount12]; exact hfew)
  · rw [if_pos (hchoose.mpr (by omega))]
    have hroot16 : rootSectors ft.fat12.val.sectorSize.toNat + 2 ≤ ft.fat12.val.numSectors.toNat := by
      rw [hsame.sectorSize, hsame.numSectors]
      exact hroot
    obtain ⟨hstep, hexact16⟩ := fat16_spec (h.of_same hsame) hsizeRoot12
    obtain ⟨hsame16, hsizeRoot16, hreserved16, hcount16, hsized16⟩ := hstep
    have hcount16 := hcount16 hroot16
    have hsized16 := hsized16 hroot16
    rw [hsame.sectorSize, hsame.numSectors, hsame.clusterSize, harea, hn] at hcount16
    rw [hsame.sectorSize, hsame.numSectors, harea] at hsized16
    refine ⟨_, rfl, hsame.trans hsame16, hsizeRoot16, hreserved16, hcount16, fun hn => ?_,
      fun hn => ?_⟩
    · rw [if_neg hfew]
      exact hsized16 (by rw [hcount16]; exact hn)
    · rw [Unsigned.exact_bind, hexact.mpr hroot, hexact16 hroot16 (by rw [hcount16]; exact hn)]
      rfl

/-- FAT12 and FAT16. -/
theorem getFatParams_narrow {ft : FatParams}
    (hft : FatParams.init numSectors clusterSize sectorSize = ft) (h : ft.Started)
    (hroot : rootSectors ft.sectorSize.toNat + 2 ≤ ft.numSectors.toNat) {area n : Nat}
    (harea : ft.numSectors.toNat - rootSectors ft.sectorSize.toNat - 2 = area)
    (hn : area / ft.clusterSize.toNat = n) (hnarrow : n < 65525) (fuel : Nat) :
    ∃ pre, getFatParams fuel numSectors clusterSize sectorSize = some (pre >>= finish) ∧
      pre.exact = true ∧ ft.SameVolume pre.val ∧
      pre.val.Sized (if n < 4085 then 12 else 16) area ∧
      pre.val.reserved.toNat + pre.val.rootDirSectors + area = ft.numSectors.toNat := by
  obtain ⟨pre, hpre, hsame, hsizeRoot, hreserved, hcount, hsized, hexact⟩ :=
    upToFat16_spec hft h hroot harea hn
  have hfat := (hsized hnarrow).sizeFat
  have hnot32 : pre.val.sizeFat ≠ 32 := by
    intro h32
    rw [h32] at hfat
    split at hfat
    · exact absurd hfat (by decide)
    · exact absurd hfat (by decide)
  have hrootDir : pre.val.rootDirSectors = rootSectors ft.sectorSize.toNat := by
    rw [rootDirSectors, if_neg hnot32, hsizeRoot, hsame.sectorSize]
    rfl
  refine ⟨pre, ?_, hexact (by omega), hsame, hsized hnarrow, ?_⟩
  · unfold getFatParams
    rw [hpre]
    simp only
    rw [if_neg, Option.map_some]
    rw [UInt32.le_iff_toNat_le, hcount]
    exact Nat.not_le_of_lt hnarrow
  · have htwo : (2 : UInt16).toNat = 2 := rfl
    rw [hreserved, hrootDir, htwo]
    omega

/-- A volume with the clusters of a FAT32 file system is large enough for the loop. -/
theorem alignedReserved_wide {ft : FatParams} (h : ft.Started) {area n r : Nat}
    (harea : ft.numSectors.toNat - rootSectors ft.sectorSize.toNat - 2 = area)
    (hn : area / ft.clusterSize.toNat = n) (hwide : 65525 ≤ n)
    (hr : alignedReserved ft.numSectors.toNat ft.clusterSize.toNat ft.sectorSize.toNat = r) :
    65525 ≤ ft.numSectors.toNat ∧ 32 ≤ r ∧ r ≤ 47 ∧
      alignedAt ft.numSectors.toNat ft.clusterSize.toNat ft.sectorSize.toNat r = true ∧
      ∀ j, 32 ≤ j → j < r →
        alignedAt ft.numSectors.toNat ft.clusterSize.toNat ft.sectorSize.toNat j = false := by
  have hle := Nat.div_le_self area ft.clusterSize.toNat
  have hspec := alignedReserved_spec ft.sectorSize.toNat h.cluster_pos (N := ft.numSectors.toNat)
    (by omega)
  rw [hr] at hspec
  exact ⟨by omega, hspec⟩

/-- The count behind a root directory exceeds the one behind `k` sectors by few clusters. -/
theorem clusters_le {ft : FatParams} (h : ft.Started) {area n k : Nat}
    (harea : ft.numSectors.toNat - rootSectors ft.sectorSize.toNat - 2 = area)
    (hn : area / ft.clusterSize.toNat = n) (hk : 6 ≤ k) (hN : k ≤ ft.numSectors.toNat) :
    n ≤ (ft.numSectors.toNat - k) / ft.clusterSize.toNat + (k - 6) := by
  have hroot4 := h.sectorOk.rootSectors_le.1
  have hle : n ≤ (ft.numSectors.toNat - 6) / ft.clusterSize.toNat := by
    rw [← hn, ← harea]
    exact Nat.div_le_div_right (by omega)
  exact Nat.le_trans hle (clusters_between h.cluster_pos hk hN).2

/-- FAT32. -/
theorem getFatParams_wide {ft : FatParams}
    (hft : FatParams.init numSectors clusterSize sectorSize = ft) (h : ft.Started)
    (hroot : rootSectors ft.sectorSize.toNat + 2 ≤ ft.numSectors.toNat) {area n r : Nat}
    (harea : ft.numSectors.toNat - rootSectors ft.sectorSize.toNat - 2 = area)
    (hn : area / ft.clusterSize.toNat = n) (hwide : 65525 ≤ n)
    (hr : alignedReserved ft.numSectors.toNat ft.clusterSize.toNat ft.sectorSize.toNat = r)
    (extra : Nat) :
    ∃ pre, getFatParams (16 + extra) numSectors clusterSize sectorSize = some (pre >>= finish) ∧
      ft.RoundAt r pre.val ∧ pre.val.sizeFat = 32 ∧
      (pre.exact = true → ∀ j, 32 ≤ j → j ≤ r → ft.ExactAt j) ∧
      (n < 2 ^ 30 → (∀ j, 32 ≤ j → j ≤ r → ft.ExactAt j) → pre.exact = true) := by
  obtain ⟨pre, hpre, hsame, -, -, hcount, -, hexact⟩ := upToFat16_spec hft h hroot harea hn
  obtain ⟨hlarge, hlow, hhigh, haligned, hfirst⟩ := alignedReserved_wide h harea hn hwide hr
  obtain ⟨out, hout, hround, hfat, houtExact⟩ := fat32Loop_spec h (16 + extra)
    { pre.val with sizeFat := 32, reserved := 32 - 1 } 32 r
    ⟨hsame.numSectors, hsame.clusterSize, hsame.sectorSize, hsame.fats⟩ rfl hlow (by omega)
    (by omega) (by omega) haligned hfirst
  refine ⟨pre >>= fun _ => out, ?_, hround, hfat, ?_, ?_⟩
  · unfold getFatParams
    rw [hpre]
    simp only
    rw [if_pos, fat32, hout]
    · rfl
    · rw [UInt32.le_iff_toNat_le, hcount]
      exact hwide
  · intro hall
    rw [Unsigned.exact_bind, Bool.and_eq_true] at hall
    exact houtExact.mp hall.2
  · intro hfew hall
    rw [Unsigned.exact_bind, hexact hfew, houtExact.mpr hall]
    rfl

/-- Where the count is too large at first and no round subtracts from zero, it stays too large: it
    falls by one cluster at a time. -/
theorem wrapped_of_exact {ft : FatParams} (h : ft.Started) {r : Nat}
    (hwrap : 2 ^ 32 ≤ 4 * ((ft.numSectors.toNat - 32) / ft.clusterSize.toNat) +
      ft.sectorSize.toNat) (hr : 32 ≤ r) (hN : r ≤ ft.numSectors.toNat)
    (hexact : ∀ j, 32 ≤ j → j ≤ r → ft.ExactAt j) :
    2 ^ 32 < 4 * ((ft.numSectors.toNat - r) / ft.clusterSize.toNat) + ft.sectorSize.toNat := by
  have hmax := h.sectorOk.max
  have hunits := h.sectorOk.units
  induction r, hr using Nat.le_induction with
  | base =>
    have h32 := hexact 32 (Nat.le_refl _) (Nat.le_refl _)
    have hlt := ft.numSectors.toNat_lt
    have hdiv := Nat.div_le_self (ft.numSectors.toNat - 32) ft.clusterSize.toNat
    unfold FatParams.ExactAt at h32
    generalize (ft.numSectors.toNat - 32) / ft.clusterSize.toNat = n at *
    omega
  | succ r hr ih =>
    have hbefore := ih (by omega) (fun j hj hj' => hexact j hj (by omega))
    have hnow := hexact (r + 1) (by omega) (Nat.le_refl _)
    have hstep := (clusters_between h.cluster_pos (Nat.le_succ r) hN).2
    unfold FatParams.ExactAt at hnow
    generalize (ft.numSectors.toNat - (r + 1)) / ft.clusterSize.toNat = n at *
    generalize (ft.numSectors.toNat - r) / ft.clusterSize.toNat = m at *
    omega

/-- The type that is written is the one that is inferred. -/
def TypeMatches (ft : FatParams) : Prop := ft.sizeFat.toNat = fatType ft.clusterCount.toNat

instance (ft : FatParams) : Decidable (TypeMatches ft) := inferInstanceAs (Decidable (_ = _))

/-- The volumes without a sector behind the root directory, each computed. -/
theorem getFatParams_tiny (k : Fin 8) (N : Fin 34)
    (h : N.val < rootSectors (512 * (k.val + 1)) + 2) :
    (getFatParams 16 (UInt32.ofNat N.val) 1 (UInt16.ofNat (512 * (k.val + 1)))).any (fun ft =>
      !ft.exact && (decide (TypeMatches ft.val) ==
        !decide (512 * (k.val + 1) = 512 ∧ N.val = 32))) = true := by
  revert k N
  decide

theorem getFatParams_of_tiny (clusterSize : UInt32) (h : SectorSizeOk sectorSize.toNat)
    (hN : numSectors.toNat < rootSectors sectorSize.toNat + 2) (extra : Nat) :
    ∃ ft, getFatParams (16 + extra) numSectors clusterSize sectorSize = some ft ∧
      ft.exact = false ∧
      (TypeMatches ft.val ↔ ¬ (sectorSize.toNat = 512 ∧ numSectors.toNat = 32)) := by
  have hmin := h.min
  have hmax := h.max
  have hunits := h.units
  have hfew := h.rootSectors_le.2
  have hone : ∀ c, clusterSectors numSectors c sectorSize = 1 := by
    intro c
    have hbytes : numSectors.toNat * sectorSize.toNat ≤ 33 * 4096 :=
      Nat.mul_le_mul (by omega) hmax
    have hsmall : numSectors.toUInt64 * sectorSize.toUInt64 ≤ maxFatClusterSize.toUInt64 * 4 := by
      rw [UInt64.le_iff_toNat_le, UInt64.toNat_mul, UInt32.toNat_toUInt64, UInt16.toNat_toUInt64]
      show _ ≤ 1048576
      omega
    unfold clusterSectors
    simp only
    rw [if_pos hsmall]
  have hcluster : getFatParams 16 numSectors clusterSize sectorSize =
      getFatParams 16 numSectors 1 sectorSize := by
    rw [getFatParams, getFatParams, upToFat16, upToFat16, FatParams.init, FatParams.init,
      hone clusterSize, hone 1]
  have hk : 512 * (sectorSize.toNat / 512 - 1 + 1) = sectorSize.toNat := by omega
  have hall := getFatParams_tiny ⟨sectorSize.toNat / 512 - 1, by omega⟩ ⟨numSectors.toNat, by omega⟩
    (by simp only [hk]; exact hN)
  simp only [hk, UInt32.ofNat_toNat, UInt16.ofNat_toNat] at hall
  rw [← hcluster] at hall
  obtain ⟨ft, hft, hprops⟩ := (Option.any_eq_true _ _).mp hall
  rw [Bool.and_eq_true, Bool.not_eq_true', beq_iff_eq] at hprops
  refine ⟨ft, getFatParams_add extra hft, hprops.1, ?_⟩
  have htype := hprops.2
  rw [Bool.eq_iff_iff, decide_eq_true_eq, Bool.not_eq_true', decide_eq_false_iff_not] at htype
  exact htype

/-! ### Whether it fits -/

theorem narrow_fits_iff {ft : FatParams}
    (hft : FatParams.init numSectors clusterSize sectorSize = ft) (h : ft.Started)
    (hroot : rootSectors ft.sectorSize.toNat + 2 ≤ ft.numSectors.toNat) {area n : Nat}
    (harea : ft.numSectors.toNat - rootSectors ft.sectorSize.toNat - 2 = area)
    (hn : area / ft.clusterSize.toNat = n) (hnarrow : n < 65525) (fuel : Nat) :
    ∃ out, getFatParams fuel numSectors clusterSize sectorSize = some out ∧
      ((out.exact = true ∧ out.val.Fits) ↔
        AreaOk (if n < 4085 then 12 else 16) area ft.clusterSize.toNat ft.sectorSize.toNat) := by
  obtain ⟨pre, hpre, hexact, hsame, hsized, htotal⟩ :=
    getFatParams_narrow hft h hroot harea hn hnarrow fuel
  have hlen := fatSectors_le h.sectorOk (if n < 4085 then 12 else 16) n
  have hlength := hsized.fatLength
  rw [hsame.clusterSize, hsame.sectorSize, hn] at hlength
  have hiff := finish_iff (h.of_same hsame) hsized
    (by rw [hlength]; split at hlen <;> split <;> omega) (by rw [hsame.numSectors]; exact htotal)
  rw [hsame.clusterSize, hsame.sectorSize] at hiff
  refine ⟨pre >>= finish, hpre, ?_⟩
  rw [Unsigned.exact_bind, hexact, Bool.true_and, Unsigned.val_bind, hiff]

/-- A round that did not wrap has a table of the right length. -/
theorem sized_of_roundAt {ft out : FatParams} {r : Nat} (h : ft.Started)
    (hround : ft.RoundAt r out) (hfat : out.sizeFat = 32)
    (hsmall : 4 * ((ft.numSectors.toNat - r) / ft.clusterSize.toNat) + ft.sectorSize.toNat <
      2 ^ 32) : out.Sized 32 (ft.numSectors.toNat - r) := by
  have hmin := h.sectorOk.min
  refine ⟨?_, ?_, ?_⟩
  · rw [hfat]
    rfl
  · rw [hround.same.clusterSize]
    exact hround.clusterCount
  · rw [hround.same.clusterSize, hround.same.sectorSize, hround.fatLength, fatSectors]
    generalize (ft.numSectors.toNat - r) / ft.clusterSize.toNat = n at hsmall ⊢
    have hbytes : (32 * n + 7) / 8 = 4 * n := by omega
    have hmod : (4 * n + ft.sectorSize.toNat + (2 ^ 32 - 1)) % 2 ^ 32 =
        4 * n + ft.sectorSize.toNat - 1 := by omega
    rw [hbytes, hmod]

theorem wide_fits_iff {ft : FatParams}
    (hft : FatParams.init numSectors clusterSize sectorSize = ft) (h : ft.Started)
    (hroot : rootSectors ft.sectorSize.toNat + 2 ≤ ft.numSectors.toNat) {area n r : Nat}
    (harea : ft.numSectors.toNat - rootSectors ft.sectorSize.toNat - 2 = area)
    (hn : area / ft.clusterSize.toNat = n) (hwide : 65525 ≤ n)
    (hr : alignedReserved ft.numSectors.toNat ft.clusterSize.toNat ft.sectorSize.toNat = r)
    (extra : Nat) :
    ∃ out, getFatParams (16 + extra) numSectors clusterSize sectorSize = some out ∧
      ((out.exact = true ∧ out.val.Fits) ↔
        4 * ((ft.numSectors.toNat - 32) / ft.clusterSize.toNat) + ft.sectorSize.toNat < 2 ^ 32 ∧
          AreaOk 32 (ft.numSectors.toNat - r) ft.clusterSize.toNat ft.sectorSize.toNat) := by
  have hmin := h.sectorOk.min
  obtain ⟨hlarge, hlow, hhigh, -, -⟩ := alignedReserved_wide h harea hn hwide hr
  obtain ⟨pre, hpre, hround, hfat, hexactAt, hexact⟩ :=
    getFatParams_wide hft h hroot harea hn hwide hr extra
  refine ⟨pre >>= finish, hpre, ?_⟩
  rw [Unsigned.exact_bind, Unsigned.val_bind, Bool.and_eq_true]
  by_cases hsmall : 4 * ((ft.numSectors.toNat - 32) / ft.clusterSize.toNat) +
      ft.sectorSize.toNat < 2 ^ 32
  · have hbelow : ∀ j, 32 ≤ j → j ≤ r → 4 * ((ft.numSectors.toNat - j) / ft.clusterSize.toNat) +
        ft.sectorSize.toNat < 2 ^ 32 := by
      intro j hj hjr
      have hle := (clusters_between h.cluster_pos hj (N := ft.numSectors.toNat) (by omega)).1
      omega
    have hfew : n < 2 ^ 30 := by
      have hle := clusters_le h harea hn (k := 32) (by omega) (by omega)
      omega
    have hall := hexact hfew (fun j hj hjr => by
      have hlt := hbelow j hj hjr
      rw [FatParams.ExactAt, Nat.mod_eq_of_lt hlt]
      omega)
    have hsized := sized_of_roundAt h hround hfat (hbelow r hlow (Nat.le_refl r))
    have hlength : 2 * pre.val.fatLength.toNat < 2 ^ 32 := by
      have hlen := fatSectors_le h.sectorOk 32
        ((ft.numSectors.toNat - r) / ft.clusterSize.toNat)
      have hlt := hbelow r hlow (Nat.le_refl r)
      rw [hsized.fatLength, hround.same.clusterSize, hround.same.sectorSize]
      omega
    have hiff := finish_iff (h.of_same hround.same) hsized hlength (by
      rw [hround.reserved, rootDirSectors, if_pos hfat, hround.same.numSectors]
      omega)
    rw [hround.same.clusterSize, hround.same.sectorSize] at hiff
    rw [hall, and_iff_right rfl, hiff, and_iff_right hsmall]
  · constructor
    · rintro ⟨⟨hpreExact, hfinish⟩, hfits⟩
      have hwrap := wrapped_of_exact h (Nat.le_of_not_lt hsmall) hlow (by omega)
        (hexactAt hpreExact)
      exact absurd hfits (not_fits_of_wrapped h hround hfat hwrap hfinish)
    · rintro ⟨hlt, -⟩
      exact absurd hlt hsmall

/-- **When the geometry is right**, for every number of sectors and size of a cluster. -/
theorem getFatParams_fits_iff (numSectors : UInt32) (h : SectorSizeOk sectorSize.toNat)
    (hcluster : clusterSize.toNat * sectorSize.toNat < 2 ^ 32) (extra : Nat) :
    ∃ ft, getFatParams (16 + extra) numSectors clusterSize sectorSize = some ft ∧
      ((ft.exact = true ∧ ft.val.Fits) ↔ GeometryOk numSectors.toNat
        (clusterSectors numSectors clusterSize sectorSize).toNat sectorSize.toNat) := by
  unfold GeometryOk
  by_cases hroot : rootSectors sectorSize.toNat + 2 ≤ numSectors.toNat
  · have hstart := init_started numSectors h hcluster
    rw [and_iff_right hroot]
    by_cases hnarrow : (numSectors.toNat - rootSectors sectorSize.toNat - 2) /
        (clusterSectors numSectors clusterSize sectorSize).toNat < 65525
    · obtain ⟨ft, hft, hiff⟩ := narrow_fits_iff rfl hstart hroot rfl rfl hnarrow (16 + extra)
      refine ⟨ft, hft, hiff.trans ?_⟩
      rw [if_pos hnarrow]
      show AreaOk (if (numSectors.toNat - rootSectors sectorSize.toNat - 2) /
        (clusterSectors numSectors clusterSize sectorSize).toNat < 4085 then 12 else 16) _ _ _ ↔ _
      split
      · exact Iff.rfl
      · exact Iff.rfl
    · obtain ⟨ft, hft, hiff⟩ :=
        wide_fits_iff rfl hstart hroot rfl rfl (Nat.le_of_not_lt hnarrow) rfl extra
      refine ⟨ft, hft, hiff.trans ?_⟩
      rw [if_neg (by omega), if_neg hnarrow]
      exact Iff.rfl
  · obtain ⟨ft, hft, hexact, -⟩ := getFatParams_of_tiny clusterSize h
      (Nat.lt_of_not_le hroot) extra
    refine ⟨ft, hft, ?_⟩
    rw [hexact]
    exact ⟨fun h => absurd h.1 (by decide), fun h => absurd h.1 hroot⟩

/-! ### The type -/

theorem narrow_type_iff {ft : FatParams}
    (hft : FatParams.init numSectors clusterSize sectorSize = ft) (h : ft.Started)
    (hroot : rootSectors ft.sectorSize.toNat + 2 ≤ ft.numSectors.toNat) {area n : Nat}
    (harea : ft.numSectors.toNat - rootSectors ft.sectorSize.toNat - 2 = area)
    (hn : area / ft.clusterSize.toNat = n) (hnarrow : n < 65525) (fuel : Nat) :
    ∃ out, getFatParams fuel numSectors clusterSize sectorSize = some out ∧
      (TypeMatches out.val ↔
        if n < 4085 then
          2 * fatSectors 12 n ft.sectorSize.toNat / ft.clusterSize.toNat ≤ n
        else 4085 + 2 * fatSectors 16 n ft.sectorSize.toNat / ft.clusterSize.toNat ≤ n) := by
  obtain ⟨pre, hpre, -, hsame, hsized, -⟩ := getFatParams_narrow hft h hroot harea hn hnarrow fuel
  have hlen := fatSectors_le h.sectorOk (if n < 4085 then 12 else 16) n
  have hlength := hsized.fatLength
  have hcount := hsized.clusterCount
  rw [hsame.clusterSize, hsame.sectorSize, hn] at hlength
  rw [hsame.clusterSize, hn] at hcount
  obtain ⟨-, hfinal⟩ := finish_count (h.of_same hsame)
    (by rw [hlength]; split at hlen <;> split <;> omega)
  obtain ⟨-, -, hfat, -, -⟩ := finish_same pre.val
  refine ⟨pre >>= finish, hpre, ?_⟩
  rw [hcount, hlength, hsame.clusterSize] at hfinal
  rw [Unsigned.val_bind, TypeMatches, hfat, hsized.sizeFat, hfinal]
  have htables := Nat.div_le_self
    (2 * fatSectors (if n < 4085 then 12 else 16) n ft.sectorSize.toNat) ft.clusterSize.toNat
  by_cases hfew : n < 4085
  · simp only [if_pos hfew] at hlen htables ⊢
    rw [fatType_eq_twelve]
    generalize 2 * fatSectors 12 n ft.sectorSize.toNat / ft.clusterSize.toNat = tables at *
    omega
  · simp only [if_neg hfew] at hlen htables ⊢
    rw [fatType_eq_sixteen]
    generalize 2 * fatSectors 16 n ft.sectorSize.toNat / ft.clusterSize.toNat = tables at *
    omega

theorem wide_type_iff {ft : FatParams}
    (hft : FatParams.init numSectors clusterSize sectorSize = ft) (h : ft.Started)
    (hroot : rootSectors ft.sectorSize.toNat + 2 ≤ ft.numSectors.toNat) {area n r : Nat}
    (harea : ft.numSectors.toNat - rootSectors ft.sectorSize.toNat - 2 = area)
    (hn : area / ft.clusterSize.toNat = n) (hwide : 65525 ≤ n)
    (hr : alignedReserved ft.numSectors.toNat ft.clusterSize.toNat ft.sectorSize.toNat = r)
    (extra : Nat) :
    ∃ out, getFatParams (16 + extra) numSectors clusterSize sectorSize = some out ∧
      (TypeMatches out.val ↔
        65525 + 2 * fatSectors 32 ((ft.numSectors.toNat - r) / ft.clusterSize.toNat)
            ft.sectorSize.toNat / ft.clusterSize.toNat ≤
          (ft.numSectors.toNat - r) / ft.clusterSize.toNat) := by
  have hmin := h.sectorOk.min
  have hmax := h.sectorOk.max
  obtain ⟨hlarge, hlow, hhigh, -, -⟩ := alignedReserved_wide h harea hn hwide hr
  obtain ⟨pre, hpre, hround, hfat, -, -⟩ := getFatParams_wide hft h hroot harea hn hwide hr extra
  have hcluster := clusters_le h harea hn (k := r) (by omega) (by omega)
  have hcountLt := pre.val.clusterCount.toNat_lt
  have hcount := hround.clusterCount
  have hlength := hround.fatLength
  have hlen := fatSectors_le h.sectorOk 32 ((ft.numSectors.toNat - r) / ft.clusterSize.toNat)
  -- a table is as long as it should be, or so short that it takes few clusters
  have hcases : pre.val.fatLength.toNat =
        fatSectors 32 ((ft.numSectors.toNat - r) / ft.clusterSize.toNat) ft.sectorSize.toNat ∨
      (2 ^ 32 ≤ 4 * ((ft.numSectors.toNat - r) / ft.clusterSize.toNat) + ft.sectorSize.toNat ∧
        pre.val.fatLength.toNat ≤ 2 ^ 23) := by
    by_cases hsmall : 4 * ((ft.numSectors.toNat - r) / ft.clusterSize.toNat) +
        ft.sectorSize.toNat < 2 ^ 32
    · have hsized := sized_of_roundAt h hround hfat hsmall
      have hexact := hsized.fatLength
      rw [hround.same.clusterSize, hround.same.sectorSize] at hexact
      exact .inl hexact
    · refine .inr ⟨Nat.le_of_not_lt hsmall, ?_⟩
      rw [hlength]
      refine Nat.div_le_of_le_mul ?_
      have hmul := Nat.mul_le_mul_right (2 ^ 23) hmin
      omega
  have hshort : 2 * pre.val.fatLength.toNat < 2 ^ 32 := by omega
  obtain ⟨-, hfinal⟩ := finish_count (h.of_same hround.same) hshort
  obtain ⟨-, -, hfatSame, -, -⟩ := finish_same pre.val
  refine ⟨pre >>= finish, hpre, ?_⟩
  have h32 : (32 : UInt32).toNat = 32 := rfl
  rw [hround.same.clusterSize] at hfinal
  rw [Unsigned.val_bind, TypeMatches, hfatSame, hfat, h32, fatType_eq_thirtyTwo, hfinal, hcount]
  have htables := Nat.div_le_self (2 * pre.val.fatLength.toNat) ft.clusterSize.toNat
  have hformula := Nat.div_le_self
    (2 * fatSectors 32 ((ft.numSectors.toNat - r) / ft.clusterSize.toNat) ft.sectorSize.toNat)
    ft.clusterSize.toNat
  rw [hcount] at hcountLt
  generalize (ft.numSectors.toNat - r) / ft.clusterSize.toNat = clusters at *
  rcases hcases with hexact | ⟨hwrap, hfew⟩
  · rw [hexact] at htables ⊢
    generalize 2 * fatSectors 32 clusters ft.sectorSize.toNat / ft.clusterSize.toNat = tables at *
    omega
  · generalize 2 * fatSectors 32 clusters ft.sectorSize.toNat / ft.clusterSize.toNat = tables at *
    generalize 2 * pre.val.fatLength.toNat / ft.clusterSize.toNat = taken at *
    omega

/-- **When the type is right**, for every number of sectors and size of a cluster. -/
theorem getFatParams_type_iff (numSectors : UInt32) (h : SectorSizeOk sectorSize.toNat)
    (hcluster : clusterSize.toNat * sectorSize.toNat < 2 ^ 32) (extra : Nat) :
    ∃ ft, getFatParams (16 + extra) numSectors clusterSize sectorSize = some ft ∧
      (TypeMatches ft.val ↔ TypeOk numSectors.toNat
        (clusterSectors numSectors clusterSize sectorSize).toNat sectorSize.toNat) := by
  unfold TypeOk
  by_cases hroot : rootSectors sectorSize.toNat + 2 ≤ numSectors.toNat
  · have hstart := init_started numSectors h hcluster
    rw [if_neg (Nat.not_lt.mpr hroot)]
    by_cases hnarrow : (numSectors.toNat - rootSectors sectorSize.toNat - 2) /
        (clusterSectors numSectors clusterSize sectorSize).toNat < 65525
    · obtain ⟨ft, hft, hiff⟩ := narrow_type_iff rfl hstart hroot rfl rfl hnarrow (16 + extra)
      refine ⟨ft, hft, hiff.trans ?_⟩
      rw [if_pos hnarrow]
      exact Iff.rfl
    · obtain ⟨ft, hft, hiff⟩ :=
        wide_type_iff rfl hstart hroot rfl rfl (Nat.le_of_not_lt hnarrow) rfl extra
      refine ⟨ft, hft, hiff.trans ?_⟩
      rw [if_neg (by omega), if_neg hnarrow]
      exact Iff.rfl
  · obtain ⟨ft, hft, -, hiff⟩ := getFatParams_of_tiny clusterSize h
      (Nat.lt_of_not_le hroot) extra
    exact ⟨ft, hft, hiff.trans (by rw [if_pos (Nat.lt_of_not_le hroot)])⟩

end

/-! ### The formatter -/

/-- The sectors in a cluster of a volume that is formatted. -/
def formatCluster (deviceSize : UInt64) (clusterSize sectorSize : UInt32) : Nat :=
  (clusterSectors (deviceSize / sectorSize.toUInt64).toUInt32 (clusterSize / sectorSize)
    sectorSize.toUInt16).toNat

section
variable {deviceSize : UInt64} {clusterSize sectorSize : UInt32}

theorem toNat_sectorSize (hsector : SectorSizeOk sectorSize.toNat) :
    sectorSize.toUInt16.toNat = sectorSize.toNat := by
  have hmax := hsector.max
  rw [UInt32.toNat_toUInt16]
  exact Nat.mod_eq_of_lt (by omega)

theorem toNat_numSectors (hdevice : deviceSize.toNat / sectorSize.toNat < 2 ^ 32) :
    (deviceSize / sectorSize.toUInt64).toUInt32.toNat =
      deviceSize.toNat / sectorSize.toNat := by
  rw [UInt64.toNat_toUInt32, UInt64.toNat_div, UInt32.toNat_toUInt64]
  exact Nat.mod_eq_of_lt hdevice

/-- What `GetFatParams` is given: a device that is not too large for it, cut into sectors, and
    clusters of whole sectors. -/
theorem formatParams_eq (hsector : SectorSizeOk sectorSize.toNat)
    (hdevice : deviceSize.toNat / sectorSize.toNat < 2 ^ 32) (fuel : Nat) :
    formatParams fuel deviceSize clusterSize sectorSize =
      .ok (getFatParams fuel (deviceSize / sectorSize.toUInt64).toUInt32
        (clusterSize / sectorSize) sectorSize.toUInt16) := by
  have h16 := toNat_sectorSize hsector
  have h64 : sectorSize.toUInt16.toUInt64 = sectorSize.toUInt64 :=
    UInt64.toNat_inj.mp (by rw [UInt16.toNat_toUInt64, UInt32.toNat_toUInt64, h16])
  have h32 : sectorSize.toUInt16.toUInt32 = sectorSize :=
    UInt32.toNat_inj.mp (by rw [UInt16.toNat_toUInt32, h16])
  have hlimit : ((0xffffFFFF : UInt64)).toNat = 2 ^ 32 - 1 := rfl
  rw [formatParams, h64, h32, if_neg]
  rw [UInt64.lt_iff_toNat_lt, UInt64.toNat_div, UInt32.toNat_toUInt64, hlimit]
  omega

/-- A cluster of whole sectors is no larger than the one that was asked for. -/
theorem cluster_bytes_lt (clusterSize : UInt32) (hsector : SectorSizeOk sectorSize.toNat) :
    (clusterSize / sectorSize).toNat * sectorSize.toUInt16.toNat < 2 ^ 32 := by
  rw [UInt32.toNat_div, toNat_sectorSize hsector]
  exact Nat.lt_of_le_of_lt (Nat.div_mul_le_self _ _) clusterSize.toNat_lt

end

/-! ### Where the alignment loop ends -/

/-- The data area starts at a multiple of 4 KB. -/
def DataAligned (ft : FatParams) : Prop :=
  (ft.reserved.toNat * ft.sectorSize.toNat +
    ft.fatLength.toNat * ft.fats.toNat * ft.sectorSize.toNat) % 4096 = 0

instance (ft : FatParams) : Decidable (DataAligned ft) := inferInstanceAs (Decidable (_ = _))

/-- The condition of the loop wraps, which changes nothing in multiples of 4 KB. -/
theorem dataAligned_of_exit {ft : FatParams} (hss : ft.sectorSize = sectorSizeLegacy)
    (h : ft.unaligned = false) : DataAligned ft := by
  have h512 : ft.sectorSize.toNat = 512 := by rw [hss]; rfl
  have h4096 : maxVolumeSectorSize.toNat = 4096 := rfl
  unfold FatParams.unaligned at h
  rw [decide_eq_true hss, Bool.true_and, decide_eq_false_iff_not, not_not, ← UInt32.toNat_inj,
    UInt32.toNat_mod, h4096, UInt32.toNat_add, UInt32.toNat_mul, UInt32.toNat_mul,
    UInt32.toNat_mul, UInt16.toNat_toUInt32, UInt16.toNat_toUInt32, h512] at h
  unfold DataAligned
  rw [h512]
  generalize ft.fatLength.toNat * ft.fats.toNat = tables at *
  have hzero : (0 : UInt32).toNat = 0 := rfl
  omega

/-- Every round takes one more reserved sector, and the loop is left when its condition fails. -/
theorem fat32Loop_reserved (fuel : Nat) : ∀ {ft : FatParams} {out : Unsigned FatParams},
    fat32Loop fuel ft = some out → ft.reserved.toNat + fuel < 2 ^ 16 →
      ft.reserved.toNat < out.val.reserved.toNat ∧
        out.val.reserved.toNat ≤ ft.reserved.toNat + fuel ∧ out.val.unaligned = false := by
  induction fuel with
  | zero =>
    intro ft out h
    exact absurd h (by simp [fat32Loop])
  | succ fuel ih =>
    intro ft out h hlt
    have hreserved : ft.fat32Round.val.reserved.toNat = ft.reserved.toNat + 1 := by
      show (ft.reserved + 1).toNat = ft.reserved.toNat + 1
      rw [UInt16.toNat_add]
      exact Nat.mod_eq_of_lt (by show ft.reserved.toNat + 1 < 2 ^ 16; omega)
    rw [fat32Loop] at h
    by_cases hagain : ft.fat32Round.val.unaligned = true
    · simp only [hagain, if_true] at h
      obtain ⟨rest, hrest, hout⟩ := Option.map_eq_some_iff.mp h
      obtain ⟨hlow, hhigh, hexit⟩ := ih hrest (by omega)
      rw [← hout, Unsigned.val_bind]
      exact ⟨by omega, by omega, hexit⟩
    · simp only [hagain] at h
      have hout : ft.fat32Round = out := by simpa using h
      rw [← hout]
      exact ⟨by omega, by omega, by simpa using hagain⟩

/-- Only the loop writes the width 32. -/
theorem upToFat16_narrow (numSectors clusterSize : UInt32) (sectorSize : UInt16) :
    (upToFat16 numSectors clusterSize sectorSize).val.sizeFat ≠ 32 := by
  unfold upToFat16
  simp only
  split
  · rw [Unsigned.val_bind]
    show (16 : UInt32) ≠ 32
    decide
  · show (12 : UInt32) ≠ 32
    decide

theorem getFatParams_loop {numSectors clusterSize : UInt32} {sectorSize : UInt16} {fuel : Nat}
    {ft : Unsigned FatParams} (h : getFatParams fuel numSectors clusterSize sectorSize = some ft)
    (hfuel : 31 + fuel < 2 ^ 16) (hfat : ft.val.sizeFat = 32) :
    32 ≤ ft.val.reserved.toNat ∧ ft.val.reserved.toNat ≤ 31 + fuel ∧
      ft.val.unaligned = false := by
  unfold getFatParams at h
  simp only at h
  obtain ⟨pre, hpre, hft⟩ := Option.map_eq_some_iff.mp h
  obtain ⟨hsame, hreserved, hsizeFat, hfatLength, -⟩ := finish_same pre.val
  rw [← hft, Unsigned.val_bind] at hfat ⊢
  have hunaligned : pre.val.finish.val.unaligned = pre.val.unaligned := by
    rw [FatParams.unaligned, FatParams.unaligned, hreserved, hfatLength, hsame.sectorSize,
      hsame.fats]
  rw [hreserved, hunaligned]
  rw [hsizeFat] at hfat
  by_cases hwide : 65525 ≤ (upToFat16 numSectors clusterSize sectorSize).val.clusterCount
  · rw [if_pos hwide] at hpre
    obtain ⟨rest, hrest, hbind⟩ := Option.map_eq_some_iff.mp hpre
    rw [← hbind, Unsigned.val_bind]
    exact fat32Loop_reserved fuel hrest hfuel
  · rw [if_neg hwide] at hpre
    have heq : upToFat16 numSectors clusterSize sectorSize = pre := by simpa using hpre
    rw [← heq] at hfat
    exact absurd hfat (upToFat16_narrow numSectors clusterSize sectorSize)

theorem fat32Loop_sectorSize (fuel : Nat) : ∀ {ft : FatParams} {out : Unsigned FatParams},
    fat32Loop fuel ft = some out → out.val.sectorSize = ft.sectorSize := by
  induction fuel with
  | zero =>
    intro ft out h
    exact absurd h (by simp [fat32Loop])
  | succ fuel ih =>
    intro ft out h
    rw [fat32Loop] at h
    by_cases hagain : ft.fat32Round.val.unaligned = true
    · simp only [hagain, if_true] at h
      obtain ⟨rest, hrest, hout⟩ := Option.map_eq_some_iff.mp h
      have hround : ft.fat32Round.val.sectorSize = ft.sectorSize := rfl
      rw [← hout, Unsigned.val_bind, ih hrest, hround]
    · simp only [hagain] at h
      have hout : ft.fat32Round = out := by simpa using h
      rw [← hout]
      rfl

theorem upToFat16_sectorSize (numSectors clusterSize : UInt32) (sectorSize : UInt16) :
    (upToFat16 numSectors clusterSize sectorSize).val.sectorSize = sectorSize := by
  unfold upToFat16
  simp only
  split
  · rfl
  · rfl

theorem getFatParams_sectorSize {numSectors clusterSize : UInt32} {sectorSize : UInt16} {fuel : Nat}
    {ft : Unsigned FatParams} (h : getFatParams fuel numSectors clusterSize sectorSize = some ft) :
    ft.val.sectorSize = sectorSize := by
  unfold getFatParams at h
  simp only at h
  obtain ⟨pre, hpre, hft⟩ := Option.map_eq_some_iff.mp h
  rw [← hft, Unsigned.val_bind, (finish_same pre.val).1.sectorSize]
  by_cases hwide : 65525 ≤ (upToFat16 numSectors clusterSize sectorSize).val.clusterCount
  · rw [if_pos hwide] at hpre
    obtain ⟨rest, hrest, hbind⟩ := Option.map_eq_some_iff.mp hpre
    rw [← hbind, Unsigned.val_bind, fat32Loop_sectorSize fuel hrest]
    exact upToFat16_sectorSize numSectors clusterSize sectorSize
  · rw [if_neg hwide] at hpre
    have heq : upToFat16 numSectors clusterSize sectorSize = pre := by simpa using hpre
    rw [← heq]
    exact upToFat16_sectorSize numSectors clusterSize sectorSize

/-- **The loop ends** after sixteen rounds at most: the reserved sectors are 47 at most, far from the
    end of their field, the condition of the loop is false, and where sectors have 512 bytes the data
    area starts at a multiple of 4 KB. -/
theorem fat32Loop_ends (deviceSize : UInt64) (clusterSize sectorSize : UInt32)
    (hsector : SectorSizeOk sectorSize.toNat)
    (hdevice : deviceSize.toNat / sectorSize.toNat < 2 ^ 32) :
    ∃ ft, (∀ extra, formatParams (16 + extra) deviceSize clusterSize sectorSize = .ok (some ft)) ∧
      ft.val.sectorSize.toNat = sectorSize.toNat ∧
      (ft.val.sizeFat = 32 →
        32 ≤ ft.val.reserved.toNat ∧ ft.val.reserved.toNat ≤ 47 ∧ ft.val.unaligned = false ∧
          (sectorSize.toNat = 512 → DataAligned ft.val)) := by
  have h16 := toNat_sectorSize hsector
  obtain ⟨ft, hft, -⟩ := getFatParams_type_iff
    (deviceSize / sectorSize.toUInt64).toUInt32 (h16.symm ▸ hsector)
    (cluster_bytes_lt clusterSize hsector) 0
  have hss : ft.val.sectorSize = sectorSize.toUInt16 := getFatParams_sectorSize hft
  refine ⟨ft, ?_, by rw [hss, h16], ?_⟩
  · intro extra
    rw [formatParams_eq hsector hdevice, getFatParams_add extra hft]
  · intro hfat
    obtain ⟨hlow, hhigh, hexit⟩ := getFatParams_loop hft (by decide) hfat
    refine ⟨hlow, hhigh, hexit, fun h512 => dataAligned_of_exit ?_ hexit⟩
    rw [hss]
    apply UInt16.toNat_inj.mp
    rw [h16, h512]
    rfl

/-- A volume of 20 GB in clusters of the default size. -/
theorem fat32Loop_ends_demo :
    ∃ ft, (∀ extra, formatParams (16 + extra) 21474864128 0 512 = .ok (some ft)) ∧
      ft.val.sectorSize.toNat = 512 ∧
      (ft.val.sizeFat = 32 →
        32 ≤ ft.val.reserved.toNat ∧ ft.val.reserved.toNat ≤ 47 ∧ ft.val.unaligned = false ∧
          ((512 : UInt32).toNat = 512 → DataAligned ft.val)) :=
  fat32Loop_ends 21474864128 0 512 ⟨by decide, by decide, by decide⟩ (by decide)

/-- **When the file system fits**: the formatter comes out with a geometry; in it no subtraction
    went below zero, the file system fits into the volume and its tables have room for every cluster
    if and only if `GeometryOk`. -/
theorem fatGeometry_iff (deviceSize : UInt64) (clusterSize sectorSize : UInt32) (extra : Nat)
    (hsector : SectorSizeOk sectorSize.toNat)
    (hdevice : deviceSize.toNat / sectorSize.toNat < 2 ^ 32) :
    ∃ ft, formatParams (16 + extra) deviceSize clusterSize sectorSize = .ok (some ft) ∧
      ((ft.exact = true ∧ ft.val.Fits) ↔
        GeometryOk (deviceSize.toNat / sectorSize.toNat)
          (formatCluster deviceSize clusterSize sectorSize) sectorSize.toNat) := by
  have h16 := toNat_sectorSize hsector
  obtain ⟨ft, hft, hiff⟩ := getFatParams_fits_iff
    (deviceSize / sectorSize.toUInt64).toUInt32 (h16.symm ▸ hsector)
    (cluster_bytes_lt clusterSize hsector) extra
  rw [toNat_numSectors hdevice, h16] at hiff
  exact ⟨ft, by rw [formatParams_eq hsector hdevice, hft], hiff⟩

/-- A FAT16 volume of 64 MB. -/
theorem fatGeometry_iff_demo :
    ∃ ft, formatParams 16 67108864 0 512 = .ok (some ft) ∧
      ((ft.exact = true ∧ ft.val.Fits) ↔ GeometryOk 131072 2 512) :=
  fatGeometry_iff 67108864 0 512 0 ⟨by decide, by decide, by decide⟩ (by decide)

/-- A volume of 20 GB in clusters of the default size: the last cluster is behind its end. -/
theorem fatGeometry_overlaps :
    ∃ ft, formatParams 16 21474864128 0 512 = .ok (some ft) ∧ ft.exact = true ∧ ¬ ft.val.Fits :=
  ⟨⟨{ numSectors := 41943094, clusterCount := 2618881, sizeRootDir := 8192, sizeFat := 32, fats := 2,
      media := 0xf8, clusterSize := 16, fatLength := 20481, dirEntries := 512, sectorSize := 512,
      hidden := 0, reserved := 38, sectors := 0, totalSect := 41943094, heads := 1,
      secsTrack := 1 }, true⟩, by decide, rfl,
    fun h => absurd h.sectors (by decide)⟩

/-- **When the type is right**: the formatter writes the type that is inferred from the number of
    clusters if and only if `TypeOk`. -/
theorem fatType_iff (deviceSize : UInt64) (clusterSize sectorSize : UInt32) (extra : Nat)
    (hsector : SectorSizeOk sectorSize.toNat)
    (hdevice : deviceSize.toNat / sectorSize.toNat < 2 ^ 32) :
    ∃ ft, formatParams (16 + extra) deviceSize clusterSize sectorSize = .ok (some ft) ∧
      (TypeMatches ft.val ↔
        TypeOk (deviceSize.toNat / sectorSize.toNat)
          (formatCluster deviceSize clusterSize sectorSize) sectorSize.toNat) := by
  have h16 := toNat_sectorSize hsector
  obtain ⟨ft, hft, hiff⟩ := getFatParams_type_iff
    (deviceSize / sectorSize.toUInt64).toUInt32 (h16.symm ▸ hsector)
    (cluster_bytes_lt clusterSize hsector) extra
  rw [toNat_numSectors hdevice, h16] at hiff
  exact ⟨ft, by rw [formatParams_eq hsector hdevice, hft], hiff⟩

theorem fatType_iff_demo :
    ∃ ft, formatParams 16 67108864 0 512 = .ok (some ft) ∧
      (TypeMatches ft.val ↔ TypeOk 131072 2 512) :=
  fatType_iff 67108864 0 512 0 ⟨by decide, by decide, by decide⟩ (by decide)

/-- A volume of 4 MB: its tables bring a FAT16 file system down to the clusters of a FAT12 one. -/
theorem fatType_wrong :
    ∃ ft, formatParams 16 4200448 0 512 = .ok (some ft) ∧ ft.val.sizeFat = 16 ∧
      ft.val.clusterCount = 4069 ∧ ¬ TypeMatches ft.val :=
  ⟨⟨{ numSectors := 8204, clusterCount := 4069, sizeRootDir := 16384, sizeFat := 16, fats := 2,
      media := 0xf8, clusterSize := 2, fatLength := 16, dirEntries := 512, sectorSize := 512,
      hidden := 0, reserved := 2, sectors := 8204, totalSect := 0, heads := 1,
      secsTrack := 1 }, true⟩, by decide, rfl, rfl, by decide⟩

end FatFormatter

end VeraCrypt
