import VeraCrypt.Lib.Unsigned
import VeraCrypt.Platform.File

/-!
# The FAT formatter (`Core/FatFormatter.cpp`)

`GetFatParams` sizes a FAT file system: it takes FAT12 for granted, goes over to FAT16 and FAT32 by
the number of clusters it counts on the way, and takes the clusters that the tables cover off the
count at the end. Products and sums are `uint32` and wrap; of the subtractions it is kept whether one
did. The loop that aligns the data area of a FAT32 file system runs on fuel.
-/

set_option autoImplicit false

namespace VeraCrypt

open Lib

/-- `fatparams`, less the name of the volume. -/
structure FatParams where
  /-- total number of sectors -/
  numSectors : UInt32
  /-- number of clusters -/
  clusterCount : UInt32
  /-- size of the root directory in bytes -/
  sizeRootDir : UInt32
  /-- size of FAT -/
  sizeFat : UInt32
  fats : UInt32
  media : UInt32
  clusterSize : UInt32
  fatLength : UInt32
  dirEntries : UInt16
  sectorSize : UInt16
  hidden : UInt32
  reserved : UInt16
  sectors : UInt16
  totalSect : UInt32
  heads : UInt16
  secsTrack : UInt16
  deriving DecidableEq

namespace FatFormatter

def bytesPerMB : UInt64 := 1048576
def bytesPerGB : UInt64 := 1073741824
def bytesPerTB : UInt64 := 1099511627776

/-- `TC_MAX_FAT_CLUSTER_SIZE` -/
def maxFatClusterSize : UInt32 := 262144

/-- `TC_SECTOR_SIZE_LEGACY` -/
def sectorSizeLegacy : UInt16 := 512

/-- `TC_MAX_VOLUME_SECTOR_SIZE` -/
def maxVolumeSectorSize : UInt32 := 4096

/-- The 'Default' cluster size in bytes. -/
def defaultClusterSize (volumeSize : UInt64) : UInt32 :=
  if 2 * bytesPerTB ≤ volumeSize then 256 * 1024
  else if 512 * bytesPerGB ≤ volumeSize then 128 * 1024
  else if 128 * bytesPerGB ≤ volumeSize then 64 * 1024
  else if 64 * bytesPerGB ≤ volumeSize then 32 * 1024
  else if 32 * bytesPerGB ≤ volumeSize then 16 * 1024
  else if 16 * bytesPerGB ≤ volumeSize then 8 * 1024
  else if 512 * bytesPerMB ≤ volumeSize then 4 * 1024
  else if 256 * bytesPerMB ≤ volumeSize then 2 * 1024
  else if 1 * bytesPerMB ≤ volumeSize then 1 * 1024
  else 512

/-- The default in sectors. -/
def defaultClusterSectors (volumeSize : UInt64) (sectorSize : UInt32) : UInt32 :=
  let clusterSize := defaultClusterSize volumeSize / sectorSize
  let clusterSize := if clusterSize = 0 then 1 else clusterSize
  let clusterSize :=
    if maxFatClusterSize < clusterSize * sectorSize then maxFatClusterSize / sectorSize
    else clusterSize
  if 128 < clusterSize then 128 else clusterSize

/-- `cluster_size` as `GetFatParams` settles it, in sectors; 0 asks for the default. -/
def clusterSectors (numSectors clusterSize : UInt32) (sectorSize : UInt16) : UInt32 :=
  let volumeSize := numSectors.toUInt64 * sectorSize.toUInt64
  let clusterSize :=
    if clusterSize = 0 then defaultClusterSectors volumeSize sectorSize.toUInt32 else clusterSize
  if volumeSize ≤ maxFatClusterSize.toUInt64 * 4 then 1 else clusterSize

end FatFormatter

namespace FatParams

open FatFormatter

/-- Before the type is chosen. -/
def init (numSectors clusterSize : UInt32) (sectorSize : UInt16) : FatParams where
  numSectors := numSectors
  clusterCount := 0
  sizeRootDir := 512 * 32
  sizeFat := 0
  fats := 2
  media := 0xf8
  clusterSize := clusterSectors numSectors clusterSize sectorSize
  fatLength := 0
  dirEntries := 512
  sectorSize := sectorSize
  hidden := 0
  reserved := 0
  sectors := 0
  totalSect := 0
  heads := 1
  secsTrack := 1

/-- The sectors that hold so many bytes: `(n + sector_size - 1) / sector_size`. -/
def inSectors (ft : FatParams) (n : UInt32) : Unsigned UInt32 := do
  let n ← sub32 (n + ft.sectorSize.toUInt32) 1
  pure (n / ft.sectorSize.toUInt32)

/-- `((int64) fatsecs * sector_size) / (cluster_size * sector_size)` -/
def clustersIn (ft : FatParams) (fatsecs : UInt32) : UInt32 :=
  UInt32.ofNat (fatsecs.toNat * ft.sectorSize.toNat /
    (ft.clusterSize * ft.sectorSize.toUInt32).toNat)

/-- `fatsecs` of a file system with a root directory of its own. -/
def fatsecs (ft : FatParams) : Unsigned UInt32 := do
  let rootDir ← ft.inSectors ft.sizeRootDir
  let n ← sub32 ft.numSectors rootDir
  sub32 n ft.reserved.toUInt32

def fat12 (ft : FatParams) : Unsigned FatParams := do
  let ft := { ft with sizeFat := 12, reserved := 2 }
  let fatsecs ← ft.fatsecs
  let ft := { ft with clusterCount := ft.clustersIn fatsecs }
  let fatLength ← ft.inSectors ((ft.clusterCount * 3 + 1) >>> 1)
  pure { ft with fatLength := fatLength }

def fat16 (ft : FatParams) : Unsigned FatParams := do
  let ft := { ft with sizeFat := 16, reserved := 2 }
  let fatsecs ← ft.fatsecs
  let ft := { ft with clusterCount := ft.clustersIn fatsecs }
  let fatLength ← ft.inSectors (ft.clusterCount * 2)
  pure { ft with fatLength := fatLength }

/-- One round of the loop over the reserved sectors of a FAT32 file system. -/
def fat32Round (ft : FatParams) : Unsigned FatParams := do
  let ft := { ft with reserved := ft.reserved + 1 }
  let fatsecs ← sub32 ft.numSectors ft.reserved.toUInt32
  let ft := { ft with sizeRootDir := ft.clusterSize * ft.sectorSize.toUInt32 }
  let ft := { ft with clusterCount := ft.clustersIn fatsecs }
  let fatLength ← ft.inSectors (ft.clusterCount * 4)
  pure { ft with fatLength := fatLength }

/-- The condition of the loop. -/
def unaligned (ft : FatParams) : Bool :=
  ft.sectorSize = sectorSizeLegacy &&
    (ft.reserved.toUInt32 * ft.sectorSize.toUInt32 +
      ft.fatLength * ft.fats * ft.sectorSize.toUInt32) % maxVolumeSectorSize ≠ 0

def fat32Loop : Nat → FatParams → Option (Unsigned FatParams)
  | 0, _ => none
  | fuel + 1, ft =>
    let round := ft.fat32Round
    if round.val.unaligned then (fat32Loop fuel round.val).map (fun rest => round >>= fun _ => rest)
    else some round

def fat32 (fuel : Nat) (ft : FatParams) : Option (Unsigned FatParams) :=
  fat32Loop fuel { ft with sizeFat := 32, reserved := 32 - 1 }

/-- The end of `GetFatParams`: the clusters under the tables are no data clusters. -/
def finish (ft : FatParams) : Unsigned FatParams := do
  let clusterCount ← sub32 ft.clusterCount (ft.fatLength * ft.fats / ft.clusterSize)
  let ft := { ft with clusterCount := clusterCount }
  if 65536 ≤ ft.numSectors ∨ ft.sizeFat = 32 then
    pure { ft with sectors := 0, totalSect := ft.numSectors }
  else pure { ft with sectors := ft.numSectors.toUInt16, totalSect := 0 }

end FatParams

namespace FatFormatter

/-- `GetFatParams` up to the choice of FAT32. -/
def upToFat16 (numSectors clusterSize : UInt32) (sectorSize : UInt16) : Unsigned FatParams :=
  let ft := (FatParams.init numSectors clusterSize sectorSize).fat12
  if 4085 ≤ ft.val.clusterCount then ft >>= FatParams.fat16 else ft

/-- `GetFatParams`; `none` is a loop that does not end on this fuel. -/
def getFatParams (fuel : Nat) (numSectors clusterSize : UInt32) (sectorSize : UInt16) :
    Option (Unsigned FatParams) :=
  let ft := upToFat16 numSectors clusterSize sectorSize
  let ft :=
    if 65525 ≤ ft.val.clusterCount then
      (ft.val.fat32 fuel).map (fun rest => ft >>= fun _ => rest)
    else some ft
  ft.map (fun ft => ft >>= FatParams.finish)

/-- What `FatFormatter::Format` formats a volume with. -/
def formatParams (fuel : Nat) (deviceSize : UInt64) (clusterSize sectorSize : UInt32) :
    Except Exception (Option (Unsigned FatParams)) :=
  let sectorSize := sectorSize.toUInt16
  if 0xffffFFFF < deviceSize / sectorSize.toUInt64 then .error .parameterIncorrect
  else
    .ok (getFatParams fuel (deviceSize / sectorSize.toUInt64).toUInt32
      (clusterSize / sectorSize.toUInt32) sectorSize)

end FatFormatter

end VeraCrypt
