import VeraCrypt.Lib.Region
import VeraCrypt.Lib.ConstTime
import VeraCrypt.Lib.Jobs
import VeraCrypt.Lib.Endian
import VeraCrypt.Crypto.Primitives
import VeraCrypt.Keyslot.AfSplit
import VeraCrypt.Keyslot.Wrap
import VeraCrypt.Keyslot.Store
import VeraCrypt.Keyslot.Expiry
import VeraCrypt.Keyslot.Lifetime
import VeraCrypt.Keyslot.Lockout
import VeraCrypt.Keyslot.Parallel
import VeraCrypt.Keyslot.PayloadFormat
import VeraCrypt.Volume.KeyslotParallelExecutor
import VeraCrypt.Lib.FileImage
import VeraCrypt.Platform.File
import VeraCrypt.Volume.Container
import VeraCrypt.Volume.KeyslotSession
import VeraCrypt.Volume.ProtectedOpen
import VeraCrypt.Volume.ReEncrypt
import VeraCrypt.Core.CreationGeometry
import VeraCrypt.Core.CreationSucceeds
import VeraCrypt.Core.V2Geometry
import VeraCrypt.Crypto.Adiantum
import VeraCrypt.Crypto.Hctr2
import VeraCrypt.Keyslot.Deniable
import VeraCrypt.Keyslot.HeaderBackup
import VeraCrypt.Keyslot.KeyslotAreaMac
import VeraCrypt.Lib.BchRegister
import VeraCrypt.Lib.BinaryPoly
import VeraCrypt.Lib.Interpolation
import VeraCrypt.Lib.PackedGf32
import VeraCrypt.Main.KeyslotCommand
import VeraCrypt.Main.KeyslotDuress
import VeraCrypt.Threshold.Codex32
import VeraCrypt.Threshold.ShamirSecrecy
import VeraCrypt.Threshold.ShareCodeDistance
import VeraCrypt.Volume.AtomicHeader
import VeraCrypt.Volume.DeniableWindow
import VeraCrypt.Volume.XtsDataUnits
import VeraCrypt.Common.Volumes
import VeraCrypt.Core.HeaderRewrite
import VeraCrypt.Core.HiddenVolumeSize
import VeraCrypt.Lib.InPlace
import VeraCrypt.Volume.EncryptionThreadPool
import VeraCrypt.Volume.HeaderChecksums
import VeraCrypt.Volume.HeaderInterchange
import VeraCrypt.Volume.V2Session
import VeraCrypt.Main.HiddenVolumeGuard
import VeraCrypt.Threshold.Codex32Accept
import VeraCrypt.Threshold.ShamirMac
import VeraCrypt.Volume.WorkItemLedger
import VeraCrypt.Volume.WorkItemSteps
import VeraCrypt.Common.HardwareKeyFactor
import VeraCrypt.Common.NetShare
import VeraCrypt.Common.DataUnits
import VeraCrypt.Format.HeaderUpdate
import VeraCrypt.Format.InPlace
import VeraCrypt.Format.InPlaceCrash
import VeraCrypt.Common.KeyScrub
import VeraCrypt.Keyslot.HkfOrSet
import VeraCrypt.Driver.EncryptedIoQueue
import VeraCrypt.Common.EMVCard
import VeraCrypt.Core.FatFormatter
import VeraCrypt.Core.FatGeometry
import VeraCrypt.Driver.FuseService
import VeraCrypt.Main.CommandLineInterface
import VeraCrypt.Volume.WriteConfinement
import VeraCrypt.Core.MountOptions
import VeraCrypt.Common.Xts
import VeraCrypt.Crypto.Poly1305Rfc
import VeraCrypt.Common.VcJson
import VeraCrypt.Common.Pkcs5
import VeraCrypt.Common.CommandAPDU
import VeraCrypt.Common.Xml
import VeraCrypt.Common.HkfMixV2
import VeraCrypt.Keyslot.StructuralCheck
import VeraCrypt.Boot.DecryptDrive
import VeraCrypt.Boot.BootEncryptedIo
import VeraCrypt.Driver.MisalignedRead
import VeraCrypt.Format.FastVolumeHeaderUpdate
import VeraCrypt.Core.MountVolumeNative
import VeraCrypt.Boot.IntFilter
import VeraCrypt.Common.Balloon
import VeraCrypt.Crypto.Polyval
import VeraCrypt.Crypto.Sha3
import VeraCrypt.Lib.Replace
import VeraCrypt.Lib.SortedMap
import VeraCrypt.Main.Xml
import VeraCrypt.Lib.Watch
import VeraCrypt.Volume.V2Remount
