import OtgMaster.Ext4.JournalRefusal
import OtgMaster.Ext4.DirSafe
import OtgMaster.Provider.Writers
import OtgMaster.Block.CachedRuns
import OtgMaster.Block.CachedCalls
import OtgMaster.Veracrypt.NativeRuns
import OtgMaster.Veracrypt.KeyfileStreams
import OtgMaster.Veracrypt.Cascade
import OtgMaster.Luks.InPlace
import OtgMaster.Bitlocker.Refusal
import OtgMaster.Bitlocker.HeaderSafe
import OtgMaster.Unlocked.Inside
import OtgMaster.Unlocked.LargeSector
import OtgMaster.Unlocked.Places
import OtgMaster.Ntfs.Listings
import OtgMaster.ExFat.Protocol
import OtgMaster.Backup.CopyVerified
import OtgMaster.Restic.Forget
import OtgMaster.Restic.FileSystem
import OtgMaster.Restic.Polynomials
import OtgMaster.Feedback.UrlLength
import OtgMaster.Recovery.FatNames
import OtgMaster.Format.Detect
import OtgMaster.Restic.Crypto
import OtgMaster.Format.ExFatImage
import OtgMaster.Usb.RawBounds
