import Kobox.Loader.Percpu
import Kobox.Loader.TaskPointers
import Kobox.Loader.PercpuCopy
import Kobox.Fs.Containment
import Kobox.Fs.FlushWritten
import Kobox.Fs.OneByOne
import Kobox.PageCache.Unmount
import Kobox.PageCache.Reclaim
import Kobox.PageCache.FileRead
import Kobox.Vfs.Eviction
import Kobox.Block.Batch
import Kobox.Nvme.Completion
import Kobox.Nvme.Sequential
import Kobox.Dma.Translation
import Kobox.Registry.Chrdev
import Kobox.Sync.Completion
import Kobox.Sync.GracePeriod
import Kobox.Kvm.GuestMemory
import Kobox.Loader.Jiffies
import Kobox.Work.Due
import Kobox.Work.TimerLinks
import Kobox.Vfs.DentryRuns
import Kobox.Loader.ElfCounts
import Kobox.Fs.Errseq
import Kobox.Vfs.InodeDirty
import Kobox.Fs.Redirtied
import Kobox.PageCache.FolioBatch
import Kobox.PageCache.Truncation
import Kobox.PageCache.WriteCache
import Kobox.Vfs.Iversion
import Kobox.Vfs.Acl
import Kobox.Nvme.Walk
import Kobox.Sync.WakeUp
import Kobox.Kmalloc.Mempool
import Kobox.Work.Destroy
import Kobox.Loader.Context
import Kobox.Crypto.Crc32c
import Kobox.Registry.Ida
import Kobox.Kvm.PageBlocks
