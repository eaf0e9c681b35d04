import Scepter.Lib.Peek
import Scepter.Lib.Links
import Scepter.Lib.OnesSum
import Scepter.Driver.Ahci
import Scepter.Driver.Block
import Scepter.Driver.Coherence
import Scepter.Driver.Partition
import Scepter.Fs.Access
import Scepter.Fs.Descriptors
import Scepter.Fs.Ext2.Alloc
import Scepter.Fs.Ext2.BlockTree
import Scepter.Fs.Ext2.Bmap
import Scepter.Fs.Ext2.Cache
import Scepter.Fs.Ext2.Counts
import Scepter.Fs.Ext2.Dir
import Scepter.Fs.Ext2.Dirents
import Scepter.Fs.Ext2.DirMap
import Scepter.Fs.Ext2.DirScan
import Scepter.Fs.Ext2.FlatArray
import Scepter.Fs.Ext2.Layout
import Scepter.Fs.Ext2.Marks
import Scepter.Fs.Ext2.Tables
import Scepter.Fs.Ext2.Truncate
import Scepter.Fs.Ext2.Unlink
import Scepter.Fs.Fifo
import Scepter.Fs.Locks
import Scepter.Fs.OpenFiles
import Scepter.Fs.Paths
import Scepter.Fs.Pipe
import Scepter.Kernel.Elf
import Scepter.Kernel.Errno
import Scepter.Kernel.Exec
import Scepter.Kernel.Fairness
import Scepter.Kernel.IdleTask
import Scepter.Kernel.Credentials
import Scepter.Kernel.WaitStatus
import Scepter.Kernel.Family
import Scepter.Fs.Tmpfs.Data
import Scepter.Fs.Tmpfs.Tree
import Scepter.Kernel.Lifecycle
import Scepter.Kernel.Sched
import Scepter.Kernel.Signal
import Scepter.Lib.Bitmap
import Scepter.Lib.Bits
import Scepter.Lib.Bytes
import Scepter.Lib.Keyed
import Scepter.Lib.Lru
import Scepter.Lib.Memory
import Scepter.Lib.Path
import Scepter.Lib.Prog
import Scepter.Lib.PtrTree
import Scepter.Lib.Ring
import Scepter.Lib.Run
import Scepter.Lib.Slots
import Scepter.Lib.Tally
import Scepter.Mm.Buddy
import Scepter.Mm.FileMapRuns
import Scepter.Mm.FileMaps
import Scepter.Mm.FrameCount
import Scepter.Mm.FrameRuns
import Scepter.Mm.CopyUser
import Scepter.Mm.ForkMemory
import Scepter.Mm.Heap
import Scepter.Mm.Kalloc
import Scepter.Mm.Regions
import Scepter.Mm.Slab
import Scepter.Mm.Uaccess
import Scepter.Mm.UserSpace
import Scepter.Mm.Vma
import Scepter.Kernel.Deliver
import Scepter.Kernel.Sigreturn
import Scepter.Kernel.SignalBooks
import Scepter.Crt.Malloc
import Scepter.Crt.Chain
import Scepter.Crt.MallocRuns
import Scepter.Lib.Hierarchy
import Scepter.Fs.Mounts
import Scepter.Fs.Names
import Scepter.Fs.Minix3.Dirs
import Scepter.Fs.Minix3.Tree
import Scepter.Fs.Minix3.TreeCalls
import Scepter.Fs.Minix3.TreeRuns
import Scepter.Net.Proto
import Scepter.Net.Core
import Scepter.Driver.Rtl8139
import Scepter.Fs.DevBlock
import Scepter.Crt.Sh.Pipeline
import Scepter.Lib.CString
import Scepter.Crt.Sh.Tokens
import Scepter.Crt.Sh.Words
import Scepter.Crt.Sh.Lines
import Scepter.Driver.Screen
import Scepter.Driver.Tty
import Scepter.Crt.Glob
import Scepter.Crt.Printf
import Scepter.Crt.PrintfNumbers
import Scepter.Lib.Calendar
import Scepter.Crt.Time
import Scepter.Driver.Rtc
import Scepter.Crt.Qsort
import Scepter.Crt.Environ
import Scepter.Fs.ResolveForm
import Scepter.Crt.Realpath
import Scepter.Fs.Ext2.BlockCount
import Scepter.Fs.Minix3.Zones
import Scepter.Driver.Acpi
import Scepter.Fs.Minix3.DirMap
import Scepter.Fs.Minix3.PathWalk
import Scepter.Kernel.Kmsg
import Scepter.Fs.Minix3.ZoneTree
import Scepter.Fs.Minix3.ZoneTruncate
import Scepter.Fs.Ext2.DirBounds
import Scepter.Fs.Ext2.TruncateRange
import Scepter.Fs.CloseRange
import Scepter.Fs.FailedCalls
import Scepter.Fs.ReferencePath
import Scepter.Fs.MountPoints
import Scepter.Fs.DescriptorOps
import Scepter.Driver.BlockCache
import Scepter.Driver.Transfers
import Scepter.Fs.Minix3.FailedCreate
import Scepter.Fs.Symlinks
import Scepter.Fs.Getpath
import Scepter.Fs.PipePoll
import Scepter.Fs.Tmpfs.Reserve
import Scepter.Fs.RecordLocks
import Scepter.Mm.UnmapRange
import Scepter.Mm.ProtectRange
import Scepter.Mm.FreeRegion
import Scepter.Mm.SlabLists
import Scepter.Lib.Walk
import Scepter.Fs.LinkMounts
import Scepter.Fs.Offsets
import Scepter.Kernel.Sleeps
import Scepter.Kernel.ElfChecks
import Scepter.Kernel.ElfLoad
import Scepter.Kernel.IntervalTimers
import Scepter.Kernel.Sendfile
import Scepter.Kernel.InitialStack
import Scepter.Kernel.DeliveryMemory
import Scepter.Mm.Vmalloc
import Scepter.Crt.MallocContents
import Scepter.Lib.PointerRing
import Scepter.Kernel.ListHead
import Scepter.Lib.Crc
import Scepter.Crt.Cksum
import Scepter.Kernel.SignalMasks
import Scepter.Driver.Random
