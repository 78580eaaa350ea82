import SystemProjects.Heap.Safety
import SystemProjects.Heap.Owned
import SystemProjects.Lib.Bitmap
import SystemProjects.Physical.Code
import SystemProjects.Physical.Proofs
import SystemProjects.Paging.Code
import SystemProjects.Paging.Proofs
import SystemProjects.Lib.Links
import SystemProjects.Vfs.Code
import SystemProjects.Vfs.Proofs
import SystemProjects.Vfs.Atomic
import SystemProjects.Fat.Codec
import SystemProjects.Fat.CodecProofs
import SystemProjects.Simdisk.Code
import SystemProjects.Simdisk.Proofs
import SystemProjects.Fat.Code
import SystemProjects.Fat.Chain
import SystemProjects.Fat.Transfer
import SystemProjects.Simdisk.Inodes
import SystemProjects.Simdisk.Format
import SystemProjects.Mmu.Code
import SystemProjects.Mmu.Proofs
import SystemProjects.Physical.MemoryMap
import SystemProjects.Vfs.Handles
import SystemProjects.Simdisk.Creat
import SystemProjects.Simdisk.Accounting
import SystemProjects.Fat.Paths
import SystemProjects.Fat.Lookup
import SystemProjects.Fat.Delete
import SystemProjects.Fat.Create
import SystemProjects.Fat.Rename
import SystemProjects.Fat.Files
import SystemProjects.Fat.ReadBack
import SystemProjects.Fat.Integrity
import SystemProjects.Physical.Kernel
import SystemProjects.Fat.ReadExact
import SystemProjects.Fat.Cursor
import SystemProjects.Fat.Mounted
import SystemProjects.Fat.Copies
import SystemProjects.Fat.Geometry
import SystemProjects.Fat.Sectors
import SystemProjects.Fat.Layout
import SystemProjects.Dfs.Code
import SystemProjects.Dfs.Proofs
import SystemProjects.Heap.Coalesced
import SystemProjects.Fat.Names
import SystemProjects.Fat.Search
import SystemProjects.Fat.Update
import SystemProjects.Fat.Listing
import SystemProjects.Fat.Encoding
import SystemProjects.Fat.Resolve
import SystemProjects.Fat.Reuse
import SystemProjects.Fat.Open
import SystemProjects.Fat.Truncate
import SystemProjects.Lib.LiveBlocks
import SystemProjects.Fat.KernelHeap
import SystemProjects.Physical.Lowest
import SystemProjects.Physical.Sizes
import SystemProjects.Paging.Budget
import SystemProjects.Heap.Frame
import SystemProjects.Heap.Undo
import SystemProjects.Fat.FreeCluster
import SystemProjects.Simdisk.Failure
import SystemProjects.Vfs.Resolution
import SystemProjects.Vfs.TwoPaths
import SystemProjects.Dma.Code
import SystemProjects.Dma.Proofs
import SystemProjects.Simdisk.DirCodec
import SystemProjects.Dfs.Listing
import SystemProjects.Fat.Progress
import SystemProjects.Simdisk.NoTrace
import SystemProjects.Simdisk.Read
import SystemProjects.Simdisk.ReadProofs
import SystemProjects.Simdisk.Lookup
import SystemProjects.Simdisk.LookupProofs
import SystemProjects.Heap.Threads
import SystemProjects.Heap.Apart
import SystemProjects.Heap.Concurrent
import SystemProjects.Physical.Threads
import SystemProjects.Physical.Concurrent
import SystemProjects.Vfs.Files
import SystemProjects.Vfs.Rights
import SystemProjects.Vfs.FirstMount
import SystemProjects.Simdisk.Descriptors
import SystemProjects.Paging.Isolation
import SystemProjects.Fat.Space
import SystemProjects.Paging.Allocator
import SystemProjects.Paging.Machine
import SystemProjects.Fat.Store
import SystemProjects.Vfs.OnFat
