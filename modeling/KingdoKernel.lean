import KingdoKernel.Bitops
import KingdoKernel.Buddy.Concurrent
import KingdoKernel.Buddy.Footprint
import KingdoKernel.Buddy.Nested
import KingdoKernel.Buddy.Refine
import KingdoKernel.Cache
import KingdoKernel.Exception.Process
import KingdoKernel.Kmalloc.Zeroed
import KingdoKernel.PageTable.Mmu
import KingdoKernel.PageTable.Rss
import KingdoKernel.PageTable.Stack
import KingdoKernel.Uart
import KingdoKernel.Timer
import KingdoKernel.Printk.Leak
import KingdoKernel.Printk.Scan
import KingdoKernel.Sync.Atomic
import KingdoKernel.Syscall
