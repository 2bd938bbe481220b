import Osproj.Base.Chain
import Osproj.Base.Extent
import Osproj.Base.FirstRun
import Osproj.Base.Loop
import Osproj.Base.Memory
import Osproj.Base.Numeral
import Osproj.Base.Paging
import Osproj.Base.Ring
import Osproj.Base.Run
import Osproj.Base.SearchTree
import Osproj.Base.Terminal
import Osproj.Base.Words
import Osproj.Base.X86
import Osproj.Drivers.Impl.Chardev
import Osproj.Drivers.Impl.Pci
import Osproj.Drivers.Impl.Tty
import Osproj.Drivers.Lemmas.Alike
import Osproj.Drivers.Lemmas.CommandBuffer
import Osproj.Drivers.Lemmas.Crtc
import Osproj.Drivers.Lemmas.Devmem
import Osproj.Drivers.Lemmas.Escape
import Osproj.Drivers.Lemmas.Kept
import Osproj.Drivers.Lemmas.Parameters
import Osproj.Drivers.Lemmas.PciById
import Osproj.Drivers.Lemmas.PciConfig
import Osproj.Drivers.Lemmas.PciLookup
import Osproj.Drivers.Lemmas.PciScan
import Osproj.Drivers.Lemmas.Screen
import Osproj.Drivers.Lemmas.Sequence
import Osproj.Drivers.Lemmas.Switch
import Osproj.Drivers.Lemmas.Terminal
import Osproj.Drivers.Lemmas.Tty
import Osproj.Fs.Impl.Calls
import Osproj.Fs.Impl.Vfs
import Osproj.Fs.Lemmas.Calls
import Osproj.Fs.Lemmas.LongPath
import Osproj.Fs.Lemmas.Resolve
import Osproj.Fs.Lemmas.Vfs
import Osproj.Kernel.Impl.Acpi
import Osproj.Kernel.Impl.Apic
import Osproj.Kernel.Impl.Boot
import Osproj.Kernel.Impl.Idt
import Osproj.Kernel.Impl.Isr
import Osproj.Kernel.Impl.Printk
import Osproj.Kernel.Impl.Sched
import Osproj.Kernel.Impl.TaskTable
import Osproj.Kernel.Lemmas.Apic
import Osproj.Kernel.Lemmas.BootPaging
import Osproj.Kernel.Lemmas.Context
import Osproj.Kernel.Lemmas.Decimal
import Osproj.Kernel.Lemmas.Format
import Osproj.Kernel.Lemmas.Hex
import Osproj.Kernel.Lemmas.Idt
import Osproj.Kernel.Lemmas.Isr
import Osproj.Kernel.Lemmas.KernelWindow
import Osproj.Kernel.Lemmas.Machine
import Osproj.Kernel.Lemmas.Madt
import Osproj.Kernel.Lemmas.PitInt
import Osproj.Kernel.Lemmas.Printk
import Osproj.Kernel.Lemmas.RootTables
import Osproj.Kernel.Lemmas.RoundRobin
import Osproj.Kernel.Lemmas.Sched
import Osproj.Kernel.Lemmas.TaskTable
import Osproj.Kernel.Lemmas.Xsdt
import Osproj.Lib.Impl.Bst
import Osproj.Lib.Impl.Errno
import Osproj.Lib.Impl.Fifo
import Osproj.Lib.Impl.List
import Osproj.Lib.Impl.Str
import Osproj.Lib.Lemmas.Bst
import Osproj.Lib.Lemmas.BstBalance
import Osproj.Lib.Lemmas.BstDelete
import Osproj.Lib.Lemmas.BstInsert
import Osproj.Lib.Lemmas.BstParents
import Osproj.Lib.Lemmas.BstRefusal
import Osproj.Lib.Lemmas.BstRelease
import Osproj.Lib.Lemmas.BstRotations
import Osproj.Lib.Lemmas.DeletedTree
import Osproj.Lib.Lemmas.Fifo
import Osproj.Lib.Lemmas.FifoBounds
import Osproj.Lib.Lemmas.LinkedTree
import Osproj.Lib.Lemmas.List
import Osproj.Lib.Lemmas.ListRing
import Osproj.Lib.Lemmas.Str
import Osproj.Lib.Lemmas.StrBounded
import Osproj.Lib.Lemmas.StrCompare
import Osproj.Mm.Impl.Buddy
import Osproj.Mm.Impl.KernelMem
import Osproj.Mm.Impl.Mmap
import Osproj.Mm.Impl.PageOps
import Osproj.Mm.Impl.Slab
import Osproj.Mm.Lemmas.Buddy
import Osproj.Mm.Lemmas.KernelMem
import Osproj.Mm.Lemmas.Linear
import Osproj.Mm.Lemmas.Mmap
import Osproj.Mm.Lemmas.OwnTables
import Osproj.Mm.Lemmas.PageBump
import Osproj.Mm.Lemmas.PageInit
import Osproj.Mm.Lemmas.PageMarks
import Osproj.Mm.Lemmas.PageOps
import Osproj.Mm.Lemmas.PageRuns
import Osproj.Mm.Lemmas.PageUndo
import Osproj.Mm.Lemmas.Refusal
import Osproj.Mm.Lemmas.Slab
import Osproj.Mm.Lemmas.SlabCaches
import Osproj.Mm.Lemmas.SlabDrain
import Osproj.Mm.Lemmas.SlabFilling
import Osproj.Mm.Lemmas.SlabFreeList
import Osproj.Mm.Lemmas.SlabInit
import Osproj.Mm.Lemmas.SlabKfree
import Osproj.Mm.Lemmas.SlabLayout
import Osproj.Mm.Lemmas.SlabLists
import Osproj.Mm.Lemmas.SlabQuery
import Osproj.Mm.Lemmas.SlabRuns
import Osproj.Mm.Lemmas.SlabService
import Osproj.Mm.Lemmas.Unmap
