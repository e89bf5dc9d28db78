import Frewozet.Base.Append
import Frewozet.Base.Numeral
import Frewozet.Shell.Browse
import Frewozet.System.Survival
import Frewozet.System.Leaks
import Frewozet.Heap.Align
import Frewozet.Keyboard
import Frewozet.Pmm.Counts
import Frewozet.Terminal.Layout
import Frewozet.Boot.Load
import Frewozet.Commands.Dispatch
import Frewozet.Commands.Help
import Frewozet.Commands.Table
import Frewozet.Base.Chains
import Frewozet.Shell.Kept
import Frewozet.Shell.Display
import Frewozet.Base.Line
import Frewozet.Base.Ring
import Frewozet.Terminal.Cells
import Frewozet.System.Rights
import Frewozet.Terminal.Bounds
import Frewozet.Paging.PageMap
import Frewozet.Paging.Reach
import Frewozet.System.Runs
import Frewozet.System.Owners
import Frewozet.System.Books
import Frewozet.System.Failure
import Frewozet.System.Access
import Frewozet.System.State
import Frewozet.System.Growth
import Frewozet.Heap.Runs
import Frewozet.Heap.Requests
import Frewozet.Heap.Calls
import Frewozet.Heap.List
import Frewozet.Heap.Code
import Frewozet.Base.Tiling
import Frewozet.Paging.Loader
import Frewozet.Paging.Invariant
import Frewozet.Paging.Map
import Frewozet.Paging.Code
import Frewozet.Paging.Tables
import Frewozet.Pmm.Runs
import Frewozet.Pmm.Table
import Frewozet.Pmm.Boot
import Frewozet.Pmm.Alloc
import Frewozet.Pmm.Init
import Frewozet.Pmm.Bitmap
import Frewozet.Bootstrap
import Frewozet.Base.FirstFit
import Frewozet.Base.Pool
import Frewozet.Base.TwoLevel
import Frewozet.Base.Bytes
import Frewozet.Base.Exec
import Frewozet.StartupError
import Frewozet.Terminal.Emit
import Frewozet.Text.Decimal
import Frewozet.Text.Hex
import Frewozet.Text.ByteSize
import Frewozet.Commands.Calc
import Frewozet.Shell.Quoting
import Frewozet.Base.Lex
import Frewozet.Text.Compare
import Frewozet.Boot.MemoryMap
import Frewozet.Base.Stack
import Frewozet.Interrupts.Cpu
import Frewozet.Base.Records
import Frewozet.Interrupts.Stubs
import Frewozet.Interrupts.Tables
import Frewozet.Interrupts.Delivery
import Frewozet.Interrupts.Pic
import Frewozet.Base.Steps
import Frewozet.Interrupts.Lines
import Frewozet.Boot.Start
import Frewozet.Shell.Colours
import Frewozet.Shell.Typing
import Frewozet.Terminal.LastLines
import Frewozet.Interrupts.Handler
import Frewozet.Base.Objects
import Frewozet.System.Objects
import Frewozet.Base.Aliases
import Frewozet.Base.Simulation
import Frewozet.Flat.Memory
import Frewozet.Flat.Pmm
import Frewozet.Flat.Paging
import Frewozet.Flat.Start
import Frewozet.Flat.PageMap
import Frewozet.Flat.Growth
import Frewozet.Flat.Heap
import Frewozet.Flat.HeapCalls
import Frewozet.Flat.HeapRuns
