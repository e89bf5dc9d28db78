import Frewozet.Base.Exec
import Frewozet.Bootstrap
import Frewozet.Pmm.Init

/-!
# `memory.c`, second half: the heap

The block list `heap_grow` and `kmalloc` keep in the memory they manage, and the
functions a caller sees.  What the heap asks of the frame allocator and of paging
is a `Backing`, so that everything here is about any of them.

* `blockSize`, `blockFree`, `blockNext` — a `heap_block_t` in memory, 12 bytes.
* `heapAddRegion`, `heapFindFreeBlock`, `heapSplitBlock`, `heapGrow` — the list.
* `memoryEnablePmmBackend`, `kmalloc`, `kmallocAligned`, `kcalloc` — the calls.
* `memoryGetHeapCommittedBytes`, `sumBlocks` — what the getters read.

A walk along the list stops with `hang` when it has made as many steps as there
are addresses: it has come back to where it was.  The headers lie in pages the heap
itself has had mapped, so reading them cannot fault; what `kcalloc` zeroes and the
slot `kmalloc_aligned` writes depend on the caller's size and are checked.
-/

namespace Frewozet

open Word Exec

/-! ## A block in memory -/

/-- `sizeof(heap_block_t)` on i386. -/
def HEAP_BLOCK_BYTES : U32 := 12

/-- `block->size`. -/
def blockSize (m : Mem) (block : U32) : U32 := m.read32 block

/-- `block->free`. -/
def blockFree (m : Mem) (block : U32) : U32 := m.read32 (block + 4#32)

/-- `block->next`. -/
def blockNext (m : Mem) (block : U32) : U32 := m.read32 (block + 8#32)

/-- `block->size = size; block->free = free; block->next = next;` -/
def writeBlock (m : Mem) (block size free next : U32) : Mem :=
  ((m.write32 block size).write32 (block + 4#32) free).write32 (block + 8#32) next

/-- More steps than a walk can make without coming back. -/
def WALK_STEPS : Nat := 0x100000000

/-! ## The list -/

/-- `while (current->next) current = current->next;` -/
def heapLast (m : Mem) : Nat → U32 → Option U32
  | 0, _ => none
  | n + 1, current =>
    if blockNext m current = 0 then some current else heapLast m n (blockNext m current)

/-- `heap_add_region`: no value when the walk to the end does not end. -/
def heapAddRegion (region regionSize : U32) (m : Memory) : Option Memory :=
  if region = 0 ∨ regionSize ≤ HEAP_BLOCK_BYTES then some m
  else
    let vmem := writeBlock m.vmem region (regionSize - HEAP_BLOCK_BYTES) 1 0
    if m.heapHead = 0 then some { m with vmem := vmem, heapHead := region }
    else (heapLast vmem WALK_STEPS m.heapHead).map fun current =>
      { m with vmem := vmem.write32 (current + 8#32) region }

/-- The loop of `heap_find_free_block`. -/
def findFreeFrom (m : Mem) (size : U32) : Nat → U32 → Option U32
  | 0, _ => none
  | n + 1, current =>
    if current = 0 then some 0
    else if blockFree m current ≠ 0 ∧ blockSize m current ≥ size then some current
    else findFreeFrom m size n (blockNext m current)

/-- `heap_find_free_block`: a pointer, 0 when no block fits. -/
def heapFindFreeBlock (size : U32) (m : Memory) : Option U32 :=
  findFreeFrom m.vmem size WALK_STEPS m.heapHead

/-- `heap_split_block`. -/
def heapSplitBlock (block size : U32) (m : Memory) : Memory :=
  if block = 0 then m
  else
    let alignedSize := alignUpSize size MEMORY_DEFAULT_ALIGNMENT
    if blockSize m.vmem block ≤ alignedSize + HEAP_BLOCK_BYTES + MEMORY_MIN_SPLIT then m
    else
      let newBlock := block + HEAP_BLOCK_BYTES + alignedSize
      let vmem := writeBlock m.vmem newBlock
        (blockSize m.vmem block - alignedSize - HEAP_BLOCK_BYTES) 1 (blockNext m.vmem block)
      { m with vmem := (vmem.write32 block alignedSize).write32 (block + 8#32) newBlock }

/-- `pages_needed_for`. -/
def pagesNeededFor (bytes : U32) : U32 := (bytes + PMM_PAGE_SIZE - 1) / PMM_PAGE_SIZE

/-! ## Growing it -/

/-- What the heap needs from below: the two calls of `pmm.c` and the one of
`paging.c` it makes, and whether an address may be written to. -/
structure Backing (σ : Type) where
  pmmAllocPage : Exec σ U32
  pagingMapPage : U32 → U32 → U32 → Exec σ Bool
  pmmFreePage : U32 → Exec σ Unit
  mapped : σ → U32 → Bool

section

variable {σ : Type} (B : Backing σ)

/-- The loop of `heap_grow`, which maps `n` pages from `virt` on. -/
def heapGrowPages (virt : U32) : Nat → Exec σ Bool
  | 0 => pure true
  | n + 1 => do
    let physPage ← B.pmmAllocPage
    if physPage = 0 then
      return false
    else do
      let mapped ← B.pagingMapPage virt physPage PAGE_WRITABLE
      if !mapped then do
        B.pmmFreePage physPage
        return false
      else
        heapGrowPages (virt + PMM_PAGE_SIZE) n

/-- A call of the backing. -/
def onBacking {α : Type} (x : Exec σ α) : Exec (Memory × σ) α :=
  zoom Prod.snd (fun s t => (t.1, s)) x

/-- The statics of `memory.c`. -/
def getMemory : Exec (Memory × σ) Memory := do
  let t ← get
  return t.1

/-- A change of the statics of `memory.c`. -/
def modifyMemory (f : Memory → Memory) : Exec (Memory × σ) Unit := modify fun t => (f t.1, t.2)

/-- The page count of `heap_grow`. -/
def growPages (minimumPayloadSize : U32) : U32 :=
  let bytesNeeded := minimumPayloadSize + HEAP_BLOCK_BYTES
  let pages := pagesNeededFor bytesNeeded
  if pages < MEMORY_HEAP_GROW_PAGES then MEMORY_HEAP_GROW_PAGES else pages

/-- `heap_grow`. -/
def heapGrow (minimumPayloadSize : U32) : Exec (Memory × σ) Bool := do
  let m ← getMemory
  let pages := growPages minimumPayloadSize
  let regionSize := pages * PMM_PAGE_SIZE
  if m.heapVirtualCurrent + regionSize < m.heapVirtualCurrent then
    return false
  else if m.heapVirtualCurrent + regionSize > KERNEL_HEAP_END then
    return false
  else do
    let regionStart := m.heapVirtualCurrent
    let grown ← onBacking (heapGrowPages B regionStart pages.toNat)
    if !grown then
      return false
    else do
      modifyMemory fun m => { m with
        heapVirtualCurrent := m.heapVirtualCurrent + regionSize
        heapCommittedBytes := m.heapCommittedBytes + regionSize }
      let m ← getMemory
      let m' ← ofOption .hang (heapAddRegion regionStart regionSize m)
      modifyMemory fun _ => m'
      return true

/-! ## The calls -/

/-- `memory_enable_pmm_backend`. -/
def memoryEnablePmmBackend : Exec (Memory × σ) Unit := do
  let m ← getMemory
  if m.memoryPmmBackendEnabled then
    return ()
  else do
    let grown ← heapGrow B 1
    if !grown then
      modifyMemory fun m =>
        m.logStartupError "Failed to enable PMM-backed heap. Keeping bootstrap heap."
    else
      modifyMemory fun m => { m with memoryPmmBackendEnabled := true }

/-- A call of `bootstrap_alloc_aligned`. -/
def bootstrapAlloc (size alignment : U32) : Exec (Memory × σ) U32 := fun t =>
  let r := bootstrapAllocAligned size alignment t.1
  .ret r.1 (r.2, t.2)

/-- The end of `kmalloc`: split the block and mark it used. -/
def takeBlock (block size : U32) : Exec (Memory × σ) U32 := do
  modifyMemory (heapSplitBlock block size)
  modifyMemory fun m => { m with vmem := m.vmem.write32 (block + 4#32) 0 }
  return block + HEAP_BLOCK_BYTES

/-- `kmalloc`. -/
def kmalloc (size : U32) : Exec (Memory × σ) U32 := do
  if size = 0 then
    return 0
  else do
    let size := alignUpSize size MEMORY_DEFAULT_ALIGNMENT
    let m ← getMemory
    if !m.memoryPmmBackendEnabled then
      bootstrapAlloc size MEMORY_DEFAULT_ALIGNMENT
    else do
      let block ← ofOption .hang (heapFindFreeBlock size m)
      if block = 0 then do
        let grown ← heapGrow B size
        if !grown then
          return 0
        else do
          let m ← getMemory
          let block ← ofOption .hang (heapFindFreeBlock size m)
          if block = 0 then
            return 0
          else
            takeBlock block size
      else
        takeBlock block size

/-- A write to an address the caller's size decides. -/
def checkMapped (addr : U32) : Exec (Memory × σ) Unit := do
  let t ← get
  if B.mapped t.2 addr then
    return ()
  else
    stop .fault

/-- `memset` on the kernel's own memory. -/
def heapMemset (dest : U32) (value : U8) : Nat → Exec (Memory × σ) Unit
  | 0 => pure ()
  | n + 1 => do
    checkMapped B dest
    modifyMemory fun m => { m with vmem := m.vmem.write8 dest value }
    heapMemset (dest + 1#32) value n

/-- `kmalloc_aligned`. -/
def kmallocAligned (size alignment : U32) : Exec (Memory × σ) U32 := do
  if size = 0 then
    return 0
  else do
    let m ← getMemory
    if !m.memoryPmmBackendEnabled then
      bootstrapAlloc size alignment
    else if alignment ≤ MEMORY_DEFAULT_ALIGNMENT then
      kmalloc B size
    else do
      let extra := alignment + 4
      let raw ← kmalloc B (size + extra)
      if raw = 0 then
        return 0
      else do
        let base := raw + 4
        let aligned := (base + alignment - 1) &&& ~~~(alignment - 1)
        checkMapped B (aligned - 4#32)
        modifyMemory fun m => { m with vmem := m.vmem.write32 (aligned - 4#32) raw }
        return aligned

/-- `kcalloc`. -/
def kcalloc (num size : U32) : Exec (Memory × σ) U32 := do
  if num = 0 ∨ size = 0 then
    return 0
  else if num > 0xFFFFFFFF#32 / size then
    return 0
  else do
    let totalSize := num * size
    let ptr ← kmalloc B totalSize
    if ptr = 0 then
      return 0
    else do
      heapMemset B ptr 0 totalSize.toNat
      return ptr

end

/-! ## The getters -/

/-- `memory_get_heap_committed_bytes`. -/
def memoryGetHeapCommittedBytes (m : Memory) : U32 :=
  if !m.memoryPmmBackendEnabled then 0 else m.heapCommittedBytes

/-- The loop of the other two getters: add up the sizes of the blocks whose `free`
field the test accepts; no value when the walk does not end. -/
def sumBlocks (m : Mem) (test : U32 → Bool) : Nat → U32 → U32 → Option U32
  | 0, _, _ => none
  | n + 1, current, total =>
    if current = 0 then some total
    else
      sumBlocks m test n (blockNext m current)
        (if test (blockFree m current) then total + blockSize m current else total)

end Frewozet
