import Frewozet.Flat.Growth
import Frewozet.Heap.Runs

/-!
# The heap in that memory

The block list of `memory.c` again, this time read and written through the memory management
unit, so that its headers are bytes of the frames the heap has been given.

* `Flat.State` — the statics of `memory.c`, the machine, and which calls below are to fail;
  `Flat.State.seen` — the statics with the memory the kernel sees.
* `Flat.heapAddRegion`, `Flat.findFreeFrom`, `Flat.heapSplitBlock`, `Flat.heapGrow`,
  `Flat.memoryEnablePmmBackend`, `Flat.kmalloc` — the code, load by load and store by store.
* `Image` — cells that show what some memory holds; `Image.load32`, `Image.store32` — loads and
  stores keep it so.
* `Image.findFreeFrom`, `Image.splitBlock`, `Image.addRegion`, `Image.sumBlocks` — **each function
  does to the cells what its counterpart does to that memory**.
-/

namespace Frewozet

open Word Exec TwoLevel Tiling

namespace Flat

/-! ## The list -/

/-- `block->size` -/
def blockSize (block : U32) : Exec Machine U32 := load32 block

/-- `block->free` -/
def blockFree (block : U32) : Exec Machine U32 := load32 (block + 4#32)

/-- `block->next` -/
def blockNext (block : U32) : Exec Machine U32 := load32 (block + 8#32)

/-- `block->size = size; block->free = free; block->next = next;` -/
def writeBlock (block size free next : U32) : Exec Machine Unit := do
  store32 block size
  store32 (block + 4#32) free
  store32 (block + 8#32) next

/-- `while (current->next) current = current->next;` -/
def heapLast : Nat → U32 → Exec Machine U32
  | 0, _ => stop .hang
  | n + 1, current => do
    let next ← blockNext current
    if next = 0 then
      return current
    else
      heapLast n next

/-- `current->free && current->size >= size` -/
def blockFits (size current : U32) : Exec Machine Bool := do
  let free ← blockFree current
  if free = 0 then
    return false
  else do
    let currentSize ← blockSize current
    return decide (currentSize ≥ size)

/-- The loop of `heap_find_free_block`. -/
def findFreeFrom (size : U32) : Nat → U32 → Exec Machine U32
  | 0, _ => stop .hang
  | n + 1, current =>
    if current = 0 then
      return 0
    else do
      let fits ← blockFits size current
      if fits then
        return current
      else do
        let next ← blockNext current
        findFreeFrom size n next

/-- `heap_split_block`. -/
def heapSplitBlock (block size : U32) : Exec Machine Unit :=
  if block = 0 then
    return ()
  else do
    let alignedSize := alignUpSize size MEMORY_DEFAULT_ALIGNMENT
    let oldSize ← blockSize block
    if oldSize ≤ alignedSize + HEAP_BLOCK_BYTES + MEMORY_MIN_SPLIT then
      return ()
    else do
      let newBlock := block + HEAP_BLOCK_BYTES + alignedSize
      store32 newBlock (oldSize - alignedSize - HEAP_BLOCK_BYTES)
      store32 (newBlock + 4#32) 1
      let next ← blockNext block
      store32 (newBlock + 8#32) next
      store32 block alignedSize
      store32 (block + 8#32) newBlock

/-- The loop of the getters. -/
def sumBlocks (test : U32 → Bool) : Nat → U32 → U32 → Exec Machine U32
  | 0, _, _ => stop .hang
  | n + 1, current, total =>
    if current = 0 then
      return total
    else do
      let free ← blockFree current
      let total ← (if test free then do
          let size ← blockSize current
          pure (total + size)
        else
          pure total)
      let next ← blockNext current
      sumBlocks test n next total

/-! ## The statics -/

/-- The statics of `memory.c` and the machine. -/
structure State where
  /-- What this has for a memory is not used. -/
  memory : Memory
  machine : Machine
  /-- Which of the next calls of `pmm_alloc_page` and `paging_map_page` are to fail. -/
  faults : List Bool := []

/-- The statics, with the memory the kernel sees. -/
def State.seen (s : State) : Memory := { s.memory with vmem := s.machine.view }

/-- An access to memory. -/
def inMemory {α : Type} (x : Exec Machine α) : Exec State α :=
  zoom State.machine (fun m s => { s with machine := m }) x

/-- A call of what is below. -/
def onBacking {α : Type} (x : Exec (Machine × List Bool) α) : Exec State α :=
  zoom (fun s => (s.machine, s.faults)) (fun t s => { s with machine := t.1, faults := t.2 }) x

/-- The statics of `memory.c`. -/
def getMemory : Exec State Memory := do
  let s ← Exec.get
  return s.memory

/-- A change of them. -/
def modifyMemory (f : Memory → Memory) : Exec State Unit :=
  modify fun s => { s with memory := f s.memory }

/-- `heap_add_region`. -/
def heapAddRegion (region regionSize : U32) : Exec State Unit :=
  if region = 0 ∨ regionSize ≤ HEAP_BLOCK_BYTES then
    return ()
  else do
    inMemory (writeBlock region (regionSize - HEAP_BLOCK_BYTES) 1 0)
    let m ← getMemory
    if m.heapHead = 0 then
      modifyMemory fun m => { m with heapHead := region }
    else do
      let current ← inMemory (heapLast WALK_STEPS m.heapHead)
      inMemory (store32 (current + 8#32) region)

/-- `heap_find_free_block`. -/
def heapFindFreeBlock (size : U32) : Exec State U32 := do
  let m ← getMemory
  inMemory (findFreeFrom size WALK_STEPS m.heapHead)

/-- `heap_grow`. -/
def heapGrow (minimumPayloadSize : U32) : Exec State Bool := do
  let m ← getMemory
  let pages := growPages minimumPayloadSize
  let regionSize := pages * PMM_PAGE_SIZE
  if m.heapVirtualCurrent + regionSize < m.heapVirtualCurrent then
    return false
  else if m.heapVirtualCurrent + regionSize > KERNEL_HEAP_END then
    return false
  else do
    let regionStart := m.heapVirtualCurrent
    let grown ← onBacking (heapGrowPages backing regionStart pages.toNat)
    if !grown then
      return false
    else do
      modifyMemory fun m => { m with
        heapVirtualCurrent := m.heapVirtualCurrent + regionSize
        heapCommittedBytes := m.heapCommittedBytes + regionSize }
      heapAddRegion regionStart regionSize
      return true

/-! ## The calls -/

/-- `memory_enable_pmm_backend`. -/
def memoryEnablePmmBackend : Exec State Unit := do
  let m ← getMemory
  if m.memoryPmmBackendEnabled then
    return ()
  else do
    let grown ← heapGrow 1
    if !grown then
      modifyMemory fun m =>
        m.logStartupError "Failed to enable PMM-backed heap. Keeping bootstrap heap."
    else
      modifyMemory fun m => { m with memoryPmmBackendEnabled := true }

/-- A call of `bootstrap_alloc_aligned`. -/
def bootstrapAlloc (size alignment : U32) : Exec State U32 := fun s =>
  let r := bootstrapAllocAligned size alignment s.memory
  .ret r.1 { s with memory := r.2 }

/-- The end of `kmalloc`. -/
def takeBlock (block size : U32) : Exec State U32 := do
  inMemory (heapSplitBlock block size)
  inMemory (store32 (block + 4#32) 0)
  return block + HEAP_BLOCK_BYTES

/-- `kmalloc`. -/
def kmalloc (size : U32) : Exec State U32 := do
  if size = 0 then
    return 0
  else do
    let size := alignUpSize size MEMORY_DEFAULT_ALIGNMENT
    let m ← getMemory
    if !m.memoryPmmBackendEnabled then
      bootstrapAlloc size MEMORY_DEFAULT_ALIGNMENT
    else do
      let block ← heapFindFreeBlock size
      if block = 0 then do
        let grown ← heapGrow size
        if !grown then
          return 0
        else do
          let block ← heapFindFreeBlock size
          if block = 0 then
            return 0
          else
            takeBlock block size
      else
        takeBlock block size

/-! ## The getters -/

/-- `memory_get_heap_used_bytes`. -/
def memoryGetHeapUsedBytes : Exec State U32 := do
  let m ← getMemory
  if !m.memoryPmmBackendEnabled ∨ m.heapHead = 0 then
    return 0
  else
    inMemory (sumBlocks (fun free => free == 0) WALK_STEPS m.heapHead 0)

/-- `memory_get_heap_free_bytes`. -/
def memoryGetHeapFreeBytes : Exec State U32 := do
  let m ← getMemory
  if !m.memoryPmmBackendEnabled ∨ m.heapHead = 0 then
    return 0
  else
    inMemory (sumBlocks (fun free => free != 0) WALK_STEPS m.heapHead 0)

end Flat

/-! ## Cells that show a memory -/

/-- The cells show what `v` has at their addresses, and nothing else has been written since
`m₀`. -/
structure Image (W : Set U32) (m₀ m : Machine) (v : Mem) : Prop where
  cells : DataCells m W
  stored : StoredIn W m₀ m
  shows : ∀ x ∈ W, m.view x = v x

/-- The bytes of a word are cells. -/
def WordIn (W : Set U32) (a : U32) : Prop := ∀ k < 4, a + BitVec.ofNat 32 k ∈ W

section

variable {W : Set U32} {m₀ m : Machine} {v : Mem} {a : U32}

theorem DataCells.image (h : DataCells m W) : Image W m m m.view := ⟨h, .refl W m, fun _ _ => rfl⟩

theorem Image.load32 (h : Image W m₀ m v) (ha : WordIn W a) :
    Frewozet.load32 a m = .ret (v.read32 a) m := by
  have hread : m.view.read32 a = v.read32 a := Mem.read32_of_bytes fun k hk => h.shows _ (ha k hk)
  rw [← hread]
  exact h.cells.load32 ha

theorem write32_congr {v v' : Mem} {x : U32} (h : v x = v' x) (a w : U32) :
    v.write32 a w x = v'.write32 a w x := by
  rw [Mem.write32_eq_write8, Mem.write32_eq_write8]
  exact Mem.write8_congr (Mem.write8_congr (Mem.write8_congr (Mem.write8_congr h _ _) _ _) _ _) _ _

theorem Image.store32 (h : Image W m₀ m v) (ha : WordIn W a) (w : U32) :
    wp (store32 a w) (fun _ m' => Image W m₀ m' (v.write32 a w)) (fun _ _ => False) m := by
  refine wp_mono (wp_store32 h.cells ha w) ?_ fun _ _ hc => hc
  rintro _ m' ⟨hstored, hshows⟩
  refine ⟨h.cells.same hstored.same, h.stored.trans hstored, fun x hx => ?_⟩
  rw [hshows x hx]
  exact write32_congr (h.shows x hx) a w

end

/-! ## The cells of the heap -/

/-- The addresses from `KERNEL_HEAP_START` to `top`. -/
def heapCells (top : Nat) : Set U32 := {a | 0xC1000000 ≤ a.toNat ∧ a.toNat < top}

/-- A header that lies there. -/
def HeaderIn (top : Nat) (b : Block) : Prop := 0xC1000000 ≤ b.addr ∧ b.addr + 12 ≤ top

section

variable {top : Nat} {m₀ m : Machine} {v : Mem} {b : Block} {bs : List Block}

theorem wordIn_heapCells (htop : top ≤ 0xE0000000) {a : Nat} (hlo : 0xC1000000 ≤ a)
    (hhi : a + 4 ≤ top) : WordIn (heapCells top) (BitVec.ofNat 32 a) := by
  intro k hk
  have haddr : (BitVec.ofNat 32 a + BitVec.ofNat 32 k).toNat = a + k := by
    rw [ofNat_add_ofNat, toNat_ofNat_lt (by omega)]
  constructor <;> rw [haddr] <;> omega

/-- A field of a header. -/
theorem HeaderIn.word (h : HeaderIn top b) (htop : top ≤ 0xE0000000) {k : Nat} (hk : k ≤ 8) :
    WordIn (heapCells top) (b.ptr + BitVec.ofNat 32 k) := by
  obtain ⟨hlo, hhi⟩ := h
  have hptr : b.ptr + BitVec.ofNat 32 k = BitVec.ofNat 32 (b.addr + k) := ofNat_add_ofNat b.addr k
  rw [hptr]
  exact wordIn_heapCells htop (by omega) (by omega)

theorem HeaderIn.size (h : HeaderIn top b) (htop : top ≤ 0xE0000000) :
    WordIn (heapCells top) b.ptr := by
  have hword := h.word htop (Nat.zero_le 8)
  rwa [BitVec.add_zero] at hword

theorem HeapAt.headerIn {mem : Memory} (h : HeapAt mem bs) (hb : b ∈ bs) :
    HeaderIn mem.heapVirtualCurrent.toNat b := by
  obtain ⟨h1, -, h3⟩ := h.tiles.mem_bounds hb
  have hstop : b.stop = b.addr + 12 + b.size := rfl
  exact ⟨h1, by omega⟩

/-- **The list is a matter of the cells.** -/
theorem HeapAt.congr {mem : Memory} (h : HeapAt mem bs) {vmem : Mem}
    (hv : ∀ x ∈ heapCells mem.heapVirtualCurrent.toNat, vmem x = mem.vmem x) :
    HeapAt { mem with vmem := vmem } bs := by
  have hlimit := h.limit
  exact ⟨h.head, h.chain.congr_tiles h.tiles (by omega) fun a h1 h2 => hv a ⟨h1, h2⟩, h.tiles,
    h.limit, h.committed⟩

/-! ## Walks -/

/-- A getter of a value: the walk along the cells is the walk along the memory they show. -/
theorem Image.blockFits (h : Image (heapCells top) m₀ m v) (htop : top ≤ 0xE0000000)
    (hb : HeaderIn top b) (size : U32) : Flat.blockFits size b.ptr m =
      .ret (decide (Frewozet.blockFree v b.ptr ≠ 0 ∧ Frewozet.blockSize v b.ptr ≥ size)) m := by
  have hfree : Flat.blockFree b.ptr m = .ret (Frewozet.blockFree v b.ptr) m :=
    h.load32 (hb.word htop (by decide))
  have hsize : Flat.blockSize b.ptr m = .ret (Frewozet.blockSize v b.ptr) m :=
    h.load32 (hb.size htop)
  rw [Flat.blockFits, bind_ret hfree]
  by_cases hzero : Frewozet.blockFree v b.ptr = 0
  · rw [if_pos hzero]
    exact congrArg (Outcome.ret · m) (decide_eq_false fun hc => hc.1 hzero).symm
  · rw [if_neg hzero, bind_ret hsize]
    exact congrArg (Outcome.ret · m)
      (decide_eq_decide.2 ⟨fun hc => ⟨hzero, hc⟩, fun hc => hc.2⟩)

/-- **The search.** -/
theorem Image.findFreeFrom (h : Image (heapCells top) m₀ m v) (htop : top ≤ 0xE0000000)
    (size : U32) : ∀ (bs : List Block) (n : Nat), Chain v 0 bs → (∀ b ∈ bs, HeaderIn top b) →
      Flat.findFreeFrom size n (firstPtr 0 bs) m =
        ofOption .hang (Frewozet.findFreeFrom v size n (firstPtr 0 bs)) m := by
  intro bs
  induction bs with
  | nil =>
    intro n _ _
    cases n <;> rfl
  | cons b bs ih =>
    rintro n ⟨hhead, hchain⟩ hin
    cases n with
    | zero => rfl
    | succ n =>
      have hb := hin b List.mem_cons_self
      rw [Flat.findFreeFrom, Frewozet.findFreeFrom, firstPtr]
      by_cases hptr : b.ptr = 0
      · rw [if_pos hptr, if_pos hptr]
        rfl
      · rw [if_neg hptr, if_neg hptr, bind_ret (h.blockFits htop hb size)]
        by_cases hfits : Frewozet.blockFree v b.ptr ≠ 0 ∧ Frewozet.blockSize v b.ptr ≥ size
        · rw [if_pos (decide_eq_true hfits), if_pos hfits]
          rfl
        · have hnext : Flat.blockNext b.ptr m = .ret (Frewozet.blockNext v b.ptr) m :=
            h.load32 (hb.word htop (by decide))
          rw [if_neg (by rwa [decide_eq_true_eq]), if_neg hfits, bind_ret hnext, hhead.next]
          exact ih n hchain fun c hc => hin c (List.mem_cons_of_mem _ hc)

/-- **The way to the last block.** -/
theorem Image.heapLast (h : Image (heapCells top) m₀ m v) (htop : top ≤ 0xE0000000) :
    ∀ (bs : List Block) (n : Nat), bs ≠ [] → Chain v 0 bs → (∀ b ∈ bs, HeaderIn top b) →
      Flat.heapLast n (firstPtr 0 bs) m =
        ofOption .hang (Frewozet.heapLast v n (firstPtr 0 bs)) m := by
  intro bs
  induction bs with
  | nil => exact fun _ hc => absurd rfl hc
  | cons b bs ih =>
    rintro n - ⟨hhead, hchain⟩ hin
    cases n with
    | zero => rfl
    | succ n =>
      have hb := hin b List.mem_cons_self
      have hnext : Flat.blockNext b.ptr m = .ret (Frewozet.blockNext v b.ptr) m :=
        h.load32 (hb.word htop (by decide))
      rw [Flat.heapLast, Frewozet.heapLast, firstPtr, bind_ret hnext]
      by_cases hzero : Frewozet.blockNext v b.ptr = 0
      · rw [if_pos hzero, if_pos hzero]
        rfl
      · rw [if_neg hzero, if_neg hzero, hhead.next]
        refine ih n ?_ hchain fun c hc => hin c (List.mem_cons_of_mem _ hc)
        rintro rfl
        exact hzero hhead.next

/-- **The sums.** -/
theorem Image.sumBlocks (h : Image (heapCells top) m₀ m v) (htop : top ≤ 0xE0000000)
    (test : U32 → Bool) : ∀ (bs : List Block) (n : Nat) (total : U32), Chain v 0 bs →
      (∀ b ∈ bs, HeaderIn top b) → Flat.sumBlocks test n (firstPtr 0 bs) total m =
        ofOption .hang (Frewozet.sumBlocks v test n (firstPtr 0 bs) total) m := by
  intro bs
  induction bs with
  | nil =>
    intro n _ _ _
    cases n <;> rfl
  | cons b bs ih =>
    rintro n total ⟨hhead, hchain⟩ hin
    cases n with
    | zero => rfl
    | succ n =>
      have hb := hin b List.mem_cons_self
      rw [Flat.sumBlocks, Frewozet.sumBlocks, firstPtr]
      by_cases hptr : b.ptr = 0
      · rw [if_pos hptr, if_pos hptr]
        rfl
      · have hfree : Flat.blockFree b.ptr m = .ret (Frewozet.blockFree v b.ptr) m :=
          h.load32 (hb.word htop (by decide))
        have hsize : Flat.blockSize b.ptr m = .ret (Frewozet.blockSize v b.ptr) m :=
          h.load32 (hb.size htop)
        have hnext : Flat.blockNext b.ptr m = .ret (Frewozet.blockNext v b.ptr) m :=
          h.load32 (hb.word htop (by decide))
        rw [if_neg hptr, if_neg hptr, bind_ret hfree]
        by_cases htest : test (Frewozet.blockFree v b.ptr) = true
        · rw [if_pos htest, if_pos htest, bind_assoc, bind_ret hsize, pure_bind, bind_ret hnext,
            hhead.next]
          exact ih n _ hchain fun c hc => hin c (List.mem_cons_of_mem _ hc)
        · rw [if_neg htest, if_neg htest, pure_bind, bind_ret hnext, hhead.next]
          exact ih n _ hchain fun c hc => hin c (List.mem_cons_of_mem _ hc)

/-! ## Headers -/

theorem Image.writeBlock {W : Set U32} (h : Image W m₀ m v) {block : U32}
    (hw : ∀ k ≤ 8, WordIn W (block + BitVec.ofNat 32 k)) (size free next : U32) :
    wp (Flat.writeBlock block size free next)
      (fun _ m' => Image W m₀ m' (Frewozet.writeBlock v block size free next)) (fun _ _ => False)
      m := by
  have hblock := hw 0 (by decide)
  rw [BitVec.add_zero] at hblock
  rw [Flat.writeBlock, wp_bind]
  refine wp_mono (h.store32 hblock size) ?_ fun _ _ hc => hc
  intro _ m1 h1
  rw [wp_bind]
  refine wp_mono (h1.store32 (hw 4 (by decide)) free) ?_ fun _ _ hc => hc
  exact fun _ m2 h2 => h2.store32 (hw 8 (by decide)) next

/-- **`heap_split_block`.** -/
theorem Image.splitBlock (h : Image (heapCells top) m₀ m v) (htop : top ≤ 0xE0000000)
    {next size : U32} (hin : b.InWindow) (hb : HeaderAt v b next) (hstop : b.stop ≤ top)
    (hsize : alignUpSize size MEMORY_DEFAULT_ALIGNMENT = size) (hle : size.toNat ≤ b.size)
    (mem : Memory) (hv : mem.vmem = v) :
    wp (Flat.heapSplitBlock b.ptr size)
      (fun _ m' => Image (heapCells top) m₀ m' (Frewozet.heapSplitBlock b.ptr size mem).vmem)
      (fun _ _ => False) m := by
  subst hv
  have hbstop : b.stop = b.addr + 12 + b.size := rfl
  have hlo := hin.1
  have hheader : HeaderIn top b := ⟨hlo, by omega⟩
  have hload : Flat.blockSize b.ptr m = .ret (Frewozet.blockSize mem.vmem b.ptr) m :=
    h.load32 (hheader.size htop)
  rw [Flat.heapSplitBlock, Frewozet.heapSplitBlock, if_neg hin.ptr_ne, if_neg hin.ptr_ne, hsize]
  rw [wp_bind_ret hload]
  dsimp only
  by_cases hsplit : Frewozet.blockSize mem.vmem b.ptr ≤ size + HEAP_BLOCK_BYTES + MEMORY_MIN_SPLIT
  · rw [if_pos hsplit, if_pos hsplit]
    exact h
  · rw [if_neg hsplit, if_neg hsplit]
    rw [hb.split_iff hin hle] at hsplit
    obtain ⟨hnew, -⟩ := @HeaderAt.rest _ _ _ size hb hin (by omega)
    generalize Frewozet.blockSize mem.vmem b.ptr - size - HEAP_BLOCK_BYTES = rest
    rw [hnew]
    have hword : ∀ k ≤ 8, WordIn (heapCells top)
        (BitVec.ofNat 32 (b.addr + 12 + size.toNat) + BitVec.ofNat 32 k) := fun k hk => by
      rw [ofNat_add_ofNat]
      exact wordIn_heapCells htop (by omega) (by omega)
    rw [wp_bind]
    refine wp_mono (h.store32 (wordIn_heapCells htop (by omega) (by omega)) rest) ?_
      fun _ _ hc => hc
    intro _ m1 h1
    rw [wp_bind]
    refine wp_mono (h1.store32 (hword 4 (by decide)) 1) ?_ fun _ _ hc => hc
    intro _ m2 h2
    -- the link is read after two fields of the new block have been written
    have hnext : Flat.blockNext b.ptr m2 = .ret (Frewozet.blockNext mem.vmem b.ptr) m2 := by
      refine (h2.load32 (hheader.word htop (by decide))).trans (congrArg (Outcome.ret · m2) ?_)
      rw [show b.ptr + BitVec.ofNat 32 8 = BitVec.ofNat 32 (b.addr + 8) from ofNat_add_ofNat _ _,
        show BitVec.ofNat 32 (b.addr + 12 + size.toNat) + 4#32 =
          BitVec.ofNat 32 (b.addr + 12 + size.toNat + 4) from ofNat_add_ofNat _ 4,
        read32_write32_ne _ _ (by omega) (by omega) (by omega),
        read32_write32_ne _ _ (by omega) (by omega) (by omega)]
      exact congrArg mem.vmem.read32 (ofNat_add_ofNat b.addr 8).symm
    rw [wp_bind_ret hnext, wp_bind]
    refine wp_mono (h2.store32 (hword 8 (by decide)) _) ?_ fun _ _ hc => hc
    intro _ m3 h3
    rw [wp_bind]
    refine wp_mono (h3.store32 (hheader.size htop) size) ?_ fun _ _ hc => hc
    exact fun _ m4 h4 => h4.store32 (hheader.word htop (by decide)) _

/-! ## The statics beside the cells -/

variable {s : Flat.State}

/-- **`heap_add_region`.** -/
theorem Image.addRegion (h : Image (heapCells top) m₀ s.machine v) (htop : top ≤ 0xE0000000)
    {region regionSize : U32} (hlo : 0xC1000000 ≤ region.toNat) (hhi : region.toNat + 12 ≤ top)
    (hhead : s.memory.heapHead = firstPtr 0 bs) (hchain : Chain v 0 bs)
    (hin : ∀ b ∈ bs, b.InWindow ∧ HeaderIn region.toNat b) (hlen : bs.length < WALK_STEPS) :
    wp (Flat.heapAddRegion region regionSize)
      (fun _ s' => ∃ v', Image (heapCells top) m₀ s'.machine v' ∧
        Frewozet.heapAddRegion region regionSize { s.memory with vmem := v } =
          some { s'.memory with vmem := v' })
      (fun _ _ => False) s := by
  have hregion : region = BitVec.ofNat 32 region.toNat := by simp
  rw [Flat.heapAddRegion, Frewozet.heapAddRegion]
  by_cases htest : region = 0 ∨ regionSize ≤ HEAP_BLOCK_BYTES
  · rw [if_pos htest, if_pos htest]
    exact ⟨v, h, rfl⟩
  rw [if_neg htest, if_neg htest, wp_bind, Flat.inMemory, wp_zoom]
  have hword : ∀ k ≤ 8, WordIn (heapCells top) (region + BitVec.ofNat 32 k) := fun k hk => by
    rw [hregion, ofNat_add_ofNat]
    exact wordIn_heapCells htop (by omega) (by omega)
  refine wp_mono (h.writeBlock hword (regionSize - HEAP_BLOCK_BYTES) 1 0) ?_ fun _ _ hc => hc
  intro _ m1 h1
  obtain ⟨-, hout⟩ := headerAt_writeBlock v (a := region.toNat) (by omega)
    (regionSize - HEAP_BLOCK_BYTES) 1 0
  rw [← hregion] at hout
  dsimp only
  generalize hv : Frewozet.writeBlock v region (regionSize - HEAP_BLOCK_BYTES) 1 0 = v1 at h1 hout
  have hold : Chain v1 0 bs := hchain.congr fun b hb => by
    obtain ⟨-, -, h2⟩ := hin b hb
    exact ⟨by omega, hout _ _ (.inr h2)⟩
  rw [wp_bind]
  change wp (if s.memory.heapHead = 0 then _ else _) _ _ _
  by_cases hzero : s.memory.heapHead = 0
  · rw [if_pos hzero, if_pos hzero]
    exact ⟨v1, h1, rfl⟩
  · rw [if_neg hzero, if_neg hzero]
    rcases List.eq_nil_or_concat bs with rfl | ⟨xs, last, rfl⟩
    · exact absurd hhead hzero
    rw [List.concat_eq_append] at hhead hold hin hlen
    rw [List.length_append] at hlen
    have hheaders : ∀ b ∈ xs ++ [last], HeaderIn top b := fun b hb => by
      obtain ⟨-, h1, h2⟩ := hin b hb
      exact ⟨h1, by omega⟩
    have hlast := heapLast_spec xs WALK_STEPS hold (fun b hb => (hin b hb).1) (by omega)
    have hflat := h1.heapLast htop _ WALK_STEPS (by simp) hold hheaders
    rw [hlast] at hflat
    rw [hhead, hlast, wp_bind, Flat.inMemory, wp_zoom]
    unfold wp
    rw [hflat]
    change wp (Flat.inMemory _) _ _ _
    rw [Flat.inMemory, wp_zoom]
    refine wp_mono (h1.store32 ((hheaders last (by simp)).word htop (by decide)) region) ?_
      fun _ _ hc => hc
    exact fun _ m2 h2 => ⟨_, h2, by rw [Option.map_some, ← hhead]⟩

end

end Frewozet
