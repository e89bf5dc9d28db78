import Frewozet.Base.Exec
import Frewozet.Paging.Tables

/-!
# `paging.c`

The functions of `paging.c` on a machine: physical memory, the frame allocator,
and two ghosts.  The kernel has no other way to a page table than a virtual
address, so every access to one goes through `mmu` as it stands at that moment;
an address that is not mapped stops the machine.

* `Machine` — with `touches`, every access to the directory or to a table and
  where it went, and `grants`, everything the frame allocator has handed out.
* `pagingGetPageTable`, `pagingMapPage`, `pagingUnmapPage`, `pagingAllocPage`,
  `pagingTranslate` — the code.
* `Machine.AllGood` — **every access so far went to the physical address the code
  meant**.

Accessed and dirty bits and the translation cache are left out: the kernel reads
neither, and it invalidates what it changes.
-/

namespace Frewozet

open Word Exec

/-! ## The machine -/

/-- An access to the page directory or to a page table: the virtual address used,
and where the memory management unit sent it. -/
structure Touch where
  addr : U32
  reached : Option U32

/-- It went where the code meant it to go: `PHYS_TO_VIRT` undone. -/
def Touch.Good (t : Touch) : Prop := t.reached = some (virtToPhys t.addr)

structure Machine where
  /-- Physical memory, as far as the page tables go. -/
  phys : Mem
  pmm : Pmm := {}
  /-- Ghost: the accesses to page tables so far, newest first. -/
  touches : List Touch := []
  /-- Ghost: the ranges the frame allocator has handed out, as address and number
  of pages, newest first. -/
  grants : List (U32 × U32) := []

/-- Every access to a page table reached the table it was meant for. -/
def Machine.AllGood (m : Machine) : Prop := ∀ t ∈ m.touches, t.Good

/-- The machine after an access to a page table. -/
def Machine.touched (m : Machine) (addr : U32) : Machine :=
  { m with touches := ⟨addr, mmu m.phys addr⟩ :: m.touches }

/-- The byte that is read at a virtual address. -/
def Machine.byteAt (m : Machine) (v : U32) : Option U8 := (mmu m.phys v).map m.phys

/-- The entries of the machine's tables. -/
abbrev Machine.tables (m : Machine) : Frame → Fin 1024 → U32 := Frewozet.tables m.phys

/-- A call of one of the allocating functions of `pmm.c`, for `n` pages. -/
def allocFrames (n : U32) (call : Pmm → U32 × Pmm) : Exec Machine U32 := fun m =>
  let r := call m.pmm
  .ret r.1 { m with
    pmm := r.2
    grants := if r.1 = 0 then m.grants else (r.1, n) :: m.grants }

/-- A call of one of the freeing functions of `pmm.c`. -/
def freeFrames (call : Pmm → Pmm) : Exec Machine Unit :=
  modify fun m => { m with pmm := call m.pmm }

/-- Where an access to a page table goes. -/
def tableAccess (addr : U32) : Exec Machine U32 := fun m =>
  match mmu m.phys addr with
  | some a => .ret a (m.touched addr)
  | none => .stop .fault (m.touched addr)

/-- Where any other access goes. -/
def dataAccess (addr : U32) : Exec Machine U32 := fun m =>
  match mmu m.phys addr with
  | some a => .ret a m
  | none => .stop .fault m

/-- Read a word of a page table. -/
def loadTable (addr : U32) : Exec Machine U32 := do
  let a ← tableAccess addr
  let m ← get
  return m.phys.read32 a

/-- Write a word of a page table. -/
def storeTable (addr value : U32) : Exec Machine Unit := do
  let a ← tableAccess addr
  modify fun m => { m with phys := m.phys.write32 a value }

/-- `memset`, byte by byte. -/
def memset (access : U32 → Exec Machine U32) (dest : U32) (value : U8) : Nat → Exec Machine Unit
  | 0 => pure ()
  | n + 1 => do
    let a ← access dest
    modify fun m => { m with phys := m.phys.write8 a value }
    memset access (dest + 1#32) value n

/-! ## `paging.c` -/

/-- `paging_get_page_directory`. -/
def pagingGetPageDirectory : U32 := physToVirt PAGE_DIR_PHYS

/-- `paging_get_page_table`: a pointer, 0 when there is no table.  The frame for a new one comes
from the given `pmm_alloc_page`. -/
def pagingGetPageTableBy (allocPage : Exec Machine U32) (virtAddr : U32) (create : Bool)
    (tableFlags : U32) : Exec Machine U32 := do
  let pageDirectory := pagingGetPageDirectory
  let pdIndex := pagingDirIndex virtAddr
  let pde ← loadTable (pageDirectory + pdIndex * 4)
  if pde &&& PAGE_PRESENT ≠ 0 then
    return physToVirt (pde &&& 0xFFFFF000#32)
  else if !create then
    return 0
  else do
    let newTablePhys ← allocPage
    if newTablePhys = 0 then
      return 0
    else do
      let newTableVirt := physToVirt newTablePhys
      memset tableAccess newTableVirt 0 PAGE_SIZE
      storeTable (pageDirectory + pdIndex * 4)
        ((newTablePhys &&& 0xFFFFF000#32) ||| (tableFlags &&& 0xFFF#32) ||| PAGE_PRESENT)
      return newTableVirt

/-- `paging_get_page_table`, over `pmm.c`. -/
def pagingGetPageTable : U32 → Bool → U32 → Exec Machine U32 :=
  pagingGetPageTableBy (allocFrames 1 pmmAllocPage)

/-- `paging_remove_identity_map`. -/
def pagingRemoveIdentityMap : Exec Machine Unit := storeTable pagingGetPageDirectory 0

/-- `paging_map_page`, likewise. -/
def pagingMapPageBy (allocPage : Exec Machine U32) (virtAddr physAddr flags : U32) :
    Exec Machine Bool := do
  let virtAddr := pagingAlignDown virtAddr
  let physAddr := pagingAlignDown physAddr
  let tableFlags := if flags &&& PAGE_USER ≠ 0 then PAGE_WRITABLE ||| PAGE_USER else PAGE_WRITABLE
  let pageTable ← pagingGetPageTableBy allocPage virtAddr true tableFlags
  if pageTable = 0 then
    return false
  else do
    storeTable (pageTable + pagingTableIndex virtAddr * 4)
      (physAddr ||| (flags &&& 0xFFF#32) ||| PAGE_PRESENT)
    return true

/-- `paging_map_page`, over `pmm.c`. -/
def pagingMapPage : U32 → U32 → U32 → Exec Machine Bool :=
  pagingMapPageBy (allocFrames 1 pmmAllocPage)

/-- `paging_unmap_page`, likewise. -/
def pagingUnmapPageBy (allocPage : Exec Machine U32) (virtAddr : U32) : Exec Machine Unit := do
  let virtAddr := pagingAlignDown virtAddr
  let pageTable ← pagingGetPageTableBy allocPage virtAddr false 0
  if pageTable = 0 then
    return ()
  else
    storeTable (pageTable + pagingTableIndex virtAddr * 4) 0

/-- `paging_unmap_page`, over `pmm.c`. -/
def pagingUnmapPage : U32 → Exec Machine Unit :=
  pagingUnmapPageBy (allocFrames 1 pmmAllocPage)

/-- `paging_alloc_page`. -/
def pagingAllocPage (virtAddr flags : U32) : Exec Machine Bool := do
  let physPage ← allocFrames 1 pmmAllocPage
  if physPage = 0 then
    return false
  else do
    let mapped ← pagingMapPage virtAddr physPage flags
    if !mapped then do
      freeFrames (pmmFreePage physPage)
      return false
    else do
      memset dataAccess virtAddr 0 PAGE_SIZE
      return true

/-- `paging_translate`: the physical address, 0 when there is none; no value when
one of its own two reads is at an address that is not mapped. -/
def pagingTranslate (m : Mem) (virtAddr : U32) : Option U32 := do
  let pageDirectory := pagingGetPageDirectory
  let pde := m.read32 (← mmu m (pageDirectory + pagingDirIndex virtAddr * 4))
  if pde &&& PAGE_PRESENT = 0 then
    return 0
  else do
    let tablePhys := pde &&& 0xFFFFF000#32
    let pageTable := physToVirt tablePhys
    let pte := m.read32 (← mmu m (pageTable + pagingTableIndex virtAddr * 4))
    if pte &&& PAGE_PRESENT = 0 then
      return 0
    else
      return (pte &&& 0xFFFFF000#32) ||| (virtAddr &&& 0xFFF#32)

/-! ## The accesses -/

@[simp] theorem Machine.touched_phys (m : Machine) (v : U32) : (m.touched v).phys = m.phys := rfl

@[simp] theorem Machine.touched_pmm (m : Machine) (v : U32) : (m.touched v).pmm = m.pmm := rfl

@[simp] theorem Machine.touched_grants (m : Machine) (v : U32) :
    (m.touched v).grants = m.grants := rfl

/-- A store at an address that is mapped. -/
theorem storeTable_ret {m : Machine} {addr a value : U32} (h : mmu m.phys addr = some a) :
    storeTable addr value m =
      .ret () { m.touched addr with phys := m.phys.write32 a value } := by
  unfold storeTable tableAccess
  simp only [bind, h]
  rfl

theorem pagingDir_addr (virt : U32) : pagingGetPageDirectory + pagingDirIndex virt * 4 =
    physToVirt (entryAddr dirFrame (slotOf virt)) := by
  rw [← dirEntry_addr, pagingGetPageDirectory, physToVirt_add]

theorem pagingEntry_addr (e virt : U32) :
    physToVirt (e &&& 0xFFFFF000#32) + pagingTableIndex virt * 4 =
      physToVirt (entryAddr (frameOf e) (indexOf virt)) := by
  rw [← tableEntry_addr, physToVirt_add]

/-- Nothing but good accesses has happened between the two machines. -/
structure Machine.Quiet (m m' : Machine) : Prop where
  phys : m'.phys = m.phys
  pmm : m'.pmm = m.pmm
  grants : m'.grants = m.grants
  good : m.AllGood → m'.AllGood

theorem Machine.Quiet.refl (m : Machine) : m.Quiet m := ⟨rfl, rfl, rfl, id⟩

theorem Machine.Quiet.tables {m m' : Machine} (h : m.Quiet m') : m'.tables = m.tables := by
  rw [Machine.tables, h.phys]

theorem Machine.Quiet.trans {m m' m'' : Machine} (h : m.Quiet m') (h' : m'.Quiet m'') :
    m.Quiet m'' :=
  ⟨h'.phys.trans h.phys, h'.pmm.trans h.pmm, h'.grants.trans h.grants,
    fun hg => h'.good (h.good hg)⟩

section

variable {m : Machine} {a : U32} (h : mmu m.phys (physToVirt a) = some a)

include h

theorem allGood_touched (hg : m.AllGood) : (m.touched (physToVirt a)).AllGood := by
  intro t ht
  rcases List.mem_cons.1 ht with rfl | ht
  · change mmu m.phys (physToVirt a) = some (virtToPhys (physToVirt a))
    rw [h, virtToPhys_physToVirt]
  · exact hg t ht

theorem quiet_touched : m.Quiet (m.touched (physToVirt a)) := ⟨rfl, rfl, rfl, allGood_touched h⟩

/-- **An access through the direct map** goes where it is meant to go. -/
theorem wp_tableAccess {Q : U32 → Machine → Prop} {S : Stop → Machine → Prop} :
    wp (tableAccess (physToVirt a)) Q S m ↔ Q a (m.touched (physToVirt a)) := by
  unfold wp tableAccess
  rw [h]

theorem wp_loadTable {Q : U32 → Machine → Prop} {S : Stop → Machine → Prop} :
    wp (loadTable (physToVirt a)) Q S m ↔ Q (m.phys.read32 a) (m.touched (physToVirt a)) := by
  rw [loadTable, wp_bind, wp_tableAccess h]
  exact Iff.rfl

theorem wp_storeTable {w : U32} {Q : Unit → Machine → Prop} {S : Stop → Machine → Prop} :
    wp (storeTable (physToVirt a) w) Q S m ↔
      Q () { m.touched (physToVirt a) with phys := m.phys.write32 a w } := by
  rw [storeTable, wp_bind, wp_tableAccess h]
  exact Iff.rfl

end

/-! ## `paging_translate` -/

theorem entryAddr_low {f : Frame} (hf : f.val < 1024) (i : Fin 1024) :
    (entryAddr f i).toNat < 0x400000 := by
  have := i.isLt
  rw [entryAddr_toNat]
  omega

theorem dirFrame_low : dirFrame.val < 1024 := by decide

/-- The walk, from the entry of the directory. -/
theorem walkOf_dir {T : Frame → Fin 1024 → U32} {virt : U32} :
    walkOf T virt = (entryTarget (T dirFrame (slotOf virt))).bind fun t =>
      entryTarget (T t (indexOf virt)) := by
  unfold walkOf TwoLevel.walk TwoLevel.leaf
  cases entryTarget (T dirFrame (slotOf virt)) <;> rfl

/-- **`paging_translate` is the hardware walk**, with 0 for an address that is not
mapped, as long as the tables are in reach. -/
theorem pagingTranslate_eq {m : Mem} (h : Windowed (tables m)) (virt : U32) :
    pagingTranslate m virt = some ((mmu m virt).getD 0) := by
  have hdir := h.reach (entryAddr_low dirFrame_low (slotOf virt))
  have hlow := fun t ht => h.low t ⟨slotOf virt, ht⟩
  unfold pagingTranslate
  rw [mmu_eq, walkOf_dir]
  obtain ⟨pde, hpde⟩ : ∃ pde, m.read32 (entryAddr dirFrame (slotOf virt)) = pde := ⟨_, rfl⟩
  rw [← read32_entryAddr, hpde] at hlow ⊢
  simp only [pagingDir_addr, hdir, Option.bind_eq_bind, Option.bind_some, hpde]
  unfold entryTarget at hlow ⊢
  by_cases h1 : pde &&& PAGE_PRESENT = 0
  · simp only [h1, if_true]
    rfl
  · rw [if_neg h1] at hlow
    have hreach := h.reach (entryAddr_low (hlow _ rfl) (indexOf virt))
    obtain ⟨pte, hpte⟩ : ∃ pte, m.read32 (entryAddr (frameOf pde) (indexOf virt)) = pte := ⟨_, rfl⟩
    simp only [h1, if_false, pagingEntry_addr, hreach, Option.bind_some, ← read32_entryAddr, hpte]
    split
    · rfl
    · rw [or_offset]
      rfl

end Frewozet
