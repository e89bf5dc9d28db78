import Frewozet.Base.Bytes
import Frewozet.Base.TwoLevel
import Frewozet.Pmm.Alloc

/-!
# Page tables in memory

How the processor translates an address, and the tables it walks seen as a
two-level store of entries.

* `mmu` — the walk the hardware does, from the page directory `cr3` points to.
* `Frame`, `tables` — the entries held in each frame of physical memory; `mmu_eq`
  says the hardware walk is the walk of the two-level store.
* `tables_write32`, `tables_fill` — storing a word of a frame sets one entry, and
  zeroing a frame clears it.
* `Windowed` — the first 4 MiB of physical memory are mapped at
  `KERNEL_VIRT_BASE`, and every table lies in them; `Windowed.reach` is what the
  kernel relies on when it writes to a table.
-/

namespace Frewozet

open Word

def PAGE_SIZE : Nat := 4096
def PAGE_DIR_PHYS : U32 := 0x9000
def PAGE_TABLE0_PHYS : U32 := 0xA000

/-- `paging_dir_index`. -/
def pagingDirIndex (virtAddr : U32) : U32 := virtAddr >>> 22

/-- `paging_table_index`. -/
def pagingTableIndex (virtAddr : U32) : U32 := (virtAddr >>> 12) &&& 0x3FF#32

/-- `paging_align_down`. -/
def pagingAlignDown (addr : U32) : U32 := addr &&& 0xFFFFF000#32

/-- What the memory management unit makes of an address: the walk through the
directory at `PAGE_DIR_PHYS`, which the loader has put in `cr3`.  Supervisor
accesses are not checked against the writable bit. -/
def mmu (m : Mem) (virt : U32) : Option U32 :=
  let pde := m.read32 (PAGE_DIR_PHYS + pagingDirIndex virt * 4)
  if pde &&& PAGE_PRESENT = 0 then none
  else
    let pte := m.read32 ((pde &&& 0xFFFFF000#32) + pagingTableIndex virt * 4)
    if pte &&& PAGE_PRESENT = 0 then none
    else some ((pte &&& 0xFFFFF000#32) ||| (virt &&& 0xFFF#32))

/-! ## Frames and entries -/

/-- The number of a 4 KiB frame of physical memory. -/
abbrev Frame := Fin 0x100000

/-- The frame an address lies in. -/
def frameOf (a : U32) : Frame := ⟨a.toNat / 4096, by have := a.isLt; omega⟩

/-- The frame an entry points to, if it is present. -/
def entryTarget (e : U32) : Option Frame :=
  if e &&& PAGE_PRESENT = 0 then none else some (frameOf e)

/-- Where in memory an entry lies. -/
def entryAddr (f : Frame) (i : Fin 1024) : U32 := BitVec.ofNat 32 (f.val * 4096 + 4 * i.val)

/-- The entries held in each frame. -/
def tables (m : Mem) : Frame → Fin 1024 → U32 := fun f i => m.read32 (entryAddr f i)

/-- The frame of the page directory. -/
def dirFrame : Frame := 9

/-- The frame of the table the loader builds. -/
def windowFrame : Frame := 10

/-- Which entry of the directory an address goes through. -/
def slotOf (virt : U32) : Fin 1024 := ⟨virt.toNat / 0x400000, by have := virt.isLt; omega⟩

/-- Which entry of the table it goes through. -/
def indexOf (virt : U32) : Fin 1024 := ⟨virt.toNat / 4096 % 1024, Nat.mod_lt _ (by decide)⟩

theorem entryAddr_toNat (f : Frame) (i : Fin 1024) :
    (entryAddr f i).toNat = f.val * 4096 + 4 * i.val := by
  have := f.isLt
  have := i.isLt
  rw [entryAddr, BitVec.toNat_ofNat]
  omega

theorem frameAddr_frame (f : Frame) : (frameAddr f.val).toNat = f.val * 4096 :=
  frameAddr_toNat f.isLt

theorem frameOf_frameAddr (f : Frame) : frameOf (frameAddr f.val) = f := by
  apply Fin.ext
  change (frameAddr f.val).toNat / 4096 = f.val
  rw [frameAddr_frame]
  omega

theorem present_iff (e : U32) : e &&& PAGE_PRESENT = 0 ↔ e.toNat % 2 = 0 := and_one_eq_zero e

theorem entryTarget_zero : entryTarget 0 = none := rfl

/-- The entry the kernel writes for a frame points to it. -/
theorem entryTarget_or (a flags : U32) :
    entryTarget ((a &&& 0xFFFFF000#32) ||| (flags &&& 0xFFF#32) ||| PAGE_PRESENT) =
      some (frameOf a) := by
  have hlow : ((flags &&& 0xFFF#32) ||| PAGE_PRESENT).toNat < 4096 := by
    refine or_toNat_lt (k := 12) ?_ (by decide)
    have := and_low_toNat flags
    omega
  have hhigh := and_high_toNat a
  have hsum : ((a &&& 0xFFFFF000#32) ||| (flags &&& 0xFFF#32) ||| PAGE_PRESENT).toNat =
      a.toNat / 4096 * 4096 + ((flags &&& 0xFFF#32) ||| PAGE_PRESENT).toNat := by
    rw [BitVec.or_assoc, or_low_toNat (by omega) hlow, hhigh]
  have hodd : ¬ ((a &&& 0xFFFFF000#32) ||| (flags &&& 0xFFF#32) ||| PAGE_PRESENT) &&&
      PAGE_PRESENT = 0 := by
    intro hc
    have hbit := congrArg (fun w => BitVec.getLsbD w 0) hc
    simp [PAGE_PRESENT] at hbit
  rw [entryTarget, if_neg hodd]
  refine congrArg some (Fin.ext ?_)
  change _ / 4096 = a.toNat / 4096
  rw [hsum]
  omega

/-! ## The hardware walk is a two-level walk -/

theorem dirEntry_addr (virt : U32) :
    PAGE_DIR_PHYS + pagingDirIndex virt * 4 = entryAddr dirFrame (slotOf virt) := by
  apply BitVec.eq_of_toNat_eq
  have hshift : (pagingDirIndex virt).toNat = virt.toNat / 0x400000 := by
    rw [pagingDirIndex, BitVec.toNat_ushiftRight, Nat.shiftRight_eq_div_pow]
  have hdir : PAGE_DIR_PHYS.toNat = 0x9000 := rfl
  have hframe : dirFrame.val = 9 := rfl
  have hslot : (slotOf virt).val = virt.toNat / 0x400000 := rfl
  have := virt.isLt
  rw [entryAddr_toNat, BitVec.toNat_add, BitVec.toNat_mul, hshift, hdir, hframe, hslot,
    show (4 : U32).toNat = 4 from rfl]
  omega

theorem tableIndex_toNat (virt : U32) : (pagingTableIndex virt).toNat = (indexOf virt).val := by
  rw [pagingTableIndex, and_ten_toNat, BitVec.toNat_ushiftRight, Nat.shiftRight_eq_div_pow]
  rfl

theorem tableEntry_addr (e virt : U32) :
    (e &&& 0xFFFFF000#32) + pagingTableIndex virt * 4 = entryAddr (frameOf e) (indexOf virt) := by
  apply BitVec.eq_of_toNat_eq
  have := (indexOf virt).isLt
  have := e.isLt
  have hframe : (frameOf e).val = e.toNat / 4096 := rfl
  rw [entryAddr_toNat, BitVec.toNat_add, BitVec.toNat_mul, tableIndex_toNat, and_high_toNat, hframe,
    show (4 : U32).toNat = 4 from rfl]
  omega

/-- The entry an address ends at. -/
abbrev leafOf (T : Frame → Fin 1024 → U32) (virt : U32) : Option U32 :=
  TwoLevel.leaf entryTarget dirFrame T (slotOf virt) (indexOf virt)

/-- The frame an address ends in. -/
abbrev walkOf (T : Frame → Fin 1024 → U32) (virt : U32) : Option Frame :=
  TwoLevel.walk entryTarget dirFrame T (slotOf virt) (indexOf virt)

/-- An address inside a frame. -/
def inFrame (f : Frame) (virt : U32) : U32 := BitVec.ofNat 32 (f.val * 4096 + virt.toNat % 4096)

theorem inFrame_toNat (f : Frame) (virt : U32) :
    (inFrame f virt).toNat = f.val * 4096 + virt.toNat % 4096 := by
  have := f.isLt
  rw [inFrame, BitVec.toNat_ofNat]
  omega

theorem or_offset (e virt : U32) :
    (e &&& 0xFFFFF000#32) ||| (virt &&& 0xFFF#32) = inFrame (frameOf e) virt := by
  apply BitVec.eq_of_toNat_eq
  have hhigh := and_high_toNat e
  have hlow := and_low_toNat virt
  rw [or_low_toNat (by omega) (by omega), hhigh, hlow, inFrame_toNat]
  rfl

theorem read32_entryAddr (m : Mem) (f : Frame) (i : Fin 1024) :
    m.read32 (entryAddr f i) = tables m f i := rfl

/-- **The hardware walk.** -/
theorem mmu_eq (m : Mem) (virt : U32) :
    mmu m virt = (walkOf (tables m) virt).map fun f => inFrame f virt := by
  unfold mmu walkOf TwoLevel.walk TwoLevel.leaf
  dsimp only
  rw [dirEntry_addr, read32_entryAddr]
  generalize tables m dirFrame (slotOf virt) = pde
  unfold entryTarget
  by_cases h1 : pde &&& PAGE_PRESENT = 0
  · rw [if_pos h1, if_pos h1]
    rfl
  · rw [if_neg h1, if_neg h1, tableEntry_addr, Option.map_some, Option.bind_some, read32_entryAddr]
    generalize tables m (frameOf pde) (indexOf virt) = pte
    split
    · rfl
    · rw [or_offset]
      rfl

/-! ## What a store does to the entries -/

theorem entryAddr_apart {f f' : Frame} {i i' : Fin 1024} (h : ¬ (f' = f ∧ i' = i)) :
    (entryAddr f i).toNat + 4 ≤ (entryAddr f' i').toNat ∨
      (entryAddr f' i').toNat + 4 ≤ (entryAddr f i).toNat := by
  rw [Fin.ext_iff, Fin.ext_iff] at h
  have := i.isLt
  have := i'.isLt
  rw [entryAddr_toNat, entryAddr_toNat]
  omega

theorem entryAddr_le (f : Frame) (i : Fin 1024) : (entryAddr f i).toNat + 4 ≤ 2 ^ 32 := by
  have := f.isLt
  have := i.isLt
  rw [entryAddr_toNat]
  omega

/-- Storing a word at an entry. -/
theorem tables_write32 (m : Mem) (f : Frame) (i : Fin 1024) (w : U32) :
    tables (m.write32 (entryAddr f i) w) = TwoLevel.setEntry (tables m) f i w := by
  funext f' i'
  unfold tables TwoLevel.setEntry
  split
  · rename_i h
    rw [h.1, h.2, Mem.read32_write32]
  · rename_i h
    exact Mem.read32_write32_apart m w (entryAddr_le f i) (entryAddr_le f' i') (entryAddr_apart h)

/-- The entries of a frame depend on its own bytes only. -/
theorem tables_congr_frame {m m' : Mem} {f : Frame} (h : ∀ a : U32, frameOf a = f → m' a = m a)
    (i : Fin 1024) : tables m' f i = tables m f i := by
  refine Mem.read32_congr (entryAddr_le f i) fun a h1 h2 => h a (Fin.ext ?_)
  have hi := i.isLt
  rw [entryAddr_toNat] at h1 h2
  change a.toNat / 4096 = f.val
  omega

/-- Bytes written inside one frame leave the entries of the others alone. -/
theorem tables_congr_outside {m m' : Mem} {f : Frame}
    (h : ∀ a : U32, a.toNat / 4096 ≠ f.val → m' a = m a) {f' : Frame} (hf : f' ≠ f) (i : Fin 1024) :
    tables m' f' i = tables m f' i :=
  tables_congr_frame (fun a ha => h a fun hc => hf (ha.symm.trans (Fin.ext hc))) i

/-- The entries of a frame are all of its bytes. -/
theorem bytes_of_tables {m m' : Mem} {f : Frame} (h : ∀ i, tables m' f i = tables m f i) {a : U32}
    (ha : frameOf a = f) : m' a = m a := by
  have hframe : a.toNat / 4096 = f.val := congrArg Fin.val ha
  obtain ⟨i, hi⟩ : ∃ i : Fin 1024, i.val = a.toNat % 4096 / 4 := ⟨⟨_, by omega⟩, rfl⟩
  have haddr : a = entryAddr f i + BitVec.ofNat 32 (a.toNat % 4) := by
    apply BitVec.eq_of_toNat_eq
    have hle := entryAddr_le f i
    rw [Mem.toNat_add_of_lt (by omega), entryAddr_toNat]
    omega
  rw [haddr]
  exact Mem.byte_of_read32 (h i) (Nat.mod_lt _ (by decide))

/-- Zeroing a frame. -/
theorem tables_fill (m : Mem) (f : Frame) :
    tables (m.fill (frameAddr f.val) 0 4096) = TwoLevel.clear (tables m) f 0 := by
  have haddr := frameAddr_frame f
  have hlt := f.isLt
  funext f' i
  unfold TwoLevel.clear
  split
  · rename_i h
    subst h
    have hi := i.isLt
    have hbyte : ∀ k < 4,
        m.fill (frameAddr f'.val) 0 4096 (entryAddr f' i + BitVec.ofNat 32 k) = 0 := by
      intro k hk
      have hle := entryAddr_le f' i
      have hsum := Mem.toNat_add_of_lt (a := entryAddr f' i) (k := k) (by omega)
      rw [entryAddr_toNat] at hsum
      exact Mem.fill_inside 0 4096 m (by omega) (by omega) (by omega)
    have h0 := hbyte 0 (by decide)
    have h1 := hbyte 1 (by decide)
    have h2 := hbyte 2 (by decide)
    have h3 := hbyte 3 (by decide)
    rw [show entryAddr f' i + BitVec.ofNat 32 0 = entryAddr f' i from BitVec.add_zero _] at h0
    unfold tables Mem.read32
    rw [h3, h2, h1, h0]
    rfl
  · rename_i h
    refine tables_congr_outside (f := f) (fun a ha => ?_) h i
    exact Mem.fill_outside 0 4096 m (by omega) (by omega)

/-! ## The direct map -/

/-- The directory entry the direct map hangs at. -/
def windowSlot : Fin 1024 := 768

/-- The tables are in order: no table hangs twice, the first 4 MiB are mapped at
`KERNEL_VIRT_BASE`, frame by frame, and all tables lie in them. -/
structure Windowed (T : Frame → Fin 1024 → U32) : Prop where
  proper : TwoLevel.Proper entryTarget dirFrame T
  window : entryTarget (T dirFrame windowSlot) = some windowFrame
  direct : ∀ i : Fin 1024, ∃ f : Frame, entryTarget (T windowFrame i) = some f ∧ f.val = i.val
  low : ∀ t, TwoLevel.IsTable entryTarget dirFrame T t → t.val < 1024

theorem slotOf_physToVirt {a : U32} (h : a.toNat < 0x400000) :
    slotOf (physToVirt a) = windowSlot := by
  apply Fin.ext
  change (physToVirt a).toNat / 0x400000 = 768
  rw [physToVirt_toNat (by omega)]
  omega

/-- Where an address of the direct map goes. -/
theorem Windowed.walk {T : Frame → Fin 1024 → U32} (h : Windowed T) {v : U32}
    (hs : slotOf v = windowSlot) : ∃ f : Frame, walkOf T v = some f ∧ f.val = (indexOf v).val := by
  obtain ⟨f, hf, hi⟩ := h.direct (indexOf v)
  refine ⟨f, ?_, hi⟩
  unfold walkOf TwoLevel.walk
  rw [hs, TwoLevel.leaf_of_target h.window]
  exact hf

/-- **The direct map reaches the first 4 MiB.** -/
theorem Windowed.reach {m : Mem} (h : Windowed (tables m)) {a : U32} (ha : a.toNat < 0x400000) :
    mmu m (physToVirt a) = some a := by
  obtain ⟨f, hwalk, hi⟩ := h.walk (slotOf_physToVirt ha)
  have hv := physToVirt_toNat (a := a) (by omega)
  rw [mmu_eq, hwalk]
  refine congrArg some (BitVec.eq_of_toNat_eq ?_)
  have hindex : (indexOf (physToVirt a)).val = (physToVirt a).toNat / 4096 % 1024 := rfl
  rw [inFrame_toNat, hi, hindex, hv]
  omega

end Frewozet
