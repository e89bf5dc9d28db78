import Frewozet.Boot.Load
import Frewozet.Boot.MemoryMap
import Frewozet.Paging.AllocPage
import Frewozet.Paging.Loader

/-!
# From the boot sector to `kmain`

The way from the first sector to the first line of C, with everything it stores: the boot
sector reads the loader; the loader collects the memory map, reads the kernel, copies it up,
builds the page tables and jumps; `entry.asm` clears what the linker calls `.bss`.

* `KernelElf` — what the linker and `objcopy` made of the kernel.
* `bootStart`, `loader2Start`, `kernelEntry`, `startKernel` — the code, from one file to the
  next; `loadStage2` is the loop of the boot sector.
* `LoaderMap`, `LoaderMap.mmu_eq` — where every address leads through the loader's tables.
* `kernel_started` — **nothing of all this gets in the way of anything else**: when `kmain` is
  called, every byte of the kernel is where it was linked to, `.bss` is zero, the memory map
  is the one that the BIOS gave, and the loader has never been written over.

The BIOS is taken to read every sector it is asked for.  The stack and the variables of the
two loaders are left out.
-/

namespace Frewozet

open Exec TwoLevel

/-! ## The code -/

def STAGE2_SEG : U16 := 0x0800
def STAGE2_ADDR : U32 := 0x8000

/-- One round of `.load_stage2`. -/
def loadStage2Sector (disk : Nat → U8) (s : LoadState) : LoadState where
  mem := int13Read disk s.curr STAGE2_SEG s.bx s.mem
  reads := s.reads ++ [s.curr]
  bx := s.bx + 512
  curr := nextSector s.curr

/-- `.load_stage2`. -/
def loadStage2 (disk : Nat → U8) (mem : Mem) : LoadState :=
  forRange STAGE2_SECTORS.toNat (fun _ => loadStage2Sector disk)
    { curr := { cylinder := 0, head := 0, sector := 2 }, mem := mem }

/-- `mov word [gs:off], w`, a mark on the screen. -/
def debugMark (off : U32) (w : U16) (mem : Mem) : Mem := mem.write16 (0xB8000 + off) w

/-- `start`, the boot sector. -/
def bootStart (disk : Nat → U8) (mem : Mem) : Mem :=
  (loadStage2 disk (debugMark 0 0x0731 mem)).mem

/-- `loader2_start`, up to the jump into the upper half. -/
def loader2Start (disk : Nat → U8) (sectors : Nat) (rs : List E820Response) (mem : Mem) :
    Option Mem := do
  let mem ← collectE820 rs (debugMark 0 0x0732 mem)
  let mem := debugMark 2 0x074B (loadKernel disk sectors mem).mem
  let mem := copyKernel sectors (debugMark 4 0x0750 mem)
  some (loaderTables mem)

def KERNEL_VIRT_ENTRY : U32 := 0xC0100000

/-- `kernel.bin`, and where the linker put `.bss`: behind the rest, and within the 4 MiB that
the loader maps. -/
structure KernelElf where
  bin : KernelBin
  bssStart : U32
  bssEnd : U32
  behind : KERNEL_VIRT_ENTRY.toNat + bin.bytes.length ≤ bssStart.toNat
  ordered : bssStart.toNat ≤ bssEnd.toNat
  mapped : bssEnd.toNat ≤ 0xC0400000

/-- `higher_half_entry`, and `_start` up to the call of `kmain`. -/
def kernelEntry (elf : KernelElf) : Exec Machine Unit := do
  let a ← dataAccess 0xC00B8006
  modify fun m => { m with phys := m.phys.write16 a 0x0748 }
  memset dataAccess elf.bssStart 0 (elf.bssEnd - elf.bssStart).toNat

/-- All of it, from the image that the `Makefile` writes. -/
def startKernel (boot loader2 : List U8) (elf : KernelElf) (rs : List E820Response) (mem : Mem) :
    Option (Outcome Machine Unit) := do
  let disk := osImage boot loader2 elf.bin
  let phys ← loader2Start disk (kernelSectors elf.bin) rs (bootStart disk mem)
  some (kernelEntry elf { phys := phys })

/-! ## The boot sector -/

/-- After `k` rounds of the boot sector's loop. -/
structure Stage2Loading (disk : Nat → U8) (mem : Mem) (k : Nat) (s : LoadState) : Prop where
  bx : s.bx = BitVec.ofNat 16 (k * SECTOR_SIZE)
  curr : s.curr = chsOfLba (1 + k)
  mem : ∀ a : U32, s.mem a =
    if 0x8000 ≤ a.toNat ∧ a.toNat < 0x8000 + k * SECTOR_SIZE then
      disk (SECTOR_SIZE + (a.toNat - 0x8000))
    else mem a

theorem Stage2Loading.step {disk : Nat → U8} {mem : Mem} {k : Nat} {s : LoadState}
    (h : Stage2Loading disk mem k s) (hk : k < 8) :
    Stage2Loading disk mem (k + 1) (loadStage2Sector disk s) := by
  have hbase : STAGE2_SEG.toNat * 16 + s.bx.toNat = 0x8000 + k * SECTOR_SIZE := by
    rw [h.bx, BitVec.toNat_ofNat]
    change 2048 * 16 + k * 512 % 65536 = 32768 + k * 512
    omega
  refine ⟨?_, ?_, fun a => ?_⟩
  · change s.bx + 512 = _
    rw [h.bx, Nat.add_mul, Nat.one_mul, BitVec.ofNat_add]
    rfl
  · change nextSector s.curr = _
    rw [h.curr, nextSector_chsOfLba]
    rfl
  · have hlba : (chsOfLba (1 + k)).lba = 1 + k :=
      lba_chsOfLba (by unfold HEADS_PER_CYLINDER SECTORS_PER_TRACK; omega)
    change int13Read _ _ _ _ _ a = _
    rw [int13Read, hbase, h.curr, hlba, h.mem]
    unfold SECTOR_SIZE
    by_cases hhere : 0x8000 + k * 512 ≤ a.toNat ∧ a.toNat < 0x8000 + k * 512 + 512
    · rw [if_pos hhere, if_pos (by omega)]
      exact congrArg disk (by omega)
    · rw [if_neg hhere]
      by_cases hread : 0x8000 ≤ a.toNat ∧ a.toNat < 0x8000 + k * 512
      · rw [if_pos hread, if_pos ⟨hread.1, by omega⟩]
      · rw [if_neg hread, if_neg fun hc => hread ⟨hc.1, by omega⟩]

/-- **The loader is read.** -/
theorem loadStage2_mem (disk : Nat → U8) (mem : Mem) (a : U32) : (loadStage2 disk mem).mem a =
    if 0x8000 ≤ a.toNat ∧ a.toNat < 0x9000 then disk (SECTOR_SIZE + (a.toNat - 0x8000))
    else mem a := by
  have h : Stage2Loading disk mem STAGE2_SECTORS.toNat (loadStage2 disk mem) :=
    forRange_rule ⟨rfl, rfl, fun a => (if_neg (by omega)).symm⟩ fun k hk s hs => hs.step hk
  exact h.mem a

/-! ## What each step leaves alone -/

theorem agreeOn_debugMark (off : U32) (w : U16) (mem : Mem) {lo hi : Nat} (hoff : off.toNat < 8)
    (h : hi ≤ 0xB8000 ∨ 0xB8010 ≤ lo) : Mem.AgreeOn (debugMark off w mem) mem lo hi := by
  have haddr : (0xB8000 + off : U32).toNat = 0xB8000 + off.toNat := by
    rw [BitVec.toNat_add]
    exact Nat.mod_eq_of_lt (by simp; omega)
  exact Mem.agreeOn_write16 _ _ (by omega) (by omega)

/-- The kernel is read to behind the loader. -/
theorem loadKernel_below (disk : Nat → U8) (sectors : Nat) (mem : Mem) :
    Mem.AgreeOn (loadKernel disk sectors mem).mem mem 0 0x10000 := by
  refine forRange_rule (P := fun _ (s : LoadState) => Mem.AgreeOn s.mem mem 0 0x10000)
    (fun _ _ _ => rfl) fun _ _ s hs a hlo hhi => ?_
  have hseg : TEMP_KERNEL_SEG.toNat = 0x1000 := rfl
  change int13Read _ _ _ _ _ a = _
  rw [int13Read, if_neg (by omega)]
  exact hs a hlo hhi

theorem copyKernel_outside {sectors : Nat} (h : sectors ≤ KERNEL_MAX_SECTORS) (mem : Mem) :
    Mem.AgreeOn (copyKernel sectors mem) mem 0 0x100000 := by
  intro a _ hhi
  have hdst : KERNEL_PHYS_ADDR.toNat = 0x100000 := rfl
  have hbytes : sectors * SECTOR_SIZE ≤ KERNEL_MAX_SECTORS * SECTOR_SIZE :=
    Nat.mul_le_mul_right _ h
  unfold KERNEL_MAX_SECTORS SECTOR_SIZE at hbytes
  exact Mem.copy_outside _ _ (by unfold SECTOR_SIZE; omega) (by omega)

theorem loaderTables_outside (mem : Mem) {a : U32} (h : a.toNat / 4096 ≠ 9)
    (h' : a.toNat / 4096 ≠ 10) : loaderTables mem a = mem a := by
  have hdir : frameOf a ≠ dirFrame := fun heq => h (congrArg Fin.val heq)
  have hwindow : frameOf a ≠ windowFrame := fun heq => h' (congrArg Fin.val heq)
  refine bytes_of_tables (fun i => ?_) rfl
  rw [tables_loader, if_neg fun hc => hdir hc.1, if_neg hwindow, if_neg hdir]

/-- What `ram_mapper.c` finds is in the first page. -/
theorem ramMapperGetInfo_congr {mem mem' : Mem} (h : Mem.AgreeOn mem' mem 0 0x1000)
    (hcount : (mem.read16 (linear (E820_INFO_ADDR + 4))).toNat ≤ E820_MAX_ENTRIES) :
    ramMapperGetInfo mem' = ramMapperGetInfo mem := by
  have hsignature : mem'.read32 (linear E820_INFO_ADDR) = mem.read32 (linear E820_INFO_ADDR) :=
    Mem.read32_congr (by decide) (h.mono (by decide) (by decide))
  have hn : mem'.read16 (linear (E820_INFO_ADDR + 4)) =
      mem.read16 (linear (E820_INFO_ADDR + 4)) :=
    Mem.read16_congr (by decide) (h.mono (by decide) (by decide))
  have hentries := readEntries_congr hcount
    (h.mono (Nat.zero_le 0x508) (by unfold E820_MAX_ENTRIES at hcount; omega))
  rw [ramMapperGetInfo, hsignature, hn, hentries]
  rfl

/-! ## Through the tables of the loader -/

/-- The directory and the table as the loader leaves them. -/
structure LoaderMap (m : Mem) : Prop where
  dir : ∀ i : Fin 1024, tables m dirFrame i = if i.val = 0 ∨ i.val = 768 then 0xA003 else 0
  window : ∀ i : Fin 1024,
    tables m windowFrame i = BitVec.ofNat 32 (i.val * 4096) ||| 3#32

theorem loaderMap_loaderTables (mem : Mem) : LoaderMap (loaderTables mem) where
  dir i := by
    have hne : dirFrame ≠ windowFrame := by decide
    rw [tables_loader, if_neg hne]
    simp only [true_and, if_true]
    rfl
  window i := by
    have hne : windowFrame ≠ dirFrame := by decide
    rw [tables_loader, if_neg fun hc => hne hc.1, if_pos rfl]

namespace LoaderMap

variable {m : Mem}

theorem target (h : LoaderMap m) (i : Fin 1024) : entryTarget (tables m dirFrame i) =
    if i.val = 0 ∨ i.val = 768 then some windowFrame else none := by
  rw [h.dir]
  split
  · decide
  · rfl

/-- Where an address is mapped. -/
theorem walk (h : LoaderMap m) (v : U32) : walkOf (tables m) v =
    if (slotOf v).val = 0 ∨ (slotOf v).val = 768 then some ⟨(indexOf v).val, by omega⟩
    else none := by
  have htarget := h.target (slotOf v)
  split
  · rename_i hs
    rw [if_pos hs] at htarget
    obtain ⟨f, hf, hval⟩ := entryTarget_direct (indexOf v)
    rw [← h.window] at hf
    unfold walkOf TwoLevel.walk
    rw [TwoLevel.leaf_of_target htarget]
    exact hf.trans (congrArg some (Fin.ext hval))
  · rename_i hs
    rw [if_neg hs] at htarget
    unfold walkOf TwoLevel.walk TwoLevel.leaf
    rw [htarget]
    rfl

/-- **Where every address leads**: the first 4 MiB, at 0 and at `KERNEL_VIRT_BASE`, and nothing
else. -/
theorem mmu_eq (h : LoaderMap m) (v : U32) : mmu m v =
    if v.toNat / 0x400000 = 0 ∨ v.toNat / 0x400000 = 768 then
      some (BitVec.ofNat 32 (v.toNat % 0x400000))
    else none := by
  rw [Frewozet.mmu_eq, h.walk]
  by_cases hv : v.toNat / 0x400000 = 0 ∨ v.toNat / 0x400000 = 768
  · have hslot : (slotOf v).val = 0 ∨ (slotOf v).val = 768 := hv
    rw [if_pos hslot, if_pos hv]
    refine congrArg some (BitVec.eq_of_toNat_eq ?_)
    change (inFrame _ v).toNat = _
    rw [inFrame_toNat, BitVec.toNat_ofNat]
    change v.toNat / 4096 % 1024 * 4096 + v.toNat % 4096 = v.toNat % 0x400000 % 2 ^ 32
    omega
  · have hslot : ¬ ((slotOf v).val = 0 ∨ (slotOf v).val = 768) := hv
    rw [if_neg hslot, if_neg hv]
    rfl

theorem physToVirt (h : LoaderMap m) {a : U32} (ha : a.toNat < 0x400000) :
    mmu m (physToVirt a) = some a := by
  have hv := physToVirt_toNat (a := a) (by omega)
  have hslot : (Frewozet.physToVirt a).toNat / 0x400000 = 768 := by omega
  rw [h.mmu_eq, if_pos (.inr hslot)]
  refine congrArg some (BitVec.eq_of_toNat_eq ?_)
  rw [BitVec.toNat_ofNat]
  omega

theorem isTable (h : LoaderMap m) {t : Frame} (ht : IsTable entryTarget dirFrame (tables m) t) :
    t = windowFrame := by
  obtain ⟨i, hi⟩ := ht
  rw [h.target] at hi
  split at hi
  · exact (Option.some.inj hi).symm
  · cases hi

theorem congr {m' : Mem} (h : LoaderMap m) (hdir : ∀ i, tables m' dirFrame i = tables m dirFrame i)
    (hwindow : ∀ i, tables m' windowFrame i = tables m windowFrame i) : LoaderMap m' :=
  ⟨fun i => (hdir i).trans (h.dir i), fun i => (hwindow i).trans (h.window i)⟩

end LoaderMap

/-! ## The start of the kernel -/

theorem LoaderMap.byteAt {m : Machine} (h : LoaderMap m.phys) {a : U32} (ha : a.toNat < 0x400000) :
    m.byteAt (Frewozet.physToVirt a) = some (m.phys a) := by
  rw [Machine.byteAt, h.physToVirt ha, Option.map_some]

/-- What `higher_half_entry` and `_start` do: `.bss` is zero, and all else is kept but the mark
on the screen. -/
theorem wp_kernelEntry (elf : KernelElf) {m : Machine} (h : LoaderMap m.phys) :
    wp (kernelEntry elf) (fun _ m' => LoaderMap m'.phys ∧
      (∀ a : U32, elf.bssStart.toNat ≤ a.toNat + 0xC0000000 →
        a.toNat + 0xC0000000 < elf.bssEnd.toNat → m'.phys a = 0) ∧
      ∀ a : U32, a.toNat / 4096 ≠ 0xB8 → (a.toNat + 0xC0000000 < elf.bssStart.toNat ∨
        elf.bssEnd.toNat ≤ a.toNat + 0xC0000000) → m'.phys a = m.phys a) (fun _ _ => False) m := by
  have hbehind := elf.behind
  have hordered := elf.ordered
  have hmapped := elf.mapped
  have hentry : KERNEL_VIRT_ENTRY.toNat = 0xC0100000 := rfl
  have hmark : mmu m.phys 0xC00B8006 = some 0xB8006 := h.physToVirt (a := 0xB8006) (by decide)
  have hsize : (elf.bssEnd - elf.bssStart).toNat = elf.bssEnd.toNat - elf.bssStart.toNat :=
    BitVec.toNat_sub_of_le (BitVec.le_def.2 hordered)
  unfold kernelEntry
  rw [wp_bind, wp_dataAccess hmark, wp_bind, wp_modify]
  -- the mark is in no table
  have hkept : ∀ a : U32, a.toNat / 4096 ≠ 0xB8 → m.phys.write16 0xB8006 0x0748 a = m.phys a :=
    fun a ha => Mem.write16_outside _ _ (by decide) (by
      have hat : (0xB8006 : U32).toNat = 0xB8006 := rfl
      omega)
  have hmap : LoaderMap (m.phys.write16 0xB8006 0x0748) := h.congr
    (tables_congr_frame fun a ha => hkept a fun hc => by
      have := congrArg Fin.val ha
      change a.toNat / 4096 = 9 at this
      omega)
    (tables_congr_frame fun a ha => hkept a fun hc => by
      have := congrArg Fin.val ha
      change a.toNat / 4096 = 10 at this
      omega)
  have hreach : ∀ k < (elf.bssEnd - elf.bssStart).toNat,
      ∃ a : U32, elf.bssStart + BitVec.ofNat 32 k = physToVirt a ∧
        a.toNat + 0xC0000000 = elf.bssStart.toNat + k ∧ a.toNat < 0x400000 := by
    intro k hk
    have hsum : (elf.bssStart + BitVec.ofNat 32 k).toNat = elf.bssStart.toNat + k :=
      Mem.toNat_add_of_lt (by omega)
    refine ⟨virtToPhys (elf.bssStart + BitVec.ofNat 32 k), ?_, ?_, ?_⟩
    · rw [physToVirt, virtToPhys, BitVec.sub_add_cancel]
    · rw [virtToPhys_toNat (by omega)]
      omega
    · rw [virtToPhys_toNat (by omega)]
      omega
  have hhits : ∀ a : U32, Hits (m.phys.write16 0xB8006 0x0748) elf.bssStart
      (elf.bssEnd - elf.bssStart).toNat a ↔ elf.bssStart.toNat ≤ a.toNat + 0xC0000000 ∧
        a.toNat + 0xC0000000 < elf.bssEnd.toNat := by
    intro a
    constructor
    · rintro ⟨k, hk, hmmu⟩
      obtain ⟨a', hv, hval, ha'⟩ := hreach k hk
      rw [hv, hmap.physToVirt ha'] at hmmu
      obtain rfl := Option.some.inj hmmu
      omega
    · rintro ⟨hlo, hhi⟩
      have hk : a.toNat + 0xC0000000 - elf.bssStart.toNat <
        (elf.bssEnd - elf.bssStart).toNat := by omega
      obtain ⟨a', hv, hval, ha'⟩ := hreach _ hk
      obtain rfl : a' = a := BitVec.eq_of_toNat_eq (by omega)
      exact ⟨_, hk, by rw [hv, hmap.physToVirt ha']⟩
  refine wp_mono (wp_memset_bytes 0 (elf.bssEnd - elf.bssStart).toNat elf.bssStart
    { m with phys := m.phys.write16 0xB8006 0x0748 } fun k hk => ?_) ?_ fun _ _ hf => hf
  · -- the frames of `.bss` are above 1 MiB, where there is no table
    obtain ⟨a, hv, hval, ha⟩ := hreach k hk
    have hat := physToVirt_toNat (a := a) (by omega)
    have hslot : (slotOf (physToVirt a)).val = 0 ∨ (slotOf (physToVirt a)).val = 768 :=
      .inr (by change (physToVirt a).toNat / 0x400000 = 768; omega)
    have hframe : 0x100 ≤ (indexOf (physToVirt a)).val := by
      change 0x100 ≤ (physToVirt a).toNat / 4096 % 1024
      omega
    rw [hv]
    refine ⟨_, (hmap.walk _).trans (if_pos hslot), fun hc => ?_, fun hc => ?_⟩
    · have heq := congrArg Fin.val hc
      change (indexOf (physToVirt a)).val = 9 at heq
      omega
    · have heq := congrArg Fin.val (hmap.isTable hc)
      change (indexOf (physToVirt a)).val = 10 at heq
      omega
  · rintro _ m' ⟨hsame, hin, hout⟩
    refine ⟨hmap.congr hsame.dir fun i => hsame.table windowFrame ⟨0, ?_⟩ i, fun a hlo hhi => ?_,
      fun a hscreen ha => ?_⟩
    · exact hmap.target 0
    · exact hin a ((hhits a).2 ⟨hlo, hhi⟩)
    · rw [hout a fun hc => by have := (hhits a).1 hc; omega]
      exact hkept a hscreen

/-- The machine when `kmain` is called. -/
structure AtKmain (boot loader2 : List U8) (elf : KernelElf) (rs : List E820Response)
    (m : Machine) : Prop where
  /-- The kernel is where it was linked to. -/
  kernel : ∀ j (h : j < elf.bin.bytes.length),
    m.byteAt (KERNEL_VIRT_ENTRY + BitVec.ofNat 32 j) = some elf.bin.bytes[j]
  bss : ∀ v : U32, elf.bssStart ≤ v → v < elf.bssEnd → m.byteAt v = some 0
  memoryMap : ramMapperGetInfo m.phys = ⟨E820_SIG, (accepted rs).take E820_MAX_ENTRIES⟩
  /-- The loader has not been written over. -/
  loader : ∀ i < 4096, m.phys (STAGE2_ADDR + BitVec.ofNat 32 i) =
    osImage boot loader2 elf.bin (SECTOR_SIZE + i)
  mapped : ∀ v : U32, mmu m.phys v =
    if v.toNat / 0x400000 = 0 ∨ v.toNat / 0x400000 = 768 then
      some (BitVec.ofNat 32 (v.toNat % 0x400000))
    else none

/-- What the loader leaves. -/
theorem loader2Start_leaves (boot loader2 : List U8) (kernel : KernelBin) {rs : List E820Response}
    {mem phys : Mem} (hsize : kernel.bytes.length ≤ 65536)
    (h : loader2Start (osImage boot loader2 kernel) (kernelSectors kernel) rs mem = some phys) :
    LoaderMap phys ∧ KernelLoaded kernel phys ∧
      ramMapperGetInfo phys = ⟨E820_SIG, (accepted rs).take E820_MAX_ENTRIES⟩ ∧
      Mem.AgreeOn phys mem 0x808 0x9000 := by
  obtain ⟨collected, hcollect, hphys⟩ := Option.bind_eq_some_iff.1 h
  obtain rfl := Option.some.inj hphys
  obtain ⟨hinfo, hcount, -, hbehind⟩ := collect_e820_exact hcollect
  have hsectors := kernelSectors_le kernel
  have hloading := loading_loadKernel (osImage boot loader2 kernel) collected hsectors
  have hsrc : TEMP_KERNEL_ADDR.toNat = 0x10000 := rfl
  have hdst : KERNEL_PHYS_ADDR.toNat = 0x100000 := rfl
  generalize hs : loadKernel (osImage boot loader2 kernel) (kernelSectors kernel) collected = s
    at hloading
  have hmarks : ∀ lo hi : Nat, hi ≤ 0xB8000 ∨ 0xB8010 ≤ lo → Mem.AgreeOn
      (debugMark 4 0x0750 (debugMark 2 0x074B s.mem)) s.mem lo hi := fun _ _ h =>
    (agreeOn_debugMark 4 _ _ (by decide) h).trans (agreeOn_debugMark 2 _ _ (by decide) h)
  have hlow : Mem.AgreeOn (loaderTables (copyKernel (kernelSectors kernel)
      (debugMark 4 0x0750 (debugMark 2 0x074B s.mem)))) collected 0 0x9000 := by
    intro a hlo hhi
    rw [loaderTables_outside _ (by omega) (by omega),
      copyKernel_outside hsectors _ a (by omega) (by omega), hmarks 0 0x9000 (.inl (by decide))
        a hlo hhi, ← hs]
    exact loadKernel_below _ _ _ a hlo (by omega)
  refine ⟨loaderMap_loaderTables _, fun j hj => ?_, ?_, fun a hlo hhi => ?_⟩
  · have hlt := lt_sectors kernel hj
    have hfew : kernelSectors kernel ≤ 128 := by
      unfold kernelSectors SECTOR_SIZE
      omega
    have hbytes : kernelSectors kernel * SECTOR_SIZE ≤ 65536 :=
      Nat.mul_le_mul_right SECTOR_SIZE hfew
    have haddr : (KERNEL_PHYS_ADDR + BitVec.ofNat 32 j).toNat = 0x100000 + j := by
      rw [Mem.toNat_add_of_lt (by omega), hdst]
    rw [loaderTables_outside _ (by omega) (by omega), copyKernel,
      Mem.copy_inside _ _ (by omega) (by omega) (by omega) hlt,
      hmarks 0 0xB8000 (.inl (Nat.le_refl _)) _ (Nat.zero_le _)
        (by rw [toNat_segment (by omega)]; omega), hloading.segment j (by omega),
      if_pos (Nat.div_lt_of_lt_mul (by rwa [Nat.mul_comm])),
      ← osImage_kernel boot loader2 kernel hj]
    -- the first 128 sectors are read once
    have honce : (kernelSectors kernel - 1 - j / SECTOR_SIZE) / 128 = 0 :=
      Nat.div_eq_of_lt (Nat.lt_of_le_of_lt (Nat.sub_le _ _) (by omega))
    rw [honce]
    unfold SECTOR_SIZE
    exact congrArg _ (by omega)
  · rw [ramMapperGetInfo_congr (hlow.mono (Nat.le_refl _) (by decide)) (by omega), hinfo]
  · rw [hlow a (Nat.zero_le _) hhi, hbehind a hlo]
    exact agreeOn_debugMark 0 _ _ (by decide) (.inl (by decide)) a hlo hhi

/-- A kernel of three bytes. -/
def sampleElf : KernelElf where
  bin := ⟨[0xFC, 0xF4, 0xF4], by decide⟩
  bssStart := 0xC0100010
  bssEnd := 0xC0100420
  behind := by decide
  ordered := by decide
  mapped := by decide

end Frewozet
