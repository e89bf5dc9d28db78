import Frewozet.Base.Bytes
import Frewozet.Base.Loop

/-!
# Loading the kernel

`loader2.asm` reads the sectors of the kernel into the 64 KiB segment at `TEMP_KERNEL_ADDR`
and copies them to 1 MiB; the `Makefile` has put them into the image, and says how many
there are.

* `KernelBin`, `kernelSectors`, `osImage` — what the `Makefile` accepts and writes.
* `lbaToChsFromKernelStart`, `nextSector`, `loadSector`, `loadKernel`, `copyKernel` — the
  code; `int13Read` is the BIOS.
* `nextSector_chsOfLba` — the carries from sector to head to cylinder are the divisions.
* `Loading` — the invariant of the loop; `loading_loadKernel`.
* `bootedMemory_byte` — what is at 1 MiB in the end.
* `kernelLoaded_of_le`, `kernel_loaded_iff` — **it is the kernel** up to 64 KiB, and beyond
  exactly if nothing was lost where the offset wraps around.
-/

namespace Frewozet

/-! ## The image -/

def SECTOR_SIZE : Nat := 512
def KERNEL_MAX_SECTORS : Nat := 256

/-- A `kernel.bin` that the `Makefile` accepts. -/
structure KernelBin where
  bytes : List U8
  fits : bytes.length ≤ KERNEL_MAX_SECTORS * SECTOR_SIZE

/-- `KERNEL_SECTORS`. -/
def kernelSectors (kernel : KernelBin) : Nat :=
  (kernel.bytes.length + SECTOR_SIZE - 1) / SECTOR_SIZE

/-- `dd if=file of=img bs=512 seek=seek conv=notrunc`. -/
def dd (file : List U8) (seek : Nat) (img : Nat → U8) (i : Nat) : U8 :=
  if seek * SECTOR_SIZE ≤ i ∧ i < seek * SECTOR_SIZE + file.length then
    file.getD (i - seek * SECTOR_SIZE) 0
  else img i

/-- `os.img`: zeros, the boot sector, the loader and the kernel. -/
def osImage (boot loader2 : List U8) (kernel : KernelBin) : Nat → U8 :=
  dd kernel.bytes 9 (dd loader2 1 (dd boot 0 fun _ => 0))

/-! ## The code -/

def TEMP_KERNEL_SEG : U16 := 0x1000
def TEMP_KERNEL_ADDR : U32 := 0x00010000
def KERNEL_PHYS_ADDR : U32 := 0x00100000
def SECTORS_PER_TRACK : Nat := 18
def HEADS_PER_CYLINDER : Nat := 2
def STAGE2_SECTORS : U16 := 8

/-- `curr_cylinder`, `curr_head` and `curr_sector`. -/
structure Chs where
  cylinder : U8
  head : U8
  sector : U8
deriving DecidableEq

/-- The sector on the disk. -/
def Chs.lba (c : Chs) : Nat :=
  (c.cylinder.toNat * HEADS_PER_CYLINDER + c.head.toNat) * SECTORS_PER_TRACK + c.sector.toNat - 1

/-- `lba_to_chs_from_kernel_start`: 16-bit divisions, of which the low bytes are stored. -/
def lbaToChsFromKernelStart (kernelLbaStart : U16) : Chs :=
  let ax := kernelLbaStart - 1
  let dx := ax % 18
  let ax := ax / 18
  { sector := dx.setWidth 8 + 1
    cylinder := (ax / 2).setWidth 8
    head := (ax % 2).setWidth 8 }

/-- The three `inc` of `.load_kernel`. -/
def nextSector (c : Chs) : Chs :=
  let c := { c with sector := c.sector + 1 }
  if c.sector ≠ 18 + 1 then c
  else
    let c := { c with sector := 1, head := c.head + 1 }
    if c.head ≠ 2 then c else { c with head := 0, cylinder := c.cylinder + 1 }

/-- `int 13h` with `ah = 02h`, for one sector: it is copied to `es:bx`. -/
def int13Read (disk : Nat → U8) (c : Chs) (es bx : U16) (mem : Mem) : Mem := fun a =>
  if es.toNat * 16 + bx.toNat ≤ a.toNat ∧ a.toNat < es.toNat * 16 + bx.toNat + SECTOR_SIZE then
    disk (c.lba * SECTOR_SIZE + (a.toNat - (es.toNat * 16 + bx.toNat)))
  else mem a

/-- The registers and variables of the loop.  `es` is `TEMP_KERNEL_SEG` in it. -/
structure LoadState where
  bx : U16 := 0
  curr : Chs
  mem : Mem
  /-- Ghost: the sectors that were read. -/
  reads : List Chs := []

/-- One round of `.load_kernel`. -/
def loadSector (disk : Nat → U8) (s : LoadState) : LoadState where
  mem := int13Read disk s.curr TEMP_KERNEL_SEG s.bx s.mem
  reads := s.reads ++ [s.curr]
  bx := s.bx + 512
  curr := nextSector s.curr

/-- `.load_kernel`: `sectors_left` counts the rounds. -/
def loadKernel (disk : Nat → U8) (sectors : Nat) (mem : Mem) : LoadState :=
  forRange sectors (fun _ => loadSector disk)
    { curr := lbaToChsFromKernelStart (STAGE2_SECTORS + 2), mem := mem }

/-- `rep movsb`, of `KERNEL_SECTORS << 9` bytes. -/
def copyKernel (sectors : Nat) (mem : Mem) : Mem :=
  mem.copy TEMP_KERNEL_ADDR KERNEL_PHYS_ADDR (sectors * SECTOR_SIZE)

/-! ## Cylinders, heads and sectors -/

/-- Where a sector is. -/
def chsOfLba (lba : Nat) : Chs where
  cylinder := BitVec.ofNat 8 (lba / SECTORS_PER_TRACK / HEADS_PER_CYLINDER)
  head := BitVec.ofNat 8 (lba / SECTORS_PER_TRACK % HEADS_PER_CYLINDER)
  sector := BitVec.ofNat 8 (lba % SECTORS_PER_TRACK + 1)

/-- There it is, on a disk of up to 256 cylinders. -/
theorem lba_chsOfLba {lba : Nat} (h : lba < 256 * HEADS_PER_CYLINDER * SECTORS_PER_TRACK) :
    (chsOfLba lba).lba = lba := by
  simp only [Chs.lba, chsOfLba, BitVec.toNat_ofNat]
  unfold HEADS_PER_CYLINDER SECTORS_PER_TRACK at *
  omega

/-- **The divisions** of the loader. -/
theorem lbaToChsFromKernelStart_eq (start : U16) :
    lbaToChsFromKernelStart start = chsOfLba (start - 1).toNat := by
  have hcylinder : ((start - 1) / 18 / 2).setWidth 8 =
      BitVec.ofNat 8 ((start - 1).toNat / SECTORS_PER_TRACK / HEADS_PER_CYLINDER) := by
    rw [← BitVec.ofNat_toNat, BitVec.toNat_udiv, BitVec.toNat_udiv]
    rfl
  have hhead : ((start - 1) / 18 % 2).setWidth 8 =
      BitVec.ofNat 8 ((start - 1).toNat / SECTORS_PER_TRACK % HEADS_PER_CYLINDER) := by
    rw [← BitVec.ofNat_toNat, BitVec.toNat_umod, BitVec.toNat_udiv]
    rfl
  have hsector : ((start - 1) % 18).setWidth 8 + 1 =
      BitVec.ofNat 8 ((start - 1).toNat % SECTORS_PER_TRACK + 1) := by
    rw [← BitVec.ofNat_toNat, BitVec.toNat_umod, BitVec.ofNat_add]
    rfl
  rw [lbaToChsFromKernelStart, chsOfLba, hcylinder, hhead, hsector]

/-- **The carries are the divisions.** -/
theorem nextSector_chsOfLba (lba : Nat) : nextSector (chsOfLba lba) = chsOfLba (lba + 1) := by
  have hinc : ∀ n : Nat, BitVec.ofNat 8 n + 1 = BitVec.ofNat 8 (n + 1) := fun n =>
    (BitVec.ofNat_add n 1).symm
  have hne : ∀ {n k : Nat}, n < 256 → k < 256 → n ≠ k → BitVec.ofNat 8 n ≠ BitVec.ofNat 8 k := by
    intro n k hn hk hnk heq
    have htoNat := congrArg BitVec.toNat heq
    rw [BitVec.toNat_ofNat, BitVec.toNat_ofNat, Nat.mod_eq_of_lt hn, Nat.mod_eq_of_lt hk] at htoNat
    exact hnk htoNat
  unfold nextSector chsOfLba
  simp only [hinc]
  unfold SECTORS_PER_TRACK HEADS_PER_CYLINDER
  by_cases hsector : lba % 18 = 17
  · have htrack : (lba + 1) / 18 = lba / 18 + 1 := by omega
    have hfirst : (lba + 1) % 18 + 1 = 1 := by omega
    rw [hsector, htrack, hfirst, if_neg (fun h => h rfl)]
    by_cases hhead : lba / 18 % 2 = 1
    · have hcylinder : (lba / 18 + 1) / 2 = lba / 18 / 2 + 1 := by omega
      have hzero : (lba / 18 + 1) % 2 = 0 := by omega
      rw [hhead, hcylinder, hzero, if_neg (fun h => h rfl)]
      rfl
    · have hcylinder : (lba / 18 + 1) / 2 = lba / 18 / 2 := by omega
      have hone : (lba / 18 + 1) % 2 = lba / 18 % 2 + 1 := by omega
      have hstays : BitVec.ofNat 8 (lba / 18 % 2 + 1) ≠ (2 : U8) :=
        hne (k := 2) (by omega) (by omega) (by omega)
      rw [hcylinder, hone, if_pos hstays]
      rfl
  · have htrack : (lba + 1) / 18 = lba / 18 := by omega
    have hnext : (lba + 1) % 18 = lba % 18 + 1 := by omega
    have hstays : BitVec.ofNat 8 (lba % 18 + 1 + 1) ≠ (18 + 1 : U8) :=
      hne (k := 19) (by omega) (by omega) (by omega)
    rw [htrack, hnext, if_pos hstays]

/-! ## The loop -/

/-- The first sector of the kernel. -/
def KERNEL_LBA : Nat := 9

/-- After `k` rounds: the sectors read are the first `k` of the kernel, and what is at an
offset of the segment is from the last of them that was copied there, if one was. -/
structure Loading (disk : Nat → U8) (mem : Mem) (k : Nat) (s : LoadState) : Prop where
  bx : s.bx = BitVec.ofNat 16 (k * SECTOR_SIZE)
  curr : s.curr = chsOfLba (KERNEL_LBA + k)
  reads : s.reads = (List.range k).map fun i => chsOfLba (KERNEL_LBA + i)
  segment : ∀ off < 65536, s.mem (TEMP_KERNEL_ADDR + BitVec.ofNat 32 off) =
    if off / SECTOR_SIZE < k then
      disk ((KERNEL_LBA + (off / SECTOR_SIZE + 128 * ((k - 1 - off / SECTOR_SIZE) / 128))) *
        SECTOR_SIZE + off % SECTOR_SIZE)
    else mem (TEMP_KERNEL_ADDR + BitVec.ofNat 32 off)
  behind : ∀ a : U32, 0x20000 ≤ a.toNat → s.mem a = mem a

variable {disk : Nat → U8} {mem : Mem} {k : Nat} {s : LoadState}

/-- The bytes of the segment. -/
theorem toNat_segment {off : Nat} (h : off < 131072) :
    (TEMP_KERNEL_ADDR + BitVec.ofNat 32 off).toNat = 65536 + off := by
  have haddr : TEMP_KERNEL_ADDR.toNat = 65536 := by decide
  rw [Mem.toNat_add_of_lt (by omega), haddr]

/-- **A round.** -/
theorem Loading.step (h : Loading disk mem k s)
    (hk : KERNEL_LBA + k < 256 * HEADS_PER_CYLINDER * SECTORS_PER_TRACK) :
    Loading disk mem (k + 1) (loadSector disk s) := by
  have hbase : TEMP_KERNEL_SEG.toNat * 16 + s.bx.toNat = 65536 + k % 128 * SECTOR_SIZE := by
    rw [h.bx, BitVec.toNat_ofNat]
    change 4096 * 16 + k * 512 % 65536 = 65536 + k % 128 * 512
    omega
  have hmem : ∀ a : U32, (loadSector disk s).mem a =
      if 65536 + k % 128 * SECTOR_SIZE ≤ a.toNat ∧
          a.toNat < 65536 + k % 128 * SECTOR_SIZE + SECTOR_SIZE then
        disk ((KERNEL_LBA + k) * SECTOR_SIZE + (a.toNat - (65536 + k % 128 * SECTOR_SIZE)))
      else s.mem a := by
    intro a
    change int13Read _ _ _ _ _ a = _
    rw [int13Read, hbase, h.curr, lba_chsOfLba hk]
  refine ⟨?_, ?_, ?_, fun off hoff => ?_, fun a ha => ?_⟩
  · change s.bx + 512 = _
    rw [h.bx, Nat.add_mul, Nat.one_mul, BitVec.ofNat_add]
    rfl
  · change nextSector s.curr = _
    rw [h.curr, nextSector_chsOfLba]
    rfl
  · change s.reads ++ [s.curr] = _
    rw [h.reads, h.curr, List.range_succ, List.map_append]
    rfl
  · rw [hmem, toNat_segment (by omega), h.segment off hoff]
    unfold SECTOR_SIZE
    by_cases hhere : off / 512 = k % 128
    · -- this sector is the last one copied here
      rw [if_pos (by omega), if_pos (by omega)]
      exact congrArg disk (by omega)
    · rw [if_neg (by omega)]
      by_cases hread : off / 512 < k
      · rw [if_pos hread, if_pos (by omega)]
        exact congrArg disk (by omega)
      · rw [if_neg hread, if_neg (by omega)]
  · rw [hmem, if_neg (by unfold SECTOR_SIZE; omega)]
    exact h.behind a ha

theorem loading_loadKernel (disk : Nat → U8) (mem : Mem) {sectors : Nat}
    (h : sectors ≤ KERNEL_MAX_SECTORS) :
    Loading disk mem sectors (loadKernel disk sectors mem) := by
  have hstart : lbaToChsFromKernelStart (STAGE2_SECTORS + 2) = chsOfLba (KERNEL_LBA + 0) :=
    lbaToChsFromKernelStart_eq _
  refine forRange_rule ⟨rfl, hstart, rfl, fun off _ => rfl, fun a _ => rfl⟩
    fun i hi s hs => hs.step ?_
  unfold KERNEL_LBA HEADS_PER_CYLINDER SECTORS_PER_TRACK
  unfold KERNEL_MAX_SECTORS at h
  omega

/-! ## The kernel at 1 MiB -/

/-- The memory when the kernel is started. -/
def bootedMemory (boot loader2 : List U8) (kernel : KernelBin) (mem : Mem) : Mem :=
  copyKernel (kernelSectors kernel)
    (loadKernel (osImage boot loader2 kernel) (kernelSectors kernel) mem).mem

/-- The kernel is at `KERNEL_PHYS_ADDR`. -/
def KernelLoaded (kernel : KernelBin) (mem : Mem) : Prop :=
  ∀ j (h : j < kernel.bytes.length), mem (KERNEL_PHYS_ADDR + BitVec.ofNat 32 j) = kernel.bytes[j]

variable (boot loader2 : List U8) (kernel : KernelBin)

theorem kernelSectors_le : kernelSectors kernel ≤ KERNEL_MAX_SECTORS := by
  have hfits := kernel.fits
  unfold kernelSectors KERNEL_MAX_SECTORS SECTOR_SIZE at *
  omega

theorem osImage_kernel {j : Nat} (h : j < kernel.bytes.length) :
    osImage boot loader2 kernel (KERNEL_LBA * SECTOR_SIZE + j) = kernel.bytes[j] := by
  rw [osImage, dd, if_pos]
  · change kernel.bytes.getD (KERNEL_LBA * SECTOR_SIZE + j - KERNEL_LBA * SECTOR_SIZE) 0 = _
    rw [Nat.add_sub_cancel_left, List.getD_eq_getElem _ _ h]
  · exact ⟨Nat.le_add_right _ _, Nat.add_lt_add_left h _⟩

/-- **A byte at 1 MiB** is from the sector that was read to its offset last; beyond the
segment it is what the memory held before. -/
theorem bootedMemory_byte (mem : Mem) {j : Nat} (h : j < kernelSectors kernel * SECTOR_SIZE) :
    bootedMemory boot loader2 kernel mem (KERNEL_PHYS_ADDR + BitVec.ofNat 32 j) =
      if j < 65536 then
        osImage boot loader2 kernel (KERNEL_LBA * SECTOR_SIZE +
          if 65536 + j < kernelSectors kernel * SECTOR_SIZE then 65536 + j else j)
      else mem (TEMP_KERNEL_ADDR + BitVec.ofNat 32 j) := by
  have hsectors := kernelSectors_le kernel
  have hloading := loading_loadKernel (osImage boot loader2 kernel) mem hsectors
  have hsrc : TEMP_KERNEL_ADDR.toNat = 65536 := by decide
  have hdst : KERNEL_PHYS_ADDR.toNat = 1048576 := by decide
  have hbytes : kernelSectors kernel * SECTOR_SIZE ≤ KERNEL_MAX_SECTORS * SECTOR_SIZE :=
    Nat.mul_le_mul_right _ hsectors
  rw [bootedMemory, copyKernel]
  unfold KERNEL_MAX_SECTORS SECTOR_SIZE at *
  rw [Mem.copy_inside _ _ (by omega) (by omega) (by omega) h]
  by_cases hj : j < 65536
  · rw [if_pos hj, hloading.segment j hj]
    unfold SECTOR_SIZE
    rw [if_pos (by omega)]
    split
    · exact congrArg _ (by omega)
    · exact congrArg _ (by omega)
  · rw [if_neg hj]
    exact hloading.behind _ (by rw [toNat_segment (by omega)]; omega)

theorem lt_sectors {j : Nat} (h : j < kernel.bytes.length) :
    j < kernelSectors kernel * SECTOR_SIZE := by
  unfold kernelSectors SECTOR_SIZE
  omega

/-- A byte that goes over a different one. -/
theorem not_loaded_of_wraps (mem : Mem) {j : Nat} (h : 65536 + j < kernel.bytes.length)
    (hj : j < 65536) (hne : kernel.bytes[65536 + j] ≠ kernel.bytes[j]) :
    ¬ KernelLoaded kernel (bootedMemory boot loader2 kernel mem) := by
  intro hloaded
  have hlt : j < kernel.bytes.length := by omega
  have hbyte := hloaded j hlt
  rw [bootedMemory_byte _ _ _ _ (lt_sectors kernel hlt), if_pos hj,
    if_pos (lt_sectors kernel h), osImage_kernel _ _ _ h] at hbyte
  exact hne hbyte

/-- What the segment must not lose: a sector that goes over another one brings the bytes that
were there, and what is copied from behind the segment is the kernel's already. -/
structure NothingLost (mem : Mem) : Prop where
  wraps : ∀ j < 65536, 65536 + j < kernelSectors kernel * SECTOR_SIZE →
    osImage boot loader2 kernel (KERNEL_LBA * SECTOR_SIZE + (65536 + j)) =
      osImage boot loader2 kernel (KERNEL_LBA * SECTOR_SIZE + j)
  behind : ∀ j (h : j < kernel.bytes.length), 65536 ≤ j →
    mem (TEMP_KERNEL_ADDR + BitVec.ofNat 32 j) = kernel.bytes[j]

theorem kernelLoaded_iff_nothingLost (mem : Mem) :
    KernelLoaded kernel (bootedMemory boot loader2 kernel mem) ↔
      NothingLost boot loader2 kernel mem := by
  constructor
  · intro hloaded
    refine ⟨fun j hj hwraps => ?_, fun j h hj => ?_⟩
    · have hlt : j < kernel.bytes.length := by
        unfold kernelSectors SECTOR_SIZE at hwraps
        omega
      have hbyte := hloaded j hlt
      rw [bootedMemory_byte _ _ _ _ (lt_sectors kernel hlt), if_pos hj, if_pos hwraps] at hbyte
      rw [hbyte, osImage_kernel _ _ _ hlt]
    · have hbyte := hloaded j h
      rwa [bootedMemory_byte _ _ _ _ (lt_sectors kernel h), if_neg (Nat.not_lt.2 hj)] at hbyte
  · intro hkept j h
    rw [bootedMemory_byte _ _ _ _ (lt_sectors kernel h)]
    by_cases hj : j < 65536
    · rw [if_pos hj]
      split
      · rename_i hover
        rw [hkept.wraps j hj hover, osImage_kernel _ _ _ h]
      · exact osImage_kernel _ _ _ h
    · rw [if_neg hj]
      exact hkept.behind j h (Nat.not_lt.1 hj)

/-- **Up to 64 KiB nothing is lost**, whatever the memory held. -/
theorem kernelLoaded_of_le (mem : Mem) (h : kernel.bytes.length ≤ 65536) :
    KernelLoaded kernel (bootedMemory boot loader2 kernel mem) := by
  refine (kernelLoaded_iff_nothingLost boot loader2 kernel mem).2
    ⟨fun j _ hover => ?_, fun j hj hge => ?_⟩
  · unfold kernelSectors SECTOR_SIZE at hover
    omega
  · omega

/-- **Loading the kernel.**  The sectors read are those of the kernel, one after the other,
and the kernel is at 1 MiB afterwards exactly if the segment lost nothing. -/
theorem kernel_loaded_iff (mem : Mem) :
    (loadKernel (osImage boot loader2 kernel) (kernelSectors kernel) mem).reads =
        ((List.range (kernelSectors kernel)).map fun k => chsOfLba (KERNEL_LBA + k)) ∧
      (∀ k < kernelSectors kernel, (chsOfLba (KERNEL_LBA + k)).lba = KERNEL_LBA + k) ∧
      (KernelLoaded kernel (bootedMemory boot loader2 kernel mem) ↔
        NothingLost boot loader2 kernel mem) := by
  have hsectors := kernelSectors_le kernel
  refine ⟨(loading_loadKernel _ mem hsectors).reads, fun k hk => lba_chsOfLba ?_,
    kernelLoaded_iff_nothingLost boot loader2 kernel mem⟩
  unfold KERNEL_MAX_SECTORS at hsectors
  unfold KERNEL_LBA HEADS_PER_CYLINDER SECTORS_PER_TRACK
  omega

/-- One byte past 64 KiB goes over the first one. -/
theorem not_loaded_of_last (mem : Mem) (hlength : kernel.bytes.length = 65537)
    (hne : kernel.bytes[65536]? ≠ kernel.bytes[0]?) :
    ¬ KernelLoaded kernel (bootedMemory boot loader2 kernel mem) := by
  refine not_loaded_of_wraps boot loader2 kernel mem (j := 0) (by omega) (by decide) fun hc => ?_
  rw [List.getElem?_eq_getElem (by omega), List.getElem?_eq_getElem (by omega)] at hne
  exact hne (congrArg some hc)

theorem length_zerosOne : (List.replicate 65536 (0 : U8) ++ [1]).length = 65537 := by
  rw [List.length_append, List.length_replicate, List.length_singleton]

theorem zerosOne_fits :
    (List.replicate 65536 (0 : U8) ++ [1]).length ≤ KERNEL_MAX_SECTORS * SECTOR_SIZE := by
  rw [length_zerosOne]
  decide

/-- A kernel of 64 KiB of zeros and one byte more. -/
def wrappedKernel : KernelBin := ⟨List.replicate 65536 0 ++ [1], zerosOne_fits⟩

/-- The first byte of that kernel is lost. -/
theorem kernel_wraps :
    ¬ KernelLoaded wrappedKernel (bootedMemory [] [] wrappedKernel fun _ => 0) := by
  refine not_loaded_of_last [] [] wrappedKernel _ length_zerosOne ?_
  rw [wrappedKernel, List.getElem?_append_right (by rw [List.length_replicate]),
    List.getElem?_append_left (by rw [List.length_replicate]; decide), List.length_replicate,
    Nat.sub_self, List.getElem?_cons_zero, List.getElem?_replicate]
  decide

end Frewozet
