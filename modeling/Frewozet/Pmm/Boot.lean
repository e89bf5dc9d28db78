import Frewozet.Pmm.Alloc

/-!
# What `pmm_init` leaves behind

The state `kmain` reaches after `memory_init` and `pmm_init`, for every E820
table.

* `BitmapFits` — there is a table, it has frames in it, and the bitmap finds room
  in the bootstrap heap; all of it read off the inputs.
* `boot_ready` — when it fits, the bitmap lies between the kernel and 4 MiB;
  `boot_not_ready` — when it does not, there is no bitmap and nothing is free.
* `boot_free_iff` — **the free frames, exactly**.
-/

namespace Frewozet

open Word

/-! ## The first loop -/

theorem pmmScanEntry_highest (scan : Scan) (e : E820Entry) :
    (pmmScanEntry scan e).highestAddr =
      if e.end64 > scan.highestAddr then e.end64 else scan.highestAddr := by
  unfold pmmScanEntry
  dsimp only
  split <;> split <;> (try split) <;> rfl

theorem le_foldl_highest : ∀ (es : List E820Entry) (scan : Scan),
    scan.highestAddr.toNat ≤ (es.foldl pmmScanEntry scan).highestAddr.toNat ∧
      ∀ e ∈ es, e.end64.toNat ≤ (es.foldl pmmScanEntry scan).highestAddr.toNat := by
  intro es
  induction es with
  | nil => intro scan; simp
  | cons e es ih =>
    intro scan
    obtain ⟨h1, h2⟩ := ih (pmmScanEntry scan e)
    have hstep : scan.highestAddr.toNat ≤ (pmmScanEntry scan e).highestAddr.toNat ∧
        e.end64.toNat ≤ (pmmScanEntry scan e).highestAddr.toNat := by
      rw [pmmScanEntry_highest]
      split <;> rename_i h <;> simp only [gt_iff_lt, BitVec.lt_def] at h <;> omega
    refine ⟨hstep.1.trans h1, ?_⟩
    intro x hx
    rcases List.mem_cons.1 hx with rfl | hx
    · exact hstep.2.trans h1
    · exact h2 x hx

theorem end64_le_highest {info : E820Info} {e : E820Entry} (he : e ∈ info.entries) :
    e.end64.toNat ≤ (pmmScan info).highestAddr.toNat :=
  (le_foldl_highest info.entries {}).2 e he

theorem tablePages_le (info : E820Info) : (tablePages info).toNat ≤ 0x100000 := totalPagesOf_le _

/-- A freed frame is one of the frames the table has. -/
theorem lt_tablePages_of_freedBy {info : E820Info} {e : E820Entry} {f : Nat}
    (he : e ∈ info.entries) (h : FreedBy e f) : f < (tablePages info).toNat := by
  have hhigh := end64_le_highest he
  obtain ⟨-, -, h3, h4, -⟩ := (freedBy_iff e f).1 h
  rw [tablePages, totalPagesOf_toNat]
  omega

/-! ## Room for the bitmap -/

/-- Physical address of the bitmap: the first page past the kernel. -/
def bitmapStart (k : KernelImage) : Nat := kernelEndFrame k * 4096

/-- Bytes of the bitmap. -/
def bitmapSize (info : E820Info) : Nat := 4 * (((tablePages info).toNat + 31) / 32)

/-- The table can be read, it has frames in it, and the bootstrap heap has room
for their bitmap. -/
def BitmapFits (info : E820Info) (k : KernelImage) : Prop :=
  ramMapperAvailable info ∧ 0 < (tablePages info).toNat ∧
    bitmapStart k + bitmapSize info ≤ (bootstrapBounds info k).2.toNat

instance (info : E820Info) (k : KernelImage) : Decidable (BitmapFits info k) :=
  inferInstanceAs (Decidable (_ ∧ _ ∧ _))

/-- The frame holds part of the bitmap, rounded to pages. -/
def BitmapPage (info : E820Info) (k : KernelImage) (f : Nat) : Prop :=
  kernelEndFrame k ≤ f ∧ f < (bitmapStart k + bitmapSize info + 4095) / 4096

instance (info : E820Info) (k : KernelImage) (f : Nat) : Decidable (BitmapPage info k f) :=
  inferInstanceAs (Decidable (_ ∧ _))

section

variable (info : E820Info) (k : KernelImage) (vmem : Mem)

/-- Where the bootstrap cursor is, rounded up to a page. -/
theorem memoryInit_pageAligned :
    (alignUpU32 (memoryInit info k vmem).bootstrapHeapCurrent PMM_PAGE_SIZE).toNat =
      0xC0000000 + bitmapStart k := by
  obtain ⟨hcur, -, -⟩ := memoryInit_bounds info k vmem
  have hk := k.endPhys_below
  have hpage : PMM_PAGE_SIZE.toNat = 4096 := rfl
  rw [alignUpU32_eq (by decide), alignUp_toNat isPow2_pageSize (by omega), hcur, hpage, bitmapStart,
    kernelEndFrame]
  omega

/-- The allocation of the bitmap, when it succeeds. -/
theorem bootstrapKmallocAligned_memoryInit :
    bootstrapKmallocAligned (bitmapBytes (tablePages info)) PMM_PAGE_SIZE (memoryInit info k vmem) =
      if 0 < (tablePages info).toNat ∧
          bitmapStart k + bitmapSize info ≤ (bootstrapBounds info k).2.toNat then
        (BitVec.ofNat 32 (0xC0000000 + bitmapStart k),
          { memoryInit info k vmem with
            bootstrapHeapCurrent := BitVec.ofNat 32 (0xC0000000 + bitmapStart k + bitmapSize info)
            bootRanges := [(BitVec.ofNat 32 (0xC0000000 + bitmapStart k),
              bitmapBytes (tablePages info))] })
      else (0, memoryInit info k vmem) := by
  obtain ⟨hcur, hlim, hle⟩ := memoryInit_bounds info k vmem
  have hal := memoryInit_pageAligned info k vmem
  have hk := k.endPhys_below
  have htp := tablePages_le info
  have hbytes : (bitmapBytes (tablePages info)).toNat = bitmapSize info := bitmapBytes_toNat htp
  have hsize : bitmapSize info ≤ 0x20000 := by unfold bitmapSize; omega
  have hstart : bitmapStart k ≤ 0x400000 := by unfold bitmapStart kernelEndFrame; omega
  have hge : (k.endPhys.toNat + 15) / 16 * 16 ≤ bitmapStart k := by
    unfold bitmapStart kernelEndFrame; omega
  have haddr : alignUpU32 (memoryInit info k vmem).bootstrapHeapCurrent PMM_PAGE_SIZE =
      BitVec.ofNat 32 (0xC0000000 + bitmapStart k) := by
    apply BitVec.eq_of_toNat_eq
    rw [hal, BitVec.toNat_ofNat, Nat.mod_eq_of_lt (by omega)]
  have hsum : BitVec.ofNat 32 (0xC0000000 + bitmapStart k) + bitmapBytes (tablePages info) =
      BitVec.ofNat 32 (0xC0000000 + bitmapStart k + bitmapSize info) := by
    apply BitVec.eq_of_toNat_eq
    rw [BitVec.toNat_add, hbytes, BitVec.toNat_ofNat, BitVec.toNat_ofNat]
    omega
  have hzero : bitmapBytes (tablePages info) = 0 ↔ ¬ 0 < (tablePages info).toNat := by
    rw [← BitVec.toNat_inj, hbytes]
    simp [bitmapSize]
    omega
  unfold bootstrapKmallocAligned bootstrapAllocAligned
  by_cases hpos : 0 < (tablePages info).toNat
  · have hne : ¬ bitmapBytes (tablePages info) = 0 := by rw [hzero, not_not]; exact hpos
    rw [if_neg hne, if_neg hne]
    simp only [if_neg (show ¬ PMM_PAGE_SIZE = 0 by decide), haddr, hsum]
    rw [if_neg, if_neg]
    · by_cases hfit : bitmapStart k + bitmapSize info ≤ (bootstrapBounds info k).2.toNat
      · rw [if_neg, if_pos ⟨hpos, hfit⟩]
        · rfl
        · rw [gt_iff_lt, BitVec.lt_def, hlim, BitVec.toNat_ofNat]
          omega
      · rw [if_pos, if_neg (fun h => hfit h.2)]
        rw [gt_iff_lt, BitVec.lt_def, hlim, BitVec.toNat_ofNat]
        omega
    · rw [BitVec.lt_def, BitVec.toNat_ofNat, BitVec.toNat_ofNat]
      omega
    · rw [BitVec.lt_def, hcur, BitVec.toNat_ofNat]
      omega
  · rw [if_pos (hzero.2 hpos), if_neg (fun h => hpos h.1)]

/-- What holds after `pmm_init` when there is a bitmap. -/
structure Ready (info : E820Info) (k : KernelImage) (b : Boot) : Prop where
  fits : BitmapFits info k
  bitmap : b.pmm.pmmBitmap = BitVec.ofNat 32 (0xC0000000 + bitmapStart k)
  total : b.pmm.pmmTotalPages = tablePages info
  words : b.pmm.words = pmmFillBitmap info k b.pmm.pmmTotalPages b.pmm.pmmBitmap
  current : b.memory.bootstrapHeapCurrent =
    BitVec.ofNat 32 (0xC0000000 + bitmapStart k + bitmapSize info)
  ranges : b.memory.bootRanges =
    [(BitVec.ofNat 32 (0xC0000000 + bitmapStart k), bitmapBytes (tablePages info))]

theorem bitmapStart_le : bitmapStart k ≤ 0x400000 := by
  have := k.endPhys_below
  unfold bitmapStart kernelEndFrame
  omega

theorem boot_ready (h : BitmapFits info k) : Ready info k (boot info k vmem) := by
  have ⟨h1, h2, h3⟩ := h
  have hstart := bitmapStart_le k
  have hne : tablePages info ≠ 0 := fun hc => by rw [hc] at h2; simp at h2
  have hptr : BitVec.ofNat 32 (0xC0000000 + bitmapStart k) ≠ 0 := fun hc => by
    have := congrArg BitVec.toNat hc
    rw [BitVec.toNat_ofNat, show (0 : U32).toNat = 0 from rfl] at this
    omega
  unfold boot pmmInit
  rw [if_neg (by simp [h1]), if_neg hne, bootstrapKmallocAligned_memoryInit, if_pos ⟨h2, h3⟩]
  simp only [pmmPlaceBitmap, if_neg hptr]
  exact ⟨h, rfl, rfl, rfl, rfl, rfl⟩

/-- Without room there is no bitmap, and the bootstrap heap is as `memory_init`
left it. -/
theorem boot_not_ready (h : ¬ BitmapFits info k) :
    (boot info k vmem).pmm.pmmBitmap = 0 ∧ (boot info k vmem).pmm.words = [] ∧
      (boot info k vmem).memory.bootstrapHeapCurrent =
        (memoryInit info k vmem).bootstrapHeapCurrent ∧
      (boot info k vmem).memory.bootRanges = [] := by
  unfold boot pmmInit
  by_cases h1 : ramMapperAvailable info
  · rw [if_neg (by simp [h1])]
    by_cases h2 : tablePages info = 0
    · rw [if_pos h2]
      exact ⟨rfl, rfl, rfl, rfl⟩
    · rw [if_neg h2, bootstrapKmallocAligned_memoryInit, if_neg (fun hc => h ⟨h1, hc⟩)]
      exact ⟨rfl, rfl, rfl, rfl⟩
  · rw [if_pos (by simp [h1])]
    exact ⟨rfl, rfl, rfl, rfl⟩

/-! ## The free frames -/

theorem boot_bitmap_iff : (boot info k vmem).pmm.pmmBitmap ≠ 0 ↔ BitmapFits info k := by
  constructor
  · intro hb
    by_contra h
    exact hb (boot_not_ready info k vmem h).1
  · intro h hb
    have hr := (boot_ready info k vmem h).bitmap
    have hstart := bitmapStart_le k
    rw [hb] at hr
    have := congrArg BitVec.toNat hr
    rw [BitVec.toNat_ofNat, show (0 : U32).toNat = 0 from rfl] at this
    omega

/-- Where the bitmap lies in physical memory. -/
theorem Ready.bitmap_phys {b : Boot} (h : Ready info k b) :
    (virtToPhys b.pmm.pmmBitmap).toNat = bitmapStart k := by
  have hstart := bitmapStart_le k
  have hptr : b.pmm.pmmBitmap.toNat = 0xC0000000 + bitmapStart k := by
    rw [h.bitmap, BitVec.toNat_ofNat]
    omega
  rw [virtToPhys_toNat (by omega), hptr]
  omega

/-- What `pmm_init` marks used after it has freed the entries. -/
theorem Ready.usedFrames_iff {b : Boot} (h : Ready info k b) (f : Nat) :
    UsedFrames (virtToPhys b.pmm.pmmBitmap)
        (virtToPhys b.pmm.pmmBitmap + bitmapBytes b.pmm.pmmTotalPages) f ↔
      BitmapPage info k f := by
  have hstart := bitmapStart_le k
  have htp := tablePages_le info
  have hphys := h.bitmap_phys
  have hbytes : (bitmapBytes b.pmm.pmmTotalPages).toNat = bitmapSize info := by
    rw [h.total]; exact bitmapBytes_toNat htp
  have hsize : bitmapSize info ≤ 0x20000 := by unfold bitmapSize; omega
  have hend : (virtToPhys b.pmm.pmmBitmap + bitmapBytes b.pmm.pmmTotalPages).toNat =
      bitmapStart k + bitmapSize info := by
    rw [BitVec.toNat_add, hphys, hbytes]
    omega
  unfold UsedFrames BitmapPage
  rw [pmmAlignUp_toNat, hend, hphys, if_pos (by omega)]
  unfold bitmapStart
  omega

/-- The frames the bitmap occupies, seen from the statics. -/
theorem Ready.bitmapFrame_iff {b : Boot} (h : Ready info k b) (f : Nat) :
    BitmapFrame b.pmm f ↔ BitmapPage info k f := by
  have hstart := bitmapStart_le k
  have htp := tablePages_le info
  have hphys := h.bitmap_phys
  have hlen : 4 * b.pmm.words.length = bitmapSize info := by
    rw [h.words, length_pmmFillBitmap, h.total, bitmapWords_toNat htp, bitmapSize]
  unfold BitmapFrame BitmapPage
  rw [hphys, hlen]
  unfold bitmapStart
  omega

/-- **The free frames, exactly.**  A frame is free when `pmm_init` returns if
there is a bitmap, some entry freed the frame, and the frame lies past 1 MiB,
past the kernel and outside the bitmap. -/
theorem boot_free_iff (f : Nat) :
    (boot info k vmem).pmm.Free f ↔ BitmapFits info k ∧ (∃ e ∈ info.entries, FreedBy e f) ∧
      256 ≤ f ∧ kernelEndFrame k ≤ f ∧ ¬ BitmapPage info k f := by
  by_cases hfit : BitmapFits info k
  · have hr := boot_ready info k vmem hfit
    have htp := tablePages_le info
    have hlow : UsedFrames 0x00000000#32 0x00100000#32 f ↔ f < 256 := by
      unfold UsedFrames
      rw [pmmAlignUp_toNat]
      simp
    have hkernel : UsedFrames 0x00000000#32 k.endPhys f ↔ f < kernelEndFrame k := by
      have := k.endPhys_below
      unfold UsedFrames kernelEndFrame
      rw [pmmAlignUp_toNat, if_pos (by omega)]
      simp
    unfold Pmm.Free
    simp only [hfit, true_and, (boot_bitmap_iff info k vmem).2 hfit, ne_eq, not_false_eq_true]
    constructor
    · rintro ⟨hf, hbit⟩
      rw [hr.words, pmmTestBit_fillBitmap (by rw [hr.total]; exact htp) hf, hlow, hkernel,
        hr.usedFrames_iff] at hbit
      exact ⟨hbit.1, by omega, by omega, hbit.2.2.2⟩
    · rintro ⟨⟨e, he, hfreed⟩, h1, h2, h3⟩
      have hf : f < (boot info k vmem).pmm.pmmTotalPages.toNat := by
        rw [hr.total]
        exact lt_tablePages_of_freedBy he hfreed
      refine ⟨hf, ?_⟩
      rw [hr.words, pmmTestBit_fillBitmap (by rw [hr.total]; exact htp) hf, hlow, hkernel,
        hr.usedFrames_iff]
      exact ⟨⟨e, he, hfreed⟩, by omega, by omega, h3⟩
  · simp [Pmm.Free, hfit, (boot_not_ready info k vmem hfit).1]

/-- The books are in order when `pmm_init` returns. -/
theorem boot_wf : (boot info k vmem).pmm.Wf := by
  have htp := tablePages_le info
  have hzero : ¬ (boot info k vmem).pmm.Free 0 := fun h => by
    have := ((boot_free_iff info k vmem 0).1 h).2.2.1
    omega
  have htotal : (boot info k vmem).pmm.pmmTotalPages.toNat ≤ 0x100000 := by
    unfold boot pmmInit
    split
    · exact Nat.zero_le _
    · split
      · exact htp
      · unfold pmmPlaceBitmap
        dsimp only
        split <;> exact htp
  refine ⟨htotal, fun hb => ?_, hzero⟩
  have hr := boot_ready info k vmem ((boot_bitmap_iff info k vmem).1 hb)
  rw [hr.words, length_pmmFillBitmap, bitmapWords_toNat htotal]
  omega

theorem boot_words_eq_nil (h : (boot info k vmem).pmm.pmmBitmap = 0) :
    (boot info k vmem).pmm.words = [] :=
  (boot_not_ready info k vmem fun hfit => (boot_bitmap_iff info k vmem).2 hfit h).2.1

end

end Frewozet
