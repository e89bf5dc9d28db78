import Frewozet.Bootstrap
import Frewozet.Pmm.Bitmap

/-!
# `pmm.c`, second part: building the bitmap from the E820 table

`pmm_init` walks the table twice: once to find out how many frames there are,
and once, after the bitmap has been allocated from the bootstrap heap, to free
the frames of the type-1 entries.  What the kernel itself occupies is marked
used afterwards.

* `Pmm` — the statics of `pmm.c`, the bitmap's words among them.
* `pmmInit` — the code.
* `Boot`, `boot` — the state in which `kmain` leaves `pmm_init`.
* `pmmTestBit_fillBitmap` — **the bitmap, exactly**: which bits are clear when
  `pmm_init` returns.
* `FreedBy`, `freedBy_iff` — what one entry frees, in unbounded arithmetic: its
  whole frames, unless it reaches 4 GiB (nothing) or starts in the last page
  below 4 GiB (`WrapsToZero`: everything below its end).
-/

namespace Frewozet

open Word

/-- The statics of `pmm.c`. -/
structure Pmm where
  /-- Virtual address of the bitmap, 0 while there is none. -/
  pmmBitmap : U32 := 0
  /-- The words it points to. -/
  words : List U32 := []
  pmmTotalPages : U32 := 0
  pmmTotalUsablePages : U32 := 0
  pmmTotalUsableBytes : U64 := 0
  deriving DecidableEq, Repr

/-! ## The code -/

/-- What the first loop over the table accumulates. -/
structure Scan where
  highestAddr : U64 := 0
  usablePages : U32 := 0
  usableBytes : U64 := 0

/-- The pages the first loop counts for one entry. -/
def usablePagesOf (entry : E820Entry) : U32 :=
  let usableStart := pmmAlignUpU32 entry.base32 PMM_PAGE_SIZE
  let usableEnd := pmmAlignDownU32 entry.end32 PMM_PAGE_SIZE
  if usableEnd > usableStart then (usableEnd - usableStart) / PMM_PAGE_SIZE else 0

/-- The body of the first loop of `pmm_init`. -/
def pmmScanEntry (scan : Scan) (entry : E820Entry) : Scan :=
  let scan := if entry.end64 > scan.highestAddr then { scan with highestAddr := entry.end64 }
    else scan
  if entry.type = 1 then
    let scan := { scan with usableBytes := scan.usableBytes + entry.length }
    if entry.base < 0x100000000#64 then
      { scan with usablePages := scan.usablePages + usablePagesOf entry }
    else scan
  else scan

/-- `pmm_total_pages`: the frames up to the highest address, held at 4 GiB. -/
def totalPagesOf (highestAddr : U64) : U32 :=
  let highest := if highestAddr > 0x100000000#64 then 0x100000000#64 else highestAddr
  (highest / 4096).setWidth 32

/-- The body of the second loop of `pmm_init`. -/
def pmmFreeEntry (totalPages : U32) (words : List U32) (entry : E820Entry) : List U32 :=
  if entry.type ≠ 1 ∨ entry.base ≥ 0x100000000#64 then words
  else pmmMarkRangeFree totalPages words entry.base32 entry.end32

/-- `bitmap_words`. -/
def bitmapWords (totalPages : U32) : U32 := (totalPages + 31) / 32

/-- `bitmap_bytes`. -/
def bitmapBytes (totalPages : U32) : U32 := bitmapWords totalPages * 4

/-- The end of `pmm_init`, from the loop that sets every word of the bitmap on. -/
def pmmFillBitmap (info : E820Info) (k : KernelImage) (totalPages bitmap : U32) : List U32 :=
  let words := List.replicate (bitmapWords totalPages).toNat 0xFFFFFFFF#32
  let words := info.entries.foldl (pmmFreeEntry totalPages) words
  let words := pmmMarkRangeUsed totalPages words 0x00000000#32 0x00100000#32
  let words := pmmMarkRangeUsed totalPages words 0x00000000#32 k.endPhys
  let bitmapStartPhys := virtToPhys bitmap
  pmmMarkRangeUsed totalPages words bitmapStartPhys (bitmapStartPhys + bitmapBytes totalPages)

/-- A call of `logStartupError`. -/
def Memory.logStartupError (m : Memory) (description : String) : Memory :=
  { m with startupErrors := m.startupErrors ++ [description] }

/-- The first loop of `pmm_init` over the whole table. -/
def pmmScan (info : E820Info) : Scan := info.entries.foldl pmmScanEntry {}

/-- `pmm_total_pages`, from the table. -/
def tablePages (info : E820Info) : U32 := totalPagesOf (pmmScan info).highestAddr

/-- The statics once the table has been scanned. -/
def pmmScanned (info : E820Info) : Pmm where
  pmmTotalPages := tablePages info
  pmmTotalUsablePages := (pmmScan info).usablePages
  pmmTotalUsableBytes := (pmmScan info).usableBytes

/-- `pmm_init` from the call of `kmalloc_aligned` on, given what that returned. -/
def pmmPlaceBitmap (info : E820Info) (k : KernelImage) (pmm : Pmm) (bitmap : U32) (m : Memory) :
    Memory × Pmm :=
  if bitmap = 0 then (m.logStartupError "PMM bitmap allocation failed.", pmm)
  else
    (m, { pmm with
      pmmBitmap := bitmap
      words := pmmFillBitmap info k pmm.pmmTotalPages bitmap })

/-- `pmm_init`.  `kmain` calls it before the heap backend is enabled, so its
`kmalloc_aligned` is served by the bootstrap heap. -/
def pmmInit (info : E820Info) (k : KernelImage) (m : Memory) : Memory × Pmm :=
  if !ramMapperAvailable info then
    (m.logStartupError "Could not map RAM. Physical Memory Manager was not started.", {})
  else if tablePages info = 0 then (m, pmmScanned info)
  else
    let r := bootstrapKmallocAligned (bitmapBytes (tablePages info)) PMM_PAGE_SIZE m
    pmmPlaceBitmap info k (pmmScanned info) r.1 r.2

/-- What `memory_init` and then `pmm_init` leave behind. -/
structure Boot where
  memory : Memory
  pmm : Pmm

/-- `memory_init(); pmm_init();`, as `kmain` calls them. -/
def boot (info : E820Info) (k : KernelImage) (vmem : Mem) : Boot :=
  let r := pmmInit info k (memoryInit info k vmem)
  { memory := r.1, pmm := r.2 }

/-! ## How big the bitmap is -/

theorem totalPagesOf_toNat (h : U64) : (totalPagesOf h).toNat = min h.toNat 0x100000000 / 4096 := by
  have hc : (if h > 0x100000000#64 then 0x100000000#64 else h).toNat
      = min h.toNat 0x100000000 := by
    split <;> rename_i hgt <;> simp only [gt_iff_lt, BitVec.lt_def] at hgt <;>
      simp at hgt ⊢ <;> omega
  simp only [totalPagesOf, BitVec.toNat_setWidth, BitVec.toNat_udiv, hc]
  simp
  omega

theorem totalPagesOf_le (h : U64) : (totalPagesOf h).toNat ≤ 0x100000 := by
  rw [totalPagesOf_toNat]
  omega

theorem bitmapWords_toNat {total : U32} (h : total.toNat ≤ 0x100000) :
    (bitmapWords total).toNat = (total.toNat + 31) / 32 := by
  simp only [bitmapWords, BitVec.toNat_udiv, BitVec.toNat_add]
  simp
  omega

theorem bitmapBytes_toNat {total : U32} (h : total.toNat ≤ 0x100000) :
    (bitmapBytes total).toNat = 4 * ((total.toNat + 31) / 32) := by
  rw [bitmapBytes, BitVec.toNat_mul, bitmapWords_toNat h]
  simp
  omega

/-! ## Which frames the second loop frees -/

/-- The entry makes `pmm_init` free the frame: `pmm_mark_range_free` is called on
it and covers the frame. -/
def FreedBy (e : E820Entry) (f : Nat) : Prop :=
  e.type = 1 ∧ e.base < 0x100000000#64 ∧ FreeFrames e.base32 e.end32 f

instance (e : E820Entry) (f : Nat) : Decidable (FreedBy e f) := inferInstanceAs (Decidable (_ ∧ _))

/-- A type-1 entry that starts inside the last page below 4 GiB and ends below
4 GiB: rounding its base up to a page wraps to address 0. -/
def WrapsToZero (e : E820Entry) : Prop :=
  e.type = 1 ∧ 0xFFFFF000 < e.base.toNat ∧ e.base.toNat < 0x100000000 ∧
    e.end64.toNat < 0x100000000

instance (e : E820Entry) : Decidable (WrapsToZero e) := inferInstanceAs (Decidable (_ ∧ _))

/-- **What one entry frees.**  Its whole frames if it ends below 4 GiB and its
base rounds up without wrapping; every frame below its end if the base wraps. -/
theorem freedBy_iff (e : E820Entry) (f : Nat) :
    FreedBy e f ↔ e.type = 1 ∧ e.base.toNat < 0x100000000 ∧ e.end64.toNat < 0x100000000 ∧
      (f + 1) * 4096 ≤ e.end64.toNat ∧ (e.base.toNat ≤ f * 4096 ∨ 0xFFFFF000 < e.base.toNat) := by
  unfold FreedBy FreeFrames
  rw [BitVec.lt_def]
  simp only [BitVec.reduceToNat]
  refine and_congr_right fun _ => and_congr_right fun hb => ?_
  rw [pmmAlignUp_toNat, E820Entry.base32_toNat (by simpa [BitVec.lt_def] using hb)]
  by_cases he : e.end64.toNat < 0x100000000
  · rw [E820Entry.end32_toNat he]
    split <;> omega
  · rw [E820Entry.end32_of_le (by omega)]
    simp
    omega

/-- Without the wrap, an entry frees only frames that lie wholly inside it. -/
theorem covers_of_freedBy {e : E820Entry} {f : Nat} (hw : ¬ WrapsToZero e) (h : FreedBy e f) :
    e.type = 1 ∧ e.Covers f := by
  obtain ⟨h1, h2, h3, h4, h5⟩ := (freedBy_iff e f).1 h
  have hle := e.end64_le
  have hb : e.base.toNat ≤ f * 4096 := by
    rcases h5 with h5 | h5
    · exact h5
    · exact absurd ⟨h1, h5, h2, h3⟩ hw
  exact ⟨h1, hb, by omega⟩

/-! ## The bitmap, exactly -/

/-- The frame holds part of the bitmap, rounded to pages. -/
def BitmapFrame (p : Pmm) (f : Nat) : Prop :=
  (virtToPhys p.pmmBitmap).toNat / 4096 ≤ f ∧
    f < ((virtToPhys p.pmmBitmap).toNat + 4 * p.words.length + 4095) / 4096

instance (p : Pmm) (f : Nat) : Decidable (BitmapFrame p f) := inferInstanceAs (Decidable (_ ∧ _))

/-- A byte of the bitmap. -/
def BitmapByte (p : Pmm) (a : U32) : Prop :=
  p.pmmBitmap.toNat ≤ a.toNat ∧ a.toNat < p.pmmBitmap.toNat + 4 * p.words.length

/-- The first frame past the kernel, rounded up to a page. -/
def kernelEndFrame (k : KernelImage) : Nat := (k.endPhys.toNat + 4095) / 4096

@[simp] theorem length_pmmFreeEntry (total : U32) (words : List U32) (e : E820Entry) :
    (pmmFreeEntry total words e).length = words.length := by
  unfold pmmFreeEntry
  split <;> simp

theorem pmmTestBit_freeEntry (total : U32) (words : List U32) (e : E820Entry) (q : Nat) :
    ¬ pmmTestBit (pmmFreeEntry total words e) q ↔
      (q < total.toNat ∧ FreedBy e q) ∨ ¬ pmmTestBit words q := by
  unfold pmmFreeEntry
  split
  · rename_i h
    refine ⟨.inr, ?_⟩
    rintro (⟨-, h1, h2, -⟩ | hq)
    · rcases h with h | h
      · exact absurd h1 h
      · rw [ge_iff_le, BitVec.le_def] at h
        rw [BitVec.lt_def] at h2
        omega
    · exact hq
  · rename_i h
    rw [not_or, not_not, ge_iff_le, BitVec.not_le] at h
    rw [pmmTestBit_markRangeFree, FreedBy]
    simp [h.1, h.2]

@[simp] theorem length_pmmFillBitmap (info : E820Info) (k : KernelImage) (total bitmap : U32) :
    (pmmFillBitmap info k total bitmap).length = (bitmapWords total).toNat := by
  have h := (foldl_accumulates (I := fun w => w.length = (bitmapWords total).toNat)
    (R := fun _ => False) (C := fun _ => False) (f := pmmFreeEntry total)
    (fun _ _ hw => by simpa using hw) (fun _ _ _ => by simp) info.entries
    (List.replicate (bitmapWords total).toNat 0xFFFFFFFF#32) (by simp)).1
  simp only [pmmFillBitmap, length_pmmMarkRangeUsed, h]

/-- The bitmap `pmm_init` fills, bit by bit. -/
theorem pmmTestBit_fillBitmap {info : E820Info} {k : KernelImage} {total bitmap : U32}
    (htotal : total.toNat ≤ 0x100000) {f : Nat} (hf : f < total.toNat) :
    ¬ pmmTestBit (pmmFillBitmap info k total bitmap) f ↔
      (∃ e ∈ info.entries, FreedBy e f) ∧ ¬ UsedFrames 0x00000000#32 0x00100000#32 f ∧
        ¬ UsedFrames 0x00000000#32 k.endPhys f ∧
        ¬ UsedFrames (virtToPhys bitmap) (virtToPhys bitmap + bitmapBytes total) f := by
  have hwords := bitmapWords_toNat htotal
  obtain ⟨hlen, hfree⟩ := foldl_accumulates (I := fun w => total.toNat ≤ 32 * w.length)
    (R := fun w => ¬ pmmTestBit w f) (C := fun e => f < total.toNat ∧ FreedBy e f)
    (f := pmmFreeEntry total)
    (fun _ _ hw => by simpa using hw) (fun w e _ => pmmTestBit_freeEntry total w e f) info.entries
    (List.replicate (bitmapWords total).toNat 0xFFFFFFFF#32) (by simp [hwords]; omega)
  have hset : pmmTestBit (List.replicate (bitmapWords total).toNat 0xFFFFFFFF#32) f := by
    rw [pmmTestBit_replicate, hwords]
    simp
    omega
  simp only [pmmFillBitmap]
  rw [pmmTestBit_markRangeUsed (by simpa using hlen),
    pmmTestBit_markRangeUsed (by simpa using hlen),
    pmmTestBit_markRangeUsed hlen, not_or, not_or, not_or, hfree]
  simp only [hf, true_and, hset, not_true_eq_false, or_false]
  constructor
  · rintro ⟨h1, h2, h3, h4⟩
    exact ⟨h4, h3, h2, h1⟩
  · rintro ⟨h1, h2, h3, h4⟩
    exact ⟨h4, h3, h2, h1⟩

end Frewozet
