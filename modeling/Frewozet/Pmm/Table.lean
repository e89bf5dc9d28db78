import Frewozet.Pmm.Boot

/-!
# The table against the bitmap

What the E820 table says about memory, compared with what `pmm_init` makes of
it.  Both comparisons are exact, and both come down to one entry of the table
against 4 GiB.

* `InRam` — the frame lies wholly inside a type-1 entry.
* `pmmInit_sound_iff` — **only genuine memory is free, unless a base wraps**: a
  type-1 entry that starts in the last page below 4 GiB is rounded up to address
  0 and frees everything below its end.
* `countedFrames`, `pmmTotalUsablePages_eq` — the frames behind
  `pmm_total_usable_pages`.
* `pmmInit_complete_iff` — **which genuine memory is lost**: an entry that reaches
  4 GiB is narrowed to end 0 by both loops.
-/

namespace Frewozet

open Word

/-- The frame lies wholly inside some type-1 entry. -/
def InRam (info : E820Info) (f : Nat) : Prop := ∃ e ∈ info.entries, e.type = 1 ∧ e.Covers f

instance (info : E820Info) (f : Nat) : Decidable (InRam info f) :=
  inferInstanceAs (Decidable (∃ e ∈ info.entries, _))

/-- No byte of the frame is the kernel's own: it lies past 1 MiB, past the kernel
and outside the bitmap. -/
def OutsideKernel (k : KernelImage) (p : Pmm) (f : Nat) : Prop :=
  256 ≤ f ∧ kernelEndFrame k ≤ f ∧ ¬ BitmapFrame p f

section

variable (info : E820Info) (k : KernelImage) (vmem : Mem)

theorem outsideKernel_boot_iff (hfit : BitmapFits info k) (f : Nat) :
    OutsideKernel k (boot info k vmem).pmm f ↔
      256 ≤ f ∧ kernelEndFrame k ≤ f ∧ ¬ BitmapPage info k f := by
  rw [OutsideKernel, (boot_ready info k vmem hfit).bitmapFrame_iff]

/-- The free frames are those the entries free outside the kernel. -/
theorem boot_free_iff_outsideKernel (f : Nat) :
    (boot info k vmem).pmm.Free f ↔ BitmapFits info k ∧ (∃ e ∈ info.entries, FreedBy e f) ∧
      OutsideKernel k (boot info k vmem).pmm f := by
  rw [boot_free_iff]
  refine and_congr_right fun hfit => and_congr_right fun _ => ?_
  rw [outsideKernel_boot_iff info k vmem hfit]

/-! ## Only genuine memory is free -/

/-- Without a wrapping base, free frames lie in type-1 entries. -/
theorem inRam_of_free (hwrap : ∀ e ∈ info.entries, ¬ WrapsToZero e) {f : Nat}
    (h : (boot info k vmem).pmm.Free f) : InRam info f := by
  obtain ⟨-, ⟨e, he, hfreed⟩, -⟩ := (boot_free_iff info k vmem f).1 h
  exact ⟨e, he, covers_of_freedBy (hwrap e he) hfreed⟩

/-- A wrapping base frees every frame below the last one. -/
theorem WrapsToZero.freedBy {e : E820Entry} (h : WrapsToZero e)
    (hend : e.base.toNat + e.length.toNat < 2 ^ 64) {f : Nat} (hf : f < 0xFFFFF) : FreedBy e f := by
  obtain ⟨h1, h2, h3, h4⟩ := h
  have := E820Entry.end64_toNat hend
  exact (freedBy_iff e f).2 ⟨h1, h3, h4, by omega, .inr h2⟩

/-- **Soundness of `pmm_init`, exactly.**  The free frames all lie in type-1
entries and outside the kernel if and only if there is no bitmap, or no type-1
entry starts in the last page below 4 GiB and ends below 4 GiB, or the table
covers everything such an entry would free anyway. -/
theorem pmmInit_sound_iff
    (hend : ∀ e ∈ info.entries, e.base.toNat + e.length.toNat < 2 ^ 64) :
    (∀ f, (boot info k vmem).pmm.Free f →
        InRam info f ∧ OutsideKernel k (boot info k vmem).pmm f) ↔
      ¬ BitmapFits info k ∨ (∀ e ∈ info.entries, ¬ WrapsToZero e) ∨
        ∀ f, f < 0xFFFFF → 256 ≤ f → kernelEndFrame k ≤ f → ¬ BitmapPage info k f →
          InRam info f := by
  constructor
  · intro h
    by_cases hfit : BitmapFits info k
    · by_cases hwrap : ∀ e ∈ info.entries, ¬ WrapsToZero e
      · exact .inr (.inl hwrap)
      · push Not at hwrap
        obtain ⟨e, he, hw⟩ := hwrap
        refine .inr (.inr fun f h1 h2 h3 h4 => (h f ?_).1)
        exact (boot_free_iff info k vmem f).2
          ⟨hfit, ⟨e, he, hw.freedBy (hend e he) h1⟩, h2, h3, h4⟩
    · exact .inl hfit
  · intro h f hfree
    obtain ⟨hfit, ⟨e, he, hfreed⟩, hout⟩ := (boot_free_iff_outsideKernel info k vmem f).1 hfree
    refine ⟨?_, hout⟩
    rcases h with h | h | h
    · exact absurd hfit h
    · exact inRam_of_free info k vmem h hfree
    · obtain ⟨h1, h2, h3⟩ := (outsideKernel_boot_iff info k vmem hfit f).1 hout
      obtain ⟨-, -, hend, hlt, -⟩ := (freedBy_iff e f).1 hfreed
      exact h f (by omega) h1 h2 h3

end

/-- A machine with memory from 1 to 8 MiB. -/
def plainTable : E820Info where
  signature := E820_SIG
  entries := [⟨0x100000, 0x700000, 1, 1⟩]

/-- A machine with memory from 1 to 2 MiB whose last entry starts in the last page
below 4 GiB. -/
def lastPageTable : E820Info where
  signature := E820_SIG
  entries := [⟨0x100000, 0x100000, 1, 1⟩, ⟨0xFFFFF800, 0x400, 1, 1⟩]

/-- A kernel that ends 64 KiB past 1 MiB. -/
def smallKernel : KernelImage where
  kernelEnd := 0xC0110000
  above := by decide
  below := by decide

/-- On that table `pmm_init` frees the frame at 3 MiB, which no entry covers. -/
theorem lastPageTable_unsound :
    lastPageTable.entries.length ≤ 32 ∧
      (∀ e ∈ lastPageTable.entries, e.base.toNat + e.length.toNat < 2 ^ 64) ∧
      ¬ ∀ f, (boot lastPageTable smallKernel (fun _ => 0)).pmm.Free f →
        InRam lastPageTable f ∧
          OutsideKernel smallKernel (boot lastPageTable smallKernel (fun _ => 0)).pmm f := by
  refine ⟨by decide, by decide, fun h => ?_⟩
  have hfree : (boot lastPageTable smallKernel (fun _ => 0)).pmm.Free 768 :=
    (boot_free_iff lastPageTable smallKernel (fun _ => 0) 768).2
      ⟨by decide, ⟨_, List.mem_cons_of_mem _ List.mem_cons_self, by decide⟩, by decide, by decide,
        by decide⟩
  exact absurd (h 768 hfree).1 (by decide)

/-- The table of a machine with 2 MiB of memory meets the condition. -/
theorem pmmInit_sound_iff_plain :
    let info : E820Info := ⟨E820_SIG, [⟨0x100000, 0x100000, 1, 1⟩]⟩
    (∀ f, (boot info smallKernel (fun _ => 0)).pmm.Free f →
        InRam info f ∧ OutsideKernel smallKernel (boot info smallKernel (fun _ => 0)).pmm f) :=
  (pmmInit_sound_iff _ smallKernel (fun _ => 0) (by decide)).2 (.inr (.inl (by decide)))

/-! ## The pages counted -/

/-- The frames the first loop of `pmm_init` counts for one entry. -/
def countedFramesOf (e : E820Entry) : List Nat :=
  if e.type = 1 ∧ e.base < 0x100000000#64 then
    let start := (pmmAlignUpU32 e.base32 PMM_PAGE_SIZE).toNat / 4096
    List.range' start (e.end32.toNat / 4096 - start)
  else []

/-- The frames behind `pmm_total_usable_pages`, one by one. -/
def countedFrames (info : E820Info) : List Nat := info.entries.flatMap countedFramesOf

/-- What an entry is counted for is what it frees. -/
theorem mem_countedFramesOf (e : E820Entry) (f : Nat) : f ∈ countedFramesOf e ↔ FreedBy e f := by
  unfold countedFramesOf FreedBy FreeFrames
  split
  · rename_i h
    simp only [List.mem_range'_1, h, true_and]
    omega
  · rename_i h
    simp only [List.not_mem_nil, false_iff]
    rintro ⟨h1, h2, -⟩
    exact h ⟨h1, h2⟩

theorem mem_countedFrames (info : E820Info) (f : Nat) :
    f ∈ countedFrames info ↔ ∃ e ∈ info.entries, FreedBy e f := by
  simp only [countedFrames, List.mem_flatMap, mem_countedFramesOf]

theorem usablePagesOf_toNat (e : E820Entry) :
    (usablePagesOf e).toNat =
      e.end32.toNat / 4096 - (pmmAlignUpU32 e.base32 PMM_PAGE_SIZE).toNat / 4096 := by
  have hmod := pmmAlignUp_mod e.base32
  have hdown := pmmAlignDown_toNat e.end32
  have hpage : PMM_PAGE_SIZE.toNat = 4096 := rfl
  unfold usablePagesOf
  dsimp only
  split
  · rename_i h
    rw [gt_iff_lt, BitVec.lt_def] at h
    rw [BitVec.toNat_udiv, BitVec.toNat_sub_of_le (BitVec.le_def.2 h.le), hpage, hdown]
    omega
  · rename_i h
    rw [gt_iff_lt, BitVec.lt_def] at h
    rw [show (0 : U32).toNat = 0 from rfl]
    omega

theorem length_countedFramesOf_le (e : E820Entry) : (countedFramesOf e).length ≤ 0x100000 := by
  have := e.end32.isLt
  unfold countedFramesOf
  split
  · rw [List.length_range']
    omega
  · exact Nat.zero_le _

theorem pmmScanEntry_usablePages (scan : Scan) (e : E820Entry)
    (h : scan.usablePages.toNat + 0x100000 < 2 ^ 32) :
    (pmmScanEntry scan e).usablePages.toNat =
      scan.usablePages.toNat + (countedFramesOf e).length := by
  have hpages : (pmmScanEntry scan e).usablePages =
      if e.type = 1 ∧ e.base < 0x100000000#64 then scan.usablePages + usablePagesOf e
      else scan.usablePages := by
    unfold pmmScanEntry
    dsimp only
    by_cases hhigh : e.end64 > scan.highestAddr <;> by_cases ht : e.type = 1 <;>
      by_cases hb : e.base < 0x100000000#64 <;> simp only [hhigh, ht, hb, if_true, if_false,
        and_self, and_true, and_false]
  have hle := length_countedFramesOf_le e
  rw [hpages]
  unfold countedFramesOf at hle ⊢
  split
  · rename_i hc
    rw [if_pos hc, List.length_range'] at hle
    rw [BitVec.toNat_add, usablePagesOf_toNat, List.length_range']
    omega
  · simp

/-- With at most 32 entries the count does not wrap. -/
theorem usablePages_foldl : ∀ (es : List E820Entry) (scan : Scan),
    scan.usablePages.toNat + es.length * 0x100000 < 2 ^ 32 →
      (es.foldl pmmScanEntry scan).usablePages.toNat =
        scan.usablePages.toNat + (es.flatMap countedFramesOf).length := by
  intro es
  induction es with
  | nil => intro scan _; simp
  | cons e es ih =>
    intro scan h
    rw [List.length_cons, Nat.add_one_mul] at h
    have hroom : scan.usablePages.toNat + 0x100000 < 2 ^ 32 :=
      lt_of_le_of_lt (Nat.add_le_add_left (Nat.le_add_left _ _) _) h
    have hone := pmmScanEntry_usablePages scan e hroom
    have hle := length_countedFramesOf_le e
    rw [List.foldl_cons, ih _ (by rw [hone]; omega), hone, List.flatMap_cons, List.length_append]
    omega

/-- `pmm_get_total_usable_pages`. -/
def pmmGetTotalUsablePages (p : Pmm) : U32 := p.pmmTotalUsablePages

section

variable (info : E820Info) (k : KernelImage) (vmem : Mem)

theorem boot_totalUsablePages (hfit : BitmapFits info k) :
    (boot info k vmem).pmm.pmmTotalUsablePages = (pmmScan info).usablePages := by
  obtain ⟨h1, h2, h3⟩ := hfit
  have hne : tablePages info ≠ 0 := fun hc => by rw [hc] at h2; simp at h2
  unfold boot pmmInit
  rw [if_neg (by simp [h1]), if_neg hne]
  unfold pmmPlaceBitmap
  dsimp only
  split <;> rfl

/-- `pmm_get_total_usable_pages` is the number of frames counted. -/
theorem pmmTotalUsablePages_eq (hlen : info.entries.length ≤ 32) (hfit : BitmapFits info k) :
    (pmmGetTotalUsablePages (boot info k vmem).pmm).toNat = (countedFrames info).length := by
  have hzero : ({} : Scan).usablePages.toNat = 0 := rfl
  have h := usablePages_foldl info.entries {} (by omega)
  rw [pmmGetTotalUsablePages, boot_totalUsablePages info k vmem hfit, pmmScan, h, hzero,
    countedFrames,
    Nat.zero_add]

/-! ## Which genuine memory is free -/

/-- The frames the table makes available: below 4 GiB, inside type-1 memory,
clear of every other entry and outside the kernel. -/
structure Available (k : KernelImage) (p : Pmm) (f : Nat) : Prop where
  below : (f + 1) * 4096 ≤ 0x100000000
  ram : InRam info f
  clear : ∀ e ∈ info.entries, e.type ≠ 1 → ¬ e.Meets f
  outside : OutsideKernel k p f

/-- The table has a type-1 entry that serves the frame in spite of the narrowing:
one that covers it and ends below 4 GiB, or one that ends past it and whose base
wraps. -/
def Served (f : Nat) : Prop :=
  ∃ e ∈ info.entries, e.type = 1 ∧ e.base.toNat + e.length.toNat < 0x100000000 ∧
    (f + 1) * 4096 ≤ e.base.toNat + e.length.toNat ∧
    (e.base.toNat ≤ f * 4096 ∨ 0xFFFFF000 < e.base.toNat)

instance (f : Nat) : Decidable (Served info f) :=
  inferInstanceAs (Decidable (∃ e ∈ info.entries, _))

theorem freedBy_iff_served (hend : ∀ e ∈ info.entries, e.base.toNat + e.length.toNat < 2 ^ 64)
    (f : Nat) : (∃ e ∈ info.entries, FreedBy e f) ↔ Served info f := by
  constructor
  · rintro ⟨e, he, h⟩
    obtain ⟨h1, -, h3, h4, h5⟩ := (freedBy_iff e f).1 h
    rw [E820Entry.end64_toNat (hend e he)] at h3 h4
    exact ⟨e, he, h1, h3, h4, h5⟩
  · rintro ⟨e, he, h1, h2, h3, h4⟩
    rw [← E820Entry.end64_toNat (hend e he)] at h2 h3
    exact ⟨e, he, (freedBy_iff e f).2 ⟨h1,
      by have := hend e he; have := E820Entry.end64_toNat this; omega,
      h2, h3, h4⟩⟩

/-- **Completeness of `pmm_init`, exactly.**  `pmm_get_total_usable_pages` is the
number of frames counted, and every available frame is free and counted if and
only if each of those that lie in an entry reaching 4 GiB is served by another
entry. -/
theorem pmmInit_complete_iff (hlen : info.entries.length ≤ 32)
    (hend : ∀ e ∈ info.entries, e.base.toNat + e.length.toNat < 2 ^ 64)
    (hbitmap : (boot info k vmem).pmm.pmmBitmap ≠ 0) :
    (pmmGetTotalUsablePages (boot info k vmem).pmm).toNat = (countedFrames info).length ∧
      ((∀ f, Available info k (boot info k vmem).pmm f →
          (boot info k vmem).pmm.Free f ∧ f ∈ countedFrames info) ↔
        ∀ f, Available info k (boot info k vmem).pmm f →
          (∃ e ∈ info.entries, e.type = 1 ∧ e.Covers f ∧
            0x100000000 ≤ e.base.toNat + e.length.toNat) → Served info f) := by
  have hfit := (boot_bitmap_iff info k vmem).1 hbitmap
  refine ⟨pmmTotalUsablePages_eq info k vmem hlen hfit, ?_⟩
  constructor
  · intro h f hf _
    exact (freedBy_iff_served info hend f).1 ((mem_countedFrames info f).1 (h f hf).2)
  · intro h f hf
    have hserved : Served info f := by
      obtain ⟨e, he, ht, hc⟩ := hf.ram
      by_cases hreach : 0x100000000 ≤ e.base.toNat + e.length.toNat
      · exact h f hf ⟨e, he, ht, hc, hreach⟩
      · exact ⟨e, he, ht, by omega, hc.2, .inl hc.1⟩
    have hfreed := (freedBy_iff_served info hend f).2 hserved
    exact ⟨(boot_free_iff_outsideKernel info k vmem f).2 ⟨hfit, hfreed, hf.outside⟩,
      (mem_countedFrames info f).2 hfreed⟩

end

/-- A machine whose memory runs from 1 MiB up to 4 GiB, in one entry. -/
def fourGiBTable : E820Info where
  signature := E820_SIG
  entries := [⟨0x100000, 0xFFF00000, 1, 1⟩]

/-- On that table there is a bitmap, and none of the memory is free. -/
theorem fourGiBTable_incomplete :
    fourGiBTable.entries.length ≤ 32 ∧
      (∀ e ∈ fourGiBTable.entries, e.base.toNat + e.length.toNat < 2 ^ 64) ∧
      (boot fourGiBTable smallKernel (fun _ => 0)).pmm.pmmBitmap ≠ 0 ∧
      ¬ ∀ f, Available fourGiBTable smallKernel (boot fourGiBTable smallKernel (fun _ => 0)).pmm f →
        (boot fourGiBTable smallKernel (fun _ => 0)).pmm.Free f ∧
          f ∈ countedFrames fourGiBTable := by
  have hfit : BitmapFits fourGiBTable smallKernel := by decide
  refine ⟨by decide, by decide, (boot_bitmap_iff _ _ _).2 hfit, fun h => ?_⟩
  have hin : InRam fourGiBTable 768 := by decide
  have hcounted := (h 768
    { below := by decide
      ram := hin
      clear := by rintro e he hne; rw [List.mem_singleton.1 he] at hne; exact absurd rfl hne
      outside := (outsideKernel_boot_iff _ _ _ hfit 768).2 (by decide) }).2
  exact absurd ((freedBy_iff_served _ (by decide) 768).1 ((mem_countedFrames _ _).1 hcounted))
    (by decide)

/-- The table of a machine with 2 MiB of memory loses nothing. -/
theorem pmmInit_complete_iff_plain :
    let info : E820Info := ⟨E820_SIG, [⟨0x100000, 0x100000, 1, 1⟩]⟩
    ∀ f, Available info smallKernel (boot info smallKernel (fun _ => 0)).pmm f →
      (boot info smallKernel (fun _ => 0)).pmm.Free f ∧ f ∈ countedFrames info :=
  ((pmmInit_complete_iff _ smallKernel (fun _ => 0) (by decide) (by decide)
    ((boot_bitmap_iff _ _ _).2 (by decide))).2).2 (by
      rintro f - ⟨e, he, -, -, hreach⟩
      obtain rfl := List.mem_singleton.1 he
      exact absurd hreach (by decide))

end Frewozet
