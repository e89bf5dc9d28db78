import Frewozet.System.Access
import Frewozet.System.Books

/-!
# Two allocators, one memory

`pmm_init` reserves the bitmap, but not the rest of the bootstrap heap.  Whether both
allocators hand out the same bytes depends on whether the bootstrap heap is still in
use once `kmain` has tried to enable the PMM backend.

* `Op.Later` — the calls made after that: memory is asked for, in every way there is.
* `OneOwner` — no frame `pmm.c` has handed out overlaps what the bootstrap heap has.
* `clash` — **the run in which they overlap**, if the backend stays disabled and a free
  frame lies in the bootstrap heap.
* `oneOwner_iff` — the tables on which no run does.
-/

namespace Frewozet

open Word Exec

/-- The frame has a byte of the range, given by its virtual address and its size. -/
def Overlaps (r : U32 × U32) (f : Nat) : Prop :=
  ∃ b, (virtToPhys r.1).toNat ≤ b ∧ b < (virtToPhys r.1).toNat + r.2.toNat ∧
    f * 4096 ≤ b ∧ b < (f + 1) * 4096

/-- No frame the allocator has handed out overlaps a range the bootstrap heap has handed
out. -/
def OneOwner (t : System) : Prop :=
  ∀ g ∈ t.machine.grants, ∀ f ∈ framesOf g, ∀ r ∈ t.memory.bootRanges, ¬ Overlaps r f

/-- A call that asks for memory.  Alignments are powers of two, and nobody maps a page over
the four MiB in which the kernel and the statics of both allocators are. -/
def Op.Later : Op → Prop
  | .request r => r.Wf
  | .allocPage => True
  | .allocPageBelow _ => True
  | .allocContiguous _ => True
  | .allocMapped virtAddr _ => slotOf virtAddr ≠ windowSlot
  | _ => False

/-! ## What later calls keep -/

/-- A property of the statics of `memory.c` and of the machine. -/
abbrev KeepsSystem {α : Type} (P : Memory → Machine → Prop) (x : Exec System α) : Prop :=
  Keeps (fun t => P t.memory t.machine) x

section

variable {p₀ : Pmm} {R : Memory → Prop}

/-- The books are in order, and the statics as they should be. -/
def InOrder (p₀ : Pmm) (R : Memory → Prop) (mem : Memory) (m : Machine) : Prop := Books p₀ m ∧ R mem

theorem keeps_onMachine {α : Type} {x : Exec Machine α} (h : Keeps (Books p₀) x) :
    KeepsSystem (InOrder p₀ R) (onMachine x) :=
  keeps_zoom fun t ht => wp_mono (h t.machine ht.1) (fun _ _ hm => ⟨hm, ht.2⟩)
    fun _ _ hm => ⟨hm, ht.2⟩

theorem keeps_clientAlloc {n : U32} {call : Pmm → U32 × Pmm}
    (hr : ∀ p, Allocates p n (call p)) : KeepsSystem (InOrder p₀ R) (clientAlloc n call) := by
  refine keeps_bind (keeps_onMachine (keeps_allocFrames hr)) fun p => keeps_modify fun t ht => ?_
  split <;> exact ht

theorem inOrder_same (hR : ∀ mem mem', SameStatics mem mem' → R mem → R mem') (mem mem' : Memory)
    (m : Machine) (hs : SameStatics mem mem') (h : InOrder p₀ R mem m) : InOrder p₀ R mem' m :=
  ⟨h.1, hR _ _ hs h.2⟩

theorem inOrder_grow (mem : Memory) (virt : U32) (n : Nat) (m : Machine) (h : InOrder p₀ R mem m) :
    wp (heapGrowPages kernelBacking virt n) (fun _ => InOrder p₀ R mem)
      (fun _ => InOrder p₀ R mem) m :=
  wp_mono (keeps_heapGrowPages n virt m h.1) (fun _ _ hm => ⟨hm, h.2⟩) fun _ _ hm => ⟨hm, h.2⟩

/-- **Later calls keep the books**, and of the statics what neither the heap nor the
bootstrap heap changes. -/
theorem keeps_later (hR : ∀ mem mem', SameStatics mem mem' → R mem → R mem')
    (hboot : ∀ mem, R mem → ¬ mem.memoryPmmBackendEnabled = true →
      ∀ n p mem', BootGives mem n p mem' → R mem') {op : Op} (hop : op.Later) :
    KeepsSystem (InOrder p₀ R) op.exec := by
  cases op with
  | enable => exact hop.elim
  | freeContiguous => exact hop.elim
  | mapPage => exact hop.elim
  | unmapPage => exact hop.elim
  | write => exact hop.elim
  | request r =>
    refine keeps_bind (keeps_zoom fun t ht => ?_) fun _ => keeps_pure _
    refine Request.call_keeps (P := InOrder p₀ R)
      (fun mem vmem m h => inOrder_same hR _ _ m (.vmem mem vmem) h) ht r
      (fun he n p mem' hg => ⟨ht.1, hboot _ ht.2 he n p mem' hg⟩) fun he size _ => ?_
    exact kmalloc_keeps (inOrder_same hR) inOrder_grow he size ht
  | allocPage => exact keeps_clientAlloc fun p => allocates_allocContiguous p 1
  | allocPageBelow limit => exact keeps_clientAlloc fun p => allocates_allocPageBelow p limit
  | allocContiguous n => exact keeps_clientAlloc fun p => allocates_allocContiguous p n
  | allocMapped virt flags =>
    exact keeps_bind (keeps_onMachine (keeps_pagingAllocPage _ _)) fun _ => keeps_pure _

/-- No range of the bootstrap heap runs past its limit. -/
structure RangesBelow (l : U32) (mem : Memory) : Prop where
  limit : mem.bootstrapHeapLimit = l
  current : 0xC0000000 ≤ mem.bootstrapHeapCurrent.toNat
  ranges : ∀ r ∈ mem.bootRanges, 0xC0000000 ≤ r.1.toNat ∧ r.1.toNat + r.2.toNat ≤ l.toNat

/-- The backend is enabled, and the bootstrap heap has handed out just these ranges. -/
def RangesFixed (ranges : List (U32 × U32)) (mem : Memory) : Prop :=
  mem.memoryPmmBackendEnabled = true ∧ mem.bootRanges = ranges

theorem keeps_rangesBelow (l : U32) {op : Op} (hop : op.Later) :
    KeepsSystem (InOrder p₀ (RangesBelow l)) op.exec := by
  refine keeps_later (fun mem mem' hs h => ?_) (fun mem h _ n p mem' hg => ?_) hop
  · exact ⟨hs.limit.trans h.limit, by rw [hs.current]; exact h.current,
      by rw [hs.ranges]; exact h.ranges⟩
  · rcases hg with ⟨-, rfl⟩ | ⟨k, rfl, hlo, hsum, -, hle⟩
    · exact h
    · have hcurrent := h.current
      rw [h.limit] at hle
      refine ⟨h.limit, ?_, fun r hr => ?_⟩
      · change 0xC0000000 ≤ (p + k).toNat
        omega
      · rcases List.mem_cons.1 hr with rfl | hr
        · exact ⟨h.current.trans hlo, hle⟩
        · exact h.ranges r hr

theorem keeps_rangesFixed (ranges : List (U32 × U32)) {op : Op} (hop : op.Later) :
    KeepsSystem (InOrder p₀ (RangesFixed ranges)) op.exec := by
  refine keeps_later (fun mem mem' hs h => ?_) (fun mem h he => absurd h.1 he) hop
  exact ⟨hs.enabled.trans h.1, hs.ranges.trans h.2⟩

/-- Enabling the backend keeps them as well, if the flag does not matter. -/
theorem keeps_enable (hR : ∀ mem mem', SameStatics mem mem' → R mem → R mem')
    (hset : ∀ mem, R mem → R { mem with memoryPmmBackendEnabled := true })
    (hlog : ∀ mem msg, R mem → R (mem.logStartupError msg)) :
    KeepsSystem (InOrder p₀ R) Op.enable.exec :=
  keeps_zoom fun t ht =>
    memoryEnablePmmBackend_keeps (B := kernelBacking) (inOrder_same hR) inOrder_grow
      (fun mem _ h => ⟨h.1, hset mem h.2⟩) (fun mem _ msg h => ⟨h.1, hlog mem msg h.2⟩)
      (t.memory, t.machine) ht

end

/-! ## The ranges of the bootstrap heap -/

section

variable (info : E820Info) (k : KernelImage) (vmem phys : Mem)

/-- The end of the bootstrap heap, in physical memory. -/
def bootstrapLimit (info : E820Info) (k : KernelImage) : Nat := (bootstrapBounds info k).2.toNat

theorem boot_limit : (boot info k vmem).memory.bootstrapHeapLimit.toNat =
    0xC0000000 + bootstrapLimit info k := by
  rw [bootstrapLimit, ← (memoryInit_bounds info k vmem).2.1]
  unfold boot pmmInit
  rw [bootstrapKmallocAligned_memoryInit]
  split
  · rfl
  split
  · rfl
  dsimp only
  unfold pmmPlaceBitmap
  split <;> split <;> rfl

theorem bootstrapLimit_le : bootstrapLimit info k ≤ 0x400000 := (bootstrapBounds_spec info k).2

/-- What the bootstrap heap has handed out so far: the bitmap, if anything. -/
theorem boot_rangesBelow :
    RangesBelow (boot info k vmem).memory.bootstrapHeapLimit (boot info k vmem).memory := by
  have hstart := bitmapStart_le k
  have hlimit := boot_limit info k vmem
  by_cases hfit : BitmapFits info k
  · have hr := boot_ready info k vmem hfit
    have hle : bitmapStart k + bitmapSize info ≤ bootstrapLimit info k := hfit.2.2
    have hlimitle := bootstrapLimit_le info k
    have hbytes : (bitmapBytes (tablePages info)).toNat = bitmapSize info :=
      bitmapBytes_toNat (tablePages_le info)
    refine ⟨rfl, ?_, fun r hmem => ?_⟩
    · rw [hr.current, BitVec.toNat_ofNat]
      omega
    · rw [hr.ranges] at hmem
      obtain rfl := List.mem_singleton.1 hmem
      rw [hlimit, hbytes, BitVec.toNat_ofNat]
      omega
  · obtain ⟨-, -, hcurrent, hranges⟩ := boot_not_ready info k vmem hfit
    have hbounds := (memoryInit_bounds info k vmem).1
    refine ⟨rfl, by rw [hcurrent]; omega, fun r hmem => ?_⟩
    rw [hranges] at hmem
    exact absurd hmem List.not_mem_nil

/-- A free frame lies past what the bootstrap heap has handed out. -/
theorem boot_current_le {f : Nat} (hf : (boot info k vmem).pmm.Free f) :
    (boot info k vmem).memory.bootstrapHeapCurrent.toNat ≤ 0xC0000000 + f * 4096 := by
  obtain ⟨hfit, -, -, hkernel, hpage⟩ := (boot_free_iff info k vmem f).1 hf
  have hlimitle := bootstrapLimit_le info k
  have hle : bitmapStart k + bitmapSize info ≤ bootstrapLimit info k := hfit.2.2
  rw [(boot_ready info k vmem hfit).current, BitVec.toNat_ofNat]
  unfold BitmapPage at hpage
  omega

/-- So the bitmap does not overlap it. -/
theorem boot_ranges_clear {f : Nat} (hf : (boot info k vmem).pmm.Free f) :
    ∀ r ∈ (boot info k vmem).memory.bootRanges, ¬ Overlaps r f := by
  have hcurrent := boot_current_le info k vmem hf
  have hfit := ((boot_free_iff info k vmem f).1 hf).1
  have hr := boot_ready info k vmem hfit
  have hstart := bitmapStart_le k
  have hbytes : (bitmapBytes (tablePages info)).toNat = bitmapSize info :=
    bitmapBytes_toNat (tablePages_le info)
  have hsize : bitmapSize info ≤ 0x20000 := by
    have := tablePages_le info
    unfold bitmapSize
    omega
  rw [hr.current, BitVec.toNat_ofNat] at hcurrent
  rintro r hmem ⟨b, h1, h2, h3, h4⟩
  rw [hr.ranges] at hmem
  obtain rfl := List.mem_singleton.1 hmem
  have hptr : (BitVec.ofNat 32 (0xC0000000 + bitmapStart k)).toNat =
    0xC0000000 + bitmapStart k := by
    rw [BitVec.toNat_ofNat]
    omega
  dsimp only at h2
  rw [virtToPhys_toNat (by omega), hptr, hbytes] at h2
  omega

/-! ## One owner -/

theorem InOrder.oneOwner_of_below {t : System} {l : U32}
    (h : InOrder (boot info k vmem).pmm (RangesBelow l) t.memory t.machine)
    (hlimit : l.toNat = 0xC0000000 + bootstrapLimit info k)
    (hclear : ∀ f, (boot info k vmem).pmm.Free f → bootstrapLimit info k ≤ f * 4096) :
    OneOwner t := by
  rintro g hg f hf r hr ⟨b, h1, h2, h3, h4⟩
  have hfree := hclear f (h.1.grants g hg f hf)
  obtain ⟨hlo, hhi⟩ := h.2.ranges r hr
  rw [virtToPhys_toNat hlo] at h2
  omega

theorem Books.oneOwner_of_ranges {t : System} (h : Books (boot info k vmem).pmm t.machine)
    (hr : t.memory.bootRanges = (boot info k vmem).memory.bootRanges) : OneOwner t := by
  intro g hg f hf r hmem
  rw [hr] at hmem
  exact boot_ranges_clear info k vmem (h.grants g hg f hf) r hmem

/-- **Nothing overlaps** if there is enough memory to enable the backend, or the first
call stops the kernel, or no free frame lies in the bootstrap heap. -/
theorem oneOwner_run (h : 5 ≤ (boot info k vmem).pmm.freeCount ∨
      (2 ≤ (boot info k vmem).pmm.freeCount ∧ (boot info k vmem).pmm.freeBelow 1024 ≤ 1) ∨
      ∀ f, (boot info k vmem).pmm.Free f → bootstrapLimit info k ≤ f * 4096)
    {ops : List Op} (hops : ∀ op ∈ ops, op.Later) :
    OneOwner (runAll Op.exec (.enable :: ops) (bootSystem info k vmem phys)).state := by
  have hbooks : Books (boot info k vmem).pmm (bootSystem info k vmem phys).machine :=
    (machineOk_boot info k vmem phys).books
  by_cases hclear : ∀ f, (boot info k vmem).pmm.Free f → bootstrapLimit info k ≤ f * 4096
  · -- whatever happens, the bootstrap heap stays below the frames
    have hkeeps : KeepsSystem (InOrder (boot info k vmem).pmm
        (RangesBelow (boot info k vmem).memory.bootstrapHeapLimit))
        (runAll Op.exec (.enable :: ops)) := by
      refine keeps_runAll fun op hop => ?_
      rcases List.mem_cons.1 hop with rfl | hop
      · refine keeps_enable (fun mem mem' hs h => ?_) (fun mem h => ⟨h.limit, h.current, h.ranges⟩)
          fun mem msg h => ⟨h.limit, h.current, h.ranges⟩
        exact ⟨hs.limit.trans h.limit, by rw [hs.current]; exact h.current,
          by rw [hs.ranges]; exact h.ranges⟩
      · exact keeps_rangesBelow _ (hops op hop)
    have hend := wp_state.1 (hkeeps (bootSystem info k vmem phys)
      ⟨hbooks, boot_rangesBelow info k vmem⟩)
    exact hend.oneOwner_of_below info k vmem (boot_limit info k vmem) hclear
  · -- the bootstrap heap is not used again
    have hfirst : KeepsSystem (InOrder (boot info k vmem).pmm
        fun mem => mem.bootRanges = (boot info k vmem).memory.bootRanges) Op.enable.exec :=
      keeps_enable (fun _ _ hs h => hs.ranges.trans h) (fun _ h => h) fun _ _ h => h
    have hfirst := hfirst (bootSystem info k vmem phys) ⟨hbooks, rfl⟩
    by_cases hlow : 2 ≤ (boot info k vmem).pmm.freeBelow 1024
    · obtain ⟨t, hx, hen⟩ := enable_returns info k vmem phys (.inr hlow)
      have hmono := (boot info k vmem).pmm.freeBelow_mono (n := 1024) (k := 0x100000) (by decide)
      have hcount : 5 ≤ (bootSystem info k vmem phys).machine.pmm.freeCount := by
        rcases h with h | ⟨-, h⟩ | h
        · exact h
        · omega
        · exact absurd h hclear
      have hin := wp_ret hfirst hx
      rw [runAll_of_ret hx]
      have hkeeps : KeepsSystem (InOrder (boot info k vmem).pmm
          (RangesFixed (boot info k vmem).memory.bootRanges)) (runAll Op.exec ops) :=
        keeps_runAll fun op hop => keeps_rangesFixed _ (hops op hop)
      have hend := wp_state.1 (hkeeps t ⟨hin.1, hen.enough.2 hcount, hin.2⟩)
      exact hend.1.oneOwner_of_ranges info k vmem hend.2.2
    · have hcount : 2 ≤ (boot info k vmem).pmm.freeCount := by
        rcases h with h | ⟨h, -⟩ | h
        · omega
        · exact h
        · exact absurd h hclear
      have hfault := wp_and (enable_boot_faults info k vmem phys hcount (by omega)) hfirst
      refine wp_state.1 ?_
      rw [runAll_cons, wp_bind]
      exact wp_mono hfault (fun _ _ hc => hc.1.elim)
        fun _ t ht => ht.2.1.oneOwner_of_ranges info k vmem ht.2.2

/-! ## Two owners -/

/-- All that is left of the bootstrap heap. -/
def restOfBootstrap (m : Memory) : U32 := m.bootstrapHeapLimit - m.bootstrapHeapCurrent

theorem restOfBootstrap_toNat {m : Memory}
    (h : m.bootstrapHeapCurrent.toNat ≤ m.bootstrapHeapLimit.toNat) :
    (restOfBootstrap m).toNat = m.bootstrapHeapLimit.toNat - m.bootstrapHeapCurrent.toNat := by
  rw [restOfBootstrap, BitVec.toNat_sub_of_le (BitVec.le_def.2 h)]

/-- It overlaps a frame that starts in it. -/
theorem overlaps_rest {m : Memory} {u : Nat} (hlo : 0xC0000000 ≤ m.bootstrapHeapCurrent.toNat)
    (h1 : m.bootstrapHeapCurrent.toNat ≤ 0xC0000000 + u * 4096)
    (h2 : 0xC0000000 + u * 4096 < m.bootstrapHeapLimit.toNat) :
    Overlaps (m.bootstrapHeapCurrent, restOfBootstrap m) u := by
  have hsize := restOfBootstrap_toNat (h1.trans h2.le)
  have hphys := virtToPhys_toNat hlo
  refine ⟨u * 4096, ?_, ?_, le_refl _, by omega⟩
  all_goals
    dsimp only
    omega

/-- It can be had in one piece, before the backend is enabled. -/
theorem kmallocAligned_rest {σ : Type} {B : Backing σ} {m : Memory} {s : σ}
    (he : ¬ m.memoryPmmBackendEnabled = true)
    (h : m.bootstrapHeapCurrent.toNat < m.bootstrapHeapLimit.toNat) :
    wp (kmallocAligned B (restOfBootstrap m) 1)
      (fun _ t => t = (m.bootTaken m.bootstrapHeapCurrent (restOfBootstrap m), s))
      (fun _ _ => False) (m, s) := by
  have hrest := restOfBootstrap_toNat h.le
  have hne : restOfBootstrap m ≠ 0 := fun hc => by
    rw [hc, show (0 : U32).toNat = 0 from rfl] at hrest
    omega
  have hend : m.bootstrapHeapCurrent + restOfBootstrap m = m.bootstrapHeapLimit := by
    rw [restOfBootstrap, BitVec.add_comm, BitVec.sub_add_cancel]
  have halign : alignUpU32 m.bootstrapHeapCurrent 1 = m.bootstrapHeapCurrent := by
    rw [alignUpU32, if_neg (by decide)]
    exact (congrArg (· &&& _) (BitVec.add_zero _)).trans BitVec.and_allOnes
  have hwrap : ¬ m.bootstrapHeapLimit < m.bootstrapHeapCurrent := by
    rw [BitVec.lt_def]
    omega
  have halloc : bootstrapAllocAligned (restOfBootstrap m) 1 m =
      (m.bootstrapHeapCurrent, m.bootTaken m.bootstrapHeapCurrent (restOfBootstrap m)) := by
    unfold bootstrapAllocAligned
    rw [if_neg hne]
    simp only [if_neg (show ¬ (1 : U32) = 0 by decide), halign, hend, if_neg hwrap,
      if_neg (BitVec.lt_irrefl _), gt_iff_lt, Memory.bootTaken]
  refine wp_kmallocAligned (fun hc => absurd hc hne) (fun _ _ => ?_)
    (fun _ hc _ => absurd hc he) fun _ hc _ => absurd hc he
  unfold wp bootstrapAlloc
  rw [halloc]

/-- **The run in which both allocators hand out the same bytes**: the backend stays
disabled, a client takes a page, and then what is left of the bootstrap heap. -/
theorem clash (hdis : (boot info k vmem).pmm.freeCount ≤ 1 ∨
      ((boot info k vmem).pmm.freeCount < 5 ∧ 2 ≤ (boot info k vmem).pmm.freeBelow 1024))
    {f : Nat} (hf : (boot info k vmem).pmm.Free f) (hlimit : f * 4096 < bootstrapLimit info k) :
    ¬ OneOwner (runAll Op.exec [.enable, .allocPage,
        .request (.kmallocAligned (restOfBootstrap (boot info k vmem).memory) 1)]
      (bootSystem info k vmem phys)).state := by
  have hboot := boot_limit info k vmem
  have hcurrent := (boot_rangesBelow info k vmem).current
  have hle := boot_current_le info k vmem hf
  obtain ⟨t, hx, hen⟩ := enable_returns info k vmem phys (by omega)
  have he : ¬ t.memory.memoryPmmBackendEnabled = true := by
    rw [hen.enough]
    change ¬ 5 ≤ (boot info k vmem).pmm.freeCount
    omega
  have hcur : t.memory.bootstrapHeapCurrent = (boot info k vmem).memory.bootstrapHeapCurrent :=
    hen.current
  have hlim : t.memory.bootstrapHeapLimit = (boot info k vmem).memory.bootstrapHeapLimit :=
    hen.limit
  have hrest : restOfBootstrap (boot info k vmem).memory = restOfBootstrap t.memory := by
    rw [restOfBootstrap, restOfBootstrap, hcur, hlim]
  rw [runAll_of_ret hx, hrest]
  refine (wp_state (P := fun t : System => ¬ OneOwner t)).1 ?_
  rw [runAll_cons, wp_bind]
  refine wp_clientAlloc.2 ?_
  -- the lowest free frame has been handed out
  have hgrant : ∃ u : Frame, (boot info k vmem).pmm.Free u.val ∧ u.val ≤ f ∧
      (frameAddr u.val, (1 : U32)) ∈ (if (pmmAllocPage t.machine.pmm).1 = 0 then t.machine.grants
        else ((pmmAllocPage t.machine.pmm).1, 1) :: t.machine.grants) := by
    have hwf := boot_wf info k vmem
    by_cases htwo : 2 ≤ (boot info k vmem).pmm.freeCount
    · obtain ⟨u, -, hfree, hfirst, hmem⟩ := hen.grown.first (by decide)
        (by rw [if_neg (onlyWindow_boot info k vmem phys).not_hasTable]; exact htwo)
      refine ⟨u, hfree, not_lt.1 fun hc => hfirst f hc hf, ?_⟩
      split
      · exact hmem
      · exact List.mem_cons_of_mem _ hmem
    · obtain ⟨hpmm, -⟩ := hen.grown.few (by decide)
        (by rw [if_neg (onlyWindow_boot info k vmem phys).not_hasTable]; exact not_le.1 htwo)
      rw [hpmm]
      change ∃ u : Frame, _ ∧ _ ∧ _ ∈ (if (pmmAllocPage (boot info k vmem).pmm).1 = 0 then _
        else ((pmmAllocPage (boot info k vmem).pmm).1, 1) :: _)
      rcases pmmAllocPage_spec (p := (boot info k vmem).pmm) with ⟨-, hno⟩ | ⟨u, hr, hfree, hfirst⟩
      · exact absurd hf (hno f)
      · rw [hr, if_neg (frameAddr_ne_zero (hwf.lt hfree) (hwf.pos hfree))]
        exact ⟨⟨u, hwf.lt hfree⟩, hfree, not_lt.1 fun hc => hfirst f hc hf, List.mem_cons_self⟩
  obtain ⟨u, hfree, hu, hgrant⟩ := hgrant
  have hule := boot_current_le info k vmem hfree
  rw [runAll_cons, wp_bind, Op.exec, wp_bind, onHeap, wp_zoom]
  refine wp_mono (kmallocAligned_rest he (by rw [hcur, hlim]; omega)) ?_ fun _ _ hc => hc.elim
  rintro p v rfl
  refine fun hone => hone _ hgrant u.val ?_ _ List.mem_cons_self ?_
  · rw [framesOf_frameAddr u.isLt]
    exact ⟨le_refl _, Nat.lt_succ_self _⟩
  · exact overlaps_rest (by rw [hcur]; exact hcurrent) (by rw [hcur]; exact hule)
      (by rw [hlim]; omega)

end

/-- A machine with one frame left after the kernel and the bitmap. -/
def lastFrameTable : E820Info where
  signature := E820_SIG
  entries := [⟨0x100000, 0x12000, 1, 1⟩]

theorem lastFrameTable_free (vmem : Mem) (f : Nat) :
    (boot lastFrameTable smallKernel vmem).pmm.Free f ↔ f = 273 := by
  have hend : (⟨0x100000, 0x12000, 1, 1⟩ : E820Entry).end64.toNat = 0x112000 := by decide
  have hbase : (⟨0x100000, 0x12000, 1, 1⟩ : E820Entry).base.toNat = 0x100000 := by decide
  rw [smallKernel_free rfl (by decide) (by decide), freedBy_iff, hend, hbase]
  simp only [true_and]
  omega

theorem lastFrameTable_clash (vmem phys : Mem) : ¬ OneOwner (runAll Op.exec [.enable, .allocPage,
      .request (.kmallocAligned (restOfBootstrap (boot lastFrameTable smallKernel vmem).memory) 1)]
    (bootSystem lastFrameTable smallKernel vmem phys)).state := by
  have hone := Pmm.freeBelow_le_card (p := (boot lastFrameTable smallKernel vmem).pmm)
    (n := 0x100000) {273} fun f _ hf => Finset.mem_singleton.2 ((lastFrameTable_free vmem f).1 hf)
  have hlimit : 273 * 4096 < bootstrapLimit lastFrameTable smallKernel := by decide
  exact clash lastFrameTable smallKernel vmem phys (.inl hone)
    ((lastFrameTable_free vmem 273).2 rfl) hlimit

end Frewozet
