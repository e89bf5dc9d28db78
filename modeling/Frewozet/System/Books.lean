import Frewozet.Pmm.Runs
import Frewozet.System.Growth

/-!
# What no call can spoil

What every call keeps whatever state the page tables and the heap are in, and
whatever addresses it is given: the books of the frame allocator, and the statics of
the bootstrap heap.

* `Books` — the allocator has only ever handed out frames that `pmm_init` left free.
* `keeps_pagingMapPage`, `keeps_pagingAllocPage`, `keeps_heapGrowPages` — `paging.c`
  and `heap_grow` keep the books.
* `kmalloc_keeps`, `memoryEnablePmmBackend_keeps` — `memory.c` keeps whatever its
  backing keeps and its own statics do not decide.
-/

namespace Frewozet

open Word Exec

/-- The books, relative to what `pmm_init` left free. -/
structure Books (p₀ : Pmm) (m : Machine) : Prop where
  wf : m.pmm.Wf
  table : SameTable p₀ m.pmm
  free : ∀ f, m.pmm.Free f → p₀.Free f
  grants : ∀ g ∈ m.grants, ∀ f ∈ framesOf g, p₀.Free f

theorem MachineOk.books {p₀ : Pmm} {m : Machine} (h : MachineOk p₀ m) : Books p₀ m :=
  ⟨h.wf, h.table, h.free, h.grants⟩

section

variable {p₀ : Pmm} {m m' : Machine}

/-- They are a matter of the allocator. -/
theorem Books.congr (h : Books p₀ m) (hpmm : m'.pmm = m.pmm) (hgrants : m'.grants = m.grants) :
    Books p₀ m' :=
  ⟨by rw [hpmm]; exact h.wf, by rw [hpmm]; exact h.table, by rw [hpmm]; exact h.free,
    by rw [hgrants]; exact h.grants⟩

/-! ## The frame allocator -/

/-- An allocation keeps them. -/
theorem Books.allocates (h : Books p₀ m) {n : U32} {r : U32 × Pmm} (hr : Allocates m.pmm n r) :
    Books p₀
      { m with pmm := r.2, grants := if r.1 = 0 then m.grants else (r.1, n) :: m.grants } := by
  rcases hr with rfl | ⟨s, rfl, hn, hend, hfree⟩
  · exact h.congr rfl rfl
  · have hs := hfree s (le_refl s) (by omega)
    have hframes := framesOf_frameAddr (h.wf.lt hs) n
    have hne := frameAddr_ne_zero (h.wf.lt hs) (h.wf.pos hs)
    simp only [hne, if_false]
    refine ⟨h.wf.takeRun hend, h.table.trans (sameTable_takeRun h.wf hs.1 hend),
      fun f hf => h.free f ((Pmm.free_takeRun h.wf hend f).1 hf).1, fun g hg => ?_⟩
    rcases List.mem_cons.1 hg with rfl | hg
    · rw [hframes]
      exact fun f hf => h.free f (hfree f hf.1 hf.2)
    · exact h.grants g hg

theorem keeps_allocFrames {n : U32} {call : Pmm → U32 × Pmm}
    (hr : ∀ p, Allocates p n (call p)) : Keeps (Books p₀) (allocFrames n call) :=
  fun m h => wp_allocFrames.2 (h.allocates (hr m.pmm))

/-- What a page that has been allocated can be. -/
def IsPage (p₀ : Pmm) (page : U32) : Prop :=
  page = 0 ∨ ∃ s, page = frameAddr s ∧ 0 < s ∧ p₀.Free s

theorem Books.allocPage (h : Books p₀ m) : wp (allocFrames 1 pmmAllocPage)
    (fun page m' => IsPage p₀ page ∧ Books p₀ m') (fun _ => Books p₀) m := by
  refine wp_allocFrames.2 ⟨?_, h.allocates (allocates_allocContiguous m.pmm 1)⟩
  rcases pmmAllocPage_spec (p := m.pmm) with ⟨hr, -⟩ | ⟨s, hr, hs, -⟩
  · rw [hr]
    exact .inl rfl
  · rw [hr]
    exact .inr ⟨s, rfl, h.wf.pos hs, h.free s hs⟩

/-- Giving back such a page keeps them. -/
theorem keeps_freePage {page : U32} (hp : IsPage p₀ page) :
    Keeps (Books p₀) (freeFrames (pmmFreePage page)) := by
  intro m h
  change Books p₀ { m with pmm := pmmFreePage page m.pmm }
  rcases hp with rfl | ⟨s, rfl, hpos, hs⟩
  · have hzero : pmmFreePage 0 m.pmm = m.pmm := by
      rw [pmmFreePage, pmmFreeContiguous, if_pos (.inr (.inl rfl))]
    exact h.congr hzero rfl
  · have hlt : s < m.pmm.pmmTotalPages.toNat := by rw [h.table.total]; exact hs.lt
    rw [pmmFreePage_spec h.wf (by rw [h.table.bitmap]; exact hs.1) hpos hlt]
    refine ⟨h.wf.giveRun hpos, h.table.trans (sameTable_giveRun m.pmm s 1), fun f hf => ?_,
      h.grants⟩
    rcases (Pmm.free_giveRun m.pmm s 1 f).1 hf with hf | ⟨-, -, h1, h2⟩
    · exact h.free f hf
    · rwa [show f = s by omega]

/-- Taking a page, and giving it back if nothing comes of it. -/
theorem Books.allocThen {α : Type} (h : Books p₀ m) {f : U32 → Exec Machine α}
    (hf : ∀ page, IsPage p₀ page → Keeps (Books p₀) (f page)) :
    wp (allocFrames 1 pmmAllocPage >>= f) (fun _ => Books p₀) (fun _ => Books p₀) m := by
  rw [wp_bind]
  exact wp_mono h.allocPage (fun page t ht => hf page ht.1 t ht.2) fun _ _ ht => ht

/-! ## `paging.c` -/

theorem keeps_access (addr : U32) : Keeps (Books p₀) (tableAccess addr) ∧
    Keeps (Books p₀) (dataAccess addr) := by
  constructor
  · intro m h
    unfold wp tableAccess
    cases mmu m.phys addr <;> exact h.congr rfl rfl
  · intro m h
    unfold wp dataAccess
    cases mmu m.phys addr <;> exact h

theorem keeps_loadTable (addr : U32) : Keeps (Books p₀) (loadTable addr) :=
  keeps_bind (keeps_access addr).1 fun _ => keeps_bind keeps_get fun _ => keeps_pure _

theorem keeps_storeTable (addr value : U32) : Keeps (Books p₀) (storeTable addr value) :=
  keeps_bind (keeps_access addr).1 fun _ => keeps_modify fun _ h => h.congr rfl rfl

theorem keeps_memset {access : U32 → Exec Machine U32}
    (haccess : ∀ addr, Keeps (Books p₀) (access addr)) (value : U8) :
    ∀ (n : Nat) (dest : U32), Keeps (Books p₀) (memset access dest value n) := by
  intro n
  induction n with
  | zero => exact fun _ => keeps_pure ()
  | succ n ih =>
    intro dest
    rw [memset]
    exact keeps_bind (haccess dest) fun _ =>
      keeps_bind (keeps_modify fun _ h => h.congr rfl rfl) fun _ => ih (dest + 1#32)

theorem keeps_pagingGetPageTable (virt : U32) (create : Bool) (flags : U32) :
    Keeps (Books p₀) (pagingGetPageTable virt create flags) := by
  unfold pagingGetPageTable pagingGetPageTableBy
  dsimp only
  refine keeps_bind (keeps_loadTable _) fun pde => ?_
  refine keeps_ite (keeps_pure _) (keeps_ite (keeps_pure _) ?_)
  refine keeps_bind (keeps_allocFrames fun p => allocates_allocContiguous p 1) fun page => ?_
  refine keeps_ite (keeps_pure _) ?_
  exact keeps_bind (keeps_memset (fun a => (keeps_access a).1) 0 PAGE_SIZE _) fun _ =>
    keeps_bind (keeps_storeTable _ _) fun _ => keeps_pure _

/-- **`paging_map_page` keeps the books**, whatever it maps where. -/
theorem keeps_pagingMapPage (virt phys flags : U32) :
    Keeps (Books p₀) (pagingMapPage virt phys flags) := by
  unfold pagingMapPage pagingMapPageBy
  dsimp only
  refine keeps_bind (keeps_pagingGetPageTable _ _ _) fun table => keeps_ite (keeps_pure _) ?_
  exact keeps_bind (keeps_storeTable _ _) fun _ => keeps_pure _

/-- **So does `paging_alloc_page`.** -/
theorem keeps_pagingAllocPage (virt flags : U32) :
    Keeps (Books p₀) (pagingAllocPage virt flags) := by
  intro m h
  refine h.allocThen fun page hpage => keeps_ite (keeps_pure _) ?_
  refine keeps_bind (keeps_pagingMapPage _ _ _) fun mapped => keeps_ite ?_ ?_
  · exact keeps_bind (keeps_freePage hpage) fun _ => keeps_pure _
  · exact keeps_bind (keeps_memset (fun a => (keeps_access a).2) 0 PAGE_SIZE _) fun _ =>
      keeps_pure _

theorem keeps_growPage (virt : U32) : Keeps (Books p₀) (growPage kernelBacking virt) := by
  intro m h
  refine h.allocThen fun page hpage => keeps_ite (keeps_pure _) ?_
  refine keeps_bind (keeps_pagingMapPage _ _ _) fun mapped => keeps_ite ?_ (keeps_pure _)
  exact keeps_bind (keeps_freePage hpage) fun _ => keeps_pure _

/-- **And the loop of `heap_grow`.** -/
theorem keeps_heapGrowPages : ∀ (n : Nat) (virt : U32),
    Keeps (Books p₀) (heapGrowPages kernelBacking virt n) := by
  intro n
  induction n with
  | zero => exact fun _ => keeps_pure _
  | succ n ih =>
    intro virt
    rw [heapGrowPages_succ]
    exact keeps_bind (keeps_growPage virt) fun ok => keeps_ite (ih _) (keeps_pure _)

end

/-! ## `memory.c` -/

theorem heapAddRegion_same {region regionSize : U32} {m m' : Memory}
    (h : heapAddRegion region regionSize m = some m') : SameStatics m m' := by
  unfold heapAddRegion at h
  split at h
  · obtain rfl := Option.some.inj h
    exact .refl _
  · dsimp only at h
    split at h
    · obtain rfl := Option.some.inj h
      exact ⟨rfl, rfl, rfl, rfl, rfl, rfl⟩
    · obtain ⟨current, -, rfl⟩ := Option.map_eq_some_iff.1 h
      exact ⟨rfl, rfl, rfl, rfl, rfl, rfl⟩

section

variable {σ : Type} {B : Backing σ} {P : Memory → σ → Prop}

/-- A property of statics and backing, kept. -/
abbrev KeepsBoth {α : Type} (P : Memory → σ → Prop) (x : Exec (Memory × σ) α) : Prop :=
  Keeps (fun t => P t.1 t.2) x

variable (hP : ∀ mem mem' s, SameStatics mem mem' → P mem s → P mem' s)
  (hgrow : ∀ mem virt n s, P mem s →
    wp (heapGrowPages B virt n) (fun _ => P mem) (fun _ => P mem) s)

include hP

theorem modifyMemory_keeps {f : Memory → Memory} (hf : ∀ m, SameStatics m (f m)) :
    KeepsBoth P (modifyMemory (σ := σ) f) :=
  keeps_modify fun t ht => hP _ _ _ (hf t.1) ht

theorem takeBlock_keeps (block size : U32) : KeepsBoth P (takeBlock (σ := σ) block size) := by
  unfold takeBlock
  refine keeps_bind (modifyMemory_keeps hP fun m => ?_) fun _ =>
    keeps_bind (modifyMemory_keeps hP fun m => ?_) fun _ => keeps_pure _
  · unfold heapSplitBlock
    dsimp only
    split
    · exact .refl m
    · split
      · exact .refl m
      · exact ⟨rfl, rfl, rfl, rfl, rfl, rfl⟩
  · exact ⟨rfl, rfl, rfl, rfl, rfl, rfl⟩

include hgrow

theorem heapGrow_keeps (size : U32) : KeepsBoth P (heapGrow B size) := by
  unfold heapGrow
  refine keeps_bind (keeps_bind keeps_get fun _ => keeps_pure _) fun m => ?_
  dsimp only
  refine keeps_ite (keeps_pure _) (keeps_ite (keeps_pure _) ?_)
  refine keeps_bind (keeps_zoom fun t ht => hgrow _ _ _ _ ht) fun grown =>
    keeps_ite (keeps_pure _) ?_
  refine keeps_bind (modifyMemory_keeps hP fun m => ⟨rfl, rfl, rfl, rfl, rfl, rfl⟩) fun _ => ?_
  -- the list is changed from what has just been read
  intro t ht
  rw [wp_bind, wp_getMemory, wp_bind]
  cases hadd : heapAddRegion m.heapVirtualCurrent (growPages size * PMM_PAGE_SIZE) t.1 with
  | none => exact ht
  | some m' => exact hP _ _ _ (heapAddRegion_same hadd) ht

/-- **`kmalloc`**, once the backend is enabled, whatever the list looks like. -/
theorem kmalloc_keeps {m : Memory} {s : σ} (he : m.memoryPmmBackendEnabled = true) (size : U32)
    (h : P m s) :
    wp (kmalloc B size) (fun _ t => P t.1 t.2) (fun _ t => P t.1 t.2) (m, s) := by
  unfold kmalloc
  by_cases h0 : size = 0
  · rw [if_pos h0]
    exact h
  rw [if_neg h0, wp_bind, wp_getMemory, he]
  simp only [Bool.not_true, Bool.false_eq_true, if_false]
  have htake : ∀ block, KeepsBoth P (takeBlock (σ := σ) block
      (alignUpSize size MEMORY_DEFAULT_ALIGNMENT)) := fun block => takeBlock_keeps hP block _
  refine (keeps_bind (keeps_ofOption _ _) fun block => keeps_ite ?_ (htake block)) (m, s) h
  refine keeps_bind (heapGrow_keeps hP hgrow _) fun grown => keeps_ite (keeps_pure _) ?_
  refine keeps_bind (keeps_bind keeps_get fun _ => keeps_pure _) fun m => ?_
  exact keeps_bind (keeps_ofOption _ _) fun block => keeps_ite (keeps_pure _) (htake block)

/-- **Enabling the backend**, if neither the flag nor the log matter. -/
theorem memoryEnablePmmBackend_keeps
    (hset : ∀ mem s, P mem s → P { mem with memoryPmmBackendEnabled := true } s)
    (hlog : ∀ mem s msg, P mem s → P (mem.logStartupError msg) s) :
    KeepsBoth P (memoryEnablePmmBackend B) := by
  unfold memoryEnablePmmBackend
  refine keeps_bind (keeps_bind keeps_get fun _ => keeps_pure _) fun m =>
    keeps_ite (keeps_pure _) ?_
  refine keeps_bind (heapGrow_keeps hP hgrow 1) fun grown => keeps_ite ?_ ?_
  · exact keeps_modify fun t ht => hlog _ _ _ ht
  · exact keeps_modify fun t ht => hset _ _ ht

end

end Frewozet
