import Frewozet.Heap.List

/-!
# What the calls of the heap do

One specification for each call, whatever the backing does.

* `GrowsHeap`, `heapGrow_spec` — the heap gets a new region, or the request is
  refused, or the backing runs out half-way; only the first changes `memory.c`.
* `Enables`, `memoryEnablePmmBackend_spec` — enabling the backend is one such
  attempt.
* `Serves` — a request is served from the first block that fits.
* `Mallocs`, `kmalloc_spec` — **every way `kmalloc` can end** once the backend is
  enabled.
* `Malloced`, `Mallocs.malloced` — what this means for the list: one block of it is
  newly used, and the used ones stay.
-/

namespace Frewozet

open Word Exec Tiling

/-! ## The size of a region -/

theorem pagesNeededFor_toNat (bytes : U32) :
    (pagesNeededFor bytes).toNat = (bytes.toNat + 4095) % 2 ^ 32 / 4096 := by
  have hsize : PMM_PAGE_SIZE.toNat = 4096 := rfl
  have hsum : (bytes + PMM_PAGE_SIZE - 1).toNat = (bytes.toNat + 4095) % 2 ^ 32 := by
    rw [BitVec.toNat_sub, BitVec.toNat_add, hsize, show (1 : U32).toNat = 1 from rfl]
    omega
  rw [pagesNeededFor, BitVec.toNat_udiv, hsum, hsize]

theorem growPages_toNat (size : U32) : (growPages size).toNat =
    max 4 (((size.toNat + 12) % 2 ^ 32 + 4095) % 2 ^ 32 / 4096) := by
  have hbytes : (size + HEAP_BLOCK_BYTES).toNat = (size.toNat + 12) % 2 ^ 32 := by
    rw [BitVec.toNat_add]
    rfl
  have hpages := pagesNeededFor_toNat (size + HEAP_BLOCK_BYTES)
  rw [hbytes] at hpages
  have hfour : MEMORY_HEAP_GROW_PAGES.toNat = 4 := rfl
  unfold growPages
  dsimp only
  split <;> rename_i hlt <;> rw [BitVec.lt_def, hpages, hfour] at hlt
  · rw [hfour]
    omega
  · rw [hpages]
    omega

theorem growPages_bounds (size : U32) :
    4 ≤ (growPages size).toNat ∧ (growPages size).toNat < 0x100000 := by
  rw [growPages_toNat]
  omega

/-- The region of a request, in bytes. -/
def regionBytes (size : U32) : U32 := growPages size * PMM_PAGE_SIZE

theorem regionBytes_toNat (size : U32) :
    (regionBytes size).toNat = (growPages size).toNat * 4096 := by
  have := growPages_bounds size
  rw [regionBytes, BitVec.toNat_mul, show PMM_PAGE_SIZE.toNat = 4096 from rfl]
  omega

/-- The region of a request ends in the heap window. -/
def RoomFor (m : Memory) (size : U32) : Prop :=
  m.heapVirtualCurrent.toNat + (growPages size).toNat * 4096 ≤ 0xE0000000

instance (m : Memory) (size : U32) : Decidable (RoomFor m size) :=
  inferInstanceAs (Decidable (_ ≤ _))

/-- The two checks of `heap_grow`. -/
theorem roomFor_iff {m : Memory} (h : m.heapVirtualCurrent.toNat ≤ 0xE0000000) (size : U32) :
    RoomFor m size ↔ ¬ m.heapVirtualCurrent + regionBytes size < m.heapVirtualCurrent ∧
      ¬ m.heapVirtualCurrent + regionBytes size > KERNEL_HEAP_END := by
  have hpages := growPages_bounds size
  have hend : KERNEL_HEAP_END.toNat = 0xE0000000 := rfl
  rw [RoomFor, gt_iff_lt, BitVec.lt_def, BitVec.lt_def, BitVec.toNat_add, regionBytes_toNat, hend]
  omega

/-- The block of a new region. -/
def regionBlock (m : Memory) (size : U32) : Block :=
  ⟨m.heapVirtualCurrent.toNat, (growPages size).toNat * 4096 - 12, true⟩

/-! ## `heap_grow` -/

section

variable {σ : Type} {B : Backing σ} {m : Memory} {bs : List Block} {s : σ}

@[simp] theorem wp_getMemory {t : Memory × σ} {Q : Memory → Memory × σ → Prop}
    {S : Stop → Memory × σ → Prop} : wp getMemory Q S t ↔ Q t.1 t := Iff.rfl

@[simp] theorem wp_modifyMemory {t : Memory × σ} (f : Memory → Memory)
    {Q : Unit → Memory × σ → Prop} {S : Stop → Memory × σ → Prop} :
    wp (modifyMemory f) Q S t ↔ Q () (f t.1, t.2) := Iff.rfl

/-- How `heap_grow` ends when it returns. -/
inductive GrowsHeap (B : Backing σ) (m : Memory) (bs : List Block) (s : σ) (size : U32) (ok : Bool)
    (m' : Memory) (s' : σ) : Prop
  | refused (room : ¬ RoomFor m size) (res : ok = false) (memory : m' = m) (backing : s' = s)
  | exhausted (room : RoomFor m size)
      (pages : heapGrowPages B m.heapVirtualCurrent (growPages size).toNat s = .ret false s')
      (res : ok = false) (memory : m' = m)
  | grown (vmem : Mem) (head : U32) (room : RoomFor m size)
      (pages : heapGrowPages B m.heapVirtualCurrent (growPages size).toNat s = .ret true s')
      (res : ok = true) (memory : m' = m.withRegion (regionBytes size) vmem head)
      (heap : HeapAt m' (bs ++ [regionBlock m size]))

/-- How it ends when it stops. -/
def GrowStops (B : Backing σ) (m : Memory) (s : σ) (size : U32) (w : Stop) (m' : Memory) (s' : σ) :
    Prop :=
  RoomFor m size ∧
    heapGrowPages B m.heapVirtualCurrent (growPages size).toNat s = .stop w s' ∧ m' = m

/-- **`heap_grow`.** -/
theorem heapGrow_spec (h : HeapAt m bs) (size : U32) :
    wp (heapGrow B size) (fun ok t => GrowsHeap B m bs s size ok t.1 t.2)
      (fun w t => GrowStops B m s size w t.1 t.2) (m, s) := by
  have hroom := roomFor_iff h.limit size
  unfold heapGrow
  rw [wp_bind, wp_getMemory]
  dsimp only
  rw [← regionBytes]
  by_cases h1 : m.heapVirtualCurrent + regionBytes size < m.heapVirtualCurrent
  · rw [if_pos h1]
    exact .refused (fun hc => (hroom.1 hc).1 h1) rfl rfl rfl
  by_cases h2 : m.heapVirtualCurrent + regionBytes size > KERNEL_HEAP_END
  · rw [if_neg h1, if_pos h2]
    exact .refused (fun hc => (hroom.1 hc).2 h2) rfl rfl rfl
  rw [if_neg h1, if_neg h2, wp_bind, onBacking, wp_zoom]
  have hin : RoomFor m size := hroom.2 ⟨h1, h2⟩
  have hpages := growPages_bounds size
  cases hp : heapGrowPages B m.heapVirtualCurrent (growPages size).toNat s with
  | stop w s' =>
    simp only [wp, hp]
    exact ⟨hin, hp, rfl⟩
  | ret ok s' =>
    cases ok with
    | false =>
      simp only [wp, hp]
      exact .exhausted hin hp rfl rfl
    | true =>
      have hbytes := regionBytes_toNat size
      unfold RoomFor at hin
      obtain ⟨vmem, head, hadd, hheap⟩ :=
        @HeapAt.addRegion _ _ h (regionBytes size) (by omega) (by omega)
      rw [hbytes] at hheap
      change HeapAt _ (bs ++ [regionBlock m size]) at hheap
      unfold wp
      rw [hp]
      dsimp only
      change wp _ _ _ _
      simp only [Bool.not_true, Bool.false_eq_true, if_false, wp_bind, wp_modifyMemory,
        wp_getMemory]
      change wp (ofOption .hang (heapAddRegion m.heapVirtualCurrent (regionBytes size)
        (m.withRegion (regionBytes size) m.vmem m.heapHead))) _ _ _
      rw [hadd, wp_ofOption_some]
      exact .grown vmem head hin hp rfl rfl hheap

/-! ## `memory_enable_pmm_backend` -/

/-- How `memory_enable_pmm_backend` ends when it returns. -/
inductive Enables (B : Backing σ) (m : Memory) (bs : List Block) (s : σ) (m' : Memory) (s' : σ) :
    Prop
  | already (enabled : m.memoryPmmBackendEnabled = true) (memory : m' = m) (backing : s' = s)
  | failed (m₁ : Memory) (disabled : m.memoryPmmBackendEnabled = false)
      (grow : GrowsHeap B m bs s 1 false m₁ s')
      (memory : m' = m₁.logStartupError "Failed to enable PMM-backed heap. Keeping bootstrap heap.")
  | done (m₁ : Memory) (disabled : m.memoryPmmBackendEnabled = false)
      (grow : GrowsHeap B m bs s 1 true m₁ s')
      (memory : m' = { m₁ with memoryPmmBackendEnabled := true })

/-- **`memory_enable_pmm_backend`.** -/
theorem memoryEnablePmmBackend_spec (h : HeapAt m bs) :
    wp (memoryEnablePmmBackend B) (fun _ t => Enables B m bs s t.1 t.2)
      (fun w t => m.memoryPmmBackendEnabled = false ∧ GrowStops B m s 1 w t.1 t.2) (m, s) := by
  unfold memoryEnablePmmBackend
  rw [wp_bind, wp_getMemory]
  cases he : m.memoryPmmBackendEnabled with
  | true => exact .already he rfl rfl
  | false =>
    simp only [Bool.false_eq_true, if_false]
    rw [wp_bind]
    refine wp_mono (heapGrow_spec h 1) ?_ fun _ _ hc => ⟨trivial, hc⟩
    rintro ok t hgrow
    cases ok with
    | false => exact .failed t.1 he hgrow rfl
    | true => exact .done t.1 he hgrow rfl

/-! ## `kmalloc` -/

/-- A request is served from the first block of the list that fits. -/
inductive Serves (m : Memory) (bs : List Block) (size p : U32) (m' : Memory) : Prop
  | intro (xs : List Block) (b : Block) (ys : List Block) (vmem : Mem) (list : bs = xs ++ b :: ys)
      (first : ∀ c ∈ xs, c.fits size.toNat = false) (fits : b.fits size.toNat = true)
      (ptr : p = b.ptr + HEAP_BLOCK_BYTES) (memory : m' = { m with vmem := vmem })
      (heap : HeapAt m' (xs ++ b.taken size.toNat ++ ys))
      (outside : ∀ l r, r ≤ b.addr ∨ b.stop ≤ l → vmem.AgreeOn m.vmem l r)

theorem takeBlock_spec (h : HeapAt m bs) {size : U32} {b : Block}
    (hsize : alignUpSize size MEMORY_DEFAULT_ALIGNMENT = size)
    (hb : bs.find? (Block.fits size.toNat) = some b) :
    wp (takeBlock b.ptr size) (fun p t => Serves m bs size p t.1 ∧ t.2 = s) (fun _ _ => False)
      (m, s) := by
  obtain ⟨hfits, xs, ys, rfl, hfirst⟩ := List.find?_eq_some_iff_append.1 hb
  have hle : size.toNat ≤ b.size := by
    rw [Block.fits, Bool.and_eq_true, decide_eq_true_eq] at hfits
    exact hfits.2
  obtain ⟨vmem, hsplit, hheap, hout⟩ := h.take hsize hle
  unfold takeBlock
  simp only [wp_bind, wp_modifyMemory, wp_pure, hsplit]
  exact ⟨.intro xs b ys _ rfl (fun c hc => by simpa using hfirst c hc) hfits rfl rfl hheap hout,
    trivial⟩

/-- How `kmalloc` ends when it returns, `size` being the rounded size. -/
inductive Mallocs (B : Backing σ) (m : Memory) (bs : List Block) (s : σ) (size p : U32)
    (m' : Memory) (s' : σ) : Prop
  | served (serves : Serves m bs size p m') (backing : s' = s)
  | failed (none : ∀ b ∈ bs, b.fits size.toNat = false) (grow : GrowsHeap B m bs s size false m' s')
      (res : p = 0)
  | grown (none : ∀ b ∈ bs, b.fits size.toNat = false) (m₁ : Memory)
      (grow : GrowsHeap B m bs s size true m₁ s')
      (serves : Serves m₁ (bs ++ [regionBlock m size]) size p m')
  | missed (none : ∀ b ∈ bs, b.fits size.toNat = false)
      (grow : GrowsHeap B m bs s size true m' s')
      (small : (regionBlock m size).fits size.toNat = false) (res : p = 0)

theorem alignUpSize_idem (v : U32) :
    alignUpSize (alignUpSize v MEMORY_DEFAULT_ALIGNMENT) MEMORY_DEFAULT_ALIGNMENT =
      alignUpSize v MEMORY_DEFAULT_ALIGNMENT := by
  have hmod := alignUp_mod isPow2_defaultAlignment v
  rw [alignUpSize_eq, alignUpSize_eq]
  generalize alignUp v MEMORY_DEFAULT_ALIGNMENT = w at hmod
  have h16 : MEMORY_DEFAULT_ALIGNMENT.toNat = 16 := rfl
  have hw := w.isLt
  rw [h16] at hmod
  apply BitVec.eq_of_toNat_eq
  rw [alignUp_toNat isPow2_defaultAlignment (by omega), h16]
  omega

/-- **`kmalloc`**, once the backend is enabled. -/
theorem kmalloc_spec (h : HeapAt m bs) (he : m.memoryPmmBackendEnabled = true) {size : U32}
    (h0 : size ≠ 0) :
    wp (kmalloc B size)
      (fun p t => Mallocs B m bs s (alignUpSize size MEMORY_DEFAULT_ALIGNMENT) p t.1 t.2)
      (fun w t => (∀ b ∈ bs, b.fits (alignUpSize size MEMORY_DEFAULT_ALIGNMENT).toNat = false) ∧
        GrowStops B m s (alignUpSize size MEMORY_DEFAULT_ALIGNMENT) w t.1 t.2) (m, s) := by
  have hidem := alignUpSize_idem size
  unfold kmalloc
  rw [if_neg h0]
  dsimp only
  generalize alignUpSize size MEMORY_DEFAULT_ALIGNMENT = size' at hidem
  rw [wp_bind, wp_getMemory, he]
  simp only [Bool.not_true, Bool.false_eq_true, if_false]
  rw [wp_bind, h.find, wp_ofOption_some]
  cases hf : bs.find? (Block.fits size'.toNat) with
  | some b =>
    have hne := (h.inWindow (List.mem_of_find?_eq_some hf)).ptr_ne
    dsimp only
    rw [if_neg hne]
    refine wp_mono (takeBlock_spec h hidem hf) ?_ fun _ _ hc => hc.elim
    rintro p t ⟨hserves, hback⟩
    exact .served hserves hback
  | none =>
    have hnone : ∀ b ∈ bs, b.fits size'.toNat = false := fun b hb => by
      simpa using List.find?_eq_none.1 hf b hb
    dsimp only
    rw [if_pos rfl, wp_bind]
    refine wp_mono (heapGrow_spec h size') ?_ fun _ _ hc => ⟨hnone, hc⟩
    rintro ok ⟨m₁, s₁⟩ hgrow
    cases ok with
    | false => exact .failed hnone hgrow rfl
    | true =>
      simp only [Bool.not_true, Bool.false_eq_true, if_false]
      have hheap : HeapAt m₁ (bs ++ [regionBlock m size']) := by
        cases hgrow with
        | refused _ hres => cases hres
        | exhausted _ _ hres => cases hres
        | grown _ _ _ _ _ _ hheap => exact hheap
      rw [wp_bind, wp_getMemory, wp_bind, hheap.find, wp_ofOption_some, List.find?_append, hf,
        Option.none_or, List.find?_singleton]
      by_cases hfits : (regionBlock m size').fits size'.toNat = true
      · have hne := (hheap.inWindow (b := regionBlock m size') (by simp)).ptr_ne
        rw [if_pos hfits]
        dsimp only
        rw [if_neg hne]
        refine wp_mono (takeBlock_spec hheap hidem ?_) ?_ fun _ _ hc => hc.elim
        · rw [List.find?_append, hf, Option.none_or, List.find?_singleton, if_pos hfits]
        · rintro p t ⟨hserves, rfl⟩
          exact .grown hnone m₁ hgrow hserves
      · rw [if_neg hfits]
        dsimp only
        rw [if_pos rfl]
        exact .missed hnone hgrow (Bool.eq_false_iff.2 hfits) rfl

/-! ## What this means for the list -/

/-- The block is used now and was not before. -/
def NewlyUsed (bs bs' : List Block) (b : Block) : Prop :=
  b ∈ bs' ∧ b.free = false ∧ ∀ c ∈ bs, c.free = false → c.addr ≠ b.addr

/-- Blocks that are used stay as they are. -/
def KeepsUsed (bs bs' : List Block) : Prop := ∀ c ∈ bs, c.free = false → c ∈ bs'

/-- The statics the PMM-backed heap has no business with. -/
structure SameStatics (m m' : Memory) : Prop where
  start : m'.bootstrapHeapStart = m.bootstrapHeapStart
  current : m'.bootstrapHeapCurrent = m.bootstrapHeapCurrent
  limit : m'.bootstrapHeapLimit = m.bootstrapHeapLimit
  enabled : m'.memoryPmmBackendEnabled = m.memoryPmmBackendEnabled
  errors : m'.startupErrors = m.startupErrors
  ranges : m'.bootRanges = m.bootRanges

theorem SameStatics.refl (m : Memory) : SameStatics m m := ⟨rfl, rfl, rfl, rfl, rfl, rfl⟩

theorem SameStatics.vmem (m : Memory) (vmem : Mem) : SameStatics m { m with vmem := vmem } :=
  ⟨rfl, rfl, rfl, rfl, rfl, rfl⟩

theorem SameStatics.trans {m m' m'' : Memory} (h : SameStatics m m') (h' : SameStatics m' m'') :
    SameStatics m m'' :=
  ⟨h'.start.trans h.start, h'.current.trans h.current, h'.limit.trans h.limit,
    h'.enabled.trans h.enabled, h'.errors.trans h.errors, h'.ranges.trans h.ranges⟩

/-- A call of `kmalloc` for `size` bytes, as far as the list is concerned: null, with
at most a free region more, or the payload of the one block that is newly used. -/
inductive Malloced (bs : List Block) (size : Nat) (p : U32) (bs' : List Block) : Prop
  | null (res : p = 0) (list : bs' = bs ∨ ∃ b, b.free = true ∧ bs' = bs ++ [b])
  | used (b : Block) (ptr : p.toNat = b.addr + 12) (size : size ≤ b.size) (new : NewlyUsed bs bs' b)
      (only : ∀ c, NewlyUsed bs bs' c → c = b) (kept : KeepsUsed bs bs')

theorem Malloced.keepsUsed {bs bs' : List Block} {size : Nat} {p : U32}
    (h : Malloced bs size p bs') : KeepsUsed bs bs' := by
  cases h with
  | null _ hlist =>
    rcases hlist with rfl | ⟨b, -, rfl⟩
    · exact fun c hc _ => hc
    · exact fun c hc _ => List.mem_append_left _ hc
  | used _ _ _ _ _ hkept => exact hkept

/-- The first of the blocks a block is exchanged for is the used one. -/
theorem Block.mem_taken {b : Block} {size : Nat} (hle : size ≤ b.size) :
    ∃ n, size ≤ n ∧ ⟨b.addr, n, false⟩ ∈ b.taken size ∧
      ∀ c ∈ b.taken size, c.free = false → c = ⟨b.addr, n, false⟩ := by
  unfold Block.taken
  split
  · exact ⟨b.size, hle, by simp, by simp⟩
  · refine ⟨size, le_refl _, by simp, fun c hc hfree => ?_⟩
    rcases List.mem_pair.1 hc with rfl | rfl
    · rfl
    · cases hfree

theorem Block.InWindow.payload_toNat {b : Block} (h : b.InWindow) :
    (b.ptr + HEAP_BLOCK_BYTES).toNat = b.addr + 12 := by
  have hstop : b.stop = b.addr + 12 + b.size := rfl
  have := h.2
  rw [BitVec.toNat_add, h.ptr_toNat, show HEAP_BLOCK_BYTES.toNat = 12 from rfl]
  omega

theorem Serves.ptr_ne {size p : U32} {m' : Memory} (hs : Serves m bs size p m')
    (h : HeapAt m bs) : p ≠ 0 := by
  obtain ⟨xs, b, ys, _, hlist, -, -, hptr, -, -, -⟩ := hs
  have hpayload := (h.inWindow (b := b) (by rw [hlist]; simp)).payload_toNat
  rintro rfl
  rw [← hptr, show (0 : U32).toNat = 0 from rfl] at hpayload
  omega

theorem Serves.malloced {size p : U32} {m' : Memory} (hs : Serves m bs size p m')
    (h : HeapAt m bs) :
    SameStatics m m' ∧ ∃ bs', HeapAt m' bs' ∧ Malloced bs size.toNat p bs' := by
  obtain ⟨xs, b, ys, vmem, rfl, -, hfits, hptr, rfl, hheap, -⟩ := hs
  refine ⟨⟨rfl, rfl, rfl, rfl, rfl, rfl⟩, _, hheap, ?_⟩
  have hstop : b.stop = b.addr + 12 + b.size := rfl
  simp only [Block.fits, Bool.and_eq_true, decide_eq_true_eq] at hfits
  obtain ⟨hbfree, hle⟩ := hfits
  obtain ⟨n, hn, hmem, honly⟩ := Block.mem_taken hle
  -- an address belongs to one block
  have hdistinct : ∀ c ∈ xs ++ b :: ys, c.addr = b.addr → c = b := by
    intro c hc haddr
    have hcstop : c.stop = c.addr + 12 + c.size := rfl
    rcases h.tiles.apart hc (show b ∈ xs ++ b :: ys by simp) with rfl | hle | hle
    · rfl
    all_goals omega
  refine .used ⟨b.addr, n, false⟩ ?_ hn ⟨by simp [hmem], rfl, fun c hc hfree haddr => ?_⟩ ?_ ?_
  · rw [hptr, (h.inWindow (b := b) (by simp)).payload_toNat]
  · rw [hdistinct c hc haddr, hbfree] at hfree
    cases hfree
  · rintro c ⟨hc, hfree, hnot⟩
    rw [List.mem_append, List.mem_append] at hc
    rcases hc with (hc | hc) | hc
    · exact absurd rfl (hnot c (by simp [hc]) hfree)
    · exact honly c hc hfree
    · exact absurd rfl (hnot c (by simp [hc]) hfree)
  · intro c hc hfree
    rw [List.mem_append, List.mem_cons] at hc
    rcases hc with hc | rfl | hc
    · simp [hc]
    · rw [hbfree] at hfree
      cases hfree
    · simp [hc]

theorem GrowsHeap.heap {s' : σ} {size : U32} {ok : Bool} {m' : Memory}
    (hg : GrowsHeap B m bs s size ok m' s') (h : HeapAt m bs) :
    SameStatics m m' ∧
      (ok = false → m' = m) ∧ (ok = true → HeapAt m' (bs ++ [regionBlock m size])) := by
  cases hg with
  | refused _ hres hmem _ => subst hmem; exact ⟨.refl _, fun _ => rfl, by simp [hres]⟩
  | exhausted _ _ hres hmem => subst hmem; exact ⟨.refl _, fun _ => rfl, by simp [hres]⟩
  | grown _ _ _ _ hres hmem hheap =>
    subst hmem
    exact ⟨⟨rfl, rfl, rfl, rfl, rfl, rfl⟩, by simp [hres], fun _ => hheap⟩

/-- A free block more makes no difference to what is newly used. -/
theorem Malloced.of_append {bs bs' : List Block} {b : Block} {size : Nat} {p : U32}
    (h : Malloced (bs ++ [b]) size p bs') (hb : b.free = true) (hp : p ≠ 0) :
    Malloced bs size p bs' := by
  cases h with
  | null hres => exact absurd hres hp
  | used c hptr hsize hnew honly hkept =>
    have hiff : ∀ d, NewlyUsed bs bs' d ↔ NewlyUsed (bs ++ [b]) bs' d := by
      intro d
      have hused : ∀ c ∈ bs ++ [b], c.free = false → c ∈ bs := by
        intro c hc hfree
        rcases List.mem_append.1 hc with hc | hc
        · exact hc
        · rw [List.mem_singleton.1 hc, hb] at hfree
          cases hfree
      exact ⟨fun ⟨h1, h2, h3⟩ => ⟨h1, h2, fun c hc hfree => h3 c (hused c hc hfree) hfree⟩,
        fun ⟨h1, h2, h3⟩ => ⟨h1, h2, fun c hc => h3 c (List.mem_append_left _ hc)⟩⟩
    exact .used c hptr hsize ((hiff c).2 hnew) (fun d hd => honly d ((hiff d).1 hd))
      fun d hd => hkept d (List.mem_append_left _ hd)

/-- **`kmalloc` and the list.** -/
theorem Mallocs.malloced {s' : σ} {size p : U32} {m' : Memory}
    (hm : Mallocs B m bs s size p m' s') (h : HeapAt m bs) :
    SameStatics m m' ∧ ∃ bs', HeapAt m' bs' ∧ Malloced bs size.toNat p bs' := by
  cases hm with
  | served hserves _ => exact hserves.malloced h
  | failed _ hgrow hres =>
    obtain ⟨hsame, hmem, -⟩ := hgrow.heap h
    obtain rfl := hmem rfl
    exact ⟨hsame, bs, h, .null hres (.inl rfl)⟩
  | grown _ m₁ hgrow hserves =>
    obtain ⟨hsame, -, hheap⟩ := hgrow.heap h
    obtain ⟨hsame', bs', hheap', hm⟩ := hserves.malloced (hheap rfl)
    exact ⟨hsame.trans hsame', bs', hheap', hm.of_append rfl (hserves.ptr_ne (hheap rfl))⟩
  | missed _ hgrow _ hres =>
    obtain ⟨hsame, -, hheap⟩ := hgrow.heap h
    exact ⟨hsame, _, hheap rfl, .null hres (.inr ⟨_, rfl, rfl⟩)⟩

end

end Frewozet
