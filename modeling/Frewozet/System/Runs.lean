import Frewozet.System.State

/-!
# Runs of the kernel

The invariant of the whole state, kept by every call that may be made, and with it
by every run.

* `Standing` — the machine under the heap: grounded, page by page, and every access
  to a table so far was good.
* `SystemOk` — the invariant: `systemOk_boot`, `systemOk_step`, `systemOk_run`.
-/

namespace Frewozet

open Word Exec TwoLevel

/-! ## The machine under the heap -/

/-- The machine under a heap, with the given ranges out. -/
structure Standing (p₀ : Pmm) (own : Prop) (live : List (U32 × U32)) (mem : Memory) (m : Machine) :
    Prop where
  aligned : mem.heapVirtualCurrent.toNat % 4096 = 0
  ground : Grounded p₀ own mem.top live m
  good : m.AllGood

section

variable {p₀ : Pmm} {own : Prop} {live : List (U32 × U32)} {mem mem' : Memory} {m m' : Machine}
  {bs : List Block}

/-- It is a matter of where the heap ends. -/
theorem Standing.congr (h : Standing p₀ own live mem m)
    (hcur : mem'.heapVirtualCurrent = mem.heapVirtualCurrent) : Standing p₀ own live mem' m := by
  have htop : mem'.top = mem.top := by rw [Memory.top, Memory.top, hcur]
  exact ⟨by rw [hcur]; exact h.aligned, by rw [htop]; exact h.ground, h.good⟩

/-- The heap ends at a page. -/
theorem Standing.current (h : Standing p₀ own live mem m) :
    mem.heapVirtualCurrent = pageAddr mem.top := by
  have haligned := h.aligned
  have hlt := mem.heapVirtualCurrent.isLt
  have htop : mem.top = mem.heapVirtualCurrent.toNat / 4096 := rfl
  apply BitVec.eq_of_toNat_eq
  rw [pageAddr_toNat (by omega)]
  omega

theorem HeapAt.top_bounds (h : HeapAt mem bs) : 0xC1000 ≤ mem.top ∧ mem.top ≤ 0xE0000 := by
  have hle := h.tiles.le
  have hlimit := h.limit
  have htop : mem.top = mem.heapVirtualCurrent.toNat / 4096 := rfl
  omega

/-- What the loop of `heap_grow` does under the invariant. -/
theorem Standing.pages (h : Standing p₀ own live mem m) (hheap : HeapAt mem bs) {n : Nat}
    (hroom : mem.top + n ≤ 0x100000) (hlow : m.TablesLow mem.top n) :
    wp (heapGrowPages kernelBacking mem.heapVirtualCurrent n)
      (fun ok m' => Grown m mem.top n ok m' ∧ MachineOk p₀ m' ∧ Evolves (InPages mem.top n) m m')
      (fun _ _ => False) m := by
  obtain ⟨hlo, -⟩ := hheap.top_bounds
  rw [h.current]
  exact heapGrowPages_spec n mem.top m h.ground.machine hlo hroom hlow

theorem RoomFor.top {size : U32} (hroom : RoomFor mem size) :
    mem.top + (growPages size).toNat ≤ 0xE0000 := by
  unfold RoomFor at hroom
  have htop : mem.top = mem.heapVirtualCurrent.toNat / 4096 := rfl
  omega

/-- The heap pages are out of the way of the new ones. -/
theorem not_inPages {top n q : Nat} (hq : q < top) (htop : top ≤ 0x100000) :
    ¬ InPages top n (pageAddr q) := by
  rintro ⟨hc, -⟩
  rw [pageAddr_toNat (by omega), Nat.mul_div_cancel _ (by decide)] at hc
  omega

/-- **`heap_grow` keeps the machine standing.** -/
theorem Standing.growsHeap (h : Standing p₀ own live mem m) (hheap : HeapAt mem bs) {size : U32}
    (hlow : RoomFor mem size → m.TablesLow mem.top (growPages size).toNat) {ok : Bool}
    (hg : GrowsHeap kernelBacking mem bs m size ok mem' m') : Standing p₀ own live mem' m' := by
  obtain ⟨hlo, hhi⟩ := hheap.top_bounds
  cases hg with
  | refused _ _ hmem hback =>
    subst hmem hback
    exact h
  | exhausted hroom hpages _ hmem =>
    subst hmem
    have hroom' := hroom.top
    obtain ⟨hgrown, hm, he⟩ := wp_ret (h.pages hheap (by omega) (hlow hroom)) hpages
    exact ⟨h.aligned, h.ground.evolve hm he fun _ q _ hq => not_inPages hq (by omega),
      he.good h.good⟩
  | grown vmem head hroom hpages _ hmem _ =>
    subst hmem
    have hroom' := hroom.top
    have hbytes := regionBytes_toNat size
    obtain ⟨hgrown, hm, he⟩ := wp_ret (h.pages hheap (by omega) (hlow hroom)) hpages
    have haligned := h.aligned
    have hcur : (mem.heapVirtualCurrent + regionBytes size).toNat =
        mem.heapVirtualCurrent.toNat + (growPages size).toNat * 4096 := by
      unfold RoomFor at hroom
      rw [BitVec.toNat_add, hbytes]
      omega
    have htop : (mem.withRegion (regionBytes size) vmem head).top =
        mem.top + (growPages size).toNat := by
      change (mem.heapVirtualCurrent + regionBytes size).toNat / 4096 = _
      rw [hcur]
      change _ = mem.heapVirtualCurrent.toNat / 4096 + _
      omega
    refine ⟨?_, ?_, he.good h.good⟩
    · change (mem.heapVirtualCurrent + regionBytes size).toNat % 4096 = 0
      rw [hcur]
      omega
    · rw [htop]
      exact h.ground.grow hm he hgrown (by omega)

/-- It does not stop either. -/
theorem Standing.not_growStops (h : Standing p₀ own live mem m) (hheap : HeapAt mem bs) {size : U32}
    (hlow : RoomFor mem size → m.TablesLow mem.top (growPages size).toNat) {w : Stop} :
    ¬ GrowStops kernelBacking mem m size w mem' m' := by
  rintro ⟨hroom, hpages, -⟩
  have hroom' := hroom.top
  exact wp_stops (h.pages hheap (by omega) (hlow hroom)) hpages

/-- `kmalloc` keeps the machine standing and returns. -/
theorem Standing.kmalloc (h : Standing p₀ own live mem m) (hheap : HeapAt mem bs)
    (he : mem.memoryPmmBackendEnabled = true) {size : U32} (h0 : size ≠ 0)
    (hlow : NeedsGrowth mem (alignUpSize size MEMORY_DEFAULT_ALIGNMENT) →
      m.TablesLow mem.top (growPages (alignUpSize size MEMORY_DEFAULT_ALIGNMENT)).toNat) :
    wp (Frewozet.kmalloc kernelBacking size) (fun _ t => Standing p₀ own live t.1 t.2)
      (fun _ _ => False) (mem, m) := by
  -- a call that grows the heap found no block
  have hneeds := (@HeapAt.find_none _ _ hheap (alignUpSize size MEMORY_DEFAULT_ALIGNMENT)).2
  have hspec := kmalloc_spec (B := kernelBacking) (s := m) hheap he h0
  cases hx : Frewozet.kmalloc kernelBacking size (mem, m) with
  | ret p t =>
    simp only [wp, hx]
    cases wp_ret hspec hx with
    | served hserves hback =>
      obtain ⟨xs, b, ys, vmem, -, -, -, -, hmem, -, -⟩ := hserves
      rw [hback]
      exact h.congr (by rw [hmem])
    | failed hnone hgrow _ =>
      exact h.growsHeap hheap (fun hroom => hlow ⟨hneeds hnone, hroom⟩) hgrow
    | grown hnone m₁ hgrow hserves =>
      have h₁ := h.growsHeap hheap (fun hroom => hlow ⟨hneeds hnone, hroom⟩) hgrow
      obtain ⟨xs, b, ys, vmem, -, -, -, -, hmem, -, -⟩ := hserves
      exact h₁.congr (by rw [hmem])
    | missed hnone hgrow _ _ =>
      exact h.growsHeap hheap (fun hroom => hlow ⟨hneeds hnone, hroom⟩) hgrow
  | stop w t =>
    simp only [wp, hx]
    obtain ⟨hnone, hstops⟩ := wp_stops hspec hx
    exact h.not_growStops hheap (fun hroom => hlow ⟨hneeds hnone, hroom⟩) hstops

/-- Enabling the backend keeps it standing, and returns. -/
theorem Standing.enable (h : Standing p₀ own live mem m) (hheap : HeapAt mem bs)
    (hlow : mem.memoryPmmBackendEnabled = false → RoomFor mem 1 →
      m.TablesLow mem.top (growPages 1).toNat) :
    wp (memoryEnablePmmBackend kernelBacking) (fun _ t => Standing p₀ own live t.1 t.2)
      (fun _ _ => False) (mem, m) := by
  have hspec := memoryEnablePmmBackend_spec (B := kernelBacking) (s := m) hheap
  refine wp_mono hspec ?_ fun w t hc => ?_
  · intro _ t hen
    cases hen with
    | already _ hmem hback => rw [hmem, hback]; exact h
    | failed m₁ hdis hgrow hmem =>
      have h₁ := h.growsHeap hheap (hlow hdis) hgrow
      exact h₁.congr (by rw [hmem]; rfl)
    | done m₁ hdis hgrow hmem =>
      have h₁ := h.growsHeap hheap (hlow hdis) hgrow
      exact h₁.congr (by rw [hmem])
  · exact h.not_growStops hheap (hlow hc.1) hc.2

/-- A request keeps it standing, whether it returns or not. -/
theorem Standing.request (h : Standing p₀ own live mem m) (hheap : HeapAt mem bs) (r : Request)
    (hlow : mem.memoryPmmBackendEnabled = true → ∀ size, r.inner = some size →
      NeedsGrowth mem (alignUpSize size MEMORY_DEFAULT_ALIGNMENT) →
        m.TablesLow mem.top (growPages (alignUpSize size MEMORY_DEFAULT_ALIGNMENT)).toNat) :
    wp (r.call kernelBacking) (fun _ t => Standing p₀ own live t.1 t.2)
      (fun _ t => Standing p₀ own live t.1 t.2) (mem, m) := by
  refine Request.call_keeps (fun _ _ _ hs => hs.congr rfl) h r ?_ ?_
  · intro _ n p mem' hgives
    rcases hgives with ⟨-, rfl⟩ | ⟨k, rfl, -⟩
    · exact h
    · exact h.congr rfl
  · intro he size hinner
    by_cases h0 : size = 0
    · subst h0
      exact h
    · exact wp_mono (h.kmalloc hheap he h0 (hlow he size hinner)) (fun _ _ hs => hs)
        fun _ _ hc => hc.elim

/-- A call of `paging.c` that leaves the heap pages alone. -/
theorem Standing.evolve {W : U32 → Prop} (h : Standing p₀ own live mem m) (hm : MachineOk p₀ m')
    (he : Evolves W m m') (hW : own → ∀ q, mem.HeapPage q → ¬ W (pageAddr q)) :
    Standing p₀ own live mem m' :=
  ⟨h.aligned, h.ground.evolve hm he fun ho q h1 h2 => hW ho q ⟨h1, h2⟩, he.good h.good⟩

/-- The page of a client is no page of the heap. -/
theorem not_samePage_of_client {virt : U32} (hheap : HeapAt mem bs)
    (hv : own → ¬ mem.HeapPage (virt.toNat / 4096)) (ho : own) (q : Nat) (hq : mem.HeapPage q) :
    ¬ SamePage (pageAddr q) virt := by
  obtain ⟨-, hhi⟩ := hheap.top_bounds
  have hlt := hq.2
  intro hc
  rw [SamePage, pageAddr_toNat (by omega), Nat.mul_div_cancel _ (by decide)] at hc
  exact hv ho (hc ▸ hq)

/-- A client takes pages. -/
theorem Standing.clientAlloc (h : Standing p₀ own live mem m) {n : U32} {r : U32 × Pmm}
    (hr : Allocates m.pmm n r) :
    Standing p₀ own (if r.1 = 0 then live else (r.1, n) :: live) mem
      { m with pmm := r.2, grants := if r.1 = 0 then m.grants else (r.1, n) :: m.grants } := by
  rcases hr with rfl | ⟨s, rfl, hn, hend, hfree⟩
  · simp only [if_true]
    exact h
  · have hs := hfree s (le_refl s) (by omega)
    have hne := frameAddr_ne_zero (h.ground.machine.wf.lt hs) (h.ground.machine.wf.pos hs)
    simp only [hne, if_false]
    obtain ⟨hg, he⟩ := h.ground.clientAlloc hn hend hfree
    exact ⟨h.aligned, hg, he.good h.good⟩

end

/-! ## The whole state -/

/-- The invariant, relative to what `pmm_init` left free. -/
structure SystemOk (p₀ : Pmm) (own : Prop) (t : System) : Prop where
  heap : ∃ bs, HeapOk t.memory bs
  standing : Standing p₀ own t.live t.memory t.machine

section

variable {p₀ : Pmm} {own : Prop} {t : System}

theorem wp_clientAlloc {n : U32} {call : Pmm → U32 × Pmm} {Q : System → Prop}
    {S : Stop → System → Prop} : wp (clientAlloc n call) (fun _ => Q) S t ↔
      Q { memory := t.memory
          machine := { t.machine with
            pmm := (call t.machine.pmm).2
            grants := if (call t.machine.pmm).1 = 0 then t.machine.grants
              else ((call t.machine.pmm).1, n) :: t.machine.grants }
          live := if (call t.machine.pmm).1 = 0 then t.live
            else ((call t.machine.pmm).1, n) :: t.live } := by
  unfold clientAlloc
  rw [wp_bind, onMachine, wp_zoom, wp_allocFrames, wp_modify]
  split <;> exact Iff.rfl

theorem SystemOk.clientAlloc (h : SystemOk p₀ own t) {n : U32} {call : Pmm → U32 × Pmm}
    (hr : Allocates t.machine.pmm n (call t.machine.pmm)) :
    wp (clientAlloc n call) (fun _ => SystemOk p₀ own) (fun _ => SystemOk p₀ own) t :=
  wp_clientAlloc.2 ⟨h.heap, h.standing.clientAlloc hr⟩

/-- **Every call keeps the invariant**, returned or stopped. -/
theorem systemOk_step (h : SystemOk p₀ own t) (op : Op) (hok : op.Ok own t) :
    wp op.exec (fun _ => SystemOk p₀ own) (fun _ => SystemOk p₀ own) t := by
  obtain ⟨bs, hheap⟩ := h.heap
  have hs := h.standing
  cases op with
  | enable =>
    rw [Op.exec, onHeap, wp_zoom]
    refine wp_mono (wp_and (hheap.enable (B := kernelBacking)) (hs.enable hheap.heap hok)) ?_
      fun _ _ hc => hc.2.elim
    rintro _ u ⟨⟨bs', hok', -⟩, hs'⟩
    exact ⟨⟨bs', hok'⟩, hs'⟩
  | request r =>
    obtain ⟨hwf, hsafe, hlow⟩ := hok
    rw [Op.exec, wp_bind, onHeap, wp_zoom]
    refine wp_mono (wp_and (hheap.call_advances (B := kernelBacking) r hwf hsafe)
      (hs.request hheap.heap r hlow)) ?_ ?_
    all_goals
      rintro _ u ⟨⟨bs', hok', -⟩, hs'⟩
      exact ⟨⟨bs', hok'⟩, hs'⟩
  | allocPage => exact h.clientAlloc (allocates_allocContiguous t.machine.pmm 1)
  | allocPageBelow limit => exact h.clientAlloc (allocates_allocPageBelow t.machine.pmm limit)
  | allocContiguous n => exact h.clientAlloc (allocates_allocContiguous t.machine.pmm n)
  | freeContiguous a n =>
    have hg := hs.ground.clientFree hok
    exact ⟨⟨bs, hheap⟩, hs.aligned, hg, hs.good⟩
  | mapPage virt phys flags =>
    obtain ⟨hkeeps, hclient, hreach⟩ := hok
    rw [Op.exec, wp_bind, onMachine, wp_zoom]
    refine wp_mono (machineOk_mapPage hs.ground.machine hkeeps fun hnone => ?_) ?_
      fun _ _ hc => hc.elim
    · rw [nextTableLow_iff hs.ground.machine.wf]
      have := hreach hnone
      omega
    · rintro ok m' ⟨-, hm, he⟩
      exact ⟨⟨bs, hheap⟩, hs.evolve hm he (not_samePage_of_client hheap.heap hclient)⟩
  | unmapPage virt =>
    obtain ⟨hslot, hclient⟩ := hok
    rw [Op.exec, onMachine, wp_zoom]
    refine wp_mono (machineOk_unmapPage hs.ground.machine hslot) ?_ fun _ _ hc => hc.elim
    rintro _ m' ⟨hm, he, -⟩
    exact ⟨⟨bs, hheap⟩, hs.evolve hm he (not_samePage_of_client hheap.heap hclient)⟩
  | allocMapped virt flags =>
    obtain ⟨hslot, ⟨hclient, hreach⟩, hspills⟩ := hok
    rw [Op.exec, wp_bind, onMachine, wp_zoom]
    refine wp_mono (machineOk_allocPage hs.ground.machine hslot hspills hreach) ?_ ?_
    all_goals
      rintro _ m' ⟨hm, he⟩
      exact ⟨⟨bs, hheap⟩, hs.evolve hm he (not_samePage_of_client hheap.heap hclient)⟩
  | write vmem =>
    exact ⟨⟨bs, hheap.callerWrites ⟨vmem, rfl, hok⟩⟩, hs.congr rfl⟩

/-- **So does every run.** -/
theorem systemOk_run (h : SystemOk p₀ own t) (ops : List Op)
    (hok : EachOk Op.exec (fun t op => op.Ok own t) ops t) :
    SystemOk p₀ own (runAll Op.exec ops t).state :=
  wp_state.1 (runAll_invariant (fun _ op hs ho => systemOk_step hs op ho) ops t h hok)

end

/-! ## Where a run starts -/

section

variable (info : E820Info) (k : KernelImage) (vmem phys : Mem)

theorem isTable_kernelMachine {t : Frame}
    (h : IsTable entryTarget dirFrame (kernelMachine phys).tables t) : t = windowFrame := by
  obtain ⟨s, hs⟩ := h
  exact ((kernelMachine_target phys s t).1 hs).2

/-- The machine `kmain` hands over. -/
theorem machineOk_boot :
    MachineOk (boot info k vmem).pmm (bootSystem info k vmem phys).machine where
  windowed := by
    rw [bootSystem_tables]
    exact kernelMachine_windowed phys
  writable := by
    rw [bootSystem_tables]
    exact kernelMachine_writable phys
  wf := boot_wf info k vmem
  table := .refl _
  free := fun _ => id
  high := fun f hf => ((boot_free_iff info k vmem f).1 hf).2.2.1
  owned := fun t ht hne => by
    rw [bootSystem_tables] at ht
    exact absurd (isTable_kernelMachine phys ht) hne
  grants := by
    rw [bootSystem_grants]
    exact fun g hg => absurd hg List.not_mem_nil

/-- **The invariant holds when `kmain` has set things up.** -/
theorem systemOk_boot (own : Prop) :
    SystemOk (boot info k vmem).pmm own (bootSystem info k vmem phys) := by
  have hheap := heapOk_boot info k vmem
  have hcurrent : 0xC1000000 = (boot info k vmem).memory.heapVirtualCurrent.toNat :=
    hheap.heap.tiles
  have htop : (bootSystem info k vmem phys).memory.top = 0xC1000 := by
    change (boot info k vmem).memory.heapVirtualCurrent.toNat / 4096 = _
    omega
  refine ⟨⟨[], hheap⟩, ?_, ?_, bootSystem_good info k vmem phys⟩
  · change (boot info k vmem).memory.heapVirtualCurrent.toNat % 4096 = 0
    omega
  · rw [htop]
    exact ⟨machineOk_boot info k vmem phys, fun _ q h1 h2 => by omega,
      fun _ q q' f h1 h2 h3 => by omega, fun a ha => absurd ha List.not_mem_nil,
      fun _ a ha => absurd ha List.not_mem_nil, List.Pairwise.nil⟩

end

end Frewozet
