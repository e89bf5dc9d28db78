import Frewozet.Heap.Runs
import Frewozet.Pmm.Runs
import Frewozet.System.Growth

/-!
# The running kernel

`memory.c`, `pmm.c` and `paging.c` on one machine, from where `kmain` has called
`memory_init` and `pmm_init`, and every call the rest of the kernel can make.

* `System`, `bootSystem` — the state, with a ghost: the ranges clients of `pmm.c`
  have out.
* `Op`, `Op.exec` — the calls.
* `Op.Ok` — **what a caller owes, and that no table is needed out of reach**, all of
  it read off the state before the call.
* `Grounded` — the invariant of the machine, given where the heap ends: every heap
  page has a frame of its own.

The last two depend on `own`, which says that nobody but `heap_grow` maps pages of
the heap.
-/

namespace Frewozet

open Word Exec TwoLevel

structure System where
  memory : Memory
  machine : Machine
  /-- Ghost: the ranges clients have from `pmm.c`, as address and number of pages. -/
  live : List (U32 × U32) := []

/-- `memory_init(); pmm_init();`, on the tables the loader built. -/
def bootSystem (info : E820Info) (k : KernelImage) (vmem phys : Mem) : System where
  memory := (boot info k vmem).memory
  machine := { kernelMachine phys with pmm := (boot info k vmem).pmm }

section

variable (info : E820Info) (k : KernelImage) (vmem phys : Mem)

theorem bootSystem_machine : (bootSystem info k vmem phys).machine =
    { kernelMachine phys with pmm := (boot info k vmem).pmm } := rfl

/-- The frame allocator is no part of the memory, nor of the tables in it. -/
theorem Machine.phys_pmm (m : Machine) (p : Pmm) : Machine.phys { m with pmm := p } = m.phys := rfl

theorem bootSystem_phys :
    (bootSystem info k vmem phys).machine.phys = (kernelMachine phys).phys :=
  (congrArg Machine.phys (bootSystem_machine info k vmem phys)).trans (Machine.phys_pmm _ _)

/-- The loader's tables are the ones the run starts with. -/
theorem bootSystem_tables :
    (bootSystem info k vmem phys).machine.tables = (kernelMachine phys).tables := by
  rw [Machine.tables, bootSystem_phys, Machine.tables]

theorem bootSystem_grants : (bootSystem info k vmem phys).machine.grants = [] := by
  rw [bootSystem_machine, kernelMachine_eq]
  rfl

theorem bootSystem_good : (bootSystem info k vmem phys).machine.AllGood := by
  have hgood (m : Machine) (p : Pmm) (h : m.AllGood) : Machine.AllGood { m with pmm := p } := h
  rw [bootSystem_machine]
  exact hgood _ _ (kernelMachine_good phys)

end

/-! ## The calls -/

/-- A call into `memory.c`. -/
def onHeap {α : Type} (x : Exec (Memory × Machine) α) : Exec System α :=
  zoom (fun t => (t.memory, t.machine)) (fun s t => { t with memory := s.1, machine := s.2 }) x

/-- A call into `paging.c` or `pmm.c`. -/
def onMachine {α : Type} (x : Exec Machine α) : Exec System α :=
  zoom System.machine (fun m t => { t with machine := m }) x

/-- A client takes `n` pages. -/
def clientAlloc (n : U32) (call : Pmm → U32 × Pmm) : Exec System Unit := do
  let p ← onMachine (allocFrames n call)
  modify fun t => if p = 0 then t else { t with live := (p, n) :: t.live }

/-- What the rest of the kernel can do. -/
inductive Op where
  | enable
  | request (r : Request)
  | allocPage
  | allocPageBelow (limit : U32)
  | allocContiguous (pageCount : U32)
  | freeContiguous (startPage pageCount : U32)
  | mapPage (virtAddr physAddr flags : U32)
  | unmapPage (virtAddr : U32)
  | allocMapped (virtAddr flags : U32)
  | write (vmem : Mem)

/-- Doing it. -/
def Op.exec : Op → Exec System Unit
  | enable => onHeap (memoryEnablePmmBackend kernelBacking)
  | request r => do
    let _ ← onHeap (r.call kernelBacking)
    return ()
  | allocPage => clientAlloc 1 pmmAllocPage
  | allocPageBelow limit => clientAlloc 1 (pmmAllocPageBelow limit)
  | allocContiguous pageCount => clientAlloc pageCount (pmmAllocContiguous pageCount)
  | freeContiguous startPage pageCount => do
    onMachine (freeFrames (pmmFreeContiguous startPage pageCount))
    modify fun t => { t with live := t.live.erase (startPage, pageCount) }
  | mapPage virtAddr physAddr flags => do
    let _ ← onMachine (pagingMapPage virtAddr physAddr flags)
    return ()
  | unmapPage virtAddr => onMachine (pagingUnmapPage virtAddr)
  | allocMapped virtAddr flags => do
    let _ ← onMachine (pagingAllocPage virtAddr flags)
    return ()
  | write vmem => modify fun t => { t with memory := { t.memory with vmem := vmem } }

/-! ## What a caller owes -/

/-- The page at which the heap ends. -/
def Memory.top (m : Memory) : Nat := m.heapVirtualCurrent.toNat / 4096

/-- A page of the heap. -/
def Memory.HeapPage (m : Memory) (q : Nat) : Prop := 0xC1000 ≤ q ∧ q < m.top

/-- `kmalloc` of the rounded size has to grow the heap, and there is room in the
window. -/
def NeedsGrowth (m : Memory) (size : U32) : Prop :=
  heapFindFreeBlock size m = some 0 ∧ RoomFor m size

/-- The tables that growing the heap for `size` bytes takes are in reach. -/
def GrowthLow (t : System) (size : U32) : Prop :=
  t.machine.TablesLow t.memory.top (growPages size).toNat

/-- A client maps something at the address: not a heap page, if these are the heap's
own, and with its table in reach. -/
def MapsClient (own : Prop) (t : System) (virtAddr : U32) (spare : Nat) : Prop :=
  (own → ¬ t.memory.HeapPage (virtAddr.toNat / 4096)) ∧
    (entryTarget (t.machine.tables dirFrame (slotOf virtAddr)) = none →
      t.machine.pmm.freeCount ≤ spare ∨ spare + 1 ≤ t.machine.pmm.freeBelow 1024)

/-- When a call may be made.

* Growing the heap, and mapping a page, finds its tables in reach.
* `kcalloc` and `kmalloc_aligned` are not asked for sizes that wrap.
* Clients leave the direct map as it is, and the heap pages if these are the heap's
  own; they free what they have, and write to what they were given.
  `paging_alloc_page` at an address inside a page does not run into anything of the
  kernel's behind it. -/
def Op.Ok (own : Prop) (t : System) : Op → Prop
  | enable => t.memory.memoryPmmBackendEnabled = false → RoomFor t.memory 1 → GrowthLow t 1
  | request r => r.Wf ∧ r.Safe t.memory ∧ (t.memory.memoryPmmBackendEnabled = true →
      ∀ size, r.inner = some size →
        NeedsGrowth t.memory (alignUpSize size MEMORY_DEFAULT_ALIGNMENT) →
          GrowthLow t (alignUpSize size MEMORY_DEFAULT_ALIGNMENT))
  | freeContiguous startPage pageCount => (startPage, pageCount) ∈ t.live
  | mapPage virtAddr physAddr _ => KeepsWindow virtAddr physAddr ∧ MapsClient own t virtAddr 0
  | unmapPage virtAddr =>
    slotOf virtAddr ≠ windowSlot ∧ (own → ¬ t.memory.HeapPage (virtAddr.toNat / 4096))
  | allocMapped virtAddr _ =>
    slotOf virtAddr ≠ windowSlot ∧ MapsClient own t virtAddr 1 ∧ Spills t.machine virtAddr
  | write vmem => ∀ a, vmem a ≠ t.memory.vmem a → Writable t.memory a
  | _ => True

/-! ## The invariant of the machine -/

/-- A range a client has: taken from the allocator, and of no other use. -/
structure Client (p₀ : Pmm) (m : Machine) (a : U32 × U32) : Prop where
  range : Range m.pmm a
  out : ∀ f ∈ framesOf a, p₀.Free f ∧ ¬ m.pmm.Free f
  noTable : ∀ f : Frame, f.val ∈ framesOf a → ¬ IsTable entryTarget dirFrame m.tables f

/-- The machine under a heap that ends at page `top`, with the given ranges out. -/
structure Grounded (p₀ : Pmm) (own : Prop) (top : Nat) (live : List (U32 × U32)) (m : Machine) :
    Prop where
  machine : MachineOk p₀ m
  backed : own → ∀ q, 0xC1000 ≤ q → q < top → ∃ f : Frame, Backs m q f ∧ p₀.Free f.val
  distinct : own → ∀ q q' f, 0xC1000 ≤ q → q < q' → q' < top →
    walkOf m.tables (pageAddr q) = some f → walkOf m.tables (pageAddr q') ≠ some f
  client : ∀ a ∈ live, Client p₀ m a
  apart : own → ∀ a ∈ live, ∀ q f, 0xC1000 ≤ q → q < top →
    walkOf m.tables (pageAddr q) = some f → f.val ∉ framesOf a
  disjoint : live.Pairwise fun a b => Disjoint (framesOf a) (framesOf b)

section

variable {p₀ : Pmm} {own : Prop} {top n : Nat} {live : List (U32 × U32)} {m m' : Machine}
  {W : U32 → Prop}

theorem Client.evolve {a : U32 × U32} (h : Client p₀ m a) (he : Evolves W m m') :
    Client p₀ m' a where
  range := he.table.range h.range
  out := fun f hf => ⟨(h.out f hf).1, fun hc => (h.out f hf).2 (he.free f hc)⟩
  noTable := by
    intro f hf hc
    rcases he.isTable f hc with hc | ⟨hc, -⟩
    · exact h.noTable f hf hc
    · exact (h.out _ hf).2 hc

/-- The ranges clients have, no two of which overlap. -/
structure Clients (p₀ : Pmm) (live : List (U32 × U32)) (m : Machine) : Prop where
  client : ∀ a ∈ live, Client p₀ m a
  disjoint : live.Pairwise fun a b => Disjoint (framesOf a) (framesOf b)

theorem Clients.evolve (h : Clients p₀ live m) (he : Evolves W m m') : Clients p₀ live m' :=
  ⟨fun a ha => (h.client a ha).evolve he, h.disjoint⟩

/-- The machine after a client has taken `n` frames from `s` on. -/
def Machine.takeRange (m : Machine) (s : Nat) (n : U32) : Machine :=
  { m with pmm := m.pmm.takeRun s n.toNat, grants := (frameAddr s, n) :: m.grants }

theorem evolves_takeRange {s : Nat} {n : U32} (hwf : m.pmm.Wf) (hn : 0 < n.toNat)
    (hend : s + n.toNat ≤ m.pmm.pmmTotalPages.toNat)
    (hfree : ∀ f, s ≤ f → f < s + n.toNat → m.pmm.Free f) :
    Evolves W m (m.takeRange s n) where
  free := fun f hf => ((Pmm.free_takeRun hwf hend f).1 hf).1
  table := sameTable_takeRun hwf (hfree s (le_refl s) (by omega)).1 hend
  isTable := fun _ => .inl
  leaf := fun _ _ _ => id
  grants := fun g hg => by
    rcases List.mem_cons.1 hg with rfl | hg
    · rw [framesOf_frameAddr (hwf.lt (hfree s (le_refl s) (by omega)))]
      exact .inr fun f hf => hfree f hf.1 hf.2
    · exact .inl hg
  granted := fun _ hg => List.mem_cons_of_mem _ hg
  writable := id
  good := id

/-- **A client takes a range** of frames that hold no table. -/
theorem Clients.take (h : Clients p₀ live m) (hwf : m.pmm.Wf) (hfresh : Fresh m)
    (hsub : ∀ f, m.pmm.Free f → p₀.Free f) {s : Nat} {n : U32} (hn : 0 < n.toNat)
    (hend : s + n.toNat ≤ m.pmm.pmmTotalPages.toNat)
    (hfree : ∀ f, s ≤ f → f < s + n.toNat → m.pmm.Free f) :
    Clients p₀ ((frameAddr s, n) :: live) (m.takeRange s n) := by
  have hs : m.pmm.Free s := hfree s (le_refl s) (by omega)
  have hframes := framesOf_frameAddr (hwf.lt hs) n
  have he : Evolves (fun _ => False) m (m.takeRange s n) := evolves_takeRange hwf hn hend hfree
  have hmem : ∀ f ∈ framesOf (frameAddr s, n), m.pmm.Free f := by
    rw [hframes]
    exact fun f hf => hfree f hf.1 hf.2
  have hapart : ∀ a ∈ live, Disjoint (framesOf (frameAddr s, n)) (framesOf a) := fun a ha =>
    Set.disjoint_left.2 fun f hf hfa => ((h.client a ha).out f hfa).2 (hmem f hf)
  refine ⟨fun a ha => ?_, List.pairwise_cons.2 ⟨hapart, h.disjoint⟩⟩
  rcases List.mem_cons.1 ha with rfl | ha
  · refine ⟨he.table.range ⟨⟨s, rfl, hwf.pos hs, hend⟩, hn, hs.1⟩, fun f hf => ?_, fun f hf =>
      (hfresh f (hmem _ hf)).2⟩
    refine ⟨hsub f (hmem f hf), fun hc => ((Pmm.free_takeRun hwf hend f).1 hc).2 ?_⟩
    rw [hframes] at hf
    exact hf
  · exact (h.client a ha).evolve he

/-- **A client gives a range back**, and only its frames become free. -/
theorem Clients.give (h : Clients p₀ live m) (hwf : m.pmm.Wf) {a n : U32} (ha : (a, n) ∈ live) :
    Clients p₀ (live.erase (a, n)) { m with pmm := pmmFreeContiguous a n m.pmm } ∧
      (pmmFreeContiguous a n m.pmm).Wf ∧ SameTable m.pmm (pmmFreeContiguous a n m.pmm) ∧
        ∀ f, (pmmFreeContiguous a n m.pmm).Free f → m.pmm.Free f ∨ f ∈ framesOf (a, n) := by
  obtain ⟨hrange, hout, hno⟩ := h.client _ ha
  obtain ⟨⟨s, rfl, hs, hend⟩, hn, hb⟩ := hrange
  have htotal := hwf.total
  have hlt : s < 0x100000 := by
    have hn' : 0 < n.toNat := hn
    have hend' : s + n.toNat ≤ m.pmm.pmmTotalPages.toNat := hend
    omega
  have hframes := framesOf_frameAddr hlt n
  have hsame : SameTable m.pmm (m.pmm.giveRun s n.toNat) := sameTable_giveRun _ _ _
  have hgive : ∀ f, (m.pmm.giveRun s n.toNat).Free f →
      m.pmm.Free f ∨ f ∈ framesOf (frameAddr s, n) := by
    intro f hf
    rcases (Pmm.free_giveRun _ _ _ _).1 hf with hf | ⟨-, -, h1, h2⟩
    · exact .inl hf
    · exact .inr (hframes ▸ ⟨h1, h2⟩)
  have hothers := List.pairwise_cons.1
    (((List.perm_cons_erase ha).pairwise_iff fun hd => hd.symm).1 h.disjoint)
  rw [pmmFreeContiguous_spec hwf hb hs hn hend]
  refine ⟨⟨fun b hb' => ?_, hothers.2⟩, hwf.giveRun hs, hsame, hgive⟩
  obtain ⟨hrange', hout', hno'⟩ := h.client b (List.mem_of_mem_erase hb')
  refine ⟨hsame.range hrange', fun f hf => ⟨(hout' f hf).1, fun hc => ?_⟩, hno'⟩
  rcases hgive f hc with hc | hc
  · exact (hout' f hf).2 hc
  · exact Set.disjoint_left.1 (hothers.1 b hb') hc hf

theorem Grounded.clients (h : Grounded p₀ own top live m) : Clients p₀ live m :=
  ⟨h.client, h.disjoint⟩

/-- A call that leaves the heap pages alone keeps the invariant. -/
theorem Grounded.evolve (h : Grounded p₀ own top live m) (hm : MachineOk p₀ m')
    (he : Evolves W m m')
    (hW : own → ∀ q, 0xC1000 ≤ q → q < top → ¬ W (pageAddr q)) :
    Grounded p₀ own top live m' := by
  have hwalk : own → ∀ q f, 0xC1000 ≤ q → q < top → walkOf m'.tables (pageAddr q) = some f →
      walkOf m.tables (pageAddr q) = some f := by
    intro ho q f h1 h2 hf
    obtain ⟨f', hb, -⟩ := h.backed ho q h1 h2
    have hsame := (hb.evolve he (hW ho q h1 h2)).walk
    rw [hsame] at hf
    rw [← hf]
    exact hb.walk
  refine ⟨hm, fun ho q h1 h2 => ?_, fun ho q q' f h1 h2 h3 hf hf' => ?_,
    fun a ha => (h.client a ha).evolve he, fun ho a ha q f h1 h2 hf => ?_, h.disjoint⟩
  · obtain ⟨f, hb, hf⟩ := h.backed ho q h1 h2
    exact ⟨f, hb.evolve he (hW ho q h1 h2), hf⟩
  · exact h.distinct ho q q' f h1 h2 h3 (hwalk ho q f h1 (by omega) hf)
      (hwalk ho q' f (by omega) h3 hf')
  · exact h.apart ho a ha q f h1 h2 (hwalk ho q f h1 h2 hf)

/-- **Growing the heap** gives the new pages frames of their own. -/
theorem Grounded.grow (h : Grounded p₀ own top live m) (hm : MachineOk p₀ m')
    (he : Evolves (InPages top n) m m') (hg : Grown m top n true m')
    (hhi : top + n ≤ 0x100000) : Grounded p₀ own (top + n) live m' := by
  have hold := h.evolve hm he fun _ q _ h2 hc => by
    obtain ⟨hc, -⟩ := hc
    rw [pageAddr_toNat (by omega), Nat.mul_div_cancel _ (by decide)] at hc
    omega
  -- the frame of a new page was free before
  have hnew : ∀ q f, top ≤ q → q < top + n → walkOf m'.tables (pageAddr q) = some f →
      m.pmm.Free f.val := by
    intro q f h1 h2 hf
    obtain ⟨f', hb, hfree⟩ := hg.backed rfl q h1 h2
    rw [hb.walk] at hf
    cases hf
    exact hfree
  -- the frame of an old one was not
  have hused : own → ∀ q f, 0xC1000 ≤ q → q < top → walkOf m'.tables (pageAddr q) = some f →
      ¬ m.pmm.Free f.val := by
    intro ho q f h1 h2 hf
    obtain ⟨f', hb, -⟩ := h.backed ho q h1 h2
    have hb' := hb.evolve he fun hc => by
      obtain ⟨hc, -⟩ := hc
      rw [pageAddr_toNat (by omega), Nat.mul_div_cancel _ (by decide)] at hc
      omega
    rw [hb'.walk] at hf
    cases hf
    exact hb.taken
  refine ⟨hm, fun ho q h1 h2 => ?_, fun ho q q' f h1 h2 h3 hf hf' => ?_, hold.client,
    fun ho a ha q f h1 h2 hf hmem => ?_, h.disjoint⟩
  · by_cases hq : q < top
    · exact hold.backed ho q h1 hq
    · obtain ⟨f, hb, hfree⟩ := hg.backed rfl q (by omega) h2
      exact ⟨f, hb, h.machine.free _ hfree⟩
  · by_cases hq' : q' < top
    · exact hold.distinct ho q q' f h1 h2 hq' hf hf'
    by_cases hq : q < top
    · exact hused ho q f h1 hq hf (hnew q' f (by omega) h3 hf')
    · exact hg.distinct rfl q q' f (by omega) h2 h3 hf hf'
  · by_cases hq : q < top
    · exact hold.apart ho a ha q f h1 hq hf hmem
    · exact ((h.client a ha).out _ hmem).2 (hnew q f (by omega) h2 hf)

/-- **A client takes a range.** -/
theorem Grounded.clientAlloc (h : Grounded p₀ own top live m) {s : Nat} {n : U32} (hn : 0 < n.toNat)
    (hend : s + n.toNat ≤ m.pmm.pmmTotalPages.toNat)
    (hfree : ∀ f, s ≤ f → f < s + n.toNat → m.pmm.Free f) :
    Grounded p₀ own top ((frameAddr s, n) :: live) (m.takeRange s n) ∧
      Evolves (fun _ => False) m (m.takeRange s n) := by
  have hwf := h.machine.wf
  have hs : m.pmm.Free s := hfree s (le_refl s) (by omega)
  have he : Evolves (fun _ => False) m (m.takeRange s n) := evolves_takeRange hwf hn hend hfree
  have hclients := h.clients.take hwf h.machine.fresh h.machine.free hn hend hfree
  have hold := h.evolve (h.machine.evolve he h.machine.windowed (hwf.takeRun hend)) he
    fun _ _ _ _ => id
  refine ⟨⟨hold.machine, hold.backed, hold.distinct, hclients.client, ?_, hclients.disjoint⟩, he⟩
  intro ho a ha q f h1 h2 hf
  rcases List.mem_cons.1 ha with rfl | ha
  · intro hc
    rw [framesOf_frameAddr (hwf.lt hs)] at hc
    obtain ⟨f', hb, -⟩ := h.backed ho q h1 h2
    have hwalk : walkOf m.tables (pageAddr q) = some f := hf
    rw [hb.walk] at hwalk
    cases hwalk
    exact hb.taken (hfree _ hc.1 hc.2)
  · exact hold.apart ho a ha q f h1 h2 hf

/-- **A client gives a range back.** -/
theorem Grounded.clientFree (h : Grounded p₀ own top live m) {a n : U32} (ha : (a, n) ∈ live) :
    Grounded p₀ own top (live.erase (a, n)) { m with pmm := pmmFreeContiguous a n m.pmm } := by
  obtain ⟨hclients, hwf, hsame, hgive⟩ := h.clients.give h.machine.wf ha
  obtain ⟨-, hout, hno⟩ := h.client _ ha
  refine ⟨?_, fun ho q h1 h2 => ?_, h.distinct, hclients.client,
    fun ho b hb => h.apart ho b (List.mem_of_mem_erase hb), hclients.disjoint⟩
  · refine ⟨h.machine.windowed, h.machine.writable, hwf, h.machine.table.trans hsame,
      fun f hf => ?_, h.machine.high, fun t ht hne => ?_, h.machine.grants⟩
    · rcases hgive f hf with hf | hf
      · exact h.machine.free f hf
      · exact (hout f hf).1
    · obtain ⟨h1, h2⟩ := h.machine.owned t ht hne
      refine ⟨h1, fun hc => ?_⟩
      rcases hgive _ hc with hc | hc
      · exact h2 hc
      · exact hno t hc ht
  · obtain ⟨f, hbacks, hf⟩ := h.backed ho q h1 h2
    refine ⟨f, ⟨hbacks.leaf, fun hc => ?_, hbacks.noTable⟩, hf⟩
    rcases hgive _ hc with hc | hc
    · exact hbacks.taken hc
    · exact h.apart ho _ ha q f h1 h2 hbacks.walk hc

end

end Frewozet
