import Frewozet.Flat.HeapCalls
import Frewozet.Flat.Start
import Frewozet.System.Owners

/-!
# Runs of the heap in that memory

Any number of calls after `kmain` has set the bootstrap heap and the frame allocator up, with
any of the calls below failing, and callers writing to what they were given in between.

* `HeapCall`, `HeapCall.exec` — the steps.
* `HeapCall.Given` — callers write to payloads they were given.
* `HeapCall.Clear` — **when this leaves the list alone**: what the bootstrap heap has handed out
  is not written to any more once the frame allocator has handed the frame behind it out as well,
  and tables are in reach.
* `HeapHolds`, `HeapHolds.step`, `HeapHolds.run` — the invariant.
* `heap_shape` — **the list, in every such run**; `heap_shape_lost` — and what a caller that
  writes to its payload can do to it otherwise.
-/

namespace Frewozet

open Word Exec TwoLevel Tiling

/-! ## The steps -/

/-- `memory_init(); pmm_init();`, on the tables the loader built. -/
def Flat.bootState (info : E820Info) (k : KernelImage) (vmem phys : Mem) : Flat.State where
  memory := (boot info k vmem).memory
  machine := bootMachine info k vmem phys

/-- What happens to the heap; `faults` says which of the calls below are to fail. -/
inductive HeapCall where
  | enable (faults : List Bool)
  | kmalloc (size : U32) (faults : List Bool)
  | write (addr : U32) (value : U8)

/-- Doing it. -/
def HeapCall.exec : HeapCall → Exec Flat.State Unit
  | enable faults => do
    modify fun s => { s with faults := faults }
    Flat.memoryEnablePmmBackend
  | kmalloc size faults => do
    modify fun s => { s with faults := faults }
    let _ ← Flat.kmalloc size
    return ()
  | write addr value => Flat.inMemory (store8 addr value)

/-- A byte of what the bootstrap heap has handed out, the bitmap apart. -/
def BootByte (s : Flat.State) (a : U32) : Prop :=
  (∃ r ∈ s.memory.bootRanges, r.1.toNat ≤ a.toNat ∧ a.toNat < r.1.toNat + r.2.toNat) ∧
    a ∉ s.machine.bitmapCells

/-- Callers write to payloads they were given. -/
def HeapCall.Given (s : Flat.State) : HeapCall → Prop
  | write addr _ => BootByte s addr ∨ UsedByte s.seen addr
  | _ => True

/-- A write through a pointer of the bootstrap heap does not go to a frame the allocator has
handed out since `pmm_init`, and where the heap has to grow its new tables are in reach. -/
def HeapCall.Clear (p₀ : Pmm) (s : Flat.State) : HeapCall → Prop
  | enable _ => s.memory.memoryPmmBackendEnabled = false → s.GrowthLow 1
  | kmalloc size _ => s.memory.memoryPmmBackendEnabled = true →
      NeedsGrowth s.seen (alignUpSize size MEMORY_DEFAULT_ALIGNMENT) →
        s.GrowthLow (alignUpSize size MEMORY_DEFAULT_ALIGNMENT)
  | write addr _ => BootByte s addr →
      ¬ s.machine.seen.HandedOut p₀ (frameOf (virtToPhys addr))

/-! ## The invariant -/

/-- What the bootstrap heap hands out lies in the direct map, past 1 MiB. -/
structure BootInside (mem : Memory) : Prop where
  limit : mem.bootstrapHeapLimit.toNat ≤ 0xC0400000
  current : 0xC0100000 ≤ mem.bootstrapHeapCurrent.toNat
  ranges : ∀ r ∈ mem.bootRanges, 0xC0100000 ≤ r.1.toNat ∧ r.1.toNat + r.2.toNat ≤ 0xC0400000

/-- The list is `bs`, in frames of its own, and it is there once the backend is enabled. -/
structure HeapHolds (p₀ : Pmm) (s : Flat.State) (bs : List Block) : Prop where
  standing : HeapStanding p₀ s bs
  enabled : s.memory.memoryPmmBackendEnabled = true ↔ bs ≠ []
  boot : BootInside s.memory

section

variable {p₀ : Pmm} {s s' : Flat.State} {bs bs' : List Block} {mem : Memory} {a : U32}

theorem BootInside.congr {mem' : Memory} (h : BootInside mem)
    (hcur : mem'.bootstrapHeapCurrent = mem.bootstrapHeapCurrent)
    (hlimit : mem'.bootstrapHeapLimit = mem.bootstrapHeapLimit)
    (hranges : mem'.bootRanges = mem.bootRanges) : BootInside mem' :=
  ⟨hlimit ▸ h.limit, hcur ▸ h.current, hranges ▸ h.ranges⟩

theorem BootInside.alloc (h : BootInside mem) (size alignment : U32) :
    BootInside (bootstrapAllocAligned size alignment mem).2 := by
  rcases bootstrapAllocAligned_spec size alignment mem with hr | ⟨p, hr, -, -, hlo, hsum, hhi⟩
  · rw [hr]
    exact h
  · have hcurrent := h.current
    have hlimit := h.limit
    rw [hr]
    refine ⟨hlimit, ?_, fun r hmem => ?_⟩
    · change 0xC0100000 ≤ (p + size).toNat
      omega
    · rcases List.mem_cons.1 hmem with rfl | hmem
      · exact ⟨hcurrent.trans hlo, hhi.trans hlimit⟩
      · exact h.ranges r hmem

/-- An allocation of the bootstrap heap says nothing about the other one. -/
theorem bootstrapAllocAligned_heap (size alignment : U32) (mem : Memory) :
    (bootstrapAllocAligned size alignment mem).2.heapHead = mem.heapHead ∧
      (bootstrapAllocAligned size alignment mem).2.heapVirtualCurrent = mem.heapVirtualCurrent ∧
      (bootstrapAllocAligned size alignment mem).2.heapCommittedBytes = mem.heapCommittedBytes ∧
      (bootstrapAllocAligned size alignment mem).2.memoryPmmBackendEnabled =
        mem.memoryPmmBackendEnabled := by
  rcases bootstrapAllocAligned_spec size alignment mem with hr | ⟨p, hr, -⟩ <;> rw [hr] <;>
    exact ⟨rfl, rfl, rfl, rfl⟩

theorem Malloced.ne_nil {size : Nat} {p : U32} (h : Malloced bs size p bs') (hne : bs ≠ []) :
    bs' ≠ [] := by
  cases h with
  | null _ hlist =>
    rcases hlist with rfl | ⟨b, -, rfl⟩
    · exact hne
    · simp
  | used b _ _ hnew => exact List.ne_nil_of_mem hnew.1

/-! ## A caller's write -/

/-- **A write through a pointer of the bootstrap heap**, to a frame that is of no other use. -/
theorem HeapHolds.writeBoot (h : HeapHolds p₀ s bs) (ha : BootByte s a)
    (hout : ¬ s.machine.seen.HandedOut p₀ (frameOf (virtToPhys a))) (value : U8) :
    wp (Flat.inMemory (store8 a value)) (fun _ s' => HeapHolds p₀ s' bs) (fun _ _ => False) s := by
  obtain ⟨⟨r, hr, h1, h2⟩, hbitmap⟩ := ha
  have hstanding := h.standing
  have hm := hstanding.seated.ground.machine
  have hres := hstanding.seated.resident
  obtain ⟨hlo, hhi⟩ := h.boot.ranges r hr
  obtain ⟨hwalk, hhigh⟩ := hm.direct (a := a) (by omega) (by omega)
  obtain ⟨hdir, htable⟩ := hm.noTable hhigh hout
  have hphys := virtToPhys_toNat (a := a) (by omega)
  have hmmu : mmu s.machine.phys a = some (virtToPhys a) := by
    rw [← hres.layer_mmu, mmu_eq, hwalk]
    refine congrArg some (BitVec.eq_of_toNat_eq ?_)
    rw [inFrame_toNat]
    change (virtToPhys a).toNat / 4096 * 4096 + a.toNat % 4096 = _
    omega
  have hcells : DataCells s.machine {a} := by
    refine ⟨fun v hv => ?_, fun v hv w hw _ _ _ => hv.trans hw.symm⟩
    obtain rfl := hv
    exact ⟨_, hmmu, hdir, fun hc => htable ((hres.layer_isTable _).2 hc)⟩
  rw [Flat.inMemory, wp_zoom]
  refine wp_mono (wp_store8 hcells rfl value) ?_ fun _ _ hc => hc
  rintro _ m' ⟨hstored, -⟩
  obtain ⟨hseated, -⟩ := hstanding.seated.stored hstored fun v hv b hvb c hc heq => by
    obtain rfl := hv
    rw [hmmu] at hvb
    rw [← Option.some.inj hvb, virtToPhys, virtToPhys, BitVec.sub_left_inj] at heq
    exact hbitmap (heq ▸ hc)
  -- no page of the heap has that frame
  have hview : ∀ x ∈ heapCells (s.memory.top * 4096), m'.view x = s.machine.view x := by
    intro x hx
    obtain ⟨f, hback, hfree, hx'⟩ := hstanding.seated.cell hx
    have hx'' : mmu m'.phys x = some (inFrame f x) := by rw [hstored.same.mmu, hx']
    rw [Machine.view_of_mmu hx', Machine.view_of_mmu hx'']
    by_contra hne
    obtain ⟨v, hv, hva⟩ := hstored.bytes _ hne
    obtain rfl := hv
    have hframe := congrArg frameOf (Option.some.inj (hmmu.symm.trans hva))
    rw [frameOf_inFrame] at hframe
    exact hout ⟨hframe ▸ hfree, hframe ▸ hback.taken⟩
  refine ⟨⟨?_, hstanding.aligned, hseated⟩, h.enabled, h.boot⟩
  exact hstanding.heap.congr fun x hx => hview x (by
    rwa [← hstanding.bounds.1])

/-- **A write to the payload of a used block.** -/
theorem HeapHolds.writeUsed (h : HeapHolds p₀ s bs) (hb : SafeBitmap p₀) (ha : UsedByte s.seen a)
    (value : U8) :
    wp (Flat.inMemory (store8 a value)) (fun _ s' => HeapHolds p₀ s' bs) (fun _ _ => False) s := by
  have hstanding := h.standing
  obtain ⟨cs, b, hcs, hmem, -, h1, h2⟩ := ha
  rw [hcs.unique hstanding.heap] at hmem
  obtain ⟨hcurrent, -, -⟩ := hstanding.bounds
  have hbounds := hstanding.heap.tiles.mem_bounds hmem
  have hcell : a ∈ heapCells (s.memory.top * 4096) := by
    have hin : b.stop ≤ s.memory.heapVirtualCurrent.toNat := hbounds.2.2
    have hlo : 0xC1000000 ≤ b.addr := hbounds.1
    constructor <;> omega
  have hcells := hstanding.seated.cells
  rw [Flat.inMemory, wp_zoom]
  refine wp_mono (wp_store8 hcells hcell value) ?_ fun _ _ hc => hc
  rintro _ m' ⟨hstored, hview⟩
  have himage : Image (heapCells (s.memory.top * 4096)) s.machine m'
      (s.seen.vmem.write8 a value) := ⟨hcells.same hstored.same, hstored, hview⟩
  have hout : ∀ l r, r ≤ b.addr + 12 ∨ b.stop ≤ l →
      (s.seen.vmem.write8 a value).AgreeOn s.seen.vmem l r :=
    fun l r hlr => Mem.agreeOn_write8 _ _ (by omega)
  exact ⟨hstanding.of_image hb himage rfl (hstanding.heap.writePayload hmem hout), h.enabled,
    h.boot⟩

/-! ## Steps and runs -/

/-- `kmalloc` as long as the backend is not enabled. -/
theorem Flat.kmalloc_boot (hdis : s.memory.memoryPmmBackendEnabled = false) {size : U32}
    (h0 : size ≠ 0) : Flat.kmalloc size s =
      .ret (bootstrapAllocAligned (alignUpSize size MEMORY_DEFAULT_ALIGNMENT)
          MEMORY_DEFAULT_ALIGNMENT s.memory).1
        { s with memory := (bootstrapAllocAligned (alignUpSize size MEMORY_DEFAULT_ALIGNMENT)
          MEMORY_DEFAULT_ALIGNMENT s.memory).2 } := by
  have hget : Flat.getMemory s = .ret s.memory s := rfl
  rw [Flat.kmalloc, if_neg h0]
  refine (bind_ret hget _).trans ?_
  rw [hdis]
  rfl

/-- An allocation of the bootstrap heap leaves the other one alone. -/
theorem HeapHolds.alloc (h : HeapHolds p₀ s bs) {size alignment p : U32}
    (hcall : bootstrapAllocAligned size alignment s.memory = (p, mem)) :
    HeapHolds p₀ { s with memory := mem } bs := by
  obtain ⟨hhead, hcur, hbytes, henabled⟩ := bootstrapAllocAligned_heap size alignment s.memory
  have hboot := h.boot.alloc size alignment
  rw [hcall] at hhead hcur hbytes henabled hboot
  exact ⟨h.standing.setStatics hhead hcur hbytes, by rw [← h.enabled, ← henabled], hboot⟩

/-- **One step keeps the invariant**, and the blocks that are used. -/
theorem HeapHolds.step (h : HeapHolds p₀ s bs) (hb : SafeBitmap p₀) (c : HeapCall)
    (hgiven : c.Given s) (hclear : c.Clear p₀ s) :
    wp c.exec (fun _ s' => ∃ bs', HeapHolds p₀ s' bs' ∧ KeepsUsed bs bs') (fun _ _ => False) s := by
  have hsame : ∀ s', HeapHolds p₀ s' bs → ∃ bs', HeapHolds p₀ s' bs' ∧ KeepsUsed bs bs' :=
    fun s' hs => ⟨bs, hs, fun _ hc _ => hc⟩
  cases c with
  | write addr value =>
    rcases hgiven with ha | ha
    · exact wp_mono (h.writeBoot ha (hclear ha) value) (fun _ s' => hsame s') fun _ _ hc => hc
    · exact wp_mono (h.writeUsed hb ha value) (fun _ s' => hsame s') fun _ _ hc => hc
  | enable faults =>
    have h' : HeapHolds p₀ { s with faults := faults } bs :=
      ⟨⟨h.standing.heap, h.standing.aligned, h.standing.seated⟩, h.enabled, h.boot⟩
    rw [HeapCall.exec, wp_bind, wp_modify]
    by_cases he : s.memory.memoryPmmBackendEnabled = true
    · rw [Flat.memoryEnablePmmBackend, wp_bind, wp_flatGetMemory]
      dsimp only
      rw [if_pos he]
      exact hsame _ h'
    · have hdis : s.memory.memoryPmmBackendEnabled = false := Bool.eq_false_iff.2 he
      obtain rfl : bs = [] := not_not.1 fun hc => he (h.enabled.2 hc)
      refine wp_mono (h'.standing.enable hb hdis (hclear hdis)) ?_ fun _ _ hc => hc
      intro _ s' hen
      refine ⟨_, ⟨hen.standing, ?_, h.boot.congr hen.current hen.limit hen.ranges⟩,
        fun _ hc => by cases hc⟩
      by_cases he' : s'.memory.memoryPmmBackendEnabled = true
      · rw [if_pos he']
        simp [he']
      · rw [if_neg he']
        simp [he']
  | kmalloc size faults =>
    have h' : HeapHolds p₀ { s with faults := faults } bs :=
      ⟨⟨h.standing.heap, h.standing.aligned, h.standing.seated⟩, h.enabled, h.boot⟩
    rw [HeapCall.exec, wp_bind, wp_modify, wp_bind]
    by_cases he : s.memory.memoryPmmBackendEnabled = true
    · refine wp_mono (h'.standing.kmalloc hb he (hclear he)) ?_ fun _ _ hc => hc
      rintro p s' ⟨hstatics, bs', hstanding, hmalloced⟩
      refine ⟨bs', ⟨hstanding, ?_, h.boot.congr hstatics.current hstatics.limit hstatics.ranges⟩,
        hmalloced.keepsUsed⟩
      rw [hstatics.enabled]
      exact ⟨fun _ => hmalloced.ne_nil (h.enabled.1 he), fun _ => he⟩
    · have hdis : s.memory.memoryPmmBackendEnabled = false := Bool.eq_false_iff.2 he
      by_cases h0 : size = 0
      · rw [Flat.kmalloc, if_pos h0]
        exact hsame _ h'
      · simp only [wp, Flat.kmalloc_boot (s := { s with faults := faults }) hdis h0]
        exact hsame _ (h'.alloc rfl)

/-- **So does every run**, and all its calls return. -/
theorem HeapHolds.run (h : HeapHolds p₀ s bs) (hb : SafeBitmap p₀) {calls : List HeapCall}
    (hok : EachOk HeapCall.exec (fun s c => c.Given s ∧ c.Clear p₀ s) calls s) :
    ∃ s' bs', runAll HeapCall.exec calls s = .ret () s' ∧ HeapHolds p₀ s' bs' ∧
      KeepsUsed bs bs' := by
  have hrun := runAll_invariant (I := fun s => ∃ bs', HeapHolds p₀ s bs' ∧ KeepsUsed bs bs')
    (J := fun _ => False) (fun s c hs hc => by
      obtain ⟨bs', hs, hk⟩ := hs
      refine wp_mono (hs.step hb c hc.1 hc.2) ?_ fun _ _ hf => hf
      rintro _ s' ⟨bs'', hs', hk'⟩
      exact ⟨bs'', hs', fun d hd hf => hk' d (hk d hd hf) hf⟩)
    calls s ⟨bs, h, fun _ hc _ => hc⟩ hok
  obtain ⟨⟨⟩, s', hx, bs', hs', hk⟩ := wp_total hrun
  exact ⟨s', bs', hx, hs', hk⟩

end

/-! ## From the start -/

section

variable (info : E820Info) (k : KernelImage) (vmem phys : Mem)

theorem safeBitmap_boot (hk : 0xC0100000 ≤ k.kernelEnd.toNat) :
    SafeBitmap (boot info k vmem).pmm := by
  refine ⟨fun f hf => ((boot_fitsWindow info k vmem hk).frame hf).2, fun f hf hon => ?_⟩
  obtain ⟨hfit, -, -, -, hout⟩ := (boot_free_iff info k vmem f).1 hf
  exact hout ((Ready.bitmapFrame_iff info k (boot_ready info k vmem hfit) f).1 hon)

/-- What `pmm_init` has taken for the bitmap. -/
theorem bootInside_boot (hk : 0xC0100000 ≤ k.kernelEnd.toNat) :
    BootInside (boot info k vmem).memory := by
  have hlimit := boot_limit info k vmem
  have hle := bootstrapLimit_le info k
  have hend := k.endPhys_toNat
  by_cases hfit : BitmapFits info k
  · have hr := boot_ready info k vmem hfit
    have hroom : bitmapStart k + bitmapSize info ≤ bootstrapLimit info k := hfit.2.2
    have hbytes : (bitmapBytes (tablePages info)).toNat = bitmapSize info :=
      bitmapBytes_toNat (tablePages_le info)
    have hstart : 0x100000 ≤ bitmapStart k := by
      rw [bitmapStart, kernelEndFrame]
      omega
    refine ⟨by omega, ?_, fun r hmem => ?_⟩
    · rw [hr.current, BitVec.toNat_ofNat]
      omega
    · rw [hr.ranges] at hmem
      obtain rfl := List.mem_singleton.1 hmem
      rw [hbytes, BitVec.toNat_ofNat]
      omega
  · obtain ⟨-, -, hcurrent, hranges⟩ := boot_not_ready info k vmem hfit
    have hbounds := (memoryInit_bounds info k vmem).1
    refine ⟨by omega, by rw [hcurrent]; omega, fun r hmem => ?_⟩
    rw [hranges] at hmem
    exact absurd hmem List.not_mem_nil

theorem heapHolds_boot (hk : 0xC0100000 ≤ k.kernelEnd.toNat) :
    HeapHolds (boot info k vmem).pmm (Flat.bootState info k vmem phys) [] := by
  obtain ⟨hres, hsame⟩ := bootMachine_resident info k vmem phys hk
  have hok := heapOk_boot info k vmem
  have hcur : 0xC1000000 = (boot info k vmem).memory.heapVirtualCurrent.toNat := hok.heap.tiles
  have htop : (boot info k vmem).memory.top = 0xC1000 := by rw [Memory.top, ← hcur]
  have hmachine : MachineOk (boot info k vmem).pmm (bootMachine info k vmem phys).layer :=
    (machineOk_boot info k vmem phys).sameTables (hsame.trans hres.sameTables)
  refine ⟨⟨hok.heap.congr fun x hx => ?_, ?_, hres, ?_⟩, hok.enabled,
    bootInside_boot info k vmem hk⟩
  · obtain ⟨h1, h2⟩ := hx
    omega
  · change (boot info k vmem).memory.heapVirtualCurrent.toNat % 4096 = 0
    rw [← hcur]
  · change Grounded _ _ (boot info k vmem).memory.top _ _
    rw [htop]
    exact ⟨hmachine, fun _ q h1 h2 => by omega, fun _ q q' f h1 h2 h3 => by omega,
      fun a ha => absurd ha List.not_mem_nil, fun _ a ha => absurd ha List.not_mem_nil,
      List.Pairwise.nil⟩

end

section

variable {info : E820Info} {k : KernelImage} {vmem phys : Mem}

theorem onlyWindow_bootMachine (hk : 0xC0100000 ≤ k.kernelEnd.toNat) :
    OnlyWindow (bootMachine info k vmem phys).seen :=
  fun _ hs => bootMachine_slot info k vmem phys hk hs

theorem bootState_top : (Flat.bootState info k vmem phys).memory.heapVirtualCurrent.toNat =
      0xC1000000 ∧ (Flat.bootState info k vmem phys).memory.top = 0xC1000 := by
  have hcur : 0xC1000000 = (boot info k vmem).memory.heapVirtualCurrent.toNat :=
    (heapOk_boot info k vmem).heap.tiles
  refine ⟨hcur.symm, ?_⟩
  change (boot info k vmem).memory.heapVirtualCurrent.toNat / 4096 = _
  rw [← hcur]

theorem growthLow_boot (hk : 0xC0100000 ≤ k.kernelEnd.toNat)
    (hlow : (boot info k vmem).pmm.freeCount ≤ 1 ∨ 2 ≤ (boot info k vmem).pmm.freeBelow 1024) :
    (Flat.bootState info k vmem phys).GrowthLow 1 := by
  intro _
  rw [bootState_top.2]
  refine (onlyWindow_bootMachine hk).tablesLow (by decide) ?_
  rw [(bootMachine_resident info k vmem phys hk).2.pmm]
  exact hlow

end

/-! ## The list -/

/-- The list from `heap_head` is `bs`, and what this means. -/
structure HeapShape (s : Flat.State) (bs : List Block) : Prop where
  list : HeapAt s.seen bs
  /-- There is no other. -/
  unique : ∀ cs, HeapAt s.seen cs → cs = bs
  increasing : bs.Pairwise fun b c => b.addr < c.addr ∧ b.stop ≤ c.addr
  apart : ∀ b ∈ bs, ∀ c ∈ bs, b ≠ c → ∀ a, b.addr + 12 ≤ a → a < b.stop →
    ¬ (c.addr + 12 ≤ a ∧ a < c.stop)
  committed : s.memory.heapCommittedBytes = s.memory.heapVirtualCurrent - KERNEL_HEAP_START
  committedBytes : memoryGetHeapCommittedBytes s.memory = s.memory.heapCommittedBytes
  sums : ∃ used free : U32, Flat.memoryGetHeapUsedBytes s = .ret used s ∧
    Flat.memoryGetHeapFreeBytes s = .ret free s ∧
    used.toNat + free.toNat + 12 * bs.length = s.memory.heapCommittedBytes.toNat

section

variable {p₀ : Pmm} {s s' : Flat.State} {bs bs' : List Block}

/-- A getter adds up the blocks its test accepts. -/
theorem HeapHolds.sum (h : HeapHolds p₀ s bs) (free : Bool) (test : U32 → Bool)
    (htest : ∀ w : U32, test w = true ↔ ((w = 0) ↔ free = false)) :
    (if !s.memory.memoryPmmBackendEnabled ∨ s.memory.heapHead = 0 then pure 0
      else Flat.inMemory (Flat.sumBlocks test WALK_STEPS s.memory.heapHead 0)) s =
        .ret (if s.memory.memoryPmmBackendEnabled then BitVec.ofNat 32 (sizes free bs) else 0)
          s := by
  have hwalk := h.standing.heap.sumBlocks free test htest
  obtain ⟨hcurrent, -, hlimit⟩ := h.standing.bounds
  change (if (!s.memory.memoryPmmBackendEnabled) = true ∨ s.memory.heapHead = 0 then some 0
    else Frewozet.sumBlocks s.machine.view test WALK_STEPS s.memory.heapHead 0) =
      some (if s.memory.memoryPmmBackendEnabled then _ else 0) at hwalk
  by_cases hnone : (!s.memory.memoryPmmBackendEnabled) = true ∨ s.memory.heapHead = 0
  · rw [if_pos hnone] at hwalk ⊢
    exact congrArg (Outcome.ret · s) (Option.some.inj hwalk)
  · have hhead : s.memory.heapHead = firstPtr 0 bs := h.standing.heap.head
    have hflat := h.standing.image.sumBlocks hlimit test bs WALK_STEPS 0 h.standing.heap.chain
      fun b hb => by
        rw [← hcurrent]
        exact h.standing.heap.headerIn hb
    rw [if_neg hnone] at hwalk ⊢
    rw [hhead] at hwalk ⊢
    change Flat.sumBlocks test WALK_STEPS (firstPtr 0 bs) 0 s.machine =
      ofOption .hang (Frewozet.sumBlocks s.machine.view test WALK_STEPS (firstPtr 0 bs) 0)
        s.machine at hflat
    rw [hwalk] at hflat
    unfold Flat.inMemory zoom
    rw [hflat]
    rfl

theorem HeapHolds.shape (h : HeapHolds p₀ s bs) : HeapShape s bs := by
  have hheap := h.standing.heap
  have hsum : sizes false bs + sizes true bs + 12 * bs.length =
    s.memory.heapCommittedBytes.toNat := hheap.sizes_committed
  have hnil : s.memory.memoryPmmBackendEnabled ≠ true → bs = [] :=
    fun he => not_not.1 fun hc => he (h.enabled.2 hc)
  refine ⟨hheap, fun cs hcs => hcs.unique hheap, ?_, ?_, ?_, ?_, ?_⟩
  · refine hheap.tiles.pairwise.imp_of_mem fun {b c} hb _ hle => ⟨?_, hle⟩
    have hstop : b.stop = b.addr + 12 + b.size := rfl
    omega
  · rintro b hb c hc hne a h1 h2 ⟨h3, h4⟩
    have hbstop : b.stop = b.addr + 12 + b.size := rfl
    have hcstop : c.stop = c.addr + 12 + c.size := rfl
    rcases hheap.tiles.apart hb hc with heq | hle | hle
    · exact hne heq
    all_goals omega
  · have hlo : 0xC1000000 ≤ s.memory.heapVirtualCurrent.toNat := hheap.tiles.le
    have hcommitted : s.memory.heapCommittedBytes.toNat + 0xC1000000 =
      s.memory.heapVirtualCurrent.toNat := hheap.committed
    have hstart : KERNEL_HEAP_START.toNat = 0xC1000000 := rfl
    apply BitVec.eq_of_toNat_eq
    rw [BitVec.toNat_sub_of_le (BitVec.le_def.2 (by omega))]
    omega
  · by_cases he : s.memory.memoryPmmBackendEnabled = true
    · simp [memoryGetHeapCommittedBytes, he]
    · obtain rfl := hnil he
      have hzero : s.memory.heapCommittedBytes = 0 := BitVec.eq_of_toNat_eq hsum.symm
      simp [memoryGetHeapCommittedBytes, hzero]
  · have hlt := s.memory.heapCommittedBytes.isLt
    refine ⟨_, _, h.sum false _ fun w => by simp, h.sum true _ fun w => by simp, ?_⟩
    by_cases he : s.memory.memoryPmmBackendEnabled = true
    · rw [if_pos he, if_pos he, toNat_ofNat_lt (by omega), toNat_ofNat_lt (by omega)]
      exact hsum
    · obtain rfl := hnil he
      rw [if_neg he, if_neg he, ← hsum]
      rfl

/-- `kmalloc` does not return a payload that is in use. -/
theorem HeapHolds.fresh (h : HeapHolds p₀ s bs) (hb : SafeBitmap p₀) {size p : U32}
    {faults : List Bool} (hclear : (HeapCall.kmalloc size faults).Clear p₀ s)
    (hcall : Flat.kmalloc size { s with faults := faults } = .ret p s') (hp : p ≠ 0) {b : Block}
    (hmem : b ∈ bs) (hused : b.free = false) : p.toNat ≠ b.addr + 12 := by
  have he := h.enabled.2 (List.ne_nil_of_mem hmem)
  have hstanding : HeapStanding p₀ { s with faults := faults } bs :=
    ⟨h.standing.heap, h.standing.aligned, h.standing.seated⟩
  obtain ⟨-, bs', -, hm⟩ := wp_ret (hstanding.kmalloc hb he (hclear he)) hcall
  cases hm with
  | null hres => exact absurd hres hp
  | used c hptr _ hnew =>
    have := hnew.2.2 b hmem hused
    omega

end

/-- **The shape of the heap**, after any run in which the calls below fail as they like, new
tables are in reach, and no caller writes through a pointer of the bootstrap heap to a frame the
allocator has handed out: one list of blocks that tile the heap without a gap, with payloads
apart, sizes that add up to what is committed, and used blocks that stay as they are and are not
given out twice. -/
theorem heap_shape {info : E820Info} {k : KernelImage} {vmem phys : Mem}
    (hk : 0xC0100000 ≤ k.kernelEnd.toNat) {calls : List HeapCall}
    (hok : EachOk HeapCall.exec (fun s c => c.Given s ∧ c.Clear (boot info k vmem).pmm s) calls
      (Flat.bootState info k vmem phys)) :
    ∃ s bs, runAll HeapCall.exec calls (Flat.bootState info k vmem phys) = .ret () s ∧
      HeapShape s bs ∧
      (∀ later, EachOk HeapCall.exec (fun s c => c.Given s ∧ c.Clear (boot info k vmem).pmm s)
        later s → ∃ s' bs', runAll HeapCall.exec later s = .ret () s' ∧ HeapAt s'.seen bs' ∧
          ∀ b ∈ bs, b.free = false → b ∈ bs') ∧
      ∀ size faults p s', (HeapCall.kmalloc size faults).Clear (boot info k vmem).pmm s →
        Flat.kmalloc size { s with faults := faults } = .ret p s' → p ≠ 0 →
          ∀ b ∈ bs, b.free = false → p.toNat ≠ b.addr + 12 := by
  have hb := safeBitmap_boot info k vmem hk
  obtain ⟨s, bs, hrun, hs, -⟩ := (heapHolds_boot info k vmem phys hk).run hb hok
  refine ⟨s, bs, hrun, hs.shape, fun later hlater => ?_, fun size faults p s' hclear hcall hp b =>
    hs.fresh hb hclear hcall hp⟩
  obtain ⟨s', bs', hrun', hs', hkept⟩ := hs.run hb hlater
  exact ⟨s', bs', hrun', hs'.standing.heap, hkept⟩

/-- The backend is enabled on a machine with memory from 1 to 8 MiB. -/
theorem heap_shape_enabled : ∃ s bs, runAll HeapCall.exec [.enable []]
    (Flat.bootState plainTable smallKernel (fun _ => 0) fun _ => 0) = .ret () s ∧
      HeapShape s bs := by
  have hok : EachOk HeapCall.exec
      (fun s c => c.Given s ∧ c.Clear (boot plainTable smallKernel fun _ => 0).pmm s) [.enable []]
      (Flat.bootState plainTable smallKernel (fun _ => 0) fun _ => 0) :=
    ⟨⟨trivial, fun _ => growthLow_boot (by decide) (.inr (plainTable_low fun _ => 0).2)⟩,
      fun _ _ => trivial⟩
  obtain ⟨s, bs, hrun, hshape, -⟩ := heap_shape (by decide) hok
  exact ⟨s, bs, hrun, hshape⟩

/-! ## One frame, two owners -/

section

variable {p₀ : Pmm} {s s' : Flat.State} {bs : List Block} {f : Frame}

/-- The word 1, low byte first. -/
theorem read32_one {v : Mem} {a : U32} (h0 : v a = 1) (h1 : v (a + 1#32) = 0)
    (h2 : v (a + 2#32) = 0) (h3 : v (a + 3#32) = 0) : v.read32 a = 1 := by
  rw [Mem.read32, h0, h1, h2, h3]
  rfl

/-- No list of blocks starts with a header whose link is 1. -/
theorem HeapAt.link_ne_one {mem : Memory} (hhead : mem.heapHead = 0xC1000000)
    (hone : mem.vmem.read32 0xC1000008 = 1) (bs : List Block) : ¬ HeapAt mem bs := by
  intro hbs
  have hhead' : mem.heapHead = firstPtr 0 bs := hbs.head
  cases bs with
  | nil =>
    rw [hhead] at hhead'
    exact absurd hhead' (by decide)
  | cons b cs =>
    have hptr : b.ptr = 0xC1000000 := hhead'.symm.trans hhead
    have hlink := hbs.chain.1.next
    rw [hptr] at hlink
    have hone' : firstPtr 0 cs = 1 := hlink.symm.trans hone
    cases cs with
    | nil => exact absurd hone' (by decide)
    | cons c cs =>
      have hin := hbs.inWindow (b := c) (by simp)
      have haddr := hin.ptr_toNat
      have hlo := hin.1
      rw [show c.ptr = 1 from hone', show (1 : U32).toNat = 1 from rfl] at haddr
      omega

/-- What the first bytes of the heap read after a write to the frame behind them. -/
theorem view_firstPage {m : Machine} (hres : Resident m) (hf : Backs m.layer 0xC1000 f) {pa : U32}
    {d : Nat} (hd : d < 4096) (hpa : pa.toNat = f.val * 4096 + d) {b : U8}
    (hsame : SameTables m { m with phys := m.phys.write8 pa b }) {k : Nat} (hk : k < 4096) :
    Machine.view { m with phys := m.phys.write8 pa b } (BitVec.ofNat 32 (0xC1000000 + k)) =
      if k = d then b else m.view (BitVec.ofNat 32 (0xC1000000 + k)) := by
  have hx : (BitVec.ofNat 32 (0xC1000000 + k)).toNat = 0xC1000000 + k :=
    toNat_ofNat_lt (by omega)
  have hback : mmu m.phys (BitVec.ofNat 32 (0xC1000000 + k)) =
      some (inFrame f (BitVec.ofNat 32 (0xC1000000 + k))) := hf.mmu hres (by omega)
  have hin := inFrame_toNat f (BitVec.ofNat 32 (0xC1000000 + k))
  rw [Machine.view_of_mmu hback, Machine.view_of_mmu (by rw [hsame.mmu, hback])]
  by_cases hkd : k = d
  · have heq : inFrame f (BitVec.ofNat 32 (0xC1000000 + k)) = pa :=
      BitVec.eq_of_toNat_eq (by omega)
    rw [if_pos hkd, heq]
    exact Mem.write8_same _ _ _
  · rw [if_neg hkd]
    refine Mem.write8_of_ne _ _ fun hc => ?_
    have := congrArg BitVec.toNat hc
    omega

/-- **The link of the first block, overwritten through the direct map.**  No list starts with it
any more. -/
theorem HeapHolds.overwritten {n : Nat} (h : HeapHolds p₀ s [⟨0xC1000000, n, true⟩])
    (hf : Backs s.machine.layer 0xC1000 f) (hfree : p₀.Free f.val) (hlow : f.val < 1024) :
    wp (Flat.inMemory (store8 (physToVirt (BitVec.ofNat 32 (f.val * 4096 + 8))) 1))
      (fun _ s' => ∀ bs, ¬ HeapAt s'.seen bs) (fun _ _ => False) s := by
  have hstanding := h.standing
  have hres := hstanding.seated.resident
  have hm := hstanding.seated.ground.machine
  have hpa : (BitVec.ofNat 32 (f.val * 4096 + 8)).toNat = f.val * 4096 + 8 :=
    toNat_ofNat_lt (by omega)
  have hmmu : mmu s.machine.phys (physToVirt (BitVec.ofNat 32 (f.val * 4096 + 8))) =
      some (BitVec.ofNat 32 (f.val * 4096 + 8)) := by
    rw [← hres.layer_mmu]
    exact hm.windowed.reach (by omega)
  generalize BitVec.ofNat 32 (f.val * 4096 + 8) = pa at hpa hmmu
  have hsame := sameTables_write8 (m := s.machine) (hm.free_ne_dir hfree)
    (fun hc => hf.noTable ((hres.layer_isTable f).2 hc)) (a := pa) (by omega) 1
  have hview : ∀ k < 4096, Machine.view { s.machine with phys := s.machine.phys.write8 pa 1 }
      (BitVec.ofNat 32 (0xC1000000 + k)) =
        if k = 8 then 1 else s.machine.view (BitVec.ofNat 32 (0xC1000000 + k)) := fun k hk =>
    view_firstPage hres hf (by decide) hpa hsame hk
  rw [Flat.inMemory, wp_zoom]
  simp only [wp, store8_ret hmmu]
  -- the link was 0, so three of its bytes still are
  have hzero : s.machine.view.read32 0xC1000008 = Mem.read32 (fun _ => 0) 0xC1000008 :=
    hstanding.heap.chain.1.next
  have hbyte : ∀ k < 4, s.machine.view (0xC1000008 + BitVec.ofNat 32 k) = 0 := fun k hk =>
    Mem.byte_of_read32 hzero hk
  have hone : (Machine.view { s.machine with phys := s.machine.phys.write8 pa 1 }).read32
      0xC1000008 = 1 := by
    refine read32_one (hview 8 (by decide)) ?_ ?_ ?_
    · exact (hview 9 (by decide)).trans (hbyte 1 (by decide))
    · exact (hview 10 (by decide)).trans (hbyte 2 (by decide))
    · exact (hview 11 (by decide)).trans (hbyte 3 (by decide))
  exact HeapAt.link_ne_one hstanding.heap.head hone

/-- **Enabling the backend for the first time**, with frames enough: the first free frame becomes
the first page of the heap. -/
theorem HeapHolds.enableFirst (h : HeapHolds p₀ s []) (hb : SafeBitmap p₀) (hfaults : s.faults = [])
    (honly : OnlyWindow s.machine.seen) (hf : s.machine.seen.pmm.Free f.val)
    (hfirst : ∀ g < f.val, ¬ s.machine.seen.pmm.Free g)
    (hcount : 5 ≤ s.machine.seen.pmm.freeCount)
    (hbelow : 2 ≤ s.machine.seen.pmm.freeBelow 1024) :
    wp Flat.memoryEnablePmmBackend
      (fun _ s' => HeapHolds p₀ s' [⟨0xC1000000, 0x3FF4, true⟩] ∧ Backs s'.machine.layer 0xC1000 f ∧
        s'.memory.bootRanges = s.memory.bootRanges)
      (fun _ _ => False) s := by
  have hstanding := h.standing
  have hsame := hstanding.seated.resident.sameTables
  have hdis : s.memory.memoryPmmBackendEnabled = false :=
    Bool.eq_false_iff.2 fun hc => h.enabled.1 hc rfl
  have hcur : 0xC1000000 = s.memory.heapVirtualCurrent.toNat := hstanding.heap.tiles
  have htop : s.memory.top = 0xC1000 := by rw [Memory.top, ← hcur]
  have hpages : (growPages 1).toNat = 4 := by decide
  have hroom : RoomFor s.memory 1 := by
    rw [RoomFor, ← hcur, hpages]
    decide
  have hlow : s.GrowthLow 1 := fun _ => by
    rw [htop]
    exact honly.tablesLow (by decide) (.inr hbelow)
  have honly' : OnlyWindow s.machine.layer := fun t ht => by
    rw [hsame.dir]
    exact honly t ht
  have hneeded := honly'.framesNeeded (n := 4) (by decide) (by decide)
  refine wp_mono (hstanding.enable hb hdis hlow) ?_ fun _ _ hc => hc
  intro _ s' hen
  obtain ⟨l, hgrown, htables⟩ := hen.pages hfaults hroom
  rw [htop] at hgrown
  have henabled : s'.memory.memoryPmmBackendEnabled = true := by
    rw [hgrown.enough, hneeded]
    exact hcount
  obtain ⟨t, hback, htfree, htfirst, -⟩ := hgrown.first (by decide) (by
    rw [if_neg honly'.not_hasTable]
    exact le_trans (by decide) hcount)
  -- the first free frame
  obtain rfl : t = f := by
    rcases lt_trichotomy t.val f.val with hlt | heq | hlt
    · exact absurd htfree (hfirst _ hlt)
    · exact Fin.ext heq
    · exact absurd hf (htfirst _ hlt)
  have hregion : regionBlock s.memory 1 = ⟨0xC1000000, 0x3FF4, true⟩ := by
    rw [regionBlock, hpages, ← hcur]
  have hlist := hen.standing
  rw [henabled, if_pos rfl, hregion, List.nil_append] at hlist
  exact ⟨⟨hlist, by simp [henabled], h.boot.congr hen.current hen.limit hen.ranges⟩,
    hback.evolve (htables.evolves (W := fun _ => False)) id, hen.ranges⟩

/-- The calls of `lost_run`. -/
def lostCalls (size : U32) (f : Nat) : List HeapCall :=
  [.kmalloc size [], .enable [], .write (physToVirt (BitVec.ofNat 32 (f * 4096 + 8))) 1]

/-- What is handed out is on the list of what has been. -/
theorem bootstrapAlloc_mem {size alignment p : U32} {mem mem' : Memory}
    (hcall : bootstrapAllocAligned size alignment mem = (p, mem')) (hp : p ≠ 0) :
    (p, size) ∈ mem'.bootRanges := by
  rcases bootstrapAllocAligned_spec size alignment mem with hr | ⟨q, hr, -⟩
  · exact absurd (congrArg Prod.fst (hcall.symm.trans hr)) hp
  · obtain ⟨rfl, rfl⟩ := Prod.mk.inj (hcall.symm.trans hr)
    exact List.mem_cons_self

/-- Telling no call to fail changes nothing where none was to. -/
theorem exec_setFaults {t : Flat.State} (ht : t.faults = []) :
    modify (fun s : Flat.State => { s with faults := [] }) t = .ret () t :=
  congrArg (Outcome.ret ()) (by rw [← ht])

/-- A byte of a payload of the bootstrap heap that lies in a frame left free at the start is given
to its caller. -/
theorem HeapHolds.given (h : HeapHolds p₀ s bs) (hb : SafeBitmap p₀) (hf : p₀.Free f.val)
    (hlow : f.val < 1024) {p size : U32} (hranges : (p, size) ∈ s.memory.bootRanges) {d : Nat}
    (hd : d < 4096) (hlo : p.toNat ≤ 0xC0000000 + f.val * 4096 + d)
    (hhi : 0xC0000000 + f.val * 4096 + d < p.toNat + size.toNat) (value : U8) :
    (HeapCall.write (physToVirt (BitVec.ofNat 32 (f.val * 4096 + d))) value).Given s := by
  have hpa : (BitVec.ofNat 32 (f.val * 4096 + d)).toNat = f.val * 4096 + d :=
    toNat_ofNat_lt (by omega)
  have haddr : (physToVirt (BitVec.ofNat 32 (f.val * 4096 + d))).toNat =
      0xC0000000 + f.val * 4096 + d := by
    rw [physToVirt_toNat (by omega), hpa]
    omega
  refine .inl ⟨⟨_, hranges, by dsimp only; omega, by dsimp only; omega⟩, fun hc => ?_⟩
  have hon := (h.standing.seated.resident.byte hc).2
  have hphys := virtToPhys_toNat (a := physToVirt (BitVec.ofNat 32 (f.val * 4096 + d))) (by omega)
  have hframe : frameOf (virtToPhys (physToVirt (BitVec.ofNat 32 (f.val * 4096 + d)))) = f := by
    apply Fin.ext
    change (virtToPhys _).toNat / 4096 = f.val
    omega
  rw [hframe] at hon
  exact hb.spare _ hf ((h.standing.seated.sound.bitmapFrame _).1 hon)

/-- **A payload of the bootstrap heap over the first free frame.**  That frame becomes the first
page of the heap, and a caller that writes to its payload writes to the first header. -/
theorem HeapHolds.lost_run (h : HeapHolds p₀ s []) (hb : SafeBitmap p₀) (hfaults : s.faults = [])
    (honly : OnlyWindow s.machine.seen) (hpmm : s.machine.seen.pmm = p₀) {size p : U32}
    {mem : Memory} (h0 : size ≠ 0) (hp : p ≠ 0)
    (hcall : bootstrapAllocAligned (alignUpSize size MEMORY_DEFAULT_ALIGNMENT)
      MEMORY_DEFAULT_ALIGNMENT s.memory = (p, mem))
    (hf : p₀.Free f.val) (hfirst : ∀ g < f.val, ¬ p₀.Free g) (hlow : f.val < 1024)
    (hcount : 5 ≤ p₀.freeCount) (hbelow : 2 ≤ p₀.freeBelow 1024)
    (hlo : p.toNat ≤ 0xC0000000 + f.val * 4096 + 8)
    (hhi : 0xC0000000 + f.val * 4096 + 8 <
      p.toNat + (alignUpSize size MEMORY_DEFAULT_ALIGNMENT).toNat) :
    EachOk HeapCall.exec (fun s c => c.Given s) (lostCalls size f.val) s ∧
      ∃ s', runAll HeapCall.exec (lostCalls size f.val) s = .ret () s' ∧
        ∀ bs, ¬ HeapAt s'.seen bs := by
  have hdis : s.memory.memoryPmmBackendEnabled = false :=
    Bool.eq_false_iff.2 fun hc => h.enabled.1 hc rfl
  -- the payload
  have hkmalloc := Flat.kmalloc_boot hdis h0
  rw [hcall] at hkmalloc
  have hexec1 : HeapCall.exec (.kmalloc size []) s = .ret () { s with memory := mem } := by
    rw [HeapCall.exec, bind_ret (exec_setFaults hfaults), bind_ret hkmalloc]
    rfl
  have h1 : HeapHolds p₀ { s with memory := mem } [] := h.alloc hcall
  -- the backend
  have henable := h1.enableFirst hb hfaults honly (hpmm ▸ hf) (hpmm ▸ hfirst) (hpmm ▸ hcount)
    (hpmm ▸ hbelow)
  obtain ⟨⟨⟩, s2, hx, h2, hback, hranges⟩ := wp_total henable
  have hexec2 : HeapCall.exec (.enable []) { s with memory := mem } = .ret () s2 := by
    rw [HeapCall.exec, bind_ret (exec_setFaults (t := { s with memory := mem }) hfaults), hx]
  -- the write
  have hgiven := h2.given hb hf hlow (hranges ▸ bootstrapAlloc_mem hcall hp) (by decide) hlo hhi 1
  obtain ⟨⟨⟩, s3, hexec3, hlost⟩ := wp_total (h2.overwritten hback hf hlow)
  refine ⟨⟨trivial, fun t ht => ?_⟩, s3, ?_, hlost⟩
  · obtain rfl := (Outcome.ret.inj (hexec1.symm.trans ht)).2
    refine ⟨trivial, fun t ht => ?_⟩
    obtain rfl := (Outcome.ret.inj (hexec2.symm.trans ht)).2
    exact ⟨hgiven, fun _ _ => trivial⟩
  · have hwrite : HeapCall.exec (.write (physToVirt (BitVec.ofNat 32 (f.val * 4096 + 8))) 1) s2 =
        .ret () s3 := hexec3
    rw [lostCalls, runAll_of_ret hexec1, runAll_of_ret hexec2, runAll_of_ret hwrite]
    rfl

end

/-- Behind a kernel that ends at 0xC0110000 and 256 bytes of bitmap, 8 KiB reach over the first
page boundary. -/
theorem bootstrapAlloc_plain {mem : Memory} (hcur : mem.bootstrapHeapCurrent = 0xC0110100)
    (hlimit : mem.bootstrapHeapLimit = 0xC0400000) :
    (bootstrapAllocAligned (alignUpSize 0x2000 MEMORY_DEFAULT_ALIGNMENT) MEMORY_DEFAULT_ALIGNMENT
      mem).1 = 0xC0110100 := by
  unfold bootstrapAllocAligned
  rw [hcur, hlimit, if_neg (by decide)]
  dsimp only
  rw [if_neg (by decide), if_neg (by decide), if_neg (by decide)]
  rfl

theorem plainTable_cursor (vmem : Mem) :
    (boot plainTable smallKernel vmem).memory.bootstrapHeapCurrent = 0xC0110100 ∧
      (boot plainTable smallKernel vmem).memory.bootstrapHeapLimit = 0xC0400000 := by
  have hlimit := boot_limit plainTable smallKernel vmem
  have hbound : bootstrapLimit plainTable smallKernel = 0x400000 := by decide
  refine ⟨(boot_ready plainTable smallKernel vmem (by decide)).current.trans (by decide), ?_⟩
  apply BitVec.eq_of_toNat_eq
  rw [hlimit, hbound]
  rfl

theorem lostCalls_plain : lostCalls 0x2000 273 =
    [.kmalloc 0x2000 [], .enable [], .write 0xC0111008 1] := by
  have haddr : physToVirt (BitVec.ofNat 32 (273 * 4096 + 8)) = 0xC0111008 := by decide
  rw [lostCalls, haddr]

theorem plainTable_lost (vmem phys : Mem) :
    EachOk HeapCall.exec (fun s c => c.Given s) (lostCalls 0x2000 273)
        (Flat.bootState plainTable smallKernel vmem phys) ∧
      ∃ s, runAll HeapCall.exec (lostCalls 0x2000 273)
        (Flat.bootState plainTable smallKernel vmem phys) = .ret () s ∧
          ∀ bs, ¬ HeapAt s.seen bs := by
  have hk : 0xC0100000 ≤ smallKernel.kernelEnd.toNat := by decide
  have hsize : (alignUpSize 0x2000 MEMORY_DEFAULT_ALIGNMENT).toNat = 0x2000 := by decide
  have hp : (0xC0110100 : U32).toNat = 0xC0110100 := rfl
  have hcall := bootstrapAlloc_plain (plainTable_cursor vmem).1 (plainTable_cursor vmem).2
  have hfree := plainTable_free vmem
  exact (heapHolds_boot plainTable smallKernel vmem phys hk).lost_run (f := ⟨273, by decide⟩)
    (safeBitmap_boot plainTable smallKernel vmem hk) rfl (onlyWindow_bootMachine hk)
    (bootMachine_resident plainTable smallKernel vmem phys hk).2.pmm (by decide) (by decide)
    (Prod.ext hcall rfl) ((hfree 273).2 (by decide))
    (fun g hg hc => absurd ((hfree g).1 hc).1 (Nat.not_le.2 hg)) (by decide)
    (plainTable_low vmem).1 (plainTable_low vmem).2 (by rw [hp]; decide)
    (by rw [hp, hsize]; decide)

/-- **The list lost.**  On a machine with memory from 1 to 8 MiB, 8 KiB are asked for, the backend
is enabled, and the caller writes a byte of its payload: no list starts at `heap_head` any
more. -/
theorem heap_shape_lost :
    EachOk HeapCall.exec (fun s c => c.Given s)
        [.kmalloc 0x2000 [], .enable [], .write 0xC0111008 1]
        (Flat.bootState plainTable smallKernel (fun _ => 0) fun _ => 0) ∧
      ∃ s, runAll HeapCall.exec [.kmalloc 0x2000 [], .enable [], .write 0xC0111008 1]
        (Flat.bootState plainTable smallKernel (fun _ => 0) fun _ => 0) = .ret () s ∧
          ∀ bs, ¬ HeapAt s.seen bs :=
  lostCalls_plain ▸ plainTable_lost (fun _ => 0) fun _ => 0

end Frewozet
