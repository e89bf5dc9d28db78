import Frewozet.Paging.AllocPage
import Frewozet.System.Runs
import Mathlib.Order.Interval.Finset.Nat

/-!
# What a run of the kernel can rely on

The first call, on the tables the loader built, and what holds along every run whose
calls may be made.

* `enable_boot` — how `memory_enable_pmm_backend` ends when `kmain` makes it, in
  terms of the frames that are free; `enable_boot_faults` — and when the first table
  is out of reach.
* `Sheltered`, `Op.Clear` — the calls write to memory that is used for nothing else.
* `Op.keeps_usedByte` — blocks that are used stay used, whatever is called.
* `tableAccesses_good` — every access to a page table reaches that table.
* `HeapPageOk`, `heap_backed` — every page of the heap has a frame of its own.
-/

namespace Frewozet

open Word Exec TwoLevel

/-! ## The first call -/

/-- The heap starts where a table starts. -/
theorem slotOf_heapStart {j : Nat} (hj : j < 1024) : slotOf (pageAddr (0xC1000 + j)) = 772 := by
  apply Fin.ext
  change (pageAddr (0xC1000 + j)).toNat / 0x400000 = 772
  rw [pageAddr_toNat (by omega)]
  omega

section

variable {m : Machine} {n : Nat}

theorem OnlyWindow.absentSlots (h : OnlyWindow m) (hpos : 0 < n) (hn : n ≤ 1024) :
    m.absentSlots 0xC1000 n = {772} := by
  ext s
  rw [mem_absentSlots, Finset.mem_singleton]
  constructor
  · rintro ⟨⟨j, hj, hs⟩, -⟩
    rw [← hs, slotOf_heapStart (by omega)]
  · rintro rfl
    exact ⟨⟨0, hpos, slotOf_heapStart (by omega)⟩, h _ (by decide)⟩

/-- The first region takes a frame for each page and one for the table. -/
theorem OnlyWindow.framesNeeded (h : OnlyWindow m) (hpos : 0 < n) (hn : n ≤ 1024) :
    m.framesNeeded 0xC1000 n = n + 1 := by
  rw [Machine.framesNeeded, h.absentSlots hpos hn, Finset.card_singleton]

theorem OnlyWindow.not_hasTable (h : OnlyWindow m) : ¬ m.HasTable 0xC1000 := by
  unfold Machine.HasTable
  rw [slotOf_heapStart (j := 0) (by decide), not_not]
  exact h _ (by decide)

theorem OnlyWindow.tablesLow (h : OnlyWindow m) (hn : n ≤ 1024)
    (hlow : m.pmm.freeCount ≤ 1 ∨ 2 ≤ m.pmm.freeBelow 1024) : m.TablesLow 0xC1000 n := by
  intro i hi _ hnew
  cases i with
  | zero =>
    rw [framesNeeded_zero]
    exact hlow
  | succ i =>
    -- the table is made for the first page
    rw [h.absentSlots (by omega) (by omega), slotOf_heapStart (by omega)] at hnew
    exact absurd (Finset.mem_singleton_self _) hnew

end

section

variable (info : E820Info) (k : KernelImage) (vmem phys : Mem)

theorem onlyWindow_boot : OnlyWindow (bootSystem info k vmem phys).machine := by
  intro s hs
  rw [bootSystem_tables]
  cases ht : entryTarget ((kernelMachine phys).tables dirFrame s) with
  | none => rfl
  | some t => exact absurd ((kernelMachine_target phys s t).1 ht).1 hs

/-- The heap as `memory_init` leaves it. -/
theorem boot_heap : HeapAt (bootSystem info k vmem phys).memory [] ∧
    (bootSystem info k vmem phys).memory.memoryPmmBackendEnabled = false ∧
    (bootSystem info k vmem phys).memory.heapVirtualCurrent = pageAddr 0xC1000 ∧
    RoomFor (bootSystem info k vmem phys).memory 1 := by
  have hheap : HeapOk (bootSystem info k vmem phys).memory [] := heapOk_boot info k vmem
  have hcurrent : 0xC1000000 = (bootSystem info k vmem phys).memory.heapVirtualCurrent.toNat :=
    hheap.heap.tiles
  have hpages : (growPages 1).toNat = 4 := by decide
  refine ⟨hheap.heap, ?_, ?_, ?_⟩
  · rw [Bool.eq_false_iff]
    exact fun he => absurd rfl (hheap.enabled.1 he)
  · apply BitVec.eq_of_toNat_eq
    rw [← hcurrent]
    rfl
  · unfold RoomFor
    omega

/-- How the first call ends: with the region of four pages, or without. -/
structure FirstEnable (t t' : System) : Prop where
  grown : Grown t.machine 0xC1000 4 t'.memory.memoryPmmBackendEnabled t'.machine
  enough : t'.memory.memoryPmmBackendEnabled = true ↔ 5 ≤ t.machine.pmm.freeCount
  list : t'.memory.memoryPmmBackendEnabled = true → HeapAt t'.memory [⟨0xC1000000, 0x3FF4, true⟩]
  current : t'.memory.bootstrapHeapCurrent = t.memory.bootstrapHeapCurrent
  limit : t'.memory.bootstrapHeapLimit = t.memory.bootstrapHeapLimit
  ranges : t'.memory.bootRanges = t.memory.bootRanges

theorem ok_enable_boot (own : Prop) (hlow : (boot info k vmem).pmm.freeCount ≤ 1 ∨
    2 ≤ (boot info k vmem).pmm.freeBelow 1024) :
    Op.enable.Ok own (bootSystem info k vmem phys) := by
  obtain ⟨-, -, hcurrent, -⟩ := boot_heap info k vmem phys
  intro _ _
  have htop : (bootSystem info k vmem phys).memory.top = 0xC1000 := by
    rw [Memory.top, hcurrent]
    rfl
  rw [GrowthLow, htop]
  exact (onlyWindow_boot info k vmem phys).tablesLow (by decide) hlow

/-- The first call is one run of the loop over four pages, and what is recorded of it. -/
theorem wp_enable_boot {Q : Bool → Machine → Prop} {S : Stop → Machine → Prop}
    (hgrow : wp (heapGrowPages kernelBacking (pageAddr 0xC1000) 4) Q S
      (bootSystem info k vmem phys).machine) :
    wp Op.enable.exec
      (fun _ t => Q t.memory.memoryPmmBackendEnabled t.machine ∧
        (t.memory.memoryPmmBackendEnabled = true → HeapAt t.memory [⟨0xC1000000, 0x3FF4, true⟩]) ∧
        t.memory.bootstrapHeapCurrent =
          (bootSystem info k vmem phys).memory.bootstrapHeapCurrent ∧
        t.memory.bootstrapHeapLimit = (bootSystem info k vmem phys).memory.bootstrapHeapLimit ∧
        t.memory.bootRanges = (bootSystem info k vmem phys).memory.bootRanges)
      (fun w t => S w t.machine) (bootSystem info k vmem phys) := by
  obtain ⟨hheap, hdis, hcurrent, hroom⟩ := boot_heap info k vmem phys
  have hpages : (growPages 1).toNat = 4 := by decide
  rw [Op.exec, onHeap, wp_zoom]
  refine wp_mono (memoryEnablePmmBackend_spec (B := kernelBacking) hheap) ?_ ?_
  · rintro _ ⟨mem', m'⟩ hen
    cases hen with
    | already he => rw [hdis] at he; cases he
    | failed m₁ _ hg hmem =>
      cases hg with
      | refused hno => exact absurd hroom hno
      | grown _ _ _ _ hres => cases hres
      | exhausted _ hp _ hm₁ =>
        rw [hcurrent, hpages] at hp
        dsimp only at hmem
        subst hmem hm₁
        have hfalse : ((bootSystem info k vmem phys).memory.logStartupError
            "Failed to enable PMM-backed heap. Keeping bootstrap heap.").memoryPmmBackendEnabled =
              false := hdis
        dsimp only
        rw [hfalse]
        exact ⟨wp_ret hgrow hp, fun hc => (Bool.false_ne_true hc).elim, rfl, rfl, rfl⟩
    | done m₁ _ hg hmem =>
      obtain ⟨hsame, -, hh⟩ := hg.heap hheap
      have hregion : regionBlock (bootSystem info k vmem phys).memory 1 =
          ⟨0xC1000000, 0x3FF4, true⟩ := by
        rw [regionBlock, hpages, hcurrent]
        rfl
      have hlist := hh rfl
      rw [hregion, List.nil_append] at hlist
      cases hg with
      | refused _ hres => cases hres
      | exhausted _ _ hres => cases hres
      | grown _ _ _ hp =>
        rw [hcurrent, hpages] at hp
        dsimp only at hmem
        subst hmem
        exact ⟨wp_ret hgrow hp, fun _ =>
          ⟨hlist.head, hlist.chain, hlist.tiles, hlist.limit, hlist.committed⟩, hsame.current,
          hsame.limit, hsame.ranges⟩
  · rintro w ⟨mem', m'⟩ ⟨-, -, hp, -⟩
    rw [hcurrent, hpages] at hp
    exact wp_stops hgrow hp

/-- **The first call**, with its table in reach. -/
theorem enable_boot (hlow : (boot info k vmem).pmm.freeCount ≤ 1 ∨
    2 ≤ (boot info k vmem).pmm.freeBelow 1024) :
    wp Op.enable.exec (fun _ => FirstEnable (bootSystem info k vmem phys)) (fun _ _ => False)
      (bootSystem info k vmem phys) := by
  have honly := onlyWindow_boot info k vmem phys
  have hgrow := heapGrowPages_spec 4 0xC1000 _ (machineOk_boot info k vmem phys) (by decide)
    (by decide) (honly.tablesLow (by decide) hlow)
  have hneeded := honly.framesNeeded (n := 4) (by decide) (by decide)
  refine wp_mono (wp_enable_boot info k vmem phys hgrow) ?_ fun _ _ => id
  rintro _ t ⟨⟨hgrown, -⟩, hlist, hcurrent, hlimit, hranges⟩
  have henough := hgrown.enough
  rw [hneeded] at henough
  exact ⟨hgrown, henough, hlist, hcurrent, hlimit, hranges⟩

theorem enable_returns (hlow : (boot info k vmem).pmm.freeCount ≤ 1 ∨
    2 ≤ (boot info k vmem).pmm.freeBelow 1024) :
    ∃ t, Op.enable.exec (bootSystem info k vmem phys) = .ret () t ∧
      FirstEnable (bootSystem info k vmem phys) t := by
  obtain ⟨⟨⟩, t, hx, hfirst⟩ := wp_total (enable_boot info k vmem phys hlow)
  exact ⟨t, hx, hfirst⟩

/-- The first region is used up, and its table serves the next one as well. -/
theorem FirstEnable.after {t : System} (h : FirstEnable (bootSystem info k vmem phys) t)
    (he : t.memory.memoryPmmBackendEnabled = true) :
    t.memory.heapVirtualCurrent = pageAddr 0xC1004 ∧
      (∀ j < 1024, t.machine.HasTable (0xC1000 + j)) ∧
      (boot info k vmem).pmm.freeCount = t.machine.pmm.freeCount + 5 := by
  have hneeded := (onlyWindow_boot info k vmem phys).framesNeeded (n := 4) (by decide) (by decide)
  have htiles : 0xC1004000 = t.memory.heapVirtualCurrent.toNat :=
    (h.list he).tiles.2.2
  refine ⟨BitVec.eq_of_toNat_eq htiles.symm, fun j hj hnone => ?_, ?_⟩
  · obtain ⟨f, hbacks, -⟩ := h.grown.backed he 0xC1000 (le_refl _) (by decide)
    rw [slotOf_heapStart hj, ← slotOf_heapStart (j := 0) (by decide)] at hnone
    have hleaf := hbacks.leaf
    rw [leafOf, leaf_of_none hnone] at hleaf
    cases hleaf
  · have hcount := h.grown.count he
    rwa [hneeded] at hcount

/-- **The first call, with its table out of reach**: it stops the kernel, on an access
to a table that did not reach it. -/
theorem enable_boot_faults (hsome : 2 ≤ (boot info k vmem).pmm.freeCount)
    (hhigh : (boot info k vmem).pmm.freeBelow 1024 ≤ 1) :
    wp Op.enable.exec (fun _ _ => False) (fun w t => w = .fault ∧ ¬ t.machine.AllGood)
      (bootSystem info k vmem phys) := by
  have hgrow := heapGrowPages_faults (machineOk_boot info k vmem phys)
    (onlyWindow_boot info k vmem phys) (le_refl _) (by decide) hsome hhigh 3
  exact wp_mono (wp_enable_boot info k vmem phys hgrow) (fun _ _ h => h.1) fun _ _ => id

end

/-! ## Access to page tables -/

/-- A frame below 4 MiB is translated back to itself. -/
theorem Windowed.translate {m : Mem} (h : Windowed (tables m)) {f : Frame} (hf : f.val < 1024) :
    pagingTranslate m (physToVirt (frameAddr f.val)) = some (frameAddr f.val) := by
  have haddr := frameAddr_frame f
  rw [pagingTranslate_eq h, h.reach (by omega), Option.getD_some]

/-- A byte of the direct map past 1 MiB, behind the kernel and outside the bitmap, in a frame the
allocator was not given: the bootstrap heap hands it out, and nobody else. -/
def Sheltered (k : KernelImage) (p₀ : Pmm) (a : U32) : Prop :=
  0xC0100000 ≤ a.toNat ∧ a.toNat < 0xC0400000 ∧ k.kernelEnd.toNat ≤ a.toNat ∧ ¬ BitmapByte p₀ a ∧
    ¬ p₀.Free (frameOf (virtToPhys a)).val

/-- A byte in the payload of a used block. -/
def UsedByte (m : Memory) (a : U32) : Prop :=
  ∃ bs b, HeapAt m bs ∧ b ∈ bs ∧ b.free = false ∧ b.addr + 12 ≤ a.toNat ∧ a.toNat < b.stop

/-- A byte a caller was given, with nothing else in the frame behind it: the bootstrap heap
has handed it out of sheltered memory, or it is in the payload of a used block. -/
def OwnByte (k : KernelImage) (p₀ : Pmm) (m : Memory) (a : U32) : Prop :=
  (Sheltered k p₀ a ∧ a.toNat < m.bootstrapHeapCurrent.toNat) ∨ UsedByte m a

/-- **The call writes where nothing else is kept.**  Callers write to bytes of their own,
`kcalloc` does not zero what the bootstrap heap hands out, and `paging_alloc_page` zeroes a
whole page or finds no frame for it. -/
def Op.Clear (k : KernelImage) (p₀ : Pmm) (t : System) : Op → Prop
  | request (.kcalloc _ _) => t.memory.memoryPmmBackendEnabled = true
  | allocMapped virtAddr _ => virtAddr.toNat % 4096 = 0 ∨ ShortOfFrames t.machine virtAddr
  | write vmem => ∀ a, vmem a ≠ t.memory.vmem a → OwnByte k p₀ t.memory a
  | _ => True

/-- An address of the direct map past 1 MiB. -/
theorem MachineOk.direct {p₀ : Pmm} {m : Machine} (hm : MachineOk p₀ m) {a : U32}
    (hlo : 0xC0100000 ≤ a.toNat) (hhi : a.toNat < 0xC0400000) :
    walkOf m.tables a = some (frameOf (virtToPhys a)) ∧ 256 ≤ (frameOf (virtToPhys a)).val := by
  have hslot : slotOf a = windowSlot := by
    apply Fin.ext
    change a.toNat / 0x400000 = 768
    omega
  have hphys := virtToPhys_toNat (a := a) (by omega)
  have hval : (frameOf (virtToPhys a)).val = (virtToPhys a).toNat / 4096 := rfl
  obtain ⟨g, hg, hindex⟩ := hm.windowed.walk hslot
  have hi : (indexOf a).val = a.toNat / 4096 % 1024 := rfl
  refine ⟨hg.trans (congrArg some (Fin.ext ?_)), ?_⟩ <;> omega

/-- The allocator has handed the frame out since the start. -/
def Machine.HandedOut (p₀ : Pmm) (m : Machine) (f : Frame) : Prop :=
  p₀.Free f.val ∧ ¬ m.pmm.Free f.val

/-- Where it has not, there is no table. -/
theorem MachineOk.noTable {p₀ : Pmm} {m : Machine} (hm : MachineOk p₀ m) {f : Frame}
    (hf : 256 ≤ f.val) (hout : ¬ m.HandedOut p₀ f) :
    f ≠ dirFrame ∧ ¬ IsTable entryTarget dirFrame m.tables f := by
  refine ⟨?_, fun hc => hout (hm.owned f hc ?_)⟩ <;> rintro rfl <;> exact absurd hf (by decide)

/-- Sheltered memory holds no table. -/
theorem Sheltered.noTable {k : KernelImage} {p₀ : Pmm} {m : Machine} {a : U32}
    (h : Sheltered k p₀ a) (hm : MachineOk p₀ m) {f : Frame} (hf : walkOf m.tables a = some f) :
    f ≠ dirFrame ∧ ¬ IsTable entryTarget dirFrame m.tables f := by
  obtain ⟨hlo, hhi, -, -, hfree⟩ := h
  obtain ⟨hwalk, hhigh⟩ := hm.direct hlo hhi
  obtain rfl := Option.some.inj (hwalk.symm.trans hf)
  exact hm.noTable hhigh fun hc => hfree hc.1

/-- Nor does the heap: each of its pages has a frame that was free before. -/
theorem SystemOk.heap_noTable {p₀ : Pmm} {t : System} {a : U32} (h : SystemOk p₀ True t)
    (hlo : KERNEL_HEAP_START ≤ a) (hhi : a < t.memory.heapVirtualCurrent) {f : Frame}
    (hf : walkOf t.machine.tables a = some f) :
    f ≠ dirFrame ∧ ¬ IsTable entryTarget dirFrame t.machine.tables f := by
  have haligned := h.standing.aligned
  have htop : t.memory.top = t.memory.heapVirtualCurrent.toNat / 4096 := rfl
  have hlt := a.isLt
  rw [BitVec.le_def, show KERNEL_HEAP_START.toNat = 0xC1000000 from rfl] at hlo
  rw [BitVec.lt_def] at hhi
  obtain ⟨g, hback, hfree⟩ :=
    h.standing.ground.backed trivial (a.toNat / 4096) (by omega) (by omega)
  have hpage : (pageAddr (a.toNat / 4096)).toNat / 4096 = a.toNat / 4096 := by
    rw [pageAddr_toNat (by omega)]
    omega
  rw [← walkOf_of_page hpage, hback.walk] at hf
  obtain rfl := Option.some.inj hf
  refine ⟨fun hc => ?_, hback.noTable⟩
  have hhigh := h.standing.ground.machine.high _ hfree
  rw [hc] at hhigh
  exact absurd hhigh (by decide)

theorem UsedByte.advance {m m' : Memory} {bs bs' : List Block} {a : U32} (h : UsedByte m a)
    (hheap : HeapAt m bs) (hheap' : HeapAt m' bs') (hkept : KeepsUsed bs bs') : UsedByte m' a := by
  obtain ⟨cs, b, hcs, hb, hused, hin⟩ := h
  rw [hcs.unique hheap] at hb
  exact ⟨bs', b, hheap', hkept b hb hused, hused, hin⟩

/-- **No call takes a byte away** from a block that is used. -/
theorem Op.keeps_usedByte {p₀ : Pmm} {own : Prop} {t : System} (h : SystemOk p₀ own t) (op : Op)
    (hok : op.Ok own t) :
    wp op.exec (fun _ u => ∀ a, UsedByte t.memory a → UsedByte u.memory a) (fun _ _ => True) t := by
  obtain ⟨bs, hheap⟩ := h.heap
  have hadv : ∀ {mem : Memory}, Advances bs mem → ∀ a, UsedByte t.memory a → UsedByte mem a := by
    rintro mem ⟨bs', hok', hkept⟩ a ha
    exact ha.advance hheap.heap hok'.heap hkept
  have hmachine : ∀ {α : Type} (x : Exec Machine α), wp (onMachine x)
      (fun _ u => u.memory = t.memory) (fun _ _ => True) t := fun x => by
    rw [onMachine, wp_zoom]
    exact wp_mono wp_trivial (fun _ _ _ => rfl) fun _ _ _ => trivial
  have hclient : ∀ n call, wp (clientAlloc n call) (fun _ u => u.memory = t.memory)
      (fun _ _ => True) t := fun n call => wp_clientAlloc.2 rfl
  have hsame : ∀ {x : Exec System Unit}, wp x (fun _ u => u.memory = t.memory) (fun _ _ => True) t →
      wp x (fun _ u => ∀ a, UsedByte t.memory a → UsedByte u.memory a) (fun _ _ => True) t :=
    fun hx => wp_mono hx (fun _ u hu a ha => by rwa [hu]) fun _ _ _ => trivial
  cases op with
  | enable =>
    rw [Op.exec, onHeap, wp_zoom]
    exact wp_mono (hheap.enable (B := kernelBacking)) (fun _ _ hu => hadv hu) fun _ _ _ => trivial
  | request r =>
    rw [Op.exec, wp_bind, onHeap, wp_zoom]
    exact wp_mono (hheap.call_advances (B := kernelBacking) r hok.1 hok.2.1)
      (fun _ _ hu => hadv hu) fun _ _ _ => trivial
  | allocPage => exact hsame (hclient _ _)
  | allocPageBelow => exact hsame (hclient _ _)
  | allocContiguous => exact hsame (hclient _ _)
  | freeContiguous => exact hsame rfl
  | mapPage =>
    rw [Op.exec, wp_bind]
    exact wp_mono (hmachine _) (fun _ u hu a ha => by rwa [hu]) fun _ _ _ => trivial
  | unmapPage => exact hsame (hmachine _)
  | allocMapped =>
    rw [Op.exec, wp_bind]
    exact wp_mono (hmachine _) (fun _ u hu a ha => by rwa [hu]) fun _ _ _ => trivial
  | write vmem => exact hadv ⟨bs, hheap.callerWrites ⟨vmem, rfl, hok⟩, fun _ hc _ => hc⟩

/-- **Every access to a page table reaches that table**, in every run in which new tables
are in reach when they are needed, only `heap_grow` maps pages of the heap, nobody redirects
the direct map, and all that is written is written where nothing else is kept; all tables
there are translate back to themselves, and no byte of the heap or of sheltered memory lies
in one. -/
theorem tableAccesses_good {info : E820Info} {k : KernelImage} {vmem phys : Mem} {ops : List Op}
    (hok : EachOk Op.exec (fun t op => op.Ok True t ∧ op.Clear k (boot info k vmem).pmm t) ops
      (bootSystem info k vmem phys)) :
    let t := (runAll Op.exec ops (bootSystem info k vmem phys)).state
    t.machine.AllGood ∧
      (∀ f : Frame, f = dirFrame ∨ IsTable entryTarget dirFrame t.machine.tables f →
        pagingTranslate t.machine.phys (physToVirt (frameAddr f.val)) = some (frameAddr f.val)) ∧
      ∀ a : U32, KERNEL_HEAP_START ≤ a ∧ a < t.memory.heapVirtualCurrent ∨
          Sheltered k (boot info k vmem).pmm a → ∀ f, walkOf t.machine.tables a = some f →
        f ≠ dirFrame ∧ ¬ IsTable entryTarget dirFrame t.machine.tables f := by
  have hend := systemOk_run (systemOk_boot info k vmem phys True) ops
    (hok.imp fun _ _ h => h.1)
  generalize (runAll Op.exec ops (bootSystem info k vmem phys)).state = t at hend
  have hm := hend.standing.ground.machine
  have hw := hm.windowed
  refine ⟨hend.standing.good, fun f hf => hw.translate ?_, fun a ha f hf => ?_⟩
  · rcases hf with rfl | hf
    · exact dirFrame_low
    · exact hw.low f hf
  · rcases ha with ⟨hlo, hhi⟩ | ha
    · exact hend.heap_noTable hlo hhi hf
    · exact ha.noTable hm hf

/-- A table with one entry, and a bitmap of one page behind the kernel: the frames of the
entry are free from there on. -/
theorem smallKernel_free {info : E820Info} {base length : U64}
    (hone : info.entries = [⟨base, length, 1, 1⟩]) (hfits : BitmapFits info smallKernel)
    (hpage : (bitmapStart smallKernel + bitmapSize info + 4095) / 4096 = 273)
    (vmem : Mem) (f : Nat) :
    (boot info smallKernel vmem).pmm.Free f ↔ 273 ≤ f ∧ FreedBy ⟨base, length, 1, 1⟩ f := by
  have hkernel : kernelEndFrame smallKernel = 272 := by decide
  rw [boot_free_iff, BitmapPage, hkernel, hpage, hone]
  simp only [List.mem_singleton, exists_eq_left]
  constructor
  · rintro ⟨-, hfreed, -, h1, h2⟩
    exact ⟨by omega, hfreed⟩
  · rintro ⟨h, hfreed⟩
    exact ⟨hfits, hfreed, by omega, by omega, by omega⟩

theorem plainTable_free (vmem : Mem) (f : Nat) :
    (boot plainTable smallKernel vmem).pmm.Free f ↔ 273 ≤ f ∧ f < 2048 := by
  have hend : (⟨0x100000, 0x700000, 1, 1⟩ : E820Entry).end64.toNat = 0x800000 := by decide
  have hbase : (⟨0x100000, 0x700000, 1, 1⟩ : E820Entry).base.toNat = 0x100000 := by decide
  rw [smallKernel_free rfl (by decide) (by decide), freedBy_iff, hend, hbase]
  simp only [true_and]
  omega

/-- Memory to spare below 4 MiB. -/
theorem plainTable_low (vmem : Mem) : 5 ≤ (boot plainTable smallKernel vmem).pmm.freeCount ∧
    2 ≤ (boot plainTable smallKernel vmem).pmm.freeBelow 1024 := by
  have hfive := Pmm.card_le_freeBelow (p := (boot plainTable smallKernel vmem).pmm) (n := 1024)
    (Finset.Ico 512 517) fun f hf => by
      obtain ⟨h1, h2⟩ := Finset.mem_Ico.1 hf
      exact ⟨by omega, (plainTable_free vmem f).2 ⟨by omega, by omega⟩⟩
  rw [Nat.card_Ico] at hfive
  exact ⟨hfive.trans (Pmm.freeBelow_mono _ (by decide)), by omega⟩

theorem eachOk_enable_plain (vmem phys : Mem) :
    EachOk Op.exec
      (fun t op => op.Ok True t ∧ op.Clear smallKernel (boot plainTable smallKernel vmem).pmm t)
      [.enable] (bootSystem plainTable smallKernel vmem phys) :=
  ⟨⟨ok_enable_boot plainTable smallKernel vmem phys True (.inr (plainTable_low vmem).2), trivial⟩,
    fun _ _ => trivial⟩

/-- The backend is enabled on a machine with memory from 1 to 8 MiB. -/
theorem tableAccesses_good_plain :
    (runAll Op.exec [.enable]
      (bootSystem plainTable smallKernel (fun _ => 0) fun _ => 0)).state.machine.AllGood :=
  (tableAccesses_good (eachOk_enable_plain (fun _ => 0) fun _ => 0)).1

/-- A kernel that ends 128 KiB past 1 MiB. -/
def midKernel : KernelImage where
  kernelEnd := 0xC0120000
  above := by decide
  below := by decide

/-- A machine whose memory below 4 MiB is gone once that kernel and the bitmap are in
it. -/
def highTable : E820Info where
  signature := E820_SIG
  entries := [⟨0x100000, 0x21000, 1, 1⟩, ⟨0x400000, 0x400000, 1, 1⟩]

theorem highTable_free {vmem : Mem} {f : Nat} (h : (boot highTable midKernel vmem).pmm.Free f) :
    1024 ≤ f := by
  obtain ⟨-, ⟨e, he, hfreed⟩, -, hkernel, hbitmap⟩ := (boot_free_iff highTable midKernel vmem f).1 h
  obtain ⟨-, -, -, hend, hbase⟩ := (freedBy_iff e f).1 hfreed
  have hkernelEnd : kernelEndFrame midKernel = 288 := by decide
  have hpage : (bitmapStart midKernel + bitmapSize highTable + 4095) / 4096 = 289 := by decide
  unfold BitmapPage at hbitmap
  rw [hkernelEnd] at hkernel hbitmap
  rw [hpage] at hbitmap
  rcases List.mem_pair.1 he with rfl | rfl
  · have hend64 : (⟨0x100000, 0x21000, 1, 1⟩ : E820Entry).end64.toNat = 0x121000 := by decide
    omega
  · have hbase64 : (⟨0x400000, 0x400000, 1, 1⟩ : E820Entry).base.toNat = 0x400000 := by decide
    omega

theorem highTable_counts (vmem : Mem) : 2 ≤ (boot highTable midKernel vmem).pmm.freeCount ∧
    (boot highTable midKernel vmem).pmm.freeBelow 1024 = 0 := by
  have hfree : ∀ f ∈ ({1024, 1025} : Finset Nat), f < 1026 ∧
      (boot highTable midKernel vmem).pmm.Free f := by
    intro f hf
    rw [boot_free_iff]
    rcases Finset.mem_insert.1 hf with rfl | hf
    · exact ⟨by decide, by decide, ⟨_, List.mem_cons_of_mem _ List.mem_cons_self, by decide⟩,
        by decide, by decide, by decide⟩
    · rw [Finset.mem_singleton.1 hf]
      exact ⟨by decide, by decide, ⟨_, List.mem_cons_of_mem _ List.mem_cons_self, by decide⟩,
        by decide, by decide, by decide⟩
  have htwo := Pmm.card_le_freeBelow _ hfree
  rw [Finset.card_pair (by decide)] at htwo
  refine ⟨htwo.trans (Pmm.freeBelow_mono _ (by decide)),
    Pmm.freeBelow_eq_zero.2 fun f hf hfree => ?_⟩
  have := highTable_free hfree
  omega

/-- Enabling the backend fails there, whatever is in memory. -/
theorem highTable_enable (vmem phys : Mem) :
    ¬ (runAll Op.exec [.enable]
      (bootSystem highTable midKernel vmem phys)).state.machine.AllGood := by
  obtain ⟨hcount, hlow⟩ := highTable_counts vmem
  have hfault := enable_boot_faults highTable midKernel vmem phys hcount
    (by rw [hlow]; exact Nat.zero_le 1)
  rw [runAll_cons]
  refine (wp_state (P := fun t : System => ¬ t.machine.AllGood)).1 ?_
  rw [wp_bind]
  exact wp_mono hfault (fun _ _ hc => hc.elim) fun _ _ hc => hc.2

/-- On that machine the first call of all writes to a table where nothing is mapped. -/
theorem highTable_access_lost :
    ¬ (runAll Op.exec [.enable]
      (bootSystem highTable midKernel (fun _ => 0) fun _ => 0)).state.machine.AllGood :=
  highTable_enable _ _

/-! ## The pages of the heap -/

/-- What holds of the page an address of the heap lies in, `f` being the frame behind
it. -/
structure HeapPageOk (k : KernelImage) (t : System) (a : U32) (f : Frame) : Prop where
  /-- The entry of the directory is present and writable. -/
  table : ∃ tf, entryTarget (t.machine.tables dirFrame (slotOf a)) = some tf ∧
    t.machine.tables dirFrame (slotOf a) &&& PAGE_WRITABLE ≠ 0
  /-- So is the entry of the table. -/
  page : ∃ e, leafOf t.machine.tables a = some e ∧ e &&& PAGE_PRESENT ≠ 0 ∧ e &&& PAGE_WRITABLE ≠ 0
  translate : pagingTranslate t.machine.phys a = some (inFrame f a)
  marked : pmmTestBit t.machine.pmm.words f.val
  noTable : f ≠ dirFrame ∧ ¬ IsTable entryTarget dirFrame t.machine.tables f
  outside : OutsideKernel k t.machine.pmm f.val

theorem MachineOk.marked {p₀ : Pmm} {m : Machine} (h : MachineOk p₀ m) {f : Nat} (hf : p₀.Free f)
    (htaken : ¬ m.pmm.Free f) : pmmTestBit m.pmm.words f := by
  by_contra hbit
  exact htaken ⟨by rw [h.table.bitmap]; exact hf.1, by rw [h.table.total]; exact hf.lt, hbit⟩

/-- A page with a frame behind it is in order. -/
theorem Backs.heapPageOk {info : E820Info} {k : KernelImage} {vmem : Mem} {t : System} {a : U32}
    {f : Frame} (h : Backs t.machine (a.toNat / 4096) f)
    (hm : MachineOk (boot info k vmem).pmm t.machine) (hf : (boot info k vmem).pmm.Free f.val) :
    HeapPageOk k t a f := by
  have ha := a.isLt
  obtain ⟨-, -, hout⟩ := (boot_free_iff_outsideKernel info k vmem f.val).1 hf
  have hpage : SamePage a (pageAddr (a.toNat / 4096)) := (samePage_pageAddr (by omega) a).2 rfl
  obtain ⟨hslot, hindex⟩ := samePage_iff.1 hpage
  have hleaf : leafOf t.machine.tables a = some (pteOf (frameAddr f.val) PAGE_WRITABLE) := by
    rw [leafOf, hslot, hindex]
    exact h.leaf
  have hwalk : walkOf t.machine.tables a = some f := by
    rw [walkOf, hslot, hindex]
    exact h.walk
  obtain ⟨tf, htf, -⟩ := Option.map_eq_some_iff.1 hleaf
  refine ⟨⟨tf, htf, hm.writable _ _ htf⟩, ⟨_, hleaf, fun hc => ?_, ?_⟩, ?_, hm.marked hf h.taken,
    ⟨?_, h.noTable⟩, ?_⟩
  · have hnone := entryTarget_eq_none.2 hc
    rw [entryTarget_pteOf] at hnone
    cases hnone
  · exact writable_or _ _ (by decide)
  · rw [pagingTranslate_eq hm.windowed, mmu_eq, hwalk]
    rfl
  · rintro rfl
    exact absurd hout.1 (by decide)
  · obtain ⟨h1, h2, h3⟩ := hout
    exact ⟨h1, h2, by rwa [bitmapFrame_congr hm.table]⟩

theorem inFrame_inj {f g : Frame} {a : U32} (h : inFrame f a = inFrame g a) : f = g := by
  have hval := congrArg BitVec.toNat h
  rw [inFrame_toNat, inFrame_toNat] at hval
  exact Fin.ext (by omega)

/-- The frame behind a page is the one it is translated to. -/
theorem HeapPageOk.walk {p₀ : Pmm} {k : KernelImage} {t : System} {a : U32} {f : Frame}
    (h : HeapPageOk k t a f) (hm : MachineOk p₀ t.machine)
    (hback : ∃ g : Frame, Backs t.machine (a.toNat / 4096) g ∧ p₀.Free g.val) :
    walkOf t.machine.tables (pageAddr (a.toNat / 4096)) = some f := by
  obtain ⟨g, hg, -⟩ := hback
  have ha := a.isLt
  obtain ⟨hslot, hindex⟩ := samePage_iff.1 ((samePage_pageAddr (by omega) a).2 rfl)
  have hwalk := hg.walk
  rw [walkOf, ← hslot, ← hindex] at hwalk
  have htrans := h.translate
  rw [pagingTranslate_eq hm.windowed, mmu_eq, walkOf, hwalk] at htrans
  rw [walkOf, ← hslot, ← hindex, hwalk, inFrame_inj (Option.some.inj htrans)]

/-- **Every page of the heap has a frame of its own**, in every run in which new tables are
in reach and nobody but `heap_grow` maps pages of the heap, whatever `heap_grow` ran out
of in between. -/
theorem heap_backed {info : E820Info} {k : KernelImage} {vmem phys : Mem} {ops : List Op}
    (hok : EachOk Op.exec (fun t op => op.Ok True t) ops (bootSystem info k vmem phys)) :
    let t := (runAll Op.exec ops (bootSystem info k vmem phys)).state
    (∀ a : U32, KERNEL_HEAP_START ≤ a → a < t.memory.heapVirtualCurrent →
      ∃ f, HeapPageOk k t a f) ∧
    ∀ a b : U32, KERNEL_HEAP_START ≤ a → a < t.memory.heapVirtualCurrent → KERNEL_HEAP_START ≤ b →
      b < t.memory.heapVirtualCurrent → ¬ SamePage a b →
        ∀ f g, HeapPageOk k t a f → HeapPageOk k t b g → f ≠ g := by
  have hend := systemOk_run (systemOk_boot info k vmem phys True) ops hok
  generalize (runAll Op.exec ops (bootSystem info k vmem phys)).state = t at hend
  dsimp only
  have hground := hend.standing.ground
  have haligned := hend.standing.aligned
  have hbounds : ∀ a : U32, KERNEL_HEAP_START ≤ a → a < t.memory.heapVirtualCurrent →
      0xC1000 ≤ a.toNat / 4096 ∧ a.toNat / 4096 < t.memory.top := by
    intro a h1 h2
    rw [BitVec.le_def, show KERNEL_HEAP_START.toNat = 0xC1000000 from rfl] at h1
    rw [BitVec.lt_def] at h2
    have htop : t.memory.top = t.memory.heapVirtualCurrent.toNat / 4096 := rfl
    omega
  constructor
  · intro a h1 h2
    obtain ⟨hlo, hhi⟩ := hbounds a h1 h2
    obtain ⟨f, hbacks, hf⟩ := hground.backed trivial _ hlo hhi
    exact ⟨f, hbacks.heapPageOk hground.machine hf⟩
  · rintro a b ha1 ha2 hb1 hb2 hpage f g hf hg rfl
    obtain ⟨ha, ha'⟩ := hbounds a ha1 ha2
    obtain ⟨hb, hb'⟩ := hbounds b hb1 hb2
    have hfa := hf.walk hground.machine (hground.backed trivial _ ha ha')
    have hfb := hg.walk hground.machine (hground.backed trivial _ hb hb')
    rcases lt_or_gt_of_ne hpage with hlt | hlt
    · exact hground.distinct trivial _ _ _ ha hlt hb' hfa hfb
    · exact hground.distinct trivial _ _ _ hb hlt ha' hfb hfa

theorem plainTable_heapTop (vmem phys : Mem) :
    (runAll Op.exec [.enable]
      (bootSystem plainTable smallKernel vmem phys)).state.memory.heapVirtualCurrent =
      pageAddr 0xC1004 := by
  obtain ⟨hfive, htwo⟩ := plainTable_low vmem
  obtain ⟨t, hret, hfirst⟩ := enable_returns plainTable smallKernel vmem phys (.inr htwo)
  rw [runAll_of_ret hret]
  exact (hfirst.after _ _ _ _ (hfirst.enough.2 hfive)).1

/-- The first page of the heap of a machine with memory from 1 to 8 MiB, once the backend
is enabled. -/
theorem heap_backed_plain : ∃ f, HeapPageOk smallKernel (runAll Op.exec [.enable]
    (bootSystem plainTable smallKernel (fun _ => 0) fun _ => 0)).state KERNEL_HEAP_START f :=
  (heap_backed ((eachOk_enable_plain (fun _ => 0) fun _ => 0).imp fun _ _ h => h.1)).1 _
    (BitVec.le_refl _) (by rw [plainTable_heapTop]; decide)

end Frewozet
