import Frewozet.System.Failure
import Frewozet.System.Owners

/-!
# When `kmalloc` has memory

What a call of `kmalloc` returns in the running kernel, in either heap, as long as the heap
pages are the heap's own.

* `BootstrapIn` — the bootstrap heap lies in the direct map.
* `CanServe` — **there is memory for the request**, read off the state before the call.
* `Holds` — bytes a caller was given: it may write to them, and they are mapped.
* `Running`, `Continues` — the invariant of the kernel, and that callers keep what they hold.
* `kmalloc_continues`, `kmalloc_serves` — the call returns, null exactly if there is no
  memory.
-/

namespace Frewozet

open Word Exec TwoLevel Tiling

/-! ## The bootstrap heap -/

/-- The bootstrap heap lies in the first 4 MiB. -/
structure BootstrapIn (mem : Memory) : Prop where
  above : 0xC0000000 ≤ mem.bootstrapHeapCurrent.toNat
  below : mem.bootstrapHeapCurrent.toNat ≤ 0xC0400000
  limit : mem.bootstrapHeapLimit.toNat ≤ 0xC0400000

section

variable {mem mem' : Memory}

theorem BootstrapIn.same (h : BootstrapIn mem) (hs : SameStatics mem mem') : BootstrapIn mem' :=
  ⟨by rw [hs.current]; exact h.above, by rw [hs.current]; exact h.below,
    by rw [hs.limit]; exact h.limit⟩

theorem BootstrapIn.gives (h : BootstrapIn mem) {n : Nat} {p : U32} (hg : BootGives mem n p mem') :
    BootstrapIn mem' := by
  rcases hg with ⟨-, rfl⟩ | ⟨k, rfl, hlo, hsum, -, hle⟩
  · exact h
  · have habove := h.above
    have hlimit := h.limit
    refine ⟨?_, ?_, h.limit⟩
    · change _ ≤ (p + k).toNat
      omega
    · change (p + k).toNat ≤ _
      omega

theorem bootstrapIn_boot (info : E820Info) (k : KernelImage) (vmem : Mem) :
    BootstrapIn (boot info k vmem).memory := by
  have hstart := bitmapStart_le k
  have hlimit := boot_limit info k vmem
  have hlimitle := bootstrapLimit_le info k
  by_cases hfit : BitmapFits info k
  · have hcurrent := (boot_ready info k vmem hfit).current
    have hle : bitmapStart k + bitmapSize info ≤ bootstrapLimit info k := hfit.2.2
    refine ⟨?_, ?_, by omega⟩ <;> rw [hcurrent, BitVec.toNat_ofNat] <;> omega
  · have hcurrent := (boot_not_ready info k vmem hfit).2.2.1
    have hbounds := (memoryInit_bounds info k vmem).1
    have hend := k.endPhys_below
    refine ⟨?_, ?_, by omega⟩ <;> rw [hcurrent] <;> omega

/-- Whatever the kernel calls, the bootstrap heap stays where it is. -/
theorem keeps_bootstrapIn (op : Op) : Keeps (fun t => BootstrapIn t.memory) op.exec := by
  have hsame : ∀ mem mem' (_ : Machine), SameStatics mem mem' → BootstrapIn mem →
      BootstrapIn mem' := fun _ _ _ hs h => h.same hs
  have hgrow : ∀ mem virt n (m : Machine), BootstrapIn mem →
      wp (heapGrowPages kernelBacking virt n) (fun _ _ => BootstrapIn mem)
        (fun _ _ => BootstrapIn mem) m :=
    fun mem virt n m h => wp_mono wp_trivial (fun _ _ _ => h) fun _ _ _ => h
  have hmachine : ∀ {α : Type} (x : Exec Machine α),
      Keeps (fun t => BootstrapIn t.memory) (onMachine x) := fun x =>
    keeps_zoom fun t ht => wp_mono wp_trivial (fun _ _ _ => ht) fun _ _ _ => ht
  have hclient : ∀ n call,
    Keeps (fun t => BootstrapIn t.memory) (clientAlloc n call) := fun n call =>
    keeps_bind (hmachine _) fun p => keeps_modify fun t ht => by
      split
      · exact ht
      · exact ht
  cases op with
  | enable =>
    exact keeps_zoom fun t ht => memoryEnablePmmBackend_keeps (P := fun mem _ => BootstrapIn mem)
      hsame hgrow (fun _ _ h => ⟨h.above, h.below, h.limit⟩)
      (fun _ _ _ h => ⟨h.above, h.below, h.limit⟩) (t.memory, t.machine) ht
  | request r =>
    refine keeps_bind (keeps_zoom fun t ht => ?_) fun _ => keeps_pure _
    exact Request.call_keeps (P := fun mem _ => BootstrapIn mem)
      (fun mem vmem _ h => h.same (.vmem mem vmem)) ht r (fun _ _ _ _ hg => ht.gives hg)
      fun he size _ => kmalloc_keeps (P := fun mem _ => BootstrapIn mem) hsame hgrow he size ht
  | allocPage => exact hclient _ _
  | allocPageBelow => exact hclient _ _
  | allocContiguous => exact hclient _ _
  | freeContiguous => exact keeps_bind (hmachine _) fun _ => keeps_modify fun _ ht => ht
  | mapPage => exact keeps_bind (hmachine _) fun _ => keeps_pure _
  | unmapPage => exact hmachine _
  | allocMapped => exact keeps_bind (hmachine _) fun _ => keeps_pure _
  | write vmem => exact keeps_modify fun t ht => ht.same (.vmem t.memory vmem)

/-! ## Memory for a request -/

/-- The bootstrap heap has the bytes left, past the next multiple of 16. -/
def RoomInBootstrap (mem : Memory) (size : U32) : Prop :=
  (alignUp mem.bootstrapHeapCurrent MEMORY_DEFAULT_ALIGNMENT).toNat + size.toNat ≤
    mem.bootstrapHeapLimit.toNat

/-- A free block is big enough, or the heap can grow by a region that is: there is room in
the window, and a frame for each page and each table. -/
def RoomInHeap (t : System) (size : U32) : Prop :=
  heapFindFreeBlock size t.memory ≠ some 0 ∨
    RoomFor t.memory size ∧
      t.machine.framesNeeded t.memory.top (growPages size).toNat ≤ t.machine.pmm.freeCount ∧
        size.toNat ≤ (growPages size).toNat * 4096 - 12

/-- **There is memory for the request**, rounded up to 16 as `kmalloc` does. -/
def CanServe (t : System) (size : U32) : Prop :=
  if t.memory.memoryPmmBackendEnabled = true then
    RoomInHeap t (alignUpSize size MEMORY_DEFAULT_ALIGNMENT)
  else
    RoomInBootstrap t.memory (alignUpSize size MEMORY_DEFAULT_ALIGNMENT)

theorem bootstrapAlloc_ne_zero_iff (h : BootstrapIn mem) {size : U32} (h0 : size ≠ 0) :
    (bootstrapAllocAligned size MEMORY_DEFAULT_ALIGNMENT mem).1 ≠ 0 ↔ RoomInBootstrap mem size := by
  obtain ⟨habove, hbelow, hlimit⟩ := h
  have h16 : MEMORY_DEFAULT_ALIGNMENT.toNat = 16 := rfl
  have hge := le_alignUp isPow2_defaultAlignment (v := mem.bootstrapHeapCurrent) (by omega)
  have hle := alignUp_le isPow2_defaultAlignment (v := mem.bootstrapHeapCurrent) (by omega)
  have hlt := size.isLt
  unfold bootstrapAllocAligned RoomInBootstrap
  rw [if_neg h0]
  dsimp only
  rw [if_neg (show ¬ MEMORY_DEFAULT_ALIGNMENT = 0 by decide),
    alignUpU32_eq (show MEMORY_DEFAULT_ALIGNMENT ≠ 0 by decide)]
  generalize alignUp mem.bootstrapHeapCurrent MEMORY_DEFAULT_ALIGNMENT = p at *
  have hp : p ≠ 0 := fun hc => by
    rw [hc, show (0 : U32).toNat = 0 from rfl] at hge
    omega
  rw [if_neg (by rw [BitVec.lt_def]; omega)]
  by_cases hwrap : p + size < p
  · rw [if_pos hwrap]
    rw [BitVec.lt_def, BitVec.toNat_add] at hwrap
    exact iff_of_false (fun hc => hc rfl) (by omega)
  rw [if_neg hwrap]
  rw [BitVec.lt_def, BitVec.toNat_add, not_lt] at hwrap
  by_cases hover : p + size > mem.bootstrapHeapLimit
  · rw [if_pos hover]
    rw [gt_iff_lt, BitVec.lt_def, BitVec.toNat_add] at hover
    exact iff_of_false (fun hc => hc rfl) (by omega)
  · rw [if_neg hover]
    rw [gt_iff_lt, BitVec.lt_def, BitVec.toNat_add, not_lt] at hover
    exact iff_of_true hp (by omega)

end

/-! ## Bytes a caller was given -/

/-- The bytes lie in the payload of a block that is used, or where the bootstrap heap is. -/
def Holds (mem : Memory) (p : U32) (n : Nat) : Prop :=
  (∃ bs b, HeapAt mem bs ∧ b ∈ bs ∧ b.free = false ∧ b.addr + 12 ≤ p.toNat ∧ p.toNat + n ≤ b.stop) ∨
    0xC0000000 ≤ p.toNat ∧ p.toNat + n ≤ 0xC0400000

section

variable {mem mem' : Memory} {p a : U32} {n : Nat} {t : System} {p₀ : Pmm}

/-- They end in the address space. -/
theorem Holds.lt (h : Holds mem p n) : p.toNat + n < 2 ^ 32 := by
  rcases h with ⟨bs, b, hheap, hb, -, -, hhi⟩ | ⟨-, hhi⟩
  · have hin := hheap.inWindow hb
    have hstop := hin.2
    omega
  · omega

/-- The caller may write to them. -/
theorem Holds.writable (h : Holds mem p n) (hlo : p.toNat ≤ a.toNat) (hhi : a.toNat < p.toNat + n) :
    Writable mem a := by
  rcases h with ⟨bs, b, hheap, hb, hused, h1, h2⟩ | ⟨-, h2⟩
  · exact .inr (.inr ⟨bs, b, hheap, hb, hused, by omega, by omega⟩)
  · exact .inl (by omega)

/-- Blocks that are used stay where they are. -/
theorem Holds.advance {bs bs' : List Block} (h : Holds mem p n) (hheap : HeapAt mem bs)
    (hheap' : HeapAt mem' bs') (hkept : KeepsUsed bs bs') : Holds mem' p n := by
  rcases h with ⟨cs, b, hcs, hb, hused, hin⟩ | h
  · rw [hcs.unique hheap] at hb
    exact .inl ⟨bs', b, hheap', hkept b hb hused, hused, hin⟩
  · exact .inr h

/-- The pages of the heap are mapped, and the direct map is. -/
theorem SystemOk.mapped (h : SystemOk p₀ True t) (hp : Holds t.memory p n)
    (hlo : p.toNat ≤ a.toNat) (hhi : a.toNat < p.toNat + n) : (mmu t.machine.phys a).isSome := by
  have hwalk : ∃ f, walkOf t.machine.tables a = some f := by
    rcases hp with ⟨bs, b, hheap, hb, -, h1, h2⟩ | ⟨h1, h2⟩
    · obtain ⟨h3, -, h4⟩ := hheap.tiles.mem_bounds hb
      have haligned := h.standing.aligned
      have htop : t.memory.top = t.memory.heapVirtualCurrent.toNat / 4096 := rfl
      obtain ⟨f, hbacks, -⟩ :=
        h.standing.ground.backed trivial (a.toNat / 4096) (by omega) (by omega)
      refine ⟨f, (walkOf_of_page ?_).trans hbacks.walk⟩
      have hlt := a.isLt
      rw [pageAddr_toNat (by omega)]
      omega
    · have hslot : slotOf a = windowSlot := by
        apply Fin.ext
        change a.toNat / 0x400000 = 768
        omega
      obtain ⟨f, hf, -⟩ := h.standing.ground.machine.windowed.walk hslot
      exact ⟨f, hf⟩
  obtain ⟨f, hf⟩ := hwalk
  rw [mmu_eq, hf]
  rfl

end

/-! ## The call -/

section

variable {p₀ : Pmm} {t : System} {bs : List Block} {size p : U32} {mem' : Memory} {m' : Machine}

/-- **What it returns once the backend is enabled.** -/
theorem Mallocs.ne_zero_iff (hm : Mallocs kernelBacking t.memory bs t.machine size p mem' m')
    (h : SystemOk p₀ True t) (hheap : HeapAt t.memory bs)
    (hlow : NeedsGrowth t.memory size → GrowthLow t size) : p ≠ 0 ↔ RoomInHeap t size := by
  have hfind := @HeapAt.find_none _ _ hheap size
  have hgrown : ∀ {ok : Bool} {mem₁ : Memory} {m₁ : Machine}, RoomFor t.memory size →
      (∀ b ∈ bs, b.fits size.toNat = false) →
      GrowsHeap kernelBacking t.memory bs t.machine size ok mem₁ m₁ →
        Grown t.machine t.memory.top (growPages size).toNat ok m₁ := fun hroom hnone hg =>
    hg.machine h.standing hheap hroom (hlow ((needsGrowth_iff hheap).2 ⟨hnone, hroom⟩))
  have hregion : (regionBlock t.memory size).fits size.toNat = true ↔
      size.toNat ≤ (growPages size).toNat * 4096 - 12 := by
    rw [regionBlock, Block.fits, Bool.true_and, decide_eq_true_eq]
  cases hm with
  | served hserves =>
    refine iff_of_true (hserves.ptr_ne hheap) (.inl fun hc => ?_)
    obtain ⟨xs, b, ys, _, rfl, -, hfits, -, -, -, -⟩ := hserves
    rw [hfind.1 hc b (by simp)] at hfits
    cases hfits
  | failed hnone hgrow hres =>
    refine iff_of_false (fun hc => hc hres) ?_
    rintro (hc | ⟨hroom, hframes, -⟩)
    · exact hc (hfind.2 hnone)
    · exact Bool.false_ne_true ((hgrown hroom hnone hgrow).enough.2 hframes)
  | grown hnone m₁ hgrow hserves =>
    have hgrow' := hgrow
    obtain ⟨-, -, hheap₁⟩ := hgrow.heap hheap
    refine iff_of_true (hserves.ptr_ne (hheap₁ rfl)) (.inr ?_)
    have hroom : RoomFor t.memory size := by
      cases hgrow' with
      | refused _ hres => cases hres
      | exhausted _ _ hres => cases hres
      | grown _ _ hroom => exact hroom
    refine ⟨hroom, (hgrown hroom hnone hgrow).enough.1 rfl, hregion.1 ?_⟩
    obtain ⟨xs, b, ys, _, hlist, -, hfits, -, -, -, -⟩ := hserves
    have hb : b ∈ bs ++ [regionBlock t.memory size] := by rw [hlist]; simp
    rcases List.mem_append.1 hb with hb | hb
    · rw [hnone b hb] at hfits
      cases hfits
    · rwa [← List.mem_singleton.1 hb]
  | missed hnone hgrow hsmall hres =>
    refine iff_of_false (fun hc => hc hres) ?_
    rintro (hc | ⟨-, -, hsize⟩)
    · exact hc (hfind.2 hnone)
    · rw [hregion.2 hsize] at hsmall
      cases hsmall

/-- Before the backend is enabled it is a call of the bootstrap heap. -/
theorem kmalloc_bootstrap {σ : Type} {B : Backing σ} {mem : Memory} {s : σ}
    (he : mem.memoryPmmBackendEnabled = false) (h0 : size ≠ 0) :
    kmalloc B size (mem, s) = bootstrapAlloc (alignUpSize size MEMORY_DEFAULT_ALIGNMENT)
      MEMORY_DEFAULT_ALIGNMENT (mem, s) := by
  unfold kmalloc
  rw [if_neg h0]
  change (if !mem.memoryPmmBackendEnabled then bootstrapAlloc _ _ else _) (mem, s) = _
  rw [he]
  rfl

/-- The kernel is in order, and the heap pages are the heap's. -/
structure Running (p₀ : Pmm) (t : System) : Prop where
  ok : SystemOk p₀ True t
  bootstrap : BootstrapIn t.memory

/-- It still is, and whoever held bytes holds them. -/
structure Continues (p₀ : Pmm) (t u : System) : Prop extends Running p₀ u where
  kept : ∀ q n, Holds t.memory q n → Holds u.memory q n

theorem Running.continues (h : Running p₀ t) : Continues p₀ t t := ⟨h, fun _ _ hq => hq⟩

theorem Continues.trans {u v : System} (h : Continues p₀ t u) (h' : Continues p₀ u v) :
    Continues p₀ t v :=
  ⟨h'.toRunning, fun q n hq => h'.kept q n (h.kept q n hq)⟩

/-- A caller that writes to bytes it holds. -/
theorem Running.write (h : Running p₀ t) {vmem : Mem}
    (hw : ∀ a, vmem a ≠ t.memory.vmem a → Writable t.memory a) :
    Continues p₀ t { t with memory := { t.memory with vmem := vmem } } := by
  obtain ⟨bs, hheap⟩ := h.ok.heap
  have hheap' := hheap.callerWrites ⟨vmem, rfl, hw⟩
  exact ⟨⟨⟨⟨bs, hheap'⟩, h.ok.standing.congr rfl⟩, h.bootstrap.same (.vmem _ _)⟩,
    fun q n hq => hq.advance hheap.heap hheap'.heap fun _ hc _ => hc⟩

/-- **`kmalloc` in the running kernel**, with the tables it takes in reach: it returns. -/
theorem kmalloc_continues (h : Running p₀ t) (hok : (Op.request (.kmalloc size)).Ok True t) :
    wp (onHeap (kmalloc kernelBacking size)) (fun _ => Continues p₀ t) (fun _ _ => False) t := by
  have hs := h.ok.standing
  obtain ⟨bs, hheap⟩ := h.ok.heap
  by_cases h0 : size = 0
  · subst h0
    exact h.continues
  rw [onHeap, wp_zoom]
  by_cases he : t.memory.memoryPmmBackendEnabled = true
  · refine wp_mono (wp_and (kmalloc_enabled (B := kernelBacking) (s := t.machine) hheap he size)
      (hs.kmalloc hheap.heap he h0 (hok.2.2 he size (if_neg h0)))) ?_ fun _ _ hc => hc.2
    rintro p ⟨mem', m'⟩ ⟨⟨hsame, bs', hheap', hmalloc⟩, hs'⟩
    exact ⟨⟨⟨⟨bs', hheap'⟩, hs'⟩, h.bootstrap.same hsame⟩,
      fun q n hq => hq.advance hheap.heap hheap'.heap hmalloc.keepsUsed⟩
  · refine wp_mono (kmalloc_disabled (s := t.machine) he size) ?_ fun _ _ hc => hc
    rintro p ⟨mem', m'⟩ ⟨hgives, rfl⟩
    have hheap' := hheap.bootGives hgives
    have hcurrent : mem'.heapVirtualCurrent = t.memory.heapVirtualCurrent := by
      rcases hgives with ⟨-, rfl⟩ | ⟨k, rfl, -⟩ <;> rfl
    exact ⟨⟨⟨⟨bs, hheap'⟩, hs.congr hcurrent⟩, h.bootstrap.gives hgives⟩,
      fun q n hq => hq.advance hheap.heap hheap'.heap fun _ hc _ => hc⟩

/-- How a call for memory ends. -/
structure MallocDone (p₀ : Pmm) (t : System) (size p : U32) (u : System) : Prop
    extends Continues p₀ t u where
  served : p ≠ 0 ↔ CanServe t size
  holds : p ≠ 0 → Holds u.memory p size.toNat

/-- **The pointer is null exactly if there is no memory**, unless the size wraps. -/
theorem kmalloc_serves (h : Running p₀ t) (h0 : size ≠ 0) (hsize : size.toNat ≤ 0xFFFFFFF0)
    (hok : (Op.request (.kmalloc size)).Ok True t) :
    wp (onHeap (kmalloc kernelBacking size)) (MallocDone p₀ t size) (fun _ _ => False) t := by
  have hge := alignUpSize_ge hsize
  have hs := h.ok.standing
  obtain ⟨bs, hheap⟩ := h.ok.heap
  have hrest : wp (onHeap (kmalloc kernelBacking size))
      (fun p u => (p ≠ 0 ↔ CanServe t size) ∧ (p ≠ 0 → Holds u.memory p size.toNat))
      (fun _ _ => True) t := by
    rw [onHeap, wp_zoom]
    by_cases he : t.memory.memoryPmmBackendEnabled = true
    · refine wp_mono (wp_and (kmalloc_spec (B := kernelBacking) (s := t.machine) hheap.heap he h0)
        (kmalloc_enabled (B := kernelBacking) (s := t.machine) hheap he size)) ?_ fun _ _ _ =>
          trivial
      rintro p ⟨mem', m'⟩ ⟨hm, -, bs', hheap', hmalloc⟩
      rw [CanServe, if_pos he]
      refine ⟨hm.ne_zero_iff h.ok hheap.heap (hok.2.2 he size (if_neg h0)), fun hp => ?_⟩
      cases hmalloc with
      | null hres => exact absurd hres hp
      | used b hptr hle hnew =>
        have hstop : b.stop = b.addr + 12 + b.size := rfl
        exact .inl ⟨bs', b, hheap'.heap, hnew.1, hnew.2.1, by omega, by omega⟩
    · have hne : alignUpSize size MEMORY_DEFAULT_ALIGNMENT ≠ 0 := fun hc => by
        rw [hc, show (0 : U32).toNat = 0 from rfl] at hge
        exact h0 (BitVec.eq_of_toNat_eq (Nat.le_zero.1 hge))
      refine wp_mono (wp_ran (kmalloc_disabled (s := t.machine) he size)) ?_ fun _ _ hc => hc.elim
      rintro p ⟨mem', m'⟩ ⟨hx, hgives, -⟩
      have hptr : p = (bootstrapAllocAligned (alignUpSize size MEMORY_DEFAULT_ALIGNMENT)
          MEMORY_DEFAULT_ALIGNMENT t.memory).1 := by
        rw [kmalloc_bootstrap (Bool.eq_false_iff.2 he) h0] at hx
        cases hx
        rfl
      refine ⟨?_, fun hp => ?_⟩
      · rw [CanServe, if_neg he, hptr]
        exact bootstrapAlloc_ne_zero_iff h.bootstrap hne
      · have habove := h.bootstrap.above
        have hlimit := h.bootstrap.limit
        rcases hgives with ⟨hres, -⟩ | ⟨k, rfl, hlo, hsum, hk, hle⟩
        · exact absurd hres hp
        · exact .inr ⟨by omega, by omega⟩
  exact wp_mono (wp_and (kmalloc_continues h hok) hrest) (fun _ _ hc => ⟨hc.1, hc.2.1, hc.2.2⟩)
    fun _ _ hc => hc.1

end

end Frewozet
