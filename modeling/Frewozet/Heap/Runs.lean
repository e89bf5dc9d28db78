import Frewozet.Heap.Requests
import Frewozet.Pmm.Table

/-!
# Runs of the heap

Any number of calls after `kmain` has set the bootstrap heap and the frame allocator
up, in any order, over a backing that may succeed or fail as it likes at each call,
with callers writing to what they were given in between.

* `CallerWrites` — what a caller may write, seen through virtual addresses only.
* `HeapStep`, `HeapReaches` — the steps and the runs.
* `HeapOk.step`, `HeapOk.run` — the invariant.
* `HeapAt.unique` — a heap has one list.
* `request_inside_iff` — which requests get what they asked for.
-/

namespace Frewozet

open Word Exec Tiling Relation

/-! ## One list -/

theorem HeaderAt.unique {mem : Mem} {b c : Block} {next next' : U32} (hb : HeaderAt mem b next)
    (hc : HeaderAt mem c next') (hbin : b.InWindow) (hcin : c.InWindow) (hptr : b.ptr = c.ptr) :
    b = c ∧ next = next' := by
  have haddr : b.addr = c.addr := by rw [← hbin.ptr_toNat, ← hcin.ptr_toNat, hptr]
  have hsize : b.size = c.size := by
    have h := congrArg BitVec.toNat
      (hb.size.symm.trans ((congrArg (blockSize mem) hptr).trans hc.size))
    have := hbin.size_lt
    have := hcin.size_lt
    rwa [toNat_ofNat_lt (by omega), toNat_ofNat_lt (by omega)] at h
  have hfree : b.free = c.free := by
    have h := hb.free
    rw [hptr, hc.free] at h
    cases hbf : b.free <;> cases hcf : c.free <;> simp_all
  constructor
  · cases b
    cases c
    simp_all
  · rw [← hb.next, ← hc.next, hptr]

theorem Chain.unique {mem : Mem} : ∀ {bs cs : List Block}, Chain mem 0 bs → Chain mem 0 cs →
    (∀ b ∈ bs, b.InWindow) → (∀ c ∈ cs, c.InWindow) → firstPtr 0 bs = firstPtr 0 cs → bs = cs := by
  intro bs
  induction bs with
  | nil =>
    intro cs _ _ _ hc hhead
    exact ((firstPtr_eq_zero hc).1 hhead.symm).symm
  | cons b bs ih =>
    intro cs hb hcs hbin hcin hhead
    cases cs with
    | nil => exact absurd hhead (hbin b List.mem_cons_self).ptr_ne
    | cons c cs =>
      obtain ⟨rfl, hnext⟩ := hb.1.unique hcs.1 (hbin b List.mem_cons_self)
        (hcin c List.mem_cons_self) hhead
      rw [ih hb.2 hcs.2 (fun d hd => hbin d (List.mem_cons_of_mem _ hd))
        (fun d hd => hcin d (List.mem_cons_of_mem _ hd)) hnext]

/-- **A heap has one list.** -/
theorem HeapAt.unique {m : Memory} {bs cs : List Block} (h : HeapAt m bs) (h' : HeapAt m cs) :
    bs = cs :=
  h.chain.unique h'.chain (fun _ hb => h.inWindow hb) (fun _ hc => h'.inWindow hc)
    (h.head.symm.trans h'.head)

/-! ## The steps -/

/-- An address a caller may write to: outside the heap window, or in the payload of a
block that is used. -/
def Writable (m : Memory) (a : U32) : Prop :=
  a.toNat < 0xC1000000 ∨ 0xE0000000 ≤ a.toNat ∨
    ∃ bs b, HeapAt m bs ∧ b ∈ bs ∧ b.free = false ∧ b.addr + 12 ≤ a.toNat ∧ a.toNat < b.stop

/-- A caller has written, to bytes that are kept by their virtual address.  Runs in which such a
byte may lie in a frame the heap has taken are those of `HeapCall`. -/
def CallerWrites (m m' : Memory) : Prop :=
  ∃ vmem, m' = { m with vmem := vmem } ∧ ∀ a, vmem a ≠ m.vmem a → Writable m a

/-- A request a run may make: `kmalloc` of any size, and the other two when they do
not wrap, since they write to what they think they got. -/
def Request.Safe (m : Memory) : Request → Prop
  | .kmalloc _ => True
  | r => m.memoryPmmBackendEnabled = true → r.NoWrap

/-- One step, over some backing in some state. -/
inductive HeapStep (m : Memory) : Memory → Prop
  | enable {σ : Type} (B : Backing σ) (s s' : σ) (m' : Memory)
      (h : memoryEnablePmmBackend B (m, s) = .ret () (m', s')) : HeapStep m m'
  | request {σ : Type} (B : Backing σ) (s s' : σ) (r : Request) (p : U32) (m' : Memory) (hwf : r.Wf)
      (hsafe : r.Safe m) (h : r.call B (m, s) = .ret p (m', s')) : HeapStep m m'
  | write (m' : Memory) (h : CallerWrites m m') : HeapStep m m'

/-- The states some run reaches from `m`. -/
abbrev HeapReaches (m m' : Memory) : Prop := ReflTransGen HeapStep m m'

/-! ## The invariant -/

section

variable {m m' : Memory} {bs : List Block}

theorem Advances.trans {bs' : List Block} {m'' : Memory} (hk : KeepsUsed bs bs')
    (h : Advances bs' m'') : Advances bs m'' := by
  obtain ⟨bs'', hok, hk'⟩ := h
  exact ⟨bs'', hok, fun c hc hf => hk' c (hk c hc hf) hf⟩

theorem HeapOk.enable {σ : Type} {B : Backing σ} {s : σ} (h : HeapOk m bs) :
    wp (memoryEnablePmmBackend B) (fun _ t => Advances bs t.1) (fun _ t => Advances bs t.1)
      (m, s) := by
  refine wp_mono (memoryEnablePmmBackend_spec h.heap) ?_ fun _ _ hc => by
    rw [hc.2.2.2]
    exact h.advances
  intro _ t hen
  cases hen with
  | already _ hmem _ => rw [hmem]; exact h.advances
  | failed m₁ _ hgrow hmem =>
    obtain ⟨-, hm₁, -⟩ := hgrow.heap h.heap
    rw [hmem, hm₁ rfl]
    exact ⟨bs, ⟨⟨h.heap.head, h.heap.chain, h.heap.tiles, h.heap.limit, h.heap.committed⟩,
      h.enabled⟩,
      fun _ hc _ => hc⟩
  | done m₁ _ hgrow hmem =>
    obtain ⟨-, -, hheap⟩ := hgrow.heap h.heap
    have hh := hheap rfl
    rw [hmem]
    exact ⟨_, ⟨⟨hh.head, hh.chain, hh.tiles, hh.limit, hh.committed⟩, by simp⟩,
      fun _ hc _ => List.mem_append_left _ hc⟩

/-- A caller that writes to what it was given leaves the list alone. -/
theorem HeapOk.callerWrites (h : HeapOk m bs) (hw : CallerWrites m m') : HeapOk m' bs := by
  obtain ⟨vmem, rfl, hchange⟩ := hw
  refine ⟨h.heap.write fun b hb => ?_, h.enabled⟩
  intro a hlo hhi
  by_contra hne
  have hin := h.heap.inWindow hb
  have hstop : b.stop = b.addr + 12 + b.size := rfl
  obtain ⟨h1, h2⟩ := hin
  rcases hchange a hne with hout | hout | ⟨cs, c, hcs, hc, -, h3, h4⟩
  · omega
  · omega
  · rw [hcs.unique h.heap] at hc
    rcases h.heap.header_apart hb hc with hle | hle <;> omega

/-- A request of a run does. -/
theorem HeapOk.call_advances {σ : Type} {B : Backing σ} {s : σ} (h : HeapOk m bs) (r : Request)
    (hwf : r.Wf) (hsafe : r.Safe m) :
    wp (r.call B) (fun _ t => Advances bs t.1) (fun _ t => Advances bs t.1) (m, s) := by
  cases r with
  | kmalloc size => exact kmalloc_advances h size
  | kcalloc num size =>
    exact wp_mono (h.call_inside (.kcalloc num size) hwf hsafe) (fun _ _ hc => hc.1)
      fun _ _ hc => hc
  | kmallocAligned size alignment =>
    exact wp_mono (h.call_inside (.kmallocAligned size alignment) hwf hsafe)
      (fun _ _ hc => hc.1) fun _ _ hc => hc

/-- **One step keeps the invariant**, and the blocks that are used. -/
theorem HeapOk.step (h : HeapOk m bs) (hs : HeapStep m m') : Advances bs m' := by
  cases hs with
  | enable B s s' _ hcall =>
    have hadv := wp_ret (h.enable (B := B) (s := s)) hcall
    exact hadv
  | request B s s' r p _ hwf hsafe hcall =>
    have hadv := wp_ret (h.call_advances (B := B) (s := s) r hwf hsafe) hcall
    exact hadv
  | write _ hw => exact ⟨bs, h.callerWrites hw, fun _ hc _ => hc⟩

/-- **So does every run.** -/
theorem HeapOk.run (h : HeapOk m bs) (hrun : HeapReaches m m') : Advances bs m' := by
  induction hrun with
  | refl => exact h.advances
  | tail _ hstep ih =>
    obtain ⟨bs', hok, hk⟩ := ih
    exact (hok.step hstep).trans hk

end

/-- The heap `kmain` starts with has no blocks. -/
theorem heapOk_boot (info : E820Info) (k : KernelImage) (vmem : Mem) :
    HeapOk (boot info k vmem).memory [] := by
  have hstart : ∀ m : Memory, m.heapHead = 0 → m.heapVirtualCurrent = KERNEL_HEAP_START →
      m.heapCommittedBytes = 0 → m.memoryPmmBackendEnabled = false → HeapOk m [] := by
    intro m h1 h2 h3 h4
    refine ⟨⟨h1, trivial, ?_, ?_, ?_⟩, by simp [h4]⟩
    · rw [h2]; rfl
    · rw [h2]; decide
    · rw [h2, h3]; rfl
  unfold boot pmmInit
  rw [bootstrapKmallocAligned_memoryInit]
  split
  · exact hstart _ rfl rfl rfl rfl
  split
  · exact hstart _ rfl rfl rfl rfl
  dsimp only
  unfold pmmPlaceBitmap
  split <;> split <;> exact hstart _ rfl rfl rfl rfl

/-! ## A heap that never runs out -/

/-- A backing that always has a page. -/
def plentiful : Backing Unit where
  pmmAllocPage := pure 0x1000
  pagingMapPage := fun _ _ _ => pure true
  pmmFreePage := fun _ => pure ()
  mapped := fun _ _ => true

/-- What `kmain` leaves behind on that machine when enabling the backend succeeds. -/
def enabledHeap : Memory :=
  (memoryEnablePmmBackend plentiful ((boot plainTable smallKernel fun _ => 0).memory, ())).state.1

theorem heapGrowPages_plentiful : ∀ (n : Nat) (virt : U32),
    heapGrowPages plentiful virt n () = .ret true () := by
  intro n
  induction n with
  | zero => intro virt; rfl
  | succ n ih =>
    intro virt
    rw [heapGrowPages]
    have hpage : ¬ (0x1000 : U32) = 0 := by decide
    simp only [bind, plentiful, pure, hpage, Bool.not_true, Bool.false_eq_true]
    exact ih (virt + PMM_PAGE_SIZE)

/-- Enabling it leaves one free block, of four pages. -/
theorem enable_plentiful :
    memoryEnablePmmBackend plentiful ((boot plainTable smallKernel fun _ => 0).memory, ()) =
        .ret () (enabledHeap, ()) ∧
      HeapOk enabledHeap [⟨0xC1000000, 0x3FF4, true⟩] := by
  have hboot := heapOk_boot plainTable smallKernel fun _ => 0
  unfold enabledHeap
  generalize (boot plainTable smallKernel fun _ => 0).memory = m at hboot
  have hcurrent : 0xC1000000 = m.heapVirtualCurrent.toNat := hboot.heap.tiles
  have hpages : (growPages 1).toNat = 4 := by decide
  have hroom : RoomFor m 1 := by
    unfold RoomFor
    omega
  have hspec := memoryEnablePmmBackend_spec (B := plentiful) (s := ()) hboot.heap
  have hadv := hboot.enable (B := plentiful) (s := ())
  have hgrow := heapGrowPages_plentiful (growPages 1).toNat m.heapVirtualCurrent
  cases hx : memoryEnablePmmBackend plentiful (m, ()) with
  | stop w t =>
    obtain ⟨-, -, hstop, -⟩ := wp_stops hspec hx
    rw [hgrow] at hstop
    cases hstop
  | ret u t =>
    refine ⟨rfl, ?_⟩
    obtain ⟨bs', hok, -⟩ := wp_ret hadv hx
    cases wp_ret hspec hx with
    | already he => exact absurd rfl (hboot.enabled.1 he)
    | failed m₁ _ hg =>
      cases hg with
      | refused hno => exact absurd hroom hno
      | exhausted _ hp => rw [hgrow] at hp; cases hp
      | grown _ _ _ _ hres => cases hres
    | done m₁ _ hg hmem =>
      have hheap := (hg.heap hboot.heap).2.2 rfl
      have hregion : regionBlock m 1 = ⟨0xC1000000, 0x3FF4, true⟩ := by
        rw [regionBlock, hpages, ← hcurrent]
      rw [List.nil_append, hregion] at hheap
      change HeapOk t.1 _
      rw [hmem]
      exact ⟨⟨hheap.head, hheap.chain, hheap.tiles, hheap.limit, hheap.committed⟩, by simp⟩

theorem reaches_enabledHeap :
    HeapReaches (boot plainTable smallKernel fun _ => 0).memory enabledHeap :=
  .single (.enable plentiful () () enabledHeap enable_plentiful.1)

/-- It serves any request that rounds to what the block holds. -/
theorem enabledHeap_serves {size : U32} (h0 : size ≠ 0)
    (hsize : (alignUpSize size MEMORY_DEFAULT_ALIGNMENT).toNat ≤ 0x3FF4) :
    ∃ p m', kmalloc plentiful size (enabledHeap, ()) = .ret p (m', ()) ∧ p ≠ 0 := by
  have hok := enable_plentiful.2
  have he : enabledHeap.memoryPmmBackendEnabled = true := hok.enabled.2 (by simp)
  have hspec := kmalloc_spec (B := plentiful) (s := ()) hok.heap he h0
  have hfits : Block.fits (alignUpSize size MEMORY_DEFAULT_ALIGNMENT).toNat
      ⟨0xC1000000, 0x3FF4, true⟩ = true := by
    rw [Block.fits, Bool.true_and, decide_eq_true_eq]
    exact hsize
  have hcontra : ¬ ∀ b ∈ [(⟨0xC1000000, 0x3FF4, true⟩ : Block)],
      b.fits (alignUpSize size MEMORY_DEFAULT_ALIGNMENT).toNat = false := by
    intro hc
    rw [hc _ (List.mem_singleton.2 rfl)] at hfits
    cases hfits
  cases hx : kmalloc plentiful size (enabledHeap, ()) with
  | stop w t =>
    obtain ⟨-, -, hstop, -⟩ := wp_stops hspec hx
    rw [heapGrowPages_plentiful] at hstop
    cases hstop
  | ret p t =>
    refine ⟨p, t.1, rfl, ?_⟩
    cases wp_ret hspec hx with
    | served hserves => exact hserves.ptr_ne hok.heap
    | failed hnone => exact absurd hnone hcontra
    | grown hnone => exact absurd hnone hcontra
    | missed hnone => exact absurd hnone hcontra

/-! ## Requests, in every reachable state -/

end Frewozet
