import Frewozet.Flat.Heap
import Frewozet.Flat.Start

/-!
# What the calls of the heap do to that memory

The calls of `memory.c`, with the list in the frames the heap has been given.

* `Seated` — the frames behind the heap; `Seated.cells` — its addresses are cells;
  `Seated.view_eq` — **what is in it stays there when it grows**.
* `HeapStanding` — the invariant: the list is in order, and its headers are in these frames.
* `HeapStanding.grow`, `HeapStanding.takeBlock`, `HeapStanding.kmalloc`, `HeapStanding.enable` —
  the calls keep it, whatever fails below.
-/

namespace Frewozet

open Word Exec TwoLevel Tiling

/-! ## The frames behind the heap -/

/-- The bitmap is in place, and each page of the heap below `top` has a frame of its own. -/
structure Seated (p₀ : Pmm) (top : Nat) (m : Machine) : Prop where
  resident : Resident m
  ground : Grounded p₀ True top [] m.layer

section

variable {p₀ : Pmm} {top n : Nat} {m m' : Machine} {x : U32}

theorem Seated.sound (h : Seated p₀ top m) : Sound p₀ m := ⟨h.resident, h.ground.machine⟩

theorem mem_heapCells : x ∈ heapCells (top * 4096) ↔ 0xC1000 ≤ x.toNat / 4096 ∧
    x.toNat / 4096 < top := by
  rw [heapCells, Set.mem_ofPred_eq]
  omega

/-- A page that has a frame is mapped to it. -/
theorem Backs.mmu {q : Nat} {f : Frame} (hres : Resident m) (h : Backs m.layer q f)
    (hx : x.toNat / 4096 = q) : mmu m.phys x = some (inFrame f x) := by
  have hlt := x.isLt
  have hpage : x.toNat / 4096 = (pageAddr q).toNat / 4096 := by
    rw [pageAddr_toNat (by omega)]
    omega
  rw [← hres.layer_mmu, mmu_eq, walkOf_of_page hpage, h.walk]
  rfl

/-- The frame behind an address of the heap. -/
theorem Seated.cell (h : Seated p₀ top m) (hx : x ∈ heapCells (top * 4096)) :
    ∃ f : Frame, Backs m.layer (x.toNat / 4096) f ∧ p₀.Free f.val ∧
      mmu m.phys x = some (inFrame f x) := by
  obtain ⟨h1, h2⟩ := mem_heapCells.1 hx
  obtain ⟨f, hback, hfree⟩ := h.ground.backed trivial _ h1 h2
  exact ⟨f, hback, hfree, hback.mmu h.resident rfl⟩

theorem frameOf_inFrame (f : Frame) (x : U32) : frameOf (inFrame f x) = f := by
  apply Fin.ext
  change (inFrame f x).toNat / 4096 = f.val
  rw [inFrame_toNat]
  omega

/-- A frame that was free at the start is not the directory. -/
theorem MachineOk.free_ne_dir (h : MachineOk p₀ m) {f : Frame} (hf : p₀.Free f.val) :
    f ≠ dirFrame := by
  rintro rfl
  exact absurd (h.high _ hf) (by decide)

/-- **The addresses of the heap are cells.** -/
theorem Seated.cells (h : Seated p₀ top m) : DataCells m (heapCells (top * 4096)) := by
  refine ⟨fun x hx => ?_, fun x hx y hy a ha hb => ?_⟩
  · obtain ⟨f, hback, hfree, hmmu⟩ := h.cell hx
    refine ⟨_, hmmu, ?_, ?_⟩ <;> rw [frameOf_inFrame]
    · exact h.ground.machine.free_ne_dir hfree
    · rw [← h.resident.layer_isTable]
      exact hback.noTable
  · obtain ⟨f, hf, -, hxa⟩ := h.cell hx
    obtain ⟨g, hg, -, hya⟩ := h.cell hy
    obtain rfl := Option.some.inj (hxa.symm.trans ha)
    have hval := congrArg BitVec.toNat (Option.some.inj (hya.symm.trans hb))
    rw [inFrame_toNat, inFrame_toNat] at hval
    obtain rfl : g = f := Fin.ext (by omega)
    obtain ⟨hx1, hx2⟩ := mem_heapCells.1 hx
    obtain ⟨hy1, hy2⟩ := mem_heapCells.1 hy
    have hdistinct := h.ground.distinct trivial
    rcases lt_trichotomy (x.toNat / 4096) (y.toNat / 4096) with hlt | heq | hlt
    · exact absurd hg.walk (hdistinct _ _ _ hx1 hlt hy2 hf.walk)
    · exact BitVec.eq_of_toNat_eq (by omega)
    · exact absurd hf.walk (hdistinct _ _ _ hy1 hlt hx2 hg.walk)

/-- Writing where neither the bitmap nor a table is changes nothing about it. -/
theorem Seated.stored (h : Seated p₀ top m) {W : Set U32} (hw : StoredIn W m m')
    (hW : ∀ v ∈ W, ∀ a, mmu m.phys v = some a → ∀ c ∈ m.bitmapCells, virtToPhys c ≠ a) :
    Seated p₀ top m' ∧ SameTables m.layer m'.layer := by
  obtain ⟨hres, hsame⟩ := h.resident.wrote hw hW
  exact ⟨⟨hres, h.ground.evolve (h.ground.machine.sameTables hsame)
    (hsame.evolves (W := fun _ => False)) fun _ _ _ _ hc => hc⟩, hsame⟩

/-- The heap does not lie on the bitmap. -/
theorem Seated.apart (h : Seated p₀ top m) (hb : SafeBitmap p₀) : ∀ v ∈ heapCells (top * 4096),
    ∀ a, mmu m.phys v = some a → ∀ c ∈ m.bitmapCells, virtToPhys c ≠ a := by
  rintro v hv a ha c hc rfl
  obtain ⟨f, -, hfree, hmmu⟩ := h.cell hv
  have hon := (h.resident.byte hc).2
  rw [Option.some.inj (ha.symm.trans hmmu), frameOf_inFrame] at hon
  exact hb.spare _ hfree ((h.sound.bitmapFrame _).1 hon)

/-- **What was in the heap is there still** when it has grown, or has failed to. -/
theorem Seated.view_eq (h : Seated p₀ top m) (hb : SafeBitmap p₀)
    (hu : Untouched p₀ m.layer (InPages top n) m') (hx : x ∈ heapCells (top * 4096)) :
    m'.view x = m.view x := by
  obtain ⟨f, hback, hfree, hmmu⟩ := h.cell hx
  have hlt := x.isLt
  have hback' := hback.evolve hu.evolves fun hc => by
    have h2 := (mem_heapCells.1 hx).2
    obtain ⟨hc, -⟩ := hc
    rw [pageAddr_toNat (by omega)] at hc
    omega
  have hframe : (inFrame f x).toNat / 4096 = f.val := congrArg Fin.val (frameOf_inFrame f x)
  have hout : ∀ m : Machine, Sound p₀ m → ¬ m.OnBitmap ((inFrame f x).toNat / 4096) :=
    fun m hm hc => hb.spare _ hfree ((hm.bitmapFrame _).1 (hframe ▸ hc))
  rw [Machine.view_of_mmu hmmu, Machine.view_of_mmu (hback'.mmu hu.sound.resident rfl),
    ← Machine.layer_phys (hout m h.sound), ← Machine.layer_phys (hout m' hu.sound)]
  exact bytes_of_tables (hu.kept f (h.ground.machine.free_ne_dir hfree) hback.taken
    hback.noTable) (frameOf_inFrame f x)

/-- **The loop of `heap_grow`.** -/
theorem Seated.growPages (h : Seated p₀ top m) (hb : SafeBitmap p₀) (hlo : 0xC1000 ≤ top)
    (hhi : top + n ≤ 0x100000) (hlow : m.layer.TablesLow top n) (faults : List Bool) :
    wp (heapGrowPages Flat.backing (pageAddr top) n)
      (fun ok t => Seated p₀ (if ok then top + n else top) t.1 ∧
        (∀ x ∈ heapCells (top * 4096), t.1.view x = m.view x) ∧
        (Faithful faults ok → Grown m.layer top n ok t.1.layer))
      (fun _ _ => False) (m, faults) := by
  refine wp_mono (Sound.growPages hb n top m faults h.sound hlo hhi hlow) ?_ fun _ _ hc => hc
  rintro ok ⟨m', faults'⟩ ⟨hu, hgrown⟩
  refine ⟨⟨hu.sound.resident, ?_⟩, fun x hx => h.view_eq hb hu hx, hgrown⟩
  cases ok with
  | true => exact h.ground.grow hu.sound.machine hu.evolves (hgrown (.inl rfl)) hhi
  | false =>
    refine h.ground.evolve hu.sound.machine hu.evolves fun _ q _ h2 hc => ?_
    obtain ⟨hc, -⟩ := hc
    rw [pageAddr_toNat (by omega)] at hc
    omega

end

/-! ## The invariant -/

/-- The list is in order, and its headers are bytes of the heap's own frames. -/
structure HeapStanding (p₀ : Pmm) (s : Flat.State) (bs : List Block) : Prop where
  heap : HeapAt s.seen bs
  aligned : s.memory.heapVirtualCurrent.toNat % 4096 = 0
  seated : Seated p₀ s.memory.top s.machine

/-- The tables that growing the heap takes are in reach, if there is room for it. -/
def Flat.State.GrowthLow (s : Flat.State) (size : U32) : Prop :=
  RoomFor s.memory size → s.machine.seen.TablesLow s.memory.top (growPages size).toNat

section

variable {p₀ : Pmm} {s s' : Flat.State} {bs bs' : List Block} {mem mem' : Memory} {v : Mem}
  {size : U32}

theorem SameTables.tablesLow {m m' : Machine} (h : SameTables m m') {page n : Nat}
    (hlow : m.TablesLow page n) : m'.TablesLow page n := by
  have hdir : ∀ s, entryTarget (m'.tables dirFrame s) = entryTarget (m.tables dirFrame s) :=
    fun s => congrArg entryTarget (h.dir s)
  intro i hi hno hnew
  have hold := hlow i hi
  unfold Machine.HasTable Machine.framesNeeded Machine.absentSlots at *
  simp only [hdir] at hno hnew ⊢
  rw [h.pmm]
  exact hold hno hnew

/-- The heap ends at a page. -/
theorem Memory.current_eq (h : mem.heapVirtualCurrent.toNat % 4096 = 0) :
    mem.heapVirtualCurrent.toNat = mem.top * 4096 ∧ mem.heapVirtualCurrent = pageAddr mem.top := by
  have hlt := mem.heapVirtualCurrent.isLt
  have htop : mem.top = mem.heapVirtualCurrent.toNat / 4096 := rfl
  refine ⟨by omega, BitVec.eq_of_toNat_eq ?_⟩
  rw [pageAddr_toNat (by omega)]
  omega

theorem HeapStanding.bounds (h : HeapStanding p₀ s bs) :
    s.memory.heapVirtualCurrent.toNat = s.memory.top * 4096 ∧ 0xC1000 ≤ s.memory.top ∧
      s.memory.top * 4096 ≤ 0xE0000000 := by
  have hcurrent := (Memory.current_eq h.aligned).1
  have hlimit : s.memory.heapVirtualCurrent.toNat ≤ 0xE0000000 := h.heap.limit
  have hle : 0xC1000000 ≤ s.memory.heapVirtualCurrent.toNat := h.heap.tiles.le
  omega

/-- The cells of the heap show what the kernel sees. -/
theorem HeapStanding.image (h : HeapStanding p₀ s bs) :
    Image (heapCells (s.memory.top * 4096)) s.machine s.machine s.seen.vmem :=
  h.seated.cells.image

/-- **The list, when cells have been written.** -/
theorem HeapStanding.of_image (h : HeapStanding p₀ s bs) (hb : SafeBitmap p₀)
    (hi : Image (heapCells (s.memory.top * 4096)) s.machine s'.machine v)
    (hmem : s'.memory = s.memory) (hheap : HeapAt { s.memory with vmem := v } bs') :
    HeapStanding p₀ s' bs' := by
  have hcurrent := h.bounds.1
  refine ⟨?_, by rw [hmem]; exact h.aligned, ?_⟩
  · rw [Flat.State.seen, hmem]
    exact hheap.congr fun x hx => hi.shows x (by rwa [← hcurrent])
  · rw [hmem]
    exact (h.seated.stored hi.stored (h.seated.apart hb)).1

@[simp] theorem wp_flatGetMemory {Q : Memory → Flat.State → Prop}
    {S : Stop → Flat.State → Prop} : wp Flat.getMemory Q S s ↔ Q s.memory s := Iff.rfl

@[simp] theorem wp_flatModifyMemory (f : Memory → Memory) {Q : Unit → Flat.State → Prop}
    {S : Stop → Flat.State → Prop} :
    wp (Flat.modifyMemory f) Q S s ↔ Q () { s with memory := f s.memory } := Iff.rfl

/-! ## The search -/

theorem HeapStanding.find (h : HeapStanding p₀ s bs) (size : U32) :
    Flat.heapFindFreeBlock size s = .ret (match bs.find? (Block.fits size.toNat) with
      | some b => b.ptr
      | none => 0) s := by
  obtain ⟨hcurrent, -, hlimit⟩ := h.bounds
  have hhead : s.memory.heapHead = firstPtr 0 bs := h.heap.head
  have hwalk := h.image.findFreeFrom hlimit size bs WALK_STEPS h.heap.chain fun b hb => by
    rw [← hcurrent]
    exact h.heap.headerIn hb
  rw [findFreeFrom_spec size bs WALK_STEPS h.heap.chain (fun _ hb => h.heap.inWindow hb)
    h.heap.length_lt] at hwalk
  rw [Flat.heapFindFreeBlock, bind_ret (show Flat.getMemory s = .ret s.memory s from rfl), hhead]
  unfold Flat.inMemory zoom
  rw [hwalk]
  rfl

/-! ## Growing -/

/-- The statics have moved and the new pages are there: what is left of `heap_grow`. -/
theorem HeapAt.flatGrown {m : Machine} {n : Nat} {regionSize : U32} {faults : List Bool}
    (hold : HeapAt { mem with vmem := m.view } bs) (hb : SafeBitmap p₀)
    (haligned : mem.heapVirtualCurrent.toNat % 4096 = 0) (hbytes : regionSize.toNat = n * 4096)
    (hn : 0 < n) (hend : mem.heapVirtualCurrent.toNat + n * 4096 ≤ 0xE0000000)
    (hseated : Seated p₀ (mem.top + n) m) :
    wp (Flat.heapAddRegion mem.heapVirtualCurrent regionSize)
      (fun _ s' => HeapStanding p₀ s'
        (bs ++ [⟨mem.heapVirtualCurrent.toNat, n * 4096 - 12, true⟩]) ∧
        SameStatics mem s'.memory ∧ SameTables m.layer s'.machine.layer)
      (fun _ _ => False)
      ⟨mem.withRegion regionSize mem.vmem mem.heapHead, m, faults⟩ := by
  have hlo : 0xC1000000 ≤ mem.heapVirtualCurrent.toNat := hold.tiles.le
  have htop : mem.heapVirtualCurrent.toNat + n * 4096 = (mem.top + n) * 4096 := by
    rw [(Memory.current_eq haligned).1]
    ring
  have hsize : 12 < regionSize.toNat := by omega
  obtain ⟨hcurrent, -, -⟩ := hold.grown hsize
    (by change mem.heapVirtualCurrent.toNat + _ ≤ _; omega)
  change (mem.heapVirtualCurrent + regionSize).toNat = mem.heapVirtualCurrent.toNat + _ at hcurrent
  obtain ⟨vmem, head, hadd, hheap⟩ := hold.addRegion hsize
    (by change mem.heapVirtualCurrent.toNat + _ ≤ _; omega)
  refine wp_mono (hseated.cells.image.addRegion (s := ⟨mem.withRegion regionSize mem.vmem
    mem.heapHead, m, faults⟩) (by omega) hlo (by omega) hold.head hold.chain
    (fun b hb => ⟨hold.inWindow hb, hold.headerIn hb⟩) hold.length_lt) ?_ fun _ _ hc => hc
  rintro _ s' ⟨v, himage, hflat⟩
  -- the list in memory is the one the other `heap_add_region` makes
  have hmem : { s'.memory with vmem := v } =
      Memory.withRegion { mem with vmem := m.view } regionSize vmem head :=
    Option.some.inj (hflat.symm.trans hadd)
  have hcur : s'.memory.heapVirtualCurrent = mem.heapVirtualCurrent + regionSize :=
    congrArg Memory.heapVirtualCurrent hmem
  have hvalue : s'.memory.heapVirtualCurrent.toNat = (mem.top + n) * 4096 := by
    rw [hcur, hcurrent, hbytes, htop]
  have htop' : s'.memory.top = mem.top + n := by
    rw [Memory.top, hvalue]
    exact Nat.mul_div_cancel _ (by decide)
  rw [← hmem, hbytes] at hheap
  have hsame : SameStatics mem { s'.memory with vmem := v } := by
    rw [hmem]
    exact ⟨rfl, rfl, rfl, rfl, rfl, rfl⟩
  obtain ⟨hseated', htables⟩ := hseated.stored himage.stored (hseated.apart hb)
  refine ⟨⟨?_, by omega, ?_⟩, ⟨hsame.start, hsame.current, hsame.limit, hsame.enabled,
    hsame.errors, hsame.ranges⟩, htables⟩
  · exact hheap.congr fun x hx => himage.shows x (by rwa [← hvalue])
  · rw [htop']
    exact hseated'

/-- What `heap_grow` leaves behind: a region more, or nothing. -/
structure Grew (p₀ : Pmm) (s : Flat.State) (bs : List Block) (size : U32) (ok : Bool)
    (s' : Flat.State) : Prop where
  standing : HeapStanding p₀ s' (if ok then bs ++ [regionBlock s.memory size] else bs)
  statics : SameStatics s.memory s'.memory
  failed : ok = false → s'.memory = s.memory
  /-- With no call told to fail, it is a matter of the frames that are free. -/
  pages : s.faults = [] → RoomFor s.memory size → ∃ l, Grown s.machine.layer s.memory.top
    (growPages size).toNat ok l ∧ SameTables l s'.machine.layer

/-- **`heap_grow`.** -/
theorem HeapStanding.grow (h : HeapStanding p₀ s bs) (hb : SafeBitmap p₀)
    (hlow : s.GrowthLow size) :
    wp (Flat.heapGrow size) (fun ok s' => Grew p₀ s bs size ok s') (fun _ _ => False) s := by
  obtain ⟨hcurrent, hlo, hlimit⟩ := h.bounds
  have hroom := roomFor_iff (m := s.memory) h.heap.limit size
  have hpages := growPages_bounds size
  have hbytes := regionBytes_toNat size
  have hrefused (hno : ¬ RoomFor s.memory size) : Grew p₀ s bs size false s :=
    ⟨h, .refl _, fun _ => rfl, fun _ hc => absurd hc hno⟩
  unfold Flat.heapGrow
  rw [wp_bind, wp_flatGetMemory]
  dsimp only
  rw [← regionBytes]
  by_cases h1 : s.memory.heapVirtualCurrent + regionBytes size < s.memory.heapVirtualCurrent
  · rw [if_pos h1]
    exact hrefused fun hc => (hroom.1 hc).1 h1
  by_cases h2 : s.memory.heapVirtualCurrent + regionBytes size > KERNEL_HEAP_END
  · rw [if_neg h1, if_pos h2]
    exact hrefused fun hc => (hroom.1 hc).2 h2
  have hin : RoomFor s.memory size := hroom.2 ⟨h1, h2⟩
  have hend : s.memory.heapVirtualCurrent.toNat + (growPages size).toNat * 4096 ≤ 0xE0000000 := hin
  have hlow' := h.seated.resident.sameTables.tablesLow (hlow hin)
  rw [if_neg h1, if_neg h2, wp_bind, Flat.onBacking, wp_zoom, (Memory.current_eq h.aligned).2]
  refine wp_mono (h.seated.growPages hb hlo (by omega) hlow' s.faults) ?_ fun _ _ hc => hc
  rintro ok ⟨m', faults'⟩ ⟨hseated, hview, hgrown⟩
  have hold : HeapAt { s.memory with vmem := m'.view } bs := h.heap.congr fun x hx =>
    hview x (by rwa [← hcurrent])
  cases ok with
  | false =>
    exact ⟨⟨hold, h.aligned, hseated⟩, .refl _, fun _ => rfl,
      fun hf _ => ⟨_, hgrown (.inr hf), .refl _⟩⟩
  | true =>
    dsimp only at hseated hold hgrown ⊢
    rw [if_pos rfl] at hseated
    rw [← (Memory.current_eq h.aligned).2]
    simp only [Bool.not_true, Bool.false_eq_true, if_false, wp_bind, wp_flatModifyMemory]
    refine wp_mono (hold.flatGrown hb h.aligned hbytes (by omega) hend hseated) ?_ fun _ _ hc => hc
    rintro _ s' ⟨hstanding, hsame, htables⟩
    exact ⟨hstanding, hsame, fun hc => (by cases hc), fun _ _ => ⟨_, hgrown (.inl rfl), htables⟩⟩

/-! ## `kmalloc` -/

/-- **A block is used.** -/
theorem HeapStanding.takeBlock (h : HeapStanding p₀ s bs) (hb : SafeBitmap p₀) {b : Block}
    (hsize : alignUpSize size MEMORY_DEFAULT_ALIGNMENT = size)
    (hfind : bs.find? (Block.fits size.toNat) = some b) :
    wp (Flat.takeBlock b.ptr size)
      (fun p s' => s'.memory = s.memory ∧ p ≠ 0 ∧
        ∃ bs', HeapStanding p₀ s' bs' ∧ Malloced bs size.toNat p bs')
      (fun _ _ => False) s := by
  obtain ⟨hfits, xs, ys, rfl, hfirst⟩ := List.find?_eq_some_iff_append.1 hfind
  have hle : size.toNat ≤ b.size := by
    rw [Block.fits, Bool.and_eq_true, decide_eq_true_eq] at hfits
    exact hfits.2
  have hmem : b ∈ xs ++ b :: ys := by simp
  have hin := h.heap.inWindow hmem
  obtain ⟨-, hheader, -⟩ := chain_append.1 h.heap.chain
  obtain ⟨vmem, hsplit, hheap, hout⟩ := h.heap.take hsize hle
  have hserves : Serves s.seen (xs ++ b :: ys) size (b.ptr + HEAP_BLOCK_BYTES)
      { s.seen with vmem := vmem.write32 (b.ptr + 4#32) 0 } :=
    .intro xs b ys _ rfl (fun c hc => by simpa using hfirst c hc) hfits rfl rfl hheap hout
  obtain ⟨-, bs', hheap', hmalloced⟩ := hserves.malloced h.heap
  obtain ⟨hcurrent, -, hlimit⟩ := h.bounds
  have hstop : b.stop ≤ s.memory.top * 4096 := by
    rw [← hcurrent]
    exact (h.heap.tiles.mem_bounds hmem).2.2
  have hin' : HeaderIn (s.memory.top * 4096) b := by
    rw [← hcurrent]
    exact h.heap.headerIn hmem
  rw [Flat.takeBlock, wp_bind, Flat.inMemory, wp_zoom]
  refine wp_mono (h.image.splitBlock hlimit hin hheader hstop hsize hle s.seen rfl) ?_
    fun _ _ hc => hc
  intro _ m1 h1
  rw [hsplit] at h1
  rw [wp_bind, Flat.inMemory, wp_zoom]
  refine wp_mono (h1.store32 (hin'.word hlimit (by decide)) 0) ?_ fun _ _ hc => hc
  intro _ m2 h2
  exact ⟨rfl, hserves.ptr_ne h.heap, bs', h.of_image hb h2 rfl hheap', hmalloced⟩

/-- **`kmalloc`**, once the backend is enabled. -/
theorem HeapStanding.kmalloc (h : HeapStanding p₀ s bs) (hb : SafeBitmap p₀)
    (he : s.memory.memoryPmmBackendEnabled = true)
    (hlow : NeedsGrowth s.seen (alignUpSize size MEMORY_DEFAULT_ALIGNMENT) →
      s.GrowthLow (alignUpSize size MEMORY_DEFAULT_ALIGNMENT)) :
    wp (Flat.kmalloc size)
      (fun p s' => SameStatics s.memory s'.memory ∧ ∃ bs', HeapStanding p₀ s' bs' ∧
        Malloced bs (alignUpSize size MEMORY_DEFAULT_ALIGNMENT).toNat p bs')
      (fun _ _ => False) s := by
  have hidem := alignUpSize_idem size
  rw [Flat.kmalloc]
  by_cases h0 : size = 0
  · rw [if_pos h0]
    exact ⟨.refl _, bs, h, .null rfl (.inl rfl)⟩
  rw [if_neg h0]
  dsimp only
  generalize alignUpSize size MEMORY_DEFAULT_ALIGNMENT = size' at hidem hlow
  rw [wp_bind, wp_flatGetMemory, he]
  simp only [Bool.not_true, Bool.false_eq_true, if_false]
  have hfound := h.find size'
  cases hf : bs.find? (Block.fits size'.toNat) with
  | some b =>
    rw [hf] at hfound
    rw [wp_bind_ret hfound, if_neg (h.heap.inWindow (List.mem_of_find?_eq_some hf)).ptr_ne]
    refine wp_mono (h.takeBlock hb hidem hf) ?_ fun _ _ hc => hc
    rintro p s' ⟨hmem, -, hq⟩
    exact ⟨hmem ▸ .refl _, hq⟩
  | none =>
    have hnone : Frewozet.heapFindFreeBlock size' s.seen = some 0 := by rw [h.heap.find, hf]
    rw [hf] at hfound
    rw [wp_bind_ret hfound, if_pos rfl, wp_bind]
    refine wp_mono (h.grow hb fun hroom => hlow ⟨hnone, hroom⟩ hroom) ?_ fun _ _ hc => hc
    intro ok s1 hgrow
    cases ok with
    | false =>
      exact ⟨hgrow.statics, bs, hgrow.standing, .null rfl (.inl rfl)⟩
    | true =>
      have h1 : HeapStanding p₀ s1 (bs ++ [regionBlock s.memory size']) := hgrow.standing
      have hfound1 := h1.find size'
      simp only [Bool.not_true, Bool.false_eq_true, if_false]
      rw [List.find?_append, hf, Option.none_or, List.find?_singleton] at hfound1
      by_cases hfits : (regionBlock s.memory size').fits size'.toNat = true
      · rw [if_pos hfits] at hfound1
        have hin := h1.heap.inWindow (b := regionBlock s.memory size') (by simp)
        rw [wp_bind_ret hfound1, if_neg hin.ptr_ne]
        refine wp_mono (h1.takeBlock hb hidem ?_) ?_ fun _ _ hc => hc
        · rw [List.find?_append, hf, Option.none_or, List.find?_singleton, if_pos hfits]
        · rintro p s' ⟨hmem, hp, bs', h2, hmalloced⟩
          exact ⟨hmem ▸ hgrow.statics, bs', h2, hmalloced.of_append rfl hp⟩
      · rw [if_neg hfits] at hfound1
        rw [wp_bind_ret hfound1, if_pos rfl]
        exact ⟨hgrow.statics, _, h1, .null rfl (.inr ⟨_, rfl, rfl⟩)⟩

/-! ## `memory_enable_pmm_backend` -/

theorem HeapStanding.setStatics (h : HeapStanding p₀ s bs) {mem : Memory}
    (hhead : mem.heapHead = s.memory.heapHead)
    (hcur : mem.heapVirtualCurrent = s.memory.heapVirtualCurrent)
    (hbytes : mem.heapCommittedBytes = s.memory.heapCommittedBytes) :
    HeapStanding p₀ { s with memory := mem } bs := by
  have htop : mem.top = s.memory.top := by rw [Memory.top, Memory.top, hcur]
  refine ⟨⟨hhead.trans h.heap.head, h.heap.chain, ?_, ?_, ?_⟩, ?_, ?_⟩
  · change BlockTiles _ mem.heapVirtualCurrent.toNat bs
    rw [hcur]
    exact h.heap.tiles
  · change mem.heapVirtualCurrent.toNat ≤ _
    rw [hcur]
    exact h.heap.limit
  · change mem.heapCommittedBytes.toNat + _ = mem.heapVirtualCurrent.toNat
    rw [hcur, hbytes]
    exact h.heap.committed
  · change mem.heapVirtualCurrent.toNat % 4096 = 0
    rw [hcur]
    exact h.aligned
  · change Seated p₀ mem.top s.machine
    rw [htop]
    exact h.seated

/-- What `memory_enable_pmm_backend` leaves behind when the backend was not enabled. -/
structure Enabled (p₀ : Pmm) (s : Flat.State) (bs : List Block) (s' : Flat.State) : Prop where
  standing : HeapStanding p₀ s' (if s'.memory.memoryPmmBackendEnabled then
    bs ++ [regionBlock s.memory 1] else bs)
  current : s'.memory.bootstrapHeapCurrent = s.memory.bootstrapHeapCurrent
  limit : s'.memory.bootstrapHeapLimit = s.memory.bootstrapHeapLimit
  ranges : s'.memory.bootRanges = s.memory.bootRanges
  pages : s.faults = [] → RoomFor s.memory 1 → ∃ l, Grown s.machine.layer s.memory.top 4
    s'.memory.memoryPmmBackendEnabled l ∧ SameTables l s'.machine.layer

/-- **Enabling the backend.** -/
theorem HeapStanding.enable (h : HeapStanding p₀ s bs) (hb : SafeBitmap p₀)
    (hdis : s.memory.memoryPmmBackendEnabled = false) (hlow : s.GrowthLow 1) :
    wp Flat.memoryEnablePmmBackend (fun _ s' => Enabled p₀ s bs s') (fun _ _ => False) s := by
  rw [Flat.memoryEnablePmmBackend, wp_bind, wp_flatGetMemory, hdis]
  simp only [Bool.false_eq_true, if_false]
  rw [wp_bind]
  refine wp_mono (h.grow hb hlow) ?_ fun _ _ hc => hc
  intro ok s1 hgrow
  cases ok with
  | false =>
    have hmem := hgrow.failed rfl
    have hdis' : s1.memory.memoryPmmBackendEnabled = false := by rw [hmem, hdis]
    simp only [Bool.not_false, if_true, wp_flatModifyMemory]
    refine ⟨?_, hgrow.statics.current, hgrow.statics.limit, hgrow.statics.ranges, ?_⟩
    · change HeapStanding p₀ _ (if s1.memory.memoryPmmBackendEnabled then _ else _)
      rw [hdis']
      exact hgrow.standing.setStatics rfl rfl rfl
    · change _ → _ → ∃ l, Grown _ _ _ s1.memory.memoryPmmBackendEnabled l ∧ _
      rw [hdis']
      exact hgrow.pages
  | true =>
    simp only [Bool.not_true, Bool.false_eq_true, if_false, wp_flatModifyMemory]
    exact ⟨hgrow.standing.setStatics rfl rfl rfl, hgrow.statics.current, hgrow.statics.limit,
      hgrow.statics.ranges, hgrow.pages⟩

end

end Frewozet
