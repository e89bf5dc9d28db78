import Mathlib.Data.Finset.Image
import Frewozet.Heap.Calls
import Frewozet.Paging.Loader

/-!
# Growing the heap on the real machine

`heap_grow` with `pmm.c` and `paging.c` behind it, in unbounded numbers: which
frames it needs, when they suffice, and what it leaves behind either way.

* `kernelBacking` — the backing of the kernel.
* `framesNeeded` — one frame for each page, and one for each page table that is
  missing.
* `TablesLow` — **every new table will lie below 4 MiB**: the condition, on the
  bitmap and the directory before the call, under which nothing goes wrong.
* `Grown`, `heapGrowPages_spec` — what the loop of `heap_grow` does then.
* `heapGrowPages_faults` — and how it ends on the first page when the table is out of
  reach.
-/

namespace Frewozet

open Word Exec TwoLevel

/-- `pmm.c` and `paging.c` under the heap. -/
def kernelBacking : Backing Machine where
  pmmAllocPage := allocFrames 1 pmmAllocPage
  pagingMapPage := Frewozet.pagingMapPage
  pmmFreePage := fun page => freeFrames (pmmFreePage page)
  mapped := fun m virt => (mmu m.phys virt).isSome

/-! ## Pages -/

/-- The address of a virtual page. -/
def pageAddr (q : Nat) : U32 := BitVec.ofNat 32 (q * 4096)

theorem pageAddr_toNat {q : Nat} (h : q < 0x100000) : (pageAddr q).toNat = q * 4096 :=
  toNat_ofNat_lt (by omega)

theorem pageAddr_add (q : Nat) : pageAddr q + PMM_PAGE_SIZE = pageAddr (q + 1) := by
  rw [pageAddr, pageAddr, Nat.add_mul, Nat.one_mul]
  exact ofNat_add_ofNat (q * 4096) 4096

theorem samePage_pageAddr {q : Nat} (h : q < 0x100000) (v : U32) :
    SamePage v (pageAddr q) ↔ v.toNat / 4096 = q := by
  rw [SamePage, pageAddr_toNat h, Nat.mul_div_cancel _ (by decide)]

/-- The page lies among `n` pages from `page` on. -/
def InPages (page n : Nat) (v : U32) : Prop := page ≤ v.toNat / 4096 ∧ v.toNat / 4096 < page + n

/-! ## Counting frames -/

/-- The directory has a table for the page. -/
def Machine.HasTable (m : Machine) (q : Nat) : Prop :=
  entryTarget (m.tables dirFrame (slotOf (pageAddr q))) ≠ none

instance (m : Machine) (q : Nat) : Decidable (m.HasTable q) := inferInstanceAs (Decidable (_ ≠ _))

/-- The places of the directory that lack a table for one of `n` pages from `page`
on. -/
def Machine.absentSlots (m : Machine) (page n : Nat) : Finset (Fin 1024) :=
  ((Finset.range n).image fun j => slotOf (pageAddr (page + j))).filter fun s =>
    entryTarget (m.tables dirFrame s) = none

/-- How many frames it takes to map `n` pages from `page` on. -/
def Machine.framesNeeded (m : Machine) (page n : Nat) : Nat := n + (m.absentSlots page n).card

/-- **Every table that mapping the pages takes will lie below 4 MiB**, frames being
taken from the lowest free one up: where page `i` is the first without a table, either
there is no frame left for one, or a free frame below 4 MiB is left once the frames
for the pages before it and its own are gone. -/
def Machine.TablesLow (m : Machine) (page n : Nat) : Prop :=
  ∀ i < n, ¬ m.HasTable (page + i) →
    slotOf (pageAddr (page + i)) ∉ m.absentSlots page i →
      m.pmm.freeCount ≤ m.framesNeeded page i + 1 ∨
        m.framesNeeded page i + 2 ≤ m.pmm.freeBelow 1024

instance (m : Machine) (page n : Nat) : Decidable (m.TablesLow page n) :=
  inferInstanceAs (Decidable (∀ _ < _, _))

section

variable {m m' : Machine} {page n : Nat}

theorem mem_absentSlots {s : Fin 1024} : s ∈ m.absentSlots page n ↔
    (∃ j < n, slotOf (pageAddr (page + j)) = s) ∧ entryTarget (m.tables dirFrame s) = none := by
  simp only [Machine.absentSlots, Finset.mem_filter, Finset.mem_image, Finset.mem_range]

/-- What is left to do once the first page has a table. -/
theorem absentSlots_succ
    (hdir : ∀ s, entryTarget (m'.tables dirFrame s) = none ↔
      entryTarget (m.tables dirFrame s) = none ∧ s ≠ slotOf (pageAddr page)) :
    m'.absentSlots (page + 1) n = (m.absentSlots page (n + 1)).erase (slotOf (pageAddr page)) := by
  ext s
  rw [Finset.mem_erase, mem_absentSlots, mem_absentSlots, hdir]
  constructor
  · rintro ⟨⟨j, hj, hs⟩, hnone, hne⟩
    exact ⟨hne, ⟨j + 1, by omega, by rw [← hs]; congr 2; omega⟩, hnone⟩
  · rintro ⟨hne, ⟨j, hj, hs⟩, hnone⟩
    refine ⟨?_, hnone, hne⟩
    cases j with
    | zero => exact absurd hs.symm hne
    | succ j => exact ⟨j, by omega, by rw [← hs]; congr 2; omega⟩

theorem framesNeeded_succ
    (hdir : ∀ s, entryTarget (m'.tables dirFrame s) = none ↔
      entryTarget (m.tables dirFrame s) = none ∧ s ≠ slotOf (pageAddr page)) :
    m.framesNeeded page (n + 1) =
      1 + (if m.HasTable page then 0 else 1) + m'.framesNeeded (page + 1) n := by
  unfold Machine.framesNeeded
  rw [absentSlots_succ hdir]
  by_cases h : m.HasTable page
  · rw [if_pos h, Finset.erase_eq_of_notMem fun hc => h (mem_absentSlots.1 hc).2]
    omega
  · have hmem : slotOf (pageAddr page) ∈ m.absentSlots page (n + 1) :=
      mem_absentSlots.2 ⟨⟨0, by omega, rfl⟩, not_not.1 h⟩
    rw [if_neg h, ← Finset.card_erase_add_one hmem]
    omega

theorem framesNeeded_zero : m.framesNeeded page 0 = 0 := by
  simp [Machine.framesNeeded, Machine.absentSlots]

theorem framesNeeded_pos : n ≤ m.framesNeeded page n := Nat.le_add_right _ _

/-- The condition on the first page. -/
theorem Machine.TablesLow.first (h : m.TablesLow page (n + 1)) (hno : ¬ m.HasTable page) :
    m.pmm.freeCount ≤ 1 ∨ 2 ≤ m.pmm.freeBelow 1024 := by
  have h0 := h 0 (by omega) hno (by simp [mem_absentSlots])
  rwa [framesNeeded_zero] at h0

/-- The condition on the others. -/
theorem Machine.TablesLow.rest (h : m.TablesLow page (n + 1))
    (hdir : ∀ s, entryTarget (m'.tables dirFrame s) = none ↔
      entryTarget (m.tables dirFrame s) = none ∧ s ≠ slotOf (pageAddr page))
    (hcount : m.pmm.freeCount = m'.pmm.freeCount + (1 + if m.HasTable page then 0 else 1))
    (hbelow : m'.pmm.freeBelow 1024 =
      m.pmm.freeBelow 1024 - (1 + if m.HasTable page then 0 else 1)) :
    m'.TablesLow (page + 1) n := by
  intro i hi hno hnew
  have hadd : page + 1 + i = page + (i + 1) := by omega
  unfold Machine.HasTable at hno
  rw [hadd, not_not, hdir] at hno
  rw [hadd, absentSlots_succ hdir, Finset.mem_erase, not_and] at hnew
  have hold := h (i + 1) (by omega) (not_not.2 hno.1) (hnew hno.2)
  rw [framesNeeded_succ hdir] at hold
  omega

end

/-! ## One page -/

/-- The body of the loop of `heap_grow`. -/
def growPage {σ : Type} (B : Backing σ) (virt : U32) : Exec σ Bool := do
  let physPage ← B.pmmAllocPage
  if physPage = 0 then
    return false
  else do
    let mapped ← B.pagingMapPage virt physPage PAGE_WRITABLE
    if !mapped then do
      B.pmmFreePage physPage
      return false
    else
      return true

theorem heapGrowPages_succ {σ : Type} (B : Backing σ) (virt : U32) (n : Nat) :
    heapGrowPages B virt (n + 1) = growPage B virt >>= fun ok =>
      if ok then heapGrowPages B (virt + PMM_PAGE_SIZE) n else pure false := by
  rw [heapGrowPages, growPage, bind_assoc]
  refine bind_congr fun physPage => ?_
  by_cases hp : physPage = 0
  · simp only [hp, if_true, pure_bind, Bool.false_eq_true, if_false]
  · simp only [hp, if_false, bind_assoc]
    refine bind_congr fun mapped => ?_
    cases mapped with
    | true => simp
    | false => simp

section

variable {p₀ : Pmm} {W : U32 → Prop} {m m' : Machine} {page n : Nat}

theorem MapsPage.slot_none {virt pte : U32} (h : MapsPage m virt pte true m')
    (hw : Windowed m.tables) (s : Fin 1024) : entryTarget (m'.tables dirFrame s) = none ↔
      entryTarget (m.tables dirFrame s) = none ∧ s ≠ slotOf virt := by
  cases h with
  | failed hres => cases hres
  | kept t _ hslot htables =>
    rw [htables, set_dir hw.proper hslot]
    refine ⟨fun hs => ⟨hs, ?_⟩, And.left⟩
    rintro rfl
    rw [hslot] at hs
    cases hs
  | made t pde _ _ _ _ hlow hvacant htables =>
    rw [htables, set_dir (hw.of_install hvacant hlow).proper
      (by rw [target_install hvacant, if_pos rfl]), target_install hvacant]
    by_cases hs : s = slotOf virt
    · simp [hs]
    · simp [hs]

/-- The frames a mapping has taken. -/
theorem MapsPage.counts {virt pte : U32} (h : MapsPage m virt pte true m') (hwf : m.pmm.Wf) :
    m.pmm.freeCount = m'.pmm.freeCount +
        (if entryTarget (m.tables dirFrame (slotOf virt)) ≠ none then 0 else 1) ∧
      m'.pmm.freeBelow 1024 = m.pmm.freeBelow 1024 -
        (if entryTarget (m.tables dirFrame (slotOf virt)) ≠ none then 0 else 1) := by
  cases h with
  | failed hres => cases hres
  | kept t _ hslot _ hpmm =>
    have hsome : entryTarget (m.tables dirFrame (slotOf virt)) ≠ none := by
      rw [hslot]
      exact Option.some_ne_none t
    rw [if_pos hsome, hpmm]
    exact ⟨(Nat.add_zero _).symm, (Nat.sub_zero _).symm⟩
  | made t pde _ _ hfree hfirst _ hvacant _ hpmm =>
    have hpos : m.pmm.freeCount ≠ 0 := fun hc => (Pmm.freeCount_eq_zero hwf).1 hc _ hfree
    rw [if_neg (not_not.2 hvacant.place), hpmm, Pmm.freeCount_take hwf hfree hfirst,
      Pmm.freeBelow_take hwf hfree hfirst]
    omega

/-- What the body of the loop returns and leaves behind. -/
inductive GrowsPage (m : Machine) (page : Nat) (ok : Bool) (m' : Machine) : Prop
  | failed (res : ok = false) (few : m.pmm.freeCount < 1 + if m.HasTable page then 0 else 1)
      (pmm : m'.pmm = m.pmm) (phys : m'.phys = m.phys)
  | mapped (t : Frame) (res : ok = true) (free : m.pmm.Free t.val)
      (first : ∀ f < t.val, ¬ m.pmm.Free f) (taken : ¬ m'.pmm.Free t.val)
      (noTable : ¬ IsTable entryTarget dirFrame m'.tables t)
      (leaf : leafOf m'.tables (pageAddr page) = some (pteOf (frameAddr t.val) PAGE_WRITABLE))
      (grant : (frameAddr t.val, 1) ∈ m'.grants)
      (dir : ∀ s, entryTarget (m'.tables dirFrame s) = none ↔
        entryTarget (m.tables dirFrame s) = none ∧ s ≠ slotOf (pageAddr page))
      (count : m.pmm.freeCount = m'.pmm.freeCount + (1 + if m.HasTable page then 0 else 1))
      (below : m'.pmm.freeBelow 1024 =
        m.pmm.freeBelow 1024 - (1 + if m.HasTable page then 0 else 1))

/-- A page of the heap is no page of the direct map. -/
theorem slotOf_pageAddr_ne {q : Nat} (hlo : 0xC1000 ≤ q) (hhi : q < 0x100000) :
    slotOf (pageAddr q) ≠ windowSlot := by
  intro hc
  have hval := congrArg Fin.val hc
  change (pageAddr q).toNat / 0x400000 = 768 at hval
  rw [pageAddr_toNat hhi] at hval
  omega

theorem growsPage_mapped (h : MachineOk p₀ m) {t : Frame} (ht : m.pmm.Free t.val)
    (hfirst : ∀ f < t.val, ¬ m.pmm.Free f)
    (hmap : MapsPage (m.take t) (pageAddr page) (pteOf (frameAddr t.val) PAGE_WRITABLE) true m')
    (he : Evolves W (m.take t) m') : GrowsPage m page true m' := by
  have hpos : m.pmm.freeCount ≠ 0 := fun hc => (Pmm.freeCount_eq_zero h.wf).1 hc _ ht
  have hcount : (m.take t).pmm.freeCount = m.pmm.freeCount - 1 := Pmm.freeCount_take h.wf ht hfirst
  have hbelow : (m.take t).pmm.freeBelow 1024 = m.pmm.freeBelow 1024 - 1 :=
    Pmm.freeBelow_take h.wf ht hfirst 1024
  have htaken : ¬ (m.take t).pmm.Free t.val := fun hc =>
    ((Pmm.free_takeRun h.wf ht.lt _).1 hc).2 ⟨le_refl _, Nat.lt_succ_self _⟩
  obtain ⟨hc1, hc2⟩ := hmap.counts (h.wf.takeRun ht.lt)
  refine .mapped t rfl ht hfirst (fun hc => htaken (he.free _ hc)) ?_
    (hmap.leaf_self h.windowed) (he.granted _ List.mem_cons_self) (hmap.slot_none h.windowed) ?_ ?_
  · intro hc
    rcases he.isTable t hc with hc | hc
    · exact (h.fresh t ht).2 hc
    · exact htaken hc.1
  · change m.pmm.freeCount = m'.pmm.freeCount +
      (1 + if entryTarget (m.tables dirFrame (slotOf (pageAddr page))) ≠ none then 0 else 1)
    change (m.take t).pmm.freeCount = m'.pmm.freeCount +
      (if entryTarget (m.tables dirFrame (slotOf (pageAddr page))) ≠ none then 0 else 1) at hc1
    omega
  · change m'.pmm.freeBelow 1024 = m.pmm.freeBelow 1024 -
      (1 + if entryTarget (m.tables dirFrame (slotOf (pageAddr page))) ≠ none then 0 else 1)
    change m'.pmm.freeBelow 1024 = (m.take t).pmm.freeBelow 1024 -
      (if entryTarget (m.tables dirFrame (slotOf (pageAddr page))) ≠ none then 0 else 1) at hc2
    omega

theorem growPage_spec (h : MachineOk p₀ m) (hlo : 0xC1000 ≤ page) (hhi : page < 0x100000)
    (hlow : ¬ m.HasTable page → m.pmm.freeCount ≤ 1 ∨ 2 ≤ m.pmm.freeBelow 1024) :
    wp (growPage kernelBacking (pageAddr page))
      (fun ok m' => GrowsPage m page ok m' ∧ MachineOk p₀ m' ∧ Evolves (InPages page 1) m m')
      (fun _ _ => False) m := by
  have hslot := slotOf_pageAddr_ne hlo hhi
  have hpages : ∀ v, SamePage v (pageAddr page) → InPages page 1 v := fun v hv => by
    rw [samePage_pageAddr hhi] at hv
    exact ⟨by omega, by omega⟩
  unfold growPage
  rw [wp_bind]
  refine wp_allocPage h.wf (fun hno => ⟨.failed rfl ?_ rfl rfl, h, .refl _ _⟩) fun t ht hfirst => ?_
  · rw [(Pmm.freeCount_eq_zero h.wf).2 hno]
    omega
  have hwf1 : (m.take t).pmm.Wf := h.wf.takeRun ht.lt
  have h1 : MachineOk p₀ (m.take t) := h.take ht
  have hcount : (m.take t).pmm.freeCount = m.pmm.freeCount - 1 := Pmm.freeCount_take h.wf ht hfirst
  have hbelow : (m.take t).pmm.freeBelow 1024 = m.pmm.freeBelow 1024 - 1 :=
    Pmm.freeBelow_take h.wf ht hfirst 1024
  simp only [frameAddr_ne_zero t.isLt (h.wf.pos ht), if_false]
  rw [wp_bind]
  refine wp_mono (@machineOk_mapPage p₀ (m.take t) h1 (pageAddr page) (frameAddr t.val)
    PAGE_WRITABLE (fun hc => absurd hc hslot) fun hnone => ?_) ?_ fun _ _ hf => hf
  · rw [nextTableLow_iff hwf1]
    have := hlow (not_not.2 hnone)
    omega
  rintro ok m2 ⟨hmap, h2, he2⟩
  cases ok with
  | false =>
    -- no frame for the table, and the page goes back
    cases hmap with
    | kept _ hres => cases hres
    | made _ _ hres => cases hres
    | failed _ hnone hno hquiet =>
      obtain ⟨hback, hok, he⟩ := h.giveBack (W := InPages page 1) ht hquiet
      simp only [Bool.not_false, if_true]
      rw [wp_bind]
      change GrowsPage m page false { m2 with pmm := pmmFreePage (frameAddr t.val) m2.pmm } ∧
        MachineOk p₀ { m2 with pmm := pmmFreePage (frameAddr t.val) m2.pmm } ∧
        Evolves (InPages page 1) m { m2 with pmm := pmmFreePage (frameAddr t.val) m2.pmm }
      rw [hback]
      refine ⟨.failed rfl ?_ rfl hquiet.phys, hok, he⟩
      have hzero := (Pmm.freeCount_eq_zero hwf1).2 hno
      have hnot : ¬ m.HasTable page := not_not.2 hnone
      rw [if_neg hnot]
      omega
  | true =>
    simp only [Bool.not_true, Bool.false_eq_true, if_false]
    exact ⟨growsPage_mapped h ht hfirst hmap he2, h2,
      (evolves_take h.wf ht).trans (he2.mono hpages)⟩

/-! ## All pages -/

/-- The page is mapped writable, to a frame that is taken and is no table. -/
structure Backs (m : Machine) (q : Nat) (f : Frame) : Prop where
  leaf : leafOf m.tables (pageAddr q) = some (pteOf (frameAddr f.val) PAGE_WRITABLE)
  taken : ¬ m.pmm.Free f.val
  noTable : ¬ IsTable entryTarget dirFrame m.tables f

theorem Backs.walk {q : Nat} {f : Frame} (h : Backs m q f) :
    walkOf m.tables (pageAddr q) = some f := by
  have hwalk : walkOf m.tables (pageAddr q) =
      (leafOf m.tables (pageAddr q)).bind entryTarget := rfl
  rw [hwalk, h.leaf, Option.bind_some, entryTarget_pteOf, frameOf_frameAddr]

/-- A page no call may touch keeps its frame. -/
theorem Backs.evolve {W : U32 → Prop} {q : Nat} {f : Frame} (h : Backs m q f)
    (he : Evolves W m m') (hW : ¬ W (pageAddr q)) : Backs m' q f where
  leaf := he.leaf _ hW _ h.leaf
  taken := fun hc => h.taken (he.free _ hc)
  noTable := by
    intro hc
    rcases he.isTable f hc with hc | ⟨hc, -⟩
    · exact h.noTable hc
    · exact h.taken hc

/-- What the loop of `heap_grow` returns and leaves behind. -/
structure Grown (m : Machine) (page n : Nat) (ok : Bool) (m' : Machine) : Prop where
  /-- It succeeds exactly if there are frames enough. -/
  enough : ok = true ↔ m.framesNeeded page n ≤ m.pmm.freeCount
  count : ok = true → m.pmm.freeCount = m'.pmm.freeCount + m.framesNeeded page n
  backed : ok = true → ∀ q, page ≤ q → q < page + n → ∃ f : Frame, Backs m' q f ∧ m.pmm.Free f.val
  distinct : ok = true → ∀ q q' f, page ≤ q → q < q' → q' < page + n →
    walkOf m'.tables (pageAddr q) = some f → walkOf m'.tables (pageAddr q') ≠ some f
  /-- With frames for the first page, that one stays mapped whatever comes after. -/
  first : 0 < n → (1 + if m.HasTable page then 0 else 1) ≤ m.pmm.freeCount →
    ∃ t : Frame, Backs m' page t ∧ m.pmm.Free t.val ∧ (∀ f < t.val, ¬ m.pmm.Free f) ∧
      (frameAddr t.val, 1) ∈ m'.grants
  /-- Without, nothing happens. -/
  few : 0 < n → (m.pmm.freeCount < 1 + if m.HasTable page then 0 else 1) →
    m'.pmm = m.pmm ∧ m'.phys = m.phys

theorem framesNeeded_ge : (1 + if m.HasTable page then 0 else 1) ≤ m.framesNeeded page (n + 1) := by
  unfold Machine.framesNeeded
  by_cases h : m.HasTable page
  · rw [if_pos h]
    omega
  · have hmem : slotOf (pageAddr page) ∈ m.absentSlots page (n + 1) :=
      mem_absentSlots.2 ⟨⟨0, by omega, rfl⟩, not_not.1 h⟩
    have := Finset.card_pos.2 ⟨_, hmem⟩
    rw [if_neg h]
    omega

theorem Grown.failed {n : Nat} (hg : GrowsPage m page false m') :
    Grown m page (n + 1) false m' := by
  cases hg with
  | mapped _ hres => cases hres
  | failed _ hfew hpmm hphys =>
    have hge := @framesNeeded_ge m page n
    exact ⟨⟨fun hc => (by cases hc), fun hc => by omega⟩, fun hc => (by cases hc),
      fun hc => (by cases hc), fun hc => (by cases hc), fun _ hc => by omega,
      fun _ _ => ⟨hpmm, hphys⟩⟩

/-- One page, and then the others. -/
theorem Grown.cons {m₁ : Machine} {ok : Bool} (hhi : page + (n + 1) ≤ 0x100000)
    (hg : GrowsPage m page true m₁) (he : Evolves (InPages page 1) m m₁)
    (hrest : Grown m₁ (page + 1) n ok m') (he' : Evolves (InPages (page + 1) n) m₁ m') :
    Grown m page (n + 1) ok m' := by
  cases hg with
  | failed hres => cases hres
  | mapped t _ hfree hfirst htaken hno hleaf hgrant hdir hcount hbelow =>
    have hout : ¬ InPages (page + 1) n (pageAddr page) := by
      rintro ⟨hc, -⟩
      rw [pageAddr_toNat (by omega), Nat.mul_div_cancel _ (by decide)] at hc
      omega
    have hself : Backs m' page t := (Backs.mk hleaf htaken hno).evolve he' hout
    have hneeded := framesNeeded_succ (n := n) hdir
    refine ⟨?_, fun hok => ?_, fun hok q hq1 hq2 => ?_,
      fun hok q q' f hq1 hq2 hq3 hw hw' => ?_, fun _ _ => ?_, fun _ hc => by omega⟩
    · rw [hrest.enough, hneeded]
      omega
    · have hcount' := hrest.count hok
      omega
    · by_cases hq : q = page
      · rw [hq]
        exact ⟨t, hself, hfree⟩
      · obtain ⟨f, hb, hf⟩ := hrest.backed hok q (by omega) (by omega)
        exact ⟨f, hb, he.free _ hf⟩
    · by_cases hq : q = page
      · obtain ⟨f', hb', hf'⟩ := hrest.backed hok q' (by omega) (by omega)
        rw [hq, hself.walk] at hw
        rw [hb'.walk] at hw'
        cases hw
        cases hw'
        exact htaken hf'
      · exact hrest.distinct hok q q' f (by omega) hq2 (by omega) hw hw'
    · exact ⟨t, hself, hfree, hfirst, he'.granted _ hgrant⟩

theorem inPages_mono {k l : Nat} (h : page ≤ k) (h' : k + l ≤ page + n) (v : U32)
    (hv : InPages k l v) : InPages page n v := by
  obtain ⟨h1, h2⟩ := hv
  exact ⟨by omega, by omega⟩

/-- **The loop of `heap_grow`**, with the tables it needs in reach: it never stops the
kernel, it keeps the invariant, and it succeeds exactly if there are frames
enough. -/
theorem heapGrowPages_spec : ∀ (n page : Nat) (m : Machine), MachineOk p₀ m → 0xC1000 ≤ page →
    page + n ≤ 0x100000 → m.TablesLow page n →
    wp (heapGrowPages kernelBacking (pageAddr page) n)
      (fun ok m' => Grown m page n ok m' ∧ MachineOk p₀ m' ∧ Evolves (InPages page n) m m')
      (fun _ _ => False) m := by
  intro n
  induction n with
  | zero =>
    intro page m h _ _ _
    have hzero := @framesNeeded_zero m page
    refine ⟨⟨?_, fun _ => by rw [hzero, Nat.add_zero], fun _ q hq1 hq2 => by omega,
      fun _ q q' f hq1 hq2 hq3 => by omega, fun hc => by omega, fun hc => by omega⟩, h, .refl _ _⟩
    simp [hzero]
  | succ n ih =>
    intro page m h hlo hhi hlow
    rw [heapGrowPages_succ, wp_bind]
    refine wp_mono (growPage_spec h hlo (by omega) hlow.first) ?_ fun _ _ hc => hc
    rintro ok m1 ⟨hgrow, h1, he1⟩
    have he1' : Evolves (InPages page (n + 1)) m m1 :=
      he1.mono fun v hv => inPages_mono (le_refl _) (by omega) v hv
    cases ok with
    | false => exact ⟨.failed hgrow, h1, he1'⟩
    | true =>
      rw [if_pos rfl, pageAddr_add]
      have hlow' : m1.TablesLow (page + 1) n := by
        cases hgrow with
        | failed hres => cases hres
        | mapped t _ _ _ _ _ _ _ hdir hcount hbelow => exact hlow.rest hdir hcount hbelow
      refine wp_mono (ih (page + 1) m1 h1 (by omega) (by omega) hlow') ?_ fun _ _ hc => hc
      rintro ok' m2 ⟨hrest, h2, he2⟩
      exact ⟨.cons hhi hgrow he1 hrest he2, h2,
        he1'.trans (he2.mono fun v hv => inPages_mono (by omega) (by omega) v hv)⟩

/-! ## When a table is out of reach -/

/-- Frames from 4 MiB on are not in the direct map. -/
theorem slotOf_physToVirt_ne {u : Nat} (hlo : 1024 ≤ u) (hhi : u < 0x100000) :
    slotOf (physToVirt (frameAddr u)) ≠ windowSlot := by
  intro hc
  have hval := congrArg Fin.val hc
  change (physToVirt (frameAddr u)).toNat / 0x400000 = 768 at hval
  have haddr := frameAddr_toNat hhi
  rw [physToVirt, BitVec.toNat_add, haddr,
    show KERNEL_VIRT_BASE.toNat = 0xC0000000 from rfl] at hval
  omega

/-- Nothing but the direct map is mapped. -/
def OnlyWindow (m : Machine) : Prop :=
  ∀ s, s ≠ windowSlot → entryTarget (m.tables dirFrame s) = none

theorem OnlyWindow.mmu_none (h : OnlyWindow m) {u : Nat} (hlo : 1024 ≤ u) (hhi : u < 0x100000) :
    mmu m.phys (physToVirt (frameAddr u)) = none := by
  have hslot := h _ (slotOf_physToVirt_ne hlo hhi)
  rw [mmu_eq, walkOf_dir]
  change Option.map _ ((entryTarget (m.tables dirFrame _)).bind _) = none
  rw [hslot]
  rfl

/-- An access to a table that is not mapped. -/
theorem wp_tableAccess_none {m : Machine} {addr : U32} (h : mmu m.phys addr = none)
    {Q : U32 → Machine → Prop} :
    wp (tableAccess addr) Q (fun w m' => w = .fault ∧ ¬ m'.AllGood) m := by
  unfold wp tableAccess
  rw [h]
  refine ⟨rfl, fun hg => ?_⟩
  have hbad := hg ⟨addr, mmu m.phys addr⟩ List.mem_cons_self
  rw [h] at hbad
  cases hbad

/-- **A new table that nothing maps**: zeroing it stops the kernel. -/
theorem pagingMapPage_faults (hw : Windowed m.tables) (hwf : m.pmm.Wf) (honly : OnlyWindow m)
    {virt : U32} (hslot : slotOf virt ≠ windowSlot) (hsome : m.pmm.freeCount ≠ 0)
    (hhigh : m.pmm.freeBelow 1024 = 0) (phys flags : U32) :
    wp (pagingMapPage virt phys flags) (fun _ _ => False)
      (fun w m' => w = .fault ∧ ¬ m'.AllGood) m := by
  have hdirlow := entryAddr_low dirFrame_low (slotOf virt)
  have hnone := honly _ hslot
  unfold pagingMapPage pagingMapPageBy
  dsimp only
  rw [wp_bind]
  unfold pagingGetPageTableBy
  dsimp only
  rw [pagingDir_addr, slotOf_alignDown, wp_bind, wp_loadTable (hw.reach hdirlow), read32_entryAddr,
    if_neg (not_not.2 (entryTarget_eq_none.1 hnone))]
  simp only [Bool.not_true, Bool.false_eq_true, if_false]
  rw [wp_bind]
  refine wp_allocPage (m := m.touched _) hwf
    (fun hno => absurd ((Pmm.freeCount_eq_zero hwf).2 hno) hsome) ?_
  intro u hu _
  have hlo : 1024 ≤ u.val := by
    by_contra hc
    exact Pmm.freeBelow_eq_zero.1 hhigh u.val (by omega) hu
  simp only [frameAddr_ne_zero u.isLt (hwf.pos hu), if_false]
  rw [wp_bind, show PAGE_SIZE = 4095 + 1 from rfl, memset, wp_bind]
  refine wp_tableAccess_none ?_
  exact honly.mmu_none hlo u.isLt

/-- So does growing the heap by any page, if it takes a table. -/
theorem heapGrowPages_faults (h : MachineOk p₀ m) (honly : OnlyWindow m) (hlo : 0xC1000 ≤ page)
    (hhi : page < 0x100000) (hcount : 2 ≤ m.pmm.freeCount) (hbelow : m.pmm.freeBelow 1024 ≤ 1)
    (n : Nat) :
    wp (heapGrowPages kernelBacking (pageAddr page) (n + 1)) (fun _ _ => False)
      (fun w m' => w = .fault ∧ ¬ m'.AllGood) m := by
  rw [heapGrowPages, wp_bind]
  refine wp_allocPage h.wf (fun hno => ?_) fun t ht hfirst => ?_
  · rw [(Pmm.freeCount_eq_zero h.wf).2 hno] at hcount
    omega
  have h1 : MachineOk p₀ (m.take t) := h.take ht
  have hc1 : (m.take t).pmm.freeCount = m.pmm.freeCount - 1 := Pmm.freeCount_take h.wf ht hfirst
  have hb1 : (m.take t).pmm.freeBelow 1024 = m.pmm.freeBelow 1024 - 1 :=
    Pmm.freeBelow_take h.wf ht hfirst 1024
  simp only [frameAddr_ne_zero t.isLt (h.wf.pos ht), if_false]
  rw [wp_bind]
  exact wp_mono (pagingMapPage_faults h1.windowed h1.wf honly (slotOf_pageAddr_ne hlo hhi)
    (by omega)
    (by omega) _ _) (fun _ _ hf => hf.elim) fun _ _ hs => hs

end

end Frewozet
