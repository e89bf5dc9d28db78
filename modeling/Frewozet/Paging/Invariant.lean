import Frewozet.Paging.Map

/-!
# The invariant of the paging machine

What holds between two calls of `paging.c`, relative to the frame allocator `p₀`
that `pmm_init` left behind.

* `MachineOk` — the direct map is intact, every table that was not the loader's is
  a frame the allocator gave away, and it only ever gave away frames of `p₀`.
* `Evolves W m m'` — **what any call may change**: pages in `W` may be mapped anew
  or unmapped, free frames may be taken, frames that were free may become tables;
  nothing else.
* `machineOk_mapPage`, `machineOk_unmapPage`, `machineOk_allocPage` — the three
  calls keep the invariant and evolve the machine.
-/

namespace Frewozet

open Word Exec TwoLevel

/-- The invariant. -/
structure MachineOk (p₀ : Pmm) (m : Machine) : Prop where
  windowed : Windowed m.tables
  writable : DirWritable m.tables
  wf : m.pmm.Wf
  table : SameTable p₀ m.pmm
  free : ∀ f, m.pmm.Free f → p₀.Free f
  /-- Nothing below 1 MiB was ever free. -/
  high : ∀ f, p₀.Free f → 256 ≤ f
  /-- Tables other than the loader's were taken from the allocator and not given
  back. -/
  owned : ∀ t, IsTable entryTarget dirFrame m.tables t → t ≠ windowFrame →
    p₀.Free t.val ∧ ¬ m.pmm.Free t.val
  grants : ∀ g ∈ m.grants, ∀ f ∈ framesOf g, p₀.Free f

/-- What a call may change, `W` being the pages it may map or unmap. -/
structure Evolves (W : U32 → Prop) (m m' : Machine) : Prop where
  free : ∀ f, m'.pmm.Free f → m.pmm.Free f
  table : SameTable m.pmm m'.pmm
  isTable : ∀ t, IsTable entryTarget dirFrame m'.tables t →
    IsTable entryTarget dirFrame m.tables t ∨ (m.pmm.Free t.val ∧ ¬ m'.pmm.Free t.val)
  leaf : ∀ v, ¬ W v → ∀ e, leafOf m.tables v = some e → leafOf m'.tables v = some e
  grants : ∀ g ∈ m'.grants, g ∈ m.grants ∨ ∀ f ∈ framesOf g, m.pmm.Free f
  granted : ∀ g ∈ m.grants, g ∈ m'.grants
  writable : DirWritable m.tables → DirWritable m'.tables
  good : m.AllGood → m'.AllGood

section

variable {p₀ : Pmm} {W W' : U32 → Prop} {m m' m'' : Machine}

theorem Evolves.refl (W : U32 → Prop) (m : Machine) : Evolves W m m :=
  ⟨fun _ => id, .refl _, fun _ => .inl, fun _ _ _ => id, fun _ => .inl, fun _ => id, id, id⟩

theorem Evolves.trans (h : Evolves W m m') (h' : Evolves W m' m'') : Evolves W m m'' where
  free := fun f hf => h.free f (h'.free f hf)
  table := h.table.trans h'.table
  isTable := by
    intro t ht
    rcases h'.isTable t ht with ht | ⟨h1, h2⟩
    · rcases h.isTable t ht with ht | ⟨h1, h2⟩
      · exact .inl ht
      · exact .inr ⟨h1, fun hc => h2 (h'.free _ hc)⟩
    · exact .inr ⟨h.free _ h1, h2⟩
  leaf := fun v hv e he => h'.leaf v hv e (h.leaf v hv e he)
  grants := by
    intro g hg
    rcases h'.grants g hg with hg | hg
    · exact h.grants g hg
    · exact .inr fun f hf => h.free f (hg f hf)
  granted := fun g hg => h'.granted g (h.granted g hg)
  writable := fun hd => h'.writable (h.writable hd)
  good := fun hg => h'.good (h.good hg)

theorem Evolves.mono (h : Evolves W m m') (hW : ∀ v, W v → W' v) : Evolves W' m m' :=
  { h with leaf := fun v hv => h.leaf v fun hc => hv (hW v hc) }

theorem Machine.Quiet.evolves (h : m.Quiet m') : Evolves W m m' where
  free := by rw [h.pmm]; exact fun _ => id
  table := by rw [h.pmm]; exact .refl _
  isTable := by rw [h.tables]; exact fun _ => .inl
  leaf := by rw [h.tables]; exact fun _ _ _ => id
  grants := by rw [h.grants]; exact fun _ => .inl
  granted := by rw [h.grants]; exact fun _ => id
  writable := by rw [h.tables]; exact id
  good := h.good

/-- **The invariant follows the evolution.** -/
theorem MachineOk.evolve (h : MachineOk p₀ m) (he : Evolves W m m') (hw : Windowed m'.tables)
    (hwf : m'.pmm.Wf) : MachineOk p₀ m' where
  windowed := hw
  writable := he.writable h.writable
  wf := hwf
  table := h.table.trans he.table
  free := fun f hf => h.free f (he.free f hf)
  high := h.high
  owned := by
    intro t ht hne
    rcases he.isTable t ht with ht | ⟨h1, h2⟩
    · obtain ⟨h1, h2⟩ := h.owned t ht hne
      exact ⟨h1, fun hc => h2 (he.free _ hc)⟩
    · exact ⟨h.free _ h1, h2⟩
  grants := by
    intro g hg f hf
    rcases he.grants g hg with hg | hg
    · exact h.grants g hg f hf
    · exact h.free f (hg f hf)

/-- Free frames may become tables. -/
theorem MachineOk.fresh (h : MachineOk p₀ m) : Fresh m := by
  intro f hf
  have hhigh := h.high _ (h.free _ hf)
  refine ⟨?_, fun ht => ?_⟩
  · rintro rfl
    exact absurd hhigh (by decide)
  · by_cases hw : f = windowFrame
    · rw [hw] at hhigh
      exact absurd hhigh (by decide)
    · exact (h.owned f ht hw).2 hf

theorem MachineOk.quiet (h : MachineOk p₀ m) (hq : m.Quiet m') : MachineOk p₀ m' :=
  h.evolve (hq.evolves (W := fun _ => False)) (by rw [hq.tables]; exact h.windowed)
    (by rw [hq.pmm]; exact h.wf)

/-! ## `paging_map_page` -/

theorem nextTableLow_iff (hwf : m.pmm.Wf) :
    NextTableLow m ↔ m.pmm.freeCount = 0 ∨ 0 < m.pmm.freeBelow 1024 := by
  rw [NextTableLow, Pmm.freeCount_eq_zero hwf, Pmm.freeBelow_pos]

theorem framesOf_one {t : Frame} {f : Nat} (hf : f ∈ framesOf (frameAddr t.val, 1)) :
    f = t.val := by
  rw [framesOf_frameAddr t.isLt] at hf
  have h1 : t.val ≤ f := hf.1
  have h2 : f < t.val + 1 := hf.2
  omega

/-- What mapping a page changes, wherever the tables lie. -/
theorem StoresPage.evolves {virt pte : U32} {pde : Frame → U32} {ok : Bool}
    (hs : StoresPage m virt pte pde ok m') (hp : Proper entryTarget dirFrame m.tables)
    (hwf : m.pmm.Wf) (hbit : ∀ t, pde t &&& PAGE_WRITABLE ≠ 0) :
    Evolves (SamePage · virt) m m' where
  free := fun _ => hs.free hwf
  table := hs.sameTable hwf
  isTable := fun _ => hs.isTable hp hwf
  leaf := fun _ hv _ => hs.leaf_other hp hv
  grants := by
    cases hs with
    | failed _ _ _ hquiet => rw [hquiet.grants]; exact fun _ => .inl
    | kept _ _ _ _ _ hgrants => rw [hgrants]; exact fun _ => .inl
    | made t _ hfree _ _ _ _ hgrants =>
      rw [hgrants]
      intro g hg
      rcases List.mem_cons.1 hg with rfl | hg
      · exact .inr fun f hf => by rwa [framesOf_one hf]
      · exact .inl hg
  granted := by
    cases hs with
    | failed _ _ _ hquiet => rw [hquiet.grants]; exact fun _ => id
    | kept _ _ _ _ _ hgrants => rw [hgrants]; exact fun _ => id
    | made t _ _ _ _ _ _ hgrants => rw [hgrants]; exact fun _ hg => List.mem_cons_of_mem _ hg
  writable := hs.writable hp hwf hbit
  good := hs.good

theorem MapsPage.evolves {virt pte : U32} {ok : Bool} (h : MachineOk p₀ m)
    (hm : MapsPage m virt pte ok m') : Evolves (SamePage · virt) m m' := by
  obtain ⟨_, hbit, hs⟩ := hm.stores
  exact hs.evolves h.windowed.proper h.wf hbit

/-- The mapping leaves the direct map alone: the page is not one of its pages, or
it keeps its frame. -/
def KeepsWindow (virt phys : U32) : Prop :=
  slotOf virt = windowSlot → (frameOf phys).val = (indexOf virt).val

instance (virt phys : U32) : Decidable (KeepsWindow virt phys) :=
  inferInstanceAs (Decidable (_ → _))

/-- **`paging_map_page` keeps the invariant.** -/
theorem machineOk_mapPage (h : MachineOk p₀ m) {virt phys flags : U32}
    (hkeeps : KeepsWindow virt phys)
    (hreach : entryTarget (m.tables dirFrame (slotOf virt)) = none → NextTableLow m) :
    wp (pagingMapPage virt phys flags)
      (fun ok m' => MapsPage m virt (pteOf phys flags) ok m' ∧ MachineOk p₀ m' ∧
        Evolves (SamePage · virt) m m') (fun _ _ => False) m := by
  refine wp_mono (pagingMapPage_spec h.windowed h.wf h.fresh virt phys flags hreach) ?_
    fun _ _ hf => hf
  intro ok m' hm
  have he := hm.evolves h
  exact ⟨hm, h.evolve he (hm.windowed h.windowed fun hs =>
    ⟨_, entryTarget_pteOf phys flags, hkeeps hs⟩) (hm.wf h.wf), he⟩

/-! ## `paging_unmap_page` -/

/-- What unmapping a page changes. -/
theorem DropsPage.evolves {virt : U32} (hd : DropsPage m virt m')
    (hp : Proper entryTarget dirFrame m.tables) : Evolves (SamePage · virt) m m' := by
  cases hd with
  | absent _ hquiet => exact hquiet.evolves
  | dropped t ht htables hpmm hgrants hgood =>
    have hdir := fun j => set_dir (i := indexOf virt) (e := (0 : U32)) hp ht j
    exact {
      free := by rw [hpmm]; exact fun _ => id
      table := by rw [hpmm]; exact .refl _
      isTable := fun f hf => by
        rw [htables, isTable_congr hdir] at hf
        exact .inl hf
      leaf := fun v hv e he => by
        rw [samePage_iff] at hv
        rw [htables, leafOf, leaf_set hp ht, if_neg hv, ← he]
      grants := by rw [hgrants]; exact fun _ => .inl
      granted := by rw [hgrants]; exact fun _ => id
      writable := fun hd => by rw [htables]; exact hd.congr hdir
      good := hgood }

/-- **`paging_unmap_page` keeps the invariant**, outside the direct map. -/
theorem machineOk_unmapPage (h : MachineOk p₀ m) {virt : U32} (hslot : slotOf virt ≠ windowSlot) :
    wp (pagingUnmapPage virt) (fun _ m' => MachineOk p₀ m' ∧ Evolves (SamePage · virt) m m' ∧
      m'.pmm = m.pmm) (fun _ _ => False) m := by
  refine wp_mono (pagingUnmapPage_of h.windowed.inReach h.wf virt) ?_ fun _ _ hf => hf
  intro _ m' hdrops
  have he := hdrops.evolves h.windowed.proper
  cases hdrops with
  | absent hno hquiet => exact ⟨h.quiet hquiet, he, hquiet.pmm⟩
  | dropped t ht htables hpmm hgrants hgood =>
    have hset := h.windowed.of_set (i := indexOf virt) (e := 0) ht fun hc => absurd hc hslot
    refine ⟨h.evolve he ?_ ?_, he, hpmm⟩
    · rw [htables]
      exact hset
    · rw [hpmm]
      exact h.wf

/-! ## `paging_alloc_page` -/

/-- A frame has been taken from the allocator. -/
def Machine.take (m : Machine) (t : Frame) : Machine :=
  { m with pmm := m.pmm.takeRun t.val 1, grants := (frameAddr t.val, 1) :: m.grants }

theorem evolves_take (hwf : m.pmm.Wf) {t : Frame} (ht : m.pmm.Free t.val) :
    Evolves W m (m.take t) where
  free := fun f hf => ((Pmm.free_takeRun hwf ht.lt f).1 hf).1
  table := sameTable_takeRun hwf ht.1 ht.lt
  isTable := fun _ => .inl
  leaf := fun _ _ _ => id
  grants := by
    intro g hg
    rcases List.mem_cons.1 hg with rfl | hg
    · exact .inr fun f hf => by rwa [framesOf_one hf]
    · exact .inl hg
  granted := fun _ hg => List.mem_cons_of_mem _ hg
  writable := id
  good := id

theorem MachineOk.take (h : MachineOk p₀ m) {t : Frame} (ht : m.pmm.Free t.val) :
    MachineOk p₀ (m.take t) :=
  h.evolve (evolves_take (W := fun _ => False) h.wf ht) h.windowed (h.wf.takeRun ht.lt)

/-- The machine differs in frames that are not tables. -/
structure SameTables (m m' : Machine) : Prop where
  dir : ∀ j, m'.tables dirFrame j = m.tables dirFrame j
  table : ∀ t, IsTable entryTarget dirFrame m.tables t → ∀ j, m'.tables t j = m.tables t j
  pmm : m'.pmm = m.pmm
  grants : m'.grants = m.grants
  touches : m'.touches = m.touches

theorem SameTables.refl (m : Machine) : SameTables m m :=
  ⟨fun _ => rfl, fun _ _ _ => rfl, rfl, rfl, rfl⟩

theorem SameTables.leaf (h : SameTables m m') (v : U32) :
    leafOf m'.tables v = leafOf m.tables v := leaf_congr h.dir h.table

theorem SameTables.walk (h : SameTables m m') (v : U32) :
    walkOf m'.tables v = walkOf m.tables v :=
  congrArg (fun e => Option.bind e entryTarget) (h.leaf v)

theorem SameTables.evolves (h : SameTables m m') : Evolves W m m' where
  free := by rw [h.pmm]; exact fun _ => id
  table := by rw [h.pmm]; exact .refl _
  isTable := fun t ht => .inl ((isTable_congr h.dir).1 ht)
  leaf := fun v _ e he => by rw [h.leaf, he]
  grants := by rw [h.grants]; exact fun _ => .inl
  granted := by rw [h.grants]; exact fun _ => id
  writable := fun hd => hd.congr h.dir
  good := by unfold Machine.AllGood; rw [h.touches]; exact id

theorem SameTables.trans (h : SameTables m m') (h' : SameTables m' m'') : SameTables m m'' :=
  ⟨fun j => (h'.dir j).trans (h.dir j),
    fun t ht j => (h'.table t ((isTable_congr h.dir).2 ht) j).trans (h.table t ht j),
    h'.pmm.trans h.pmm, h'.grants.trans h.grants, h'.touches.trans h.touches⟩

theorem MachineOk.sameTables (h : MachineOk p₀ m) (hs : SameTables m m') : MachineOk p₀ m' :=
  h.evolve (hs.evolves (W := fun _ => False)) (h.windowed.congr hs.dir hs.table)
    (by rw [hs.pmm]; exact h.wf)

/-- A byte of a frame that is neither the directory nor a table. -/
theorem sameTables_write8 {g : Frame} (hdir : g ≠ dirFrame)
    (htable : ¬ IsTable entryTarget dirFrame m.tables g) {a : U32} (ha : a.toNat / 4096 = g.val)
    (b : U8) : SameTables m { m with phys := m.phys.write8 a b } :=
  ⟨fun j => tables_write8 m.phys ha b hdir.symm j,
    fun t ht j => tables_write8 m.phys ha b (by rintro rfl; exact htable ht) j, rfl, rfl, rfl⟩

/-- A word of such a frame. -/
theorem sameTables_write32 {g : Frame} (hdir : g ≠ dirFrame)
    (htable : ¬ IsTable entryTarget dirFrame m.tables g) {a : U32} (ha : a.toNat / 4096 = g.val)
    (hword : a.toNat % 4 = 0) (w : U32) : SameTables m { m with phys := m.phys.write32 a w } := by
  have hlt := a.isLt
  have hout : ∀ f : Frame, f ≠ g → ∀ x : U32, frameOf x = f → m.phys.write32 a w x = m.phys x := by
    intro f hne x hx
    refine Mem.write32_outside m.phys w (by omega) ?_
    have hval : x.toNat / 4096 = f.val := congrArg Fin.val hx
    have hne : f.val ≠ g.val := fun hc => hne (Fin.ext hc)
    omega
  exact ⟨tables_congr_frame (hout dirFrame hdir.symm),
    fun t ht => tables_congr_frame (hout t (by rintro rfl; exact htable ht)), rfl, rfl, rfl⟩

/-- **Writing data** through addresses that lead to no table leaves the tables
alone, whether or not an address turns out not to be mapped. -/
theorem wp_memset_data (b : U8) : ∀ (n : Nat) (dest : U32) (m : Machine),
    (∀ k < n, ∀ g, walkOf m.tables (dest + BitVec.ofNat 32 k) = some g →
      g ≠ dirFrame ∧ ¬ IsTable entryTarget dirFrame m.tables g) →
    wp (memset dataAccess dest b n) (fun _ => SameTables m) (fun _ => SameTables m) m := by
  intro n
  induction n with
  | zero => intro dest m _; exact .refl m
  | succ n ih =>
    intro dest m hhit
    rw [memset, wp_bind]
    unfold dataAccess
    cases hmmu : mmu m.phys dest with
    | none => simp only [wp, hmmu]; exact .refl m
    | some a =>
      simp only [wp, hmmu]
      rw [mmu_eq] at hmmu
      obtain ⟨g, hg, rfl⟩ := Option.map_eq_some_iff.1 hmmu
      obtain ⟨hdir, htable⟩ := hhit 0 (Nat.succ_pos n) g (by rw [BitVec.add_zero]; exact hg)
      have hframe : (inFrame g dest).toNat / 4096 = g.val := by rw [inFrame_toNat]; omega
      have hone := sameTables_write8 hdir htable hframe b
      have hrest := ih (dest + 1#32) { m with phys := m.phys.write8 (inFrame g dest) b } ?_
      · exact wp_mono hrest (fun _ _ => hone.trans) fun _ _ => hone.trans
      · intro k hk f hf
        rw [Mem.add_one_add, hone.walk] at hf
        obtain ⟨h1, h2⟩ := hhit (k + 1) (by omega) f hf
        exact ⟨h1, fun hc => h2 ((isTable_congr hone.dir).1 hc)⟩

/-- Where `memset` goes when the page it zeroes does not start at a page boundary:
every frame it reaches outside the page is neither free nor the directory nor a
table. -/
def Spills (m : Machine) (virt : U32) : Prop :=
  ∀ k < 4096, ¬ SamePage (virt + BitVec.ofNat 32 k) virt →
    ∀ g, walkOf m.tables (virt + BitVec.ofNat 32 k) = some g →
      ¬ m.pmm.Free g.val ∧ g ≠ dirFrame ∧ ¬ IsTable entryTarget dirFrame m.tables g

/-- A frame that was taken and put back, with nothing else done. -/
theorem evolves_giveBack (hwf : m.pmm.Wf) {t : Frame} (ht : m.pmm.Free t.val)
    (hquiet : (m.take t).Quiet m') : Evolves W m { m' with pmm := m.pmm } where
  free := fun _ => id
  table := .refl _
  isTable := fun f hf => by
    change IsTable entryTarget dirFrame m'.tables f at hf
    rw [hquiet.tables] at hf
    exact .inl hf
  leaf := fun v _ e hl => by
    change leafOf m'.tables v = some e
    rw [hquiet.tables]
    exact hl
  grants := fun g hg => (evolves_take (W := W) hwf ht).grants g (by rw [← hquiet.grants]; exact hg)
  granted := fun g hg => by
    change g ∈ m'.grants
    rw [hquiet.grants]
    exact (evolves_take (W := W) hwf ht).granted g hg
  writable := fun hd => by
    change DirWritable m'.tables
    rw [hquiet.tables]
    exact hd
  good := fun hg => hquiet.good hg

/-- The frame goes back where no table could be made. -/
theorem MachineOk.giveBack (h : MachineOk p₀ m) {t : Frame} (ht : m.pmm.Free t.val)
    (hquiet : (m.take t).Quiet m') :
    pmmFreePage (frameAddr t.val) m'.pmm = m.pmm ∧ MachineOk p₀ { m' with pmm := m.pmm } ∧
      Evolves W m { m' with pmm := m.pmm } := by
  have htables : (Machine.tables { m' with pmm := m.pmm }) = m.tables := hquiet.tables
  refine ⟨?_, ?_, evolves_giveBack h.wf ht hquiet⟩
  · rw [hquiet.pmm]
    exact pmmFreePage_takeRun h.wf ht
  · refine h.evolve (evolves_giveBack (W := fun _ => False) h.wf ht hquiet) ?_ h.wf
    rw [htables]
    exact h.windowed

/-- Zeroing the page reaches the new frame and what it spills into, none of them a table. -/
theorem MapsPage.hits {t : Frame} {virt flags : U32} (h : MachineOk p₀ m) (ht : m.pmm.Free t.val)
    (hspill : Spills m virt)
    (hmap : MapsPage (m.take t) virt (pteOf (frameAddr t.val) flags) true m')
    (he : Evolves W (m.take t) m') :
    ∀ k < PAGE_SIZE, ∀ g, walkOf m'.tables (virt + BitVec.ofNat 32 k) = some g →
      g ≠ dirFrame ∧ ¬ IsTable entryTarget dirFrame m'.tables g := by
  have hself : walkOf m'.tables virt = some t := by
    rw [hmap.walk_self h.windowed, entryTarget_pteOf, frameOf_frameAddr]
  -- a table of the new machine is an old one or a frame that was free
  have hnew : ∀ g : Frame, IsTable entryTarget dirFrame m'.tables g →
      IsTable entryTarget dirFrame m.tables g ∨ (m.pmm.Free g.val ∧ g ≠ t) := by
    intro g hg
    rcases he.isTable g hg with hg | ⟨hg, -⟩
    · exact .inl hg
    · rw [show (m.take t).pmm = m.pmm.takeRun t.val 1 from rfl,
        Pmm.free_takeRun h.wf ht.lt] at hg
      exact .inr ⟨hg.1, by rintro rfl; exact hg.2 ⟨le_refl _, Nat.lt_succ_self _⟩⟩
  intro k hk g hg
  by_cases hpage : SamePage (virt + BitVec.ofNat 32 k) virt
  · obtain ⟨hs, hi⟩ := samePage_iff.1 hpage
    rw [walkOf, hs, hi] at hg
    obtain rfl : t = g := Option.some.inj (hself.symm.trans hg)
    obtain ⟨hdir, htable⟩ := h.fresh t ht
    refine ⟨hdir, fun hc => ?_⟩
    rcases hnew t hc with hc | hc
    · exact htable hc
    · exact hc.2 rfl
  · rw [hmap.walk_other h.windowed hpage] at hg
    obtain ⟨hfree, hdir, htable⟩ := hspill k hk hpage g hg
    refine ⟨hdir, fun hc => ?_⟩
    rcases hnew g hc with hc | hc
    · exact htable hc
    · exact hfree hc.1

/-- **`paging_alloc_page` keeps the invariant**, also when it stops in the middle of
zeroing the page. -/
theorem machineOk_allocPage (h : MachineOk p₀ m) {virt flags : U32}
    (hslot : slotOf virt ≠ windowSlot) (hspill : Spills m virt)
    (hreach : entryTarget (m.tables dirFrame (slotOf virt)) = none →
      m.pmm.freeCount ≤ 1 ∨ 2 ≤ m.pmm.freeBelow 1024) :
    wp (pagingAllocPage virt flags)
      (fun _ m' => MachineOk p₀ m' ∧ Evolves (SamePage · virt) m m')
      (fun _ m' => MachineOk p₀ m' ∧ Evolves (SamePage · virt) m m') m := by
  unfold pagingAllocPage
  rw [wp_bind]
  refine wp_allocPage h.wf (fun _ => ⟨h, .refl _ _⟩) fun t ht hfirst => ?_
  have hwf1 : (m.take t).pmm.Wf := h.wf.takeRun ht.lt
  have h1 : MachineOk p₀ (m.take t) := h.take ht
  have he1 : Evolves (SamePage · virt) m (m.take t) := evolves_take h.wf ht
  simp only [frameAddr_ne_zero t.isLt (h.wf.pos ht), if_false]
  rw [wp_bind]
  refine wp_mono (machineOk_mapPage h1 (fun hc => absurd hc hslot) fun hnone => ?_) ?_
    fun _ _ hf => hf.elim
  · have hcount := Pmm.freeCount_take h.wf ht hfirst
    have hbelow := Pmm.freeBelow_take h.wf ht hfirst 1024
    rw [nextTableLow_iff hwf1]
    change (m.pmm.takeRun t.val 1).freeCount = 0 ∨ 0 < (m.pmm.takeRun t.val 1).freeBelow 1024
    have := hreach hnone
    omega
  · rintro ok m2 ⟨hmap, h2, he2⟩
    cases ok with
    | false =>
      -- the frame goes back
      cases hmap with
      | failed _ hnone hno hquiet =>
        obtain ⟨hback, hok, he⟩ := h.giveBack (W := (SamePage · virt)) ht hquiet
        simp only [Bool.not_false, if_true]
        change MachineOk p₀ { m2 with pmm := pmmFreePage (frameAddr t.val) m2.pmm } ∧
          Evolves (SamePage · virt) m { m2 with pmm := pmmFreePage (frameAddr t.val) m2.pmm }
        rw [hback]
        exact ⟨hok, he⟩
      | kept _ hres => cases hres
      | made _ _ hres => cases hres
    | true =>
      simp only [Bool.not_true, Bool.false_eq_true, if_false]
      rw [wp_bind]
      refine wp_mono (wp_memset_data 0 PAGE_SIZE virt m2 (hmap.hits h ht hspill he2)) ?_ ?_
      all_goals
        intro _ m3 h3
        exact ⟨h2.sameTables h3, (he1.trans he2).trans h3.evolves⟩

end

end Frewozet
