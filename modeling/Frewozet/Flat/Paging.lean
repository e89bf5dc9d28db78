import Frewozet.Flat.Pmm

/-!
# `paging.c`, over that `pmm.c`

The page tables of a machine that has its bitmap in memory.

* `Flat.pagingGetPageTable`, `Flat.pagingMapPage`, `Flat.pagingUnmapPage` — the code, with frames
  from `Flat.pmmAllocPage`.
* `simulates_getPageTable`, `simulates_mapPage`, `simulates_unmapPage` — **they do what the
  functions over a list of words do**, as long as the pages of the bitmap stay where they are.
-/

namespace Frewozet

open Word Exec TwoLevel

/-! ## The code -/

namespace Flat

/-- `paging_get_page_table`. -/
def pagingGetPageTable : U32 → Bool → U32 → Exec Machine U32 := pagingGetPageTableBy pmmAllocPage

/-- `paging_map_page`. -/
def pagingMapPage : U32 → U32 → U32 → Exec Machine Bool := pagingMapPageBy pmmAllocPage

/-- `paging_unmap_page`. -/
def pagingUnmapPage : U32 → Exec Machine Unit := pagingUnmapPageBy pmmAllocPage

end Flat

/-! ## Accesses to a table -/

section

variable {m l : Machine} {f t : Frame}

theorem simulates_loadTable (h : Layered m l) (hmap : InDirectMap l.phys f)
    (hf : ¬ BitmapFrame l.pmm f.val) (i : Fin 1024) :
    Simulates Layered (loadTable (physToVirt (entryAddr f i)))
      (loadTable (physToVirt (entryAddr f i))) m l := by
  obtain ⟨rfl, h⟩ := h
  have hread : m.layer.phys.read32 (entryAddr f i) = m.phys.read32 (entryAddr f i) := by
    rw [read32_entryAddr, read32_entryAddr]
    exact Machine.layer_tables hf i
  have hentry := hmap.entry i
  refine .of_wp (a := m.phys.read32 (entryAddr f i)) ?_ ((wp_loadTable ?_).2 ⟨rfl, h.touched _⟩)
  · unfold loadTable tableAccess
    simp only [bind, hentry]
    rw [← hread]
    rfl
  · rw [← h.layer_mmu]
    exact hentry

/-- An entry is stored after which the pages of the bitmap are where they were. -/
theorem simulates_storeTable (h : Layered m l) (hmap : InDirectMap l.phys f)
    (hf : ¬ BitmapFrame l.pmm f.val) (i : Fin 1024) (w : U32)
    (hdirect : ∀ g : Frame, BitmapFrame l.pmm g.val →
      InDirectMap (l.phys.write32 (entryAddr f i) w) g)
    (htable : ∀ t, IsTable entryTarget dirFrame (tables (l.phys.write32 (entryAddr f i) w)) t →
      ¬ BitmapFrame l.pmm t.val) :
    Simulates Layered (storeTable (physToVirt (entryAddr f i)) w)
      (storeTable (physToVirt (entryAddr f i)) w) m l := by
  obtain ⟨rfl, h⟩ := h
  have hentry := hmap.entry i
  refine .of_ret (storeTable_ret ?_) (storeTable_ret hentry) (h.store hf _ i w hdirect htable)
  rw [← h.layer_mmu]
  exact hentry

/-- **Zeroing a frame that has just been taken.** -/
theorem simulates_memset (hdir : t ≠ dirFrame) (b : U8) : ∀ (n : Nat) (a : U32) (m l : Machine),
    Layered m l → InDirectMap l.phys t → ¬ IsTable entryTarget dirFrame l.tables t →
      ¬ BitmapFrame l.pmm t.val → t.val * 4096 ≤ a.toNat → a.toNat + n ≤ (t.val + 1) * 4096 →
      Simulates Layered (memset tableAccess (physToVirt a) b n)
        (memset tableAccess (physToVirt a) b n) m l := by
  intro n
  induction n with
  | zero => exact fun _ _ _ h _ _ _ _ _ => simulates_pure h ()
  | succ n ih =>
    rintro a m _ ⟨rfl, h⟩ hmap htable hout hlo hhi
    have hbelow := hmap.below
    have hframe : a.toNat / 4096 = t.val := by omega
    have hnext : (a + 1#32).toNat = a.toNat + 1 := Mem.toNat_add_of_lt (k := 1) (by omega)
    have hsame : ∀ f, f ≠ t → ∀ j, tables (m.layer.phys.write8 a b) f j = m.layer.tables f j :=
      fun f hf j => tables_write8 m.layer.phys hframe b hf j
    have hnow := hmap.mmu hframe
    have haccess : ∀ m : Machine, mmu m.phys (physToVirt a) = some a →
        tableAccess (physToVirt a) m = .ret a (m.touched (physToVirt a)) := fun m hm => by
      rw [tableAccess, hm]
    have hwrite : ∀ m : Machine, Exec.modify (fun m => { m with phys := m.phys.write8 a b })
        (m.touched (physToVirt a)) =
          .ret () { m.touched (physToVirt a) with phys := m.phys.write8 a b } := fun _ => rfl
    rw [memset]
    refine .step (haccess m (h.layer_mmu ▸ hnow)) (haccess m.layer hnow)
      (.step (hwrite m) (hwrite m.layer) ?_)
    rw [physToVirt_add]
    refine ih (a + 1#32) _ _ (h.storeFresh hout hdir htable (physToVirt a) hframe b)
      (hmap.congr (walkOf_congr hdir htable hsame)) ?_ hout (by omega) (by omega)
    exact fun hc => htable ((isTable_congr (hsame dirFrame hdir.symm)).1 hc)

/-! ## The functions -/

theorem bitmapFrame_takeRun (p : Pmm) (s n f : Nat) :
    BitmapFrame (p.takeRun s n) f ↔ BitmapFrame p f := by
  rw [BitmapFrame, BitmapFrame, Pmm.length_takeRun, Pmm.takeRun_bitmap]

/-- The frame that has been taken is zeroed and becomes the table of a slot that had none. -/
theorem simulates_newTable {m₁ l₁ : Machine} (h : Layered m l) (hreach : TablesInReach l.phys)
    {s : Fin 1024} {w : U32} (hvacant : Vacant entryTarget dirFrame l.tables s t 0 w)
    (hfree : l.pmm.Free t.val) (hmap : InDirectMap l.phys t) (h₁ : Layered m₁ l₁)
    (hphys : l₁.phys = l.phys) (hpmm : l₁.pmm = l.pmm.takeRun t.val 1) (r : U32) :
    Simulates Layered
      (do
        memset tableAccess (physToVirt (frameAddr t.val)) 0 PAGE_SIZE
        storeTable (physToVirt (entryAddr dirFrame s)) w
        return r)
      (do
        memset tableAccess (physToVirt (frameAddr t.val)) 0 PAGE_SIZE
        storeTable (physToVirt (entryAddr dirFrame s)) w
        return r) m₁ l₁ := by
  have hdir := hvacant.apart
  have haddr := frameAddr_frame t
  have hon : ∀ f, BitmapFrame l₁.pmm f ↔ BitmapFrame l.pmm f := fun f => by
    rw [hpmm, bitmapFrame_takeRun]
  have hT1 : l₁.tables = l.tables := by rw [Machine.tables, hphys]
  have htable1 : ¬ IsTable entryTarget dirFrame l₁.tables t := by
    rw [hT1]
    exact hvacant.table
  refine (simulates_memset hdir 0 PAGE_SIZE (frameAddr t.val) m₁ l₁ h₁ (hphys ▸ hmap) htable1
    (fun hc => h.spare hfree ((hon _).1 hc)) (by omega) (by unfold PAGE_SIZE; omega)).bind_of
    (wp_zeroFrame hdir (hphys ▸ hmap) htable1) ?_
  rintro _ m2 l2 h2 ⟨hT2, hpmm2, -, -⟩
  rw [hT1] at hT2
  have hdir2 := h.dir
  rw [← hon, ← hpmm2] at hdir2
  have hT3 : tables (l2.phys.write32 (entryAddr dirFrame s) w) =
      install l.tables dirFrame s t 0 w := by
    rw [tables_write32, install, ← hT2]
  refine (simulates_storeTable h2 (hreach.dir.zeroed hdir hvacant.table hT2) hdir2 _ _
    (fun g hg => ?_) fun u hu => ?_).bind fun _ m3 l3 _ _ h3 => simulates_pure h3 _
  · rw [hpmm2, hon] at hg
    refine (h.direct hg).congr fun v => ?_
    rw [hT3]
    exact walk_install hreach.proper hvacant
  · rw [hpmm2, hon]
    rw [hT3, isTable_install hvacant] at hu
    rcases hu with rfl | hu
    · exact h.spare hfree
    · exact h.table hu

/-- **`paging_get_page_table`.** -/
theorem simulates_getPageTable (h : Layered m l) (hreach : TablesInReach l.phys) (hwf : l.pmm.Wf)
    (virt : U32) (create : Bool) (flags : U32)
    (hnext : create = true → entryTarget (l.tables dirFrame (slotOf virt)) = none →
      NextTableInReach l) :
    Simulates Layered (Flat.pagingGetPageTable virt create flags)
      (pagingGetPageTable virt create flags) m l := by
  have hentry := hreach.dir.entry (slotOf virt)
  unfold Flat.pagingGetPageTable pagingGetPageTable pagingGetPageTableBy
  dsimp only
  rw [pagingDir_addr]
  refine (simulates_loadTable h hreach.dir h.dir _).bind_of
    ((wp_loadTable (Q := fun pde l' => pde = l.tables dirFrame (slotOf virt) ∧
      l.Quiet l') (S := fun _ _ => False) hentry).2 ⟨read32_entryAddr .., quiet_touched hentry⟩) ?_
  rintro pde m0 l0 h0 ⟨rfl, hquiet⟩
  by_cases hp : l.tables dirFrame (slotOf virt) &&& PAGE_PRESENT = 0
  swap
  · rw [if_pos hp, if_pos hp]
    exact simulates_pure h0 _
  rw [if_neg (not_not.2 hp), if_neg (not_not.2 hp)]
  cases create with
  | false => exact simulates_pure h0 _
  | true =>
    simp only [Bool.not_true, Bool.false_eq_true, if_false]
    have hphys := hquiet.phys
    have hpmm := hquiet.pmm
    have hnone := entryTarget_eq_none.2 hp
    refine (simulates_allocContiguous h0 1).bind_of (wp_allocPage
      (Q := fun a l1 => a = 0 ∨ ∃ t : Frame, l.pmm.Free t.val ∧ (∀ f < t.val, ¬ l.pmm.Free f) ∧
        a = frameAddr t.val ∧ l1.phys = l.phys ∧ l1.pmm = l.pmm.takeRun t.val 1)
      (S := fun _ _ => False) (hpmm ▸ hwf) (fun _ => .inl rfl) fun t hfree hfirst =>
        .inr ⟨t, hpmm ▸ hfree, hpmm ▸ hfirst, rfl, hphys, by rw [hpmm]⟩) ?_
    rintro a m1 l1 h1 (rfl | ⟨t, hfree, hfirst, rfl, hphys1, hpmm1⟩)
    · exact simulates_pure h1 _
    obtain ⟨hdir, htable, hmap⟩ := hnext rfl hnone t hfree hfirst
    rw [if_neg (frameAddr_ne_zero t.isLt (hwf.pos hfree))]
    exact simulates_newTable h hreach
      ⟨hnone, hdir, htable, by rw [entryTarget_or, frameOf_frameAddr], entryTarget_zero⟩ hfree hmap
      h1 hphys1 hpmm1 _

theorem walkOf_set {T : Frame → Fin 1024 → U32} {virt v e : U32}
    (hp : Proper entryTarget dirFrame T) (ht : entryTarget (T dirFrame (slotOf virt)) = some t) :
    walkOf (setEntry T t (indexOf virt) e) v =
      if SamePage v virt then entryTarget e else walkOf T v := by
  rw [walkOf, walk, leaf_set hp ht]
  by_cases hv : SamePage v virt
  · rw [if_pos hv, if_pos (samePage_iff.1 hv)]
    rfl
  · rw [if_neg hv, if_neg fun hc => hv (samePage_iff.2 hc)]
    rfl

/-- **An entry of a page is stored**: if it is a page of the bitmap, it goes where it went. -/
theorem simulates_storeEntry (h : Layered m l) (hreach : TablesInReach l.phys) {virt : U32}
    (ht : entryTarget (l.tables dirFrame (slotOf virt)) = some t) (e : U32)
    (hkeep : ∀ g : Frame, BitmapFrame l.pmm g.val →
      SamePage (physToVirt (frameAddr g.val)) virt → entryTarget e = some g) :
    Simulates Layered (storeTable (physToVirt (entryAddr t (indexOf virt))) e)
      (storeTable (physToVirt (entryAddr t (indexOf virt))) e) m l := by
  have htable : IsTable entryTarget dirFrame l.tables t := ⟨slotOf virt, ht⟩
  refine simulates_storeTable h (hreach.table t htable) (h.table htable) _ e (fun g hg => ?_)
    fun u hu => ?_
  · have hmap := h.direct hg
    refine ⟨hmap.below, ?_⟩
    rw [mmu_eq, tables_write32, walkOf_set hreach.proper ht]
    split
    · rename_i hv
      rw [hkeep g hg hv, ← hmap.walk, ← mmu_eq]
      exact hmap.reach
    · rw [← mmu_eq]
      exact hmap.reach
  · rw [tables_write32] at hu
    exact h.table ((isTable_congr (set_dir hreach.proper ht)).1 hu)

theorem TablesInReach.of_install {p p' : Mem} {s : Fin 1024} {e : U32} (h : TablesInReach p)
    (hv : Vacant entryTarget dirFrame (tables p) s t 0 e) (hmap : InDirectMap p t)
    (hT : tables p' = install (tables p) dirFrame s t 0 e) : TablesInReach p' := by
  have hwalk : ∀ v, walkOf (tables p') v = walkOf (tables p) v := fun v => by
    rw [hT]
    exact walk_install h.proper hv
  refine ⟨hT ▸ h.proper.of_install hv, h.dir.congr hwalk, fun u hu => ?_⟩
  rw [hT, isTable_install hv] at hu
  rcases hu with rfl | hu
  · exact hmap.congr hwalk
  · exact (h.table u hu).congr hwalk

/-- **`paging_map_page`**, which may map a page of the bitmap only to where it is. -/
theorem simulates_mapPage (h : Layered m l) (hreach : TablesInReach l.phys) (hwf : l.pmm.Wf)
    (virt phys flags : U32)
    (hnext : entryTarget (l.tables dirFrame (slotOf virt)) = none → NextTableInReach l)
    (hkeep : ∀ g : Frame, BitmapFrame l.pmm g.val →
      SamePage (physToVirt (frameAddr g.val)) virt → frameOf phys = g) :
    Simulates Layered (Flat.pagingMapPage virt phys flags) (pagingMapPage virt phys flags) m l := by
  unfold Flat.pagingMapPage pagingMapPage pagingMapPageBy
  dsimp only
  refine (simulates_getPageTable h hreach hwf (pagingAlignDown virt) true (tableFlagsOf flags)
    fun _ => by rwa [slotOf_alignDown]).bind_of (pagingGetPageTable_of hreach hwf
      (pagingAlignDown virt) true (tableFlagsOf flags) fun _ => by rwa [slotOf_alignDown]) ?_
  intro p m1 l1 h1 hget
  rw [slotOf_alignDown] at hget
  cases hget with
  | found t hslot hptr hquiet =>
    rw [hptr, if_neg (hreach.table t ⟨slotOf virt, hslot⟩).ptr_ne, physToVirt_add,
      frameEntry_addr, indexOf_alignDown]
    rw [← hquiet.phys] at hreach
    rw [← hquiet.tables] at hslot
    rw [← hquiet.pmm] at hkeep
    exact (simulates_storeEntry h1 hreach hslot (pteOf phys flags) fun g hg hv => by
      rw [entryTarget_pteOf, hkeep g hg hv]).bind fun _ _ _ _ _ h2 => simulates_pure h2 true
  | absent hslot hnone hptr hquiet =>
    rw [hptr, if_pos rfl]
    exact simulates_pure h1 false
  | made t pde _ hpde hfree hfirst hvacant hmap hptr htables hpmm hgrants hgood =>
    rw [hptr, if_neg hmap.ptr_ne, physToVirt_add, frameEntry_addr, indexOf_alignDown]
    have hslot : entryTarget (l1.tables dirFrame (slotOf virt)) = some t := by
      rw [htables, target_install hvacant, if_pos rfl]
    refine (simulates_storeEntry h1 (hreach.of_install hvacant hmap htables) hslot
      (pteOf phys flags) fun g hg hv => ?_).bind fun _ _ _ _ _ h2 => simulates_pure h2 true
    rw [hpmm, bitmapFrame_takeRun] at hg
    rw [entryTarget_pteOf, hkeep g hg hv]

/-- **`paging_unmap_page`**, for a page in which the bitmap is not. -/
theorem simulates_unmapPage (h : Layered m l) (hreach : TablesInReach l.phys) (hwf : l.pmm.Wf)
    (virt : U32)
    (hkeep : ∀ g : Frame, BitmapFrame l.pmm g.val →
      ¬ SamePage (physToVirt (frameAddr g.val)) virt) :
    Simulates Layered (Flat.pagingUnmapPage virt) (pagingUnmapPage virt) m l := by
  unfold Flat.pagingUnmapPage pagingUnmapPage pagingUnmapPageBy
  dsimp only
  refine (simulates_getPageTable h hreach hwf (pagingAlignDown virt) false 0
    fun hc => by cases hc).bind_of (pagingGetPageTable_of hreach hwf (pagingAlignDown virt) false 0
      fun hc => by cases hc) ?_
  intro p m1 l1 h1 hget
  rw [slotOf_alignDown] at hget
  cases hget with
  | found t hslot hptr hquiet =>
    rw [hptr, if_neg (hreach.table t ⟨slotOf virt, hslot⟩).ptr_ne, physToVirt_add,
      frameEntry_addr, indexOf_alignDown]
    rw [← hquiet.phys] at hreach
    rw [← hquiet.tables] at hslot
    rw [← hquiet.pmm] at hkeep
    exact simulates_storeEntry h1 hreach hslot 0 fun g hg hv => absurd hv (hkeep g hg)
  | absent hslot hnone hptr hquiet =>
    rw [hptr, if_pos rfl]
    exact simulates_pure h1 ()
  | made t pde hcreate => cases hcreate

end

end Frewozet
