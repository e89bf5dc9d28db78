import Frewozet.Paging.Code

/-!
# Page tables in the direct map

What the functions of `paging.c` do to the tables, whatever else is mapped, as long
as every table they touch is where `PHYS_TO_VIRT` says it is.

* `InDirectMap m f` — frame `f` is translated back to itself.
* `TablesInReach`, `NextTableInReach` — so are the directory and all tables, and the
  frame the next table would take.
* `TableOf`, `pagingGetPageTable_of` — the table of an address, found or made.
* `StoresPage`, `pagingMapPage_of` and `DropsPage`, `pagingUnmapPage_of` — what
  mapping and unmapping a page does.  Neither stops the machine.
* `wp_memset_fresh` — zeroing a frame that is no table yet disturbs no walk.
-/

namespace Frewozet

open Word Exec TwoLevel

/-! ## The direct map -/

/-- A frame is found where `PHYS_TO_VIRT` puts it, above `KERNEL_VIRT_BASE`. -/
structure InDirectMap (m : Mem) (f : Frame) : Prop where
  below : f.val < 0x40000
  reach : mmu m (physToVirt (frameAddr f.val)) = some (frameAddr f.val)

theorem physToVirt_page {a : U32} {f : Frame} (ha : a.toNat / 4096 = f.val) :
    (physToVirt a).toNat / 4096 = (physToVirt (frameAddr f.val)).toNat / 4096 := by
  have haddr := frameAddr_frame f
  have hlt := a.isLt
  rw [physToVirt, physToVirt, BitVec.toNat_add, BitVec.toNat_add,
    show KERNEL_VIRT_BASE.toNat = 0xC0000000 from rfl]
  omega

/-- One byte of a page says where the others are. -/
theorem walkOf_of_page {T : Frame → Fin 1024 → U32} {v v' : U32}
    (h : v.toNat / 4096 = v'.toNat / 4096) : walkOf T v = walkOf T v' := by
  have hs : slotOf v = slotOf v' := by
    apply Fin.ext
    change v.toNat / 0x400000 = v'.toNat / 0x400000
    omega
  have hi : indexOf v = indexOf v' := by
    apply Fin.ext
    change v.toNat / 4096 % 1024 = v'.toNat / 4096 % 1024
    omega
  rw [walkOf, walkOf, hs, hi]

theorem inFrame_self {a : U32} {f : Frame} (ha : a.toNat / 4096 = f.val) :
    inFrame f (physToVirt a) = a := by
  apply BitVec.eq_of_toNat_eq
  have hlt := a.isLt
  rw [inFrame_toNat, physToVirt, BitVec.toNat_add,
    show KERNEL_VIRT_BASE.toNat = 0xC0000000 from rfl]
  omega

theorem InDirectMap.walk {m : Mem} {f : Frame} (h : InDirectMap m f) :
    walkOf (tables m) (physToVirt (frameAddr f.val)) = some f := by
  have hreach := h.reach
  rw [mmu_eq] at hreach
  obtain ⟨g, hg, hin⟩ := Option.map_eq_some_iff.1 hreach
  have hval := congrArg BitVec.toNat hin
  have haddr := frameAddr_frame f
  rw [inFrame_toNat] at hval
  rw [hg]
  exact congrArg some (Fin.ext (by omega))

/-- **Every byte of a frame in the direct map is found there.** -/
theorem InDirectMap.mmu {m : Mem} {f : Frame} (h : InDirectMap m f) {a : U32}
    (ha : a.toNat / 4096 = f.val) : mmu m (physToVirt a) = some a := by
  rw [mmu_eq, walkOf_of_page (physToVirt_page ha), h.walk, Option.map_some, inFrame_self ha]

theorem entryAddr_page (f : Frame) (i : Fin 1024) : (entryAddr f i).toNat / 4096 = f.val := by
  have hi := i.isLt
  rw [entryAddr_toNat]
  omega

theorem InDirectMap.entry {m : Mem} {f : Frame} (h : InDirectMap m f) (i : Fin 1024) :
    Frewozet.mmu m (physToVirt (entryAddr f i)) = some (entryAddr f i) :=
  h.mmu (entryAddr_page f i)

theorem InDirectMap.congr {m m' : Mem} {f : Frame} (h : InDirectMap m f)
    (hwalk : ∀ v, walkOf (tables m') v = walkOf (tables m) v) : InDirectMap m' f := by
  refine ⟨h.below, ?_⟩
  rw [mmu_eq, hwalk, ← mmu_eq]
  exact h.reach

theorem InDirectMap.ptr_ne {m : Mem} {f : Frame} (h : InDirectMap m f) :
    physToVirt (frameAddr f.val) ≠ 0 := by
  intro hc
  have hbelow := h.below
  have haddr := frameAddr_frame f
  have hv := physToVirt_toNat (a := frameAddr f.val) (by omega)
  rw [hc, show (0 : U32).toNat = 0 from rfl] at hv
  omega

/-- The tables are in order, and all of them are in the direct map. -/
structure TablesInReach (m : Mem) : Prop where
  proper : Proper entryTarget dirFrame (tables m)
  dir : InDirectMap m dirFrame
  table : ∀ t, IsTable entryTarget dirFrame (tables m) t → InDirectMap m t

/-- Whatever frame a new table would take, it is not a table yet, and it is in the
direct map. -/
def NextTableInReach (m : Machine) : Prop :=
  ∀ t : Frame, m.pmm.Free t.val → (∀ f < t.val, ¬ m.pmm.Free f) →
    t ≠ dirFrame ∧ ¬ IsTable entryTarget dirFrame m.tables t ∧ InDirectMap m.phys t

/-! ## Zeroing a frame -/

/-- A byte written to a frame that is no table leaves the tables alone. -/
theorem tables_write8 (m : Mem) {a : U32} {t : Frame} (ha : a.toNat / 4096 = t.val) (b : U8)
    {f : Frame} (hf : f ≠ t) (i : Fin 1024) : tables (m.write8 a b) f i = tables m f i := by
  refine tables_congr_outside (f := t) (fun x hx => Mem.write8_of_ne m b ?_) hf i
  rintro rfl
  exact hx ha

theorem walkOf_congr {T T' : Frame → Fin 1024 → U32} {t : Frame} (hdir : t ≠ dirFrame)
    (htable : ¬ IsTable entryTarget dirFrame T t) (h : ∀ f, f ≠ t → ∀ j, T' f j = T f j) (v : U32) :
    walkOf T' v = walkOf T v := by
  rw [walkOf, walkOf, walk, walk, leaf_congr (h dirFrame hdir.symm) fun f hf j =>
    h f (by rintro rfl; exact htable hf) j]

/-- A frame that is no table yet can be zeroed, and the rest is still where it was. -/
theorem InDirectMap.zeroed {m m' : Mem} {f t : Frame} (h : InDirectMap m f) (hdir : t ≠ dirFrame)
    (htable : ¬ IsTable entryTarget dirFrame (tables m) t)
    (hT : tables m' = clear (tables m) t 0) : InDirectMap m' f :=
  h.congr fun v => walkOf_congr hdir htable (fun _ hf j => by rw [hT]; exact clear_of_ne hf) v

/-- **Zeroing a fresh frame.**  The bytes of a frame in the direct map that is neither
the directory nor a table are all reached. -/
theorem wp_memset_fresh {t : Frame} (hdir : t ≠ dirFrame) (b : U8) :
    ∀ (n : Nat) (a : U32) (m : Machine), InDirectMap m.phys t →
      ¬ IsTable entryTarget dirFrame m.tables t → t.val * 4096 ≤ a.toNat →
      a.toNat + n ≤ (t.val + 1) * 4096 →
      wp (memset tableAccess (physToVirt a) b n)
        (fun _ m' => m'.phys = m.phys.fill a b n ∧ m'.pmm = m.pmm ∧ m'.grants = m.grants ∧
          (m.AllGood → m'.AllGood)) (fun _ _ => False) m := by
  intro n
  induction n with
  | zero => intro a m _ _ _ _; exact ⟨rfl, rfl, rfl, id⟩
  | succ n ih =>
    intro a m h htable hlo hhi
    have hbelow := h.below
    have hframe : a.toNat / 4096 = t.val := by omega
    have hnext : (a + 1#32).toNat = a.toNat + 1 := Mem.toNat_add_of_lt (k := 1) (by omega)
    -- the byte lies in a frame that is no table, so the next access is reached as well
    have hsame : ∀ f, f ≠ t → ∀ j, tables (m.phys.write8 a b) f j = m.tables f j :=
      fun f hf j => tables_write8 m.phys hframe b hf j
    have hnow := h.mmu hframe
    rw [memset, wp_bind, wp_tableAccess hnow, wp_bind, wp_modify, physToVirt_add]
    refine wp_mono (ih (a + 1#32) _ (h.congr (walkOf_congr hdir htable hsame)) ?_ (by omega)
      (by omega)) ?_ fun _ _ hf => hf
    · exact fun hc => htable ((isTable_congr (hsame dirFrame hdir.symm)).1 hc)
    · rintro _ m' ⟨h1, h2, h3, h4⟩
      exact ⟨h1, h2, h3, fun hg => h4 (allGood_touched hnow hg)⟩

/-- It has no entries then. -/
theorem wp_zeroFrame {m : Machine} {t : Frame} (hdir : t ≠ dirFrame) (hmap : InDirectMap m.phys t)
    (htable : ¬ IsTable entryTarget dirFrame m.tables t) :
    wp (memset tableAccess (physToVirt (frameAddr t.val)) 0 PAGE_SIZE)
      (fun _ m' => m'.tables = clear m.tables t 0 ∧ m'.pmm = m.pmm ∧ m'.grants = m.grants ∧
        (m.AllGood → m'.AllGood)) (fun _ _ => False) m := by
  have haddr := frameAddr_frame t
  refine wp_mono (wp_memset_fresh hdir 0 PAGE_SIZE (frameAddr t.val) m hmap htable (by omega)
    (by unfold PAGE_SIZE; omega)) ?_ fun _ _ hf => hf
  rintro _ m' ⟨hphys, hkept⟩
  refine ⟨?_, hkept⟩
  rw [Machine.tables, hphys]
  exact tables_fill m.phys t

/-! ## Entries and frames -/

theorem entryTarget_eq_none {e : U32} : entryTarget e = none ↔ e &&& PAGE_PRESENT = 0 := by
  unfold entryTarget
  split <;> rename_i h
  · exact ⟨fun _ => h, fun _ => rfl⟩
  · exact ⟨fun hc => (by cases hc), fun hc => absurd hc h⟩

theorem entryTarget_of_present {e : U32} (h : e &&& PAGE_PRESENT ≠ 0) :
    entryTarget e = some (frameOf e) := if_neg h

theorem and_high_frame (e : U32) : e &&& 0xFFFFF000#32 = frameAddr (frameOf e).val := by
  apply BitVec.eq_of_toNat_eq
  rw [and_high_toNat, frameAddr_frame]
  rfl

theorem wp_allocFrames {m : Machine} {n : U32} {call : Pmm → U32 × Pmm} {Q : U32 → Machine → Prop}
    {S : Stop → Machine → Prop} : wp (allocFrames n call) Q S m ↔
      Q (call m.pmm).1 { m with
        pmm := (call m.pmm).2
        grants := if (call m.pmm).1 = 0 then m.grants else ((call m.pmm).1, n) :: m.grants } :=
  Iff.rfl

/-- The two ways a single page is allocated. -/
theorem wp_allocPage {m : Machine} (hwf : m.pmm.Wf) {Q : U32 → Machine → Prop}
    {S : Stop → Machine → Prop} (hnone : (∀ f, ¬ m.pmm.Free f) → Q 0 m)
    (hsome : ∀ t : Frame, m.pmm.Free t.val → (∀ f < t.val, ¬ m.pmm.Free f) →
      Q (frameAddr t.val) { m with
        pmm := m.pmm.takeRun t.val 1
        grants := (frameAddr t.val, 1) :: m.grants }) :
    wp (allocFrames 1 pmmAllocPage) Q S m := by
  rw [wp_allocFrames]
  rcases pmmAllocPage_spec (p := m.pmm) with ⟨hr, hno⟩ | ⟨s, hr, hfree, hfirst⟩
  · rw [hr]
    exact hnone hno
  · have hlt := hwf.lt hfree
    have hne := frameAddr_ne_zero hlt (hwf.pos hfree)
    rw [hr]
    simp only [hne, if_false]
    exact hsome ⟨s, hlt⟩ hfree hfirst

theorem pagingAlignDown_toNat (v : U32) : (pagingAlignDown v).toNat = v.toNat / 4096 * 4096 :=
  and_high_toNat v

@[simp] theorem slotOf_alignDown (v : U32) : slotOf (pagingAlignDown v) = slotOf v := by
  apply Fin.ext
  change (pagingAlignDown v).toNat / 0x400000 = v.toNat / 0x400000
  rw [pagingAlignDown_toNat]
  omega

@[simp] theorem indexOf_alignDown (v : U32) : indexOf (pagingAlignDown v) = indexOf v := by
  apply Fin.ext
  change (pagingAlignDown v).toNat / 4096 % 1024 = v.toNat / 4096 % 1024
  rw [pagingAlignDown_toNat]
  omega

theorem frameEntry_addr (t : Frame) (virt : U32) :
    frameAddr t.val + pagingTableIndex virt * 4 = entryAddr t (indexOf virt) := by
  have h := tableEntry_addr (frameAddr t.val) virt
  rwa [and_high_frame, frameOf_frameAddr] at h

/-- The entry `paging_map_page` stores. -/
def pteOf (physAddr flags : U32) : U32 :=
  pagingAlignDown physAddr ||| (flags &&& 0xFFF#32) ||| PAGE_PRESENT

theorem entryTarget_pteOf (physAddr flags : U32) :
    entryTarget (pteOf physAddr flags) = some (frameOf physAddr) := entryTarget_or physAddr flags

/-- The flags of an entry reach it. -/
theorem writable_or (a : U32) (flags : U32) (h : flags[1] = true) :
    (a ||| (flags &&& 0xFFF#32) ||| PAGE_PRESENT) &&& PAGE_WRITABLE ≠ 0 := by
  intro hc
  have hbit := congrArg (fun w : U32 => w.getLsbD 1) hc
  simp [PAGE_WRITABLE, h] at hbit

/-! ## `paging_get_page_table` -/

/-- What `paging_get_page_table` returns and leaves behind. -/
inductive TableOf (m : Machine) (slot : Fin 1024) (create : Bool) (flags p : U32)
    (m' : Machine) : Prop
  | found (t : Frame) (slot : entryTarget (m.tables dirFrame slot) = some t)
      (ptr : p = physToVirt (frameAddr t.val)) (quiet : m.Quiet m')
  | absent (slot : entryTarget (m.tables dirFrame slot) = none)
      (none : create = true → ∀ f, ¬ m.pmm.Free f) (ptr : p = 0) (quiet : m.Quiet m')
  | made (t : Frame) (pde : U32) (create : create = true)
      (entry : pde = (frameAddr t.val &&& 0xFFFFF000#32) ||| (flags &&& 0xFFF#32) ||| PAGE_PRESENT)
      (free : m.pmm.Free t.val) (first : ∀ f < t.val, ¬ m.pmm.Free f)
      (vacant : Vacant entryTarget dirFrame m.tables slot t 0 pde)
      (reach : InDirectMap m.phys t) (ptr : p = physToVirt (frameAddr t.val))
      (tables : m'.tables = install m.tables dirFrame slot t 0 pde)
      (pmm : m'.pmm = m.pmm.takeRun t.val 1)
      (grants : m'.grants = (frameAddr t.val, 1) :: m.grants) (good : m.AllGood → m'.AllGood)

/-- **`paging_get_page_table`.**  It finds the table, or makes one from the lowest
free frame, or returns null because it is not to make one or has no frame. -/
theorem pagingGetPageTable_of {m : Machine} (h : TablesInReach m.phys) (hwf : m.pmm.Wf)
    (virt : U32) (create : Bool) (flags : U32)
    (hreach : create = true → entryTarget (m.tables dirFrame (slotOf virt)) = none →
      NextTableInReach m) :
    wp (pagingGetPageTable virt create flags) (TableOf m (slotOf virt) create flags)
      (fun _ _ => False) m := by
  have hdirmap := h.dir.entry (slotOf virt)
  unfold pagingGetPageTable pagingGetPageTableBy
  dsimp only
  rw [pagingDir_addr, wp_bind, wp_loadTable hdirmap, read32_entryAddr]
  have hquiet := quiet_touched hdirmap
  generalize hm0 : m.touched (physToVirt (entryAddr dirFrame (slotOf virt))) = m0 at hquiet ⊢
  by_cases hp : m.tables dirFrame (slotOf virt) &&& PAGE_PRESENT = 0
  · have hnone := entryTarget_eq_none.2 hp
    rw [if_neg (not_not.2 hp)]
    cases create with
    | false => exact .absent hnone (by simp) rfl hquiet
    | true =>
      simp only [Bool.not_true, Bool.false_eq_true, if_false]
      have hphys := hquiet.phys
      have hpmm := hquiet.pmm
      rw [wp_bind]
      refine wp_allocPage (hpmm ▸ hwf) ?_ ?_
      · intro hno
        exact .absent hnone (fun _ => hpmm ▸ hno) rfl hquiet
      · intro t hfree hfirst
        rw [hpmm] at hfree hfirst
        obtain ⟨hdir, htable, hmap⟩ := hreach rfl hnone t hfree hfirst
        simp only [frameAddr_ne_zero t.isLt (hwf.pos hfree), if_false]
        rw [wp_bind]
        refine wp_mono (@wp_zeroFrame
          { m0 with pmm := m0.pmm.takeRun t.val 1, grants := (frameAddr t.val, 1) :: m0.grants }
          t hdir (hphys ▸ hmap) (by rw [Machine.tables, hphys]; exact htable)) ?_ fun _ _ hf => hf
        rintro _ m1 ⟨h1, h2, h3, h4⟩
        have hT1 : m1.tables = clear m.tables t 0 := by
          rw [h1, Machine.tables, hphys]
        have hdirmap1 := (h.dir.zeroed hdir htable hT1).entry (slotOf virt)
        have hentry : entryTarget ((frameAddr t.val &&& 0xFFFFF000#32) ||| (flags &&& 0xFFF#32) |||
            PAGE_PRESENT) = some t := by rw [entryTarget_or, frameOf_frameAddr]
        rw [wp_bind, wp_storeTable hdirmap1]
        refine .made t _ rfl rfl hfree hfirst ⟨hnone, hdir, htable, hentry, entryTarget_zero⟩ hmap
          rfl ?_ ?_ ?_ ?_
        · change tables (m1.phys.write32 _ _) = _
          rw [tables_write32, install, ← hT1]
        · exact h2.trans (by rw [hpmm])
        · exact h3.trans (by rw [hquiet.grants])
        · intro hg
          exact allGood_touched hdirmap1 (h4 (hquiet.good hg))
  · rw [if_pos hp]
    exact .found (frameOf (m.tables dirFrame (slotOf virt))) (entryTarget_of_present hp)
      (by rw [and_high_frame]) hquiet

/-! ## `paging_map_page` -/

/-- The flags `paging_map_page` hangs a new table in with. -/
def tableFlagsOf (flags : U32) : U32 :=
  if flags &&& PAGE_USER ≠ 0 then PAGE_WRITABLE ||| PAGE_USER else PAGE_WRITABLE

/-- The entry it writes to the directory for a new table. -/
def pdeOf (t : Frame) (flags : U32) : U32 :=
  (frameAddr t.val &&& 0xFFFFF000#32) ||| (tableFlagsOf flags &&& 0xFFF#32) ||| PAGE_PRESENT

/-- What `paging_map_page` returns and leaves behind, `pte` being the entry it is
to store and `pde` the one it makes for a new table. -/
inductive StoresPage (m : Machine) (virt pte : U32) (pde : Frame → U32) (ok : Bool)
    (m' : Machine) : Prop
  | failed (res : ok = false) (slot : entryTarget (m.tables dirFrame (slotOf virt)) = none)
      (none : ∀ f, ¬ m.pmm.Free f) (quiet : m.Quiet m')
  | kept (t : Frame) (res : ok = true)
      (slot : entryTarget (m.tables dirFrame (slotOf virt)) = some t)
      (tables : m'.tables = setEntry m.tables t (indexOf virt) pte) (pmm : m'.pmm = m.pmm)
      (grants : m'.grants = m.grants) (good : m.AllGood → m'.AllGood)
  | made (t : Frame) (res : ok = true)
      (free : m.pmm.Free t.val) (first : ∀ f < t.val, ¬ m.pmm.Free f)
      (vacant : Vacant entryTarget dirFrame m.tables (slotOf virt) t 0 (pde t))
      (tables : m'.tables =
        setEntry (install m.tables dirFrame (slotOf virt) t 0 (pde t)) t (indexOf virt) pte)
      (pmm : m'.pmm = m.pmm.takeRun t.val 1)
      (grants : m'.grants = (frameAddr t.val, 1) :: m.grants) (good : m.AllGood → m'.AllGood)

/-- **`paging_map_page`.** -/
theorem pagingMapPage_of {m : Machine} (h : TablesInReach m.phys) (hwf : m.pmm.Wf)
    (virt phys flags : U32)
    (hreach : entryTarget (m.tables dirFrame (slotOf virt)) = none → NextTableInReach m) :
    wp (pagingMapPage virt phys flags)
      (StoresPage m virt (pteOf phys flags) fun t => pdeOf t flags) (fun _ _ => False) m := by
  unfold pagingMapPage pagingMapPageBy
  dsimp only
  rw [wp_bind]
  refine wp_mono (pagingGetPageTable_of h hwf (pagingAlignDown virt) true (tableFlagsOf flags)
    fun _ => by rwa [slotOf_alignDown]) ?_ fun _ _ hf => hf
  rintro p m1 hget
  rw [slotOf_alignDown] at hget
  cases hget with
  | found t hslot hptr hquiet =>
    have hmap := h.table t ⟨slotOf virt, hslot⟩
    have hentry := hmap.entry (indexOf virt)
    rw [← hquiet.phys] at hentry
    rw [hptr, if_neg hmap.ptr_ne, physToVirt_add, frameEntry_addr, indexOf_alignDown, wp_bind,
      wp_storeTable hentry]
    refine .kept t rfl hslot ?_ hquiet.pmm hquiet.grants fun hg => ?_
    · change tables (m1.phys.write32 _ _) = _
      rw [tables_write32, hquiet.phys]
      rfl
    · exact allGood_touched hentry (hquiet.good hg)
  | absent hslot hnone hptr hquiet =>
    rw [hptr, if_pos rfl]
    exact .failed rfl hslot (hnone rfl) hquiet
  | made t pde _ hpde hfree hfirst hvacant hmap hptr htables hpmm hgrants hgood =>
    have hentry := (@InDirectMap.congr _ m1.phys _ hmap fun v => by
      rw [show tables m1.phys = _ from htables, walkOf, walkOf,
        walk_install h.proper hvacant]).entry
      (indexOf virt)
    rw [hptr, if_neg hmap.ptr_ne, physToVirt_add, frameEntry_addr, indexOf_alignDown, wp_bind,
      wp_storeTable hentry]
    subst hpde
    refine .made t rfl hfree hfirst hvacant ?_ hpmm hgrants fun hg => ?_
    · change tables (m1.phys.write32 _ _) = _
      rw [tables_write32, show tables m1.phys = _ from htables]
      rfl
    · exact allGood_touched hentry (hgood hg)

/-! ## What mapping a page changes -/

/-- Two addresses of one page. -/
def SamePage (v v' : U32) : Prop := v.toNat / 4096 = v'.toNat / 4096

instance (v v' : U32) : Decidable (SamePage v v') := inferInstanceAs (Decidable (_ = _))

theorem samePage_iff {v v' : U32} :
    SamePage v v' ↔ slotOf v = slotOf v' ∧ indexOf v = indexOf v' := by
  simp only [SamePage, Fin.ext_iff, slotOf, indexOf]
  omega

/-- Every table is hung in with the writable bit set. -/
def DirWritable (T : Frame → Fin 1024 → U32) : Prop :=
  ∀ s t, entryTarget (T dirFrame s) = some t → T dirFrame s &&& PAGE_WRITABLE ≠ 0

theorem DirWritable.congr {T T' : Frame → Fin 1024 → U32} (h : DirWritable T)
    (hdir : ∀ j, T' dirFrame j = T dirFrame j) : DirWritable T' := by
  intro s t ht
  rw [hdir] at ht ⊢
  exact h s t ht

namespace StoresPage

variable {m m' : Machine} {virt pte : U32} {pde : Frame → U32} {ok : Bool}

theorem good (h : StoresPage m virt pte pde ok m') (hg : m.AllGood) : m'.AllGood := by
  cases h with
  | failed _ _ _ hquiet => exact hquiet.good hg
  | kept _ _ _ _ _ _ hgood => exact hgood hg
  | made _ _ _ _ _ _ _ _ hgood => exact hgood hg

theorem free (h : StoresPage m virt pte pde ok m') (hwf : m.pmm.Wf) {f : Nat}
    (hf : m'.pmm.Free f) : m.pmm.Free f := by
  cases h with
  | failed _ _ _ hquiet => rwa [hquiet.pmm] at hf
  | kept _ _ _ _ hpmm => rwa [hpmm] at hf
  | made t _ hfree _ _ _ hpmm =>
    rw [hpmm, Pmm.free_takeRun hwf hfree.lt] at hf
    exact hf.1

theorem wf (h : StoresPage m virt pte pde ok m') (hwf : m.pmm.Wf) : m'.pmm.Wf := by
  cases h with
  | failed _ _ _ hquiet => rwa [hquiet.pmm]
  | kept _ _ _ _ hpmm => rwa [hpmm]
  | made t _ hfree _ _ _ hpmm =>
    rw [hpmm]
    exact hwf.takeRun hfree.lt

theorem sameTable (h : StoresPage m virt pte pde ok m') (hwf : m.pmm.Wf) :
    SameTable m.pmm m'.pmm := by
  cases h with
  | failed _ _ _ hquiet => rw [hquiet.pmm]; exact .refl _
  | kept _ _ _ _ hpmm => rw [hpmm]; exact .refl _
  | made t _ hfree _ _ _ hpmm =>
    rw [hpmm]
    exact sameTable_takeRun hwf hfree.1 hfree.lt

theorem proper (h : StoresPage m virt pte pde ok m') (hp : Proper entryTarget dirFrame m.tables) :
    Proper entryTarget dirFrame m'.tables := by
  cases h with
  | failed _ _ _ hquiet => rw [hquiet.tables]; exact hp
  | kept t _ hslot htables => rw [htables]; exact hp.of_set hslot
  | made t _ _ _ hvacant htables =>
    rw [htables]
    exact (hp.of_install hvacant).of_set (by rw [target_install hvacant, if_pos rfl])

/-- What the directory holds afterwards: what it held, or the entry of a new table. -/
theorem dir_entry (h : StoresPage m virt pte pde ok m')
    (hp : Proper entryTarget dirFrame m.tables) (hwf : m.pmm.Wf) (s : Fin 1024) :
    m'.tables dirFrame s = m.tables dirFrame s ∨
      s = slotOf virt ∧ entryTarget (m.tables dirFrame s) = none ∧
        ∃ t, m.pmm.Free t.val ∧ ¬ m'.pmm.Free t.val ∧ m'.tables dirFrame s = pde t ∧
          entryTarget (pde t) = some t := by
  cases h with
  | failed _ _ _ hquiet => rw [hquiet.tables]; exact .inl rfl
  | kept t _ hslot htables => rw [htables]; exact .inl (set_dir hp hslot s)
  | made t _ hfree _ hvacant htables hpmm =>
    have htaken : ¬ m'.pmm.Free t.val := by
      rw [hpmm, Pmm.free_takeRun hwf hfree.lt]
      exact fun hc => hc.2 ⟨le_refl _, Nat.lt_succ_self _⟩
    have hdir : m'.tables dirFrame s = if s = slotOf virt then pde t else m.tables dirFrame s := by
      rw [htables, set_dir (hp.of_install hvacant) (by rw [target_install hvacant, if_pos rfl]),
        install_dir hvacant]
    by_cases hs : s = slotOf virt
    · rw [if_pos hs] at hdir
      exact .inr ⟨hs, hs ▸ hvacant.place, t, hfree, htaken, hdir, hvacant.entry⟩
    · rw [if_neg hs] at hdir
      exact .inl hdir

/-- A table is an old one, or a frame that was free and is not any more. -/
theorem isTable (h : StoresPage m virt pte pde ok m')
    (hp : Proper entryTarget dirFrame m.tables) (hwf : m.pmm.Wf) {f : Frame}
    (hf : IsTable entryTarget dirFrame m'.tables f) :
    IsTable entryTarget dirFrame m.tables f ∨ (m.pmm.Free f.val ∧ ¬ m'.pmm.Free f.val) := by
  obtain ⟨s, hs⟩ := hf
  rcases h.dir_entry hp hwf s with heq | ⟨-, -, t, hfree, htaken, heq, hentry⟩
  · exact .inl ⟨s, heq ▸ hs⟩
  · rw [heq, hentry] at hs
    cases hs
    exact .inr ⟨hfree, htaken⟩

theorem writable (h : StoresPage m virt pte pde ok m')
    (hp : Proper entryTarget dirFrame m.tables) (hwf : m.pmm.Wf)
    (hbit : ∀ t, pde t &&& PAGE_WRITABLE ≠ 0) (hd : DirWritable m.tables) :
    DirWritable m'.tables := by
  intro s t ht
  rcases h.dir_entry hp hwf s with heq | ⟨-, -, u, -, -, heq, -⟩
  · rw [heq] at ht ⊢
    exact hd s t ht
  · rw [heq]
    exact hbit u

/-- The page that has been mapped. -/
theorem leaf_self (h : StoresPage m virt pte pde true m')
    (hp : Proper entryTarget dirFrame m.tables) : leafOf m'.tables virt = some pte := by
  cases h with
  | failed hres => cases hres
  | kept t _ hslot htables =>
    rw [htables, leafOf, leaf_set hp hslot, if_pos ⟨rfl, rfl⟩]
  | made t _ _ _ hvacant htables =>
    rw [htables, leafOf, leaf_set (hp.of_install hvacant)
      (by rw [target_install hvacant, if_pos rfl]), if_pos ⟨rfl, rfl⟩]

/-- **A page that was mapped elsewhere is not disturbed.** -/
theorem leaf_other (h : StoresPage m virt pte pde ok m')
    (hp : Proper entryTarget dirFrame m.tables) {v e : U32} (hv : ¬ SamePage v virt)
    (he : leafOf m.tables v = some e) : leafOf m'.tables v = some e := by
  rw [samePage_iff] at hv
  cases h with
  | failed _ _ _ hquiet => rw [hquiet.tables]; exact he
  | kept t _ hslot htables => rw [htables, leafOf, leaf_set hp hslot, if_neg hv, ← he]
  | made t _ _ _ hvacant htables =>
    have hs : slotOf v ≠ slotOf virt := by
      intro hc
      rw [leafOf, leaf_of_none (by rw [hc]; exact hvacant.place)] at he
      cases he
    rw [htables, leafOf, leaf_set (hp.of_install hvacant)
      (by rw [target_install hvacant, if_pos rfl]), if_neg hv, leaf_install hp hvacant,
      if_neg hs, ← he]

/-- **No other walk changes**, mapped or not. -/
theorem walk_other (h : StoresPage m virt pte pde ok m')
    (hp : Proper entryTarget dirFrame m.tables) {v : U32} (hv : ¬ SamePage v virt) :
    walkOf m'.tables v = walkOf m.tables v := by
  rw [samePage_iff] at hv
  cases h with
  | failed _ _ _ hquiet => rw [hquiet.tables]
  | kept t _ hslot htables =>
    rw [htables, walkOf, walkOf, walk, leaf_set hp hslot, if_neg hv]
    rfl
  | made t _ _ _ hvacant htables =>
    rw [htables, walkOf, walkOf, walk, leaf_set (hp.of_install hvacant)
      (by rw [target_install hvacant, if_pos rfl]), if_neg hv]
    exact walk_install hp hvacant

/-- Frames that hold no table afterwards keep their entries. -/
theorem other (h : StoresPage m virt pte pde ok m') (hp : Proper entryTarget dirFrame m.tables)
    {f : Frame} (hdir : f ≠ dirFrame) (htable : ¬ IsTable entryTarget dirFrame m'.tables f)
    (i : Fin 1024) :
    m'.tables f i = m.tables f i := by
  cases h with
  | failed _ _ _ hquiet => rw [hquiet.tables]
  | kept t _ hslot htables =>
    have ht : IsTable entryTarget dirFrame m'.tables t :=
      ⟨slotOf virt, by rw [htables, set_dir hp hslot, hslot]⟩
    rw [htables, set_of_ne (by rintro rfl; exact htable ht)]
  | made t _ _ _ hvacant htables =>
    have hhang : entryTarget (install m.tables dirFrame (slotOf virt) t 0 (pde t) dirFrame
        (slotOf virt)) = some t := by rw [target_install hvacant, if_pos rfl]
    have ht : IsTable entryTarget dirFrame m'.tables t :=
      ⟨slotOf virt, by rw [htables, set_dir (hp.of_install hvacant) hhang, hhang]⟩
    have hne : f ≠ t := by rintro rfl; exact htable ht
    rw [htables, set_of_ne hne, install_other hdir hne]

end StoresPage

/-! ## `paging_unmap_page` -/

/-- What `paging_unmap_page` leaves behind. -/
inductive DropsPage (m : Machine) (virt : U32) (m' : Machine) : Prop
  | absent (slot : entryTarget (m.tables dirFrame (slotOf virt)) = none) (quiet : m.Quiet m')
  | dropped (t : Frame) (slot : entryTarget (m.tables dirFrame (slotOf virt)) = some t)
      (tables : m'.tables = setEntry m.tables t (indexOf virt) 0) (pmm : m'.pmm = m.pmm)
      (grants : m'.grants = m.grants) (good : m.AllGood → m'.AllGood)

/-- **`paging_unmap_page`.** -/
theorem pagingUnmapPage_of {m : Machine} (h : TablesInReach m.phys) (hwf : m.pmm.Wf) (virt : U32) :
    wp (pagingUnmapPage virt) (fun _ => DropsPage m virt) (fun _ _ => False) m := by
  unfold pagingUnmapPage pagingUnmapPageBy
  dsimp only
  rw [wp_bind]
  refine wp_mono (pagingGetPageTable_of h hwf (pagingAlignDown virt) false 0
    fun hc => by cases hc) ?_ fun _ _ hf => hf
  rintro p m1 hget
  rw [slotOf_alignDown] at hget
  cases hget with
  | found t hslot hptr hquiet =>
    have hmap := h.table t ⟨slotOf virt, hslot⟩
    have hentry := hmap.entry (indexOf virt)
    rw [← hquiet.phys] at hentry
    rw [hptr, if_neg hmap.ptr_ne, physToVirt_add, frameEntry_addr, indexOf_alignDown,
      wp_storeTable hentry]
    refine .dropped t hslot ?_ hquiet.pmm hquiet.grants fun hg => ?_
    · change tables (m1.phys.write32 _ _) = _
      rw [tables_write32, hquiet.phys]
    · exact allGood_touched hentry (hquiet.good hg)
  | absent hslot _ hptr hquiet =>
    rw [hptr, if_pos rfl]
    exact .absent hslot hquiet
  | made t pde hcreate => cases hcreate

end Frewozet
