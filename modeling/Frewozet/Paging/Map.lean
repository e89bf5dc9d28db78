import Frewozet.Paging.Reach

/-!
# What the functions of `paging.c` do

A machine whose first 4 MiB are mapped where the loader put them, and whose next
table, if one is needed, lies in them as well: its tables are in reach, and stay so.

* `NextTableLow` — the frame a new table would take lies below 4 MiB.
* `MapsPage`, `pagingMapPage_spec` — one page is mapped, with a new table for it if
  it takes one, or there is no frame for the table and nothing changes.
* `MapsPage.leaf_self`, `MapsPage.walk_other` — the page goes where it was told to
  and no other walk changes.
-/

namespace Frewozet

open Word Exec TwoLevel

/-! ## Changes outside the tables -/

/-- The direct map depends on the directory and the tables only. -/
theorem Windowed.congr {T T' : Frame → Fin 1024 → U32} (h : Windowed T)
    (hdir : ∀ j, T' dirFrame j = T dirFrame j)
    (htable : ∀ t, IsTable entryTarget dirFrame T t → ∀ j, T' t j = T t j) : Windowed T' := by
  have hwindow : IsTable entryTarget dirFrame T windowFrame := ⟨windowSlot, h.window⟩
  refine ⟨h.proper.congr hdir, by rw [hdir]; exact h.window, ?_, ?_⟩
  · intro i
    rw [htable windowFrame hwindow]
    exact h.direct i
  · intro t ht
    exact h.low t ((isTable_congr hdir).1 ht)

/-! ## The next table -/

/-- A frame taken for a table will lie below 4 MiB: there is none to take, or some
free frame lies there. -/
def NextTableLow (m : Machine) : Prop := (∀ f, ¬ m.pmm.Free f) ∨ ∃ f < 1024, m.pmm.Free f

/-- Frames that may become tables: none of them is the directory or a table. -/
def Fresh (m : Machine) : Prop := ∀ f : Frame, m.pmm.Free f.val →
  f ≠ dirFrame ∧ ¬ IsTable entryTarget dirFrame m.tables f

theorem NextTableLow.first_low {m : Machine} (h : NextTableLow m) {t : Nat} (ht : m.pmm.Free t)
    (hfirst : ∀ f < t, ¬ m.pmm.Free f) : t < 1024 := by
  rcases h with h | ⟨f, hf, hfree⟩
  · exact absurd ht (h t)
  · by_contra hc
    exact hfirst f (by omega) hfree

theorem Windowed.inDirectMap {m : Mem} (h : Windowed (tables m)) {f : Frame} (hf : f.val < 1024) :
    InDirectMap m f := by
  have haddr := frameAddr_frame f
  exact ⟨by omega, h.reach (by omega)⟩

/-- Tables below 4 MiB are in the direct map. -/
theorem Windowed.inReach {m : Mem} (h : Windowed (tables m)) : TablesInReach m :=
  ⟨h.proper, h.inDirectMap dirFrame_low, fun t ht => h.inDirectMap (h.low t ht)⟩

theorem NextTableLow.inReach {m : Machine} (hnext : NextTableLow m) (h : Windowed m.tables)
    (hfresh : Fresh m) : NextTableInReach m := by
  intro t hfree hfirst
  obtain ⟨hdir, htable⟩ := hfresh t hfree
  exact ⟨hdir, htable, h.inDirectMap (hnext.first_low hfree hfirst)⟩

/-! ## `paging_map_page` -/

/-- What `paging_map_page` returns and leaves behind, `pte` being the entry it is
to store. -/
inductive MapsPage (m : Machine) (virt pte : U32) (ok : Bool) (m' : Machine) : Prop
  | failed (res : ok = false) (slot : entryTarget (m.tables dirFrame (slotOf virt)) = none)
      (none : ∀ f, ¬ m.pmm.Free f) (quiet : m.Quiet m')
  | kept (t : Frame) (res : ok = true)
      (slot : entryTarget (m.tables dirFrame (slotOf virt)) = some t)
      (tables : m'.tables = setEntry m.tables t (indexOf virt) pte) (pmm : m'.pmm = m.pmm)
      (grants : m'.grants = m.grants) (good : m.AllGood → m'.AllGood)
  | made (t : Frame) (pde : U32) (res : ok = true) (writable : pde &&& PAGE_WRITABLE ≠ 0)
      (free : m.pmm.Free t.val) (first : ∀ f < t.val, ¬ m.pmm.Free f) (low : t.val < 1024)
      (vacant : Vacant entryTarget dirFrame m.tables (slotOf virt) t 0 pde)
      (tables : m'.tables =
        setEntry (install m.tables dirFrame (slotOf virt) t 0 pde) t (indexOf virt) pte)
      (pmm : m'.pmm = m.pmm.takeRun t.val 1)
      (grants : m'.grants = (frameAddr t.val, 1) :: m.grants) (good : m.AllGood → m'.AllGood)

/-- Storing an entry keeps the direct map, unless it redirects a page of it. -/
theorem Windowed.of_set {T : Frame → Fin 1024 → U32} (h : Windowed T) {s i : Fin 1024} {t : Frame}
    {e : U32} (ht : entryTarget (T dirFrame s) = some t)
    (hwin : s = windowSlot → ∃ f, entryTarget e = some f ∧ f.val = i.val) :
    Windowed (setEntry T t i e) := by
  have hdir := fun j => set_dir (i := i) (e := e) h.proper ht j
  refine ⟨h.proper.of_set ht, by rw [hdir]; exact h.window, fun j => ?_, fun f hf => ?_⟩
  · by_cases hc : windowFrame = t
    · have hs : s = windowSlot := h.proper.inj s windowSlot t ht (hc ▸ h.window)
      by_cases hj : j = i
      · rw [hc, hj, set_same]
        exact hwin hs
      · rw [setEntry, if_neg fun hc => hj hc.2]
        exact h.direct j
    · rw [set_of_ne hc]
      exact h.direct j
  · exact h.low f ((isTable_congr hdir).1 hf)

/-- So does hanging in a table that lies in it. -/
theorem Windowed.of_install {T : Frame → Fin 1024 → U32} (h : Windowed T) {s : Fin 1024}
    {t : Frame} {e₀ e : U32} (hv : Vacant entryTarget dirFrame T s t e₀ e) (hlow : t.val < 1024) :
    Windowed (install T dirFrame s t e₀ e) := by
  have hwindow : IsTable entryTarget dirFrame T windowFrame := ⟨windowSlot, h.window⟩
  have hslot : windowSlot ≠ s := by
    rintro rfl
    have hplace := hv.place
    rw [h.window] at hplace
    cases hplace
  refine ⟨h.proper.of_install hv, ?_, fun j => ?_, fun f hf => ?_⟩
  · rw [target_install hv, if_neg hslot]
    exact h.window
  · have htable : windowFrame ≠ t := by rintro rfl; exact hv.table hwindow
    have hdir : windowFrame ≠ dirFrame := by decide
    rw [install_other hdir htable]
    exact h.direct j
  · rcases (isTable_install hv).1 hf with rfl | hf
    · exact hlow
    · exact h.low f hf

theorem pdeOf_writable (t : Frame) (flags : U32) : pdeOf t flags &&& PAGE_WRITABLE ≠ 0 := by
  refine writable_or _ _ ?_
  unfold tableFlagsOf
  split <;> simp [PAGE_WRITABLE, PAGE_USER]

/-- **`paging_map_page`.** -/
theorem pagingMapPage_spec {m : Machine} (h : Windowed m.tables) (hwf : m.pmm.Wf)
    (hfresh : Fresh m) (virt phys flags : U32)
    (hreach : entryTarget (m.tables dirFrame (slotOf virt)) = none → NextTableLow m) :
    wp (pagingMapPage virt phys flags) (MapsPage m virt (pteOf phys flags))
      (fun _ _ => False) m := by
  refine wp_mono (pagingMapPage_of h.inReach hwf virt phys flags fun hnone =>
    (hreach hnone).inReach h hfresh) ?_ fun _ _ hf => hf
  intro ok m' hstores
  cases hstores with
  | failed hres hslot hnone hquiet => exact .failed hres hslot hnone hquiet
  | kept t hres hslot htables hpmm hgrants hgood =>
    exact .kept t hres hslot htables hpmm hgrants hgood
  | made t hres hfree hfirst hvacant htables hpmm hgrants hgood =>
    exact .made t _ hres (pdeOf_writable t flags) hfree hfirst
      ((hreach hvacant.place).first_low hfree hfirst) hvacant htables hpmm hgrants hgood

/-! ## What mapping a page changes -/

section

variable {m m' : Machine} {virt pte : U32} {ok : Bool}

theorem MapsPage.stores (h : MapsPage m virt pte ok m') :
    ∃ pde : Frame → U32, (∀ t, pde t &&& PAGE_WRITABLE ≠ 0) ∧ StoresPage m virt pte pde ok m' := by
  have hbit : PAGE_WRITABLE &&& PAGE_WRITABLE ≠ 0 := by decide
  cases h with
  | failed hres hslot hnone hquiet =>
    exact ⟨fun _ => PAGE_WRITABLE, fun _ => hbit, .failed hres hslot hnone hquiet⟩
  | kept t hres hslot htables hpmm hgrants hgood =>
    exact ⟨fun _ => PAGE_WRITABLE, fun _ => hbit, .kept t hres hslot htables hpmm hgrants hgood⟩
  | made t pde hres hbit hfree hfirst _ hvacant htables hpmm hgrants hgood =>
    exact ⟨fun _ => pde, fun _ => hbit,
      .made t hres hfree hfirst hvacant htables hpmm hgrants hgood⟩

theorem MapsPage.windowed (h : MapsPage m virt pte ok m') (hw : Windowed m.tables)
    (hwin : slotOf virt = windowSlot →
      ∃ f, entryTarget pte = some f ∧ f.val = (indexOf virt).val) : Windowed m'.tables := by
  cases h with
  | failed _ _ _ hquiet => rw [hquiet.tables]; exact hw
  | kept t _ hslot htables =>
    rw [htables]
    exact hw.of_set hslot hwin
  | made t pde _ _ _ _ hlow hvacant htables =>
    rw [htables]
    exact (hw.of_install hvacant hlow).of_set (by rw [target_install hvacant, if_pos rfl]) hwin

/-- The frames the allocator still has. -/
theorem MapsPage.free (h : MapsPage m virt pte ok m') (hwf : m.pmm.Wf) {f : Nat}
    (hf : m'.pmm.Free f) : m.pmm.Free f := by
  obtain ⟨_, -, hs⟩ := h.stores
  exact hs.free hwf hf

theorem MapsPage.wf (h : MapsPage m virt pte ok m') (hwf : m.pmm.Wf) : m'.pmm.Wf := by
  obtain ⟨_, -, hs⟩ := h.stores
  exact hs.wf hwf

/-- The page that has been mapped. -/
theorem MapsPage.leaf_self (h : MapsPage m virt pte true m') (hw : Windowed m.tables) :
    leafOf m'.tables virt = some pte := by
  obtain ⟨_, -, hs⟩ := h.stores
  exact hs.leaf_self hw.proper

theorem MapsPage.walk_self (h : MapsPage m virt pte true m') (hw : Windowed m.tables) :
    walkOf m'.tables virt = entryTarget pte :=
  congrArg (fun e => Option.bind e entryTarget) (h.leaf_self hw)

/-- **No other walk changes**, mapped or not. -/
theorem MapsPage.walk_other (h : MapsPage m virt pte ok m') (hw : Windowed m.tables) {v : U32}
    (hv : ¬ SamePage v virt) : walkOf m'.tables v = walkOf m.tables v := by
  obtain ⟨_, -, hs⟩ := h.stores
  exact hs.walk_other hw.proper hv

end

end Frewozet
