import Frewozet.Paging.Loader
import Frewozet.Pmm.Table

/-!
# The tables as one map

What the two-level tables are for: a partial map from virtual pages to frames with
flags.  Mapping a page is an update of that map, unmapping it an erasure, and
`paging_translate` a lookup.

* `PageMap` — the map, with the three operations on it.
* `pageMap` — the map held in the tables, and the `pageMap_` lemmas: what storing an
  entry and hanging in an empty table do to it.
* `PageCall`, `PageCall.exec` — the three functions of `paging.c` as calls of a run.
* `OwnPage`, `PageCall.KeepsOwn` — the pages in which the kernel itself lives, and the calls
  that leave them where they are.
* `PageCall.Refines`, `PageCall.exec_refines` — **a call does to the map what its name
  says**, over a frame allocator beside the memory.
-/

namespace Frewozet

open Word Exec TwoLevel

/-! ## The map -/

/-- The number of a virtual page. -/
abbrev Page := Fin 0x100000

theorem page_lt (v : U32) : v.toNat / 4096 < 1048576 := by
  have hlt := v.isLt
  omega

/-- The page an address lies in. -/
def pageOf (v : U32) : Page := ⟨v.toNat / 4096, page_lt v⟩

/-- What a page is mapped to. -/
structure Mapping where
  frame : Frame
  flags : BitVec 12
  deriving DecidableEq

abbrev PageMap := Page → Option Mapping

namespace PageMap

/-- Map the page of `v` to the frame of `p`. -/
def map (M : PageMap) (v p f : U32) : PageMap :=
  Function.update M (pageOf v) (some ⟨frameOf p, f.setWidth 12 ||| 1#12⟩)

/-- Take the page of `v` out. -/
def unmap (M : PageMap) (v : U32) : PageMap := Function.update M (pageOf v) none

/-- Where `v` goes, 0 if it goes nowhere. -/
def translate (M : PageMap) (v : U32) : U32 :=
  match M (pageOf v) with
  | none => 0
  | some e => BitVec.ofNat 32 e.frame.val <<< 12 ||| (v &&& 0xFFF#32)

end PageMap

/-! ## The map in the tables -/

/-- What an entry maps its page to, if it is present. -/
def mappingOf (e : U32) : Option Mapping :=
  (entryTarget e).map fun f => ⟨f, e.setWidth 12⟩

/-- The entry a page ends at. -/
def pageEntry (T : Frame → Fin 1024 → U32) (p : Page) : Option U32 :=
  leaf entryTarget dirFrame T ⟨p.val / 1024, by omega⟩ ⟨p.val % 1024, Nat.mod_lt _ (by decide)⟩

/-- The map the tables hold. -/
def pageMap (T : Frame → Fin 1024 → U32) : PageMap := fun p => (pageEntry T p).bind mappingOf

theorem pageEntry_pageOf (T : Frame → Fin 1024 → U32) (v : U32) :
    pageEntry T (pageOf v) = leafOf T v := by
  have hslot : (⟨(pageOf v).val / 1024, by omega⟩ : Fin 1024) = slotOf v := by
    apply Fin.ext
    change v.toNat / 4096 / 1024 = v.toNat / 0x400000
    omega
  rw [pageEntry, hslot]
  rfl

theorem pageOf_eq {p : Page} {v : U32} : p = pageOf v ↔
    (⟨p.val / 1024, by omega⟩ : Fin 1024) = slotOf v ∧
      (⟨p.val % 1024, Nat.mod_lt _ (by decide)⟩ : Fin 1024) = indexOf v := by
  simp only [Fin.ext_iff, pageOf, slotOf, indexOf]
  omega

theorem mappingOf_zero : mappingOf 0 = none := rfl

theorem masks_getLsbD : ∀ i < 12, (0xFFFFF000#32).getLsbD i = false ∧
    (0xFFF#32).getLsbD i = true ∧ (1#32).getLsbD i = (1#12).getLsbD i := by decide

theorem mappingOf_pte (p f : U32) :
    mappingOf (pteOf p f) = some ⟨frameOf p, f.setWidth 12 ||| 1#12⟩ := by
  have hflags : (pteOf p f).setWidth 12 = f.setWidth 12 ||| 1#12 := by
    apply BitVec.eq_of_getLsbD_eq
    intro i hi
    obtain ⟨hmask, hlow, hone⟩ := masks_getLsbD i hi
    simp only [pteOf, pagingAlignDown, PAGE_PRESENT, BitVec.getLsbD_setWidth, BitVec.getLsbD_or,
      BitVec.getLsbD_and, hi, decide_true, Bool.true_and, hmask, hlow, Bool.and_false,
      Bool.and_true, Bool.false_or]
    rw [show (1 : U32) = 1#32 from rfl, hone]
  rw [mappingOf, entryTarget_pteOf, Option.map_some, hflags]

section

variable {T : Frame → Fin 1024 → U32} {v : U32} {t : Frame} {e : U32}

/-- **Storing an entry updates the map at one page.** -/
theorem pageMap_set (h : Proper entryTarget dirFrame T)
    (ht : entryTarget (T dirFrame (slotOf v)) = some t) :
    pageMap (setEntry T t (indexOf v) e) =
      Function.update (pageMap T) (pageOf v) (mappingOf e) := by
  funext p
  rw [pageMap, pageEntry, leaf_set h ht, Function.update_apply]
  by_cases hp : p = pageOf v
  · rw [if_pos (pageOf_eq.1 hp), if_pos hp]
    rfl
  · rw [if_neg fun hc => hp (pageOf_eq.2 hc), if_neg hp]
    rfl

/-- **Hanging in an empty table changes nothing**, for any of the pages it serves. -/
theorem pageMap_install (h : Proper entryTarget dirFrame T) {s : Fin 1024}
    (hv : Vacant entryTarget dirFrame T s t 0 e) :
    pageMap (install T dirFrame s t 0 e) = pageMap T := by
  funext p
  rw [pageMap, pageEntry, leaf_install h hv]
  split
  · rename_i hs
    rw [pageMap, pageEntry, hs, leaf_of_none hv.place]
    exact mappingOf_zero
  · rfl

end

/-- Machines with the same tables hold the same map. -/
theorem SameTables.pageMap_eq {m m' : Machine} (h : SameTables m m') :
    pageMap m'.tables = pageMap m.tables := by
  funext p
  rw [pageMap, pageMap, pageEntry, pageEntry, leaf_congr h.dir h.table]

/-! ## The calls -/

/-- A call of one of the three functions. -/
inductive PageCall where
  | map (virt phys flags : U32)
  | unmap (virt : U32)
  | translate (virt : U32)

/-- Run it, with what it returns. -/
def PageCall.exec : PageCall → Exec Machine U32
  | .map virt phys flags => do
    let ok ← pagingMapPage virt phys flags
    return if ok then 1 else 0
  | .unmap virt => do
    pagingUnmapPage virt
    return 0
  | .translate virt => do
    let m ← get
    ofOption .fault (pagingTranslate m.phys virt)

/-- Run it as one of many. -/
def PageCall.run (c : PageCall) : Exec Machine Unit := do
  let _ ← c.exec
  return ()

/-- The call makes a new table. -/
def PageCall.NewTable (c : PageCall) (m : Machine) (t : Frame) : Prop :=
  match c with
  | .map virt _ _ => entryTarget (m.tables dirFrame (slotOf virt)) = none ∧ m.pmm.Free t.val ∧
      ∀ f < t.val, ¬ m.pmm.Free f
  | _ => False

/-- The frames of the tables the call touches are in the direct map. -/
structure PageCall.InReach (c : PageCall) (m : Machine) : Prop where
  dir : InDirectMap m.phys dirFrame
  table : ∀ t, IsTable entryTarget dirFrame m.tables t → InDirectMap m.phys t
  next : ∀ t, c.NewTable m t → InDirectMap m.phys t

/-- The frame it takes for a new table is none yet. -/
def PageCall.TakesFresh (c : PageCall) (m : Machine) : Prop :=
  ∀ t, c.NewTable m t → t ≠ dirFrame ∧ ¬ IsTable entryTarget dirFrame m.tables t

/-- The page of the direct map where the kernel has something of its own: its image and what
lies in front of it, or the bitmap. -/
def OwnPage (k : KernelImage) (p : Pmm) (v : U32) : Prop :=
  0xC0000000 ≤ v.toNat ∧ ¬ OutsideKernel k p (frameOf (virtToPhys v)).val

/-- The call leaves the kernel's own pages where they are. -/
def PageCall.KeepsOwn (k : KernelImage) (m : Machine) : PageCall → Prop
  | .map virt phys _ => OwnPage k m.pmm virt → frameOf phys = frameOf (virtToPhys virt)
  | .unmap virt => ¬ OwnPage k m.pmm virt
  | .translate _ => True

/-- What a call that returned `r` did to the map and to the frame allocator. -/
def PageCall.Refines (c : PageCall) (r : U32) (m m' : Machine) : Prop :=
  match c with
  | .map virt phys flags =>
    (r = 1 ∧ pageMap m'.tables = (pageMap m.tables).map virt phys flags) ∨
      (r = 0 ∧ pageMap m'.tables = pageMap m.tables ∧ m'.pmm = m.pmm)
  | .unmap virt => pageMap m'.tables = (pageMap m.tables).unmap virt ∧ m'.pmm = m.pmm
  | .translate virt => r = (pageMap m.tables).translate virt ∧ m' = m

section

variable {m m' : Machine} {virt phys flags : U32} {ok : Bool}

/-- A page that is mapped is mapped in the map. -/
theorem StoresPage.refines {pde : Frame → U32} (h : StoresPage m virt (pteOf phys flags) pde ok m')
    (hp : Proper entryTarget dirFrame m.tables) :
    (PageCall.map virt phys flags).Refines (if ok then 1 else 0) m m' := by
  cases h with
  | failed hres _ _ hquiet =>
    subst hres
    exact .inr ⟨rfl, by rw [hquiet.tables], hquiet.pmm⟩
  | kept t hres hslot htables =>
    subst hres
    refine .inl ⟨rfl, ?_⟩
    rw [htables, pageMap_set hp hslot, mappingOf_pte]
    rfl
  | made t hres _ _ hvacant htables =>
    subst hres
    refine .inl ⟨rfl, ?_⟩
    rw [htables, pageMap_set (hp.of_install hvacant) (by rw [target_install hvacant, if_pos rfl]),
      pageMap_install hp hvacant, mappingOf_pte]
    rfl

theorem DropsPage.proper (h : DropsPage m virt m') (hp : Proper entryTarget dirFrame m.tables) :
    Proper entryTarget dirFrame m'.tables := by
  cases h with
  | absent _ hquiet => rw [hquiet.tables]; exact hp
  | dropped t hslot htables => rw [htables]; exact hp.of_set hslot

theorem DropsPage.pmm_eq (h : DropsPage m virt m') : m'.pmm = m.pmm := by
  cases h with
  | absent _ hquiet => exact hquiet.pmm
  | dropped _ _ _ hpmm => exact hpmm

/-- Where there is no table there is nothing to take out. -/
theorem pageMap_absent {T : Frame → Fin 1024 → U32}
    (h : entryTarget (T dirFrame (slotOf virt)) = none) : pageMap T (pageOf virt) = none := by
  rw [pageMap, pageEntry_pageOf, leafOf, leaf_of_none h]
  rfl

theorem DropsPage.refines (h : DropsPage m virt m') (hp : Proper entryTarget dirFrame m.tables)
    (r : U32) : (PageCall.unmap virt).Refines r m m' := by
  refine ⟨?_, h.pmm_eq⟩
  cases h with
  | absent hslot hquiet =>
    rw [hquiet.tables, PageMap.unmap, ← pageMap_absent hslot, Function.update_eq_self]
  | dropped t hslot htables =>
    rw [htables, pageMap_set hp hslot, mappingOf_zero]
    rfl

end

/-! ## `paging_translate` -/

theorem shift_frame (f : Frame) : BitVec.ofNat 32 f.val <<< 12 = frameAddr f.val := by
  apply BitVec.eq_of_toNat_eq
  have hf := f.isLt
  rw [BitVec.toNat_shiftLeft, BitVec.toNat_ofNat, frameAddr_frame, Nat.shiftLeft_eq]
  omega

/-- **`paging_translate` is a lookup**, as long as the tables are in reach. -/
theorem pagingTranslate_of {m : Mem} (h : TablesInReach m) (virt : U32) :
    pagingTranslate m virt = some ((pageMap (tables m)).translate virt) := by
  have hdir := h.dir.entry (slotOf virt)
  have htable := fun t ht => h.table t ⟨slotOf virt, ht⟩
  unfold pagingTranslate
  rw [PageMap.translate, pageMap, pageEntry_pageOf, leafOf, leaf]
  obtain ⟨pde, hpde⟩ : ∃ pde, m.read32 (entryAddr dirFrame (slotOf virt)) = pde := ⟨_, rfl⟩
  rw [← read32_entryAddr, hpde] at htable ⊢
  simp only [pagingDir_addr, hdir, Option.bind_eq_bind, Option.bind_some, hpde]
  by_cases h1 : pde &&& PAGE_PRESENT = 0
  · rw [entryTarget_eq_none.2 h1]
    simp only [h1, if_true]
    rfl
  · have htarget := entryTarget_of_present h1
    have hreach := (htable _ htarget).entry (indexOf virt)
    obtain ⟨pte, hpte⟩ : ∃ pte, m.read32 (entryAddr (frameOf pde) (indexOf virt)) = pte := ⟨_, rfl⟩
    simp only [htarget, h1, if_false, pagingEntry_addr, hreach, Option.bind_some,
      ← read32_entryAddr, hpte, Option.map_some]
    rw [mappingOf]
    by_cases h2 : pte &&& PAGE_PRESENT = 0
    · simp only [h2, if_true, entryTarget_eq_none.2 h2]
      rfl
    · simp only [h2, if_false, entryTarget_of_present h2, Option.map_some, shift_frame]
      rw [and_high_frame]
      rfl

/-! ## The runs -/

/-- What holds between the calls. -/
structure PagesOk (m : Machine) : Prop where
  proper : Proper entryTarget dirFrame m.tables
  wf : m.pmm.Wf

theorem PageCall.InReach.tables {c : PageCall} {m : Machine} (h : c.InReach m) (hm : PagesOk m) :
    TablesInReach m.phys := ⟨hm.proper, h.dir, h.table⟩

theorem PageCall.InReach.nextTable {virt phys flags : U32} {m : Machine}
    (h : (PageCall.map virt phys flags).InReach m)
    (hfresh : (PageCall.map virt phys flags).TakesFresh m)
    (hnone : entryTarget (m.tables dirFrame (slotOf virt)) = none) : NextTableInReach m := by
  intro t hfree hfirst
  obtain ⟨hdir, htable⟩ := hfresh t ⟨hnone, hfree, hfirst⟩
  exact ⟨hdir, htable, h.next t ⟨hnone, hfree, hfirst⟩⟩

theorem PageCall.exec_map {virt phys flags : U32} {m : Machine} (hm : PagesOk m)
    (hreach : (PageCall.map virt phys flags).InReach m)
    (hfresh : (PageCall.map virt phys flags).TakesFresh m) :
    wp (PageCall.map virt phys flags).exec
      (fun r m' => ∃ ok : Bool, r = (if ok then 1 else 0) ∧
        StoresPage m virt (pteOf phys flags) (fun t => pdeOf t flags) ok m')
      (fun _ _ => False) m := by
  rw [exec, wp_bind]
  refine wp_mono (pagingMapPage_of (hreach.tables hm) hm.wf virt phys flags
    (hreach.nextTable hfresh)) ?_ fun _ _ hf => hf
  exact fun ok m' h => ⟨ok, rfl, h⟩

theorem PageCall.exec_unmap {virt : U32} {m : Machine} (hm : PagesOk m)
    (hreach : (PageCall.unmap virt).InReach m) :
    wp (PageCall.unmap virt).exec (fun _ m' => DropsPage m virt m') (fun _ _ => False) m := by
  rw [exec, wp_bind]
  exact wp_mono (pagingUnmapPage_of (hreach.tables hm) hm.wf virt) (fun _ _ h => h) fun _ _ hf => hf

theorem PageCall.exec_translate {virt : U32} {m : Machine} (hm : PagesOk m)
    (hreach : (PageCall.translate virt).InReach m) :
    wp (PageCall.translate virt).exec
      (fun r m' => r = (pageMap m.tables).translate virt ∧ m' = m) (fun _ _ => False) m := by
  rw [exec, wp_bind, wp_get, pagingTranslate_of (hreach.tables hm)]
  exact ⟨rfl, rfl⟩

/-- **One call.** -/
theorem PageCall.exec_refines {c : PageCall} {m : Machine} (hm : PagesOk m) (hreach : c.InReach m)
    (hfresh : c.TakesFresh m) :
    wp c.exec (fun r m' => PagesOk m' ∧ c.Refines r m m') (fun _ _ => False) m := by
  cases c with
  | map virt phys flags =>
    refine wp_mono (exec_map hm hreach hfresh) ?_ fun _ _ hf => hf
    rintro r m' ⟨ok, rfl, h⟩
    exact ⟨⟨h.proper hm.proper, h.wf hm.wf⟩, h.refines hm.proper⟩
  | unmap virt =>
    refine wp_mono (exec_unmap hm hreach) ?_ fun _ _ hf => hf
    intro r m' h
    exact ⟨⟨h.proper hm.proper, h.pmm_eq ▸ hm.wf⟩, h.refines hm.proper r⟩
  | translate virt =>
    refine wp_mono (exec_translate hm hreach) ?_ fun _ _ hf => hf
    rintro r m' ⟨hr, rfl⟩
    exact ⟨hm, hr, rfl⟩

end Frewozet
