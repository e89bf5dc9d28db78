import Frewozet.Paging.AllocPage
import Frewozet.System.Failure
import Frewozet.System.Rights

/-!
# Pages allocated for the kernel

`paging_alloc_page` in the running kernel, whatever else has been done to page tables and
frames and whatever has been written to the frames that hold no table.

* `PageOp`, `PageOp.exec` — the calls into `paging.c` and `pmm.c`, those of `heap_grow`
  among them, and the writes.
* `PageOp.Ok` — **the tables a call touches are in reach**, the kernel's own pages and frames
  are left alone, and `paging_alloc_page` is given the start of a page or finds no frames.
* `PagedOk`, `PageOp.keeps` — the invariant.
* `allocPage_fills` — what every such call does.
-/

namespace Frewozet

open Word Exec TwoLevel

/-! ## The calls -/

/-- What the kernel does to page tables and frames. -/
inductive PageOp where
  | mapPage (virtAddr physAddr flags : U32)
  | unmapPage (virtAddr : U32)
  | allocMapped (virtAddr flags : U32)
  | allocPage
  | allocPageBelow (limit : U32)
  | allocContiguous (pageCount : U32)
  | freeContiguous (startPage pageCount : U32)
  | store (phys : Mem)

/-- Doing it. -/
def PageOp.exec : PageOp → Exec System Unit
  | mapPage virtAddr physAddr flags => (Op.mapPage virtAddr physAddr flags).exec
  | unmapPage virtAddr => (Op.unmapPage virtAddr).exec
  | allocMapped virtAddr flags => (Op.allocMapped virtAddr flags).exec
  | allocPage => Op.allocPage.exec
  | allocPageBelow limit => (Op.allocPageBelow limit).exec
  | allocContiguous pageCount => (Op.allocContiguous pageCount).exec
  | freeContiguous startPage pageCount => (Op.freeContiguous startPage pageCount).exec
  | store phys => modify fun t => { t with machine := { t.machine with phys := phys } }

/-- When it may be done.

* The tables the call touches are in the direct map.
* The kernel's own pages stay where they are: those of its image and of the bitmap.
* Clients free what they have, and do not write to the directory, to a table or to a frame of
  the kernel's own.
* `paging_alloc_page` is given the start of a page that is not the kernel's own, or finds no
  frames for it. -/
def PageOp.Ok (k : KernelImage) (t : System) : PageOp → Prop
  | mapPage virtAddr physAddr flags =>
    (PageCall.map virtAddr physAddr flags).InReach t.machine ∧
      (PageCall.map virtAddr physAddr flags).KeepsOwn k t.machine
  | unmapPage virtAddr => (PageCall.unmap virtAddr).InReach t.machine ∧
      (PageCall.unmap virtAddr).KeepsOwn k t.machine
  | allocMapped virtAddr _ => AllocInReach t.machine virtAddr ∧
      (virtAddr.toNat % 4096 = 0 ∧ ¬ OwnPage k t.machine.pmm virtAddr ∨
        ShortOfFrames t.machine virtAddr)
  | freeContiguous startPage pageCount => (startPage, pageCount) ∈ t.live
  | store phys => ∀ a : U32, frameOf a = dirFrame ∨
      IsTable entryTarget dirFrame t.machine.tables (frameOf a) ∨
        ¬ OutsideKernel k t.machine.pmm (frameOf a).val → phys a = t.machine.phys a
  | _ => True

/-! ## The invariant -/

/-- The tables are in order, clients have what they were given, and nothing is free that
`pmm_init` did not leave free, `p₀` being what it left. -/
structure PagedOk (p₀ : Pmm) (t : System) : Prop where
  sound : TablesSound t.machine
  clients : Clients p₀ t.live t.machine
  free : ∀ f, t.machine.pmm.Free f → p₀.Free f
  high : ∀ f, p₀.Free f → 256 ≤ f

/-- What `paging_alloc_page` does when it is called. -/
def PageOp.Fills (op : PageOp) (t : System) : Prop :=
  match op with
  | allocMapped virtAddr flags => ∃ ok m', pagingAllocPage virtAddr flags t.machine = .ret ok m' ∧
      AllocDone virtAddr ok t.machine m'
  | _ => True

section

variable {p₀ : Pmm} {k : KernelImage} {t : System} {m' : Machine} {W : U32 → Prop}

theorem PagedOk.evolve (h : PagedOk p₀ t) (he : Evolves W t.machine m') (hm : PagesOk m') :
    PagedOk p₀ { t with machine := m' } :=
  ⟨h.sound.evolve he hm, h.clients.evolve he, fun f hf => h.free f (he.free f hf), h.high⟩

/-- A client takes pages. -/
theorem PagedOk.clientAlloc (h : PagedOk p₀ t) {n : U32} {call : Pmm → U32 × Pmm}
    (hr : Allocates t.machine.pmm n (call t.machine.pmm)) :
    wp (Frewozet.clientAlloc n call) (fun _ => PagedOk p₀) (fun _ _ => False) t := by
  have hwf := h.sound.wf
  rw [wp_clientAlloc]
  rcases hr with hr | ⟨s, hr, hn, hend, hfree⟩
  · rw [hr]
    exact h
  · have hs := hfree s (le_refl s) (by omega)
    rw [hr]
    simp only [frameAddr_ne_zero (hwf.lt hs) (hwf.pos hs), if_false]
    have he : Evolves (fun _ => False) t.machine (t.machine.takeRange s n) :=
      evolves_takeRange hwf hn hend hfree
    have hpages : PagesOk (t.machine.takeRange s n) := ⟨h.sound.proper, hwf.takeRun hend⟩
    exact ⟨h.sound.evolve he hpages, h.clients.take hwf h.sound.fresh h.free hn hend hfree,
      fun f hf => h.free f (he.free f hf), h.high⟩

/-- A client gives a range back. -/
theorem PagedOk.clientFree (h : PagedOk p₀ t) {a n : U32} (ha : (a, n) ∈ t.live) :
    PagedOk p₀ { t with
      machine := { t.machine with pmm := pmmFreeContiguous a n t.machine.pmm }
      live := t.live.erase (a, n) } := by
  obtain ⟨hclients, hwf, -, hgive⟩ := h.clients.give h.sound.wf ha
  obtain ⟨-, hout, hno⟩ := h.clients.client _ ha
  refine ⟨⟨⟨h.sound.proper, hwf⟩, h.sound.writable, fun f hf => ?_⟩, hclients,
    fun f hf => ?_, h.high⟩
  · rcases hgive _ hf with hf | hf
    · exact h.sound.fresh f hf
    · refine ⟨?_, hno f hf⟩
      rintro rfl
      exact absurd (h.high _ (hout _ hf).1) (by decide)
  · rcases hgive f hf with hf | hf
    · exact h.free f hf
    · exact (hout f hf).1

/-- **One call.** -/
theorem PageOp.keeps {op : PageOp} (h : PagedOk p₀ t) (hok : op.Ok k t) :
    wp op.exec (fun _ t' => PagedOk p₀ t' ∧ op.Fills t) (fun _ _ => False) t := by
  have hm := h.sound.toPagesOk
  cases op with
  | mapPage virt phys flags =>
    rw [exec, Op.exec, wp_bind, onMachine, wp_zoom]
    refine wp_mono (pagingMapPage_of (hok.1.tables hm) hm.wf virt phys flags
      (hok.1.nextTable (h.sound.takesFresh _))) ?_ fun _ _ hf => hf
    intro ok m' hs
    have he := hs.evolves hm.proper hm.wf fun t => pdeOf_writable t flags
    exact ⟨h.evolve he ⟨hs.proper hm.proper, hs.wf hm.wf⟩, trivial⟩
  | unmapPage virt =>
    rw [exec, Op.exec, onMachine, wp_zoom]
    refine wp_mono (pagingUnmapPage_of (hok.1.tables hm) hm.wf virt) ?_ fun _ _ hf => hf
    rintro _ m' hd
    exact ⟨h.evolve (hd.evolves hm.proper) ⟨hd.proper hm.proper, hd.pmm_eq ▸ hm.wf⟩, trivial⟩
  | allocMapped virt flags =>
    obtain ⟨hreach, hv⟩ := hok
    rw [exec, Op.exec, wp_bind, onMachine, wp_zoom]
    refine wp_mono (wp_ran (wp_pagingAllocPage hm h.sound.fresh hreach (hv.imp_left And.left))) ?_
      fun _ _ hf => hf
    rintro ok m' ⟨hx, halloc⟩
    exact ⟨h.evolve (halloc.evolves hm) (halloc.pagesOk hm), ok, m', hx, halloc.done hm⟩
  | allocPage =>
    exact wp_mono (h.clientAlloc (allocates_allocContiguous t.machine.pmm 1))
      (fun _ _ h => ⟨h, trivial⟩) fun _ _ hf => hf
  | allocPageBelow limit =>
    exact wp_mono (h.clientAlloc (allocates_allocPageBelow t.machine.pmm limit))
      (fun _ _ h => ⟨h, trivial⟩) fun _ _ hf => hf
  | allocContiguous n =>
    exact wp_mono (h.clientAlloc (allocates_allocContiguous t.machine.pmm n))
      (fun _ _ h => ⟨h, trivial⟩) fun _ _ hf => hf
  | freeContiguous a n => exact ⟨h.clientFree hok, trivial⟩
  | store phys =>
    have hsame : SameTables t.machine { t.machine with phys := phys } :=
      ⟨tables_congr_frame fun a ha => hok a (.inl ha),
        fun f hf => tables_congr_frame fun a ha => hok a (.inr (.inl (ha ▸ hf))), rfl, rfl, rfl⟩
    exact ⟨h.evolve (W := fun _ => False) hsame.evolves
      ⟨hm.proper.congr hsame.dir, hm.wf⟩, trivial⟩

end

section

variable (info : E820Info) (k : KernelImage) (vmem phys : Mem)

theorem pagedOk_boot : PagedOk (boot info k vmem).pmm (bootSystem info k vmem phys) := by
  have h := machineOk_boot info k vmem phys
  exact ⟨h.tablesSound, ⟨fun a ha => absurd ha List.not_mem_nil, List.Pairwise.nil⟩, h.free, h.high⟩

/-- The frame of a new table is in the direct map if the second lowest free one is. -/
theorem allocInReach_of_counts {m : Machine} {virt : U32} (hw : Windowed m.tables) (hwf : m.pmm.Wf)
    (hcount : entryTarget (m.tables dirFrame (slotOf virt)) = none →
      m.pmm.freeCount ≤ 1 ∨ 2 ≤ m.pmm.freeBelow 1024) : AllocInReach m virt := by
  refine ⟨hw.inReach.dir, hw.inReach.table, fun t u ⟨hnone, ⟨ht, hfirst⟩, hu, hufirst⟩ =>
    hw.inDirectMap ?_⟩
  have hall : (m.take t).pmm.freeCount = m.pmm.freeCount - 1 := Pmm.freeCount_take hwf ht hfirst
  have hlow : (m.take t).pmm.freeBelow 1024 = m.pmm.freeBelow 1024 - 1 :=
    Pmm.freeBelow_take hwf ht hfirst 1024
  have hsome : (m.take t).pmm.freeCount ≠ 0 := fun hc =>
    (Pmm.freeCount_eq_zero (hwf.takeRun ht.lt)).1 hc _ hu
  have hc := hcount hnone
  obtain ⟨f, hf, hffree⟩ := Pmm.freeBelow_pos.1 (show 0 < (m.take t).pmm.freeBelow 1024 by omega)
  by_contra hge
  exact hufirst f (by omega) hffree

end

section

variable (info : E820Info) (k : KernelImage) (vmem phys : Mem)

/-- Frames that are not the loader's hold what they held. -/
theorem kernelMachine_bytes {a : U32} (hdir : frameOf a ≠ dirFrame)
    (hwin : frameOf a ≠ windowFrame) :
    (kernelMachine phys).phys a = phys a :=
  bytes_of_tables (fun i => by
    rw [show tables (kernelMachine phys).phys _ _ = _ from tables_kernelMachine phys _ i,
      if_neg hdir, if_neg hwin]) rfl

/-- An address inside a page of the direct map, with memory that does not read as zero:
the call returns 1, and the bytes in front of the address are what they were. -/
theorem boot_allocPage_inside {virt : U32} (flags : U32) (hoff : virt.toNat % 4096 ≠ 0)
    (hwin : ∀ i < PAGE_SIZE, slotOf (virt + BitVec.ofNat 32 i) = windowSlot)
    (hnext : ∀ i < PAGE_SIZE, ¬ SamePage (virt + BitVec.ofNat 32 i) virt →
      ¬ (boot info k vmem).pmm.Free (indexOf (virt + BitVec.ofNat 32 i)).val ∧
        (indexOf (virt + BitVec.ofNat 32 i)).val ≠ 9 ∧
          (indexOf (virt + BitVec.ofNat 32 i)).val ≠ 10)
    (hfree : ∃ f, (boot info k vmem).pmm.Free f) (hphys : ∀ a, phys a ≠ 0) :
    AllocInReach (bootSystem info k vmem phys).machine virt ∧
      ∃ m', pagingAllocPage virt flags (bootSystem info k vmem phys).machine = .ret true m' ∧
        ¬ AllocDone virt true (bootSystem info k vmem phys).machine m' := by
  have h := machineOk_boot info k vmem phys
  have hstart : virt + BitVec.ofNat 32 0 = virt := BitVec.add_zero virt
  have hslot : slotOf virt = windowSlot := hstart ▸ hwin 0 (by decide)
  have hhas : entryTarget ((bootSystem info k vmem phys).machine.tables dirFrame (slotOf virt)) =
      some windowFrame := by rw [hslot, h.windowed.window]
  have hreach : AllocInReach (bootSystem info k vmem phys).machine virt := by
    refine ⟨h.windowed.inReach.dir, h.windowed.inReach.table, fun t u htakes => ?_⟩
    rw [TakesTable, hhas] at htakes
    cases htakes.1
  have hshort : ¬ ShortOfFrames (bootSystem info k vmem phys).machine virt := by
    obtain ⟨f, hf⟩ := hfree
    have hpos : (boot info k vmem).pmm.freeCount ≠ 0 := fun hc =>
      (Pmm.freeCount_eq_zero h.wf).1 hc f hf
    rw [ShortOfFrames, hhas, if_neg (by simp)]
    exact fun hc => hpos (Nat.lt_one_iff.1 hc)
  have hwp := wp_pagingAllocPage_inside flags h.tablesSound.toPagesOk h.fresh hreach hoff hshort
    fun i hi hpage => by
      obtain ⟨g, hg, hval⟩ := h.windowed.walk (hwin i hi)
      obtain ⟨h1, h2, h3⟩ := hnext i hi hpage
      rw [← hval] at h1 h2 h3
      refine ⟨g, hg, h1, ?_, fun hc => ?_⟩
      · rintro rfl
        exact h2 rfl
      · rw [bootSystem_tables] at hc
        obtain rfl := isTable_kernelMachine phys hc
        exact h3 rfl
  refine ⟨hreach, ?_⟩
  obtain ⟨_, m', hx, rfl, t, ht, hmmu, hbyte⟩ := wp_total hwp
  refine ⟨m', hx, fun ⟨t', hfilled⟩ => ?_⟩
  -- the page went to `t`, and `t` still starts with what was there
  obtain rfl : t' = t := by
    have hwhere := (hfilled.mapped virt rfl).symm.trans hmmu
    have hval := congrArg BitVec.toNat (Option.some.inj hwhere)
    rw [inFrame_toNat, inFrame_toNat] at hval
    exact Fin.ext (by omega)
  have hfresh := h.fresh t' ht
  have hzero := hfilled.zero _ (frameOf_frameAddr t')
  rw [hbyte, bootSystem_phys] at hzero
  refine hphys (frameAddr t'.val) ((kernelMachine_bytes phys ?_ ?_).symm.trans hzero)
  · rw [frameOf_frameAddr]
    exact hfresh.1
  · rw [frameOf_frameAddr]
    rintro rfl
    exact hfresh.2 ⟨windowSlot, h.windowed.window⟩

end

end Frewozet
