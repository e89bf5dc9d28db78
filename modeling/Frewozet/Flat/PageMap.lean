import Frewozet.Flat.Paging
import Frewozet.Flat.Start

/-!
# The tables as one map, with the bitmap in memory

Runs of the three functions of `paging.c` on a machine that has the bitmap of `pmm.c` among its
bytes: a call that moves the page of the bitmap would change what the frame allocator reads.

* `Flat.exec`, `Flat.run` — the calls, over the allocator that reads its bitmap.
* `simulates_map`, `simulates_unmap`, `Flat.exec_refines` — what one call does.
* `pageTables_refine` — **every call of every run that leaves the kernel's own pages where they
  are does to the map what its name says**.
* `refines_lost` — a call that does not: the next one takes frame 0, fails, and has written to
  the bitmap.
-/

namespace Frewozet

open Word Exec TwoLevel

/-! ## The calls -/

namespace Flat

/-- Run it, with what it returns. -/
def exec : PageCall → Exec Machine U32
  | .map virt phys flags => do
    let ok ← pagingMapPage virt phys flags
    return if ok then 1 else 0
  | .unmap virt => do
    pagingUnmapPage virt
    return 0
  | .translate virt => do
    let m ← get
    ofOption .fault (pagingTranslate m.phys virt)

/-- Run it as one of many. -/
def run (c : PageCall) : Exec Machine Unit := do
  let _ ← exec c
  return ()

end Flat

/-! ## One call -/

section

variable {m l : Machine} {c : PageCall} {k : KernelImage}

theorem SameTables.inReach {m' : Machine} (hs : SameTables m m') (h : c.InReach m) :
    c.InReach m' := by
  have hwalk := hs.walk
  refine ⟨h.dir.congr hwalk, fun t ht => (h.table t ((isTable_congr hs.dir).1 ht)).congr hwalk,
    fun t ht => (h.next t ?_).congr hwalk⟩
  cases c with
  | map virt phys flags =>
    obtain ⟨hnone, hfree⟩ := ht
    rw [hs.dir] at hnone
    rw [hs.pmm] at hfree
    exact ⟨hnone, hfree⟩
  | unmap virt => exact ht.elim
  | translate virt => exact ht.elim

theorem SameTables.takesFresh {m' : Machine} (hs : SameTables m m') (h : c.TakesFresh m) :
    c.TakesFresh m' := by
  intro t ht
  rw [isTable_congr hs.dir]
  refine h t ?_
  cases c with
  | map virt phys flags =>
    obtain ⟨hnone, hfree⟩ := ht
    rw [hs.dir] at hnone
    rw [hs.pmm] at hfree
    exact ⟨hnone, hfree⟩
  | unmap virt => exact ht.elim
  | translate virt => exact ht.elim

/-- The pages of the bitmap are among the kernel's own. -/
theorem ownPage_bitmap {p : Pmm} {g : Frame} {virt : U32} (hg : BitmapFrame p g.val)
    (hbelow : g.val < 0x40000) (hv : SamePage (physToVirt (frameAddr g.val)) virt) :
    OwnPage k p virt ∧ frameOf (virtToPhys virt) = g := by
  have haddr := frameAddr_frame g
  have hphys := physToVirt_toNat (a := frameAddr g.val) (by omega)
  rw [SamePage, hphys, haddr] at hv
  have hlow : 0xC0000000 ≤ virt.toNat := by omega
  have hframe : frameOf (virtToPhys virt) = g := by
    apply Fin.ext
    change (virtToPhys virt).toNat / 4096 = g.val
    rw [virtToPhys_toNat hlow]
    omega
  exact ⟨⟨hlow, fun hout => hout.2.2 (hframe ▸ hg)⟩, hframe⟩

/-- What the layer has become shows in the machine. -/
theorem Layered.pagesOk (h : Layered m l) (hl : PagesOk l) :
    PagesOk m.seen ∧ pageMap m.tables = pageMap l.tables := by
  obtain ⟨rfl, hres⟩ := h
  have hs := hres.sameTables
  exact ⟨⟨hl.proper.congr fun j => (hs.dir j).symm, hl.wf⟩, hs.pageMap_eq.symm⟩

theorem simulates_map {virt phys flags : U32} (h : Layered m l) (hl : PagesOk l)
    (hreach : (PageCall.map virt phys flags).InReach l)
    (hfresh : (PageCall.map virt phys flags).TakesFresh l)
    (hkeep : (PageCall.map virt phys flags).KeepsOwn k l) :
    Simulates Layered (Flat.exec (.map virt phys flags)) (PageCall.map virt phys flags).exec
      m l := by
  refine (simulates_mapPage h (hreach.tables hl) hl.wf virt phys flags (hreach.nextTable hfresh)
    fun g hg hv => ?_).bind fun ok _ _ _ _ h' => simulates_pure h' _
  obtain ⟨hown, hframe⟩ := @ownPage_bitmap k _ _ _ hg (h.direct hg).below hv
  rw [hkeep hown, hframe]

theorem simulates_unmap {virt : U32} (h : Layered m l) (hl : PagesOk l)
    (hreach : (PageCall.unmap virt).InReach l) (hkeep : (PageCall.unmap virt).KeepsOwn k l) :
    Simulates Layered (Flat.exec (.unmap virt)) (PageCall.unmap virt).exec m l :=
  (simulates_unmapPage h (hreach.tables hl) hl.wf virt fun _ hg hv =>
    hkeep (ownPage_bitmap hg (h.direct hg).below hv).1).bind fun _ _ _ _ _ h' => simulates_pure h' _

/-- **One call.** -/
theorem Flat.exec_refines (hm : PagesOk m.seen) (hres : Resident m) (hreach : c.InReach m.seen)
    (hfresh : c.TakesFresh m.seen) (hkeep : c.KeepsOwn k m.seen) :
    wp (Flat.exec c) (fun r m' => (PagesOk m'.seen ∧ Resident m') ∧ c.Refines r m.seen m'.seen)
      (fun _ _ => False) m := by
  have hs := hres.sameTables
  have hlayer : Layered m m.layer := ⟨rfl, hres⟩
  have hl : PagesOk m.layer := ⟨hm.proper.congr hs.dir, hm.wf⟩
  have hreachL := hs.inReach hreach
  have hfreshL := hs.takesFresh hfresh
  -- what a call does to the map over the layer, it does to the map that is seen
  have hlift : Simulates Layered (Flat.exec c) c.exec m m.layer → wp (Flat.exec c)
      (fun r m' => (PagesOk m'.seen ∧ Resident m') ∧ c.Refines r m.layer m'.layer ∧
        pageMap m'.layer.tables = pageMap m'.seen.tables) (fun _ _ => False) m := fun hsim => by
    refine wp_mono (hsim.transfer (PageCall.exec_refines hl hreachL hfreshL)) ?_ fun _ _ hf => hf
    rintro r m' ⟨_, -, ⟨rfl, hres'⟩, hok, hr⟩
    obtain ⟨hok', hmap⟩ := Layered.pagesOk ⟨rfl, hres'⟩ hok
    exact ⟨⟨hok', hres'⟩, hr, hmap.symm⟩
  cases c with
  | map virt phys flags =>
    refine wp_mono (hlift (simulates_map hlayer hl hreachL hfreshL hkeep)) ?_ fun _ _ hf => hf
    rintro r m' ⟨hok, hr, hmap⟩
    unfold PageCall.Refines at hr ⊢
    rw [hs.pageMap_eq, hmap] at hr
    exact ⟨hok, hr⟩
  | unmap virt =>
    refine wp_mono (hlift (simulates_unmap hlayer hl hreachL hkeep)) ?_ fun _ _ hf => hf
    rintro r m' ⟨hok, hr, hmap⟩
    unfold PageCall.Refines at hr ⊢
    rw [hs.pageMap_eq, hmap] at hr
    exact ⟨hok, hr⟩
  | translate virt =>
    unfold Flat.exec
    have htranslate := pagingTranslate_of (hreach.tables hm) virt
    rw [Machine.seen_phys] at htranslate
    rw [wp_bind, wp_get, htranslate]
    exact ⟨⟨hm, hres⟩, rfl, rfl⟩

/-- The call as a step of a run. -/
theorem Flat.run_refines (hm : PagesOk m.seen ∧ Resident m)
    (hc : c.InReach m.seen ∧ c.TakesFresh m.seen ∧ c.KeepsOwn k m.seen) :
    wp (Flat.run c) (fun _ m' => (PagesOk m'.seen ∧ Resident m') ∧
      ∃ r, Flat.exec c m = .ret r m' ∧ c.Refines r m.seen m'.seen) (fun _ _ => False) m := by
  rw [Flat.run, wp_bind]
  refine wp_mono (wp_ran (Flat.exec_refines hm.1 hm.2 hc.1 hc.2.1 hc.2.2)) ?_ fun _ _ hf => hf
  rintro r m' ⟨hx, hok, hr⟩
  exact ⟨hok, r, hx, hr⟩

end

/-! ## The runs -/

/-- **The tables refine the map.**  Start where no table hangs twice and the bitmap is in
place.  In every run in which the tables are in reach, new ones are taken from fresh frames and
the kernel's own pages stay where they are, every call is made, and does to the map what its
name says. -/
theorem pageTables_refine (k : KernelImage) {m₀ : Machine} (hm : PagesOk m₀.seen)
    (hres : Resident m₀) {pre post : List PageCall} {c : PageCall}
    (hok : EachOk Flat.run
      (fun m c => c.InReach m.seen ∧ c.TakesFresh m.seen ∧ c.KeepsOwn k m.seen)
      (pre ++ c :: post) m₀) :
    ∃ m r m', runAll Flat.run pre m₀ = .ret () m ∧ Flat.exec c m = .ret r m' ∧
      c.Refines r m.seen m'.seen := by
  obtain ⟨m, m', hpre, -, -, hrun, r, hx, hr⟩ := runAll_each
    (fun m c hm hc => Flat.run_refines hm hc) ⟨hm, hres⟩ hok
  exact ⟨m, r, m', hpre, hx, hr⟩

section

variable (info : E820Info) (k : KernelImage) (vmem phys : Mem)

/-- A call for a page of the direct map takes no table. -/
theorem inReach_bootMachine (hk : 0xC0100000 ≤ k.kernelEnd.toNat) {virt : U32}
    (hs : slotOf virt = windowSlot) (p f : U32) :
    (PageCall.map virt p f).InReach (bootMachine info k vmem phys).seen ∧
      (PageCall.map virt p f).TakesFresh (bootMachine info k vmem phys).seen := by
  obtain ⟨-, hw⟩ := bootMachine_ok info k vmem phys hk
  have hno : ∀ t, ¬ (PageCall.map virt p f).NewTable (bootMachine info k vmem phys).seen t := by
    rintro t ⟨hnone, -⟩
    rw [hs, Machine.seen_tables, hw.window] at hnone
    cases hnone
  exact ⟨⟨hw.inReach.dir, hw.inReach.table, fun t ht => absurd ht (hno t)⟩,
    fun t ht => absurd ht (hno t)⟩

end

/-- After boot the page at 3 MiB of the direct map is mapped once more. -/
theorem pageTables_refine_window : ∃ m r m',
    runAll Flat.run [] (bootMachine plainTable smallKernel (fun _ => 0) fun _ => 0) = .ret () m ∧
      Flat.exec (.map 0xC0300000 0x300000 PAGE_WRITABLE) m = .ret r m' ∧
        (PageCall.map 0xC0300000 0x300000 PAGE_WRITABLE).Refines r m.seen m'.seen := by
  have hk : 0xC0100000 ≤ smallKernel.kernelEnd.toNat := by decide
  obtain ⟨hreach, hfresh⟩ := @inReach_bootMachine plainTable smallKernel (fun _ => 0) (fun _ => 0)
    hk 0xC0300000 (by decide) 0x300000 PAGE_WRITABLE
  exact @pageTables_refine smallKernel _ (bootMachine_ok _ _ _ _ hk).1
    (bootMachine_resident _ _ _ _ hk).1 [] [] _
    ⟨⟨hreach, hfresh, fun _ => by decide⟩, fun _ _ => trivial⟩

/-! ## A bitmap that has been moved -/

section

variable {m : Machine} {virt phys flags : U32} {t : Frame}

/-- Where there is a table no frame is asked for. -/
theorem wp_mapPage_found {allocPage : Exec Machine U32} (h : TablesInReach m.phys)
    (ht : entryTarget (m.tables dirFrame (slotOf virt)) = some t) :
    wp (pagingMapPageBy allocPage virt phys flags) (fun ok m' => ok = true ∧ m'.pmm = m.pmm ∧
      m'.phys = m.phys.write32 (entryAddr t (indexOf virt)) (pteOf phys flags))
      (fun _ _ => False) m := by
  have hentry := h.dir.entry (slotOf virt)
  have hmap := h.table t ⟨slotOf virt, ht⟩
  have hstore : mmu (m.touched (physToVirt (entryAddr dirFrame (slotOf virt)))).phys
      (physToVirt (entryAddr t (indexOf virt))) = some (entryAddr t (indexOf virt)) :=
    hmap.entry (indexOf virt)
  have hpresent : m.tables dirFrame (slotOf virt) &&& PAGE_PRESENT ≠ 0 := fun hc => by
    rw [entryTarget_eq_none.2 hc] at ht
    cases ht
  have hframe : frameOf (m.tables dirFrame (slotOf virt)) = t :=
    Option.some.inj ((entryTarget_of_present hpresent).symm.trans ht)
  unfold pagingMapPageBy pagingGetPageTableBy
  dsimp only
  rw [wp_bind, pagingDir_addr, slotOf_alignDown, wp_bind, wp_loadTable hentry, read32_entryAddr,
    if_pos hpresent, wp_pure, and_high_frame, hframe, if_neg hmap.ptr_ne, physToVirt_add,
    frameEntry_addr, indexOf_alignDown, wp_bind, wp_storeTable hstore]
  exact ⟨rfl, rfl, rfl⟩

/-- Where the bitmap shows frame 0 as free, it is taken, and no caller can tell. -/
theorem wp_allocPage_zero (h : BitmapSound m) (hb : m.pmm.pmmBitmap ≠ 0)
    (htotal : 0 < m.pmm.pmmTotalPages.toNat) (hbit : pmmTestBit m.bitmap 0 = false) :
    wp Flat.pmmAllocPage (fun p m' => p = 0 ∧ m'.bitmap = pmmSetRun m.bitmap 0 1)
      (fun _ _ => False) m := by
  have hcovers := h.covers hb
  have hscan := h.runScan 1 m.pmm.pmmTotalPages.toNat 0 0 0 (by omega)
  obtain ⟨left, hleft⟩ := Nat.exists_eq_add_of_lt htotal
  have hfound : FirstFit.runScan (fun page => !pmmTestBit m.bitmap page) 1
      m.pmm.pmmTotalPages.toNat 0 0 0 = some 0 := by
    rw [hleft]
    simp [FirstFit.runScan, hbit]
  rw [hfound] at hscan
  unfold Flat.pmmAllocPage Flat.pmmAllocContiguous
  rw [wp_bind, wp_get, if_neg (not_or.2 ⟨hb, by decide⟩), wp_bind]
  simp only [wp, show (1 : U32).toNat = 1 from rfl, hscan]
  change wp _ _ _ m
  rw [wp_bind]
  refine wp_mono (h.setRun 1 0 (by omega)) ?_ fun _ _ hc => hc
  rintro _ m' ⟨-, hbits⟩
  exact ⟨rfl, hbits⟩

/-- **Then mapping a page that needs a table fails**, and the bitmap has changed. -/
theorem wp_map_zero (h : BitmapSound m) (hdir : InDirectMap m.phys dirFrame)
    (hnone : entryTarget (m.tables dirFrame (slotOf virt)) = none) (hb : m.pmm.pmmBitmap ≠ 0)
    (htotal : 0 < m.pmm.pmmTotalPages.toNat) (hbit : pmmTestBit m.bitmap 0 = false) :
    wp (Flat.exec (.map virt phys flags))
      (fun r m' => r = 0 ∧ m'.bitmap = pmmSetRun m.bitmap 0 1) (fun _ _ => False) m := by
  have hentry := hdir.entry (slotOf virt)
  have habsent := entryTarget_eq_none.1 hnone
  unfold Flat.exec Flat.pagingMapPage pagingMapPageBy pagingGetPageTableBy
  dsimp only
  rw [wp_bind, wp_bind, pagingDir_addr, slotOf_alignDown, wp_bind, wp_loadTable hentry,
    read32_entryAddr, if_neg (not_not.2 habsent)]
  simp only [Bool.not_true, Bool.false_eq_true, if_false]
  have hsound : BitmapSound (m.touched (physToVirt (entryAddr dirFrame (slotOf virt)))) :=
    ⟨h.total, h.stop, h.cells.mapped, h.cells.apart⟩
  rw [wp_bind]
  refine wp_mono (wp_allocPage_zero hsound hb htotal hbit) ?_ fun _ _ hc => hc
  rintro _ m' ⟨rfl, hbits⟩
  exact ⟨rfl, hbits⟩

end

/-- A machine with its bitmap in the page behind 1 MiB + 64 KiB, and nothing yet in the page at
3 MiB. -/
structure BitmapAt (m : Machine) : Prop where
  ok : PagesOk m.seen
  windowed : Windowed m.tables
  bitmap : m.pmm.pmmBitmap = 0xC0110000
  total : m.pmm.pmmTotalPages = 2048
  isTable : ∀ t, IsTable entryTarget dirFrame m.tables t ↔ t = windowFrame
  slot : entryTarget (m.tables dirFrame (slotOf 0xC0400000)) = none
  empty : ∀ a : U32, a.toNat / 4096 = 768 → m.phys a = 0

/-- After the page of the bitmap has been mapped to 3 MiB. -/
structure BitmapMoved (m m' : Machine) : Prop where
  pmm : m'.pmm = m.pmm
  dir : ∀ j, m'.tables dirFrame j = m.tables dirFrame j
  walk : ∀ v, walkOf m'.tables v =
    if SamePage v 0xC0110000 then some 768 else walkOf m.tables v
  empty : ∀ a : U32, a.toNat / 4096 = 768 → m'.phys a = 0

theorem wp_moveBitmap {m : Machine} (h : BitmapAt m) :
    wp (Flat.exec (.map 0xC0110000 0x300000 PAGE_WRITABLE)) (fun r m' => r = 1 ∧ BitmapMoved m m')
      (fun _ _ => False) m := by
  have hslot : entryTarget (m.tables dirFrame (slotOf 0xC0110000)) = some windowFrame := by
    rw [show slotOf 0xC0110000 = windowSlot by decide]
    exact h.windowed.window
  have hp := h.windowed.proper
  unfold Flat.exec Flat.pagingMapPage
  rw [wp_bind]
  refine wp_mono (wp_mapPage_found h.windowed.inReach hslot) ?_ fun _ _ hc => hc
  rintro _ m' ⟨rfl, hpmm, hphys⟩
  have hT : m'.tables = setEntry m.tables windowFrame (indexOf 0xC0110000)
      (pteOf 0x300000 PAGE_WRITABLE) := by
    rw [Machine.tables, hphys, tables_write32]
  refine ⟨rfl, hpmm, fun j => ?_, fun v => ?_, fun a ha => ?_⟩
  · rw [hT]
    exact set_dir hp hslot j
  · rw [hT, walkOf_set hp hslot, entryTarget_pteOf]
    rfl
  · rw [hphys]
    refine Eq.trans ?_ (h.empty a ha)
    refine bytes_of_tables (f := 768) (fun i => ?_) (Fin.ext ha)
    rw [tables_write32]
    exact set_of_ne (by decide)

namespace BitmapMoved

variable {m m' : Machine}

/-- The bitmap is read from the page at 3 MiB. -/
theorem mmu (h : BitmapMoved m m') {a : U32} (ha : SamePage a 0xC0110000) :
    mmu m'.phys a = some (inFrame 768 a) := by
  rw [mmu_eq, h.walk, if_pos ha]
  rfl

variable (h : BitmapMoved m m') (hm : BitmapAt m)

include h hm

theorem isTable (t : Frame) : IsTable entryTarget dirFrame m'.tables t ↔ t = windowFrame :=
  (isTable_congr h.dir).trans (hm.isTable t)

theorem inDirectMap {f : Frame} (hf : f.val < 16) : InDirectMap m'.phys f := by
  have hmap := hm.windowed.inDirectMap (f := f) (by omega)
  have haddr := frameAddr_frame f
  have hphys := physToVirt_toNat (a := frameAddr f.val) (by omega)
  refine ⟨hmap.below, ?_⟩
  rw [mmu_eq, h.walk, if_neg, ← mmu_eq]
  · exact hmap.reach
  · rw [SamePage, hphys, haddr]
    change ¬ (f.val * 4096 + 0xC0000000) / 4096 = 0xC0110
    omega

theorem mem_cells {a : U32} :
    a ∈ m'.bitmapCells ↔ 0xC0110000 ≤ a.toNat ∧ a.toNat < 0xC0110100 := by
  have hcells : m.pmm.cells = 64 := by
    rw [Pmm.cells, hm.bitmap, hm.total]
    decide
  rw [Machine.mem_bitmapCells, h.pmm, hcells, hm.bitmap]
  exact Iff.rfl

theorem sound : BitmapSound m' := by
  have hpage : ∀ a ∈ m'.bitmapCells, SamePage a 0xC0110000 := fun a ha => by
    rw [h.mem_cells hm] at ha
    change a.toNat / 4096 = 0xC0110
    omega
  have hframe : ∀ a, frameOf (inFrame 768 a) = 768 := fun a => by
    apply Fin.ext
    change (inFrame 768 a).toNat / 4096 = 768
    rw [inFrame_toNat]
    change (768 * 4096 + _) / 4096 = 768
    omega
  refine ⟨?_, ?_, fun a ha => ⟨_, h.mmu (hpage a ha), ?_, ?_⟩, fun v hv w hw p hp hq => ?_⟩
  · rw [h.pmm, hm.total]
    decide
  · rw [h.pmm, Pmm.cells, hm.bitmap, hm.total]
    decide
  · rw [hframe]
    decide
  · rw [hframe, h.isTable hm]
    decide
  · rw [h.mmu (hpage v hv)] at hp
    rw [h.mmu (hpage w hw)] at hq
    have heq := congrArg BitVec.toNat ((Option.some.inj hp).trans (Option.some.inj hq).symm)
    rw [inFrame_toNat, inFrame_toNat] at heq
    rw [h.mem_cells hm] at hv hw
    apply BitVec.eq_of_toNat_eq
    omega

/-- Frame 0 shows as free. -/
theorem clear : pmmTestBit m'.bitmap 0 = false := by
  have hsound := h.sound hm
  have hcells : 0 < m'.pmm.cells := by
    rw [h.pmm, Pmm.cells, hm.bitmap, hm.total]
    decide
  have hread : m'.view.read32 (m'.pmm.wordAddr 0) = Mem.read32 (fun _ => 0) 0 := by
    refine Mem.read32_of_bytes fun k hk => ?_
    have hmem := (hsound.word hcells).2 k hk
    rw [h.mem_cells hm] at hmem
    have hpage : SamePage (m'.pmm.wordAddr 0 + BitVec.ofNat 32 k) 0xC0110000 := by
      change _ / 4096 = 0xC0110
      omega
    rw [Machine.view_of_mmu (h.mmu hpage)]
    refine h.empty _ ?_
    rw [inFrame_toNat]
    change (768 * 4096 + _) / 4096 = 768
    omega
  rw [pmmTestBit, show 0 / 32 = 0 from rfl, Machine.getD_bitmap _ hcells, hread]
  decide

/-- A new table would be made from it. -/
theorem free_zero : m'.seen.pmm.Free 0 := by
  refine ⟨?_, ?_, ?_⟩
  · change m'.pmm.pmmBitmap ≠ 0
    rw [h.pmm, hm.bitmap]
    decide
  · change 0 < m'.pmm.pmmTotalPages.toNat
    rw [h.pmm, hm.total]
    decide
  · change ¬ pmmTestBit m'.bitmap 0 = true
    rw [h.clear hm]
    decide

theorem newTable {virt p f : U32} {t : Frame}
    (ht : (PageCall.map virt p f).NewTable m'.seen t) : t.val = 0 := by
  by_contra hc
  exact ht.2.2 0 (Nat.pos_of_ne_zero hc) (h.free_zero hm)

/-- Its tables are still in reach, and it would not take one of them for a new one. -/
theorem inReach (virt p f : U32) : (PageCall.map virt p f).InReach m'.seen ∧
    (PageCall.map virt p f).TakesFresh m'.seen := by
  refine ⟨⟨h.inDirectMap hm (by decide), fun t ht => ?_, fun t ht => ?_⟩, fun t ht => ⟨?_, ?_⟩⟩
  · obtain rfl := (h.isTable hm t).1 ht
    exact h.inDirectMap hm (by decide)
  · refine h.inDirectMap hm ?_
    rw [h.newTable hm ht]
    decide
  · rintro rfl
    exact absurd (h.newTable hm ht) (by decide)
  · intro hc
    obtain rfl := (h.isTable hm t).1 hc
    exact absurd (h.newTable hm ht) (by decide)

/-- **The next page that needs a table is refused**, and the bitmap has changed. -/
theorem next : wp (Flat.exec (.map 0xC0400000 0x200000 PAGE_WRITABLE))
    (fun r m'' => r = 0 ∧
      ¬ (PageCall.map 0xC0400000 0x200000 PAGE_WRITABLE).Refines 0 m'.seen m''.seen)
    (fun _ _ => False) m' := by
  have hfree := h.free_zero hm
  have hslot : entryTarget (m'.tables dirFrame (slotOf 0xC0400000)) = none := by
    rw [h.dir]
    exact hm.slot
  refine wp_mono (wp_map_zero (h.sound hm) (h.inDirectMap hm (by decide)) hslot hfree.1 hfree.2.1
    (h.clear hm)) ?_ fun _ _ hc => hc
  rintro r m'' ⟨rfl, hbits⟩
  refine ⟨rfl, ?_⟩
  rintro (⟨hc, -⟩ | ⟨-, -, hpmm⟩)
  · exact absurd hc (by decide)
  · have hwords : m''.bitmap = m'.bitmap := congrArg Pmm.words hpmm
    have hcells : 0 < m'.pmm.cells := by
      rw [h.pmm, Pmm.cells, hm.bitmap, hm.total]
      decide
    have hset : pmmTestBit (pmmSetRun m'.bitmap 0 1) 0 :=
      (pmmTestBit_setRun 1 (by rw [Machine.length_bitmap]; omega) 0).2
        (.inl ⟨le_refl _, Nat.lt_succ_self _⟩)
    rw [← hbits, hwords, h.clear hm] at hset
    cases hset

end BitmapMoved

theorem BitmapAt.inReach {m : Machine} (h : BitmapAt m) :
    (PageCall.map 0xC0110000 0x300000 PAGE_WRITABLE).InReach m.seen ∧
      (PageCall.map 0xC0110000 0x300000 PAGE_WRITABLE).TakesFresh m.seen := by
  have hno : ∀ t, ¬ (PageCall.map 0xC0110000 0x300000 PAGE_WRITABLE).NewTable m.seen t := by
    rintro t ⟨hnone, -⟩
    rw [show slotOf 0xC0110000 = windowSlot by decide, Machine.seen_tables, h.windowed.window]
      at hnone
    cases hnone
  exact ⟨⟨h.windowed.inReach.dir, h.windowed.inReach.table, fun t ht => absurd ht (hno t)⟩,
    fun t ht => absurd ht (hno t)⟩

/-- Two calls that are made where the tables are in reach, and the second one does not do what
its name says. -/
theorem refines_lost {m : Machine} (h : BitmapAt m) :
    EachOk Flat.run (fun m c => c.InReach m.seen ∧ c.TakesFresh m.seen)
      [.map 0xC0110000 0x300000 PAGE_WRITABLE, .map 0xC0400000 0x200000 PAGE_WRITABLE] m ∧
    ∃ m₁ m₂, runAll Flat.run [.map 0xC0110000 0x300000 PAGE_WRITABLE] m = .ret () m₁ ∧
      Flat.exec (.map 0xC0400000 0x200000 PAGE_WRITABLE) m₁ = .ret 0 m₂ ∧
      ¬ (PageCall.map 0xC0400000 0x200000 PAGE_WRITABLE).Refines 0 m₁.seen m₂.seen := by
  obtain ⟨r, m₁, hx, -, hmoved⟩ := wp_total (wp_moveBitmap h)
  obtain ⟨_, m₂, hy, rfl, hnot⟩ := wp_total (hmoved.next h)
  have hrun : Flat.run (.map 0xC0110000 0x300000 PAGE_WRITABLE) m = .ret () m₁ := by
    rw [Flat.run, bind_ret hx]
    rfl
  refine ⟨⟨h.inReach, fun s hs => ⟨?_, fun _ _ => trivial⟩⟩, m₁, m₂, ?_, hy, hnot⟩
  · rw [hrun] at hs
    obtain rfl := (Outcome.ret.inj hs).2
    exact hmoved.inReach h _ _ _
  · rw [runAll_of_ret hrun]
    rfl

theorem bitmapAt_boot :
    BitmapAt (bootMachine plainTable smallKernel (fun _ => 0) fun _ => 0) := by
  have hk : 0xC0100000 ≤ smallKernel.kernelEnd.toNat := by decide
  obtain ⟨hok, hw⟩ := bootMachine_ok plainTable smallKernel (fun _ => 0) (fun _ => 0) hk
  have hr := boot_ready plainTable smallKernel (fun _ => 0) (by decide)
  refine ⟨hok, hw, ?_, ?_, bootMachine_isTable _ _ _ _ hk,
    bootMachine_slot _ _ _ _ hk (by decide), fun a ha => ?_⟩
  · rw [bootMachine, Machine.placeBitmap_bitmap, hr.bitmap]
    decide
  · rw [bootMachine, Machine.placeBitmap_total, hr.total]
    decide
  · have hframe : (frameOf a).val = 768 := ha
    refine bootMachine_phys _ _ _ _ hk (fun hc => ?_) (fun hc => ?_) fun hc => ?_
    · rw [Ready.bitmapFrame_iff _ _ hr, ha] at hc
      exact absurd hc (by decide)
    · rw [hc] at hframe
      exact absurd hframe (by decide)
    · rw [hc] at hframe
      exact absurd hframe (by decide)

/-- **The bitmap moved.**  On a machine with memory from 1 to 8 MiB the page of the bitmap is
mapped to the one at 3 MiB, and the next page that needs a table is refused with another bitmap
than before. -/
theorem pageTables_lost_window :
    EachOk Flat.run (fun m c => c.InReach m.seen ∧ c.TakesFresh m.seen)
      [.map 0xC0110000 0x300000 PAGE_WRITABLE, .map 0xC0400000 0x200000 PAGE_WRITABLE]
      (bootMachine plainTable smallKernel (fun _ => 0) fun _ => 0) ∧
    ∃ m₁ m₂, runAll Flat.run [.map 0xC0110000 0x300000 PAGE_WRITABLE]
        (bootMachine plainTable smallKernel (fun _ => 0) fun _ => 0) = .ret () m₁ ∧
      Flat.exec (.map 0xC0400000 0x200000 PAGE_WRITABLE) m₁ = .ret 0 m₂ ∧
      ¬ (PageCall.map 0xC0400000 0x200000 PAGE_WRITABLE).Refines 0 m₁.seen m₂.seen :=
  refines_lost bitmapAt_boot

end Frewozet
