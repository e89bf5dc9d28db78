import Frewozet.System.Pages

/-!
# What becomes of a frame

The frames `paging_alloc_page` takes, for pages and for tables, against the entries of the
directory and of the tables.

* `MappedTo`, `ReferencedOnce` — the entries that refer to a frame.  The loader's own entry
  for it does not count: it refers to every frame below 4 MiB, free or not.
* `NoLeak` — the bitmap and the entries agree.
* `AllocOk` — **the page is not mapped yet**, and the tables the call touches are in reach.
* `noLeak_run` — the conservation law, for runs of such calls.
* `remap_leaks` — a call for a page that is mapped drops the frame it was mapped to.
-/

namespace Frewozet

open Word Exec TwoLevel

/-! ## The entries that refer to a frame -/

/-- The page at which the direct map has the frame. -/
def DirectPage (f : Frame) (p : Page) : Prop := f.val < 1024 ∧ p.val = 0xC0000 + f.val

/-- Page `p` is mapped to `f`, by an entry other than that of the direct map. -/
def MappedTo (T : Frame → Fin 1024 → U32) (f : Frame) (p : Page) : Prop :=
  (∃ e, pageMap T p = some e ∧ e.frame = f) ∧ ¬ DirectPage f p

/-- **One reference**: one page is mapped to the frame, or the frame is a table and hangs at
one entry of the directory. -/
def ReferencedOnce (T : Frame → Fin 1024 → U32) (f : Frame) : Prop :=
  ((∃! p, MappedTo T f p) ∧ ¬ IsTable entryTarget dirFrame T f) ∨
    ((∀ p, ¬ MappedTo T f p) ∧ ∃! s, entryTarget (T dirFrame s) = some f)

/-- The frames of ranges that were granted. -/
def framesIn (grants : List (U32 × U32)) : Set Frame := {f | ∃ g ∈ grants, f.val ∈ framesOf g}

/-- No free frame is in use, and no frame of `S` is lost. -/
structure NoLeak (S : Set Frame) (m : Machine) : Prop where
  free : ∀ f : Frame, m.pmm.Free f.val → ∀ p, ¬ MappedTo m.tables f p
  taken : ∀ f ∈ S, ¬ m.pmm.Free f.val → ReferencedOnce m.tables f

section

variable {m mid m' : Machine} {virt flags : U32} {S : Set Frame} {t f : Frame} {p : Page}

theorem mem_framesIn {fs : List Frame} :
    f ∈ framesIn (fs.map fun u => (frameAddr u.val, 1)) ↔ f ∈ fs := by
  constructor
  · rintro ⟨g, hg, hf⟩
    obtain ⟨u, hu, rfl⟩ := List.mem_map.1 hg
    rwa [Fin.ext (framesOf_one hf)]
  · intro hf
    refine ⟨_, List.mem_map_of_mem hf, ?_⟩
    rw [framesOf_frameAddr f.isLt]
    exact ⟨le_refl _, Nat.lt_succ_self _⟩

/-- The page of an address outside the direct map. -/
theorem not_directPage (hs : slotOf virt ≠ windowSlot) : ¬ DirectPage f (pageOf virt) := by
  rintro ⟨hlt, hp⟩
  refine hs (Fin.ext ?_)
  change virt.toNat / 4096 = 0xC0000 + f.val at hp
  change virt.toNat / 0x400000 = 768
  omega

theorem SameTables.mappedTo (h : SameTables m m') :
    MappedTo m'.tables f p ↔ MappedTo m.tables f p := by
  rw [MappedTo, h.pageMap_eq, MappedTo]

/-- The call updates the map at its page. -/
theorem TakenFor.pageMap_eq (h : TakenFor m virt flags t mid) (hm : PagesOk m) :
    pageMap mid.tables = (pageMap m.tables).map virt (frameAddr t.val) flags := by
  rcases h.stores.refines hm.proper with ⟨-, hmap⟩ | ⟨hc, -⟩
  · exact hmap
  · cases hc

/-- **The references of a frame**: the page is mapped to the new one, and to no other. -/
theorem TakenFor.mappedTo_iff (h : TakenFor m virt flags t mid) (hm : PagesOk m)
    (hs : slotOf virt ≠ windowSlot) : MappedTo mid.tables f p ↔
      (p ≠ pageOf virt ∧ MappedTo m.tables f p) ∨ (f = t ∧ p = pageOf virt) := by
  unfold MappedTo
  rw [h.pageMap_eq hm, PageMap.map, Function.update_apply]
  by_cases hp : p = pageOf virt
  · subst hp
    rw [if_pos rfl]
    constructor
    · rintro ⟨⟨e, he, rfl⟩, -⟩
      cases he
      exact .inr ⟨frameOf_frameAddr t, rfl⟩
    · rintro (⟨hc, -⟩ | ⟨rfl, -⟩)
      · exact absurd rfl hc
      · exact ⟨⟨_, rfl, frameOf_frameAddr f⟩, not_directPage hs⟩
  · rw [if_neg hp]
    exact ⟨fun hc => .inl ⟨hp, hc⟩, fun hc => (hc.resolve_right fun hc => hp hc.2).2⟩

/-- What has become of the directory and the allocator besides, `made` being the frame of the
new table, if there is one. -/
structure Hangs (m : Machine) (virt : U32) (t : Frame) (made : Option Frame) (mid : Machine) :
    Prop where
  place : made = none ↔ entryTarget (m.tables dirFrame (slotOf virt)) ≠ none
  grants : mid.grants = (made.toList ++ [t]).map (fun u => (frameAddr u.val, 1)) ++ m.grants
  fresh : ∀ u, made = some u → m.pmm.Free u.val ∧ u ≠ t
  first : ∀ u, made = some u → ∀ f < u.val, m.pmm.Free f → f = t.val
  dir : ∀ s f, entryTarget (mid.tables dirFrame s) = some f ↔
    entryTarget (m.tables dirFrame s) = some f ∨ (made = some f ∧ s = slotOf virt)
  free : ∀ f : Frame, mid.pmm.Free f.val ↔ m.pmm.Free f.val ∧ f ≠ t ∧ made ≠ some f

theorem TakenFor.hangs (h : TakenFor m virt flags t mid) (hm : PagesOk m) :
    ∃ made, Hangs m virt t made mid := by
  have hp : Proper entryTarget dirFrame (m.take t).tables := hm.proper
  have hwf1 : (m.take t).pmm.Wf := hm.wf.takeRun h.free.lt
  have htake : ∀ f : Frame, (m.take t).pmm.Free f.val ↔ m.pmm.Free f.val ∧ f ≠ t := by
    intro f
    rw [show (m.take t).pmm = m.pmm.takeRun t.val 1 from rfl, Pmm.free_takeRun hm.wf h.free.lt,
      Ne, Fin.ext_iff]
    exact and_congr_right fun _ => by omega
  cases h.stores with
  | failed hres => cases hres
  | kept u _ hslot htables hpmm hgrants =>
    have hsome : entryTarget (m.tables dirFrame (slotOf virt)) = some u := hslot
    refine ⟨none, ⟨fun _ => by simp [hsome], fun _ => rfl⟩, hgrants, fun u hu => (by cases hu),
      fun u hu => (by cases hu), fun s f => ?_, fun f => ?_⟩
    · rw [htables, set_dir hp hslot]
      exact (or_iff_left fun hc => by cases hc.1).symm
    · rw [hpmm, htake]
      exact and_congr_right fun _ => (and_iff_left fun hc => by cases hc).symm
  | made u _ hfree hfirst hvacant htables hpmm hgrants =>
    have hplace : entryTarget (m.tables dirFrame (slotOf virt)) = none := hvacant.place
    refine ⟨some u, ⟨fun hc => (by cases hc), fun hc => absurd hplace hc⟩, hgrants, fun u' hu => ?_,
      fun u' hu f hf hffree => ?_, fun s f => ?_, fun f => ?_⟩
    · obtain rfl := Option.some.inj hu
      exact (htake u).1 hfree
    · obtain rfl := Option.some.inj hu
      by_contra hne
      refine hfirst f hf ((Pmm.free_takeRun hm.wf h.free.lt f).2 ⟨hffree, ?_⟩)
      omega
    · rw [htables, set_dir (hp.of_install hvacant) (by rw [target_install hvacant, if_pos rfl]),
        target_install hvacant]
      by_cases hs : s = slotOf virt
      · subst hs
        simp [hplace]
      · simp only [hs, if_false, and_false, or_false]
        exact Iff.rfl
    · rw [hpmm, Pmm.free_takeRun hwf1 hfree.lt, htake, and_assoc, Ne, Ne, Option.some.injEq,
        Fin.ext_iff, Fin.ext_iff]
      exact and_congr_right fun _ => and_congr_right fun _ => by omega

/-- A frame keeps its one reference. -/
theorem ReferencedOnce.congr {T T' : Frame → Fin 1024 → U32} (h : ReferencedOnce T f)
    (hmap : ∀ p, MappedTo T' f p ↔ MappedTo T f p)
    (hdir : ∀ s, entryTarget (T' dirFrame s) = some f ↔ entryTarget (T dirFrame s) = some f) :
    ReferencedOnce T' f := by
  unfold ReferencedOnce IsTable at *
  simp only [hmap, hdir]
  exact h

/-- **One call** for a page that is not mapped. -/
theorem NoLeak.step {ok : Bool} (h : NoLeak S m) (hs : TablesSound m)
    (hwin : slotOf virt ≠ windowSlot) (hnone : pageMap m.tables (pageOf virt) = none)
    (halloc : AllocsPage m virt flags ok m') :
    ∃ new, m'.grants = new ++ m.grants ∧ NoLeak (S ∪ framesIn new) m' := by
  have hm := hs.toPagesOk
  cases halloc with
  | failed _ _ hback =>
    have htables : m'.tables = m.tables := by rw [Machine.tables, hback.phys]
    obtain ⟨new, hnew, hfree⟩ := hback.grants
    refine ⟨new, hnew, ?_, ?_⟩
    · rw [htables, hback.pmm]
      exact h.free
    · rw [htables, hback.pmm]
      rintro f (hf | ⟨g, hg, hf⟩) hno
      · exact h.taken f hf hno
      · exact absurd (hfree g hg _ hf) hno
  | mapped t mid _ htaken hsame =>
    have htfree := h.free t htaken.free
    have hmap : ∀ f p, MappedTo m'.tables f p ↔ MappedTo m.tables f p ∨
      (f = t ∧ p = pageOf virt) := by
      intro f p
      rw [hsame.mappedTo, htaken.mappedTo_iff hm hwin]
      refine or_congr_left (and_iff_right_of_imp ?_)
      rintro ⟨⟨e, he, -⟩, -⟩ rfl
      rw [hnone] at he
      cases he
    -- the page's frame has the one reference it has been given
    have hself : ReferencedOnce m'.tables t := by
      refine .inl ⟨⟨pageOf virt, (hmap t _).2 (.inr ⟨rfl, rfl⟩), fun p hp => ?_⟩, fun hc => ?_⟩
      · exact (((hmap t p).1 hp).resolve_left (htfree p)).2
      · exact htaken.noTable hm ((isTable_congr hsame.dir).1 hc)
    obtain ⟨made, hhangs⟩ := htaken.hangs hm
    have hfree : ∀ f : Frame, m'.pmm.Free f.val ↔ m.pmm.Free f.val ∧ f ≠ t ∧ made ≠ some f :=
      fun f => by rw [hsame.pmm]; exact hhangs.free f
    have hdir : ∀ s f, entryTarget (m'.tables dirFrame s) = some f ↔
        entryTarget (m.tables dirFrame s) = some f ∨ (made = some f ∧ s = slotOf virt) :=
      fun s f => by rw [hsame.dir]; exact hhangs.dir s f
    refine ⟨_, hsame.grants.trans hhangs.grants, fun f hf p hp => ?_, fun f hf hno => ?_⟩
    · obtain ⟨hf, hft, -⟩ := (hfree f).1 hf
      exact h.free f hf p (((hmap f p).1 hp).resolve_right fun hc => hft hc.1)
    rw [Set.mem_union, mem_framesIn, List.mem_append, Option.mem_toList, List.mem_singleton] at hf
    by_cases hft : f = t
    · rwa [hft]
    have hmapf : ∀ p, MappedTo m'.tables f p ↔ MappedTo m.tables f p := fun p =>
      (hmap f p).trans (or_iff_left fun hc => hft hc.1)
    by_cases hmade : made = some f
    · -- the new table hangs at one place, and no page is mapped to it
      obtain ⟨hfresh, -⟩ := hhangs.fresh f hmade
      refine .inr ⟨fun p hp => h.free f hfresh p ((hmapf p).1 hp), slotOf virt,
        (hdir _ f).2 (.inr ⟨hmade, rfl⟩), fun s hsf => ?_⟩
      exact (((hdir s f).1 hsf).resolve_left fun hc => (hs.fresh f hfresh).2 ⟨s, hc⟩).2
    · have hfS : f ∈ S := hf.resolve_right fun hc => hc.elim hmade hft
      refine (h.taken f hfS fun hc => hno ((hfree f).2 ⟨hc, hft, hmade⟩)).congr hmapf fun s => ?_
      exact (hdir s f).trans (or_iff_left fun hc => hmade hc.1)

end

/-! ## The runs -/

/-- A call of `paging_alloc_page`. -/
def allocCall (c : U32 × U32) : Exec Machine Unit := do
  let _ ← pagingAllocPage c.1 c.2
  return ()

/-- When it may be made: for a page that is not mapped yet, and is not one of the direct
map's; the tables the call touches are in reach. -/
structure AllocOk (m : Machine) (c : U32 × U32) : Prop where
  aligned : c.1.toNat % 4096 = 0
  reach : AllocInReach m c.1
  outside : slotOf c.1 ≠ windowSlot
  unmapped : pageMap m.tables (pageOf c.1) = none

section

variable (info : E820Info) (k : KernelImage) (vmem phys : Mem)

/-- At boot only the direct map refers to frames. -/
theorem noLeak_boot : NoLeak ∅ (bootSystem info k vmem phys).machine := by
  refine ⟨fun f _ p h => ?_, fun f hf => absurd hf (Set.notMem_empty f)⟩
  rw [bootSystem_tables] at h
  obtain ⟨⟨e, he, hef⟩, hdirect⟩ := h
  refine hdirect ?_
  have hw := kernelMachine_windowed phys
  have hentry : (pageEntry (kernelMachine phys).tables p).bind mappingOf = some e := he
  rw [pageEntry, leaf] at hentry
  cases ht : entryTarget ((kernelMachine phys).tables dirFrame ⟨p.val / 1024, by omega⟩) with
  | none =>
    rw [ht] at hentry
    cases hentry
  | some t =>
    obtain ⟨hs, rfl⟩ := (kernelMachine_target phys _ t).1 ht
    obtain ⟨g, hg, hval⟩ := hw.direct ⟨p.val % 1024, Nat.mod_lt _ (by decide)⟩
    rw [ht, Option.map_some, Option.bind_some, mappingOf, hg, Option.map_some] at hentry
    cases hentry
    have hslot : p.val / 1024 = 768 := congrArg Fin.val hs
    have hval : g.val = p.val % 1024 := hval
    have hgf : g = f := hef
    rw [DirectPage, ← hgf]
    omega

/-- The first page, when two frames below 4 MiB are free. -/
theorem allocOk_boot {virt : U32} (flags : U32) (hv : virt.toNat % 4096 = 0)
    (hs : slotOf virt ≠ windowSlot) (hlow : 2 ≤ (boot info k vmem).pmm.freeBelow 1024) :
    EachOk allocCall AllocOk [(virt, flags)] (bootSystem info k vmem phys).machine := by
  have h := machineOk_boot info k vmem phys
  refine ⟨⟨hv, allocInReach_of_counts h.windowed h.wf fun _ => .inr hlow, hs, ?_⟩,
    fun _ _ => trivial⟩
  exact pageMap_absent (onlyWindow_boot info k vmem phys _ hs)

end

/-- The tables are in order and nothing is lost, neither of `S` nor of what has been taken
since `m₀`. -/
def Conserved (S : Set Frame) (m₀ m : Machine) : Prop :=
  TablesSound m ∧ ∃ new, m.grants = new ++ m₀.grants ∧ NoLeak (S ∪ framesIn new) m

/-- **One call** for a page that is not mapped. -/
theorem allocCall_conserves {m₀ m : Machine} {S : Set Frame} {c : U32 × U32}
    (h : Conserved S m₀ m) (hc : AllocOk m c) :
    wp (allocCall c) (fun _ => Conserved S m₀) (fun _ _ => False) m := by
  obtain ⟨hm, new, hnew, hno⟩ := h
  rw [allocCall, wp_bind]
  refine wp_mono (wp_pagingAllocPage hm.toPagesOk hm.fresh hc.reach (.inl hc.aligned)) ?_
    fun _ _ hf => hf
  intro ok m' halloc
  obtain ⟨more, hmore, hno'⟩ := hno.step hm hc.outside hc.unmapped halloc
  refine ⟨hm.evolve (halloc.evolves hm.toPagesOk) (halloc.pagesOk hm.toPagesOk), more ++ new, by
    rw [hmore, hnew, List.append_assoc], hno'.free, fun f hf => hno'.taken f ?_⟩
  rcases hf with hf | ⟨g, hg, hf⟩
  · exact .inl (.inl hf)
  · rcases List.mem_append.1 hg with hg | hg
    · exact .inr ⟨g, hg, hf⟩
    · exact .inl (.inr ⟨g, hg, hf⟩)

/-- **No frame is lost.**  Start where the tables are in order, no free frame is in use and
no frame of `S` is lost.  After any run of calls of `paging_alloc_page`, each for a page that
is not mapped when the call is made, this is true of `S` and of all frames that have been
taken since. -/
theorem noLeak_run {m₀ : Machine} (hs : TablesSound m₀) {S : Set Frame} (h : NoLeak S m₀)
    {calls : List (U32 × U32)} (hok : EachOk allocCall AllocOk calls m₀) :
    ∃ m new, runAll allocCall calls m₀ = .ret () m ∧ m.grants = new ++ m₀.grants ∧
      NoLeak (S ∪ framesIn new) m := by
  have hrun := runAll_invariant (fun _ _ hkept hc => allocCall_conserves (S := S) hkept hc) calls m₀
    ⟨hs, [], rfl, h.free, fun f hf => h.taken f (hf.resolve_right fun ⟨_, hg, _⟩ =>
      absurd hg List.not_mem_nil)⟩ hok
  obtain ⟨⟨⟩, m, hx, -, new, hnew, hno⟩ := wp_total hrun
  exact ⟨m, new, hx, hnew, hno⟩

/-- One page, on a machine with eight free frames. -/
theorem noLeak_run_maptest : ∃ m new,
    runAll allocCall [(0xC0400000, PAGE_WRITABLE)]
        (bootSystem tinyTable smallKernel (fun _ => 0) fun _ => 0).machine = .ret () m ∧
      m.grants = new ++ (bootSystem tinyTable smallKernel (fun _ => 0) fun _ => 0).machine.grants ∧
        NoLeak (∅ ∪ framesIn new) m := by
  obtain ⟨-, hlow⟩ := tinyTable_counts fun _ => 0
  exact noLeak_run (machineOk_boot _ _ _ _).tablesSound (noLeak_boot _ _ _ _)
    (allocOk_boot _ _ _ _ _ (by decide) (by decide) (by omega))

/-! ## A page that is mapped already -/

section

variable {m m' : Machine} {virt flags : U32}

/-- A call that finds its frames. -/
theorem allocCall_returns {p₀ : Pmm} (flags : U32) (h : MachineOk p₀ m)
    (hv : virt.toNat % 4096 = 0) (hslot : slotOf virt ≠ windowSlot)
    (hshort : ¬ ShortOfFrames m virt)
    (hcount : entryTarget (m.tables dirFrame (slotOf virt)) = none →
      m.pmm.freeCount ≤ 1 ∨ 2 ≤ m.pmm.freeBelow 1024) :
    ∃ m' t mid, allocCall (virt, flags) m = .ret () m' ∧ MachineOk p₀ m' ∧
      AllocsPage m virt flags true m' ∧ TakenFor m virt flags t mid ∧ SameTables mid m' := by
  have hspill : Spills m virt := fun k hk hpage => absurd (samePage_add hv hk) hpage
  have hwp := wp_and (@machineOk_allocPage p₀ m h virt flags hslot hspill hcount)
    (wp_pagingAllocPage h.tablesSound.toPagesOk h.fresh
      (allocInReach_of_counts h.windowed h.wf hcount) (.inl hv))
  have hrun : wp (allocCall (virt, flags)) (fun _ m' => MachineOk p₀ m' ∧ ∃ t mid,
      AllocsPage m virt flags true m' ∧ TakenFor m virt flags t mid ∧ SameTables mid m')
      (fun _ _ => False) m := by
    rw [allocCall, wp_bind]
    refine wp_mono hwp ?_ fun _ _ hf => hf.2
    rintro ok m' ⟨⟨hm', -⟩, halloc⟩
    cases halloc with
    | failed _ hs => exact absurd hs hshort
    | mapped t mid hres htaken hsame hzero hkept =>
      exact ⟨hm', t, mid, .mapped t mid rfl htaken hsame hzero hkept, htaken, hsame⟩
  obtain ⟨⟨⟩, m', hx, hm', t, mid, h1, h2, h3⟩ := wp_total hrun
  exact ⟨m', t, mid, hx, hm', h1, h2, h3⟩

theorem not_short_of_free (hwf : m.pmm.Wf)
    (htable : entryTarget (m.tables dirFrame (slotOf virt)) ≠ none) {f : Nat} (hf : m.pmm.Free f) :
    ¬ ShortOfFrames m virt := by
  have hsome : m.pmm.freeCount ≠ 0 := fun hc => (Pmm.freeCount_eq_zero hwf).1 hc f hf
  rw [ShortOfFrames, if_neg htable]
  omega

/-- **A second call for the page drops the frame of the first**: it is not free, and nothing
refers to it. -/
theorem remap_leaks {p₀ : Pmm} (flags : U32) (h : MachineOk p₀ m) (hv : virt.toNat % 4096 = 0)
    (hslot : slotOf virt ≠ windowSlot)
    (htable : entryTarget (m.tables dirFrame (slotOf virt)) ≠ none)
    (hfree : ∀ f : Frame, m.pmm.Free f.val → ∀ p, ¬ MappedTo m.tables f p) {a b : Frame}
    (ha : m.pmm.Free a.val) (hb : m.pmm.Free b.val) (hab : a ≠ b) :
    ∃ m' f, runAll allocCall [(virt, flags), (virt, flags)] m = .ret () m' ∧ m.pmm.Free f.val ∧
      f ∈ framesIn m'.grants ∧ ¬ m'.pmm.Free f.val ∧ (∀ p, ¬ MappedTo m'.tables f p) ∧
        ¬ IsTable entryTarget dirFrame m'.tables f := by
  have hm := h.tablesSound.toPagesOk
  obtain ⟨m1, t, mid, hx1, h1, halloc1, htaken1, hsame1⟩ := allocCall_returns flags h hv
    hslot (not_short_of_free h.wf htable ha) fun hc => absurd hc htable
  have hm1 := h1.tablesSound.toPagesOk
  obtain ⟨made, hhangs⟩ := htaken1.hangs hm
  obtain rfl := hhangs.place.2 htable
  have hfree1 : ∀ f : Frame, m1.pmm.Free f.val ↔ m.pmm.Free f.val ∧ f ≠ t := fun f => by
    rw [hsame1.pmm, hhangs.free]
    exact and_congr_right fun _ => and_iff_left fun hc => by cases hc
  have htable1 : entryTarget (m1.tables dirFrame (slotOf virt)) ≠ none := by
    obtain ⟨tbl, htbl⟩ := Option.ne_none_iff_exists'.1 htable
    rw [hsame1.dir, (hhangs.dir _ tbl).2 (.inl htbl)]
    exact fun hc => by cases hc
  -- a frame at least is left for the second call
  have hleft : ∃ f : Frame, m1.pmm.Free f.val := by
    by_cases hat : a = t
    · exact ⟨b, (hfree1 b).2 ⟨hb, fun hc => hab (hat.trans hc.symm)⟩⟩
    · exact ⟨a, (hfree1 a).2 ⟨ha, hat⟩⟩
  obtain ⟨f, hf⟩ := hleft
  obtain ⟨m2, t2, mid2, hx2, -, halloc2, htaken2, hsame2⟩ := allocCall_returns flags h1 hv
    hslot (not_short_of_free h1.wf htable1 hf) fun hc => absurd hc htable1
  have he2 := halloc2.evolves hm1
  have htused : ¬ m1.pmm.Free t.val := fun hc => ((hfree1 t).1 hc).2 rfl
  have hgrant : (frameAddr t.val, (1 : U32)) ∈ m1.grants := by
    rw [hsame1.grants, hhangs.grants]
    exact List.mem_append_left _ (List.mem_map.2 ⟨t, by simp, rfl⟩)
  refine ⟨m2, t, (runAll_of_ret hx1).trans (runAll_of_ret hx2), htaken1.free,
    ⟨_, he2.granted _ hgrant, ?_⟩, fun hc => htused (he2.free _ hc), fun p hp => ?_, fun hc => ?_⟩
  · rw [framesOf_frameAddr t.isLt]
    exact ⟨le_refl _, Nat.lt_succ_self _⟩
  · rw [hsame2.mappedTo, htaken2.mappedTo_iff hm1 hslot, hsame1.mappedTo,
      htaken1.mappedTo_iff hm hslot] at hp
    rcases hp with ⟨hne, ⟨-, hp⟩ | ⟨-, hp⟩⟩ | ⟨rfl, -⟩
    · exact hfree t htaken1.free p hp
    · exact hne hp
    · exact htused htaken2.free
  · rcases he2.isTable t hc with hc | hc
    · exact htaken1.noTable hm ((isTable_congr hsame1.dir).1 hc)
    · exact htused hc.1

end

/-! ### `cmd_maptest`, three times -/

/-- A machine whose memory starts two pages below 4 MiB and ends four pages above. -/
def edgeTable : E820Info where
  signature := E820_SIG
  entries := [⟨0x3FE000, 0x6000, 1, 1⟩]

theorem edgeTable_free (vmem : Mem) (f : Nat) :
    (boot edgeTable smallKernel vmem).pmm.Free f ↔ 1022 ≤ f ∧ f < 1028 := by
  have hend : (⟨0x3FE000, 0x6000, 1, 1⟩ : E820Entry).end64.toNat = 0x404000 := by decide
  have hbase : (⟨0x3FE000, 0x6000, 1, 1⟩ : E820Entry).base.toNat = 0x3FE000 := by decide
  rw [smallKernel_free rfl (by decide) (by decide), freedBy_iff, hend, hbase]
  simp only [true_and]
  omega

/-- The first call takes the two frames below 4 MiB, one for the page and one for its table;
the second takes the first one above, and the third drops it. -/
theorem edge_leaks (info : E820Info) (k : KernelImage) (vmem phys : Mem)
    (hfree : ∀ f, (boot info k vmem).pmm.Free f ↔ 1022 ≤ f ∧ f < 1028) {virt flags : U32}
    (hv : virt.toNat % 4096 = 0) (hslot : slotOf virt ≠ windowSlot) :
    ∃ m f, runAll allocCall [(virt, flags), (virt, flags), (virt, flags)]
        (bootSystem info k vmem phys).machine = .ret () m ∧
      f ∈ framesIn m.grants ∧ ¬ m.pmm.Free f.val ∧
        (∀ p e, pageMap m.tables p = some e → e.frame ≠ f) ∧
          ¬ IsTable entryTarget dirFrame m.tables f := by
  have h := machineOk_boot info k vmem phys
  have hm := h.tablesSound.toPagesOk
  have hnone := onlyWindow_boot info k vmem phys _ hslot
  have hlow : 2 ≤ (boot info k vmem).pmm.freeBelow 1024 :=
    Pmm.card_le_freeBelow {1022, 1023} fun f hf => by
      rw [hfree]
      simp only [Finset.mem_insert, Finset.mem_singleton] at hf
      omega
  have hshort : ¬ ShortOfFrames (bootSystem info k vmem phys).machine virt := by
    have hall := (boot info k vmem).pmm.freeBelow_mono (n := 1024) (k := 0x100000) (by decide)
    rw [ShortOfFrames, if_pos hnone]
    exact fun hc => absurd (hlow.trans hall) (Nat.not_le.2 hc)
  obtain ⟨m1, t, mid, hx, h1, halloc, htaken, hsame⟩ := allocCall_returns flags h hv hslot
    hshort fun _ => .inr hlow
  obtain ⟨made, hhangs⟩ := htaken.hangs hm
  -- the page has frame 1022, and its table frame 1023
  have ht : t.val = 1022 := by
    have h1 := (hfree _).1 htaken.free
    by_contra hc
    exact htaken.first 1022 (by omega) ((hfree 1022).2 (by omega))
  obtain ⟨u, rfl⟩ : ∃ u, made = some u :=
    Option.ne_none_iff_exists'.1 fun hc => hhangs.place.1 hc hnone
  have hu : u.val = 1023 := by
    obtain ⟨hufree, hne⟩ := hhangs.fresh u rfl
    have h1 := (hfree _).1 hufree
    have hne : u.val ≠ t.val := fun hc => hne (Fin.ext hc)
    by_contra hc
    have := hhangs.first u rfl 1023 (by omega) ((hfree 1023).2 (by omega))
    omega
  have hfree1 : ∀ f : Frame, m1.pmm.Free f.val ↔ 1024 ≤ f.val ∧ f.val < 1028 := by
    intro f
    have hb : (bootSystem info k vmem phys).machine.pmm.Free f.val ↔ 1022 ≤ f.val ∧ f.val < 1028 :=
      hfree f.val
    rw [hsame.pmm, hhangs.free, hb, Ne, Ne, Option.some.injEq, Fin.ext_iff, Fin.ext_iff]
    omega
  obtain ⟨new, -, hno⟩ := (noLeak_boot info k vmem phys).step h.tablesSound hslot
    (pageMap_absent hnone) halloc
  obtain ⟨m, f, hrun, hf, hgrant, hused, hmap, htable⟩ := remap_leaks flags h1 hv hslot
    (fun hc => by
      rw [hsame.dir, (hhangs.dir _ u).2 (.inr ⟨rfl, rfl⟩)] at hc
      cases hc)
    hno.free (a := 1024) (b := 1025) ((hfree1 _).2 (by decide)) ((hfree1 _).2 (by decide))
      (by decide)
  refine ⟨m, f, (runAll_of_ret hx).trans hrun, hgrant, hused, fun p e he hef => ?_, htable⟩
  refine hmap p ⟨⟨e, he, hef⟩, fun hc => ?_⟩
  have hge := (hfree1 f).1 hf
  have hlt := hc.1
  omega

/-- `maptest`, entered three times: the frame the second call took is not free, and no entry
of any table or of the directory refers to it. -/
theorem maptest_loses_frame :
    NoLeak ∅ (bootSystem edgeTable smallKernel (fun _ => 0) fun _ => 0).machine ∧ ∃ m f,
      runAll allocCall [(0xC0400000, PAGE_WRITABLE), (0xC0400000, PAGE_WRITABLE),
          (0xC0400000, PAGE_WRITABLE)]
        (bootSystem edgeTable smallKernel (fun _ => 0) fun _ => 0).machine = .ret () m ∧
        f ∈ framesIn m.grants ∧ ¬ m.pmm.Free f.val ∧
          (∀ p e, pageMap m.tables p = some e → e.frame ≠ f) ∧
            ¬ IsTable entryTarget dirFrame m.tables f :=
  ⟨noLeak_boot _ _ _ _,
    edge_leaks edgeTable smallKernel _ _ (edgeTable_free _) (by decide) (by decide)⟩

end Frewozet
