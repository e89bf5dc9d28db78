import Frewozet.Paging.PageMap

/-!
# `paging_alloc_page`

What the whole call does, byte by byte, as long as the tables it touches are in reach
of the direct map and the address is the start of a page.

* `Hits`, `wp_memset_bytes` — which bytes a `memset` through mapped addresses writes.
* `AllocsPage`, `wp_pagingAllocPage` — the call: it finds no frames and gives back what
  it took, or maps the lowest free frame and zeroes it.
* `wp_pagingAllocPage_inside` — what is left over when the address lies inside a page.
* `AllocDone`, `AllocsPage.done` — what a caller sees of it.
-/

namespace Frewozet

open Word Exec TwoLevel

/-! ## Bytes -/

/-- A byte that is written when one address after the other is, from `dest` on. -/
def Hits (m : Mem) (dest : U32) (n : Nat) (a : U32) : Prop :=
  ∃ k < n, mmu m (dest + BitVec.ofNat 32 k) = some a

theorem hits_succ {m : Mem} {dest : U32} {n : Nat} {a : U32} :
    Hits m dest (n + 1) a ↔ mmu m dest = some a ∨ Hits m (dest + 1#32) n a := by
  constructor
  · rintro ⟨k, hk, ha⟩
    cases k with
    | zero => exact .inl (by rwa [BitVec.add_zero] at ha)
    | succ k => exact .inr ⟨k, Nat.lt_of_succ_lt_succ hk, by rwa [Mem.add_one_add]⟩
  · rintro (ha | ⟨k, hk, ha⟩)
    · exact ⟨0, Nat.succ_pos n, by rwa [BitVec.add_zero]⟩
    · exact ⟨k + 1, Nat.succ_lt_succ hk, by rwa [← Mem.add_one_add]⟩

theorem wp_dataAccess {m : Machine} {v a : U32} (h : mmu m.phys v = some a)
    {Q : U32 → Machine → Prop} {S : Stop → Machine → Prop} : wp (dataAccess v) Q S m ↔ Q a m := by
  unfold wp dataAccess
  rw [h]

/-- **Writing data** through mapped addresses that lead to no table: the call returns,
and has written the bytes the addresses lead to and no others. -/
theorem wp_memset_bytes (b : U8) : ∀ (n : Nat) (dest : U32) (m : Machine),
    (∀ k < n, ∃ g, walkOf m.tables (dest + BitVec.ofNat 32 k) = some g ∧
      g ≠ dirFrame ∧ ¬ IsTable entryTarget dirFrame m.tables g) →
    wp (memset dataAccess dest b n)
      (fun _ m' => SameTables m m' ∧ (∀ a, Hits m.phys dest n a → m'.phys a = b) ∧
        ∀ a, ¬ Hits m.phys dest n a → m'.phys a = m.phys a) (fun _ _ => False) m := by
  intro n
  induction n with
  | zero =>
    intro dest m _
    exact ⟨.refl m, fun a ⟨_, hk, _⟩ => absurd hk (Nat.not_lt_zero _), fun _ _ => rfl⟩
  | succ n ih =>
    intro dest m hhit
    obtain ⟨g, hg, hdir, htable⟩ := hhit 0 (Nat.succ_pos n)
    rw [BitVec.add_zero] at hg
    have hmmu : mmu m.phys dest = some (inFrame g dest) := by rw [mmu_eq, hg, Option.map_some]
    have hframe : (inFrame g dest).toNat / 4096 = g.val := by rw [inFrame_toNat]; omega
    have hone := sameTables_write8 hdir htable hframe b
    rw [memset, wp_bind, wp_dataAccess hmmu, wp_bind, wp_modify]
    generalize hm1 : ({ m with phys := m.phys.write8 (inFrame g dest) b } : Machine) = m1 at hone ⊢
    have hphys : m1.phys = m.phys.write8 (inFrame g dest) b := by rw [← hm1]
    have hsame : ∀ v, mmu m1.phys v = mmu m.phys v := fun v => by rw [mmu_eq, mmu_eq, hone.walk]
    have hhits : ∀ a, Hits m.phys dest (n + 1) a ↔
        a = inFrame g dest ∨ Hits m1.phys (dest + 1#32) n a := by
      intro a
      rw [hits_succ, hmmu, Option.some.injEq, eq_comm]
      simp only [Hits, hsame]
    refine wp_mono (ih (dest + 1#32) m1 fun k hk => ?_) ?_ fun _ _ hf => hf
    · obtain ⟨f, hf, hfdir, hftable⟩ := hhit (k + 1) (by omega)
      rw [Mem.add_one_add, hone.walk]
      exact ⟨f, hf, hfdir, fun hc => hftable ((isTable_congr hone.dir).1 hc)⟩
    · rintro _ m' ⟨hrest, hin, hout⟩
      refine ⟨hone.trans hrest, fun a ha => ?_, fun a ha => ?_⟩
      · by_cases hlater : Hits m1.phys (dest + 1#32) n a
        · exact hin a hlater
        · obtain rfl := ((hhits a).1 ha).resolve_right hlater
          rw [hout _ hlater, hphys, Mem.write8_same]
      · rw [hhits, not_or] at ha
        rw [hout a ha.2, hphys, Mem.write8_of_ne _ _ ha.1]

/-! ## The call -/

/-- The allocator has fewer frames left than the call needs: one, and one more if the
directory has no table for the page. -/
def ShortOfFrames (m : Machine) (virt : U32) : Prop :=
  m.pmm.freeCount < if entryTarget (m.tables dirFrame (slotOf virt)) = none then 2 else 1

instance (m : Machine) (virt : U32) : Decidable (ShortOfFrames m virt) :=
  inferInstanceAs (Decidable (_ < _))

/-- The call maps its page to frame `t`, and makes a table of frame `u` for it. -/
def TakesTable (m : Machine) (virt : U32) (t u : Frame) : Prop :=
  entryTarget (m.tables dirFrame (slotOf virt)) = none ∧
    (m.pmm.Free t.val ∧ ∀ f < t.val, ¬ m.pmm.Free f) ∧
      (m.take t).pmm.Free u.val ∧ ∀ f < u.val, ¬ (m.take t).pmm.Free f

/-- The frames of the tables the call touches are in the direct map. -/
structure AllocInReach (m : Machine) (virt : U32) : Prop where
  dir : InDirectMap m.phys dirFrame
  table : ∀ t, IsTable entryTarget dirFrame m.tables t → InDirectMap m.phys t
  next : ∀ t u, TakesTable m virt t u → InDirectMap m.phys u

/-- The frames that were taken have been given back. -/
structure GivenBack (m m' : Machine) : Prop where
  phys : m'.phys = m.phys
  pmm : m'.pmm = m.pmm
  grants : ∃ new, m'.grants = new ++ m.grants ∧ ∀ g ∈ new, ∀ f ∈ framesOf g, m.pmm.Free f
  good : m.AllGood → m'.AllGood

/-- Frame `t` has been taken, and the page mapped to it. -/
structure TakenFor (m : Machine) (virt flags : U32) (t : Frame) (mid : Machine) : Prop where
  free : m.pmm.Free t.val
  first : ∀ f < t.val, ¬ m.pmm.Free f
  fresh : t ≠ dirFrame ∧ ¬ IsTable entryTarget dirFrame m.tables t
  stores :
    StoresPage (m.take t) virt (pteOf (frameAddr t.val) flags) (fun u => pdeOf u flags) true mid

/-- What `paging_alloc_page` returns and leaves behind. -/
inductive AllocsPage (m : Machine) (virt flags : U32) (ok : Bool) (m' : Machine) : Prop
  | failed (res : ok = false) (short : ShortOfFrames m virt) (back : GivenBack m m')
  | mapped (t : Frame) (mid : Machine) (res : ok = true) (taken : TakenFor m virt flags t mid)
      (same : SameTables mid m') (zero : ∀ a, frameOf a = t → m'.phys a = 0)
      (kept : ∀ a, frameOf a ≠ t → m'.phys a = mid.phys a)

section

variable {m mid m' : Machine} {virt flags : U32}

theorem samePage_add {k : Nat} (hv : virt.toNat % 4096 = 0) (hk : k < 4096) :
    SamePage (virt + BitVec.ofNat 32 k) virt := by
  have hlt := virt.isLt
  unfold SamePage
  rw [Mem.toNat_add_of_lt (by omega)]
  omega

theorem walkOf_samePage {T : Frame → Fin 1024 → U32} {v v' : U32} (h : SamePage v v') :
    walkOf T v = walkOf T v' := walkOf_of_page h

/-- The bytes of one page, all of them, are those of its frame. -/
theorem hits_page {t : Frame} (hv : virt.toNat % 4096 = 0) (hwalk : walkOf m.tables virt = some t)
    (a : U32) : Hits m.phys virt PAGE_SIZE a ↔ frameOf a = t := by
  have hsome : ∀ k < 4096, mmu m.phys (virt + BitVec.ofNat 32 k) =
      some (inFrame t (virt + BitVec.ofNat 32 k)) := by
    intro k hk
    rw [mmu_eq, walkOf_samePage (samePage_add hv hk), hwalk, Option.map_some]
  have hlt := virt.isLt
  constructor
  · rintro ⟨k, hk, ha⟩
    rw [hsome k hk] at ha
    obtain rfl := Option.some.inj ha
    apply Fin.ext
    change (inFrame t _).toNat / 4096 = t.val
    rw [inFrame_toNat]
    omega
  · rintro rfl
    refine ⟨a.toNat % 4096, Nat.mod_lt _ (by decide), ?_⟩
    rw [hsome _ (Nat.mod_lt _ (by decide))]
    refine congrArg some (BitVec.eq_of_toNat_eq ?_)
    rw [inFrame_toNat, Mem.toNat_add_of_lt (by omega)]
    change a.toNat / 4096 * 4096 + _ = _
    omega

namespace TakenFor

variable {t : Frame}

/-- It is not free any more. -/
theorem taken (h : TakenFor m virt flags t mid) (hwf : m.pmm.Wf) : ¬ (m.take t).pmm.Free t.val :=
  fun hc => ((Pmm.free_takeRun hwf h.free.lt _).1 hc).2 ⟨le_refl _, Nat.lt_succ_self _⟩

/-- The call needed no more frames than there were. -/
theorem not_short (h : TakenFor m virt flags t mid) (hwf : m.pmm.Wf) : ¬ ShortOfFrames m virt := by
  have hcount : (m.take t).pmm.freeCount = m.pmm.freeCount - 1 :=
    Pmm.freeCount_take hwf h.free h.first
  have hone : m.pmm.freeCount ≠ 0 := fun hc => (Pmm.freeCount_eq_zero hwf).1 hc _ h.free
  unfold ShortOfFrames
  cases h.stores with
  | failed hres => cases hres
  | kept u _ hslot =>
    have hsome : entryTarget (m.tables dirFrame (slotOf virt)) = some u := hslot
    rw [hsome, if_neg (by simp)]
    omega
  | made u _ hfree =>
    have htwo : (m.take t).pmm.freeCount ≠ 0 := fun hc =>
      (Pmm.freeCount_eq_zero (hwf.takeRun h.free.lt)).1 hc _ hfree
    split <;> omega

theorem walk_self (h : TakenFor m virt flags t mid) (hm : PagesOk m) :
    walkOf mid.tables virt = some t := by
  have hleaf := h.stores.leaf_self hm.proper
  rw [walkOf, walk, show leaf _ _ _ _ _ = _ from hleaf, Option.bind_some, entryTarget_pteOf,
    frameOf_frameAddr]

/-- The frame has not become a table. -/
theorem noTable (h : TakenFor m virt flags t mid) (hm : PagesOk m) :
    ¬ IsTable entryTarget dirFrame mid.tables t := by
  intro hc
  rcases h.stores.isTable hm.proper (hm.wf.takeRun h.free.lt) hc with hc | hc
  · exact h.fresh.2 hc
  · exact h.taken hm.wf hc.1

end TakenFor

theorem short_of_none (hwf : m.pmm.Wf) (hno : ∀ f, ¬ m.pmm.Free f) : ShortOfFrames m virt := by
  unfold ShortOfFrames
  rw [(Pmm.freeCount_eq_zero hwf).2 hno]
  split <;> decide

theorem short_of_one (hwf : m.pmm.Wf) {t : Frame} (ht : m.pmm.Free t.val)
    (hfirst : ∀ f < t.val, ¬ m.pmm.Free f)
    (hslot : entryTarget (m.tables dirFrame (slotOf virt)) = none)
    (hno : ∀ f, ¬ (m.take t).pmm.Free f) : ShortOfFrames m virt := by
  have hcount := Pmm.freeCount_take hwf ht hfirst
  rw [(Pmm.freeCount_eq_zero (hwf.takeRun ht.lt)).2 hno] at hcount
  unfold ShortOfFrames
  rw [if_pos hslot]
  omega

/-- **The two ways of the call**: the frames that were taken are given back, or the page
has been mapped and is yet to be zeroed. -/
theorem wp_allocMapped {Q : Bool → Machine → Prop} {S : Stop → Machine → Prop} (hm : PagesOk m)
    (hfresh : Fresh m) (hreach : AllocInReach m virt)
    (hfail : ∀ m', ShortOfFrames m virt → GivenBack m m' → Q false m')
    (hmap : ∀ t mid, TakenFor m virt flags t mid →
      wp (memset dataAccess virt 0 PAGE_SIZE) (fun _ => Q true) S mid) :
    wp (pagingAllocPage virt flags) Q S m := by
  have hwf := hm.wf
  unfold pagingAllocPage
  rw [wp_bind]
  refine wp_allocPage hwf (fun hno => hfail m (short_of_none hwf hno)
    ⟨rfl, rfl, ⟨[], rfl, by simp⟩, id⟩) fun t ht hfirst => ?_
  have htables : TablesInReach (m.take t).phys := ⟨hm.proper, hreach.dir, hreach.table⟩
  have hwf1 : (m.take t).pmm.Wf := hwf.takeRun ht.lt
  have hsub : ∀ f, (m.take t).pmm.Free f → m.pmm.Free f := fun f hf =>
    ((Pmm.free_takeRun hwf ht.lt f).1 hf).1
  simp only [frameAddr_ne_zero t.isLt (hwf.pos ht), if_false]
  rw [wp_bind]
  refine wp_mono (pagingMapPage_of htables hwf1 virt (frameAddr t.val) flags
    fun hnone u hu hufirst =>
    ⟨(hfresh u (hsub _ hu)).1, (hfresh u (hsub _ hu)).2,
      hreach.next t u ⟨hnone, ⟨ht, hfirst⟩, hu, hufirst⟩⟩) ?_ fun _ _ hf => hf.elim
  intro ok mid hstores
  cases ok with
  | false =>
    cases hstores with
    | failed _ hslot hno hquiet =>
      refine hfail _ (short_of_one hwf ht hfirst hslot hno)
        ⟨hquiet.phys, ?_, ⟨[(frameAddr t.val, 1)], hquiet.grants, fun g hg f hf => ?_⟩, hquiet.good⟩
      · change pmmFreePage (frameAddr t.val) mid.pmm = m.pmm
        rw [hquiet.pmm]
        exact pmmFreePage_takeRun hwf ht
      · rw [List.mem_singleton.1 hg] at hf
        rwa [framesOf_one hf]
    | kept _ hres => cases hres
    | made _ hres => cases hres
  | true =>
    simp only [Bool.not_true, Bool.false_eq_true, if_false]
    rw [wp_bind]
    exact wp_mono (hmap t mid ⟨ht, hfirst, hfresh t ht, hstores⟩) (fun _ _ h => h) fun _ _ h => h

/-- **`paging_alloc_page`**, at the start of a page or when there are no frames for it. -/
theorem wp_pagingAllocPage (hm : PagesOk m) (hfresh : Fresh m) (hreach : AllocInReach m virt)
    (hv : virt.toNat % 4096 = 0 ∨ ShortOfFrames m virt) :
    wp (pagingAllocPage virt flags) (AllocsPage m virt flags) (fun _ _ => False) m := by
  refine wp_allocMapped hm hfresh hreach (fun _ hs hback => .failed rfl hs hback)
    fun t mid htaken => ?_
  have hv := hv.resolve_right (htaken.not_short hm.wf)
  have hself := htaken.walk_self hm
  refine wp_mono (wp_memset_bytes 0 PAGE_SIZE virt mid fun k hk =>
    ⟨t, ?_, htaken.fresh.1, htaken.noTable hm⟩) ?_ fun _ _ hf => hf
  · rw [walkOf_samePage (samePage_add hv hk), hself]
  · rintro _ m' ⟨hsame, hin, hout⟩
    exact .mapped t mid rfl htaken hsame (fun a ha => hin a ((hits_page hv hself a).2 ha))
      fun a ha => hout a fun hc => ha ((hits_page hv hself a).1 hc)

/-- **An address inside a page.**  The bytes of the frame that lie in front of it are not
zeroed, if the call gets through at all: the page behind must be mapped, and to a frame
that is of no other use. -/
theorem wp_pagingAllocPage_inside (flags : U32) (hm : PagesOk m) (hfresh : Fresh m)
    (hreach : AllocInReach m virt) (hv : virt.toNat % 4096 ≠ 0) (hshort : ¬ ShortOfFrames m virt)
    (hnext : ∀ k < PAGE_SIZE, ¬ SamePage (virt + BitVec.ofNat 32 k) virt →
      ∃ g, walkOf m.tables (virt + BitVec.ofNat 32 k) = some g ∧ ¬ m.pmm.Free g.val ∧
        g ≠ dirFrame ∧ ¬ IsTable entryTarget dirFrame m.tables g) :
    wp (pagingAllocPage virt flags) (fun ok m' => ok = true ∧ ∃ t : Frame, m.pmm.Free t.val ∧
      mmu m'.phys virt = some (inFrame t virt) ∧
        m'.phys (frameAddr t.val) = m.phys (frameAddr t.val)) (fun _ _ => False) m := by
  refine wp_allocMapped hm hfresh hreach (fun _ hs => absurd hs hshort) fun t mid htaken => ?_
  have hself := htaken.walk_self hm
  have htable := htaken.noTable hm
  have hlt := virt.isLt
  have hwf1 : (m.take t).pmm.Wf := hm.wf.takeRun htaken.free.lt
  -- what lies behind the page is not disturbed by mapping it
  have hbehind : ∀ k < PAGE_SIZE, ¬ SamePage (virt + BitVec.ofNat 32 k) virt →
      ∃ g, walkOf mid.tables (virt + BitVec.ofNat 32 k) = some g ∧ g ≠ t ∧
        g ≠ dirFrame ∧ ¬ IsTable entryTarget dirFrame mid.tables g := by
    intro k hk hpage
    obtain ⟨g, hg, hfree, hdir, hno⟩ := hnext k hk hpage
    refine ⟨g, (htaken.stores.walk_other hm.proper hpage).trans hg, ?_, hdir, fun hc => ?_⟩
    · rintro rfl
      exact hfree htaken.free
    · rcases htaken.stores.isTable hm.proper hwf1 hc with hc | ⟨hc, -⟩
      · exact hno hc
      · exact hfree ((Pmm.free_takeRun hm.wf htaken.free.lt _).1 hc).1
  refine wp_mono (wp_memset_bytes 0 PAGE_SIZE virt mid fun k hk => ?_) ?_ fun _ _ hf => hf
  · by_cases hpage : SamePage (virt + BitVec.ofNat 32 k) virt
    · exact ⟨t, by rw [walkOf_samePage hpage, hself], htaken.fresh.1, htable⟩
    · obtain ⟨g, hg, -, hdir, hno⟩ := hbehind k hk hpage
      exact ⟨g, hg, hdir, hno⟩
  · rintro _ m' ⟨hsame, -, hout⟩
    refine ⟨rfl, t, htaken.free, by rw [mmu_eq, hsame.walk, hself, Option.map_some], ?_⟩
    rw [hout _ ?_]
    · exact bytes_of_tables (htaken.stores.other hm.proper htaken.fresh.1 htable)
        (frameOf_frameAddr t)
    · rintro ⟨k, hk, ha⟩
      have haddr := frameAddr_frame t
      have hk : k < 4096 := hk
      have hsum : (virt + BitVec.ofNat 32 k).toNat = (virt.toNat + k) % 2 ^ 32 := by
        rw [BitVec.toNat_add, BitVec.toNat_ofNat, Nat.mod_eq_of_lt (show k < 2 ^ 32 by omega)]
      rw [mmu_eq] at ha
      obtain ⟨g, hg, hin⟩ := Option.map_eq_some_iff.1 ha
      have hval := congrArg BitVec.toNat hin
      rw [inFrame_toNat, haddr] at hval
      by_cases hpage : SamePage (virt + BitVec.ofNat 32 k) virt
      · unfold SamePage at hpage
        omega
      · obtain ⟨g', hg', hne, -⟩ := hbehind k hk hpage
        rw [hg] at hg'
        exact hne (Fin.ext (by obtain rfl := Option.some.inj hg'; omega))

/-! ## What a caller sees -/

/-- The page of `virt` is mapped to `t`, a frame that was free; all of it reads as zero,
and no byte of another frame has changed that holds no table. -/
structure PageFilled (virt : U32) (m m' : Machine) (t : Frame) : Prop where
  free : m.pmm.Free t.val
  mapped : ∀ v, SamePage v virt → mmu m'.phys v = some (inFrame t v)
  zero : ∀ a, frameOf a = t → m'.phys a = 0
  others : ∀ a, frameOf a ≠ t → frameOf a ≠ dirFrame →
    ¬ IsTable entryTarget dirFrame m'.tables (frameOf a) → m'.phys a = m.phys a

/-- The bitmap is what it was, and every address goes where it went. -/
structure Unallocated (m m' : Machine) : Prop where
  pmm : m'.pmm = m.pmm
  mmu : ∀ v, Frewozet.mmu m'.phys v = Frewozet.mmu m.phys v
  translate : ∀ v, pagingTranslate m'.phys v = pagingTranslate m.phys v

/-- What a call that returned `ok` has done. -/
def AllocDone (virt : U32) (ok : Bool) (m m' : Machine) : Prop :=
  match ok with
  | true => ∃ t, PageFilled virt m m' t
  | false => Unallocated m m'

namespace AllocsPage

variable {ok : Bool}

theorem done (h : AllocsPage m virt flags ok m') (hm : PagesOk m) : AllocDone virt ok m m' := by
  cases h with
  | failed hres _ hback =>
    subst hres
    exact ⟨hback.pmm, fun v => by rw [hback.phys], fun v => by rw [hback.phys]⟩
  | mapped t mid hres htaken hsame hzero hkept =>
    subst hres
    refine ⟨t, htaken.free, fun v hv => ?_, hzero, fun a ha hdir htable => ?_⟩
    · rw [mmu_eq, hsame.walk, walkOf_samePage hv, htaken.walk_self hm, Option.map_some]
    · rw [isTable_congr hsame.dir] at htable
      rw [hkept a ha]
      exact bytes_of_tables (htaken.stores.other hm.proper hdir htable) rfl

theorem evolves (h : AllocsPage m virt flags ok m') (hm : PagesOk m) :
    Evolves (SamePage · virt) m m' := by
  cases h with
  | failed _ _ hback =>
    have htables : m'.tables = m.tables := by rw [Machine.tables, hback.phys]
    obtain ⟨new, hnew, hfree⟩ := hback.grants
    exact {
      free := by rw [hback.pmm]; exact fun _ => id
      table := by rw [hback.pmm]; exact .refl _
      isTable := by rw [htables]; exact fun _ => .inl
      leaf := by rw [htables]; exact fun _ _ _ => id
      grants := fun g hg => by
        rw [hnew] at hg
        exact (List.mem_append.1 hg).symm.imp id (hfree g)
      granted := fun g hg => by
        rw [hnew]
        exact List.mem_append_right _ hg
      writable := by rw [htables]; exact id
      good := hback.good }
  | mapped t mid _ htaken hsame =>
    have hfree := htaken.free
    have htake : Evolves (SamePage · virt) m (m.take t) := evolves_take hm.wf hfree
    have hmid := htaken.stores.evolves hm.proper (hm.wf.takeRun hfree.lt)
      fun u => pdeOf_writable u flags
    exact (htake.trans hmid).trans hsame.evolves

theorem pagesOk (h : AllocsPage m virt flags ok m') (hm : PagesOk m) : PagesOk m' := by
  cases h with
  | failed _ _ hback =>
    exact ⟨by rw [Machine.tables, hback.phys]; exact hm.proper, by rw [hback.pmm]; exact hm.wf⟩
  | mapped t mid _ htaken hsame =>
    have hwf := htaken.stores.wf (hm.wf.takeRun htaken.free.lt)
    exact ⟨(htaken.stores.proper hm.proper).congr hsame.dir, by rw [hsame.pmm]; exact hwf⟩

end AllocsPage

end

end Frewozet
