import Frewozet.Paging.PageMap
import Frewozet.System.Runs

/-!
# Access rights

The processor grants a page what its directory entry and its table entry both grant.
`paging_map_page` writes the second for every page, but the first only with the page a
table is made for.

* `Rights`, `accessRights` — the two bits, and what is left of them.
* `StoresPage.accessRights_self`, `StoresPage.accessRights_other` — the page that is
  mapped, and the others.
* `UserReaches` — the directory entry lets user accesses through, if they are asked for.
* `effectiveRights_iff` — **exactly then a page gets the rights it was mapped with**, in
  every run from boot.
-/

namespace Frewozet

open Word Exec TwoLevel

/-! ## What an entry grants -/

/-- The two bits an access is checked against. -/
structure Rights where
  writable : Bool
  user : Bool
  deriving DecidableEq

namespace Rights

/-- The bits of an entry, or of the flags a page is mapped with. -/
def of (e : U32) : Rights := ⟨e &&& PAGE_WRITABLE != 0, e &&& PAGE_USER != 0⟩

/-- What both grant. -/
def inter (r r' : Rights) : Rights := ⟨r.writable && r'.writable, r.user && r'.user⟩

end Rights

/-- What the processor grants for an address, if it is mapped. -/
def accessRights (T : Frame → Fin 1024 → U32) (v : U32) : Option Rights :=
  (leafOf T v).bind fun pte =>
    if pte &&& PAGE_PRESENT = 0 then none
    else some ((Rights.of (T dirFrame (slotOf v))).inter (Rights.of pte))

theorem and_twoPow_ne_zero (e : U32) {i : Nat} (hi : i < 32) :
    (e &&& BitVec.twoPow 32 i != 0) = e.getLsbD i := by
  have hpow : BitVec.twoPow 32 i ≠ 0 := by
    intro hc
    have hbit := congrArg (fun w => BitVec.getLsbD w i) hc
    simp [hi] at hbit
  rw [BitVec.and_twoPow]
  cases e.getLsbD i with
  | true => simpa using hpow
  | false => rfl

theorem rights_of (e : U32) : Rights.of e = ⟨e.getLsbD 1, e.getLsbD 2⟩ := by
  rw [Rights.of, show PAGE_WRITABLE = BitVec.twoPow 32 1 from rfl,
    show PAGE_USER = BitVec.twoPow 32 2 from rfl, and_twoPow_ne_zero e (by decide),
    and_twoPow_ne_zero e (by decide)]

theorem rights_user (e : U32) : (Rights.of e).user = true ↔ e &&& PAGE_USER ≠ 0 := bne_iff_ne

/-- The flags of an entry the kernel writes. -/
theorem rights_entry (a f : U32) :
    Rights.of ((a &&& 0xFFFFF000#32) ||| (f &&& 0xFFF#32) ||| PAGE_PRESENT) = Rights.of f := by
  rw [rights_of, rights_of]
  simp [PAGE_PRESENT]

theorem rights_tableFlags (f : U32) :
    Rights.of (tableFlagsOf f) = ⟨true, (Rights.of f).user⟩ := by
  have huser : (Rights.of f).user = (f &&& PAGE_USER != 0) := rfl
  rw [huser, tableFlagsOf]
  by_cases h : f &&& PAGE_USER = 0
  · simp only [h, ne_eq, not_true_eq_false, if_false]
    decide
  · simp only [h, ne_eq, not_false_eq_true, if_true]
    rw [bne_iff_ne.2 h]
    decide

theorem dirWritable_rights {T : Frame → Fin 1024 → U32} (h : DirWritable T) {s : Fin 1024}
    {t : Frame} (ht : entryTarget (T dirFrame s) = some t) :
    (Rights.of (T dirFrame s)).writable = true := bne_iff_ne.2 (h s t ht)

/-! ## What mapping a page does to them -/

/-- The directory entry of the address grants user accesses, if the flags do and if
there is one. -/
def UserReaches (T : Frame → Fin 1024 → U32) (virt flags : U32) : Prop :=
  flags &&& PAGE_USER ≠ 0 → entryTarget (T dirFrame (slotOf virt)) ≠ none →
    T dirFrame (slotOf virt) &&& PAGE_USER ≠ 0

/-- The page has the rights it was mapped with, and the others have those they had. -/
structure MapsRights (T T' : Frame → Fin 1024 → U32) (virt flags : U32) : Prop where
  self : accessRights T' virt = some (Rights.of flags)
  others : ∀ v, ¬ SamePage v virt → accessRights T' v = accessRights T v

namespace StoresPage

variable {m m' : Machine} {virt phys flags : U32} {ok : Bool}

theorem accessRights_eq (h : StoresPage m virt (pteOf phys flags) (fun t => pdeOf t flags) true m')
    (hp : Proper entryTarget dirFrame m.tables) :
    accessRights m'.tables virt =
      some ((Rights.of (m'.tables dirFrame (slotOf virt))).inter (Rights.of flags)) := by
  have hpresent : pteOf phys flags &&& PAGE_PRESENT ≠ 0 := by
    intro hc
    have htarget := entryTarget_pteOf phys flags
    rw [entryTarget_eq_none.2 hc] at htarget
    cases htarget
  rw [accessRights, h.leaf_self hp, Option.bind_some, if_neg hpresent, pteOf, pagingAlignDown,
    rights_entry]

/-- **The page that is mapped.**  It gets the rights it was mapped with exactly if user
accesses get as far as its table. -/
theorem accessRights_self
    (h : StoresPage m virt (pteOf phys flags) (fun t => pdeOf t flags) true m')
    (hp : Proper entryTarget dirFrame m.tables) (hd : DirWritable m.tables) :
    accessRights m'.tables virt = some (Rights.of flags) ↔ UserReaches m.tables virt flags := by
  rw [h.accessRights_eq hp]
  cases h with
  | failed hres => cases hres
  | kept t _ hslot htables =>
    have hdir : m'.tables dirFrame (slotOf virt) = m.tables dirFrame (slotOf virt) := by
      rw [htables, set_dir hp hslot]
    have hwritable := dirWritable_rights hd hslot
    have hsome : entryTarget (m.tables dirFrame (slotOf virt)) ≠ none := by
      rw [hslot]
      exact fun hc => by cases hc
    rw [hdir, UserReaches, ← rights_user, ← rights_user]
    generalize Rights.of (m.tables dirFrame (slotOf virt)) = d at hwritable
    generalize Rights.of flags = f
    obtain ⟨dw, du⟩ := d
    obtain ⟨fw, fu⟩ := f
    subst hwritable
    cases fu <;> cases du <;> simp [Rights.inter, hsome]
  | made t _ _ _ hvacant htables =>
    have hdir : m'.tables dirFrame (slotOf virt) = pdeOf t flags := by
      rw [htables, set_dir (hp.of_install hvacant) (by rw [target_install hvacant, if_pos rfl]),
        install_dir hvacant, if_pos rfl]
    have hinter : (Rights.of (pdeOf t flags)).inter (Rights.of flags) = Rights.of flags := by
      rw [pdeOf, rights_entry, rights_tableFlags]
      simp [Rights.inter]
    rw [hdir, hinter]
    exact iff_of_true rfl fun _ hsome => absurd hvacant.place hsome

/-- **The other pages.** -/
theorem accessRights_other {pte : U32} {pde : Frame → U32} (h : StoresPage m virt pte pde ok m')
    (hp : Proper entryTarget dirFrame m.tables) {v : U32} (hv : ¬ SamePage v virt) :
    accessRights m'.tables v = accessRights m.tables v := by
  rw [samePage_iff] at hv
  cases h with
  | failed _ _ _ hquiet => rw [hquiet.tables]
  | kept t _ hslot htables =>
    rw [htables, accessRights, accessRights, leafOf, leaf_set hp hslot, if_neg hv,
      set_dir hp hslot]
  | made t _ _ _ hvacant htables =>
    have hhang : entryTarget (install m.tables dirFrame (slotOf virt) t 0 (pde t) dirFrame
        (slotOf virt)) = some t := by rw [target_install hvacant, if_pos rfl]
    rw [htables, accessRights, accessRights, leafOf, leaf_set (hp.of_install hvacant) hhang,
      if_neg hv, set_dir (hp.of_install hvacant) hhang, leaf_install hp hvacant,
      install_dir hvacant]
    by_cases hs : slotOf v = slotOf virt
    · -- a neighbour served by the new table: not mapped before, and not mapped now
      rw [if_pos hs, leafOf, leaf_of_none (by rw [hs]; exact hvacant.place), Option.bind_some,
        if_pos (by decide)]
      rfl
    · rw [if_neg hs, if_neg hs]

theorem mapsRights_iff
    (h : StoresPage m virt (pteOf phys flags) (fun t => pdeOf t flags) true m')
    (hp : Proper entryTarget dirFrame m.tables) (hd : DirWritable m.tables) :
    MapsRights m.tables m'.tables virt flags ↔ UserReaches m.tables virt flags := by
  rw [← h.accessRights_self hp hd]
  exact ⟨fun hr => hr.self, fun hself => ⟨hself, fun v hv => h.accessRights_other hp hv⟩⟩

end StoresPage

/-! ## The runs -/

/-- What holds between the calls: the tables are in order, hung in writable, and no free
frame is one of them. -/
structure TablesSound (m : Machine) : Prop extends PagesOk m where
  writable : DirWritable m.tables
  fresh : Fresh m

theorem MachineOk.tablesSound {p₀ : Pmm} {m : Machine} (h : MachineOk p₀ m) : TablesSound m :=
  ⟨⟨h.windowed.proper, h.wf⟩, h.writable, h.fresh⟩

theorem TablesSound.takesFresh {m : Machine} (h : TablesSound m) (c : PageCall) :
    c.TakesFresh m := by
  cases c with
  | map virt phys flags => exact fun t ht => h.fresh t ht.2.1
  | unmap virt => exact fun t ht => ht.elim
  | translate virt => exact fun t ht => ht.elim

theorem TablesSound.evolve {W : U32 → Prop} {m m' : Machine} (h : TablesSound m)
    (he : Evolves W m m') (hm : PagesOk m') : TablesSound m' := by
  refine ⟨hm, he.writable h.writable, fun f hf => ?_⟩
  obtain ⟨hdir, htable⟩ := h.fresh f (he.free f hf)
  refine ⟨hdir, fun hc => ?_⟩
  rcases he.isTable f hc with hc | ⟨-, hc⟩
  · exact htable hc
  · exact hc hf

/-- What a call did to the rights. -/
def PageCall.RightsAfter (c : PageCall) (m m' : Machine) : Prop :=
  match c with
  | .map virt _ flags => c.exec m = .ret 1 m' →
      (MapsRights m.tables m'.tables virt flags ↔ UserReaches m.tables virt flags)
  | _ => True

/-- **One call.** -/
theorem PageCall.run_rights {c : PageCall} {m : Machine} (hm : TablesSound m)
    (hreach : c.InReach m) :
    wp c.run (fun _ m' => TablesSound m' ∧ (∃ r, c.exec m = .ret r m') ∧ c.RightsAfter m m')
      (fun _ _ => False) m := by
  rw [run, wp_bind]
  cases c with
  | map virt phys flags =>
    refine wp_mono (wp_ran (exec_map hm.toPagesOk hreach (hm.takesFresh _))) ?_ fun _ _ hf => hf
    rintro r m' ⟨hx, ok, rfl, hs⟩
    have he := hs.evolves hm.proper hm.wf fun t => pdeOf_writable t flags
    refine ⟨hm.evolve he ⟨hs.proper hm.proper, hs.wf hm.wf⟩, ⟨_, hx⟩, fun hret => ?_⟩
    rw [hx] at hret
    cases ok with
    | false => cases hret
    | true => exact hs.mapsRights_iff hm.proper hm.writable
  | unmap virt =>
    refine wp_mono (wp_ran (exec_unmap hm.toPagesOk hreach)) ?_ fun _ _ hf => hf
    rintro r m' ⟨hx, hd⟩
    exact ⟨hm.evolve (hd.evolves hm.proper) ⟨hd.proper hm.proper, hd.pmm_eq ▸ hm.wf⟩, ⟨r, hx⟩,
      trivial⟩
  | translate virt =>
    refine wp_mono (wp_ran (exec_translate hm.toPagesOk hreach)) ?_ fun _ _ hf => hf
    rintro r m' ⟨hx, -, rfl⟩
    exact ⟨hm, ⟨r, hx⟩, trivial⟩

/-- **Effective rights.**  In every run from boot in which the tables are in reach and the
kernel's own pages stay where they are, a page that has been mapped successfully has the rights
it was mapped with, and all others have those they had, exactly if user accesses, where they are
asked for, get through the directory entry. -/
theorem effectiveRights_iff {info : E820Info} {k : KernelImage} {vmem mem : Mem}
    {pre post : List PageCall} {virt phys flags : U32}
    (hok : EachOk PageCall.run (fun m c => c.InReach m ∧ c.KeepsOwn k m)
      (pre ++ .map virt phys flags :: post) (bootSystem info k vmem mem).machine) :
    ∃ m r m', runAll PageCall.run pre (bootSystem info k vmem mem).machine = .ret () m ∧
      (PageCall.map virt phys flags).exec m = .ret r m' ∧
        (r = 1 → (MapsRights m.tables m'.tables virt flags ↔ UserReaches m.tables virt flags)) := by
  obtain ⟨m, m', hpre, -, -, -, ⟨r, hx⟩, hr⟩ := runAll_each
    (fun m c hm hc => c.run_rights hm hc.1) (machineOk_boot info k vmem mem).tablesSound hok
  refine ⟨m, r, m', hpre, hx, ?_⟩
  rintro rfl
  exact hr hx

section

variable (info : E820Info) (k : KernelImage) (vmem mem : Mem) {virt : U32}

theorem inReach_boot (hs : slotOf virt = windowSlot) (phys flags : U32) :
    (PageCall.map virt phys flags).InReach (bootSystem info k vmem mem).machine := by
  have hw := (machineOk_boot info k vmem mem).windowed
  refine ⟨hw.inReach.dir, hw.inReach.table, fun t ht => ?_⟩
  have hnone := ht.1
  rw [hs, hw.window] at hnone
  cases hnone

theorem eachOk_boot (hs : slotOf virt = windowSlot) {phys : U32} (flags : U32)
    (hown : frameOf phys = frameOf (virtToPhys virt)) :
    EachOk PageCall.run (fun m c => c.InReach m ∧ c.KeepsOwn k m) ([] ++ [.map virt phys flags])
      (bootSystem info k vmem mem).machine :=
  ⟨⟨inReach_boot info k vmem mem hs phys flags, fun _ => hown⟩, fun _ _ => trivial⟩

/-- A user page in the slot of the direct map: the directory entry the loader made keeps
user accesses out. -/
theorem boot_user_lost (hs : slotOf virt = windowSlot) (phys flags : U32)
    (hflags : flags &&& PAGE_USER ≠ 0) :
    ∃ m', (PageCall.map virt phys flags).exec (bootSystem info k vmem mem).machine = .ret 1 m' ∧
      ¬ MapsRights (bootSystem info k vmem mem).machine.tables m'.tables virt flags := by
  have hm := (machineOk_boot info k vmem mem).tablesSound
  have hwindow := (machineOk_boot info k vmem mem).windowed.window
  have hpde : (bootSystem info k vmem mem).machine.tables dirFrame windowSlot = 0xA003#32 := by
    rw [bootSystem_tables]
    exact tables_kernelMachine mem dirFrame windowSlot
  obtain ⟨_, m', hx, ok, rfl, hstores⟩ := wp_total
    (PageCall.exec_map hm.toPagesOk (inReach_boot info k vmem mem hs phys flags) (hm.takesFresh _))
  cases ok with
  | false =>
    cases hstores with
    | failed _ hnone =>
      rw [hs, hwindow] at hnone
      cases hnone
    | kept _ hres => cases hres
    | made _ hres => cases hres
  | true =>
    refine ⟨m', hx, fun hr => ?_⟩
    have huser := (hstores.mapsRights_iff hm.proper hm.writable).1 hr hflags
    rw [hs, hwindow, hpde] at huser
    exact huser (fun hc => by cases hc) (by decide)

end

/-- A page of the direct map, mapped for the kernel. -/
theorem effectiveRights_iff_kernel : ∃ m r m',
    runAll PageCall.run [] (bootSystem plainTable smallKernel (fun _ => 0) fun _ => 0).machine =
        .ret () m ∧
      (PageCall.map 0xC0300000 0x300000 PAGE_WRITABLE).exec m = .ret r m' ∧
        (r = 1 → (MapsRights m.tables m'.tables 0xC0300000 PAGE_WRITABLE ↔
          UserReaches m.tables 0xC0300000 PAGE_WRITABLE)) :=
  effectiveRights_iff
    (eachOk_boot plainTable smallKernel (fun _ => 0) (fun _ => 0) (by decide) PAGE_WRITABLE
      (by decide))

/-- A page of the direct map, mapped for user accesses, does not let them through. -/
theorem userPage_rights_lost : ∃ m',
    (PageCall.map 0xC0300000 0x300000 (PAGE_WRITABLE ||| PAGE_USER)).exec
        (bootSystem plainTable smallKernel (fun _ => 0) fun _ => 0).machine = .ret 1 m' ∧
      ¬ MapsRights (bootSystem plainTable smallKernel (fun _ => 0) fun _ => 0).machine.tables
        m'.tables 0xC0300000 (PAGE_WRITABLE ||| PAGE_USER) :=
  boot_user_lost plainTable smallKernel (fun _ => 0) (fun _ => 0) (by decide) _ _ (by decide)

end Frewozet
