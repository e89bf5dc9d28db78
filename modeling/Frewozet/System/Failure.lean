import Frewozet.System.Access

/-!
# When `kmalloc` fails

What a call of `kmalloc` that returns null leaves behind, in every state a run of the
kernel reaches.

* `Atomic` — nothing has changed, except that frames may have become page tables.
* `GrowsInVain` — **growing the heap starts and does not help**: there is a frame for
  the first page, but not for all of them, or the region is too small in the end.
* `kmalloc_in_vain` — the call returns null then and is not atomic.
* `kmalloc_atomic_iff` — it is atomic in every other case.
-/

namespace Frewozet

open Word Exec TwoLevel

/-- A call that has failed has changed nothing but frames that are page tables now. -/
structure Atomic (mem : Memory) (m : Machine) (mem' : Memory) (m' : Machine) : Prop where
  list : ∀ bs, HeapAt mem' bs ↔ HeapAt mem bs
  current : mem'.heapVirtualCurrent = mem.heapVirtualCurrent
  committed : mem'.heapCommittedBytes = mem.heapCommittedBytes
  translate : ∀ v, pagingTranslate m'.phys v = pagingTranslate m.phys v
  free : ∀ f : Frame, m.pmm.Free f.val →
    m'.pmm.Free f.val ∨ IsTable entryTarget dirFrame m'.tables f

theorem Atomic.refl (mem : Memory) (m : Machine) : Atomic mem m mem m :=
  ⟨fun _ => Iff.rfl, rfl, rfl, fun _ => rfl, fun _ => .inl⟩

/-- Growing the heap for the rounded size takes its first page, and the call has
nothing to return all the same: the frames run out, or the region does not hold what
was asked for. -/
def GrowsInVain (t : System) (size : U32) : Prop :=
  NeedsGrowth t.memory size ∧
    (1 + if t.machine.HasTable t.memory.top then 0 else 1) ≤ t.machine.pmm.freeCount ∧
    (t.machine.pmm.freeCount < t.machine.framesNeeded t.memory.top (growPages size).toNat ∨
      (growPages size).toNat * 4096 - 12 < size.toNat)

section

variable {p₀ : Pmm} {own : Prop} {t : System} {size : U32}

/-- Every way `kmalloc` can end, with the tables it takes in reach. -/
theorem SystemOk.kmalloc (h : SystemOk p₀ own t) (he : t.memory.memoryPmmBackendEnabled = true)
    (h0 : size ≠ 0) (hok : (Op.request (.kmalloc size)).Ok own t) :
    ∃ bs, HeapAt t.memory bs ∧ wp (Frewozet.kmalloc kernelBacking size)
      (fun p u => Mallocs kernelBacking t.memory bs t.machine
        (alignUpSize size MEMORY_DEFAULT_ALIGNMENT) p u.1 u.2) (fun _ _ => False)
      (t.memory, t.machine) := by
  obtain ⟨bs, hheap⟩ := h.heap
  obtain ⟨-, -, hlow⟩ := hok
  have hgrowth := h.standing.kmalloc hheap.heap he h0 (hlow he size (if_neg h0))
  exact ⟨bs, hheap.heap, wp_mono (wp_and (kmalloc_spec hheap.heap he h0) hgrowth)
    (fun _ _ hc => hc.1) fun _ _ hc => hc.2⟩

/-- What growing the heap has done to the machine. -/
theorem GrowsHeap.machine {mem mem' : Memory} {m m' : Machine} {bs : List Block} {ok : Bool}
    {live : List (U32 × U32)} (hg : GrowsHeap kernelBacking mem bs m size ok mem' m')
    (h : Standing p₀ own live mem m) (hheap : HeapAt mem bs) (hroom : RoomFor mem size)
    (hlow : m.TablesLow mem.top (growPages size).toNat) :
    Grown m mem.top (growPages size).toNat ok m' := by
  have hroom' := hroom.top
  have hpages := h.pages hheap (by omega) hlow
  cases hg with
  | refused hno => exact absurd hroom hno
  | exhausted _ hp hres => subst hres; exact (wp_ret hpages hp).1
  | grown _ _ _ hp hres => subst hres; exact (wp_ret hpages hp).1

/-- No block fits, and there is room. -/
theorem needsGrowth_iff {mem : Memory} {bs : List Block} (h : HeapAt mem bs) :
    NeedsGrowth mem size ↔ (∀ b ∈ bs, b.fits size.toNat = false) ∧ RoomFor mem size := by
  rw [NeedsGrowth, h.find_none]

/-- The page that stays mapped: its frame was free, is not any more, and is no table. -/
theorem Grown.not_atomic {mem mem' : Memory} {m m' : Machine} {page n : Nat} {ok : Bool}
    (hg : Grown m page n ok m') (hn : 0 < n)
    (hfirst : (1 + if m.HasTable page then 0 else 1) ≤ m.pmm.freeCount) :
    ¬ Atomic mem m mem' m' := by
  obtain ⟨f, hbacks, hfree, -⟩ := hg.first hn hfirst
  intro ha
  rcases ha.free f hfree with hc | hc
  · exact hbacks.taken hc
  · exact hbacks.noTable hc

/-- **Growing in vain**: `kmalloc` returns null, and frames are gone. -/
theorem kmalloc_in_vain (h : SystemOk p₀ own t) (he : t.memory.memoryPmmBackendEnabled = true)
    (h0 : size ≠ 0) (hok : (Op.request (.kmalloc size)).Ok own t)
    (hvain : GrowsInVain t (alignUpSize size MEMORY_DEFAULT_ALIGNMENT)) :
    ∃ mem' m', kmalloc kernelBacking size (t.memory, t.machine) = .ret 0 (mem', m') ∧
      ¬ Atomic t.memory t.machine mem' m' := by
  obtain ⟨hneeds, hfirst, hshort⟩ := hvain
  obtain ⟨bs, hheap, hspec⟩ := h.kmalloc he h0 hok
  have hlow := hok.2.2 he size (if_neg h0) hneeds
  obtain ⟨hnone, hroom⟩ := (needsGrowth_iff hheap).1 hneeds
  have hpos := growPages_bounds (alignUpSize size MEMORY_DEFAULT_ALIGNMENT)
  generalize alignUpSize size MEMORY_DEFAULT_ALIGNMENT = size' at *
  cases hx : kmalloc kernelBacking size (t.memory, t.machine) with
  | stop w u => exact (wp_stops hspec hx).elim
  | ret p u =>
    obtain ⟨mem', m'⟩ := u
    have hgrown : ∀ {ok : Bool} {mem₁ : Memory} {m₁ : Machine},
        GrowsHeap kernelBacking t.memory bs t.machine size' ok mem₁ m₁ →
          Grown t.machine t.memory.top (growPages size').toNat ok m₁ :=
      fun hg => hg.machine h.standing hheap hroom hlow
    cases wp_ret hspec hx with
    | served hserves =>
      obtain ⟨xs, b, ys, _, hlist, -, hfits, -, -, -, -⟩ := hserves
      rw [hnone b (by rw [hlist]; simp)] at hfits
      cases hfits
    | failed _ hgrow hres =>
      rw [hres]
      exact ⟨mem', m', rfl, (hgrown hgrow).not_atomic (by omega) hfirst⟩
    | grown _ m₁ hgrow hserves =>
      -- the region has all its frames and is big enough
      have henough := (hgrown hgrow).enough.1 rfl
      obtain ⟨xs, b, ys, _, hlist, -, hfits, -, -, -, -⟩ := hserves
      have hb : b ∈ bs ++ [regionBlock t.memory size'] := by rw [hlist]; simp
      rcases List.mem_append.1 hb with hb | hb
      · rw [hnone b hb] at hfits
        cases hfits
      · rw [List.mem_singleton.1 hb, Block.fits, Bool.and_eq_true, decide_eq_true_eq] at hfits
        have hsize : (regionBlock t.memory size').size = (growPages size').toNat * 4096 - 12 := rfl
        omega
    | missed _ hgrow _ hres =>
      rw [hres]
      exact ⟨mem', m', rfl, (hgrown hgrow).not_atomic (by omega) hfirst⟩

/-- With no frame for the first page, nothing happens. -/
theorem Grown.atomic {mem : Memory} {m m' : Machine} {page n : Nat} {ok : Bool}
    (hg : Grown m page n ok m') (hn : 0 < n)
    (hfew : m.pmm.freeCount < 1 + if m.HasTable page then 0 else 1) : Atomic mem m mem m' := by
  obtain ⟨hpmm, hphys⟩ := hg.few hn hfew
  exact ⟨fun _ => Iff.rfl, rfl, rfl, fun v => by rw [hphys], fun f hf => .inl (by rwa [hpmm])⟩

/-- **In every other case** a call that returns null is atomic. -/
theorem kmalloc_atomic (h : SystemOk p₀ own t) (he : t.memory.memoryPmmBackendEnabled = true)
    (h0 : size ≠ 0) (hok : (Op.request (.kmalloc size)).Ok own t)
    (hvain : ¬ GrowsInVain t (alignUpSize size MEMORY_DEFAULT_ALIGNMENT)) {mem' : Memory}
    {m' : Machine} (hcall : kmalloc kernelBacking size (t.memory, t.machine) = .ret 0 (mem', m')) :
    Atomic t.memory t.machine mem' m' := by
  obtain ⟨bs, hheap, hspec⟩ := h.kmalloc he h0 hok
  have hlow := hok.2.2 he size (if_neg h0)
  have hpos := growPages_bounds (alignUpSize size MEMORY_DEFAULT_ALIGNMENT)
  generalize alignUpSize size MEMORY_DEFAULT_ALIGNMENT = size' at *
  cases wp_ret hspec hcall with
  | served hserves => exact absurd rfl (hserves.ptr_ne hheap)
  | failed hnone hgrow _ =>
    obtain ⟨-, hmem, -⟩ := hgrow.heap hheap
    obtain rfl := hmem rfl
    by_cases hroom : RoomFor t.memory size'
    · have hneeds := (needsGrowth_iff hheap).2 ⟨hnone, hroom⟩
      have hgrown := hgrow.machine h.standing hheap hroom (hlow hneeds)
      have henough := hgrown.enough
      refine hgrown.atomic (by omega) ?_
      by_contra hfirst
      refine hvain ⟨hneeds, by omega, .inl ?_⟩
      by_contra hc
      exact Bool.false_ne_true (henough.2 (by omega))
    · cases hgrow with
      | refused _ _ _ hback =>
        obtain rfl : m' = t.machine := hback
        exact .refl _ _
      | exhausted hroom' => exact absurd hroom' hroom
      | grown _ _ hroom' => exact absurd hroom' hroom
  | grown _ m₁ hgrow hserves => exact absurd rfl (hserves.ptr_ne ((hgrow.heap hheap).2.2 rfl))
  | missed hnone hgrow hsmall _ =>
    have hroom : RoomFor t.memory size' := by
      cases hgrow with
      | refused _ hres => cases hres
      | exhausted _ _ hres => cases hres
      | grown _ _ hroom => exact hroom
    have hneeds := (needsGrowth_iff hheap).2 ⟨hnone, hroom⟩
    have hgrown := hgrow.machine h.standing hheap hroom (hlow hneeds)
    have henough := hgrown.enough.1 rfl
    obtain ⟨n, hn⟩ : ∃ n, (growPages size').toNat = n + 1 :=
      ⟨_, (Nat.sub_add_cancel (by omega)).symm⟩
    have hge := @framesNeeded_ge t.machine t.memory.top n
    rw [← hn] at hge
    refine absurd ⟨hneeds, by omega, .inr ?_⟩ hvain
    rw [regionBlock, Block.fits, Bool.true_and, decide_eq_false_iff_not] at hsmall
    exact not_le.1 hsmall

end

/-! ## In every reachable state -/

/-- **When a failed `kmalloc` is atomic.**  In every state a run of the kernel reaches, with
the tables the call takes in reach: exactly if it does not grow the heap in vain. -/
theorem kmalloc_atomic_iff {info : E820Info} {k : KernelImage} {vmem phys : Mem} {ops : List Op}
    {t : System} (hrun : runAll Op.exec ops (bootSystem info k vmem phys) = .ret () t)
    (hops : EachOk Op.exec (fun t op => op.Ok False t) ops (bootSystem info k vmem phys))
    (he : t.memory.memoryPmmBackendEnabled = true) {size : U32}
    (hok : (Op.request (.kmalloc size)).Ok False t) :
    (∀ mem' m', kmalloc kernelBacking size (t.memory, t.machine) = .ret 0 (mem', m') →
        Atomic t.memory t.machine mem' m') ↔
      (size = 0 ∨ ¬ GrowsInVain t (alignUpSize size MEMORY_DEFAULT_ALIGNMENT)) := by
  have hend := systemOk_run (systemOk_boot info k vmem phys False) ops hops
  rw [hrun, Outcome.state_ret] at hend
  by_cases h0 : size = 0
  · subst h0
    refine ⟨fun _ => .inl rfl, fun _ mem' m' hcall => ?_⟩
    obtain ⟨rfl, rfl⟩ : t.memory = mem' ∧ t.machine = m' := by
      have hstate := congrArg Outcome.state hcall
      exact Prod.ext_iff.1 hstate
    exact .refl _ _
  constructor
  · intro hatomic
    refine .inr fun hvain => ?_
    obtain ⟨mem', m', hcall, hnot⟩ := kmalloc_in_vain hend he h0 hok hvain
    exact hnot (hatomic mem' m' hcall)
  · rintro (hc | hvain) mem' m' hcall
    · exact absurd hc h0
    · exact kmalloc_atomic hend he h0 hok hvain hcall

/-! ## A machine with eight free frames -/

/-- A machine whose memory ends 100 KiB past 1 MiB. -/
def tinyTable : E820Info where
  signature := E820_SIG
  entries := [⟨0x100000, 0x19000, 1, 1⟩]

theorem tinyTable_free (vmem : Mem) (f : Nat) :
    (boot tinyTable smallKernel vmem).pmm.Free f ↔ 273 ≤ f ∧ f < 281 := by
  have hend : (⟨0x100000, 0x19000, 1, 1⟩ : E820Entry).end64.toNat = 0x119000 := by decide
  have hbase : (⟨0x100000, 0x19000, 1, 1⟩ : E820Entry).base.toNat = 0x100000 := by decide
  rw [smallKernel_free rfl (by decide) (by decide), freedBy_iff, hend, hbase]
  simp only [true_and]
  omega

theorem tinyTable_counts (vmem : Mem) :
    (boot tinyTable smallKernel vmem).pmm.freeCount = 8 ∧
      8 ≤ (boot tinyTable smallKernel vmem).pmm.freeBelow 1024 := by
  have hlow := Pmm.card_le_freeBelow (p := (boot tinyTable smallKernel vmem).pmm) (n := 1024)
    (Finset.Ico 273 281) fun f hf => by
      obtain ⟨h1, h2⟩ := Finset.mem_Ico.1 hf
      exact ⟨by omega, (tinyTable_free vmem f).2 ⟨h1, h2⟩⟩
  have hall := Pmm.freeBelow_le_card (p := (boot tinyTable smallKernel vmem).pmm) (n := 0x100000)
    (Finset.Ico 273 281) fun f _ hf => Finset.mem_Ico.2 ((tinyTable_free vmem f).1 hf)
  have hmono := (boot tinyTable smallKernel vmem).pmm.freeBelow_mono (n := 1024) (k := 0x100000)
    (by decide)
  rw [Nat.card_Ico] at hlow hall
  exact ⟨le_antisymm hall (hlow.trans hmono), hlow⟩

/-- Three frames are left there once the backend is enabled, and nine pages are asked
for. -/
theorem tinyTable_enable (vmem phys : Mem) :
    ∃ t, runAll Op.exec [.enable] (bootSystem tinyTable smallKernel vmem phys) = .ret () t ∧
      EachOk Op.exec (fun t op => op.Ok False t) [.enable]
        (bootSystem tinyTable smallKernel vmem phys) ∧
      t.memory.memoryPmmBackendEnabled = true ∧ (Op.request (.kmalloc 0x8000)).Ok False t ∧
      GrowsInVain t (alignUpSize 0x8000 MEMORY_DEFAULT_ALIGNMENT) := by
  obtain ⟨hcount, hlow⟩ := tinyTable_counts vmem
  obtain ⟨t, hx, hfirst⟩ := enable_returns tinyTable smallKernel vmem phys (.inr (by omega))
  have hall : (bootSystem tinyTable smallKernel vmem phys).machine.pmm.freeCount = 8 := hcount
  have he := hfirst.enough.2 (by omega)
  obtain ⟨hcurrent, htables, hleft⟩ := hfirst.after tinyTable smallKernel vmem phys he
  have htop : t.memory.top = 0xC1004 := by rw [Memory.top, hcurrent]; rfl
  have hpages : (growPages (alignUpSize 0x8000 MEMORY_DEFAULT_ALIGNMENT)).toNat = 9 := by decide
  have hneeds : NeedsGrowth t.memory (alignUpSize 0x8000 MEMORY_DEFAULT_ALIGNMENT) := by
    refine ⟨(hfirst.list he).find_none.2 fun b hb => ?_, ?_⟩
    · rw [List.mem_singleton.1 hb]
      decide
    · rw [RoomFor, hpages, hcurrent]
      decide
  have hlow' : t.machine.TablesLow 0xC1004 9 := by
    intro i hi hno
    exact absurd (htables (4 + i) (by omega)) (by rwa [← Nat.add_assoc])
  refine ⟨t, runAll_of_ret hx,
    ⟨ok_enable_boot tinyTable smallKernel vmem phys False (.inr (by omega)),
    fun _ _ => trivial⟩, he, ⟨trivial, trivial, fun _ size hsize _ => ?_⟩, hneeds, ?_, .inl ?_⟩
  · obtain rfl := Option.some.inj hsize
    rw [GrowthLow, htop, hpages]
    exact hlow'
  · rw [htop, if_pos (htables 4 (by decide))]
    omega
  · rw [htop, hpages]
    have hge := @framesNeeded_pos t.machine 0xC1004 9
    omega

/-- A call for 32 KiB on that machine: null, and the frames that were left are gone. -/
theorem tinyTable_not_atomic : ∃ t mem' m',
    runAll Op.exec [.enable] (bootSystem tinyTable smallKernel (fun _ => 0) fun _ => 0) =
      .ret () t ∧
      t.memory.memoryPmmBackendEnabled = true ∧
      kmalloc kernelBacking 0x8000 (t.memory, t.machine) = .ret 0 (mem', m') ∧
      ¬ Atomic t.memory t.machine mem' m' := by
  obtain ⟨t, hrun, hops, he, hok, hvain⟩ := tinyTable_enable (fun _ => 0) fun _ => 0
  have hend := systemOk_run (systemOk_boot tinyTable smallKernel (fun _ => 0) (fun _ => 0) False)
    [.enable] hops
  rw [hrun, Outcome.state_ret] at hend
  obtain ⟨mem', m', hcall, hnot⟩ := kmalloc_in_vain hend he (by decide) hok hvain
  exact ⟨t, mem', m', hrun, he, hcall, hnot⟩

/-- A call for a gigabyte there is refused, and atomic. -/
theorem kmalloc_atomic_iff_refused : ∃ t,
    runAll Op.exec [.enable] (bootSystem tinyTable smallKernel (fun _ => 0) fun _ => 0) =
      .ret () t ∧
      ((∀ mem' m', kmalloc kernelBacking 0x40000000 (t.memory, t.machine) = .ret 0 (mem', m') →
          Atomic t.memory t.machine mem' m') ↔
        ((0x40000000 : U32) = 0 ∨
          ¬ GrowsInVain t (alignUpSize 0x40000000 MEMORY_DEFAULT_ALIGNMENT))) := by
  obtain ⟨t, hrun, hops, he, -⟩ := tinyTable_enable (fun _ => 0) fun _ => 0
  have hend := systemOk_run (systemOk_boot tinyTable smallKernel (fun _ => 0) (fun _ => 0) False)
    [.enable] hops
  rw [hrun, Outcome.state_ret] at hend
  obtain ⟨bs, hheap⟩ := hend.heap
  have hlo := hheap.heap.tiles.le
  have hpages : (growPages (alignUpSize 0x40000000 MEMORY_DEFAULT_ALIGNMENT)).toNat = 0x40001 := by
    decide
  refine ⟨t, hrun, kmalloc_atomic_iff hrun hops he
    ⟨trivial, trivial, fun _ size hsize hneeds => ?_⟩⟩
  obtain rfl := Option.some.inj hsize
  have hroom := hneeds.2
  rw [RoomFor, hpages] at hroom
  omega

end Frewozet
