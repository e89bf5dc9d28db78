import Frewozet.Flat.Paging
import Frewozet.System.State

/-!
# Growing the heap in that memory

The loop of `heap_grow` over a `pmm.c` whose bitmap is in memory, with any pattern of calls that
fail.

* `Flat.backing` — the functions of `pmm.c` and `paging.c` the heap calls, and a list that says
  which of the next calls are to fail.
* `Sound p₀ m` — the invariant of the machine: the bitmap is in place, and the tables are as
  they should be.
* `KeepsHeld` — frames that are taken and hold no table keep their bytes.
* `Sound.growPages` — **what the loop does**: if it succeeds, every new page has a frame of its
  own, and either way nothing that was there is touched.
-/

namespace Frewozet

open Word Exec TwoLevel

namespace Flat

/-- A call that fails if it is told to. -/
def faulty {α : Type} (failure : α) (x : Exec Machine α) : Exec (Machine × List Bool) α := fun s =>
  if s.2.headD false then .ret failure (s.1, s.2.tail)
  else zoom Prod.fst (fun m s => (m, s.2.tail)) x s

/-- What the heap needs from below. -/
def backing : Backing (Machine × List Bool) where
  pmmAllocPage := faulty 0 pmmAllocPage
  pagingMapPage := fun virt phys flags => faulty false (pagingMapPage virt phys flags)
  pmmFreePage := fun page => zoom Prod.fst (fun m s => (m, s.2)) (pmmFreePage page)
  mapped := fun s virt => (mmu s.1.phys virt).isSome

end Flat

theorem wp_faulty {α : Type} {failure : α} {x : Exec Machine α} {s : Machine × List Bool}
    {Q : α → Machine × List Bool → Prop} (hfail : s.2 ≠ [] → Q failure (s.1, s.2.tail))
    (hx : wp x (fun a m => Q a (m, s.2.tail)) (fun _ _ => False) s.1) :
    wp (Flat.faulty failure x) Q (fun _ _ => False) s := by
  unfold Flat.faulty
  by_cases hf : s.2.headD false = true
  · simp only [wp, hf, if_true]
    refine hfail fun hc => ?_
    rw [hc] at hf
    cases hf
  · simp only [wp, hf, Bool.false_eq_true, if_false]
    change wp (zoom _ _ x) _ _ s
    rw [wp_zoom]
    exact hx

/-! ## The invariant -/

/-- What `pmm_init` has seen to: the bitmap lies in the first 4 MiB, in frames that are not free. -/
structure SafeBitmap (p₀ : Pmm) : Prop where
  window : ∀ f, BitmapFrame p₀ f → f < 1024
  spare : ∀ f, p₀.Free f → ¬ BitmapFrame p₀ f

/-- The bitmap is in place, and the rest of the machine is as it should be. -/
structure Sound (p₀ : Pmm) (m : Machine) : Prop where
  resident : Resident m
  machine : MachineOk p₀ m.layer

/-- Frames that are taken and hold no table keep their bytes. -/
def KeepsHeld (l l' : Machine) : Prop := ∀ f : Frame, f ≠ dirFrame → ¬ l.pmm.Free f.val →
  ¬ IsTable entryTarget dirFrame l.tables f → ∀ i, l'.tables f i = l.tables f i

section

variable {p₀ : Pmm} {m m' : Machine} {l l' l'' : Machine} {W : U32 → Prop} {page n : Nat}

theorem KeepsHeld.refl (l : Machine) : KeepsHeld l l := fun _ _ _ _ _ => rfl

theorem KeepsHeld.of_tables (h : l'.tables = l.tables) : KeepsHeld l l' := fun _ _ _ _ _ => by
  rw [h]

theorem KeepsHeld.trans (h : KeepsHeld l l') (he : Evolves W l l') (h' : KeepsHeld l' l'') :
    KeepsHeld l l'' := by
  intro f hdir hfree htable i
  refine (h' f hdir (fun hc => hfree (he.free _ hc)) (fun hc => ?_) i).trans
    (h f hdir hfree htable i)
  rcases he.isTable f hc with hc | ⟨hc, -⟩
  · exact htable hc
  · exact hfree hc

theorem StoresPage.keepsHeld {virt pte : U32} {pde : Frame → U32} {ok : Bool}
    (h : StoresPage l virt pte pde ok l') (hp : Proper entryTarget dirFrame l.tables)
    (hwf : l.pmm.Wf) : KeepsHeld l l' := by
  intro f hdir hfree htable i
  refine h.other hp hdir (fun hc => ?_) i
  rcases h.isTable hp hwf hc with hc | ⟨hc, -⟩
  · exact htable hc
  · exact hfree hc

theorem Sound.bitmapFrame (h : Sound p₀ m) (f : Nat) : m.OnBitmap f ↔ BitmapFrame p₀ f :=
  bitmapFrame_congr h.machine.table f

/-! ## The calls -/

/-- What `pmm_alloc_page` returns: 0, or the first free frame. -/
def Allocs (l : Machine) (a : U32) (l' : Machine) : Prop :=
  (a = 0 ∧ l' = l ∧ ∀ f, ¬ l.pmm.Free f) ∨ ∃ t : Frame, l.pmm.Free t.val ∧
    (∀ f < t.val, ¬ l.pmm.Free f) ∧ a = frameAddr t.val ∧ l' = l.take t

theorem Sound.allocPage (h : Sound p₀ m) :
    wp Flat.pmmAllocPage (fun a m' => Resident m' ∧ Allocs m.layer a m'.layer) (fun _ _ => False)
      m := by
  refine wp_mono ((simulates_allocContiguous ⟨rfl, h.resident⟩ 1).transfer (wp_allocPage
    (Q := Allocs m.layer) h.machine.wf (fun hno => .inl ⟨rfl, rfl, hno⟩) fun t hfree hfirst =>
      .inr ⟨t, hfree, hfirst, rfl, rfl⟩)) ?_ fun _ _ hc => hc
  rintro a m' ⟨l, -, ⟨rfl, hres⟩, hq⟩
  exact ⟨hres, hq⟩

/-- A page of the heap is no page of the bitmap. -/
theorem Sound.heapPage (h : Sound p₀ m) (hb : SafeBitmap p₀) (hlo : 0xC1000 ≤ page)
    (hhi : page < 0x100000) {g : Frame} (hg : BitmapFrame m.layer.pmm g.val) :
    ¬ SamePage (physToVirt (frameAddr g.val)) (pageAddr page) := by
  have hwin := hb.window _ ((h.bitmapFrame g.val).1 hg)
  have haddr := frameAddr_frame g
  have hphys := physToVirt_toNat (a := frameAddr g.val) (by omega)
  rw [samePage_pageAddr hhi, hphys, haddr]
  omega

theorem Sound.mapPage (h : Sound p₀ m) (hb : SafeBitmap p₀) (hlo : 0xC1000 ≤ page)
    (hhi : page < 0x100000) (phys : U32)
    (hreach : entryTarget (m.layer.tables dirFrame (slotOf (pageAddr page))) = none →
      NextTableLow m.layer) :
    wp (Flat.pagingMapPage (pageAddr page) phys PAGE_WRITABLE) (fun ok m' => Sound p₀ m' ∧
      MapsPage m.layer (pageAddr page) (pteOf phys PAGE_WRITABLE) ok m'.layer ∧
      Evolves (SamePage · (pageAddr page)) m.layer m'.layer) (fun _ _ => False) m := by
  have hslot := slotOf_pageAddr_ne hlo hhi
  refine wp_mono ((simulates_mapPage ⟨rfl, h.resident⟩ h.machine.windowed.inReach h.machine.wf
    (pageAddr page) phys PAGE_WRITABLE
    (fun hnone => (hreach hnone).inReach h.machine.windowed h.machine.fresh)
    fun g hg hv => absurd hv (h.heapPage hb hlo hhi hg)).transfer
    (machineOk_mapPage h.machine (fun hc => absurd hc hslot) hreach)) ?_ fun _ _ hc => hc
  rintro ok m' ⟨l, -, ⟨rfl, hres⟩, hmap, hok, he⟩
  exact ⟨⟨hres, hok⟩, hmap, he⟩

/-- The page goes back, and the books are what they were. -/
theorem Resident.freePage (h : Resident m) {p : Pmm} {a : U32}
    (hp : pmmFreePage a m.layer.pmm = p) (hspare : ∀ f, p.Free f → ¬ BitmapFrame m.layer.pmm f) :
    wp (Flat.pmmFreePage a) (fun _ m' => Resident m' ∧ m'.layer = { m.layer with pmm := p })
      (fun _ _ => False) m := by
  subst hp
  refine wp_mono ((simulates_freeContiguous ⟨rfl, h⟩ a 1 hspare).transfer
    (Q := fun _ l => l = { m.layer with pmm := pmmFreePage a m.layer.pmm }) rfl) ?_ fun _ _ hc => hc
  rintro _ m' ⟨l, -, ⟨rfl, hres⟩, hl⟩
  exact ⟨hres, hl⟩

/-! ## One page -/

theorem MapsPage.keepsHeld {virt pte : U32} {ok : Bool} (h : MapsPage l virt pte ok l')
    (hp : Proper entryTarget dirFrame l.tables) (hwf : l.pmm.Wf) : KeepsHeld l l' := by
  obtain ⟨_, -, hs⟩ := h.stores
  exact hs.keepsHeld hp hwf

/-- What was there is as it was. -/
structure Untouched (p₀ : Pmm) (l : Machine) (W : U32 → Prop) (m' : Machine) : Prop where
  sound : Sound p₀ m'
  evolves : Evolves W l m'.layer
  kept : KeepsHeld l m'.layer

/-- A page that could not be mapped has been taken and goes back. -/
theorem Sound.giveBack (h : Sound p₀ m) {t : Frame} (ht : m.layer.pmm.Free t.val)
    {m₁ : Machine} (hres : Resident m₁) (hquiet : (m.layer.take t).Quiet m₁.layer) :
    wp (Flat.pmmFreePage (frameAddr t.val)) (fun _ m' => Untouched p₀ m.layer W m' ∧
      m'.layer.pmm = m.layer.pmm ∧ m'.layer.phys = m.layer.phys) (fun _ _ => False) m₁ := by
  obtain ⟨hback, hok, he⟩ := h.machine.giveBack (W := W) ht hquiet
  refine wp_mono (hres.freePage hback fun f hf => ?_) ?_ fun _ _ hc => hc
  · rw [hquiet.pmm]
    change ¬ BitmapFrame (m.layer.pmm.takeRun t.val 1) f
    rw [bitmapFrame_takeRun]
    exact h.resident.spare f hf
  · rintro _ m' ⟨hres', hlayer⟩
    refine ⟨⟨⟨hres', hlayer ▸ hok⟩, hlayer ▸ he, .of_tables ?_⟩, by rw [hlayer], ?_⟩
    · rw [hlayer]
      exact hquiet.tables
    · rw [hlayer]
      exact hquiet.phys

/-- A call that was not told to fail tells what `kernelBacking` would have told. -/
def Faithful (faults : List Bool) (ok : Bool) : Prop := ok = true ∨ faults = []

/-- The page is mapped to the frame that was taken for it. -/
theorem Sound.mapTaken (h : Sound p₀ m) (hb : SafeBitmap p₀) (hlo : 0xC1000 ≤ page)
    (hhi : page < 0x100000) (faults : List Bool)
    (hlow : ¬ m.layer.HasTable page →
      m.layer.pmm.freeCount ≤ 1 ∨ 2 ≤ m.layer.pmm.freeBelow 1024)
    {t : Frame} (ht : m.layer.pmm.Free t.val) (hfirst : ∀ f < t.val, ¬ m.layer.pmm.Free f)
    {m₁ : Machine} (hres : Resident m₁) (hlayer : m₁.layer = m.layer.take t) :
    wp (Flat.backing.pagingMapPage (pageAddr page) (frameAddr t.val) PAGE_WRITABLE)
      (fun ok s => s.2 = faults.tail ∧
        ((ok = false ∧ Resident s.1 ∧ (m.layer.take t).Quiet s.1.layer ∧
          (faults = [] → m.layer.pmm.freeCount < 1 + if m.layer.HasTable page then 0 else 1)) ∨
        (ok = true ∧ GrowsPage m.layer page true s.1.layer ∧
          Untouched p₀ m.layer (InPages page 1) s.1)))
      (fun _ _ => False) (m₁, faults) := by
  have hpages : ∀ v, SamePage v (pageAddr page) → InPages page 1 v := fun v hv => by
    rw [samePage_pageAddr hhi] at hv
    exact ⟨by omega, by omega⟩
  have hwf := h.machine.wf
  have h1 : Sound p₀ m₁ := ⟨hres, hlayer ▸ h.machine.take ht⟩
  have hwf1 : (m.layer.take t).pmm.Wf := hwf.takeRun ht.lt
  have hcount : (m.layer.take t).pmm.freeCount = m.layer.pmm.freeCount - 1 :=
    Pmm.freeCount_take hwf ht hfirst
  have hbelow : (m.layer.take t).pmm.freeBelow 1024 = m.layer.pmm.freeBelow 1024 - 1 :=
    Pmm.freeBelow_take hwf ht hfirst 1024
  refine wp_faulty
    (fun hne => ⟨rfl, .inl ⟨rfl, hres, hlayer ▸ .refl _, fun hc => absurd hc hne⟩⟩) ?_
  refine wp_mono (h1.mapPage hb hlo hhi (frameAddr t.val) fun hnone => ?_) ?_ fun _ _ hc => hc
  · rw [hlayer] at hnone ⊢
    rw [nextTableLow_iff hwf1]
    have := hlow (not_not.2 hnone)
    omega
  rintro ok m2 ⟨h2, hmap, he2⟩
  refine ⟨rfl, ?_⟩
  rw [hlayer] at hmap he2
  cases ok with
  | false =>
    cases hmap with
    | kept _ hres => cases hres
    | made _ _ hres => cases hres
    | failed _ hnone hno hquiet =>
      refine .inl ⟨rfl, h2.resident, hquiet, fun _ => ?_⟩
      have hzero := (Pmm.freeCount_eq_zero hwf1).2 hno
      have hnot : ¬ m.layer.HasTable page := not_not.2 hnone
      rw [if_neg hnot]
      omega
  | true =>
    have htake : KeepsHeld m.layer (m.layer.take t) := .of_tables rfl
    have he1 := evolves_take (W := InPages page 1) hwf ht
    exact .inr ⟨rfl, growsPage_mapped h.machine ht hfirst hmap he2, h2,
      he1.trans (he2.mono hpages), htake.trans he1
        (hmap.keepsHeld h.machine.windowed.proper hwf1)⟩

/-- **The body of the loop of `heap_grow`.** -/
theorem Sound.growPage (h : Sound p₀ m) (hb : SafeBitmap p₀) (hlo : 0xC1000 ≤ page)
    (hhi : page < 0x100000) (faults : List Bool)
    (hlow : ¬ m.layer.HasTable page →
      m.layer.pmm.freeCount ≤ 1 ∨ 2 ≤ m.layer.pmm.freeBelow 1024) :
    wp (Frewozet.growPage Flat.backing (pageAddr page))
      (fun ok s => (faults = [] → s.2 = []) ∧ Untouched p₀ m.layer (InPages page 1) s.1 ∧
        (Faithful faults ok → GrowsPage m.layer page ok s.1.layer))
      (fun _ _ => False) (m, faults) := by
  have hwf := h.machine.wf
  have hdrop : ∀ l : List Bool, l = [] → l.tail = [] := fun l hl => by rw [hl]; rfl
  unfold Frewozet.growPage
  rw [wp_bind]
  refine wp_mono (wp_faulty (s := (m, faults)) (Q := fun a s => s.2 = faults.tail ∧
      Resident s.1 ∧ ((a = 0 ∧ s.1 = m ∧ faults ≠ []) ∨ Allocs m.layer a s.1.layer))
    (fun hne => ⟨rfl, h.resident, .inl ⟨rfl, rfl, hne⟩⟩)
    (wp_mono h.allocPage (fun _ _ hq => ⟨rfl, hq.1, .inr hq.2⟩) fun _ _ hc => hc)) ?_
    fun _ _ hc => hc
  rintro a ⟨m1, faults1⟩
    ⟨hf1, hres, ⟨rfl, hm, hne⟩ | ⟨rfl, hlayer, hno⟩ | ⟨t, ht, hfirst, rfl, hlayer⟩⟩
  · -- told to fail
    rw [if_pos rfl]
    dsimp only at hf1 hm
    subst hm hf1
    refine ⟨hdrop faults, ⟨h, .refl _ _, .refl _⟩, fun hc => ?_⟩
    exact absurd (hc.resolve_left (by decide)) hne
  · -- no frame
    rw [if_pos rfl]
    dsimp only at hf1 hres hlayer
    subst hf1
    refine ⟨hdrop faults, ⟨⟨hres, hlayer ▸ h.machine⟩, hlayer ▸ .refl _ _, hlayer ▸ .refl _⟩,
      fun _ => .failed rfl ?_ (by rw [hlayer]) (by rw [hlayer])⟩
    rw [(Pmm.freeCount_eq_zero hwf).2 hno]
    omega
  dsimp only at hf1 hres hlayer
  rw [if_neg (frameAddr_ne_zero t.isLt (hwf.pos ht)), wp_bind]
  refine wp_mono (h.mapTaken hb hlo hhi faults1 hlow ht hfirst hres hlayer) ?_ fun _ _ hc => hc
  rintro ok ⟨m2, faults2⟩ ⟨hf2, ⟨rfl, hres2, hquiet, hfew⟩ | ⟨rfl, hgrow, hun⟩⟩
  all_goals
    dsimp only at hf2
    have hempty : faults = [] → faults1 = [] := fun hc => hf1.trans (hdrop faults hc)
  · simp only [Bool.not_false, if_true]
    rw [wp_bind]
    change wp (zoom Prod.fst (fun m s => (m, s.2)) (Flat.pmmFreePage (frameAddr t.val))) _ _ _
    rw [wp_zoom]
    refine wp_mono (h.giveBack (W := InPages page 1) ht hres2 hquiet) ?_ fun _ _ hc => hc
    rintro _ m3 ⟨hun, hpmm, hphys⟩
    exact ⟨fun hc => hf2.trans (hdrop _ (hempty hc)), hun, fun hc =>
      .failed rfl (hfew (hempty (hc.resolve_left (by decide)))) hpmm hphys⟩
  · exact ⟨fun hc => hf2.trans (hdrop _ (hempty hc)), hun, fun _ => hgrow⟩

/-! ## All pages -/

/-- **The loop of `heap_grow`.** -/
theorem Sound.growPages (hb : SafeBitmap p₀) : ∀ (n page : Nat) (m : Machine)
    (faults : List Bool), Sound p₀ m → 0xC1000 ≤ page → page + n ≤ 0x100000 →
    m.layer.TablesLow page n →
    wp (heapGrowPages Flat.backing (pageAddr page) n)
      (fun ok s => Untouched p₀ m.layer (InPages page n) s.1 ∧
        (Faithful faults ok → Grown m.layer page n ok s.1.layer))
      (fun _ _ => False) (m, faults) := by
  intro n
  induction n with
  | zero =>
    intro page m faults h _ _ _
    have hzero := @framesNeeded_zero m.layer page
    refine ⟨⟨h, .refl _ _, .refl _⟩, fun _ => ⟨?_, fun _ => by rw [hzero, Nat.add_zero],
      fun _ q hq1 hq2 => by omega, fun _ q q' f hq1 hq2 hq3 => by omega, fun hc => by omega,
      fun hc => by omega⟩⟩
    simp [hzero]
  | succ n ih =>
    intro page m faults h hlo hhi hlow
    rw [heapGrowPages_succ, wp_bind]
    refine wp_mono (h.growPage hb hlo (by omega) faults hlow.first) ?_ fun _ _ hc => hc
    rintro ok ⟨m1, faults1⟩ ⟨hempty, ⟨h1, he1, hk1⟩, hgrow⟩
    dsimp only at hempty
    have he1' : Evolves (InPages page (n + 1)) m.layer m1.layer :=
      he1.mono fun v hv => inPages_mono (le_refl _) (by omega) v hv
    cases ok with
    | false => exact ⟨⟨h1, he1', hk1⟩, fun hc => .failed (hgrow hc)⟩
    | true =>
      have hgrow := hgrow (.inl rfl)
      rw [if_pos rfl, pageAddr_add]
      have hlow' : m1.layer.TablesLow (page + 1) n := by
        cases hgrow with
        | failed hres => cases hres
        | mapped t _ _ _ _ _ _ _ hdir hcount hbelow => exact hlow.rest hdir hcount hbelow
      refine wp_mono (ih (page + 1) m1 faults1 h1 (by omega) (by omega) hlow') ?_ fun _ _ hc => hc
      rintro ok' ⟨m2, faults2⟩ ⟨⟨h2, he2, hk2⟩, hrest⟩
      exact ⟨⟨h2, he1'.trans (he2.mono fun v hv => inPages_mono (by omega) (by omega) v hv),
        hk1.trans he1 hk2⟩, fun hok => .cons hhi hgrow he1 (hrest (hok.imp id hempty)) he2⟩

end

end Frewozet
