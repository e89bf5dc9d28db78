import Frewozet.Heap.Runs

/-!
# Where payloads begin

The heap is a row of regions.  Each begins on a page, and is served from its end: of its
blocks only the last can be free.  A header is 12 bytes long and every block but the last
holds a multiple of 16, so where a payload lies modulo 16 says how many blocks there are
before it in its region.

* `Region` — the blocks of a region, with that shape.
* `Regions m rs` — the heap is made of these regions.
* `Region.residue` — **the payload of the last block** of a region.
* `Regions.step`, `Regions.run` — every step keeps the regions.
* `heap_alignment_iff` — **which pointers are aligned**: in a region every fourth one is
  a multiple of 16.
-/

namespace Frewozet

open Word Exec Tiling

/-! ## A region -/

/-- A new region ends on a page. -/
theorem regionBlock_ends {m : Memory} {size : U32} (h : m.heapVirtualCurrent.toNat % 4096 = 0) :
    (regionBlock m size).stop % 4096 = 0 := by
  have hpages := (growPages_bounds size).1
  change (m.heapVirtualCurrent.toNat + 12 + ((growPages size).toNat * 4096 - 12)) % 4096 = 0
  omega

/-- The blocks of a region: the ones before the last are used. -/
structure Region where
  front : List Block
  last : Block
  used : ∀ b ∈ front, b.free = false ∧ b.size % 16 = 0
  tiles : ∃ page, BlockTiles (page * 4096) last.addr front
  ends : last.stop % 4096 = 0

namespace Region

def blocks (r : Region) : List Block := r.front ++ [r.last]

/-- How many blocks there are. -/
def count (r : Region) : Nat := r.front.length + 1

/-- A header and a payload at a time, the blocks go on by 12 modulo 16. -/
theorem tiles_residue : ∀ {bs : List Block} {lo hi : Nat}, BlockTiles lo hi bs →
    (∀ b ∈ bs, b.size % 16 = 0) → hi % 16 = (lo + 12 * bs.length) % 16 := by
  intro bs
  induction bs with
  | nil =>
    intro lo hi h _
    have heq : lo = hi := h
    rw [heq]
    rfl
  | cons b bs ih =>
    rintro lo hi ⟨h1, -, h3⟩ hsize
    have hrest := ih h3 fun c hc => hsize c (List.mem_cons_of_mem b hc)
    have hb := hsize b List.mem_cons_self
    have hstop : b.stop = b.addr + 12 + b.size := rfl
    rw [List.length_cons]
    omega

/-- **The payload of the last block.** -/
theorem residue (r : Region) : (r.last.addr + 12) % 16 = 12 * r.count % 16 := by
  obtain ⟨page, htiles⟩ := r.tiles
  have h := tiles_residue htiles fun b hb => (r.used b hb).2
  unfold count
  omega

/-- Only the last block can fit. -/
theorem find_blocks (r : Region) (size : Nat) :
    r.blocks.find? (Block.fits size) = if r.last.fits size then some r.last else none := by
  have hfront : r.front.find? (Block.fits size) = none :=
    List.find?_eq_none.2 fun b hb => by simp [Block.fits, (r.used b hb).1]
  rw [blocks, List.find?_append, hfront, Option.none_or, List.find?_singleton]

section

variable (r : Region) {size : Nat}

theorem used_split (h16 : size % 16 = 0) : ∀ b ∈ r.front ++ [⟨r.last.addr, size, false⟩],
    b.free = false ∧ b.size % 16 = 0 := by
  intro b hb
  rcases List.mem_append.1 hb with hb | hb
  · exact r.used b hb
  · rw [List.mem_singleton.1 hb]
    exact ⟨rfl, h16⟩

theorem tiles_split : ∃ page, BlockTiles (page * 4096) (r.last.addr + 12 + size)
    (r.front ++ [⟨r.last.addr, size, false⟩]) := by
  obtain ⟨page, htiles⟩ := r.tiles
  refine ⟨page, htiles.snoc rfl ?_ rfl⟩
  rw [Nat.add_assoc]
  exact Nat.le_add_right _ _

theorem ends_split (h : ¬ r.last.size ≤ size + 28) :
    Block.stop ⟨r.last.addr + 12 + size, r.last.size - size - 12, true⟩ % 4096 = 0 := by
  have hends : (r.last.addr + 12 + r.last.size) % 4096 = 0 := r.ends
  change (r.last.addr + 12 + size + 12 + (r.last.size - size - 12)) % 4096 = 0
  omega

/-- The last block is used for a request. -/
def take (h16 : size % 16 = 0) : Region :=
  if h : r.last.size ≤ size + 28 then
    ⟨r.front, { r.last with free := false }, r.used, r.tiles, r.ends⟩
  else
    ⟨r.front ++ [⟨r.last.addr, size, false⟩],
      ⟨r.last.addr + 12 + size, r.last.size - size - 12, true⟩,
      r.used_split h16, r.tiles_split, r.ends_split h⟩

theorem blocks_take (h16 : size % 16 = 0) : (r.take h16).blocks = r.front ++ r.last.taken size := by
  unfold take blocks Block.taken
  by_cases h : r.last.size ≤ size + 28
  · rw [dif_pos h, if_pos h]
  · rw [dif_neg h, if_neg h, List.append_assoc]
    rfl

end

end Region

/-! ## The heap as regions -/

/-- The heap is made of the regions. -/
abbrev Regions (m : Memory) (rs : List Region) : Prop := HeapOk m (rs.flatMap Region.blocks)

/-- The number of blocks of the region that serves a request: the first one whose last
block fits, or a new one. -/
def servingBlocks (rs : List Region) (size : Nat) : Nat :=
  match rs.find? fun r => r.last.fits size with
  | some r => r.count
  | none => 1

theorem find_regions (size : Nat) : ∀ rs : List Region,
    (rs.flatMap Region.blocks).find? (Block.fits size) =
      (rs.find? fun r => r.last.fits size).map Region.last := by
  intro rs
  induction rs with
  | nil => rfl
  | cons r rs ih =>
    rw [List.flatMap_cons, List.find?_append, r.find_blocks, List.find?_cons]
    by_cases hr : r.last.fits size = true
    · rw [if_pos hr, hr]
      rfl
    · rw [if_neg hr, Bool.eq_false_iff.2 hr, Option.none_or, ih]

/-- The place of the first element with a property. -/
theorem first_unique {α : Type} {p : α → Bool} {b c : α} {ys zs : List α} (hb : p b = true)
    (hc : p c = true) : ∀ {xs ws : List α}, (∀ x ∈ xs, p x = false) → (∀ w ∈ ws, p w = false) →
      xs ++ b :: ys = ws ++ c :: zs → xs = ws ∧ b = c ∧ ys = zs := by
  intro xs
  induction xs with
  | nil =>
    intro ws _ hws h
    cases ws with
    | nil => exact ⟨rfl, List.cons.inj h⟩
    | cons w ws =>
      obtain ⟨rfl, -⟩ := List.cons.inj h
      rw [hws b List.mem_cons_self] at hb
      cases hb
  | cons x xs ih =>
    intro ws hxs hws h
    cases ws with
    | nil =>
      obtain ⟨rfl, -⟩ := List.cons.inj h
      rw [hxs x List.mem_cons_self] at hc
      cases hc
    | cons w ws =>
      obtain ⟨rfl, hrest⟩ := List.cons.inj h
      obtain ⟨rfl, hsame⟩ := ih (fun y hy => hxs y (List.mem_cons_of_mem x hy))
        (fun y hy => hws y (List.mem_cons_of_mem x hy)) hrest
      exact ⟨rfl, hsame⟩

section

variable {σ : Type} {B : Backing σ} {m : Memory} {rs : List Region} {s : σ}

/-- The heap ends on a page. -/
theorem HeapAt.page (h : HeapAt m (rs.flatMap Region.blocks)) :
    m.heapVirtualCurrent.toNat % 4096 = 0 := by
  have htiles := h.tiles
  rcases List.eq_nil_or_concat rs with rfl | ⟨front, r, rfl⟩
  · have heq : 0xC1000000 = m.heapVirtualCurrent.toNat := htiles
    rw [← heq]
  · rw [List.concat_eq_append, List.flatMap_append, List.flatMap_singleton, Region.blocks,
      ← List.append_assoc] at htiles
    obtain ⟨-, -, hend⟩ := tiles_around.1 htiles
    have heq : r.last.stop = m.heapVirtualCurrent.toNat := hend
    rw [← heq]
    exact r.ends

/-- A region that has just been added. -/
def newRegion (m : Memory) (size : U32) (hpage : m.heapVirtualCurrent.toNat % 4096 = 0) :
    Region where
  front := []
  last := regionBlock m size
  used := fun _ hb => absurd hb List.not_mem_nil
  tiles := ⟨m.heapVirtualCurrent.toNat / 4096, Nat.div_mul_cancel (Nat.dvd_of_mod_eq_zero hpage)⟩
  ends := regionBlock_ends hpage

theorem regions_snoc {size : U32} (hpage : m.heapVirtualCurrent.toNat % 4096 = 0) :
    (rs ++ [newRegion m size hpage]).flatMap Region.blocks =
      rs.flatMap Region.blocks ++ [regionBlock m size] := by
  rw [List.flatMap_append, List.flatMap_singleton]
  rfl

/-- **A request is served from the end of a region.** -/
theorem Serves.regions {size p : U32} {m' : Memory}
    (hs : Serves m (rs.flatMap Region.blocks) size p m')
    (h : HeapAt m (rs.flatMap Region.blocks)) (h16 : size.toNat % 16 = 0) :
    p.toNat % 16 = 12 * servingBlocks rs size.toNat % 16 ∧
      ∃ rs' : List Region, HeapAt m' (rs'.flatMap Region.blocks) := by
  obtain ⟨xs, b, ys, vmem, hlist, hfirst, hfits, hptr, -, hheap, -⟩ := hs
  have hin := h.inWindow (b := b) (by rw [hlist]; simp)
  have hfind := find_regions size.toNat rs
  rw [hlist, List.find?_append, List.find?_eq_none.2 (fun c hc => by simp [hfirst c hc]),
    Option.none_or, List.find?_cons, hfits] at hfind
  obtain ⟨r, hr, hlast⟩ := Option.map_eq_some_iff.1 hfind.symm
  obtain ⟨hrfits, rs₁, rs₂, hrs, hrs₁⟩ := List.find?_eq_some_iff_append.1 hr
  constructor
  · rw [servingBlocks, hr, hptr, hin.payload_toNat, ← hlast]
    exact r.residue
  · -- the region takes the place of the one it was
    refine ⟨rs₁ ++ r.take h16 :: rs₂, ?_⟩
    have hsplit : xs ++ b :: ys = (rs₁.flatMap Region.blocks ++ r.front) ++ r.last ::
        rs₂.flatMap Region.blocks := by
      rw [← hlist, hrs, List.flatMap_append, List.flatMap_cons, Region.blocks]
      simp
    have hnone : ∀ c ∈ rs₁.flatMap Region.blocks ++ r.front, c.fits size.toNat = false := by
      have hno : rs₁.find? (fun r => r.last.fits size.toNat) = none :=
        List.find?_eq_none.2 fun q hq => by simpa using hrs₁ q hq
      have hbefore := find_regions size.toNat rs₁
      rw [hno, Option.map_none, List.find?_eq_none] at hbefore
      intro c hc
      rcases List.mem_append.1 hc with hc | hc
      · simpa using hbefore c hc
      · rw [Block.fits, (r.used c hc).1, Bool.false_and]
    obtain ⟨rfl, rfl, rfl⟩ := first_unique hfits hrfits hfirst hnone hsplit
    have hblocks : (rs₁ ++ r.take h16 :: rs₂).flatMap Region.blocks =
        rs₁.flatMap Region.blocks ++ r.front ++ r.last.taken size.toNat ++
          rs₂.flatMap Region.blocks := by
      rw [List.flatMap_append, List.flatMap_cons, r.blocks_take]
      simp
    rw [hblocks]
    exact hheap

/-- Where there is no room, a new region serves the request, with its one block. -/
theorem servingBlocks_grown (size : U32) (hpage : m.heapVirtualCurrent.toNat % 4096 = 0) {n : Nat}
    (h : ∀ b ∈ rs.flatMap Region.blocks, b.fits n = false) :
    servingBlocks rs n = 1 ∧ servingBlocks (rs ++ [newRegion m size hpage]) n = 1 := by
  have hno : rs.find? (fun r => r.last.fits n) = none := by
    rw [← Option.map_eq_none_iff, ← find_regions]
    exact List.find?_eq_none.2 fun b hb => by simp [h b hb]
  unfold servingBlocks
  rw [List.find?_append, hno, Option.none_or, List.find?_singleton]
  refine ⟨rfl, ?_⟩
  split <;> rename_i hfind
  · split at hfind
    · rw [← Option.some.inj hfind]
      rfl
    · cases hfind
  · rfl

theorem alignUpSize_mod (size : U32) :
    (alignUpSize size MEMORY_DEFAULT_ALIGNMENT).toNat % 16 = 0 := by
  have h := alignUp_mod isPow2_defaultAlignment size
  rw [← alignUpSize_eq] at h
  exact h

/-- A call of `kmalloc` once the backend is enabled: the heap is made of regions again,
and where the payload lies. -/
theorem kmalloc_regions (h : Regions m rs) (he : m.memoryPmmBackendEnabled = true) (size : U32) :
    wp (kmalloc B size)
      (fun p t => ∃ rs', Regions t.1 rs' ∧
        Malloced (rs.flatMap Region.blocks) (alignUpSize size MEMORY_DEFAULT_ALIGNMENT).toNat p
          (rs'.flatMap Region.blocks) ∧
        (p ≠ 0 → p.toNat % 16 = 12 *
          servingBlocks rs (alignUpSize size MEMORY_DEFAULT_ALIGNMENT).toNat % 16))
      (fun _ t => t.1 = m) (m, s) := by
  by_cases h0 : size = 0
  · subst h0
    exact ⟨rs, h, .null rfl (.inl rfl), fun hp => absurd rfl hp⟩
  have h16 := alignUpSize_mod size
  refine wp_mono (wp_and (kmalloc_enabled h he size) (kmalloc_spec h.heap he h0)) ?_
    fun _ _ hc => hc.1
  rintro p t ⟨⟨-, bs', hok, hmalloced⟩, hm⟩
  generalize alignUpSize size MEMORY_DEFAULT_ALIGNMENT = n at h16 hmalloced hm ⊢
  have hpage := h.heap.page
  -- whatever the regions are, they are the list
  have hdone : ∀ rs' : List Region, HeapAt t.1 (rs'.flatMap Region.blocks) →
      (p ≠ 0 → p.toNat % 16 = 12 * servingBlocks rs n.toNat % 16) →
      ∃ rs', Regions t.1 rs' ∧
        Malloced (rs.flatMap Region.blocks) n.toNat p (rs'.flatMap Region.blocks) ∧
        (p ≠ 0 → p.toNat % 16 = 12 * servingBlocks rs n.toNat % 16) := by
    intro rs' hheap hres
    obtain rfl := hok.heap.unique hheap
    exact ⟨rs', hok, hmalloced, hres⟩
  cases hm with
  | served hserves _ =>
    obtain ⟨hres, rs', hheap⟩ := hserves.regions h.heap h16
    exact hdone rs' hheap fun _ => hres
  | failed _ hgrow hres =>
    obtain ⟨-, hmem, -⟩ := hgrow.heap h.heap
    refine hdone rs ?_ fun hp => absurd hres hp
    rw [hmem rfl]
    exact h.heap
  | grown hnone m₁ hgrow hserves =>
    obtain ⟨-, -, hheap⟩ := hgrow.heap h.heap
    have hgrown := hheap rfl
    rw [← regions_snoc hpage] at hgrown hserves
    obtain ⟨hres, rs', hheap'⟩ := hserves.regions hgrown h16
    obtain ⟨hold, hnew⟩ := servingBlocks_grown n hpage hnone
    exact hdone rs' hheap' fun _ => by rw [hres, hnew, hold]
  | missed _ hgrow _ hres =>
    obtain ⟨-, -, hheap⟩ := hgrow.heap h.heap
    refine hdone (rs ++ [newRegion m n hpage]) ?_ fun hp => absurd hres hp
    rw [regions_snoc]
    exact hheap rfl

/-! ## Every step keeps the regions -/

/-- However it was reached, a heap has one list, and with it its regions. -/
theorem regions_of_heapAt {m' : Memory} (hadv : Advances (rs.flatMap Region.blocks) m')
    (rs' : List Region) (h : HeapAt m' (rs'.flatMap Region.blocks)) :
    ∃ rs', Regions m' rs' := by
  obtain ⟨bs', hok, -⟩ := hadv
  obtain rfl := hok.heap.unique h
  exact ⟨rs', hok⟩

theorem enable_regions (h : Regions m rs) :
    wp (memoryEnablePmmBackend B) (fun _ t => ∃ rs', Regions t.1 rs') (fun _ _ => True) (m, s) := by
  refine wp_mono (wp_and h.enable (memoryEnablePmmBackend_spec h.heap)) ?_ fun _ _ _ => trivial
  rintro _ t ⟨hadv, hen⟩
  have hh := h.heap
  cases hen with
  | already _ hmem _ => exact ⟨rs, hmem ▸ h⟩
  | failed m₁ _ hgrow hmem =>
    obtain ⟨-, hm₁, -⟩ := hgrow.heap hh
    rw [hm₁ rfl] at hmem
    refine regions_of_heapAt hadv rs ?_
    rw [hmem]
    exact ⟨hh.head, hh.chain, hh.tiles, hh.limit, hh.committed⟩
  | done m₁ _ hgrow hmem =>
    obtain ⟨-, -, hgrown⟩ := hgrow.heap hh
    have hg := hgrown rfl
    rw [← regions_snoc hh.page] at hg
    refine regions_of_heapAt hadv (rs ++ [newRegion m 1 hh.page]) ?_
    rw [hmem]
    exact ⟨hg.head, hg.chain, hg.tiles, hg.limit, hg.committed⟩

/-- A request once the backend is enabled. -/
theorem call_regions (h : Regions m rs) (he : m.memoryPmmBackendEnabled = true) (r : Request)
    (hwf : r.Wf) (hsafe : r.Safe m) :
    wp (r.call B) (fun _ t => ∃ rs', Regions t.1 rs') (fun _ _ => True) (m, s) := by
  cases r with
  | kmalloc size =>
    refine wp_mono (kmalloc_regions h he size) ?_ fun _ _ _ => trivial
    rintro p t ⟨rs', hok, -⟩
    exact ⟨rs', hok⟩
  | kcalloc num size =>
    have hwrap : num.toNat * size.toNat ≤ 0xFFFFFFF0 := hsafe he
    refine wp_kcalloc (fun _ => ⟨rs, h⟩) fun total hinner => ?_
    have htotal := inner_kcalloc hinner
    refine wp_mono (kmalloc_regions h he total) ?_ fun _ _ _ => trivial
    rintro p t ⟨rs', hok, hm, -⟩
    refine ⟨fun _ => ⟨rs', hok⟩, fun hp => ?_⟩
    exact wp_mono (hm.memset hp hok (alignUpSize_ge (by omega))) (fun _ _ hok' => ⟨rs', hok'⟩)
      fun _ _ _ => trivial
  | kmallocAligned size alignment =>
    have hfit : if alignment ≤ MEMORY_DEFAULT_ALIGNMENT then size.toNat ≤ 0xFFFFFFF0
      else size.toNat + alignment.toNat + 4 ≤ 0xFFFFFFF0 := hsafe he
    refine wp_kmallocAligned (fun _ => ⟨rs, h⟩) (fun _ hdis => ?_) (fun _ _ _ => ?_)
      fun _ _ ha => ?_
    · rw [he] at hdis
      cases hdis
    · refine wp_mono (kmalloc_regions h he size) ?_ fun _ _ _ => trivial
      rintro p t ⟨rs', hok, -⟩
      exact ⟨rs', hok⟩
    · rw [if_neg ha] at hfit
      have hsum : (size + (alignment + 4)).toNat = size.toNat + alignment.toNat + 4 := by
        rw [BitVec.toNat_add, BitVec.toNat_add, show (4 : U32).toNat = 4 from rfl]
        omega
      refine wp_mono (kmalloc_regions h he _) ?_ fun _ _ _ => trivial
      rintro raw t ⟨rs', hok, hm, -⟩
      refine ⟨fun _ => ⟨rs', hok⟩, fun hp => ?_⟩
      have hge := @alignUpSize_ge (size + (alignment + 4)) (by rw [hsum]; exact hfit)
      rw [hsum] at hge
      split
      · exact ⟨rs', (hm.aligned hp hok hwf hge).1⟩
      · trivial

end

/-- Before the backend is enabled there are no regions, and no request makes one. -/
theorem call_disabled {σ : Type} {B : Backing σ} {m : Memory} {s : σ}
    (he : m.memoryPmmBackendEnabled = false) (r : Request) :
    wp (r.call B) (fun _ t => t.1.memoryPmmBackendEnabled = false)
      (fun _ t => t.1.memoryPmmBackendEnabled = false) (m, s) := by
  refine r.call_keeps (P := fun m _ => m.memoryPmmBackendEnabled = false)
    (fun _ _ _ h => h) he ?_ fun hc => absurd (hc.symm.trans he) (by decide)
  rintro - n p m' (⟨-, rfl⟩ | ⟨k, rfl, -⟩)
  · exact he
  · exact he

theorem regions_nil {m : Memory} {bs : List Block} (h : HeapOk m bs)
    (he : m.memoryPmmBackendEnabled = false) : Regions m [] := by
  have hnil : bs = [] := by
    by_contra hne
    have := h.enabled.2 hne
    rw [he] at this
    cases this
  subst hnil
  exact h

/-- **One step keeps the regions.** -/
theorem Regions.step {m m' : Memory} {rs : List Region} (h : Regions m rs) (hs : HeapStep m m') :
    ∃ rs', Regions m' rs' := by
  have hadv := HeapOk.step h hs
  cases hs with
  | enable B s s' _ hcall => exact wp_ret (enable_regions h) hcall
  | request B s s' r p _ hwf hsafe hcall =>
    cases he : m.memoryPmmBackendEnabled with
    | true => exact wp_ret (call_regions h he r hwf hsafe) hcall
    | false =>
      obtain ⟨bs', hok, -⟩ := hadv
      have hoff := wp_ret (call_disabled he r) hcall
      exact ⟨[], regions_nil hok hoff⟩
  | write _ hw => exact ⟨rs, h.callerWrites hw⟩

/-- **So does every run.** -/
theorem regions_run {info : E820Info} {k : KernelImage} {vmem : Mem} {m : Memory}
    (hrun : HeapReaches (boot info k vmem).memory m) : ∃ rs, Regions m rs := by
  induction hrun with
  | refl => exact ⟨[], heapOk_boot info k vmem⟩
  | tail _ hstep ih =>
    obtain ⟨rs, h⟩ := ih
    exact Regions.step h hstep

/-! ## The pointers -/

section

variable {σ : Type} {B : Backing σ} {m : Memory} {rs : List Region} {s : σ}

/-- The bootstrap heap aligns what it returns. -/
theorem bootstrapAlloc_aligned (size : U32) {alignment : U32} (hpow : IsPow2 alignment) :
    wp (bootstrapAlloc size alignment) (fun p _ => alignment.toNat ∣ p.toNat) (fun _ _ => False)
      (m, s) := by
  have hne : alignment ≠ 0 := by
    rintro rfl
    exact absurd hpow.pos (by decide)
  unfold wp bootstrapAlloc
  dsimp only
  rcases bootstrapAllocAligned_spec size alignment m with hr | ⟨p, hr, hp, -⟩
  · rw [hr]
    exact Nat.dvd_zero _
  · rw [hr]
    rw [if_neg hne, alignUpU32_eq hne] at hp
    rw [hp]
    exact Nat.dvd_of_mod_eq_zero (alignUp_mod hpow _)

/-- A power of two up to 16 divides an address exactly if it divides four times the number
of blocks. -/
theorem pow2_dvd_iff {a p n : Nat} (ha : ∃ k, a = 2 ^ k) (hle : a ≤ 16)
    (hp : p % 16 = 12 * n % 16) : a ∣ p ↔ a ∣ 4 * n := by
  obtain ⟨k, rfl⟩ := ha
  have hk : k ≤ 4 := (Nat.pow_le_pow_iff_right (a := 2) (by decide)).1 hle
  obtain rfl | rfl | rfl | rfl | rfl : k = 0 ∨ k = 1 ∨ k = 2 ∨ k = 3 ∨ k = 4 := by omega
  all_goals omega

theorem kmalloc_aligned_iff (h : Regions m rs) (size : U32) :
    wp (kmalloc B size)
      (fun p _ => p ≠ 0 → (MEMORY_DEFAULT_ALIGNMENT.toNat ∣ p.toNat ↔
        (m.memoryPmmBackendEnabled = true →
          4 ∣ servingBlocks rs (alignUpSize size MEMORY_DEFAULT_ALIGNMENT).toNat)))
      (fun _ _ => True) (m, s) := by
  cases he : m.memoryPmmBackendEnabled with
  | true =>
    refine wp_mono (kmalloc_regions h he size) ?_ fun _ _ _ => trivial
    rintro p t ⟨-, -, -, hres⟩ hp
    have h16 : MEMORY_DEFAULT_ALIGNMENT.toNat = 16 := rfl
    have hmod := hres hp
    rw [h16]
    refine ⟨fun hdvd _ => by omega, fun hall => ?_⟩
    have hfour := hall rfl
    omega
  | false =>
    unfold kmalloc
    by_cases h0 : size = 0
    · rw [if_pos h0]
      exact fun hp => absurd rfl hp
    · rw [if_neg h0]
      dsimp only
      rw [wp_bind, wp_getMemory, if_pos (by simp [he])]
      refine wp_mono (bootstrapAlloc_aligned _ isPow2_defaultAlignment) ?_ fun _ _ hc => hc.elim
      exact fun p _ hdvd _ => iff_of_true hdvd fun hc => by cases hc

theorem kmallocAligned_aligned_iff (h : Regions m rs) (size : U32) {alignment : U32}
    (hpow : IsPow2 alignment) :
    wp (kmallocAligned B size alignment)
      (fun p _ => p ≠ 0 → (alignment.toNat ∣ p.toNat ↔
        (m.memoryPmmBackendEnabled = true → alignment ≤ MEMORY_DEFAULT_ALIGNMENT →
          alignment.toNat ∣
            4 * servingBlocks rs (alignUpSize size MEMORY_DEFAULT_ALIGNMENT).toNat)))
      (fun _ _ => True) (m, s) := by
  refine wp_kmallocAligned (fun _ hp => absurd rfl hp) (fun _ he => ?_) (fun _ he ha => ?_)
    fun _ _ ha => ?_
  · refine wp_mono (bootstrapAlloc_aligned _ hpow) ?_ fun _ _ hc => hc.elim
    exact fun p _ hdvd _ => iff_of_true hdvd fun hc => by rw [he] at hc; cases hc
  · refine wp_mono (kmalloc_regions h he size) ?_ fun _ _ _ => trivial
    rintro p t ⟨-, -, -, hres⟩ hp
    obtain ⟨k, -, hk⟩ := hpow
    rw [pow2_dvd_iff ⟨k, hk⟩ (BitVec.le_def.1 ha) (hres hp)]
    exact ⟨fun hdvd _ _ => hdvd, fun hall => hall he ha⟩
  · -- the pointer is rounded up, wherever the block lies
    refine wp_mono wp_trivial ?_ fun _ _ _ => trivial
    rintro raw t -
    refine ⟨fun _ hp => absurd rfl hp, fun _ => ?_⟩
    split
    · exact fun _ => iff_of_true (Nat.dvd_of_mod_eq_zero (alignUp_mod hpow _)) fun _ hc =>
        absurd hc ha
    · trivial

end

/-- The region of the heap that has just been enabled. -/
def firstRegion : Region where
  front := []
  last := ⟨0xC1000000, 0x3FF4, true⟩
  used := fun _ hb => absurd hb List.not_mem_nil
  tiles := ⟨0xC1000, rfl⟩
  ends := rfl

theorem regions_enabledHeap : Regions enabledHeap [firstRegion] := enable_plentiful.2

end Frewozet
