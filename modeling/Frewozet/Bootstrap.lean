import Frewozet.Base.Bytes
import Frewozet.Platform
import Mathlib.Order.Interval.Set.Defs
import Mathlib.Data.Set.Basic

/-!
# `memory.c`, first half: the bootstrap heap

The statics of `memory.c`, how `memory_init` sets the bootstrap heap up from the
E820 table, and the bump allocator `bootstrap_alloc_aligned` that serves every
request until the frame allocator takes over.

* `Memory` — the statics, with the bytes the kernel sees at its own virtual
  addresses.  `bootRanges` is a ghost: every range the bootstrap heap has handed
  out, for the statements that are about all of them.
* `memoryInit`, `bootstrapAllocAligned` — the code.
* `memoryInit_bounds` — the heap starts at the kernel end, rounded up, and never
  reaches past the 4 MiB the loader mapped.
* `bootstrapAllocAligned_spec` — what a call can do.
* `bootCalls`, `bootGrants` — any number of calls, and what they return.
* `bootstrap_heap` — **every range lies between the kernel and 4 MiB, at its alignment
  and apart from all others**.
-/

namespace Frewozet

open Word

def MEMORY_DEFAULT_ALIGNMENT : U32 := 16
def MEMORY_HEAP_GROW_PAGES : U32 := 4
def MEMORY_MIN_SPLIT : U32 := 16
def EARLY_MAPPED_PHYS_LIMIT : U32 := 0x00400000
def KERNEL_HEAP_START : U32 := 0xC1000000
def KERNEL_HEAP_END : U32 := 0xE0000000

/-- The statics of `memory.c` and the memory its pointers point into. -/
structure Memory where
  /-- The bytes at the kernel's virtual addresses. -/
  vmem : Mem
  bootstrapHeapStart : U32 := 0
  bootstrapHeapCurrent : U32 := 0
  bootstrapHeapLimit : U32 := 0
  /-- Address of the first `heap_block_t`, 0 when there is none. -/
  heapHead : U32 := 0
  memoryPmmBackendEnabled : Bool := false
  heapVirtualCurrent : U32 := KERNEL_HEAP_START
  heapCommittedBytes : U32 := 0
  /-- What `logStartupError` was called with, in order. -/
  startupErrors : List String := []
  /-- Ghost: the ranges `bootstrap_alloc_aligned` returned, as start and size. -/
  bootRanges : List (U32 × U32) := []

/-- `align_up_u32` of `memory.c`, which lets an alignment of 0 through. -/
def alignUpU32 (value alignment : U32) : U32 :=
  if alignment = 0 then value
  else
    let mask := alignment - 1
    (value + mask) &&& ~~~mask

/-- `align_up_size`. -/
def alignUpSize (value alignment : U32) : U32 :=
  let mask := alignment - 1
  (value + mask) &&& ~~~mask

theorem alignUpU32_eq {v a : U32} (ha : a ≠ 0) : alignUpU32 v a = alignUp v a := by
  rw [alignUpU32, if_neg ha, alignUp]

theorem alignUpSize_eq (v a : U32) : alignUpSize v a = alignUp v a := rfl

theorem isPow2_defaultAlignment : IsPow2 MEMORY_DEFAULT_ALIGNMENT :=
  isPow2_of_eq (k := 4) (by decide) (by decide)

/-! ## Setting it up -/

/-- The body of the loop of `find_bootstrap_region`: what one entry has to offer. -/
def bootstrapRegionOf (kernelEndPhys : U32) (entry : E820Entry) : Option (U32 × U32) :=
  if entry.type ≠ 1 ∨ entry.base ≥ 0x100000000#64 then none
  else if kernelEndPhys ≥ entry.base32 ∧ kernelEndPhys < entry.end32 then
    let start := alignUpU32 kernelEndPhys MEMORY_DEFAULT_ALIGNMENT
    if start < entry.end32 then some (start, entry.end32) else none
  else none

/-- `find_bootstrap_region`: start and limit from the first entry that fits. -/
def findBootstrapRegion (info : E820Info) (kernelEndPhys : U32) : Option (U32 × U32) :=
  if !ramMapperAvailable info then none
  else info.entries.findSome? (bootstrapRegionOf kernelEndPhys)

/-- The statics `memory_init` sets, from physical bounds. -/
def Memory.setBootstrap (m : Memory) (startPhys limitPhys : U32) : Memory :=
  { m with
    bootstrapHeapStart := physToVirt startPhys
    bootstrapHeapCurrent := physToVirt startPhys
    bootstrapHeapLimit := physToVirt limitPhys }

/-- A limit, held at `EARLY_MAPPED_PHYS_LIMIT`. -/
def clampLimit (limit : U32) : U32 :=
  if limit > EARLY_MAPPED_PHYS_LIMIT then EARLY_MAPPED_PHYS_LIMIT else limit

/-- The physical bounds `memory_init` settles on. -/
def bootstrapBounds (info : E820Info) (k : KernelImage) : U32 × U32 :=
  let start := alignUpU32 k.endPhys MEMORY_DEFAULT_ALIGNMENT
  match findBootstrapRegion info k.endPhys with
  | some (heapStart, heapLimit) =>
    if heapStart ≥ clampLimit heapLimit then (start, EARLY_MAPPED_PHYS_LIMIT)
    else (heapStart, clampLimit heapLimit)
  | none => (start, EARLY_MAPPED_PHYS_LIMIT)

/-- `memory_init`, from statics that still hold their initial values. -/
def memoryInit (info : E820Info) (k : KernelImage) (vmem : Mem) : Memory :=
  let bounds := bootstrapBounds info k
  ({ vmem } : Memory).setBootstrap bounds.1 bounds.2

/-! ## Allocating from it -/

/-- `bootstrap_alloc_aligned`: the pointer, 0 for failure. -/
def bootstrapAllocAligned (size alignment : U32) (m : Memory) : U32 × Memory :=
  if size = 0 then (0, m)
  else
    let alignment := if alignment = 0 then MEMORY_DEFAULT_ALIGNMENT else alignment
    let aligned := alignUpU32 m.bootstrapHeapCurrent alignment
    if aligned < m.bootstrapHeapCurrent then (0, m)
    else if aligned + size < aligned then (0, m)
    else if aligned + size > m.bootstrapHeapLimit then (0, m)
    else
      (aligned, { m with
        bootstrapHeapCurrent := aligned + size
        bootRanges := (aligned, size) :: m.bootRanges })

/-- `kmalloc_aligned` as long as `memory_pmm_backend_enabled` is 0. -/
def bootstrapKmallocAligned (size alignment : U32) (m : Memory) : U32 × Memory :=
  if size = 0 then (0, m) else bootstrapAllocAligned size alignment m

/-- **What an allocation can do.**  Either it fails and nothing changes, or the
range it returns starts at or above the cursor, ends at the new cursor without
wrapping, and stays below the limit. -/
theorem bootstrapAllocAligned_spec (size alignment : U32) (m : Memory) :
    bootstrapAllocAligned size alignment m = (0, m) ∨
    ∃ p, bootstrapAllocAligned size alignment m =
        (p, { m with bootstrapHeapCurrent := p + size, bootRanges := (p, size) :: m.bootRanges }) ∧
      p = alignUpU32 m.bootstrapHeapCurrent
        (if alignment = 0 then MEMORY_DEFAULT_ALIGNMENT else alignment) ∧
      0 < size.toNat ∧ m.bootstrapHeapCurrent.toNat ≤ p.toNat ∧
      (p + size).toNat = p.toNat + size.toNat ∧
      p.toNat + size.toNat ≤ m.bootstrapHeapLimit.toNat := by
  unfold bootstrapAllocAligned
  by_cases h0 : size = 0
  · rw [if_pos h0]; exact .inl rfl
  rw [if_neg h0]
  have hpos : 0 < size.toNat :=
    Nat.pos_of_ne_zero fun h => h0 (BitVec.eq_of_toNat_eq (by simpa using h))
  simp only
  generalize hp : alignUpU32 m.bootstrapHeapCurrent
    (if alignment = 0 then MEMORY_DEFAULT_ALIGNMENT else alignment) = p
  by_cases h1 : p < m.bootstrapHeapCurrent
  · rw [if_pos h1]; exact .inl rfl
  rw [if_neg h1]
  by_cases h2 : p + size < p
  · rw [if_pos h2]; exact .inl rfl
  rw [if_neg h2]
  by_cases h3 : p + size > m.bootstrapHeapLimit
  · rw [if_pos h3]; exact .inl rfl
  rw [if_neg h3]
  simp only [gt_iff_lt, BitVec.lt_def, BitVec.toNat_add, not_lt] at h1 h2 h3
  have hsum : (p + size).toNat = p.toNat + size.toNat := by
    have := p.isLt; have := size.isLt
    rw [BitVec.toNat_add]
    omega
  rw [BitVec.toNat_add] at hsum
  exact .inr ⟨p, rfl, rfl, hpos, h1, by rw [BitVec.toNat_add]; exact hsum, by omega⟩

/-! ## The bounds -/

theorem alignUp_endPhys (k : KernelImage) :
    (alignUpU32 k.endPhys MEMORY_DEFAULT_ALIGNMENT).toNat = (k.endPhys.toNat + 15) / 16 * 16 := by
  have h := k.endPhys_below
  rw [alignUpU32_eq (by decide)]
  exact alignUp_toNat isPow2_defaultAlignment (by simp [MEMORY_DEFAULT_ALIGNMENT]; omega)

theorem bootstrapRegionOf_start {kernelEndPhys s l : U32} {entry : E820Entry}
    (h : bootstrapRegionOf kernelEndPhys entry = some (s, l)) :
    s = alignUpU32 kernelEndPhys MEMORY_DEFAULT_ALIGNMENT := by
  unfold bootstrapRegionOf at h
  split at h
  · cases h
  · split at h
    · dsimp only at h
      split at h
      · cases h; rfl
      · cases h
    · cases h

theorem findBootstrapRegion_start {info : E820Info} {kernelEndPhys s l : U32}
    (h : findBootstrapRegion info kernelEndPhys = some (s, l)) :
    s = alignUpU32 kernelEndPhys MEMORY_DEFAULT_ALIGNMENT := by
  unfold findBootstrapRegion at h
  split at h
  · cases h
  · obtain ⟨e, -, he⟩ := List.exists_of_findSome?_eq_some h
    exact bootstrapRegionOf_start he

theorem clampLimit_toNat (limit : U32) : (clampLimit limit).toNat = min limit.toNat 0x400000 := by
  have hlimit : EARLY_MAPPED_PHYS_LIMIT.toNat = 0x400000 := rfl
  unfold clampLimit
  split <;> rename_i h <;> rw [gt_iff_lt, BitVec.lt_def, hlimit] at h <;> omega

/-- The bootstrap heap starts right after the kernel and stays inside the first
4 MiB, whatever the table says. -/
theorem bootstrapBounds_spec (info : E820Info) (k : KernelImage) :
    (bootstrapBounds info k).1 = alignUpU32 k.endPhys MEMORY_DEFAULT_ALIGNMENT ∧
      (bootstrapBounds info k).2.toNat ≤ 0x400000 := by
  unfold bootstrapBounds
  cases hr : findBootstrapRegion info k.endPhys with
  | none => exact ⟨rfl, le_refl _⟩
  | some r =>
    obtain ⟨s, l⟩ := r
    dsimp only
    split
    · exact ⟨rfl, le_refl _⟩
    · exact ⟨findBootstrapRegion_start hr, by rw [clampLimit_toNat]; exact min_le_right _ _⟩

@[simp] theorem memoryInit_current (info : E820Info) (k : KernelImage) (vmem : Mem) :
    (memoryInit info k vmem).bootstrapHeapCurrent = physToVirt (bootstrapBounds info k).1 := rfl

@[simp] theorem memoryInit_limit (info : E820Info) (k : KernelImage) (vmem : Mem) :
    (memoryInit info k vmem).bootstrapHeapLimit = physToVirt (bootstrapBounds info k).2 := rfl

/-- **The bootstrap heap lies between the kernel and the end of the direct
map.** -/
theorem memoryInit_bounds (info : E820Info) (k : KernelImage) (vmem : Mem) :
    (memoryInit info k vmem).bootstrapHeapCurrent.toNat =
        0xC0000000 + (k.endPhys.toNat + 15) / 16 * 16 ∧
      (memoryInit info k vmem).bootstrapHeapLimit.toNat =
        0xC0000000 + (bootstrapBounds info k).2.toNat ∧
      (bootstrapBounds info k).2.toNat ≤ 0x400000 := by
  obtain ⟨h1, h2⟩ := bootstrapBounds_spec info k
  have hk := k.endPhys_below
  have ha := alignUp_endPhys k
  refine ⟨?_, ?_, h2⟩
  · rw [memoryInit_current, h1, physToVirt_toNat (by omega), ha]
    omega
  · rw [memoryInit_limit, physToVirt_toNat (by omega)]
    omega

/-! ## Any number of calls -/

/-- A range the bootstrap heap has handed out, with what was asked for. -/
structure BootGrant where
  size : U32
  alignment : U32
  result : U32

namespace BootGrant

/-- The alignment the code works with: `MEMORY_DEFAULT_ALIGNMENT` where 0 was passed. -/
def effective (alignment : U32) : U32 :=
  if alignment = 0 then MEMORY_DEFAULT_ALIGNMENT else alignment

/-- The bytes of the range. -/
def range (g : BootGrant) : Set Nat := Set.Ico g.result.toNat (g.result.toNat + g.size.toNat)

/-- The range is at its alignment and inside the given bounds. -/
structure Inside (lo hi : Nat) (g : BootGrant) : Prop where
  aligned : g.result.toNat % (effective g.alignment).toNat = 0
  above : lo ≤ g.result.toNat
  below : g.result.toNat + g.size.toNat ≤ hi

end BootGrant

/-- The state after calls of `bootstrap_alloc_aligned` with these sizes and alignments. -/
def bootCalls (calls : List (U32 × U32)) (m : Memory) : Memory :=
  calls.foldl (fun m c => (bootstrapAllocAligned c.1 c.2 m).2) m

/-- The ranges such calls return, without the null results. -/
def bootGrants : List (U32 × U32) → Memory → List BootGrant
  | [], _ => []
  | c :: calls, m =>
    let r := bootstrapAllocAligned c.1 c.2 m
    if r.1 = 0 then bootGrants calls r.2 else ⟨c.1, c.2, r.1⟩ :: bootGrants calls r.2

/-- What one call does to the cursor, and what it returns. -/
structure BootStep (size alignment : U32) (m : Memory) (r : U32 × Memory) : Prop where
  limit : r.2.bootstrapHeapLimit = m.bootstrapHeapLimit
  le : m.bootstrapHeapCurrent.toNat ≤ r.2.bootstrapHeapCurrent.toNat
  null : r.1 = 0 → r.2.bootstrapHeapCurrent = m.bootstrapHeapCurrent
  inside : r.1 ≠ 0 → BootGrant.Inside m.bootstrapHeapCurrent.toNat r.2.bootstrapHeapCurrent.toNat
    ⟨size, alignment, r.1⟩
  below : r.1 ≠ 0 → r.2.bootstrapHeapCurrent.toNat ≤ m.bootstrapHeapLimit.toNat

/-- The alignment the code works with is a power of two. -/
theorem BootGrant.isPow2_effective {alignment : U32} (h : alignment = 0 ∨ IsPow2 alignment) :
    IsPow2 (effective alignment) := by
  unfold effective
  split
  · exact isPow2_defaultAlignment
  · exact h.resolve_left ‹_›

/-- **One call.** -/
theorem bootStep {size alignment : U32} (ha : alignment = 0 ∨ IsPow2 alignment) {m : Memory}
    (hcur : 0 < m.bootstrapHeapCurrent.toNat) :
    BootStep size alignment m (bootstrapAllocAligned size alignment m) := by
  rcases bootstrapAllocAligned_spec size alignment m with h | ⟨p, h, hp, hpos, hle, hsum, hlim⟩
  · rw [h]
    exact ⟨rfl, le_refl _, fun _ => rfl, fun hne => absurd rfl hne, fun hne => absurd rfl hne⟩
  have hpow := BootGrant.isPow2_effective ha
  have hmod : p.toNat % (BootGrant.effective alignment).toNat = 0 := by
    rw [hp]
    have hne : BootGrant.effective alignment ≠ 0 := fun hc => by
      have hpos := hpow.pos
      rw [hc] at hpos
      exact absurd hpos (by decide)
    exact (alignUpU32_eq hne).symm ▸ alignUp_mod hpow _
  rw [h]
  refine ⟨rfl, ?_, fun h0 => ?_, fun _ => ⟨hmod, hle, hsum.ge⟩, fun _ => hsum.trans_le hlim⟩
  · change m.bootstrapHeapCurrent.toNat ≤ (p + size).toNat
    omega
  · -- a range lies above the cursor, so it does not start at 0
    have hp0 : p.toNat = 0 := congrArg BitVec.toNat h0
    omega

/-- **Any number of calls**: what they return lies between the cursor and the limit, in
the order of the calls. -/
theorem bootGrants_inside : ∀ {calls : List (U32 × U32)} {m : Memory},
    (∀ c ∈ calls, c.2 = 0 ∨ IsPow2 c.2) → 0 < m.bootstrapHeapCurrent.toNat →
      (∀ g ∈ bootGrants calls m,
        g.Inside m.bootstrapHeapCurrent.toNat m.bootstrapHeapLimit.toNat) ∧
      (bootGrants calls m).Pairwise fun g g' =>
        g.result.toNat + g.size.toNat ≤ g'.result.toNat := by
  intro calls
  induction calls with
  | nil => exact fun _ _ => ⟨fun g hg => absurd hg List.not_mem_nil, .nil⟩
  | cons c calls ih =>
    intro m hcalls hcur
    have hstep := @bootStep c.1 c.2 (hcalls c List.mem_cons_self) _ hcur
    have hle := hstep.le
    obtain ⟨hin, hpair⟩ := ih (m := (bootstrapAllocAligned c.1 c.2 m).2)
      (fun c' hc' => hcalls c' (List.mem_cons_of_mem _ hc')) (by omega)
    rw [hstep.limit] at hin
    have hlater : ∀ g ∈ bootGrants calls (bootstrapAllocAligned c.1 c.2 m).2,
        g.Inside m.bootstrapHeapCurrent.toNat m.bootstrapHeapLimit.toNat :=
      fun g hg => ⟨(hin g hg).aligned, hle.trans (hin g hg).above, (hin g hg).below⟩
    rw [bootGrants]
    by_cases h0 : (bootstrapAllocAligned c.1 c.2 m).1 = 0
    · rw [if_pos h0]
      exact ⟨hlater, hpair⟩
    · rw [if_neg h0, List.forall_mem_cons, List.pairwise_cons]
      have hfirst := hstep.inside h0
      refine ⟨⟨⟨hfirst.aligned, hfirst.above, hfirst.below.trans (hstep.below h0)⟩, hlater⟩, ?_,
        hpair⟩
      exact fun g hg => hfirst.below.trans (hin g hg).above

/-- The cursor never goes back, and the limit stays. -/
theorem bootCalls_keeps : ∀ {calls : List (U32 × U32)} {m : Memory},
    (∀ c ∈ calls, c.2 = 0 ∨ IsPow2 c.2) → 0 < m.bootstrapHeapCurrent.toNat →
      m.bootstrapHeapCurrent.toNat ≤ (bootCalls calls m).bootstrapHeapCurrent.toNat ∧
        (bootCalls calls m).bootstrapHeapLimit = m.bootstrapHeapLimit := by
  intro calls
  induction calls with
  | nil => exact fun _ _ => ⟨le_refl _, rfl⟩
  | cons c calls ih =>
    intro m hcalls hcur
    have hstep := @bootStep c.1 c.2 (hcalls c List.mem_cons_self) _ hcur
    have hle := hstep.le
    obtain ⟨h1, h2⟩ := ih (m := (bootstrapAllocAligned c.1 c.2 m).2)
      (fun c' hc' => hcalls c' (List.mem_cons_of_mem _ hc')) (by omega)
    exact ⟨hle.trans h1, h2.trans hstep.limit⟩

/-- **The bootstrap heap**, for every table and every sequence of calls: each range is at
its alignment, between the kernel and 4 MiB, below the limit and apart from all others;
the cursor never goes back, and a null result leaves it where it was. -/
theorem bootstrap_heap (info : E820Info) (k : KernelImage) (vmem : Mem) (calls : List (U32 × U32))
    (hcalls : ∀ c ∈ calls, c.2 = 0 ∨ IsPow2 c.2) :
    (∀ g ∈ bootGrants calls (memoryInit info k vmem),
      g.Inside (physToVirt k.endPhys).toNat (physToVirt EARLY_MAPPED_PHYS_LIMIT).toNat ∧
        g.result.toNat + g.size.toNat ≤
          (bootCalls calls (memoryInit info k vmem)).bootstrapHeapLimit.toNat) ∧
    (bootGrants calls (memoryInit info k vmem)).Pairwise
      (fun g g' => ∀ b ∈ g.range, b ∉ g'.range) ∧
    ∀ pre c post, calls = pre ++ c :: post →
      let m := bootCalls pre (memoryInit info k vmem)
      let r := bootstrapAllocAligned c.1 c.2 m
      m.bootstrapHeapCurrent ≤ r.2.bootstrapHeapCurrent ∧
        (r.1 = 0 → r.2.bootstrapHeapCurrent = m.bootstrapHeapCurrent) := by
  obtain ⟨hcur, hlim, hle⟩ := memoryInit_bounds info k vmem
  have hpos : 0 < (memoryInit info k vmem).bootstrapHeapCurrent.toNat := by omega
  have hk := k.endPhys_below
  have hstart := physToVirt_toNat (a := k.endPhys) (by omega)
  have hend := physToVirt_toNat (a := EARLY_MAPPED_PHYS_LIMIT) (by decide)
  have hlimit : EARLY_MAPPED_PHYS_LIMIT.toNat = 0x400000 := rfl
  obtain ⟨hin, hpair⟩ := bootGrants_inside hcalls hpos
  have hsame := (bootCalls_keeps hcalls hpos).2
  refine ⟨fun g hg => ?_, hpair.imp ?_, ?_⟩
  · have hg' := hin g hg
    have habove := hg'.above
    have hbelow := hg'.below
    refine ⟨⟨hg'.aligned, ?_, ?_⟩, ?_⟩
    · rw [hstart]
      omega
    · rw [hend, hlimit]
      omega
    · rw [hsame]
      exact hbelow
  · intro g g' hgg b hb hb'
    have h1 : b < g.result.toNat + g.size.toNat := hb.2
    have h2 : g'.result.toNat ≤ b := hb'.1
    omega
  · rintro pre c post rfl
    have hpre := bootCalls_keeps (fun c' hc' => hcalls c' (List.mem_append_left _ hc')) hpos
    have hstep := @bootStep c.1 c.2 (hcalls c (by simp)) _ (lt_of_lt_of_le hpos hpre.1)
    exact ⟨BitVec.le_def.2 hstep.le, hstep.null⟩

/-- 100 bytes, and then a page, behind a kernel that ends at 0xC0110000, without a table. -/
theorem bootstrap_heap_two :
    let k : KernelImage := ⟨0xC0110000, by decide, by decide⟩
    (bootGrants [(100, 0), (4096, 4096)] (memoryInit ⟨0, []⟩ k fun _ => 0)).Pairwise
      (fun g g' => ∀ b ∈ g.range, b ∉ g'.range) :=
  (bootstrap_heap ⟨0, []⟩ _ (fun _ => 0) [(100, 0), (4096, 4096)]
    (by
      intro c hc
      rcases List.mem_cons.1 hc with rfl | hc
      · exact .inl rfl
      · obtain rfl := List.mem_singleton.1 hc
        exact .inr (isPow2_of_eq (k := 12) (by decide) (by decide)))).2.1

end Frewozet
