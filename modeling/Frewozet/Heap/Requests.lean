import Frewozet.Heap.Calls

/-!
# Requests

The three ways to ask the kernel for memory, and whether what comes back is inside
what was reserved for it.

* `Request` — a call of `kmalloc`, `kcalloc` or `kmalloc_aligned`.
* `Request.NoWrap` — its size, rounded up as the call rounds it, is a 32-bit number.
* `Request.Inside` — the bytes asked for, and the word `kmalloc_aligned` writes in
  front of them, lie inside the one block the call used, or inside what the
  bootstrap heap advanced by.
* `HeapOk.call_inside` — a request that does not wrap stays inside.
* `HeapOk.call_wraps` — one that does wrap runs past the end of the address space.
-/

namespace Frewozet

open Word Exec Tiling

/-! ## Writing payloads -/

section

variable {σ : Type} {B : Backing σ} {m : Memory} {bs : List Block} {s : σ}

/-- The list depends on its headers only. -/
theorem HeapAt.write (h : HeapAt m bs) {vmem : Mem}
    (hm : ∀ b ∈ bs, vmem.AgreeOn m.vmem b.addr (b.addr + 12)) :
    HeapAt { m with vmem := vmem } bs where
  head := h.head
  chain := h.chain.congr fun b hb => by
    obtain ⟨-, hhi⟩ := h.inWindow hb
    have hstop : b.stop = b.addr + 12 + b.size := rfl
    exact ⟨by omega, hm b hb⟩
  tiles := h.tiles
  limit := h.limit
  committed := h.committed

/-- No header lies in a payload. -/
theorem HeapAt.header_apart (h : HeapAt m bs) {b c : Block} (hb : b ∈ bs) (hc : c ∈ bs) :
    b.addr + 12 ≤ c.addr + 12 ∨ c.stop ≤ b.addr := by
  have hbstop : b.stop = b.addr + 12 + b.size := rfl
  rcases h.tiles.apart hb hc with rfl | hle | hle
  · exact .inl (le_refl _)
  · exact .inl (by omega)
  · exact .inr hle

/-- Writing inside one payload leaves the list alone. -/
theorem HeapAt.writePayload (h : HeapAt m bs) {b : Block} (hb : b ∈ bs) {vmem : Mem}
    (hm : ∀ l r, r ≤ b.addr + 12 ∨ b.stop ≤ l → vmem.AgreeOn m.vmem l r) :
    HeapAt { m with vmem := vmem } bs :=
  h.write fun _ hc => hm _ _ (h.header_apart hc hb)

/-- `memset` on the kernel's memory. -/
theorem heapMemset_spec (v : U8) : ∀ (n : Nat) (dest : U32) (m : Memory),
    dest.toNat + n < 2 ^ 32 →
    wp (heapMemset B dest v n)
      (fun _ t => ∃ vmem, t.1 = { m with vmem := vmem } ∧
        ∀ l r, r ≤ dest.toNat ∨ dest.toNat + n ≤ l → vmem.AgreeOn m.vmem l r)
      (fun _ t => ∃ vmem, t.1 = { m with vmem := vmem } ∧
        ∀ l r, r ≤ dest.toNat ∨ dest.toNat + n ≤ l → vmem.AgreeOn m.vmem l r) (m, s) := by
  intro n
  induction n with
  | zero => intro dest m _; exact ⟨m.vmem, rfl, fun _ _ _ => .refl _ _ _⟩
  | succ n ih =>
    intro dest m hfit
    rw [heapMemset, wp_bind, checkMapped, wp_bind, wp_get]
    by_cases hmap : B.mapped s dest = true
    · have hnext : (dest + 1#32).toNat = dest.toNat + 1 := Mem.toNat_add_of_lt (k := 1) (by omega)
      rw [if_pos hmap, wp_pure, wp_bind, wp_modifyMemory]
      have hrest := ih (dest + 1#32) { m with vmem := m.vmem.write8 dest v } (by omega)
      refine wp_mono hrest ?_ ?_
      all_goals
        rintro _ t ⟨vmem, hmem, hout⟩
        exact ⟨vmem, hmem, fun l r hlr =>
          (hout l r (by omega)).trans (Mem.agreeOn_write8 m.vmem v (by omega))⟩
    · rw [if_neg hmap]
      exact ⟨m.vmem, rfl, fun _ _ _ => .refl _ _ _⟩

end

/-! ## Requests -/

/-- A call that asks for memory. -/
inductive Request where
  | kmalloc (size : U32)
  | kcalloc (num size : U32)
  | kmallocAligned (size alignment : U32)
  deriving DecidableEq, Repr

namespace Request

/-- Making it. -/
def call {σ : Type} (B : Backing σ) : Request → Exec (Memory × σ) U32
  | kmalloc size => Frewozet.kmalloc B size
  | kcalloc num size => Frewozet.kcalloc B num size
  | kmallocAligned size alignment => Frewozet.kmallocAligned B size alignment

/-- How many bytes it asks for. -/
def requested : Request → Nat
  | kmalloc size => size.toNat
  | kcalloc num size => num.toNat * size.toNat
  | kmallocAligned size _ => size.toNat

/-- Alignments are powers of two. -/
def Wf : Request → Prop
  | kmallocAligned _ alignment => IsPow2 alignment
  | _ => True

/-- How many bytes in front of the pointer the call writes as well, once the backend
is enabled. -/
def slot : Request → Nat
  | kmallocAligned _ alignment => if alignment ≤ MEMORY_DEFAULT_ALIGNMENT then 0 else 4
  | _ => 0

/-- The size the call passes down, in unbounded numbers, can be rounded up to 16
within 32 bits. -/
def NoWrap : Request → Prop
  | kmalloc size => size.toNat ≤ 0xFFFFFFF0
  | kcalloc num size => num.toNat * size.toNat ≤ 0xFFFFFFF0
  | kmallocAligned size alignment =>
    if alignment ≤ MEMORY_DEFAULT_ALIGNMENT then size.toNat ≤ 0xFFFFFFF0
    else size.toNat + alignment.toNat + 4 ≤ 0xFFFFFFF0

instance (r : Request) : Decidable r.NoWrap := by
  cases r <;> unfold NoWrap <;> infer_instance

/-- The size a request passes to `kmalloc`, if it gets that far. -/
def inner : Request → Option U32
  | kmalloc size => if size = 0 then none else some size
  | kcalloc num size =>
    if num = 0 ∨ size = 0 then none
    else if num > 0xFFFFFFFF#32 / size then none else some (num * size)
  | kmallocAligned size alignment =>
    if size = 0 then none
    else if alignment ≤ MEMORY_DEFAULT_ALIGNMENT then some size
    else some (size + (alignment + 4))

/-- What was asked for lies inside what was reserved: `m` is the heap before the
call, `m'` the heap after it, `p` what it returned. -/
def Inside (r : Request) (m : Memory) (p : U32) (m' : Memory) : Prop :=
  p.toNat + r.requested ≤ 2 ^ 32 ∧
    if m.memoryPmmBackendEnabled = true then
      ∃ bs bs' b, HeapAt m bs ∧ HeapAt m' bs' ∧ NewlyUsed bs bs' b ∧
        (∀ c, NewlyUsed bs bs' c → c = b) ∧
        b.addr + 12 + r.slot ≤ p.toNat ∧ p.toNat + r.requested ≤ b.stop
    else
      m.bootstrapHeapCurrent.toNat ≤ p.toNat ∧
        p.toNat + r.requested ≤ m'.bootstrapHeapCurrent.toNat

end Request

/-! ## The two calls around `kmalloc` -/

section

variable {σ : Type} {B : Backing σ} {m : Memory} {s : σ} {Q : U32 → Memory × σ → Prop}
  {S : Stop → Memory × σ → Prop}

/-- `kmalloc_aligned` rounds up in its own words. -/
theorem add_sub_one_mask (v a : U32) : v + a - 1 &&& ~~~(a - 1) = alignUp v a := by
  rw [alignUp]
  congr 1
  bv_omega

/-- **`kcalloc`** is null where it refuses, and else what `kmalloc` returns, zeroed. -/
theorem wp_kcalloc {num size : U32} (hnull : (Request.kcalloc num size).inner = none → Q 0 (m, s))
    (hcall : ∀ total, (Request.kcalloc num size).inner = some total →
      wp (kmalloc B total)
        (fun p t => (p = 0 → Q 0 t) ∧
          (p ≠ 0 → wp (heapMemset B p 0 total.toNat) (fun _ => Q p) S t)) S (m, s)) :
    wp (kcalloc B num size) Q S (m, s) := by
  unfold kcalloc
  by_cases h0 : num = 0 ∨ size = 0
  · rw [if_pos h0]
    exact hnull (if_pos h0)
  by_cases hbig : num > 0xFFFFFFFF#32 / size
  · rw [if_neg h0, if_pos hbig]
    exact hnull (by rw [Request.inner, if_neg h0, if_pos hbig])
  rw [if_neg h0, if_neg hbig]
  dsimp only
  rw [wp_bind]
  refine wp_mono (hcall (num * size) (by rw [Request.inner, if_neg h0, if_neg hbig])) ?_
    fun _ _ hs => hs
  rintro p t ⟨hz, hne⟩
  by_cases hp : p = 0
  · rw [if_pos hp]
    exact hz hp
  · rw [if_neg hp, wp_bind]
    exact hne hp

/-- **`kmalloc_aligned`** rounds the pointer up itself for large alignments only. -/
theorem wp_kmallocAligned {size alignment : U32} (hzero : size = 0 → Q 0 (m, s))
    (hboot : size ≠ 0 → m.memoryPmmBackendEnabled = false →
      wp (bootstrapAlloc size alignment) Q S (m, s))
    (hsmall : size ≠ 0 → m.memoryPmmBackendEnabled = true → alignment ≤ MEMORY_DEFAULT_ALIGNMENT →
      wp (kmalloc B size) Q S (m, s))
    (hlarge : size ≠ 0 → m.memoryPmmBackendEnabled = true →
      ¬ alignment ≤ MEMORY_DEFAULT_ALIGNMENT →
      wp (kmalloc B (size + (alignment + 4)))
        (fun raw t => (raw = 0 → Q 0 t) ∧
          (raw ≠ 0 → if B.mapped t.2 (alignUp (raw + 4) alignment - 4#32) = true then
            Q (alignUp (raw + 4) alignment)
              ({ t.1 with vmem := t.1.vmem.write32 (alignUp (raw + 4) alignment - 4#32) raw }, t.2)
          else S .fault t)) S (m, s)) :
    wp (kmallocAligned B size alignment) Q S (m, s) := by
  unfold kmallocAligned
  by_cases h0 : size = 0
  · rw [if_pos h0]
    exact hzero h0
  rw [if_neg h0, wp_bind, wp_getMemory]
  cases he : m.memoryPmmBackendEnabled with
  | false =>
    rw [if_pos (by simp)]
    exact hboot h0 he
  | true =>
    rw [if_neg (by simp)]
    by_cases ha : alignment ≤ MEMORY_DEFAULT_ALIGNMENT
    · rw [if_pos ha]
      exact hsmall h0 he ha
    rw [if_neg ha]
    dsimp only
    rw [wp_bind]
    refine wp_mono (hlarge h0 he ha) ?_ fun _ _ hs => hs
    rintro raw t ⟨hz, hne⟩
    by_cases hp : raw = 0
    · rw [if_pos hp]
      exact hz hp
    rw [if_neg hp, add_sub_one_mask, wp_bind, checkMapped, wp_bind, wp_get]
    have hne := hne hp
    split at hne
    · rw [if_pos ‹_›, wp_pure, wp_bind, wp_modifyMemory, wp_pure]
      exact hne
    · rw [if_neg ‹_›]
      exact hne

end

/-! ## Rounding -/

theorem alignUpSize_ge {size : U32} (h : size.toNat ≤ 0xFFFFFFF0) :
    size.toNat ≤ (alignUpSize size MEMORY_DEFAULT_ALIGNMENT).toNat := by
  have h16 : MEMORY_DEFAULT_ALIGNMENT.toNat = 16 := rfl
  exact le_alignUp isPow2_defaultAlignment (by omega)

theorem alignUpSize_wraps {size : U32} (h : 0xFFFFFFF0 < size.toNat) :
    alignUpSize size MEMORY_DEFAULT_ALIGNMENT = 0 := by
  have h16 : MEMORY_DEFAULT_ALIGNMENT.toNat = 16 := rfl
  exact alignUp_wraps isPow2_defaultAlignment (by omega)

/-! ## What a call leaves behind -/

/-- The shape of the heap, and that there is a region as soon as the backend is
enabled. -/
structure HeapOk (m : Memory) (bs : List Block) : Prop where
  heap : HeapAt m bs
  enabled : m.memoryPmmBackendEnabled = true ↔ bs ≠ []

/-- The heap is in shape again, and the blocks that were used still are. -/
def Advances (bs : List Block) (m' : Memory) : Prop := ∃ bs', HeapOk m' bs' ∧ KeepsUsed bs bs'

section

variable {σ : Type} {B : Backing σ} {m : Memory} {bs : List Block} {s : σ}

theorem HeapOk.advances (h : HeapOk m bs) : Advances bs m := ⟨bs, h, fun _ hc _ => hc⟩

/-- The list of a heap that is not enabled is empty, and its memory of no
importance. -/
theorem HeapOk.write_disabled (h : HeapOk m bs) (he : ¬ m.memoryPmmBackendEnabled = true)
    (vmem : Mem) : HeapOk { m with vmem := vmem } bs := by
  have hnil : bs = [] := not_not.1 fun hc => he (h.enabled.2 hc)
  subst hnil
  exact ⟨h.heap.write fun b hb => absurd hb List.not_mem_nil, h.enabled⟩

/-- A call of `kmalloc` from an enabled heap. -/
theorem kmalloc_enabled (h : HeapOk m bs) (he : m.memoryPmmBackendEnabled = true) (size : U32) :
    wp (kmalloc B size)
      (fun p t => SameStatics m t.1 ∧ ∃ bs', HeapOk t.1 bs' ∧
        Malloced bs (alignUpSize size MEMORY_DEFAULT_ALIGNMENT).toNat p bs')
      (fun _ t => t.1 = m) (m, s) := by
  by_cases h0 : size = 0
  · subst h0
    exact ⟨.refl m, bs, h, .null rfl (.inl rfl)⟩
  · refine wp_mono (kmalloc_spec h.heap he h0) ?_ fun _ _ hc => hc.2.2.2
    intro p t hm
    obtain ⟨hsame, bs', hheap, hmalloc⟩ := hm.malloced h.heap
    refine ⟨hsame, bs', ⟨hheap, ?_⟩, hmalloc⟩
    rw [hsame.enabled, h.enabled]
    constructor
    · rintro - rfl
      cases hmalloc with
      | null _ hlist =>
        rcases hlist with rfl | ⟨b, -, hc⟩
        · exact absurd he (by simpa using h.enabled)
        · exact absurd hc.symm (by simp)
      | used b _ _ hnew => exact List.not_mem_nil hnew.1
    · intro _
      exact h.enabled.1 he

/-- The statics after the bootstrap heap has given out a range. -/
def Memory.bootTaken (m : Memory) (p size : U32) : Memory :=
  { m with bootstrapHeapCurrent := p + size, bootRanges := (p, size) :: m.bootRanges }

/-- What the bootstrap heap returns for `size` bytes, and how it advances. -/
def BootGives (m : Memory) (size : Nat) (p : U32) (m' : Memory) : Prop :=
  p = 0 ∧ m' = m ∨ ∃ n : U32, m' = m.bootTaken p n ∧ m.bootstrapHeapCurrent.toNat ≤ p.toNat ∧
    (p + n).toNat = p.toNat + n.toNat ∧ size ≤ n.toNat ∧
    p.toNat + n.toNat ≤ m.bootstrapHeapLimit.toNat

theorem HeapOk.bootGives (h : HeapOk m bs) {size : Nat} {p : U32} {m' : Memory}
    (hm : BootGives m size p m') : HeapOk m' bs := by
  rcases hm with ⟨-, rfl⟩ | ⟨n, rfl, -⟩
  · exact h
  · exact ⟨⟨h.heap.head, h.heap.chain, h.heap.tiles, h.heap.limit, h.heap.committed⟩, h.enabled⟩

/-- A call of `bootstrap_alloc_aligned`. -/
theorem bootstrapAlloc_spec (size alignment : U32) :
    wp (bootstrapAlloc size alignment) (fun p t => BootGives m size.toNat p t.1 ∧ t.2 = s)
      (fun _ _ => False) (m, s) := by
  unfold wp bootstrapAlloc
  dsimp only
  rcases bootstrapAllocAligned_spec size alignment m with hr | ⟨p, hr, -, -, h1, h2, h3⟩
  · rw [hr]
    exact ⟨.inl ⟨rfl, rfl⟩, rfl⟩
  · rw [hr]
    exact ⟨.inr ⟨size, rfl, h1, h2, le_refl _, h3⟩, rfl⟩

/-- A call of `kmalloc` before the backend is enabled. -/
theorem kmalloc_disabled (he : ¬ m.memoryPmmBackendEnabled = true) (size : U32) :
    wp (kmalloc B size) (fun p t => BootGives m size.toNat p t.1 ∧ t.2 = s) (fun _ _ => False)
      (m, s) := by
  unfold kmalloc
  by_cases h0 : size = 0
  · rw [if_pos h0]
    exact ⟨.inl ⟨rfl, rfl⟩, rfl⟩
  · rw [if_neg h0]
    dsimp only
    rw [wp_bind, wp_getMemory, if_pos (by simpa using he)]
    by_cases hsize : size.toNat ≤ 0xFFFFFFF0
    · have hge := alignUpSize_ge hsize
      refine wp_mono (bootstrapAlloc_spec _ _) ?_ fun _ _ hc => hc
      rintro p t ⟨hgives, hback⟩
      refine ⟨?_, hback⟩
      rcases hgives with hg | ⟨n, hmem, h1, h2, h3, h4⟩
      · exact .inl hg
      · exact .inr ⟨n, hmem, h1, h2, hge.trans h3, h4⟩
    · rw [alignUpSize_wraps (by omega)]
      exact ⟨.inl ⟨rfl, rfl⟩, rfl⟩

/-! ## Requests that do not wrap -/

/-- A range in the payload of the block `kmalloc` used. -/
theorem Malloced.inside {m' : Memory} {bs' : List Block} {n : Nat} {q p : U32} {r : Request}
    (hm : Malloced bs n q bs') (hq : q ≠ 0) (h : HeapAt m bs)
    (he : m.memoryPmmBackendEnabled = true) (h' : HeapAt m' bs')
    (hlo : q.toNat + r.slot ≤ p.toNat) (hhi : p.toNat + r.requested ≤ q.toNat + n) :
    r.Inside m p m' := by
  cases hm with
  | null hres => exact absurd hres hq
  | used b hptr hsize hnew honly =>
    have hin := h'.inWindow hnew.1
    have hstop : b.stop = b.addr + 12 + b.size := rfl
    have := hin.2
    refine ⟨by omega, ?_⟩
    rw [if_pos he]
    exact ⟨bs, bs', b, h, h', hnew, honly, by omega, by omega⟩

/-- A range the bootstrap heap has advanced by. -/
theorem BootGives.inside {m' m'' : Memory} {p : U32} {r : Request}
    (hm : BootGives m r.requested p m') (hp : p ≠ 0) (he : ¬ m.memoryPmmBackendEnabled = true)
    (hcurrent : m''.bootstrapHeapCurrent = m'.bootstrapHeapCurrent) : r.Inside m p m'' := by
  rcases hm with ⟨hres, -⟩ | ⟨n, rfl, h1, h2, h3, -⟩
  · exact absurd hres hp
  · have hlt := (p + n).isLt
    refine ⟨by omega, ?_⟩
    rw [if_neg he, hcurrent]
    change _ ∧ _ ≤ (p + n).toNat
    exact ⟨h1, by omega⟩

/-- How a call ends that stays inside what was reserved for it. -/
def StaysInside (r : Request) (m : Memory) (bs : List Block) (p : U32) (m' : Memory) : Prop :=
  Advances bs m' ∧ (p ≠ 0 → r.Inside m p m')

theorem kmalloc_inside (h : HeapOk m bs) {size : U32}
    (hwrap : m.memoryPmmBackendEnabled = true → size.toNat ≤ 0xFFFFFFF0) :
    wp (kmalloc B size) (fun p t => StaysInside (.kmalloc size) m bs p t.1)
      (fun _ t => Advances bs t.1) (m, s) := by
  by_cases he : m.memoryPmmBackendEnabled = true
  · refine wp_mono (kmalloc_enabled h he size) ?_ fun _ _ hc => by rw [hc]; exact h.advances
    rintro p t ⟨-, bs', hok, hm⟩
    have hge := alignUpSize_ge (hwrap he)
    refine ⟨⟨bs', hok, hm.keepsUsed⟩, fun hp => hm.inside hp h.heap he hok.heap ?_ ?_⟩
    · exact le_refl _
    · exact Nat.add_le_add_left hge _
  · refine wp_mono (kmalloc_disabled he size) ?_ fun _ _ hc => hc.elim
    rintro p t ⟨hgives, -⟩
    exact ⟨⟨bs, h.bootGives hgives, fun _ hc _ => hc⟩,
      fun hp => BootGives.inside (r := .kmalloc size) hgives hp he rfl⟩

theorem kcalloc_total {num size : U32} (hs : ¬ size = 0) (h : ¬ num > 0xFFFFFFFF#32 / size) :
    (num * size).toNat = num.toNat * size.toNat := by
  have hpos : 0 < size.toNat := Nat.pos_of_ne_zero fun hc => hs (BitVec.eq_of_toNat_eq hc)
  rw [gt_iff_lt, BitVec.lt_def, BitVec.toNat_udiv, not_lt,
    show (0xFFFFFFFF#32).toNat = 0xFFFFFFFF from rfl, Nat.le_div_iff_mul_le hpos] at h
  rw [BitVec.toNat_mul]
  exact Nat.mod_eq_of_lt (by omega)

/-- What `kcalloc` passes down is the product. -/
theorem inner_kcalloc {num size total : U32} (h : (Request.kcalloc num size).inner = some total) :
    total.toNat = num.toNat * size.toNat := by
  rw [Request.inner] at h
  by_cases h0 : num = 0 ∨ size = 0
  · rw [if_pos h0] at h
    cases h
  by_cases hbig : num > 0xFFFFFFFF#32 / size
  · rw [if_neg h0, if_pos hbig] at h
    cases h
  · rw [if_neg h0, if_neg hbig] at h
    obtain rfl := Option.some.inj h
    exact kcalloc_total (fun hc => h0 (.inr hc)) hbig

/-- Zeroing bytes of the payload that has just been used. -/
theorem Malloced.memset {bs' : List Block} {n k : Nat} {p : U32} {m₁ : Memory} {s₁ : σ}
    (hm : Malloced bs n p bs') (hp : p ≠ 0) (hok : HeapOk m₁ bs') (hk : k ≤ n) :
    wp (heapMemset B p 0 k) (fun _ t => HeapOk t.1 bs') (fun _ t => HeapOk t.1 bs') (m₁, s₁) := by
  cases hm with
  | null hres => exact absurd hres hp
  | used b hptr hsize hnew =>
    have hstop : b.stop = b.addr + 12 + b.size := rfl
    obtain ⟨-, hhi⟩ := hok.heap.inWindow hnew.1
    refine wp_mono (heapMemset_spec 0 k p m₁ (by omega)) ?_ ?_
    all_goals
      rintro _ ⟨m₂, s₂⟩ ⟨vmem, rfl, hout⟩
      exact ⟨hok.heap.writePayload hnew.1 fun l r hlr => hout l r (by omega), hok.enabled⟩

/-- Zeroing bytes the bootstrap heap has given out. -/
theorem BootGives.memset {n : Nat} {p : U32} {m₁ : Memory} {s₁ : σ} (hm : BootGives m n p m₁)
    (hp : p ≠ 0) (h : HeapOk m bs) (he : ¬ m.memoryPmmBackendEnabled = true) :
    wp (heapMemset B p 0 n)
      (fun _ t => HeapOk t.1 bs ∧ t.1.bootstrapHeapCurrent = m₁.bootstrapHeapCurrent)
      (fun _ t => HeapOk t.1 bs) (m₁, s₁) := by
  have hok := h.bootGives hm
  have he₁ : ¬ m₁.memoryPmmBackendEnabled = true := by
    rw [hok.enabled, ← h.enabled]
    exact he
  have hfit : p.toNat + n < 2 ^ 32 := by
    rcases hm with ⟨hres, -⟩ | ⟨k, -, -, h2, h3, -⟩
    · exact absurd hres hp
    · have := (p + k).isLt
      omega
  refine wp_mono (heapMemset_spec 0 n p m₁ hfit) ?_ ?_
  · rintro _ ⟨m₂, s₂⟩ ⟨vmem, rfl, -⟩
    exact ⟨hok.write_disabled he₁ vmem, rfl⟩
  · rintro _ ⟨m₂, s₂⟩ ⟨vmem, rfl, -⟩
    exact hok.write_disabled he₁ vmem

theorem kcalloc_inside (h : HeapOk m bs) {num size : U32}
    (hwrap : m.memoryPmmBackendEnabled = true → num.toNat * size.toNat ≤ 0xFFFFFFF0) :
    wp (kcalloc B num size) (fun p t => StaysInside (.kcalloc num size) m bs p t.1)
      (fun _ t => Advances bs t.1) (m, s) := by
  refine wp_kcalloc (fun _ => ⟨h.advances, fun hp => absurd rfl hp⟩) fun total hinner => ?_
  have htotal := inner_kcalloc hinner
  rw [← htotal] at hwrap
  have hrequested : (Request.kcalloc num size).requested = total.toNat := htotal.symm
  by_cases he : m.memoryPmmBackendEnabled = true
  · refine wp_mono (kmalloc_enabled h he total) ?_ fun _ _ hc => by rw [hc]; exact h.advances
    rintro p ⟨m₁, s₁⟩ ⟨-, bs', hok, hm⟩
    have hge := alignUpSize_ge (hwrap he)
    refine ⟨fun _ => ⟨⟨bs', hok, hm.keepsUsed⟩, fun hc => absurd rfl hc⟩, fun hp => ?_⟩
    refine wp_mono (hm.memset hp hok hge) ?_ fun _ t hok₂ => ⟨bs', hok₂, hm.keepsUsed⟩
    intro _ t hok₂
    exact ⟨⟨bs', hok₂, hm.keepsUsed⟩, fun _ =>
      hm.inside hp h.heap he hok₂.heap (le_refl _) (by rw [hrequested]; omega)⟩
  · refine wp_mono (kmalloc_disabled he total) ?_ fun _ _ hc => hc.elim
    rintro p ⟨m₁, s₁⟩ ⟨hgives, -⟩
    refine ⟨fun _ => ⟨⟨bs, h.bootGives hgives, fun _ hc _ => hc⟩, fun hc => absurd rfl hc⟩,
      fun hp => ?_⟩
    refine wp_mono (hgives.memset hp h he) ?_ fun _ t hok₂ => ⟨bs, hok₂, fun _ hc _ => hc⟩
    rintro _ t ⟨hok₂, hcurrent⟩
    rw [← hrequested] at hgives
    exact ⟨⟨bs, hok₂, fun _ hc _ => hc⟩, fun _ => hgives.inside hp he hcurrent⟩

/-- The aligned pointer in the payload, and the word in front of it. -/
theorem Malloced.aligned {bs' : List Block} {n : Nat} {raw size alignment : U32} {m₁ : Memory}
    (hm : Malloced bs n raw bs') (hp : raw ≠ 0) (hok : HeapOk m₁ bs') (hpow : IsPow2 alignment)
    (hn : size.toNat + alignment.toNat + 4 ≤ n) :
    HeapOk { m₁ with vmem := m₁.vmem.write32 (alignUp (raw + 4) alignment - 4#32) raw } bs' ∧
      raw.toNat + 4 ≤ (alignUp (raw + 4) alignment).toNat ∧
      (alignUp (raw + 4) alignment).toNat + size.toNat ≤ raw.toNat + n := by
  cases hm with
  | null hres => exact absurd hres hp
  | used b hptr hsize hnew =>
    have hstop : b.stop = b.addr + 12 + b.size := rfl
    have hpos := hpow.pos
    obtain ⟨-, hhi⟩ := hok.heap.inWindow hnew.1
    have hbase : (raw + 4).toNat = raw.toNat + 4 := by
      rw [BitVec.toNat_add, show (4 : U32).toNat = 4 from rfl]
      omega
    have hge := le_alignUp hpow (v := raw + 4) (by omega)
    have hle := alignUp_le hpow (v := raw + 4) (by omega)
    have hslot : (alignUp (raw + 4) alignment - 4#32).toNat =
      (alignUp (raw + 4) alignment).toNat - 4 :=
      BitVec.toNat_sub_of_le (BitVec.le_def.2 (by rw [show (4#32).toNat = 4 from rfl]; omega))
    refine ⟨⟨hok.heap.writePayload hnew.1 fun l r hlr => ?_, hok.enabled⟩, by omega, by omega⟩
    exact Mem.agreeOn_write32 m₁.vmem raw (by omega) (by omega)

theorem kmallocAligned_inside (h : HeapOk m bs) {size alignment : U32} (hpow : IsPow2 alignment)
    (hwrap : m.memoryPmmBackendEnabled = true → (Request.kmallocAligned size alignment).NoWrap) :
    wp (kmallocAligned B size alignment)
      (fun p t => StaysInside (.kmallocAligned size alignment) m bs p t.1)
      (fun _ t => Advances bs t.1) (m, s) := by
  have hfit (he : m.memoryPmmBackendEnabled = true) :
      if alignment ≤ MEMORY_DEFAULT_ALIGNMENT then size.toNat ≤ 0xFFFFFFF0
      else size.toNat + alignment.toNat + 4 ≤ 0xFFFFFFF0 := hwrap he
  refine wp_kmallocAligned (fun _ => ⟨h.advances, fun hp => absurd rfl hp⟩) (fun _ he => ?_)
    (fun _ he ha => ?_) fun _ he ha => ?_
  · have he : ¬ m.memoryPmmBackendEnabled = true := by simp [he]
    refine wp_mono (bootstrapAlloc_spec _ _) ?_ fun _ _ hc => hc.elim
    rintro p t ⟨hgives, -⟩
    exact ⟨⟨bs, h.bootGives hgives, fun _ hc _ => hc⟩,
      fun hp => BootGives.inside (r := .kmallocAligned size alignment) hgives hp he rfl⟩
  · have hfit := hfit he
    rw [if_pos ha] at hfit
    refine wp_mono (kmalloc_inside h fun _ => hfit) ?_ fun _ _ hc => hc
    rintro p t ⟨hadv, hin⟩
    refine ⟨hadv, fun hp => ?_⟩
    have hslot : (Request.kmallocAligned size alignment).slot = 0 := if_pos ha
    have hin := hin hp
    unfold Request.Inside at hin ⊢
    rwa [hslot]
  · have hfit := hfit he
    rw [if_neg ha] at hfit
    have hsum : (size + (alignment + 4)).toNat = size.toNat + alignment.toNat + 4 := by
      rw [BitVec.toNat_add, BitVec.toNat_add, show (4 : U32).toNat = 4 from rfl]
      omega
    refine wp_mono (kmalloc_enabled h he _) ?_ fun _ _ hc => by rw [hc]; exact h.advances
    rintro raw ⟨m₁, s₁⟩ ⟨-, bs', hok, hm⟩
    have hge := @alignUpSize_ge (size + (alignment + 4)) (by rw [hsum]; exact hfit)
    rw [hsum] at hge
    have hadv : Advances bs m₁ := ⟨bs', hok, hm.keepsUsed⟩
    refine ⟨fun _ => ⟨hadv, fun hc => absurd rfl hc⟩, fun hp => ?_⟩
    split
    · obtain ⟨hok₂, hlo, hhi⟩ := hm.aligned hp hok hpow hge
      refine ⟨⟨bs', hok₂, hm.keepsUsed⟩, fun _ => hm.inside hp h.heap he hok₂.heap ?_ hhi⟩
      change raw.toNat + (if alignment ≤ MEMORY_DEFAULT_ALIGNMENT then 0 else 4) ≤ _
      rw [if_neg ha]
      exact hlo
    · exact hadv

/-- **A request that does not wrap stays inside**, in either heap. -/
theorem HeapOk.call_inside (h : HeapOk m bs) (r : Request) (hwf : r.Wf)
    (hwrap : m.memoryPmmBackendEnabled = true → r.NoWrap) :
    wp (r.call B) (fun p t => StaysInside r m bs p t.1) (fun _ t => Advances bs t.1) (m, s) := by
  cases r with
  | kmalloc size => exact kmalloc_inside h hwrap
  | kcalloc num size => exact kcalloc_inside h hwrap
  | kmallocAligned size alignment => exact kmallocAligned_inside h hwf hwrap

/-- `kmalloc` leaves the heap in shape whatever the size. -/
theorem kmalloc_advances (h : HeapOk m bs) (size : U32) :
    wp (kmalloc B size) (fun _ t => Advances bs t.1) (fun _ t => Advances bs t.1) (m, s) := by
  by_cases he : m.memoryPmmBackendEnabled = true
  · refine wp_mono (kmalloc_enabled h he size) ?_ fun _ _ hc => by rw [hc]; exact h.advances
    rintro p t ⟨-, bs', hok, hm⟩
    exact ⟨bs', hok, hm.keepsUsed⟩
  · refine wp_mono (kmalloc_disabled he size) ?_ fun _ _ hc => hc.elim
    rintro p t ⟨hgives, -⟩
    exact ⟨bs, h.bootGives hgives, fun _ hc _ => hc⟩

/-! ## Requests that wrap -/

/-- The pointer `kmalloc` returns lies high enough for any size that wraps. -/
theorem kmalloc_high (h : HeapOk m bs) (he : m.memoryPmmBackendEnabled = true) (size : U32) :
    wp (kmalloc B size) (fun p _ => p ≠ 0 → 0xC100000C ≤ p.toNat ∧ p.toNat ≤ 0xE0000000)
      (fun _ _ => True) (m, s) := by
  refine wp_mono (kmalloc_enabled h he size) ?_ fun _ _ _ => trivial
  rintro p t ⟨-, bs', hok, hm⟩ hp
  cases hm with
  | null hres => exact absurd hres hp
  | used b hptr _ hnew =>
    obtain ⟨hlo, hhi⟩ := hok.heap.inWindow hnew.1
    have hstop : b.stop = b.addr + 12 + b.size := rfl
    omega

theorem kmalloc_wraps (h : HeapOk m bs) (he : m.memoryPmmBackendEnabled = true) {size : U32}
    (hbig : 0xFFFFFFF0 < size.toNat) :
    wp (kmalloc B size) (fun p _ => p ≠ 0 → 2 ^ 32 < p.toNat + size.toNat) (fun _ _ => True)
      (m, s) := by
  refine wp_mono (kmalloc_high h he size) ?_ fun _ _ _ => trivial
  intro p t hp hne
  have := hp hne
  omega

/-- **A request that wraps runs past the end of the address space**, if it is served
at all. -/
theorem HeapOk.call_wraps (h : HeapOk m bs) (he : m.memoryPmmBackendEnabled = true) (r : Request)
    (hwf : r.Wf) (hwrap : ¬ r.NoWrap) :
    wp (r.call B) (fun p _ => p ≠ 0 → 2 ^ 32 < p.toNat + r.requested) (fun _ _ => True) (m, s) := by
  cases r with
  | kmalloc size => exact kmalloc_wraps h he (Nat.lt_of_not_le hwrap)
  | kcalloc num size =>
    have hbig : 0xFFFFFFF0 < num.toNat * size.toNat := Nat.lt_of_not_le hwrap
    refine wp_kcalloc (fun _ hc => absurd rfl hc) fun total _ => ?_
    refine wp_mono (kmalloc_high h he _) ?_ fun _ _ _ => trivial
    intro p t hp
    refine ⟨fun _ hc => absurd rfl hc, fun hne => ?_⟩
    refine wp_mono wp_trivial ?_ fun _ _ _ => trivial
    rintro _ t' - -
    have := hp hne
    change 2 ^ 32 < p.toNat + num.toNat * size.toNat
    omega
  | kmallocAligned size alignment =>
    have hbig : ¬ (if alignment ≤ MEMORY_DEFAULT_ALIGNMENT then size.toNat ≤ 0xFFFFFFF0
      else size.toNat + alignment.toNat + 4 ≤ 0xFFFFFFF0) := hwrap
    refine wp_kmallocAligned (fun _ hc => absurd rfl hc) (fun _ hdis => ?_) (fun _ _ ha => ?_)
      fun _ _ ha => ?_
    · rw [he] at hdis
      cases hdis
    · rw [if_pos ha] at hbig
      exact kmalloc_wraps h he (Nat.lt_of_not_le hbig)
    · rw [if_neg ha] at hbig
      refine wp_mono (kmalloc_high h he _) ?_ fun _ _ _ => trivial
      intro raw t hraw
      refine ⟨fun _ hc => absurd rfl hc, fun hne => ?_⟩
      obtain ⟨hlo, hhi⟩ := hraw hne
      split
      · intro hp
        change 2 ^ 32 < (alignUp (raw + 4) alignment).toNat + size.toNat
        have hbase : (raw + 4).toNat = raw.toNat + 4 := by
          rw [BitVec.toNat_add, show (4 : U32).toNat = 4 from rfl]
          omega
        -- if rounding the pointer up wraps, it comes out as null
        by_cases hfit : (raw + 4).toNat + (alignment.toNat - 1) < 2 ^ 32
        · have hge := le_alignUp hwf hfit
          omega
        · exact absurd (alignUp_wraps hwf (Nat.le_of_not_lt hfit)) hp
      · trivial

/-! ## What requests keep -/

/-- Zeroing keeps what does not depend on the bytes. -/
theorem heapMemset_keeps {P : Memory → σ → Prop}
    (hwrite : ∀ mem vmem s, P mem s → P { mem with vmem := vmem } s) (v : U8) :
    ∀ (n : Nat) (dest : U32) (m : Memory), P m s →
      wp (heapMemset B dest v n) (fun _ t => P t.1 t.2) (fun _ t => P t.1 t.2) (m, s) := by
  intro n
  induction n with
  | zero => intro dest m h; exact h
  | succ n ih =>
    intro dest m h
    rw [heapMemset, wp_bind, checkMapped, wp_bind, wp_get]
    by_cases hmap : B.mapped s dest = true
    · rw [if_pos hmap, wp_pure, wp_bind, wp_modifyMemory]
      exact ih _ _ (hwrite _ _ _ h)
    · rw [if_neg hmap]
      exact h

/-- **A request keeps what `kmalloc` keeps**, if that does not depend on the bytes of
the heap, and, before the backend is enabled, what the bootstrap heap keeps. -/
theorem Request.call_keeps {P : Memory → σ → Prop}
    (hwrite : ∀ mem vmem s, P mem s → P { mem with vmem := vmem } s) (h0 : P m s) (r : Request)
    (hboot : ¬ m.memoryPmmBackendEnabled = true → ∀ n p m', BootGives m n p m' → P m' s)
    (hk : m.memoryPmmBackendEnabled = true → ∀ size, r.inner = some size →
      wp (Frewozet.kmalloc B size) (fun _ t => P t.1 t.2) (fun _ t => P t.1 t.2) (m, s)) :
    wp (r.call B) (fun _ t => P t.1 t.2) (fun _ t => P t.1 t.2) (m, s) := by
  -- `kmalloc` in either heap
  have hkm : ∀ size, (m.memoryPmmBackendEnabled = true → r.inner = some size) →
      wp (Frewozet.kmalloc B size) (fun _ t => P t.1 t.2) (fun _ t => P t.1 t.2) (m, s) := by
    intro size hinner
    by_cases he : m.memoryPmmBackendEnabled = true
    · exact hk he size (hinner he)
    · refine wp_mono (kmalloc_disabled he size) ?_ fun _ _ hc => hc.elim
      rintro p ⟨m', s'⟩ ⟨hgives, hback⟩
      obtain rfl : s' = s := hback
      exact hboot he _ p m' hgives
  cases r with
  | kmalloc size =>
    by_cases hz : size = 0
    · subst hz
      exact h0
    · exact hkm size fun _ => if_neg hz
  | kcalloc num size =>
    refine wp_kcalloc (fun _ => h0) fun total hinner => ?_
    refine wp_mono (hkm total fun _ => hinner) ?_ fun _ _ hc => hc
    intro p t ht
    exact ⟨fun _ => ht, fun _ => heapMemset_keeps hwrite 0 _ p t.1 ht⟩
  | kmallocAligned size alignment =>
    refine wp_kmallocAligned (fun _ => h0) (fun _ he => ?_) (fun hz _ ha => ?_) fun hz _ ha => ?_
    · refine wp_mono (bootstrapAlloc_spec size alignment) ?_ fun _ _ hc => hc.elim
      rintro p ⟨m', s'⟩ ⟨hgives, hback⟩
      obtain rfl : s' = s := hback
      exact hboot (by simp [he]) _ p m' hgives
    · exact hkm size fun _ => by rw [inner, if_neg hz, if_pos ha]
    · refine wp_mono
        (hkm (size + (alignment + 4)) fun _ => by rw [inner, if_neg hz, if_neg ha]) ?_
        fun _ _ hc => hc
      intro raw t ht
      refine ⟨fun _ => ht, fun _ => ?_⟩
      split
      · exact hwrite _ _ _ ht
      · exact ht

end

end Frewozet
