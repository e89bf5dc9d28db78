import Frewozet.Base.Objects
import Frewozet.System.Served

/-!
# What programs keep in the heap

The allocator seen by a program that asks for memory, stores bytes in what it got, and asks
again.  Headers, splits, new regions, zeroing and the word in front of an aligned pointer are
all written to the memory the bytes lie in; none of them is written to a byte the program owns.
The backend is enabled first: what the bootstrap heap hands out lies in frames the heap may be
given afterwards, and the bytes here are those at virtual addresses.

* `Request.fresh` — what a request promises about the bytes it returns.
* `Use`, `Use.exec` — what a program does; `Use.contents` — what it should then find.
* `Owned` — the bytes of a heap that have been given out.
* `heapGrow_keepsBytes`, `kmalloc_keepsBytes`, `Request.call_delivers` — **no call writes
  to them**.
* `TenantOk.step` — one step; `programs_keep_contents` — **whatever a program has stored is
  there**, after any run that begins once the backend is enabled.
-/

namespace Frewozet

open Word Exec Tiling Objects

/-! ## Bytes that have been given out -/

/-- The byte belongs to a caller: it is in the payload of a used block, or the bootstrap heap
is past it. -/
def Owned (m : Memory) (bs : List Block) (a : U32) : Prop :=
  a.toNat < m.bootstrapHeapCurrent.toNat ∨
    ∃ b ∈ bs, b.free = false ∧ b.addr + 12 ≤ a.toNat ∧ a.toNat < b.stop

/-- The bytes callers own are as they were. -/
def KeepsBytes (m : Memory) (bs : List Block) (m' : Memory) : Prop :=
  ∀ a, Owned m bs a → m'.vmem a = m.vmem a

section

variable {σ : Type} {B : Backing σ} {m m' : Memory} {bs bs' : List Block} {s : σ}

theorem KeepsBytes.refl (m : Memory) (bs : List Block) : KeepsBytes m bs m := fun _ _ => rfl

theorem Owned.mono {a : U32} (h : Owned m bs a)
    (hc : m.bootstrapHeapCurrent.toNat ≤ m'.bootstrapHeapCurrent.toNat) (hk : KeepsUsed bs bs') :
    Owned m' bs' a := by
  rcases h with h | ⟨b, hb, hused, hin⟩
  · exact .inl (lt_of_lt_of_le h hc)
  · exact .inr ⟨b, hk b hb hused, hused, hin⟩

theorem KeepsBytes.trans {m'' : Memory} (h : KeepsBytes m bs m') (h' : KeepsBytes m' bs' m'')
    (hc : m.bootstrapHeapCurrent.toNat ≤ m'.bootstrapHeapCurrent.toNat) (hk : KeepsUsed bs bs') :
    KeepsBytes m bs m'' := fun a ha => (h' a (ha.mono hc hk)).trans (h a ha)

/-- An owned byte is in no header, and in no free block. -/
theorem HeapAt.owned_apart (h : HeapAt m bs) (hlow : m.bootstrapHeapCurrent.toNat ≤ 0xC1000000)
    {a : U32} (ha : Owned m bs a) {c : Block} (hc : c ∈ bs) :
    (a.toNat < c.addr ∨ c.addr + 12 ≤ a.toNat) ∧
      (c.free = true → a.toNat < c.addr ∨ c.stop ≤ a.toNat) := by
  have hcstop : c.stop = c.addr + 12 + c.size := rfl
  rcases ha with ha | ⟨b, hb, hused, hlo, hhi⟩
  · have hin := (h.inWindow hc).1
    exact ⟨.inl (by omega), fun _ => .inl (by omega)⟩
  · have hbstop : b.stop = b.addr + 12 + b.size := rfl
    rcases h.tiles.apart hb hc with rfl | hle | hle
    · refine ⟨.inr hlo, fun hfree => ?_⟩
      rw [hused] at hfree
      cases hfree
    · exact ⟨.inl (by omega), fun _ => .inl (by omega)⟩
    · exact ⟨.inr (by omega), fun _ => .inr (by omega)⟩

/-- Nor is it in a region the heap has yet to get. -/
theorem HeapAt.owned_below (h : HeapAt m bs) (hlow : m.bootstrapHeapCurrent.toNat ≤ 0xC1000000)
    {a : U32} (ha : Owned m bs a) : a.toNat < m.heapVirtualCurrent.toNat := by
  have hle := h.tiles.le
  rcases ha with ha | ⟨b, hb, -, -, hhi⟩
  · omega
  · have hbounds := h.tiles.mem_bounds hb
    omega

/-! ## The calls write to none of them -/

/-- `heap_add_region` writes the header of the region and the link of the last block. -/
theorem HeapAt.addRegion_keepsBytes (h : HeapAt m bs)
    (hlow : m.bootstrapHeapCurrent.toNat ≤ 0xC1000000) {size : U32} (hroom : RoomFor m size)
    {m' : Memory}
    (hadd : heapAddRegion m.heapVirtualCurrent (regionBytes size)
      (m.withRegion (regionBytes size) m.vmem m.heapHead) = some m') : KeepsBytes m bs m' := by
  intro a ha
  have hbelow := h.owned_below hlow ha
  have hlo := h.tiles.le
  have hpages := growPages_bounds size
  unfold RoomFor at hroom
  have hregion : BitVec.ofNat 32 m.heapVirtualCurrent.toNat = m.heapVirtualCurrent := by simp
  obtain ⟨-, hout⟩ := headerAt_writeBlock m.vmem (a := m.heapVirtualCurrent.toNat) (by omega)
    (regionBytes size - HEAP_BLOCK_BYTES) 1 0
  rw [hregion] at hout
  have hkeep := hout 0 m.heapVirtualCurrent.toNat (.inr (le_refl _)) a (Nat.zero_le _) hbelow
  unfold heapAddRegion Memory.withRegion at hadd
  dsimp only at hadd
  split at hadd
  · obtain rfl := Option.some.inj hadd
    rfl
  generalize hv : writeBlock m.vmem m.heapVirtualCurrent (regionBytes size - HEAP_BLOCK_BYTES) 1 0 =
    vmem at hadd hkeep hout
  split at hadd
  · obtain rfl := Option.some.inj hadd
    exact hkeep
  · rename_i hhead
    -- the last block of the list is one of its blocks
    rcases List.eq_nil_or_concat bs with rfl | ⟨xs, last, rfl⟩
    · exact absurd h.head hhead
    rw [List.concat_eq_append] at h ha
    have hin := fun b hb => h.inWindow (b := b) hb
    have hold : Chain vmem 0 (xs ++ [last]) :=
      h.chain.congr_tiles h.tiles (by omega) (hout _ _ (.inr (le_refl _)))
    have hlen := h.length_lt
    rw [List.length_append] at hlen
    rw [h.head, heapLast_spec xs WALK_STEPS hold hin (by omega), Option.map_some] at hadd
    obtain rfl := Option.some.inj hadd
    have hlast : last ∈ xs ++ [last] := by simp
    have happart := (h.owned_apart hlow ha hlast).1
    have hstop : last.stop = last.addr + 12 + last.size := rfl
    have hlink : (last.ptr + 8#32).toNat = last.addr + 8 := by
      have := (hin last hlast).2
      rw [BitVec.toNat_add, (hin last hlast).ptr_toNat, show (8#32).toNat = 8 from rfl]
      omega
    exact (Mem.write32_outside vmem _ (by have := (hin last hlast).2; omega)
      (by omega)).trans hkeep

/-- **`heap_grow`** writes to no byte that has been given out. -/
theorem heapGrow_keepsBytes (h : HeapAt m bs) (hlow : m.bootstrapHeapCurrent.toNat ≤ 0xC1000000)
    (size : U32) :
    wp (heapGrow B size) (fun _ t => KeepsBytes m bs t.1) (fun _ _ => True) (m, s) := by
  have hroom := roomFor_iff h.limit size
  unfold heapGrow
  rw [wp_bind, wp_getMemory]
  dsimp only
  rw [← regionBytes]
  by_cases h1 : m.heapVirtualCurrent + regionBytes size < m.heapVirtualCurrent
  · rw [if_pos h1]
    exact .refl m bs
  by_cases h2 : m.heapVirtualCurrent + regionBytes size > KERNEL_HEAP_END
  · rw [if_neg h1, if_pos h2]
    exact .refl m bs
  rw [if_neg h1, if_neg h2, wp_bind, onBacking, wp_zoom]
  refine wp_mono wp_trivial ?_ fun _ _ _ => trivial
  rintro grown s' -
  cases grown with
  | false => exact .refl m bs
  | true =>
    simp only [Bool.not_true, Bool.false_eq_true, if_false, wp_bind, wp_modifyMemory, wp_getMemory]
    change wp (ofOption .hang (heapAddRegion m.heapVirtualCurrent (regionBytes size)
      (m.withRegion (regionBytes size) m.vmem m.heapHead))) _ _ _
    cases hadd : heapAddRegion m.heapVirtualCurrent (regionBytes size)
        (m.withRegion (regionBytes size) m.vmem m.heapHead) with
    | none => trivial
    | some m' => exact h.addRegion_keepsBytes hlow (hroom.2 ⟨h1, h2⟩) hadd

/-- A request served from a free block is served inside it. -/
theorem Serves.keepsBytes {size p : U32} (hs : Serves m bs size p m') (h : HeapAt m bs)
    (hlow : m.bootstrapHeapCurrent.toNat ≤ 0xC1000000) : KeepsBytes m bs m' := by
  obtain ⟨xs, b, ys, vmem, rfl, -, hfits, -, rfl, -, hout⟩ := hs
  intro a ha
  have hfree : b.free = true := by
    rw [Block.fits, Bool.and_eq_true] at hfits
    exact hfits.1
  have hstop : b.stop = b.addr + 12 + b.size := rfl
  rcases (h.owned_apart hlow ha (c := b) (by simp)).2 hfree with hlt | hle
  · exact hout a.toNat (a.toNat + 1) (.inl (by omega)) a (le_refl _) (by omega)
  · exact hout a.toNat (a.toNat + 1) (.inr (by omega)) a (le_refl _) (by omega)

/-- Before the backend is enabled nothing is written at all. -/
theorem BootGives.keepsBytes {n : Nat} {p : U32} (hg : BootGives m n p m') :
    KeepsBytes m bs m' := by
  rcases hg with ⟨-, rfl⟩ | ⟨k, rfl, -⟩
  all_goals exact fun _ _ => rfl

/-- **`kmalloc`** writes to no byte that has been given out. -/
theorem kmalloc_keepsBytes (h : HeapOk m bs) (hlow : m.bootstrapHeapCurrent.toNat ≤ 0xC1000000)
    (size : U32) :
    wp (kmalloc B size) (fun _ t => KeepsBytes m bs t.1) (fun _ _ => True) (m, s) := by
  by_cases he : m.memoryPmmBackendEnabled = true
  swap
  · exact wp_mono (kmalloc_disabled he size) (fun _ _ hc => hc.1.keepsBytes) fun _ _ _ => trivial
  have hidem := alignUpSize_idem size
  unfold kmalloc
  by_cases h0 : size = 0
  · rw [if_pos h0]
    exact .refl m bs
  rw [if_neg h0]
  dsimp only
  generalize alignUpSize size MEMORY_DEFAULT_ALIGNMENT = size' at hidem
  rw [wp_bind, wp_getMemory, he]
  simp only [Bool.not_true, Bool.false_eq_true, if_false]
  rw [wp_bind, h.heap.find, wp_ofOption_some]
  cases hf : bs.find? (Block.fits size'.toNat) with
  | some b =>
    have hne := (h.heap.inWindow (List.mem_of_find?_eq_some hf)).ptr_ne
    dsimp only
    rw [if_neg hne]
    exact wp_mono (takeBlock_spec h.heap hidem hf) (fun _ _ hc => hc.1.keepsBytes h.heap hlow)
      fun _ _ _ => trivial
  | none =>
    dsimp only
    rw [if_pos rfl, wp_bind]
    refine wp_mono (wp_and (heapGrow_spec h.heap size') (heapGrow_keepsBytes h.heap hlow size')) ?_
      fun _ _ _ => trivial
    rintro ok ⟨m₁, s₁⟩ ⟨hgrow, hkeep⟩
    obtain ⟨hsame, -, hgrown⟩ := hgrow.heap h.heap
    cases ok with
    | false => exact hkeep
    | true =>
      have hheap := hgrown rfl
      simp only [Bool.not_true, Bool.false_eq_true, if_false]
      rw [wp_bind, wp_getMemory, wp_bind, hheap.find, wp_ofOption_some]
      cases hf' : (bs ++ [regionBlock m size']).find? (Block.fits size'.toNat) with
      | none =>
        dsimp only
        rw [if_pos rfl]
        exact hkeep
      | some b =>
        have hne := (hheap.inWindow (List.mem_of_find?_eq_some hf')).ptr_ne
        dsimp only
        rw [if_neg hne]
        refine wp_mono (takeBlock_spec hheap hidem hf') ?_ fun _ _ _ => trivial
        rintro p t ⟨hserves, -⟩
        refine hkeep.trans (hserves.keepsBytes hheap ?_) ?_ ?_
        · rw [hsame.current]
          exact hlow
        · rw [hsame.current]
        · exact fun c hc _ => List.mem_append_left _ hc

/-! ## What a request returns is new -/

/-- The bytes end in the address space. -/
theorem Request.Inside.lt {r : Request} {p : U32} (h : r.Inside m p m') :
    p.toNat + r.requested < 2 ^ 32 := by
  obtain ⟨-, h⟩ := h
  split at h
  · obtain ⟨_, bs', b, -, hheap, hnew, -, -, hhi⟩ := h
    have hin := (hheap.inWindow hnew.1).2
    omega
  · exact lt_of_le_of_lt h.2 (BitVec.isLt _)

/-- **No byte that has been given out is given out again.** -/
theorem StaysInside.fresh {r : Request} {p : U32} (hs : StaysInside r m bs p m') (h : HeapOk m bs)
    (hlow : m.bootstrapHeapCurrent.toNat ≤ 0xC1000000) (hp : p ≠ 0) {a : U32}
    (ha : Owned m bs a) : a.toNat < p.toNat ∨ p.toNat + r.requested ≤ a.toNat := by
  obtain ⟨⟨cs', hok', hkept⟩, hin⟩ := hs
  obtain ⟨-, hin⟩ := hin hp
  split at hin
  · obtain ⟨cs, bs', b, hcs, hheap', hnew, -, hlo, hhi⟩ := hin
    obtain rfl := hcs.unique h.heap
    obtain rfl := hheap'.unique hok'.heap
    have hbstop : b.stop = b.addr + 12 + b.size := rfl
    rcases ha with ha | ⟨c, hc, hused, h1, h2⟩
    · have := (hheap'.inWindow hnew.1).1
      omega
    · have hcstop : c.stop = c.addr + 12 + c.size := rfl
      have hne := hnew.2.2 c hc hused
      rcases hheap'.tiles.apart (hkept c hc hused) hnew.1 with rfl | hle | hle
      · exact absurd rfl hne
      · omega
      · omega
  · rename_i he
    have hnil : bs = [] := not_not.1 fun hc => he (h.enabled.2 hc)
    subst hnil
    rcases ha with ha | ⟨c, hc, -⟩
    · omega
    · exact absurd hc List.not_mem_nil

/-- What a request has returned belongs to the caller now. -/
theorem StaysInside.owned {r : Request} {p : U32} (hs : StaysInside r m bs p m') (hp : p ≠ 0) :
    ∃ bs', HeapOk m' bs' ∧ KeepsUsed bs bs' ∧
      ∀ a : U32, p.toNat ≤ a.toNat → a.toNat < p.toNat + r.requested → Owned m' bs' a := by
  obtain ⟨⟨bs', hok', hkept⟩, hin⟩ := hs
  refine ⟨bs', hok', hkept, fun a hlo hhi => ?_⟩
  obtain ⟨-, hin⟩ := hin hp
  split at hin
  · obtain ⟨_, cs, b, -, hheap', hnew, -, h1, h2⟩ := hin
    obtain rfl := hheap'.unique hok'.heap
    exact .inr ⟨b, hnew.1, hnew.2.1, by omega, by omega⟩
  · exact .inl (by omega)

/-! ## What a request writes to what it returns -/

/-- What a caller may expect to find in what it asked for: zeros, if it asked for them. -/
def Request.fresh : Request → Contents U8
  | .kcalloc _ _ => fun _ => some 0
  | _ => fun _ => none

/-- The cells of `n` bytes from `p` on. -/
def bytesAt (p : U32) (n : Nat) : Extent U32 := ⟨fun k => p + BitVec.ofNat 32 k, n⟩

theorem bytesAt_covers {p a : U32} {n : Nat} (hn : p.toNat + n ≤ 2 ^ 32) :
    (bytesAt p n).Covers a ↔ p.toNat ≤ a.toNat ∧ a.toNat < p.toNat + n := by
  constructor
  · rintro ⟨k, hk, rfl⟩
    have hk : k < n := hk
    have hcell : (p + BitVec.ofNat 32 k).toNat = p.toNat + k := Mem.toNat_add_of_lt (by omega)
    exact ⟨by change _ ≤ (p + BitVec.ofNat 32 k).toNat; omega,
      by change (p + BitVec.ofNat 32 k).toNat < _; omega⟩
  · rintro ⟨hlo, hhi⟩
    refine ⟨a.toNat - p.toNat, by change _ < n; omega, ?_⟩
    have hcell : (p + BitVec.ofNat 32 (a.toNat - p.toNat)).toNat = p.toNat + (a.toNat - p.toNat) :=
      Mem.toNat_add_of_lt (by omega)
    exact BitVec.eq_of_toNat_eq (by change (p + BitVec.ofNat 32 _).toNat = _; omega)

theorem bytesAt_simple {p : U32} {n : Nat} (hn : p.toNat + n ≤ 2 ^ 32) : (bytesAt p n).Simple := by
  intro j k hj hk heq
  have hj : j < n := hj
  have hk : k < n := hk
  have heq : p + BitVec.ofNat 32 j = p + BitVec.ofNat 32 k := heq
  have h1 : (p + BitVec.ofNat 32 j).toNat = p.toNat + j := Mem.toNat_add_of_lt (by omega)
  have h2 : (p + BitVec.ofNat 32 k).toNat = p.toNat + k := Mem.toNat_add_of_lt (by omega)
  rw [heq] at h1
  omega

/-- `memset` fills what it is given. -/
theorem heapMemset_fills (v : U8) : ∀ (n : Nat) (dest : U32) (m : Memory), dest.toNat + n < 2 ^ 32 →
    wp (heapMemset B dest v n)
      (fun _ t => ∀ a : U32, dest.toNat ≤ a.toNat → a.toNat < dest.toNat + n → t.1.vmem a = v)
      (fun _ _ => True) (m, s) := by
  intro n
  induction n with
  | zero => intro dest m _ a h1 h2; omega
  | succ n ih =>
    intro dest m hfit
    rw [heapMemset, wp_bind, checkMapped, wp_bind, wp_get]
    by_cases hmap : B.mapped s dest = true
    · have hnext : (dest + 1#32).toNat = dest.toNat + 1 := Mem.toNat_add_of_lt (k := 1) (by omega)
      rw [if_pos hmap, wp_pure, wp_bind, wp_modifyMemory]
      refine wp_mono (wp_and (ih (dest + 1#32) { m with vmem := m.vmem.write8 dest v } (by omega))
        (heapMemset_spec v n (dest + 1#32) { m with vmem := m.vmem.write8 dest v } (by omega))) ?_
        fun _ _ _ => trivial
      rintro _ t ⟨hrest, vmem, hmem, hout⟩ a hlo hhi
      by_cases ha : a = dest
      · subst ha
        have hkeep := hout a.toNat (a.toNat + 1) (.inl (by omega)) a (le_refl _) (by omega)
        rw [hmem]
        exact hkeep.trans (Mem.write8_same m.vmem a v)
      · have hne : a.toNat ≠ dest.toNat := fun hc => ha (BitVec.eq_of_toNat_eq hc)
        exact hrest a (by omega) (by omega)
    · rw [if_neg hmap]
      trivial

/-- What a request leaves behind that returns: the bytes given out before are as they were,
and those it returns are what the caller may expect. -/
structure Delivers (r : Request) (m : Memory) (bs : List Block) (p : U32) (m' : Memory) : Prop where
  keeps : KeepsBytes m bs m'
  fills : p ≠ 0 → (bytesAt p r.requested).Holds m'.vmem r.fresh

theorem Delivers.null {r : Request} (hkeep : KeepsBytes m bs m') : Delivers r m bs 0 m' :=
  ⟨hkeep, fun hp => absurd rfl hp⟩

/-- A request that promises nothing of the bytes. -/
theorem Delivers.of_keeps {r : Request} (hr : r.fresh = fun _ => none) {p : U32}
    (hkeep : KeepsBytes m bs m') : Delivers r m bs p m' :=
  ⟨hkeep, fun _ k v _ hc => by rw [hr] at hc; cases hc⟩

theorem kcalloc_delivers (h : HeapOk m bs) (hlow : m.bootstrapHeapCurrent.toNat ≤ 0xC1000000)
    {num size : U32}
    (hwrap : m.memoryPmmBackendEnabled = true → num.toNat * size.toNat ≤ 0xFFFFFFF0) :
    wp (kcalloc B num size) (fun p t => Delivers (.kcalloc num size) m bs p t.1) (fun _ _ => True)
      (m, s) := by
  refine wp_kcalloc (fun _ => .null (.refl m bs)) fun total hinner => ?_
  have htotal := inner_kcalloc hinner
  rw [← htotal] at hwrap
  refine wp_mono (wp_and (kmalloc_keepsBytes h hlow total) (kmalloc_inside h hwrap)) ?_
    fun _ _ _ => trivial
  rintro p ⟨m₁, s₁⟩ ⟨hkeep, hstays⟩
  refine ⟨fun _ => .null hkeep, fun hp => ?_⟩
  have hlt : p.toNat + total.toNat < 2 ^ 32 := (hstays.2 hp).lt
  refine wp_mono (wp_and (heapMemset_spec 0 total.toNat p m₁ hlt)
    (heapMemset_fills 0 total.toNat p m₁ hlt)) ?_ fun _ _ _ => trivial
  rintro _ t ⟨⟨vmem, hmem, hout⟩, hfill⟩
  refine ⟨fun a ha => ?_, fun _ k v hk hc => ?_⟩
  · -- the bytes zeroed are not among those given out before
    have hapart : a.toNat < p.toNat ∨ p.toNat + total.toNat ≤ a.toNat :=
      hstays.fresh h hlow hp ha
    refine Eq.trans ?_ (hkeep a ha)
    rw [hmem]
    exact hout a.toNat (a.toNat + 1) (by omega) a (le_refl _) (by omega)
  · obtain rfl : v = 0 := (Option.some.inj hc).symm
    have hk : k < num.toNat * size.toNat := hk
    have hcell : (p + BitVec.ofNat 32 k).toNat = p.toNat + k := Mem.toNat_add_of_lt (by omega)
    exact hfill _ (by change _ ≤ (p + BitVec.ofNat 32 k).toNat; omega)
      (by change (p + BitVec.ofNat 32 k).toNat < _; omega)

theorem kmallocAligned_delivers (h : HeapOk m bs)
    (hlow : m.bootstrapHeapCurrent.toNat ≤ 0xC1000000) {size alignment : U32}
    (hpow : IsPow2 alignment)
    (hwrap : m.memoryPmmBackendEnabled = true → (Request.kmallocAligned size alignment).NoWrap) :
    wp (kmallocAligned B size alignment)
      (fun p t => Delivers (.kmallocAligned size alignment) m bs p t.1) (fun _ _ => True)
      (m, s) := by
  refine wp_kmallocAligned (fun _ => .null (.refl m bs)) (fun _ _ => ?_) (fun _ _ _ => ?_)
    fun _ he ha => ?_
  · exact wp_mono (bootstrapAlloc_spec _ _) (fun _ _ hc => .of_keeps rfl hc.1.keepsBytes)
      fun _ _ _ => trivial
  · exact wp_mono (kmalloc_keepsBytes h hlow size) (fun _ _ hc => .of_keeps rfl hc)
      fun _ _ hc => hc
  · have hfit : if alignment ≤ MEMORY_DEFAULT_ALIGNMENT then size.toNat ≤ 0xFFFFFFF0
      else size.toNat + alignment.toNat + 4 ≤ 0xFFFFFFF0 := hwrap he
    rw [if_neg ha] at hfit
    have hpos := hpow.pos
    have hsum : (size + (alignment + 4)).toNat = size.toNat + alignment.toNat + 4 := by
      rw [BitVec.toNat_add, BitVec.toNat_add, show (4 : U32).toNat = 4 from rfl]
      omega
    refine wp_mono (wp_and (kmalloc_keepsBytes h hlow (size + (alignment + 4)))
      (kmalloc_inside h fun _ => by rw [hsum]; exact hfit)) ?_ fun _ _ _ => trivial
    rintro raw ⟨m₁, s₁⟩ ⟨hkeep, hstays⟩
    refine ⟨fun _ => .null hkeep, fun hp => ?_⟩
    split
    · -- the word in front of the pointer lies in what `kmalloc` has just returned
      have hlt : raw.toNat + (size + (alignment + 4)).toNat < 2 ^ 32 := (hstays.2 hp).lt
      have hbase : (raw + 4).toNat = raw.toNat + 4 := by
        rw [BitVec.toNat_add, show (4 : U32).toNat = 4 from rfl]
        omega
      have hge := le_alignUp hpow (v := raw + 4) (by omega)
      have hle := alignUp_le hpow (v := raw + 4) (by omega)
      have hslot : (alignUp (raw + 4) alignment - 4#32).toNat =
          (alignUp (raw + 4) alignment).toNat - 4 :=
        BitVec.toNat_sub_of_le (BitVec.le_def.2 (by rw [show (4#32).toNat = 4 from rfl]; omega))
      refine .of_keeps rfl fun a hown => ?_
      have hapart : a.toNat < raw.toNat ∨ raw.toNat + (size + (alignment + 4)).toNat ≤ a.toNat :=
        hstays.fresh h hlow hp hown
      exact (Mem.write32_outside m₁.vmem raw (by omega) (by omega)).trans (hkeep a hown)
    · trivial

/-- **No request writes to a byte that has been given out**, and `kcalloc` returns zeros. -/
theorem Request.call_delivers (h : HeapOk m bs) (hlow : m.bootstrapHeapCurrent.toNat ≤ 0xC1000000)
    (r : Request) (hwf : r.Wf) (hwrap : m.memoryPmmBackendEnabled = true → r.NoWrap) :
    wp (r.call B) (fun p t => Delivers r m bs p t.1) (fun _ _ => True) (m, s) := by
  cases r with
  | kmalloc size =>
    exact wp_mono (kmalloc_keepsBytes h hlow size) (fun _ _ hc => .of_keeps rfl hc)
      fun _ _ hc => hc
  | kcalloc num size => exact kcalloc_delivers h hlow hwrap
  | kmallocAligned size alignment => exact kmallocAligned_delivers h hlow hwf hwrap

end

/-! ## Tenants -/

/-- What a program has been granted: the pointer, and how many bytes it may use, none if the
pointer is null. -/
structure Grant where
  ptr : U32
  size : Nat

/-- What a request grants by returning a pointer. -/
def Request.grant (r : Request) (p : U32) : Grant := ⟨p, if p = 0 then 0 else r.requested⟩

/-- The cells of a grant. -/
def Grant.extent (g : Grant) : Extent U32 := bytesAt g.ptr g.size

/-- What a program does with the allocator: a request is made, or a byte is stored at an offset
into the `i`-th grant. -/
inductive Use where
  | request (r : Request)
  | store (i offset : Nat) (value : U8)

/-- The kernel's heap, and what the program has been granted so far. -/
abbrev Tenant (σ : Type) := (Memory × σ) × List Grant

section

variable {σ : Type} (B : Backing σ)

/-- A call of the heap. -/
def inHeap {α : Type} (x : Exec (Memory × σ) α) : Exec (Tenant σ) α :=
  zoom Prod.fst (fun s t => (s, t.2)) x

/-- Doing it: a store past the end of a grant is one the program does not make. -/
def Use.exec : Use → Exec (Tenant σ) Unit
  | .request r => do
    let p ← inHeap (r.call B)
    modify fun t => (t.1, t.2 ++ [r.grant p])
  | .store i offset value => do
    let t ← get
    match t.2[i]? with
    | none => return ()
    | some g =>
      if offset < g.size then inHeap do
        checkMapped B (g.ptr + BitVec.ofNat 32 offset)
        modifyMemory fun m => { m with
          vmem := m.vmem.write8 (g.ptr + BitVec.ofNat 32 offset) value }
      else
        return ()

end

/-- What the program may expect to find in its grants afterwards. -/
def Use.contents (cs : List (Contents U8)) : Use → List (Contents U8)
  | .request r => cs ++ [r.fresh]
  | .store i offset value => cs.modify i fun c => c.set offset value

/-- Requests have alignments that are powers of two, and sizes that round up within 32 bits. -/
def Use.Wf : Use → Prop
  | .request r => r.Wf ∧ r.NoWrap
  | _ => True

/-! ## Every step keeps what has been stored -/

/-- The heap is in shape, what was granted belongs to the program, and the contents are
there. -/
structure TenantOk {σ : Type} (t : Tenant σ) (cs : List (Contents U8)) : Prop where
  heap : ∃ bs, HeapOk t.1.1 bs ∧ ∀ g ∈ t.2, ∀ a, g.extent.Covers a → Owned t.1.1 bs a
  bootstrap : BootstrapIn t.1.1
  objects : InMemory t.1.1.vmem (t.2.map Grant.extent) cs

section

variable {σ : Type} {B : Backing σ} {t t' : Tenant σ} {cs : List (Contents U8)}

theorem BootstrapIn.low {m : Memory} (h : BootstrapIn m) :
    m.bootstrapHeapCurrent.toNat ≤ 0xC1000000 := h.below.trans (by decide)

/-- No cell of a null pointer. -/
theorem not_covers_empty {e : Extent U32} (he : e.size = 0) (a : U32) : ¬ e.Covers a := by
  rintro ⟨k, hk, -⟩
  omega

/-- A call that keeps the bytes given out keeps the program's. -/
theorem TenantOk.objects_of_keeps {m' : Memory} {bs : List Block} (h : TenantOk t cs)
    (howned : ∀ g ∈ t.2, ∀ a, g.extent.Covers a → Owned t.1.1 bs a)
    (hkeep : KeepsBytes t.1.1 bs m') : InMemory m'.vmem (t.2.map Grant.extent) cs := by
  refine h.objects.congr fun e he a ha => ?_
  obtain ⟨g, hg, rfl⟩ := List.mem_map.1 he
  exact hkeep a (howned g hg a ha)

/-- The bootstrap heap lies in the direct map, and it has got this far. -/
def BootstrapFrom (l : Nat) (m : Memory) : Prop :=
  l ≤ m.bootstrapHeapCurrent.toNat ∧ BootstrapIn m

section

variable {m m' : Memory} {s : σ} {l : Nat}

theorem BootstrapFrom.same (h : BootstrapFrom l m) (hs : SameStatics m m') : BootstrapFrom l m' :=
  ⟨by rw [hs.current]; exact h.1, h.2.same hs⟩

theorem BootstrapFrom.gives (h : BootstrapFrom l m) {n : Nat} {p : U32} (hg : BootGives m n p m') :
    BootstrapFrom l m' := by
  refine ⟨h.1.trans ?_, h.2.gives hg⟩
  rcases hg with ⟨-, rfl⟩ | ⟨k, rfl, hlo, hsum, -⟩
  · exact le_refl _
  · change _ ≤ (p + k).toNat
    omega

theorem enable_bootstrapFrom (h : BootstrapFrom l m) :
    wp (memoryEnablePmmBackend B) (fun _ u => BootstrapFrom l u.1) (fun _ _ => True) (m, s) := by
  refine wp_mono (memoryEnablePmmBackend_keeps (B := B) (P := fun mem _ => BootstrapFrom l mem)
    (fun _ _ _ hs hm => hm.same hs)
    (fun _ _ _ _ hm => wp_mono wp_trivial (fun _ _ _ => hm) fun _ _ _ => hm)
    (fun _ _ hm => ⟨hm.1, hm.2.above, hm.2.below, hm.2.limit⟩)
    (fun _ _ _ hm => ⟨hm.1, hm.2.above, hm.2.below, hm.2.limit⟩) (m, s) h) (fun _ _ hc => hc)
    fun _ _ _ => trivial

theorem call_bootstrapFrom (h : BootstrapFrom l m) (r : Request) :
    wp (r.call B) (fun _ u => BootstrapFrom l u.1) (fun _ _ => True) (m, s) := by
  have hsame : ∀ mem mem' (_ : σ), SameStatics mem mem' → BootstrapFrom l mem →
      BootstrapFrom l mem' := fun _ _ _ hs hm => hm.same hs
  have hgrow : ∀ mem virt n (u : σ), BootstrapFrom l mem →
      wp (heapGrowPages B virt n) (fun _ _ => BootstrapFrom l mem)
        (fun _ _ => BootstrapFrom l mem) u :=
    fun mem virt n u hm => wp_mono wp_trivial (fun _ _ _ => hm) fun _ _ _ => hm
  refine wp_mono (Request.call_keeps (P := fun mem _ => BootstrapFrom l mem)
    (fun mem vmem _ hm => hm.same (.vmem mem vmem)) h r (fun _ _ _ _ hg => h.gives hg)
    fun he size _ => kmalloc_keeps (P := fun mem _ => BootstrapFrom l mem) hsame hgrow he size h)
    (fun _ _ hc => hc) fun _ _ _ => trivial

end

/-- The kernel as it is booted, once it has enabled the backend: nothing has been granted. -/
theorem TenantOk.enabled {info : E820Info} {k : KernelImage} {vmem : Mem} {s s' : σ} {m : Memory}
    (henable : memoryEnablePmmBackend B ((boot info k vmem).memory, s) = .ret () (m, s')) :
    TenantOk ((m, s'), []) [] := by
  obtain ⟨bs, hok, -⟩ := wp_ret ((heapOk_boot info k vmem).enable (B := B) (s := s)) henable
  obtain ⟨-, hboot⟩ := wp_ret (enable_bootstrapFrom (B := B) (s := s)
    ⟨le_refl _, bootstrapIn_boot info k vmem⟩) henable
  exact ⟨⟨bs, hok, fun _ hg => absurd hg List.not_mem_nil⟩, hboot, .nil _⟩

/-- **A request** adds an object, apart from the ones there are. -/
theorem TenantOk.request (h : TenantOk t cs) {r : Request} (hwf : r.Wf) (hwrap : r.NoWrap) :
    wp ((Use.request r).exec B) (fun _ u => TenantOk u (cs ++ [r.fresh])) (fun _ _ => True) t := by
  have htenant := h
  obtain ⟨⟨bs, hok, howned⟩, hboot, -⟩ := h
  unfold Use.exec inHeap
  rw [wp_bind, wp_zoom]
  have hcall := wp_and (wp_and (hok.call_inside (B := B) (s := t.1.2) r hwf fun _ => hwrap)
    (call_bootstrapFrom (B := B) (s := t.1.2) ⟨le_refl _, hboot⟩ r))
    (Request.call_delivers (B := B) (s := t.1.2) hok hboot.low r hwf fun _ => hwrap)
  refine wp_mono hcall ?_ fun _ _ _ => trivial
  rintro p u ⟨⟨hstays, hcur, hboot'⟩, hdel⟩
  rw [wp_modify]
  have hold := htenant.objects_of_keeps howned hdel.keeps
  by_cases hp : p = 0
  · -- nothing was granted
    obtain ⟨⟨bs', hok', hkept⟩, -⟩ := hstays
    have hempty : (r.grant p).extent.size = 0 := if_pos hp
    refine ⟨⟨bs', hok', fun g hg a ha => ?_⟩, hboot', ?_⟩
    · rcases List.mem_append.1 hg with hg | hg
      · exact (howned g hg a ha).mono hcur hkept
      · rw [List.mem_singleton.1 hg] at ha
        exact absurd ha (not_covers_empty hempty a)
    · rw [List.map_append]
      refine hold.alloc (fun j k hj => ?_) (fun f _ a _ ha => not_covers_empty hempty a ha)
        fun k v hk => ?_
      all_goals omega
  · obtain ⟨bs', hok', hkept, hnew⟩ := hstays.owned hp
    have hle : p.toNat + r.requested ≤ 2 ^ 32 := (hstays.2 hp).1
    have hgrant : (r.grant p).extent = bytesAt p r.requested := by
      rw [Request.grant, if_neg hp]
      rfl
    refine ⟨⟨bs', hok', fun g hg a ha => ?_⟩, hboot', ?_⟩
    · rcases List.mem_append.1 hg with hg | hg
      · exact (howned g hg a ha).mono hcur hkept
      · rw [List.mem_singleton.1 hg, hgrant, bytesAt_covers hle] at ha
        exact hnew a ha.1 ha.2
    · rw [List.map_append, List.map_singleton, hgrant]
      refine hold.alloc (bytesAt_simple hle) (fun f hf a ha hc => ?_) (hdel.fills hp)
      obtain ⟨g, hg, rfl⟩ := List.mem_map.1 hf
      rw [bytesAt_covers hle] at hc
      have hfresh := hstays.fresh hok hboot.low hp (howned g hg a ha)
      omega

/-- **A store** changes the contents of one object. -/
theorem TenantOk.store (h : TenantOk t cs) (i offset : Nat) (value : U8) :
    wp ((Use.store i offset value).exec B)
      (fun _ u => TenantOk u (cs.modify i fun c => c.set offset value)) (fun _ _ => True) t := by
  obtain ⟨⟨bs, hok, howned⟩, hboot, hobj⟩ := h
  have hsame : (∀ g, t.2[i]? = some g → g.size ≤ offset) →
      TenantOk t (cs.modify i fun c => c.set offset value) := fun hno =>
    ⟨⟨bs, hok, howned⟩, hboot, hobj.store_outside value fun e he => by
      rw [List.getElem?_map] at he
      obtain ⟨g, hg, rfl⟩ := Option.map_eq_some_iff.1 he
      exact hno g hg⟩
  unfold Use.exec
  rw [wp_bind, wp_get]
  cases hg : t.2[i]? with
  | none => exact hsame fun g hc => by rw [hg] at hc; cases hc
  | some g =>
    dsimp only
    by_cases hin : offset < g.size
    swap
    · rw [if_neg hin]
      refine hsame fun g' hc => ?_
      rw [hg] at hc
      obtain rfl := Option.some.inj hc
      exact Nat.le_of_not_lt hin
    rw [if_pos hin]
    unfold inHeap
    rw [wp_zoom, wp_bind, checkMapped, wp_bind, wp_get]
    split
    swap
    · trivial
    rw [wp_pure, wp_modifyMemory]
    have hmem : g ∈ t.2 := List.mem_of_getElem? hg
    have hown := howned g hmem _ (Extent.covers_cell (e := g.extent) hin)
    change Owned _ _ (g.ptr + BitVec.ofNat 32 offset) at hown
    generalize hcell : g.ptr + BitVec.ofNat 32 offset = a at hown
    have hother : ∀ x, x ≠ a → t.1.1.vmem.write8 a value x = t.1.1.vmem x := fun x hx =>
      Mem.write8_of_ne _ value hx
    refine ⟨⟨bs, ⟨hok.heap.write fun b hb => ?_, hok.enabled⟩, howned⟩,
      hboot.same (.vmem _ _), ?_⟩
    · -- the byte is in no header
      have happart := (hok.heap.owned_apart hboot.low hown hb).1
      exact Mem.agreeOn_write8 _ _ (by omega)
    · refine hobj.store (e := g.extent) ?_ hin ?_ fun x hx => hother x ?_
      · rw [List.getElem?_map, hg]
        rfl
      · change t.1.1.vmem.write8 a value (g.ptr + BitVec.ofNat 32 offset) = value
        rw [hcell]
        exact Mem.write8_same _ a value
      · rw [← hcell]
        exact hx

/-- **One step.** -/
theorem TenantOk.step (h : TenantOk t cs) {u : Use} (hu : u.Wf) :
    wp (u.exec B) (fun _ t' => TenantOk t' (u.contents cs)) (fun _ _ => True) t := by
  cases u with
  | request r => exact h.request hu.1 hu.2
  | store i offset value => exact h.store i offset value

/-- **Any number of steps.** -/
theorem TenantOk.run {us : List Use} : ∀ {t : Tenant σ} {cs : List (Contents U8)}, TenantOk t cs →
    (∀ u ∈ us, u.Wf) → ∀ {t' : Tenant σ}, runAll (Use.exec B) us t = .ret () t' →
      TenantOk t' (us.foldl Use.contents cs) := by
  induction us with
  | nil =>
    intro t cs h _ t' hrun
    cases hrun
    exact h
  | cons u us ih =>
    intro t cs h hus t' hrun
    have hstep := h.step (B := B) (hus u List.mem_cons_self)
    cases hx : u.exec B t with
    | stop w t₁ =>
      simp only [runAll_cons, bind, hx] at hrun
      cases hrun
    | ret _ t₁ =>
      rw [runAll_of_ret hx] at hrun
      have hnext := wp_ret hstep hx
      exact ih hnext (fun v hv => hus v (List.mem_cons_of_mem u hv)) hrun

end

end Frewozet
