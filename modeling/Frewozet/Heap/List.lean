import Frewozet.Base.Tiling
import Frewozet.Heap.Code

/-!
# The block list

The list `memory.c` keeps in memory, read off as a list of blocks, and what each of
its three functions does to that list.

* `Block`, `Chain` — the blocks, and that memory holds their headers, linked in
  order.
* `HeapAt m bs` — **the shape of the heap**: the list from `heap_head` is `bs`, and
  `bs` tiles the addresses from `KERNEL_HEAP_START` to `heap_virtual_current`.
* `HeapAt.find` — the walk finds the first block that fits.
* `HeapAt.take` — splitting a block and marking it used exchanges it for
  `Block.taken`.
* `HeapAt.addRegion` — a new region goes to the end.
* `HeapAt.sumBlocks` — the walk of a getter adds the sizes up.
-/

namespace Frewozet

open Word Tiling

/-- A block: where its header lies, the size of its payload, whether it is free. -/
structure Block where
  addr : Nat
  size : Nat
  free : Bool
  deriving DecidableEq, Repr

namespace Block

/-- One past the last byte of the payload. -/
def stop (b : Block) : Nat := b.addr + 12 + b.size

/-- The block as a pointer. -/
def ptr (b : Block) : U32 := BitVec.ofNat 32 b.addr

/-- The block lies in the heap window. -/
def InWindow (b : Block) : Prop := 0xC1000000 ≤ b.addr ∧ b.stop ≤ 0xE0000000

/-- It can serve a request. -/
def fits (size : Nat) (b : Block) : Bool := b.free && size ≤ b.size

/-- What is left of a block when a request of `size` bytes has been served from it:
the used block, and a free one behind it if enough is left. -/
def taken (size : Nat) (b : Block) : List Block :=
  if b.size ≤ size + 28 then [{ b with free := false }]
  else [⟨b.addr, size, false⟩, ⟨b.addr + 12 + size, b.size - size - 12, true⟩]

end Block

/-- The list covers `[lo, hi)`. -/
abbrev BlockTiles (lo hi : Nat) (bs : List Block) : Prop := Tiles Block.addr Block.stop lo hi bs

/-! ## Words at given addresses -/

theorem ofNat_add_ofNat (a k : Nat) :
    BitVec.ofNat 32 a + BitVec.ofNat 32 k = BitVec.ofNat 32 (a + k) := (BitVec.ofNat_add a k).symm

theorem toNat_ofNat_lt {a : Nat} (h : a < 2 ^ 32) : (BitVec.ofNat 32 a).toNat = a := by
  rw [BitVec.toNat_ofNat, Nat.mod_eq_of_lt h]

theorem read32_write32_ne (m : Mem) {a b : Nat} (w : U32) (ha : a + 4 ≤ 2 ^ 32)
    (hb : b + 4 ≤ 2 ^ 32) (h : a + 4 ≤ b ∨ b + 4 ≤ a) :
    (m.write32 (BitVec.ofNat 32 a) w).read32 (BitVec.ofNat 32 b) =
      m.read32 (BitVec.ofNat 32 b) := by
  have h1 := toNat_ofNat_lt (a := a) (by omega)
  have h2 := toNat_ofNat_lt (a := b) (by omega)
  exact Mem.read32_write32_apart m w (by omega) (by omega) (by omega)

theorem agreeOn_write32_ofNat (m : Mem) {a lo hi : Nat} (w : U32) (ha : a + 4 ≤ 2 ^ 32)
    (h : a + 4 ≤ lo ∨ hi ≤ a) : (m.write32 (BitVec.ofNat 32 a) w).AgreeOn m lo hi := by
  have h1 := toNat_ofNat_lt (a := a) (by omega)
  exact Mem.agreeOn_write32 m w (by omega) (by omega)

/-! ## Headers -/

/-- Memory holds the header of the block, with the given link. -/
structure HeaderAt (m : Mem) (b : Block) (next : U32) : Prop where
  size : blockSize m b.ptr = BitVec.ofNat 32 b.size
  free : blockFree m b.ptr = 0 ↔ b.free = false
  next : blockNext m b.ptr = next

/-- The three fields, as the words they are. -/
theorem headerAt_iff {m : Mem} {b : Block} {next : U32} : HeaderAt m b next ↔
    m.read32 (BitVec.ofNat 32 b.addr) = BitVec.ofNat 32 b.size ∧
      (m.read32 (BitVec.ofNat 32 (b.addr + 4)) = 0 ↔ b.free = false) ∧
      m.read32 (BitVec.ofNat 32 (b.addr + 8)) = next := by
  rw [← ofNat_add_ofNat b.addr 4, ← ofNat_add_ofNat b.addr 8]
  exact ⟨fun h => ⟨h.size, h.free, h.next⟩, fun h => ⟨h.1, h.2.1, h.2.2⟩⟩

theorem HeaderAt.congr {m m' : Mem} {b : Block} {next : U32} (h : HeaderAt m b next)
    (hb : b.addr + 12 ≤ 2 ^ 32) (hm : m'.AgreeOn m b.addr (b.addr + 12)) : HeaderAt m' b next := by
  have hword : ∀ k, k + 4 ≤ 12 → m'.read32 (BitVec.ofNat 32 (b.addr + k)) =
      m.read32 (BitVec.ofNat 32 (b.addr + k)) := by
    intro k hk
    have haddr := toNat_ofNat_lt (a := b.addr + k) (by omega)
    exact Mem.read32_congr (by omega) (hm.mono (by omega) (by omega))
  have h0 := hword 0 (by decide)
  rw [Nat.add_zero] at h0
  rw [headerAt_iff] at h ⊢
  rw [h0, hword 4 (by decide), hword 8 (by decide)]
  exact h

/-! ## Chains -/

/-- The pointer to the first block of a list that goes on at `tail`. -/
def firstPtr (tail : U32) : List Block → U32
  | [] => tail
  | b :: _ => b.ptr

/-- Memory holds the headers of the blocks, linked in order, the last one to
`tail`. -/
def Chain (m : Mem) (tail : U32) : List Block → Prop
  | [] => True
  | b :: bs => HeaderAt m b (firstPtr tail bs) ∧ Chain m tail bs

theorem firstPtr_append (tail : U32) (xs ys : List Block) :
    firstPtr tail (xs ++ ys) = firstPtr (firstPtr tail ys) xs := by
  cases xs <;> rfl

theorem chain_append {m : Mem} {tail : U32} : ∀ {xs ys : List Block},
    Chain m tail (xs ++ ys) ↔ Chain m (firstPtr tail ys) xs ∧ Chain m tail ys := by
  intro xs
  induction xs with
  | nil => intro ys; simp [Chain]
  | cons x xs ih =>
    intro ys
    rw [List.cons_append, Chain, Chain, firstPtr_append, ih, and_assoc]

/-- A chain depends on its headers only. -/
theorem Chain.congr {m m' : Mem} {tail : U32} : ∀ {bs : List Block}, Chain m tail bs →
    (∀ b ∈ bs, b.addr + 12 ≤ 2 ^ 32 ∧ m'.AgreeOn m b.addr (b.addr + 12)) → Chain m' tail bs := by
  intro bs
  induction bs with
  | nil => intro _ _; trivial
  | cons b bs ih =>
    rintro ⟨h1, h2⟩ hm
    obtain ⟨hb, hag⟩ := hm b List.mem_cons_self
    exact ⟨h1.congr hb hag, ih h2 fun c hc => hm c (List.mem_cons_of_mem _ hc)⟩

/-- A chain of blocks that tile an interval depends on that interval only. -/
theorem Chain.congr_tiles {m m' : Mem} {tail : U32} {bs : List Block} {lo hi : Nat}
    (h : Chain m tail bs) (ht : BlockTiles lo hi bs) (hhi : hi ≤ 2 ^ 32)
    (hm : m'.AgreeOn m lo hi) : Chain m' tail bs := by
  refine h.congr fun b hb => ?_
  obtain ⟨h1, -, h3⟩ := ht.mem_bounds hb
  have hstop : b.stop = b.addr + 12 + b.size := rfl
  exact ⟨by omega, hm.mono (by omega) (by omega)⟩

/-! ## The shape of the heap -/

/-- The list from `heap_head` is `bs`, and it covers the heap without a gap. -/
structure HeapAt (m : Memory) (bs : List Block) : Prop where
  head : m.heapHead = firstPtr 0 bs
  chain : Chain m.vmem 0 bs
  tiles : BlockTiles 0xC1000000 m.heapVirtualCurrent.toNat bs
  limit : m.heapVirtualCurrent.toNat ≤ 0xE0000000
  committed : m.heapCommittedBytes.toNat + 0xC1000000 = m.heapVirtualCurrent.toNat

section

variable {m : Memory} {bs : List Block}

theorem HeapAt.inWindow (h : HeapAt m bs) {b : Block} (hb : b ∈ bs) : b.InWindow := by
  obtain ⟨h1, -, h3⟩ := h.tiles.mem_bounds hb
  exact ⟨h1, h3.trans h.limit⟩

theorem Block.InWindow.ptr_toNat {b : Block} (h : b.InWindow) : b.ptr.toNat = b.addr := by
  have hstop : b.stop = b.addr + 12 + b.size := rfl
  have := h.2
  exact toNat_ofNat_lt (by omega)

theorem Block.InWindow.ptr_ne {b : Block} (h : b.InWindow) : b.ptr ≠ 0 := by
  intro hc
  have h1 := h.ptr_toNat
  have h2 := h.1
  rw [hc, show (0 : U32).toNat = 0 from rfl] at h1
  omega

theorem Block.InWindow.size_lt {b : Block} (h : b.InWindow) : b.size ≤ 0x1F000000 := by
  have hstop : b.stop = b.addr + 12 + b.size := rfl
  have := h.1
  have := h.2
  omega

/-- There are fewer blocks than steps in a walk. -/
theorem HeapAt.length_lt (h : HeapAt m bs) : bs.length < WALK_STEPS := by
  have hlen := h.tiles.length_le (k := 12) fun b _ => by
    have hstop : b.stop = b.addr + 12 + b.size := rfl
    omega
  have := h.limit
  have hw : WALK_STEPS = 0x100000000 := rfl
  omega

/-! ## Walking it -/

theorem HeaderAt.free_ne {mem : Mem} {b : Block} {next : U32} (h : HeaderAt mem b next) :
    blockFree mem b.ptr ≠ 0 ↔ b.free = true := by
  rw [ne_eq, h.free, Bool.not_eq_false]

theorem findFreeFrom_spec {mem : Mem} (size : U32) : ∀ (bs : List Block) (n : Nat),
    Chain mem 0 bs → (∀ b ∈ bs, b.InWindow) → bs.length < n →
      findFreeFrom mem size n (firstPtr 0 bs) =
        some (match bs.find? (Block.fits size.toNat) with
          | some b => b.ptr
          | none => 0) := by
  intro bs
  induction bs with
  | nil =>
    intro n _ _ hn
    obtain ⟨n, rfl⟩ := Nat.exists_eq_succ_of_ne_zero (by omega : n ≠ 0)
    rw [findFreeFrom, firstPtr, if_pos rfl]
    rfl
  | cons b bs ih =>
    rintro n ⟨hb, hbs⟩ hin hn
    rw [List.length_cons] at hn
    obtain ⟨n, rfl⟩ := Nat.exists_eq_succ_of_ne_zero (by omega : n ≠ 0)
    have hbin := hin b List.mem_cons_self
    have hsize : (blockSize mem b.ptr).toNat = b.size := by
      have := hbin.size_lt
      rw [hb.size, toNat_ofNat_lt (by omega)]
    have hfits : (blockFree mem b.ptr ≠ 0 ∧ blockSize mem b.ptr ≥ size) ↔
        b.fits size.toNat = true := by
      rw [hb.free_ne, ge_iff_le, BitVec.le_def, hsize, Block.fits, Bool.and_eq_true,
        decide_eq_true_eq]
    rw [findFreeFrom, firstPtr, if_neg hbin.ptr_ne, List.find?_cons]
    by_cases hf : b.fits size.toNat = true
    · rw [if_pos (hfits.2 hf), hf]
    · rw [if_neg fun hc => hf (hfits.1 hc), hb.next, Bool.eq_false_iff.2 hf]
      exact ih n hbs (fun c hc => hin c (List.mem_cons_of_mem _ hc)) (by omega)

/-- **`heap_find_free_block`** finds the first block that fits. -/
theorem HeapAt.find (h : HeapAt m bs) (size : U32) :
    heapFindFreeBlock size m = some (match bs.find? (Block.fits size.toNat) with
      | some b => b.ptr
      | none => 0) := by
  rw [heapFindFreeBlock, h.head]
  exact findFreeFrom_spec size bs WALK_STEPS h.chain (fun _ hb => h.inWindow hb) h.length_lt

theorem HeapAt.find_none (h : HeapAt m bs) {size : U32} :
    heapFindFreeBlock size m = some 0 ↔ ∀ b ∈ bs, b.fits size.toNat = false := by
  rw [h.find]
  cases hf : bs.find? (Block.fits size.toNat) with
  | none => simpa using List.find?_eq_none.1 hf
  | some b =>
    have hb := List.mem_of_find?_eq_some hf
    refine ⟨fun hc => absurd (Option.some.inj hc) (h.inWindow hb).ptr_ne, fun hc => ?_⟩
    have hfits := List.find?_some hf
    rw [hc b hb] at hfits
    cases hfits

theorem heapLast_spec {mem : Mem} {last : Block} : ∀ (xs : List Block) (n : Nat),
    Chain mem 0 (xs ++ [last]) → (∀ b ∈ xs ++ [last], b.InWindow) → xs.length < n →
      heapLast mem n (firstPtr 0 (xs ++ [last])) = some last.ptr := by
  intro xs
  induction xs with
  | nil =>
    rintro n ⟨hb, -⟩ _ hn
    obtain ⟨n, rfl⟩ := Nat.exists_eq_succ_of_ne_zero (by omega : n ≠ 0)
    exact if_pos hb.next
  | cons b xs ih =>
    intro n h hin hn
    rw [List.cons_append] at h
    obtain ⟨hb, hbs⟩ := h
    rw [List.length_cons] at hn
    obtain ⟨n, rfl⟩ := Nat.exists_eq_succ_of_ne_zero (by omega : n ≠ 0)
    have hne : firstPtr 0 (xs ++ [last]) ≠ 0 := by
      cases xs with
      | nil => exact (hin last (by simp)).ptr_ne
      | cons c xs => exact (hin c (by simp)).ptr_ne
    rw [List.cons_append, firstPtr, heapLast, hb.next, if_neg hne]
    exact ih n hbs (fun c hc => hin c (List.mem_cons_of_mem _ hc)) (by omega)

/-- The sum of the sizes of the blocks that are free, or of those that are used. -/
def sizes (free : Bool) (bs : List Block) : Nat :=
  ((bs.filter fun b => b.free == free).map Block.size).sum

theorem sizes_cons (free : Bool) (b : Block) (bs : List Block) :
    sizes free (b :: bs) = (if b.free = free then b.size else 0) + sizes free bs := by
  unfold sizes
  rw [List.filter_cons]
  by_cases h : b.free = free
  · simp [h]
  · simp [h]

theorem sumBlocks_spec {mem : Mem} (free : Bool) (test : U32 → Bool)
    (htest : ∀ w : U32, test w = true ↔ ((w = 0) ↔ free = false)) :
    ∀ (bs : List Block) (n : Nat) (total : U32), Chain mem 0 bs → (∀ b ∈ bs, b.InWindow) →
      bs.length < n → sumBlocks mem test n (firstPtr 0 bs) total =
        some (total + BitVec.ofNat 32 (sizes free bs)) := by
  intro bs
  induction bs with
  | nil =>
    intro n total _ _ hn
    obtain ⟨n, rfl⟩ := Nat.exists_eq_succ_of_ne_zero (by omega : n ≠ 0)
    rw [sumBlocks, firstPtr, if_pos rfl]
    exact congrArg some (BitVec.add_zero total).symm
  | cons b bs ih =>
    rintro n total ⟨hb, hbs⟩ hin hn
    rw [List.length_cons] at hn
    obtain ⟨n, rfl⟩ := Nat.exists_eq_succ_of_ne_zero (by omega : n ≠ 0)
    have hbin := hin b List.mem_cons_self
    have hb' : test (blockFree mem b.ptr) = true ↔ b.free = free := by
      rw [htest, hb.free]
      cases b.free <;> cases free <;> simp
    rw [sumBlocks, firstPtr, if_neg hbin.ptr_ne, hb.next,
      ih n _ hbs (fun c hc => hin c (List.mem_cons_of_mem _ hc)) (by omega), sizes_cons]
    refine congrArg some ?_
    by_cases hf : b.free = free
    · rw [if_pos (hb'.2 hf), if_pos hf, hb.size, BitVec.ofNat_add, BitVec.add_assoc]
    · rw [if_neg fun hc => hf (hb'.1 hc), if_neg hf, Nat.zero_add]

/-! ## Writing headers -/

/-- A header that has been written, and the bytes around it. -/
theorem headerAt_writeBlock (mem : Mem) {a : Nat} (ha : a + 12 ≤ 2 ^ 32) (size free next : U32) :
    HeaderAt (writeBlock mem (BitVec.ofNat 32 a) size free next)
        ⟨a, size.toNat, free != 0⟩ next ∧
      ∀ lo hi, a + 12 ≤ lo ∨ hi ≤ a →
        (writeBlock mem (BitVec.ofNat 32 a) size free next).AgreeOn mem lo hi := by
  unfold writeBlock
  rw [show (4#32) = BitVec.ofNat 32 4 from rfl, show (8#32) = BitVec.ofNat 32 8 from rfl,
    ofNat_add_ofNat, ofNat_add_ofNat]
  constructor
  · rw [headerAt_iff]
    dsimp only
    rw [read32_write32_ne _ _ (by omega) (by omega) (by omega),
      read32_write32_ne _ _ (by omega) (by omega) (by omega), Mem.read32_write32,
      read32_write32_ne _ _ (by omega) (by omega) (by omega), Mem.read32_write32,
      Mem.read32_write32]
    exact ⟨by simp, by simp, rfl⟩
  · intro lo hi h
    refine (agreeOn_write32_ofNat _ _ (by omega) (by omega)).trans ?_
    refine (agreeOn_write32_ofNat _ _ (by omega) (by omega)).trans ?_
    exact agreeOn_write32_ofNat _ _ (by omega) (by omega)

/-- The link of a header, redirected. -/
theorem HeaderAt.setNext {mem : Mem} {b : Block} {next : U32} (h : HeaderAt mem b next)
    (hb : b.addr + 12 ≤ 2 ^ 32) (next' : U32) :
    HeaderAt (mem.write32 (b.ptr + 8#32) next') b next' := by
  rw [show b.ptr + 8#32 = BitVec.ofNat 32 (b.addr + 8) from ofNat_add_ofNat _ _]
  rw [headerAt_iff] at h ⊢
  rw [read32_write32_ne _ _ (by omega) (by omega) (by omega),
    read32_write32_ne _ _ (by omega) (by omega) (by omega), Mem.read32_write32]
  exact ⟨h.1, h.2.1, rfl⟩

/-- The size and the link of a header, replaced. -/
theorem HeaderAt.setSizeNext {mem : Mem} {b : Block} {next : U32} (h : HeaderAt mem b next)
    (hb : b.addr + 12 ≤ 2 ^ 32) (size next' : U32) :
    HeaderAt ((mem.write32 b.ptr size).write32 (b.ptr + 8#32) next')
      { b with size := size.toNat } next' := by
  rw [show b.ptr + 8#32 = BitVec.ofNat 32 (b.addr + 8) from ofNat_add_ofNat _ _, Block.ptr]
  rw [headerAt_iff] at h ⊢
  dsimp only
  rw [read32_write32_ne _ _ (by omega) (by omega) (by omega), Mem.read32_write32,
    read32_write32_ne _ _ (by omega) (by omega) (by omega),
    read32_write32_ne _ _ (by omega) (by omega) (by omega), Mem.read32_write32]
  exact ⟨by simp, h.2.1, rfl⟩

/-- `block->free = 0;` -/
theorem HeaderAt.setUsed {mem : Mem} {b : Block} {next : U32} (h : HeaderAt mem b next)
    (hb : b.addr + 12 ≤ 2 ^ 32) :
    HeaderAt (mem.write32 (b.ptr + 4#32) 0) { b with free := false } next := by
  rw [show b.ptr + 4#32 = BitVec.ofNat 32 (b.addr + 4) from ofNat_add_ofNat _ _]
  rw [headerAt_iff] at h ⊢
  dsimp only
  rw [read32_write32_ne _ _ (by omega) (by omega) (by omega), Mem.read32_write32,
    read32_write32_ne _ _ (by omega) (by omega) (by omega)]
  exact ⟨h.1, by simp, h.2.2⟩

/-- **Exchanging a block.**  New headers for one block, written inside it, leave the
rest of the chain alone. -/
theorem Chain.exchange {mem mem' : Mem} {xs ys zs : List Block} {b : Block} {lo hi : Nat}
    (h : Chain mem 0 (xs ++ b :: ys)) (ht : BlockTiles lo hi (xs ++ b :: ys)) (hhi : hi ≤ 2 ^ 32)
    (hfirst : ∀ tail, firstPtr tail zs = b.ptr) (hz : Chain mem' (firstPtr 0 ys) zs)
    (hm : ∀ l r, r ≤ b.addr ∨ b.stop ≤ l → mem'.AgreeOn mem l r) :
    Chain mem' 0 (xs ++ zs ++ ys) := by
  obtain ⟨h1, h2⟩ := chain_append.1 h
  obtain ⟨t1, t2, t3⟩ := tiles_around.1 ht
  have hb := t3.le
  rw [List.append_assoc, chain_append, chain_append, firstPtr_append, hfirst]
  exact ⟨h1.congr_tiles t1 (by omega) (hm _ _ (.inl (le_refl _))), hz,
    h2.2.congr_tiles t3 hhi (hm _ _ (.inr (le_refl _)))⟩

/-! ## `heap_split_block` -/

theorem Block.taken_tiles (b : Block) (size : Nat) :
    BlockTiles b.addr b.stop (b.taken size) := by
  have hstop : b.stop = b.addr + 12 + b.size := rfl
  unfold Block.taken
  split
  · exact ⟨rfl, by change b.addr ≤ b.stop; omega, rfl⟩
  · refine ⟨rfl, ?_, ?_, ?_, ?_⟩
    · change b.addr ≤ b.addr + 12 + size
      omega
    · rfl
    · change b.addr + 12 + size ≤ b.addr + 12 + size + 12 + (b.size - size - 12)
      omega
    · change b.addr + 12 + size + 12 + (b.size - size - 12) = b.stop
      omega

theorem Block.firstPtr_taken (b : Block) (size : Nat) (tail : U32) :
    firstPtr tail (b.taken size) = b.ptr := by
  unfold Block.taken
  split <;> rfl

theorem HeaderAt.size_toNat {mem : Mem} {b : Block} {next : U32} (hb : HeaderAt mem b next)
    (hin : b.InWindow) : (blockSize mem b.ptr).toNat = b.size := by
  have hsz := hin.size_lt
  rw [hb.size, toNat_ofNat_lt (by omega)]

/-- Where `heap_split_block` puts the second block, and how long it is. -/
theorem HeaderAt.rest {mem : Mem} {b : Block} {next size : U32} (hb : HeaderAt mem b next)
    (hin : b.InWindow) (hsplit : size.toNat + 12 ≤ b.size) :
    b.ptr + HEAP_BLOCK_BYTES + size = BitVec.ofNat 32 (b.addr + 12 + size.toNat) ∧
      (blockSize mem b.ptr - size - HEAP_BLOCK_BYTES).toNat = b.size - size.toNat - 12 := by
  have hsz := hin.size_lt
  have hval := hb.size_toNat hin
  have hbytes : HEAP_BLOCK_BYTES.toNat = 12 := rfl
  have hle : size ≤ blockSize mem b.ptr := by
    rw [BitVec.le_def, hval]
    omega
  have hptr := hin.ptr_toNat
  obtain ⟨hlo, hhi⟩ := hin
  have hstop : b.stop = b.addr + 12 + b.size := rfl
  constructor
  · apply BitVec.eq_of_toNat_eq
    rw [BitVec.toNat_add, BitVec.toNat_add, hptr, hbytes, toNat_ofNat_lt (by omega)]
    omega
  · have hdiff := BitVec.toNat_sub_of_le hle
    rw [BitVec.toNat_sub_of_le (by rw [BitVec.le_def, hdiff, hval, hbytes]; omega), hdiff, hval,
      hbytes]

/-- When `heap_split_block` leaves a block whole. -/
theorem HeaderAt.split_iff {mem : Mem} {b : Block} {next size : U32} (hb : HeaderAt mem b next)
    (hin : b.InWindow) (hle : size.toNat ≤ b.size) :
    blockSize mem b.ptr ≤ size + HEAP_BLOCK_BYTES + MEMORY_MIN_SPLIT ↔
      b.size ≤ size.toNat + 28 := by
  have hsz := hin.size_lt
  rw [BitVec.le_def, hb.size_toNat hin, BitVec.toNat_add, BitVec.toNat_add,
    show HEAP_BLOCK_BYTES.toNat = 12 from rfl, show MEMORY_MIN_SPLIT.toNat = 16 from rfl]
  omega

/-- The headers `heap_split_block` and `kmalloc` write when they use a block. -/
theorem chain_taken {mem : Mem} {b : Block} {next size : U32} (hin : b.InWindow)
    (hb : HeaderAt mem b next) (hsize : alignUpSize size MEMORY_DEFAULT_ALIGNMENT = size)
    (hle : size.toNat ≤ b.size) (m : Memory) (hm : m.vmem = mem) :
    ∃ vmem, heapSplitBlock b.ptr size m = { m with vmem := vmem } ∧
      Chain (vmem.write32 (b.ptr + 4#32) 0) next (b.taken size.toNat) ∧
      ∀ l r, r ≤ b.addr ∨ b.stop ≤ l →
        (vmem.write32 (b.ptr + 4#32) 0).AgreeOn mem l r := by
  subst hm
  have hstop : b.stop = b.addr + 12 + b.size := rfl
  have hsz := hin.size_lt
  have hne := hin.ptr_ne
  have hhi := hin.2
  have hfour : b.ptr + 4#32 = BitVec.ofNat 32 (b.addr + 4) := ofNat_add_ofNat _ _
  have height : b.ptr + 8#32 = BitVec.ofNat 32 (b.addr + 8) := ofNat_add_ofNat _ _
  have htest := hb.split_iff hin hle
  unfold heapSplitBlock Block.taken
  rw [if_neg hne, hsize]
  dsimp only
  by_cases hsplit : b.size ≤ size.toNat + 28
  · -- too little would be left
    rw [if_pos (htest.2 hsplit), if_pos hsplit]
    refine ⟨m.vmem, rfl, ⟨hb.setUsed (by omega), trivial⟩, fun l r h => ?_⟩
    rw [hfour]
    exact agreeOn_write32_ofNat _ _ (by omega) (by omega)
  · rw [if_neg (fun h => hsplit (htest.1 h)), if_neg hsplit]
    obtain ⟨hnew, hrest⟩ := @HeaderAt.rest _ _ _ size hb hin (by omega)
    obtain ⟨hn, hout⟩ := headerAt_writeBlock m.vmem (a := b.addr + 12 + size.toNat) (by omega)
      (blockSize m.vmem b.ptr - size - HEAP_BLOCK_BYTES) 1 (blockNext m.vmem b.ptr)
    rw [hrest] at hn
    rw [hnew]
    refine ⟨_, rfl, ⟨?_, ?_, trivial⟩, fun l r h => ?_⟩
    · -- the block that is used
      have hb1 := hb.congr (by omega) (hout b.addr (b.addr + 12) (.inr (by omega)))
      exact (hb1.setSizeNext (by omega) size _).setUsed (by change b.addr + 12 ≤ _; omega)
    · -- the one behind it
      rw [hfour, height]
      rw [hb.next] at hn
      refine hn.congr (by dsimp only; omega) ?_
      refine (agreeOn_write32_ofNat _ _ (by omega) (by dsimp only; omega)).trans ?_
      refine (agreeOn_write32_ofNat _ _ (by omega) (by dsimp only; omega)).trans ?_
      rw [hb.next]
      exact agreeOn_write32_ofNat _ _ (by omega) (by dsimp only; omega)
    · rw [hfour, height]
      refine (agreeOn_write32_ofNat _ _ (by omega) (by omega)).trans ?_
      refine (agreeOn_write32_ofNat _ _ (by omega) (by omega)).trans ?_
      refine (agreeOn_write32_ofNat _ _ (by omega) (by omega)).trans ?_
      exact hout l r (by omega)

/-- **A block is used**: it is exchanged for what `Block.taken` leaves of it, and
nothing outside it is written. -/
theorem HeapAt.take {xs ys : List Block} {b : Block} (h : HeapAt m (xs ++ b :: ys)) {size : U32}
    (hsize : alignUpSize size MEMORY_DEFAULT_ALIGNMENT = size) (hle : size.toNat ≤ b.size) :
    ∃ vmem, heapSplitBlock b.ptr size m = { m with vmem := vmem } ∧
      HeapAt { m with vmem := vmem.write32 (b.ptr + 4#32) 0 } (xs ++ b.taken size.toNat ++ ys) ∧
      ∀ l r, r ≤ b.addr ∨ b.stop ≤ l →
        (vmem.write32 (b.ptr + 4#32) 0).AgreeOn m.vmem l r := by
  have hin := h.inWindow (b := b) (by simp)
  obtain ⟨-, hb, -⟩ := chain_append.1 h.chain
  obtain ⟨vmem, hsplit, hchain, hout⟩ := chain_taken hin hb hsize hle m rfl
  refine ⟨vmem, hsplit, ⟨?_, ?_, ?_, h.limit, h.committed⟩, hout⟩
  · rw [List.append_assoc, firstPtr_append, firstPtr_append, b.firstPtr_taken]
    exact h.head.trans (firstPtr_append 0 xs (b :: ys))
  · have := h.limit
    exact h.chain.exchange h.tiles (by omega) (b.firstPtr_taken _) hchain hout
  · exact h.tiles.replace (b.taken_tiles _)

/-! ## `heap_add_region` -/

/-- The heap with its end moved by a region, the list as given. -/
def Memory.withRegion (m : Memory) (regionSize : U32) (vmem : Mem) (head : U32) : Memory :=
  { m with
    vmem := vmem
    heapHead := head
    heapVirtualCurrent := m.heapVirtualCurrent + regionSize
    heapCommittedBytes := m.heapCommittedBytes + regionSize }

/-- A block with no successor is linked behind the last one. -/
theorem chain_linked {mem : Mem} {xs : List Block} {last b : Block} {lo : Nat}
    (hold : Chain mem 0 (xs ++ [last])) (hnew : HeaderAt mem b 0)
    (ht : BlockTiles lo last.addr xs) (hlast : last.addr + 12 ≤ b.addr)
    (hb : b.addr + 12 ≤ 0xE0000000) :
    Chain (mem.write32 (last.ptr + 8#32) b.ptr) 0 (xs ++ [last] ++ [b]) := by
  have hlink : last.ptr + 8#32 = BitVec.ofNat 32 (last.addr + 8) := ofNat_add_ofNat _ _
  obtain ⟨hxs, hl, -⟩ := chain_append.1 hold
  rw [List.append_assoc, chain_append]
  refine ⟨?_, hl.setNext (by omega) _, ?_, trivial⟩
  · refine hxs.congr_tiles ht (by omega) ?_
    rw [hlink]
    exact agreeOn_write32_ofNat _ _ (by omega) (by omega)
  · refine hnew.congr (by omega) ?_
    rw [hlink]
    exact agreeOn_write32_ofNat _ _ (by omega) (by omega)

/-- The bytes of a region that fits in the window, counted in words. -/
theorem HeapAt.grown (h : HeapAt m bs) {regionSize : U32} (hsize : 12 < regionSize.toNat)
    (hfit : m.heapVirtualCurrent.toNat + regionSize.toNat ≤ 0xE0000000) :
    (m.heapVirtualCurrent + regionSize).toNat = m.heapVirtualCurrent.toNat + regionSize.toNat ∧
      (m.heapCommittedBytes + regionSize).toNat =
        m.heapCommittedBytes.toNat + regionSize.toNat ∧
      (regionSize - HEAP_BLOCK_BYTES).toNat = regionSize.toNat - 12 := by
  have hlo := h.tiles.le
  have hcommitted := h.committed
  refine ⟨?_, ?_, ?_⟩
  · rw [BitVec.toNat_add]
    omega
  · rw [BitVec.toNat_add]
    omega
  · have hbytes : HEAP_BLOCK_BYTES.toNat = 12 := rfl
    rw [BitVec.toNat_sub_of_le (BitVec.le_def.2 (by omega)), hbytes]

/-- What the fields say of the blocks if a region is the last of them. -/
theorem HeapAt.withRegion (h : HeapAt m bs) {regionSize : U32} (hsize : 12 < regionSize.toNat)
    (hfit : m.heapVirtualCurrent.toNat + regionSize.toNat ≤ 0xE0000000) {vmem : Mem} {head : U32}
    (hhead : head = firstPtr 0 (bs ++ [⟨m.heapVirtualCurrent.toNat, regionSize.toNat - 12, true⟩]))
    (hchain : Chain vmem 0 (bs ++ [⟨m.heapVirtualCurrent.toNat, regionSize.toNat - 12, true⟩])) :
    HeapAt (m.withRegion regionSize vmem head)
      (bs ++ [⟨m.heapVirtualCurrent.toNat, regionSize.toNat - 12, true⟩]) := by
  obtain ⟨hcurrent, hcommitted, -⟩ := h.grown hsize hfit
  have htiles : BlockTiles 0xC1000000 (m.heapVirtualCurrent.toNat + regionSize.toNat)
      (bs ++ [⟨m.heapVirtualCurrent.toNat, regionSize.toNat - 12, true⟩]) :=
    h.tiles.snoc rfl (by omega) (by
      change m.heapVirtualCurrent.toNat + 12 + (regionSize.toNat - 12) = _
      omega)
  refine ⟨hhead, hchain, ?_, ?_, ?_⟩
  · exact hcurrent ▸ htiles
  · exact hcurrent ▸ hfit
  · change (m.heapCommittedBytes + regionSize).toNat + _ = (m.heapVirtualCurrent + regionSize).toNat
    rw [hcurrent, hcommitted, ← h.committed]
    exact Nat.add_right_comm _ _ _

/-- **A new region goes to the end.** -/
theorem HeapAt.addRegion (h : HeapAt m bs) {regionSize : U32} (hsize : 12 < regionSize.toNat)
    (hfit : m.heapVirtualCurrent.toNat + regionSize.toNat ≤ 0xE0000000) :
    ∃ vmem head,
      heapAddRegion m.heapVirtualCurrent regionSize (m.withRegion regionSize m.vmem m.heapHead) =
        some (m.withRegion regionSize vmem head) ∧
      HeapAt (m.withRegion regionSize vmem head)
        (bs ++ [⟨m.heapVirtualCurrent.toNat, regionSize.toNat - 12, true⟩]) := by
  have hlo := h.tiles.le
  have hregion := fun vmem head => @HeapAt.withRegion _ _ h _ hsize hfit vmem head
  have hsub := (h.grown hsize hfit).2.2
  have htiles := h.tiles
  generalize hr : m.heapVirtualCurrent.toNat = r at hlo hfit htiles hregion ⊢
  have hptr : m.heapVirtualCurrent = BitVec.ofNat 32 r := by rw [← hr, BitVec.ofNat_toNat]; simp
  have hne : m.heapVirtualCurrent ≠ 0 := by
    intro hc
    rw [hc, show (0 : U32).toNat = 0 from rfl] at hr
    omega
  have htest : ¬ (m.heapVirtualCurrent = 0 ∨ regionSize ≤ HEAP_BLOCK_BYTES) := by
    rintro (hc | hc)
    · exact hne hc
    · rw [BitVec.le_def, show HEAP_BLOCK_BYTES.toNat = 12 from rfl] at hc
      omega
  obtain ⟨hnew, hout⟩ := headerAt_writeBlock m.vmem (a := r) (by omega)
    (regionSize - HEAP_BLOCK_BYTES) 1 0
  rw [hsub, ← hptr] at hnew
  rw [← hptr] at hout
  unfold heapAddRegion Memory.withRegion
  rw [if_neg htest]
  dsimp only
  generalize hv : writeBlock m.vmem m.heapVirtualCurrent (regionSize - HEAP_BLOCK_BYTES) 1 0 = vmem
    at hnew hout
  have hold : Chain vmem 0 bs := h.chain.congr_tiles h.tiles (by omega) (hout _ _ (.inr (by omega)))
  rcases List.eq_nil_or_concat bs with rfl | ⟨xs, last, rfl⟩
  · -- the first region
    have hnil : m.heapHead = 0 := h.head
    rw [if_pos hnil]
    exact ⟨vmem, m.heapVirtualCurrent, rfl, hregion _ _ hptr ⟨hnew, trivial⟩⟩
  · -- behind the last block
    rw [List.concat_eq_append] at h hold hregion htiles ⊢
    have hin := fun b hb => h.inWindow (b := b) hb
    have hlen := h.length_lt
    rw [List.length_append] at hlen
    have hheadne : m.heapHead ≠ 0 := by
      rw [h.head]
      cases xs with
      | nil => exact (hin last (by simp)).ptr_ne
      | cons c xs => exact (hin c (by simp)).ptr_ne
    rw [if_neg hheadne, h.head, heapLast_spec xs WALK_STEPS hold hin (by omega), Option.map_some]
    obtain ⟨t1, -, t3⟩ := tiles_around.1 htiles
    have haddr : last.addr + 12 ≤ r := by
      rw [← show last.stop = r from t3]
      exact Nat.le_add_right _ _
    have hchain := chain_linked hold hnew t1 haddr (by dsimp only; omega)
    rw [show Block.ptr ⟨r, _, _⟩ = m.heapVirtualCurrent from hptr.symm] at hchain
    refine ⟨_, _, rfl, hregion _ _ ?_ hchain⟩
    rw [firstPtr_append, firstPtr_append, firstPtr_append]
    rfl

/-! ## The getters -/

theorem firstPtr_eq_zero (hin : ∀ b ∈ bs, b.InWindow) : firstPtr 0 bs = 0 ↔ bs = [] := by
  cases bs with
  | nil => exact ⟨fun _ => rfl, fun _ => rfl⟩
  | cons b bs =>
    exact ⟨fun hc => absurd hc (hin b List.mem_cons_self).ptr_ne, fun hc => by cases hc⟩

/-- A getter adds up the blocks its test accepts. -/
theorem HeapAt.sumBlocks (h : HeapAt m bs) (free : Bool) (test : U32 → Bool)
    (htest : ∀ w : U32, test w = true ↔ ((w = 0) ↔ free = false)) :
    (if !m.memoryPmmBackendEnabled ∨ m.heapHead = 0 then some 0
      else Frewozet.sumBlocks m.vmem test WALK_STEPS m.heapHead 0) =
        some (if m.memoryPmmBackendEnabled then BitVec.ofNat 32 (sizes free bs) else 0) := by
  have hin := fun b hb => h.inWindow (b := b) hb
  by_cases he : m.memoryPmmBackendEnabled = true
  · by_cases hnil : bs = []
    · subst hnil
      rw [if_pos (.inr h.head), if_pos he]
      rfl
    · have hhead : m.heapHead ≠ 0 := by
        rw [h.head]
        exact fun hc => hnil ((firstPtr_eq_zero hin).1 hc)
      have hcond : ¬ ((!m.memoryPmmBackendEnabled) = true ∨ m.heapHead = 0) :=
        not_or.2 ⟨by simp [he], hhead⟩
      rw [if_neg hcond, if_pos he, h.head,
        sumBlocks_spec free test htest bs WALK_STEPS 0 h.chain hin h.length_lt]
      exact congrArg some (BitVec.zero_add _)
  · rw [if_pos (.inl (by simpa using he)), if_neg he]

theorem sizes_add (bs : List Block) :
    sizes false bs + sizes true bs + 12 * bs.length = (bs.map fun b => b.stop - b.addr).sum := by
  induction bs with
  | nil => rfl
  | cons b bs ih =>
    have hstop : b.stop - b.addr = 12 + b.size := by
      change b.addr + 12 + b.size - b.addr = _
      omega
    rw [sizes_cons, sizes_cons, List.map_cons, List.sum_cons, List.length_cons, ← ih, hstop]
    cases b.free <;> simp <;> omega

/-- **Used, free and headers make up what is committed.** -/
theorem HeapAt.sizes_committed (h : HeapAt m bs) :
    sizes false bs + sizes true bs + 12 * bs.length = m.heapCommittedBytes.toNat := by
  have hsum := h.tiles.sum
  have hcommitted := h.committed
  rw [sizes_add]
  omega

end

end Frewozet
