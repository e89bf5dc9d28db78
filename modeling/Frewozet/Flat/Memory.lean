import Frewozet.Base.Aliases
import Frewozet.Base.Simulation
import Frewozet.Paging.AllocPage

/-!
# Everything in one memory

The machine of `paging.c` again, this time with the bitmap of `pmm.c` and the blocks of the heap
among the bytes of its physical memory, where the kernel finds them through the page tables like
anything else.

* `load8`, `store8`, `load32`, `store32` — accesses through the memory management unit;
  `Machine.view` — what they find.
* `DataCells` — addresses of bytes that are in no table, no two of one byte; `wp_store8`,
  `wp_store32` — what a store to them does; `StoredIn` — what it leaves alone.
* `Machine.bitmap` — the words of the bitmap, as they are read; `Machine.seen` — the machine with
  these words put where the other modules keep them.
* `BitmapSound` — the bytes of the bitmap are cells.
* `Resident` — **the bitmap is where `pmm_init` put it**: its frames are in the direct map, hold
  no table, and are not free.
* `Machine.layer` — the machine without the bytes of these frames, which is what the
  functions of `paging.c` work on; `Layered` relates the two.
-/

namespace Frewozet

open Word Exec TwoLevel Aliases

/-! ## Accesses -/

/-- What the kernel finds at an address, 0 where nothing is mapped. -/
def Machine.view (m : Machine) : Mem := fun v => (m.byteAt v).getD 0

/-- Read a byte. -/
def load8 (addr : U32) : Exec Machine U8 := do
  let a ← dataAccess addr
  let m ← get
  return m.phys a

/-- Write a byte. -/
def store8 (addr : U32) (value : U8) : Exec Machine Unit := do
  let a ← dataAccess addr
  modify fun m => { m with phys := m.phys.write8 a value }

/-- Read a word, low byte first: its bytes may lie in two pages. -/
def load32 (addr : U32) : Exec Machine U32 := do
  let b0 ← load8 addr
  let b1 ← load8 (addr + 1#32)
  let b2 ← load8 (addr + 2#32)
  let b3 ← load8 (addr + 3#32)
  return b3 ++ (b2 ++ (b1 ++ b0))

/-- Write a word. -/
def store32 (addr value : U32) : Exec Machine Unit := do
  store8 addr (value.extractLsb' 0 8)
  store8 (addr + 1#32) (value.extractLsb' 8 8)
  store8 (addr + 2#32) (value.extractLsb' 16 8)
  store8 (addr + 3#32) (value.extractLsb' 24 8)

section

variable {m m' m'' : Machine} {W : Set U32} {v a : U32}

theorem Machine.view_eq (m : Machine) : m.view = look (mmu m.phys) m.phys 0 := rfl

theorem Machine.view_of_mmu (h : mmu m.phys v = some a) : m.view v = m.phys a := look_of_place h

theorem load8_ret (h : mmu m.phys v = some a) : load8 v m = .ret (m.view v) m := by
  rw [Machine.view_of_mmu h]
  unfold load8 dataAccess
  simp only [bind, h]
  rfl

/-- **A word is read** where its bytes are mapped. -/
theorem load32_ret (h : ∀ k < 4, ∃ a, mmu m.phys (v + BitVec.ofNat 32 k) = some a) :
    load32 v m = .ret (m.view.read32 v) m := by
  obtain ⟨_, h0⟩ := h 0 (by decide)
  obtain ⟨_, h1⟩ := h 1 (by decide)
  obtain ⟨_, h2⟩ := h 2 (by decide)
  obtain ⟨_, h3⟩ := h 3 (by decide)
  rw [BitVec.add_zero] at h0
  rw [load32]
  simp only [bind, load8_ret h0, load8_ret h1, load8_ret h2, load8_ret h3]
  rfl

theorem store8_ret (h : mmu m.phys v = some a) (b : U8) :
    store8 v b m = .ret () { m with phys := m.phys.write8 a b } := by
  unfold store8 dataAccess
  simp only [bind, h]
  rfl

/-! ## Cells -/

/-- Bytes that are in no table, each at one address of the set. -/
structure DataCells (m : Machine) (W : Set U32) : Prop where
  mapped : ∀ v ∈ W, ∃ a, mmu m.phys v = some a ∧ frameOf a ≠ dirFrame ∧
    ¬ IsTable entryTarget dirFrame m.tables (frameOf a)
  apart : Apart (mmu m.phys) W

/-- Nothing has been written but bytes of the set. -/
structure StoredIn (W : Set U32) (m m' : Machine) : Prop where
  same : SameTables m m'
  bytes : ∀ a, m'.phys a ≠ m.phys a → ∃ v ∈ W, mmu m.phys v = some a

theorem SameTables.mmu (h : SameTables m m') : mmu m'.phys = mmu m.phys := by
  funext v
  rw [mmu_eq, mmu_eq, h.walk]

theorem StoredIn.refl (W : Set U32) (m : Machine) : StoredIn W m m :=
  ⟨.refl m, fun _ hc => absurd rfl hc⟩

theorem StoredIn.trans (h : StoredIn W m m') (h' : StoredIn W m' m'') : StoredIn W m m'' := by
  refine ⟨h.same.trans h'.same, fun a ha => ?_⟩
  by_cases hc : m''.phys a = m'.phys a
  · rw [hc] at ha
    exact h.bytes a ha
  · obtain ⟨v, hv, hva⟩ := h'.bytes a hc
    exact ⟨v, hv, h.same.mmu ▸ hva⟩

theorem StoredIn.mono {W' : Set U32} (h : StoredIn W m m') (hW : ∀ v ∈ W, v ∈ W') :
    StoredIn W' m m' :=
  ⟨h.same, fun a ha => (h.bytes a ha).imp fun v hv => ⟨hW v hv.1, hv.2⟩⟩

/-- Cells stay cells while the tables stay the same. -/
theorem DataCells.same (h : DataCells m W) (hs : SameTables m m') : DataCells m' W := by
  constructor
  · intro v hv
    obtain ⟨a, ha, hdir, htable⟩ := h.mapped v hv
    refine ⟨a, ?_, hdir, fun hc => htable ((isTable_congr hs.dir).1 hc)⟩
    rw [hs.mmu]
    exact ha
  · rw [hs.mmu]
    exact h.apart

theorem DataCells.mono {W' : Set U32} (h : DataCells m W) (hW : ∀ v ∈ W', v ∈ W) :
    DataCells m W' :=
  ⟨fun v hv => h.mapped v (hW v hv), fun v hv w hw => h.apart v (hW v hv) w (hW w hw)⟩

/-- **A byte is written.** -/
theorem wp_store8 (h : DataCells m W) (hv : v ∈ W) (b : U8) :
    wp (store8 v b) (fun _ m' => StoredIn W m m' ∧ ∀ x ∈ W, m'.view x = m.view.write8 v b x)
      (fun _ _ => False) m := by
  obtain ⟨a, ha, hdir, htable⟩ := h.mapped v hv
  have hsame := sameTables_write8 hdir htable (rfl : a.toNat / 4096 = (frameOf a).val) b
  simp only [wp, store8_ret ha]
  refine ⟨⟨hsame, fun x hx => ?_⟩, fun x hx => ?_⟩
  · have hxa : x = a := by
      by_contra hc
      exact hx (Mem.write8_of_ne m.phys b hc)
    exact ⟨v, hv, hxa ▸ ha⟩
  · rw [Machine.view_eq, hsame.mmu, Mem.write8_eq_update, Mem.write8_eq_update]
    exact look_store h.apart hv hx ha b

/-- **A word is written.** -/
theorem wp_store32 (h : DataCells m W) (hv : ∀ k < 4, v + BitVec.ofNat 32 k ∈ W) (w : U32) :
    wp (store32 v w) (fun _ m' => StoredIn W m m' ∧ ∀ x ∈ W, m'.view x = m.view.write32 v w x)
      (fun _ _ => False) m := by
  have h0 := hv 0 (by decide)
  rw [BitVec.add_zero] at h0
  rw [store32, wp_bind]
  refine wp_mono (wp_store8 h h0 _) ?_ fun _ _ hc => hc
  rintro _ m1 ⟨hw1, hv1⟩
  rw [wp_bind]
  refine wp_mono (wp_store8 (h.same hw1.same) (hv 1 (by decide)) _) ?_ fun _ _ hc => hc
  rintro _ m2 ⟨hw2, hv2⟩
  rw [wp_bind]
  refine wp_mono (wp_store8 ((h.same hw1.same).same hw2.same) (hv 2 (by decide)) _) ?_
    fun _ _ hc => hc
  rintro _ m3 ⟨hw3, hv3⟩
  refine wp_mono (wp_store8 (((h.same hw1.same).same hw2.same).same hw3.same) (hv 3 (by decide))
    _) ?_ fun _ _ hc => hc
  rintro _ m4 ⟨hw4, hv4⟩
  refine ⟨((hw1.trans hw2).trans hw3).trans hw4, fun x hx => ?_⟩
  rw [Mem.write32_eq_write8, hv4 x hx]
  refine Mem.write8_congr ?_ _ _
  rw [hv3 x hx]
  refine Mem.write8_congr ?_ _ _
  rw [hv2 x hx]
  exact Mem.write8_congr (hv1 x hx) _ _

/-- A word is read from cells. -/
theorem DataCells.load32 (h : DataCells m W) (hv : ∀ k < 4, v + BitVec.ofNat 32 k ∈ W) :
    load32 v m = .ret (m.view.read32 v) m :=
  load32_ret fun k hk => (h.mapped _ (hv k hk)).imp fun _ ha => ha.1

end

/-! ## The bitmap -/

/-- How many words the bitmap has. -/
def Pmm.cells (p : Pmm) : Nat :=
  if p.pmmBitmap = 0 then 0 else (bitmapWords p.pmmTotalPages).toNat

/-- `&pmm_bitmap[i]` -/
def Pmm.wordAddr (p : Pmm) (i : Nat) : U32 := p.pmmBitmap + BitVec.ofNat 32 (4 * i)

/-- The words `pmm.c` finds through its pointer. -/
def Machine.bitmap (m : Machine) : List U32 :=
  (List.range m.pmm.cells).map fun i => m.view.read32 (m.pmm.wordAddr i)

/-- The machine, with these words beside the memory. -/
def Machine.seen (m : Machine) : Machine := { m with pmm := { m.pmm with words := m.bitmap } }

/-- The frame holds part of the bitmap. -/
def Machine.OnBitmap (m : Machine) (f : Nat) : Prop := BitmapFrame m.seen.pmm f

instance (m : Machine) (f : Nat) : Decidable (m.OnBitmap f) :=
  inferInstanceAs (Decidable (BitmapFrame _ _))

/-- The addresses of its bytes. -/
def Machine.bitmapCells (m : Machine) : Set U32 := {a | BitmapByte m.seen.pmm a}

/-- The bytes of the bitmap are mapped, no two of them to one place and none to a table. -/
structure BitmapSound (m : Machine) : Prop where
  total : m.pmm.pmmTotalPages.toNat ≤ 0x100000
  stop : m.pmm.pmmBitmap.toNat + 4 * m.pmm.cells ≤ 2 ^ 32
  cells : DataCells m m.bitmapCells

/-- The pointer is in the direct map, and so are the frames behind it, which hold no table. -/
structure InPlace (m : Machine) : Prop where
  total : m.pmm.pmmTotalPages.toNat ≤ 0x100000
  start : m.pmm.pmmBitmap ≠ 0 → 0xC0000000 ≤ m.pmm.pmmBitmap.toNat
  stop : m.pmm.pmmBitmap.toNat + 4 * m.pmm.cells ≤ 2 ^ 32
  direct : ∀ f : Frame, m.OnBitmap f.val → InDirectMap m.phys f
  dir : ¬ m.OnBitmap dirFrame.val
  table : ∀ t, IsTable entryTarget dirFrame m.tables t → ¬ m.OnBitmap t.val

/-- **The bitmap is where `pmm_init` put it**, in frames that are not free. -/
structure Resident (m : Machine) : Prop extends InPlace m where
  spare : ∀ f, m.seen.pmm.Free f → ¬ m.OnBitmap f

/-- The machine without the bytes of the bitmap's frames, and with its words beside the memory. -/
def Machine.layer (m : Machine) : Machine :=
  { m.seen with phys := fun a => if m.OnBitmap (a.toNat / 4096) then 0 else m.phys a }

/-- The second machine is the first one without its bitmap. -/
def Layered (m l : Machine) : Prop := l = m.layer ∧ Resident m

section

variable {m m' : Machine} {W : Set U32} {a : U32}

@[simp] theorem Machine.length_bitmap (m : Machine) : m.bitmap.length = m.pmm.cells := by
  rw [Machine.bitmap, List.length_map, List.length_range]

theorem Machine.getD_bitmap (m : Machine) {i : Nat} (hi : i < m.pmm.cells) :
    m.bitmap.getD i 0 = m.view.read32 (m.pmm.wordAddr i) := by
  rw [Machine.bitmap, List.getD_eq_getElem?_getD, List.getElem?_map, List.getElem?_range hi]
  rfl

@[simp] theorem Machine.seen_phys (m : Machine) : m.seen.phys = m.phys := rfl

@[simp] theorem Machine.seen_tables (m : Machine) : m.seen.tables = m.tables := rfl

@[simp] theorem Machine.layer_pmm (m : Machine) : m.layer.pmm = m.seen.pmm := rfl

@[simp] theorem Machine.seen_words (m : Machine) : m.seen.pmm.words = m.bitmap := rfl

theorem Machine.onBitmap_congr (h : m'.pmm = m.pmm) (f : Nat) : m'.OnBitmap f ↔ m.OnBitmap f := by
  unfold Machine.OnBitmap BitmapFrame
  rw [Machine.seen_words, Machine.seen_words, Machine.length_bitmap, Machine.length_bitmap,
    Machine.seen, Machine.seen, h]

theorem Machine.mem_bitmapCells (m : Machine) (a : U32) : a ∈ m.bitmapCells ↔
    m.pmm.pmmBitmap.toNat ≤ a.toNat ∧ a.toNat < m.pmm.pmmBitmap.toNat + 4 * m.pmm.cells := by
  rw [← Machine.length_bitmap]
  exact Iff.rfl

theorem Machine.layer_phys (h : ¬ m.OnBitmap (a.toNat / 4096)) : m.layer.phys a = m.phys a :=
  if_neg h

theorem Machine.layer_tables {f : Frame} (hf : ¬ m.OnBitmap f.val) (i : Fin 1024) :
    m.layer.tables f i = m.tables f i := by
  refine tables_congr_frame (fun a ha => Machine.layer_phys ?_) i
  rwa [show a.toNat / 4096 = f.val from congrArg Fin.val ha]

theorem cells_ne_zero {p : Pmm} (h : 0 < p.cells) : p.pmmBitmap ≠ 0 := by
  intro hc
  rw [Pmm.cells, if_pos hc] at h
  exact absurd h (lt_irrefl 0)

/-- The bytes of a word of the bitmap. -/
theorem BitmapSound.word (h : BitmapSound m) {i : Nat} (hi : i < m.pmm.cells) :
    (m.pmm.wordAddr i).toNat = m.pmm.pmmBitmap.toNat + 4 * i ∧
      ∀ k < 4, m.pmm.wordAddr i + BitVec.ofNat 32 k ∈ m.bitmapCells := by
  have hstop := h.stop
  have haddr : (m.pmm.wordAddr i).toNat = m.pmm.pmmBitmap.toNat + 4 * i :=
    Mem.toNat_add_of_lt (by omega)
  refine ⟨haddr, fun k hk => ?_⟩
  rw [Machine.mem_bitmapCells, Mem.toNat_add_of_lt (by omega)]
  omega

theorem StoredIn.bitmapCells (hw : StoredIn W m m') : m'.bitmapCells = m.bitmapCells := by
  ext a
  rw [Machine.mem_bitmapCells, Machine.mem_bitmapCells, hw.same.pmm]

theorem BitmapSound.stored (h : BitmapSound m) (hw : StoredIn W m m') : BitmapSound m' := by
  refine ⟨hw.same.pmm ▸ h.total, hw.same.pmm ▸ h.stop, ?_⟩
  rw [hw.bitmapCells]
  exact h.cells.same hw.same

namespace InPlace

/-- A byte of the bitmap is found through the direct map. -/
theorem byte (h : InPlace m) (ha : a ∈ m.bitmapCells) :
    mmu m.phys a = some (virtToPhys a) ∧ m.OnBitmap (frameOf (virtToPhys a)).val := by
  rw [Machine.mem_bitmapCells] at ha
  have hstart := h.start (cells_ne_zero (by omega))
  have hphys := virtToPhys_toNat (a := a) (by omega)
  have hbase := virtToPhys_toNat hstart
  have hframe : (frameOf (virtToPhys a)).val = (virtToPhys a).toNat / 4096 := rfl
  have hon : m.OnBitmap (frameOf (virtToPhys a)).val := by
    rw [Machine.OnBitmap, BitmapFrame, Machine.seen_words, Machine.length_bitmap]
    change (virtToPhys m.pmm.pmmBitmap).toNat / 4096 ≤ _ ∧
      _ < ((virtToPhys m.pmm.pmmBitmap).toNat + _ + 4095) / 4096
    omega
  refine ⟨?_, hon⟩
  have hmmu := (h.direct _ hon).mmu hframe.symm
  rwa [physToVirt, virtToPhys, BitVec.sub_add_cancel] at hmmu

theorem cells (h : InPlace m) : DataCells m m.bitmapCells := by
  refine ⟨fun v hv => ?_, fun v hv w hw p hp hq => ?_⟩
  · obtain ⟨hmmu, hon⟩ := h.byte hv
    exact ⟨_, hmmu, fun hc => h.dir (hc ▸ hon), fun hc => h.table _ hc hon⟩
  · rw [(h.byte hv).1] at hp
    rw [(h.byte hw).1] at hq
    rw [← BitVec.sub_add_cancel v KERNEL_VIRT_BASE, ← BitVec.sub_add_cancel w KERNEL_VIRT_BASE]
    exact congrArg (· + KERNEL_VIRT_BASE) ((Option.some.inj hp).trans (Option.some.inj hq).symm)

theorem sound (h : InPlace m) : BitmapSound m := ⟨h.total, h.stop, h.cells⟩

/-- The machine and its layer have the same tables. -/
theorem sameTables (h : InPlace m) : SameTables m.seen m.layer :=
  ⟨Machine.layer_tables h.dir, fun t ht => Machine.layer_tables (h.table t ht), rfl, rfl, rfl⟩

theorem layer_mmu (h : InPlace m) : mmu m.layer.phys = mmu m.phys := h.sameTables.mmu

theorem layer_isTable (h : InPlace m) (t : Frame) :
    IsTable entryTarget dirFrame m.layer.tables t ↔ IsTable entryTarget dirFrame m.tables t :=
  isTable_congr h.sameTables.dir

theorem layer_walk (h : InPlace m) (v : U32) : walkOf m.layer.tables v = walkOf m.tables v :=
  h.sameTables.walk v

theorem layer_inDirectMap (h : InPlace m) (f : Frame) :
    InDirectMap m.layer.phys f ↔ InDirectMap m.phys f :=
  ⟨fun hf => hf.congr fun v => (h.layer_walk v).symm, fun hf => hf.congr fun v => h.layer_walk v⟩

/-- Nothing moves while the tables stay the same. -/
theorem of_same (h : InPlace m) (hs : SameTables m m') : InPlace m' := by
  have hon := Machine.onBitmap_congr hs.pmm
  refine ⟨hs.pmm ▸ h.total, hs.pmm ▸ h.start, hs.pmm ▸ h.stop, fun f hf => ?_, fun hc => ?_,
    fun t ht hc => ?_⟩
  · exact (h.direct f ((hon f).1 hf)).congr fun v => hs.walk v
  · exact h.dir ((hon _).1 hc)
  · exact h.table t ((isTable_congr hs.dir).1 ht) ((hon _).1 hc)

/-- **The bitmap is still where it was, and what it was.** -/
theorem update (h : InPlace m) (hpmm : m'.pmm = m.pmm)
    (hbytes : ∀ a ∈ m.bitmapCells, m'.phys (virtToPhys a) = m.phys (virtToPhys a))
    (hdirect : ∀ f : Frame, m.OnBitmap f.val → InDirectMap m'.phys f)
    (hdir : ∀ t, IsTable entryTarget dirFrame m'.tables t → ¬ m.OnBitmap t.val) :
    InPlace m' ∧ m'.bitmap = m.bitmap := by
  have hon := Machine.onBitmap_congr hpmm
  have hplace : InPlace m' := by
    refine ⟨hpmm ▸ h.total, hpmm ▸ h.start, hpmm ▸ h.stop, fun f hf => ?_, fun hc => ?_,
      fun t ht hc => ?_⟩
    · exact hdirect f ((hon f).1 hf)
    · exact h.dir ((hon _).1 hc)
    · exact hdir t ht ((hon _).1 hc)
  refine ⟨hplace, ?_⟩
  unfold Machine.bitmap
  rw [hpmm]
  refine List.map_congr_left fun i hi => ?_
  obtain ⟨haddr, hcells⟩ := h.sound.word (List.mem_range.1 hi)
  have hstop := h.stop
  have hlt := List.mem_range.1 hi
  refine Mem.read32_congr (by omega) fun x h1 h2 => ?_
  have hx : x ∈ m.bitmapCells := by
    rw [Machine.mem_bitmapCells]
    omega
  have hx' : x ∈ m'.bitmapCells := by
    rw [Machine.mem_bitmapCells, hpmm, ← Machine.mem_bitmapCells]
    exact hx
  rw [Machine.view_of_mmu (h.byte hx).1, Machine.view_of_mmu (hplace.byte hx').1]
  exact hbytes x hx

end InPlace

/-- The ghosts have no say. -/
theorem Resident.ghosts (h : Resident m) (touches : List Touch) (grants : List (U32 × U32)) :
    Resident { m with touches := touches, grants := grants } :=
  ⟨⟨h.total, h.start, h.stop, h.direct, h.dir, h.table⟩, h.spare⟩

/-- The machine with other words in its bitmap. -/
def Machine.withWords (m : Machine) (words : List U32) : Machine :=
  { m with pmm := { m.pmm with words := words } }

/-- **Bytes of the bitmap have been written**: all that changes is its words. -/
theorem InPlace.wrote (h : InPlace m) (hw : StoredIn m.bitmapCells m m') :
    InPlace m' ∧ m'.layer = m.layer.withWords m'.bitmap := by
  refine ⟨h.of_same hw.same, ?_⟩
  have hphys : m'.layer.phys = m.layer.phys := by
    funext a
    by_cases ha : m.OnBitmap (a.toNat / 4096)
    · have ha' := (Machine.onBitmap_congr hw.same.pmm _).2 ha
      exact (if_pos ha').trans (if_pos ha).symm
    · rw [Machine.layer_phys ha,
        Machine.layer_phys fun hc => ha ((Machine.onBitmap_congr hw.same.pmm _).1 hc)]
      by_contra hc
      obtain ⟨v, hv, hva⟩ := hw.bytes a hc
      obtain ⟨hmmu, hon⟩ := h.byte hv
      rw [hmmu] at hva
      rw [Option.some.inj hva] at hon
      exact ha hon
  have hpmm : m'.seen.pmm = { m.pmm with words := m'.bitmap } := by
    rw [Machine.seen, hw.same.pmm]
  calc m'.layer = { m'.seen with phys := m'.layer.phys } := rfl
    _ = ⟨m.layer.phys, m'.seen.pmm, m'.touches, m'.grants⟩ := by rw [hphys]; rfl
    _ = ⟨m.layer.phys, { m.pmm with words := m'.bitmap }, m.touches, m.grants⟩ := by
      rw [hpmm, hw.same.touches, hw.same.grants]

/-- Bytes beside the bitmap have been written. -/
theorem Resident.wrote (h : Resident m) (hw : StoredIn W m m')
    (hW : ∀ v ∈ W, ∀ a, mmu m.phys v = some a → ∀ c ∈ m.bitmapCells, virtToPhys c ≠ a) :
    Resident m' ∧ SameTables m.layer m'.layer := by
  obtain ⟨hplace, hbitmap⟩ := h.update hw.same.pmm (fun c hc => by
      by_contra hne
      obtain ⟨v, hv, hva⟩ := hw.bytes _ hne
      exact hW v hv _ hva c hc rfl)
    (fun f hf => (h.direct f hf).congr fun v => hw.same.walk v)
    fun t ht => h.table t ((isTable_congr hw.same.dir).1 ht)
  have hpmm : m'.seen.pmm = m.seen.pmm := by
    rw [Machine.seen, hbitmap, hw.same.pmm]
    rfl
  refine ⟨⟨hplace, fun f hf => ?_⟩, fun j => ?_, fun t ht j => ?_, hpmm, hw.same.grants,
    hw.same.touches⟩
  · rw [Machine.onBitmap_congr hw.same.pmm]
    exact h.spare f (hpmm ▸ hf)
  · rw [hplace.sameTables.dir, h.sameTables.dir]
    exact hw.same.dir j
  · have ht' := (h.layer_isTable t).1 ht
    rw [hplace.sameTables.table t ((isTable_congr hw.same.dir).2 ht'), h.sameTables.table t ht']
    exact hw.same.table t ht' j

/-- **A write beside the bitmap.**  The layer is written to in the same way, and shows what the
walks have become. -/
theorem Resident.layered (h : Resident m) {l : Machine} (hpmm : m'.pmm = m.pmm)
    (hbytes : ∀ a : U32, m.OnBitmap (a.toNat / 4096) → m'.phys a = m.phys a)
    (hlayer : l = { m.layer with
      phys := fun a => if m.OnBitmap (a.toNat / 4096) then 0 else m'.phys a
      touches := m'.touches
      grants := m'.grants })
    (hdirect : ∀ f : Frame, m.OnBitmap f.val → InDirectMap l.phys f)
    (htable : ∀ t, IsTable entryTarget dirFrame l.tables t → ¬ m.OnBitmap t.val) :
    Layered m' l := by
  have hT : ∀ f : Frame, ¬ m.OnBitmap f.val → ∀ i, l.tables f i = m'.tables f i := by
    intro f hf i
    refine tables_congr_frame (fun a ha => ?_) i
    rw [hlayer]
    exact if_neg (by rwa [show a.toNat / 4096 = f.val from congrArg Fin.val ha])
  have hdir := hT dirFrame h.dir
  have hwalk : ∀ v, walkOf m'.tables v = walkOf l.tables v := fun v => by
    rw [walkOf, walkOf, walk, walk, leaf_congr (fun i => (hdir i).symm) fun t ht i =>
      (hT t (htable t ht) i).symm]
  obtain ⟨hplace, hbitmap⟩ := h.update hpmm (fun a ha => hbytes _ (h.byte ha).2)
    (fun f hf => (hdirect f hf).congr hwalk)
    fun t ht => htable t ((isTable_congr hdir).2 ht)
  have hseen : m'.seen.pmm = m.seen.pmm := by
    rw [Machine.seen, hbitmap, hpmm]
    rfl
  refine ⟨?_, hplace, fun f hf => ?_⟩
  · have hphys : m'.layer.phys = fun a => if m.OnBitmap (a.toNat / 4096) then 0 else m'.phys a := by
      unfold Machine.layer
      simp only [Machine.onBitmap_congr hpmm]
    calc l = ⟨m'.layer.phys, m.seen.pmm, m'.touches, m'.grants⟩ := by rw [hlayer, hphys]; rfl
      _ = m'.layer := by rw [← hseen]; rfl
  · rw [Machine.onBitmap_congr hpmm]
    exact h.spare f (hseen ▸ hf)

/-! ## What the layer knows -/

namespace Layered

variable {l : Machine}

theorem direct (h : Layered m l) {f : Frame} (hf : BitmapFrame l.pmm f.val) :
    InDirectMap l.phys f := by
  obtain ⟨rfl, h⟩ := h
  exact (h.layer_inDirectMap f).2 (h.toInPlace.direct f hf)

theorem dir (h : Layered m l) : ¬ BitmapFrame l.pmm dirFrame.val := by
  obtain ⟨rfl, h⟩ := h
  exact h.toInPlace.dir

theorem table (h : Layered m l) {t : Frame} (ht : IsTable entryTarget dirFrame l.tables t) :
    ¬ BitmapFrame l.pmm t.val := by
  obtain ⟨rfl, h⟩ := h
  exact h.toInPlace.table t ((h.layer_isTable t).1 ht)

theorem spare (h : Layered m l) {f : Nat} (hf : l.pmm.Free f) : ¬ BitmapFrame l.pmm f := by
  obtain ⟨rfl, h⟩ := h
  exact Resident.spare h f hf

end Layered

/-! ## Writing to a table -/

/-- A byte that is not hidden is written in both. -/
theorem hide_write8 {S : Nat → Prop} [DecidablePred S] (p : Mem) {a : U32}
    (ha : ¬ S (a.toNat / 4096)) (b : U8) :
    (fun x : U32 => if S (x.toNat / 4096) then 0 else p.write8 a b x) =
      Mem.write8 (fun x => if S (x.toNat / 4096) then 0 else p x) a b := by
  funext x
  by_cases hx : x = a
  · rw [hx, Mem.write8_same, if_neg ha, Mem.write8_same]
  · rw [Mem.write8_of_ne _ _ hx, Mem.write8_of_ne _ _ hx]

/-- So is a word. -/
theorem hide_write32 {S : Nat → Prop} [DecidablePred S] (p : Mem) {a : U32}
    (ha : ∀ k < 4, ¬ S ((a + BitVec.ofNat 32 k).toNat / 4096)) (w : U32) :
    (fun x : U32 => if S (x.toNat / 4096) then 0 else p.write32 a w x) =
      Mem.write32 (fun x => if S (x.toNat / 4096) then 0 else p x) a w := by
  have h0 := ha 0 (by decide)
  rw [BitVec.add_zero] at h0
  rw [Mem.write32_eq_write8, Mem.write32_eq_write8, hide_write8 _ (ha 3 (by decide)),
    hide_write8 _ (ha 2 (by decide)), hide_write8 _ (ha 1 (by decide)), hide_write8 _ h0]

theorem Resident.touched (h : Resident m) (v : U32) :
    Layered (m.touched v) (m.layer.touched v) := by
  refine ⟨?_, h.ghosts _ _⟩
  rw [Machine.touched, h.layer_mmu]
  rfl

variable {f : Frame}

/-- The bytes of an entry are in its frame. -/
theorem entry_frame (f : Frame) (i : Fin 1024) {k : Nat} (hk : k < 4) :
    (entryAddr f i + BitVec.ofNat 32 k).toNat / 4096 = f.val := by
  have hi := i.isLt
  have hle := entryAddr_le f i
  rw [Mem.toNat_add_of_lt (by omega), entryAddr_toNat]
  omega

/-- **An entry is written.** -/
theorem Resident.store (h : Resident m) (hf : ¬ m.OnBitmap f.val) (v : U32) (i : Fin 1024) (w : U32)
    (hdirect : ∀ g : Frame, m.OnBitmap g.val →
      InDirectMap (m.layer.phys.write32 (entryAddr f i) w) g)
    (htable : ∀ t, IsTable entryTarget dirFrame (tables (m.layer.phys.write32 (entryAddr f i) w))
      t → ¬ m.OnBitmap t.val) :
    Layered { m.touched v with phys := m.phys.write32 (entryAddr f i) w }
      { m.layer.touched v with phys := m.layer.phys.write32 (entryAddr f i) w } := by
  have hout : ∀ k < 4, ¬ m.OnBitmap ((entryAddr f i + BitVec.ofNat 32 k).toNat / 4096) :=
    fun k hk => by rwa [entry_frame f i hk]
  refine h.layered rfl (fun a ha => ?_) ?_ hdirect htable
  · have hi := i.isLt
    refine Mem.write32_outside m.phys w (entryAddr_le f i) ?_
    by_contra hc
    have haf : a.toNat / 4096 = f.val := by
      rw [entryAddr_toNat] at hc
      omega
    exact hf (haf ▸ ha)
  · rw [hide_write32 m.phys hout, Machine.touched, Machine.touched, h.layer_mmu]
    rfl

/-- **A byte of a fresh frame is written.** -/
theorem Resident.storeFresh (h : Resident m) (hf : ¬ m.OnBitmap f.val) (hdir : f ≠ dirFrame)
    (hfresh : ¬ IsTable entryTarget dirFrame m.layer.tables f) (v : U32)
    (ha : a.toNat / 4096 = f.val) (b : U8) :
    Layered { m.touched v with phys := m.phys.write8 a b }
      { m.layer.touched v with phys := m.layer.phys.write8 a b } := by
  have hsame : ∀ g, g ≠ f → ∀ j, tables (m.layer.phys.write8 a b) g j = m.layer.tables g j :=
    fun g hg j => tables_write8 m.layer.phys ha b hg j
  refine h.layered rfl (fun x hx => Mem.write8_of_ne m.phys b ?_) ?_ (fun g hg => ?_)
    fun t ht => ?_
  · rintro rfl
    exact hf (ha ▸ hx)
  · rw [hide_write8 m.phys (ha ▸ hf), Machine.touched, Machine.touched, h.layer_mmu]
    rfl
  · exact ((h.layer_inDirectMap g).2 (h.direct g hg)).congr (walkOf_congr hdir hfresh hsame)
  · exact h.table t ((h.layer_isTable t).1 ((isTable_congr (hsame dirFrame hdir.symm)).1 ht))

end

end Frewozet
