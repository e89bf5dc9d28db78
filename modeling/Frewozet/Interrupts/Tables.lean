import Frewozet.Base.Records
import Frewozet.Interrupts.Stubs

/-!
# `gdt.c` and `idt.c`

The two tables the processor is told about.  Their entries are packed structures whose
fields are in pieces, written piece by piece.

* `InterruptImage` — where the linker put the tables, their pointers and the stubs.
* `gdtSetGate`, `gdtInit`, `gdtFlush`, `idtSetGate`, `idtInit` — the code.
* `gdtFormat`, `idtFormat` — what was set is what the processor reads.
-/

namespace Frewozet

/-- Where things lie: the tables end below 4 GiB, and apart from one another and from their
pointers. -/
structure InterruptImage where
  gdt : U32
  gp : U32
  idt : U32
  idtp : U32
  handler : Stub → U32
  handler_inj : Function.Injective handler
  gdtFits : gdt.toNat + 24 ≤ 2 ^ 32
  gpFits : gp.toNat + 6 ≤ 2 ^ 32
  idtFits : idt.toNat + 2048 ≤ 2 ^ 32
  idtpFits : idtp.toNat + 6 ≤ 2 ^ 32
  gdt_gp : gdt.toNat + 24 ≤ gp.toNat ∨ gp.toNat + 6 ≤ gdt.toNat
  gdt_idt : gdt.toNat + 24 ≤ idt.toNat ∨ idt.toNat + 2048 ≤ gdt.toNat
  gdt_idtp : gdt.toNat + 24 ≤ idtp.toNat ∨ idtp.toNat + 6 ≤ gdt.toNat
  idt_idtp : idt.toNat + 2048 ≤ idtp.toNat ∨ idtp.toNat + 6 ≤ idt.toNat

def CODE_SEL : U16 := 0x08
def DATA_SEL : U16 := 0x10

/-! ## The code -/

/-- What `gdt_set_gate` is given, besides the number of the entry. -/
structure GdtArgs where
  base : U32
  limit : U32
  access : U8
  granularity : U8

/-- `gdt_set_gate`, for the entry at `a`. -/
def gdtSetGate (m : Mem) (a : U32) (x : GdtArgs) : Mem :=
  let m := m.write16 (a + 2#32) ((x.base &&& 0xFFFF#32).setWidth 16)
  let m := m.write8 (a + 4#32) (((x.base >>> 16) &&& 0xFF#32).setWidth 8)
  let m := m.write8 (a + 7#32) (((x.base >>> 24) &&& 0xFF#32).setWidth 8)
  let m := m.write16 a ((x.limit &&& 0xFFFF#32).setWidth 16)
  let m := m.write8 (a + 6#32) (((x.limit >>> 16) &&& 0x0F#32).setWidth 8)
  let m := m.write8 (a + 6#32) (m (a + 6#32) ||| (x.granularity &&& 0xF0#8))
  m.write8 (a + 5#32) x.access

/-- What `idt_set_gate` is given, besides the number of the entry. -/
structure IdtArgs where
  handler : U32
  selector : U16
  typeAttr : U8

/-- `idt_set_gate`, for the entry at `a`. -/
def idtSetGate (m : Mem) (a : U32) (x : IdtArgs) : Mem :=
  let m := m.write16 a ((x.handler &&& 0xFFFF#32).setWidth 16)
  let m := m.write16 (a + 2#32) x.selector
  let m := m.write8 (a + 4#32) 0
  let m := m.write8 (a + 5#32) x.typeAttr
  m.write16 (a + 6#32) (((x.handler >>> 16) &&& 0xFFFF#32).setWidth 16)

/-! ## The pieces of a field -/

theorem low_piece (x : U32) {k : Nat} (hk : k + 8 ≤ 16) :
    ((x &&& 0xFFFF#32).setWidth 16).extractLsb' k 8 = x.extractLsb' k 8 := by
  have hmask : (x &&& 0xFFFF#32).setWidth 16 = x.setWidth 16 := by
    rw [BitVec.setWidth_and]
    exact BitVec.and_allOnes
  rw [hmask]
  ext i hi
  simp [show k + i < 16 by omega]

theorem byte_piece (x : U32) (k : Nat) :
    ((x >>> k) &&& 0xFF#32).setWidth 8 = x.extractLsb' k 8 := by
  rw [BitVec.setWidth_and]
  refine BitVec.and_allOnes.trans ?_
  ext i hi
  simp

/-- The two halves of a byte, or-ed together. -/
theorem halves_or (y g : U8) :
    ((y &&& 0x0F#8) ||| (g &&& 0xF0#8)).extractLsb' 0 4 = y.extractLsb' 0 4 ∧
      ((y &&& 0x0F#8) ||| (g &&& 0xF0#8)).extractLsb' 4 4 = g.extractLsb' 4 4 := by
  have hlow : ∀ i < 4, (0x0F#8).getLsbD i = true ∧ (0xF0#8).getLsbD i = false ∧
    (0x0F#8).getLsbD (4 + i) = false ∧ (0xF0#8).getLsbD (4 + i) = true := by decide
  refine ⟨BitVec.eq_of_getLsbD_eq fun i hi => ?_, BitVec.eq_of_getLsbD_eq fun i hi => ?_⟩
  · obtain ⟨h1, h2, -, -⟩ := hlow i hi
    rw [BitVec.getLsbD_extractLsb', BitVec.getLsbD_extractLsb', Nat.zero_add, BitVec.getLsbD_or,
      BitVec.getLsbD_and, BitVec.getLsbD_and, h1, h2, Bool.and_true, Bool.and_false, Bool.or_false]
  · obtain ⟨-, -, h3, h4⟩ := hlow i hi
    rw [BitVec.getLsbD_extractLsb', BitVec.getLsbD_extractLsb', BitVec.getLsbD_or,
      BitVec.getLsbD_and, BitVec.getLsbD_and, h3, h4, Bool.and_true, Bool.and_false, Bool.false_or]

/-- The high bits of a limit, in the low half of a byte. -/
theorem limit_piece (x : U32) : ((x >>> 16) &&& 0x0F#32).setWidth 8 =
    (x.extractLsb' 16 8 &&& 0x0F#8) := by
  rw [BitVec.setWidth_and]
  refine congrArg (· &&& 0x0F#8) ?_
  ext i hi
  simp

/-! ## Reading back -/

/-- The fields that `gdt_set_gate` is meant to store. -/
def GdtArgs.fields (x : GdtArgs) : DescriptorFields :=
  { base := x.base
    limit := x.limit.extractLsb' 0 20
    access := x.access
    flags := x.granularity.extractLsb' 4 4 }

/-- The gate that `idt_set_gate` is meant to store. -/
def IdtArgs.gate (x : IdtArgs) : Gate := ⟨x.handler, x.selector, x.typeAttr⟩

theorem extract20 (x : U32) :
    (x.extractLsb' 16 8).extractLsb' 0 4 ++ (x.extractLsb' 8 8 ++ x.extractLsb' 0 8) =
      x.extractLsb' 0 20 := by
  apply BitVec.eq_of_getLsbD_eq
  intro i hi
  simp only [BitVec.getLsbD_append, BitVec.getLsbD_extractLsb', hi, decide_true, Bool.true_and,
    Nat.zero_add]
  by_cases h16 : i < 8 + 8
  · by_cases h8 : i < 8
    · simp [h8, h16]
    · simp [h8, h16, show i - 8 < 8 by omega, show 8 + (i - 8) = i by omega]
  · simp [h16, show i - 16 < 4 by omega, show i - 16 < 8 by omega, show 16 + (i - 16) = i by omega]

/-- The four bytes of a word, by halves. -/
theorem extract_append_halves (w : U32) :
    (w.extractLsb' 24 8 ++ w.extractLsb' 16 8) ++ (w.extractLsb' 8 8 ++ w.extractLsb' 0 8) = w := by
  rw [BitVec.append_assoc]
  exact Mem.extract_append w

theorem readFields_gdtSetGate (m : Mem) (a : U32) (x : GdtArgs) :
    readFields (gdtSetGate m a x) a = x.fields := by
  have h3 : a + 2#32 + 1#32 = a + 3#32 := BitVec.add_assoc _ _ _
  have hlow := low_piece x.base (k := 0) (by decide)
  have hnext := low_piece x.base (k := 8) (by decide)
  have hlimit := low_piece x.limit (k := 0) (by decide)
  have hlimit' := low_piece x.limit (k := 8) (by decide)
  obtain ⟨hor, hor'⟩ := halves_or (x.limit.extractLsb' 16 8) x.granularity
  unfold readFields gdtSetGate GdtArgs.fields Mem.read16 Mem.write16 Mem.write8
  dsimp only
  rw [byte_piece, byte_piece, limit_piece, hlow, hnext, hlimit, hlimit', h3]
  -- which of the writes a byte is from
  simp only [Nat.reduceAdd, BitVec.add_right_inj, BitVec.reduceEq, ↓reduceIte,
    BitVec.add_right_eq_self, hor, BitVec.self_eq_add_right, BitVec.one_eq_zero_iff,
    OfNat.ofNat_ne_zero, hor', DescriptorFields.mk.injEq, and_self, and_true]
  exact ⟨Mem.extract_append x.base, extract20 x.limit⟩

theorem readGate_idtSetGate (m : Mem) (a : U32) (x : IdtArgs) :
    readGate (idtSetGate m a x) a = x.gate := by
  have h3 : a + 2#32 + 1#32 = a + 3#32 := BitVec.add_assoc _ _ _
  have h7 : a + 6#32 + 1#32 = a + 7#32 := BitVec.add_assoc _ _ _
  have hlow := low_piece x.handler (k := 0) (by decide)
  have hnext := low_piece x.handler (k := 8) (by decide)
  have hhigh := low_piece (x.handler >>> 16) (k := 0) (by decide)
  have htop := low_piece (x.handler >>> 16) (k := 8) (by decide)
  have hshift : ∀ k, k + 8 ≤ 16 →
      (x.handler >>> 16).extractLsb' k 8 = x.handler.extractLsb' (16 + k) 8 := by
    intro k hk
    ext i hi
    simp [Nat.add_assoc]
  unfold readGate idtSetGate IdtArgs.gate Mem.read16 Mem.write16 Mem.write8
  dsimp only
  rw [hlow, hnext, hhigh, htop, hshift 0 (by decide), hshift 8 (by decide), h3, h7]
  simp only [Nat.reduceAdd, BitVec.add_right_inj, BitVec.reduceEq, ↓reduceIte,
    BitVec.self_eq_add_right, BitVec.one_eq_zero_iff, OfNat.ofNat_ne_zero, Gate.mk.injEq, and_true]
  exact ⟨extract_append_halves x.handler, BitVec.extractLsb'_append_extractLsb'⟩

theorem gdtSetGate_outside (m : Mem) {a b : U32} (x : GdtArgs) (ha : a.toNat + 8 ≤ 2 ^ 32)
    (hb : b.toNat < a.toNat ∨ a.toNat + 8 ≤ b.toNat) : gdtSetGate m a x b = m b := by
  have hat : ∀ k < 8, (a + BitVec.ofNat 32 k).toNat = a.toNat + k := fun k hk =>
    Mem.toNat_add_of_lt (by omega)
  have hne : ∀ k < 8, b ≠ a + BitVec.ofNat 32 k := by
    rintro k hk rfl
    rw [hat k hk] at hb
    omega
  have h2 := hat 2 (by omega)
  unfold gdtSetGate
  rw [Mem.write8_of_ne _ _ (hne 5 (by omega)), Mem.write8_of_ne _ _ (hne 6 (by omega)),
    Mem.write8_of_ne _ _ (hne 6 (by omega)), Mem.write16_outside _ _ (by omega) (by omega),
    Mem.write8_of_ne _ _ (hne 7 (by omega)), Mem.write8_of_ne _ _ (hne 4 (by omega)),
    Mem.write16_outside _ _ (by omega) (by omega)]

theorem idtSetGate_outside (m : Mem) {a b : U32} (x : IdtArgs) (ha : a.toNat + 8 ≤ 2 ^ 32)
    (hb : b.toNat < a.toNat ∨ a.toNat + 8 ≤ b.toNat) : idtSetGate m a x b = m b := by
  have hat : ∀ k < 8, (a + BitVec.ofNat 32 k).toNat = a.toNat + k := fun k hk =>
    Mem.toNat_add_of_lt (by omega)
  have hne : ∀ k < 8, b ≠ a + BitVec.ofNat 32 k := by
    rintro k hk rfl
    rw [hat k hk] at hb
    omega
  have h2 := hat 2 (by omega)
  have h6 := hat 6 (by omega)
  unfold idtSetGate
  rw [Mem.write16_outside _ _ (by omega) (by omega), Mem.write8_of_ne _ _ (hne 5 (by omega)),
    Mem.write8_of_ne _ _ (hne 4 (by omega)), Mem.write16_outside _ _ (by omega) (by omega),
    Mem.write16_outside _ _ (by omega) (by omega)]

theorem readGate_congr {m m' : Mem} {a : U32} (ha : a.toNat + 8 ≤ 2 ^ 32)
    (h : Mem.AgreeOn m m' a.toNat (a.toNat + 8)) : readGate m a = readGate m' a := by
  have hat : ∀ k < 8, (a + BitVec.ofNat 32 k).toNat = a.toNat + k := fun k hk =>
    Mem.toNat_add_of_lt (by omega)
  have h2 := hat 2 (by omega)
  have h5 := hat 5 (by omega)
  have h6 := hat 6 (by omega)
  rw [readGate, readGate, Mem.read16_congr (by omega) (h.mono (by omega) (by omega)),
    Mem.read16_congr (m := m) (a := a) (by omega) (h.mono (by omega) (by omega)),
    Mem.read16_congr (a := a + 2#32) (by omega) (h.mono (by omega) (by omega)),
    h (a + 5#32) (by omega) (by omega)]

/-- The entries of the descriptor table. -/
def gdtFormat : RecordFormat GdtArgs DescriptorFields where
  size := 8
  read := readFields
  write := gdtSetGate
  value := GdtArgs.fields
  read_congr := readFields_congr
  read_write := fun m _ x _ => readFields_gdtSetGate m _ x
  write_outside := gdtSetGate_outside

/-- The entries of the interrupt table. -/
def idtFormat : RecordFormat IdtArgs Gate where
  size := 8
  read := readGate
  write := idtSetGate
  value := IdtArgs.gate
  read_congr := readGate_congr
  read_write := fun m _ x _ => readGate_idtSetGate m _ x
  write_outside := idtSetGate_outside

/-! ## Setting them up -/

/-- `gdt_flush`, on the pointer at `a`. -/
def gdtFlush (a : U32) (c : Cpu) : Option Cpu :=
  let gdtr := readTableRegister c.mem a
  if dataLoadable c.mem gdtr DATA_SEL ∧ stackLoadable c.mem gdtr DATA_SEL ∧
      codeLoadable c.mem gdtr CODE_SEL then
    some { c with
      gdtr := gdtr
      eax := a.extractLsb' 16 16 ++ DATA_SEL
      ds := DATA_SEL, es := DATA_SEL, fs := DATA_SEL, gs := DATA_SEL, ss := DATA_SEL
      cs := CODE_SEL }
  else none

/-- The entries that `gdt_init` sets. -/
def gdtEntries : List (Nat × GdtArgs) :=
  [(0, ⟨0, 0, 0, 0⟩), (1, ⟨0, 0xFFFFFFFF, 0x9A, 0xCF⟩), (2, ⟨0, 0xFFFFFFFF, 0x92, 0xCF⟩)]

/-- `gdt_init`. -/
def gdtInit (k : InterruptImage) (c : Cpu) : Option Cpu :=
  let m := c.mem.write16 k.gp 23
  let m := m.write32 (k.gp + 2#32) k.gdt
  gdtFlush k.gp { c with mem := gdtFormat.setAll k.gdt gdtEntries m }

/-- The stubs, in the order of `idt_init`. -/
def stubs : List Stub := (List.finRange 32).map .isr ++ (List.finRange 16).map .irq

/-- The entries that `idt_init` sets: none of them at first, and then one for each stub. -/
def idtEntries (k : InterruptImage) : List (Nat × IdtArgs) :=
  ((List.range 256).map fun i => ((BitVec.ofNat 8 i).toNat, ⟨0, 0, 0⟩)) ++
    stubs.map fun stub => (stub.vector.toNat, ⟨k.handler stub, CODE_SEL, 0x8E⟩)

/-- `idt_init`. -/
def idtInit (k : InterruptImage) (c : Cpu) : Cpu :=
  let m := idtFormat.setAll k.idt (idtEntries k) c.mem
  let m := m.write16 k.idtp 2047
  let m := m.write32 (k.idtp + 2#32) k.idt
  { c with mem := m, idtr := readTableRegister m k.idtp }

/-- The stub of a vector. -/
def stubOf (n : U8) : Option Stub :=
  if h : n.toNat < 32 then some (.isr ⟨n.toNat, h⟩)
  else if h' : n.toNat < 48 then some (.irq ⟨n.toNat - 32, by omega⟩)
  else none

/-- The gate of a vector. -/
def gateOf (k : InterruptImage) (n : U8) : Gate :=
  match stubOf n with
  | some stub => ⟨k.handler stub, CODE_SEL, 0x8E⟩
  | none => ⟨0, 0, 0⟩

/-! ## The descriptors -/

def CODE_DESCRIPTOR : Descriptor := ⟨0, 0xFFFFFFFF, 0x9A, true⟩
def DATA_DESCRIPTOR : Descriptor := ⟨0, 0xFFFFFFFF, 0x92, true⟩

section

variable {k : InterruptImage}

theorem stubOf_vector (stub : Stub) : stubOf stub.vector = some stub := by
  have hisr : ∀ n : Fin 32, stubOf (Stub.isr n).vector = some (.isr n) := by decide
  have hirq : ∀ n : Fin 16, stubOf (Stub.irq n).vector = some (.irq n) := by decide
  cases stub with
  | isr n => exact hisr n
  | irq n => exact hirq n

theorem vector_of_stubOf {n : U8} {stub : Stub} (h : stubOf n = some stub) : stub.vector = n := by
  unfold stubOf at h
  split at h
  · rename_i hlt
    obtain rfl := Option.some.inj h
    exact BitVec.eq_of_toNat_eq (by
      rw [Stub.vector, BitVec.toNat_ofNat]
      exact Nat.mod_eq_of_lt n.isLt)
  · split at h
    · rename_i hge hlt
      obtain rfl := Option.some.inj h
      apply BitVec.eq_of_toNat_eq
      rw [Stub.vector, BitVec.toNat_ofNat]
      dsimp only
      omega
    · cases h

theorem mem_stubs (stub : Stub) : stub ∈ stubs := by
  cases stub with
  | isr n => exact List.mem_append_left _ (List.mem_map_of_mem (List.mem_finRange n))
  | irq n => exact List.mem_append_right _ (List.mem_map_of_mem (List.mem_finRange n))

/-- The last entry that `idt_init` sets for a vector. -/
theorem idtEntries_lookup (n : U8) : ((idtEntries k).reverse.lookup n.toNat).map IdtArgs.gate =
    some (gateOf k n) := by
  rw [idtEntries, List.reverse_append, List.lookup_append, gateOf]
  cases hstub : stubOf n with
  | some stub =>
    have hvector := vector_of_stubOf hstub
    have hset : (stubs.map fun stub : Stub => (stub.vector.toNat,
        (⟨k.handler stub, CODE_SEL, 0x8E⟩ : IdtArgs))).reverse.lookup n.toNat =
        some ⟨k.handler stub, CODE_SEL, 0x8E⟩ := by
      refine List.lookup_of_unique (List.mem_reverse.2 (List.mem_map.2 ⟨stub, mem_stubs stub, ?_⟩))
        fun p hp heq => ?_
      · rw [hvector]
      · obtain ⟨stub', -, rfl⟩ := List.mem_map.1 (List.mem_reverse.1 hp)
        have hsame := stubOf_vector stub'
        rw [BitVec.eq_of_toNat_eq heq, hstub] at hsame
        rw [Option.some.inj hsame]
    rw [hset]
    rfl
  | none =>
    have hunset : (stubs.map fun stub : Stub => (stub.vector.toNat,
        (⟨k.handler stub, CODE_SEL, 0x8E⟩ : IdtArgs))).reverse.lookup n.toNat = none := by
      refine List.lookup_eq_none_iff.2 fun p hp => bne_iff_ne.2 fun heq => ?_
      obtain ⟨stub', -, rfl⟩ := List.mem_map.1 (List.mem_reverse.1 hp)
      have hsome := stubOf_vector stub'
      rw [← BitVec.eq_of_toNat_eq heq, hstub] at hsome
      cases hsome
    have hcleared : ((List.range 256).map fun i => ((BitVec.ofNat 8 i).toNat,
        (⟨0, 0, 0⟩ : IdtArgs))).reverse.lookup n.toNat = some ⟨0, 0, 0⟩ := by
      refine List.lookup_of_unique (List.mem_reverse.2 (List.mem_map.2
        ⟨n.toNat, List.mem_range.2 n.isLt, ?_⟩)) fun p hp _ => ?_
      · rw [BitVec.ofNat_toNat, BitVec.setWidth_eq]
      · obtain ⟨i, -, rfl⟩ := List.mem_map.1 (List.mem_reverse.1 hp)
        rfl
    rw [hunset, Option.none_or, hcleared]
    rfl

/-! ## The pointers -/

theorem readTableRegister_congr {m m' : Mem} {a : U32} (ha : a.toNat + 6 ≤ 2 ^ 32)
    (h : Mem.AgreeOn m m' a.toNat (a.toNat + 6)) :
    readTableRegister m a = readTableRegister m' a := by
  have h2 : (a + 2#32).toNat = a.toNat + 2 := Mem.toNat_add_of_lt (k := 2) (by omega)
  rw [readTableRegister, readTableRegister,
    Mem.read16_congr (by omega) (h.mono (Nat.le_refl _) (by omega)),
    Mem.read32_congr (by omega) (h.mono (by omega) (by omega))]

theorem readTableRegister_write (m : Mem) {a : U32} (ha : a.toNat + 6 ≤ 2 ^ 32) (limit : U16)
    (base : U32) :
    readTableRegister ((m.write16 a limit).write32 (a + 2#32) base) a = ⟨limit, base⟩ := by
  have h2 : (a + 2#32).toNat = a.toNat + 2 := Mem.toNat_add_of_lt (k := 2) (by omega)
  rw [readTableRegister, Mem.read32_write32, Mem.read16_congr (by omega)
    (Mem.agreeOn_write32 (m.write16 a limit) base (by omega) (.inr (by omega))),
    Mem.read16_write16]

theorem write_tableRegister_outside (m : Mem) {a b : U32} (ha : a.toNat + 6 ≤ 2 ^ 32)
    (hb : b.toNat < a.toNat ∨ a.toNat + 6 ≤ b.toNat) (limit : U16) (base : U32) :
    (m.write16 a limit).write32 (a + 2#32) base b = m b := by
  have h2 : (a + 2#32).toNat = a.toNat + 2 := Mem.toNat_add_of_lt (k := 2) (by omega)
  rw [Mem.write32_outside _ _ (by omega) (by omega), Mem.write16_outside _ _ (by omega) (by omega)]

/-! ## What is loaded -/

theorem gdtEntries_lt : ∀ p ∈ gdtEntries, p.1 < 3 := by decide

theorem idtEntries_lt : ∀ p ∈ idtEntries k, p.1 < 256 := by
  intro p hp
  rcases List.mem_append.1 hp with h | h
  · obtain ⟨i, -, rfl⟩ := List.mem_map.1 h
    exact BitVec.isLt _
  · obtain ⟨stub, -, rfl⟩ := List.mem_map.1 h
    exact BitVec.isLt _

/-- The three descriptors, in a memory. -/
structure FlatSegments (k : InterruptImage) (m : Mem) : Prop where
  null : readFields m (gdtFormat.address k.gdt 0) = ⟨0, 0, 0, 0⟩
  code : (readFields m (gdtFormat.address k.gdt 1)).descriptor = CODE_DESCRIPTOR
  data : (readFields m (gdtFormat.address k.gdt 2)).descriptor = DATA_DESCRIPTOR

theorem flatSegments_setAll (m : Mem) :
    FlatSegments k (gdtFormat.setAll k.gdt gdtEntries m) := by
  have hread : ∀ j < 3, readFields (gdtFormat.setAll k.gdt gdtEntries m)
      (gdtFormat.address k.gdt j) = ((gdtEntries.reverse.lookup j).map GdtArgs.fields).getD _ :=
    fun j hj => RecordFormat.read_setAll (F := gdtFormat) (n := 3) k.gdtFits hj gdtEntries_lt
  refine ⟨?_, ?_, ?_⟩
  · rw [hread 0 (by decide)]
    rfl
  · have hlast : (gdtEntries.reverse.lookup 1).map GdtArgs.fields =
        some ⟨0, 0xFFFFF, 0x9A, 0xC⟩ := by decide
    rw [hread 1 (by decide), hlast, Option.getD_some]
    decide
  · have hlast : (gdtEntries.reverse.lookup 2).map GdtArgs.fields =
        some ⟨0, 0xFFFFF, 0x92, 0xC⟩ := by decide
    rw [hread 2 (by decide), hlast, Option.getD_some]
    decide

theorem FlatSegments.congr {m m' : Mem} (h : FlatSegments k m)
    (hm : Mem.AgreeOn m m' k.gdt.toNat (k.gdt.toNat + 24)) : FlatSegments k m' := by
  have hread : ∀ j < 3, readFields m' (gdtFormat.address k.gdt j) =
      readFields m (gdtFormat.address k.gdt j) := by
    intro j hj
    obtain ⟨hat, hend⟩ := RecordFormat.address_fits (F := gdtFormat) (n := 3) k.gdtFits hj
    have hfits := k.gdtFits
    have hsize : gdtFormat.size = 8 := rfl
    rw [hsize] at hat hend
    exact readFields_congr (by omega) (hm.symm.mono (by omega) (by omega))
  exact ⟨(hread 0 (by decide)).trans h.null, by rw [hread 1 (by decide)]; exact h.code,
    by rw [hread 2 (by decide)]; exact h.data⟩

/-! ## Which selectors can be loaded -/

/-- A selector's index, and the bits that are not part of it. -/
theorem selector_split (sel : U16) :
    sel = sel.extractLsb' 3 13 ++ sel.extractLsb' 0 3 ∧
      (sel &&& 0xFFF8#16).toNat = 8 * (sel.extractLsb' 3 13).toNat := by
  have hsplit : sel.extractLsb' 3 13 ++ sel.extractLsb' 0 3 = sel :=
    BitVec.extractLsb'_append_extractLsb'
  refine ⟨hsplit.symm, ?_⟩
  have hmask : sel &&& 0xFFF8#16 = sel.extractLsb' 3 13 ++ 0#3 := by
    have hand : (sel.extractLsb' 3 13 ++ sel.extractLsb' 0 3) &&& (BitVec.allOnes 13 ++ 0#3) =
        sel.extractLsb' 3 13 ++ 0#3 := by
      rw [BitVec.and_append, BitVec.and_allOnes]
      exact congrArg _ BitVec.and_zero
    rw [hsplit] at hand
    exact hand
  rw [hmask, BitVec.toNat_append, Nat.shiftLeft_eq]
  simp
  omega

/-- What there is for an index. -/
def flatDescriptor (i : BitVec 13) : Option Descriptor :=
  if i = 0#13 then some ⟨0, 0, 0, false⟩
  else if i = 1#13 then some CODE_DESCRIPTOR
  else if i = 2#13 then some DATA_DESCRIPTOR
  else none

theorem descriptorAt_flat {m : Mem} (h : FlatSegments k m) (sel : U16) :
    descriptorAt m ⟨23, k.gdt⟩ sel =
      if sel.getLsbD 2 then none else flatDescriptor (sel.extractLsb' 3 13) := by
  obtain ⟨-, hmask⟩ := selector_split sel
  have hlt := (sel &&& 0xFFF8#16).isLt
  have h7 : (7 : U16).toNat = 7 := rfl
  have h23 : (23 : U16).toNat = 23 := rfl
  have hlimit : (sel &&& 0xFFF8#16) + 7 > 23 ↔ 3 ≤ (sel.extractLsb' 3 13).toNat := by
    rw [gt_iff_lt, BitVec.lt_def, BitVec.toNat_add, h7, h23]
    omega
  have haddr : ∀ j : Nat, (sel.extractLsb' 3 13).toNat = j →
      k.gdt + (sel &&& 0xFFF8#16).setWidth 32 = gdtFormat.address k.gdt j := by
    rintro j rfl
    refine congrArg (k.gdt + ·) (BitVec.eq_of_toNat_eq ?_)
    rw [BitVec.toNat_setWidth, BitVec.toNat_ofNat, hmask]
    rfl
  unfold descriptorAt flatDescriptor
  split
  · rfl
  · by_cases hbig : 3 ≤ (sel.extractLsb' 3 13).toNat
    · rw [if_pos (hlimit.2 hbig)]
      have hne : ∀ j : Nat, j < 3 → sel.extractLsb' 3 13 ≠ BitVec.ofNat 13 j := by
        rintro j hj heq
        rw [heq, BitVec.toNat_ofNat] at hbig
        omega
      rw [if_neg (hne 0 (by omega)), if_neg (hne 1 (by omega)), if_neg (hne 2 (by omega))]
    · rw [if_neg fun hgt => hbig (hlimit.1 hgt)]
      dsimp only
      rcases (by omega : (sel.extractLsb' 3 13).toNat = 0 ∨ (sel.extractLsb' 3 13).toNat = 1 ∨
        (sel.extractLsb' 3 13).toNat = 2) with h0 | h1 | h2
      · rw [haddr 0 h0, h.null, if_pos (BitVec.eq_of_toNat_eq h0)]
        rfl
      · rw [haddr 1 h1, h.code, BitVec.eq_of_toNat_eq (y := 1#13) h1]
        rfl
      · rw [haddr 2 h2, h.data, BitVec.eq_of_toNat_eq (y := 2#13) h2]
        rfl

/-- **The selectors that can be loaded**, of all that there are. -/
theorem loadable_flat {m : Mem} (h : FlatSegments k m) (sel : U16) :
    (codeLoadable m ⟨23, k.gdt⟩ sel ↔ sel = CODE_SEL) ∧
      (stackLoadable m ⟨23, k.gdt⟩ sel ↔ sel = DATA_SEL) ∧
      (dataLoadable m ⟨23, k.gdt⟩ sel ↔
        nullSelector sel ∨ sel = CODE_SEL ∨ sel = DATA_SEL) := by
  obtain ⟨i, r, rfl⟩ : ∃ (i : BitVec 13) (r : BitVec 3), sel = i ++ r :=
    ⟨_, _, (selector_split sel).1⟩
  unfold codeLoadable codeSegment stackLoadable dataLoadable
  rw [descriptorAt_flat h, show (i ++ r : U16).extractLsb' 3 13 = i from
    BitVec.extractLsb'_append_eq_left]
  by_cases h0 : i = 0#13
  · rw [h0]
    revert r
    decide
  by_cases h1 : i = 1#13
  · rw [h1]
    revert r
    decide
  by_cases h2 : i = 2#13
  · rw [h2]
    revert r
    decide
  · -- past the table
    have hnone : flatDescriptor i = none := by
      rw [flatDescriptor, if_neg h0, if_neg h1, if_neg h2]
    have hne : ∀ {j : BitVec 13} {t : BitVec 3}, i ≠ j → (i ++ r : U16) ≠ j ++ t :=
      fun hij heq => hij (Mem.append_inj heq).1
    have hcode : (i ++ r : U16) ≠ CODE_SEL := hne (j := 1) (t := 0) h1
    have hdata : (i ++ r : U16) ≠ DATA_SEL := hne (j := 2) (t := 0) h2
    rw [hnone, ite_self]
    simp [hcode, hdata]

/-! ## The tables, loaded -/

/-- The processor uses the kernel's tables, and they say what they were set up to say. -/
structure TablesLoaded (k : InterruptImage) (c : Cpu) : Prop where
  gdtr : c.gdtr = ⟨23, k.gdt⟩
  idtr : c.idtr = ⟨2047, k.idt⟩
  segments : FlatSegments k c.mem
  gate : ∀ n : U8, readGate c.mem (idtFormat.address k.idt n.toNat) = gateOf k n

/-- The segment registers hold the kernel's selectors. -/
structure KernelSegments (c : Cpu) : Prop where
  cs : c.cs = CODE_SEL
  ss : c.ss = DATA_SEL
  data : ∀ r, c.seg r = DATA_SEL

/-- The bytes of the tables and of their pointers. -/
def InterruptImage.Owns (k : InterruptImage) (a : U32) : Prop :=
  (k.gdt.toNat ≤ a.toNat ∧ a.toNat < k.gdt.toNat + 24) ∨
    (k.gp.toNat ≤ a.toNat ∧ a.toNat < k.gp.toNat + 6) ∨
    (k.idt.toNat ≤ a.toNat ∧ a.toNat < k.idt.toNat + 2048) ∨
    (k.idtp.toNat ≤ a.toNat ∧ a.toNat < k.idtp.toNat + 6)

/-- No fault on the way through `gdt_flush`. -/
theorem gdtFlush_flat {a : U32} (c : Cpu) (hgdtr : readTableRegister c.mem a = ⟨23, k.gdt⟩)
    (hflat : FlatSegments k c.mem) : gdtFlush a c = some { c with
      gdtr := ⟨23, k.gdt⟩
      eax := a.extractLsb' 16 16 ++ DATA_SEL
      ds := DATA_SEL, es := DATA_SEL, fs := DATA_SEL, gs := DATA_SEL, ss := DATA_SEL
      cs := CODE_SEL } := by
  obtain ⟨hcode, -, -⟩ := loadable_flat hflat CODE_SEL
  obtain ⟨-, hss, hdata⟩ := loadable_flat hflat DATA_SEL
  unfold gdtFlush
  dsimp only
  rw [hgdtr, if_pos ⟨hdata.2 (.inr (.inr rfl)), hss.2 rfl, hcode.2 rfl⟩]

theorem gdtInit_loaded (c : Cpu) : ∃ c', gdtInit k c = some c' ∧ c'.gdtr = ⟨23, k.gdt⟩ ∧
    FlatSegments k c'.mem ∧ KernelSegments c' ∧ (c'.esp, c'.eflags) = (c.esp, c.eflags) ∧
    ∀ a, ¬ k.Owns a → c'.mem a = c.mem a := by
  have hgdt := k.gdtFits
  have hgp := k.gpFits
  have hapart := k.gdt_gp
  have hptr := readTableRegister_write c.mem hgp 23 k.gdt
  generalize hm : (c.mem.write16 k.gp 23).write32 (k.gp + 2#32) k.gdt = m at hptr
  have hflat : FlatSegments k (gdtFormat.setAll k.gdt gdtEntries m) := flatSegments_setAll m
  have hout : ∀ {b : U32}, b.toNat < k.gdt.toNat ∨ k.gdt.toNat + 24 ≤ b.toNat →
      gdtFormat.setAll k.gdt gdtEntries m b = m b := fun hb =>
    RecordFormat.setAll_outside (F := gdtFormat) (n := 3) hgdt hb gdtEntries_lt
  have hgdtr : readTableRegister (gdtFormat.setAll k.gdt gdtEntries m) k.gp = ⟨23, k.gdt⟩ := by
    rw [readTableRegister_congr hgp fun b h1 h2 => hout (by omega)]
    exact hptr
  have hinit := gdtFlush_flat { c with mem := gdtFormat.setAll k.gdt gdtEntries m } hgdtr hflat
  rw [← hm] at hinit hflat
  refine ⟨_, hinit, rfl, hflat, ⟨rfl, rfl, fun r => by cases r <;> rfl⟩, rfl, fun a ha => ?_⟩
  dsimp only
  rw [hm]
  unfold InterruptImage.Owns at ha
  refine (hout (by omega)).trans ?_
  rw [← hm]
  exact write_tableRegister_outside _ hgp (by omega) _ _

theorem idtInit_loaded {c : Cpu} (hgdtr : c.gdtr = ⟨23, k.gdt⟩) (hflat : FlatSegments k c.mem) :
    TablesLoaded k (idtInit k c) ∧ ∀ a, ¬ k.Owns a → (idtInit k c).mem a = c.mem a := by
  have hidt := k.idtFits
  have hidtp := k.idtpFits
  have hgdt := k.gdtFits
  have hapart := k.gdt_idt
  have hapart' := k.gdt_idtp
  have hapart'' := k.idt_idtp
  have hset : ∀ {b : U32}, b.toNat < k.idt.toNat ∨ k.idt.toNat + 2048 ≤ b.toNat →
      idtFormat.setAll k.idt (idtEntries k) c.mem b = c.mem b := fun hb =>
    RecordFormat.setAll_outside (F := idtFormat) (n := 256) hidt hb idtEntries_lt
  have hptr : ∀ {b : U32}, b.toNat < k.idtp.toNat ∨ k.idtp.toNat + 6 ≤ b.toNat →
      (idtInit k c).mem b = idtFormat.setAll k.idt (idtEntries k) c.mem b := fun hb =>
    write_tableRegister_outside _ hidtp hb _ _
  refine ⟨⟨hgdtr, readTableRegister_write _ hidtp 2047 k.idt, ?_, fun n => ?_⟩, fun a ha => ?_⟩
  · exact hflat.congr fun b h1 h2 => ((hptr (by omega)).trans (hset (by omega))).symm
  · obtain ⟨hat, hend⟩ := RecordFormat.address_fits (F := idtFormat) (n := 256) hidt n.isLt
    have hsize : idtFormat.size = 8 := rfl
    rw [hsize] at hat hend
    have hread := RecordFormat.read_setAll (F := idtFormat) (n := 256) hidt n.isLt
      (m := c.mem) (idtEntries_lt (k := k))
    rw [show idtFormat.value = IdtArgs.gate from rfl, idtEntries_lookup, Option.getD_some] at hread
    rw [← hread]
    exact readGate_congr (by omega) fun b h1 h2 => hptr (by omega)
  · unfold InterruptImage.Owns at ha
    exact (hptr (by omega)).trans (hset (by omega))

end

end Frewozet
