import Frewozet.Base.Bytes
import Frewozet.Platform

/-!
# Collecting the memory map

`collect_e820` of `loader2.asm` asks the BIOS for the memory map, one entry a call, and leaves
the table at `E820_INFO_ADDR` that `ram_mapper_get_info` gives to the kernel.

* `E820Response` — what the BIOS can say to a call.
* `e820Round`, `e820Loop`, `collectE820`, `ramMapperGetInfo` — the code.
* `accepted rs` — what the table is for: the entries that the BIOS gave.
* `InStep mem₀ s es` — the invariant: the counter, the pointer and the slots hold `es`, and
  nothing was written behind the table.  `InStep.fill` and `InStep.push` are its two steps.
* `e820Round_inStep`, `e820Loop_inStep` — a round keeps it, and so does the loop.
* `collect_e820_exact` — **the table holds the accepted entries**, at most 32 of them;
  `collectE820_ends_iff` — when the loop ends.

The BIOS is taken to keep `es` and `di`.  The stack of the loader, at `0x9000:0xFF00`, where
`pushad`, `push` and `int` save registers, is not part of this memory.
-/

namespace Frewozet

/-! ## The BIOS -/

def E820_INFO_ADDR : U16 := 0x0500
def E820_MAX_ENTRIES : Nat := 32

/-- `"SMAP"`, the signature of a response. -/
def SMAP : U32 := 0x534D4150

/-- A response to `int 15h` with `eax = 0xE820`. -/
structure E820Response where
  carry : Bool
  eax : U32
  /-- The continuation: zero with the last entry. -/
  ebx : U32
  /-- An entry is stored at `es:di`. -/
  stored : Bool
  base : U64
  length : U64
  type : U32
  /-- Entries of 20 bytes do not have them. -/
  acpiAttrs : Option U32
  /-- A call can leave the entry out if it fails, but only then. -/
  answered : carry = false → eax = SMAP → stored = true

namespace E820Response

/-- The entry; the loader presets its attributes to 1. -/
def entry (r : E820Response) : E820Entry := ⟨r.base, r.length, r.type, r.acpiAttrs.getD 1⟩

/-- It is no response to this call. -/
def Failed (r : E820Response) : Prop := r.carry = true ∨ r.eax ≠ SMAP

instance (r : E820Response) : Decidable r.Failed := inferInstanceAs (Decidable (_ ∨ _))

/-- Nothing is asked after it. -/
def Last (r : E820Response) : Prop := r.Failed ∨ r.ebx = 0

instance (r : E820Response) : Decidable r.Last := inferInstanceAs (Decidable (_ ∨ _))

/-- What it adds to the table. -/
def accepted (r : E820Response) : List E820Entry :=
  if r.Failed ∨ r.length = 0 then [] else [r.entry]

end E820Response

/-- The entries that the BIOS gave: up to its last response, and no empty ones. -/
def accepted : List E820Response → List E820Entry
  | [] => []
  | r :: rs => r.accepted ++ if r.Last then [] else accepted rs

theorem E820Response.mem_accepted {r : E820Response} {e : E820Entry} :
    e ∈ r.accepted ↔ ¬ (r.Failed ∨ r.length = 0) ∧ e = r.entry := by
  rw [accepted]
  split
  · rename_i h
    exact iff_of_false List.not_mem_nil fun hno => hno.1 h
  · rename_i h
    exact List.mem_singleton.trans (and_iff_right h).symm

/-- No empty entries. -/
theorem length_ne_zero_of_accepted {rs : List E820Response} :
    ∀ e ∈ accepted rs, e.length ≠ 0 := by
  induction rs with
  | nil => simp [accepted]
  | cons r rs ih =>
    intro e he
    rcases List.mem_append.1 he with hr | hrs
    · obtain ⟨hno, rfl⟩ := E820Response.mem_accepted.1 hr
      exact fun hlength => hno (.inr hlength)
    · by_cases hlast : r.Last
      · rw [if_pos hlast] at hrs
        cases hrs
      · rw [if_neg hlast] at hrs
        exact ih e hrs

/-! ## The code -/

/-- `es:off`, where `es` is 0. -/
def linear (off : U16) : U32 := off.setWidth 32

/-- The first 20 bytes of an entry are stored at an address. -/
def E820Response.storeHead (r : E820Response) (a : U32) (mem : Mem) : Mem :=
  ((mem.write64 a r.base).write64 (a + 8#32) r.length).write32 (a + 16#32) r.type

/-- An entry is. -/
def E820Response.store (r : E820Response) (a : U32) (mem : Mem) : Mem :=
  match r.acpiAttrs with
  | some attrs => (r.storeHead a mem).write32 (a + 20#32) attrs
  | none => r.storeHead a mem

/-- `int 0x15`: the entry is stored at `es:di`. -/
def int15E820 (r : E820Response) (di : U16) (mem : Mem) : Mem :=
  if r.stored then r.store (linear di) mem else mem

/-- What changes in the loop. -/
structure CollectState where
  di : U16
  mem : Mem

/-- A round of `.e820_loop`, and whether there is another one. -/
def e820Round (r : E820Response) (s : CollectState) : Bool × CollectState :=
  let mem := s.mem.write32 (linear (s.di + 20)) 1
  let mem := int15E820 r s.di mem
  if r.carry then (false, ⟨s.di, mem⟩)
  else if r.eax ≠ SMAP then (false, ⟨s.di, mem⟩)
  else if mem.read32 (linear (s.di + 8)) ||| mem.read32 (linear (s.di + 12)) = 0 then
    (r.ebx ≠ 0, ⟨s.di, mem⟩)
  else
    let count := mem.read16 (linear (E820_INFO_ADDR + 4)) + 1
    let mem := mem.write16 (linear (E820_INFO_ADDR + 4)) count
    let di := s.di + 24
    if E820_MAX_ENTRIES ≤ (mem.read16 (linear (E820_INFO_ADDR + 4))).toNat then (false, ⟨di, mem⟩)
    else (r.ebx ≠ 0, ⟨di, mem⟩)

/-- `.e820_loop`.  The list is what the BIOS says, and `none` is a loop that waits for more. -/
def e820Loop : List E820Response → CollectState → Option CollectState
  | [], _ => none
  | r :: rs, s =>
    match e820Round r s with
    | (true, s) => e820Loop rs s
    | (false, s) => some s

/-- The stores before the loop: the signature, `count` and `reserved`. -/
def startTable (mem : Mem) : Mem :=
  let mem := mem.write32 (linear E820_INFO_ADDR) E820_SIG
  let mem := mem.write16 (linear (E820_INFO_ADDR + 4)) 0
  mem.write16 (linear (E820_INFO_ADDR + 6)) 0

/-- `collect_e820`. -/
def collectE820 (rs : List E820Response) (mem : Mem) : Option Mem := do
  let s ← e820Loop rs ⟨E820_INFO_ADDR + 8, startTable mem⟩
  some s.mem

/-- Where `entries[i]` is. -/
def slotAddr (i : Nat) : U32 := BitVec.ofNat 32 (0x508 + 24 * i)

/-- `struct e820_entry`. -/
def readEntry (mem : Mem) (a : U32) : E820Entry :=
  ⟨mem.read64 a, mem.read64 (a + 8#32), mem.read32 (a + 16#32), mem.read32 (a + 20#32)⟩

/-- The first `n` of `entries`. -/
def readEntries (mem : Mem) (n : Nat) : List E820Entry :=
  (List.range n).map fun i => readEntry mem (slotAddr i)

/-- `ram_mapper_get_info`: the kernel has the page mapped at `PHYS_TO_VIRT`. -/
def ramMapperGetInfo (mem : Mem) : E820Info where
  signature := mem.read32 (linear E820_INFO_ADDR)
  entries := readEntries mem (mem.read16 (linear (E820_INFO_ADDR + 4))).toNat

/-! ## The slots -/

/-- `di`, with so many entries before it. -/
def slotOffset (n : Nat) : U16 := BitVec.ofNat 16 (0x508 + 24 * n)

theorem slotAddr_toNat {n : Nat} (hn : n ≤ E820_MAX_ENTRIES) :
    (slotAddr n).toNat = 0x508 + 24 * n := by
  rw [slotAddr, BitVec.toNat_ofNat]
  unfold E820_MAX_ENTRIES at hn
  omega

theorem linear_slotOffset_add {n k : Nat} (hn : n ≤ E820_MAX_ENTRIES) (hk : k ≤ 24) :
    linear (slotOffset n + BitVec.ofNat 16 k) = slotAddr n + BitVec.ofNat 32 k := by
  unfold E820_MAX_ENTRIES at hn
  apply BitVec.eq_of_toNat_eq
  simp only [linear, slotOffset, slotAddr, BitVec.toNat_setWidth, BitVec.toNat_add,
    BitVec.toNat_ofNat]
  simp (disch := omega) only [Nat.mod_eq_of_lt]

theorem linear_slotOffset {n : Nat} (hn : n ≤ E820_MAX_ENTRIES) :
    linear (slotOffset n) = slotAddr n := by
  simpa using linear_slotOffset_add hn (Nat.zero_le 24)

/-- The places inside an entry. -/
theorem entry_inside {a : U32} (ha : a.toNat + 24 ≤ 2 ^ 32) :
    (a + 8#32).toNat = a.toNat + 8 ∧ (a + 16#32).toNat = a.toNat + 16 ∧
      (a + 20#32).toNat = a.toNat + 20 :=
  ⟨Mem.toNat_add_of_lt (k := 8) (by omega), Mem.toNat_add_of_lt (k := 16) (by omega),
    Mem.toNat_add_of_lt (k := 20) (by omega)⟩

theorem readEntry_congr {mem mem' : Mem} {a : U32} (ha : a.toNat + 24 ≤ 2 ^ 32)
    (h : Mem.AgreeOn mem mem' a.toNat (a.toNat + 24)) : readEntry mem a = readEntry mem' a := by
  obtain ⟨h8, h16, h20⟩ := entry_inside ha
  rw [readEntry, readEntry, Mem.read64_congr (by omega) (h.mono (by omega) (by omega)),
    Mem.read64_congr (by omega) (h.mono (by omega) (by omega)),
    Mem.read32_congr (by omega) (h.mono (by omega) (by omega)),
    Mem.read32_congr (by omega) (h.mono (by omega) (by omega))]

theorem readEntry_write32 (mem : Mem) {a : U32} (ha : a.toNat + 24 ≤ 2 ^ 32) (attrs : U32) :
    readEntry (mem.write32 (a + 20#32) attrs) a = { readEntry mem a with acpiAttrs := attrs } := by
  obtain ⟨h8, h16, h20⟩ := entry_inside ha
  have hbefore : Mem.AgreeOn (mem.write32 (a + 20#32) attrs) mem a.toNat (a.toNat + 20) :=
    Mem.agreeOn_write32 _ _ (by omega) (by omega)
  rw [readEntry, Mem.read32_write32,
    Mem.read64_congr (by omega) (hbefore.mono (by omega) (by omega)),
    Mem.read64_congr (by omega) (hbefore.mono (by omega) (by omega)),
    Mem.read32_congr (by omega) (hbefore.mono (by omega) (by omega)), readEntry]

namespace E820Response

variable {a : U32}

theorem agreeOn_storeHead (r : E820Response) (mem : Mem) {lo hi : Nat} (ha : a.toNat + 24 ≤ 2 ^ 32)
    (h : a.toNat + 20 ≤ lo ∨ hi ≤ a.toNat) : Mem.AgreeOn (r.storeHead a mem) mem lo hi := by
  obtain ⟨h8, h16, h20⟩ := entry_inside ha
  exact ((Mem.agreeOn_write32 _ _ (by omega) (by omega)).trans
    (Mem.agreeOn_write64 _ _ (by omega) (by omega))).trans
    (Mem.agreeOn_write64 _ _ (by omega) (by omega))

theorem readEntry_storeHead (r : E820Response) (mem : Mem) (ha : a.toNat + 24 ≤ 2 ^ 32) :
    readEntry (r.storeHead a mem) a = ⟨r.base, r.length, r.type, mem.read32 (a + 20#32)⟩ := by
  obtain ⟨h8, h16, h20⟩ := entry_inside ha
  have htype : Mem.AgreeOn (r.storeHead a mem)
      ((mem.write64 a r.base).write64 (a + 8#32) r.length) a.toNat (a.toNat + 16) :=
    Mem.agreeOn_write32 _ _ (by omega) (by omega)
  have hlength : Mem.AgreeOn (r.storeHead a mem) (mem.write64 a r.base) a.toNat (a.toNat + 8) :=
    (htype.mono (by omega) (by omega)).trans (Mem.agreeOn_write64 _ _ (by omega) (by omega))
  have hattrs : (r.storeHead a mem).read32 (a + 20#32) = mem.read32 (a + 20#32) :=
    Mem.read32_congr (by omega) (agreeOn_storeHead r mem ha (by omega))
  rw [readEntry, Mem.read64_congr (by omega) hlength, Mem.read64_write64 _ _ (by omega),
    Mem.read64_congr (by omega) (htype.mono (by omega) (by omega)),
    Mem.read64_write64 _ _ (by omega), hattrs, storeHead, Mem.read32_write32]

/-- The BIOS stores into the slot alone, -/
theorem agreeOn_store (r : E820Response) (mem : Mem) {lo hi : Nat} (ha : a.toNat + 24 ≤ 2 ^ 32)
    (h : a.toNat + 24 ≤ lo ∨ hi ≤ a.toNat) : Mem.AgreeOn (r.store a mem) mem lo hi := by
  obtain ⟨h8, h16, h20⟩ := entry_inside ha
  have hhead : Mem.AgreeOn (r.storeHead a mem) mem lo hi := agreeOn_storeHead r mem ha (by omega)
  unfold store
  cases r.acpiAttrs with
  | none => exact hhead
  | some attrs => exact (Mem.agreeOn_write32 _ _ (by omega) (by omega)).trans hhead

/-- and the entry is read back, with the attributes that were there if it has none. -/
theorem readEntry_store (r : E820Response) {mem : Mem} (ha : a.toNat + 24 ≤ 2 ^ 32)
    (hpreset : mem.read32 (a + 20#32) = 1) : readEntry (r.store a mem) a = r.entry := by
  unfold store entry
  cases r.acpiAttrs with
  | none => rw [readEntry_storeHead r mem ha, hpreset]; rfl
  | some attrs => rw [readEntry_write32 _ ha, readEntry_storeHead r mem ha]; rfl

end E820Response

theorem agreeOn_int15E820 (r : E820Response) (mem : Mem) {di : U16} {lo hi : Nat}
    (ha : (linear di).toNat + 24 ≤ 2 ^ 32)
    (h : (linear di).toNat + 24 ≤ lo ∨ hi ≤ (linear di).toNat) :
    Mem.AgreeOn (int15E820 r di mem) mem lo hi := by
  rw [int15E820]
  split
  · exact r.agreeOn_store mem ha h
  · exact Mem.AgreeOn.refl mem lo hi

/-! ## The invariant -/

/-- The counter, the pointer and the slots hold the entries, and nothing was written behind the
table. -/
structure InStep (mem₀ : Mem) (s : CollectState) (es : List E820Entry) : Prop where
  di : s.di = slotOffset es.length
  signature : s.mem.read32 (linear E820_INFO_ADDR) = E820_SIG
  count : s.mem.read16 (linear (E820_INFO_ADDR + 4)) = BitVec.ofNat 16 es.length
  slots : readEntries s.mem es.length = es
  room : es.length ≤ E820_MAX_ENTRIES
  kept : Mem.AgreeOn s.mem mem₀ 0x808 (2 ^ 32)

theorem readEntries_congr {mem mem' : Mem} {n : Nat} (hn : n ≤ E820_MAX_ENTRIES)
    (h : Mem.AgreeOn mem mem' 0x508 (0x508 + 24 * n)) : readEntries mem n = readEntries mem' n := by
  refine List.map_congr_left fun i hi => ?_
  rw [List.mem_range] at hi
  have hat := slotAddr_toNat (hi.le.trans hn)
  unfold E820_MAX_ENTRIES at hn
  exact readEntry_congr (by omega) (h.mono (by omega) (by omega))

theorem readEntries_succ (mem : Mem) (n : Nat) :
    readEntries mem (n + 1) = readEntries mem n ++ [readEntry mem (slotAddr n)] := by
  simp [readEntries, List.range_succ]

theorem slotOffset_succ (n : Nat) : slotOffset (n + 1) = slotOffset n + 24 := by
  rw [slotOffset, slotOffset, Nat.mul_add, ← Nat.add_assoc, BitVec.ofNat_add]
  rfl

namespace InStep

variable {mem₀ mem : Mem} {s : CollectState} {es : List E820Entry} {e : E820Entry}

/-- The slot behind the entries may be filled, with anything. -/
theorem fill (h : InStep mem₀ s es)
    (hbefore : Mem.AgreeOn mem s.mem 0x500 (0x508 + 24 * es.length))
    (hbehind : Mem.AgreeOn mem s.mem 0x808 (2 ^ 32)) : InStep mem₀ ⟨s.di, mem⟩ es where
  di := h.di
  signature := by
    rw [← h.signature]
    refine Mem.read32_congr (by decide) (hbefore.mono (by decide) ?_)
    exact Nat.le_add_right_of_le (by decide)
  count := by
    rw [← h.count]
    refine Mem.read16_congr (by decide) (hbefore.mono (by decide) ?_)
    exact Nat.le_add_right_of_le (by decide)
  slots := (readEntries_congr h.room (hbefore.mono (by decide) (Nat.le_refl _))).trans h.slots
  room := h.room
  kept := hbehind.trans h.kept

/-- Then it is counted. -/
theorem push (h : InStep mem₀ s es) (hroom : es.length < E820_MAX_ENTRIES)
    (hslot : readEntry s.mem (slotAddr es.length) = e) :
    InStep mem₀ ⟨s.di + 24, s.mem.write16 (linear (E820_INFO_ADDR + 4))
      (s.mem.read16 (linear (E820_INFO_ADDR + 4)) + 1)⟩ (es ++ [e]) := by
  have hat : (linear (E820_INFO_ADDR + 4)).toNat = 0x504 := rfl
  have hother : ∀ {lo hi : Nat} (w : U16), 0x506 ≤ lo ∨ hi ≤ 0x504 →
      Mem.AgreeOn (s.mem.write16 (linear (E820_INFO_ADDR + 4)) w) s.mem lo hi :=
    fun w hout => Mem.agreeOn_write16 s.mem w (by omega) (by omega)
  have hlength : (es ++ [e]).length = es.length + 1 := by simp
  constructor
  case di => rw [hlength, slotOffset_succ, h.di]
  case signature =>
    rw [← h.signature]
    exact Mem.read32_congr (by decide) (hother _ (.inr (by decide)))
  case count =>
    rw [Mem.read16_write16, h.count, hlength, BitVec.ofNat_add]
    rfl
  case slots =>
    rw [hlength, readEntries_congr hroom (hother _ (.inl (by decide))), readEntries_succ, h.slots,
      hslot]
  case room => rwa [hlength]
  case kept => exact (hother _ (.inl (by decide))).trans h.kept

end InStep

/-! ## The loop -/

section

variable {mem₀ : Mem} {s : CollectState} {es : List E820Entry}

/-- A call fills the slot behind the entries. -/
theorem InStep.asked (h : InStep mem₀ s es) (hroom : es.length < E820_MAX_ENTRIES)
    (r : E820Response) {mem : Mem}
    (hmem : int15E820 r s.di (s.mem.write32 (linear (s.di + 20)) 1) = mem) :
    InStep mem₀ ⟨s.di, mem⟩ es ∧
      (r.stored = true → readEntry mem (slotAddr es.length) = r.entry) := by
  have hat := slotAddr_toNat hroom.le
  have hdi : linear s.di = slotAddr es.length := by
    rw [h.di, linear_slotOffset hroom.le]
  have hdi_at : (linear s.di).toNat = 0x508 + 24 * es.length := by rw [hdi, hat]
  have hpreset : linear (s.di + 20) = slotAddr es.length + 20#32 := by
    rw [h.di]
    exact linear_slotOffset_add (k := 20) hroom.le (by decide)
  unfold E820_MAX_ENTRIES at hroom
  obtain ⟨-, -, h20⟩ := @entry_inside (slotAddr es.length) (by omega)
  rw [hpreset] at hmem
  constructor
  · have hother : ∀ {lo hi : Nat}, 0x508 + 24 * es.length + 24 ≤ lo ∨ hi ≤ 0x508 + 24 * es.length →
        Mem.AgreeOn mem s.mem lo hi := by
      intro lo hi hout
      rw [← hmem]
      exact (agreeOn_int15E820 r _ (by omega) (by omega)).trans
        (Mem.agreeOn_write32 _ _ (by omega) (by omega))
    exact h.fill (hother (.inr (Nat.le_refl _))) (hother (.inl (by omega)))
  · intro hstored
    rw [← hmem, int15E820, if_pos hstored, hdi]
    exact r.readEntry_store (by omega) (Mem.read32_write32 _ _ _)

/-- The two words that are tested are the length. -/
theorem length_tested {mem : Mem} {n : Nat} (hn : n < E820_MAX_ENTRIES) :
    mem.read32 (linear (slotOffset n + 8)) ||| mem.read32 (linear (slotOffset n + 12)) = 0 ↔
      (readEntry mem (slotAddr n)).length = 0 := by
  have h8 : linear (slotOffset n + 8) = slotAddr n + 8#32 :=
    linear_slotOffset_add (k := 8) hn.le (by decide)
  have h12 : linear (slotOffset n + 12) = slotAddr n + 8#32 + 4#32 := by
    rw [BitVec.add_assoc]
    exact linear_slotOffset_add (k := 12) hn.le (by decide)
  rw [h8, h12, readEntry, Mem.read64_eq_zero_iff]

/-- **A round keeps the counter, the pointer and the slots in step**, and there is another one
unless the response was the last or the table is full. -/
theorem e820Round_inStep (h : InStep mem₀ s es) (hroom : es.length < E820_MAX_ENTRIES)
    (r : E820Response) : InStep mem₀ (e820Round r s).2 (es ++ r.accepted) ∧
      ((e820Round r s).1 = true ↔ ¬ r.Last ∧ (es ++ r.accepted).length < E820_MAX_ENTRIES) := by
  obtain ⟨mem, hmem⟩ : ∃ mem, int15E820 r s.di (s.mem.write32 (linear (s.di + 20)) 1) = mem :=
    ⟨_, rfl⟩
  obtain ⟨hfilled, hslot⟩ := h.asked hroom r hmem
  unfold e820Round
  dsimp only
  rw [hmem]
  by_cases hfailed : r.Failed
  · have hlast : r.Last := .inl hfailed
    have haccepted : r.accepted = [] := if_pos (.inl hfailed)
    rw [haccepted, List.append_nil]
    by_cases hcarry : r.carry = true
    · rw [if_pos hcarry]
      exact ⟨hfilled, by simp [hlast]⟩
    · rw [if_neg hcarry, if_pos (hfailed.resolve_left hcarry)]
      exact ⟨hfilled, by simp [hlast]⟩
  have hlast : r.Last ↔ r.ebx = 0 := or_iff_right hfailed
  obtain ⟨hcarry, hsmap⟩ := not_or.1 hfailed
  have hentry := hslot (r.answered (Bool.eq_false_iff.2 hcarry) (not_not.1 hsmap))
  have htested := @length_tested mem es.length hroom
  rw [if_neg hcarry, if_neg hsmap]
  rw [hentry, ← h.di] at htested
  by_cases hempty : r.length = 0
  · -- `.skip_store`: the next response is stored here
    have haccepted : r.accepted = [] := if_pos (.inr hempty)
    rw [if_pos (htested.2 hempty), haccepted, List.append_nil]
    exact ⟨hfilled, by simp [hlast, hroom]⟩
  · have haccepted : r.accepted = [r.entry] := if_neg (not_or.2 ⟨hfailed, hempty⟩)
    have hpush := hfilled.push hroom hentry
    have hcount := congrArg BitVec.toNat hpush.count
    rw [if_neg (fun hz => hempty (htested.1 hz)), haccepted]
    have hlength : (es ++ [r.entry]).length = es.length + 1 := by simp
    rw [hlength, BitVec.toNat_ofNat, Nat.mod_eq_of_lt (by unfold E820_MAX_ENTRIES at hroom; omega)]
      at hcount
    rw [hcount, hlength]
    by_cases hfull : E820_MAX_ENTRIES ≤ es.length + 1
    · rw [if_pos hfull]
      exact ⟨hpush, by simp [hfull]⟩
    · rw [if_neg hfull]
      exact ⟨hpush, by simp [hlast, Nat.lt_of_not_le hfull]⟩

theorem accepted_cons (r : E820Response) (rs : List E820Response) :
    accepted (r :: rs) = r.accepted ++ if r.Last then [] else accepted rs := rfl

/-- **So does the loop**: what it ends with is what was accepted, as far as there was room. -/
theorem e820Loop_inStep {rs : List E820Response} {s' : CollectState} (h : InStep mem₀ s es)
    (hroom : es.length < E820_MAX_ENTRIES) (hloop : e820Loop rs s = some s') :
    InStep mem₀ s' ((es ++ accepted rs).take E820_MAX_ENTRIES) := by
  induction rs generalizing s es with
  | nil => cases hloop
  | cons r rs ih =>
    obtain ⟨hround, hmore⟩ := e820Round_inStep h hroom r
    rw [accepted_cons, ← List.append_assoc]
    rw [e820Loop] at hloop
    split at hloop
    · rename_i s₁ heq
      rw [heq] at hround hmore
      obtain ⟨hlast, hlength⟩ := hmore.1 rfl
      rw [if_neg hlast]
      exact ih hround hlength hloop
    · rename_i s₁ heq
      rw [heq] at hround hmore
      obtain rfl := Option.some.inj hloop
      by_cases hlast : r.Last
      · rw [if_pos hlast, List.append_nil, List.take_of_length_le hround.room]
        exact hround
      · -- the table is full
        have hfull : (es ++ r.accepted).length = E820_MAX_ENTRIES := by
          refine Nat.le_antisymm hround.room (Nat.le_of_not_lt fun hlt => ?_)
          exact Bool.false_ne_true (hmore.2 ⟨hlast, hlt⟩)
        rw [← hfull, List.take_left]
        exact hround

/-- It ends with a last response, or when the table is full, and else waits for another one. -/
theorem e820Loop_ends_iff {rs : List E820Response} (h : InStep mem₀ s es)
    (hroom : es.length < E820_MAX_ENTRIES) : (∃ s', e820Loop rs s = some s') ↔
      (∃ r ∈ rs, r.Last) ∨ E820_MAX_ENTRIES ≤ (es ++ accepted rs).length := by
  induction rs generalizing s es with
  | nil => simp [e820Loop, accepted, hroom]
  | cons r rs ih =>
    obtain ⟨hround, hmore⟩ := e820Round_inStep h hroom r
    rw [accepted_cons, ← List.append_assoc, e820Loop]
    split
    · rename_i s₁ heq
      rw [heq] at hround hmore
      obtain ⟨hlast, hlength⟩ := hmore.1 rfl
      rw [if_neg hlast, ih hround hlength]
      simp [hlast]
    · rename_i s₁ heq
      rw [heq] at hround hmore
      refine iff_of_true ⟨s₁, rfl⟩ ?_
      by_cases hlast : r.Last
      · exact .inl ⟨r, List.mem_cons_self, hlast⟩
      · refine .inr (Nat.le_of_not_lt fun hlt => ?_)
        rw [List.length_append] at hlt
        exact Bool.false_ne_true (hmore.2 ⟨hlast, Nat.lt_of_le_of_lt (Nat.le_add_right _ _) hlt⟩)

end

/-! ## The table -/

theorem inStep_start (mem : Mem) : InStep mem ⟨E820_INFO_ADDR + 8, startTable mem⟩ [] where
  di := rfl
  signature := by
    rw [startTable, Mem.read32_congr (by decide) ((Mem.agreeOn_write16 _ _ (by decide)
      (.inr (by decide))).trans (Mem.agreeOn_write16 _ _ (by decide) (.inr (by decide)))),
      Mem.read32_write32]
  count := by
    rw [startTable, Mem.read16_congr (by decide)
      (Mem.agreeOn_write16 _ _ (by decide) (.inr (by decide))), Mem.read16_write16]
    rfl
  slots := rfl
  room := Nat.zero_le _
  kept := ((Mem.agreeOn_write16 _ _ (by decide) (.inl (by decide))).trans
    (Mem.agreeOn_write16 _ _ (by decide) (.inl (by decide)))).trans
    (Mem.agreeOn_write32 _ _ (by decide) (.inl (by decide)))

theorem InStep.count_toNat {mem₀ : Mem} {s : CollectState} {es : List E820Entry}
    (h : InStep mem₀ s es) :
    (s.mem.read16 (linear (E820_INFO_ADDR + 4))).toNat = es.length := by
  have hroom := h.room
  unfold E820_MAX_ENTRIES at hroom
  rw [h.count, BitVec.toNat_ofNat, Nat.mod_eq_of_lt (by omega)]

/-- What the kernel finds. -/
theorem InStep.ramMapperGetInfo {mem₀ : Mem} {s : CollectState} {es : List E820Entry}
    (h : InStep mem₀ s es) : ramMapperGetInfo s.mem = ⟨E820_SIG, es⟩ := by
  rw [Frewozet.ramMapperGetInfo, h.signature, h.count_toNat, h.slots]

theorem exists_of_collectE820 {rs : List E820Response} {mem mem' : Mem}
    (h : collectE820 rs mem = some mem') :
    ∃ s, s.mem = mem' ∧ InStep mem s ((accepted rs).take E820_MAX_ENTRIES) := by
  obtain ⟨s, hloop, hmem⟩ := Option.bind_eq_some_iff.1 h
  exact ⟨s, Option.some.inj hmem, e820Loop_inStep (inStep_start mem) (by decide) hloop⟩

/-- **The BIOS ends the loop**, or a full table does: else it asks for ever. -/
theorem collectE820_ends_iff (rs : List E820Response) (mem : Mem) :
    (∃ mem', collectE820 rs mem = some mem') ↔
      (∃ r ∈ rs, r.Last) ∨ E820_MAX_ENTRIES ≤ (accepted rs).length := by
  rw [← List.nil_append (accepted rs), ← e820Loop_ends_iff (inStep_start mem) (by decide)]
  constructor
  · rintro ⟨mem', h⟩
    obtain ⟨s, hloop, -⟩ := Option.bind_eq_some_iff.1 h
    exact ⟨s, hloop⟩
  · rintro ⟨s, hloop⟩
    exact ⟨s.mem, by rw [collectE820, hloop]; rfl⟩

/-- **The table is what the BIOS gave**: when `collect_e820` ends, the kernel finds the signature
and the first 32 of the accepted entries, in order, and nothing behind the table was written. -/
theorem collect_e820_exact {rs : List E820Response} {mem mem' : Mem}
    (h : collectE820 rs mem = some mem') :
    ramMapperGetInfo mem' = ⟨E820_SIG, (accepted rs).take E820_MAX_ENTRIES⟩ ∧
      (mem'.read16 (linear (E820_INFO_ADDR + 4))).toNat =
        min E820_MAX_ENTRIES (accepted rs).length ∧
      (∀ e ∈ accepted rs, e.length ≠ 0) ∧
      ∀ a : U32, E820_INFO_ADDR.toNat + 8 + E820_MAX_ENTRIES * 24 ≤ a.toNat →
        mem' a = mem a := by
  obtain ⟨s, rfl, hs⟩ := exists_of_collectE820 h
  refine ⟨hs.ramMapperGetInfo, ?_, length_ne_zero_of_accepted, fun a ha => hs.kept a ha a.isLt⟩
  rw [hs.count_toNat, List.length_take]

/-- Low memory, an empty entry, and the memory above 1 MiB in an entry of 20 bytes. -/
def plainResponses : List E820Response :=
  [⟨false, SMAP, 1, true, 0, 0x9FC00, 1, some 1, fun _ _ => rfl⟩,
    ⟨false, SMAP, 2, true, 0x9FC00, 0, 2, some 1, fun _ _ => rfl⟩,
    ⟨false, SMAP, 0, true, 0x100000, 0x7EE0000, 1, none, fun _ _ => rfl⟩]

theorem collect_e820_plain : ∃ mem', collectE820 plainResponses (fun _ => 0) = some mem' ∧
    ramMapperGetInfo mem' =
      ⟨E820_SIG, [⟨0, 0x9FC00, 1, 1⟩, ⟨0x100000, 0x7EE0000, 1, 1⟩]⟩ := by
  have hends := (collectE820_ends_iff plainResponses fun _ => 0).2 (.inl (by decide))
  obtain ⟨mem', hmem⟩ := hends
  exact ⟨mem', hmem, (collect_e820_exact hmem).1.trans (by decide)⟩

end Frewozet
