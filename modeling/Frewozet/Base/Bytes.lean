import Frewozet.Base.Words

/-!
# Byte memory

Memory as a machine without alignment faults sees it: a byte at every 32-bit
address, and little-endian words read from and written to four of them.

* `read16`, `read32`, `read64`, `write8`, `write16`, `write32`, `write64`, `fill`, `copy` — the
  accesses.
* `AgreeOn m m' lo hi` — the two memories hold the same bytes at the addresses
  `lo ≤ a < hi`; `read32_congr` says a word only depends on its four bytes, and
  the `agreeOn_write` lemmas say which bytes an access leaves alone.
* `read32_write32`, `read32_write32_apart` — a word written is the word read
  back, and a word somewhere else is not disturbed; `read16_write16` and
  `read64_write64` for the other widths.
* `writeWords`, `read32_writeWords` — words in a row.
-/

/-- Memory: a byte at each address. -/
abbrev Mem := U32 → U8

namespace Mem

/-! ## Accesses -/

/-- The little-endian word at `a`. -/
def read32 (m : Mem) (a : U32) : U32 := m (a + 3#32) ++ (m (a + 2#32) ++ (m (a + 1#32) ++ m a))

/-- Store one byte. -/
def write8 (m : Mem) (a : U32) (b : U8) : Mem := fun x => if x = a then b else m x

/-- Store a word, low byte first. -/
def write32 (m : Mem) (a : U32) (w : U32) : Mem := fun x =>
  if x = a then w.extractLsb' 0 8
  else if x = a + 1#32 then w.extractLsb' 8 8
  else if x = a + 2#32 then w.extractLsb' 16 8
  else if x = a + 3#32 then w.extractLsb' 24 8
  else m x

/-- The little-endian half word at `a`. -/
def read16 (m : Mem) (a : U32) : U16 := m (a + 1#32) ++ m a

/-- Store a half word, low byte first. -/
def write16 (m : Mem) (a : U32) (w : U16) : Mem :=
  (m.write8 a (w.extractLsb' 0 8)).write8 (a + 1#32) (w.extractLsb' 8 8)

/-- The little-endian double word at `a`. -/
def read64 (m : Mem) (a : U32) : U64 := m.read32 (a + 4#32) ++ m.read32 a

/-- Store a double word, low word first. -/
def write64 (m : Mem) (a : U32) (w : U64) : Mem :=
  (m.write32 a (w.extractLsb' 0 32)).write32 (a + 4#32) (w.extractLsb' 32 32)

/-- Store the byte `b` at the `n` addresses from `a` on, first to last. -/
def fill (m : Mem) (a : U32) (b : U8) : Nat → Mem
  | 0 => m
  | n + 1 => fill (m.write8 a b) (a + 1#32) b n

/-- Copy `n` bytes, first to last. -/
def copy (m : Mem) (src dst : U32) : Nat → Mem
  | 0 => m
  | n + 1 => copy (m.write8 dst (m src)) (src + 1#32) (dst + 1#32) n

/-- The two memories hold the same bytes from `lo` up to `hi`. -/
def AgreeOn (m m' : Mem) (lo hi : Nat) : Prop := ∀ a : U32, lo ≤ a.toNat → a.toNat < hi → m a = m' a

/-! ## Addresses -/

theorem toNat_add_of_lt {a : U32} {k : Nat} (h : a.toNat + k < 2 ^ 32) :
    (a + BitVec.ofNat 32 k).toNat = a.toNat + k := by
  rw [BitVec.toNat_add, BitVec.toNat_ofNat, Nat.mod_eq_of_lt (show k < 2 ^ 32 by omega),
    Nat.mod_eq_of_lt h]

theorem add_one_add (a : U32) (k : Nat) :
    a + 1#32 + BitVec.ofNat 32 k = a + BitVec.ofNat 32 (k + 1) := by
  rw [BitVec.add_assoc, BitVec.ofNat_add, BitVec.add_comm 1#32]

/-! ## Agreement -/

theorem AgreeOn.refl (m : Mem) (lo hi : Nat) : AgreeOn m m lo hi := fun _ _ _ => rfl

theorem AgreeOn.symm {m m' : Mem} {lo hi : Nat} (h : AgreeOn m m' lo hi) : AgreeOn m' m lo hi :=
  fun a h1 h2 => (h a h1 h2).symm

theorem AgreeOn.trans {m m' m'' : Mem} {lo hi : Nat} (h : AgreeOn m m' lo hi)
    (h' : AgreeOn m' m'' lo hi) : AgreeOn m m'' lo hi :=
  fun a h1 h2 => (h a h1 h2).trans (h' a h1 h2)

theorem AgreeOn.mono {m m' : Mem} {lo hi lo' hi' : Nat} (h : AgreeOn m m' lo hi) (hlo : lo ≤ lo')
    (hhi : hi' ≤ hi) : AgreeOn m m' lo' hi' :=
  fun a h1 h2 => h a (hlo.trans h1) (lt_of_lt_of_le h2 hhi)

/-- A word depends on its own four bytes only. -/
theorem read32_congr {m m' : Mem} {a : U32} (ha : a.toNat + 4 ≤ 2 ^ 32)
    (h : AgreeOn m m' a.toNat (a.toNat + 4)) : m.read32 a = m'.read32 a := by
  have h0 := h a (by omega) (by omega)
  have h1 := h (a + 1#32) (by rw [toNat_add_of_lt (k := 1) (by omega)]; omega)
    (by rw [toNat_add_of_lt (k := 1) (by omega)]; omega)
  have h2 := h (a + 2#32) (by rw [toNat_add_of_lt (k := 2) (by omega)]; omega)
    (by rw [toNat_add_of_lt (k := 2) (by omega)]; omega)
  have h3 := h (a + 3#32) (by rw [toNat_add_of_lt (k := 3) (by omega)]; omega)
    (by rw [toNat_add_of_lt (k := 3) (by omega)]; omega)
  rw [read32, read32, h0, h1, h2, h3]

theorem read16_congr {m m' : Mem} {a : U32} (ha : a.toNat + 2 ≤ 2 ^ 32)
    (h : AgreeOn m m' a.toNat (a.toNat + 2)) : m.read16 a = m'.read16 a := by
  have hnext : (a + 1#32).toNat = a.toNat + 1 := toNat_add_of_lt (k := 1) (by omega)
  rw [read16, read16, h a (by omega) (by omega), h (a + 1#32) (by omega) (by omega)]

theorem read64_congr {m m' : Mem} {a : U32} (ha : a.toNat + 8 ≤ 2 ^ 32)
    (h : AgreeOn m m' a.toNat (a.toNat + 8)) : m.read64 a = m'.read64 a := by
  have hnext : (a + 4#32).toNat = a.toNat + 4 := toNat_add_of_lt (k := 4) (by omega)
  rw [read64, read64, read32_congr (by omega) (h.mono (Nat.le_refl _) (by omega)),
    read32_congr (by omega) (h.mono (by omega) (by omega))]

/-! ## What an access writes, and what it leaves alone -/

@[simp] theorem write8_same (m : Mem) (a : U32) (b : U8) : m.write8 a b a = b := by
  simp [write8]

theorem write8_of_ne (m : Mem) {a x : U32} (b : U8) (h : x ≠ a) : m.write8 a b x = m x := by
  simp [write8, h]

theorem agreeOn_write8 (m : Mem) {a : U32} {lo hi : Nat} (b : U8)
    (h : a.toNat < lo ∨ hi ≤ a.toNat) : AgreeOn (m.write8 a b) m lo hi := by
  intro x h1 h2
  refine write8_of_ne m b ?_
  rintro rfl
  omega

theorem write32_outside (m : Mem) {a x : U32} (w : U32) (ha : a.toNat + 4 ≤ 2 ^ 32)
    (h : x.toNat < a.toNat ∨ a.toNat + 4 ≤ x.toNat) : m.write32 a w x = m x := by
  have hne : ∀ k < 4, x ≠ a + BitVec.ofNat 32 k := by
    rintro k hk rfl
    rw [toNat_add_of_lt (by omega)] at h
    omega
  have h0 : x ≠ a := by simpa using hne 0 (by omega)
  have h1 : x ≠ a + 1#32 := hne 1 (by omega)
  have h2 : x ≠ a + 2#32 := hne 2 (by omega)
  have h3 : x ≠ a + 3#32 := hne 3 (by omega)
  simp [write32, h0, h1, h2, h3]

theorem agreeOn_write32 (m : Mem) {a : U32} {lo hi : Nat} (w : U32) (ha : a.toNat + 4 ≤ 2 ^ 32)
    (h : a.toNat + 4 ≤ lo ∨ hi ≤ a.toNat) : AgreeOn (m.write32 a w) m lo hi :=
  fun x h1 h2 => write32_outside m w ha (by omega)

theorem agreeOn_write16 (m : Mem) {a : U32} {lo hi : Nat} (w : U16) (ha : a.toNat + 2 ≤ 2 ^ 32)
    (h : a.toNat + 2 ≤ lo ∨ hi ≤ a.toNat) : AgreeOn (m.write16 a w) m lo hi := by
  have hnext : (a + 1#32).toNat = a.toNat + 1 := toNat_add_of_lt (k := 1) (by omega)
  exact (agreeOn_write8 _ _ (by omega)).trans (agreeOn_write8 _ _ (by omega))

theorem write16_outside (m : Mem) {a x : U32} (w : U16) (ha : a.toNat + 2 ≤ 2 ^ 32)
    (h : x.toNat < a.toNat ∨ a.toNat + 2 ≤ x.toNat) : m.write16 a w x = m x := by
  have hagree : AgreeOn (m.write16 a w) m x.toNat (x.toNat + 1) := agreeOn_write16 m w ha (by omega)
  exact hagree x (Nat.le_refl _) (Nat.lt_succ_self _)

theorem agreeOn_write64 (m : Mem) {a : U32} {lo hi : Nat} (w : U64) (ha : a.toNat + 8 ≤ 2 ^ 32)
    (h : a.toNat + 8 ≤ lo ∨ hi ≤ a.toNat) : AgreeOn (m.write64 a w) m lo hi := by
  have hnext : (a + 4#32).toNat = a.toNat + 4 := toNat_add_of_lt (k := 4) (by omega)
  exact (agreeOn_write32 _ _ (by omega) (by omega)).trans
    (agreeOn_write32 _ _ (by omega) (by omega))

/-- A store is seen at its own address, whatever else the two memories hold. -/
theorem write8_congr {m m' : Mem} {x : U32} (h : m x = m' x) (a : U32) (b : U8) :
    m.write8 a b x = m'.write8 a b x := by
  unfold write8
  rw [h]

theorem write8_eq_update (m : Mem) (a : U32) (b : U8) : m.write8 a b = Function.update m a b := by
  funext x
  rw [Function.update_apply]
  rfl

/-- A word is stored byte by byte. -/
theorem write32_eq_write8 (m : Mem) (a w : U32) : m.write32 a w =
    (((m.write8 a (w.extractLsb' 0 8)).write8 (a + 1#32) (w.extractLsb' 8 8)).write8 (a + 2#32)
      (w.extractLsb' 16 8)).write8 (a + 3#32) (w.extractLsb' 24 8) := by
  funext x
  unfold write32 write8
  by_cases h0 : x = a
  · simp [h0]
  by_cases h1 : x = a + 1#32
  · simp [h1]
  by_cases h2 : x = a + 2#32
  · simp [h2]
  · simp [h0, h1, h2]

/-- The four bytes of a word, put back together. -/
theorem extract_append (w : U32) :
    w.extractLsb' 24 8 ++ (w.extractLsb' 16 8 ++ (w.extractLsb' 8 8 ++ w.extractLsb' 0 8)) = w := by
  apply BitVec.eq_of_getLsbD_eq
  intro i hi
  simp only [BitVec.getLsbD_append, BitVec.getLsbD_extractLsb']
  by_cases h24 : i < 24
  · by_cases h16 : i < 16
    · by_cases h8 : i < 8
      · simp [h8, h16, h24]
      · simp [h8, h16, h24, show i - 8 < 8 by omega, show 8 + (i - 8) = i by omega]
    · simp [h16, h24, show i - 16 < 8 by omega, show 16 + (i - 16) = i by omega]
  · simp [h24, show i - 24 < 8 by omega, show 24 + (i - 24) = i by omega]

/-- A word written is the word read back. -/
@[simp] theorem read32_write32 (m : Mem) (a w : U32) : (m.write32 a w).read32 a = w := by
  have h10 : a + 1#32 ≠ a := by simp
  have h20 : a + 2#32 ≠ a := by simp
  have h30 : a + 3#32 ≠ a := by simp
  have h21 : a + 2#32 ≠ a + 1#32 := by simp
  have h31 : a + 3#32 ≠ a + 1#32 := by simp
  have h32 : a + 3#32 ≠ a + 2#32 := by simp
  have hr : (m.write32 a w).read32 a = w.extractLsb' 24 8 ++ (w.extractLsb' 16 8 ++
      (w.extractLsb' 8 8 ++ w.extractLsb' 0 8)) := by
    simp only [read32, write32]
    simp
  rw [hr, extract_append]

/-- A word elsewhere is not disturbed. -/
theorem read32_write32_apart (m : Mem) {a b : U32} (w : U32) (ha : a.toNat + 4 ≤ 2 ^ 32)
    (hb : b.toNat + 4 ≤ 2 ^ 32) (h : a.toNat + 4 ≤ b.toNat ∨ b.toNat + 4 ≤ a.toNat) :
    (m.write32 a w).read32 b = m.read32 b :=
  read32_congr hb (agreeOn_write32 m w ha (by omega))

@[simp] theorem read16_write16 (m : Mem) (a : U32) (w : U16) : (m.write16 a w).read16 a = w := by
  have h10 : a ≠ a + 1#32 := by simp
  rw [read16, write16, write8_same, write8_of_ne _ _ h10, write8_same]
  exact BitVec.extractLsb'_append_extractLsb'

theorem read64_write64 (m : Mem) {a : U32} (w : U64) (ha : a.toNat + 8 ≤ 2 ^ 32) :
    (m.write64 a w).read64 a = w := by
  have hnext : (a + 4#32).toNat = a.toNat + 4 := toNat_add_of_lt (k := 4) (by omega)
  rw [read64, write64, read32_write32,
    read32_write32_apart _ _ (by omega) (by omega) (by omega), read32_write32]
  exact BitVec.extractLsb'_append_extractLsb'

theorem append_inj {v w : Nat} {a a' : BitVec v} {b b' : BitVec w} (h : a ++ b = a' ++ b') :
    a = a' ∧ b = b' := by
  have hhigh := congrArg (BitVec.extractLsb' w v) h
  have hlow := congrArg (BitVec.extractLsb' 0 w) h
  rw [BitVec.extractLsb'_append_eq_left, BitVec.extractLsb'_append_eq_left] at hhigh
  rw [BitVec.extractLsb'_append_eq_right, BitVec.extractLsb'_append_eq_right] at hlow
  exact ⟨hhigh, hlow⟩

/-- A double word is zero if its halves are. -/
theorem read64_eq_zero_iff (m : Mem) (a : U32) :
    m.read64 a = 0 ↔ m.read32 a ||| m.read32 (a + 4#32) = 0 := by
  constructor
  · intro h
    have hhalves : m.read32 (a + 4#32) ++ m.read32 a = 0#32 ++ 0#32 := h
    exact BitVec.or_eq_zero_iff.2 (append_inj hhalves).symm
  · intro h
    obtain ⟨hlow, hhigh⟩ := BitVec.or_eq_zero_iff.1 h
    rw [read64, hlow, hhigh]
    rfl

/-- A word says what its four bytes are. -/
theorem byte_of_read32 {m m' : Mem} {a : U32} (h : m.read32 a = m'.read32 a) {k : Nat}
    (hk : k < 4) : m (a + BitVec.ofNat 32 k) = m' (a + BitVec.ofNat 32 k) := by
  obtain ⟨h3, h⟩ := append_inj h
  obtain ⟨h2, h⟩ := append_inj h
  obtain ⟨h1, h0⟩ := append_inj h
  match k, hk with
  | 0, _ => rwa [BitVec.add_zero]
  | 1, _ => exact h1
  | 2, _ => exact h2
  | 3, _ => exact h3

theorem fill_outside (b : U8) : ∀ (n : Nat) (m : Mem) {a x : U32}, a.toNat + n ≤ 2 ^ 32 →
    (x.toNat < a.toNat ∨ a.toNat + n ≤ x.toNat) → m.fill a b n x = m x := by
  intro n
  induction n with
  | zero => intro m a x _ _; rfl
  | succ n ih =>
    intro m a x hn hx
    have hne : x ≠ a := by rintro rfl; omega
    rcases Nat.eq_zero_or_pos n with rfl | hpos
    · exact write8_of_ne m b hne
    · have ha : (a + 1#32).toNat = a.toNat + 1 := toNat_add_of_lt (k := 1) (by omega)
      rw [fill, ih _ (by omega) (by omega), write8_of_ne m b hne]

theorem fill_inside (b : U8) : ∀ (n : Nat) (m : Mem) {a x : U32}, a.toNat + n ≤ 2 ^ 32 →
    a.toNat ≤ x.toNat → x.toNat < a.toNat + n → m.fill a b n x = b := by
  intro n
  induction n with
  | zero => intro m a x _ h1 h2; omega
  | succ n ih =>
    intro m a x hn h1 h2
    rcases Nat.eq_zero_or_pos n with rfl | hpos
    · obtain rfl : x = a := BitVec.eq_of_toNat_eq (by omega)
      exact write8_same m x b
    · have ha : (a + 1#32).toNat = a.toNat + 1 := toNat_add_of_lt (k := 1) (by omega)
      by_cases hxa : x = a
      · subst hxa
        rw [fill, fill_outside b n _ (by omega) (by omega), write8_same]
      · have : x.toNat ≠ a.toNat := fun h => hxa (BitVec.eq_of_toNat_eq h)
        exact ih _ (by omega) (by omega) (by omega)

theorem copy_outside : ∀ (n : Nat) (m : Mem) {src dst x : U32}, dst.toNat + n ≤ 2 ^ 32 →
    (x.toNat < dst.toNat ∨ dst.toNat + n ≤ x.toNat) → m.copy src dst n x = m x := by
  intro n
  induction n with
  | zero => intro m src dst x _ _; rfl
  | succ n ih =>
    intro m src dst x hn hx
    have hne : x ≠ dst := by rintro rfl; omega
    rcases Nat.eq_zero_or_pos n with rfl | hpos
    · exact write8_of_ne m _ hne
    · have hdst : (dst + 1#32).toNat = dst.toNat + 1 := toNat_add_of_lt (k := 1) (by omega)
      rw [copy, ih _ (by omega) (by omega), write8_of_ne m _ hne]

/-- The bytes of a copy, where it does not overlap what is copied. -/
theorem copy_inside : ∀ (n : Nat) (m : Mem) {src dst : U32} {j : Nat}, src.toNat + n ≤ 2 ^ 32 →
    dst.toNat + n ≤ 2 ^ 32 → (src.toNat + n ≤ dst.toNat ∨ dst.toNat + n ≤ src.toNat) → j < n →
      m.copy src dst n (dst + BitVec.ofNat 32 j) = m (src + BitVec.ofNat 32 j) := by
  intro n
  induction n with
  | zero => exact fun m src dst j _ _ _ hj => absurd hj (Nat.not_lt_zero j)
  | succ n ih =>
    intro m src dst j hsrc hdst hapart hj
    cases j with
    | zero =>
      rw [BitVec.add_zero, BitVec.add_zero, copy]
      rcases Nat.eq_zero_or_pos n with rfl | hpos
      · exact write8_same m dst _
      · have hnext : (dst + 1#32).toNat = dst.toNat + 1 := toNat_add_of_lt (k := 1) (by omega)
        rw [copy_outside n _ (by omega) (by omega), write8_same]
    | succ j =>
      have hdst' : (dst + 1#32).toNat = dst.toNat + 1 := toNat_add_of_lt (k := 1) (by omega)
      have hsrc' : (src + 1#32).toNat = src.toNat + 1 := toNat_add_of_lt (k := 1) (by omega)
      rw [copy, ← add_one_add dst j, ih _ (by omega) (by omega) (by omega) (by omega),
        add_one_add src]
      refine write8_of_ne m _ fun heq => ?_
      have hat : (src + BitVec.ofNat 32 (j + 1)).toNat = src.toNat + (j + 1) :=
        toNat_add_of_lt (by omega)
      rw [heq] at hat
      omega

/-- Four bytes make the word, wherever they are. -/
theorem read32_of_bytes {m m' : Mem} {a b : U32}
    (h : ∀ k < 4, m (a + BitVec.ofNat 32 k) = m' (b + BitVec.ofNat 32 k)) :
    m.read32 a = m'.read32 b := by
  have h0 := h 0 (by decide)
  rw [BitVec.add_zero, BitVec.add_zero] at h0
  have h1 : m (a + 1#32) = m' (b + 1#32) := h 1 (by decide)
  have h2 : m (a + 2#32) = m' (b + 2#32) := h 2 (by decide)
  have h3 : m (a + 3#32) = m' (b + 3#32) := h 3 (by decide)
  rw [read32, read32, h0, h1, h2, h3]

/-! ## Words in a row -/

/-- Words, one after the other. -/
def writeWords (m : Mem) (a : U32) : List U32 → Mem
  | [] => m
  | w :: words => writeWords (m.write32 a w) (a + 4#32) words

theorem toNat_next {a : U32} {n : Nat} (h : a.toNat + 4 * (n + 1) ≤ 2 ^ 32) (hn : 0 < n) :
    (a + 4#32).toNat = a.toNat + 4 :=
  toNat_add_of_lt (k := 4) (by omega)

theorem writeWords_outside : ∀ (words : List U32) (m : Mem) {a x : U32},
    a.toNat + 4 * words.length ≤ 2 ^ 32 →
      x.toNat < a.toNat ∨ a.toNat + 4 * words.length ≤ x.toNat → m.writeWords a words x = m x := by
  intro words
  induction words with
  | nil => exact fun _ _ _ _ _ => rfl
  | cons w words ih =>
    intro m a x ha hx
    rw [List.length_cons] at ha hx
    rw [writeWords]
    by_cases hnil : words.length = 0
    · rw [List.length_eq_zero_iff.1 hnil]
      exact write32_outside m w (by omega) (by omega)
    · have hnext := toNat_next ha (by omega)
      rw [ih _ (by omega) (by omega)]
      exact write32_outside m w (by omega) (by omega)

/-- **The words are read back.** -/
theorem read32_writeWords : ∀ (words : List U32) (m : Mem) {a : U32} {i : Nat},
    a.toNat + 4 * words.length ≤ 2 ^ 32 → i < words.length →
      (m.writeWords a words).read32 (a + BitVec.ofNat 32 (4 * i)) = words.getD i 0 := by
  intro words
  induction words with
  | nil => exact fun _ _ _ _ hi => absurd hi (Nat.not_lt_zero _)
  | cons w words ih =>
    intro m a i ha hi
    rw [List.length_cons] at ha hi
    rw [writeWords]
    cases i with
    | zero =>
      rw [Nat.mul_zero, BitVec.add_zero, List.getD_cons_zero]
      by_cases hnil : words.length = 0
      · rw [List.length_eq_zero_iff.1 hnil]
        exact read32_write32 m a w
      · have hnext := toNat_next ha (by omega)
        refine (read32_congr (by omega) fun x h1 h2 => ?_).trans (read32_write32 m a w)
        exact writeWords_outside words _ (by omega) (by omega)
    | succ i =>
      have hnext := toNat_next ha (by omega)
      have haddr : a + BitVec.ofNat 32 (4 * (i + 1)) = a + 4#32 + BitVec.ofNat 32 (4 * i) := by
        rw [BitVec.add_assoc, Nat.mul_succ, Nat.add_comm, BitVec.ofNat_add]
      rw [haddr, ih _ (by omega) (by omega), List.getD_cons_succ]

end Mem
