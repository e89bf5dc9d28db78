import Mathlib.Data.Nat.Bitwise
import Mathlib.Tactic.Ring

/-!
# Machine words

The arithmetic of 32-bit words that C code for a small machine is written in:
rounding to a power of two with masks, taking a field out of a word, and
setting or clearing one bit.  Every lemma turns a masked expression into plain
arithmetic on `BitVec.toNat`, so that what comes after is linear arithmetic.

* `alignDown`, `alignUp` — `v & ~(a - 1)` and `(v + (a - 1)) & ~(a - 1)`, with
  `alignUp_toNat` for the sums that fit in a word and `alignUp_wraps` for the
  ones that do not: those come out as zero.
* `and_one_eq_zero`, `and_low_toNat`, `and_high_toNat`, `or_low_toNat` — the
  fields of a page-table entry.
* `getLsbD_set`, `getLsbD_clear` — the two updates of a bitmap word.
-/

/-- A byte. -/
abbrev U8 := BitVec 8

/-- A 16-bit word. -/
abbrev U16 := BitVec 16

/-- A 32-bit word: integers and pointers alike. -/
abbrev U32 := BitVec 32

/-- A 64-bit word. -/
abbrev U64 := BitVec 64

namespace Word

/-! ## Rounding to a power of two -/

/-- The word is a power of two. -/
def IsPow2 (a : U32) : Prop := ∃ k < 32, a.toNat = 2 ^ k

/-- Round down to a multiple of `a`, by masking. -/
def alignDown (v a : U32) : U32 := v &&& ~~~(a - 1)

/-- Round up to a multiple of `a`, by adding and masking.  The sum is a word:
it can wrap. -/
def alignUp (v a : U32) : U32 := (v + (a - 1)) &&& ~~~(a - 1)

theorem isPow2_of_eq {a : U32} {k : Nat} (hk : k < 32) (h : a.toNat = 2 ^ k) : IsPow2 a :=
  ⟨k, hk, h⟩

theorem IsPow2.pos {a : U32} (h : IsPow2 a) : 0 < a.toNat := by
  obtain ⟨k, -, hk⟩ := h
  rw [hk]
  exact Nat.two_pow_pos k

/-- Clearing the low `k` bits is rounding down to a multiple of `2 ^ k`. -/
theorem and_not_mask_toNat (x : U32) (k : Nat) :
    (x &&& ~~~(BitVec.ofNat 32 (2 ^ k - 1))).toNat = x.toNat / 2 ^ k * 2 ^ k := by
  have h : x &&& ~~~(BitVec.ofNat 32 (2 ^ k - 1)) = (x >>> k) <<< k := by
    apply BitVec.eq_of_getLsbD_eq
    intro i hi
    simp only [BitVec.getLsbD_and, BitVec.getLsbD_not, BitVec.getLsbD_ofNat, hi, decide_true,
      Bool.true_and, Nat.testBit_two_pow_sub_one, BitVec.getLsbD_shiftLeft,
      BitVec.getLsbD_ushiftRight]
    by_cases hik : i < k
    · simp [hik]
    · simp [hik, show k + (i - k) = i by omega]
  rw [h, BitVec.toNat_shiftLeft, BitVec.toNat_ushiftRight, Nat.shiftRight_eq_div_pow,
    Nat.shiftLeft_eq]
  exact Nat.mod_eq_of_lt (lt_of_le_of_lt (Nat.div_mul_le_self _ _) x.isLt)

/-- The mask of a power of two, as a number. -/
theorem IsPow2.sub_one {a : U32} {k : Nat} (hk : k < 32) (h : a.toNat = 2 ^ k) :
    a - 1 = BitVec.ofNat 32 (2 ^ k - 1) := by
  have hpos := Nat.two_pow_pos k
  have hlt : 2 ^ k < 2 ^ 32 := Nat.pow_lt_pow_right (by decide) hk
  apply BitVec.eq_of_toNat_eq
  rw [BitVec.toNat_sub, BitVec.toNat_ofNat, h, show (1 : U32).toNat = 1 from rfl]
  omega

theorem alignDown_toNat {a : U32} (ha : IsPow2 a) (v : U32) :
    (alignDown v a).toNat = v.toNat / a.toNat * a.toNat := by
  obtain ⟨k, hk, h⟩ := ha
  rw [alignDown, IsPow2.sub_one hk h, and_not_mask_toNat, h]

/-- Rounding up, wrapped sum and all. -/
theorem alignUp_toNat_mod {a : U32} (ha : IsPow2 a) (v : U32) :
    (alignUp v a).toNat = (v.toNat + (a.toNat - 1)) % 2 ^ 32 / a.toNat * a.toNat := by
  obtain ⟨k, hk, h⟩ := ha
  have hpos := Nat.two_pow_pos k
  have hlt : 2 ^ k < 2 ^ 32 := Nat.pow_lt_pow_right (by decide) hk
  rw [alignUp, IsPow2.sub_one hk h, and_not_mask_toNat, h, BitVec.toNat_add, BitVec.toNat_ofNat,
    Nat.mod_eq_of_lt (show 2 ^ k - 1 < 2 ^ 32 by omega)]

/-- Rounding up when the sum fits in a word. -/
theorem alignUp_toNat {a : U32} (ha : IsPow2 a) {v : U32}
    (hfit : v.toNat + (a.toNat - 1) < 2 ^ 32) :
    (alignUp v a).toNat = (v.toNat + (a.toNat - 1)) / a.toNat * a.toNat := by
  rw [alignUp_toNat_mod ha, Nat.mod_eq_of_lt hfit]

/-- **Rounding up wraps to zero.**  When the sum does not fit, what is left of
it is below the alignment. -/
theorem alignUp_wraps {a : U32} (ha : IsPow2 a) {v : U32}
    (hwrap : 2 ^ 32 ≤ v.toNat + (a.toNat - 1)) : alignUp v a = 0 := by
  have hpos := ha.pos
  have hv := v.isLt
  have hmod : (v.toNat + (a.toNat - 1)) % 2 ^ 32 = v.toNat + (a.toNat - 1) - 2 ^ 32 := by
    rw [Nat.mod_eq_sub_mod hwrap]
    exact Nat.mod_eq_of_lt (by have := a.isLt; omega)
  apply BitVec.eq_of_toNat_eq
  rw [alignUp_toNat_mod ha, hmod, Nat.div_eq_of_lt (by omega)]
  simp

theorem le_alignUp {a : U32} (ha : IsPow2 a) {v : U32}
    (hfit : v.toNat + (a.toNat - 1) < 2 ^ 32) : v.toNat ≤ (alignUp v a).toNat := by
  rw [alignUp_toNat ha hfit]
  have hpos := ha.pos
  have h := Nat.div_add_mod (v.toNat + (a.toNat - 1)) a.toNat
  have hm := Nat.mod_lt (v.toNat + (a.toNat - 1)) hpos
  rw [Nat.mul_comm] at h
  omega

theorem alignUp_le {a : U32} (ha : IsPow2 a) {v : U32}
    (hfit : v.toNat + (a.toNat - 1) < 2 ^ 32) :
    (alignUp v a).toNat ≤ v.toNat + (a.toNat - 1) := by
  rw [alignUp_toNat ha hfit]
  exact Nat.div_mul_le_self _ _

theorem alignUp_mod {a : U32} (ha : IsPow2 a) (v : U32) : (alignUp v a).toNat % a.toNat = 0 := by
  rw [alignUp_toNat_mod ha]
  exact Nat.mul_mod_left _ _

/-! ## Fields of a word -/

theorem and_one_eq_zero (x : U32) : x &&& 1#32 = 0 ↔ x.toNat % 2 = 0 := by
  rw [← BitVec.toNat_inj]
  simp [BitVec.toNat_and, Nat.and_one_is_mod]

theorem and_low_toNat (x : U32) : (x &&& 0xFFF#32).toNat = x.toNat % 4096 := by
  rw [BitVec.toNat_and]
  exact Nat.and_two_pow_sub_one_eq_mod x.toNat 12

theorem and_ten_toNat (x : U32) : (x &&& 0x3FF#32).toNat = x.toNat % 1024 := by
  rw [BitVec.toNat_and]
  exact Nat.and_two_pow_sub_one_eq_mod x.toNat 10

theorem and_high_toNat (x : U32) : (x &&& 0xFFFFF000#32).toNat = x.toNat / 4096 * 4096 :=
  and_not_mask_toNat x 12

/-- Two words that share no bit are added by or-ing them: the low one fits
below the high one's alignment. -/
theorem or_low_toNat {x y : U32} (hx : x.toNat % 4096 = 0) (hy : y.toNat < 4096) :
    (x ||| y).toNat = x.toNat + y.toNat := by
  have hq : x.toNat = x.toNat / 4096 * 2 ^ 12 := by omega
  rw [BitVec.toNat_or, hq, Nat.mul_comm, Nat.two_pow_add_eq_or_of_lt (by simpa using hy)]

/-- Two words below a power of two are or-ed below it. -/
theorem or_toNat_lt {x y : U32} {k : Nat} (hx : x.toNat < 2 ^ k) (hy : y.toNat < 2 ^ k) :
    (x ||| y).toNat < 2 ^ k := by
  rw [BitVec.toNat_or]
  exact Nat.or_lt_two_pow hx hy

/-! ## One bit of a word -/

theorem getLsbD_set (w : U32) (i j : Nat) (hi : i < 32) :
    (w ||| (1#32 <<< i)).getLsbD j = (decide (j = i) || w.getLsbD j) := by
  by_cases hj : j < 32
  · simp only [BitVec.getLsbD_or, BitVec.getLsbD_shiftLeft, hj, decide_true, Bool.true_and,
      BitVec.getLsbD_one]
    by_cases hji : j = i
    · subst hji; simp
    · have : ¬ (¬ j < i ∧ j - i = 0) := by omega
      simp [hji]
      omega
  · have hji : j ≠ i := by omega
    simp [hji, BitVec.getLsbD_of_ge _ _ (Nat.le_of_not_lt hj)]

theorem getLsbD_clear (w : U32) (i j : Nat) (hi : i < 32) :
    (w &&& ~~~(1#32 <<< i)).getLsbD j = (!decide (j = i) && w.getLsbD j) := by
  by_cases hj : j < 32
  · simp only [BitVec.getLsbD_and, BitVec.getLsbD_not, BitVec.getLsbD_shiftLeft, hj, decide_true,
      Bool.true_and, BitVec.getLsbD_one]
    by_cases hji : j = i
    · subst hji; simp
    · simp [hji]
      intro _
      omega
  · simp [BitVec.getLsbD_of_ge _ _ (Nat.le_of_not_lt hj)]

theorem shiftRight_and_one (w : U32) (i : Nat) :
    ((w >>> i) &&& 1#32 != 0) = w.getLsbD i := by
  have h : (w >>> i) &&& 1#32 = 0 ↔ w.getLsbD i = false := by
    rw [and_one_eq_zero, BitVec.toNat_ushiftRight, ← BitVec.testBit_toNat, Nat.testBit]
    simp [Nat.and_comm 1, Nat.and_one_is_mod]
  cases hb : w.getLsbD i
  · simpa using h.2 hb
  · have : ¬ (w >>> i) &&& 1#32 = 0 := by rw [h, hb]; simp
    simpa using this

end Word
