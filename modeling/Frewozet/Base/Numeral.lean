import Mathlib.Data.Nat.Digits.Lemmas

/-!
# Numerals, read from the left

A numeral is a list of digits with the most significant one first.  A scanner multiplies
what it has read by the base and adds the next digit; a printer has the digits of a number,
the last one first, and turns them around.

* `Numeral.readOn b v ds` — go on reading `ds` after `v`; `value b ds` — read `ds`.
* `value_digits` — **printing and reading is the identity**; `digits_value` — so is reading
  and printing, for a numeral without a leading zero.
* `fixed b k v` — the last `k` digits of `v`, leading zeros included; `value_fixed`.
* `value_inj` — numerals of one length and one value are the same.
* `shiftLeft_or` — reading into a machine word, which wraps around.
-/

namespace Numeral

variable {b v : Nat} {ds es : List Nat}

/-- Read the digits, with `v` read so far. -/
def readOn (b v : Nat) (ds : List Nat) : Nat := ds.foldl (fun v d => v * b + d) v

/-- Read the digits. -/
def value (b : Nat) (ds : List Nat) : Nat := readOn b 0 ds

@[simp] theorem readOn_nil : readOn b v [] = v := rfl

@[simp] theorem readOn_cons (d : Nat) : readOn b v (d :: ds) = readOn b (v * b + d) ds := rfl

theorem readOn_append : readOn b v (ds ++ es) = readOn b (readOn b v ds) es := List.foldl_append

theorem readOn_eq : readOn b v ds = v * b ^ ds.length + Nat.ofDigits b ds.reverse := by
  induction ds generalizing v with
  | nil => simp
  | cons d ds ih =>
    rw [readOn_cons, ih, Nat.ofDigits_reverse_cons, List.length_cons, pow_succ]
    ring

theorem value_eq : value b ds = Nat.ofDigits b ds.reverse := by
  simp [value, readOn_eq]

theorem value_lt (hb : 1 < b) (h : ∀ d ∈ ds, d < b) : value b ds < b ^ ds.length := by
  rw [value_eq, ← List.length_reverse]
  exact Nat.ofDigits_lt_base_pow_length hb fun d hd => h d (List.mem_reverse.1 hd)

/-- **Printing and reading.** -/
theorem value_digits (b v : Nat) : value b (Nat.digits b v).reverse = v := by
  rw [value_eq, List.reverse_reverse, Nat.ofDigits_digits]

/-- **Reading and printing**, where there is no leading zero. -/
theorem digits_value (hb : 1 < b) (h : ∀ d ∈ ds, d < b) (hlead : ds.head? ≠ some 0) :
    (Nat.digits b (value b ds)).reverse = ds := by
  have hlast : ∀ hne : ds.reverse ≠ [], ds.reverse.getLast hne ≠ 0 := by
    intro hne hzero
    rw [List.getLast_reverse] at hzero
    exact hlead (by rw [List.head?_eq_some_head (by simpa using hne), hzero])
  rw [value_eq, Nat.digits_ofDigits b hb _ (fun d hd => h d (List.mem_reverse.1 hd)) hlast,
    List.reverse_reverse]

/-- The first digit of a number is not 0. -/
theorem head_digits_ne_zero (b : Nat) {v : Nat} (hv : v ≠ 0) :
    (Nat.digits b v).reverse.head? ≠ some 0 := by
  rw [List.head?_reverse, List.getLast?_eq_some_getLast (Nat.digits_ne_nil_iff_ne_zero.2 hv)]
  exact fun hc => Nat.getLast_digit_ne_zero b hv (Option.some.inj hc)

/-- Numerals of one length and one value. -/
theorem value_inj (hb : 1 < b) (hlength : ds.length = es.length) (hds : ∀ d ∈ ds, d < b)
    (hes : ∀ d ∈ es, d < b) (h : value b ds = value b es) : ds = es := by
  rw [value_eq, value_eq] at h
  refine List.reverse_injective (Nat.ofDigits_inj_of_len_eq hb ?_ ?_ ?_ h)
  · rw [List.length_reverse, List.length_reverse, hlength]
  · exact fun d hd => hds d (List.mem_reverse.1 hd)
  · exact fun d hd => hes d (List.mem_reverse.1 hd)

/-! ## Numerals of a fixed length -/

/-- The last `k` digits of `v`. -/
def fixed (b : Nat) : Nat → Nat → List Nat
  | 0, _ => []
  | k + 1, v => fixed b k (v / b) ++ [v % b]

@[simp] theorem length_fixed (k : Nat) : (fixed b k v).length = k := by
  induction k generalizing v with
  | zero => rfl
  | succ k ih => simp [fixed, ih]

theorem fixed_lt (hb : 0 < b) {k d : Nat} (h : d ∈ fixed b k v) : d < b := by
  induction k generalizing v with
  | zero => cases h
  | succ k ih =>
    rcases List.mem_append.1 h with h | h
    · exact ih h
    · rw [List.mem_singleton.1 h]
      exact Nat.mod_lt v hb

theorem mem_fixed {k d : Nat} : d ∈ fixed b k v ↔ ∃ i < k, v / b ^ i % b = d := by
  induction k generalizing v with
  | zero => simp [fixed]
  | succ k ih =>
    rw [fixed, List.mem_append, ih, List.mem_singleton]
    constructor
    · rintro (⟨i, hi, rfl⟩ | rfl)
      · exact ⟨i + 1, Nat.succ_lt_succ hi, by rw [pow_succ', Nat.div_div_eq_div_mul]⟩
      · exact ⟨0, Nat.succ_pos k, by rw [pow_zero, Nat.div_one]⟩
    · rintro ⟨i, hi, rfl⟩
      cases i with
      | zero => exact .inr (by rw [pow_zero, Nat.div_one])
      | succ i =>
        exact .inl ⟨i, Nat.lt_of_succ_lt_succ hi, by rw [pow_succ', Nat.div_div_eq_div_mul]⟩

/-- **Its value** is what is left of the number. -/
theorem value_fixed (k : Nat) : value b (fixed b k v) = v % b ^ k := by
  induction k generalizing v with
  | zero => simp [fixed, value, Nat.mod_one]
  | succ k ih =>
    have ih := @ih (v / b)
    rw [value] at ih ⊢
    rw [fixed, readOn_append, ih, readOn_cons, readOn_nil, pow_succ', Nat.mod_mul, Nat.add_comm,
      Nat.mul_comm]

/-! ## Reading into a machine word -/

/-- Shifting and putting a digit into the gap. -/
theorem shiftLeft_or (n : Nat) {k d : Nat} (hd : d < 2 ^ k) :
    (BitVec.ofNat n v <<< k) ||| BitVec.ofNat n d = BitVec.ofNat n (v * 2 ^ k + d) := by
  apply BitVec.eq_of_getLsbD_eq
  intro i hi
  rw [Nat.mul_comm]
  simp only [BitVec.getLsbD_or, BitVec.getLsbD_shiftLeft, BitVec.getLsbD_ofNat, hi,
    Nat.testBit_two_pow_mul_add v hd]
  by_cases hik : i < k
  · simp [hik]
  · have hzero : d.testBit i = false :=
      Nat.testBit_lt_two_pow (Nat.lt_of_lt_of_le hd (Nat.pow_le_pow_right (by decide) (by omega)))
    simp [hik, hzero, Nat.lt_of_le_of_lt (Nat.sub_le i k) hi]

end Numeral
