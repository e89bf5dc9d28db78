import Mathlib.Data.List.Basic

/-!
# Rings

A ring of `n` rows keeps the last `n` of the values that were pushed.

* `ringSlot n next k` — the row of the `k`-th newest value, when `next` is the row the
  next value goes to.
* `ringSlot_oldest` — the same row, counted from the oldest value on.
* `InRing holds n next entries` — the rows hold the entries, the newest first.
* `InRing.push` — **a value goes into the next row**, and the oldest one out if the ring
  is full.
-/

/-- The row of the `k`-th newest value. -/
def ringSlot (n next k : Nat) : Nat := (next + n - 1 - k) % n

section

variable {n next k : Nat}

/-- Counted down from the next row, across the end. -/
theorem ringSlot_eq (hnext : next < n) (hk : k < n) :
    ringSlot n next k = if k < next then next - 1 - k else next + n - 1 - k := by
  rw [ringSlot]
  split
  · rw [show next + n - 1 - k = (next - 1 - k) + n by omega, Nat.add_mod_right,
      Nat.mod_eq_of_lt (by omega)]
  · exact Nat.mod_eq_of_lt (by omega)

/-- The row after `next`. -/
theorem ringNext_eq (hnext : next < n) :
    (next + 1) % n = if next + 1 = n then 0 else next + 1 := by
  split
  · rename_i heq
    rw [heq, Nat.mod_self]
  · exact Nat.mod_eq_of_lt (by omega)

/-- After a push the newest value is in the row that was next. -/
theorem ringSlot_push_zero (hnext : next < n) : ringSlot n ((next + 1) % n) 0 = next := by
  rw [ringSlot_eq (Nat.mod_lt _ (by omega)) (by omega), ringNext_eq hnext]
  split <;> split <;> omega

/-- After a push every value is one older. -/
theorem ringSlot_push_succ (hnext : next < n) (hk : k + 1 < n) :
    ringSlot n ((next + 1) % n) (k + 1) = ringSlot n next k := by
  rw [ringSlot_eq (Nat.mod_lt _ (by omega)) hk, ringSlot_eq hnext (by omega), ringNext_eq hnext]
  split <;> split <;> split <;> omega

/-- The next row is the one of the oldest value of a full ring. -/
theorem ringSlot_ne_next (hnext : next < n) (hk : k + 1 < n) : ringSlot n next k ≠ next := by
  rw [ringSlot_eq hnext (by omega)]
  split <;> omega

/-- Counted from the oldest of `count` values on. -/
theorem ringSlot_oldest {count i : Nat} (hcount : count ≤ n) (hi : i < count) :
    ((next + n - count) % n + i) % n = ringSlot n next (count - 1 - i) := by
  rw [Nat.mod_add_mod, ringSlot]
  congr 1
  omega

end

variable {β : Type}

/-- The rows hold the entries, the newest first. -/
structure InRing (holds : Nat → β → Prop) (n next : Nat) (entries : List β) : Prop where
  next_lt : next < n
  length_le : entries.length ≤ n
  row : ∀ k (h : k < entries.length), holds (ringSlot n next k) entries[k]

namespace InRing

variable {holds holds' : Nat → β → Prop} {n next : Nat} {entries : List β}

theorem empty (h : next < n) : InRing holds n next [] :=
  ⟨h, Nat.zero_le _, fun k hk => absurd hk (Nat.not_lt_zero k)⟩

theorem push (h : InRing holds n next entries) {x : β} (hnew : holds' next x)
    (hold : ∀ i ≠ next, ∀ y, holds i y → holds' i y) :
    InRing holds' n ((next + 1) % n) ((x :: entries).take n) := by
  have hpos : 0 < n := Nat.lt_of_le_of_lt (Nat.zero_le _) h.next_lt
  refine ⟨Nat.mod_lt _ hpos, List.length_take_le _ _, fun k hk => ?_⟩
  rw [List.length_take, List.length_cons] at hk
  rw [List.getElem_take]
  cases k with
  | zero =>
    rw [ringSlot_push_zero h.next_lt]
    exact hnew
  | succ k =>
    rw [ringSlot_push_succ h.next_lt (by omega)]
    exact hold _ (ringSlot_ne_next h.next_lt (by omega)) _ (h.row k (by omega))

/-- The number of values kept. -/
theorem length_push (x : β) :
    ((x :: entries).take n).length = if entries.length < n then entries.length + 1 else n := by
  rw [List.length_take, List.length_cons]
  split <;> omega

end InRing
