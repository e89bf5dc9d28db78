import Mathlib.Data.List.GetD
import Mathlib.Data.List.Lex
import Mathlib.Order.BoundedOrder.Lattice

/-!
# Where two lists part

A loop that compares two strings stops where they part.

* `Lex.common s t` — the place where two lists part: the length of their common prefix.
* `getD_eq_of_lt_common`, `getD_common_eq_iff` — they are the same up to there, and **nothing
  but equal lists are the same there**, if an end counts as a character of its own.
* `lt_iff_getD_common` — the lexicographic order is the order of the characters there, if the
  end comes before them all.
* `common_take`, `common_map`, `common_eq_length_iff`, `getD_common_eq_self_iff` — bounded
  comparisons, comparisons of codes, and prefixes.
-/

namespace Lex

variable {α β : Type} [DecidableEq α] [DecidableEq β] {s t : List α} {z : α} {i : Nat}

/-- The place where two lists part. -/
def common : List α → List α → Nat
  | a :: s, b :: t => if a = b then common s t + 1 else 0
  | _, _ => 0

@[simp] theorem common_nil_left (t : List α) : common [] t = 0 := by
  simp [common]

@[simp] theorem common_nil_right (s : List α) : common s [] = 0 := by
  cases s <;> simp [common]

@[simp] theorem common_cons_self (a : α) (s t : List α) :
    common (a :: s) (a :: t) = common s t + 1 := by
  simp [common]

theorem common_cons_of_ne {a b : α} (h : a ≠ b) (s t : List α) :
    common (a :: s) (b :: t) = 0 := by
  simp [common, h]

theorem common_comm (s t : List α) : common s t = common t s := by
  induction s generalizing t with
  | nil => simp
  | cons a s ih =>
    cases t with
    | nil => simp
    | cons b t =>
      by_cases hab : a = b
      · subst hab
        simp [ih]
      · rw [common_cons_of_ne hab, common_cons_of_ne (Ne.symm hab)]

theorem common_le_left (s t : List α) : common s t ≤ s.length := by
  induction s generalizing t with
  | nil => simp
  | cons a s ih =>
    cases t with
    | nil => simp
    | cons b t =>
      by_cases hab : a = b
      · subst hab
        simpa using ih t
      · simp [common_cons_of_ne hab]

theorem common_le_right (s t : List α) : common s t ≤ t.length := by
  rw [common_comm]
  exact common_le_left t s

/-- Up to there they are the same. -/
theorem getD_eq_of_lt_common (h : i < common s t) (z : α) : s.getD i z = t.getD i z := by
  induction s generalizing t i with
  | nil => simp at h
  | cons a s ih =>
    cases t with
    | nil => simp at h
    | cons b t =>
      by_cases hab : a = b
      · subst hab
        cases i with
        | zero => rfl
        | succ i =>
          rw [common_cons_self] at h
          simpa using ih (Nat.lt_of_succ_lt_succ h)
      · rw [common_cons_of_ne hab] at h
        exact absurd h (Nat.not_lt_zero i)

/-- **Only equal lists** are the same there. -/
theorem getD_common_eq_iff (hs : z ∉ s) (ht : z ∉ t) :
    s.getD (common s t) z = t.getD (common s t) z ↔ s = t := by
  induction s generalizing t with
  | nil =>
    cases t with
    | nil => simp
    | cons b t =>
      rw [List.mem_cons, not_or] at ht
      simpa using ht.1
  | cons a s ih =>
    rw [List.mem_cons, not_or] at hs
    cases t with
    | nil => simpa using Ne.symm hs.1
    | cons b t =>
      rw [List.mem_cons, not_or] at ht
      by_cases hab : a = b
      · subst hab
        simpa using ih hs.2 ht.2
      · simp [common_cons_of_ne hab, hab]

/-- **The lexicographic order**, for lists that end with the least character. -/
theorem lt_iff_getD_common {γ : Type} [LinearOrder γ] [OrderBot γ] {s t : List γ} (hs : ⊥ ∉ s)
    (ht : ⊥ ∉ t) : s < t ↔ s.getD (common s t) ⊥ < t.getD (common s t) ⊥ := by
  induction s generalizing t with
  | nil =>
    cases t with
    | nil => simp
    | cons b t =>
      rw [List.mem_cons, not_or] at ht
      simpa using bot_lt_iff_ne_bot.2 (Ne.symm ht.1)
  | cons a s ih =>
    rw [List.mem_cons, not_or] at hs
    cases t with
    | nil => simp
    | cons b t =>
      rw [List.mem_cons, not_or] at ht
      by_cases hab : a = b
      · subst hab
        simpa using ih hs.2 ht.2
      · simp [common_cons_of_ne hab, List.cons_lt_cons_iff, hab]

/-- Of lists cut to a length. -/
theorem common_take (n : Nat) (s t : List α) :
    common (s.take n) (t.take n) = min n (common s t) := by
  induction s generalizing n t with
  | nil => simp
  | cons a s ih =>
    cases n with
    | zero => simp
    | succ n =>
      cases t with
      | nil => simp
      | cons b t =>
        by_cases hab : a = b
        · subst hab
          simp [ih]
        · simp [common_cons_of_ne hab]

/-- Of the codes of characters. -/
theorem common_map {f : α → β} (hf : Function.Injective f) (s t : List α) :
    common (s.map f) (t.map f) = common s t := by
  induction s generalizing t with
  | nil => simp
  | cons a s ih =>
    cases t with
    | nil => simp
    | cons b t =>
      by_cases hab : a = b
      · subst hab
        simp [ih]
      · rw [List.map_cons, List.map_cons, common_cons_of_ne hab, common_cons_of_ne (hf.ne hab)]

/-- A list is a prefix of another if they part at its end. -/
theorem common_eq_length_iff : common s t = s.length ↔ s <+: t := by
  induction s generalizing t with
  | nil => simp
  | cons a s ih =>
    cases t with
    | nil => simp
    | cons b t =>
      by_cases hab : a = b
      · subst hab
        simp [ih]
      · simp [common_cons_of_ne hab, hab]

/-- One that ends with a character of its own, if it ends where they part. -/
theorem getD_common_eq_self_iff (hs : z ∉ s) : s.getD (common s t) z = z ↔ s <+: t := by
  rw [← common_eq_length_iff]
  constructor
  · intro hend
    by_contra hne
    have hlt : common s t < s.length := Nat.lt_of_le_of_ne (common_le_left s t) hne
    rw [List.getD_eq_getElem _ _ hlt] at hend
    exact hs (hend ▸ List.getElem_mem hlt)
  · intro hlength
    rw [hlength, List.getD_eq_default _ _ (Nat.le_refl _)]

end Lex
