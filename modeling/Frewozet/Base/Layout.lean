import Mathlib.Data.List.Basic

/-!
# Laying out a text

* `Layout α w` — rows of at most `w` elements, and the row that is being filled, which has
  room for one more.
* `Layout.newRow`, `Layout.put` — start a row; put an element, after which a full row is
  ended.
* `Layout.get?` — what is at a place; `get?_newRow` and `get?_put` say **what the two
  change there**.
-/

/-- The rows that are ended, the first one first, and the row that is not. -/
structure Layout (α : Type) (w : Nat) where
  ended : List (List α)
  row : List α
  room : row.length < w

namespace Layout

variable {α : Type} {w : Nat}

/-- Nothing, in rows that are not empty. -/
def start (h : 0 < w) : Layout α w := ⟨[], [], h⟩

/-- End the row. -/
def newRow (l : Layout α w) : Layout α w :=
  ⟨l.ended ++ [l.row], [], Nat.zero_lt_of_lt l.room⟩

/-- Put an element at the end. -/
def put (x : α) (l : Layout α w) : Layout α w :=
  if h : l.row.length + 1 < w then
    ⟨l.ended, l.row ++ [x], by rw [List.length_append, List.length_singleton]; exact h⟩
  else ⟨l.ended ++ [l.row ++ [x]], [], Nat.zero_lt_of_lt l.room⟩

/-- The element in column `x` of row `r`, if there is one. -/
def get? (l : Layout α w) (r x : Nat) : Option α :=
  (l.ended ++ [l.row])[r]?.bind (·[x]?)

section

variable {l : Layout α w} {r x : Nat} {c : α}

/-- There is nothing below the last row. -/
theorem get?_below (h : l.ended.length < r) : l.get? r x = none := by
  rw [get?, List.getElem?_eq_none (by rw [List.length_append, List.length_singleton]; exact h)]
  rfl

theorem get?_last : l.get? l.ended.length x = l.row[x]? := by
  rw [get?, List.getElem?_append_right (Nat.le_refl _), Nat.sub_self]
  rfl

theorem get?_ended (h : r < l.ended.length) : l.get? r x = l.ended[r][x]? := by
  rw [get?, List.getElem?_append_left h, List.getElem?_eq_getElem h]
  rfl

/-- An empty row more. -/
theorem get?_push (rows : List (List α)) (last : List α) :
    (rows ++ [last] ++ [[]])[r]?.bind (·[x]?) = (rows ++ [last])[r]?.bind (·[x]?) := by
  have hlength : (rows ++ [last]).length = rows.length + 1 := by
    rw [List.length_append, List.length_singleton]
  by_cases hr : r < (rows ++ [last]).length
  · rw [List.getElem?_append_left hr]
  · rw [List.getElem?_eq_none (Nat.not_lt.1 hr), List.getElem?_append_right (Nat.not_lt.1 hr)]
    cases r - (rows ++ [last]).length <;> rfl

/-- **A new row changes nothing** that is there. -/
theorem get?_newRow : l.newRow.get? r x = l.get? r x := get?_push l.ended l.row

/-- **An element is put at the end**, whether it ends the row or not. -/
theorem get?_put : (l.put c).get? r x =
    if r = l.ended.length ∧ x = l.row.length then some c else l.get? r x := by
  have hrow : (l.put c).get? r x = (l.ended ++ [l.row ++ [c]])[r]?.bind (·[x]?) := by
    unfold put
    split
    · rfl
    · exact get?_push l.ended (l.row ++ [c])
  rw [hrow]
  rcases Nat.lt_trichotomy r l.ended.length with hlt | heq | hgt
  · rw [if_neg (by omega), get?_ended hlt, List.getElem?_append_left hlt,
      List.getElem?_eq_getElem hlt]
    rfl
  · obtain rfl := heq
    rw [get?_last, List.getElem?_append_right (Nat.le_refl _), Nat.sub_self]
    change (l.row ++ [c])[x]? = _
    by_cases hx : x = l.row.length
    · rw [if_pos ⟨rfl, hx⟩, hx, List.getElem?_concat_length]
    · rw [if_neg (fun h => hx h.2)]
      by_cases hlt : x < l.row.length
      · rw [List.getElem?_append_left hlt]
      · have hx' : (l.row ++ [c]).length ≤ x := by
          rw [List.length_append, List.length_singleton]
          omega
        rw [List.getElem?_eq_none hx', List.getElem?_eq_none (Nat.not_lt.1 hlt)]
  · rw [if_neg (by omega), get?_below hgt, List.getElem?_eq_none (by simp; omega)]
    rfl

/-- Where the next element goes. -/
theorem end_put : ((l.put c).ended.length, (l.put c).row.length) =
    if l.row.length + 1 < w then (l.ended.length, l.row.length + 1)
    else (l.ended.length + 1, 0) := by
  unfold put
  split <;> simp

theorem end_newRow : (l.newRow.ended.length, l.newRow.row.length) = (l.ended.length + 1, 0) := by
  simp [newRow]

end

end Layout
