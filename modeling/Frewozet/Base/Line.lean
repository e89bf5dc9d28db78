import Mathlib.Data.List.InsertIdx

/-!
# A line with a cursor

* `Line α` — a list and a cursor, which stands before one of its elements or at its end.
* `Line.insert`, `deleteBefore`, `deleteAt`, `left`, `right`, `home`, `toEnd` — editing.
* `Line.mem_insert`, `mem_deleteBefore`, `mem_deleteAt` — no edit makes up an element.
-/

variable {α : Type}

/-- A line, and where its cursor stands. -/
@[ext] structure Line (α : Type) where
  text : List α
  cursor : Nat
  within : cursor ≤ text.length

namespace Line

/-- The line without a character. -/
def empty : Line α := ⟨[], 0, Nat.le_refl 0⟩

/-- A text, with the cursor at its end. -/
def ofText (text : List α) : Line α := ⟨text, text.length, Nat.le_refl _⟩

/-- Insert at the cursor, which goes behind the new element. -/
def insert (x : α) (l : Line α) : Line α where
  text := l.text.insertIdx l.cursor x
  cursor := l.cursor + 1
  within := by
    rw [List.length_insertIdx_of_le_length l.within]
    exact Nat.succ_le_succ l.within

/-- Delete the element before the cursor. -/
def deleteBefore (l : Line α) : Line α :=
  if h : 0 < l.cursor then
    { text := l.text.eraseIdx (l.cursor - 1)
      cursor := l.cursor - 1
      within := by
        have hwithin := l.within
        rw [List.length_eraseIdx_of_lt (by omega)]
        omega }
  else l

/-- Delete the element at the cursor. -/
def deleteAt (l : Line α) : Line α :=
  if h : l.cursor < l.text.length then
    { text := l.text.eraseIdx l.cursor
      cursor := l.cursor
      within := by
        rw [List.length_eraseIdx_of_lt h]
        omega }
  else l

def left (l : Line α) : Line α where
  text := l.text
  cursor := l.cursor - 1
  within := Nat.le_trans (Nat.sub_le _ _) l.within

def right (l : Line α) : Line α :=
  if h : l.cursor < l.text.length then { l with cursor := l.cursor + 1, within := h } else l

def home (l : Line α) : Line α := ⟨l.text, 0, Nat.zero_le _⟩

def toEnd (l : Line α) : Line α := ofText l.text

section

variable {l : Line α} {x y : α}

theorem length_insert : (l.insert x).text.length = l.text.length + 1 :=
  List.length_insertIdx_of_le_length l.within x

theorem mem_insert (h : y ∈ (l.insert x).text) : y = x ∨ y ∈ l.text :=
  List.eq_or_mem_of_mem_insertIdx h

theorem mem_deleteBefore (h : y ∈ l.deleteBefore.text) : y ∈ l.text := by
  unfold deleteBefore at h
  split at h
  · exact List.mem_of_mem_eraseIdx h
  · exact h

theorem mem_deleteAt (h : y ∈ l.deleteAt.text) : y ∈ l.text := by
  unfold deleteAt at h
  split at h
  · exact List.mem_of_mem_eraseIdx h
  · exact h

theorem text_right : l.right.text = l.text := by
  unfold right
  split <;> rfl

theorem right_eq (h : ¬ l.cursor < l.text.length) : l.right = l := dif_neg h

theorem cursor_right (h : l.cursor < l.text.length) : l.right.cursor = l.cursor + 1 := by
  rw [right, dif_pos h]

theorem left_eq (h : l.cursor = 0) : l.left = l := by
  ext1
  · rfl
  · change l.cursor - 1 = l.cursor
    omega

theorem deleteBefore_eq (h : l.cursor = 0) : l.deleteBefore = l := dif_neg (by omega)

theorem deleteBefore_pos (h : 0 < l.cursor) :
    l.deleteBefore.text = l.text.eraseIdx (l.cursor - 1) ∧
      l.deleteBefore.cursor = l.cursor - 1 := by
  rw [deleteBefore, dif_pos h]
  exact ⟨rfl, rfl⟩

theorem deleteAt_eq (h : ¬ l.cursor < l.text.length) : l.deleteAt = l := dif_neg h

theorem deleteAt_pos (h : l.cursor < l.text.length) :
    l.deleteAt.text = l.text.eraseIdx l.cursor ∧ l.deleteAt.cursor = l.cursor := by
  rw [deleteAt, dif_pos h]
  exact ⟨rfl, rfl⟩

end

end Line
