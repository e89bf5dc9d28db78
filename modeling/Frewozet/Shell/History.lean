import Frewozet.Base.Ring
import Frewozet.Shell.Code
import Frewozet.Text.Compare

/-!
# The history is a ring

* `record` — a submitted line among the entries: empty lines and repetitions are left out.
* `HistoryHolds s entries` — the rows of `shell_history` hold the entries, the newest
  first.
* `shellHistoryAdd_of_holds` — **`shell_history_add` records a line.**
* `historyRow_physicalIndex` — `shell_history_physical_index` finds them.
-/

namespace Frewozet

/-- A submitted line goes before the other entries; an empty line and a repetition of the
newest entry do not. -/
def record (text : List U8) (entries : List (List U8)) : List (List U8) :=
  if text = [] ∨ entries.head? = some text then entries
  else (text :: entries).take SHELL_HISTORY_SIZE

/-- The row holds the text. -/
def RowHolds (rows : Fin SHELL_HISTORY_SIZE → CharArray SHELL_BUFFER_SIZE) (i : Nat)
    (text : List U8) : Prop := ∃ h : i < SHELL_HISTORY_SIZE, (rows ⟨i, h⟩).Holds text

/-- The history holds these entries, the newest first. -/
structure HistoryHolds (s : Shell) (entries : List (List U8)) : Prop where
  count : s.historyCount = entries.length
  next : s.historyNextIndex = s.historyNextIndex.toNat
  ring : InRing (RowHolds s.history) SHELL_HISTORY_SIZE s.historyNextIndex.toNat entries

/-! ## The rows -/

section

variable {s : Shell} {entries : List (List U8)}

theorem historyRow_eq {i : Int} {k : Nat} (hi : i = k) (hk : k < SHELL_HISTORY_SIZE) :
    s.historyRow i = some (s.history ⟨k, hk⟩) := by
  subst hi
  exact dif_pos ⟨hk, Int.natCast_nonneg k⟩

theorem setHistoryRow_eq {i : Int} {k : Nat} (hi : i = k) (hk : k < SHELL_HISTORY_SIZE)
    (row : CharArray SHELL_BUFFER_SIZE) :
    s.setHistoryRow i row = some { s with history := Function.update s.history ⟨k, hk⟩ row } := by
  subst hi
  exact dif_pos ⟨hk, Int.natCast_nonneg k⟩

/-- The index formulas of the code, on a sum that is not negative. -/
theorem tmod_size {i : Int} {k : Nat} (h : i = k) :
    i.tmod SHELL_HISTORY_SIZE = ((k % SHELL_HISTORY_SIZE : Nat) : Int) := by
  rw [h, ← Int.ofNat_tmod]

theorem RowHolds.row {i : Int} {k : Nat} {text : List U8} (h : RowHolds s.history k text)
    (hi : i = k) : ∃ row, s.historyRow i = some row ∧ row.Holds text := by
  obtain ⟨hk, hholds⟩ := h
  exact ⟨_, historyRow_eq hi hk, hholds⟩

namespace HistoryHolds

theorem physicalIndex (h : HistoryHolds s entries) {k : Nat} (hk : k < SHELL_HISTORY_SIZE) :
    shellHistoryPhysicalIndex s k =
      (ringSlot SHELL_HISTORY_SIZE s.historyNextIndex.toNat k : Nat) := by
  have hnext := h.next
  exact tmod_size (by omega)

/-- **`shell_history_physical_index` finds the entries**, counted from the newest on. -/
theorem historyRow_physicalIndex (h : HistoryHolds s entries) {k : Nat} (hk : k < entries.length) :
    ∃ row, s.historyRow (shellHistoryPhysicalIndex s k) = some row ∧ row.Holds entries[k] :=
  (h.ring.row k hk).row (h.physicalIndex (Nat.lt_of_lt_of_le hk h.ring.length_le))

end HistoryHolds

/-! ## A submitted line -/

section

variable {line : CharArray SHELL_BUFFER_SIZE} {text : List U8}

theorem shellHistoryRepeats_of_holds (h : HistoryHolds s entries) (hline : line.Holds text) :
    shellHistoryRepeats line s = some (decide (entries.head? = some text)) := by
  have hcount := h.count
  unfold shellHistoryRepeats
  cases entries with
  | nil =>
    rw [List.length_nil] at hcount
    rw [if_neg (by omega)]
    rfl
  | cons entry entries =>
    rw [List.length_cons] at hcount
    have hnext := h.next
    have hpos : 0 < SHELL_HISTORY_SIZE := by decide
    have hnewest : (s.historyNextIndex - 1 + SHELL_HISTORY_SIZE).tmod SHELL_HISTORY_SIZE =
        (ringSlot SHELL_HISTORY_SIZE s.historyNextIndex.toNat 0 : Nat) := tmod_size (by omega)
    obtain ⟨row, hrow, hholds⟩ := (h.ring.row 0 (Nat.succ_pos _)).row hnewest
    have hsame := (difference_compares hholds.noNul hline.noNul).zero
    rw [if_pos (by omega)]
    dsimp only [bind, Option.bind]
    rw [hrow]
    dsimp only
    rw [strcmp_eq hholds hline]
    dsimp only
    refine congrArg some (decide_eq_decide.2 ?_)
    rw [List.head?_cons, Option.some.injEq]
    exact hsame

/-- The line goes into the next row, and the place behind it is the next one then. -/
theorem HistoryHolds.push (h : HistoryHolds s entries) {row : CharArray SHELL_BUFFER_SIZE}
    (hrow : row.Holds text) :
    InRing (RowHolds (Function.update s.history ⟨s.historyNextIndex.toNat, h.ring.next_lt⟩ row))
        SHELL_HISTORY_SIZE ((s.historyNextIndex + 1).tmod SHELL_HISTORY_SIZE).toNat
        ((text :: entries).take SHELL_HISTORY_SIZE) ∧
      (s.historyNextIndex + 1).tmod SHELL_HISTORY_SIZE =
        ((s.historyNextIndex + 1).tmod SHELL_HISTORY_SIZE).toNat := by
  have hlt := h.ring.next_lt
  have hnext := h.next
  have hmod : (s.historyNextIndex + 1).tmod SHELL_HISTORY_SIZE =
      (((s.historyNextIndex.toNat + 1) % SHELL_HISTORY_SIZE : Nat) : Int) := tmod_size (by omega)
  rw [hmod, Int.toNat_natCast]
  refine ⟨h.ring.push ⟨hlt, ?_⟩ fun i hi x hx => ?_, rfl⟩
  · rw [Function.update_self]
    exact hrow
  · obtain ⟨hi', hrow'⟩ := hx
    refine ⟨hi', ?_⟩
    rw [Function.update_of_ne (by simpa using hi)]
    exact hrow'

/-- **`shell_history_add` records a line.** -/
theorem shellHistoryAdd_of_holds (h : HistoryHolds s entries) (hline : line.Holds text) :
    ∃ rows next count, shellHistoryAdd line s = some { s with
        history := rows, historyNextIndex := next, historyCount := count } ∧
      HistoryHolds { s with history := rows, historyNextIndex := next, historyCount := count }
        (record text entries) := by
  have hload := hline.load 0 (Nat.zero_le _)
  unfold shellHistoryAdd record
  rw [hload]
  dsimp only [bind, Option.bind]
  by_cases hempty : text = []
  · subst hempty
    exact ⟨_, _, _, if_pos rfl, by rw [if_pos (.inl rfl)]; exact h⟩
  have hpos : 0 < text.length := List.length_pos_iff.2 hempty
  have hfirst : text[0]?.getD 0 ≠ 0 := by
    rw [List.getElem?_eq_getElem hpos]
    exact hline.char_ne hpos
  rw [if_neg hfirst, shellHistoryRepeats_of_holds h hline]
  dsimp only
  by_cases hrepeats : entries.head? = some text
  · rw [if_pos (decide_eq_true hrepeats), if_pos (.inr hrepeats)]
    exact ⟨_, _, _, rfl, h⟩
  rw [if_neg (by simpa using hrepeats), if_neg (by simp [hempty, hrepeats])]
  have hlt := h.ring.next_lt
  have hcount := h.count
  obtain ⟨row, hcopy, hholds⟩ :=
    CharArray.strcpy_of_holds hline hline.room (s.history ⟨s.historyNextIndex.toNat, hlt⟩)
  rw [historyRow_eq h.next hlt]
  dsimp only
  rw [hcopy]
  dsimp only
  rw [setHistoryRow_eq h.next hlt]
  dsimp only
  obtain ⟨hring, hnext⟩ := h.push hholds
  have hlength := @InRing.length_push _ SHELL_HISTORY_SIZE entries text
  have hle := h.ring.length_le
  by_cases hfull : s.historyCount < (SHELL_HISTORY_SIZE : Int)
  · refine ⟨_, _, _, if_pos hfull, ⟨?_, hnext, hring⟩⟩
    change s.historyCount + 1 = _
    rw [hlength, if_pos (by omega), hcount]
    rfl
  · refine ⟨_, _, _, if_neg hfull, ⟨?_, hnext, hring⟩⟩
    change s.historyCount = _
    rw [hlength, if_neg (by omega)]
    omega

end

end

end Frewozet
