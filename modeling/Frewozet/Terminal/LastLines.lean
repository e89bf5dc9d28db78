import Frewozet.Terminal.Layout

/-!
# The lines above the cursor

* `LastLines t ls` — the rows above the cursor show the lines `ls`, the last of them right
  above it.
* `lastLines_writeLoop` — **lines that are written behind a newline are there afterwards**,
  wherever the cursor was and whatever the screen showed, if there is a row for each of them.
* `screenText` — a piece of a row, as it is on the screen.
-/

namespace Frewozet

/-- A row of the screen begins with a text. -/
structure RowShows (t : Terminal) (y : Nat) (s : List U8) : Prop where
  short : s.length < VGA_WIDTH
  cell : ∀ x (hx : x < s.length), shown (t.buffer (x + y * VGA_WIDTH)) = s[x]

theorem RowShows.kept {t t' : Terminal} {y y' : Nat} {s : List U8} (h : RowShows t y s)
    (hrow : ∀ x < VGA_WIDTH, t'.buffer (x + y' * VGA_WIDTH) = t.buffer (x + y * VGA_WIDTH)) :
    RowShows t' y' s :=
  ⟨h.short, fun x hx => by rw [hrow x (hx.trans h.short)]; exact h.cell x hx⟩

/-- The rows above the cursor, which is in the first column. -/
structure LastLines (t : Terminal) (ls : List (List U8)) : Prop where
  col : t.cursorCol = 0
  row : t.cursorRow < VGA_HEIGHT
  room : ls.length ≤ t.cursorRow
  shows : ∀ i s, ls[i]? = some s → RowShows t (t.cursorRow - ls.length + i) s

variable {t : Terminal} {ls : List (List U8)} {s : List U8}

theorem lastLines_newline (t : Terminal) :
    LastLines (terminalWritecharOptimized NEWLINE t) [] :=
  ⟨(newline_lands t).1, (newline_lands t).2, Nat.zero_le _, nofun⟩

/-- A line in the row of the cursor, before it is ended. -/
theorem LastLines.line (h : LastLines t ls) (hline : NEWLINE ∉ s) (hshort : s.length < VGA_WIDTH) :
    (writeLoop s t).cursorRow = t.cursorRow ∧ RowShows (writeLoop s t) t.cursorRow s ∧
      ∀ j < t.cursorRow * VGA_WIDTH, (writeLoop s t).buffer j = t.buffer j := by
  have hcol := h.col
  have hwrote := wrote_writeLoop (by rw [hcol]; decide) hline
  have hindex := hwrote.index
  have hlast := hwrote.col
  have hcell := hwrote.cell
  have hother := hwrote.other
  have hstart : terminalGetCursorIndex t = t.cursorRow * VGA_WIDTH := by
    rw [terminalGetCursorIndex, hcol, Nat.add_zero]
  rw [hstart] at hindex hcell hother
  rw [List.length_map] at hindex
  refine ⟨?_, ⟨hshort, fun x hx => ?_⟩, fun j hj => hother j (.inl hj)⟩
  · unfold terminalGetCursorIndex at hindex
    unfold VGA_WIDTH at *
    omega
  · rw [Nat.add_comm, hcell x (by rw [List.length_map]; exact hx), List.getElem_map, shown_vgaChar]

/-- **One line more.** -/
theorem LastLines.write (h : LastLines t ls) (hline : NEWLINE ∉ s) (hshort : s.length < VGA_WIDTH)
    (hroom : ls.length + 1 < VGA_HEIGHT) :
    LastLines (writeLoop (s ++ [NEWLINE]) t) (ls ++ [s]) := by
  obtain ⟨hrow, hnew, hkept⟩ := h.line hline hshort
  have hbound := h.row
  have hfits := h.room
  -- before the newline every line is where it was, and the new one in the row of the cursor
  have hbefore : ∀ i s', (ls ++ [s])[i]? = some s' →
      i ≤ ls.length ∧ RowShows (writeLoop s t) (t.cursorRow - ls.length + i) s' := by
    intro i s' hi
    rcases Nat.lt_or_ge i ls.length with hlt | hge
    · rw [List.getElem?_append_left hlt] at hi
      refine ⟨hlt.le, (h.shows i s' hi).kept fun x hx => hkept _ ?_⟩
      unfold VGA_WIDTH at *
      omega
    · rw [List.getElem?_append_right hge] at hi
      obtain ⟨hzero, hs⟩ := List.getElem?_eq_some_iff.1 hi
      obtain rfl : i = ls.length := by
        rw [List.length_singleton] at hzero
        omega
      refine ⟨Nat.le_refl _, ?_⟩
      rw [Nat.sub_add_cancel hfits, ← hs]
      simpa using hnew
  have hlength : (ls ++ [s]).length = ls.length + 1 := by
    rw [List.length_append, List.length_singleton]
  rw [writeLoop, List.foldl_append, ← writeLoop]
  change LastLines (terminalWritecharOptimized NEWLINE (writeLoop s t)) _
  obtain ⟨hcol', hrow'⟩ := newline_lands (writeLoop s t)
  by_cases hscroll : (writeLoop s t).cursorRow + 1 ≥ VGA_HEIGHT
  · -- the screen scrolls, and every line goes up by a row
    have heq : terminalWritecharOptimized NEWLINE (writeLoop s t) =
        { terminalScroll { writeLoop s t with
            cursorRow := (writeLoop s t).cursorRow + 1
            cursorCol := 0 } with cursorRow := VGA_HEIGHT - 1 } := by
      rw [terminalWritecharOptimized, if_pos rfl]
      exact if_pos hscroll
    have hlast : (terminalWritecharOptimized NEWLINE (writeLoop s t)).cursorRow = t.cursorRow := by
      rw [heq]
      unfold VGA_HEIGHT at *
      dsimp only
      omega
    refine ⟨hcol', hrow', by rw [hlast, hlength]; unfold VGA_HEIGHT at *; omega, fun i s' hi => ?_⟩
    obtain ⟨hle, hshows⟩ := hbefore i s' hi
    refine hshows.kept fun x hx => ?_
    rw [hlast, hlength, heq]
    refine (terminalScroll_cell _ hx (by unfold VGA_HEIGHT at *; omega)).trans ?_
    rw [if_pos (by unfold VGA_HEIGHT at *; omega)]
    dsimp only
    congr 3
    unfold VGA_HEIGHT at *
    omega
  · have heq : terminalWritecharOptimized NEWLINE (writeLoop s t) =
        { writeLoop s t with cursorRow := (writeLoop s t).cursorRow + 1, cursorCol := 0 } := by
      rw [terminalWritecharOptimized, if_pos rfl]
      exact if_neg hscroll
    refine ⟨hcol', hrow', by rw [heq, hlength]; dsimp only; omega, fun i s' hi => ?_⟩
    obtain ⟨hle, hshows⟩ := hbefore i s' hi
    have hplace : (terminalWritecharOptimized NEWLINE (writeLoop s t)).cursorRow -
        (ls ++ [s]).length + i = t.cursorRow - ls.length + i := by
      rw [heq, hlength]
      dsimp only
      omega
    rw [hplace, heq]
    exact hshows.kept fun _ _ => rfl

/-- The text of lines, each of them ended. -/
def linesText (ls : List (List U8)) : List U8 := ls.flatMap (· ++ [NEWLINE])

theorem LastLines.writeAll : ∀ {ls' ls : List (List U8)} {t : Terminal}, LastLines t ls →
    (∀ s ∈ ls', NEWLINE ∉ s ∧ s.length < VGA_WIDTH) → ls.length + ls'.length < VGA_HEIGHT →
      LastLines (writeLoop (linesText ls') t) (ls ++ ls') := by
  intro ls'
  induction ls' with
  | nil =>
    intro ls t h _ _
    rw [List.append_nil]
    exact h
  | cons s ls' ih =>
    intro ls t h hlines hroom
    rw [List.length_cons] at hroom
    obtain ⟨hline, hshort⟩ := hlines s List.mem_cons_self
    have hone := h.write hline hshort (by omega)
    have hrest := ih hone (fun s' hs' => hlines s' (List.mem_cons_of_mem s hs')) (by
      rw [List.length_append, List.length_singleton]
      omega)
    rw [List.append_assoc] at hrest
    have htext : writeLoop (linesText (s :: ls')) t =
        writeLoop (linesText ls') (writeLoop (s ++ [NEWLINE]) t) := by
      rw [linesText, List.flatMap_cons, writeLoop, List.foldl_append]
      rfl
    rw [htext]
    exact hrest

/-- **Lines behind a newline** are the last ones on the screen, whatever was on it. -/
theorem lastLines_writeLoop (t : Terminal) (hlines : ∀ s ∈ ls, NEWLINE ∉ s ∧ s.length < VGA_WIDTH)
    (hroom : ls.length < VGA_HEIGHT) :
    LastLines (writeLoop (NEWLINE :: linesText ls) t) ls :=
  (lastLines_newline t).writeAll hlines (by rw [List.length_nil]; omega)

/-! ## Reading the screen -/

/-- `n` characters of row `y`, from column `x` on. -/
def screenText (t : Terminal) (y x n : Nat) : List U8 :=
  (List.range n).map fun i => shown (t.buffer (x + i + y * VGA_WIDTH))

/-- **A part of a text that a row begins with** is read off the screen. -/
theorem screenText_of_rowShows {y : Nat} {before after : List U8}
    (h : RowShows t y (before ++ (s ++ after))) : screenText t y before.length s.length = s := by
  refine List.ext_getElem (by simp [screenText]) fun i hi hi' => ?_
  have hx : before.length + i < (before ++ (s ++ after)).length := by
    rw [List.length_append, List.length_append]
    omega
  have hread : (screenText t y before.length s.length)[i] =
      shown (t.buffer (before.length + i + y * VGA_WIDTH)) := by
    simp [screenText]
  rw [hread, h.cell _ hx, List.getElem_append_right (Nat.le_add_right _ _)]
  simp [List.getElem_append_left hi']

end Frewozet
