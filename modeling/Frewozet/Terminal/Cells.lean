import Frewozet.Terminal.Bounds

/-!
# What a text does to the cells

A text without newlines goes into the cells from the cursor on, across the ends of
rows; nothing scrolls, so the cells before it are not touched.

* `Wrote t cells t'` — `cells` have been written from the cursor on; `Wrote.trans` puts
  two texts side by side.
* `wrote_writechar`, `wrote_write`, `wrote_colorshellWrite`, … — the calls that write.
* `Erased t n t'` — the `n` cells before the cursor are blank; `erased_backspaces`.
* `Placed t i t'` — the cursor was put at cell `i`; `placed_setCursorIndex`.
* `col_exec`, `newline_lands` — where any text leaves the cursor.
-/

namespace Frewozet

/-- A blank cell, in some colour. -/
def Blank (cell : U16) : Prop := shown cell = SPACE

theorem shown_vgaChar (c color : U8) : shown (vgaChar c color) = c := by
  apply BitVec.eq_of_getLsbD_eq
  intro i hi
  simp [shown, vgaChar, hi]

theorem blank_vgaChar (color : U8) : Blank (vgaChar SPACE color) := shown_vgaChar SPACE color

/-! ## Texts -/

/-- The cells have been written, from the cursor on. -/
structure Wrote (t : Terminal) (cells : List U16) (t' : Terminal) : Prop where
  index : terminalGetCursorIndex t' = terminalGetCursorIndex t + cells.length
  col : t'.cursorCol < VGA_WIDTH
  color : t'.cursorColor = t.cursorColor
  mode : t'.colorMode = t.colorMode
  cell : ∀ k (h : k < cells.length), t'.buffer (terminalGetCursorIndex t + k) = cells[k]
  other : ∀ j, j < terminalGetCursorIndex t ∨ terminalGetCursorIndex t + cells.length ≤ j →
    t'.buffer j = t.buffer j

theorem Wrote.nil {t : Terminal} (h : t.cursorCol < VGA_WIDTH) : Wrote t [] t :=
  ⟨rfl, h, rfl, rfl, fun k hk => absurd hk (Nat.not_lt_zero k), fun _ _ => rfl⟩

/-- **One text after the other.** -/
theorem Wrote.trans {t t' t'' : Terminal} {cells cells' : List U16} (h : Wrote t cells t')
    (h' : Wrote t' cells' t'') : Wrote t (cells ++ cells') t'' := by
  have hindex := h.index
  refine ⟨?_, h'.col, h'.color.trans h.color, h'.mode.trans h.mode, fun k hk => ?_, fun j hj => ?_⟩
  · rw [h'.index, hindex, List.length_append]
    omega
  · rw [List.length_append] at hk
    by_cases hlt : k < cells.length
    · rw [h'.other _ (.inl (by omega)), h.cell k hlt, List.getElem_append_left hlt]
    · rw [List.getElem_append_right (by omega), ← h'.cell (k - cells.length) (by omega), hindex]
      congr 1
      omega
  · rw [List.length_append] at hj
    rw [h'.other j (by omega), h.other j (by omega)]

/-- What is not on the screen does not matter. -/
theorem Wrote.congr {t t₁ t' t₁' : Terminal} {cells : List U16} (h : Wrote t₁ cells t₁')
    (hrow : t.cursorRow = t₁.cursorRow) (hcol : t.cursorCol = t₁.cursorCol)
    (hcells : t.buffer = t₁.buffer) (hrow' : t'.cursorRow = t₁'.cursorRow)
    (hcol' : t'.cursorCol = t₁'.cursorCol) (hcells' : t'.buffer = t₁'.buffer)
    (hcolor : t'.cursorColor = t.cursorColor) (hmode : t'.colorMode = t.colorMode) :
    Wrote t cells t' := by
  have hindex : terminalGetCursorIndex t = terminalGetCursorIndex t₁ := by
    rw [terminalGetCursorIndex, hrow, hcol, terminalGetCursorIndex]
  have hindex' : terminalGetCursorIndex t' = terminalGetCursorIndex t₁' := by
    rw [terminalGetCursorIndex, hrow', hcol', terminalGetCursorIndex]
  refine ⟨?_, by rw [hcol']; exact h.col, hcolor, hmode, ?_, ?_⟩
  · rw [hindex, hindex', h.index]
  · rw [hindex, hcells']
    exact h.cell
  · rw [hindex, hcells, hcells']
    exact h.other

section

variable {t : Terminal}

theorem wrote_writecharOptimized (h : t.cursorCol < VGA_WIDTH) {c : U8} (hc : c ≠ NEWLINE) :
    Wrote t [vgaChar c t.cursorColor] (terminalWritecharOptimized c t) := by
  have hput : ∀ j, (t.putCell (t.cursorCol + t.cursorRow * VGA_WIDTH)
      (vgaChar c t.cursorColor)).buffer j =
        if j = terminalGetCursorIndex t then vgaChar c t.cursorColor else t.buffer j := by
    intro j
    rw [terminalGetCursorIndex, Nat.add_comm]
    rfl
  unfold terminalWritecharOptimized
  rw [if_neg hc]
  dsimp only
  have hcell : ∀ k (hk : k < [vgaChar c t.cursorColor].length),
      (t.putCell (t.cursorCol + t.cursorRow * VGA_WIDTH) (vgaChar c t.cursorColor)).buffer
        (terminalGetCursorIndex t + k) = [vgaChar c t.cursorColor][k] := by
    intro k hk
    obtain rfl : k = 0 := Nat.lt_one_iff.1 hk
    rw [hput, Nat.add_zero, if_pos rfl]
    rfl
  have hother : ∀ j, j < terminalGetCursorIndex t ∨
      terminalGetCursorIndex t + [vgaChar c t.cursorColor].length ≤ j →
        (t.putCell (t.cursorCol + t.cursorRow * VGA_WIDTH) (vgaChar c t.cursorColor)).buffer j =
          t.buffer j := by
    intro j hj
    rw [List.length_singleton] at hj
    rw [hput, if_neg (by omega)]
  split
  · rename_i hge
    have hpos : 0 < VGA_WIDTH := by decide
    refine ⟨?_, hpos, rfl, rfl, hcell, hother⟩
    -- the end of the row: the index goes on
    change (t.cursorRow + 1) * VGA_WIDTH + 0 = t.cursorRow * VGA_WIDTH + t.cursorCol + 1
    change VGA_WIDTH ≤ t.cursorCol + 1 at hge
    rw [Nat.add_mul]
    omega
  · rename_i hlt
    exact ⟨rfl, Nat.not_le.1 hlt, rfl, rfl, hcell, hother⟩

theorem wrote_writechar (h : t.cursorCol < VGA_WIDTH) {c : U8} (hc : c ≠ NEWLINE) :
    Wrote t [vgaChar c t.cursorColor] (terminalWritechar c t) := by
  have hone := wrote_writecharOptimized h hc
  exact hone.congr rfl rfl rfl rfl rfl rfl hone.color hone.mode

theorem wrote_writeLoop : ∀ {s : List U8} {t : Terminal}, t.cursorCol < VGA_WIDTH → NEWLINE ∉ s →
    Wrote t (s.map fun c => vgaChar c t.cursorColor) (writeLoop s t) := by
  intro s
  induction s with
  | nil => exact fun h _ => .nil h
  | cons c s ih =>
    intro t h hs
    rw [List.mem_cons, not_or] at hs
    have hone := wrote_writecharOptimized h (Ne.symm hs.1)
    have hrest := ih hone.col hs.2
    rw [hone.color] at hrest
    exact hone.trans hrest

theorem cstr_eq : ∀ {s : List U8}, 0 ∉ s → cstr s = s := by
  intro s
  induction s with
  | nil => exact fun _ => rfl
  | cons c s ih =>
    intro h
    rw [List.mem_cons, not_or] at h
    rw [cstr, List.takeWhile_cons_of_pos (by simpa using Ne.symm h.1)]
    exact congrArg (List.cons c) (ih h.2)

theorem wrote_write (h : t.cursorCol < VGA_WIDTH) {s : List U8} (hs : NEWLINE ∉ s) (h0 : 0 ∉ s) :
    Wrote t (s.map fun c => vgaChar c t.cursorColor) (terminalWrite s t) := by
  have hloop := wrote_writeLoop h hs
  rw [terminalWrite, cstr_eq h0]
  exact hloop.congr rfl rfl rfl rfl rfl rfl hloop.color hloop.mode

/-- The colour a text of the shell comes out in. -/
def shellColor (t : Terminal) (type : String) : U8 :=
  if t.colorMode = 0 then t.cursorColor else getColorshellColor t.colorMode type

theorem wrote_colorshellWrite (h : t.cursorCol < VGA_WIDTH) {s : List U8} (hs : NEWLINE ∉ s)
    (h0 : 0 ∉ s) (type : String) :
    Wrote t (s.map fun c => vgaChar c (shellColor t type)) (colorshellWrite s type t) := by
  unfold colorshellWrite shellColor
  split
  · exact wrote_write h hs h0
  · have hwrote := wrote_write (t := terminalColor (getColorshellColor t.colorMode type) t) h hs h0
    exact hwrote.congr rfl rfl rfl rfl rfl rfl rfl hwrote.mode

theorem wrote_colorshellWritechar (h : t.cursorCol < VGA_WIDTH) {c : U8} (hc : c ≠ NEWLINE)
    (type : String) :
    Wrote t [vgaChar c (getColorshellColor t.colorMode type)] (colorshellWritechar c type t) := by
  have hone := wrote_writechar (t := terminalColor (getColorshellColor t.colorMode type) t) h hc
  exact hone.congr rfl rfl rfl rfl rfl rfl rfl hone.mode

/-- The characters of a line, one call for each. -/
theorem wrote_chars (type : String) : ∀ {s : List U8} {t : Terminal}, t.cursorCol < VGA_WIDTH →
    NEWLINE ∉ s → Wrote t (s.map fun c => vgaChar c (getColorshellColor t.colorMode type))
      (s.foldl (fun t c => colorshellWritechar c type t) t) := by
  intro s
  induction s with
  | nil => exact fun h _ => .nil h
  | cons c s ih =>
    intro t h hs
    rw [List.mem_cons, not_or] at hs
    have hone := wrote_colorshellWritechar h (Ne.symm hs.1) type
    have hrest := ih hone.col hs.2
    rw [hone.mode] at hrest
    exact hone.trans hrest

theorem wrote_spaces (h : t.cursorCol < VGA_WIDTH) (n : Nat) :
    Wrote t (List.replicate n (vgaChar SPACE t.cursorColor))
      (forRange n (fun _ => terminalWritechar SPACE) t) :=
  forRange_rule (P := fun i u => Wrote t (List.replicate i (vgaChar SPACE t.cursorColor)) u)
    (.nil h) fun i _ u hu => by
      have hone := wrote_writechar hu.col (by decide : SPACE ≠ NEWLINE)
      rw [hu.color] at hone
      rw [List.replicate_succ']
      exact hu.trans hone

end

/-! ## Going back -/

/-- The `n` cells before the cursor are blank, and it stands where they start. -/
structure Erased (t : Terminal) (n : Nat) (t' : Terminal) : Prop where
  index : terminalGetCursorIndex t' = terminalGetCursorIndex t - n
  col : t'.cursorCol < VGA_WIDTH
  color : t'.cursorColor = t.cursorColor
  mode : t'.colorMode = t.colorMode
  cell : n ≤ terminalGetCursorIndex t → ∀ j, terminalGetCursorIndex t - n ≤ j →
    j < terminalGetCursorIndex t → t'.buffer j = vgaChar SPACE t.cursorColor
  before : ∀ j, j < terminalGetCursorIndex t - n → t'.buffer j = t.buffer j
  /-- In the first cell, going back erases that cell over and over. -/
  behind : ∀ j, terminalGetCursorIndex t ≤ j → 0 < j ∨ n ≤ terminalGetCursorIndex t →
    t'.buffer j = t.buffer j

theorem Erased.refl {t : Terminal} (h : t.cursorCol < VGA_WIDTH) : Erased t 0 t :=
  ⟨rfl, h, rfl, rfl, fun _ j h1 h2 => by omega, fun _ _ => rfl, fun _ _ _ => rfl⟩

theorem Erased.trans {t t' t'' : Terminal} {m n : Nat} (h : Erased t m t') (h' : Erased t' n t'') :
    Erased t (m + n) t'' := by
  have hindex := h.index
  refine ⟨?_, h'.col, h'.color.trans h.color, h'.mode.trans h.mode, fun hle j h1 h2 => ?_,
    fun j hj => ?_, fun j h1 h2 => ?_⟩
  · rw [h'.index, hindex]
    omega
  · by_cases hj : j < terminalGetCursorIndex t'
    · rw [h'.cell (by omega) j (by omega) hj, h.color]
    · rw [h'.behind j (by omega) (.inr (by omega)), h.cell (by omega) j (by omega) h2]
  · rw [h'.before j (by omega), h.before j (by omega)]
  · rw [h'.behind j (by omega) (by omega), h.behind j h1 (by omega)]

theorem erased_backspace {t : Terminal} (h : t.cursorCol < VGA_WIDTH) :
    Erased t 1 (terminalBackspace t) := by
  -- the cursor first, then the cell it stands on
  obtain ⟨u, hu⟩ : ∃ u : Terminal, u =
      (if t.cursorCol > 0 then { t with cursorCol := t.cursorCol - 1 }
      else if t.cursorRow > 0 then
        { t with cursorRow := t.cursorRow - 1, cursorCol := VGA_WIDTH - 1 }
      else t) := ⟨_, rfl⟩
  have hmoved : terminalGetCursorIndex u = terminalGetCursorIndex t - 1 ∧ u.cursorCol < VGA_WIDTH ∧
      u.cursorColor = t.cursorColor ∧ u.colorMode = t.colorMode ∧ u.buffer = t.buffer := by
    rw [hu]
    unfold terminalGetCursorIndex VGA_WIDTH at *
    split
    · exact ⟨by dsimp only; omega, by dsimp only; omega, rfl, rfl, rfl⟩
    · split
      · exact ⟨by dsimp only; omega, by dsimp only; omega, rfl, rfl, rfl⟩
      · exact ⟨by omega, h, rfl, rfl, rfl⟩
  obtain ⟨hindex, hcol, hcolor, hmode, hbuffer⟩ := hmoved
  have hback : terminalBackspace t = terminalUpdateCursor
      (u.putCell (u.cursorCol + u.cursorRow * VGA_WIDTH) (vgaChar SPACE u.cursorColor)) := by
    rw [hu]
    rfl
  have hcell : ∀ j, (terminalBackspace t).buffer j =
      if j = terminalGetCursorIndex u then vgaChar SPACE u.cursorColor else u.buffer j := by
    intro j
    rw [hback, terminalGetCursorIndex, Nat.add_comm]
    rfl
  rw [hindex, hcolor, hbuffer] at hcell
  refine ⟨by rw [← hindex, hback]; rfl, by rw [hback]; exact hcol, by rw [hback]; exact hcolor,
    by rw [hback]; exact hmode, fun hle j h1 h2 => ?_, fun j hj => ?_, fun j h1 h2 => ?_⟩
  · rw [hcell, if_pos (by omega)]
  · rw [hcell, if_neg (by omega)]
  · rw [hcell, if_neg (by omega)]

theorem erased_backspaces {t : Terminal} (h : t.cursorCol < VGA_WIDTH) (n : Nat) :
    Erased t n (forRange n (fun _ => terminalBackspace) t) :=
  forRange_rule (P := fun i u => Erased t i u) (.refl h) fun _ _ _ hu =>
    hu.trans (erased_backspace hu.col)

/-! ## Putting the cursor somewhere -/

/-- The cursor is at cell `i`; nothing was written. -/
structure Placed (t : Terminal) (i : Nat) (t' : Terminal) : Prop where
  index : terminalGetCursorIndex t' = i
  col : t'.cursorCol < VGA_WIDTH
  color : t'.cursorColor = t.cursorColor
  mode : t'.colorMode = t.colorMode
  buffer : t'.buffer = t.buffer

/-- Beyond the screen means its last cell. -/
theorem placed_setCursorIndex (index : Nat) (t : Terminal) :
    Placed t (min index (SCREEN_CELLS - 1)) (terminalSetCursorIndex index t) := by
  refine ⟨?_, Nat.mod_lt _ (by decide), rfl, rfl, rfl⟩
  unfold terminalSetCursorIndex terminalGetCursorIndex terminalUpdateCursor SCREEN_CELLS
  dsimp only
  rw [Nat.mul_comm, Nat.div_add_mod]
  split <;> omega

/-! ## Any text -/

section

variable {t : Terminal}

theorem col_writecharOptimized (h : t.cursorCol < VGA_WIDTH) (c : U8) :
    (terminalWritecharOptimized c t).cursorCol < VGA_WIDTH := by
  by_cases hc : c = NEWLINE
  · have hpos : 0 < VGA_WIDTH := by decide
    unfold terminalWritecharOptimized
    rw [if_pos hc]
    dsimp only
    split
    · rw [(sameCursor_scroll _).col]
      exact hpos
    · exact hpos
  · exact (wrote_writecharOptimized h hc).col

theorem col_writeLoop : ∀ (s : List U8) {t : Terminal}, t.cursorCol < VGA_WIDTH →
    (writeLoop s t).cursorCol < VGA_WIDTH := by
  intro s
  induction s with
  | nil => exact fun h => h
  | cons c s ih => exact fun h => ih (col_writecharOptimized h c)

theorem col_colorshellWrite (h : t.cursorCol < VGA_WIDTH) (s : List U8) (type : String) :
    (colorshellWrite s type t).cursorCol < VGA_WIDTH := by
  unfold colorshellWrite
  split
  · exact col_writeLoop _ h
  · exact @col_writeLoop (cstr s) (terminalColor (getColorshellColor t.colorMode type) t) h

/-- **No call leaves the cursor behind the end of a row.** -/
theorem col_exec (h : t.cursorCol < VGA_WIDTH) (c : TermCall) :
    (c.exec t).cursorCol < VGA_WIDTH := by
  cases c with
  | clear =>
    rw [TermCall.exec, (terminalClear_cursor t).2.1]
    decide
  | color value => exact h
  | setColorMode mode => exact h
  | write s => exact col_writeLoop _ h
  | writechar c => exact col_writecharOptimized h c
  | colorshellWrite s type => exact col_colorshellWrite h s type
  | colorshellWritechar c type =>
    exact @col_writecharOptimized (terminalColor (getColorshellColor t.colorMode type) t) h c
  | backspace => exact (erased_backspace h).col
  | setCursorIndex index => exact (placed_setCursorIndex index t).col

theorem col_execCalls : ∀ (calls : List TermCall) {t : Terminal}, t.cursorCol < VGA_WIDTH →
    (execCalls calls t).cursorCol < VGA_WIDTH := by
  intro calls
  induction calls with
  | nil => exact fun h => h
  | cons c calls ih => exact fun h => ih (col_exec h c)

/-- **A newline puts the cursor at the start of a row of the screen**, wherever it was. -/
theorem newline_lands (t : Terminal) :
    (terminalWritecharOptimized NEWLINE t).cursorCol = 0 ∧
      (terminalWritecharOptimized NEWLINE t).cursorRow < VGA_HEIGHT := by
  unfold terminalWritecharOptimized
  rw [if_pos rfl]
  dsimp only
  split
  · exact ⟨(sameCursor_scroll _).col, (by decide : VGA_HEIGHT - 1 < VGA_HEIGHT)⟩
  · rename_i hlt
    exact ⟨rfl, Nat.not_le.1 hlt⟩

end

end Frewozet
