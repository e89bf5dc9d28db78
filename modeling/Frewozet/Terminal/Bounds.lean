import Frewozet.Terminal.Code

/-!
# The cursor and the screen

A newline on the last row scrolls the screen; a line that wraps there does not.  The
cursor then stands below the screen, and what is written next lies behind it.

* `Terminal.InBounds` — the cursor is on the screen, and nothing else was written.
* `StaysOn` — no character goes into the last cell of the screen, read off the cursor
  and the text alone.
* `TermCall.visits`, `visits` — the states a call and a run go through, one for each
  character.
* `terminal_inBounds_iff` — **a run stays on the screen exactly if no character goes
  into its last cell**.
-/

namespace Frewozet

namespace Terminal

/-- The cursor is on the screen, and so is every cell written so far. -/
structure InBounds (t : Terminal) : Prop where
  row : t.cursorRow < VGA_HEIGHT
  col : t.cursorCol < VGA_WIDTH
  inside : t.outside = false

end Terminal

/-! ## What the loops over the screen leave alone -/

/-- The terminals differ in their cells only, and in no cell behind the screen. -/
structure SameCursor (t t' : Terminal) : Prop where
  row : t'.cursorRow = t.cursorRow
  col : t'.cursorCol = t.cursorCol
  color : t'.cursorColor = t.cursorColor
  mode : t'.colorMode = t.colorMode
  outside : t'.outside = t.outside

theorem SameCursor.refl (t : Terminal) : SameCursor t t := ⟨rfl, rfl, rfl, rfl, rfl⟩

theorem SameCursor.trans {t t' t'' : Terminal} (h : SameCursor t t') (h' : SameCursor t' t'') :
    SameCursor t t'' :=
  ⟨h'.row.trans h.row, h'.col.trans h.col, h'.color.trans h.color, h'.mode.trans h.mode,
    h'.outside.trans h.outside⟩

theorem sameCursor_putCell {t : Terminal} {i : Nat} {cell : U16} (hi : i < SCREEN_CELLS) :
    SameCursor t (t.putCell i cell) := by
  refine ⟨rfl, rfl, rfl, rfl, ?_⟩
  change (t.outside || decide (SCREEN_CELLS ≤ i)) = t.outside
  rw [decide_eq_false (Nat.not_le.2 hi), Bool.or_false]

/-- A loop over cells of the screen. -/
theorem sameCursor_forRange {n : Nat} {f : Nat → Terminal → Terminal}
    (h : ∀ i < n, ∀ t, SameCursor t (f i t)) (t : Terminal) : SameCursor t (forRange n f t) :=
  forRange_rule (P := fun _ u => SameCursor t u) (.refl t) fun i hi u hu => hu.trans (h i hi u)

theorem cell_lt {x y : Nat} (hx : x < VGA_WIDTH) (hy : y < VGA_HEIGHT) :
    x + y * VGA_WIDTH < SCREEN_CELLS := by
  unfold SCREEN_CELLS VGA_WIDTH VGA_HEIGHT at *
  omega

theorem sameCursor_scroll (t : Terminal) : SameCursor t (terminalScroll t) := by
  unfold terminalScroll
  refine (sameCursor_forRange (fun k hk => ?_) t).trans (sameCursor_forRange (fun x hx t => ?_) _)
  · have hlt : k < VGA_HEIGHT := by unfold VGA_HEIGHT at *; omega
    exact sameCursor_forRange fun x hx t => sameCursor_putCell (cell_lt hx hlt)
  · exact sameCursor_putCell (cell_lt hx (by decide))

/-- `terminal_clear` puts the cursor in the first cell. -/
theorem terminalClear_cursor (t : Terminal) : (terminalClear t).cursorRow = 0 ∧
    (terminalClear t).cursorCol = 0 ∧ (terminalClear t).outside = t.outside := by
  refine ⟨rfl, rfl, ?_⟩
  exact (sameCursor_forRange (fun y hy => sameCursor_forRange fun x hx t =>
    sameCursor_putCell (cell_lt hx hy)) t).outside

/-! ## One character -/

/-- Where the cursor stands after a character. -/
def advance (c : U8) (row col : Nat) : Nat × Nat :=
  if c = NEWLINE then (min (row + 1) (VGA_HEIGHT - 1), 0)
  else if col + 1 < VGA_WIDTH then (row, col + 1)
  else (row + 1, 0)

/-- The last cell of the screen. -/
def LastCell (row col : Nat) : Prop := row = VGA_HEIGHT - 1 ∧ col = VGA_WIDTH - 1

instance (row col : Nat) : Decidable (LastCell row col) := inferInstanceAs (Decidable (_ ∧ _))

section

variable {t : Terminal}

/-- A character that is not a newline goes on in the row, or to the next row. -/
theorem put_cursor {c : U8} (hc : c ≠ NEWLINE) :
    ((terminalWritecharOptimized c t).cursorRow, (terminalWritecharOptimized c t).cursorCol) =
      if t.cursorCol + 1 < VGA_WIDTH then (t.cursorRow, t.cursorCol + 1)
      else (t.cursorRow + 1, 0) := by
  unfold terminalWritecharOptimized
  rw [if_neg hc]
  dsimp only
  by_cases hcol : t.cursorCol + 1 < VGA_WIDTH
  · rw [if_pos hcol, if_neg (by exact Nat.not_le.2 hcol)]
    rfl
  · rw [if_neg hcol, if_pos (by exact Nat.not_lt.1 hcol)]
    rfl

theorem writechar_cursor (h : t.InBounds) (c : U8) :
    ((terminalWritecharOptimized c t).cursorRow, (terminalWritecharOptimized c t).cursorCol) =
      advance c t.cursorRow t.cursorCol := by
  have hrow := h.row
  by_cases hc : c = NEWLINE
  · unfold terminalWritecharOptimized advance
    rw [if_pos hc, if_pos hc]
    dsimp only
    split
    · rename_i hge
      refine Prod.ext ?_ (sameCursor_scroll _).col
      change VGA_HEIGHT - 1 = min (t.cursorRow + 1) (VGA_HEIGHT - 1)
      omega
    · refine Prod.ext ?_ rfl
      change t.cursorRow + 1 = min (t.cursorRow + 1) (VGA_HEIGHT - 1)
      omega
  · rw [put_cursor hc, advance, if_neg hc]

theorem writechar_outside (h : t.InBounds) (c : U8) :
    (terminalWritecharOptimized c t).outside = false := by
  unfold terminalWritecharOptimized
  by_cases hc : c = NEWLINE
  · rw [if_pos hc]
    dsimp only
    split
    · exact (sameCursor_scroll _).outside.trans h.inside
    · exact h.inside
  · have hput := (@sameCursor_putCell t _ (vgaChar c t.cursorColor)
      (cell_lt h.col h.row)).outside.trans h.inside
    rw [if_neg hc]
    dsimp only
    split
    · exact hput
    · exact hput

/-- **One character stays on the screen** unless it goes into the last cell. -/
theorem writechar_inBounds_iff (h : t.InBounds) (c : U8) :
    (terminalWritecharOptimized c t).InBounds ↔
      (c ≠ NEWLINE → ¬ LastCell t.cursorRow t.cursorCol) := by
  have hcursor := writechar_cursor h c
  obtain ⟨hr, hc'⟩ := Prod.ext_iff.1 hcursor
  have hrow := h.row
  have hcol := h.col
  unfold LastCell
  constructor
  · rintro ⟨h1, -, -⟩ hc ⟨h3, h4⟩
    dsimp only at hr
    rw [hr, advance, if_neg hc, if_neg (by rw [h4]; decide)] at h1
    dsimp only at h1
    omega
  · intro hlast
    refine ⟨?_, ?_, writechar_outside h c⟩
    · dsimp only at hr
      rw [hr, advance]
      split
      · dsimp only
        exact Nat.lt_of_le_of_lt (Nat.min_le_right _ _) (by decide)
      · rename_i hne
        have hno := hlast hne
        split
        · exact hrow
        · dsimp only
          unfold VGA_WIDTH VGA_HEIGHT at *
          omega
    · dsimp only at hc'
      rw [hc', advance]
      have hpos : 0 < VGA_WIDTH := by decide
      split
      · exact hpos
      · split
        · assumption
        · exact hpos

end

/-! ## A text -/

/-- No character of the text goes into the last cell, written from this position on. -/
def StaysOn : Nat → Nat → List U8 → Prop
  | _, _, [] => True
  | row, col, c :: s => (c ≠ NEWLINE → ¬ LastCell row col) ∧
      StaysOn (advance c row col).1 (advance c row col).2 s

instance decidableStaysOn : ∀ (row col : Nat) (s : List U8), Decidable (StaysOn row col s)
  | _, _, [] => inferInstanceAs (Decidable True)
  | row, col, c :: s =>
    @instDecidableAnd _ _ _ (decidableStaysOn (advance c row col).1 (advance c row col).2 s)

/-- The states between the characters of a text. -/
def writeVisits : List U8 → Terminal → List Terminal
  | [], _ => []
  | c :: s, t => terminalWritecharOptimized c t :: writeVisits s (terminalWritecharOptimized c t)

/-- **A text stays on the screen** exactly if no character goes into the last cell. -/
theorem writeVisits_inBounds : ∀ (s : List U8) {t : Terminal}, t.InBounds →
    ((∀ u ∈ writeVisits s t, u.InBounds) ↔ StaysOn t.cursorRow t.cursorCol s) ∧
      (StaysOn t.cursorRow t.cursorCol s → (writeLoop s t).InBounds) := by
  intro s
  induction s with
  | nil => exact fun h => ⟨iff_of_true (by simp [writeVisits]) trivial, fun _ => h⟩
  | cons c s ih =>
    intro t h
    have hone := writechar_inBounds_iff h c
    have hcursor := Prod.ext_iff.1 (writechar_cursor h c)
    dsimp only at hcursor
    rw [StaysOn, ← hcursor.1, ← hcursor.2, ← hone]
    constructor
    · rw [writeVisits, List.forall_mem_cons]
      constructor
      · rintro ⟨h1, h2⟩
        exact ⟨h1, (ih h1).1.1 h2⟩
      · rintro ⟨h1, h2⟩
        exact ⟨h1, (ih h1).1.2 h2⟩
    · rintro ⟨h1, h2⟩
      exact (ih h1).2 h2

/-! ## The calls -/

namespace TermCall

/-- The characters a call writes. -/
def text : TermCall → List U8
  | .write s => cstr s
  | .writechar c => [c]
  | .colorshellWrite s _ => cstr s
  | .colorshellWritechar c _ => [c]
  | _ => []

/-- The terminal as it is when the first character is written. -/
def before : TermCall → Terminal → Terminal
  | .colorshellWrite _ type, t =>
    if t.colorMode = 0 then t else terminalColor (getColorshellColor t.colorMode type) t
  | .colorshellWritechar _ type, t => terminalColor (getColorshellColor t.colorMode type) t
  | _, t => t

/-- The states the call goes through: one after each character, and the last. -/
def visits (c : TermCall) (t : Terminal) : List Terminal :=
  writeVisits c.text (c.before t) ++ [c.exec t]

/-- No character of the call goes into the last cell. -/
def StaysOn (c : TermCall) (t : Terminal) : Prop :=
  Frewozet.StaysOn t.cursorRow t.cursorCol c.text

end TermCall

/-- The cursor and the ghost are what bounds are about. -/
theorem Terminal.InBounds.congr {t t' : Terminal} (h : t.InBounds)
    (hrow : t'.cursorRow = t.cursorRow) (hcol : t'.cursorCol = t.cursorCol)
    (houtside : t'.outside = t.outside) : t'.InBounds :=
  ⟨by rw [hrow]; exact h.row, by rw [hcol]; exact h.col, by rw [houtside]; exact h.inside⟩

theorem putCell_inBounds {t : Terminal} (h : t.InBounds) (cell : U16) :
    (t.putCell (t.cursorCol + t.cursorRow * VGA_WIDTH) cell).InBounds :=
  ⟨h.row, h.col, (sameCursor_putCell (cell_lt h.col h.row)).outside.trans h.inside⟩

theorem terminalBackspace_inBounds {t : Terminal} (h : t.InBounds) :
    (terminalBackspace t).InBounds := by
  have hrow := h.row
  have hcol := h.col
  have hback : ∀ u : Terminal, u.InBounds →
      (terminalUpdateCursor (u.putCell (u.cursorCol + u.cursorRow * VGA_WIDTH)
        (vgaChar SPACE u.cursorColor))).InBounds :=
    fun u hu => (putCell_inBounds hu (vgaChar SPACE u.cursorColor)).congr rfl rfl rfl
  unfold terminalBackspace
  refine hback _ ?_
  split
  · exact ⟨hrow, Nat.lt_of_le_of_lt (Nat.sub_le _ _) hcol, h.inside⟩
  · split
    · exact ⟨Nat.lt_of_le_of_lt (Nat.sub_le _ _) hrow, Nat.sub_lt (by decide) (by decide), h.inside⟩
    · exact h

theorem terminalSetCursorIndex_inBounds {t : Terminal} (h : t.InBounds) (index : Nat) :
    (terminalSetCursorIndex index t).InBounds := by
  refine ⟨?_, Nat.mod_lt _ (by decide), h.inside⟩
  change (if index ≥ VGA_WIDTH * VGA_HEIGHT then VGA_WIDTH * VGA_HEIGHT - 1 else index) /
    VGA_WIDTH < VGA_HEIGHT
  unfold VGA_WIDTH VGA_HEIGHT
  split <;> omega

theorem TermCall.before_inBounds (c : TermCall) {t : Terminal} (h : t.InBounds) :
    (c.before t).InBounds ∧ (c.before t).cursorRow = t.cursorRow ∧
      (c.before t).cursorCol = t.cursorCol := by
  cases c with
  | colorshellWrite s type =>
    rw [before]
    split
    · exact ⟨h, rfl, rfl⟩
    · exact ⟨h.congr rfl rfl rfl, rfl, rfl⟩
  | colorshellWritechar c type => exact ⟨h.congr rfl rfl rfl, rfl, rfl⟩
  | _ => exact ⟨h, rfl, rfl⟩

/-- **A call stays on the screen** exactly if none of its characters goes into the last
cell. -/
theorem TermCall.visits_inBounds (c : TermCall) {t : Terminal} (h : t.InBounds) :
    ((∀ u ∈ c.visits t, u.InBounds) ↔ c.StaysOn t) ∧ (c.StaysOn t → (c.exec t).InBounds) := by
  have hbefore := c.before_inBounds h
  have htext := writeVisits_inBounds c.text hbefore.1
  rw [hbefore.2.1, hbefore.2.2] at htext
  have hexec : c.StaysOn t → (c.exec t).InBounds := by
    intro hstays
    have hloop := htext.2 hstays
    cases c with
    | clear =>
      obtain ⟨h1, h2, h3⟩ := terminalClear_cursor t
      exact ⟨by rw [exec, h1]; decide, by rw [exec, h2]; decide, h3.trans h.inside⟩
    | color value => exact h.congr rfl rfl rfl
    | setColorMode mode => exact h.congr rfl rfl rfl
    | write s => exact hloop.congr rfl rfl rfl
    | writechar c => exact hloop.congr rfl rfl rfl
    | colorshellWrite s type =>
      rw [exec, Frewozet.colorshellWrite]
      rw [before] at hloop
      split
      · rename_i hmode
        rw [if_pos hmode] at hloop
        exact hloop.congr rfl rfl rfl
      · rename_i hmode
        rw [if_neg hmode] at hloop
        exact hloop.congr rfl rfl rfl
    | colorshellWritechar c type => exact hloop.congr rfl rfl rfl
    | backspace => exact terminalBackspace_inBounds h
    | setCursorIndex index => exact terminalSetCursorIndex_inBounds h index
  refine ⟨?_, hexec⟩
  rw [visits, List.forall_mem_append, List.forall_mem_singleton]
  constructor
  · exact fun hall => htext.1.1 hall.1
  · exact fun hstays => ⟨htext.1.2 hstays, hexec hstays⟩

/-! ## The runs -/

/-- The states a run of calls goes through. -/
def visits : List TermCall → Terminal → List Terminal
  | [], _ => []
  | c :: calls, t => c.visits t ++ visits calls (c.exec t)

/-- In no call of the run a character goes into the last cell. -/
def EachStaysOn : List TermCall → Terminal → Prop
  | [], _ => True
  | c :: calls, t => c.StaysOn t ∧ EachStaysOn calls (c.exec t)

theorem visits_inBounds_iff : ∀ (calls : List TermCall) {t : Terminal}, t.InBounds →
    ((∀ u ∈ visits calls t, u.InBounds) ↔ EachStaysOn calls t) := by
  intro calls
  induction calls with
  | nil => exact fun _ => iff_of_true (by simp [visits]) trivial
  | cons c calls ih =>
    intro t h
    obtain ⟨hone, hexec⟩ := c.visits_inBounds h
    rw [visits, List.forall_mem_append, hone, EachStaysOn]
    exact and_congr_right fun hstays => ih (hexec hstays)

theorem terminalInit_inBounds (mem : Nat → U16) (mode : Int) :
    (terminalInit { buffer := mem, colorMode := mode }).InBounds := by
  obtain ⟨h1, h2, h3⟩ := terminalClear_cursor
    { cursorRow := 0, cursorCol := 0, cursorColor := 0x07, buffer := mem, colorMode := mode }
  exact ⟨by rw [terminalInit, h1]; decide, by rw [terminalInit, h2]; decide, h3⟩

/-- **The terminal stays on the screen**, in every state of a run after `terminal_init`,
exactly if no character of the run goes into the last cell of the screen. -/
theorem terminal_inBounds_iff (mem : Nat → U16) (mode : Int) (calls : List TermCall) :
    (∀ t ∈ visits calls (terminalInit { buffer := mem, colorMode := mode }), t.InBounds) ↔
      EachStaysOn calls (terminalInit { buffer := mem, colorMode := mode }) :=
  visits_inBounds_iff calls (terminalInit_inBounds mem mode)

/-- One character in the last cell, and the cursor is below the screen. -/
theorem lastCell_leaves_screen :
    ∃ t ∈ visits [.setCursorIndex 1999, .writechar 0x61]
        (terminalInit { buffer := fun _ => 0 }), ¬ t.InBounds := by
  by_contra hno
  have hall : ∀ t ∈ visits [.setCursorIndex 1999, .writechar 0x61]
      (terminalInit { buffer := fun _ => 0 }), t.InBounds :=
    fun t ht => Classical.byContradiction fun hc => hno ⟨t, ht, hc⟩
  have hstays := (visits_inBounds_iff _ (terminalInit_inBounds (fun _ => 0) 0)).1 hall
  exact hstays.2.1.1 (by decide) ⟨rfl, rfl⟩

end Frewozet
