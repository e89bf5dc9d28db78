import Frewozet.Base.Layout
import Frewozet.Terminal.Cells
import Mathlib.Data.List.Induction

/-!
# The screen as the end of a text

A text is laid out in rows of 80 columns; the screen shows the last 25 of them.

* `laidOut` — the layout: a new row at every newline and after every 80th column.
* `Shows t l` — the cells show the last rows of the layout, and the cursor is at its end.
* `Moved` — how far `terminal_scroll` has come.
* `shows_newline`, `shows_put_iff` — what one character does: it goes wrong exactly in the
  last cell.
* `screen_shows_iff` — **the screen shows the end of every text written so far** exactly
  if no row from the 25th on is filled up to its last column.
-/

namespace Frewozet

/-! ## What the loops over the screen do to its cells -/

/-- The first `n` cells have been moved up by a row. -/
def Moved (t : Terminal) (n : Nat) (u : Terminal) : Prop :=
  ∀ j, u.buffer j = if j < n then t.buffer (j + VGA_WIDTH) else t.buffer j

theorem Moved.next {t u : Terminal} {n : Nat} (h : Moved t n u) :
    Moved t (n + 1) (u.putCell n (u.buffer (n + VGA_WIDTH))) := by
  intro j
  have hn := h (n + VGA_WIDTH)
  rw [if_neg (by omega)] at hn
  change (if j = n then u.buffer (n + VGA_WIDTH) else u.buffer j) = _
  rw [hn]
  by_cases hj : j = n
  · rw [if_pos hj, if_pos (by omega), hj]
  · rw [if_neg hj, h j]
    by_cases hlt : j < n
    · rw [if_pos hlt, if_pos (by omega)]
    · rw [if_neg hlt, if_neg (by omega)]

/-- The cells from `n` on, up to `m`, are blank, the others what they were. -/
def Blanked (t : Terminal) (n m : Nat) (u : Terminal) : Prop :=
  u.cursorColor = t.cursorColor ∧
    ∀ j, u.buffer j = if n ≤ j ∧ j < m then vgaChar SPACE t.cursorColor else t.buffer j

theorem Blanked.next {t u : Terminal} {n m : Nat} (h : Blanked t n m u) (hm : n ≤ m) :
    Blanked t n (m + 1) (u.putCell m (vgaChar SPACE u.cursorColor)) := by
  refine ⟨h.1, fun j => ?_⟩
  change (if j = m then vgaChar SPACE u.cursorColor else u.buffer j) = _
  rw [h.1]
  by_cases hj : j = m
  · rw [if_pos hj, if_pos (by omega)]
  · rw [if_neg hj, h.2 j]
    by_cases hin : n ≤ j ∧ j < m
    · rw [if_pos hin, if_pos (by omega)]
    · rw [if_neg hin, if_neg (by omega)]

/-- A row of rounds ends where the next one begins. -/
theorem row_end (y : Nat) : VGA_WIDTH + y * VGA_WIDTH = 0 + (y + 1) * VGA_WIDTH := by
  rw [Nat.succ_mul]
  omega

/-- **Scrolling**: every row is what the one below it was, and the last one is blank. -/
theorem terminalScroll_cell (t : Terminal) {x y : Nat} (hx : x < VGA_WIDTH)
    (hy : y < VGA_HEIGHT) : (terminalScroll t).buffer (x + y * VGA_WIDTH) =
      if y + 1 < VGA_HEIGHT then t.buffer (x + (y + 1) * VGA_WIDTH)
      else vgaChar SPACE t.cursorColor := by
  -- the rows move up, one cell after the other
  obtain ⟨u, hu⟩ : ∃ u, u = forRange (VGA_HEIGHT - 1) (fun k => forRange VGA_WIDTH fun x t =>
      t.putCell (x + k * VGA_WIDTH) (t.buffer (x + (k + 1) * VGA_WIDTH))) t := ⟨_, rfl⟩
  have hmoved : Moved t (0 + (VGA_HEIGHT - 1) * VGA_WIDTH) u ∧ u.cursorColor = t.cursorColor := by
    rw [hu]
    refine forRange_rule (P := fun k u => Moved t (0 + k * VGA_WIDTH) u ∧
      u.cursorColor = t.cursorColor) ⟨fun j => by simp, rfl⟩ fun k _ u hu => ?_
    rw [← row_end]
    refine forRange_rule (P := fun x u => Moved t (x + k * VGA_WIDTH) u ∧
      u.cursorColor = t.cursorColor) hu fun x _ u hu => ⟨?_, hu.2⟩
    rw [Nat.succ_mul, ← Nat.add_assoc x, Nat.add_right_comm x 1]
    exact hu.1.next
  -- the last row is blanked
  have hblank : Blanked u (0 + (VGA_HEIGHT - 1) * VGA_WIDTH)
      (VGA_WIDTH + (VGA_HEIGHT - 1) * VGA_WIDTH) (terminalScroll t) := by
    unfold terminalScroll
    rw [← hu]
    refine forRange_rule (P := fun x v => Blanked u (0 + (VGA_HEIGHT - 1) * VGA_WIDTH)
      (x + (VGA_HEIGHT - 1) * VGA_WIDTH) v) ⟨rfl, fun j => by rw [if_neg (by omega)]⟩ ?_
    intro x _ v hv
    rw [Nat.add_right_comm]
    exact hv.next (by omega)
  rw [hblank.2, hmoved.1, hmoved.2]
  unfold VGA_WIDTH VGA_HEIGHT at *
  by_cases hlast : y + 1 < 25
  · rw [if_pos hlast, if_neg (by omega), if_pos (by omega)]
    congr 1
    omega
  · rw [if_neg hlast, if_pos (by omega)]

theorem terminalClear_cell (t : Terminal) {x y : Nat} (hx : x < VGA_WIDTH)
    (hy : y < VGA_HEIGHT) :
    (terminalClear t).buffer (x + y * VGA_WIDTH) = vgaChar SPACE t.cursorColor := by
  have hblank : Blanked t 0 (0 + VGA_HEIGHT * VGA_WIDTH) (forRange VGA_HEIGHT (fun y =>
      forRange VGA_WIDTH fun x t =>
        t.putCell (x + y * VGA_WIDTH) (vgaChar SPACE t.cursorColor)) t) := by
    refine forRange_rule (P := fun y u => Blanked t 0 (0 + y * VGA_WIDTH) u)
      ⟨rfl, fun j => by rw [if_neg (by omega)]⟩ fun y _ u hu => ?_
    rw [← row_end]
    refine forRange_rule (P := fun x u => Blanked t 0 (x + y * VGA_WIDTH) u) hu fun x _ u hu => ?_
    rw [Nat.add_right_comm]
    exact hu.next (Nat.zero_le _)
  refine (hblank.2 (x + y * VGA_WIDTH)).trans (if_pos ⟨Nat.zero_le _, ?_⟩)
  have hlt := cell_lt hx hy
  rwa [SCREEN_CELLS, Nat.mul_comm VGA_WIDTH, ← Nat.zero_add (VGA_HEIGHT * VGA_WIDTH)] at hlt

/-! ## Texts on the screen -/

/-- What a character does to a layout in rows of 80 columns. -/
def layChar (l : Layout U8 VGA_WIDTH) (c : U8) : Layout U8 VGA_WIDTH :=
  if c = NEWLINE then l.newRow else l.put c

/-- The text laid out. -/
def laidOut (s : List U8) : Layout U8 VGA_WIDTH := s.foldl layChar (.start (by decide))

/-- The first row on the screen. -/
def topRow (l : Layout U8 VGA_WIDTH) : Nat := l.ended.length - (VGA_HEIGHT - 1)

/-- **The screen shows the end of the layout**: its last 25 rows, blank where they have no
character, and the cursor behind the last one. -/
structure Shows (t : Terminal) (l : Layout U8 VGA_WIDTH) : Prop where
  row : t.cursorRow = l.ended.length - topRow l
  col : t.cursorCol = l.row.length
  cell : ∀ x < VGA_WIDTH, ∀ y < VGA_HEIGHT,
    t.buffer (x + y * VGA_WIDTH) = vgaChar ((l.get? (topRow l + y) x).getD SPACE) 0x07

/-- The next character fills up a row from the 25th on. -/
def FillsLastRow (l : Layout U8 VGA_WIDTH) : Prop :=
  VGA_HEIGHT - 1 ≤ l.ended.length ∧ l.row.length = VGA_WIDTH - 1

section

variable {t : Terminal} {l : Layout U8 VGA_WIDTH} {c : U8}

theorem writechar_color (t : Terminal) (c : U8) :
    (terminalWritecharOptimized c t).cursorColor = t.cursorColor := by
  unfold terminalWritecharOptimized
  split <;> dsimp only <;> split
  · exact (sameCursor_scroll _).color
  · rfl
  · rfl
  · rfl

/-- A newline: the screen scrolls as soon as the layout has 25 rows. -/
theorem shows_newline (h : Shows t l) (hcolor : t.cursorColor = 0x07) :
    Shows (terminalWritecharOptimized NEWLINE t) l.newRow := by
  have hrow := h.row
  have hended : l.newRow.ended.length = l.ended.length + 1 := congrArg Prod.fst l.end_newRow
  have hcol : l.newRow.row.length = 0 := congrArg Prod.snd l.end_newRow
  unfold topRow at hrow
  unfold terminalWritecharOptimized
  rw [if_pos rfl]
  dsimp only
  by_cases hscroll : t.cursorRow + 1 ≥ VGA_HEIGHT
  · rw [if_pos hscroll]
    have htop : topRow l.newRow = topRow l + 1 := by
      unfold topRow
      rw [hended]
      unfold VGA_HEIGHT at *
      omega
    refine ⟨?_, (sameCursor_scroll _).col.trans hcol.symm, fun x hx y hy => ?_⟩
    · change VGA_HEIGHT - 1 = _
      rw [htop, hended]
      unfold topRow VGA_HEIGHT at *
      omega
    · rw [htop, Layout.get?_newRow]
      refine (terminalScroll_cell _ hx hy).trans ?_
      dsimp only
      by_cases hlast : y + 1 < VGA_HEIGHT
      · rw [if_pos hlast, h.cell x hx (y + 1) hlast, Nat.add_right_comm, Nat.add_assoc]
      · -- the last row of the screen is the new one
        rw [if_neg hlast, hcolor, Layout.get?_below]
        · rfl
        · unfold topRow VGA_HEIGHT at *
          omega
  · rw [if_neg hscroll]
    have htop : topRow l.newRow = topRow l := by
      unfold topRow
      rw [hended]
      unfold VGA_HEIGHT at *
      omega
    refine ⟨?_, hcol.symm, fun x hx y hy => ?_⟩
    · change t.cursorRow + 1 = _
      rw [htop, hended, hrow]
      unfold topRow VGA_HEIGHT at *
      omega
    · rw [htop, Layout.get?_newRow]
      exact h.cell x hx y hy

/-- Another character goes into its cell; the row that is full does not scroll. -/
theorem shows_put_iff (h : Shows t l) (hcolor : t.cursorColor = 0x07) (hc : c ≠ NEWLINE) :
    Shows (terminalWritecharOptimized c t) (l.put c) ↔ ¬ FillsLastRow l := by
  have hrow := h.row
  have hcol := h.col
  have hroom := l.room
  have hend := l.end_put (c := c)
  have hcell : ∀ j, (terminalWritecharOptimized c t).buffer j =
      if j = l.row.length + t.cursorRow * VGA_WIDTH then vgaChar c 0x07 else t.buffer j := by
    intro j
    unfold terminalWritecharOptimized
    rw [if_neg hc, ← hcol, ← hcolor]
    dsimp only
    split <;> rfl
  have hcursor := put_cursor (t := t) hc
  rw [hcol] at hcursor
  obtain ⟨hrow', hcol'⟩ := Prod.ext_iff.1 hcursor
  obtain ⟨hended, hlast⟩ := Prod.ext_iff.1 hend
  dsimp only at hrow' hcol' hended hlast
  have hcells : topRow (l.put c) = topRow l → ∀ x < VGA_WIDTH, ∀ y < VGA_HEIGHT,
      (terminalWritecharOptimized c t).buffer (x + y * VGA_WIDTH) =
        vgaChar (((l.put c).get? (topRow (l.put c) + y) x).getD SPACE) 0x07 := by
    intro htop x hx y hy
    have hplace : x + y * VGA_WIDTH = l.row.length + t.cursorRow * VGA_WIDTH ↔
        topRow l + y = l.ended.length ∧ x = l.row.length := by
      unfold topRow at *
      unfold VGA_WIDTH VGA_HEIGHT at *
      omega
    rw [hcell, htop, Layout.get?_put]
    by_cases hhere : topRow l + y = l.ended.length ∧ x = l.row.length
    · rw [if_pos (hplace.2 hhere), if_pos hhere]
      rfl
    · rw [if_neg (fun hp => hhere (hplace.1 hp)), if_neg hhere]
      exact h.cell x hx y hy
  unfold FillsLastRow
  by_cases hfull : l.row.length + 1 < VGA_WIDTH
  · rw [if_pos hfull] at hrow' hcol' hended hlast
    have htop : topRow (l.put c) = topRow l := by
      rw [topRow, hended, topRow]
    refine iff_of_true ⟨by rw [hrow', hrow, htop, hended], by rw [hcol', hlast], hcells htop⟩ ?_
    omega
  · rw [if_neg hfull] at hrow' hcol' hended hlast
    by_cases hroll : VGA_HEIGHT - 1 ≤ l.ended.length
    · -- the layout goes on to a new row of the screen, the cursor to a row below it
      refine iff_of_false (fun hshows => ?_) (fun hno => hno ⟨hroll, by omega⟩)
      have hcursorRow := hshows.row
      rw [hrow', hrow, topRow, hended, topRow] at hcursorRow
      omega
    · have htop : topRow (l.put c) = topRow l := by
        rw [topRow, hended, topRow]
        omega
      refine iff_of_true ⟨?_, by rw [hcol', hlast], hcells htop⟩ fun hf => hroll hf.1
      rw [hrow', hrow, htop, hended, topRow]
      omega

end

/-! ## Calls that write -/

/-- `terminal_write` and `terminal_writechar`. -/
inductive TermCall.Writes : TermCall → Prop where
  | write (s : List U8) : Writes (.write s)
  | writechar (c : U8) : Writes (.writechar c)

/-- What the calls write, put together. -/
def textOf (calls : List TermCall) : List U8 := calls.flatMap TermCall.text

/-- No row of the text from the 25th on is filled up. -/
def NoLastRowFilled (s : List U8) : Prop :=
  ∀ t c, t ++ [c] <+: s → c ≠ NEWLINE → ¬ FillsLastRow (laidOut t)

theorem laidOut_append (s u : List U8) : laidOut (s ++ u) = u.foldl layChar (laidOut s) :=
  List.foldl_append

/-- The characters of a text, one after the other. -/
theorem shows_writeLoop : ∀ {u s : List U8} {t : Terminal}, Shows t (laidOut s) →
    t.cursorColor = 0x07 → NoLastRowFilled (s ++ u) →
      Shows (writeLoop u t) (laidOut (s ++ u)) := by
  intro u
  induction u with
  | nil =>
    intro s t h _ _
    rw [List.append_nil]
    exact h
  | cons c u ih =>
    intro s t h hcolor hfits
    have hone : Shows (terminalWritecharOptimized c t) (laidOut (s ++ [c])) := by
      rw [laidOut_append]
      change Shows _ (layChar (laidOut s) c)
      unfold layChar
      by_cases hc : c = NEWLINE
      · rw [if_pos hc, hc]
        exact shows_newline h hcolor
      · rw [if_neg hc]
        refine (shows_put_iff h hcolor hc).2 (hfits s c ⟨u, by simp⟩ hc)
    have hrest := ih hone ((writechar_color t c).trans hcolor) (by simpa using hfits)
    rw [List.append_assoc] at hrest
    exact hrest

/-- The registers of the video controller do not matter. -/
theorem Shows.congr {t t' : Terminal} {l : Layout U8 VGA_WIDTH} (h : Shows t l)
    (hrow : t'.cursorRow = t.cursorRow) (hcol : t'.cursorCol = t.cursorCol)
    (hcells : t'.buffer = t.buffer) : Shows t' l :=
  ⟨hrow.trans h.row, hcol.trans h.col, fun x hx y hy => by rw [hcells]; exact h.cell x hx y hy⟩

theorem shows_exec {call : TermCall} (hcall : call.Writes) {s : List U8} {t : Terminal}
    (h : Shows t (laidOut s)) (hcolor : t.cursorColor = 0x07)
    (hfits : NoLastRowFilled (s ++ call.text)) :
    Shows (call.exec t) (laidOut (s ++ call.text)) := by
  have hshows := shows_writeLoop h hcolor hfits
  cases hcall with
  | write => exact hshows.congr rfl rfl rfl
  | writechar => exact hshows.congr rfl rfl rfl

theorem writeLoop_color : ∀ (s : List U8) (t : Terminal),
    (writeLoop s t).cursorColor = t.cursorColor := by
  intro s
  induction s with
  | nil => exact fun _ => rfl
  | cons c s ih => exact fun t => (ih _).trans (writechar_color t c)

theorem writes_color {call : TermCall} (hcall : call.Writes) (t : Terminal) :
    (call.exec t).cursorColor = t.cursorColor := by
  cases hcall with
  | write s => exact writeLoop_color _ t
  | writechar c => exact writechar_color t c

theorem textOf_cons (call : TermCall) (calls : List TermCall) :
    textOf (call :: calls) = call.text ++ textOf calls := List.flatMap_cons

theorem NoLastRowFilled.of_prefix {s u : List U8} (h : NoLastRowFilled s) (hu : u <+: s) :
    NoLastRowFilled u := fun t c hc => h t c (hc.trans hu)

theorem shows_execCalls : ∀ {calls : List TermCall} {s : List U8} {t : Terminal},
    (∀ call ∈ calls, call.Writes) → Shows t (laidOut s) → t.cursorColor = 0x07 →
      NoLastRowFilled (s ++ textOf calls) →
        Shows (execCalls calls t) (laidOut (s ++ textOf calls)) := by
  intro calls
  induction calls with
  | nil =>
    intro s t _ h _ _
    rw [textOf, List.flatMap_nil, List.append_nil]
    exact h
  | cons call calls ih =>
    intro s t hcalls h hcolor hfits
    rw [textOf_cons, ← List.append_assoc] at hfits ⊢
    have hcall := hcalls call List.mem_cons_self
    exact ih (fun c hc => hcalls c (List.mem_cons_of_mem call hc))
      (shows_exec hcall h hcolor (hfits.of_prefix (List.prefix_append _ _)))
      ((writes_color hcall t).trans hcolor) hfits

/-- After `terminal_init` the screen shows the empty text. -/
theorem shows_terminalInit (t : Terminal) :
    Shows (terminalInit t) (laidOut []) ∧ (terminalInit t).cursorColor = 0x07 := by
  obtain ⟨hrow, hcol, -⟩ :=
    terminalClear_cursor { t with cursorRow := 0, cursorCol := 0, cursorColor := 0x07 }
  have hcolor : (terminalInit t).cursorColor = 0x07 := by
    unfold terminalInit terminalClear
    dsimp only
    exact (sameCursor_forRange (fun y hy => sameCursor_forRange fun x hx t =>
      sameCursor_putCell (cell_lt hx hy)) _).color
  refine ⟨⟨hrow, hcol, fun x hx y hy => ?_⟩, hcolor⟩
  have hblank : (laidOut []).get? (topRow (laidOut []) + y) x = none := by
    change ([[]] : List (List U8))[0 + y]?.bind (·[x]?) = none
    rw [Nat.zero_add]
    cases y <;> rfl
  rw [hblank]
  exact terminalClear_cell _ hx hy

/-- The calls, one for each character of the text. -/
def charCalls (s : List U8) : List TermCall := s.map .writechar

theorem charCalls_writes (s : List U8) : ∀ call ∈ charCalls s, call.Writes := by
  intro call hcall
  obtain ⟨c, -, rfl⟩ := List.mem_map.1 hcall
  exact .writechar c

theorem textOf_charCalls (s : List U8) : textOf (charCalls s) = s := by
  induction s with
  | nil => rfl
  | cons c s ih =>
    rw [charCalls, List.map_cons, textOf_cons]
    exact congrArg (List.cons c) ih

theorem charCalls_color : ∀ (s : List U8) (t : Terminal),
    (execCalls (charCalls s) t).cursorColor = t.cursorColor := by
  intro s
  induction s with
  | nil => exact fun _ => rfl
  | cons c s ih => exact fun t => (ih _).trans (writechar_color t c)

/-- A character that fills up the last row is shown wrong. -/
theorem not_shows_fill {s : List U8} {c : U8} {t : Terminal} (h : Shows t (laidOut s))
    (hcolor : t.cursorColor = 0x07) (hc : c ≠ NEWLINE) (hfill : FillsLastRow (laidOut s)) :
    ¬ Shows (terminalWritechar c t) (laidOut (s ++ [c])) := by
  intro hshows
  rw [laidOut_append] at hshows
  change Shows _ (layChar (laidOut s) c) at hshows
  rw [layChar, if_neg hc] at hshows
  exact (shows_put_iff h hcolor hc).1 (hshows.congr rfl rfl rfl) hfill

/-- A character adds a row or a column. -/
theorem laidOut_length (s : List U8) :
    (laidOut s).ended.length + (laidOut s).row.length ≤ s.length := by
  induction s using List.reverseRecOn with
  | nil => exact Nat.le_refl 0
  | append_singleton s c ih =>
    rw [laidOut_append, List.length_append]
    change (layChar (laidOut s) c).ended.length + (layChar (laidOut s) c).row.length ≤ s.length + 1
    unfold layChar
    by_cases hc : c = NEWLINE
    · obtain ⟨h1, h2⟩ := Prod.ext_iff.1 (laidOut s).end_newRow
      dsimp only at h1 h2
      rw [if_pos hc, h1, h2]
      omega
    · obtain ⟨h1, h2⟩ := Prod.ext_iff.1 ((laidOut s).end_put (c := c))
      dsimp only at h1 h2
      rw [if_neg hc, h1, h2]
      split <;> dsimp only <;> omega

/-- A short text does not reach the last cell. -/
theorem noLastRowFilled_of_length {s : List U8}
    (h : s.length ≤ VGA_HEIGHT - 1 + (VGA_WIDTH - 1)) : NoLastRowFilled s := by
  intro u c hu _ hfill
  have hlength := hu.length_le
  have hsum := laidOut_length u
  rw [List.length_append, List.length_singleton] at hlength
  obtain ⟨h1, h2⟩ := hfill
  omega

/-- 24 newlines and 79 letters. -/
def almostFull : List U8 := List.replicate 24 NEWLINE ++ List.replicate 79 0x61

/-- **When no output is lost.**  `s` is written after `terminal_init`, by any calls of
`terminal_write` and `terminal_writechar`.  After each of them the screen shows the last 25
rows of what is written so far, laid out, and the cursor is at its end, if and only if no
character of `s` fills up a row from the 25th on. -/
theorem screen_shows_iff (t : Terminal) (s : List U8) :
    (∀ calls, (∀ call ∈ calls, call.Writes) → textOf calls <+: s →
      Shows (execCalls calls (terminalInit t)) (laidOut (textOf calls))) ↔
        NoLastRowFilled s := by
  obtain ⟨hinit, hcolor⟩ := shows_terminalInit t
  constructor
  · intro hall u c hu hc hfill
    -- a call for each character, up to this one
    have hbefore := hall (charCalls u) (charCalls_writes u)
      (by rw [textOf_charCalls]; exact (List.prefix_append u [c]).trans hu)
    have hafter := hall (charCalls (u ++ [c])) (charCalls_writes _)
      (by rw [textOf_charCalls]; exact hu)
    rw [textOf_charCalls] at hbefore hafter
    rw [charCalls, List.map_append, execCalls, List.foldl_append] at hafter
    exact not_shows_fill hbefore ((charCalls_color u _).trans hcolor) hc hfill hafter
  · intro hfits calls hcalls hpre
    exact shows_execCalls hcalls hinit hcolor (hfits.of_prefix hpre)

/-- With one letter more the cursor is below the screen. -/
theorem last_row_lost : ¬ Shows
    (execCalls [.write almostFull, .writechar 0x61] (terminalInit { buffer := fun _ => 0 }))
    (laidOut (textOf [.write almostFull, .writechar 0x61])) := by
  have htext : cstr almostFull = almostFull := cstr_eq (by simp [almostFull, NEWLINE])
  have hcalls : textOf [.write almostFull, .writechar 0x61] = almostFull ++ [0x61] :=
    congrArg (· ++ [0x61]) htext
  obtain ⟨hinit, hcolor⟩ := shows_terminalInit { buffer := fun _ => 0 }
  generalize terminalInit { buffer := fun _ => 0 } = t at hinit hcolor ⊢
  have hbefore : Shows (terminalWrite almostFull t) (laidOut almostFull) := by
    have hwrite := shows_exec (.write almostFull) hinit hcolor
      (noLastRowFilled_of_length (by rw [List.nil_append, TermCall.text, htext]; decide))
    rwa [List.nil_append, TermCall.text, htext] at hwrite
  rw [hcalls]
  refine not_shows_fill hbefore ((writes_color (.write almostFull) t).trans hcolor) (by decide) ?_
  unfold FillsLastRow
  decide +kernel

end Frewozet
