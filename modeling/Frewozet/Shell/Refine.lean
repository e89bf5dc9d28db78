import Frewozet.Shell.Editor

/-!
# `shell.c` refines the editor

* `Represents s e` — the variables of the shell stand for the editor `e`: each buffer
  holds its text, the counters are its length and cursor, the rows its entries.
* `renderLine` — what `shell_refresh_line` does to the screen, for a text.
* `Effect.Seen` — what an operation did to the screen.
* `Event.exec_represents` — **the step lemma**: a key succeeds, does to the shell what it
  does to the editor, and to the screen what its effect says.
* `shell_refines_editor` — **every run from `shell_init` does what the editor does.**
-/

namespace CharArray

variable {n : Nat} {a : CharArray n} {s : List U8}

/-- A loop over the characters of a string. -/
theorem forRangeM_of_holds {σ : Type} (h : a.Holds s) (f : U8 → σ → σ) (u : σ) :
    forRangeM s.length (fun i u => do
      let c ← a.load i
      some (f c u)) u = some (s.foldl (fun u c => f c u) u) := by
  obtain ⟨v, hv, heq⟩ := forRangeM_rule
    (P := fun i (v : σ) => v = (s.take i).foldl (fun u c => f c u) u)
    (f := fun i u => do
      let c ← a.load i
      some (f c u))
    (s := u) (n := s.length) rfl fun i hi v hv => by
      refine ⟨f s[i] v, by rw [h.char hi]; rfl, ?_⟩
      rw [List.take_succ_eq_append_getElem hi, List.foldl_append, hv]
      rfl
  rw [hv, heq, List.take_length]

/-- Storing the NUL again changes nothing. -/
theorem store_nul_of_holds (h : a.Holds s) : ∃ a', a.store s.length 0 = some a' ∧ a'.Holds s := by
  obtain ⟨a', hstore, hload⟩ := a.store_of_lt h.room 0
  refine ⟨a', hstore, ⟨fun i hi => ?_, h.noNul⟩⟩
  rw [hload, h.load i hi]
  split
  · rename_i heq
    rw [heq, List.getElem?_eq_none (Nat.le_refl _)]
    rfl
  · rfl

/-- A NUL in the first cell empties the string. -/
theorem store_empty (hn : 0 < n) (a : CharArray n) : ∃ a', a.store 0 0 = some a' ∧ a'.Holds [] := by
  obtain ⟨a', hstore, hload⟩ := a.store_of_lt hn 0
  exact ⟨a', hstore, .empty (by rw [hload, if_pos rfl])⟩

end CharArray

namespace Frewozet

/-! ## The relation -/

/-- A line is emptied by a NUL in its first cell. -/
theorem store_nul_empty (a : CharArray SHELL_BUFFER_SIZE) :
    ∃ a', a.store 0 0 = some a' ∧ a'.Holds [] :=
  CharArray.store_empty (by decide : 0 < SHELL_BUFFER_SIZE) a

/-- An array, a length and a position stand for a line. -/
structure HoldsLine (a : CharArray SHELL_BUFFER_SIZE) (length cursor : Nat) (l : Line U8) :
    Prop where
  text : a.Holds l.text
  length : length = l.text.length
  cursor : cursor = l.cursor

/-- What is behind the line stands for the editor: the history, and the line that was left. -/
structure Remembers (s : Shell) (e : Editor) : Prop where
  saved : HoldsLine s.savedBuffer s.savedBufferLength s.savedCursorPos e.saved
  history : HistoryHolds s e.entries
  view : s.historyViewIndex = e.view.elim (-1) fun k => (k : Int)
  viewing : ∀ k, e.view = some k → k < e.entries.length

/-- The variables of the shell stand for the editor. -/
structure Represents (s : Shell) (e : Editor) : Prop extends Remembers s e where
  line : HoldsLine s.buffer s.bufferLength s.cursorPos e.line

/-- The line itself and the screen are not remembered. -/
theorem Remembers.frame {s : Shell} {e : Editor} (h : Remembers s e) {l : Line U8}
    {buffer : CharArray SHELL_BUFFER_SIZE} {length cursor start last : Nat} {t : Terminal} :
    Remembers { s with
      buffer := buffer
      bufferLength := length
      cursorPos := cursor
      promptStartIndex := start
      lastRenderedLength := last
      terminal := t } { e with line := l } :=
  ⟨h.saved, ⟨h.history.count, h.history.next, h.history.ring⟩, h.view, h.viewing⟩

/-- Another entry is viewed, or none. -/
theorem Remembers.withView {s : Shell} {e : Editor} (h : Remembers s e) (view : Option Nat)
    (hview : ∀ k, view = some k → k < e.entries.length) :
    Remembers { s with historyViewIndex := view.elim (-1) fun k => (k : Int) }
      { e with view := view } :=
  ⟨h.saved, ⟨h.history.count, h.history.next, h.history.ring⟩, rfl, hview⟩

/-! ## Redrawing -/

/-- What `shell_refresh_line` does to the screen. -/
def renderLine (start : Nat) (l : Line U8) (last : Nat) (t : Terminal) : Terminal :=
  let t := terminalSetCursorIndex start t
  let t := colorshellWrite SHELL_PROMPT "prompt" t
  let t := l.text.foldl (fun t c => colorshellWritechar c "default" t) t
  let t :=
    if last > l.text.length then
      forRange (last - l.text.length) (fun _ => terminalWritechar SPACE) t
    else t
  terminalSetCursorIndex (start + shellPromptLength + l.cursor) t

namespace Shell

/-- The shell with its line redrawn. -/
def redrawn (s : Shell) (l : Line U8) : Shell :=
  { s with
    terminal := renderLine s.promptStartIndex l s.lastRenderedLength s.terminal
    lastRenderedLength := l.text.length }

end Shell

variable {s : Shell} {e : Editor} {l : Line U8}

theorem shellRefreshLine_of_holds (h : HoldsLine s.buffer s.bufferLength s.cursorPos l) :
    shellRefreshLine s = some (s.redrawn l) := by
  have hloop : ∀ t, forRangeM s.bufferLength (fun i t => do
      let c ← s.buffer.load i
      some (colorshellWritechar c "default" t)) t =
        some (l.text.foldl (fun t c => colorshellWritechar c "default" t) t) := by
    intro t
    rw [h.length]
    exact CharArray.forRangeM_of_holds h.text (fun c t => colorshellWritechar c "default" t) t
  unfold shellRefreshLine Shell.redrawn renderLine
  dsimp only
  rw [hloop, ← h.length, ← h.cursor]
  rfl

/-! ## What is seen -/

/-- The terminal, the prompt and the rendered length after an operation. -/
structure OnScreen (s s' : Shell) (last : Nat) (t : Terminal) : Prop where
  terminal : s'.terminal = t
  start : s'.promptStartIndex = s.promptStartIndex
  last : s'.lastRenderedLength = last

/-- What was done to the screen, `l` being the line now. -/
def Effect.Seen (s : Shell) (l : Line U8) (s' : Shell) : Effect → Prop
  | .quiet => OnScreen s s' s.lastRenderedLength s.terminal
  | .redraw => OnScreen s s' l.text.length
      (renderLine s.promptStartIndex l s.lastRenderedLength s.terminal)
  | .erase => OnScreen s s' l.text.length
      (renderLine s.promptStartIndex l s.lastRenderedLength
        (forRange s.bufferLength (fun _ => terminalBackspace) s.terminal))
  | .prompt => ∃ u calls, u.terminal = execCalls calls s.terminal ∧ s' = shellPrintPrompt u

/-- A key did what it does to the editor, and to the screen what its effect says. -/
def Does (s : Shell) (e' : Editor) (effect : Effect) (out : Option Shell) : Prop :=
  ∃ s', out = some s' ∧ Represents s' e' ∧ effect.Seen s e'.line s'

theorem Represents.does_nothing (h : Represents s e) : Does s e .quiet (some s) :=
  ⟨s, rfl, h, rfl, rfl, rfl⟩

/-- Only what the screen shows counts. -/
theorem Does.of_screen {s₁ : Shell} {effect : Effect} {out : Option Shell}
    (h : Does s₁ e effect out) (hscreen : OnScreen s s₁ s.lastRenderedLength s.terminal)
    (hlength : s₁.bufferLength = s.bufferLength) : Does s e effect out := by
  obtain ⟨s', hout, hrep, hseen⟩ := h
  refine ⟨s', hout, hrep, ?_⟩
  obtain ⟨hterminal, hstart, hlast⟩ := hscreen
  cases effect <;>
    simp only [Effect.Seen, hterminal, hlast, hstart, hlength] at hseen ⊢ <;>
    first | exact hseen | exact ⟨hseen.terminal, hseen.start.trans hstart, hseen.last⟩

/-- **The line is drawn**, over what was there. -/
theorem Represents.does_redraw {s₀ : Shell} (h : Represents s e)
    (hscreen : OnScreen s₀ s s₀.lastRenderedLength s₀.terminal) :
    Does s₀ e .redraw (shellRefreshLine s) := by
  refine ⟨_, shellRefreshLine_of_holds h.line, ⟨h.frame, h.line⟩, ?_⟩
  refine ⟨?_, hscreen.start, rfl⟩
  rw [← hscreen.terminal, ← hscreen.start, ← hscreen.last]
  rfl

/-- Another line is in the buffer. -/
theorem Remembers.withLine (h : Remembers s e) {buffer : CharArray SHELL_BUFFER_SIZE}
    {length cursor : Nat} (hl : HoldsLine buffer length cursor l) :
    Represents { s with buffer := buffer, bufferLength := length, cursorPos := cursor }
      { e with line := l } :=
  ⟨h.frame, hl⟩

/-- Nothing is viewed any more. -/
theorem Represents.unviewed (h : Represents s e) :
    Represents { s with historyViewIndex := -1 } { e with view := none } :=
  ⟨h.withView none (fun _ hk => by cases hk), h.line⟩

/-- A prompt is printed. -/
theorem Represents.printPrompt (h : Represents s e) : Represents (shellPrintPrompt s) e :=
  ⟨h.frame, h.line⟩

theorem Represents.does_prompt {s₀ : Shell} (h : Represents s e)
    (hcalls : ∃ calls, s.terminal = execCalls calls s₀.terminal) :
    Does s₀ e .prompt (some (shellPrintPrompt s)) := by
  obtain ⟨calls, hcalls⟩ := hcalls
  exact ⟨_, rfl, h.printPrompt, s, calls, hcalls, rfl⟩

/-! ## Editing -/

/-- **Typing a character** inserts it, if there is room. -/
theorem shellInsertChar_does (h : Represents s e) {c : U8} (hc : c ≠ 0) (hroom : ¬ e.Full) :
    Does s { e with line := e.line.insert c } .redraw (shellInsertChar c s) := by
  have hline := h.line
  have hlt : e.line.text.length + 1 < SHELL_BUFFER_SIZE := by
    unfold Editor.Full SHELL_BUFFER_SIZE at *
    omega
  obtain ⟨shifted, buffer, hshift, hstore, hholds⟩ :=
    CharArray.insert_of_holds hline.text hlt e.line.within hc
  rw [← hline.length, ← hline.cursor] at hshift
  rw [← hline.cursor] at hstore
  have hfull : ¬ s.bufferLength ≥ SHELL_BUFFER_SIZE - 1 := by rwa [hline.length]
  unfold shellInsertChar
  rw [if_neg hfull, hshift]
  dsimp only [bind, Option.bind]
  rw [hstore]
  have hinserted : HoldsLine buffer (s.bufferLength + 1) (s.cursorPos + 1) (e.line.insert c) :=
    ⟨hholds, by rw [Line.length_insert, hline.length], congrArg (· + 1) hline.cursor⟩
  exact (h.withLine hinserted).does_redraw ⟨rfl, rfl, rfl⟩

/-- A character too many empties the line. -/
theorem shellInsertChar_overflow (h : Represents s e) (c : U8) (hfull : e.Full) :
    Does s { e with line := .empty, view := none } .prompt (shellInsertChar c s) := by
  obtain ⟨buffer, hstore, hholds⟩ := store_nul_empty s.buffer
  have hfull' : s.bufferLength ≥ SHELL_BUFFER_SIZE - 1 := by rwa [h.line.length]
  unfold shellInsertChar
  rw [if_pos hfull']
  dsimp only [bind, Option.bind, Shell.onTerminal]
  rw [hstore]
  exact Represents.does_prompt ⟨h.unviewed.frame, hholds, rfl, rfl⟩
    ⟨[.colorshellWrite _ "error"], rfl⟩

/-- **Backspace** deletes the character before the cursor. -/
theorem shellBackspace_does (h : Represents s e) :
    Does s { e with line := e.line.deleteBefore }
      (if e.line.cursor = 0 then .quiet else .redraw) (shellBackspace s) := by
  have hline := h.line
  have hcursor := hline.cursor
  have hlength := hline.length
  have hwithin := e.line.within
  unfold shellBackspace
  by_cases hzero : e.line.cursor = 0
  · rw [if_pos hzero, if_pos (Or.inl (hcursor.trans hzero)), Line.deleteBefore_eq hzero]
    exact h.does_nothing
  · have hlt : e.line.cursor - 1 < e.line.text.length := by omega
    obtain ⟨buffer, hshift, hholds⟩ := CharArray.shiftDown_of_holds hline.text hlt
    obtain ⟨htext, hdeleted⟩ := Line.deleteBefore_pos (Nat.pos_of_ne_zero hzero)
    rw [← hlength, ← hcursor] at hshift
    rw [if_neg hzero, if_neg (by omega), hshift]
    have hnew : HoldsLine buffer (s.bufferLength - 1) (s.cursorPos - 1) e.line.deleteBefore := by
      refine ⟨by rw [htext]; exact hholds, ?_, by rw [hdeleted, hcursor]⟩
      rw [htext, List.length_eraseIdx_of_lt hlt, hlength]
    exact (h.withLine hnew).does_redraw ⟨rfl, rfl, rfl⟩

/-- **Delete** deletes the character at the cursor. -/
theorem shellDeleteForward_does (h : Represents s e) :
    Does s { e with line := e.line.deleteAt }
      (if e.line.cursor < e.line.text.length then .redraw else .quiet) (shellDeleteForward s) := by
  have hline := h.line
  have hcursor := hline.cursor
  have hlength := hline.length
  unfold shellDeleteForward
  by_cases hlt : e.line.cursor < e.line.text.length
  · obtain ⟨buffer, hshift, hholds⟩ := CharArray.shiftDown_of_holds hline.text hlt
    obtain ⟨htext, hdeleted⟩ := Line.deleteAt_pos hlt
    rw [← hlength, ← hcursor] at hshift
    rw [if_pos hlt, if_neg (by omega), hshift]
    have hnew : HoldsLine buffer (s.bufferLength - 1) s.cursorPos e.line.deleteAt := by
      refine ⟨by rw [htext]; exact hholds, ?_, by rw [hdeleted, hcursor]⟩
      rw [htext, List.length_eraseIdx_of_lt hlt, hlength]
    exact (h.withLine hnew).does_redraw ⟨rfl, rfl, rfl⟩
  · rw [if_neg hlt, if_pos (by omega), Line.deleteAt_eq hlt]
    exact h.does_nothing

/-- **The cursor goes elsewhere in the line.** -/
theorem Represents.does_move (h : Represents s e) (hl : l.text = e.line.text) {cursor : Nat}
    (hcursor : cursor = l.cursor) :
    Does s { e with line := l } .redraw (shellRefreshLine { s with cursorPos := cursor }) := by
  have hline : HoldsLine s.buffer s.bufferLength cursor l :=
    ⟨hl ▸ h.line.text, hl ▸ h.line.length, hcursor⟩
  exact (h.withLine hline).does_redraw ⟨rfl, rfl, rfl⟩

theorem shellMoveLeft_does (h : Represents s e) :
    Does s { e with line := e.line.left } (if e.line.cursor = 0 then .quiet else .redraw)
      (shellMoveLeft s) := by
  have hcursor := h.line.cursor
  unfold shellMoveLeft
  by_cases hzero : e.line.cursor = 0
  · rw [if_pos hzero, if_neg (by omega), Line.left_eq hzero]
    exact h.does_nothing
  · rw [if_neg hzero, if_pos (by omega)]
    have hleft : s.cursorPos - 1 = e.line.left.cursor := congrArg (· - 1) hcursor
    exact h.does_move (l := e.line.left) rfl hleft

theorem shellMoveRight_does (h : Represents s e) :
    Does s { e with line := e.line.right }
      (if e.line.cursor < e.line.text.length then .redraw else .quiet) (shellMoveRight s) := by
  have hcursor := h.line.cursor
  have hlength := h.line.length
  unfold shellMoveRight
  by_cases hlt : e.line.cursor < e.line.text.length
  · rw [if_pos hlt, if_pos (by omega)]
    exact h.does_move Line.text_right (by rw [Line.cursor_right hlt, hcursor])
  · rw [if_neg hlt, if_neg (by omega), Line.right_eq hlt]
    exact h.does_nothing

/-! ## The history -/

/-- Loading an entry, whatever is in the line. -/
theorem shellLoadViewed_of_remembers (h : Remembers s e) {k : Nat} (hk : k < e.entries.length) :
    ∃ buffer length, shellLoadViewed { s with historyViewIndex := k } = some { s with
        historyViewIndex := k, buffer := buffer, bufferLength := length, cursorPos := length } ∧
      HoldsLine buffer length length (e.load k).line := by
  have hhistory : HistoryHolds { s with historyViewIndex := (k : Int) } e.entries :=
    ⟨h.history.count, h.history.next, h.history.ring⟩
  obtain ⟨row, hrow, hholds⟩ := hhistory.historyRow_physicalIndex hk
  obtain ⟨buffer, hcopy, htext⟩ := CharArray.strcpy_of_holds hholds hholds.room s.buffer
  unfold shellLoadViewed shellSetLine
  dsimp only [bind, Option.bind]
  rw [hrow]
  dsimp only
  rw [hcopy]
  dsimp only
  rw [CharArray.strlen_of_holds htext]
  refine ⟨_, _, rfl, ?_⟩
  rw [Editor.load, List.getElem?_eq_getElem hk]
  exact ⟨htext, rfl, rfl⟩

/-- The entry is viewed now. -/
theorem Remembers.load (h : Remembers s e) {k : Nat} (hk : k < e.entries.length)
    {buffer : CharArray SHELL_BUFFER_SIZE} {length : Nat}
    (hl : HoldsLine buffer length length (e.load k).line) :
    Represents { s with
        historyViewIndex := k, buffer := buffer, bufferLength := length, cursorPos := length }
      (e.load k) :=
  ⟨(h.withView (some k) fun i hi => by rwa [← Option.some.inj hi]).frame, hl⟩

theorem shellSaveCurrentLine_of_represents (h : Represents s e) :
    ∃ saved, shellSaveCurrentLine s = some { s with
        savedBuffer := saved
        savedBufferLength := s.bufferLength
        savedCursorPos := s.cursorPos } ∧
      Represents { s with
        savedBuffer := saved
        savedBufferLength := s.bufferLength
        savedCursorPos := s.cursorPos } { e with saved := e.line } := by
  obtain ⟨saved, hcopy, hholds⟩ :=
    CharArray.strcpy_of_holds h.line.text h.line.text.room s.savedBuffer
  unfold shellSaveCurrentLine
  rw [hcopy]
  exact ⟨saved, rfl, ⟨⟨hholds, h.line.length, h.line.cursor⟩,
    ⟨h.history.count, h.history.next, h.history.ring⟩, h.view, h.viewing⟩, h.line⟩

/-- **Up** goes to the next older entry. -/
theorem shellHistoryPrev_does (h : Represents s e) :
    Does s e.older (Key.historyPrev.effect e) (shellHistoryPrev s) := by
  have hcount := h.history.count
  have hview := h.view
  unfold shellHistoryPrev Editor.older Key.effect
  cases heq : e.view with
  | none =>
    rw [heq] at hview
    change s.historyViewIndex = -1 at hview
    dsimp only
    by_cases hempty : e.entries = []
    · rw [if_pos hempty, if_pos hempty, if_pos (by rw [hcount, hempty]; rfl)]
      exact h.does_nothing
    · have hpos : 0 < e.entries.length := List.length_pos_iff.2 hempty
      obtain ⟨saved, hsave, hrest⟩ := shellSaveCurrentLine_of_represents h
      obtain ⟨buffer, length, hload, hl⟩ := shellLoadViewed_of_remembers hrest.toRemembers hpos
      rw [if_neg hempty, if_neg hempty, if_neg (by omega), if_pos hview, hsave]
      dsimp only [bind, Option.bind]
      dsimp only at hload
      rw [show ((0 : Nat) : Int) = 0 from rfl] at hload
      rw [hload]
      exact (hrest.load hpos hl).does_redraw ⟨rfl, rfl, rfl⟩
  | some k =>
    rw [heq] at hview
    change s.historyViewIndex = (k : Int) at hview
    have hk := h.viewing k heq
    dsimp only
    by_cases holder : k + 1 < e.entries.length
    · obtain ⟨buffer, length, hload, hl⟩ := shellLoadViewed_of_remembers h.toRemembers holder
      rw [if_pos holder, if_pos holder, if_neg (by omega), if_neg (by omega), if_pos (by omega),
        hview]
      dsimp only [bind, Option.bind]
      rw [Int.natCast_add, Int.natCast_one] at hload
      rw [hload]
      exact (h.load holder hl).does_redraw ⟨rfl, rfl, rfl⟩
    · rw [if_neg holder, if_neg holder, if_neg (by omega), if_neg (by omega), if_neg (by omega)]
      exact h.does_nothing

theorem shellClearOnscreenCommand_of_remembers (h : Remembers s e) :
    ∃ s', shellClearOnscreenCommand s = some s' ∧ Remembers s' e ∧
      OnScreen s s' s.lastRenderedLength
        (forRange s.bufferLength (fun _ => terminalBackspace) s.terminal) := by
  obtain ⟨buffer, hstore, -⟩ := store_nul_empty s.buffer
  unfold shellClearOnscreenCommand
  dsimp only [bind, Option.bind, Shell.onTerminal]
  rw [hstore]
  exact ⟨_, rfl, h.frame, rfl, rfl, rfl⟩

/-- What is redrawn on an erased line. -/
theorem Does.erase {s' : Shell} {out : Option Shell} (h : Does s' e .redraw out)
    (hscreen : OnScreen s s' s.lastRenderedLength
      (forRange s.bufferLength (fun _ => terminalBackspace) s.terminal)) : Does s e .erase out := by
  obtain ⟨s₂, hout, hrep, hseen⟩ := h
  refine ⟨s₂, hout, hrep, ?_, hseen.start.trans hscreen.start, hseen.last⟩
  rw [hseen.terminal, hscreen.terminal, hscreen.start, hscreen.last]

theorem shellRestoreSavedLine_of_remembers (h : Remembers s e) :
    Does s { e with line := e.saved, view := none } .redraw
      (shellRestoreSavedLine { s with historyViewIndex := -1 } >>= shellRefreshLine) := by
  have hsaved := h.saved
  obtain ⟨buffer, hcopy, hholds⟩ :=
    CharArray.strcpy_of_holds hsaved.text hsaved.text.room s.buffer
  unfold shellRestoreSavedLine
  dsimp only [bind, Option.bind]
  rw [hcopy]
  have hrest := h.withView none fun _ hk => by cases hk
  exact (hrest.withLine ⟨hholds, hsaved.length, hsaved.cursor⟩).does_redraw ⟨rfl, rfl, rfl⟩

/-- **Down** goes to the next newer entry, or back to the line that was left. -/
theorem shellHistoryNext_does (h : Represents s e) :
    Does s e.newer (Key.historyNext.effect e) (shellHistoryNext s) := by
  have hcount := h.history.count
  have hview := h.view
  unfold shellHistoryNext Editor.newer Key.effect
  cases heq : e.view with
  | none =>
    rw [heq] at hview
    change s.historyViewIndex = -1 at hview
    dsimp only
    rw [if_pos rfl, if_pos (Or.inr hview)]
    exact h.does_nothing
  | some k =>
    rw [heq] at hview
    change s.historyViewIndex = (k : Int) at hview
    have hk := h.viewing k heq
    obtain ⟨s', hclear, hrest, hscreen⟩ := shellClearOnscreenCommand_of_remembers h.toRemembers
    have hview' := hrest.view
    rw [heq] at hview'
    change s'.historyViewIndex = (k : Int) at hview'
    have hviewed : ¬ (s.historyCount = 0 ∨ s.historyViewIndex = -1) := by omega
    rw [if_neg (Option.some_ne_none k), if_neg hviewed, hclear]
    dsimp only [bind, Option.bind]
    cases k with
    | zero =>
      rw [if_neg (by omega)]
      exact (shellRestoreSavedLine_of_remembers hrest).erase hscreen
    | succ k =>
      have hk' : k < e.entries.length := Nat.lt_of_succ_lt hk
      obtain ⟨buffer', length, hload, hl⟩ := shellLoadViewed_of_remembers hrest hk'
      have hnewer : s'.historyViewIndex - 1 = (k : Int) := by omega
      rw [if_pos (by omega), hnewer, hload]
      exact (@Represents.does_redraw _ _ s' (hrest.load hk' hl) ⟨rfl, rfl, rfl⟩).erase hscreen

/-! ## Enter -/

/-- The words of a line can be read. -/
theorem shellWords_of_holds {buffer : CharArray SHELL_BUFFER_SIZE} {text : List U8}
    (h : buffer.Holds text) : ∃ words buffer', shellWords buffer = some (words, buffer') := by
  obtain ⟨buffer', htok, hcut⟩ := shellTokenize_words SHELL_MAX_ARGS h
  refine ⟨((lineWords text).take SHELL_MAX_ARGS).map Word.text, buffer', ?_⟩
  unfold shellWords
  rw [htok]
  dsimp only [bind, Option.bind]
  rw [hcut.mapM]

/-- There is a word exactly if the line is not blank. -/
theorem shellWords_ne_nil_iff {buffer buffer' : CharArray SHELL_BUFFER_SIZE} {text : List U8}
    {words : List (List U8)} (h : buffer.Holds text)
    (hwords : shellWords buffer = some (words, buffer')) :
    words ≠ [] ↔ ∃ c ∈ text, ¬ isBlank c := by
  obtain ⟨⟨argv, input⟩, htok, hrest⟩ := Option.bind_eq_some_iff.1 hwords
  obtain ⟨words', hmap, heq⟩ := Option.bind_eq_some_iff.1 hrest
  obtain ⟨rfl, rfl⟩ := Prod.mk.inj (Option.some.inj heq)
  rw [← shellTokenize_word_iff SHELL_MAX_ARGS h (by decide) htok]
  cases argv with
  | nil =>
    cases hmap
    exact iff_of_false (fun h => h rfl) (fun h => h rfl)
  | cons p argv =>
    rw [List.mapM_cons] at hmap
    obtain ⟨word, -, htail⟩ := Option.bind_eq_some_iff.1 hmap
    obtain ⟨tail, -, hcons⟩ := Option.bind_eq_some_iff.1 htail
    rw [← Option.some.inj hcons]
    exact iff_of_true (List.cons_ne_nil _ _) (List.cons_ne_nil _ _)

/-- Whatever is called, or if nothing is: calls into `terminal.c`. -/
theorem shellDispatch_calls (commands : Commands) (words : List (List U8)) (s : Shell) :
    ∃ calls, shellDispatch commands words s = s.onTerminal (execCalls calls) := by
  unfold shellDispatch
  split
  · exact ⟨_, rfl⟩
  · exact ⟨[.write (argv0 commands.stray words), .write (chars ": No such command found"),
      .write [NEWLINE]], rfl⟩

/-- What Enter does, up to the new prompt: the words are those of the line. -/
theorem shellEnter_of_represents (h : Represents s e) : ∃ words s₁,
    (∃ buffer buffer', s.buffer.store s.bufferLength 0 = some buffer ∧
      buffer.Holds e.line.text ∧ shellWords buffer = some (words, buffer')) ∧
      s₁.terminal = terminalWrite (chars "\n") s.terminal ∧
      ∀ commands, ∃ u, shellEnter commands s = some (shellPrintPrompt u) ∧
        Represents u e.enter ∧ u.terminal = (shellDispatch commands words s₁).terminal := by
  obtain ⟨buffer, hstore, hholds⟩ := CharArray.store_nul_of_holds h.line.text
  have hhistory : HistoryHolds { s with
      buffer := buffer, terminal := terminalWrite (chars "\n") s.terminal } e.entries :=
    ⟨h.history.count, h.history.next, h.history.ring⟩
  obtain ⟨rows, next, count, hadd, hrecord⟩ := shellHistoryAdd_of_holds hhistory hholds
  obtain ⟨saved, hsaved, hempty⟩ := store_nul_empty s.savedBuffer
  obtain ⟨words, buffer', hwords⟩ := shellWords_of_holds hholds
  obtain ⟨s₁, hs₁⟩ : ∃ s₁ : Shell, s₁ = { s with
    buffer := buffer'
    history := rows
    historyNextIndex := next
    historyCount := count
    historyViewIndex := -1
    savedBuffer := saved
    savedBufferLength := 0
    savedCursorPos := 0
    terminal := terminalWrite (chars "\n") s.terminal } := ⟨_, rfl⟩
  rw [← h.line.length] at hstore
  refine ⟨words, s₁, ⟨buffer, buffer', hstore, hholds, hwords⟩, by rw [hs₁],
    fun commands => ?_⟩
  obtain ⟨calls, hcalls⟩ := shellDispatch_calls commands words s₁
  obtain ⟨buffer₂, hstore₂, hempty₂⟩ := store_nul_empty buffer'
  unfold shellEnter
  dsimp only [bind, Option.bind, Shell.onTerminal]
  rw [hstore]
  dsimp only
  rw [hadd]
  dsimp only
  rw [hsaved]
  dsimp only
  rw [hwords]
  dsimp only
  rw [← hs₁, hcalls]
  dsimp only [Shell.onTerminal]
  rw [hs₁]
  dsimp only
  rw [hstore₂]
  refine ⟨_, rfl, ⟨⟨⟨hempty, rfl, rfl⟩, ⟨hrecord.count, hrecord.next, hrecord.ring⟩,
    rfl, fun _ hk => by cases hk⟩, hempty₂, rfl, rfl⟩, rfl⟩

/-- **Enter** records the line and leaves an empty one, behind a new prompt. -/
theorem shellEnter_does (h : Represents s e) (commands : Commands) :
    Does s e.enter .prompt (shellEnter commands s) := by
  obtain ⟨words, s₁, -, hnewline, henters⟩ := shellEnter_of_represents h
  obtain ⟨u, henter, hrep, hu⟩ := henters commands
  obtain ⟨calls, hcalls⟩ := shellDispatch_calls commands words s₁
  rw [henter]
  refine hrep.does_prompt ⟨.write (chars "\n") :: calls, ?_⟩
  rw [hu, hcalls]
  change execCalls calls s₁.terminal = _
  rw [hnewline]
  rfl

/-! ## Runs -/

theorem pressAll_cons_of_exec {event : Event} {s' : Shell} (h : event.exec s = some s')
    (events : List Event) : pressAll (event :: events) s = pressAll events s' := by
  rw [pressAll, h]
  rfl

theorem pressAll_append (events events' : List Event) (s : Shell) :
    pressAll (events ++ events') s = pressAll events s >>= pressAll events' := by
  induction events generalizing s with
  | nil => rfl
  | cons event events ih =>
    rw [List.cons_append, pressAll, pressAll]
    cases event.exec s with
    | none => rfl
    | some s₁ => exact ih s₁

theorem run_of_init {u : Shell} (h : shellInit s = some u) (events : List Event) :
    (shellInit s >>= pressAll events) = pressAll events u := by
  rw [h]
  rfl

/-- A run goes on. -/
theorem run_append {events : List Event} {s' : Shell}
    (h : (shellInit s >>= pressAll events) = some s') (events' : List Event) :
    (shellInit s >>= pressAll (events ++ events')) = pressAll events' s' := by
  obtain ⟨u, hinit, hpress⟩ := Option.bind_eq_some_iff.1 h
  rw [run_of_init hinit, pressAll_append, hpress]
  rfl

theorem shellInit_represents (s : Shell) : ∃ u, shellInit s = some (shellPrintPrompt u) ∧
    Represents u {} ∧ u.terminal = terminalWrite SHELL_WELCOME s.terminal := by
  obtain ⟨buffer, hstore, hholds⟩ := store_nul_empty s.buffer
  obtain ⟨saved, hsaved, hempty⟩ := store_nul_empty s.savedBuffer
  unfold shellInit
  rw [hstore]
  dsimp only [bind, Option.bind]
  rw [hsaved]
  have hhistory : InRing (RowHolds s.history) SHELL_HISTORY_SIZE 0 [] :=
    .empty (by decide : 0 < SHELL_HISTORY_SIZE)
  exact ⟨_, rfl, ⟨⟨⟨hempty, rfl, rfl⟩, ⟨rfl, rfl, hhistory⟩, rfl, fun _ hk => by cases hk⟩,
    hholds, rfl, rfl⟩, rfl⟩

/-- **The step lemma.** -/
theorem Event.exec_represents (event : Event) (h : Represents s e) :
    Does s (event.key.edit e) (event.key.effect e) (event.exec s) := by
  obtain ⟨key, commands⟩ := event
  cases key with
  | char c =>
    change Does s (e.typed c) _ (shellHandleChar commands c s)
    unfold Key.effect Editor.typed shellHandleChar
    dsimp only
    by_cases henter : c.1 = NEWLINE
    · rw [if_pos henter, if_pos henter, if_pos henter]
      exact shellEnter_does h commands
    rw [if_neg henter, if_neg henter, if_neg henter]
    by_cases hback : c.1 = BACKSPACE
    · rw [if_pos hback, if_pos hback, if_pos hback]
      exact (shellBackspace_does h.unviewed).of_screen ⟨rfl, rfl, rfl⟩ rfl
    rw [if_neg hback, if_neg hback, if_neg hback]
    by_cases hfull : e.Full
    · rw [if_pos hfull, if_pos hfull]
      exact (shellInsertChar_overflow h.unviewed c hfull).of_screen ⟨rfl, rfl, rfl⟩ rfl
    · rw [if_neg hfull, if_neg hfull]
      exact (shellInsertChar_does h.unviewed c.2 hfull).of_screen ⟨rfl, rfl, rfl⟩ rfl
  | moveLeft => exact shellMoveLeft_does h
  | moveRight => exact shellMoveRight_does h
  | moveHome => exact h.does_move (l := e.line.home) rfl rfl
  | moveEnd => exact h.does_move (l := e.line.toEnd) rfl h.line.length
  | deleteForward => exact shellDeleteForward_does h
  | historyPrev => exact shellHistoryPrev_does h
  | historyNext => exact shellHistoryNext_does h

/-- **A run of keys** does what it does to the editor. -/
theorem pressAll_represents : ∀ (events : List Event) {s : Shell} {e : Editor}, Represents s e →
    ∃ s', pressAll events s = some s' ∧ Represents s' (editAll events e) := by
  intro events
  induction events with
  | nil => exact fun h => ⟨_, rfl, h⟩
  | cons event events ih =>
    intro s e h
    obtain ⟨s₁, hstep, hrep, -⟩ := event.exec_represents h
    obtain ⟨s₂, hrun, hrep'⟩ := ih hrep
    exact ⟨s₂, (pressAll_cons_of_exec hstep events).trans hrun, hrep'⟩

/-- From `shell_init`, whatever the memory held. -/
theorem shell_represents (s : Shell) (events : List Event) :
    ∃ s', (shellInit s >>= pressAll events) = some s' ∧ Represents s' (editAll events {}) := by
  obtain ⟨u, hinit, hrep, -⟩ := shellInit_represents s
  obtain ⟨s', hrun, hrep'⟩ := pressAll_represents events hrep.printPrompt
  exact ⟨s', (run_of_init hinit events).trans hrun, hrep'⟩

/-- **The line editor.**  After `shell_init` and any keys, whatever commands Enter runs, no
index has left its array, the buffer is a string as long as its counter says, and the
shell stands for the editor after the same keys. -/
theorem shell_refines_editor (s : Shell) (events : List Event) :
    ∃ s', (shellInit s >>= pressAll events) = some s' ∧
      s'.cursorPos ≤ s'.bufferLength ∧ s'.bufferLength ≤ SHELL_BUFFER_SIZE - 1 ∧
      s'.buffer.load s'.bufferLength = some 0 ∧
      (∀ i < s'.bufferLength, ∃ c, s'.buffer.load i = some c ∧ c ≠ 0) ∧
      Represents s' (editAll events {}) := by
  obtain ⟨s', hrun, hrep⟩ := shell_represents s events
  have hline := hrep.line
  have hroom := hline.text.room
  refine ⟨s', hrun, ?_, ?_, ?_, fun i hi => ?_, hrep⟩
  · rw [hline.cursor, hline.length]
    exact (editAll events {}).line.within
  · rw [hline.length]
    omega
  · rw [hline.length]
    exact hline.text.nul
  · rw [hline.length] at hi
    exact ⟨_, hline.text.char hi, hline.text.char_ne hi⟩

end Frewozet
