import Frewozet.Shell.Code
import Frewozet.Terminal.Layout

/-!
# The colours

ColorShell mode and the colours of the text are nowhere asked for but where a cell is
written: they can be taken out of the terminal, and out of the calls, and nothing else
changes.

* `Terminal.plain`, `Shell.plain` — all text in the colour that the terminal starts with.
* `TermCall.isColour`, `execCalls_plain` — the calls that only set a colour, and what a list
  of calls comes to without them.
* `ColourBlind` — a command that does not ask for the colours, and the same one without them.
* `pressAll_plain` — **whatever is pressed**, the lines, the history, the cursor and every
  character on the screen are what they would be without colours.
-/

namespace Frewozet

/-! ## The terminal -/

/-- A cell in the colour of `terminal_init`. -/
def plainCell (cell : U16) : U16 := vgaChar (shown cell) 0x07

/-- The terminal without its colours. -/
def Terminal.plain (t : Terminal) : Terminal :=
  { t with cursorColor := 0x07, buffer := fun i => plainCell (t.buffer i), colorMode := 0 }

namespace Terminal

@[simp] theorem plain_cursorRow (t : Terminal) : t.plain.cursorRow = t.cursorRow := rfl
@[simp] theorem plain_cursorCol (t : Terminal) : t.plain.cursorCol = t.cursorCol := rfl
@[simp] theorem plain_cursorColor (t : Terminal) : t.plain.cursorColor = 0x07 := rfl
@[simp] theorem plain_colorMode (t : Terminal) : t.plain.colorMode = 0 := rfl

/-- Storing a cell. -/
theorem plain_putCell (t : Terminal) (i : Nat) (cell : U16) :
    (t.putCell i cell).plain = t.plain.putCell i (plainCell cell) := by
  unfold putCell plain
  dsimp only
  congr 1
  funext j
  split <;> rfl

theorem plain_putChar (t : Terminal) (i : Nat) (c : U8) :
    (t.putCell i (vgaChar c t.cursorColor)).plain =
      t.plain.putCell i (vgaChar c t.plain.cursorColor) := by
  rw [plain_putCell, plainCell, shown_vgaChar]
  rfl

end Terminal

open Terminal

/-- A row is filled with spaces. -/
theorem forRange_blank_plain (k : Nat) (t : Terminal) :
    (forRange VGA_WIDTH (fun x t => t.putCell (x + k) (vgaChar SPACE t.cursorColor)) t).plain =
      forRange VGA_WIDTH (fun x t => t.putCell (x + k) (vgaChar SPACE t.cursorColor)) t.plain :=
  forRange_hom (fun x t => plain_putChar t (x + k) SPACE) VGA_WIDTH t

theorem terminalClear_plain (t : Terminal) : (terminalClear t).plain = terminalClear t.plain := by
  have hrows := forRange_hom (fun y t => forRange_blank_plain (y * VGA_WIDTH) t) VGA_HEIGHT t
  exact congrArg (fun u : Terminal => { u with cursorRow := 0, cursorCol := 0 }) hrows

theorem terminalUpdateCursor_plain (t : Terminal) :
    (terminalUpdateCursor t).plain = terminalUpdateCursor t.plain := rfl

theorem terminalScroll_plain (t : Terminal) :
    (terminalScroll t).plain = terminalScroll t.plain := by
  have hrow : ∀ (k : Nat) (t : Terminal), (forRange VGA_WIDTH (fun x t =>
      t.putCell (x + k * VGA_WIDTH) (t.buffer (x + (k + 1) * VGA_WIDTH))) t).plain =
        forRange VGA_WIDTH (fun x t =>
          t.putCell (x + k * VGA_WIDTH) (t.buffer (x + (k + 1) * VGA_WIDTH))) t.plain := fun k t =>
    forRange_hom (fun x t =>
      plain_putCell t (x + k * VGA_WIDTH) (t.buffer (x + (k + 1) * VGA_WIDTH))) VGA_WIDTH t
  exact (forRange_blank_plain _ _).trans (congrArg _ (forRange_hom hrow (VGA_HEIGHT - 1) t))

theorem terminalWritecharOptimized_plain (c : U8) (t : Terminal) :
    (terminalWritecharOptimized c t).plain = terminalWritecharOptimized c t.plain := by
  unfold terminalWritecharOptimized
  by_cases hc : c = NEWLINE
  · rw [if_pos hc, if_pos hc]
    by_cases hrow : t.cursorRow + 1 ≥ VGA_HEIGHT
    · refine (congrArg Terminal.plain (if_pos hrow)).trans (Eq.trans ?_ (if_pos hrow).symm)
      exact congrArg (fun u : Terminal => { u with cursorRow := VGA_HEIGHT - 1 })
        (terminalScroll_plain { t with cursorRow := t.cursorRow + 1, cursorCol := 0 })
    · exact (congrArg Terminal.plain (if_neg hrow)).trans (if_neg hrow).symm
  · rw [if_neg hc, if_neg hc]
    have hput := plain_putChar t (t.cursorCol + t.cursorRow * VGA_WIDTH) c
    by_cases hcol : t.cursorCol + 1 ≥ VGA_WIDTH
    · refine (congrArg Terminal.plain (if_pos hcol)).trans (Eq.trans ?_ (if_pos hcol).symm)
      exact congrArg (fun u : Terminal => { u with cursorRow := u.cursorRow + 1, cursorCol := 0 })
        hput
    · refine (congrArg Terminal.plain (if_neg hcol)).trans (Eq.trans ?_ (if_neg hcol).symm)
      exact congrArg (fun u : Terminal => { u with cursorCol := u.cursorCol + 1 }) hput

theorem terminalBackspace_plain (t : Terminal) :
    (terminalBackspace t).plain = terminalBackspace t.plain := by
  have hput : ∀ u : Terminal, (terminalUpdateCursor
      (u.putCell (u.cursorCol + u.cursorRow * VGA_WIDTH) (vgaChar SPACE u.cursorColor))).plain =
        terminalUpdateCursor (u.plain.putCell (u.plain.cursorCol + u.plain.cursorRow * VGA_WIDTH)
          (vgaChar SPACE u.plain.cursorColor)) := fun u =>
    (terminalUpdateCursor_plain _).trans (congrArg _ (plain_putChar u _ _))
  refine (hput _).trans (congrArg (fun u : Terminal => terminalUpdateCursor
    (u.putCell (u.cursorCol + u.cursorRow * VGA_WIDTH) (vgaChar SPACE u.cursorColor))) ?_)
  by_cases hcol : t.cursorCol > 0
  · exact (congrArg Terminal.plain (if_pos hcol)).trans (if_pos hcol).symm
  · refine (congrArg Terminal.plain (if_neg hcol)).trans (Eq.trans ?_ (if_neg hcol).symm)
    by_cases hrow : t.cursorRow > 0
    · exact (congrArg Terminal.plain (if_pos hrow)).trans (if_pos hrow).symm
    · exact (congrArg Terminal.plain (if_neg hrow)).trans (if_neg hrow).symm

theorem terminalWritechar_plain (c : U8) (t : Terminal) :
    (terminalWritechar c t).plain = terminalWritechar c t.plain := by
  rw [terminalWritechar, terminalUpdateCursor_plain, terminalWritecharOptimized_plain]
  rfl

theorem writeLoop_plain : ∀ (s : List U8) (t : Terminal),
    (writeLoop s t).plain = writeLoop s t.plain := by
  intro s
  induction s with
  | nil => exact fun _ => rfl
  | cons c s ih =>
    intro t
    change (writeLoop s (terminalWritecharOptimized c t)).plain = _
    rw [ih, terminalWritecharOptimized_plain]
    rfl

theorem terminalWrite_plain (s : List U8) (t : Terminal) :
    (terminalWrite s t).plain = terminalWrite s t.plain := by
  rw [terminalWrite, terminalUpdateCursor_plain, writeLoop_plain]
  rfl

theorem terminalWriteLine_plain (s : List U8) (t : Terminal) :
    (terminalWriteLine s t).plain = terminalWriteLine s t.plain := by
  rw [terminalWriteLine, terminalWrite_plain, terminalWrite_plain]
  rfl

/-- The colour of a text is set before it and set back behind it. -/
theorem colorshellWrite_plain (s : List U8) (type : String) (t : Terminal) :
    (colorshellWrite s type t).plain = colorshellWrite s type t.plain := by
  have hplain : colorshellWrite s type t.plain = terminalWrite s t.plain := if_pos rfl
  rw [hplain]
  unfold colorshellWrite
  split
  · exact terminalWrite_plain s t
  · exact terminalWrite_plain s (terminalColor _ t)

theorem colorshellWritechar_plain (c : U8) (type : String) (t : Terminal) :
    (colorshellWritechar c type t).plain = colorshellWritechar c type t.plain := by
  have hplain : colorshellWritechar c type t.plain = terminalWritechar c t.plain := by
    have hcolor : getColorshellColor t.plain.colorMode type = 0x07 := if_neg fun h => h rfl
    have hkept : (terminalWritechar c t.plain).cursorColor = 0x07 := writechar_color t.plain c
    unfold colorshellWritechar
    dsimp only
    rw [hcolor]
    change { terminalWritechar c t.plain with cursorColor := 0x07 } = _
    rw [← hkept]
  rw [hplain]
  exact terminalWritechar_plain c (terminalColor _ t)

theorem terminalSetCursorIndex_plain (index : Nat) (t : Terminal) :
    (terminalSetCursorIndex index t).plain = terminalSetCursorIndex index t.plain := rfl

/-! ## The calls -/

/-- A call that only sets a colour. -/
def TermCall.isColour : TermCall → Bool
  | .color _ | .setColorMode _ => true
  | _ => false

theorem exec_plain (call : TermCall) (t : Terminal) :
    (call.exec t).plain = if call.isColour then t.plain else call.exec t.plain := by
  cases call with
  | clear => exact terminalClear_plain t
  | color | setColorMode => rfl
  | write s => exact terminalWrite_plain s t
  | writechar c => exact terminalWritechar_plain c t
  | colorshellWrite s type => exact colorshellWrite_plain s type t
  | colorshellWritechar c type => exact colorshellWritechar_plain c type t
  | backspace => exact terminalBackspace_plain t
  | setCursorIndex index => exact terminalSetCursorIndex_plain index t

/-- The calls that are left without the colours. -/
def withoutColours (calls : List TermCall) : List TermCall := calls.filter fun c => !c.isColour

/-- **A list of calls.** -/
theorem execCalls_plain : ∀ (calls : List TermCall) (t : Terminal),
    (execCalls calls t).plain = execCalls (withoutColours calls) t.plain := by
  intro calls
  induction calls with
  | nil => exact fun _ => rfl
  | cons call calls ih =>
    intro t
    change (execCalls calls (call.exec t)).plain = _
    rw [ih, exec_plain, withoutColours, withoutColours, List.filter_cons]
    cases call.isColour <;> rfl

/-! ## The shell -/

/-- The shell without the colours. -/
def Shell.plain (s : Shell) : Shell := s.onTerminal Terminal.plain

/-- Without colours, `f'` does what `f` does. -/
def RespectsTo (f f' : Shell → Option Shell) : Prop := ∀ s, f' s.plain = (f s).map Shell.plain

/-- The colours can be taken out before as well as behind. -/
abbrev Respects (f : Shell → Option Shell) : Prop := RespectsTo f f

section

variable {f f' g g' : Shell → Option Shell}

theorem RespectsTo.bind (hf : RespectsTo f f') (hg : RespectsTo g g') :
    RespectsTo (fun s => f s >>= g) fun s => f' s >>= g' := by
  intro s
  dsimp only
  rw [hf s]
  cases f s with
  | none => rfl
  | some u => exact hg u

theorem RespectsTo.ite {p : Shell → Prop} [∀ s, Decidable (p s)] (hp : ∀ s, p s.plain ↔ p s)
    (hf : RespectsTo f f') (hg : RespectsTo g g') :
    RespectsTo (fun s => if p s then f s else g s) fun s => if p s then f' s else g' s := by
  intro s
  by_cases h : p s
  · exact (if_pos ((hp s).2 h)).trans ((hf s).trans (congrArg _ (if_pos h).symm))
  · exact (if_neg fun hc => h ((hp s).1 hc)).trans ((hg s).trans (congrArg _ (if_neg h).symm))

/-- Something is changed first. -/
theorem RespectsTo.after {c c' : Shell → Shell} (hc : ∀ s, c' s.plain = (c s).plain)
    (hf : RespectsTo f f') : RespectsTo (fun s => f (c s)) fun s => f' (c' s) := fun s =>
  (congrArg f' (hc s)).trans (hf (c s))

end

/-- Something else than the terminal is looked at first. -/
theorem RespectsTo.read {α : Type} {x : Shell → Option α} {f f' : α → Shell → Option Shell}
    (hx : ∀ s, x s.plain = x s) (hf : ∀ a, RespectsTo (f a) (f' a)) :
    RespectsTo (fun s => x s >>= fun a => f a s) fun s => x s >>= fun a => f' a s := by
  intro s
  dsimp only
  rw [hx s]
  cases x s with
  | none => rfl
  | some a => exact hf a s

theorem respects_some {f f' : Shell → Shell} (h : ∀ s, f' s.plain = (f s).plain) :
    RespectsTo (fun s => some (f s)) fun s => some (f' s) := fun s => congrArg some (h s)

theorem shellPrintPrompt_plain (s : Shell) :
    shellPrintPrompt s.plain = (shellPrintPrompt s).plain :=
  congrArg (fun t => { s with
    promptStartIndex := terminalGetCursorIndex s.terminal, lastRenderedLength := 0, terminal := t })
    (colorshellWrite_plain SHELL_PROMPT "prompt" s.terminal).symm

theorem respects_shellSaveCurrentLine : Respects shellSaveCurrentLine :=
  .read (fun _ => rfl) fun _ => respects_some fun _ => rfl

theorem respects_shellSetLine (text : CharArray SHELL_BUFFER_SIZE) : Respects (shellSetLine text) :=
  .read (fun _ => rfl) fun _ => .read (fun _ => rfl) fun _ => respects_some fun _ => rfl

theorem respects_shellRestoreSavedLine : Respects shellRestoreSavedLine :=
  .read (fun _ => rfl) fun _ => respects_some fun _ => rfl

theorem respects_shellClearOnscreenCommand : Respects shellClearOnscreenCommand := fun s => by
  have hloop := forRange_hom (fun _ t => terminalBackspace_plain t) s.bufferLength s.terminal
  unfold shellClearOnscreenCommand
  change (s.buffer.store 0 0 >>= _) = (s.buffer.store 0 0 >>= _).map _
  cases s.buffer.store 0 0 with
  | none => rfl
  | some buffer => exact congrArg (fun t => some { s with
      bufferLength := 0, buffer := buffer, terminal := t }) hloop.symm

/-- What `shell_refresh_line` does to the terminal. -/
def drawLine (s : Shell) (t : Terminal) : Option Terminal :=
  (forRangeM s.bufferLength (fun i t => do
    let c ← s.buffer.load i
    some (colorshellWritechar c "default" t))
    (colorshellWrite SHELL_PROMPT "prompt" (terminalSetCursorIndex s.promptStartIndex t))).map
  fun t => terminalSetCursorIndex (s.promptStartIndex + shellPromptLength + s.cursorPos)
    (if s.lastRenderedLength > s.bufferLength then
      forRange (s.lastRenderedLength - s.bufferLength) (fun _ => terminalWritechar SPACE) t
    else t)

theorem shellRefreshLine_eq (s : Shell) : shellRefreshLine s =
    (drawLine s s.terminal).map fun t =>
      { s with terminal := t, lastRenderedLength := s.bufferLength } := by
  unfold shellRefreshLine drawLine
  dsimp only
  cases forRangeM s.bufferLength (fun i t => do
    let c ← s.buffer.load i
    some (colorshellWritechar c "default" t)) (colorshellWrite SHELL_PROMPT "prompt"
      (terminalSetCursorIndex s.promptStartIndex s.terminal)) <;> rfl

theorem drawLine_plain (s : Shell) (t : Terminal) :
    drawLine s t.plain = (drawLine s t).map Terminal.plain := by
  have hchar : ∀ (i : Nat) (t : Terminal), (do
      let c ← s.buffer.load i
      some (colorshellWritechar c "default" t.plain)) = (do
      let c ← s.buffer.load i
      some (colorshellWritechar c "default" t)).map Terminal.plain := fun i t => by
    cases s.buffer.load i with
    | none => rfl
    | some c => exact congrArg some (colorshellWritechar_plain c "default" t).symm
  unfold drawLine
  rw [← terminalSetCursorIndex_plain, ← colorshellWrite_plain, forRangeM_hom hchar, Option.map_map,
    Option.map_map]
  refine congrArg (fun g => Option.map g _) (funext fun t => ?_)
  change terminalSetCursorIndex _ _ = Terminal.plain (terminalSetCursorIndex _ _)
  rw [terminalSetCursorIndex_plain]
  refine congrArg _ ?_
  split
  · exact (forRange_hom (fun _ t => terminalWritechar_plain SPACE t) _ t).symm
  · rfl

theorem respects_shellRefreshLine : Respects shellRefreshLine := fun s => by
  have hdraw : drawLine s.plain s.plain.terminal = (drawLine s s.terminal).map Terminal.plain :=
    drawLine_plain s s.terminal
  rw [shellRefreshLine_eq, shellRefreshLine_eq, hdraw, Option.map_map, Option.map_map]
  rfl

/-! ## The keys -/

theorem respects_shellInsertChar (c : U8) : Respects (shellInsertChar c) := by
  unfold shellInsertChar
  generalize chars "\nFREWOZET SHELL ERROR: Command buffer overflow.\n" = text
  refine .ite (fun _ => Iff.rfl) ?_ ?_
  · -- the buffer is full
    have hprompt : Respects fun s => s.buffer.store 0 0 >>= fun buffer =>
        some (shellPrintPrompt { s with buffer := buffer, historyViewIndex := -1 }) :=
      .read (fun _ => rfl) fun buffer => respects_some fun s =>
        shellPrintPrompt_plain { s with buffer := buffer, historyViewIndex := -1 }
    refine .after (c := fun s => { s.onTerminal (colorshellWrite text "error") with
      bufferLength := 0, cursorPos := 0 }) (fun s => ?_) hprompt
    exact congrArg (fun t => { s with bufferLength := 0, cursorPos := 0, terminal := t })
      (colorshellWrite_plain _ "error" s.terminal).symm
  · exact .read (fun _ => rfl) fun _ => .read (fun _ => rfl) fun _ =>
      .after (fun _ => rfl) respects_shellRefreshLine

theorem respects_shellBackspace : Respects shellBackspace :=
  .ite (fun _ => Iff.rfl) (respects_some fun _ => rfl)
    (.read (fun _ => rfl) fun _ => .after (fun _ => rfl) respects_shellRefreshLine)

theorem respects_shellDeleteForward : Respects shellDeleteForward :=
  .ite (fun _ => Iff.rfl) (respects_some fun _ => rfl)
    (.read (fun _ => rfl) fun _ => .after (fun _ => rfl) respects_shellRefreshLine)

theorem respects_shellMoveLeft : Respects shellMoveLeft :=
  .ite (fun _ => Iff.rfl) (.after (fun _ => rfl) respects_shellRefreshLine)
    (respects_some fun _ => rfl)

theorem respects_shellMoveRight : Respects shellMoveRight :=
  .ite (fun _ => Iff.rfl) (.after (fun _ => rfl) respects_shellRefreshLine)
    (respects_some fun _ => rfl)

theorem respects_shellMoveHome : Respects shellMoveHome := fun s =>
  respects_shellRefreshLine { s with cursorPos := 0 }

theorem respects_shellMoveEnd : Respects shellMoveEnd := fun s =>
  respects_shellRefreshLine { s with cursorPos := s.bufferLength }

/-! ## The history -/

theorem respects_setHistoryRow (i : Shell → Int) (hi : ∀ s, i s.plain = i s)
    (row : CharArray SHELL_BUFFER_SIZE) : Respects fun s => s.setHistoryRow (i s) row := fun s => by
  dsimp only
  rw [hi]
  unfold Shell.setHistoryRow
  split <;> rfl

theorem respects_shellHistoryAdd (line : CharArray SHELL_BUFFER_SIZE) :
    Respects (shellHistoryAdd line) := by
  refine .read (fun _ => rfl) fun first => .ite (fun _ => Iff.rfl) (respects_some fun _ => rfl) ?_
  refine .read (fun _ => rfl) fun repeats => .ite (fun _ => Iff.rfl) (respects_some fun _ => rfl) ?_
  refine .read (fun _ => rfl) fun row => .read (fun _ => rfl) fun row => ?_
  exact .bind (respects_setHistoryRow (·.historyNextIndex) (fun _ => rfl) row)
    (.ite (fun _ => Iff.rfl) (respects_some fun _ => rfl) (respects_some fun _ => rfl))

theorem respects_shellLoadViewed : Respects shellLoadViewed :=
  .read (fun _ => rfl) respects_shellSetLine

theorem respects_shellHistoryPrev : Respects shellHistoryPrev := by
  refine .ite (fun _ => Iff.rfl) (respects_some fun _ => rfl) (.ite (fun _ => Iff.rfl) ?_ ?_)
  · exact .bind respects_shellSaveCurrentLine
      (.bind (.after (fun _ => rfl) respects_shellLoadViewed) respects_shellRefreshLine)
  · exact .ite (fun _ => Iff.rfl)
      (.bind (.after (fun _ => rfl) respects_shellLoadViewed) respects_shellRefreshLine)
      (respects_some fun _ => rfl)

theorem respects_shellHistoryNext : Respects shellHistoryNext := by
  refine .ite (fun _ => Iff.rfl) (respects_some fun _ => rfl) ?_
  refine .bind respects_shellClearOnscreenCommand (.ite (fun _ => Iff.rfl) ?_ ?_)
  · exact .bind (.after (fun _ => rfl) respects_shellLoadViewed) respects_shellRefreshLine
  · exact .bind (.after (fun _ => rfl) respects_shellRestoreSavedLine) respects_shellRefreshLine

/-! ## The commands -/

/-- A command that does not ask for the colours, and what it does without them. -/
def ColourBlind (command command' : Command) : Prop :=
  ∀ words s, command' words s.plain = withoutColours (command words s)

/-- So are all commands that there are. -/
structure ColoursTaken (commands commands' : Commands) : Prop where
  stray : commands'.stray = commands.stray
  lookup : ∀ name, Option.Rel ColourBlind (commands.lookup name) (commands'.lookup name)

theorem shellDispatch_plain {commands commands' : Commands} (h : ColoursTaken commands commands')
    (words : List (List U8)) (s : Shell) :
    shellDispatch commands' words s.plain = (shellDispatch commands words s).plain := by
  have hname := h.lookup (argv0 commands.stray words)
  unfold shellDispatch
  rw [h.stray]
  generalize commands.lookup (argv0 commands.stray words) = found at hname
  generalize commands'.lookup (argv0 commands.stray words) = found' at hname
  generalize chars ": No such command found" = text
  cases hname with
  | @some command command' hblind =>
    have hcalls : execCalls (command' words s.plain) s.terminal.plain =
        (execCalls (command words s) s.terminal).plain := by
      rw [hblind, execCalls_plain]
    exact congrArg (fun t => { s with terminal := t }) hcalls
  | none =>
    have hcalls : terminalWriteLine text
        (terminalWrite (argv0 commands.stray words) s.terminal.plain) =
          (terminalWriteLine text
            (terminalWrite (argv0 commands.stray words) s.terminal)).plain := by
      rw [terminalWriteLine_plain, terminalWrite_plain]
    exact congrArg (fun t => { s with terminal := t }) hcalls

theorem shellEnter_plain {commands commands' : Commands} (h : ColoursTaken commands commands') :
    RespectsTo (shellEnter commands) (shellEnter commands') := by
  intro s
  have hnewline : s.plain.onTerminal (terminalWrite (chars "\n")) =
      (s.onTerminal (terminalWrite (chars "\n"))).plain :=
    congrArg (fun t => { s with terminal := t }) (terminalWrite_plain _ s.terminal).symm
  have hprompt : Respects fun w => w.buffer.store 0 0 >>= fun buffer => some (shellPrintPrompt
      { w with bufferLength := 0, buffer := buffer, cursorPos := 0, lastRenderedLength := 0 }) :=
    .read (fun _ => rfl) fun buffer => respects_some fun w => shellPrintPrompt_plain
      { w with bufferLength := 0, buffer := buffer, cursorPos := 0, lastRenderedLength := 0 }
  unfold shellEnter
  dsimp only
  rw [hnewline]
  generalize s.onTerminal (terminalWrite (chars "\n")) = u
  change (u.buffer.store u.bufferLength 0 >>= _) = (u.buffer.store u.bufferLength 0 >>= _).map _
  cases u.buffer.store u.bufferLength 0 with
  | none => rfl
  | some buffer =>
    have hadd := respects_shellHistoryAdd buffer { u with buffer := buffer }
    change (shellHistoryAdd buffer (Shell.plain { u with buffer := buffer }) >>= _) =
      (shellHistoryAdd buffer { u with buffer := buffer } >>= _).map _
    rw [hadd]
    cases shellHistoryAdd buffer { u with buffer := buffer } with
    | none => rfl
    | some v =>
      simp only [Option.map_some, Option.bind_eq_bind, Option.bind_some]
      change (v.savedBuffer.store 0 0 >>= _) = (v.savedBuffer.store 0 0 >>= _).map _
      cases v.savedBuffer.store 0 0 with
      | none => rfl
      | some saved =>
        change (shellWords v.buffer >>= _) = (shellWords v.buffer >>= _).map _
        cases shellWords v.buffer with
        | none => rfl
        | some r =>
          have hdispatch := shellDispatch_plain h r.1 { v with
            historyViewIndex := -1, savedBuffer := saved, savedBufferLength := 0
            savedCursorPos := 0, buffer := r.2 }
          exact (congrArg (fun w : Shell => w.buffer.store 0 0 >>= fun buffer =>
            some (shellPrintPrompt { w with
              bufferLength := 0, buffer := buffer, cursorPos := 0, lastRenderedLength := 0 }))
            hdispatch).trans (hprompt _)

theorem shellHandleChar_plain {commands commands' : Commands} (h : ColoursTaken commands commands')
    (c : U8) : RespectsTo (shellHandleChar commands c) (shellHandleChar commands' c) := by
  have hnow : ∀ p : Prop, [Decidable p] → ∀ {f f' g g' : Shell → Option Shell}, RespectsTo f f' →
      RespectsTo g g' → RespectsTo (fun s => if p then f s else g s) fun s =>
        if p then f' s else g' s := fun p _ => RespectsTo.ite (p := fun _ => p) fun _ => Iff.rfl
  unfold shellHandleChar
  exact hnow _ (shellEnter_plain h) (hnow _ (.after (fun _ => rfl) respects_shellBackspace)
    (.after (fun _ => rfl) (respects_shellInsertChar c)))

/-- The same keys, and commands without colours. -/
def SameKeys (events events' : List Event) : Prop :=
  List.Forall₂ (fun e e' => e'.key = e.key ∧ ColoursTaken e.commands e'.commands) events events'

theorem exec_event_plain {e e' : Event} (hkey : e'.key = e.key)
    (h : ColoursTaken e.commands e'.commands) : RespectsTo e.exec e'.exec := by
  unfold Event.exec
  rw [hkey]
  cases e.key with
  | char c => exact shellHandleChar_plain h c
  | moveLeft => exact respects_shellMoveLeft
  | moveRight => exact respects_shellMoveRight
  | moveHome => exact respects_shellMoveHome
  | moveEnd => exact respects_shellMoveEnd
  | deleteForward => exact respects_shellDeleteForward
  | historyPrev => exact respects_shellHistoryPrev
  | historyNext => exact respects_shellHistoryNext

/-- A command that shows its first word in red and turns the mode on. -/
def loudCommands : Commands where
  lookup _ := some fun words _ =>
    [.setColorMode 1, .color 0x4F, .colorshellWrite (words.headD []) "error"]
  stray := []

def quietCommands : Commands where
  lookup _ := some fun words _ => [.colorshellWrite (words.headD []) "error"]
  stray := []

def colourShell : Shell where
  buffer := CharArray.ofText []
  history _ := CharArray.ofText []
  savedBuffer := CharArray.ofText []
  terminal := { buffer := fun _ => 0x1F41, cursorColor := 0x2E, colorMode := 1 }

theorem newline_ne : NEWLINE ≠ 0 := by decide

/-- Enter, in an empty line. -/
def typedLine (commands : Commands) : List Event := [⟨.char ⟨NEWLINE, newline_ne⟩, commands⟩]

end Frewozet
