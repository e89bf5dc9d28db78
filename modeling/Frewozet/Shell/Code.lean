import Frewozet.Shell.Parser

/-!
# `shell.c`

The line editor of the shell, its history and its prompt.

* `Shell` — the variables of the file and the screen it writes to.
* `shellInsertChar`, `shellBackspace`, `shellHistoryAdd`, `shellHistoryPrev`,
  `shellRefreshLine`, … — the code.  A result `none` means that an index left its array.
* `Commands` — what `shell_handle_char` calls when Enter is pressed.
* `Key`, `Event`, `pressAll` — the calls the keyboard makes, and their runs.

The `int`s of the history are integers, `%` goes towards zero.
-/

namespace Frewozet

def SHELL_BUFFER_SIZE : Nat := 128
def SHELL_MAX_ARGS : Nat := 16
def SHELL_HISTORY_SIZE : Nat := 16
def SHELL_PROMPT : List U8 := chars "Frewozet >>> "

def BACKSPACE : U8 := 0x08

structure Shell where
  buffer : CharArray SHELL_BUFFER_SIZE
  bufferLength : Nat := 0
  cursorPos : Nat := 0
  history : Fin SHELL_HISTORY_SIZE → CharArray SHELL_BUFFER_SIZE
  historyCount : Int := 0
  historyNextIndex : Int := 0
  historyViewIndex : Int := -1
  savedBuffer : CharArray SHELL_BUFFER_SIZE
  savedBufferLength : Nat := 0
  savedCursorPos : Nat := 0
  promptStartIndex : Nat := 0
  lastRenderedLength : Nat := 0
  terminal : Terminal

namespace Shell

/-- Call into `terminal.c`. -/
def onTerminal (s : Shell) (f : Terminal → Terminal) : Shell := { s with terminal := f s.terminal }

/-- `shell_history[i]`. -/
def historyRow (s : Shell) (i : Int) : Option (CharArray SHELL_BUFFER_SIZE) :=
  if h : i.toNat < SHELL_HISTORY_SIZE ∧ 0 ≤ i then some (s.history ⟨i.toNat, h.1⟩) else none

/-- Write into it. -/
def setHistoryRow (s : Shell) (i : Int) (row : CharArray SHELL_BUFFER_SIZE) : Option Shell :=
  if h : i.toNat < SHELL_HISTORY_SIZE ∧ 0 ≤ i then
    some { s with history := Function.update s.history ⟨i.toNat, h.1⟩ row }
  else none

end Shell

/-! ## The prompt and the line -/

/-- `shell_prompt_length`. -/
def shellPromptLength : Nat := (cstr SHELL_PROMPT).length

/-- `shell_print_prompt`. -/
def shellPrintPrompt (s : Shell) : Shell :=
  let s := { s with promptStartIndex := terminalGetCursorIndex s.terminal }
  let s := s.onTerminal (colorshellWrite SHELL_PROMPT "prompt")
  { s with lastRenderedLength := 0 }

/-- `shell_save_current_line`. -/
def shellSaveCurrentLine (s : Shell) : Option Shell := do
  let saved ← s.savedBuffer.strcpy s.buffer
  some { s with
    savedBuffer := saved
    savedBufferLength := s.bufferLength
    savedCursorPos := s.cursorPos }

/-- `shell_set_line`. -/
def shellSetLine (text : CharArray SHELL_BUFFER_SIZE) (s : Shell) : Option Shell := do
  let buffer ← s.buffer.strcpy text
  let length ← buffer.strlen
  some { s with buffer := buffer, bufferLength := length, cursorPos := length }

/-- `shell_restore_saved_line`. -/
def shellRestoreSavedLine (s : Shell) : Option Shell := do
  let buffer ← s.buffer.strcpy s.savedBuffer
  some { s with
    buffer := buffer
    bufferLength := s.savedBufferLength
    cursorPos := s.savedCursorPos }

/-- `shell_clear_onscreen_command`. -/
def shellClearOnscreenCommand (s : Shell) : Option Shell := do
  let s := s.onTerminal (forRange s.bufferLength fun _ => terminalBackspace)
  let s := { s with bufferLength := 0 }
  let buffer ← s.buffer.store 0 0
  some { s with buffer := buffer }

/-- `shell_refresh_line`. -/
def shellRefreshLine (s : Shell) : Option Shell := do
  let t := terminalSetCursorIndex s.promptStartIndex s.terminal
  let t := colorshellWrite SHELL_PROMPT "prompt" t
  let t ← forRangeM s.bufferLength (fun i t => do
    let c ← s.buffer.load i
    some (colorshellWritechar c "default" t)) t
  let t :=
    if s.lastRenderedLength > s.bufferLength then
      forRange (s.lastRenderedLength - s.bufferLength) (fun _ => terminalWritechar SPACE) t
    else t
  let t := terminalSetCursorIndex (s.promptStartIndex + shellPromptLength + s.cursorPos) t
  some { s with terminal := t, lastRenderedLength := s.bufferLength }

/-! ## Editing -/

/-- `shell_insert_char`. -/
def shellInsertChar (c : U8) (s : Shell) : Option Shell :=
  if s.bufferLength ≥ SHELL_BUFFER_SIZE - 1 then do
    let s := s.onTerminal
      (colorshellWrite (chars "\nFREWOZET SHELL ERROR: Command buffer overflow.\n") "error")
    let s := { s with bufferLength := 0, cursorPos := 0 }
    let buffer ← s.buffer.store 0 0
    let s := { s with buffer := buffer, historyViewIndex := -1 }
    some (shellPrintPrompt s)
  else do
    let buffer ← s.buffer.shiftUp s.cursorPos (s.bufferLength + 1)
    let buffer ← buffer.store s.cursorPos c
    shellRefreshLine { s with
      buffer := buffer
      bufferLength := s.bufferLength + 1
      cursorPos := s.cursorPos + 1 }

/-- `shell_backspace`. -/
def shellBackspace (s : Shell) : Option Shell :=
  if s.cursorPos = 0 ∨ s.bufferLength = 0 then some s
  else do
    let buffer ← s.buffer.shiftDown (s.cursorPos - 1) s.bufferLength
    shellRefreshLine { s with
      buffer := buffer
      cursorPos := s.cursorPos - 1
      bufferLength := s.bufferLength - 1 }

/-- `shell_delete_forward`. -/
def shellDeleteForward (s : Shell) : Option Shell :=
  if s.cursorPos ≥ s.bufferLength then some s
  else do
    let buffer ← s.buffer.shiftDown s.cursorPos s.bufferLength
    shellRefreshLine { s with buffer := buffer, bufferLength := s.bufferLength - 1 }

/-- `shell_move_left`. -/
def shellMoveLeft (s : Shell) : Option Shell :=
  if s.cursorPos > 0 then shellRefreshLine { s with cursorPos := s.cursorPos - 1 } else some s

/-- `shell_move_right`. -/
def shellMoveRight (s : Shell) : Option Shell :=
  if s.cursorPos < s.bufferLength then shellRefreshLine { s with cursorPos := s.cursorPos + 1 }
  else some s

/-- `shell_move_home`. -/
def shellMoveHome (s : Shell) : Option Shell := shellRefreshLine { s with cursorPos := 0 }

/-- `shell_move_end`. -/
def shellMoveEnd (s : Shell) : Option Shell :=
  shellRefreshLine { s with cursorPos := s.bufferLength }

/-! ## The history -/

/-- The check of `shell_history_add`: the line is the newest entry. -/
def shellHistoryRepeats (line : CharArray SHELL_BUFFER_SIZE) (s : Shell) : Option Bool :=
  if s.historyCount > 0 then do
    let newest := (s.historyNextIndex - 1 + SHELL_HISTORY_SIZE).tmod SHELL_HISTORY_SIZE
    let row ← s.historyRow newest
    let order ← row.strcmp line
    some (decide (order = 0))
  else some false

/-- `shell_history_add`. -/
def shellHistoryAdd (line : CharArray SHELL_BUFFER_SIZE) (s : Shell) : Option Shell := do
  let first ← line.load 0
  if first = 0 then some s else
    let repeats ← shellHistoryRepeats line s
    if repeats then some s else
      let row ← s.historyRow s.historyNextIndex
      let row ← row.strcpy line
      let s ← s.setHistoryRow s.historyNextIndex row
      let s := { s with historyNextIndex := (s.historyNextIndex + 1).tmod SHELL_HISTORY_SIZE }
      if s.historyCount < (SHELL_HISTORY_SIZE : Int) then
        some { s with historyCount := s.historyCount + 1 }
      else some s

/-- `shell_history_physical_index`. -/
def shellHistoryPhysicalIndex (s : Shell) (historyOffsetFromNewest : Int) : Int :=
  (s.historyNextIndex - 1 - historyOffsetFromNewest + SHELL_HISTORY_SIZE).tmod SHELL_HISTORY_SIZE

/-- Load the entry that is viewed. -/
def shellLoadViewed (s : Shell) : Option Shell := do
  let row ← s.historyRow (shellHistoryPhysicalIndex s s.historyViewIndex)
  shellSetLine row s

/-- `shell_history_prev`. -/
def shellHistoryPrev (s : Shell) : Option Shell :=
  if s.historyCount = 0 then some s
  else if s.historyViewIndex = -1 then do
    let s ← shellSaveCurrentLine s
    let s ← shellLoadViewed { s with historyViewIndex := 0 }
    shellRefreshLine s
  else if s.historyViewIndex < s.historyCount - 1 then do
    let s ← shellLoadViewed { s with historyViewIndex := s.historyViewIndex + 1 }
    shellRefreshLine s
  else some s

/-- `shell_history_next`. -/
def shellHistoryNext (s : Shell) : Option Shell :=
  if s.historyCount = 0 ∨ s.historyViewIndex = -1 then some s
  else do
    let s ← shellClearOnscreenCommand s
    let s ← if s.historyViewIndex > 0 then
        shellLoadViewed { s with historyViewIndex := s.historyViewIndex - 1 }
      else shellRestoreSavedLine { s with historyViewIndex := -1 }
    shellRefreshLine s

/-- One round of the loop of `shell_history_print`. -/
def shellHistoryPrintEntry (start : Int) (i : Nat) (s : Shell) : Option Shell := do
  let row ← s.historyRow ((start + i).tmod SHELL_HISTORY_SIZE)
  let entry ← row.stringAt 0
  let s := s.onTerminal (terminalWriteDecimal (BitVec.ofInt 32 (-(s.historyCount - i))))
  let s := s.onTerminal (terminalWrite (chars ": "))
  let s := s.onTerminal (terminalWrite entry)
  some (s.onTerminal (terminalWrite (chars "\n")))

/-- `shell_history_print`. -/
def shellHistoryPrint (s : Shell) : Option Shell :=
  if s.historyCount = 0 then some (s.onTerminal (colorshellWrite (chars "No history.\n") "error"))
  else
    let start :=
      (s.historyNextIndex - s.historyCount + SHELL_HISTORY_SIZE).tmod SHELL_HISTORY_SIZE
    let s := s.onTerminal (colorshellWrite
      (chars "Frewozet Shell command history for 16 most recent commands:\n") "info")
    let s := s.onTerminal (colorshellWrite
      (chars "Use Up/Down arrow keys to navigate through history.\n") "prompt")
    forRangeM s.historyCount.toNat (shellHistoryPrintEntry start) s

/-! ## Starting and pressing keys -/

/-- What `shell_init` writes. -/
def SHELL_WELCOME : List U8 :=
  chars "\nWelcome to the Frewozet Shell!\nType 'help' for a list of commands.\n\n"

/-- `shell_init`, without the table of commands. -/
def shellInit (s : Shell) : Option Shell := do
  let buffer ← s.buffer.store 0 0
  let saved ← s.savedBuffer.store 0 0
  let s := { s with
    bufferLength := 0
    buffer := buffer
    cursorPos := 0
    historyCount := 0
    historyNextIndex := 0
    historyViewIndex := -1
    savedBufferLength := 0
    savedCursorPos := 0
    savedBuffer := saved }
  let s := s.onTerminal (terminalWrite SHELL_WELCOME)
  some (shellPrintPrompt s)

/-- A command: the calls it makes into `terminal.c`, given its words and the shell as it
finds it. -/
abbrev Command := List (List U8) → Shell → List TermCall

/-- What Enter finds outside of this file. -/
structure Commands where
  /-- `lookup_command`. -/
  lookup : List U8 → Option Command
  /-- The string behind an `argv[0]` that was not stored. -/
  stray : List U8

/-- `shell_tokenize`, and the strings in `argv`. -/
def shellWords (input : CharArray SHELL_BUFFER_SIZE) :
    Option (List (List U8) × CharArray SHELL_BUFFER_SIZE) := do
  let (argv, input) ← shellTokenize input SHELL_MAX_ARGS
  let words ← argv.mapM input.stringAt
  some (words, input)

/-- `argv[0]`, which is read whatever `argc` is. -/
def argv0 (stray : List U8) (words : List (List U8)) : List U8 := words.headD stray

/-- `lookup_command(argv[0])` and what follows it. -/
def shellDispatch (commands : Commands) (words : List (List U8)) (s : Shell) : Shell :=
  match commands.lookup (argv0 commands.stray words) with
  | some command => s.onTerminal (execCalls (command words s))
  | none => s.onTerminal fun t => terminalWriteLine (chars ": No such command found")
      (terminalWrite (argv0 commands.stray words) t)

/-- The branch of `shell_handle_char` for Enter. -/
def shellEnter (commands : Commands) (s : Shell) : Option Shell := do
  let s := s.onTerminal (terminalWrite (chars "\n"))
  let buffer ← s.buffer.store s.bufferLength 0
  let s := { s with buffer := buffer }
  let s ← shellHistoryAdd s.buffer s
  let saved ← s.savedBuffer.store 0 0
  let s := { s with
    historyViewIndex := -1
    savedBuffer := saved
    savedBufferLength := 0
    savedCursorPos := 0 }
  let (words, buffer) ← shellWords s.buffer
  let s := shellDispatch commands words { s with buffer := buffer }
  let buffer ← s.buffer.store 0 0
  some (shellPrintPrompt { s with
    bufferLength := 0
    buffer := buffer
    cursorPos := 0
    lastRenderedLength := 0 })

/-- `shell_handle_char`. -/
def shellHandleChar (commands : Commands) (c : U8) (s : Shell) : Option Shell :=
  if c = NEWLINE then shellEnter commands s
  else if c = BACKSPACE then shellBackspace { s with historyViewIndex := -1 }
  else shellInsertChar c { s with historyViewIndex := -1 }

/-- A call from the keyboard. -/
inductive Key where
  | char (c : { c : U8 // c ≠ 0 })
  | moveLeft
  | moveRight
  | moveHome
  | moveEnd
  | deleteForward
  | historyPrev
  | historyNext

/-- A key, and what a command would do when it is pressed. -/
structure Event where
  key : Key
  commands : Commands

def Event.exec (e : Event) (s : Shell) : Option Shell :=
  match e.key with
  | .char c => shellHandleChar e.commands c s
  | .moveLeft => shellMoveLeft s
  | .moveRight => shellMoveRight s
  | .moveHome => shellMoveHome s
  | .moveEnd => shellMoveEnd s
  | .deleteForward => shellDeleteForward s
  | .historyPrev => shellHistoryPrev s
  | .historyNext => shellHistoryNext s

/-- One key after the other. -/
def pressAll : List Event → Shell → Option Shell
  | [], s => some s
  | e :: es, s => e.exec s >>= pressAll es

end Frewozet
