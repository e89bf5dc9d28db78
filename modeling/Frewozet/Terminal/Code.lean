import Frewozet.Base.Loop
import Frewozet.Base.Words

/-!
# `terminal.c`

The text screen: 25 rows of 80 cells, written through a cursor.

* `Terminal` — the cursor, the colours, the cells and what the video controller was
  told.  Cells are numbered row by row; the ones from `SCREEN_CELLS` on are whatever
  lies behind the screen in memory.
* `terminalWritecharOptimized`, `terminalScroll`, `terminalBackspace`,
  `terminalSetCursorIndex`, … — the code.
* `TermCall` — the calls other files make, as calls of a run.

`size_t` is modelled by the natural numbers: no index in this file is subtracted from
below zero, and none comes near 4 GiB.
-/

namespace Frewozet

/-! ## Characters -/

/-- The characters of a string literal. -/
def chars (s : String) : List U8 := s.toList.map fun c => BitVec.ofNat 8 c.toNat

def NEWLINE : U8 := 0x0A
def SPACE : U8 := 0x20

/-- What a loop up to the terminating NUL sees of a string. -/
def cstr (s : List U8) : List U8 := s.takeWhile (· ≠ 0)

/-! ## The screen -/

def VGA_WIDTH : Nat := 80
def VGA_HEIGHT : Nat := 25

/-- The number of cells on the screen. -/
abbrev SCREEN_CELLS : Nat := VGA_WIDTH * VGA_HEIGHT

structure Terminal where
  cursorRow : Nat := 0
  cursorCol : Nat := 0
  cursorColor : U8 := 0
  /-- The cells from `VGA_MEMORY` on. -/
  buffer : Nat → U16
  colorMode : Int := 0
  /-- The position in the registers of the video controller. -/
  crtc : U16 := 0
  /-- Ghost: a cell that is not on the screen has been written. -/
  outside : Bool := false

/-- `vga_char`. -/
def vgaChar (c color : U8) : U16 := (color.setWidth 16 <<< 8) ||| c.setWidth 16

/-- The character a cell shows. -/
def shown (cell : U16) : U8 := cell.setWidth 8

namespace Terminal

/-- Store a cell. -/
def putCell (t : Terminal) (i : Nat) (cell : U16) : Terminal :=
  { t with
    buffer := fun j => if j = i then cell else t.buffer j
    outside := t.outside || decide (SCREEN_CELLS ≤ i) }

end Terminal

/-- `terminal_clear`. -/
def terminalClear (t : Terminal) : Terminal :=
  let t := forRange VGA_HEIGHT (fun y => forRange VGA_WIDTH fun x t =>
    t.putCell (x + y * VGA_WIDTH) (vgaChar SPACE t.cursorColor)) t
  { t with cursorRow := 0, cursorCol := 0 }

/-- `terminal_init`. -/
def terminalInit (t : Terminal) : Terminal :=
  terminalClear { t with cursorRow := 0, cursorCol := 0, cursorColor := 0x07 }

/-- `terminal_update_cursor`: the four `outb`. -/
def terminalUpdateCursor (t : Terminal) : Terminal :=
  { t with crtc := BitVec.ofNat 16 (t.cursorCol + t.cursorRow * VGA_WIDTH) }

/-- `terminal_color`. -/
def terminalColor (color : U8) (t : Terminal) : Terminal := { t with cursorColor := color }

/-- `terminal_set_color_mode`. -/
def terminalSetColorMode (mode : Int) (t : Terminal) : Terminal := { t with colorMode := mode }

/-- `get_colorshell_color`. -/
def getColorshellColor (colorMode : Int) (type : String) : U8 :=
  if colorMode ≠ 0 then
    if type = "info" then 0x0B
    else if type = "warning" then 0x0E
    else if type = "error" then 0x0C
    else if type = "success" then 0x0A
    else if type = "prompt" then 0x0D
    else if type = "command" then 0x0F
    else if type = "output" then 0x0F
    else 0x07
  else 0x07

/-- `terminal_scroll`.  The first loop of the code counts `y` from 1. -/
def terminalScroll (t : Terminal) : Terminal :=
  let t := forRange (VGA_HEIGHT - 1) (fun k => forRange VGA_WIDTH fun x t =>
    t.putCell (x + k * VGA_WIDTH) (t.buffer (x + (k + 1) * VGA_WIDTH))) t
  forRange VGA_WIDTH (fun x t =>
    t.putCell (x + (VGA_HEIGHT - 1) * VGA_WIDTH) (vgaChar SPACE t.cursorColor)) t

/-- `terminal_writechar_optimized`. -/
def terminalWritecharOptimized (c : U8) (t : Terminal) : Terminal :=
  if c = NEWLINE then
    let t := { t with cursorRow := t.cursorRow + 1, cursorCol := 0 }
    if t.cursorRow ≥ VGA_HEIGHT then { terminalScroll t with cursorRow := VGA_HEIGHT - 1 } else t
  else
    let t := t.putCell (t.cursorCol + t.cursorRow * VGA_WIDTH) (vgaChar c t.cursorColor)
    let t := { t with cursorCol := t.cursorCol + 1 }
    if t.cursorCol ≥ VGA_WIDTH then { t with cursorRow := t.cursorRow + 1, cursorCol := 0 } else t

/-- `terminal_backspace`. -/
def terminalBackspace (t : Terminal) : Terminal :=
  let t :=
    if t.cursorCol > 0 then { t with cursorCol := t.cursorCol - 1 }
    else if t.cursorRow > 0 then
      { t with cursorRow := t.cursorRow - 1, cursorCol := VGA_WIDTH - 1 }
    else t
  let t := t.putCell (t.cursorCol + t.cursorRow * VGA_WIDTH) (vgaChar SPACE t.cursorColor)
  terminalUpdateCursor t

/-- `terminal_writechar`. -/
def terminalWritechar (c : U8) (t : Terminal) : Terminal :=
  terminalUpdateCursor (terminalWritecharOptimized c t)

/-- The loop of `terminal_write`. -/
def writeLoop (s : List U8) (t : Terminal) : Terminal :=
  s.foldl (fun t c => terminalWritecharOptimized c t) t

/-- `terminal_write`. -/
def terminalWrite (s : List U8) (t : Terminal) : Terminal :=
  terminalUpdateCursor (writeLoop (cstr s) t)

/-- `terminal_write_line`. -/
def terminalWriteLine (s : List U8) (t : Terminal) : Terminal :=
  terminalWrite [NEWLINE] (terminalWrite s t)

/-- `colorshell_writechar`. -/
def colorshellWritechar (c : U8) (type : String) (t : Terminal) : Terminal :=
  let color := getColorshellColor t.colorMode type
  let previousColor := t.cursorColor
  let t := terminalColor color t
  let t := terminalWritechar c t
  terminalColor previousColor t

/-- `colorshell_write`. -/
def colorshellWrite (s : List U8) (type : String) (t : Terminal) : Terminal :=
  if t.colorMode = 0 then terminalWrite s t
  else
    let color := getColorshellColor t.colorMode type
    let previousColor := t.cursorColor
    let t := terminalColor color t
    let t := terminalWrite s t
    terminalColor previousColor t

/-- `terminal_get_cursor_index`. -/
def terminalGetCursorIndex (t : Terminal) : Nat := t.cursorRow * VGA_WIDTH + t.cursorCol

/-- `terminal_set_cursor_index`. -/
def terminalSetCursorIndex (index : Nat) (t : Terminal) : Terminal :=
  let index := if index ≥ VGA_WIDTH * VGA_HEIGHT then VGA_WIDTH * VGA_HEIGHT - 1 else index
  terminalUpdateCursor { t with cursorRow := index / VGA_WIDTH, cursorCol := index % VGA_WIDTH }

/-- The digits of a number, the last one first. -/
def digitsReversed (value : Nat) : List U8 :=
  if value = 0 then []
  else BitVec.ofNat 8 (0x30 + value % 10) :: digitsReversed (value / 10)
termination_by value

/-- `terminal_write_uint`: the digits are collected from the last one on, and the
array is reversed. -/
def terminalWriteUint (value : U32) (t : Terminal) : Terminal :=
  if value = 0 then terminalWrite [0x30] t
  else terminalWrite (digitsReversed value.toNat).reverse t

/-- `terminal_write_decimal`: `value` is an `int32_t`. -/
def terminalWriteDecimal (value : U32) (t : Terminal) : Terminal :=
  if value.toInt < 0 then terminalWriteUint (-value) (terminalWritechar 0x2D t)
  else terminalWriteUint value t

/-! ## The calls -/

/-- A call into `terminal.c`. -/
inductive TermCall where
  | clear
  | color (color : U8)
  | setColorMode (mode : Int)
  | write (s : List U8)
  | writechar (c : U8)
  | colorshellWrite (s : List U8) (type : String)
  | colorshellWritechar (c : U8) (type : String)
  | backspace
  | setCursorIndex (index : Nat)

/-- Make it. -/
def TermCall.exec : TermCall → Terminal → Terminal
  | .clear => terminalClear
  | .color value => terminalColor value
  | .setColorMode mode => terminalSetColorMode mode
  | .write s => terminalWrite s
  | .writechar c => terminalWritechar c
  | .colorshellWrite s type => Frewozet.colorshellWrite s type
  | .colorshellWritechar c type => Frewozet.colorshellWritechar c type
  | .backspace => terminalBackspace
  | .setCursorIndex index => terminalSetCursorIndex index

/-- Make one after the other. -/
def execCalls (calls : List TermCall) (t : Terminal) : Terminal :=
  calls.foldl (fun t c => c.exec t) t

end Frewozet
