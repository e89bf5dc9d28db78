import Frewozet.Interrupts.Stubs
import Frewozet.Shell.Typing
import Frewozet.Terminal.LastLines
import Frewozet.Text.Hex

/-!
# `interrupt_handler`

What the kernel does about one interrupt after the other: the timer, the keyboard with the
shell behind it, the other lines, and the exceptions, which it reports and does not return
from.

* `interruptReport` — what is written for an exception; `Reported` — what can be read of it on
  the screen.
* `interruptHandler`, `handleAll` — one interrupt, and a run of them.
* `kernel_run` — **a run of interrupts, whatever their order**: up to the first exception the
  ticks are counted and the keys reach the line editor, and the exception can be read on the
  screen.
-/

namespace Frewozet

/-! ## The report -/

/-- `exception_names`. -/
def exceptionNames : List (List U8) :=
  [chars "Divide Error", chars "Debug", chars "Non-maskable Interrupt", chars "Breakpoint",
    chars "Overflow", chars "Bound Range Exceeded", chars "Invalid Opcode",
    chars "Device Not Available", chars "Double Fault", chars "Coprocessor Segment Overrun",
    chars "Invalid TSS", chars "Segment Not Present", chars "Stack-Segment Fault",
    chars "General Protection Fault", chars "Page Fault", chars "Reserved",
    chars "x87 Floating-Point Exception", chars "Alignment Check", chars "Machine Check",
    chars "SIMD Floating-Point Exception", chars "Virtualization Exception",
    chars "Control Protection Exception", chars "Reserved", chars "Reserved", chars "Reserved",
    chars "Reserved", chars "Reserved", chars "Reserved", chars "Hypervisor Injection Exception",
    chars "VMM Communication Exception", chars "Security Exception", chars "Reserved"]

/-- The name of an exception. -/
def exceptionName (n : U32) : List U8 := exceptionNames.getD n.toNat []

/-- The branch of `interrupt_handler` for an exception, up to the loop it ends in. -/
def interruptReport (f : InterruptFrame) (t : Terminal) : Terminal :=
  let t := terminalWrite (chars "\nFREWOZET SYSTEM ERROR: ") t
  let t := terminalWrite (exceptionName f.interruptNumber) t
  let t := terminalWrite (chars "\nInterrupt Number: ") t
  let t := terminalWriteUint f.interruptNumber t
  let t := terminalWrite (chars "\nError code: ") t
  let t := terminalWriteHex32 f.errorCode t
  let t := terminalWrite (chars "\nExtended Instruction Pointer: ") t
  let t := terminalWriteHex32 f.eip t
  let t := terminalWrite (chars "\nCode Segment: ") t
  let t := terminalWriteHex32 f.cs t
  let t := terminalWrite (chars "\nExtended Flags: ") t
  let t := terminalWriteHex32 f.eflags t
  terminalWrite (chars "\nSystem halted. Restart required.\n") t

/-- Its lines. -/
def reportLines (f : InterruptFrame) : List (List U8) :=
  [chars "FREWOZET SYSTEM ERROR: " ++ exceptionName f.interruptNumber,
    chars "Interrupt Number: " ++ numeral f.interruptNumber.toNat,
    chars "Error code: " ++ hex32Text f.errorCode,
    chars "Extended Instruction Pointer: " ++ hex32Text f.eip,
    chars "Code Segment: " ++ hex32Text f.cs,
    chars "Extended Flags: " ++ hex32Text f.eflags,
    chars "System halted. Restart required."]

/-! ## The run of interrupts -/

/-- What is kept between two interrupts: the ticks, the flags of the keyboard, and the shell
with its terminal. -/
structure Kernel where
  timerTicks : U32
  keyboard : Keyboard
  shell : Shell

/-- An interrupt: the frame that the stub has built, the byte that port 0x60 reads, and what a
command would do. -/
structure Interrupt where
  frame : InterruptFrame
  scancode : U8
  commands : Commands

namespace Interrupt

/-- It is an exception. -/
def Fault (x : Interrupt) : Prop := x.frame.interruptNumber < 32

instance (x : Interrupt) : Decidable x.Fault := inferInstanceAs (Decidable (_ < _))

end Interrupt

/-- How `interrupt_handler` ends. -/
inductive Ending where
  | returns
  | halts
  deriving DecidableEq

/-- `timer_tick`. -/
def timerTick (k : Kernel) : Kernel := { k with timerTicks := k.timerTicks + 1 }

/-- `interrupt_handler`; what it writes to the interrupt controllers is `interruptWrites`. -/
def interruptHandler (x : Interrupt) (k : Kernel) : Option (Kernel × Ending) :=
  let n := x.frame.interruptNumber
  if n < 32 then some ({ k with shell := k.shell.onTerminal (interruptReport x.frame) }, .halts)
  else if n = 32 then some (timerTick k, .returns)
  else if n = 33 then
    (keyInterrupt x.commands x.scancode (k.keyboard, k.shell)).map fun s =>
      ({ k with keyboard := s.1, shell := s.2 }, .returns)
  else some (k, .returns)

/-- One interrupt after the other, until one is not returned from. -/
def handleAll : List Interrupt → Kernel → Option (Kernel × Ending)
  | [], k => some (k, .returns)
  | x :: xs, k => do
    let (k', ending) ← interruptHandler x k
    match ending with
    | .returns => handleAll xs k'
    | .halts => some (k', .halts)

/-- The interrupts before the first exception. -/
def beforeFault (xs : List Interrupt) : List Interrupt := xs.takeWhile fun x => ¬ x.Fault

/-- Those the keyboard sent. -/
def keyboardOnes (xs : List Interrupt) : List Interrupt :=
  xs.filter fun x => x.frame.interruptNumber = 33

/-- The keys that are handed on for them. -/
def handedOn : List Interrupt → Keyboard → List Event
  | [], _ => []
  | x :: xs, k =>
    ((keyboardHandle x.scancode k).2.key.map fun key => ⟨key, x.commands⟩).toList ++
      handedOn xs (keyboardHandle x.scancode k).1

/-- How many the timer sent. -/
def ticks (xs : List Interrupt) : Nat := xs.countP fun x => x.frame.interruptNumber = 32

/-! ## Reading the report -/

/-- **What the screen tells of an exception**: its name and its number, and the four words
of the frame. -/
structure Reported (t : Terminal) (f : InterruptFrame) : Prop where
  name : screenText t (t.cursorRow - 7) 23 (exceptionName f.interruptNumber).length =
    exceptionName f.interruptNumber
  number : screenText t (t.cursorRow - 6) 18 (numeral f.interruptNumber.toNat).length =
    numeral f.interruptNumber.toNat
  errorCode : hexDigitsValue (screenText t (t.cursorRow - 5) 12 8) = f.errorCode.toNat
  eip : hexDigitsValue (screenText t (t.cursorRow - 4) 30 8) = f.eip.toNat
  cs : hexDigitsValue (screenText t (t.cursorRow - 3) 14 8) = f.cs.toNat
  eflags : hexDigitsValue (screenText t (t.cursorRow - 2) 16 8) = f.eflags.toNat

/-- Texts that are written one after the other. -/
theorem writePieces_eq : ∀ {pieces : List (List U8)} (t : Terminal), (∀ s ∈ pieces, 0 ∉ s) →
    ∀ s, 0 ∉ s → pieces.foldl (fun t s => terminalWrite s t) (terminalWrite s t) =
      terminalWrite (s ++ pieces.flatten) t := by
  intro pieces
  induction pieces with
  | nil =>
    intro t _ s _
    rw [List.flatten_nil, List.append_nil]
    rfl
  | cons s' pieces ih =>
    intro t hplain s hs
    have hs' := hplain s' List.mem_cons_self
    rw [List.foldl_cons, terminalWrite_write hs,
      ih t (fun u hu => hplain u (List.mem_cons_of_mem s' hu)) (s ++ s') (by
        rw [List.mem_append, not_or]
        exact ⟨hs, hs'⟩),
      List.flatten_cons, List.append_assoc]

theorem exceptionNames_plain : ∀ s ∈ exceptionNames,
    0 ∉ s ∧ NEWLINE ∉ s ∧ s.length ≤ 30 := by
  simp [exceptionNames, chars, NEWLINE]

theorem exceptionName_plain (n : U32) :
    0 ∉ exceptionName n ∧ NEWLINE ∉ exceptionName n ∧ (exceptionName n).length ≤ 30 := by
  rw [exceptionName, List.getD_eq_getElem?_getD]
  cases hget : exceptionNames[n.toNat]? with
  | none => exact ⟨List.not_mem_nil, List.not_mem_nil, Nat.zero_le _⟩
  | some s => exact exceptionNames_plain s (List.mem_of_getElem? hget)

theorem hex32Text_facts (v : U32) :
    NEWLINE ∉ hex32Text v ∧ (hex32Text v).length = 8 ∧ hexDigitsValue (hex32Text v) = v.toNat := by
  refine ⟨fun h => ?_, by simp [hex32Text], ?_⟩
  · rw [hex32Text_eq] at h
    obtain ⟨d, hd, heq⟩ := List.mem_map.1 h
    have hne : ∀ d < 16, hexChar (BitVec.ofNat 8 d) ≠ NEWLINE := by decide
    exact hne d (Numeral.fixed_lt (by decide) hd) heq
  · rw [← hexDigitsValue_text (f := id) fun d hd => (hexChar_facts d hd).1, List.map_id]

theorem numeral_facts (v : U32) :
    NEWLINE ∉ numeral v.toNat ∧ (numeral v.toNat).length ≤ 10 := by
  refine ⟨fun h => ?_, length_numeral_le (by decide) (Nat.lt_trans v.isLt (by decide))⟩
  exact absurd ((numeral_canonical v.toNat).digits NEWLINE h) (by decide)

theorem reportLines_plain (f : InterruptFrame) :
    ∀ s ∈ reportLines f, 0 ∉ s ∧ NEWLINE ∉ s ∧ s.length < VGA_WIDTH := by
  obtain ⟨hname, hname', hnameLength⟩ := exceptionName_plain f.interruptNumber
  obtain ⟨hnumber, hnumberLength⟩ := numeral_facts f.interruptNumber
  obtain ⟨hcode, hcodeLength, -⟩ := hex32Text_facts f.errorCode
  obtain ⟨heip, heipLength, -⟩ := hex32Text_facts f.eip
  obtain ⟨hcs, hcsLength, -⟩ := hex32Text_facts f.cs
  obtain ⟨heflags, heflagsLength, -⟩ := hex32Text_facts f.eflags
  have hjoin : ∀ label s : List U8, 0 ∉ label ∧ NEWLINE ∉ label ∧ label.length ≤ 32 →
      0 ∉ s → NEWLINE ∉ s → s.length ≤ 30 →
        0 ∉ label ++ s ∧ NEWLINE ∉ label ++ s ∧ (label ++ s).length < VGA_WIDTH := by
    rintro label s ⟨h0, h1, h2⟩ h3 h4 h5
    rw [List.mem_append, List.mem_append, not_or, not_or, List.length_append]
    refine ⟨⟨h0, h3⟩, ⟨h1, h4⟩, ?_⟩
    unfold VGA_WIDTH
    omega
  intro s hs
  simp only [reportLines, List.mem_cons, List.not_mem_nil, or_false] at hs
  rcases hs with rfl | rfl | rfl | rfl | rfl | rfl | rfl
  · exact hjoin _ _ (by simp [chars, NEWLINE]) hname hname' hnameLength
  · exact hjoin _ _ (by simp [chars, NEWLINE]) (numeral_plain _) hnumber (by omega)
  · exact hjoin _ _ (by simp [chars, NEWLINE]) (hex32Text_plain _) hcode (by omega)
  · exact hjoin _ _ (by simp [chars, NEWLINE]) (hex32Text_plain _) heip (by omega)
  · exact hjoin _ _ (by simp [chars, NEWLINE]) (hex32Text_plain _) hcs (by omega)
  · exact hjoin _ _ (by simp [chars, NEWLINE]) (hex32Text_plain _) heflags (by omega)
  · simp [chars, NEWLINE, VGA_WIDTH]

/-- **The report is its lines, behind a newline.** -/
theorem interruptReport_eq (f : InterruptFrame) (t : Terminal) :
    interruptReport f t = terminalWrite (NEWLINE :: linesText (reportLines f)) t := by
  have hfirst : (0 : U8) ∉ chars "\nFREWOZET SYSTEM ERROR: " := by simp [chars]
  have hpieces : ∀ s ∈ [exceptionName f.interruptNumber, chars "\nInterrupt Number: ",
      numeral f.interruptNumber.toNat, chars "\nError code: ", hex32Text f.errorCode,
      chars "\nExtended Instruction Pointer: ", hex32Text f.eip, chars "\nCode Segment: ",
      hex32Text f.cs, chars "\nExtended Flags: ", hex32Text f.eflags], (0 : U8) ∉ s := by
    intro s hs
    simp only [List.mem_cons, List.not_mem_nil, or_false] at hs
    rcases hs with rfl | rfl | rfl | rfl | rfl | rfl | rfl | rfl | rfl | rfl | rfl
    · exact (exceptionName_plain f.interruptNumber).1
    · simp [chars]
    · exact numeral_plain _
    · simp [chars]
    · exact hex32Text_plain _
    · simp [chars]
    · exact hex32Text_plain _
    · simp [chars]
    · exact hex32Text_plain _
    · simp [chars]
    · exact hex32Text_plain _
  have hwritten := writePieces_eq t hpieces _ hfirst
  simp only [List.foldl_cons, List.foldl_nil] at hwritten
  unfold interruptReport
  simp only [terminalWriteUint_eq, terminalWriteHex32_eq]
  rw [hwritten, terminalWrite_write]
  · congr 1
    simp [reportLines, linesText, chars, NEWLINE]
  · intro hmem
    rcases List.mem_append.1 hmem with hmem | hmem
    · exact hfirst hmem
    · obtain ⟨s, hs, hzero⟩ := List.mem_flatten.1 hmem
      exact hpieces s hs hzero

/-- **The exception can be read on the screen**, whatever was on it. -/
theorem interruptReport_reported (f : InterruptFrame) (t : Terminal) :
    Reported (interruptReport f t) f := by
  have hplain := reportLines_plain f
  have htext : 0 ∉ NEWLINE :: linesText (reportLines f) := by
    rw [List.mem_cons, not_or]
    refine ⟨by decide, fun hmem => ?_⟩
    obtain ⟨s, hs, hzero⟩ := List.mem_flatMap.1 hmem
    rcases List.mem_append.1 hzero with hzero | hzero
    · exact (hplain s hs).1 hzero
    · exact absurd (List.mem_singleton.1 hzero) (by decide)
  have hlines := lastLines_writeLoop t (fun s hs => (hplain s hs).2)
    (by decide : 7 < VGA_HEIGHT)
  have heq : interruptReport f t =
      terminalUpdateCursor (writeLoop (NEWLINE :: linesText (reportLines f)) t) := by
    rw [interruptReport_eq, terminalWrite, cstr_eq htext]
  rw [heq]
  generalize hu : writeLoop (NEWLINE :: linesText (reportLines f)) t = u at hlines
  have hroom := hlines.room
  -- the part of a line behind its label
  have hpart : ∀ (i : Nat) (label s : List U8), (reportLines f)[i]? = some (label ++ s) →
      screenText (terminalUpdateCursor u) (u.cursorRow - 7 + i) label.length s.length = s := by
    intro i label s hi
    have hrow := hlines.shows i _ hi
    rw [← List.append_nil s] at hrow
    exact screenText_of_rowShows (t := u) hrow
  have hat : ∀ (i k : Nat) (label s : List U8), i ≤ 7 → label.length = k →
      (reportLines f)[i]? = some (label ++ s) →
        screenText (terminalUpdateCursor u) ((terminalUpdateCursor u).cursorRow - (7 - i)) k
          s.length = s := by
    rintro i k label s hi rfl hline
    have hrow : (terminalUpdateCursor u).cursorRow - (7 - i) = u.cursorRow - 7 + i := by
      change 7 ≤ u.cursorRow at hroom
      change u.cursorRow - (7 - i) = _
      omega
    rw [hrow]
    exact hpart i label s hline
  have hhex : ∀ (i k : Nat) (label : List U8) (v : U32), i ≤ 7 → label.length = k →
      (reportLines f)[i]? = some (label ++ hex32Text v) →
        hexDigitsValue (screenText (terminalUpdateCursor u)
          ((terminalUpdateCursor u).cursorRow - (7 - i)) k 8) = v.toNat := by
    intro i k label v hi hk hline
    obtain ⟨-, hlength, hvalue⟩ := hex32Text_facts v
    have htext := hat i k label (hex32Text v) hi hk hline
    rw [hlength] at htext
    rw [htext, hvalue]
  exact ⟨hat 0 23 _ _ (by decide) (by simp [chars]) rfl,
    hat 1 18 _ _ (by decide) (by simp [chars]) rfl,
    hhex 2 12 _ _ (by decide) (by simp [chars]) rfl,
    hhex 3 30 _ _ (by decide) (by simp [chars]) rfl,
    hhex 4 14 _ _ (by decide) (by simp [chars]) rfl,
    hhex 5 16 _ _ (by decide) (by simp [chars]) rfl⟩

/-! ## The runs -/

section

variable {x : Interrupt} {k : Kernel} {e : Editor}

/-- **One interrupt that is not an exception** is returned from; the timer's is counted, and the
keyboard's goes to the line editor. -/
theorem interruptHandler_returns (hx : ¬ x.Fault) (h : Represents k.shell e) :
    ∃ k', interruptHandler x k = some (k', .returns) ∧
      k'.timerTicks = k.timerTicks + BitVec.ofNat 32 (ticks [x]) ∧
      (∀ xs, editAll (handedOn (keyboardOnes (x :: xs)) k.keyboard) e =
        editAll (handedOn (keyboardOnes xs) k'.keyboard)
          (editAll (handedOn (keyboardOnes [x]) k.keyboard) e)) ∧
      Represents k'.shell (editAll (handedOn (keyboardOnes [x]) k.keyboard) e) := by
  have hlarge : ¬ x.frame.interruptNumber < 32 := hx
  unfold interruptHandler
  dsimp only
  rw [if_neg hlarge]
  by_cases htimer : x.frame.interruptNumber = 32
  · have hnone : ∀ xs, keyboardOnes (x :: xs) = keyboardOnes xs := fun xs =>
      List.filter_cons_of_neg (by rw [htimer]; decide)
    have hticks : ticks [x] = 1 := by
      rw [ticks, List.countP_singleton, if_pos (decide_eq_true htimer)]
    rw [if_pos htimer, hticks, hnone []]
    exact ⟨_, rfl, rfl, fun xs => by rw [hnone]; rfl, h⟩
  rw [if_neg htimer]
  have hticks : ticks [x] = 0 := by
    rw [ticks, List.countP_singleton, if_neg (by simpa using htimer)]
  rw [hticks]
  by_cases hkey : x.frame.interruptNumber = 33
  · have hcons : ∀ xs, keyboardOnes (x :: xs) = x :: keyboardOnes xs := fun xs =>
      List.filter_cons_of_pos (decide_eq_true hkey)
    obtain ⟨s', hexec, hrep⟩ :=
      keyInterrupt_represents (k := k.keyboard) h x.commands x.scancode
    rw [if_pos hkey, hexec, hcons []]
    refine ⟨_, rfl, (BitVec.add_zero _).symm, fun xs => ?_, ?_⟩
    · rw [hcons]
      change editAll (_ ++ handedOn (keyboardOnes xs) _) e = _
      change _ = editAll _ (editAll (_ ++ []) e)
      rw [List.append_nil, editAll, editAll, editAll, List.foldl_append]
    · change Represents s' (editAll (_ ++ []) e)
      rw [List.append_nil]
      cases hcall : (keyboardHandle x.scancode k.keyboard).2.key with
      | none =>
        rw [hcall] at hrep
        exact hrep
      | some key =>
        rw [hcall] at hrep
        exact hrep
  · have hnone : ∀ xs, keyboardOnes (x :: xs) = keyboardOnes xs := fun xs =>
      List.filter_cons_of_neg (by simpa using hkey)
    rw [if_neg hkey, hnone []]
    exact ⟨_, rfl, (BitVec.add_zero _).symm, fun xs => by rw [hnone]; rfl, h⟩

/-- An exception is reported, and that is the end. -/
theorem interruptHandler_halts (hx : x.Fault) (k : Kernel) : interruptHandler x k =
    some ({ k with shell := k.shell.onTerminal (interruptReport x.frame) }, .halts) := by
  rw [interruptHandler]
  exact if_pos hx

end

theorem handleAll_run : ∀ {xs : List Interrupt} {k : Kernel} {e : Editor}, Represents k.shell e →
    ∃ k' ending, handleAll xs k = some (k', ending) ∧
      k'.timerTicks = k.timerTicks + BitVec.ofNat 32 (ticks (beforeFault xs)) ∧
      Represents k'.shell (editAll (handedOn (keyboardOnes (beforeFault xs)) k.keyboard) e) ∧
      (ending = .halts ↔ ∃ x ∈ xs, x.Fault) ∧
      ∀ x, xs.find? (fun x => x.Fault) = some x → Reported k'.shell.terminal x.frame := by
  intro xs
  induction xs with
  | nil =>
    intro k e h
    exact ⟨k, .returns, rfl, (BitVec.add_zero _).symm, h, by simp, nofun⟩
  | cons x xs ih =>
    intro k e h
    by_cases hx : x.Fault
    · have hnone : beforeFault (x :: xs) = [] := List.takeWhile_cons_of_neg (by simpa using hx)
      rw [handleAll, interruptHandler_halts hx, hnone]
      refine ⟨_, .halts, rfl, (BitVec.add_zero _).symm, h.onTerminal _,
        iff_of_true rfl ⟨x, List.mem_cons_self, hx⟩, fun y hy => ?_⟩
      rw [List.find?_cons_of_pos (by simpa using hx)] at hy
      rw [← Option.some.inj hy]
      exact interruptReport_reported x.frame k.shell.terminal
    · have hcons : beforeFault (x :: xs) = x :: beforeFault xs :=
        List.takeWhile_cons_of_pos (by simpa using hx)
      obtain ⟨k₁, hstep, hticks, hkeys, hrep⟩ := interruptHandler_returns hx h
      obtain ⟨k', ending, hrun, hticks', hrep', hhalts, hreport⟩ := ih hrep
      rw [handleAll, hstep, hcons]
      refine ⟨k', ending, hrun, ?_, ?_, ?_, fun y hy => ?_⟩
      · have hsplit : ticks (x :: beforeFault xs) = ticks [x] + ticks (beforeFault xs) := by
          rw [ticks, ticks, ticks, ← List.countP_append]
          rfl
        rw [hticks', hticks, hsplit, BitVec.ofNat_add, BitVec.add_assoc]
      · rw [hkeys]
        exact hrep'
      · rw [hhalts]
        simp [hx]
      · rw [List.find?_cons_of_neg (by simpa using hx)] at hy
        exact hreport y hy

end Frewozet
