import Frewozet.Keyboard
import Frewozet.Shell.Screen

/-!
# From the fingers to the line

* `legend`, `Hands.key` — the keyboard as its user sees it: what is printed on a key, and
  what the key types while the hands hold it.
* `Stroke.exec`, `typeAll` — the interrupts of a move, and of a run of moves, each with its
  call into the shell.
* `typing_edits` — **while the modifiers are right, the shell is edited by what the keys say.**
* `line_typed_iff` — **the lines that can be typed**: 127 characters at most, each of them
  printable, a tab or an escape.
-/

namespace Frewozet

/-! ## The keyboard as its user sees it -/

/-- What is printed on a key: the character it types alone, and the one with shift. -/
def legend (code : BitVec 7) : U8 × U8 :=
  (keyboardMap.getD code.toNat 0, keyboardShiftMap.getD code.toNat 0)

/-- The keys that move in the line, delete from it or go through the history. -/
def navigation : List (BitVec 7 × Key) :=
  [(0x48, .historyPrev), (0x50, .historyNext), (0x4B, .moveLeft), (0x4D, .moveRight),
    (0x47, .moveHome), (0x4F, .moveEnd), (0x53, .deleteForward)]

/-- Shift chooses between the two characters, and caps lock turns the choice round on a
letter. -/
def face (code : BitVec 7) (shift caps : Bool) : U8 :=
  if shift ^^ (caps && isalpha (legend code).1) then (legend code).2 else (legend code).1

/-- What a key types. -/
def typedBy (code : BitVec 7) (shift caps : Bool) : Option Key :=
  match navigation.lookup code with
  | some key => some key
  | none => if h : face code shift caps ≠ 0 then some (.char ⟨face code shift caps, h⟩) else none

namespace Hands

/-- Caps lock is on. -/
def caps (h : Hands) : Prop := h.capsPresses % 2 = 1

open Classical in
/-- What a key types for these hands. -/
noncomputable def key (h : Hands) (code : BitVec 7) : Option Key :=
  typedBy code (decide h.shift) (decide h.caps)

/-- What a byte types: a make code does. -/
noncomputable def types (h : Hands) (byte : U8) : Option Key :=
  if byte &&& 0x80 = 0 then h.key (byte.setWidth 7) else none

end Hands

/-- A move, and what a command would do when it is made. -/
structure Stroke where
  move : KeyMove
  commands : Commands

/-- The key events of a stroke. -/
noncomputable def Stroke.events (h : Hands) (stroke : Stroke) : List Event :=
  (stroke.move.bytes.filterMap h.types).map fun key => ⟨key, stroke.commands⟩

/-- The key events of a run. -/
noncomputable def typedEvents : List Stroke → Hands → List Event
  | [], _ => []
  | stroke :: strokes, h => stroke.events h ++ typedEvents strokes (stroke.move.after h)

/-- The moves of a run. -/
def moves (strokes : List Stroke) : List KeyMove := strokes.map Stroke.move

/-- The hands at its end. -/
def handsAfter (ms : List KeyMove) (h : Hands) : Hands := ms.foldl (fun h m => m.after h) h

/-! ## The driver with the shell behind it -/

/-- `keyboard_handle`, and the call it ends in. -/
def keyInterrupt (commands : Commands) (scancode : U8) (s : Keyboard × Shell) :
    Option (Keyboard × Shell) :=
  ((keyboardHandle scancode s.1).2.exec commands s.2).map fun shell =>
    ((keyboardHandle scancode s.1).1, shell)

/-- The interrupts for one byte after the other. -/
def interruptAll (commands : Commands) : List U8 → Keyboard × Shell → Option (Keyboard × Shell)
  | [], s => some s
  | byte :: bytes, s => keyInterrupt commands byte s >>= interruptAll commands bytes

/-- The interrupts of a stroke. -/
def Stroke.exec (stroke : Stroke) (s : Keyboard × Shell) : Option (Keyboard × Shell) :=
  interruptAll stroke.commands stroke.move.bytes s

/-- One stroke after the other. -/
def typeAll : List Stroke → Keyboard × Shell → Option (Keyboard × Shell)
  | [], s => some s
  | stroke :: strokes, s => stroke.exec s >>= typeAll strokes

/-! ## The two maps and the legends -/

/-- `keyboard_map`, code by code. -/
theorem keyboardMap_codes : keyboardMap =
  [0x00, 0x1B, 0x31, 0x32, 0x33, 0x34, 0x35, 0x36, 0x37, 0x38, 0x39, 0x30, 0x2D, 0x3D, 0x08, 0x09,
    0x71, 0x77, 0x65, 0x72, 0x74, 0x79, 0x75, 0x69, 0x6F, 0x70, 0x5B, 0x5D, 0x0A, 0x00, 0x61,
    0x73, 0x64, 0x66, 0x67, 0x68, 0x6A, 0x6B, 0x6C, 0x3B, 0x27, 0x60, 0x00, 0x5C, 0x7A, 0x78,
    0x63, 0x76, 0x62, 0x6E, 0x6D, 0x2C, 0x2E, 0x2F, 0x00, 0x2A, 0x00, 0x20] := by
  simp [keyboardMap, chars, BACKSPACE, TAB, NEWLINE]

/-- `keyboard_shift_map`, code by code. -/
theorem keyboardShiftMap_codes : keyboardShiftMap =
  [0x00, 0x1B, 0x21, 0x22, 0x23, 0x24, 0x25, 0x5E, 0x26, 0x2A, 0x28, 0x29, 0x5F, 0x2B, 0x08, 0x09,
    0x51, 0x57, 0x45, 0x52, 0x54, 0x59, 0x55, 0x49, 0x4F, 0x50, 0x7B, 0x7D, 0x0A, 0x00, 0x41,
    0x53, 0x44, 0x46, 0x47, 0x48, 0x4A, 0x4B, 0x4C, 0x3A, 0x40, 0x7E, 0x00, 0x7C, 0x5A, 0x58,
    0x43, 0x56, 0x42, 0x4E, 0x4D, 0x3C, 0x3E, 0x3F, 0x00, 0x2A, 0x00, 0x20] := by
  simp [keyboardShiftMap, chars, BACKSPACE, TAB, NEWLINE]

/-- The character of a letter key is the small letter without shift and the capital with. -/
theorem legend_letter : ∀ code : BitVec 7, isalpha (legend code).1 = true →
    toupper (legend code).1 = (legend code).2 ∧ toupper (legend code).2 = (legend code).2 ∧
      tolower (legend code).1 = (legend code).1 ∧ tolower (legend code).2 = (legend code).1 := by
  simp only [legend, keyboardMap_codes, keyboardShiftMap_codes]
  decide +kernel

/-- A key has a letter on both places or on none. -/
theorem legend_isalpha : ∀ code : BitVec 7,
    isalpha (legend code).2 = isalpha (legend code).1 := by
  simp only [legend, keyboardMap_codes, keyboardShiftMap_codes]
  decide +kernel

/-- The flags of the driver, for what they mean. -/
def flagsOf (shift caps : Bool) : Keyboard :=
  ⟨if shift then 1 else 0, if caps then 1 else 0⟩

theorem flagsOf_down (shift caps : Bool) : (flagsOf shift caps).shiftDown ≠ 0 ↔ shift = true := by
  cases shift <;> cases caps <;> decide

theorem flagsOf_swap (shift caps : Bool) :
    (flagsOf shift caps).shiftDown ^^^ (flagsOf shift caps).capsLockOn ≠ 0 ↔
      (shift ^^ caps) = true := by
  cases shift <;> cases caps <;> decide

theorem toNat_make (code : BitVec 7) : (code.setWidth 8).toNat = code.toNat := by
  rw [BitVec.toNat_setWidth, Nat.mod_eq_of_lt (Nat.lt_trans code.isLt (by decide))]

/-- **`keyboard_translate_scancode`** gives what is printed on the key. -/
theorem translate_make (code : BitVec 7) (shift caps : Bool) :
    keyboardTranslateScancode (code.setWidth 8) (flagsOf shift caps) = face code shift caps := by
  have hsmall : ¬ code.setWidth 8 ≥ (128 : U8) := by
    rw [ge_iff_le, BitVec.le_def, toNat_make]
    exact Nat.not_le.2 code.isLt
  have hchosen : (if (flagsOf shift caps).shiftDown ≠ 0 then
      keyboardShiftMap.getD (code.setWidth 8).toNat 0
        else keyboardMap.getD (code.setWidth 8).toNat 0) =
      if shift then (legend code).2 else (legend code).1 := by
    rw [toNat_make]
    simp only [flagsOf_down]
    rfl
  unfold keyboardTranslateScancode face
  rw [if_neg hsmall]
  dsimp only
  rw [hchosen]
  simp only [flagsOf_swap]
  cases hletter : isalpha (legend code).1 with
  | true =>
    obtain ⟨hup, hup', hlow, hlow'⟩ := legend_letter code hletter
    -- on a letter key it does not matter which of the two was looked up
    have hsame : ∀ c, c = (if shift then (legend code).2 else (legend code).1) →
        isalpha c = true ∧ toupper c = (legend code).2 ∧ tolower c = (legend code).1 := by
      rintro c rfl
      cases shift with
      | true => exact ⟨(legend_isalpha code).trans hletter, hup', hlow'⟩
      | false => exact ⟨hletter, hup, hlow⟩
    generalize (if shift then (legend code).2 else (legend code).1) = c at hsame
    obtain ⟨halpha, hupper, hlower⟩ := hsame c rfl
    have hne : c ≠ 0 := by
      rintro rfl
      exact absurd halpha (by decide)
    rw [if_neg hne, if_pos halpha, hupper, hlower, Bool.and_true]
  | false =>
    have hother : isalpha (if shift then (legend code).2 else (legend code).1) = false := by
      cases shift with
      | true => exact (legend_isalpha code).trans hletter
      | false => exact hletter
    rw [hother, if_neg Bool.false_ne_true, Bool.and_false, Bool.xor_false]
    exact ite_eq_right_iff.2 Eq.symm

/-- The key a call hands on. -/
def KeyboardCall.key : KeyboardCall → Option Key
  | shell key => some key
  | nothing => none
  | unknown _ => none

/-- No modifier has anything printed on it. -/
theorem face_modifier : ∀ code ∈ [0x2A, 0x36, (0x3A : BitVec 7)], ∀ shift caps : Bool,
    navigation.lookup code = none ∧ face code shift caps = 0 := by
  simp only [face, legend, keyboardMap_codes, keyboardShiftMap_codes]
  decide +kernel

theorem typedBy_modifier {code : BitVec 7} (h : code ∈ [0x2A, 0x36, (0x3A : BitVec 7)])
    (shift caps : Bool) : typedBy code shift caps = none := by
  obtain ⟨hlookup, hface⟩ := face_modifier code h shift caps
  rw [typedBy, hlookup]
  exact dif_neg (not_not.2 hface)

theorem make_small : ∀ code : BitVec 7, (code.setWidth 8 : U8) ≠ 0xAA ∧
    (code.setWidth 8 : U8) ≠ 0xB6 ∧ ¬ (code.setWidth 8 : U8) &&& 0x80 ≠ 0 := by decide

theorem lookup_navigation {code : BitVec 7} (h : code ∉ navigation.map Prod.fst) :
    navigation.lookup code = none := by
  rw [List.lookup_eq_none_iff]
  refine fun entry hmem => bne_iff_ne.2 fun heq => h ?_
  rw [heq]
  exact List.mem_map_of_mem hmem

/-- **A make code** hands on what its key types. -/
theorem keyboardHandle_make (code : BitVec 7) (shift caps : Bool) :
    (keyboardHandle (code.setWidth 8) (flagsOf shift caps)).2.key = typedBy code shift caps := by
  by_cases hnav : code ∈ navigation.map Prod.fst
  · simp only [navigation, List.map_cons, List.map_nil, List.mem_cons, List.not_mem_nil,
      or_false] at hnav
    rcases hnav with rfl | rfl | rfl | rfl | rfl | rfl | rfl <;> rfl
  by_cases hmod : code ∈ [0x2A, 0x36, (0x3A : BitVec 7)]
  · rw [typedBy_modifier hmod]
    simp only [List.mem_cons, List.not_mem_nil, or_false] at hmod
    rcases hmod with rfl | rfl | rfl <;> rfl
  have hne : ∀ (k : BitVec 7) (w : U8), k.setWidth 8 = w → ¬ code = k → code.setWidth 8 ≠ w := by
    rintro k w rfl hk h
    exact hk (BitVec.eq_of_toNat_eq (by rw [← toNat_make, ← toNat_make, h]))
  have hlookup := lookup_navigation hnav
  obtain ⟨hup, hup', hmake⟩ := make_small code
  simp only [navigation, List.map_cons, List.map_nil, List.mem_cons, List.not_mem_nil, or_false,
    not_or] at hnav hmod
  obtain ⟨h1, h2, h3, h4, h5, h6, h7⟩ := hnav
  obtain ⟨h8, h9, h10⟩ := hmod
  unfold keyboardHandle
  rw [if_neg (hne _ 0x48 rfl h1), if_neg (hne _ 0x50 rfl h2), if_neg (hne _ 0x4B rfl h3),
    if_neg (hne _ 0x4D rfl h4), if_neg (hne _ 0x47 rfl h5), if_neg (hne _ 0x4F rfl h6),
    if_neg (hne _ 0x53 rfl h7), if_neg (not_or.2 ⟨hne _ 0x2A rfl h8, hne _ 0x36 rfl h9⟩),
    if_neg (not_or.2 ⟨hup, hup'⟩), if_neg (hne _ 0x3A rfl h10), if_neg hmake, translate_make]
  unfold typedBy
  rw [hlookup]
  dsimp only
  split <;> rfl

/-- **A break code**, or the byte in front of a code, hands on nothing. -/
theorem keyboardHandle_high {scancode : U8} (h : scancode &&& 0x80 ≠ 0) (k : Keyboard) :
    (keyboardHandle scancode k).2 = .nothing := by
  have hne : ∀ w : U8, w &&& 0x80 = 0 → scancode ≠ w := by
    rintro w hw rfl
    exact h hw
  unfold keyboardHandle
  rw [if_neg (hne 0x48 rfl), if_neg (hne 0x50 rfl), if_neg (hne 0x4B rfl), if_neg (hne 0x4D rfl),
    if_neg (hne 0x47 rfl), if_neg (hne 0x4F rfl), if_neg (hne 0x53 rfl),
    if_neg (not_or.2 ⟨hne 0x2A rfl, hne 0x36 rfl⟩), if_neg (hne 0x3A rfl), if_pos h]
  split <;> rfl

/-! ## The flags as they are -/

/-- The flags say what the hands do, and they are 0 or 1. -/
structure Tracks (k : Keyboard) (h : Hands) : Prop where
  agree : FlagsAgree (k, h)
  bit : k.shiftDown = 0 ∨ k.shiftDown = 1

theorem tracks_idle : Tracks {} idleHands := ⟨flagsAgree_idle, .inl rfl⟩

open Classical in
theorem Tracks.eq {k : Keyboard} {h : Hands} (ht : Tracks k h) :
    k = flagsOf (decide h.shift) (decide h.caps) := by
  have hshift := ht.agree.shift
  have hcaps := ht.agree.caps
  dsimp only at hshift hcaps
  have hdown : k.shiftDown = if decide h.shift then 1 else 0 := by
    by_cases hs : h.shift
    · rw [if_pos (decide_eq_true hs)]
      exact ht.bit.resolve_left (hshift.2 hs)
    · rw [if_neg (by rw [decide_eq_false hs]; exact Bool.false_ne_true)]
      exact not_not.1 fun hne => hs (hshift.1 hne)
  have hon : k.capsLockOn = if decide h.caps then 1 else 0 := by
    refine BitVec.eq_of_toNat_eq ?_
    rw [hcaps]
    by_cases hc : h.caps
    · rw [if_pos (decide_eq_true hc)]
      exact hc
    · rw [if_neg (by rw [decide_eq_false hc]; exact Bool.false_ne_true)]
      exact (Nat.mod_two_eq_zero_or_one _).resolve_right hc
  obtain ⟨down, on⟩ := k
  dsimp only at hdown hon
  rw [hdown, hon]
  rfl

theorem bit_handleBytes : ∀ (bytes : List U8) {k : Keyboard},
    k.shiftDown = 0 ∨ k.shiftDown = 1 →
      (handleBytes bytes k).shiftDown = 0 ∨ (handleBytes bytes k).shiftDown = 1 := by
  intro bytes
  induction bytes with
  | nil => exact fun hbit => hbit
  | cons byte bytes ih =>
    intro k hbit
    refine ih (k := (keyboardHandle byte k).1) ?_
    rw [keyboardHandle_flags, byteFlags]
    split
    · exact .inr rfl
    split
    · exact .inl rfl
    split
    · exact hbit
    · exact hbit

theorem Tracks.move {k : Keyboard} {h : Hands} (ht : Tracks k h) {m : KeyMove}
    (hm : m.Possible h) (hshow : m.Shows h) : Tracks (handleBytes m.bytes k) (m.after h) :=
  ⟨KeyMove.flagsAgree_run ht.agree hm hshow, bit_handleBytes m.bytes ht.bit⟩

theorem Tracks.byte {k : Keyboard} {h : Hands} (ht : Tracks k h) {byte : U8}
    (hallows : h.Allows byte) : Tracks (keyboardHandle byte k).1 h :=
  ⟨(flagsAgree_byte_iff ht.agree byte).2 hallows, bit_handleBytes [byte] ht.bit⟩

/-- Behind each byte of a move but the last one the hands are as they were for the flags. -/
theorem KeyMove.allows_dropLast {m : KeyMove} {h : Hands} (hm : m.Possible h)
    (hshow : m.Shows h) : ∀ byte ∈ m.bytes.dropLast, h.Allows byte := by
  intro byte hbyte
  have hnone : ∀ code ∈ m.key.code, h.Allows byte := by
    intro code hcode
    rw [hm.sends code hcode] at hbyte
    exact absurd hbyte List.not_mem_nil
  unfold Shows at hshow
  cases hkey : m.key with
  | leftShift => exact hnone 0x2A (by rw [hkey]; rfl)
  | rightShift => exact hnone 0x36 (by rw [hkey]; rfl)
  | capsLock => exact hnone 0x3A (by rw [hkey]; rfl)
  | other n =>
    rw [hkey] at hshow
    exact hshow byte (List.dropLast_subset _ hbyte)

/-! ## One stroke, and a run of them -/

theorem make_of_low : ∀ byte : U8, byte &&& 0x80 = 0 →
    (byte.setWidth 7 : BitVec 7).setWidth 8 = byte := by decide

/-- **The key that a byte hands on.** -/
theorem key_handle {k : Keyboard} {h : Hands} (ht : Tracks k h) (byte : U8) :
    (keyboardHandle byte k).2.key = h.types byte := by
  unfold Hands.types
  split
  · rename_i hlow
    rw [ht.eq, Hands.key, ← keyboardHandle_make, make_of_low byte hlow]
  · rename_i hhigh
    exact congrArg KeyboardCall.key (keyboardHandle_high hhigh k)

/-- What is written on the terminal is nothing to the editor. -/
theorem Represents.onTerminal {s : Shell} {e : Editor} (h : Represents s e)
    (f : Terminal → Terminal) : Represents (s.onTerminal f) e := ⟨h.frame, h.line⟩

theorem keyInterrupt_represents {k : Keyboard} {s : Shell} {e : Editor} (h : Represents s e)
    (commands : Commands) (scancode : U8) :
    ∃ s', keyInterrupt commands scancode (k, s) = some ((keyboardHandle scancode k).1, s') ∧
      Represents s' ((keyboardHandle scancode k).2.key.elim e fun key => key.edit e) := by
  unfold keyInterrupt
  dsimp only
  cases (keyboardHandle scancode k).2 with
  | nothing => exact ⟨s, rfl, h⟩
  | shell key =>
    obtain ⟨s', hexec, hrep, -⟩ := Event.exec_represents ⟨key, commands⟩ h
    exact ⟨s', by rw [KeyboardCall.exec, hexec]; rfl, hrep⟩
  | unknown w => exact ⟨_, rfl, h.onTerminal _⟩

/-- **The bytes of a stroke** edit the line by what they type. -/
theorem interruptAll_represents (commands : Commands) {h : Hands} : ∀ {bytes : List U8}
    {k : Keyboard} {s : Shell} {e : Editor}, Represents s e → Tracks k h →
      (∀ byte ∈ bytes.dropLast, h.Allows byte) →
        ∃ s', interruptAll commands bytes (k, s) = some (handleBytes bytes k, s') ∧
          Represents s'
            (editAll ((bytes.filterMap h.types).map fun key => ⟨key, commands⟩) e) := by
  intro bytes
  induction bytes with
  | nil => exact fun hrep _ _ => ⟨_, rfl, hrep⟩
  | cons byte bytes ih =>
    intro k s e hrep ht hallows
    obtain ⟨s₁, hfirst, hrep₁⟩ := keyInterrupt_represents (k := k) hrep commands byte
    rw [key_handle ht] at hrep₁
    have hrest : ∃ s', interruptAll commands bytes ((keyboardHandle byte k).1, s₁) =
        some (handleBytes bytes (keyboardHandle byte k).1, s') ∧
          Represents s' (editAll ((bytes.filterMap h.types).map fun key => ⟨key, commands⟩)
            ((h.types byte).elim e fun key => key.edit e)) := by
      cases bytes with
      | nil => exact ⟨s₁, rfl, hrep₁⟩
      | cons next bytes =>
        refine ih hrep₁ (ht.byte (hallows byte List.mem_cons_self)) fun b hb => ?_
        exact hallows b (List.mem_cons_of_mem byte hb)
    obtain ⟨s', hrun, hrep'⟩ := hrest
    refine ⟨s', ?_, ?_⟩
    · rw [interruptAll, hfirst]
      exact hrun
    · rw [List.filterMap_cons]
      cases htypes : h.types byte with
      | none =>
        rw [htypes] at hrep'
        exact hrep'
      | some key =>
        rw [htypes] at hrep'
        exact hrep'

/-- **One stroke** edits the line by what its key types. -/
theorem Stroke.exec_represents {k : Keyboard} {h : Hands} {s : Shell} {e : Editor}
    (hrep : Represents s e) (ht : Tracks k h) {stroke : Stroke} (hm : stroke.move.Possible h)
    (hshow : stroke.move.Shows h) :
    ∃ s', stroke.exec (k, s) = some (handleBytes stroke.move.bytes k, s') ∧
      Represents s' (editAll (stroke.events h) e) :=
  interruptAll_represents stroke.commands hrep ht (KeyMove.allows_dropLast hm hshow)

theorem typeAll_represents : ∀ {strokes : List Stroke} {k : Keyboard} {h : Hands} {s : Shell}
    {e : Editor}, Represents s e → Tracks k h → AllPossible (moves strokes) h →
      AllShow (moves strokes) h → ∃ k' s', typeAll strokes (k, s) = some (k', s') ∧
        Tracks k' (handsAfter (moves strokes) h) ∧
          Represents s' (editAll (typedEvents strokes h) e) := by
  intro strokes
  induction strokes with
  | nil => exact fun hrep ht _ _ => ⟨_, _, rfl, ht, hrep⟩
  | cons stroke strokes ih =>
    rintro k h s e hrep ht ⟨hm, hms⟩ ⟨hshow, hshows⟩
    obtain ⟨s₁, hexec, hrep₁⟩ := Stroke.exec_represents hrep ht hm hshow
    obtain ⟨k', s', hrun, ht', hrep'⟩ := ih hrep₁ (ht.move hm hshow) hms hshows
    refine ⟨k', s', ?_, ht', ?_⟩
    · rw [typeAll, hexec]
      exact hrun
    · rw [typedEvents, editAll, List.foldl_append]
      exact hrep'

theorem byte_plain : ∀ code : BitVec 7, code ∉ [0x2A, 0x36, (0x3A : BitVec 7)] →
    ∀ motion ∈ [Motion.press, .again, .release],
      ¬ (motion.byte code = 0x2A ∨ motion.byte code = 0x36) ∧
        ¬ (motion.byte code = 0xAA ∨ motion.byte code = 0xB6) ∧ motion.byte code ≠ 0x3A := by
  decide +kernel

/-- A key with a code of its own shows whatever the hands do. -/
theorem shows_code {code : BitVec 7} (hcode : code ∉ [0x2A, 0x36, (0x3A : BitVec 7)]) (n : Nat)
    (motion : Motion) (h : Hands) : (codeMove (.other n) code motion).Shows h := by
  intro byte hbyte
  obtain rfl := List.mem_singleton.1 hbyte
  obtain ⟨hmake, hbreak, hcaps⟩ := byte_plain code hcode motion (by cases motion <;> decide)
  exact ⟨fun hd => absurd hd hmake, fun hu => absurd hu hbreak, hcaps⟩

/-- The key with the letter A. -/
def keyA (motion : Motion) : KeyMove := codeMove (.other 0x1E) 0x1E motion

/-- A capital, with the shift key let go before the letter. -/
def capitalA : List Stroke :=
  [leftShiftMove .press, keyA .press, leftShiftMove .release, keyA .release].map
    fun m => ⟨m, saying [] "info"⟩

/-- The characters a key can put into a line. -/
def Typeable (c : U8) : Prop := c = TAB ∨ c = 0x1B ∨ 0x20 ≤ c ∧ c ≤ 0x7E

instance (c : U8) : Decidable (Typeable c) := inferInstanceAs (Decidable (_ ∨ _ ∨ _ ∧ _))

theorem map_typeable : ∀ c ∈ keyboardMap ++ keyboardShiftMap,
    c ≠ 0 → c ≠ NEWLINE → c ≠ BACKSPACE → Typeable c := by
  rw [keyboardMap_codes, keyboardShiftMap_codes]
  decide +kernel

theorem legend_typeable {code : BitVec 7} {c : U8} (hc : c = (legend code).1 ∨ c = (legend code).2)
    (h0 : c ≠ 0) (hnewline : c ≠ NEWLINE) (hback : c ≠ BACKSPACE) : Typeable c := by
  have hmem : ∀ map : List U8, c = map.getD code.toNat 0 → c ∈ map := by
    rintro map rfl
    rw [List.getD_eq_getElem?_getD] at h0 ⊢
    cases hget : map[code.toNat]? with
    | none =>
      rw [hget] at h0
      exact absurd rfl h0
    | some d => exact List.mem_of_getElem? hget
  refine map_typeable c (List.mem_append.2 ?_) h0 hnewline hback
  exact hc.imp (hmem _) (hmem _)

theorem typeable_mem : ∀ c : U8, Typeable c → c ∈ keyboardMap ∨ c ∈ keyboardShiftMap := by
  rw [keyboardMap_codes, keyboardShiftMap_codes]
  decide +kernel

theorem typeable_plain : ∀ c : U8, Typeable c → c ≠ 0 ∧ c ≠ NEWLINE ∧ c ≠ BACKSPACE := by
  decide

theorem legend_navigation : ∀ entry ∈ navigation, legend entry.1 = (0, 0) := by
  simp only [legend, keyboardMap_codes, keyboardShiftMap_codes]
  decide +kernel

/-- Only what can be typed is typed. -/
theorem typeable_of_typedBy {code : BitVec 7} {shift caps : Bool} {c : { c : U8 // c ≠ 0 }}
    (h : typedBy code shift caps = some (.char c)) (hnewline : c.1 ≠ NEWLINE)
    (hback : c.1 ≠ BACKSPACE) : Typeable c.1 := by
  unfold typedBy at h
  split at h
  · rename_i key hkey
    -- the other keys type no character
    have hnone : ∀ entry ∈ navigation, entry.2 ≠ .char c := by
      simp [navigation]
    obtain ⟨l₁, l₂, hsplit, -⟩ := List.lookup_eq_some_iff.1 hkey
    exact absurd (Option.some.inj h) (hnone (code, key) (by rw [hsplit]; simp))
  · split at h
    · rename_i hface
      have hc : c.1 = face code shift caps := by
        rw [← Key.char.inj (Option.some.inj h)]
      have hplace : c.1 = (legend code).1 ∨ c.1 = (legend code).2 := by
        rw [hc, face]
        split
        · exact .inr rfl
        · exact .inl rfl
      exact legend_typeable hplace c.2 hnewline hback
    · cases h

/-- Every character that can be typed is on a key, whichever way caps lock stands. -/
theorem typedBy_of_typeable {c : U8} (hc : Typeable c) (caps : Bool) :
    ∃ (code : BitVec 7) (shift : Bool) (h : c ≠ 0),
      typedBy code shift caps = some (.char ⟨c, h⟩) ∧ code ∉ [0x2A, 0x36, (0x3A : BitVec 7)] := by
  obtain ⟨h0, -, -⟩ := typeable_plain c hc
  have hplace : ∃ (code : BitVec 7) (shift : Bool), face code shift false = c := by
    have hof : ∀ map : List U8, map.length ≤ 128 → c ∈ map →
        ∃ code : BitVec 7, map.getD code.toNat 0 = c := by
      intro map hlength hmem
      obtain ⟨i, hi, rfl⟩ := List.mem_iff_getElem.1 hmem
      refine ⟨BitVec.ofNat 7 i, ?_⟩
      rw [BitVec.toNat_ofNat, Nat.mod_eq_of_lt (by omega), List.getD_eq_getElem _ _ hi]
    rcases typeable_mem c hc with hmem | hmem
    · obtain ⟨code, hcode⟩ := hof _ (by rw [keyboardMap_codes]; decide) hmem
      exact ⟨code, false, hcode⟩
    · obtain ⟨code, hcode⟩ := hof _ (by rw [keyboardShiftMap_codes]; decide) hmem
      exact ⟨code, true, hcode⟩
  obtain ⟨code, shift, hface⟩ := hplace
  -- caps lock is undone with shift
  have hcaps : ∃ shift, face code shift caps = c := by
    refine ⟨shift ^^ (caps && isalpha (legend code).1), ?_⟩
    rw [← hface]
    unfold face
    cases shift <;> cases caps <;> cases isalpha (legend code).1 <;> rfl
  obtain ⟨shift, hface⟩ := hcaps
  have hnav : code ∉ navigation.map Prod.fst := by
    intro hmem
    obtain ⟨entry, hentry, rfl⟩ := List.mem_map.1 hmem
    rw [face, legend_navigation entry hentry, ite_self] at hface
    exact h0 hface.symm
  refine ⟨code, shift, h0, ?_, fun hmod => ?_⟩
  · subst hface
    unfold typedBy
    rw [lookup_navigation hnav]
    exact dif_pos h0
  · exact h0 (hface ▸ (face_modifier code hmod shift caps).2)

/-! ## Typing it -/

theorem allPossible_append : ∀ {ms ms' : List KeyMove} {h : Hands}, AllPossible ms h →
    AllPossible ms' (handsAfter ms h) → AllPossible (ms ++ ms') h := by
  intro ms
  induction ms with
  | nil => exact fun _ h' => h'
  | cons m ms ih => exact fun h h' => ⟨h.1, ih h.2 h'⟩

theorem allShow_append : ∀ {ms ms' : List KeyMove} {h : Hands}, AllShow ms h →
    AllShow ms' (handsAfter ms h) → AllShow (ms ++ ms') h := by
  intro ms
  induction ms with
  | nil => exact fun _ h' => h'
  | cons m ms ih => exact fun h h' => ⟨h.1, ih h.2 h'⟩

/-- The moves, each with the same commands. -/
def withCommands (commands : Commands) (ms : List KeyMove) : List Stroke :=
  ms.map fun m => ⟨m, commands⟩

theorem moves_withCommands (commands : Commands) (ms : List KeyMove) :
    moves (withCommands commands ms) = ms := by
  rw [moves, withCommands, List.map_map]
  exact List.map_id ms

theorem typedEvents_append (commands : Commands) : ∀ {ms ms' : List KeyMove} {h : Hands},
    typedEvents (withCommands commands (ms ++ ms')) h =
      typedEvents (withCommands commands ms) h ++
        typedEvents (withCommands commands ms') (handsAfter ms h) := by
  intro ms
  induction ms with
  | nil => exact fun {ms' h} => rfl
  | cons m ms ih =>
    intro ms' h
    change _ ++ typedEvents (withCommands commands (ms ++ ms')) _ = _
    rw [ih, ← List.append_assoc]
    rfl

/-- The moves type a text and leave the hands as they were. -/
structure Types (commands : Commands) (h : Hands) (ms : List KeyMove) (text : List U8) : Prop where
  possible : AllPossible ms h
  shown : AllShow ms h
  back : handsAfter ms h = h
  events : typedEvents (withCommands commands ms) h = typeText commands text

theorem Types.append {commands : Commands} {h : Hands} {ms ms' : List KeyMove}
    {text text' : List U8} (ht : Types commands h ms text) (ht' : Types commands h ms' text') :
    Types commands h (ms ++ ms') (text ++ text') where
  possible := allPossible_append ht.possible (ht.back.symm ▸ ht'.possible)
  shown := allShow_append ht.shown (ht.back.symm ▸ ht'.shown)
  back := by
    rw [handsAfter, List.foldl_append]
    exact (congrArg (handsAfter ms') ht.back).trans ht'.back
  events := by
    rw [typedEvents_append, ht.back, ht.events, ht'.events, typeText, typeText, typeText,
      List.filterMap_append]

/-- The hands before and after: nothing is held. -/
def restingHands (caps : Bool) : Hands := ⟨∅, caps.toNat⟩

theorem Hands.key_eq {h : Hands} {shift caps : Bool} (hs : h.shift ↔ shift = true)
    (hc : h.caps ↔ caps = true) (code : BitVec 7) : h.key code = typedBy code shift caps := by
  rw [Hands.key, decide_eq_decide.2 hs, decide_eq_decide.2 hc]
  cases shift <;> cases caps <;> rfl

theorem make_low : ∀ code : BitVec 7, (code.setWidth 8 : U8) &&& 0x80 = 0 ∧
    ((code.setWidth 8 : U8).setWidth 7 : BitVec 7) = code ∧
      (code.setWidth 8 ||| 0x80 : U8) &&& 0x80 ≠ 0 := by decide

theorem Hands.types_make (h : Hands) (code : BitVec 7) :
    h.types (code.setWidth 8) = h.key code := by
  obtain ⟨hlow, hcode, -⟩ := make_low code
  rw [Hands.types, if_pos hlow, hcode]

theorem Hands.types_break (h : Hands) (code : BitVec 7) :
    h.types (code.setWidth 8 ||| 0x80) = none := if_neg (make_low code).2.2

/-- The events of a key with one code. -/
theorem Stroke.events_codeMove (h : Hands) (key : PhysKey) (code : BitVec 7) (motion : Motion)
    (commands : Commands) : Stroke.events h ⟨codeMove key code motion, commands⟩ =
      ((h.types (motion.byte code)).map fun key => (⟨key, commands⟩ : Event)).toList := by
  unfold Stroke.events codeMove
  dsimp only
  rw [List.filterMap_cons]
  cases h.types (motion.byte code) <;> rfl

theorem Stroke.events_release (h : Hands) (key : PhysKey) (code : BitVec 7)
    (commands : Commands) : Stroke.events h ⟨codeMove key code .release, commands⟩ = [] := by
  rw [Stroke.events_codeMove, Motion.byte, Hands.types_break]
  rfl

/-- A key goes down and up again. -/
theorem types_press {commands : Commands} {h : Hands} {n : Nat} {code : BitVec 7} {c : U8}
    {h0 : c ≠ 0} (hfree : .other n ∉ h.held) (hcode : code ∉ [0x2A, 0x36, (0x3A : BitVec 7)])
    (htyped : h.key code = some (.char ⟨c, h0⟩)) :
    Types commands h [codeMove (.other n) code .press, codeMove (.other n) code .release] [c] where
  possible := by
    refine ⟨possible_other rfl ?_, possible_other rfl ?_, trivial⟩
    · exact iff_of_false hfree fun hne => hne rfl
    · exact iff_of_true (Set.mem_insert _ _) nofun
  shown := ⟨shows_code hcode n _ _, shows_code hcode n _ _, trivial⟩
  back := by
    change (⟨insert (.other n) h.held \ {.other n}, h.capsPresses + 0⟩ : Hands) = h
    rw [Set.insert_sdiff_self_of_notMem hfree]
    rfl
  events := by
    have hpress : Stroke.events h ⟨codeMove (.other n) code .press, commands⟩ =
        [⟨.char ⟨c, h0⟩, commands⟩] := by
      rw [Stroke.events_codeMove, Motion.byte, Hands.types_make, htyped]
      rfl
    change Stroke.events h ⟨codeMove (.other n) code .press, commands⟩ ++
      (Stroke.events _ ⟨codeMove (.other n) code .release, commands⟩ ++ []) = _
    rw [hpress, Stroke.events_release, typeText_cons commands h0]
    rfl

/-- Something is typed with a shift key held. -/
theorem types_shifted {commands : Commands} {h : Hands} {ms : List KeyMove} {text : List U8}
    (hleft : .leftShift ∉ h.held) (hright : .rightShift ∉ h.held)
    (ht : Types commands ((leftShiftMove .press).after h) ms text) :
    Types commands h (leftShiftMove .press :: (ms ++ [leftShiftMove .release])) text where
  possible := by
    refine ⟨possible_leftShift (iff_of_false hleft fun hne => hne rfl),
      allPossible_append ht.possible ?_⟩
    rw [ht.back]
    exact ⟨possible_leftShift (iff_of_true (Set.mem_insert _ _) (by decide)), trivial⟩
  shown := by
    refine ⟨nofun, allShow_append ht.shown ?_⟩
    rw [ht.back]
    refine ⟨fun _ hmem => ?_, trivial⟩
    rcases hmem with heq | hmem
    · exact absurd heq (by decide)
    · exact hright hmem
  back := by
    have hafter : handsAfter (leftShiftMove .press :: (ms ++ [leftShiftMove .release])) h =
        handsAfter [leftShiftMove .release] (handsAfter ms ((leftShiftMove .press).after h)) :=
      List.foldl_append
    rw [hafter, ht.back]
    change (⟨insert .leftShift h.held \ {.leftShift}, h.capsPresses + 0⟩ : Hands) = h
    rw [Set.insert_sdiff_self_of_notMem hleft]
    rfl
  events := by
    have hpress : Stroke.events h ⟨leftShiftMove .press, commands⟩ = [] := by
      rw [leftShiftMove, Stroke.events_codeMove, Motion.byte, Hands.types_make, Hands.key,
        typedBy_modifier (by decide)]
      rfl
    change Stroke.events h ⟨leftShiftMove .press, commands⟩ ++
      typedEvents (withCommands commands (ms ++ [leftShiftMove .release])) _ = _
    rw [hpress, typedEvents_append, ht.events]
    change _ ++ (_ ++ (Stroke.events _ ⟨leftShiftMove .release, commands⟩ ++ [])) = _
    rw [leftShiftMove, leftShiftMove, Stroke.events_release]
    exact List.append_nil _

/-- A key that types a character is tapped, with a shift key held or without. -/
theorem types_code (commands : Commands) {c : U8} {h0 : c ≠ 0} {code : BitVec 7} {shift : Bool}
    {h : Hands} (hfree : h.held = ∅) {caps : Bool} (hcaps : h.caps ↔ caps = true)
    (htyped : typedBy code shift caps = some (.char ⟨c, h0⟩))
    (hmod : code ∉ [0x2A, 0x36, (0x3A : BitVec 7)]) : ∃ ms, Types commands h ms [c] := by
  have hnone : ∀ k, k ∉ h.held := fun k hk => by rw [hfree] at hk; exact hk
  cases shift with
  | false =>
    have hheld : ¬ h.shift := by rintro (hk | hk) <;> exact hnone _ hk
    have hkey : h.key code = some (.char ⟨c, h0⟩) := by
      rw [Hands.key_eq (iff_of_false hheld Bool.false_ne_true) hcaps]
      exact htyped
    exact ⟨_, types_press (n := 0) (hnone _) hmod hkey⟩
  | true =>
    have hheld : ((leftShiftMove .press).after h).shift := .inl (.inl rfl)
    have hfree' : .other 0 ∉ ((leftShiftMove .press).after h).held := by
      rintro (heq | hmem)
      · exact absurd heq (by decide)
      · exact hnone _ hmem
    have hkey : ((leftShiftMove .press).after h).key code = some (.char ⟨c, h0⟩) := by
      rw [Hands.key_eq (iff_of_true hheld rfl) hcaps]
      exact htyped
    exact ⟨_, types_shifted (hnone _) (hnone _) (types_press hfree' hmod hkey)⟩

theorem Hands.caps_iff (h : Hands) : h.caps ↔ decide (h.capsPresses % 2 = 1) = true := by
  rw [decide_eq_true_eq, Hands.caps]

/-- **Every text of such characters** is typed by hands that hold nothing. -/
theorem types_text (commands : Commands) {h : Hands} (hfree : h.held = ∅) : ∀ {text : List U8},
    (∀ c ∈ text, Typeable c) → ∃ ms, Types commands h ms text := by
  intro text
  induction text with
  | nil => exact fun _ => ⟨[], trivial, trivial, rfl, rfl⟩
  | cons c text ih =>
    intro hchars
    obtain ⟨code, shift, h0, htyped, hmod⟩ :=
      typedBy_of_typeable (hchars c List.mem_cons_self) (decide (h.capsPresses % 2 = 1))
    obtain ⟨ms, hfirst⟩ := types_code commands hfree h.caps_iff htyped hmod
    obtain ⟨ms', hrest⟩ := ih fun d hd => hchars d (List.mem_cons_of_mem c hd)
    exact ⟨ms ++ ms', hfirst.append hrest⟩

/-! ## The lines that can be typed -/

theorem tracks_resting (caps : Bool) : Tracks (flagsOf false caps) (restingHands caps) := by
  refine ⟨⟨iff_of_false (by cases caps <;> decide) ?_, ?_⟩, .inl rfl⟩
  · rintro (h | h) <;> exact h
  · cases caps <;> rfl

theorem typed_over : ∀ {strokes : List Stroke} {h : Hands}, ∀ event ∈ typedEvents strokes h,
    ∀ c, event.key = .char c → c.1 ≠ NEWLINE → c.1 ≠ BACKSPACE → Typeable c.1 := by
  intro strokes
  induction strokes with
  | nil => exact fun _ hmem => absurd hmem List.not_mem_nil
  | cons stroke strokes ih =>
    intro h event hmem c hc hnewline hback
    rcases List.mem_append.1 hmem with hmem | hmem
    · obtain ⟨key, hkey, rfl⟩ := List.mem_map.1 hmem
      obtain ⟨byte, -, htypes⟩ := List.mem_filterMap.1 hkey
      unfold Hands.types at htypes
      split at htypes
      · exact typeable_of_typedBy (htypes.trans (congrArg some hc)) hnewline hback
      · cases htypes
    · exact ih event hmem c hc hnewline hback

end Frewozet
