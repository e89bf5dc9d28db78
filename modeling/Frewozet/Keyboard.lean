import Frewozet.Shell.Code
import Mathlib.Data.Set.Insert

/-!
# `keyboard.c`

What the keyboard interrupt makes of one scancode after the other.

* `Keyboard`, `keyboardTranslateScancode`, `keyboardHandle` — the code, with the call
  into the shell it ends in.
* `PhysKey`, `KeyMove`, `Hands` — the keys themselves: which are held, and the bytes that the
  keyboard sends for a press, a repeat and a release.
* `FlagsAgree` — the two flags say what the hands do.
* `modifiers_agree_iff` — **they do exactly if no shift key is released while the other is
  held, caps lock does not repeat, and no other key sends a shift code that the hands belie**:
  there is one flag for two keys, caps lock is toggled by every make code, and a byte 0xE0 in
  front of a code is forgotten.
-/

namespace Frewozet

/-! ## The maps -/

/-- `keyboard_map`, up to its last entry that is not 0. -/
def keyboardMap : List U8 :=
  [0, 27] ++ chars "1234567890-=" ++ [BACKSPACE, TAB] ++ chars "qwertyuiop[]" ++ [NEWLINE, 0] ++
    chars "asdfghjkl;'`" ++ [0] ++ chars "\\zxcvbnm,./" ++ [0] ++ chars "*" ++ [0] ++ chars " "

/-- `keyboard_shift_map`, up to its last entry that is not 0. -/
def keyboardShiftMap : List U8 :=
  [0, 27] ++ chars "!\"#$%^&*()_+" ++ [BACKSPACE, TAB] ++ chars "QWERTYUIOP\x7b\x7d" ++
    [NEWLINE, 0] ++ chars "ASDFGHJKL:@~" ++ [0] ++ chars "|ZXCVBNM<>?" ++ [0] ++ chars "*" ++
    [0] ++ chars " "

/-- `isalpha`. -/
def isalpha (c : U8) : Bool := (0x61 ≤ c && c ≤ 0x7A) || (0x41 ≤ c && c ≤ 0x5A)

/-- `toupper`. -/
def toupper (c : U8) : U8 := if 0x61 ≤ c ∧ c ≤ 0x7A then c - 0x61 + 0x41 else c

/-- `tolower`. -/
def tolower (c : U8) : U8 := if 0x41 ≤ c ∧ c ≤ 0x5A then c - 0x41 + 0x61 else c

/-! ## The code -/

/-- The statics of `keyboard.c`. -/
structure Keyboard where
  shiftDown : U32 := 0
  capsLockOn : U32 := 0

/-- `keyboard_translate_scancode`. -/
def keyboardTranslateScancode (scancode : U8) (k : Keyboard) : U8 :=
  if scancode ≥ 128 then 0
  else
    let c :=
      if k.shiftDown ≠ 0 then keyboardShiftMap.getD scancode.toNat 0
      else keyboardMap.getD scancode.toNat 0
    if c = 0 then 0
    else if isalpha c then
      if k.shiftDown ^^^ k.capsLockOn ≠ 0 then toupper c else tolower c
    else c

/-- What `keyboard_handle` does besides setting its flags. -/
inductive KeyboardCall where
  | nothing
  | shell (key : Key)
  | unknown (scancode : U8)

/-- `keyboard_handle`, for the scancode that `inb(0x60)` reads. -/
def keyboardHandle (scancode : U8) (k : Keyboard) : Keyboard × KeyboardCall :=
  if scancode = 0x48 then (k, .shell .historyPrev)
  else if scancode = 0x50 then (k, .shell .historyNext)
  else if scancode = 0x4B then (k, .shell .moveLeft)
  else if scancode = 0x4D then (k, .shell .moveRight)
  else if scancode = 0x47 then (k, .shell .moveHome)
  else if scancode = 0x4F then (k, .shell .moveEnd)
  else if scancode = 0x53 then (k, .shell .deleteForward)
  else if scancode = 0x2A ∨ scancode = 0x36 then ({ k with shiftDown := 1 }, .nothing)
  else if scancode = 0xAA ∨ scancode = 0xB6 then ({ k with shiftDown := 0 }, .nothing)
  else if scancode = 0x3A then
    ({ k with capsLockOn := if k.capsLockOn = 0 then 1 else 0 }, .nothing)
  else if scancode &&& 0x80 ≠ 0 then (k, .nothing)
  else
    let c := keyboardTranslateScancode scancode k
    if h : c ≠ 0 then (k, .shell (.char ⟨c, h⟩)) else (k, .unknown scancode)

/-- `terminal_write_hex_digit`. -/
def terminalWriteHexDigit (v : U8) (t : Terminal) : Terminal :=
  if v < 10 then terminalWritechar (0x30 + v) t else terminalWritechar (0x41 + (v - 10)) t

/-- `terminal_write_hex8`. -/
def terminalWriteHex8 (v : U8) (t : Terminal) : Terminal :=
  terminalWriteHexDigit (v &&& 0x0F) (terminalWriteHexDigit ((v >>> 4) &&& 0x0F) t)

/-- The call, made. -/
def KeyboardCall.exec (commands : Commands) (s : Shell) : KeyboardCall → Option Shell
  | nothing => some s
  | shell key => Event.exec ⟨key, commands⟩ s
  | unknown scancode => some (s.onTerminal fun t =>
      terminalWrite (chars " >")
        (terminalWriteHex8 scancode (terminalWrite (chars "< [?] @ 0x") t)))

/-! ## Keys and hands -/

/-- A key: one of the three modifiers, or another one. -/
inductive PhysKey where
  | leftShift
  | rightShift
  | capsLock
  | other (number : Nat)
  deriving DecidableEq

/-- The code of a modifier. -/
def PhysKey.code : PhysKey → Option (BitVec 7)
  | leftShift => some 0x2A
  | rightShift => some 0x36
  | capsLock => some 0x3A
  | other _ => none

/-- What can be done with a key, `again` being what a held key does on its own. -/
inductive Motion where
  | press
  | again
  | release
  deriving DecidableEq

/-- The make code for a press and a repeat, the break code for a release. -/
def Motion.byte (code : BitVec 7) : Motion → U8
  | press => code.setWidth 8
  | again => code.setWidth 8
  | release => code.setWidth 8 ||| 0x80

/-- What is done with a key, and the bytes that the keyboard sends for it.  They go with the
move and not with the key: Print Screen sends E0 2A E0 37 when it goes down and only E0 37 when
it repeats, and the grey keys send E0 AA or E0 2A besides, as the shift keys and num lock
stand. -/
structure KeyMove where
  motion : Motion
  key : PhysKey
  bytes : List U8

/-- The keys that are held, and how often caps lock has been pressed. -/
structure Hands where
  held : Set PhysKey
  capsPresses : Nat

/-- No key is held, and caps lock has not been pressed. -/
def idleHands : Hands := ⟨∅, 0⟩

/-- A shift key is held. -/
def Hands.shift (h : Hands) : Prop := .leftShift ∈ h.held ∨ .rightShift ∈ h.held

/-- A move of a key with a single code. -/
def codeMove (key : PhysKey) (code : BitVec 7) (motion : Motion) : KeyMove :=
  ⟨motion, key, [motion.byte code]⟩

namespace KeyMove

/-- Keys that are held repeat and are released, the others are pressed; and a modifier sends
its code. -/
structure Possible (h : Hands) (m : KeyMove) : Prop where
  held : m.key ∈ h.held ↔ m.motion ≠ .press
  sends : ∀ code ∈ m.key.code, m.bytes = [m.motion.byte code]

/-- The hands afterwards. -/
def after (h : Hands) (m : KeyMove) : Hands :=
  match m.motion with
  | .press => ⟨insert m.key h.held, h.capsPresses + if m.key = .capsLock then 1 else 0⟩
  | .again => h
  | .release => ⟨h.held \ {m.key}, h.capsPresses⟩

end KeyMove

/-- What `keyboard_handle` leaves, byte by byte. -/
def byteVisits : List U8 → Keyboard → List Keyboard
  | [], _ => []
  | byte :: bytes, k => (keyboardHandle byte k).1 :: byteVisits bytes (keyboardHandle byte k).1

/-- What it leaves after the last of them. -/
def handleBytes (bytes : List U8) (k : Keyboard) : Keyboard :=
  bytes.foldl (fun k byte => (keyboardHandle byte k).1) k

namespace KeyMove

/-- The states after each call of `keyboard_handle` for the move, with the hands as they
are then. -/
def visits (m : KeyMove) (s : Keyboard × Hands) : List (Keyboard × Hands) :=
  (byteVisits m.bytes s.1).map fun k => (k, m.after s.2)

/-- The state after the move. -/
def run (m : KeyMove) (s : Keyboard × Hands) : Keyboard × Hands :=
  (handleBytes m.bytes s.1, m.after s.2)

end KeyMove

/-- Each move is possible when it is made. -/
def AllPossible : List KeyMove → Hands → Prop
  | [], _ => True
  | m :: ms, h => m.Possible h ∧ AllPossible ms (m.after h)

/-- The states after each call of `keyboard_handle` in a run. -/
def keyVisits : List KeyMove → Keyboard × Hands → List (Keyboard × Hands)
  | [], _ => []
  | m :: ms, s => m.visits s ++ keyVisits ms (m.run s)

/-- The flags say what the hands do. -/
structure FlagsAgree (s : Keyboard × Hands) : Prop where
  shift : s.1.shiftDown ≠ 0 ↔ s.2.shift
  caps : s.1.capsLockOn.toNat = s.2.capsPresses % 2

/-- A byte that a key other than the modifiers sends is not belied by the hands: no make code
of a shift key while none is held, no break code of one while one is, and not the code of caps
lock. -/
structure Hands.Allows (h : Hands) (byte : U8) : Prop where
  down : byte = 0x2A ∨ byte = 0x36 → h.shift
  up : byte = 0xAA ∨ byte = 0xB6 → ¬ h.shift
  caps : byte ≠ 0x3A

/-- The move shows in its bytes: no shift key is released while the other is held, caps lock
does not repeat, and the bytes of another key are not belied by the hands. -/
def KeyMove.Shows (h : Hands) (m : KeyMove) : Prop :=
  match m.key with
  | .leftShift => m.motion = .release → .rightShift ∉ h.held
  | .rightShift => m.motion = .release → .leftShift ∉ h.held
  | .capsLock => m.motion ≠ .again
  | .other _ => ∀ byte ∈ m.bytes, h.Allows byte

/-- Each move shows in its bytes. -/
def AllShow : List KeyMove → Hands → Prop
  | [], _ => True
  | m :: ms, h => m.Shows h ∧ AllShow ms (m.after h)

/-! ## What a byte does to the flags -/

/-- The flags after a byte. -/
def byteFlags (byte : U8) (k : Keyboard) : Keyboard :=
  if byte = 0x2A ∨ byte = 0x36 then { k with shiftDown := 1 }
  else if byte = 0xAA ∨ byte = 0xB6 then { k with shiftDown := 0 }
  else if byte = 0x3A then { k with capsLockOn := if k.capsLockOn = 0 then 1 else 0 }
  else k

/-- **`keyboard_handle` does that to them**, whatever stands in front of the byte. -/
theorem keyboardHandle_flags (byte : U8) (k : Keyboard) :
    (keyboardHandle byte k).1 = byteFlags byte k := by
  have harrow : ∀ b : U8, b ∈ [0x48, 0x50, 0x4B, 0x4D, 0x47, 0x4F, (0x53 : U8)] →
      byteFlags b k = k := by
    intro b hb
    simp only [List.mem_cons, List.not_mem_nil, or_false] at hb
    rcases hb with rfl | rfl | rfl | rfl | rfl | rfl | rfl <;> rfl
  by_cases hb : byte ∈ [0x48, 0x50, 0x4B, 0x4D, 0x47, 0x4F, (0x53 : U8)]
  · rw [harrow byte hb]
    simp only [List.mem_cons, List.not_mem_nil, or_false] at hb
    rcases hb with rfl | rfl | rfl | rfl | rfl | rfl | rfl <;> rfl
  · simp only [List.mem_cons, List.not_mem_nil, or_false, not_or] at hb
    obtain ⟨h1, h2, h3, h4, h5, h6, h7⟩ := hb
    unfold keyboardHandle byteFlags
    rw [if_neg h1, if_neg h2, if_neg h3, if_neg h4, if_neg h5, if_neg h6, if_neg h7]
    simp only [apply_ite Prod.fst, apply_dite Prod.fst, ite_self, dite_eq_ite]

theorem byteFlags_of_make {byte : U8} (h : byte = 0x2A ∨ byte = 0x36) (k : Keyboard) :
    byteFlags byte k = { k with shiftDown := 1 } := if_pos h

theorem byteFlags_of_break {byte : U8} (h : byte = 0xAA ∨ byte = 0xB6) (k : Keyboard) :
    byteFlags byte k = { k with shiftDown := 0 } := by
  rcases h with rfl | rfl <;> rfl

theorem byteFlags_caps (k : Keyboard) :
    byteFlags 0x3A k = { k with capsLockOn := if k.capsLockOn = 0 then 1 else 0 } := rfl

theorem byteFlags_of_other {byte : U8} (hmake : ¬ (byte = 0x2A ∨ byte = 0x36))
    (hbreak : ¬ (byte = 0xAA ∨ byte = 0xB6)) (hcaps : byte ≠ 0x3A) (k : Keyboard) :
    byteFlags byte k = k := by
  rw [byteFlags, if_neg hmake, if_neg hbreak, if_neg hcaps]

/-! ## When the flags agree -/

theorem toggle_toNat {c : U32} {n : Nat} (h : c.toNat = n % 2) :
    (if c = 0 then 1 else 0 : U32).toNat = (n + 1) % 2 := by
  by_cases hc : c = 0
  · rw [if_pos hc]
    rw [hc] at h
    change 0 = n % 2 at h
    change 1 = _
    omega
  · rw [if_neg hc]
    have hne : c.toNat ≠ 0 := fun h0 => hc (BitVec.eq_of_toNat_eq h0)
    change 0 = _
    omega

theorem one_ne : (1 : U32) ≠ 0 := by decide

section

variable {k : Keyboard} {h h' : Hands}

/-- It matters of the hands only which shift is held and how often caps lock was pressed. -/
theorem FlagsAgree.hands (hs : FlagsAgree (k, h)) (hshift : h'.shift ↔ h.shift)
    (hcaps : h'.capsPresses = h.capsPresses) : FlagsAgree (k, h') :=
  ⟨hs.shift.trans hshift.symm, hs.caps.trans (congrArg (· % 2) hcaps.symm)⟩

/-- **One byte of another key.**  Flags that agree before it agree after it exactly if the hands
do not belie it. -/
theorem flagsAgree_byte_iff (hs : FlagsAgree (k, h)) (byte : U8) :
    FlagsAgree ((keyboardHandle byte k).1, h) ↔ h.Allows byte := by
  rw [keyboardHandle_flags]
  by_cases hmake : byte = 0x2A ∨ byte = 0x36
  · rw [byteFlags_of_make hmake]
    have hshift : FlagsAgree ({ k with shiftDown := 1 }, h) ↔ h.shift :=
      ⟨fun hagree => hagree.shift.1 one_ne, fun hheld => ⟨iff_of_true one_ne hheld, hs.caps⟩⟩
    have hother : ¬ (byte = 0xAA ∨ byte = 0xB6) ∧ byte ≠ 0x3A := by
      rcases hmake with rfl | rfl <;> decide
    rw [hshift]
    exact ⟨fun hheld => ⟨fun _ => hheld, fun hup => absurd hup hother.1, hother.2⟩,
      fun hallows => hallows.down hmake⟩
  by_cases hbreak : byte = 0xAA ∨ byte = 0xB6
  · rw [byteFlags_of_break hbreak]
    have hshift : FlagsAgree ({ k with shiftDown := 0 }, h) ↔ ¬ h.shift :=
      ⟨fun hagree hheld => hagree.shift.2 hheld rfl,
        fun hfree => ⟨iff_of_false (fun hne => hne rfl) hfree, hs.caps⟩⟩
    rw [hshift]
    refine ⟨fun hfree => ⟨fun hd => absurd hd hmake, fun _ => hfree, ?_⟩,
      fun hallows => hallows.up hbreak⟩
    rcases hbreak with rfl | rfl <;> decide
  by_cases hcaps : byte = 0x3A
  · refine iff_of_false (fun hagree => ?_) fun hallows => hallows.caps hcaps
    -- the flag has changed, and the number of presses has not
    have hflip := hagree.caps
    have htoggle := toggle_toNat hs.caps
    rw [hcaps, byteFlags_caps] at hflip
    dsimp only at hflip htoggle
    omega
  · rw [byteFlags_of_other hmake hbreak hcaps]
    exact iff_of_true hs
      ⟨fun hd => absurd hd hmake, fun hu => absurd hu hbreak, hcaps⟩

/-- **The bytes of another key.** -/
theorem flagsAgree_bytes_iff : ∀ {bytes : List U8} {k : Keyboard}, FlagsAgree (k, h) →
    ((∀ u ∈ byteVisits bytes k, FlagsAgree (u, h)) ↔ ∀ byte ∈ bytes, h.Allows byte) := by
  intro bytes
  induction bytes with
  | nil =>
    exact fun _ => iff_of_true (fun u hu => absurd hu List.not_mem_nil)
      (fun byte hb => absurd hb List.not_mem_nil)
  | cons byte bytes ih =>
    intro k hs
    have hone := flagsAgree_byte_iff hs byte
    rw [byteVisits, List.forall_mem_cons, List.forall_mem_cons, hone]
    exact and_congr_right fun hallows => ih (hone.2 hallows)

/-- The state after the last byte is one of those that were visited, or the first one. -/
theorem handleBytes_mem : ∀ (bytes : List U8) (k : Keyboard),
    handleBytes bytes k = k ∨ handleBytes bytes k ∈ byteVisits bytes k := by
  intro bytes
  induction bytes with
  | nil => exact fun k => .inl rfl
  | cons byte bytes ih =>
    intro k
    refine .inr (List.mem_cons.2 ?_)
    exact ih (keyboardHandle byte k).1

/-- **A shift key.**  Its byte sets or clears the flag. -/
theorem flagsAgree_make (hs : FlagsAgree (k, h)) {byte : U8} (hbyte : byte = 0x2A ∨ byte = 0x36)
    (hshift : h'.shift) (hcaps : h'.capsPresses = h.capsPresses) :
    FlagsAgree ((keyboardHandle byte k).1, h') := by
  rw [keyboardHandle_flags, byteFlags_of_make hbyte]
  exact ⟨iff_of_true one_ne hshift, hs.caps.trans (congrArg (· % 2) hcaps.symm)⟩

theorem flagsAgree_break_iff (hs : FlagsAgree (k, h)) {byte : U8}
    (hbyte : byte = 0xAA ∨ byte = 0xB6) (hcaps : h'.capsPresses = h.capsPresses) :
    FlagsAgree ((keyboardHandle byte k).1, h') ↔ ¬ h'.shift := by
  rw [keyboardHandle_flags, byteFlags_of_break hbyte]
  refine ⟨fun hagree hheld => hagree.shift.2 hheld rfl, fun hfree => ⟨?_, ?_⟩⟩
  · exact iff_of_false (fun hne => hne rfl) hfree
  · exact hs.caps.trans (congrArg (· % 2) hcaps.symm)

end

/-! ## One move -/

namespace KeyMove

variable {h : Hands} {m : KeyMove}

/-- Another key leaves the shift keys as they are. -/
theorem after_shift (hleft : m.key ≠ .leftShift) (hright : m.key ≠ .rightShift) (h : Hands) :
    (m.after h).shift ↔ h.shift := by
  have hmem : ∀ key, key ≠ m.key → (key ∈ (m.after h).held ↔ key ∈ h.held) := by
    intro key hne
    unfold after
    cases m.motion with
    | press => exact or_iff_right hne
    | again => exact Iff.rfl
    | release => exact and_iff_left hne
  exact or_congr (hmem _ hleft.symm) (hmem _ hright.symm)

theorem after_capsPresses (hm : m.key ≠ .capsLock ∨ m.motion ≠ .press) (h : Hands) :
    (m.after h).capsPresses = h.capsPresses := by
  unfold after
  cases hmotion : m.motion with
  | press => exact congrArg (h.capsPresses + ·) (if_neg (hm.resolve_right fun hne => hne hmotion))
  | again => rfl
  | release => rfl

/-- A shift key that is pressed or repeats is held afterwards. -/
theorem mem_after (hm : m.Possible h) (hdown : m.motion ≠ .release) : m.key ∈ (m.after h).held := by
  unfold after
  cases hmotion : m.motion with
  | press => exact Set.mem_insert _ _
  | again => exact hm.held.2 (by rw [hmotion]; decide)
  | release => exact absurd hmotion hdown

/-- A shift key that is released leaves the other one. -/
theorem after_release {key other : PhysKey} (hkey : m.key = key) (hmotion : m.motion = .release)
    (hne : other ≠ key) (h : Hands) :
    key ∉ (m.after h).held ∧ (other ∈ (m.after h).held ↔ other ∈ h.held) := by
  unfold after
  rw [hmotion, hkey]
  exact ⟨fun hmem => hmem.2 rfl, and_iff_left hne⟩

variable {k : Keyboard}

/-- **Another key's move.** -/
theorem flagsAgree_other_iff {n : Nat} (hs : FlagsAgree (k, h)) (hkey : m.key = .other n) :
    (∀ u ∈ m.visits (k, h), FlagsAgree u) ↔ ∀ byte ∈ m.bytes, h.Allows byte := by
  have hshift := m.after_shift (by rw [hkey]; nofun) (by rw [hkey]; nofun) h
  have hcaps := m.after_capsPresses (.inl (by rw [hkey]; nofun)) h
  rw [visits, List.forall_mem_map, ← flagsAgree_bytes_iff hs]
  exact forall₂_congr fun u _ =>
    ⟨fun ha => ha.hands hshift.symm hcaps.symm, fun ha => ha.hands hshift hcaps⟩

/-- A modifier's move is a single call. -/
theorem forall_visits {code : BitVec 7} {P : Keyboard × Hands → Prop}
    (hbytes : m.bytes = [m.motion.byte code]) (s : Keyboard × Hands) :
    (∀ u ∈ m.visits s, P u) ↔ P ((keyboardHandle (m.motion.byte code) s.1).1, m.after s.2) := by
  rw [visits, hbytes]
  exact List.forall_mem_singleton

/-- **A shift key's move**: its release does not show while the other one is held. -/
theorem flagsAgree_shift_iff {key other : PhysKey} {code : BitVec 7} (hs : FlagsAgree (k, h))
    (hm : m.Possible h) (hkey : m.key = key) (hcode : key.code = some code)
    (hbytes : (code.setWidth 8 = (0x2A : U8) ∨ code.setWidth 8 = (0x36 : U8)) ∧
      (code.setWidth 8 ||| 0x80 = (0xAA : U8) ∨ code.setWidth 8 ||| 0x80 = (0xB6 : U8)))
    (hne : other ≠ key) (hpair : ∀ h : Hands, h.shift ↔ key ∈ h.held ∨ other ∈ h.held) :
    (∀ u ∈ m.visits (k, h), FlagsAgree u) ↔ (m.motion = .release → other ∉ h.held) := by
  rw [forall_visits (hm.sends code (by rw [hkey, hcode]; rfl))]
  have hcaps := m.after_capsPresses (.inl (by
    rw [hkey]
    rintro rfl
    cases hcode
    exact absurd hbytes.1 (by decide))) h
  by_cases hmotion : m.motion = .release
  · obtain ⟨hgone, hother⟩ := after_release hkey hmotion hne h
    rw [imp_iff_right hmotion, hmotion, ← hother]
    refine (flagsAgree_break_iff hs hbytes.2 hcaps).trans (not_congr ?_)
    rw [hpair]
    exact or_iff_right hgone
  · have hheld := mem_after hm hmotion
    refine iff_of_true (flagsAgree_make hs ?_ ((hpair _).2 (.inl (hkey ▸ hheld))) hcaps)
      fun h => absurd h hmotion
    cases hcase : m.motion with
    | press => exact hbytes.1
    | again => exact hbytes.1
    | release => exact absurd hcase hmotion

/-- **Caps lock's move**: it does not show when it repeats. -/
theorem flagsAgree_caps_iff (hs : FlagsAgree (k, h)) (hm : m.Possible h)
    (hkey : m.key = .capsLock) :
    (∀ u ∈ m.visits (k, h), FlagsAgree u) ↔ m.motion ≠ .again := by
  rw [forall_visits (hm.sends 0x3A (by rw [hkey]; rfl))]
  have hshift := m.after_shift (by rw [hkey]; decide) (by rw [hkey]; decide) h
  cases hmotion : m.motion with
  | press =>
    refine iff_of_true ⟨?_, ?_⟩ nofun
    · exact hs.shift.trans hshift.symm
    · have hcount : (m.after h).capsPresses = h.capsPresses + 1 := by
        unfold after
        rw [hmotion]
        exact congrArg (h.capsPresses + ·) (if_pos hkey)
      change ((keyboardHandle 0x3A k).1).capsLockOn.toNat = (m.after h).capsPresses % 2
      rw [hcount]
      exact toggle_toNat hs.caps
  | again =>
    have hsame : m.after h = h := by
      unfold after
      rw [hmotion]
    rw [hsame]
    refine iff_of_false (fun hagree => ?_) fun hne => hne rfl
    exact ((flagsAgree_byte_iff hs 0x3A).1 hagree).caps rfl
  | release =>
    have hcaps := m.after_capsPresses (.inr (by rw [hmotion]; decide)) h
    refine iff_of_true (FlagsAgree.hands ?_ hshift hcaps) nofun
    refine (flagsAgree_byte_iff hs _).2 ⟨?_, ?_, ?_⟩
    · exact fun hd => absurd hd (by decide)
    · exact fun hu => absurd hu (by decide)
    · decide

/-- **One move.**  Flags that agree before it agree after each of its calls exactly if the move
shows. -/
theorem flagsAgree_visits_iff {s : Keyboard × Hands} (hs : FlagsAgree s) (hm : m.Possible s.2) :
    (∀ u ∈ m.visits s, FlagsAgree u) ↔ m.Shows s.2 := by
  unfold Shows
  cases hkey : m.key with
  | leftShift => exact flagsAgree_shift_iff hs hm hkey rfl (by decide) (by decide) fun h => Iff.rfl
  | rightShift =>
    exact flagsAgree_shift_iff hs hm hkey rfl (by decide) (by decide) fun h => Or.comm
  | capsLock => exact flagsAgree_caps_iff hs hm hkey
  | other n => exact flagsAgree_other_iff hs hkey

/-- And they agree after the move, also if the keyboard sent nothing. -/
theorem flagsAgree_run {s : Keyboard × Hands} (hs : FlagsAgree s) (hm : m.Possible s.2)
    (hshow : m.Shows s.2) : FlagsAgree (m.run s) := by
  have hvisits := (flagsAgree_visits_iff hs hm).2 hshow
  cases hkey : m.key with
  | other n =>
    rcases handleBytes_mem m.bytes s.1 with heq | hmem
    · rw [run, heq]
      exact FlagsAgree.hands (h := s.2) hs (m.after_shift (by rw [hkey]; nofun)
        (by rw [hkey]; nofun) _) (m.after_capsPresses (.inl (by rw [hkey]; nofun)) _)
    · exact hvisits _ (List.mem_map_of_mem hmem)
  | leftShift =>
    have hbytes := hm.sends 0x2A (by rw [hkey]; rfl)
    rw [forall_visits hbytes] at hvisits
    rw [run, hbytes]
    exact hvisits
  | rightShift =>
    have hbytes := hm.sends 0x36 (by rw [hkey]; rfl)
    rw [forall_visits hbytes] at hvisits
    rw [run, hbytes]
    exact hvisits
  | capsLock =>
    have hbytes := hm.sends 0x3A (by rw [hkey]; rfl)
    rw [forall_visits hbytes] at hvisits
    rw [run, hbytes]
    exact hvisits

end KeyMove

/-! ## The runs -/

theorem keyVisits_agree_iff : ∀ {ms : List KeyMove} {s : Keyboard × Hands}, FlagsAgree s →
    AllPossible ms s.2 → ((∀ u ∈ keyVisits ms s, FlagsAgree u) ↔ AllShow ms s.2) := by
  intro ms
  induction ms with
  | nil => exact fun _ _ => iff_of_true (fun u hu => absurd hu List.not_mem_nil) trivial
  | cons m ms ih =>
    rintro s hs ⟨hm, hms⟩
    rw [keyVisits, List.forall_mem_append, KeyMove.flagsAgree_visits_iff hs hm, AllShow]
    exact and_congr_right fun hshow => ih (KeyMove.flagsAgree_run hs hm hshow) hms

theorem flagsAgree_idle : FlagsAgree ({}, idleHands) :=
  ⟨iff_of_false (fun h => h rfl) (by rintro (h | h) <;> exact h), rfl⟩

/-- **When the modifiers are right.**  The keys are pressed, held and released in any order
that is possible, the keys that are no modifiers sending any bytes at all.  After each call of
`keyboard_handle` the flags say what the hands do if and only if no shift key is released while
the other is held, caps lock does not repeat, and no other key sends a make code of a shift key
while none is held, a break code of one while one is, or the code of caps lock. -/
theorem modifiers_agree_iff (ms : List KeyMove) (h : AllPossible ms idleHands) :
    (∀ s ∈ keyVisits ms ({}, idleHands), FlagsAgree s) ↔ AllShow ms idleHands :=
  keyVisits_agree_iff flagsAgree_idle h

def leftShiftMove (motion : Motion) : KeyMove := codeMove .leftShift 0x2A motion

def rightShiftMove (motion : Motion) : KeyMove := codeMove .rightShift 0x36 motion

def capsLockMove (motion : Motion) : KeyMove := codeMove .capsLock 0x3A motion

/-- Both shift keys go down and one of them up, and the other is held without effect. -/
def bothShifts : List KeyMove :=
  [leftShiftMove .press, rightShiftMove .press, rightShiftMove .release]

/-- Print Screen goes down: there is a make code of the left shift key in its own. -/
def printScreen : List KeyMove := [⟨.press, .other 0x37, [0xE0, 0x2A, 0xE0, 0x37]⟩]

theorem possible_leftShift {h : Hands} {motion : Motion}
    (hheld : .leftShift ∈ h.held ↔ motion ≠ .press) : (leftShiftMove motion).Possible h :=
  ⟨hheld, fun code hcode => by obtain rfl := Option.some.inj hcode; rfl⟩

theorem possible_rightShift {h : Hands} {motion : Motion}
    (hheld : .rightShift ∈ h.held ↔ motion ≠ .press) : (rightShiftMove motion).Possible h :=
  ⟨hheld, fun code hcode => by obtain rfl := Option.some.inj hcode; rfl⟩

theorem possible_capsLock {h : Hands} {motion : Motion}
    (hheld : .capsLock ∈ h.held ↔ motion ≠ .press) : (capsLockMove motion).Possible h :=
  ⟨hheld, fun code hcode => by obtain rfl := Option.some.inj hcode; rfl⟩

theorem possible_other {h : Hands} {m : KeyMove} {n : Nat} (hkey : m.key = .other n)
    (hheld : .other n ∈ h.held ↔ m.motion ≠ .press) : m.Possible h :=
  ⟨hkey ▸ hheld, fun code hcode => by rw [hkey] at hcode; cases hcode⟩


/-- After the first the flag is clear and a shift key is held, after the second it is set and none
is. -/
theorem shift_lost :
    (AllPossible bothShifts idleHands ∧
      ¬ ∀ s ∈ keyVisits bothShifts ({}, idleHands), FlagsAgree s) ∧
    (AllPossible printScreen idleHands ∧
      ¬ ∀ s ∈ keyVisits printScreen ({}, idleHands), FlagsAgree s) := by
  have hboth : AllPossible bothShifts idleHands :=
    ⟨possible_leftShift (by simp [idleHands]),
      possible_rightShift (by simp [KeyMove.after, leftShiftMove, codeMove, idleHands]),
      possible_rightShift (by simp [KeyMove.after, leftShiftMove, rightShiftMove, codeMove]),
      trivial⟩
  have hprint : AllPossible printScreen idleHands :=
    ⟨possible_other rfl (by simp [idleHands]), trivial⟩
  refine ⟨⟨hboth, fun h => ?_⟩, hprint, fun h => ?_⟩
  · have hshow := (keyVisits_agree_iff flagsAgree_idle hboth).1 h
    exact hshow.2.2.1 rfl (.inr (.inl rfl))
  · have hshow := (keyVisits_agree_iff flagsAgree_idle hprint).1 h
    have hallows := hshow.1 0x2A (List.mem_cons_of_mem _ List.mem_cons_self)
    rcases hallows.down (.inl rfl) with hheld | hheld <;> exact hheld

/-- A shift key, Print Screen while it is held, and caps lock. -/
def plainMoves : List KeyMove :=
  [leftShiftMove .press, ⟨.press, .other 0x37, [0xE0, 0x37]⟩, leftShiftMove .release,
    capsLockMove .press]

theorem modifiers_agree_plain :
    AllPossible plainMoves idleHands ∧
      ∀ s ∈ keyVisits plainMoves ({}, idleHands), FlagsAgree s := by
  have hpossible : AllPossible plainMoves idleHands :=
    ⟨possible_leftShift (by simp [idleHands]),
      possible_other rfl (by simp [KeyMove.after, leftShiftMove, codeMove, idleHands]),
      possible_leftShift (by simp [KeyMove.after, leftShiftMove, codeMove]),
      possible_capsLock (by simp [KeyMove.after, leftShiftMove, codeMove, idleHands]), trivial⟩
  refine ⟨hpossible, (modifiers_agree_iff _ hpossible).2 ⟨nofun, ?_, ?_, nofun, trivial⟩⟩
  · intro byte hbyte
    have hplain : ¬ (byte = 0x2A ∨ byte = 0x36) ∧ ¬ (byte = 0xAA ∨ byte = 0xB6) ∧ byte ≠ 0x3A := by
      revert byte
      decide
    exact ⟨fun hd => absurd hd hplain.1, fun hu => absurd hu hplain.2.1, hplain.2.2⟩
  · intro _
    simp [KeyMove.after, leftShiftMove, codeMove, idleHands]

end Frewozet
