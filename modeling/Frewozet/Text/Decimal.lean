import Frewozet.Base.Append
import Frewozet.Base.Numeral
import Frewozet.Terminal.Emit

/-!
# Decimal numbers in text

Numbers go into text in `str_append_uint64` (`string.c`) and `terminal_write_uint`
(`terminal.c`), each with a buffer of its own, and come out of it in `parse_uint`
(`utils.c`) and `shell_parse_uint32` (`shell_commands.c`).

* `numeral v` — the decimal numeral; `numeral_canonical`, `eq_numeral` — **it is the one
  string of digits without leading zeros** for `v`.
* `decimalBuffer` — the loop of both printers, its digits turned around in place;
  `decimalBuffer_holds` — it leaves the numeral in the buffer.
* `parseDigits`, `shellParseUint32`, `parseUint` — the parsers; `parseUint_eq`,
  `shellParseUint32_eq` — what they read: the digits at the front, modulo 2^32.
* `decimal_printing_inverted` — **the printers agree and the parsers invert them.**
* `shell_parse_uint32_exact_iff` — where `shell_parse_uint32` reads the whole string.
-/

namespace Frewozet

/-! ## Numerals -/

/-- `c >= '0' && c <= '9'`. -/
def isDigit (c : U8) : Bool := decide (48 ≤ c ∧ c ≤ 57)

/-- `c - '0'`. -/
def digitOf (c : U8) : Nat := c.toNat - 48

/-- `'0' + d`. -/
def digitChar (d : Nat) : U8 := BitVec.ofNat 8 (0x30 + d)

/-- The number that digits stand for. -/
def digitsValue (s : List U8) : Nat := Numeral.value 10 (s.map digitOf)

/-- The decimal digits of a number. -/
def decimal (value : Nat) : List U8 :=
  ((Nat.digits 10 value).map fun d => BitVec.ofNat 8 (0x30 + d)).reverse

theorem digitsReversed_eq (value : Nat) :
    digitsReversed value = (Nat.digits 10 value).map fun d => BitVec.ofNat 8 (0x30 + d) := by
  induction value using Nat.strongRecOn with
  | ind value ih =>
    rw [digitsReversed]
    split
    · rename_i h
      rw [h]
      rfl
    · rename_i h
      rw [ih (value / 10) (Nat.div_lt_self (Nat.pos_of_ne_zero h) (by decide)),
        Nat.digits_def' (by decide) (Nat.pos_of_ne_zero h)]
      rfl

/-- The decimal numeral of a number. -/
def numeral (v : Nat) : List U8 := if v = 0 then [0x30] else decimal v

/-- Digits without leading zeros that stand for a number. -/
structure IsNumeral (s : List U8) (v : Nat) : Prop where
  digits : ∀ c ∈ s, isDigit c
  nonempty : s ≠ []
  leading : s.head? = some 0x30 → s = [0x30]
  value : digitsValue s = v

section

variable {c : U8} {d v : Nat} {s : List U8}

theorem isDigit_iff : isDigit c ↔ 48 ≤ c.toNat ∧ c.toNat ≤ 57 := by
  simp [isDigit, BitVec.le_def]

theorem digitChar_toNat (h : d < 10) : (digitChar d).toNat = 48 + d := by
  simp [digitChar]
  omega

theorem isDigit_digitChar (h : d < 10) : isDigit (digitChar d) := by
  rw [isDigit_iff, digitChar_toNat h]
  omega

@[simp] theorem digitOf_digitChar (h : d < 10) : digitOf (digitChar d) = d := by
  rw [digitOf, digitChar_toNat h]
  omega

theorem digitChar_digitOf (h : isDigit c) : digitChar (digitOf c) = c := by
  rw [isDigit_iff] at h
  apply BitVec.eq_of_toNat_eq
  rw [digitChar_toNat (by unfold digitOf; omega), digitOf]
  omega

theorem digitOf_lt (h : isDigit c) : digitOf c < 10 := by
  rw [isDigit_iff] at h
  unfold digitOf
  omega

theorem isDigit_ne_zero (h : isDigit c) : c ≠ 0 := by
  rintro rfl
  exact absurd h (by decide)

theorem decimal_eq (v : Nat) : decimal v = (Nat.digits 10 v).reverse.map digitChar :=
  List.map_reverse.symm

theorem map_digitOf (ds : List Nat) (h : ∀ d ∈ ds, d < 10) :
    (ds.map digitChar).map digitOf = ds := by
  rw [List.map_map]
  exact (List.map_congr_left fun d hd => digitOf_digitChar (h d hd)).trans (List.map_id ds)

theorem digit_lt (h : d ∈ (Nat.digits 10 v).reverse) : d < 10 :=
  Nat.digits_lt_base (by decide) (List.mem_reverse.1 h)

theorem digitsValue_decimal (v : Nat) : digitsValue (decimal v) = v := by
  rw [digitsValue, decimal_eq, map_digitOf _ fun _ => digit_lt, Numeral.value_digits]

/-- **The numeral is one.** -/
theorem numeral_canonical (v : Nat) : IsNumeral (numeral v) v := by
  unfold numeral
  split
  · rename_i h
    subst h
    exact ⟨by decide, List.cons_ne_nil _ _, fun _ => rfl, rfl⟩
  · rename_i h
    refine ⟨fun c hc => ?_, ?_, fun hlead => ?_, digitsValue_decimal v⟩
    · rw [decimal_eq] at hc
      obtain ⟨d, hd, rfl⟩ := List.mem_map.1 hc
      exact isDigit_digitChar (digit_lt hd)
    · simpa [decimal_eq, Nat.digits_eq_nil_iff_eq_zero] using h
    · rw [decimal_eq, List.head?_map, Option.map_eq_some_iff] at hlead
      obtain ⟨d, hd, hchar⟩ := hlead
      have hdigit := digit_lt (List.mem_of_head? hd)
      have hzero : d = 0 := by
        rw [← digitOf_digitChar hdigit, hchar]
        rfl
      exact absurd (hzero ▸ hd) (Numeral.head_digits_ne_zero 10 h)

/-- **There is no other.** -/
theorem eq_numeral (h : IsNumeral s v) : s = numeral v := by
  obtain ⟨hdigits, hne, hlead, rfl⟩ := h
  by_cases hzero : s = [0x30]
  · subst hzero
    rfl
  have hlead' : (s.map digitOf).head? ≠ some 0 := by
    rw [List.head?_map]
    intro hhead
    obtain ⟨c, hc, hdigit⟩ := Option.map_eq_some_iff.1 hhead
    have hchar := digitChar_digitOf (hdigits c (List.mem_of_head? hc))
    rw [hdigit] at hchar
    exact hzero (hlead (hc.trans (congrArg some hchar.symm)))
  have hlt : ∀ d ∈ s.map digitOf, d < 10 := by
    intro d hd
    obtain ⟨c, hc, rfl⟩ := List.mem_map.1 hd
    exact digitOf_lt (hdigits c hc)
  have hprint : decimal (digitsValue s) = s := by
    rw [decimal_eq, digitsValue, Numeral.digits_value (by decide) hlt hlead', List.map_map]
    refine (List.map_congr_left fun c hc => ?_).trans (List.map_id s)
    exact digitChar_digitOf (hdigits c hc)
  rw [numeral, if_neg, hprint]
  intro hvalue
  rw [hvalue] at hprint
  exact hne hprint.symm

theorem numeral_plain (v : Nat) : 0 ∉ numeral v :=
  fun h => isDigit_ne_zero ((numeral_canonical v).digits 0 h) rfl

theorem length_numeral_le {k : Nat} (hk : 0 < k) (h : v < 10 ^ k) : (numeral v).length ≤ k := by
  unfold numeral
  split
  · exact hk
  · rw [decimal_eq, List.length_map, List.length_reverse]
    exact (Nat.digits_length_le_iff (by decide) v).2 h

end

/-! ## Printing -/

/-- The digits of `value`, the last one first, into the buffer from the cell `i` on. -/
def digitLoop {n w : Nat} : Nat → BitVec w → Nat → CharArray n → Option (Nat × CharArray n)
  | room, value, i, buffer =>
    if value > 0 then
      match room with
      | 0 => none
      | room + 1 => do
        let buffer ← buffer.store i ((0x30 + value % 10).setWidth 8)
        digitLoop room (value / 10) (i + 1) buffer
    else some (i, buffer)

/-- What `str_append_uint64` and `terminal_write_uint` do with their buffers. -/
def decimalBuffer {n w : Nat} (value : BitVec w) (buffer : CharArray n) :
    Option (CharArray n) :=
  if value = 0 then do
    let buffer ← buffer.store 0 0x30
    buffer.store 1 0
  else do
    let (i, buffer) ← digitLoop n value 0 buffer
    let buffer ← buffer.reverseCells i
    buffer.store i 0

/-- `str_append_uint64`, with its uninitialized buffer. -/
def strAppendUint64 {n : Nat} (buffer : CharArray 21) (dest : CharArray n) (pos : Nat)
    (value : U64) : Option (Nat × CharArray n) := do
  let buffer ← decimalBuffer value buffer
  dest.strAppend pos buffer

/-- `terminal_write_uint` with its uninitialized buffer. -/
def terminalWriteUintFrom (buffer : CharArray 32) (value : U32) (t : Terminal) :
    Option Terminal := do
  let buffer ← decimalBuffer value buffer
  let text ← buffer.stringAt 0
  some (terminalWrite text t)

section

variable {n w : Nat} {buffer : CharArray n} {s : List U8}

theorem digitsReversed_zero : digitsReversed 0 = [] := by rw [digitsReversed, if_pos rfl]

theorem digitsReversed_pos {v : Nat} (h : v ≠ 0) :
    digitsReversed v = digitChar (v % 10) :: digitsReversed (v / 10) := by
  rw [digitsReversed, if_neg h]
  rfl

theorem toNat_small (hw : 8 ≤ w) {k : Nat} (hk : k < 256) : (BitVec.ofNat w k).toNat = k := by
  have hpow : 2 ^ 8 ≤ 2 ^ w := Nat.pow_le_pow_right (by decide) hw
  rw [BitVec.toNat_ofNat]
  exact Nat.mod_eq_of_lt (by omega)

theorem toNat_div_ten (hw : 8 ≤ w) (value : BitVec w) :
    (value / 10).toNat = value.toNat / 10 := by
  rw [BitVec.toNat_udiv]
  exact congrArg (value.toNat / ·) (toNat_small hw (by decide : 10 < 256))

/-- The character that is stored. -/
theorem digit_setWidth (hw : 8 ≤ w) (value : BitVec w) :
    (0x30 + value % 10).setWidth 8 = digitChar (value.toNat % 10) := by
  have hpow : 2 ^ 8 ≤ 2 ^ w := Nat.pow_le_pow_right (by decide) hw
  have hten : (10 : BitVec w).toNat = 10 := toNat_small hw (by decide : 10 < 256)
  have hzero : (0x30 : BitVec w).toNat = 0x30 := toNat_small hw (by decide : 0x30 < 256)
  have hlt := Nat.mod_lt value.toNat (by decide : 10 > 0)
  apply BitVec.eq_of_toNat_eq
  have hsum : 0x30 + value.toNat % 10 < 2 ^ w := by omega
  rw [digitChar_toNat hlt, BitVec.toNat_setWidth, BitVec.toNat_add, BitVec.toNat_umod, hten, hzero,
    Nat.mod_eq_of_lt hsum]
  omega

theorem pos_iff (value : BitVec w) : value > 0 ↔ value.toNat ≠ 0 := by
  rw [gt_iff_lt, BitVec.lt_def]
  exact Nat.pos_iff_ne_zero

/-- **The loop** stores the digits, the last one first. -/
theorem digitLoop_begins (hw : 8 ≤ w) {room : Nat} {value : BitVec w} (h : buffer.Begins s)
    (hroom : (digitsReversed value.toNat).length ≤ room)
    (hn : s.length + (digitsReversed value.toNat).length ≤ n) :
    ∃ buffer', digitLoop room value s.length buffer =
        some ((s ++ digitsReversed value.toNat).length, buffer') ∧
      buffer'.Begins (s ++ digitsReversed value.toNat) := by
  induction room generalizing value s buffer with
  | zero =>
    have hzero : value.toNat = 0 := by
      by_contra hne
      rw [digitsReversed_pos hne] at hroom
      simp at hroom
    rw [digitLoop, if_neg (by rwa [pos_iff, not_not]), hzero, digitsReversed_zero, List.append_nil]
    exact ⟨buffer, rfl, h⟩
  | succ room ih =>
    rw [digitLoop]
    by_cases hne : value.toNat = 0
    · rw [if_neg (by rwa [pos_iff, not_not]), hne, digitsReversed_zero, List.append_nil]
      exact ⟨buffer, rfl, h⟩
    · rw [digitsReversed_pos hne, List.length_cons] at hroom hn
      obtain ⟨buffer₁, hstore, hbegins⟩ := h.push (by omega) (digitChar (value.toNat % 10))
      have hdiv := toNat_div_ten hw value
      obtain ⟨buffer', hloop, hbegins'⟩ := @ih _ _ (value / 10) hbegins
        (by rw [hdiv]; omega) (by rw [hdiv, List.length_append, List.length_singleton]; omega)
      rw [hdiv, List.append_assoc, List.singleton_append, ← digitsReversed_pos hne]
        at hloop hbegins'
      refine ⟨buffer', ?_, hbegins'⟩
      rw [if_pos ((pos_iff value).2 hne), digit_setWidth hw, hstore]
      dsimp only [bind, Option.bind]
      rw [← hloop, List.length_append, List.length_singleton]

/-- **The buffer holds the numeral**, if it has room for it. -/
theorem decimalBuffer_holds (hw : 8 ≤ w) (value : BitVec w)
    (hn : (numeral value.toNat).length < n) (buffer : CharArray n) :
    ∃ buffer', decimalBuffer value buffer = some buffer' ∧
      buffer'.Holds (numeral value.toNat) := by
  unfold decimalBuffer
  have hplain := numeral_plain value.toNat
  by_cases hzero : value = 0
  · subst hzero
    obtain ⟨buffer₁, hstore, hbegins⟩ := (CharArray.Begins.nil buffer).push
      (Nat.zero_lt_of_lt hn) 0x30
    obtain ⟨buffer', hnul, hholds⟩ := hbegins.nul hn hplain
    refine ⟨buffer', ?_, hholds⟩
    rw [if_pos rfl]
    dsimp only [bind, Option.bind]
    rw [show buffer.store 0 0x30 = some buffer₁ from hstore]
    exact hnul
  · have hne : value.toNat ≠ 0 := fun h => hzero (BitVec.eq_of_toNat_eq h)
    have htext : (digitsReversed value.toNat).reverse = numeral value.toNat := by
      rw [numeral, if_neg hne, decimal, digitsReversed_eq]
    have hlength : (digitsReversed value.toNat).length = (numeral value.toNat).length := by
      rw [← htext, List.length_reverse]
    obtain ⟨buffer₁, hloop, hbegins⟩ := @digitLoop_begins n w buffer [] hw n value
      (.nil buffer) (by omega) (by rw [List.length_nil]; omega)
    rw [List.nil_append] at hloop hbegins
    obtain ⟨buffer₂, hreverse, hbegins₂⟩ :=
      CharArray.reverseCells_of_begins hbegins (by omega)
    rw [htext] at hbegins₂
    obtain ⟨buffer', hnul, hholds⟩ := hbegins₂.nul hn hplain
    refine ⟨buffer', ?_, hholds⟩
    rw [if_neg hzero]
    dsimp only [bind, Option.bind]
    rw [show digitLoop n value 0 buffer = _ from hloop]
    dsimp only
    rw [hreverse]
    dsimp only
    rw [hlength]
    exact hnul

end

/-! ## Parsing -/

/-- The loop of `shell_parse_uint32`: the value, and whether a digit was found. -/
def parseDigits : List U8 → U32 → Bool → U32 × Bool
  | c :: str, value, foundDigit =>
    if 48 ≤ c ∧ c ≤ 57 then parseDigits str (value * 10 + (c - 48).setWidth 32) true
    else (value, foundDigit)
  | [], value, foundDigit => (value, foundDigit)

/-- `shell_parse_uint32`. -/
def shellParseUint32 (str : List U8) : Option U32 :=
  let r := parseDigits str 0 false
  if r.2 then some r.1 else none

/-- The loop of `parse_uint`: the value, whether a digit was found, and the string that is
left. -/
def parseUintLoop : List U8 → U32 → Bool → U32 × Bool × List U8
  | c :: str, value, foundDigit =>
    if 48 ≤ c ∧ c ≤ 57 then parseUintLoop str (value * 10 + (c - 48).setWidth 32) true
    else (value, foundDigit, c :: str)
  | [], value, foundDigit => (value, foundDigit, [])

/-- `parse_uint`: the value, `*ok` and `*str`. -/
def parseUint (str : List U8) : U32 × Bool × List U8 := parseUintLoop str 0 false

/-- `shell_parse_uint32`, with the variable it can write to. -/
def shellParseUint32To (str : List U8) (out : U32) : Bool × U32 :=
  match shellParseUint32 str with
  | some value => (true, value)
  | none => (false, out)

section

variable {c : U8} {s : List U8} {v : Nat} {foundDigit : Bool}

/-- A step of both loops. -/
theorem accumulate (h : isDigit c) : BitVec.ofNat 32 v * 10 + (c - 48).setWidth 32 =
    BitVec.ofNat 32 (v * 10 + digitOf c) := by
  have hdigit : (c - 48).setWidth 32 = BitVec.ofNat 32 (digitOf c) := by
    rw [isDigit_iff] at h
    apply BitVec.eq_of_toNat_eq
    rw [BitVec.toNat_setWidth, BitVec.toNat_sub, BitVec.toNat_ofNat, digitOf]
    change (256 - 48 + c.toNat) % 256 % 2 ^ 32 = _
    omega
  rw [hdigit, BitVec.ofNat_add, BitVec.ofNat_mul]
  rfl

/-- **What the loops read**: the digits at the front, modulo the size of a word. -/
theorem parseUintLoop_eq (s : List U8) (v : Nat) (foundDigit : Bool) :
    parseUintLoop s (BitVec.ofNat 32 v) foundDigit =
      (BitVec.ofNat 32 (Numeral.readOn 10 v ((s.takeWhile isDigit).map digitOf)),
        foundDigit || !(s.takeWhile isDigit).isEmpty, s.dropWhile isDigit) := by
  induction s generalizing v foundDigit with
  | nil => simp [parseUintLoop]
  | cons c s ih =>
    rw [parseUintLoop]
    by_cases hc : isDigit c
    · rw [if_pos (by simpa [isDigit] using hc), accumulate hc, ih]
      simp [hc]
    · rw [if_neg (by simpa [isDigit] using hc)]
      simp [hc]

theorem parseDigits_eq_loop (s : List U8) (value : U32) (foundDigit : Bool) :
    parseDigits s value foundDigit =
      ((parseUintLoop s value foundDigit).1, (parseUintLoop s value foundDigit).2.1) := by
  induction s generalizing value foundDigit with
  | nil => rfl
  | cons c s ih =>
    rw [parseDigits, parseUintLoop]
    split
    · exact ih _ _
    · rfl

theorem parseUint_eq (s : List U8) : parseUint s =
    (BitVec.ofNat 32 (digitsValue (s.takeWhile isDigit)), !(s.takeWhile isDigit).isEmpty,
      s.dropWhile isDigit) := by
  have h := parseUintLoop_eq s 0 false
  rwa [Bool.false_or] at h

theorem shellParseUint32_eq (s : List U8) : shellParseUint32 s =
    if s.takeWhile isDigit = [] then none
    else some (BitVec.ofNat 32 (digitsValue (s.takeWhile isDigit))) := by
  have h := parseDigits_eq_loop s 0 false
  rw [show parseUintLoop s 0 false = parseUint s from rfl, parseUint_eq] at h
  rw [shellParseUint32, h]
  cases s.takeWhile isDigit <;> rfl

theorem takeWhile_digits (h : ∀ c ∈ s, isDigit c) : s.takeWhile isDigit = s :=
  List.takeWhile_eq_self_iff.2 h

/-- A string of digits is read whole. -/
theorem shellParseUint32_digits (h : ∀ c ∈ s, isDigit c) (hne : s ≠ []) :
    shellParseUint32 s = some (BitVec.ofNat 32 (digitsValue s)) := by
  rw [shellParseUint32_eq, takeWhile_digits h, if_neg hne]

theorem shellParseUint32_numeral (v : U32) : shellParseUint32 (numeral v.toNat) = some v := by
  have hnumeral := numeral_canonical v.toNat
  rw [shellParseUint32_digits hnumeral.digits hnumeral.nonempty, hnumeral.value,
    BitVec.ofNat_toNat, BitVec.setWidth_eq]

theorem parseUint_numeral (v : U32) : parseUint (numeral v.toNat) = (v, true, []) := by
  have hnumeral := numeral_canonical v.toNat
  have hall : (numeral v.toNat).dropWhile isDigit = [] :=
    List.dropWhile_eq_nil_iff.2 hnumeral.digits
  rw [parseUint_eq, takeWhile_digits hnumeral.digits, hall, hnumeral.value, BitVec.ofNat_toNat,
    BitVec.setWidth_eq, List.isEmpty_eq_false_iff.2 hnumeral.nonempty]
  rfl

end

/-! ## Printing, and parsing what was printed -/

/-- A number with its sign. -/
def signedNumeral (z : Int) : List U8 := (if z < 0 then [0x2D] else []) ++ numeral z.natAbs

theorem strAppendUint64_of_begins {n : Nat} {dest : CharArray n} {s : List U8}
    (h : dest.Begins s) (hs : 0 ∉ s) (value : U64) (hn : (s ++ numeral value.toNat).length < n)
    (buffer : CharArray 21) : ∃ dest',
      strAppendUint64 buffer dest s.length value =
        some ((s ++ numeral value.toNat).length, dest') ∧
      dest'.Holds (s ++ numeral value.toNat) := by
  have hlength : (numeral value.toNat).length ≤ 20 :=
    length_numeral_le (by decide) (Nat.lt_trans value.isLt (by decide))
  obtain ⟨buffer', hbuffer, hholds⟩ := decimalBuffer_holds (by decide) value (by omega) buffer
  rw [List.length_append] at hn
  obtain ⟨dest', happend, hholds'⟩ := CharArray.strAppend_of_begins h hs hholds hn
  refine ⟨dest', ?_, hholds'⟩
  rw [strAppendUint64, hbuffer]
  exact happend

theorem terminalWriteUint_eq (value : U32) (t : Terminal) :
    terminalWriteUint value t = terminalWrite (numeral value.toNat) t := by
  rw [terminalWriteUint, numeral]
  by_cases h : value = 0
  · rw [if_pos h, if_pos (by rw [h]; rfl)]
  · have hne : value.toNat ≠ 0 := fun hzero => h (BitVec.eq_of_toNat_eq hzero)
    rw [if_neg h, if_neg hne, decimal, digitsReversed_eq]

/-- With the buffer of the code. -/
theorem terminalWriteUintFrom_eq (buffer : CharArray 32) (value : U32) (t : Terminal) :
    terminalWriteUintFrom buffer value t = some (terminalWriteUint value t) := by
  have hlength : (numeral value.toNat).length ≤ 10 :=
    length_numeral_le (by decide) (Nat.lt_trans value.isLt (by decide))
  obtain ⟨buffer', hbuffer, hholds⟩ := decimalBuffer_holds (by decide) value (by omega) buffer
  rw [terminalWriteUintFrom, hbuffer, terminalWriteUint_eq]
  dsimp only [bind, Option.bind]
  rw [CharArray.stringAt_of_holds hholds]

/-- The absolute value of an `int`, as the code gets it. -/
theorem toNat_neg_of_neg {value : U32} (h : value.toInt < 0) :
    (-value).toNat = value.toInt.natAbs := by
  have hlt := value.isLt
  have hint := BitVec.toInt_eq_toNat_cond value
  rw [BitVec.toNat_neg]
  split at hint <;> omega

theorem toNat_of_nonneg {value : U32} (h : ¬ value.toInt < 0) :
    value.toNat = value.toInt.natAbs := by
  have hlt := value.isLt
  have hint := BitVec.toInt_eq_toNat_cond value
  split at hint <;> omega

/-- **`terminal_write_decimal`** writes the number with its sign, the smallest one included. -/
theorem terminalWriteDecimal_eq (value : U32) (t : Terminal) :
    terminalWriteDecimal value t = terminalWrite (signedNumeral value.toInt) t := by
  unfold terminalWriteDecimal signedNumeral
  by_cases hneg : value.toInt < 0
  · rw [if_pos hneg, if_pos hneg, terminalWriteUint_eq, terminalWrite_writechar (by decide),
      toNat_neg_of_neg hneg]
    rfl
  · rw [if_neg hneg, if_neg hneg, terminalWriteUint_eq, toNat_of_nonneg hneg]
    rfl

/-- **Decimal printing is canonical and the parsers invert it.**  `str_append_uint64` leaves the
numeral in its 21 bytes and appends it, `terminal_write_uint` writes the same, both parsers
read it back, and `terminal_write_decimal` puts a minus sign before it exactly for a
negative number. -/
theorem decimal_printing_inverted :
    (∀ v, IsNumeral (numeral v) v) ∧
    (∀ (v : U64) (buffer : CharArray 21),
      (∃ buffer', decimalBuffer v buffer = some buffer' ∧ buffer'.Holds (numeral v.toNat)) ∧
        ∀ {n : Nat} {dest : CharArray n} {s : List U8}, dest.Begins s → 0 ∉ s →
          (s ++ numeral v.toNat).length < n → ∃ dest',
            strAppendUint64 buffer dest s.length v =
              some ((s ++ numeral v.toNat).length, dest') ∧
            dest'.Holds (s ++ numeral v.toNat)) ∧
    (∀ v : U32, (∀ buffer t,
        terminalWriteUintFrom buffer v t = some (terminalWrite (numeral v.toNat) t)) ∧
      shellParseUint32 (numeral v.toNat) = some v ∧ parseUint (numeral v.toNat) = (v, true, [])) ∧
    ∀ (w : U32) (t : Terminal), terminalWriteDecimal w t =
      terminalWrite ((if w.toInt < 0 then [0x2D] else []) ++ numeral w.toInt.natAbs) t := by
  refine ⟨numeral_canonical, fun v buffer => ⟨?_, fun h hs hn =>
    strAppendUint64_of_begins h hs v hn buffer⟩, fun v => ⟨fun buffer t => ?_,
      shellParseUint32_numeral v, parseUint_numeral v⟩, terminalWriteDecimal_eq⟩
  · have hlength : (numeral v.toNat).length ≤ 20 :=
      length_numeral_le (by decide) (Nat.lt_trans v.isLt (by decide))
    exact decimalBuffer_holds (by decide) v (by omega) buffer
  · rw [terminalWriteUintFrom_eq, terminalWriteUint_eq]

/-! ## What `shell_parse_uint32` accepts -/

/-- The word that a string of decimal digits stands for, if there is one. -/
def decimalWord (s : List U8) : Option U32 :=
  if s ≠ [] ∧ (∀ c ∈ s, isDigit c) ∧ digitsValue s < 2 ^ 32 then
    some (BitVec.ofNat 32 (digitsValue s))
  else none

/-- **`shell_parse_uint32` reads a number exactly** if its string does not begin with a digit,
or is all digits and fits in a word: it stops at the first character that is no digit, and
wraps around. -/
theorem shell_parse_uint32_exact_iff (s : List U8) :
    (∀ out, shellParseUint32To s out = ((decimalWord s).isSome, (decimalWord s).getD out)) ↔
      (∀ c ∈ s.head?, ¬ isDigit c) ∨ (∀ c ∈ s, isDigit c) ∧ digitsValue s < 2 ^ 32 := by
  by_cases hall : s ≠ [] ∧ (∀ c ∈ s, isDigit c) ∧ digitsValue s < 2 ^ 32
  · refine iff_of_true (fun out => ?_) (.inr hall.2)
    rw [decimalWord, if_pos hall, shellParseUint32To, shellParseUint32_digits hall.2.1 hall.1]
    rfl
  · have hword : decimalWord s = none := if_neg hall
    rw [hword]
    constructor
    · intro hexact
      left
      intro c hc hdigit
      obtain ⟨rest, rfl⟩ : ∃ rest, s = c :: rest := List.head?_eq_some_iff.1 hc
      have hsome := hexact 0
      rw [shellParseUint32To, shellParseUint32_eq, List.takeWhile_cons, if_pos hdigit,
        if_neg (List.cons_ne_nil _ _)] at hsome
      exact absurd (congrArg Prod.fst hsome) (by simp)
    · rintro (hhead | hdigits) out
      · have hnone : s.takeWhile isDigit = [] := by
          cases s with
          | nil => rfl
          | cons c s => simpa using hhead c rfl
        rw [shellParseUint32To, shellParseUint32_eq, if_pos hnone]
        rfl
      · have hnil : s = [] := by
          by_contra hne
          exact hall ⟨hne, hdigits⟩
        subst hnil
        rfl

/-- `12x` is read as 12, and 2^32 as 0. -/
theorem shellParseUint32_accepts_other :
    shellParseUint32To (chars "12x") 64 = (true, 12) ∧ decimalWord (chars "12x") = none ∧
      shellParseUint32To (chars "4294967296") 64 = (true, 0) ∧
      decimalWord (chars "4294967296") = none := by decide

end Frewozet
