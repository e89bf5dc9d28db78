import Frewozet.Keyboard
import Frewozet.Text.Decimal

/-!
# Hexadecimal numbers in text

`terminal_write_hex32` writes an address, and `parse_hex32` reads the one that `pageinfo` is
given.

* `hexChar`, `hex32Text` — the characters that are written; `terminalWriteHex32_eq`.
* `hexDigit`, `parseHex32` — the code of the parser.  Its variable `digit` is not initialized:
  what it holds where no branch assigns it is a parameter, and that it was used is recorded.
* `hexDigitOf`, `hexDigitsValue` — what hexadecimal digits mean.
* `parseHexLoop_unassigned`, `parseHexLoop_value` — what the loop does with a string: **an F is
  in no branch**.
* `hex32_round_trip_iff`, `parse_hex32_exact_iff` — when the parser inverts the printer, and
  when it takes what is a number.
-/

namespace Frewozet

/-! ## Printing -/

/-- What `terminal_write_hex_digit` writes. -/
def hexChar (v : U8) : U8 := if v < 10 then 0x30 + v else 0x41 + (v - 10)

/-- The digit that is written in the round `k`, with `shift` going down from 28 in steps of 4. -/
def hexNibble (value : U32) (k : Nat) : U8 := ((value >>> (28 - 4 * k)) &&& 0x0F).setWidth 8

/-- `terminal_write_hex32`. -/
def terminalWriteHex32 (value : U32) (t : Terminal) : Terminal :=
  forRange 8 (fun k => terminalWriteHexDigit (hexNibble value k)) t

/-- The eight characters. -/
def hex32Text (value : U32) : List U8 := (List.range 8).map fun k => hexChar (hexNibble value k)

theorem terminalWriteHexDigit_eq (v : U8) :
    terminalWriteHexDigit v = terminalWritechar (hexChar v) := by
  funext t
  unfold terminalWriteHexDigit hexChar
  split <;> rfl

theorem hexNibble_eq (value : U32) (k : Nat) :
    hexNibble value k = BitVec.ofNat 8 (value.toNat / 2 ^ (28 - 4 * k) % 16) := by
  apply BitVec.eq_of_toNat_eq
  rw [hexNibble, BitVec.toNat_setWidth, BitVec.toNat_and, BitVec.toNat_ushiftRight,
    BitVec.toNat_ofNat, Nat.shiftRight_eq_div_pow]
  exact congrArg (· % 2 ^ 8) (Nat.and_two_pow_sub_one_eq_mod _ 4)

/-- The characters are those of the last eight digits of the number, which are all it has. -/
theorem hex32Text_eq (value : U32) : hex32Text value =
    (Numeral.fixed 16 8 value.toNat).map fun d => hexChar (BitVec.ofNat 8 d) := by
  simp [hex32Text, hexNibble_eq, Numeral.fixed, List.range_succ, Nat.div_div_eq_div_mul]

theorem hexChar_ne_zero (d : Nat) (hd : d < 16) : hexChar (BitVec.ofNat 8 d) ≠ 0 := by
  revert d
  decide

/-- **The eight characters are written.** -/
theorem terminalWriteHex32_eq (value : U32) (t : Terminal) :
    terminalWriteHex32 value t = terminalWrite (hex32Text value) t := by
  unfold terminalWriteHex32 hex32Text
  simp only [terminalWriteHexDigit_eq]
  refine forRange_writechar (fun k => ?_) 7 t
  rw [hexNibble_eq]
  exact hexChar_ne_zero _ (Nat.mod_lt _ (by decide))

/-! ## Parsing -/

/-- What `parse_hex32` assigns to `digit`, if it takes one of its branches. -/
def hexDigit (c : U8) : Option U32 :=
  if 48 ≤ c ∧ c ≤ 57 then some ((c - 48).setWidth 32)
  else if 0x61 ≤ c ∧ c ≤ 0x66 then some (10 + (c - 0x61).setWidth 32)
  else if 0x41 ≤ c ∧ c < 0x46 then some (10 + (c - 0x41).setWidth 32)
  else none

/-- The loop of `parse_hex32`: the value, and whether a `digit` was used that was not
assigned.  At the character `i` it holds `garbage i` then. -/
def parseHexLoop (garbage : Nat → U32) : List U8 → Nat → U32 → Bool → U32 × Bool
  | [], _, value, unassigned => (value, unassigned)
  | c :: str, i, value, unassigned =>
    if c = 0 then (value, unassigned)
    else
      let digit := (hexDigit c).getD (garbage i)
      parseHexLoop garbage str (i + 1) ((value <<< 4) ||| digit)
        (unassigned || (hexDigit c).isNone)

/-- What `parse_hex32` returns and leaves in `*out`. -/
structure HexResult where
  ret : Bool
  out : U32
  /-- Ghost: a `digit` was used that was not assigned. -/
  unassigned : Bool := false
deriving DecidableEq

/-- `parse_hex32`.  The string can be a null pointer. -/
def parseHex32 (garbage : Nat → U32) (str : Option (List U8)) (out : U32) : HexResult :=
  match str with
  | none => ⟨false, out, false⟩
  | some str =>
    if str.getD 0 0 = 0 then ⟨false, out, false⟩
    else if str.getD 0 0 = 0x30 ∧ (str.getD 1 0 = 0x78 ∨ str.getD 1 0 = 0x58) then
      if str.getD 2 0 = 0 then ⟨false, out, false⟩
      else
        let r := parseHexLoop garbage (str.drop 2) 2 0 false
        ⟨true, r.1, r.2⟩
    else ⟨false, out, false⟩

/-! ## What the loop reads -/

/-- What a hexadecimal digit means. -/
def hexDigitOf (c : U8) : Option Nat :=
  if 48 ≤ c ∧ c ≤ 57 then some (c.toNat - 48)
  else if 0x61 ≤ c ∧ c ≤ 0x66 then some (c.toNat - 0x61 + 10)
  else if 0x41 ≤ c ∧ c ≤ 0x46 then some (c.toNat - 0x41 + 10)
  else none

/-- The number that hexadecimal digits stand for. -/
def hexDigitsValue (s : List U8) : Nat := Numeral.value 16 (s.map fun c => (hexDigitOf c).getD 0)

/-- What the loop adds for a character, if an unassigned variable holds 0. -/
def hexDigitRead (c : U8) : Nat := if c = 0x46 then 0 else (hexDigitOf c).getD 0

section

variable {garbage : Nat → U32} {s : List U8} {c : U8} {v : Nat}

theorem hexDigit_eq (c : U8) :
    hexDigit c = if c = 0x46 then none else (hexDigitOf c).map (BitVec.ofNat 32) := by
  revert c
  decide

theorem hexDigitOf_lt (c : U8) : (hexDigitOf c).getD 0 < 16 := by
  revert c
  decide

theorem hexDigitRead_lt (c : U8) : hexDigitRead c < 16 := by
  unfold hexDigitRead
  split
  · decide
  · exact hexDigitOf_lt c

theorem hexDigit_getD_zero (c : U8) : (hexDigit c).getD 0 = BitVec.ofNat 32 (hexDigitRead c) := by
  rw [hexDigit_eq, hexDigitRead]
  split
  · rfl
  · cases hexDigitOf c <;> rfl

theorem hexDigit_eq_none_iff : hexDigit c = none ↔ c = 0x46 ∨ hexDigitOf c = none := by
  rw [hexDigit_eq]
  by_cases h : c = 0x46
  · rw [if_pos h]
    exact iff_of_true rfl (.inl h)
  · rw [if_neg h, Option.map_eq_none_iff]
    exact ⟨.inr, fun hor => hor.resolve_left h⟩

/-- **A digit is used unassigned** exactly where the character is an F or no digit. -/
theorem parseHexLoop_unassigned (hs : 0 ∉ s) (i : Nat) (value : U32) (unassigned : Bool) :
    (parseHexLoop garbage s i value unassigned).2 =
      (unassigned || s.any fun c => (hexDigit c).isNone) := by
  induction s generalizing i value unassigned with
  | nil => simp [parseHexLoop]
  | cons c s ih =>
    rw [List.mem_cons, not_or] at hs
    rw [parseHexLoop, if_neg (Ne.symm hs.1)]
    dsimp only
    rw [ih hs.2, List.any_cons, Bool.or_assoc]

/-- If none is, it does not matter what the variable holds. -/
theorem parseHexLoop_assigned (h : ∀ c ∈ s, hexDigit c ≠ none) (i : Nat) (value : U32)
    (unassigned : Bool) : parseHexLoop garbage s i value unassigned =
      parseHexLoop (fun _ => 0) s i value unassigned := by
  induction s generalizing i value unassigned with
  | nil => rfl
  | cons c s ih =>
    obtain ⟨digit, hdigit⟩ := Option.ne_none_iff_exists'.1 (h c List.mem_cons_self)
    rw [parseHexLoop, parseHexLoop, ih fun d hd => h d (List.mem_cons_of_mem c hd), hdigit]
    rfl

/-- **The value of the loop**, if the variable holds 0. -/
theorem parseHexLoop_value (hs : 0 ∉ s) (i v : Nat) (unassigned : Bool) :
    (parseHexLoop (fun _ => 0) s i (BitVec.ofNat 32 v) unassigned).1 =
      BitVec.ofNat 32 (Numeral.readOn 16 v (s.map hexDigitRead)) := by
  induction s generalizing i v unassigned with
  | nil => rfl
  | cons c s ih =>
    rw [List.mem_cons, not_or] at hs
    rw [parseHexLoop, if_neg (Ne.symm hs.1)]
    dsimp only
    rw [hexDigit_getD_zero, Numeral.shiftLeft_or 32 (k := 4) (hexDigitRead_lt c), ih hs.2]
    rfl

theorem hexDigitRead_eq (h : c ≠ 0x46) : hexDigitRead c = (hexDigitOf c).getD 0 := if_neg h

/-- **Digits but no F** are read, whatever the variable holds. -/
theorem parseHexLoop_digits (hs : 0 ∉ s) (h : ∀ c ∈ s, hexDigitOf c ≠ none ∧ c ≠ 0x46) :
    parseHexLoop garbage s 2 0 false = (BitVec.ofNat 32 (hexDigitsValue s), false) := by
  have hassigned : ∀ c ∈ s, hexDigit c ≠ none := by
    intro c hc hnone
    rcases hexDigit_eq_none_iff.1 hnone with hF | hother
    · exact (h c hc).2 hF
    · exact (h c hc).1 hother
  have hread : s.map hexDigitRead = s.map fun c => (hexDigitOf c).getD 0 :=
    List.map_congr_left fun c hc => hexDigitRead_eq (h c hc).2
  have hnone : (s.any fun c => (hexDigit c).isNone) = false := by
    rw [List.any_eq_false]
    exact fun c hc hc' => hassigned c hc (Option.isNone_iff_eq_none.1 hc')
  refine Prod.ext ?_ ?_
  · have hvalue := parseHexLoop_value hs 2 0 false
    rw [hread] at hvalue
    rw [parseHexLoop_assigned hassigned]
    exact hvalue
  · rw [parseHexLoop_unassigned hs, hnone]
    rfl

end

/-! ## The strings it is made for -/

/-- The string is `0x` or `0X` and the digits. -/
def HexPrefixed (s digits : List U8) : Prop :=
  s = 0x30 :: 0x78 :: digits ∨ s = 0x30 :: 0x58 :: digits

section

variable {garbage : Nat → U32} {s digits : List U8} {out : U32}

/-- With digits behind the prefix the loop runs. -/
theorem parseHex32_prefixed (h : HexPrefixed s digits) (hs : 0 ∉ s) (hne : digits ≠ []) :
    parseHex32 garbage (some s) out =
      ⟨true, (parseHexLoop garbage digits 2 0 false).1,
        (parseHexLoop garbage digits 2 0 false).2⟩ := by
  obtain ⟨c, digits, rfl⟩ := List.exists_cons_of_ne_nil hne
  have hc : c ≠ 0 := by
    rintro rfl
    rcases h with rfl | rfl <;> simp at hs
  rcases h with rfl | rfl <;> simpa [parseHex32] using hc

/-- Every other string is turned down. -/
theorem parseHex32_other (h : ∀ digits, HexPrefixed s digits → digits = []) :
    parseHex32 garbage (some s) out = ⟨false, out, false⟩ := by
  rcases s with _ | ⟨a, _ | ⟨b, _ | ⟨c, s⟩⟩⟩
  · simp [parseHex32]
  · simp [parseHex32]
  · simp [parseHex32]
  · have hpre : ¬ (a = 0x30 ∧ (b = 0x78 ∨ b = 0x58)) := by
      rintro ⟨rfl, rfl | rfl⟩
      · exact List.cons_ne_nil c s (h (c :: s) (.inl rfl))
      · exact List.cons_ne_nil c s (h (c :: s) (.inr rfl))
    unfold parseHex32
    simp only [List.getD_cons_zero, List.getD_cons_succ]
    rw [if_neg hpre]
    split <;> rfl

theorem HexPrefixed.unique {digits' : List U8} (h : HexPrefixed s digits)
    (h' : HexPrefixed s digits') : digits = digits' := by
  rcases h with rfl | rfl <;> rcases h' with h' | h' <;> simp_all

theorem HexPrefixed.plain (h : HexPrefixed s digits) (hs : 0 ∉ s) : 0 ∉ digits := by
  rcases h with rfl | rfl <;> simp_all

/-- It is taken for the number it is: if 1 is returned it is a prefix and hexadecimal digits
with a value below 2^32, which is in `*out`; otherwise `*out` is left alone.  And no digit is
used that was not assigned. -/
def HexExact (s : List U8) : Prop := ∀ garbage out,
  ((parseHex32 garbage (some s) out).ret = true → ∃ digits, HexPrefixed s digits ∧
    (∀ c ∈ digits, hexDigitOf c ≠ none) ∧ hexDigitsValue digits < 2 ^ 32 ∧
    (parseHex32 garbage (some s) out).out = BitVec.ofNat 32 (hexDigitsValue digits)) ∧
  ((parseHex32 garbage (some s) out).ret = false → (parseHex32 garbage (some s) out).out = out) ∧
  (parseHex32 garbage (some s) out).unassigned = false

/-- **`parse_hex32` takes a string for the number it is** exactly if there is nothing behind
the prefix, or no prefix, or only digits that are no F, of a number below 2^32. -/
theorem parse_hex32_exact_iff (hs : 0 ∉ s) : HexExact s ↔
    ∀ digits, HexPrefixed s digits → digits = [] ∨
      (∀ c ∈ digits, hexDigitOf c ≠ none ∧ c ≠ 0x46) ∧ hexDigitsValue digits < 2 ^ 32 := by
  constructor
  · intro hexact digits hpre
    by_cases hne : digits = []
    · exact .inl hne
    obtain ⟨hret, -, hunassigned⟩ := hexact (fun _ => 0) 0
    rw [parseHex32_prefixed hpre hs hne] at hret hunassigned
    obtain ⟨digits', hpre', hdigits, hvalue, -⟩ := hret rfl
    obtain rfl := hpre.unique hpre'
    refine .inr ⟨fun c hc => ⟨hdigits c hc, ?_⟩, hvalue⟩
    rintro rfl
    -- an F is in no branch
    dsimp only at hunassigned
    rw [parseHexLoop_unassigned (hpre.plain hs), Bool.false_or, List.any_eq_false] at hunassigned
    exact hunassigned _ hc (by decide)
  · intro hcond garbage out
    by_cases hempty : ∀ digits, HexPrefixed s digits → digits = []
    · rw [parseHex32_other hempty]
      exact ⟨fun h => (Bool.false_ne_true h).elim, fun _ => rfl, rfl⟩
    · simp only [not_forall] at hempty
      obtain ⟨digits, hpre, hne⟩ := hempty
      obtain ⟨hdigits, hvalue⟩ := (hcond digits hpre).resolve_left hne
      rw [parseHex32_prefixed hpre hs hne, parseHexLoop_digits (hpre.plain hs) hdigits]
      exact ⟨fun _ => ⟨digits, hpre, fun c hc => (hdigits c hc).1, hvalue, rfl⟩,
        fun h => (Bool.false_ne_true h.symm).elim, rfl⟩

/-- `0x1a`, and its value. -/
theorem parse_hex32_exact_1a : HexExact (chars "0x1a") ∧ hexDigitsValue (chars "1a") = 26 := by
  refine ⟨(parse_hex32_exact_iff (by decide)).2 fun digits hpre => .inr ?_, by decide⟩
  obtain rfl : chars "1a" = digits := HexPrefixed.unique (.inl (by decide)) hpre
  exact ⟨by decide, by decide⟩

/-- `0xz` is taken for whatever was on the stack, and `0x100000000` for 0. -/
theorem parseHex32_accepts_other :
    (∀ garbage, parseHex32 garbage (some (chars "0xz")) 0 = ⟨true, garbage 2, true⟩) ∧
      ¬ HexExact (chars "0xz") ∧
      parseHex32 (fun _ => 0) (some (chars "0x100000000")) 7 = ⟨true, 0, false⟩ := by
  have hrun : ∀ garbage, parseHex32 garbage (some (chars "0xz")) 0 = ⟨true, garbage 2, true⟩ := by
    intro garbage
    change HexResult.mk true (((0 : U32) <<< 4) ||| garbage 2) true = _
    rw [show (0 : U32) <<< 4 = 0#32 by decide, BitVec.zero_or]
  refine ⟨hrun, fun hexact => ?_, by decide⟩
  have hunassigned := (hexact (fun _ => 0) 0).2.2
  rw [hrun] at hunassigned
  exact Bool.false_ne_true hunassigned.symm

end

/-! ## Parsing what was printed -/

/-- The string is read as this number, whatever was on the stack. -/
def ReadsHex (s : List U8) (v : U32) : Prop := ∀ garbage out,
  (parseHex32 garbage (some s) out).ret = true ∧ (parseHex32 garbage (some s) out).out = v

section

variable {v : U32} {f : U8 → U8}

/-- What is printed for a digit, and in lower case. -/
theorem hexChar_facts : ∀ d < 16, hexDigitOf (hexChar (BitVec.ofNat 8 d)) = some d ∧
    hexDigitOf (tolower (hexChar (BitVec.ofNat 8 d))) = some d ∧
    tolower (hexChar (BitVec.ofNat 8 d)) ≠ 0x46 ∧ tolower (hexChar (BitVec.ofNat 8 d)) ≠ 0 ∧
    (hexChar (BitVec.ofNat 8 d) = 0x46 ↔ d = 15) := by decide

/-- The number in the eight characters, whatever case they are in. -/
theorem hexDigitsValue_text
    (hf : ∀ d < 16, hexDigitOf (f (hexChar (BitVec.ofNat 8 d))) = some d) :
    hexDigitsValue ((hex32Text v).map f) = v.toNat := by
  have hread : ((hex32Text v).map f).map (fun c => (hexDigitOf c).getD 0) =
      Numeral.fixed 16 8 v.toNat := by
    rw [hex32Text_eq, List.map_map, List.map_map]
    refine (List.map_congr_left fun d hd => ?_).trans (List.map_id _)
    change (hexDigitOf (f (hexChar (BitVec.ofNat 8 d)))).getD 0 = d
    rw [hf d (Numeral.fixed_lt (by decide) hd)]
    rfl
  rw [hexDigitsValue, hread, Numeral.value_fixed]
  exact Nat.mod_eq_of_lt v.isLt

/-- They are read back if none of them is an F. -/
theorem readsHex_text (hf : ∀ d < 16, hexDigitOf (f (hexChar (BitVec.ofNat 8 d))) = some d)
    (hzero : ∀ d < 16, f (hexChar (BitVec.ofNat 8 d)) ≠ 0)
    (hF : ∀ d ∈ Numeral.fixed 16 8 v.toNat, f (hexChar (BitVec.ofNat 8 d)) ≠ 0x46) :
    ReadsHex (chars "0x" ++ (hex32Text v).map f) v := by
  have hmem : ∀ c ∈ (hex32Text v).map f, ∃ d ∈ Numeral.fixed 16 8 v.toNat, d < 16 ∧
      c = f (hexChar (BitVec.ofNat 8 d)) := by
    intro c hc
    rw [hex32Text_eq, List.map_map] at hc
    obtain ⟨d, hd, rfl⟩ := List.mem_map.1 hc
    exact ⟨d, hd, Numeral.fixed_lt (by decide) hd, rfl⟩
  have hplain : 0 ∉ (hex32Text v).map f := by
    intro h
    obtain ⟨d, -, hlt, heq⟩ := hmem 0 h
    exact hzero d hlt heq.symm
  have hne : (hex32Text v).map f ≠ [] := by simp [hex32Text]
  have hpre : HexPrefixed (chars "0x" ++ (hex32Text v).map f) ((hex32Text v).map f) := .inl rfl
  intro garbage out
  rw [parseHex32_prefixed hpre (by simpa [chars] using hplain) hne,
    parseHexLoop_digits hplain, hexDigitsValue_text hf]
  · exact ⟨rfl, by simp⟩
  · intro c hc
    obtain ⟨d, hd, hlt, rfl⟩ := hmem c hc
    exact ⟨by rw [hf d hlt]; exact Option.some_ne_none d, hF d hd⟩

/-- **In lower case every number is read back.** -/
theorem readsHex_lower (v : U32) : ReadsHex (chars "0x" ++ (hex32Text v).map tolower) v :=
  readsHex_text (fun d hd => (hexChar_facts d hd).2.1) (fun d hd => (hexChar_facts d hd).2.2.2.1)
    fun d hd => (hexChar_facts d (Numeral.fixed_lt (by decide) hd)).2.2.1

theorem nibble_eq_iff (v : U32) (k : Nat) :
    (v >>> (4 * k)) &&& 0x0F = 0x0F ↔ v.toNat / 16 ^ k % 16 = 15 := by
  have hnibble : ((v >>> (4 * k)) &&& 0x0F).toNat = v.toNat / 16 ^ k % 16 := by
    rw [BitVec.toNat_and, BitVec.toNat_ushiftRight, Nat.shiftRight_eq_div_pow, Nat.pow_mul]
    exact Nat.and_two_pow_sub_one_eq_mod _ 4
  rw [← BitVec.toNat_inj, hnibble]
  rfl

theorem hex32Text_plain (v : U32) : 0 ∉ hex32Text v := by
  rw [hex32Text_eq]
  intro hmem
  obtain ⟨d, hd, hzero⟩ := List.mem_map.1 hmem
  exact hexChar_ne_zero d (Numeral.fixed_lt (by decide) hd) hzero

/-- What the loop adds for the eight characters, if there is a 0 on the stack. -/
def digitsRead (v : U32) : List Nat :=
  (Numeral.fixed 16 8 v.toNat).map fun d => if d = 15 then 0 else d

theorem map_hexDigitRead (v : U32) : (hex32Text v).map hexDigitRead = digitsRead v := by
  rw [hex32Text_eq, List.map_map]
  refine List.map_congr_left fun d hd => ?_
  obtain ⟨hdigit, -, -, -, hF⟩ := hexChar_facts d (Numeral.fixed_lt (by decide) hd)
  change hexDigitRead (hexChar (BitVec.ofNat 8 d)) = _
  rw [hexDigitRead, hdigit]
  exact if_congr hF rfl rfl

theorem digitsRead_lt {d : Nat} (hd : d ∈ digitsRead v) : d < 16 := by
  obtain ⟨e, he, rfl⟩ := List.mem_map.1 hd
  have hlt := Numeral.fixed_lt (by decide) he
  split <;> omega

theorem value_digitsRead_lt (v : U32) : Numeral.value 16 (digitsRead v) < 2 ^ 32 := by
  have hbound := Numeral.value_lt (by decide) fun d => @digitsRead_lt v d
  rwa [digitsRead, List.length_map, Numeral.length_fixed] at hbound

/-- **An F is read as something else**, if there is a 0 on the stack. -/
theorem fixed_ne_of_readsHex (h : ReadsHex (chars "0x" ++ hex32Text v) v) :
    15 ∉ Numeral.fixed 16 8 v.toNat := by
  have hpre : HexPrefixed (chars "0x" ++ hex32Text v) (hex32Text v) := .inl rfl
  have hplain := hex32Text_plain v
  have hvalue := (h (fun _ => 0) 0).2
  rw [parseHex32_prefixed hpre (by simpa [chars] using hplain) (by simp [hex32Text])] at hvalue
  have hloop := parseHexLoop_value hplain 2 0 false
  rw [map_hexDigitRead] at hloop
  -- both lists have eight digits, so they are the same if they have the same value
  have hsame : Numeral.value 16 (digitsRead v) =
      Numeral.value 16 (Numeral.fixed 16 8 v.toNat) := by
    have hword := congrArg BitVec.toNat (hloop.symm.trans hvalue)
    rw [BitVec.toNat_ofNat] at hword
    rw [Numeral.value_fixed]
    exact (Nat.mod_eq_of_lt (value_digitsRead_lt v)).symm.trans
      (hword.trans (Nat.mod_eq_of_lt v.isLt).symm)
  have hdigits : digitsRead v = Numeral.fixed 16 8 v.toNat :=
    Numeral.value_inj (by decide) (List.length_map _) (fun _ => digitsRead_lt)
      (fun _ => Numeral.fixed_lt (by decide)) hsame
  intro hmem
  obtain ⟨d, hd, hd'⟩ := List.mem_map.1 (hdigits ▸ hmem : 15 ∈ digitsRead v)
  split at hd' <;> omega

/-- **Printing and parsing an address.**  Exactly the numbers without a hexadecimal digit F
are read back from what is printed; in lower case all of them are. -/
theorem hex32_round_trip_iff (v : U32) :
    (∀ t, terminalWriteHex32 v t = terminalWrite (hex32Text v) t) ∧
    ((ReadsHex (chars "0x" ++ hex32Text v) v ∧
        ReadsHex (chars "0x" ++ (hex32Text v).map tolower) v) ↔
      ∀ k < 8, (v >>> (4 * k)) &&& 0x0F ≠ 0x0F) := by
  refine ⟨terminalWriteHex32_eq v, ⟨fun h k hk hF => ?_, fun h => ⟨?_, readsHex_lower v⟩⟩⟩
  · exact fixed_ne_of_readsHex h.1 (Numeral.mem_fixed.2 ⟨k, hk, (nibble_eq_iff v k).1 hF⟩)
  · rw [← List.map_id (hex32Text v)]
    refine readsHex_text (fun d hd => (hexChar_facts d hd).1) hexChar_ne_zero fun d hd hF => ?_
    have h15 := (hexChar_facts d (Numeral.fixed_lt (by decide) hd)).2.2.2.2.1 hF
    obtain ⟨k, hk, hdigit⟩ := Numeral.mem_fixed.1 (h15 ▸ hd)
    exact h k hk ((nibble_eq_iff v k).2 hdigit)

/-- The number 15 is printed as `0000000F`, which is read as 0 if there is a 0 on the stack. -/
theorem hex32_loses_15 : hex32Text 15 = chars "0000000F" ∧
    parseHex32 (fun _ => 0) (some (chars "0x" ++ hex32Text 15)) 7 = ⟨true, 0, true⟩ ∧
    ¬ ReadsHex (chars "0x" ++ hex32Text 15) 15 := by
  have hrun : parseHex32 (fun _ => 0) (some (chars "0x" ++ hex32Text 15)) 7 = ⟨true, 0, true⟩ := by
    decide
  refine ⟨by decide, hrun, fun h => ?_⟩
  have hvalue := (h (fun _ => 0) 7).2
  rw [hrun] at hvalue
  exact absurd hvalue (by decide)

end

end Frewozet
