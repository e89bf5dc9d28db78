import Frewozet.Shell.Parser
import Frewozet.Terminal.Bounds
import Frewozet.Text.Decimal

/-!
# The calculator

`calc` takes its operands and its operator as three words, or as one.

* `cmdCalc`, `shellRunCalcArgv` — the code; `calcWords` and `calcExpr` are its two ways to the
  operands, with a message where they do not find them, and `calcResult` is what it prints.
* `Operand`, `Asks` — a string of digits, and what the arguments ask for.
* `cmdCalc_asks` — both forms find the operands.
* `calc_exact_iff` — **the result is the right one exactly if it lies between -2^31 and 2^31**:
  it is printed as an `int`, and a difference gets its sign before that.
* `calc_forms_agree` — the two forms do the same, up to the length of a buffer.
-/

namespace Frewozet

/-! ## The code -/

/-- `op` is one of the operators. -/
def isOperator (op : U8) : Bool :=
  op = 0x2B || op = 0x2D || op = 0x2A || op = 0x2F || op = 0x5E

/-- The calls that `terminal_write_decimal` comes to. -/
def decimalCalls (value : U32) : List TermCall :=
  if value.toInt < 0 then [.writechar 0x2D, .write (numeral (-value).toNat)]
  else [.write (numeral value.toNat)]

/-- The operands and the operator, or the message that is shown. -/
abbrev CalcInput := Except (List U8) (U32 × U8 × U32)

/-- The branch for `argc == 2`, with the uninitialized `left_buf`. -/
def calcExpr (leftBuf : CharArray 32) (expr : List U8) : Option CalcInput :=
  let expr := expr.dropWhile isBlank
  let leftLen := (expr.takeWhile isDigit).length
  if leftLen = 0 then
    some (.error (chars "FREWOZET CALC ERROR: Expected first number.\n"))
  else if leftLen ≥ 32 then
    some (.error (chars "FREWOZET CALC ERROR: Number too long. Left buffer overflow.\n"))
  else do
    let leftBuf ← leftBuf.copyChars expr leftLen
    let leftBuf ← leftBuf.store leftLen 0
    let leftText ← leftBuf.stringAt 0
    let expr := (expr.drop leftLen).dropWhile isBlank
    let op := expr.headD 0
    if !isOperator op then
      some (.error (chars "FREWOZET CALC ERROR: Expected operator (+, -, *, /, ^).\n"))
    else
      let rightText := (expr.drop 1).dropWhile isBlank
      match shellParseUint32 leftText, shellParseUint32 rightText with
      | some left, some right => some (.ok (left, op, right))
      | _, _ => some (.error (chars "FREWOZET CALC ERROR: Invalid number\n"))

/-- The branch for `argc == 4`. -/
def calcWords (leftText opText rightText : List U8) : CalcInput :=
  match shellParseUint32 leftText with
  | none => .error (chars "FREWOZET CALC ERROR: Invalid first number.\n")
  | some left =>
    if opText.length ≠ 1 then
      .error (chars "FREWOZET CALC ERROR: Operator must be one character.\n")
    else
      let op := opText.headD 0
      if !isOperator op then
        .error (chars "FREWOZET CALC ERROR: Expected operator (+, -, *, /, ^).\n")
      else
        match shellParseUint32 rightText with
        | none => .error (chars "FREWOZET CALC ERROR: Invalid second number.\n")
        | some right => .ok (left, op, right)

/-- The loop for `^`. -/
def powerLoop (left right : U32) : U32 := forRange right.toNat (fun _ result => result * left) 1

/-- What is printed for operands and an operator. -/
def calcResult (left : U32) (op : U8) (right : U32) : List TermCall :=
  .write (chars "= ") ::
    if op = 0x2B then decimalCalls (left + right) ++ [.write (chars "\n")]
    else if op = 0x2D then
      (if left ≥ right then decimalCalls (left - right)
      else .write (chars "-") :: decimalCalls (right - left)) ++ [.write (chars "\n")]
    else if op = 0x2A then decimalCalls (left * right) ++ [.write (chars "\n")]
    else if op = 0x2F then
      if right = 0 then
        [.colorshellWrite (chars "FREWOZET CALC ERROR: Division by zero.\n") "error"]
      else decimalCalls (left / right) ++ [.write (chars "\n")]
    else if op = 0x5E then decimalCalls (powerLoop left right) ++ [.write (chars "\n")]
    else []

/-- What is shown for an input. -/
def calcShow : CalcInput → List TermCall
  | .error message => [.colorshellWrite message "error"]
  | .ok (left, op, right) => calcResult left op right

/-- `shell_run_calc_argv`. -/
def shellRunCalcArgv (leftBuf : CharArray 32) (argv : List (List U8)) : Option (List TermCall) :=
  if argv.length < 2 then
    some [.colorshellWrite (chars "Usage: calc <a> <op> <b>\n") "error",
      .colorshellWrite (chars "Example: calc 5 + 3\n") "prompt"]
  else do
    let input ←
      if argv.length = 2 then calcExpr leftBuf (argv.getD 1 [])
      else if argv.length = 4 then
        some (calcWords (argv.getD 1 []) (argv.getD 2 []) (argv.getD 3 []))
      else some (.error (chars "Usage: calc <a> <op> <b>\n"))
    some (calcShow input)

/-- `cmd_calc`. -/
def cmdCalc (leftBuf : CharArray 32) (argv : List (List U8)) : Option (List TermCall) :=
  if argv.length = 1 then
    some [.colorshellWrite (chars "Usage: calc <a> <op> <b> \n") "error"]
  else shellRunCalcArgv leftBuf argv

/-! ## What is printed -/

/-- The characters that calls write, in one text. -/
def printed (calls : List TermCall) : List U8 := calls.flatMap TermCall.text

@[simp] theorem printed_nil : printed [] = [] := rfl

@[simp] theorem printed_cons (call : TermCall) (calls : List TermCall) :
    printed (call :: calls) = call.text ++ printed calls := rfl

@[simp] theorem printed_append (calls calls' : List TermCall) :
    printed (calls ++ calls') = printed calls ++ printed calls' := List.flatMap_append

/-- **The number is printed as an `int`.** -/
@[simp] theorem printed_decimalCalls (value : U32) :
    printed (decimalCalls value) = signedNumeral value.toInt := by
  unfold decimalCalls signedNumeral
  by_cases hneg : value.toInt < 0
  · rw [if_pos hneg, if_pos hneg, toNat_neg_of_neg hneg]
    simp [TermCall.text, cstr_eq_self (numeral_plain _)]
  · rw [if_neg hneg, if_neg hneg, toNat_of_nonneg hneg]
    simp [TermCall.text, cstr_eq_self (numeral_plain _)]

theorem numeral_inj {v w : Nat} (h : numeral v = numeral w) : v = w := by
  rw [← (numeral_canonical v).value, h, (numeral_canonical w).value]

/-- A minus sign is no digit. -/
theorem signedNumeral_inj {y z : Int} (h : signedNumeral y = signedNumeral z) : y = z := by
  have hminus : ∀ (v : Nat) (s : List U8), numeral v ≠ 0x2D :: s := by
    intro v s hc
    exact absurd ((numeral_canonical v).digits 0x2D (by rw [hc]; exact List.mem_cons_self))
      (by decide)
  unfold signedNumeral at h
  by_cases hy : y < 0 <;> by_cases hz : z < 0
  · rw [if_pos hy, if_pos hz] at h
    have habs := numeral_inj (List.append_cancel_left h)
    omega
  · rw [if_pos hy, if_neg hz] at h
    exact absurd h.symm (hminus _ _)
  · rw [if_neg hy, if_pos hz] at h
    exact absurd h (hminus _ _)
  · rw [if_neg hy, if_neg hz] at h
    have habs := numeral_inj h
    omega

/-- **A word below 2^31 is printed as the number it is**, and no other is. -/
theorem signedNumeral_toInt_iff (value : U32) :
    signedNumeral value.toInt = signedNumeral value.toNat ↔ value.toNat < 2 ^ 31 := by
  have hint := BitVec.toInt_eq_toNat_cond value
  have hlt := value.isLt
  constructor
  · intro h
    have hsame := signedNumeral_inj h
    split at hint <;> omega
  · intro h
    rw [BitVec.toInt_eq_toNat_of_lt (by omega)]

/-- The loop for `^`. -/
theorem powerLoop_eq (left right : U32) : powerLoop left right =
    BitVec.ofNat 32 (left.toNat ^ right.toNat) := by
  refine forRange_rule (P := fun i (result : U32) => result = BitVec.ofNat 32 (left.toNat ^ i))
    rfl fun i _ result hresult => ?_
  rw [hresult, pow_succ, BitVec.ofNat_mul, BitVec.ofNat_toNat, BitVec.setWidth_eq]

/-! ## What is asked for -/

/-- A string of digits, and the number it stands for. -/
structure Operand (s : List U8) (v : Nat) : Prop where
  nonempty : s ≠ []
  digits : ∀ c ∈ s, isDigit c
  value : digitsValue s = v

/-- The exact result, but for a division by 0. -/
def exactResult (op : U8) (a b : Nat) : Option Int :=
  if op = 0x2B then some (a + b)
  else if op = 0x2D then some (a - b)
  else if op = 0x2A then some (a * b)
  else if op = 0x2F then if b = 0 then none else some ((a / b : Nat) : Int)
  else if op = 0x5E then some ((a ^ b : Nat) : Int)
  else none

/-- The arguments ask for an operation on two numbers: as three words, or as one with blanks
around the operator and a left operand that fits in the buffer. -/
inductive Asks : List (List U8) → Nat → U8 → Nat → Prop where
  | words {name left right : List U8} {op : U8} {a b : Nat} (hleft : Operand left a)
      (hop : isOperator op) (hright : Operand right b) : Asks [name, left, [op], right] a op b
  | expr {name left before after right : List U8} {op : U8} {a b : Nat} (hleft : Operand left a)
      (hshort : left.length < 32) (hbefore : ∀ c ∈ before, isBlank c) (hop : isOperator op)
      (hafter : ∀ c ∈ after, isBlank c) (hright : Operand right b) :
      Asks [name, left ++ before ++ op :: (after ++ right)] a op b

section

variable {left right before after name : List U8} {op c : U8} {a b : Nat}

theorem Operand.parse (h : Operand left a) :
    shellParseUint32 left = some (BitVec.ofNat 32 a) := by
  rw [shellParseUint32_digits h.digits h.nonempty, h.value]

theorem Operand.plain (h : Operand left a) : 0 ∉ left :=
  fun hmem => isDigit_ne_zero (h.digits 0 hmem) rfl

theorem not_isDigit_of_isBlank : ∀ c : U8, isBlank c → ¬ isDigit c := by decide

theorem not_isBlank_of_isDigit : ∀ c : U8, isDigit c → ¬ isBlank c := by decide

theorem not_isDigit_of_isOperator : ∀ c : U8, isOperator c → ¬ isDigit c := by decide

theorem not_isBlank_of_isOperator : ∀ c : U8, isOperator c → ¬ isBlank c := by decide

theorem Operand.dropWhile_start (h : Operand left a) (rest : List U8) :
    (left ++ rest).dropWhile isBlank = left ++ rest := by
  obtain ⟨c, left, rfl⟩ := List.exists_cons_of_ne_nil h.nonempty
  rw [List.cons_append, List.dropWhile_cons,
    if_neg (not_isBlank_of_isDigit c (h.digits c List.mem_cons_self))]

/-- Blanks before an operand are skipped. -/
theorem Operand.dropWhile_blank (h : Operand right b) (hafter : ∀ c ∈ after, isBlank c) :
    (after ++ right).dropWhile isBlank = right := by
  have hstart := h.dropWhile_start []
  rw [List.append_nil] at hstart
  rw [List.dropWhile_append_of_pos hafter, hstart]

theorem dropWhile_operator (hbefore : ∀ c ∈ before, isBlank c) (hop : isOperator op)
    (rest : List U8) : (before ++ op :: rest).dropWhile isBlank = op :: rest := by
  rw [List.dropWhile_append_of_pos hbefore, List.dropWhile_cons,
    if_neg (not_isBlank_of_isOperator op hop)]

/-- The digits at the front of an expression are the left operand. -/
theorem takeWhile_operand (h : Operand left a) (hbefore : ∀ c ∈ before, isBlank c)
    (hop : isOperator op) (rest : List U8) :
    (left ++ (before ++ op :: rest)).takeWhile isDigit = left := by
  have hnone : (before ++ op :: rest).takeWhile isDigit = [] := by
    cases before with
    | nil => simp [not_isDigit_of_isOperator op hop]
    | cons c before => simp [not_isDigit_of_isBlank c (hbefore c List.mem_cons_self)]
  rw [List.takeWhile_append_of_pos h.digits, hnone, List.append_nil]

/-- **A short left operand** is copied, and everything is found. -/
theorem calcExpr_short (hleft : Operand left a) (hshort : left.length < 32)
    (hbefore : ∀ c ∈ before, isBlank c) (hop : isOperator op) (hafter : ∀ c ∈ after, isBlank c)
    (hright : Operand right b) (leftBuf : CharArray 32) :
    calcExpr leftBuf (left ++ before ++ op :: (after ++ right)) =
      some (.ok (BitVec.ofNat 32 a, op, BitVec.ofNat 32 b)) := by
  have hpos : left.length ≠ 0 := fun hzero => hleft.nonempty (List.eq_nil_of_length_eq_zero hzero)
  obtain ⟨leftBuf₁, hcopy, hbegins⟩ := CharArray.copyChars_begins
    (s := left ++ (before ++ op :: (after ++ right))) (k := left.length) (by simp) hshort.le leftBuf
  rw [List.take_left] at hbegins
  obtain ⟨leftBuf₂, hnul, hholds⟩ := hbegins.nul hshort hleft.plain
  rw [List.append_assoc]
  unfold calcExpr
  dsimp only
  rw [hleft.dropWhile_start, takeWhile_operand hleft hbefore hop, if_neg hpos,
    if_neg (Nat.not_le.2 hshort), hcopy]
  dsimp only [bind, Option.bind]
  rw [hnul]
  dsimp only
  rw [CharArray.stringAt_of_holds hholds]
  dsimp only
  rw [List.drop_left, dropWhile_operator hbefore hop, List.headD_cons, hop, List.drop_one,
    List.tail_cons, hright.dropWhile_blank hafter, hleft.parse, hright.parse]
  rfl

/-- **A long one** is turned down. -/
theorem calcExpr_long (hleft : Operand left a) (hlong : 32 ≤ left.length)
    (hbefore : ∀ c ∈ before, isBlank c) (hop : isOperator op) (leftBuf : CharArray 32)
    (rest : List U8) : calcExpr leftBuf (left ++ before ++ op :: rest) =
      some (.error
        (chars "FREWOZET CALC ERROR: Number too long. Left buffer overflow.\n")) := by
  rw [List.append_assoc]
  unfold calcExpr
  dsimp only
  rw [hleft.dropWhile_start, takeWhile_operand hleft hbefore hop, if_neg (by omega), if_pos hlong]

theorem calcWords_operands (hleft : Operand left a) (hop : isOperator op)
    (hright : Operand right b) :
    calcWords left [op] right = .ok (BitVec.ofNat 32 a, op, BitVec.ofNat 32 b) := by
  simp [calcWords, hleft.parse, hright.parse, hop]

theorem cmdCalc_words (hleft : Operand left a) (hop : isOperator op) (hright : Operand right b)
    (leftBuf : CharArray 32) (name : List U8) : cmdCalc leftBuf [name, left, [op], right] =
      some (calcResult (BitVec.ofNat 32 a) op (BitVec.ofNat 32 b)) := by
  have hwords := calcWords_operands hleft hop hright
  simp [cmdCalc, shellRunCalcArgv, hwords, calcShow]

theorem cmdCalc_expr (expr name : List U8) (leftBuf : CharArray 32) {input : CalcInput}
    (h : calcExpr leftBuf expr = some input) :
    cmdCalc leftBuf [name, expr] = some (calcShow input) := by
  simp [cmdCalc, shellRunCalcArgv, h]

/-- **Both forms find the operands.** -/
theorem cmdCalc_asks {argv : List (List U8)} (h : Asks argv a op b) (leftBuf : CharArray 32) :
    cmdCalc leftBuf argv = some (calcResult (BitVec.ofNat 32 a) op (BitVec.ofNat 32 b)) := by
  cases h with
  | words hleft hop hright => exact cmdCalc_words hleft hop hright leftBuf _
  | expr hleft hshort hbefore hop hafter hright =>
    exact cmdCalc_expr _ _ leftBuf (calcExpr_short hleft hshort hbefore hop hafter hright leftBuf)

/-! ## Whether it is right -/

/-- The whole text around a result. -/
def resultLine (result : List U8) : List U8 := chars "= " ++ result ++ chars "\n"

theorem resultLine_inj {x y : List U8} : resultLine x = resultLine y ↔ x = y := by
  simp [resultLine]

theorem printed_resultLine (calls : List TermCall) :
    printed (.write (chars "= ") :: (calls ++ [.write (chars "\n")])) =
      resultLine (printed calls) := by
  rw [printed_cons, printed_append, resultLine, List.append_assoc]
  rfl

/-- A word that is the result is shown as it if it is below 2^31. -/
theorem shown_word_iff {value : U32} {r : Int} (h : (value.toNat : Int) = r) :
    printed (.write (chars "= ") :: (decimalCalls value ++ [.write (chars "\n")])) =
      resultLine (signedNumeral r) ↔ -(2 ^ 31) < r ∧ r < 2 ^ 31 := by
  rw [printed_resultLine, resultLine_inj, printed_decimalCalls, ← h, signedNumeral_toInt_iff]
  omega

/-- A word with a minus sign before it is shown as the negative number under the same
condition. -/
theorem shown_minus_iff {value : U32} {r : Int} (h : (value.toNat : Int) = -r) (hr : r < 0) :
    printed (.write (chars "= ") ::
        ((.write (chars "-") :: decimalCalls value) ++ [.write (chars "\n")])) =
      resultLine (signedNumeral r) ↔ -(2 ^ 31) < r ∧ r < 2 ^ 31 := by
  have hneg : signedNumeral r = chars "-" ++ signedNumeral value.toNat := by
    rw [signedNumeral, signedNumeral, if_pos hr, if_neg (by omega)]
    congr 2
    omega
  have hminus : (TermCall.write (chars "-")).text = chars "-" := rfl
  rw [printed_resultLine, resultLine_inj, printed_cons, hminus, hneg, List.append_cancel_left_eq,
    printed_decimalCalls, signedNumeral_toInt_iff]
  omega

theorem toNat_ofNat_of_lt (h : a < 2 ^ 32) : (BitVec.ofNat 32 a).toNat = a :=
  (BitVec.toNat_ofNat a 32).trans (Nat.mod_eq_of_lt h)

/-- **A difference** gets its sign before the other number is printed. -/
theorem difference_exact_iff (ha : a < 2 ^ 32) (hb : b < 2 ^ 32) :
    printed (calcResult (BitVec.ofNat 32 a) 0x2D (BitVec.ofNat 32 b)) =
      resultLine (signedNumeral ((a : Int) - b)) ↔
        -(2 ^ 31) < (a : Int) - b ∧ (a : Int) - b < 2 ^ 31 := by
  have hA := toNat_ofNat_of_lt ha
  have hB := toNat_ofNat_of_lt hb
  change printed (.write (chars "= ") :: ((if _ then _ else _) ++ _)) = _ ↔ _
  by_cases hle : BitVec.ofNat 32 a ≥ BitVec.ofNat 32 b
  · rw [if_pos hle]
    rw [ge_iff_le, BitVec.le_def, hA, hB] at hle
    refine shown_word_iff ?_
    rw [BitVec.toNat_sub, hA, hB]
    omega
  · rw [if_neg hle]
    rw [ge_iff_le, BitVec.le_def, hA, hB] at hle
    refine shown_minus_iff ?_ (by omega)
    rw [BitVec.toNat_sub, hA, hB]
    omega

/-- A quotient, by another number than 0. -/
theorem quotient_exact_iff (ha : a < 2 ^ 32) (hb : b < 2 ^ 32) (hzero : b ≠ 0) :
    printed (calcResult (BitVec.ofNat 32 a) 0x2F (BitVec.ofNat 32 b)) =
      resultLine (signedNumeral (a / b : Nat)) ↔
        -(2 ^ 31) < ((a / b : Nat) : Int) ∧ ((a / b : Nat) : Int) < 2 ^ 31 := by
  have hne : BitVec.ofNat 32 b ≠ 0 := by
    intro hword
    have hB := toNat_ofNat_of_lt hb
    rw [hword] at hB
    exact hzero hB.symm
  change printed (.write (chars "= ") :: (if _ then _ else _)) = _ ↔ _
  rw [if_neg hne]
  refine shown_word_iff ?_
  rw [BitVec.toNat_udiv, toNat_ofNat_of_lt ha, toNat_ofNat_of_lt hb]

/-- The operators, and the result of each. -/
theorem exactResult_cases {r : Int} (hr : exactResult op a b = some r) :
    (op = 0x2B ∧ r = a + b) ∨ (op = 0x2D ∧ r = a - b) ∨ (op = 0x2A ∧ r = a * b) ∨
      (op = 0x2F ∧ b ≠ 0 ∧ r = (a / b : Nat)) ∨ (op = 0x5E ∧ r = (a ^ b : Nat)) := by
  unfold exactResult at hr
  split_ifs at hr with hplus hminus htimes hover hzero hpower
  · exact .inl ⟨hplus, (Option.some.inj hr).symm⟩
  · exact .inr (.inl ⟨hminus, (Option.some.inj hr).symm⟩)
  · exact .inr (.inr (.inl ⟨htimes, (Option.some.inj hr).symm⟩))
  · exact .inr (.inr (.inr (.inl ⟨hover, hzero, (Option.some.inj hr).symm⟩)))
  · exact .inr (.inr (.inr (.inr ⟨hpower, (Option.some.inj hr).symm⟩)))

/-- **The result is the right one** where it fits in an `int`, but for the smallest. -/
theorem calcResult_exact_iff (ha : a < 2 ^ 32) (hb : b < 2 ^ 32) {r : Int}
    (hr : exactResult op a b = some r) (hhigh : r < 2 ^ 32) :
    printed (calcResult (BitVec.ofNat 32 a) op (BitVec.ofNat 32 b)) =
        resultLine (signedNumeral r) ↔ -(2 ^ 31) < r ∧ r < 2 ^ 31 := by
  have hA := toNat_ofNat_of_lt ha
  have hB := toNat_ofNat_of_lt hb
  obtain ⟨rfl, rfl⟩ | ⟨rfl, rfl⟩ | ⟨rfl, rfl⟩ | ⟨rfl, hzero, rfl⟩ | ⟨rfl, rfl⟩ :=
    exactResult_cases hr
  · refine shown_word_iff ?_
    rw [BitVec.toNat_add, hA, hB]
    omega
  · exact difference_exact_iff ha hb
  · refine shown_word_iff ?_
    have hlt : a * b < 2 ^ 32 := by exact_mod_cast hhigh
    rw [BitVec.toNat_mul, hA, hB, Nat.mod_eq_of_lt hlt]
    push_cast
    rfl
  · exact quotient_exact_iff ha hb hzero
  · refine shown_word_iff ?_
    have hlt : a ^ b < 2 ^ 32 := by exact_mod_cast hhigh
    rw [powerLoop_eq, hA, hB, toNat_ofNat_of_lt hlt]

/-- **The calculator.**  For all operands below 2^32 and every operator, but for a division by
0, a result `r` below 2^32 is printed as its numeral, with one minus sign exactly if it is
negative, if and only if it lies between -2^31 and 2^31. -/
theorem calc_exact_iff {argv : List (List U8)} (hasks : Asks argv a op b) (ha : a < 2 ^ 32)
    (hb : b < 2 ^ 32) {r : Int} (hr : exactResult op a b = some r) (hhigh : r < 2 ^ 32)
    (leftBuf : CharArray 32) :
    (∃ calls, cmdCalc leftBuf argv = some calls ∧
      printed calls = chars "= " ++ signedNumeral r ++ chars "\n") ↔
    -(2 ^ 31) < r ∧ r < 2 ^ 31 := by
  rw [cmdCalc_asks hasks leftBuf, ← calcResult_exact_iff ha hb hr hhigh]
  constructor
  · rintro ⟨calls, hcalls, hprinted⟩
    rw [Option.some.inj hcalls]
    exact hprinted
  · exact fun hprinted => ⟨_, rfl, hprinted⟩

/-- `calc 7-9`. -/
theorem calc_exact_difference : ∃ calls,
    cmdCalc ⟨fun _ => 0⟩ [chars "calc", chars "7-9"] = some calls ∧
      printed calls = chars "= " ++ signedNumeral (-2) ++ chars "\n" := by
  have hleft : Operand (chars "7") 7 := ⟨by decide, by decide, by decide⟩
  have hright : Operand (chars "9") 9 := ⟨by decide, by decide, by decide⟩
  have hasks : Asks [chars "calc", chars "7-9"] 7 0x2D 9 :=
    @Asks.expr (chars "calc") (chars "7") [] [] (chars "9") 0x2D 7 9 hleft (by decide)
      (by decide) (by decide) (by decide) hright
  exact (calc_exact_iff hasks (by decide) (by decide) rfl (by decide) _).2 (by decide)

/-- `calc 2147483648 + 0` and `calc 0 - 2147483648`. -/
theorem calc_prints_other_numbers :
    (∃ calls, cmdCalc ⟨fun _ => 0⟩ [chars "calc", chars "2147483648", chars "+", chars "0"] =
        some calls ∧ printed calls = chars "= -2147483648\n") ∧
      ∃ calls, cmdCalc ⟨fun _ => 0⟩ [chars "calc", chars "0", chars "-", chars "2147483648"] =
        some calls ∧ printed calls = chars "= --2147483648\n" := by
  have hzero : Operand (chars "0") 0 := ⟨by decide, by decide, by decide⟩
  have hlarge : Operand (chars "2147483648") 2147483648 := ⟨by decide, by decide, by decide⟩
  have hnumeral : chars "2147483648" = numeral 2147483648 :=
    eq_numeral ⟨by decide, by decide, by decide, by decide⟩
  have hsigned : signedNumeral (BitVec.ofNat 32 2147483648).toInt = chars "-2147483648" := by
    rw [show (BitVec.ofNat 32 2147483648).toInt = -2147483648 by decide, signedNumeral,
      if_pos (by decide), show (-2147483648 : Int).natAbs = 2147483648 by decide, ← hnumeral]
    rfl
  refine ⟨⟨_, cmdCalc_words hlarge (by decide) hzero _ _, ?_⟩,
    ⟨_, cmdCalc_words hzero (by decide) hlarge _ _, ?_⟩⟩
  · refine (printed_resultLine (decimalCalls (BitVec.ofNat 32 2147483648))).trans ?_
    rw [printed_decimalCalls, hsigned]
    rfl
  · refine (printed_resultLine (.write (chars "-") ::
      decimalCalls (BitVec.ofNat 32 2147483648))).trans ?_
    rw [printed_cons, printed_decimalCalls, hsigned]
    rfl

/-! ## The two forms -/

/-- **The two forms agree** where the left operand has at most 31 digits; a longer one fits in
no number and not in the buffer either, and the form with one word says so. -/
theorem calc_forms_agree (hleft : left ≠ []) (hleftDigits : ∀ c ∈ left, isDigit c)
    (hright : right ≠ []) (hrightDigits : ∀ c ∈ right, isDigit c) (hop : isOperator op)
    (hbefore : ∀ c ∈ before, isBlank c) (hafter : ∀ c ∈ after, isBlank c)
    (leftBuf : CharArray 32) (name : List U8) :
    (left.length ≤ 31 → cmdCalc leftBuf [name, left ++ before ++ op :: (after ++ right)] =
      cmdCalc leftBuf [name, left, [op], right]) ∧
    (31 < left.length → cmdCalc leftBuf [name, left ++ before ++ op :: (after ++ right)] =
      some [.colorshellWrite
        (chars "FREWOZET CALC ERROR: Number too long. Left buffer overflow.\n") "error"]) := by
  have hleft' : Operand left (digitsValue left) := ⟨hleft, hleftDigits, rfl⟩
  have hright' : Operand right (digitsValue right) := ⟨hright, hrightDigits, rfl⟩
  constructor
  · intro hshort
    rw [cmdCalc_asks (.expr hleft' (Nat.lt_succ_of_le hshort) hbefore hop hafter hright'),
      cmdCalc_asks (.words hleft' hop hright')]
  · intro hlong
    exact cmdCalc_expr _ name leftBuf (calcExpr_long hleft' hlong hbefore hop leftBuf _)

/-- `calc "12 * 3"` and `calc 12 * 3`. -/
theorem calc_forms_agree_product :
    cmdCalc ⟨fun _ => 0⟩ [chars "calc", chars "12 * 3"] =
      cmdCalc ⟨fun _ => 0⟩ [chars "calc", chars "12", chars "*", chars "3"] :=
  (@calc_forms_agree (chars "12") (chars "3") [SPACE] [SPACE] 0x2A (by decide) (by decide)
    (by decide) (by decide) (by decide) (by decide) (by decide) ⟨fun _ => 0⟩ (chars "calc")).1
    (by decide)

/-- With 32 zeros as the left operand the forms print different texts. -/
theorem calc_forms_differ : ∃ calls calls',
    cmdCalc ⟨fun _ => 0⟩ [chars "calc", List.replicate 32 0x30 ++ chars "+1"] = some calls ∧
      cmdCalc ⟨fun _ => 0⟩ [chars "calc", List.replicate 32 0x30, chars "+", chars "1"] =
        some calls' ∧ printed calls ≠ printed calls' := by
  have hzeros : Operand (List.replicate 32 0x30) 0 := ⟨by decide, by decide, by decide⟩
  have hone : Operand (chars "1") 1 := ⟨by decide, by decide, by decide⟩
  have hlong := @calcExpr_long (List.replicate 32 0x30) [] 0x2B 0 hzeros (by decide)
    (by decide) (by decide) ⟨fun _ => 0⟩ (chars "1")
  rw [List.append_nil] at hlong
  refine ⟨_, _, cmdCalc_expr _ _ _ hlong, cmdCalc_words hzeros (by decide) hone _ _, ?_⟩
  intro hsame
  have hhead := congrArg List.head? hsame
  exact absurd hhead (by decide)

end

end Frewozet
