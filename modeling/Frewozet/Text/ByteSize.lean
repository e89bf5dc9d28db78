import Frewozet.Text.Decimal

/-!
# Sizes in text

`format_bytes` (`utils.c`) writes a number of bytes in the largest unit that it reaches, with
tenths.

* `formatBytes` — the code.
* `unitOf`, `tenth`, `bytesText` — the unit, the digit behind the point, and the text with
  that digit unless it is 0.
* `shownTenths`, `shownTenths_le`, `lt_shownTenths`, `shown_mono` — the number that is shown,
  in tenths: it is rounded down, by less than a tenth, and does not decrease.
* `formatBytes_holds` — what the code writes: the point is there from **the rounded tenth of
  the unit** on.
* `format_bytes_faithful_iff` — so it is there for nothing where the rest is exactly that.
-/

namespace Frewozet

/-! ## The code -/

def KB : U64 := 1024
def MB : U64 := KB * 1024
def GB : U64 := MB * 1024

/-- A branch of `format_bytes` for a unit.  The buffers of the two calls of
`str_append_uint64` are `scratch`. -/
def formatUnit {n : Nat} (scratch : Nat → CharArray 21) (bytes unit : U64) (name : List U8)
    (out : CharArray n) : Option (Nat × CharArray n) := do
  let whole := bytes / unit
  let rem := bytes % unit
  let (pos, out) ← strAppendUint64 (scratch 0) out 0 whole
  let (pos, out) ←
    if rem ≥ unit / 10 then do
      let (pos, out) ← out.strAppend pos (CharArray.literal [0x2E])
      strAppendUint64 (scratch 1) out pos ((rem * 10) / unit)
    else some (pos, out)
  out.strAppend pos (CharArray.literal name)

/-- The four branches. -/
def formatBranches {n : Nat} (scratch : Nat → CharArray 21) (bytes : U64) (out : CharArray n) :
    Option (Nat × CharArray n) :=
  if bytes < KB then do
    let (pos, out) ← strAppendUint64 (scratch 0) out 0 bytes
    out.strAppend pos (CharArray.literal (chars " B"))
  else if bytes < MB then formatUnit scratch bytes KB (chars " KB") out
  else if bytes < GB then formatUnit scratch bytes MB (chars " MB") out
  else formatUnit scratch bytes GB (chars " GB") out

/-- `format_bytes`. -/
def formatBytes {n : Nat} (scratch : Nat → CharArray 21) (bytes : U64) (out : CharArray n) :
    Option (CharArray n) := do
  let (pos, out) ← formatBranches scratch bytes out
  out.store pos 0

/-! ## The text -/

/-- The largest unit that the number reaches, and 1 for 0. -/
def unitOf (b : Nat) : Nat :=
  if b < 2 ^ 10 then 1 else if b < 2 ^ 20 then 2 ^ 10 else if b < 2 ^ 30 then 2 ^ 20 else 2 ^ 30

def unitName (b : Nat) : List U8 :=
  if b < 2 ^ 10 then chars " B" else if b < 2 ^ 20 then chars " KB"
  else if b < 2 ^ 30 then chars " MB" else chars " GB"

/-- The digit behind the point. -/
def tenth (b : Nat) : Nat := 10 * (b % unitOf b) / unitOf b

/-- The text, with a digit behind the point if `point` says so. -/
def sizeText (point : Bool) (b : Nat) : List U8 :=
  numeral (b / unitOf b) ++ (if point then 0x2E :: numeral (tenth b) else []) ++ unitName b

/-- The canonical text: the digit is there unless it is 0. -/
def bytesText (b : Nat) : List U8 := sizeText (tenth b ≠ 0) b

/-- The number that is shown, in tenths. -/
def shownTenths (b : Nat) : Nat := 10 * (b / unitOf b) + tenth b

section

variable {b c : Nat}

theorem unitOf_mem (b : Nat) : unitOf b ∈ [1, 2 ^ 10, 2 ^ 20, 2 ^ 30] := by
  unfold unitOf
  split
  · simp
  · split
    · simp
    · split <;> simp

/-- **It is the largest unit that is reached.** -/
theorem unitOf_largest (b : Nat) : (unitOf b ≤ b ∨ b = 0) ∧
    ∀ unit ∈ [1, 2 ^ 10, 2 ^ 20, 2 ^ 30], unit ≤ b → unit ≤ unitOf b := by
  unfold unitOf
  refine ⟨?_, fun unit hunit hle => ?_⟩
  · split
    · omega
    · split
      · omega
      · split <;> omega
  · simp only [List.mem_cons, List.not_mem_nil, or_false] at hunit
    split
    · omega
    · split
      · omega
      · split <;> omega

theorem unitOf_pos (b : Nat) : 0 < unitOf b := by
  have h := unitOf_mem b
  simp only [List.mem_cons, List.not_mem_nil, or_false] at h
  omega

theorem tenth_lt (b : Nat) : tenth b < 10 := by
  rw [tenth, Nat.div_lt_iff_lt_mul (unitOf_pos b)]
  exact Nat.mul_lt_mul_of_pos_left (Nat.mod_lt b (unitOf_pos b)) (by decide)

theorem shownTenths_eq (b : Nat) : shownTenths b = 10 * b / unitOf b := by
  have hsplit : 10 * b = 10 * (b % unitOf b) + unitOf b * (10 * (b / unitOf b)) := by
    conv_lhs => rw [← Nat.mod_add_div b (unitOf b)]
    ring
  rw [hsplit, Nat.add_mul_div_left _ _ (unitOf_pos b), Nat.add_comm]
  rfl

/-- What is shown is not more than the number, -/
theorem shownTenths_le (b : Nat) : shownTenths b * unitOf b ≤ 10 * b := by
  rw [shownTenths_eq]
  exact Nat.div_mul_le_self _ _

/-- and less than a tenth of the unit below it. -/
theorem lt_shownTenths (b : Nat) : 10 * b < (shownTenths b + 1) * unitOf b := by
  have h := Nat.lt_mul_div_succ (10 * b) (unitOf_pos b)
  rwa [Nat.mul_comm (unitOf b), ← shownTenths_eq] at h

/-- A larger number has a larger unit. -/
theorem unitOf_mono (h : c ≤ b) : unitOf c ≤ unitOf b := by
  rcases (unitOf_largest c).1 with hle | rfl
  · exact (unitOf_largest b).2 _ (unitOf_mem c) (hle.trans h)
  · exact unitOf_pos b

/-- **A larger number is not shown as less.** -/
theorem shown_mono (h : c ≤ b) : shownTenths c * unitOf c ≤ shownTenths b * unitOf b := by
  by_cases hunit : unitOf c = unitOf b
  · rw [shownTenths_eq, shownTenths_eq, hunit]
    exact Nat.mul_le_mul_right _ (Nat.div_le_div_right (Nat.mul_le_mul_left 10 h))
  · -- the unit of the larger number is out of reach for the other
    have hlt : c < unitOf b := by
      by_contra hge
      exact hunit (Nat.le_antisymm (unitOf_mono h)
        ((unitOf_largest c).2 _ (unitOf_mem b) (Nat.not_lt.1 hge)))
    have hreach : unitOf b ≤ b := by
      refine (unitOf_largest b).1.resolve_right ?_
      rintro rfl
      exact hunit (congrArg unitOf (Nat.le_zero.1 h))
    have hten : 10 ≤ shownTenths b := by
      rw [shownTenths_eq, Nat.le_div_iff_mul_le (unitOf_pos b)]
      exact Nat.mul_le_mul_left 10 hreach
    calc shownTenths c * unitOf c ≤ 10 * c := shownTenths_le c
      _ ≤ 10 * unitOf b := Nat.mul_le_mul_left 10 hlt.le
      _ ≤ shownTenths b * unitOf b := Nat.mul_le_mul_right _ hten

end

/-! ## What the code writes -/

section

variable {n : Nat} {bytes unit : U64} {name : List U8}

/-- The numbers of a branch. -/
theorem unit_arith (hunit : unit.toNat ≤ 2 ^ 30) (bytes : U64) :
    (bytes / unit).toNat = bytes.toNat / unit.toNat ∧
      (bytes % unit).toNat = bytes.toNat % unit.toNat ∧
      (bytes % unit ≥ unit / 10 ↔ unit.toNat / 10 ≤ bytes.toNat % unit.toNat) ∧
      (0 < unit.toNat → ((bytes % unit * 10) / unit).toNat =
        10 * (bytes.toNat % unit.toNat) / unit.toNat) := by
  refine ⟨BitVec.toNat_udiv, BitVec.toNat_umod, ?_, fun hpos => ?_⟩
  · rw [ge_iff_le, BitVec.le_def, BitVec.toNat_udiv, BitVec.toNat_umod]
    rfl
  · have hlt := Nat.mod_lt bytes.toNat hpos
    rw [BitVec.toNat_udiv, BitVec.toNat_mul, BitVec.toNat_umod, Nat.mul_comm 10]
    congr 1
    exact Nat.mod_eq_of_lt (by
      change bytes.toNat % unit.toNat * 10 < 2 ^ 64
      omega)

/-- The text of a branch. -/
def unitText (b U : Nat) (name : List U8) : List U8 :=
  numeral (b / U) ++ (if U / 10 ≤ b % U then 0x2E :: numeral (10 * (b % U) / U) else []) ++ name

theorem formatUnit_holds (scratch : Nat → CharArray 21) (hunit : unit.toNat ≤ 2 ^ 30)
    (hpos : 0 < unit.toNat) (hname : 0 ∉ name)
    (hn : (unitText bytes.toNat unit.toNat name).length < n) (out : CharArray n) :
    ∃ out', formatUnit scratch bytes unit name out =
        some ((unitText bytes.toNat unit.toNat name).length, out') ∧
      out'.Holds (unitText bytes.toNat unit.toNat name) := by
  obtain ⟨hwhole, -, hpoint, htenth⟩ := unit_arith hunit bytes
  unfold unitText at hn ⊢
  simp only [List.length_append] at hn
  obtain ⟨out₁, happend₁, hholds₁⟩ := strAppendUint64_of_begins (.nil out) List.not_mem_nil
    (bytes / unit) (by rw [hwhole, List.nil_append]; omega) (scratch 0)
  rw [hwhole, List.nil_append] at happend₁ hholds₁
  unfold formatUnit
  dsimp only
  rw [show strAppendUint64 (scratch 0) out 0 (bytes / unit) = _ from happend₁]
  dsimp only [bind, Option.bind]
  by_cases hrest : unit.toNat / 10 ≤ bytes.toNat % unit.toNat
  · rw [if_pos (hpoint.2 hrest), if_pos hrest]
    rw [if_pos hrest, List.length_cons] at hn
    obtain ⟨out₂, happend₂, hholds₂⟩ := CharArray.strAppend_of_begins hholds₁.begins hholds₁.noNul
      (CharArray.literal_holds (by decide : (0 : U8) ∉ [0x2E]))
      (by rw [List.length_singleton]; omega)
    obtain ⟨out₃, happend₃, hholds₃⟩ := strAppendUint64_of_begins hholds₂.begins hholds₂.noNul
      (bytes % unit * 10 / unit)
      (by rw [htenth hpos]; simp only [List.length_append, List.length_singleton]; omega)
      (scratch 1)
    rw [htenth hpos, List.append_assoc, List.singleton_append] at happend₃ hholds₃
    obtain ⟨out₄, happend₄, hholds₄⟩ := CharArray.strAppend_of_begins hholds₃.begins hholds₃.noNul
      (CharArray.literal_holds hname)
      (by simp only [List.length_append, List.length_cons]; omega)
    refine ⟨out₄, ?_, hholds₄⟩
    rw [happend₂]
    dsimp only
    rw [happend₃]
    exact happend₄
  · rw [if_neg (fun h => hrest (hpoint.1 h)), if_neg hrest, List.append_nil]
    rw [if_neg hrest, List.length_nil] at hn
    exact CharArray.strAppend_of_begins hholds₁.begins hholds₁.noNul
      (CharArray.literal_holds hname) (by omega)

/-- The test of the code. -/
def pointShown (b : Nat) : Bool := decide (1 < unitOf b ∧ unitOf b / 10 ≤ b % unitOf b)

theorem unitText_eq {b U : Nat} (hU : unitOf b = U) (hname : unitName b = name) (h : 1 < U) :
    unitText b U name = sizeText (pointShown b) b := by
  rw [unitText, sizeText, tenth, pointShown, hU, hname]
  simp only [h, true_and, decide_eq_true_eq]

theorem length_sizeText_lt {b : Nat} (hb : b < 2 ^ 64) (point : Bool) :
    (sizeText point b).length < 32 := by
  have hwhole : (numeral (b / unitOf b)).length ≤ 20 :=
    length_numeral_le (by decide) (Nat.lt_of_le_of_lt (Nat.div_le_self _ _)
      (Nat.lt_trans hb (by decide)))
  have htenth : (numeral (tenth b)).length ≤ 1 := length_numeral_le (by decide) (tenth_lt b)
  have hname : (unitName b).length ≤ 3 := by
    unfold unitName
    split
    · decide
    · split
      · decide
      · split <;> decide
  unfold sizeText
  cases point
  · simp only [Bool.false_eq_true, if_false, List.length_append, List.length_nil]
    omega
  · simp only [if_true, List.length_append, List.length_cons]
    omega

/-- The branch of a unit writes the text of its numbers, -/
theorem formatUnit_sizeText (scratch : Nat → CharArray 21) (hU : unitOf bytes.toNat = unit.toNat)
    (hname : unitName bytes.toNat = name) (hmin : 1 < unit.toNat) (hmax : unit.toNat ≤ 2 ^ 30)
    (hplain : 0 ∉ name)
    (hn : (sizeText (pointShown bytes.toNat) bytes.toNat).length < n) (out : CharArray n) :
    ∃ out', formatUnit scratch bytes unit name out =
        some ((sizeText (pointShown bytes.toNat) bytes.toNat).length, out') ∧
      out'.Holds (sizeText (pointShown bytes.toNat) bytes.toNat) := by
  rw [← unitText_eq hU hname hmin] at hn ⊢
  exact formatUnit_holds scratch hmax (Nat.lt_of_succ_lt hmin) hplain hn out

/-- and so does the one for bytes. -/
theorem format_plain (scratch : Nat → CharArray 21) (hB : bytes.toNat < 2 ^ 10)
    (hn : (sizeText (pointShown bytes.toNat) bytes.toNat).length < n) (out : CharArray n) :
    ∃ out', (strAppendUint64 (scratch 0) out 0 bytes >>= fun r =>
          r.2.strAppend r.1 (CharArray.literal (chars " B"))) =
        some ((sizeText (pointShown bytes.toNat) bytes.toNat).length, out') ∧
      out'.Holds (sizeText (pointShown bytes.toNat) bytes.toNat) := by
  have hunit : unitOf bytes.toNat = 1 := if_pos hB
  have hname : unitName bytes.toNat = chars " B" := if_pos hB
  have htext : sizeText (pointShown bytes.toNat) bytes.toNat =
      numeral bytes.toNat ++ chars " B" := by
    simp [sizeText, pointShown, hunit, hname]
  rw [htext] at hn ⊢
  rw [List.length_append] at hn
  obtain ⟨out₁, happend, hholds⟩ := strAppendUint64_of_begins (.nil out) List.not_mem_nil bytes
    (by rw [List.nil_append]; omega) (scratch 0)
  rw [List.nil_append] at happend hholds
  rw [show strAppendUint64 (scratch 0) out 0 bytes = _ from happend]
  exact CharArray.strAppend_of_begins hholds.begins hholds.noNul
    (CharArray.literal_holds (by decide)) hn

theorem formatBranches_holds (scratch : Nat → CharArray 21) (bytes : U64)
    (hn : (sizeText (pointShown bytes.toNat) bytes.toNat).length < n) (out : CharArray n) :
    ∃ out', formatBranches scratch bytes out =
        some ((sizeText (pointShown bytes.toNat) bytes.toNat).length, out') ∧
      out'.Holds (sizeText (pointShown bytes.toNat) bytes.toNat) := by
  unfold formatBranches
  simp only [BitVec.lt_def, show KB.toNat = 2 ^ 10 by decide, show MB.toNat = 2 ^ 20 by decide,
    show GB.toNat = 2 ^ 30 by decide]
  by_cases hKB : bytes.toNat < 2 ^ 10
  · rw [if_pos hKB]
    exact format_plain scratch hKB hn out
  rw [if_neg hKB]
  by_cases hMB : bytes.toNat < 2 ^ 20
  · rw [if_pos hMB]
    exact formatUnit_sizeText scratch (by rw [unitOf, if_neg hKB, if_pos hMB]; rfl)
      (by rw [unitName, if_neg hKB, if_pos hMB]) (by decide) (by decide) (by decide) hn out
  rw [if_neg hMB]
  by_cases hGB : bytes.toNat < 2 ^ 30
  · rw [if_pos hGB]
    exact formatUnit_sizeText scratch (by rw [unitOf, if_neg hKB, if_neg hMB, if_pos hGB]; rfl)
      (by rw [unitName, if_neg hKB, if_neg hMB, if_pos hGB]) (by decide) (by decide) (by decide)
      hn out
  · rw [if_neg hGB]
    exact formatUnit_sizeText scratch (by rw [unitOf, if_neg hKB, if_neg hMB, if_neg hGB]; rfl)
      (by rw [unitName, if_neg hKB, if_neg hMB, if_neg hGB]) (by decide) (by decide) (by decide)
      hn out

/-- **What the code writes.** -/
theorem formatBytes_holds (scratch : Nat → CharArray 21) (bytes : U64) (out : CharArray 32) :
    ∃ out', formatBytes scratch bytes out = some out' ∧
      out'.Holds (sizeText (pointShown bytes.toNat) bytes.toNat) := by
  have hn := length_sizeText_lt bytes.isLt (pointShown bytes.toNat)
  obtain ⟨out₁, hrun, hholds⟩ := formatBranches_holds scratch bytes hn out
  obtain ⟨out', hnul, hholds'⟩ := hholds.begins.nul hn hholds.noNul
  refine ⟨out', ?_, hholds'⟩
  rw [formatBytes, hrun]
  exact hnul

/-! ## Where the point is shown for nothing -/

theorem sizeText_inj {b : Nat} {p q : Bool} (h : sizeText p b = sizeText q b) : p = q := by
  have hlength := congrArg List.length h
  unfold sizeText at hlength
  cases p <;> cases q <;> simp at hlength ⊢ <;> omega

/-- **The test and the digit disagree** where the rest is the rounded tenth of the unit. -/
theorem pointShown_eq_iff (b : Nat) : pointShown b = decide (tenth b ≠ 0) ↔
    ¬ (1 < unitOf b ∧ b % unitOf b = unitOf b / 10) := by
  have hpos := unitOf_pos b
  have htenth : tenth b ≠ 0 ↔ unitOf b ≤ 10 * (b % unitOf b) := by
    rw [tenth, Nat.div_ne_zero_iff]
    exact and_iff_right hpos.ne'
  rw [pointShown, decide_eq_decide, htenth]
  have hunit := unitOf_mem b
  have hlt := Nat.mod_lt b hpos
  generalize unitOf b = U at *
  generalize b % U = r at *
  simp only [List.mem_cons, List.not_mem_nil, or_false] at hunit
  rcases hunit with rfl | rfl | rfl | rfl <;> omega

/-- **Sizes in text.**  For every number of bytes the text fits in the 32 bytes of the buffer;
it is the canonical one, of the largest unit that is reached, with a digit behind the point
exactly if that is not 0, rounded down by less than a tenth and not less than for a smaller
number, exactly if the rest is not the rounded tenth of a unit. -/
theorem format_bytes_faithful_iff (b : U64) :
    ((∀ scratch (out : CharArray 32), ∃ out', formatBytes scratch b out = some out' ∧
        out'.Holds (bytesText b.toNat)) ∧
      ((unitOf b.toNat ≤ b.toNat ∨ b = 0) ∧
        ∀ unit ∈ [1, 2 ^ 10, 2 ^ 20, 2 ^ 30], unit ≤ b.toNat → unit ≤ unitOf b.toNat) ∧
      shownTenths b.toNat * unitOf b.toNat ≤ 10 * b.toNat ∧
      10 * b.toNat < (shownTenths b.toNat + 1) * unitOf b.toNat ∧
      ∀ c ≤ b.toNat, shownTenths c * unitOf c ≤ shownTenths b.toNat * unitOf b.toNat) ↔
    ¬ (1 < unitOf b.toNat ∧ b.toNat % unitOf b.toNat = unitOf b.toNat / 10) := by
  rw [← pointShown_eq_iff]
  constructor
  · rintro ⟨htext, -⟩
    obtain ⟨out, hrun, hholds⟩ := formatBytes_holds (fun _ => ⟨fun _ => 0⟩) b ⟨fun _ => 0⟩
    obtain ⟨out', hrun', hholds'⟩ := htext (fun _ => ⟨fun _ => 0⟩) ⟨fun _ => 0⟩
    obtain rfl : out' = out := Option.some.inj (hrun'.symm.trans hrun)
    have hsame := (CharArray.stringAt_of_holds hholds).symm.trans
      (CharArray.stringAt_of_holds hholds')
    exact sizeText_inj (Option.some.inj hsame)
  · intro hpoint
    refine ⟨fun scratch out => ?_, ⟨?_, (unitOf_largest b.toNat).2⟩, shownTenths_le _,
      lt_shownTenths _, fun c hc => shown_mono hc⟩
    · rw [bytesText, ← hpoint]
      exact formatBytes_holds scratch b out
    · exact (unitOf_largest b.toNat).1.imp_right fun h => BitVec.eq_of_toNat_eq h

/-- 1126 bytes, which are 1 KB and 102 bytes, are shown as `1.0 KB`. -/
theorem formatBytes_1126 : bytesText 1126 = chars "1 KB" ∧
    ∀ scratch (out : CharArray 32), ∃ out', formatBytes scratch 1126 out = some out' ∧
      out'.Holds (chars "1.0 KB") := by
  have hdigit : numeral 1 = chars "1" := by simp [numeral, decimal, chars]
  have hwhole : ∀ point, sizeText point 1126 =
      chars "1" ++ (if point then chars ".0" else []) ++ chars " KB" := by
    intro point
    rw [← hdigit]
    rfl
  have htext : sizeText (pointShown 1126) 1126 = chars "1.0 KB" := (hwhole _).trans (by decide)
  refine ⟨(hwhole _).trans (by decide), fun scratch out => ?_⟩
  rw [← htext]
  exact formatBytes_holds scratch 1126 out

end

end Frewozet
