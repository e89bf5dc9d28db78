import Frewozet.Base.Lex
import Frewozet.Commands.Table

/-!
# Comparing strings

`strcmp`, `strncmp`, `strequal` and `strnequal` (`string.c`), `strings_equal` and
`string_starts_with` (`utils.c`): five loops over two strings, which stop where these part.

* `compareLoop` — the loop, with the condition that is added to it in `strncmp` and the value
  that is returned from inside.
* `CharArray.strncmp`, `strequal`, `strnequal`, `stringsEqual`, `stringStartsWith` — the code.
* `compareLoop_parts`, `compareLoop_bound` — where the loop ends.
* `difference s t` — the characters where the strings part, subtracted; `difference_compares`
  — **it has the sign of the lexicographic order** of unsigned bytes.
* `strcmp_eq`, `strncmp_eq`, `stringsEqual_eq`, `stringStartsWith_eq` — what each returns.
* `string_comparisons_consistent` — so they agree.
-/

namespace CharArray

variable {n m : Nat} {ρ : Type}

/-! ## The code -/

/-- `while (more(i) && a[i] != '\0' && b[i] != '\0') { if (a[i] != b[i]) return r; i++; }`, where
`r` is `differ a[i] b[i]`: what is returned, or the `i` that the loop ends with. -/
def compareLoop (a : CharArray n) (b : CharArray m) (more : Nat → Bool) (differ : U8 → U8 → ρ) :
    Nat → Nat → Option (ρ ⊕ Nat)
  | 0, _ => none
  | room + 1, i =>
    if !more i then some (.inr i) else do
      let c ← a.load i
      if c = 0 then some (.inr i) else do
        let d ← b.load i
        if d = 0 then some (.inr i)
        else if c ≠ d then some (.inl (differ c d))
        else compareLoop a b more differ room (i + 1)

/-- `(int)((unsigned char)a[i]) - (int)((unsigned char)b[i])`. -/
def subtractAt (a : CharArray n) (b : CharArray m) (i : Nat) : Option Int := do
  let c ← a.load i
  let d ← b.load i
  some (c.toNat - d.toNat)

/-- `strncmp`. -/
def strncmp (a : CharArray n) (b : CharArray m) (k : Nat) : Option Int := do
  match ← compareLoop a b (fun i => i < k) (fun c d => (c.toNat - d.toNat : Int)) n 0 with
  | .inl r => some r
  | .inr i => if i = k then some 0 else subtractAt a b i

/-- `strequal`. -/
def strequal (a : CharArray n) (b : CharArray m) : Option Bool := do
  let r ← a.strcmp b
  some (r = 0)

/-- `strnequal`. -/
def strnequal (a : CharArray n) (b : CharArray m) (k : Nat) : Option Bool := do
  let r ← a.strncmp b k
  some (r = 0)

/-- `strings_equal`. -/
def stringsEqual (a : CharArray n) (b : CharArray m) : Option Bool := do
  match ← compareLoop a b (fun _ => true) (fun _ _ => false) n 0 with
  | .inl r => some r
  | .inr i => do
    let c ← a.load i
    if c = 0 then do
      let d ← b.load i
      some (d = 0)
    else some false

/-- `string_starts_with`. -/
def stringStartsWith (str : CharArray n) (pre : CharArray m) : Option Bool := do
  match ← compareLoop pre str (fun _ => true) (fun _ _ => false) m 0 with
  | .inl r => some r
  | .inr i => do
    let c ← pre.load i
    some (c = 0)

/-! ## The loop -/

section

variable {a : CharArray n} {b : CharArray m} {s t : List U8} {more : Nat → Bool}
  {differ : U8 → U8 → ρ} {i j : Nat}

theorem Holds.load_getD (h : a.Holds s) (hi : i ≤ s.length) : a.load i = some (s.getD i 0) := by
  rw [h.load i hi, List.getD_eq_getElem?_getD]

theorem Holds.getD_ne_zero (h : a.Holds s) (hi : i < s.length) : s.getD i 0 ≠ 0 := by
  rw [List.getD_eq_getElem _ _ hi]
  exact h.char_ne hi

/-- **Up to where the strings part** the loop goes on. -/
theorem compareLoop_go (ha : a.Holds s) (hb : b.Holds t) (hj : i + j ≤ Lex.common s t)
    (hmore : ∀ l < i + j, more l) (room : Nat) :
    compareLoop a b more differ (room + j) i = compareLoop a b more differ room (i + j) := by
  induction j generalizing i with
  | zero => rfl
  | succ j ih =>
    have hlt : i < Lex.common s t := by omega
    have hs := Nat.lt_of_lt_of_le hlt (Lex.common_le_left s t)
    have ht := Nat.lt_of_lt_of_le hlt (Lex.common_le_right s t)
    have hsame := Lex.getD_eq_of_lt_common hlt 0
    rw [← Nat.add_assoc, compareLoop, hmore i (by omega), ha.load_getD hs.le, hb.load_getD ht.le]
    dsimp only [bind, Option.bind]
    rw [if_neg (by simp), if_neg (ha.getD_ne_zero hs), if_neg (hb.getD_ne_zero ht),
      if_neg (not_not.2 hsame), ih (by omega) (fun l hl => hmore l (by omega)), Nat.add_assoc,
      Nat.add_comm 1 j]

/-- It ends where the strings part, -/
theorem compareLoop_parts (ha : a.Holds s) (hb : b.Holds t)
    (hmore : ∀ l ≤ Lex.common s t, more l) : compareLoop a b more differ n 0 =
      some (if s.getD (Lex.common s t) 0 = 0 ∨ t.getD (Lex.common s t) 0 = 0 then
        .inr (Lex.common s t)
      else .inl (differ (s.getD (Lex.common s t) 0) (t.getD (Lex.common s t) 0))) := by
  have hs := Lex.common_le_left s t
  have ht := Lex.common_le_right s t
  obtain ⟨room, hroom⟩ := Nat.exists_eq_add_of_lt (Nat.lt_of_le_of_lt hs ha.room)
  have hn : n = room + 1 + Lex.common s t := by omega
  have hgo := @compareLoop_go _ _ ρ a b s t more differ 0 (Lex.common s t) ha hb (by omega)
    (fun l hl => hmore l (by omega)) (room + 1)
  rw [← hn, Nat.zero_add] at hgo
  have hdiffer := @Lex.getD_common_eq_iff _ _ s t 0 ha.noNul hb.noNul
  rw [hgo, compareLoop, hmore _ (Nat.le_refl _), ha.load_getD hs, hb.load_getD ht]
  dsimp only [bind, Option.bind]
  rw [if_neg (by simp)]
  by_cases hc : s.getD (Lex.common s t) 0 = 0
  · rw [if_pos hc, if_pos (.inl hc)]
  by_cases hd : t.getD (Lex.common s t) 0 = 0
  · rw [if_neg hc, if_pos hd, if_pos (.inr hd)]
  · rw [if_neg hc, if_neg hd, if_neg (not_or.2 ⟨hc, hd⟩), if_pos]
    intro hsame
    -- equal strings part at their end
    obtain rfl := hdiffer.1 hsame
    exact hc ((Lex.getD_common_eq_self_iff ha.noNul).2 List.prefix_rfl)

/-- or at the bound, if that comes first. -/
theorem compareLoop_bound (ha : a.Holds s) (hb : b.Holds t) {k : Nat} (hk : k ≤ Lex.common s t) :
    compareLoop a b (fun i => i < k) differ n 0 = some (.inr k) := by
  have hs := Lex.common_le_left s t
  obtain ⟨room, hroom⟩ := Nat.exists_eq_add_of_lt (Nat.lt_of_le_of_lt (hk.trans hs) ha.room)
  have hn : n = room + 1 + k := by omega
  have hgo := @compareLoop_go _ _ ρ a b s t (fun i => i < k) differ 0 k ha hb (by omega)
    (fun l hl => decide_eq_true (by omega)) (room + 1)
  rw [← hn, Nat.zero_add] at hgo
  rw [hgo, compareLoop, if_pos (by simp)]

theorem subtractAt_eq (ha : a.Holds s) (hb : b.Holds t) (hs : i ≤ s.length) (ht : i ≤ t.length) :
    subtractAt a b i = some ((s.getD i 0).toNat - (t.getD i 0).toNat : Int) := by
  rw [subtractAt, ha.load_getD hs, hb.load_getD ht]
  rfl

/-- `strcmp` has the same loop. -/
theorem strcmpLoop_eq (a : CharArray n) (b : CharArray m) (room i : Nat) :
    strcmpLoop a b room i =
      compareLoop a b (fun _ => true) (fun c d => (c.toNat - d.toNat : Int)) room i >>=
        Sum.elim some (subtractAt a b) := by
  induction room generalizing i with
  | zero => rfl
  | succ room ih =>
    rw [strcmpLoop, compareLoop, if_neg (by simp)]
    cases hc : a.load i with
    | none => rfl
    | some c =>
      dsimp only [bind, Option.bind]
      by_cases hzero : c = 0
      · rw [if_pos hzero]
        cases hd : b.load i with
        | none => simp [subtractAt, hc, hd]
        | some d => simp [subtractAt, hc, hd, hzero]
      rw [if_neg hzero]
      cases hd : b.load i with
      | none => rfl
      | some d =>
        dsimp only
        by_cases hzero' : d = 0
        · rw [if_pos hzero', if_neg (fun h => h.2 hzero')]
          simp [subtractAt, hc, hd]
        rw [if_neg hzero', if_pos ⟨hzero, hzero'⟩]
        by_cases hne : c ≠ d
        · rw [if_pos hne, if_pos hne]
          rfl
        · rw [if_neg hne, if_neg hne]
          exact ih (i + 1)

end

end CharArray

namespace Frewozet

/-! ## The order -/

/-- The bytes, as unsigned numbers. -/
def byteValues (s : List U8) : List Nat := s.map BitVec.toNat

/-- The characters where the strings part, subtracted. -/
def difference (s t : List U8) : Int :=
  (s.getD (Lex.common s t) 0).toNat - (t.getD (Lex.common s t) 0).toNat

/-- The number has the sign of the lexicographic order of unsigned bytes. -/
structure Compares (r : Int) (s t : List U8) : Prop where
  neg : r < 0 ↔ byteValues s < byteValues t
  zero : r = 0 ↔ s = t
  pos : 0 < r ↔ byteValues t < byteValues s

section

variable {s t : List U8}

theorem difference_swap (s t : List U8) : difference t s = -difference s t := by
  rw [difference, difference, Lex.common_comm t s]
  omega

theorem byteValues_getD (s : List U8) (i : Nat) : (byteValues s).getD i ⊥ = (s.getD i 0).toNat := by
  rw [byteValues, Nat.bot_eq_zero]
  simp [List.getD_eq_getElem?_getD]
  cases s[i]? <;> rfl

theorem bot_notMem_byteValues (hs : 0 ∉ s) : ⊥ ∉ byteValues s := by
  intro h
  obtain ⟨c, hc, hzero⟩ := List.mem_map.1 h
  exact hs ((BitVec.eq_of_toNat_eq hzero : c = 0) ▸ hc)

theorem difference_neg_iff (hs : 0 ∉ s) (ht : 0 ∉ t) :
    difference s t < 0 ↔ byteValues s < byteValues t := by
  have hcommon : Lex.common (byteValues s) (byteValues t) = Lex.common s t :=
    Lex.common_map (fun _ _ => BitVec.eq_of_toNat_eq) s t
  rw [Lex.lt_iff_getD_common (bot_notMem_byteValues hs) (bot_notMem_byteValues ht), hcommon,
    byteValues_getD, byteValues_getD, difference]
  omega

/-- **The difference has the sign of the order.** -/
theorem difference_compares (hs : 0 ∉ s) (ht : 0 ∉ t) : Compares (difference s t) s t := by
  refine ⟨difference_neg_iff hs ht, ?_, ?_⟩
  · rw [difference, CharArray.toNat_sub_eq_zero, Lex.getD_common_eq_iff hs ht]
  · rw [← difference_neg_iff ht hs, difference_swap s t]
    omega

theorem Compares.nonpos {r : Int} (h : Compares r s t) : r ≤ 0 ↔ byteValues s ≤ byteValues t := by
  rw [← not_lt, h.pos, not_lt]

/-- It is transitive, as the order is. -/
theorem difference_trans {u : List U8} (hs : 0 ∉ s) (ht : 0 ∉ t) (hu : 0 ∉ u)
    (hst : difference s t ≤ 0) (htu : difference t u ≤ 0) : difference s u ≤ 0 := by
  rw [(difference_compares hs ht).nonpos] at hst
  rw [(difference_compares ht hu).nonpos] at htu
  exact (difference_compares hs hu).nonpos.2 (hst.trans htu)

theorem difference_trans_lt {u : List U8} (hs : 0 ∉ s) (ht : 0 ∉ t) (hu : 0 ∉ u)
    (hst : difference s t < 0) (htu : difference t u < 0) : difference s u < 0 := by
  rw [difference_neg_iff hs ht] at hst
  rw [difference_neg_iff ht hu] at htu
  exact (difference_neg_iff hs hu).2 (hst.trans htu)

/-- Different strings differ one way. -/
theorem difference_antisymm (hs : 0 ∉ s) (ht : 0 ∉ t) (hst : difference s t ≤ 0)
    (hts : difference t s ≤ 0) : s = t := by
  rw [difference_swap s t] at hts
  exact (difference_compares hs ht).zero.1 (by omega)

theorem notMem_take (hs : 0 ∉ s) (k : Nat) : 0 ∉ s.take k :=
  fun h => hs (List.mem_of_mem_take h)

/-- Of strings cut to a length. -/
theorem difference_take (k : Nat) (s t : List U8) : difference (s.take k) (t.take k) =
    if k ≤ Lex.common s t then 0 else difference s t := by
  have hcut : ∀ u : List U8, ∀ i, (u.take k).getD i 0 = if i < k then u.getD i 0 else 0 := by
    intro u i
    rw [List.getD_eq_getElem?_getD, List.getD_eq_getElem?_getD, List.getElem?_take]
    split <;> rfl
  rw [difference, Lex.common_take, hcut, hcut]
  by_cases hk : k ≤ Lex.common s t
  · rw [Nat.min_eq_left hk, if_neg (Nat.lt_irrefl k), if_neg (Nat.lt_irrefl k), if_pos hk]
    rfl
  · rw [Nat.min_eq_right (by omega), if_pos (by omega), if_pos (by omega), if_neg hk, difference]

end

/-! ## What the functions return -/

section

variable {n m : Nat} {a : CharArray n} {b : CharArray m} {s t : List U8}

theorem strcmp_eq (ha : a.Holds s) (hb : b.Holds t) : a.strcmp b = some (difference s t) := by
  rw [CharArray.strcmp, CharArray.strcmpLoop_eq,
    CharArray.compareLoop_parts ha hb (fun _ _ => rfl)]
  split
  · exact CharArray.subtractAt_eq ha hb (Lex.common_le_left s t) (Lex.common_le_right s t)
  · rfl

/-- **`strncmp` compares the first characters.** -/
theorem strncmp_eq (ha : a.Holds s) (hb : b.Holds t) (k : Nat) :
    a.strncmp b k = some (difference (s.take k) (t.take k)) := by
  rw [difference_take, CharArray.strncmp]
  by_cases hk : k ≤ Lex.common s t
  · rw [CharArray.compareLoop_bound ha hb hk, if_pos hk]
    exact if_pos rfl
  · rw [CharArray.compareLoop_parts ha hb (fun l hl => decide_eq_true (by omega)), if_neg hk]
    split
    · refine (if_neg (by omega)).trans ?_
      exact CharArray.subtractAt_eq ha hb (Lex.common_le_left s t) (Lex.common_le_right s t)
    · rfl

theorem stringsEqual_eq (ha : a.Holds s) (hb : b.Holds t) :
    a.stringsEqual b = some (decide (s = t)) := by
  have hsame := @Lex.getD_common_eq_iff _ _ s t 0 ha.noNul hb.noNul
  have hend := @Lex.getD_common_eq_self_iff _ _ s t 0 ha.noNul
  rw [CharArray.stringsEqual, CharArray.compareLoop_parts ha hb (fun _ _ => rfl)]
  by_cases hc : s.getD (Lex.common s t) 0 = 0
  · rw [if_pos (.inl hc)]
    dsimp only [bind, Option.bind]
    rw [ha.load_getD (Lex.common_le_left s t), hb.load_getD (Lex.common_le_right s t)]
    dsimp only
    rw [hc] at hsame
    rw [if_pos hc, decide_eq_decide.2 (eq_comm.trans hsame)]
  · have hne : s ≠ t := by
      rintro rfl
      exact hc (hend.2 List.prefix_rfl)
    rw [decide_eq_false hne]
    split
    · dsimp only [bind, Option.bind]
      rw [ha.load_getD (Lex.common_le_left s t)]
      exact if_neg hc
    · rfl

theorem stringStartsWith_eq (ha : a.Holds s) (hb : b.Holds t) :
    a.stringStartsWith b = some (decide (t <+: s)) := by
  have hend := @Lex.getD_common_eq_self_iff _ _ t s 0 hb.noNul
  rw [CharArray.stringStartsWith, CharArray.compareLoop_parts hb ha (fun _ _ => rfl),
    ← decide_eq_decide.2 hend]
  split
  · dsimp only [bind, Option.bind]
    rw [hb.load_getD (Lex.common_le_left t s)]
  · rename_i hne
    rw [decide_eq_false fun hc => hne (.inl hc)]
    rfl

theorem strequal_eq (ha : a.Holds s) (hb : b.Holds t) :
    a.strequal b = some (decide (s = t)) := by
  rw [CharArray.strequal, strcmp_eq ha hb,
    ← decide_eq_decide.2 (difference_compares ha.noNul hb.noNul).zero]
  rfl

theorem strnequal_eq (ha : a.Holds s) (hb : b.Holds t) (k : Nat) :
    a.strnequal b k = some (decide (s.take k = t.take k)) := by
  rw [CharArray.strnequal, strncmp_eq ha hb,
    ← decide_eq_decide.2
      (difference_compares (notMem_take ha.noNul k) (notMem_take hb.noNul k)).zero]
  rfl

/-- With a bound behind both ends it compares the strings. -/
theorem strncmp_eq_zero_iff (ha : a.Holds s) (hb : b.Holds t) {k : Nat} (hs : s.length < k)
    (ht : t.length < k) : ∃ r, a.strncmp b k = some r ∧ (r = 0 ↔ s = t) := by
  refine ⟨difference s t, ?_, (difference_compares ha.noNul hb.noNul).zero⟩
  rw [strncmp_eq ha hb, List.take_of_length_le hs.le, List.take_of_length_le ht.le]

theorem stringStartsWith_eq_strnequal (ha : a.Holds s) (hb : b.Holds t) :
    a.stringStartsWith b = a.strnequal b t.length := by
  rw [stringStartsWith_eq ha hb, strnequal_eq ha hb, List.take_length,
    decide_eq_decide.2 (List.prefix_iff_eq_take.trans eq_comm)]

end

/-! ## The comparisons agree -/

/-- **The comparison functions are consistent**: `strcmp` is the lexicographic order of unsigned
bytes, `strncmp` is `strcmp` of the first characters, the tests for equality hold for equal
strings alone, and `string_starts_with` is `strnequal` up to the end of what it looks for. -/
theorem string_comparisons_consistent {n m l : Nat} {a : CharArray n} {b : CharArray m}
    {c : CharArray l} {s t u : List U8} (ha : a.Holds s) (hb : b.Holds t) (hc : c.Holds u) :
    (∃ ab ba bc ac, a.strcmp b = some ab ∧ b.strcmp a = some ba ∧ b.strcmp c = some bc ∧
      a.strcmp c = some ac ∧ Compares ab s t ∧ ba = -ab ∧ (ab ≤ 0 → ba ≤ 0 → s = t) ∧
      (ab ≤ 0 → bc ≤ 0 → ac ≤ 0) ∧ (ab < 0 → bc < 0 → ac < 0)) ∧
    (∀ k, ∃ r, a.strncmp b k = some r ∧ Compares r (s.take k) (t.take k) ∧
      ∀ {i j : Nat} (a' : CharArray i) (b' : CharArray j), a'.Holds (s.take k) →
        b'.Holds (t.take k) → a'.strcmp b' = some r) ∧
    a.stringsEqual b = some (decide (s = t)) ∧ a.strequal b = some (decide (s = t)) ∧
    (∀ k, s.length < k → t.length < k → ∃ r, a.strncmp b k = some r ∧ (r = 0 ↔ s = t)) ∧
    ∃ k, b.strlen = some k ∧ a.stringStartsWith b = a.strnequal b k ∧
      a.stringStartsWith b = some (decide (t <+: s)) := by
  refine ⟨?_, fun k => ?_, stringsEqual_eq ha hb, strequal_eq ha hb, ?_, ?_⟩
  · refine ⟨_, _, _, _, strcmp_eq ha hb, strcmp_eq hb ha, strcmp_eq hb hc, strcmp_eq ha hc, ?_⟩
    exact ⟨difference_compares ha.noNul hb.noNul, difference_swap s t,
      difference_antisymm ha.noNul hb.noNul, difference_trans ha.noNul hb.noNul hc.noNul,
      difference_trans_lt ha.noNul hb.noNul hc.noNul⟩
  · refine ⟨_, strncmp_eq ha hb k, ?_, fun a' b' ha' hb' => strcmp_eq ha' hb'⟩
    exact difference_compares (notMem_take ha.noNul k) (notMem_take hb.noNul k)
  · exact fun k hs ht => strncmp_eq_zero_iff ha hb hs ht
  · exact ⟨t.length, CharArray.strlen_of_holds hb, stringStartsWith_eq_strnequal ha hb,
      stringStartsWith_eq ha hb⟩

/-- A byte above 127 comes after the letters, and a string after what it starts with. -/
theorem string_comparisons_above_127 :
    ∃ ab ac, (CharArray.ofText [97, 200] : CharArray 3).strcmp
        (CharArray.ofText [97] : CharArray 4) = some ab ∧
      (CharArray.ofText [97, 200] : CharArray 3).strcmp
        (CharArray.ofText [97, 122] : CharArray 5) = some ac ∧ 0 < ab ∧ 0 < ac ∧
      (CharArray.ofText [97, 200] : CharArray 3).stringStartsWith
        (CharArray.ofText [97] : CharArray 4) = some true := by
  have ha : (CharArray.ofText [97, 200] : CharArray 3).Holds [97, 200] :=
    CharArray.ofText_holds (by decide) (by decide)
  have hb : (CharArray.ofText [97] : CharArray 4).Holds [97] :=
    CharArray.ofText_holds (by decide) (by decide)
  have hc : (CharArray.ofText [97, 122] : CharArray 5).Holds [97, 122] :=
    CharArray.ofText_holds (by decide) (by decide)
  obtain ⟨⟨ab, -, -, -, hab, -, -, -, hsign, -⟩, -, -, -, -, k, -, -, hstarts⟩ :=
    string_comparisons_consistent ha hb hc
  obtain ⟨⟨ac, -, -, -, hac, -, -, -, hsign', -⟩, -⟩ := string_comparisons_consistent ha hc hb
  exact ⟨ab, ac, hab, hac, hsign.pos.2 (by decide), hsign'.pos.2 (by decide), hstarts⟩

end Frewozet
