import Frewozet.Base.Loop
import Frewozet.Base.Words
import Mathlib.Data.List.InsertIdx
import Mathlib.Data.List.TakeWhile

/-!
# Strings in arrays of characters

A C string is an array that holds a list of characters and a NUL behind it.

* `CharArray n` — `char a[n]`; `load` and `store` fail outside of it.
* `Holds a s` — the array holds the string `s`.
* `HoldsAt a p s` — it holds the string from the place `p` on, to the next NUL.
* `scan`, `strlen`, `strcpy`, `strcmp`, `stringAt` — the loops over strings, each of them
  bounded by the end of the array, where the next `load` fails.
* `strlen_of_holds`, `strcpy_of_holds` — what they do with strings.
* `shiftUp`, `shiftDown` — the loops that make room for a character and close the gap
  again; `insert_of_holds` and `shiftDown_of_holds` say **what they are on lists**.
-/

/-- `char a[n]`. -/
structure CharArray (n : Nat) where
  cells : Fin n → U8

namespace CharArray

variable {n m : Nat}

/-- Read a character. -/
def load (a : CharArray n) (i : Nat) : Option U8 :=
  if h : i < n then some (a.cells ⟨i, h⟩) else none

/-- Write one. -/
def store (a : CharArray n) (i : Nat) (c : U8) : Option (CharArray n) :=
  if h : i < n then some ⟨Function.update a.cells ⟨i, h⟩ c⟩ else none

theorem load_of_lt (a : CharArray n) {i : Nat} (h : i < n) :
    a.load i = some (a.cells ⟨i, h⟩) := dif_pos h

theorem lt_of_load {a : CharArray n} {i : Nat} {c : U8} (h : a.load i = some c) : i < n := by
  by_contra hge
  rw [load, dif_neg hge] at h
  cases h

theorem store_of_lt (a : CharArray n) {i : Nat} (h : i < n) (c : U8) :
    ∃ a', a.store i c = some a' ∧ ∀ j, a'.load j = if j = i then some c else a.load j := by
  refine ⟨⟨Function.update a.cells ⟨i, h⟩ c⟩, dif_pos h, fun j => ?_⟩
  by_cases hj : j < n
  · rw [load_of_lt _ hj, load_of_lt _ hj]
    simp only [Function.update_apply, Fin.mk.injEq]
    split <;> rfl
  · rw [if_neg (by omega), load, load, dif_neg hj, dif_neg hj]

/-! ## Strings -/

/-- The array holds the string. -/
structure Holds (a : CharArray n) (s : List U8) : Prop where
  /-- The characters, and the NUL behind them. -/
  load : ∀ i ≤ s.length, a.load i = some (s[i]?.getD 0)
  noNul : 0 ∉ s

namespace Holds

variable {a : CharArray n} {s : List U8}

theorem nul (h : a.Holds s) : a.load s.length = some 0 := by
  rw [h.load _ (Nat.le_refl _), List.getElem?_eq_none (Nat.le_refl _)]
  rfl

theorem room (h : a.Holds s) : s.length < n := lt_of_load h.nul

theorem char (h : a.Holds s) {i : Nat} (hi : i < s.length) : a.load i = some s[i] := by
  rw [h.load i (Nat.le_of_lt hi), List.getElem?_eq_getElem hi]
  rfl

theorem char_ne (h : a.Holds s) {i : Nat} (hi : i < s.length) : s[i] ≠ 0 :=
  fun hc => h.noNul (hc ▸ List.getElem_mem hi)

/-- A list has a character at every place before its end. -/
theorem of_chars (hchar : ∀ i (hi : i < s.length), a.load i = some s[i])
    (hnul : a.load s.length = some 0) (hs : 0 ∉ s) : a.Holds s := by
  refine ⟨fun i hi => ?_, hs⟩
  by_cases hlt : i < s.length
  · rw [hchar i hlt, List.getElem?_eq_getElem hlt]
    rfl
  · obtain rfl : i = s.length := by omega
    rw [hnul, List.getElem?_eq_none (Nat.le_refl _)]
    rfl

/-- A NUL in the first cell is the empty string. -/
theorem empty (h : a.load 0 = some 0) : a.Holds [] :=
  of_chars (fun i hi => absurd hi (Nat.not_lt_zero i)) h List.not_mem_nil

end Holds

/-- An array with a string in it, and NULs behind. -/
def ofText (s : List U8) : CharArray n := ⟨fun i => s[i.1]?.getD 0⟩

theorem ofText_holds {s : List U8} (hroom : s.length < n) (hs : 0 ∉ s) :
    (ofText s : CharArray n).Holds s :=
  ⟨fun _ hi => load_of_lt _ (Nat.lt_of_le_of_lt hi hroom), hs⟩

/-! ## The loops over strings -/

/-- `while (!stop(a[i])) i++`, with `room` cells left. -/
def scan (a : CharArray n) (stop : U8 → Bool) : Nat → Nat → Option Nat
  | 0, _ => none
  | room + 1, i => do
    let c ← a.load i
    if stop c then some i else scan a stop room (i + 1)

/-- `strlen`. -/
def strlen (a : CharArray n) : Option Nat := a.scan (· = 0) n 0

/-- The loop of `strcpy`. -/
def strcpyLoop (src : CharArray m) : Nat → Nat → CharArray n → Option (CharArray n)
  | 0, _, _ => none
  | room + 1, i, dst => do
    let c ← src.load i
    if c ≠ 0 then do
      let dst ← dst.store i c
      strcpyLoop src room (i + 1) dst
    else dst.store i 0

/-- `strcpy`. -/
def strcpy (dst : CharArray n) (src : CharArray m) : Option (CharArray n) := strcpyLoop src m 0 dst

/-- The loop of `strcmp`. -/
def strcmpLoop (a : CharArray n) (b : CharArray m) : Nat → Nat → Option Int
  | 0, _ => none
  | room + 1, i => do
    let c ← a.load i
    let d ← b.load i
    if c ≠ 0 ∧ d ≠ 0 then
      if c ≠ d then some (c.toNat - d.toNat) else strcmpLoop a b room (i + 1)
    else some (c.toNat - d.toNat)

/-- `strcmp`. -/
def strcmp (a : CharArray n) (b : CharArray m) : Option Int := strcmpLoop a b n 0

/-- The string that starts at a cell. -/
def stringFrom (a : CharArray n) : Nat → Nat → Option (List U8)
  | 0, _ => none
  | room + 1, i => do
    let c ← a.load i
    if c = 0 then some [] else
      let s ← stringFrom a room (i + 1)
      some (c :: s)

def stringAt (a : CharArray n) (i : Nat) : Option (List U8) := a.stringFrom n i

/-! ## Strings inside an array -/

/-- The array holds the string from a place on. -/
def HoldsAt (a : CharArray n) : Nat → List U8 → Prop
  | p, [] => a.load p = some 0
  | p, c :: s => a.load p = some c ∧ c ≠ 0 ∧ a.HoldsAt (p + 1) s

namespace HoldsAt

variable {a a' : CharArray n} {s t u : List U8} {p : Nat}

theorem nul (h : a.HoldsAt p s) : a.load (p + s.length) = some 0 := by
  induction s generalizing p with
  | nil => exact h
  | cons c s ih =>
    have hs := ih h.2.2
    rwa [Nat.add_right_comm] at hs

theorem room (h : a.HoldsAt p s) : p + s.length < n := lt_of_load h.nul

theorem append (h : a.HoldsAt p (t ++ u)) : a.HoldsAt (p + t.length) u := by
  induction t generalizing p with
  | nil => exact h
  | cons c t ih =>
    have hu := ih h.2.2
    rwa [Nat.add_right_comm] at hu

/-- It is about the cells of the string and its NUL alone. -/
theorem congr (h : a.HoldsAt p s)
    (hsame : ∀ q, p ≤ q → q ≤ p + s.length → a'.load q = a.load q) : a'.HoldsAt p s := by
  induction s generalizing p with
  | nil => exact (hsame p (Nat.le_refl p) (Nat.le_refl p)).trans h
  | cons c s ih =>
    refine ⟨(hsame p (Nat.le_refl p) (Nat.le_add_right p _)).trans h.1, h.2.1, ih h.2.2 ?_⟩
    intro q h1 h2
    exact hsame q (by omega) (by rw [List.length_cons]; omega)

/-- A NUL cuts the string. -/
theorem cut (h : a.HoldsAt p (t ++ u))
    (hload : ∀ q, a'.load q = if q = p + t.length then some 0 else a.load q) :
    a'.HoldsAt p t := by
  induction t generalizing p with
  | nil => exact (hload p).trans (if_pos rfl)
  | cons c t ih =>
    refine ⟨?_, h.2.1, ih h.2.2 fun q => ?_⟩
    · rw [hload, if_neg (by simp)]
      exact h.1
    · rw [hload, List.length_cons, Nat.add_right_comm p 1, Nat.add_assoc]

/-- A scan skips the characters that do not stop it. -/
theorem scan (stop : U8 → Bool) (hstop : stop 0) (h : a.HoldsAt p s) {room : Nat}
    (hroom : s.length < room) :
    a.scan stop room p = some (p + (s.takeWhile (fun c => !stop c)).length) := by
  induction s generalizing p room with
  | nil =>
    obtain ⟨room, rfl⟩ := Nat.exists_eq_succ_of_ne_zero (Nat.ne_of_gt hroom)
    rw [CharArray.scan, show a.load p = some 0 from h]
    exact if_pos hstop
  | cons c s ih =>
    obtain ⟨room, rfl⟩ := Nat.exists_eq_succ_of_ne_zero (Nat.ne_of_gt (Nat.zero_lt_of_lt hroom))
    rw [CharArray.scan, h.1]
    dsimp only [bind, Option.bind]
    by_cases hc : stop c
    · rw [if_pos hc, List.takeWhile_cons, if_neg (by simp [hc])]
      rfl
    · rw [if_neg hc, ih h.2.2 (Nat.lt_of_succ_lt_succ hroom), List.takeWhile_cons,
        if_pos (by simp [hc]), List.length_cons, Nat.add_right_comm, Nat.add_assoc]

/-- The same where the scan ends at the NUL, whatever else stops it. -/
theorem scan_until (stop : U8 → Bool) (h : a.HoldsAt p s) {room : Nat}
    (hroom : s.length < room) : a.scan (fun c => c = 0 || stop c) room p =
      some (p + (s.takeWhile (fun c => !stop c)).length) := by
  rw [h.scan _ (by simp) hroom]
  clear hroom
  congr 3
  induction s generalizing p with
  | nil => rfl
  | cons c s ih =>
    have hc : decide (c = 0) = false := decide_eq_false h.2.1
    rw [List.takeWhile_cons, List.takeWhile_cons, hc, Bool.false_or, ih h.2.2]

theorem stringFrom (h : a.HoldsAt p s) {room : Nat} (hroom : s.length < room) :
    a.stringFrom room p = some s := by
  induction s generalizing p room with
  | nil =>
    obtain ⟨room, rfl⟩ := Nat.exists_eq_succ_of_ne_zero (Nat.ne_of_gt hroom)
    rw [CharArray.stringFrom, show a.load p = some 0 from h]
    dsimp only [bind, Option.bind]
    exact if_pos rfl
  | cons c s ih =>
    obtain ⟨room, rfl⟩ := Nat.exists_eq_succ_of_ne_zero (Nat.ne_of_gt (Nat.zero_lt_of_lt hroom))
    rw [CharArray.stringFrom, h.1]
    dsimp only [bind, Option.bind]
    rw [if_neg h.2.1, ih h.2.2 (Nat.lt_of_succ_lt_succ hroom)]

theorem stringAt (h : a.HoldsAt p s) : a.stringAt p = some s :=
  h.stringFrom (by have := h.room; omega)

end HoldsAt

/-- What an array holds, it holds from any place in it on. -/
theorem Holds.drop {a : CharArray n} {s : List U8} (h : a.Holds s) {p : Nat}
    (hp : p ≤ s.length) : a.HoldsAt p (s.drop p) := by
  obtain ⟨k, hk⟩ : ∃ k, k = s.length - p := ⟨_, rfl⟩
  induction k generalizing p with
  | zero =>
    obtain rfl : p = s.length := by omega
    rw [List.drop_length]
    exact h.nul
  | succ k ih =>
    have hlt : p < s.length := by omega
    rw [List.drop_eq_getElem_cons hlt]
    exact ⟨h.char hlt, h.char_ne hlt, ih hlt (by omega)⟩

theorem Holds.holdsAt {a : CharArray n} {s : List U8} (h : a.Holds s) : a.HoldsAt 0 s :=
  h.drop (Nat.zero_le _)

/-! ## What the loops do with strings -/

theorem strlen_of_holds {a : CharArray n} {s : List U8} (h : a.Holds s) :
    a.strlen = some s.length := by
  have hall : s.takeWhile (fun c => !decide (c = 0)) = s :=
    List.takeWhile_eq_self_iff.2 fun c hc => by
      simpa using (fun h0 : c = 0 => h.noNul (h0 ▸ hc))
  rw [strlen, h.holdsAt.scan _ (decide_eq_true rfl) h.room, hall, Nat.zero_add]

section

variable {src : CharArray m} {s : List U8}

theorem strcpyLoop_of_holds (h : src.Holds s) (hn : s.length < n) :
    ∀ {room i : Nat} {dst : CharArray n}, i ≤ s.length → s.length < i + room →
      (∀ j < i, dst.load j = src.load j) →
        ∃ dst', strcpyLoop src room i dst = some dst' ∧ dst'.Holds s := by
  intro room
  induction room with
  | zero => exact fun h1 h2 => by omega
  | succ room ih =>
    intro i dst h1 h2 hcopied
    by_cases hi : i < s.length
    · obtain ⟨dst', hst, hload⟩ := dst.store_of_lt (by omega : i < n) s[i]
      obtain ⟨dst'', hrest, hholds⟩ := @ih (i + 1) dst' hi (by omega) (by
        intro j hj
        rw [hload]
        split
        · rename_i heq
          rw [heq, h.char hi]
        · exact hcopied j (by omega))
      refine ⟨dst'', ?_, hholds⟩
      rw [strcpyLoop, h.char hi]
      exact (if_pos (h.char_ne hi)).trans (by rw [hst]; exact hrest)
    · obtain rfl : i = s.length := by omega
      obtain ⟨dst', hst, hload⟩ := dst.store_of_lt hn 0
      refine ⟨dst', ?_, .of_chars (fun j hj => ?_) (by rw [hload, if_pos rfl]) h.noNul⟩
      · rw [strcpyLoop, h.nul]
        exact hst
      · rw [hload, if_neg (by omega), hcopied j hj, h.char hj]

/-- **`strcpy` copies a string** that has room. -/
theorem strcpy_of_holds (h : src.Holds s) (hn : s.length < n) (dst : CharArray n) :
    ∃ dst', strcpy dst src = some dst' ∧ dst'.Holds s :=
  strcpyLoop_of_holds h hn (Nat.zero_le _) (by have := h.room; omega) fun j hj =>
    absurd hj (Nat.not_lt_zero j)

end

theorem toNat_sub_eq_zero {c d : U8} : (c.toNat : Int) - d.toNat = 0 ↔ c = d := by
  rw [← BitVec.toNat_inj]
  omega

theorem stringAt_of_holds {a : CharArray n} {s : List U8} (h : a.Holds s) :
    a.stringAt 0 = some s := h.holdsAt.stringAt

/-! ## Making room and closing gaps -/

/-- `for (i = hi; i > lo; i--) a[i] = a[i - 1]`. -/
def shiftUp (lo hi : Nat) (a : CharArray n) : Option (CharArray n) :=
  forRangeM (hi - lo) (fun k a => do
    let c ← a.load (hi - k - 1)
    a.store (hi - k) c) a

/-- `for (i = lo; i < hi; i++) a[i] = a[i + 1]`. -/
def shiftDown (lo hi : Nat) (a : CharArray n) : Option (CharArray n) :=
  forRangeM (hi - lo) (fun k a => do
    let c ← a.load (lo + k + 1)
    a.store (lo + k) c) a

theorem shiftUp_load (a : CharArray n) {lo hi : Nat} (hhi : hi < n) :
    ∃ a', shiftUp lo hi a = some a' ∧
      ∀ j, a'.load j = if lo < j ∧ j ≤ hi then a.load (j - 1) else a.load j := by
  -- the cells from the top down to the one the round is at have moved
  obtain ⟨a', ha', hload⟩ := forRangeM_rule (P := fun k (u : CharArray n) => k ≤ hi - lo →
      ∀ j, u.load j = if hi - k < j ∧ j ≤ hi then a.load (j - 1) else a.load j)
    (f := fun k a => do
      let c ← a.load (hi - k - 1)
      a.store (hi - k) c)
    (s := a) (n := hi - lo) (fun _ j => by rw [if_neg (by omega)]) fun k hk u hu => by
      have hu := hu (Nat.le_of_lt hk)
      obtain ⟨v, hv, hload⟩ :=
        u.store_of_lt (by omega : hi - k < n) (a.cells ⟨hi - k - 1, by omega⟩)
      refine ⟨v, ?_, fun _ j => ?_⟩
      · rw [hu, if_neg (by omega), a.load_of_lt (by omega)]
        exact hv
      · rw [hload]
        split
        · rename_i heq
          rw [if_pos (by omega), heq, a.load_of_lt (by omega)]
        · rw [hu]
          split
          · rw [if_pos (by omega)]
          · rw [if_neg (by omega)]
  refine ⟨a', ha', fun j => ?_⟩
  rw [hload (Nat.le_refl _)]
  by_cases hlo : lo ≤ hi
  · rw [Nat.sub_sub_self hlo]
  · rw [if_neg (by omega), if_neg (by omega)]

theorem shiftDown_load (a : CharArray n) {lo hi : Nat} (hhi : hi < n) :
    ∃ a', shiftDown lo hi a = some a' ∧
      ∀ j, a'.load j = if lo ≤ j ∧ j < hi then a.load (j + 1) else a.load j := by
  obtain ⟨a', ha', hload⟩ := forRangeM_rule (P := fun k (u : CharArray n) => k ≤ hi - lo →
      ∀ j, u.load j = if lo ≤ j ∧ j < lo + k then a.load (j + 1) else a.load j)
    (f := fun k a => do
      let c ← a.load (lo + k + 1)
      a.store (lo + k) c)
    (s := a) (n := hi - lo) (fun _ j => by rw [if_neg (by omega)]) fun k hk u hu => by
      have hu := hu (Nat.le_of_lt hk)
      obtain ⟨v, hv, hload⟩ :=
        u.store_of_lt (by omega : lo + k < n) (a.cells ⟨lo + k + 1, by omega⟩)
      refine ⟨v, ?_, fun _ j => ?_⟩
      · rw [hu, if_neg (by omega), a.load_of_lt (by omega)]
        exact hv
      · rw [hload]
        split
        · rename_i heq
          rw [if_pos (by omega), heq, a.load_of_lt (by omega)]
        · rw [hu]
          split
          · rw [if_pos (by omega)]
          · rw [if_neg (by omega)]
  refine ⟨a', ha', fun j => ?_⟩
  rw [hload (Nat.le_refl _)]
  by_cases hlo : lo ≤ hi
  · rw [Nat.add_sub_cancel' hlo]
  · rw [if_neg (by omega), if_neg (by omega)]

section

variable {a : CharArray n} {s : List U8} {i : Nat}

/-- **Making room and storing a character inserts it.** -/
theorem insert_of_holds (h : a.Holds s) (hroom : s.length + 1 < n) (hi : i ≤ s.length) {c : U8}
    (hc : c ≠ 0) : ∃ a' a'', shiftUp i (s.length + 1) a = some a' ∧ a'.store i c = some a'' ∧
      a''.Holds (s.insertIdx i c) := by
  obtain ⟨a', ha', hload'⟩ := @shiftUp_load _ a i _ hroom
  obtain ⟨a'', ha'', hload''⟩ := a'.store_of_lt (by omega : i < n) c
  have hlength := List.length_insertIdx_of_le_length hi c
  refine ⟨a', a'', ha', ha'', ⟨fun j hj => ?_, fun hmem => ?_⟩⟩
  · rw [hlength] at hj
    rw [hload'', hload', List.getElem?_insertIdx]
    by_cases hlt : j < i
    · rw [if_neg (by omega), if_neg (by omega), if_pos hlt, h.load j (by omega)]
    · by_cases heq : j = i
      · rw [if_pos heq, if_neg hlt, if_pos heq, if_pos (by omega)]
        rfl
      · rw [if_neg heq, if_pos (by omega), if_neg hlt, if_neg heq, h.load (j - 1) (by omega)]
  · rcases List.eq_or_mem_of_mem_insertIdx hmem with h0 | h0
    · exact hc h0.symm
    · exact h.noNul h0

/-- **Closing the gap erases a character.** -/
theorem shiftDown_of_holds (h : a.Holds s) (hi : i < s.length) :
    ∃ a', shiftDown i s.length a = some a' ∧ a'.Holds (s.eraseIdx i) := by
  obtain ⟨a', ha', hload⟩ := @shiftDown_load _ a i _ h.room
  have hlength := List.length_eraseIdx_of_lt hi
  refine ⟨a', ha', ⟨fun j hj => ?_, fun hmem => h.noNul (List.mem_of_mem_eraseIdx hmem)⟩⟩
  rw [hlength] at hj
  rw [hload, List.getElem?_eraseIdx]
  by_cases hlt : j < i
  · rw [if_neg (by omega), if_pos hlt, h.load j (by omega)]
  · rw [if_pos (by omega), if_neg hlt, h.load (j + 1) (by omega)]

end

end CharArray
