import Frewozet.Base.CString

/-!
# Building strings in an array

* `Begins a s` — the first cells of the array are the characters `s`; no NUL is asked for.
* `appendLoop` — the loop that copies a string and its NUL to a place, `strcat` and
  `strAppend` — from the end of the string there, and from a place that is kept.
* `strcat_of_holds`, `strcat_overrun`, `strAppend_of_begins` — **they append exactly if there
  is room for the NUL**; otherwise they leave the array.
* `copyChars` — the loop that copies so many characters and no NUL.
* `reverseCells` — the loop that turns the first cells around in place;
  `reverseCells_of_begins` — it reverses them.
-/

namespace CharArray

variable {n m : Nat} {a dst : CharArray n} {src : CharArray m} {s t : List U8} {c : U8} {i : Nat}

theorem store_eq_none (h : n ≤ i) : a.store i c = none := dif_neg (Nat.not_lt.2 h)

/-- A string literal: an array that the string and its NUL fill. -/
def literal (s : List U8) : CharArray (s.length + 1) := ofText s

theorem literal_holds (hs : 0 ∉ s) : (literal s).Holds s := ofText_holds (Nat.lt_succ_self _) hs

/-! ## The first cells -/

/-- The array begins with these characters. -/
def Begins (a : CharArray n) (s : List U8) : Prop := ∀ i (h : i < s.length), a.load i = some s[i]

theorem Begins.nil (a : CharArray n) : a.Begins [] := fun _ h => absurd h (Nat.not_lt_zero _)

theorem Holds.begins (h : a.Holds s) : a.Begins s := fun _ hi => h.char hi

/-- A NUL behind them makes a string of them. -/
theorem Begins.holds (h : a.Begins s) (hnul : a.load s.length = some 0) (hs : 0 ∉ s) :
    a.Holds s := .of_chars h hnul hs

/-- Storing behind them, and what the array begins with then. -/
theorem Begins.push (h : a.Begins s) (hroom : s.length < n) (c : U8) :
    ∃ a', a.store s.length c = some a' ∧ a'.Begins (s ++ [c]) := by
  obtain ⟨a', hstore, hload⟩ := a.store_of_lt hroom c
  refine ⟨a', hstore, fun i hi => ?_⟩
  rw [hload]
  split
  · rename_i heq
    subst heq
    simp
  · rename_i hne
    have hlt : i < s.length := by
      simp at hi
      omega
    rw [h i hlt, List.getElem_append_left hlt]

theorem Begins.nul (h : a.Begins s) (hroom : s.length < n) (hs : 0 ∉ s) :
    ∃ a', a.store s.length 0 = some a' ∧ a'.Holds s := by
  obtain ⟨a', hstore, hload⟩ := a.store_of_lt hroom 0
  refine ⟨a', hstore, .of_chars (fun i hi => ?_) (by rw [hload, if_pos rfl]) hs⟩
  rw [hload, if_neg (by omega), h i hi]

/-- `for (j = 0; j < k; j++) a[j] = s[j]`. -/
def copyChars (s : List U8) (k : Nat) (a : CharArray n) : Option (CharArray n) :=
  forRangeM k (fun j a => a.store j (s.getD j 0)) a

theorem copyChars_begins {k : Nat} (hk : k ≤ s.length) (hn : k ≤ n) (a : CharArray n) :
    ∃ a', copyChars s k a = some a' ∧ a'.Begins (s.take k) := by
  obtain ⟨a', hrun, hbegins⟩ := forRangeM_rule
    (P := fun j (u : CharArray n) => u.Begins (s.take j))
    (f := fun j (u : CharArray n) => u.store j (s.getD j 0))
    (s := a) (n := k) (by rw [List.take_zero]; exact .nil a) fun j hj u hu => by
      have hlt : j < s.length := Nat.lt_of_lt_of_le hj hk
      have hlength : (s.take j).length = j := List.length_take_of_le hlt.le
      obtain ⟨v, hstore, hv⟩ := hu.push (by omega) s[j]
      rw [hlength] at hstore
      refine ⟨v, ?_, ?_⟩
      · rw [← hstore, List.getD_eq_getElem?_getD, List.getElem?_eq_getElem hlt]
        rfl
      · rwa [List.take_succ_eq_append_getElem hlt]
  exact ⟨a', hrun, hbegins⟩

/-! ## Appending -/

/-- The loop of `strcat` and of `str_append`: the string from the cell `i` of `src` on goes to
the cells from `pos` on. -/
def appendLoop (src : CharArray m) : Nat → Nat → Nat → CharArray n → Option (Nat × CharArray n)
  | 0, _, _, _ => none
  | room + 1, i, pos, dst => do
    let c ← src.load i
    if c ≠ 0 then do
      let dst ← dst.store pos c
      appendLoop src room (i + 1) (pos + 1) dst
    else do
      let dst ← dst.store pos 0
      some (pos, dst)

/-- `strcat`. -/
def strcat (dst : CharArray n) (src : CharArray m) : Option (CharArray n) := do
  let dstLen ← dst.strlen
  let (_, dst) ← appendLoop src m 0 dstLen dst
  some dst

/-- `str_append`, with `*pos`. -/
def strAppend (dest : CharArray n) (pos : Nat) (src : CharArray m) : Option (Nat × CharArray n) :=
  appendLoop src m 0 pos dest

theorem appendLoop_of_holdsAt (h : src.HoldsAt i t) {room : Nat} (hroom : t.length < room)
    (hdst : dst.Begins s) (hs : 0 ∉ s) (hn : s.length + t.length < n) :
    ∃ dst', appendLoop src room i s.length dst = some (s.length + t.length, dst') ∧
      dst'.Holds (s ++ t) := by
  induction t generalizing i room s dst with
  | nil =>
    obtain ⟨room, rfl⟩ := Nat.exists_eq_succ_of_ne_zero (Nat.ne_of_gt hroom)
    obtain ⟨dst', hstore, hholds⟩ := hdst.nul hn hs
    refine ⟨dst', ?_, by rwa [List.append_nil]⟩
    rw [appendLoop, show src.load i = some 0 from h]
    dsimp only [bind, Option.bind]
    rw [if_neg (by simp), hstore]
    rfl
  | cons c t ih =>
    obtain ⟨room, rfl⟩ := Nat.exists_eq_succ_of_ne_zero (Nat.ne_of_gt (Nat.zero_lt_of_lt hroom))
    simp only [List.length_cons] at hroom hn ⊢
    obtain ⟨dst₁, hstore, hbegins⟩ := hdst.push (by omega) c
    have hsc : 0 ∉ s ++ [c] := by simpa using ⟨hs, h.2.1.symm⟩
    obtain ⟨dst', hloop, hholds⟩ := ih h.2.2 (Nat.lt_of_succ_lt_succ hroom) hbegins hsc
      (by simp; omega)
    refine ⟨dst', ?_, by simpa using hholds⟩
    rw [appendLoop, h.1]
    dsimp only [bind, Option.bind]
    rw [if_pos h.2.1, hstore]
    simpa [Nat.add_assoc, Nat.add_comm 1] using hloop

/-- Where there is no room for all of it and the NUL, the loop leaves the array. -/
theorem appendLoop_overrun (h : src.HoldsAt i t) {room pos : Nat} (hn : n ≤ pos + t.length) :
    appendLoop src room i pos dst = none := by
  induction t generalizing i room pos dst with
  | nil =>
    cases room with
    | zero => rfl
    | succ room =>
      rw [appendLoop, show src.load i = some 0 from h]
      dsimp only [bind, Option.bind]
      rw [if_neg (by simp), store_eq_none (show n ≤ pos from hn)]
  | cons c t ih =>
    cases room with
    | zero => rfl
    | succ room =>
      rw [appendLoop, h.1]
      dsimp only [bind, Option.bind]
      rw [if_pos h.2.1]
      cases hstore : dst.store pos c with
      | none => rfl
      | some dst₁ =>
        rw [List.length_cons] at hn
        exact ih h.2.2 (by omega)

/-- **`strcat` appends a string** for which there is room. -/
theorem strcat_of_holds (hdst : dst.Holds s) (hsrc : src.Holds t)
    (hn : s.length + t.length < n) : ∃ dst', strcat dst src = some dst' ∧ dst'.Holds (s ++ t) := by
  obtain ⟨dst', hloop, hholds⟩ :=
    appendLoop_of_holdsAt hsrc.holdsAt hsrc.room hdst.begins hdst.noNul hn
  refine ⟨dst', ?_, hholds⟩
  rw [strcat, strlen_of_holds hdst]
  dsimp only [bind, Option.bind]
  rw [hloop]

/-- Otherwise it writes behind the end. -/
theorem strcat_overrun (hdst : dst.Holds s) (hsrc : src.Holds t)
    (hn : n ≤ s.length + t.length) : strcat dst src = none := by
  rw [strcat, strlen_of_holds hdst]
  dsimp only [bind, Option.bind]
  rw [appendLoop_overrun hsrc.holdsAt hn]

/-- **`str_append` appends a string** for which there is room. -/
theorem strAppend_of_begins (hdst : dst.Begins s) (hs : 0 ∉ s) (hsrc : src.Holds t)
    (hn : s.length + t.length < n) :
    ∃ dst', strAppend dst s.length src = some ((s ++ t).length, dst') ∧ dst'.Holds (s ++ t) := by
  rw [List.length_append]
  exact appendLoop_of_holdsAt hsrc.holdsAt hsrc.room hdst hs hn

/-! ## Turning around -/

/-- `for (j = 0; j < length / 2; j++)`, with the cells `j` and `length - 1 - j` exchanged. -/
def reverseCells (length : Nat) (a : CharArray n) : Option (CharArray n) :=
  forRangeM (length / 2) (fun j a => do
    let temp ← a.load j
    let c ← a.load (length - 1 - j)
    let a ← a.store j c
    a.store (length - 1 - j) temp) a

/-- A round exchanges two cells. -/
theorem exchange_load (a : CharArray n) {k : Nat} (hi : i < n) (hk : k < n) :
    ∃ a', (do
      let temp ← a.load i
      let c ← a.load k
      let a ← a.store i c
      a.store k temp) = some a' ∧
      ∀ j, a'.load j = if j = k then a.load i else if j = i then a.load k else a.load j := by
  obtain ⟨v, hv, hvload⟩ := a.store_of_lt hi (a.cells ⟨k, hk⟩)
  obtain ⟨w, hw, hwload⟩ := v.store_of_lt hk (a.cells ⟨i, hi⟩)
  refine ⟨w, ?_, fun j => ?_⟩
  · rw [a.load_of_lt hi, a.load_of_lt hk]
    dsimp only [bind, Option.bind]
    rw [hv]
    exact hw
  · rw [hwload, hvload, a.load_of_lt hi, a.load_of_lt hk]

theorem reverseCells_load (a : CharArray n) {length : Nat} (hn : length ≤ n) :
    ∃ a', reverseCells length a = some a' ∧
      ∀ j, a'.load j = if j < length then a.load (length - 1 - j) else a.load j := by
  -- after `k` rounds the first `k` and the last `k` cells have their places
  obtain ⟨a', ha', hload⟩ := forRangeM_rule
    (P := fun k (u : CharArray n) => k ≤ length / 2 → ∀ j, u.load j =
      if j < k ∨ length - k ≤ j ∧ j < length then a.load (length - 1 - j) else a.load j)
    (f := fun j a => do
      let temp ← a.load j
      let c ← a.load (length - 1 - j)
      let a ← a.store j c
      a.store (length - 1 - j) temp)
    (s := a) (n := length / 2) (fun _ j => by rw [if_neg (by omega)]) fun k hk u hu => by
      have hu := hu (Nat.le_of_lt hk)
      obtain ⟨v, hv, hvload⟩ :=
        u.exchange_load (by omega : k < n) (by omega : length - 1 - k < n)
      refine ⟨v, hv, fun _ j => ?_⟩
      rw [hvload]
      by_cases hlast : j = length - 1 - k
      · rw [if_pos hlast, if_pos (by omega), hu, if_neg (by omega), hlast,
          Nat.sub_sub_self (by omega)]
      rw [if_neg hlast]
      by_cases hfirst : j = k
      · rw [if_pos hfirst, if_pos (by omega), hu, if_neg (by omega), hfirst]
      rw [if_neg hfirst, hu]
      split
      · rw [if_pos (by omega)]
      · rw [if_neg (by omega)]
  refine ⟨a', ha', fun j => ?_⟩
  rw [hload (Nat.le_refl _)]
  by_cases hj : j < length
  · rw [if_pos hj]
    split
    · rfl
    · -- the cell in the middle of an odd number
      rw [show length - 1 - j = j by omega]
  · rw [if_neg (by omega), if_neg hj]

/-- **It reverses the characters** the array begins with. -/
theorem reverseCells_of_begins (h : a.Begins s) (hn : s.length ≤ n) :
    ∃ a', reverseCells s.length a = some a' ∧ a'.Begins s.reverse := by
  obtain ⟨a', ha', hload⟩ := a.reverseCells_load hn
  refine ⟨a', ha', fun j hj => ?_⟩
  rw [List.length_reverse] at hj
  rw [hload, if_pos hj, h _ (by omega), List.getElem_reverse]

end CharArray
