import Frewozet.Base.Bytes

/-!
# A stack in byte memory

Words pushed downwards from a stack pointer, as the processors of this family do it,
and what is found there afterwards.

* `Slot` — what a slot of four bytes holds: a word, or a half word in its low half and
  anything above it.
* `Holds m sp slots` — the slots lie in the memory from `sp` on, newest first.
* `Stacked m₀ m bottom top sp slots` — between `m₀` and `m`, the slots have been pushed
  from `top` down and nothing else has been written but bytes from `bottom` up.
  `Stacked.push` is one more, `Stacked.congr` a memory that agrees on what is there.
-/

/-- What lies in a slot of a stack. -/
inductive Slot where
  | word (w : U32)
  | half (h : U16)
  deriving DecidableEq, Repr

/-- The slot at `a` holds it. -/
def Slot.At (m : Mem) (a : U32) : Slot → Prop
  | word w => m.read32 a = w
  | half h => m.read16 a = h

namespace Stack

/-- The slots lie in the memory from `a` on. -/
def Holds (m : Mem) : U32 → List Slot → Prop
  | _, [] => True
  | a, x :: xs => x.At m a ∧ Holds m (a + 4#32) xs

end Stack

theorem Slot.At.congr {m m' : Mem} {a : U32} {x : Slot} (h : x.At m a) (ha : a.toNat + 4 ≤ 2 ^ 32)
    (hm : Mem.AgreeOn m m' a.toNat (a.toNat + 4)) : x.At m' a := by
  cases x with
  | word w => exact (Mem.read32_congr ha hm).symm.trans h
  | half w => exact (Mem.read16_congr (by omega) (hm.mono (Nat.le_refl _) (by omega))).symm.trans h

namespace Stack

/-- The slots only depend on their own bytes. -/
theorem Holds.congr {m m' : Mem} : ∀ {xs : List Slot} {a : U32}, Holds m a xs →
    a.toNat + 4 * xs.length ≤ 2 ^ 32 →
    Mem.AgreeOn m m' a.toNat (a.toNat + 4 * xs.length) → Holds m' a xs := by
  intro xs
  induction xs with
  | nil => exact fun _ _ _ => trivial
  | cons x xs ih =>
    rintro a ⟨hx, hxs⟩ ha hm
    rw [List.length_cons] at ha hm
    refine ⟨hx.congr (by omega) (hm.mono (Nat.le_refl _) (by omega)), ?_⟩
    rcases Nat.eq_zero_or_pos xs.length with hnil | hpos
    · rw [List.length_eq_zero_iff.1 hnil]
      trivial
    · have hnext : (a + 4#32).toNat = a.toNat + 4 := Mem.toNat_add_of_lt (k := 4) (by omega)
      exact ih hxs (by omega) (hm.mono (by omega) (by omega))

/-- The rest of the slots, `n` of them being passed over. -/
theorem Holds.drop {m : Mem} : ∀ {n : Nat} {xs : List Slot} {a : U32}, Holds m a xs →
    Holds m (a + BitVec.ofNat 32 (4 * n)) (xs.drop n) := by
  intro n
  induction n with
  | zero =>
    intro xs a h
    rw [Nat.mul_zero, BitVec.add_zero]
    exact h
  | succ n ih =>
    intro xs a h
    cases xs with
    | nil => trivial
    | cons x xs =>
      have hnext : a + BitVec.ofNat 32 (4 * (n + 1)) = a + 4#32 + BitVec.ofNat 32 (4 * n) := by
        rw [BitVec.add_assoc, Nat.mul_succ, Nat.add_comm, BitVec.ofNat_add]
      rw [hnext]
      exact ih h.2

/-- What lies in the slot with the number `n`. -/
theorem Holds.get {m : Mem} {a : U32} {xs : List Slot} {n : Nat} {x : Slot} (h : Holds m a xs)
    (hn : xs[n]? = some x) : x.At m (a + BitVec.ofNat 32 (4 * n)) := by
  have hrest := h.drop (n := n)
  rw [List.drop_eq_getElem?_toList_append, hn] at hrest
  exact hrest.1

/-- The slots have been pushed onto the stack with its top at `top`, in the bytes from `bottom`
up to there. -/
structure Stacked (m₀ m : Mem) (bottom top sp : U32) (xs : List Slot) : Prop where
  depth : sp.toNat + 4 * xs.length = top.toNat
  room : bottom.toNat ≤ sp.toNat
  holds : Holds m sp xs
  outside : ∀ a : U32, a.toNat < bottom.toNat ∨ top.toNat ≤ a.toNat → m a = m₀ a

theorem Stacked.start (m : Mem) {bottom top : U32} (h : bottom.toNat ≤ top.toNat) :
    Stacked m m bottom top top [] :=
  ⟨rfl, h, trivial, fun _ _ => rfl⟩

theorem toNat_sub_four (sp : U32) (h : 4 ≤ sp.toNat) : (sp - 4#32).toNat = sp.toNat - 4 := by
  rw [BitVec.toNat_sub]
  have hsp := sp.isLt
  have h4 : (4#32).toNat = 4 := rfl
  omega

/-- The low half of a word that has nothing above it. -/
theorem read16_write32_setWidth (m : Mem) (a : U32) (w : U16) :
    (m.write32 a (w.setWidth 32)).read16 a = w := by
  have hne : a + 1#32 ≠ a := by simp
  have hlow : (w.setWidth 32).extractLsb' 0 8 = w.extractLsb' 0 8 := by
    ext i hi
    simp [show i < 32 by omega]
  have hhigh : (w.setWidth 32).extractLsb' 8 8 = w.extractLsb' 8 8 := by
    ext i hi
    simp [show 8 + i < 32 by omega]
  have hread : (m.write32 a (w.setWidth 32)).read16 a =
      (w.setWidth 32).extractLsb' 8 8 ++ (w.setWidth 32).extractLsb' 0 8 := by
    simp only [Mem.read16, Mem.write32]
    simp
  rw [hread, hlow, hhigh]
  exact BitVec.extractLsb'_append_extractLsb'

section

variable {m₀ m : Mem} {bottom top sp : U32} {xs : List Slot}

theorem Stacked.sp_eq (h : Stacked m₀ m bottom top sp xs) :
    sp = top - BitVec.ofNat 32 (4 * xs.length) := by
  have hdepth := h.depth
  have htop := top.isLt
  apply BitVec.eq_of_toNat_eq
  rw [BitVec.toNat_sub, BitVec.toNat_ofNat]
  omega

/-- **One more slot**, whatever writes it: all that counts is what is found in its four bytes,
and that the others are left alone. -/
theorem Stacked.push {m' : Mem} {x : Slot} (h : Stacked m₀ m bottom top sp xs)
    (hroom : bottom.toNat + 4 ≤ sp.toNat) (hx : x.At m' (sp - 4#32))
    (hm : ∀ a : U32, a.toNat < sp.toNat - 4 ∨ sp.toNat ≤ a.toNat → m' a = m a) :
    Stacked m₀ m' bottom top (sp - 4#32) (x :: xs) := by
  have hsp := toNat_sub_four sp (by omega)
  have hback : sp - 4#32 + 4#32 = sp := BitVec.sub_add_cancel sp 4#32
  have hdepth := h.depth
  have htop := top.isLt
  refine ⟨by rw [List.length_cons]; omega, by omega, ⟨hx, ?_⟩, fun a ha => ?_⟩
  · rw [hback]
    exact h.holds.congr (by omega) fun a h1 _ => (hm a (.inr h1)).symm
  · rw [hm a (by omega), h.outside a ha]

theorem Stacked.push_word (h : Stacked m₀ m bottom top sp xs) (w : U32)
    (hroom : bottom.toNat + 4 ≤ sp.toNat) :
    Stacked m₀ (m.write32 (sp - 4#32) w) bottom top (sp - 4#32) (.word w :: xs) := by
  have hsp := toNat_sub_four sp (by omega)
  have hlt := sp.isLt
  exact h.push hroom (Mem.read32_write32 _ _ _) fun a ha =>
    Mem.write32_outside m w (by omega) (by omega)

/-- A half word can be written alone. -/
theorem Stacked.push_half (h : Stacked m₀ m bottom top sp xs) (w : U16)
    (hroom : bottom.toNat + 4 ≤ sp.toNat) :
    Stacked m₀ (m.write16 (sp - 4#32) w) bottom top (sp - 4#32) (.half w :: xs) := by
  have hsp := toNat_sub_four sp (by omega)
  have hlt := sp.isLt
  exact h.push hroom (Mem.read16_write16 _ _ _) fun a ha =>
    Mem.write16_outside m w (by omega) (by omega)

/-- A half word can be written with zeros above it. -/
theorem Stacked.push_half_zero (h : Stacked m₀ m bottom top sp xs) (w : U16)
    (hroom : bottom.toNat + 4 ≤ sp.toNat) :
    Stacked m₀ (m.write32 (sp - 4#32) (w.setWidth 32)) bottom top (sp - 4#32)
      (.half w :: xs) := by
  have hsp := toNat_sub_four sp (by omega)
  have hlt := sp.isLt
  exact h.push hroom (read16_write32_setWidth _ _ _) fun a ha =>
    Mem.write32_outside m _ (by omega) (by omega)

/-- A memory that agrees on what has been pushed has been pushed it too, for all that lies
outside the bytes of the stack in that memory. -/
theorem Stacked.congr {m' : Mem} (h : Stacked m₀ m bottom top sp xs)
    (hm : Mem.AgreeOn m m' sp.toNat top.toNat) : Holds m' sp xs := by
  have hdepth := h.depth
  have htop := top.isLt
  exact h.holds.congr (by omega) (hm.mono (Nat.le_refl _) (by omega))

end

end Stack
