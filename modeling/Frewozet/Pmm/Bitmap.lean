import Frewozet.Base.Words
import Mathlib.Data.List.Range

/-!
# `pmm.c`, first part: the bitmap

One bit per 4 KiB frame in packed 32-bit words, set when the frame is used, and
the two loops of `pmm.c` that set or clear the bits of an address range.

* `pmmSetBit`, `pmmClearBit`, `pmmTestBit` — one bit, as the source indexes it.
* `pmmTestBit_setBit`, `pmmTestBit_clearBit` — what reads back; everything later
  is stated through `pmmTestBit`, never through the words.
* `pmmMarkRangeUsed`, `pmmMarkRangeFree` — the loops, rounding their bounds with
  the wrapping arithmetic of the source.
* `pmmTestBit_markRangeUsed`, `pmmTestBit_markRangeFree` — which bits they leave
  set: those of the frames between the rounded bounds change, and no others.
-/

namespace Frewozet

open Word

def PMM_PAGE_SIZE : U32 := 4096

theorem isPow2_pageSize : IsPow2 PMM_PAGE_SIZE := isPow2_of_eq (k := 12) (by decide) (by decide)

/-- `align_up_u32` of `pmm.c`. -/
def pmmAlignUpU32 (addr alignment : U32) : U32 :=
  let mask := alignment - 1
  (addr + mask) &&& ~~~mask

/-- `align_down_u32`. -/
def pmmAlignDownU32 (addr alignment : U32) : U32 :=
  let mask := alignment - 1
  addr &&& ~~~mask

theorem pmmAlignDown_toNat (v : U32) :
    (pmmAlignDownU32 v PMM_PAGE_SIZE).toNat = v.toNat / 4096 * 4096 :=
  alignDown_toNat isPow2_pageSize v

/-- Rounding up to a page, wrapped sum and all: addresses in the last page come
out as 0. -/
theorem pmmAlignUp_toNat (v : U32) :
    (pmmAlignUpU32 v PMM_PAGE_SIZE).toNat =
      if v.toNat ≤ 0xFFFFF000 then (v.toNat + 4095) / 4096 * 4096 else 0 := by
  have hpage : PMM_PAGE_SIZE.toNat = 4096 := rfl
  have hv := v.isLt
  split
  · exact alignUp_toNat isPow2_pageSize (by omega)
  · rw [show pmmAlignUpU32 v PMM_PAGE_SIZE = 0 from alignUp_wraps isPow2_pageSize (by omega)]
    rfl

/-! ## One bit -/

/-- `pmm_set_bit`. -/
def pmmSetBit (words : List U32) (page : Nat) : List U32 :=
  words.modify (page / 32) (· ||| (1#32 <<< (page % 32)))

/-- `pmm_clear_bit`. -/
def pmmClearBit (words : List U32) (page : Nat) : List U32 :=
  words.modify (page / 32) (· &&& ~~~(1#32 <<< (page % 32)))

/-- `pmm_test_bit`. -/
def pmmTestBit (words : List U32) (page : Nat) : Bool :=
  (words.getD (page / 32) 0 >>> (page % 32)) &&& 1#32 != 0

@[simp] theorem length_pmmSetBit (words : List U32) (page : Nat) :
    (pmmSetBit words page).length = words.length := List.length_modify ..

@[simp] theorem length_pmmClearBit (words : List U32) (page : Nat) :
    (pmmClearBit words page).length = words.length := List.length_modify ..

theorem pmmTestBit_eq (words : List U32) (page : Nat) :
    pmmTestBit words page = (words.getD (page / 32) 0).getLsbD (page % 32) :=
  shiftRight_and_one _ _

theorem pmmTestBit_setBit {words : List U32} {page : Nat} (h : page / 32 < words.length)
    (q : Nat) : pmmTestBit (pmmSetBit words page) q ↔ q = page ∨ pmmTestBit words q := by
  have hbit : page % 32 < 32 := Nat.mod_lt _ (by decide)
  rw [pmmTestBit_eq, pmmTestBit_eq, pmmSetBit, List.getD_eq_getElem?_getD,
    List.getD_eq_getElem?_getD, List.getElem?_modify]
  by_cases hw : page / 32 = q / 32
  · rw [hw] at h
    simp only [hw, if_true, List.getElem?_eq_getElem h, Option.map_eq_map, Option.map_some,
      Option.getD_some, getLsbD_set _ _ _ hbit]
    have hq : q % 32 = page % 32 ↔ q = page := by omega
    simp [hq]
  · have hq : q ≠ page := by rintro rfl; exact hw rfl
    simp [hw, hq]

theorem pmmTestBit_clearBit (words : List U32) (page q : Nat) :
    pmmTestBit (pmmClearBit words page) q ↔ q ≠ page ∧ pmmTestBit words q := by
  have hbit : page % 32 < 32 := Nat.mod_lt _ (by decide)
  rw [pmmTestBit_eq, pmmTestBit_eq, pmmClearBit, List.getD_eq_getElem?_getD,
    List.getD_eq_getElem?_getD, List.getElem?_modify]
  by_cases hw : page / 32 = q / 32
  · cases hg : words[q / 32]? with
    | none => simp
    | some w =>
      simp only [hw, if_true, Option.map_eq_map, Option.map_some, Option.getD_some,
        getLsbD_clear _ _ _ hbit]
      have hq : q % 32 = page % 32 ↔ q = page := by omega
      simp [hq]
  · have hq : q ≠ page := by rintro rfl; exact hw rfl
    simp [hw, hq]

/-- Two bitmaps of one length with the same bits are equal. -/
theorem words_ext {v w : List U32} (hlen : v.length = w.length)
    (h : ∀ q, q / 32 < v.length → pmmTestBit v q = pmmTestBit w q) : v = w := by
  refine List.ext_getElem hlen ?_
  intro i hi hi'
  apply BitVec.eq_of_getLsbD_eq
  intro j hj
  have hq := h (i * 32 + j) (by omega)
  rw [pmmTestBit_eq, pmmTestBit_eq, show (i * 32 + j) / 32 = i by omega,
    show (i * 32 + j) % 32 = j by omega] at hq
  simpa [List.getD_eq_getElem?_getD, List.getElem?_eq_getElem hi, List.getElem?_eq_getElem hi']
    using hq

theorem pmmTestBit_replicate (n q : Nat) :
    pmmTestBit (List.replicate n 0xFFFFFFFF#32) q = decide (q / 32 < n) := by
  have hbit : q % 32 < 32 := Nat.mod_lt _ (by decide)
  rw [pmmTestBit_eq, List.getD_eq_getElem?_getD, List.getElem?_replicate]
  split
  · rename_i h
    have hall : ∀ b < 32, (0xFFFFFFFF#32).getLsbD b = true := by decide
    simp [h, hall _ hbit]
  · rename_i h
    simp [h]

/-! ## A range of addresses -/

/-- The values `addr` takes in `for (addr = start; addr < end; addr += PMM_PAGE_SIZE)`.
Both bounds are page aligned, so `addr` never steps over `end`. -/
def pageAddrs (start stop : U32) : List U32 :=
  (List.range ((stop.toNat - start.toNat + 4095) / 4096)).map
    fun i => start + BitVec.ofNat 32 (i * 4096)

/-- The body of the loop of `pmm_mark_range_used`. -/
def markUsedBody (totalPages : U32) (words : List U32) (addr : U32) : List U32 :=
  let page := (addr / PMM_PAGE_SIZE).toNat
  if page < totalPages.toNat ∧ ¬ pmmTestBit words page then pmmSetBit words page else words

/-- `pmm_mark_range_used`. -/
def pmmMarkRangeUsed (totalPages : U32) (words : List U32) (startAddr endAddr : U32) : List U32 :=
  let start := pmmAlignDownU32 startAddr PMM_PAGE_SIZE
  let stop := pmmAlignUpU32 endAddr PMM_PAGE_SIZE
  (pageAddrs start stop).foldl (markUsedBody totalPages) words

/-- The body of the loop of `pmm_mark_range_free`. -/
def markFreeBody (totalPages : U32) (words : List U32) (addr : U32) : List U32 :=
  let page := (addr / PMM_PAGE_SIZE).toNat
  if page < totalPages.toNat ∧ pmmTestBit words page then pmmClearBit words page else words

/-- `pmm_mark_range_free`. -/
def pmmMarkRangeFree (totalPages : U32) (words : List U32) (startAddr endAddr : U32) : List U32 :=
  let start := pmmAlignUpU32 startAddr PMM_PAGE_SIZE
  let stop := pmmAlignDownU32 endAddr PMM_PAGE_SIZE
  if stop ≤ start then words
  else (pageAddrs start stop).foldl (markFreeBody totalPages) words

/-- The pages the loop visits are those between its bounds. -/
theorem exists_pageAddrs_iff {start stop : U32} (hs : start.toNat % 4096 = 0)
    (he : stop.toNat % 4096 = 0) (q : Nat) :
    (∃ a ∈ pageAddrs start stop, (a / PMM_PAGE_SIZE).toNat = q) ↔
      start.toNat / 4096 ≤ q ∧ q < stop.toNat / 4096 := by
  have hpage : PMM_PAGE_SIZE.toNat = 4096 := rfl
  have hstart := start.isLt
  have hstop := stop.isLt
  have haddr : ∀ i, i < (stop.toNat - start.toNat + 4095) / 4096 →
      ((start + BitVec.ofNat 32 (i * 4096)) / PMM_PAGE_SIZE).toNat = start.toNat / 4096 + i := by
    intro i hi
    rw [BitVec.toNat_udiv, hpage, BitVec.toNat_add, BitVec.toNat_ofNat]
    omega
  simp only [pageAddrs, List.mem_map, List.mem_range, exists_exists_and_eq_and]
  constructor
  · rintro ⟨i, hi, hq⟩
    rw [haddr i hi] at hq
    omega
  · rintro ⟨h1, h2⟩
    refine ⟨q - start.toNat / 4096, by omega, ?_⟩
    rw [haddr _ (by omega)]
    omega

/-- A loop whose body makes `R` true when `C` holds of the element, and leaves
it alone otherwise, makes it true when `C` holds of some element. -/
theorem foldl_accumulates {α β : Type} {f : β → α → β} {I R : β → Prop} {C : α → Prop}
    (hI : ∀ w a, I w → I (f w a)) (hR : ∀ w a, I w → (R (f w a) ↔ C a ∨ R w)) :
    ∀ (as : List α) (w : β), I w →
      I (as.foldl f w) ∧ (R (as.foldl f w) ↔ (∃ a ∈ as, C a) ∨ R w) := by
  intro as
  induction as with
  | nil => intro w hw; simp [hw]
  | cons a as ih =>
    intro w hw
    obtain ⟨h1, h2⟩ := ih (f w a) (hI w a hw)
    refine ⟨h1, ?_⟩
    rw [List.foldl_cons, h2, hR w a hw]
    constructor
    · rintro (⟨b, hb, hC⟩ | hC | h)
      · exact .inl ⟨b, List.mem_cons_of_mem _ hb, hC⟩
      · exact .inl ⟨a, List.mem_cons_self, hC⟩
      · exact .inr h
    · rintro (⟨b, hb, hC⟩ | h)
      · rcases List.mem_cons.1 hb with rfl | hb
        · exact .inr (.inl hC)
        · exact .inl ⟨b, hb, hC⟩
      · exact .inr (.inr h)

@[simp] theorem length_markUsedBody (total : U32) (words : List U32) (a : U32) :
    (markUsedBody total words a).length = words.length := by
  unfold markUsedBody
  dsimp only
  split <;> simp

@[simp] theorem length_markFreeBody (total : U32) (words : List U32) (a : U32) :
    (markFreeBody total words a).length = words.length := by
  unfold markFreeBody
  dsimp only
  split <;> simp

theorem pmmTestBit_markUsedBody {total : U32} {words : List U32}
    (hlen : total.toNat ≤ 32 * words.length) (a : U32) (q : Nat) :
    pmmTestBit (markUsedBody total words a) q ↔
      (q < total.toNat ∧ (a / PMM_PAGE_SIZE).toNat = q) ∨ pmmTestBit words q := by
  unfold markUsedBody
  generalize (a / PMM_PAGE_SIZE).toNat = page
  dsimp only
  split
  · rename_i h
    rw [pmmTestBit_setBit (by omega)]
    constructor
    · rintro (rfl | hq)
      · exact .inl ⟨h.1, rfl⟩
      · exact .inr hq
    · rintro (⟨-, rfl⟩ | hq)
      · exact .inl rfl
      · exact .inr hq
  · rename_i h
    refine ⟨.inr, ?_⟩
    rintro (⟨hlt, rfl⟩ | hq)
    · by_contra hc
      exact h ⟨hlt, hc⟩
    · exact hq

theorem pmmTestBit_markFreeBody (total : U32) (words : List U32) (a : U32) (q : Nat) :
    ¬ pmmTestBit (markFreeBody total words a) q ↔
      (q < total.toNat ∧ (a / PMM_PAGE_SIZE).toNat = q) ∨ ¬ pmmTestBit words q := by
  unfold markFreeBody
  generalize (a / PMM_PAGE_SIZE).toNat = page
  dsimp only
  split
  · rename_i h
    rw [pmmTestBit_clearBit, not_and_or, not_not]
    constructor
    · rintro (rfl | hq)
      · exact .inl ⟨h.1, rfl⟩
      · exact .inr hq
    · rintro (⟨-, rfl⟩ | hq)
      · exact .inl rfl
      · exact .inr hq
  · rename_i h
    refine ⟨.inr, ?_⟩
    rintro (⟨hlt, rfl⟩ | hq)
    · exact fun hc => h ⟨hlt, hc⟩
    · exact hq

theorem pmmAlignDown_mod (v : U32) : (pmmAlignDownU32 v PMM_PAGE_SIZE).toNat % 4096 = 0 := by
  rw [pmmAlignDown_toNat]
  exact Nat.mul_mod_left _ _

theorem pmmAlignUp_mod (v : U32) : (pmmAlignUpU32 v PMM_PAGE_SIZE).toNat % 4096 = 0 :=
  alignUp_mod isPow2_pageSize v

/-- The frames `pmm_mark_range_used` marks: every frame the range touches, with
the end rounded up in wrapping arithmetic. -/
def UsedFrames (startAddr endAddr : U32) (f : Nat) : Prop :=
  startAddr.toNat / 4096 ≤ f ∧ f < (pmmAlignUpU32 endAddr PMM_PAGE_SIZE).toNat / 4096

/-- The frames `pmm_mark_range_free` frees: those wholly inside the range, with
the start rounded up in wrapping arithmetic. -/
def FreeFrames (startAddr endAddr : U32) (f : Nat) : Prop :=
  (pmmAlignUpU32 startAddr PMM_PAGE_SIZE).toNat / 4096 ≤ f ∧ f < endAddr.toNat / 4096

instance (s e : U32) (f : Nat) : Decidable (UsedFrames s e f) := inferInstanceAs (Decidable (_ ∧ _))

instance (s e : U32) (f : Nat) : Decidable (FreeFrames s e f) := inferInstanceAs (Decidable (_ ∧ _))

/-- **Marking a range used sets its bits and no others.** -/
theorem pmmTestBit_markRangeUsed {total : U32} {words : List U32}
    (hlen : total.toNat ≤ 32 * words.length) (s e : U32) (q : Nat) :
    pmmTestBit (pmmMarkRangeUsed total words s e) q ↔
      (q < total.toNat ∧ UsedFrames s e q) ∨ pmmTestBit words q := by
  have hstart : (pmmAlignDownU32 s PMM_PAGE_SIZE).toNat / 4096 = s.toNat / 4096 := by
    rw [pmmAlignDown_toNat]
    omega
  have hpages := exists_pageAddrs_iff (pmmAlignDown_mod s) (pmmAlignUp_mod e) q
  rw [hstart] at hpages
  have h := (foldl_accumulates (I := fun w => total.toNat ≤ 32 * w.length)
    (R := fun w => pmmTestBit w q) (f := markUsedBody total)
    (fun w a hw => by simpa using hw) (fun w a hw => pmmTestBit_markUsedBody hw a q)
    (pageAddrs (pmmAlignDownU32 s PMM_PAGE_SIZE) (pmmAlignUpU32 e PMM_PAGE_SIZE)) words hlen).2
  rw [pmmMarkRangeUsed, h, UsedFrames, ← hpages]
  simp only [and_left_comm, exists_and_left]

/-- **Marking a range free clears its bits and no others.** -/
theorem pmmTestBit_markRangeFree (total : U32) (words : List U32) (s e : U32) (q : Nat) :
    ¬ pmmTestBit (pmmMarkRangeFree total words s e) q ↔
      (q < total.toNat ∧ FreeFrames s e q) ∨ ¬ pmmTestBit words q := by
  have hstop : (pmmAlignDownU32 e PMM_PAGE_SIZE).toNat / 4096 = e.toNat / 4096 := by
    rw [pmmAlignDown_toNat]
    omega
  have hpages := exists_pageAddrs_iff (pmmAlignUp_mod s) (pmmAlignDown_mod e) q
  rw [hstop] at hpages
  unfold pmmMarkRangeFree
  dsimp only
  split
  · rename_i h
    rw [BitVec.le_def, pmmAlignDown_toNat] at h
    refine ⟨.inr, ?_⟩
    rintro (⟨-, h1, h2⟩ | hb)
    · have := pmmAlignUp_mod s
      omega
    · exact hb
  · have h := (foldl_accumulates (I := fun _ => True)
      (R := fun w => ¬ pmmTestBit w q) (f := markFreeBody total)
      (fun _ _ _ => trivial) (fun w a _ => pmmTestBit_markFreeBody total w a q)
      (pageAddrs (pmmAlignUpU32 s PMM_PAGE_SIZE) (pmmAlignDownU32 e PMM_PAGE_SIZE)) words trivial).2
    rw [h, FreeFrames, ← hpages]
    simp only [and_left_comm, exists_and_left]

@[simp] theorem length_pmmMarkRangeUsed (total : U32) (words : List U32) (s e : U32) :
    (pmmMarkRangeUsed total words s e).length = words.length :=
  (foldl_accumulates (I := fun w => w.length = words.length) (R := fun _ => False)
    (C := fun _ => False) (f := markUsedBody total) (fun _ _ hw => by simpa using hw)
    (fun _ _ _ => by simp) _ words rfl).1

@[simp] theorem length_pmmMarkRangeFree (total : U32) (words : List U32) (s e : U32) :
    (pmmMarkRangeFree total words s e).length = words.length := by
  unfold pmmMarkRangeFree
  dsimp only
  split
  · rfl
  · exact (foldl_accumulates (I := fun w => w.length = words.length) (R := fun _ => False)
      (C := fun _ => False) (f := markFreeBody total) (fun _ _ hw => by simpa using hw)
      (fun _ _ _ => by simp) _ words rfl).1

end Frewozet
