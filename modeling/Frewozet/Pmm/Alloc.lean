import Frewozet.Base.FirstFit
import Frewozet.Pmm.Init
import Mathlib.Data.Finset.Card
import Mathlib.Data.Finset.Range
import Mathlib.Data.Set.Basic
import Mathlib.Order.Bounds.Basic

/-!
# `pmm.c`, third part: handing frames out and taking them back

* `pmmAllocContiguous`, `pmmAllocPage`, `pmmAllocPageBelow`, `pmmFreeContiguous`,
  `pmmFreePage` — the code.
* `Pmm.Free` — a frame the allocator would hand out.
* `Pmm.takeRun`, `Pmm.giveRun` — the only two things these functions do to the
  bitmap, and which frames are free afterwards.
* `pmmAllocContiguous_spec`, `pmmAllocPage_spec`, `pmmAllocPageBelow_spec`,
  `pmmFreeContiguous_spec` — one specification for each function; later modules
  use nothing else.
* `FirstFits`, `pmm_firstFit_exact` — **first fit, exactly**: when the two searches
  succeed, what they return and which bits they set.
* `Pmm.freeBelow` — how many frames are free below a given one.
* `SameTable` — what every call keeps of the statics.
* `framesOf` — the frames of a granted range.
-/

namespace Frewozet

open Word

/-- The frame is known to the allocator and its bit is clear. -/
def Pmm.Free (p : Pmm) (f : Nat) : Prop :=
  p.pmmBitmap ≠ 0 ∧ f < p.pmmTotalPages.toNat ∧ ¬ pmmTestBit p.words f

instance (p : Pmm) (f : Nat) : Decidable (p.Free f) := inferInstanceAs (Decidable (_ ∧ _ ∧ _))

/-! ## The code -/

/-- `for (i = 0; i < page_count; i++) pmm_set_bit(run_start + i);` -/
def pmmSetRun (words : List U32) (page : Nat) : Nat → List U32
  | 0 => words
  | n + 1 => pmmSetRun (pmmSetBit words page) (page + 1) n

/-- `pmm_alloc_contiguous`: the address of the run, 0 when there is none. -/
def pmmAllocContiguous (pageCount : U32) (p : Pmm) : U32 × Pmm :=
  if p.pmmBitmap = 0 ∨ pageCount = 0 then (0, p)
  else
    match FirstFit.runScan (fun page => !pmmTestBit p.words page) pageCount.toNat
      p.pmmTotalPages.toNat 0 0 0 with
    | some runStart =>
      (BitVec.ofNat 32 runStart * PMM_PAGE_SIZE,
        { p with words := pmmSetRun p.words runStart pageCount.toNat })
    | none => (0, p)

/-- `pmm_alloc_page`. -/
def pmmAllocPage (p : Pmm) : U32 × Pmm := pmmAllocContiguous 1 p

/-- `pmm_alloc_page_below`. -/
def pmmAllocPageBelow (limit : U32) (p : Pmm) : U32 × Pmm :=
  if p.pmmBitmap = 0 then (0, p)
  else
    let maxPage := limit / PMM_PAGE_SIZE
    let maxPage := if maxPage > p.pmmTotalPages then p.pmmTotalPages else maxPage
    match (List.range maxPage.toNat).find? fun page => !pmmTestBit p.words page with
    | some page =>
      (BitVec.ofNat 32 page * PMM_PAGE_SIZE, { p with words := pmmSetBit p.words page })
    | none => (0, p)

/-- The loop of `pmm_free_contiguous`, which breaks off at the last frame. -/
def pmmFreeRun (totalPages : Nat) (words : List U32) (page : Nat) : Nat → List U32
  | 0 => words
  | n + 1 =>
    if page ≥ totalPages then words
    else
      pmmFreeRun totalPages (if pmmTestBit words page then pmmClearBit words page else words)
        (page + 1) n

/-- `pmm_free_contiguous`. -/
def pmmFreeContiguous (startPage pageCount : U32) (p : Pmm) : Pmm :=
  if p.pmmBitmap = 0 ∨ startPage = 0 ∨ pageCount = 0 then p
  else if startPage % PMM_PAGE_SIZE ≠ 0 then p
  else
    let startIndex := startPage / PMM_PAGE_SIZE
    if startIndex ≥ p.pmmTotalPages then p
    else
      { p with
        words := pmmFreeRun p.pmmTotalPages.toNat p.words startIndex.toNat pageCount.toNat }

/-- `pmm_free_page`. -/
def pmmFreePage (page : U32) (p : Pmm) : Pmm := pmmFreeContiguous page 1 p

/-! ## Frames and their addresses -/

/-- The address of a frame. -/
def frameAddr (f : Nat) : U32 := BitVec.ofNat 32 f * PMM_PAGE_SIZE

theorem frameAddr_toNat {f : Nat} (h : f < 0x100000) : (frameAddr f).toNat = f * 4096 := by
  rw [frameAddr, BitVec.toNat_mul, BitVec.toNat_ofNat, show PMM_PAGE_SIZE.toNat = 4096 from rfl]
  omega

theorem frameAddr_ne_zero {f : Nat} (h : f < 0x100000) (hf : 0 < f) : frameAddr f ≠ 0 := by
  intro hc
  have := frameAddr_toNat h
  rw [hc, show (0 : U32).toNat = 0 from rfl] at this
  omega

/-! ## The two loops -/

@[simp] theorem length_pmmSetRun : ∀ (n : Nat) (words : List U32) (page : Nat),
    (pmmSetRun words page n).length = words.length := by
  intro n
  induction n with
  | zero => intro words page; rfl
  | succ n ih => intro words page; rw [pmmSetRun, ih, length_pmmSetBit]

theorem pmmTestBit_setRun : ∀ (n : Nat) {words : List U32} {page : Nat},
    page + n ≤ 32 * words.length → ∀ q,
      pmmTestBit (pmmSetRun words page n) q ↔ (page ≤ q ∧ q < page + n) ∨ pmmTestBit words q := by
  intro n
  induction n with
  | zero =>
    intro words page _ q
    rw [pmmSetRun]
    exact ⟨.inr, fun h => h.resolve_left (by omega)⟩
  | succ n ih =>
    intro words page h q
    rw [pmmSetRun, ih (by rw [length_pmmSetBit]; omega), pmmTestBit_setBit (by omega), ← or_assoc]
    refine or_congr_left ?_
    omega

@[simp] theorem length_pmmFreeRun (total : Nat) : ∀ (n : Nat) (words : List U32) (page : Nat),
    (pmmFreeRun total words page n).length = words.length := by
  intro n
  induction n with
  | zero => intro words page; rfl
  | succ n ih =>
    intro words page
    rw [pmmFreeRun]
    split
    · rfl
    · rw [ih]
      split
      · exact length_pmmClearBit words page
      · rfl

theorem pmmTestBit_freeRun (total : Nat) : ∀ (n : Nat) (words : List U32) (page q : Nat),
    pmmTestBit (pmmFreeRun total words page n) q ↔
      ¬ (page ≤ q ∧ q < page + n ∧ q < total) ∧ pmmTestBit words q := by
  intro n
  induction n with
  | zero =>
    intro words page q
    rw [pmmFreeRun]
    exact ⟨fun h => ⟨by omega, h⟩, fun h => h.2⟩
  | succ n ih =>
    intro words page q
    rw [pmmFreeRun]
    split
    · exact ⟨fun h => ⟨by omega, h⟩, fun h => h.2⟩
    · have hone : pmmTestBit (if pmmTestBit words page then pmmClearBit words page else words) q ↔
          q ≠ page ∧ pmmTestBit words q := by
        split
        · exact pmmTestBit_clearBit words page q
        · rename_i hclear
          refine ⟨fun h => ⟨?_, h⟩, fun h => h.2⟩
          rintro rfl
          exact hclear h
      rw [ih, hone, ← and_assoc]
      refine and_congr_left fun _ => ?_
      omega

/-! ## What they do to the free frames -/

/-- The books are in order: the bitmap has a bit for every frame, there are at
most 4 GiB of them, and frame 0 is not up for grabs. -/
structure Pmm.Wf (p : Pmm) : Prop where
  total : p.pmmTotalPages.toNat ≤ 0x100000
  length : p.pmmBitmap ≠ 0 → p.pmmTotalPages.toNat ≤ 32 * p.words.length
  zero : ¬ p.Free 0

/-- The `n` frames from `s` on are handed out. -/
def Pmm.takeRun (p : Pmm) (s n : Nat) : Pmm := { p with words := pmmSetRun p.words s n }

/-- The `n` frames from `s` on come back. -/
def Pmm.giveRun (p : Pmm) (s n : Nat) : Pmm :=
  { p with words := pmmFreeRun p.pmmTotalPages.toNat p.words s n }

@[simp] theorem Pmm.takeRun_bitmap (p : Pmm) (s n : Nat) :
    (p.takeRun s n).pmmBitmap = p.pmmBitmap := rfl

@[simp] theorem Pmm.takeRun_total (p : Pmm) (s n : Nat) :
    (p.takeRun s n).pmmTotalPages = p.pmmTotalPages := rfl

@[simp] theorem Pmm.length_takeRun (p : Pmm) (s n : Nat) :
    (p.takeRun s n).words.length = p.words.length := length_pmmSetRun ..

@[simp] theorem Pmm.giveRun_bitmap (p : Pmm) (s n : Nat) :
    (p.giveRun s n).pmmBitmap = p.pmmBitmap := rfl

@[simp] theorem Pmm.giveRun_total (p : Pmm) (s n : Nat) :
    (p.giveRun s n).pmmTotalPages = p.pmmTotalPages := rfl

@[simp] theorem Pmm.length_giveRun (p : Pmm) (s n : Nat) :
    (p.giveRun s n).words.length = p.words.length := length_pmmFreeRun ..

theorem Pmm.Free.lt {p : Pmm} {f : Nat} (h : p.Free f) : f < p.pmmTotalPages.toNat := h.2.1

theorem Pmm.Wf.pos {p : Pmm} (h : p.Wf) {f : Nat} (hf : p.Free f) : 0 < f :=
  Nat.pos_of_ne_zero fun h0 => h.zero (h0 ▸ hf)

theorem Pmm.Wf.lt {p : Pmm} (h : p.Wf) {f : Nat} (hf : p.Free f) : f < 0x100000 :=
  lt_of_lt_of_le hf.lt h.total

theorem Pmm.free_takeRun {p : Pmm} (h : p.Wf) {s n : Nat} (hs : s + n ≤ p.pmmTotalPages.toNat)
    (f : Nat) : (p.takeRun s n).Free f ↔ p.Free f ∧ ¬ (s ≤ f ∧ f < s + n) := by
  unfold Pmm.Free
  rw [takeRun_bitmap, takeRun_total]
  by_cases hb : p.pmmBitmap = 0
  · simp [hb]
  · have hlen := h.length hb
    rw [takeRun, pmmTestBit_setRun n (by omega)]
    tauto

theorem Pmm.free_giveRun (p : Pmm) (s n f : Nat) : (p.giveRun s n).Free f ↔
    p.Free f ∨ (p.pmmBitmap ≠ 0 ∧ f < p.pmmTotalPages.toNat ∧ s ≤ f ∧ f < s + n) := by
  unfold Pmm.Free
  rw [giveRun_bitmap, giveRun_total, giveRun, pmmTestBit_freeRun]
  tauto

theorem Pmm.Wf.takeRun {p : Pmm} (h : p.Wf) {s n : Nat} (hs : s + n ≤ p.pmmTotalPages.toNat) :
    (p.takeRun s n).Wf :=
  ⟨h.total, fun hb => by rw [length_takeRun]; exact h.length hb,
    fun h0 => h.zero ((free_takeRun h hs 0).1 h0).1⟩

theorem Pmm.Wf.giveRun {p : Pmm} (h : p.Wf) {s n : Nat} (hs : 0 < s) : (p.giveRun s n).Wf := by
  refine ⟨h.total, fun hb => by rw [length_giveRun]; exact h.length hb, fun h0 => ?_⟩
  rcases (free_giveRun p s n 0).1 h0 with h0 | ⟨-, -, h1, -⟩
  · exact h.zero h0
  · omega

/-- Giving back what was taken restores the books. -/
theorem Pmm.giveRun_takeRun {p : Pmm} (h : p.Wf) {s n : Nat} (hs : s + n ≤ p.pmmTotalPages.toNat)
    (hfree : ∀ f, s ≤ f → f < s + n → p.Free f) : (p.takeRun s n).giveRun s n = p := by
  by_cases hn : n = 0
  · subst hn
    rfl
  have hb : p.pmmBitmap ≠ 0 := (hfree s (le_refl s) (by omega)).1
  have hlen := h.length hb
  have hwords : ((p.takeRun s n).giveRun s n).words = p.words := by
    refine words_ext (by simp) fun q _ => ?_
    rw [Bool.eq_iff_iff]
    change pmmTestBit (pmmFreeRun _ (pmmSetRun p.words s n) s n) q ↔ _
    rw [pmmTestBit_freeRun, pmmTestBit_setRun n (by omega), takeRun_total]
    constructor
    · rintro ⟨h1, h2 | h2⟩
      · exact absurd ⟨h2.1, h2.2, by omega⟩ h1
      · exact h2
    · intro hq
      exact ⟨fun hin => (hfree q hin.1 hin.2.1).2.2 hq, .inr hq⟩
  cases p
  simp only [Pmm.takeRun, Pmm.giveRun, Pmm.mk.injEq, true_and, and_true] at hwords ⊢
  exact hwords

/-! ## One specification for each function -/

/-- A run the scan may take is a run of free frames. -/
theorem isRun_iff_free {p : Pmm} (hb : p.pmmBitmap ≠ 0) {s n : Nat}
    (hs : s + n ≤ p.pmmTotalPages.toNat) :
    FirstFit.IsRun (fun page => !pmmTestBit p.words page) n s ↔
      ∀ f, s ≤ f → f < s + n → p.Free f := by
  constructor
  · intro h f h1 h2
    exact ⟨hb, by omega, by simpa using h f h1 h2⟩
  · intro h f h1 h2
    simpa using (h f h1 h2).2.2

/-- The scan has found no run. -/
theorem pmmAllocContiguous_none {p : Pmm} {n : U32} (h : ¬ (p.pmmBitmap = 0 ∨ n = 0))
    (hscan : FirstFit.runScan (fun page => !pmmTestBit p.words page) n.toNat
      p.pmmTotalPages.toNat 0 0 0 = none) : pmmAllocContiguous n p = (0, p) := by
  unfold pmmAllocContiguous
  rw [if_neg h, hscan]

/-- The scan has found the run from `s` on. -/
theorem pmmAllocContiguous_some {p : Pmm} {n : U32} {s : Nat} (h : ¬ (p.pmmBitmap = 0 ∨ n = 0))
    (hscan : FirstFit.runScan (fun page => !pmmTestBit p.words page) n.toNat
      p.pmmTotalPages.toNat 0 0 0 = some s) :
    pmmAllocContiguous n p = (frameAddr s, p.takeRun s n.toNat) := by
  unfold pmmAllocContiguous
  rw [if_neg h, hscan]
  rfl

/-- **`pmm_alloc_contiguous`.**  It fails and changes nothing when no run of free
frames is long enough; otherwise it takes the first that is. -/
theorem pmmAllocContiguous_spec {p : Pmm} (n : U32) :
    (pmmAllocContiguous n p = (0, p) ∧ (n ≠ 0 → ∀ s, ¬ ∀ f, s ≤ f → f < s + n.toNat → p.Free f)) ∨
    ∃ s, pmmAllocContiguous n p = (frameAddr s, p.takeRun s n.toNat) ∧ 0 < n.toNat ∧
      s + n.toNat ≤ p.pmmTotalPages.toNat ∧ (∀ f, s ≤ f → f < s + n.toNat → p.Free f) ∧
      ∀ t < s, ¬ ∀ f, t ≤ f → f < t + n.toNat → p.Free f := by
  by_cases hz : n = 0
  · exact .inl ⟨if_pos (.inr hz), fun hn => absurd hz hn⟩
  have hpos : 0 < n.toNat :=
    Nat.pos_of_ne_zero fun h0 => hz (BitVec.eq_of_toNat_eq (by simpa using h0))
  by_cases hb : p.pmmBitmap = 0
  · exact .inl ⟨if_pos (.inl hb), fun _ s hs => (hs s (le_refl s) (by omega)).1 hb⟩
  have hready : ¬ (p.pmmBitmap = 0 ∨ n = 0) := not_or.2 ⟨hb, hz⟩
  -- a run of free frames ends inside the table
  have hin : ∀ s, (∀ f, s ≤ f → f < s + n.toNat → p.Free f) →
      s + n.toNat ≤ p.pmmTotalPages.toNat := fun s hs => by
    have := (hs (s + n.toNat - 1) (by omega) (by omega)).lt
    omega
  cases hr : FirstFit.runScan (fun page => !pmmTestBit p.words page) n.toNat
      p.pmmTotalPages.toNat 0 0 0 with
  | none =>
    refine .inl ⟨pmmAllocContiguous_none hready hr, fun _ s hs => ?_⟩
    exact FirstFit.runScan_none hpos hr s (hin s hs) ((isRun_iff_free hb (hin s hs)).2 hs)
  | some s =>
    obtain ⟨hrun, hend, hfirst⟩ := FirstFit.runScan_some hpos hr
    refine .inr ⟨s, pmmAllocContiguous_some hready hr, hpos, hend,
      (isRun_iff_free hb hend).1 hrun, fun t ht hft => ?_⟩
    exact hfirst t ht ((isRun_iff_free hb (hin t hft)).2 hft)

/-- **`pmm_alloc_page`** takes the lowest free frame. -/
theorem pmmAllocPage_spec {p : Pmm} :
    (pmmAllocPage p = (0, p) ∧ ∀ f, ¬ p.Free f) ∨
    ∃ s, pmmAllocPage p = (frameAddr s, p.takeRun s 1) ∧ p.Free s ∧ ∀ t < s, ¬ p.Free t := by
  have hrun : ∀ t, (∀ f, t ≤ f → f < t + 1 → p.Free f) ↔ p.Free t := fun t =>
    ⟨fun ht => ht t (le_refl t) (Nat.lt_succ_self t), fun ht f h1 h2 => by
      rwa [show f = t by omega]⟩
  have hone : (1 : U32).toNat = 1 := rfl
  rcases pmmAllocContiguous_spec (p := p) 1 with ⟨h1, h2⟩ | ⟨s, h1, -, -, h3, h4⟩
  · exact .inl ⟨h1, fun f hf => h2 (by decide) f (by rw [hone]; exact (hrun f).2 hf)⟩
  · rw [hone] at h1 h3 h4
    exact .inr ⟨s, h1, (hrun s).1 h3, fun t ht hft => h4 t ht ((hrun t).2 hft)⟩

/-- **`pmm_alloc_page_below`** takes the lowest free frame if that lies below the
limit. -/
theorem pmmAllocPageBelow_spec {p : Pmm} (limit : U32) :
    (pmmAllocPageBelow limit p = (0, p) ∧ ∀ f < limit.toNat / 4096, ¬ p.Free f) ∨
    ∃ s, pmmAllocPageBelow limit p = (frameAddr s, p.takeRun s 1) ∧ p.Free s ∧
      s < limit.toNat / 4096 ∧ ∀ t < s, ¬ p.Free t := by
  unfold pmmAllocPageBelow
  by_cases hb : p.pmmBitmap = 0
  · rw [if_pos hb]
    exact .inl ⟨rfl, fun f _ hf => hf.1 hb⟩
  rw [if_neg hb]
  dsimp only
  generalize hm : (if limit / PMM_PAGE_SIZE > p.pmmTotalPages then p.pmmTotalPages
    else limit / PMM_PAGE_SIZE) = maxPage
  have hmax : maxPage.toNat = min (limit.toNat / 4096) p.pmmTotalPages.toNat := by
    have hdiv : (limit / PMM_PAGE_SIZE).toNat = limit.toNat / 4096 := BitVec.toNat_udiv
    rw [← hm]
    split <;> rename_i hgt <;> rw [gt_iff_lt, BitVec.lt_def, hdiv] at hgt <;> omega
  cases hr : (List.range maxPage.toNat).find? fun page => !pmmTestBit p.words page with
  | none =>
    refine .inl ⟨rfl, fun f hf hfree => ?_⟩
    have := hfree.lt
    have hbit := List.find?_eq_none.1 hr f (List.mem_range.2 (by omega))
    exact hfree.2.2 (by simpa using hbit)
  | some s =>
    obtain ⟨hbit, hmem, hfirst⟩ := List.find?_range_eq_some.1 hr
    have hlt := List.mem_range.1 hmem
    refine .inr ⟨s, rfl, ⟨hb, by omega, by simpa using hbit⟩, by omega, fun t ht hft => ?_⟩
    exact hft.2.2 (by simpa using hfirst t ht)

/-- **`pmm_free_contiguous`** on a run of frames of the table gives them back. -/
theorem pmmFreeContiguous_spec {p : Pmm} (h : p.Wf) {s : Nat} {n : U32} (hb : p.pmmBitmap ≠ 0)
    (hs : 0 < s) (hn : 0 < n.toNat) (hend : s + n.toNat ≤ p.pmmTotalPages.toNat) :
    pmmFreeContiguous (frameAddr s) n p = p.giveRun s n.toNat := by
  have htotal := h.total
  have haddr := frameAddr_toNat (f := s) (by omega)
  have hpage : PMM_PAGE_SIZE.toNat = 4096 := rfl
  have hne := frameAddr_ne_zero (f := s) (by omega) hs
  have hn0 : n ≠ 0 := fun hc => by rw [hc] at hn; exact absurd hn (by decide)
  have hmod : frameAddr s % PMM_PAGE_SIZE = 0 := by
    apply BitVec.eq_of_toNat_eq
    rw [BitVec.toNat_umod, haddr, hpage]
    simp
  have hdiv : (frameAddr s / PMM_PAGE_SIZE).toNat = s := by
    rw [BitVec.toNat_udiv, haddr, hpage]
    omega
  unfold pmmFreeContiguous
  rw [if_neg (not_or.2 ⟨hb, not_or.2 ⟨hne, hn0⟩⟩), if_neg (not_not.2 hmod)]
  dsimp only
  rw [if_neg (by rw [ge_iff_le, BitVec.le_def, hdiv]; omega), hdiv]
  rfl

theorem pmmFreePage_spec {p : Pmm} (h : p.Wf) {s : Nat} (hb : p.pmmBitmap ≠ 0) (hs : 0 < s)
    (hend : s < p.pmmTotalPages.toNat) : pmmFreePage (frameAddr s) p = p.giveRun s 1 :=
  pmmFreeContiguous_spec h hb hs (by decide) hend

/-- A page that has just been taken and is freed again leaves no trace. -/
theorem pmmFreePage_takeRun {p : Pmm} (h : p.Wf) {s : Nat} (hs : p.Free s) :
    pmmFreePage (frameAddr s) (p.takeRun s 1) = p := by
  rw [pmmFreePage_spec (h.takeRun hs.lt) hs.1 (h.pos hs) hs.lt]
  exact Pmm.giveRun_takeRun h hs.lt fun f h1 h2 => by rwa [show f = s by omega]

/-! ## First fit, exactly -/

/-- A run of `n` free frames starts at `s`. -/
def Pmm.FreeRun (p : Pmm) (n s : Nat) : Prop := ∀ f, s ≤ f → f < s + n → p.Free f

/-- The bits of the frames in `S` have been set, and nothing else has changed. -/
structure SetsBits (p : Pmm) (S : Set Nat) (p' : Pmm) : Prop where
  statics : { p' with words := p.words } = p
  length : p'.words.length = p.words.length
  bit : ∀ f, pmmTestBit p'.words f ↔ f ∈ S ∨ pmmTestBit p.words f

/-- A search for a place among `S` that takes `n` frames: it succeeds if there is one, and
takes the lowest. -/
structure FirstFits (p : Pmm) (S : Set Nat) (n : Nat) (r : U32 × Pmm) : Prop where
  succeeds : r.1 ≠ 0 ↔ S.Nonempty
  lowest : ∀ s, IsLeast S s →
    r.1.toNat = s * 4096 ∧ SetsBits p {f | s ≤ f ∧ f < s + n} r.2
  fails : r.1 = 0 → r.2 = p

theorem FirstFits.none {p : Pmm} {S : Set Nat} {n : Nat} (h : ∀ s, s ∉ S) :
    FirstFits p S n (0, p) where
  succeeds := iff_of_false (fun hc => hc rfl) fun ⟨s, hs⟩ => h s hs
  lowest := fun s hs => absurd hs.1 (h s)
  fails := fun _ => rfl

theorem setsBits_takeRun {p : Pmm} (h : p.Wf) (hb : p.pmmBitmap ≠ 0) {s n : Nat}
    (hs : s + n ≤ p.pmmTotalPages.toNat) : SetsBits p {f | s ≤ f ∧ f < s + n} (p.takeRun s n) := by
  have hlen := h.length hb
  refine ⟨rfl, p.length_takeRun s n, fun f => ?_⟩
  rw [Pmm.takeRun, pmmTestBit_setRun n (by omega)]
  rfl

theorem FirstFits.some {p : Pmm} (h : p.Wf) {S : Set Nat} {s n : Nat} (hs : IsLeast S s)
    (hfree : p.Free s) (hend : s + n ≤ p.pmmTotalPages.toNat) :
    FirstFits p S n (frameAddr s, p.takeRun s n) := by
  have hne := frameAddr_ne_zero (h.lt hfree) (h.pos hfree)
  refine ⟨iff_of_true hne ⟨s, hs.1⟩, fun t ht => ?_, fun hc => absurd hc hne⟩
  rw [ht.unique hs]
  exact ⟨frameAddr_toNat (h.lt hfree), setsBits_takeRun h hfree.1 hend⟩

/-- **First fit is exact.**  `pmm_alloc_contiguous` takes the lowest run of free frames
that is long enough, `pmm_alloc_page_below` the lowest free frame wholly below the limit;
where there is none, they return null and change no bit. -/
theorem pmm_firstFit_exact {p : Pmm} (h : p.Wf) :
    (∀ n : U32, n ≠ 0 →
      FirstFits p {s | p.FreeRun n.toNat s} n.toNat (pmmAllocContiguous n p)) ∧
    ∀ limit : U32,
      FirstFits p {s | p.Free s ∧ (s + 1) * 4096 ≤ limit.toNat} 1 (pmmAllocPageBelow limit p) := by
  constructor
  · intro n hn
    rcases pmmAllocContiguous_spec (p := p) n with ⟨hr, hno⟩ | ⟨s, hr, hpos, hend, hrun, hfirst⟩
    · rw [hr]
      exact .none (hno hn)
    · rw [hr]
      refine .some h ⟨hrun, fun t ht => ?_⟩ (hrun s (le_refl s) (by omega)) hend
      by_contra hlt
      exact hfirst t (by omega) ht
  · intro limit
    rcases pmmAllocPageBelow_spec (p := p) limit with ⟨hr, hno⟩ | ⟨s, hr, hfree, hlt, hfirst⟩
    · rw [hr]
      exact .none fun s hs => hno s (by have := hs.2; omega) hs.1
    · rw [hr]
      refine .some h ⟨⟨hfree, by omega⟩, fun t ht => ?_⟩ hfree hfree.lt
      by_contra hlt
      exact hfirst t (by omega) ht.1

/-- A bitmap of 32 frames, of which 1, 2 and 3 are free. -/
theorem pmm_firstFit_exact_small :
    let p : Pmm := { pmmBitmap := 0xC0200000, words := [0xFFFFFFF1], pmmTotalPages := 32 }
    FirstFits p {s | p.FreeRun 3 s} 3 (pmmAllocContiguous 3 p) :=
  (pmm_firstFit_exact ⟨by decide, fun _ => by decide, by decide⟩).1 3 (by decide)

/-! ## Counting free frames -/

/-- How many of the first `n` frames are free. -/
def Pmm.freeBelow (p : Pmm) (n : Nat) : Nat := ((Finset.range n).filter fun f => p.Free f).card

/-- How many frames are free. -/
def Pmm.freeCount (p : Pmm) : Nat := p.freeBelow 0x100000

theorem Pmm.freeBelow_eq_zero {p : Pmm} {n : Nat} : p.freeBelow n = 0 ↔ ∀ f < n, ¬ p.Free f := by
  rw [freeBelow, Finset.card_eq_zero, Finset.filter_eq_empty_iff]
  simp only [Finset.mem_range]

theorem Pmm.freeBelow_pos {p : Pmm} {n : Nat} : 0 < p.freeBelow n ↔ ∃ f < n, p.Free f := by
  rw [Nat.pos_iff_ne_zero, ne_eq, freeBelow_eq_zero]
  push Not
  rfl

/-- Some of the free frames. -/
theorem Pmm.card_le_freeBelow {p : Pmm} {n : Nat} (s : Finset Nat) (h : ∀ f ∈ s, f < n ∧ p.Free f) :
    s.card ≤ p.freeBelow n :=
  Finset.card_le_card fun f hf => Finset.mem_filter.2 ⟨Finset.mem_range.2 (h f hf).1, (h f hf).2⟩

/-- No others. -/
theorem Pmm.freeBelow_le_card {p : Pmm} {n : Nat} (s : Finset Nat) (h : ∀ f < n, p.Free f → f ∈ s) :
    p.freeBelow n ≤ s.card :=
  Finset.card_le_card fun f hf => by
    obtain ⟨h1, h2⟩ := Finset.mem_filter.1 hf
    exact h f (Finset.mem_range.1 h1) h2

theorem Pmm.freeCount_eq_zero {p : Pmm} (h : p.Wf) : p.freeCount = 0 ↔ ∀ f, ¬ p.Free f := by
  rw [freeCount, freeBelow_eq_zero]
  exact ⟨fun hf f hfree => hf f (h.lt hfree) hfree, fun hf f _ => hf f⟩

theorem Pmm.freeBelow_mono (p : Pmm) {n k : Nat} (h : n ≤ k) : p.freeBelow n ≤ p.freeBelow k :=
  Finset.card_le_card (Finset.filter_subset_filter _ (Finset.range_mono h))

/-- Taking the lowest free frame leaves one less, below any frame that has a free
one below it. -/
theorem Pmm.freeBelow_take {p : Pmm} (h : p.Wf) {s : Nat} (hs : p.Free s)
    (hfirst : ∀ f < s, ¬ p.Free f) (n : Nat) :
    (p.takeRun s 1).freeBelow n = p.freeBelow n - 1 := by
  have hset : ((Finset.range n).filter fun f => (p.takeRun s 1).Free f) =
      ((Finset.range n).filter fun f => p.Free f).erase s := by
    ext f
    have htake := free_takeRun h (s := s) (n := 1) hs.lt f
    simp only [Finset.mem_filter, Finset.mem_erase, Finset.mem_range, htake]
    constructor
    · rintro ⟨h1, h2, h3⟩
      exact ⟨by omega, h1, h2⟩
    · rintro ⟨h1, h2, h3⟩
      exact ⟨h2, h3, by omega⟩
  rw [freeBelow, hset]
  by_cases hn : s < n
  · exact Finset.card_erase_of_mem (by simp [hn, hs])
  · have hzero : p.freeBelow n = 0 := freeBelow_eq_zero.2 fun f hf => hfirst f (by omega)
    rw [Finset.erase_eq_of_notMem (by simp [hn])]
    change p.freeBelow n = p.freeBelow n - 1
    rw [hzero]

theorem Pmm.freeCount_take {p : Pmm} (h : p.Wf) {s : Nat} (hs : p.Free s)
    (hfirst : ∀ f < s, ¬ p.Free f) : (p.takeRun s 1).freeCount = p.freeCount - 1 :=
  freeBelow_take h hs hfirst _

/-! ## What a run of calls keeps -/

/-- What every call preserves about the statics. -/
structure SameTable (p p' : Pmm) : Prop where
  bitmap : p'.pmmBitmap = p.pmmBitmap
  total : p'.pmmTotalPages = p.pmmTotalPages
  usablePages : p'.pmmTotalUsablePages = p.pmmTotalUsablePages
  usableBytes : p'.pmmTotalUsableBytes = p.pmmTotalUsableBytes
  length : p'.words.length = p.words.length
  /-- Bits past the last frame are never touched. -/
  tail : ∀ q, p.pmmTotalPages.toNat ≤ q → (pmmTestBit p'.words q ↔ pmmTestBit p.words q)

theorem SameTable.refl (p : Pmm) : SameTable p p := ⟨rfl, rfl, rfl, rfl, rfl, fun _ _ => Iff.rfl⟩

theorem SameTable.trans {p q r : Pmm} (h : SameTable p q) (h' : SameTable q r) : SameTable p r :=
  ⟨h'.bitmap.trans h.bitmap, h'.total.trans h.total, h'.usablePages.trans h.usablePages,
    h'.usableBytes.trans h.usableBytes, h'.length.trans h.length,
    fun q hq => (h'.tail q (by rw [h.total]; exact hq)).trans (h.tail q hq)⟩

theorem sameTable_takeRun {p : Pmm} (h : p.Wf) (hb : p.pmmBitmap ≠ 0) {s n : Nat}
    (hs : s + n ≤ p.pmmTotalPages.toNat) : SameTable p (p.takeRun s n) := by
  refine ⟨rfl, rfl, rfl, rfl, by simp, fun q hq => ?_⟩
  have hlen := h.length hb
  rw [Pmm.takeRun, pmmTestBit_setRun n (by omega)]
  exact ⟨fun hc => hc.resolve_left (by omega), .inr⟩

theorem sameTable_giveRun (p : Pmm) (s n : Nat) : SameTable p (p.giveRun s n) := by
  refine ⟨rfl, rfl, rfl, rfl, by simp, fun q hq => ?_⟩
  rw [Pmm.giveRun, pmmTestBit_freeRun]
  exact ⟨fun hc => hc.2, fun hc => ⟨by omega, hc⟩⟩

/-- Two states of one table with the same free frames are the same. -/
theorem SameTable.ext {p p' : Pmm} (h : SameTable p p') (hnil : p.pmmBitmap = 0 → p.words = [])
    (hfree : ∀ f, p'.Free f ↔ p.Free f) : p' = p := by
  have hwords : p'.words = p.words := by
    by_cases hb : p.pmmBitmap = 0
    · have hlen := h.length
      rw [hnil hb] at hlen ⊢
      exact List.length_eq_zero_iff.1 hlen
    refine words_ext h.length fun q _ => ?_
    rw [Bool.eq_iff_iff]
    by_cases hq : p.pmmTotalPages.toNat ≤ q
    · exact h.tail q hq
    · have hiff := hfree q
      rw [Pmm.Free, Pmm.Free, h.bitmap, h.total] at hiff
      have hlt : q < p.pmmTotalPages.toNat := by omega
      simp only [hb, hlt, ne_eq, not_false_eq_true, true_and] at hiff
      exact not_iff_not.1 hiff
  obtain ⟨h1, h2, h3, h4, -, -⟩ := h
  cases p
  cases p'
  simp only at h1 h2 h3 h4 hwords
  rw [h1, h2, h3, h4, hwords]

theorem bitmapFrame_congr {p p' : Pmm} (h : SameTable p p') (f : Nat) :
    BitmapFrame p' f ↔ BitmapFrame p f := by
  rw [BitmapFrame, BitmapFrame, h.bitmap, h.length]

/-! ## Granted ranges -/

/-- The frames of a granted range. -/
def framesOf (a : U32 × U32) : Set Nat :=
  {f | a.1.toNat / 4096 ≤ f ∧ f < a.1.toNat / 4096 + a.2.toNat}

theorem framesOf_frameAddr {s : Nat} (h : s < 0x100000) (n : U32) :
    framesOf (frameAddr s, n) = {f | s ≤ f ∧ f < s + n.toNat} := by
  have haddr := frameAddr_toNat h
  ext f
  simp only [framesOf, Set.mem_ofPred_eq, haddr]
  omega

end Frewozet
