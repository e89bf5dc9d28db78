import Frewozet.Flat.Memory

/-!
# `pmm.c`, with its bitmap in memory

The functions of `pmm.c` once more, reading and writing the words of the bitmap through
`pmm_bitmap` one access at a time.

* `Flat.pmmTestBit`, `Flat.pmmSetBit`, `Flat.pmmAllocContiguous`, `Flat.pmmFreeContiguous` — the
  code.
* `simulates_allocContiguous`, `simulates_freeContiguous` — **while the bitmap is in place they do
  what the functions on a list of words do**, and what they do is seen in its words.
-/

namespace Frewozet

open Word Exec TwoLevel

/-! ## The code -/

namespace Flat

/-- `pmm_bitmap[page / 32] = f(pmm_bitmap[page / 32]);` -/
def pmmUpdateWord (page : Nat) (f : U32 → U32) : Exec Machine Unit := do
  let m ← get
  let word ← load32 (m.pmm.wordAddr (page / 32))
  store32 (m.pmm.wordAddr (page / 32)) (f word)

/-- `pmm_set_bit`. -/
def pmmSetBit (page : Nat) : Exec Machine Unit :=
  pmmUpdateWord page (· ||| (1#32 <<< (page % 32)))

/-- `pmm_clear_bit`. -/
def pmmClearBit (page : Nat) : Exec Machine Unit :=
  pmmUpdateWord page (· &&& ~~~(1#32 <<< (page % 32)))

/-- `pmm_test_bit`. -/
def pmmTestBit (page : Nat) : Exec Machine Bool := do
  let m ← get
  let word ← load32 (m.pmm.wordAddr (page / 32))
  return (word >>> (page % 32)) &&& 1#32 != 0

/-- The outer loop of `pmm_alloc_contiguous`, with `left` pages to look at. -/
def runScan (want : Nat) : Nat → Nat → Nat → Nat → Exec Machine (Option Nat)
  | 0, _, _, _ => pure none
  | left + 1, page, runStart, runLen => do
    let used ← pmmTestBit page
    if !used then
      let runStart := if runLen = 0 then page else runStart
      if runLen + 1 = want then
        return some runStart
      else
        runScan want left (page + 1) runStart (runLen + 1)
    else
      runScan want left (page + 1) runStart 0

/-- The inner one. -/
def pmmSetRun (page : Nat) : Nat → Exec Machine Unit
  | 0 => pure ()
  | n + 1 => do
    pmmSetBit page
    pmmSetRun (page + 1) n

/-- `pmm_alloc_contiguous`. -/
def pmmAllocContiguous (pageCount : U32) : Exec Machine U32 := do
  let m ← get
  if m.pmm.pmmBitmap = 0 ∨ pageCount = 0 then
    return 0
  else do
    let found ← runScan pageCount.toNat m.pmm.pmmTotalPages.toNat 0 0 0
    match found with
    | none => return 0
    | some runStart => do
      pmmSetRun runStart pageCount.toNat
      let p := BitVec.ofNat 32 runStart * PMM_PAGE_SIZE
      modify fun m => { m with grants := if p = 0 then m.grants else (p, pageCount) :: m.grants }
      return p

/-- `pmm_alloc_page`. -/
def pmmAllocPage : Exec Machine U32 := pmmAllocContiguous 1

/-- The loop of `pmm_free_contiguous`. -/
def pmmFreeRun (totalPages : Nat) (page : Nat) : Nat → Exec Machine Unit
  | 0 => pure ()
  | n + 1 => do
    if page ≥ totalPages then
      return ()
    else do
      let used ← pmmTestBit page
      if used then pmmClearBit page else pure ()
      pmmFreeRun totalPages (page + 1) n

/-- `pmm_free_contiguous`. -/
def pmmFreeContiguous (startPage pageCount : U32) : Exec Machine Unit := do
  let m ← get
  if m.pmm.pmmBitmap = 0 ∨ startPage = 0 ∨ pageCount = 0 then
    return ()
  else if startPage % PMM_PAGE_SIZE ≠ 0 then
    return ()
  else
    let startIndex := startPage / PMM_PAGE_SIZE
    if startIndex ≥ m.pmm.pmmTotalPages then
      return ()
    else
      pmmFreeRun m.pmm.pmmTotalPages.toNat startIndex.toNat pageCount.toNat

/-- `pmm_free_page`. -/
def pmmFreePage (page : U32) : Exec Machine Unit := pmmFreeContiguous page 1

end Flat

/-! ## One word -/

section

variable {m m' : Machine} {page : Nat}

/-- There is a bit for every frame. -/
theorem BitmapSound.covers (h : BitmapSound m) (hb : m.pmm.pmmBitmap ≠ 0) :
    m.pmm.pmmTotalPages.toNat ≤ 32 * m.pmm.cells := by
  rw [Pmm.cells, if_neg hb, bitmapWords_toNat h.total]
  omega

theorem BitmapSound.testBit (h : BitmapSound m) (hp : page / 32 < m.pmm.cells) :
    Flat.pmmTestBit page m = .ret (pmmTestBit m.bitmap page) m := by
  unfold Flat.pmmTestBit pmmTestBit
  simp only [bind, Exec.get, h.cells.load32 (h.word hp).2, Machine.getD_bitmap m hp]
  rfl

/-- **One word of the bitmap is written.** -/
theorem BitmapSound.updateWord (h : BitmapSound m) (hp : page / 32 < m.pmm.cells) (f : U32 → U32) :
    wp (Flat.pmmUpdateWord page f)
      (fun _ m' => StoredIn m.bitmapCells m m' ∧ m'.bitmap = m.bitmap.modify (page / 32) f)
      (fun _ _ => False) m := by
  have hload := h.cells.load32 (h.word hp).2
  unfold Flat.pmmUpdateWord
  rw [wp_bind, wp_get, wp_bind]
  simp only [wp, hload]
  refine wp_mono (wp_store32 h.cells (h.word hp).2 _) ?_ fun _ _ hc => hc
  rintro _ m' ⟨hw, hview⟩
  refine ⟨hw, ?_⟩
  have hstop := h.stop
  have hword : ∀ j < m.pmm.cells, m'.view.read32 (m.pmm.wordAddr j) =
      if j = page / 32 then f (m.view.read32 (m.pmm.wordAddr j))
      else m.view.read32 (m.pmm.wordAddr j) := by
    intro j hj
    obtain ⟨haddr, -⟩ := h.word hj
    obtain ⟨haddr', -⟩ := h.word hp
    have hread : m'.view.read32 (m.pmm.wordAddr j) = (m.view.write32 (m.pmm.wordAddr (page / 32))
        (f (m.view.read32 (m.pmm.wordAddr (page / 32))))).read32 (m.pmm.wordAddr j) :=
      Mem.read32_congr (by omega) fun x h1 h2 => hview x <| by
        rw [Machine.mem_bitmapCells]
        omega
    rw [hread]
    split
    · rename_i hj'
      rw [hj', Mem.read32_write32]
    · exact Mem.read32_write32_apart _ _ (by omega) (by omega) (by omega)
  refine List.ext_getElem? fun j => ?_
  rw [List.getElem?_modify]
  unfold Machine.bitmap
  rw [hw.same.pmm, List.getElem?_map, List.getElem?_map]
  by_cases hj : j < m.pmm.cells
  · rw [List.getElem?_range hj, Option.map_some, hword j hj]
    by_cases hjp : j = page / 32
    · simp [hjp]
    · simp [hjp, Ne.symm hjp]
  · rw [List.getElem?_eq_none (by simpa using Nat.le_of_not_lt hj)]
    rfl

/-! ## The loops -/

/-- **The scan reads, and finds what the scan of the words finds.** -/
theorem BitmapSound.runScan (h : BitmapSound m) (want : Nat) : ∀ left page runStart runLen : Nat,
    page + left ≤ 32 * m.pmm.cells → Flat.runScan want left page runStart runLen m =
      .ret (FirstFit.runScan (fun page => !pmmTestBit m.bitmap page) want left page runStart
        runLen) m := by
  intro left
  induction left with
  | zero => exact fun _ _ _ _ => rfl
  | succ left ih =>
    intro page runStart runLen hle
    have hcell : page / 32 < m.pmm.cells := by omega
    have htest := h.testBit hcell
    rw [Flat.runScan, FirstFit.runScan]
    simp only [bind, htest]
    cases pmmTestBit m.bitmap page with
    | true => exact ih (page + 1) runStart 0 (by omega)
    | false =>
      simp only [Bool.not_false, if_true]
      by_cases hlen : runLen + 1 = want
      · simp only [hlen, if_true]
        rfl
      · simp only [hlen, if_false]
        exact ih (page + 1) _ (runLen + 1) (by omega)

/-- One change of the bitmap after another. -/
theorem StoredIn.then {m'' : Machine} (hw : StoredIn m.bitmapCells m m')
    (hw' : StoredIn m'.bitmapCells m' m'') : StoredIn m.bitmapCells m m'' :=
  hw.trans (hw.bitmapCells ▸ hw')

/-- **The run is set bit by bit.** -/
theorem BitmapSound.setRun : ∀ (n page : Nat) {m : Machine}, BitmapSound m →
    page + n ≤ 32 * m.pmm.cells →
      wp (Flat.pmmSetRun page n)
        (fun _ m' => StoredIn m.bitmapCells m m' ∧ m'.bitmap = pmmSetRun m.bitmap page n)
        (fun _ _ => False) m := by
  intro n
  induction n with
  | zero => exact fun _ m _ _ => ⟨.refl _ m, rfl⟩
  | succ n ih =>
    intro page m h hle
    have hcell : page / 32 < m.pmm.cells := by omega
    rw [Flat.pmmSetRun, wp_bind]
    refine wp_mono (h.updateWord hcell _) ?_ fun _ _ hc => hc
    rintro _ m1 ⟨hw, hbits⟩
    refine wp_mono (ih (page + 1) (h.stored hw) ?_) ?_ fun _ _ hc => hc
    · rw [hw.same.pmm]
      omega
    rintro _ m2 ⟨hw', hbits'⟩
    exact ⟨hw.then hw', by rw [hbits', hbits]; rfl⟩

/-- **So it is freed.** -/
theorem BitmapSound.freeRun (total : Nat) : ∀ (n page : Nat) {m : Machine}, BitmapSound m →
    total ≤ 32 * m.pmm.cells →
      wp (Flat.pmmFreeRun total page n)
        (fun _ m' => StoredIn m.bitmapCells m m' ∧ m'.bitmap = pmmFreeRun total m.bitmap page n)
        (fun _ _ => False) m := by
  intro n
  induction n with
  | zero => exact fun _ m _ _ => ⟨.refl _ m, rfl⟩
  | succ n ih =>
    intro page m h hle
    rw [Flat.pmmFreeRun, pmmFreeRun]
    by_cases hend : page ≥ total
    · simp only [hend, if_true]
      exact ⟨.refl _ m, rfl⟩
    · simp only [hend, if_false]
      have hcell : page / 32 < m.pmm.cells := by omega
      rw [wp_bind]
      simp only [wp, h.testBit hcell]
      change wp _ _ _ m
      cases pmmTestBit m.bitmap page with
      | false =>
        simp only [Bool.false_eq_true, if_false]
        exact ih (page + 1) h hle
      | true =>
        simp only [if_true]
        rw [wp_bind]
        refine wp_mono (h.updateWord hcell _) ?_ fun _ _ hc => hc
        rintro _ m1 ⟨hw, hbits⟩
        refine wp_mono (ih (page + 1) (h.stored hw) ?_) ?_ fun _ _ hc => hc
        · rw [hw.same.pmm]
          omega
        rintro _ m2 ⟨hw', hbits'⟩
        exact ⟨hw.then hw', by rw [hbits', hbits]; rfl⟩

/-! ## The functions -/

theorem Resident.withWords (h : Resident m) (hw : StoredIn m.bitmapCells m m')
    (hspare : ∀ f, (m'.seen.pmm).Free f → ¬ m.OnBitmap f) : Resident m' :=
  ⟨(h.toInPlace.wrote hw).1, fun f hf => by
    rw [Machine.onBitmap_congr hw.same.pmm]
    exact hspare f hf⟩

/-- **`pmm_alloc_contiguous`.** -/
theorem simulates_allocContiguous {l : Machine} (h : Layered m l) (n : U32) :
    Simulates Layered (Flat.pmmAllocContiguous n) (allocFrames n (pmmAllocContiguous n)) m l := by
  obtain ⟨rfl, h⟩ := h
  unfold Flat.pmmAllocContiguous
  by_cases hnone : m.pmm.pmmBitmap = 0 ∨ n = 0
  · have hleader : pmmAllocContiguous n m.layer.pmm = (0, m.layer.pmm) := if_pos hnone
    have hnothing : allocFrames n (pmmAllocContiguous n) m.layer = .ret 0 m.layer := by
      rw [allocFrames, hleader]
      rfl
    refine .of_wp hnothing ?_
    rw [wp_bind, wp_get, if_pos hnone]
    exact ⟨rfl, rfl, h⟩
  have hcovers := h.sound.covers fun hc => hnone (.inl hc)
  have hscan := h.sound.runScan n.toNat m.pmm.pmmTotalPages.toNat 0 0 0 (by omega)
  cases hfound : FirstFit.runScan (fun page => !pmmTestBit m.bitmap page) n.toNat
    m.pmm.pmmTotalPages.toNat 0 0 0 with
  | none =>
    rw [hfound] at hscan
    have hleader := pmmAllocContiguous_none (p := m.layer.pmm) hnone hfound
    have hnothing : allocFrames n (pmmAllocContiguous n) m.layer = .ret 0 m.layer := by
      rw [allocFrames, hleader]
      rfl
    refine .of_wp hnothing ?_
    rw [wp_bind, wp_get, if_neg hnone, wp_bind]
    simp only [wp, hscan]
    exact ⟨rfl, rfl, h⟩
  | some s =>
    rw [hfound] at hscan
    have hleader := pmmAllocContiguous_some (p := m.layer.pmm) hnone hfound
    have hn : 0 < n.toNat := Nat.pos_of_ne_zero fun hc =>
      hnone (.inr (BitVec.eq_of_toNat_eq hc))
    have hend := (FirstFit.runScan_some hn hfound).2.1
    refine .of_wp (by rw [allocFrames, hleader]) ?_
    rw [wp_bind, wp_get, if_neg hnone, wp_bind]
    simp only [wp, hscan]
    change wp _ _ _ m
    rw [wp_bind]
    refine wp_mono (h.sound.setRun n.toNat s (by omega)) ?_ fun _ _ hc => hc
    rintro _ m1 ⟨hw, hbits⟩
    obtain ⟨-, hlayer⟩ := h.toInPlace.wrote hw
    have hlen : s + n.toNat ≤ 32 * m.bitmap.length := by
      rw [Machine.length_bitmap]
      omega
    have hres : Resident m1 := h.withWords hw fun f hf => by
      obtain ⟨hb, hlt, hbit⟩ := hf
      rw [Machine.seen, hw.same.pmm] at hb hlt hbit
      refine h.spare f ⟨hb, hlt, fun hc => hbit ?_⟩
      change pmmTestBit m1.bitmap f = true
      rw [hbits, pmmTestBit_setRun n.toNat hlen]
      exact .inr hc
    rw [wp_bind, wp_modify]
    refine ⟨rfl, ?_, hres.ghosts _ _⟩
    have hghosts : ∀ g, ({ m1 with grants := g } : Machine).layer = { m1.layer with grants := g } :=
      fun _ => rfl
    rw [hghosts, hlayer, hbits, hw.same.grants]
    rfl

/-- **`pmm_free_contiguous`**, for frames in which the bitmap is not. -/
theorem simulates_freeContiguous {l : Machine} (h : Layered m l) (a n : U32)
    (hspare : ∀ f, (pmmFreeContiguous a n l.pmm).Free f → ¬ BitmapFrame l.pmm f) :
    Simulates Layered (Flat.pmmFreeContiguous a n) (freeFrames (pmmFreeContiguous a n)) m l := by
  obtain ⟨rfl, h⟩ := h
  -- where the code returns at once, nothing is freed
  have hnothing : pmmFreeContiguous a n m.layer.pmm = m.layer.pmm →
      Simulates Layered (pure ()) (freeFrames (pmmFreeContiguous a n)) m m.layer := fun hc =>
    .of_ret rfl (by rw [freeFrames, Exec.modify, hc]) ⟨rfl, h⟩
  refine .get ?_
  by_cases hnone : m.pmm.pmmBitmap = 0 ∨ a = 0 ∨ n = 0
  · rw [if_pos hnone]
    exact hnothing (if_pos hnone)
  rw [if_neg hnone]
  by_cases hmod : a % PMM_PAGE_SIZE ≠ 0
  · rw [if_pos hmod]
    exact hnothing ((if_neg hnone).trans (if_pos hmod))
  rw [if_neg hmod]
  by_cases hend : a / PMM_PAGE_SIZE ≥ m.pmm.pmmTotalPages
  · rw [if_pos hend]
    exact hnothing ((if_neg hnone).trans ((if_neg hmod).trans (if_pos hend)))
  rw [if_neg hend]
  have hleader : pmmFreeContiguous a n m.layer.pmm = { m.layer.pmm with
      words := pmmFreeRun m.pmm.pmmTotalPages.toNat m.bitmap (a / PMM_PAGE_SIZE).toNat n.toNat } :=
    (if_neg hnone).trans ((if_neg hmod).trans (if_neg hend))
  rw [hleader] at hspare
  refine .of_wp (by rw [freeFrames, Exec.modify, hleader]) ?_
  refine wp_mono (h.sound.freeRun _ n.toNat _ (h.sound.covers fun hc => hnone (.inl hc))) ?_
    fun _ _ hc => hc
  rintro _ m1 ⟨hw, hbits⟩
  obtain ⟨-, hlayer⟩ := h.toInPlace.wrote hw
  refine ⟨rfl, ?_, h.withWords hw fun f hf => hspare f ?_⟩
  · rw [hlayer, hbits]
    rfl
  · rw [Machine.seen, hw.same.pmm, hbits] at hf
    exact hf

end

end Frewozet
