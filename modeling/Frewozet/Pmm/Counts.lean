import Frewozet.Base.Loop
import Frewozet.Pmm.Runs
import Mathlib.Data.Finset.Dedup
import Mathlib.Order.Interval.Finset.Nat

/-!
# The counters of `pmm.c`

`pmm_init` counts usable pages entry by entry; the other counters scan the bitmap.  An
entry is counted for exactly the frames it frees, so the bitmap never has more free
frames than were counted, whatever overlaps or wraps.

* `pmmGetFreePages`, `pmmGetUsedPages` — the code.
* `pmmGetFreePages_toNat` — the scan counts the free frames.
* `Pmm.freeCount_takeRun`, `Pmm.freeCount_giveRun` — what a grant and its return do to
  the count.
* `Accounted.freeCount_le` — the invariant of a run: free frames were counted.
* `pmm_accounting` — **the counters add up**, in every state of every run.
-/

namespace Frewozet

open Word

/-! ## The code -/

/-- `pmm_get_free_pages`. -/
def pmmGetFreePages (p : Pmm) : U32 :=
  if p.pmmBitmap = 0 then 0
  else
    forRange p.pmmTotalPages.toNat
      (fun page freePages => if !pmmTestBit p.words page then freePages + 1 else freePages) 0

/-- `pmm_get_used_pages`. -/
def pmmGetUsedPages (p : Pmm) : U32 :=
  let freePages := pmmGetFreePages p
  if p.pmmTotalUsablePages ≥ freePages then p.pmmTotalUsablePages - freePages else 0

/-! ## What the scan counts -/

section

variable {p : Pmm} {s n : Nat}

theorem Pmm.freeBelow_succ (p : Pmm) (n : Nat) :
    p.freeBelow (n + 1) = p.freeBelow n + if p.Free n then 1 else 0 := by
  unfold freeBelow
  rw [Finset.range_add_one, Finset.filter_insert]
  split
  · rw [Finset.card_insert_of_notMem (by simp)]
  · rw [Nat.add_zero]

theorem Pmm.freeBelow_le (p : Pmm) (n : Nat) : p.freeBelow n ≤ n := by
  have h := Finset.card_filter_le (Finset.range n) fun f => p.Free f
  rwa [Finset.card_range] at h

/-- Fewer free frames, a smaller count. -/
theorem Pmm.freeBelow_le_of {q : Pmm} (h : ∀ f, q.Free f → p.Free f) (n : Nat) :
    q.freeBelow n ≤ p.freeBelow n :=
  freeBelow_le_card _ fun f hlt hf => Finset.mem_filter.2 ⟨Finset.mem_range.2 hlt, h f hf⟩

/-- Frames past the last one are not free. -/
theorem Pmm.freeCount_eq (h : p.Wf) : p.freeCount = p.freeBelow p.pmmTotalPages.toNat := by
  refine le_antisymm ?_ (p.freeBelow_mono h.total)
  refine freeBelow_le_card _ fun f _ hf => ?_
  exact Finset.mem_filter.2 ⟨Finset.mem_range.2 hf.lt, hf⟩

/-- **`pmm_get_free_pages`** counts the free frames. -/
theorem pmmGetFreePages_toNat (h : p.Wf) : (pmmGetFreePages p).toNat = p.freeCount := by
  have htotal := h.total
  rw [p.freeCount_eq h]
  unfold pmmGetFreePages
  by_cases hb : p.pmmBitmap = 0
  · rw [if_pos hb]
    exact (Pmm.freeBelow_eq_zero.2 fun f _ hf => hf.1 hb).symm
  rw [if_neg hb]
  refine forRange_rule (P := fun page (k : U32) => k.toNat = p.freeBelow page) rfl
    fun page hpage k hk => ?_
  have hle := p.freeBelow_le page
  have hfree : p.Free page ↔ (!pmmTestBit p.words page) = true := by
    rw [Bool.not_eq_true', ← Bool.not_eq_true]
    exact ⟨fun hf => hf.2.2, fun hbit => ⟨hb, hpage, hbit⟩⟩
  rw [p.freeBelow_succ]
  by_cases hbit : p.Free page
  · rw [if_pos (hfree.1 hbit), if_pos hbit, BitVec.toNat_add, hk]
    exact Nat.mod_eq_of_lt (by simp; omega)
  · rw [if_neg fun hc => hbit (hfree.2 hc), if_neg hbit, hk, Nat.add_zero]

/-! ## Grants and returns -/

/-- Taking a run of free frames lowers the count by its length. -/
theorem Pmm.freeCount_takeRun (h : p.Wf) (hend : s + n ≤ p.pmmTotalPages.toNat)
    (hfree : p.FreeRun n s) : (p.takeRun s n).freeCount + n = p.freeCount := by
  have htotal := h.total
  have hset : ((Finset.range 0x100000).filter fun f => (p.takeRun s n).Free f) =
      ((Finset.range 0x100000).filter fun f => p.Free f) \ Finset.Ico s (s + n) := by
    ext f
    simp only [Finset.mem_filter, Finset.mem_sdiff, Finset.mem_range, Finset.mem_Ico,
      free_takeRun h hend, and_assoc]
  have hsub : Finset.Ico s (s + n) ⊆ (Finset.range 0x100000).filter fun f => p.Free f := by
    intro f hf
    rw [Finset.mem_Ico] at hf
    exact Finset.mem_filter.2 ⟨Finset.mem_range.2 (by omega), hfree f hf.1 hf.2⟩
  have hcard := Finset.card_sdiff_add_card_eq_card hsub
  rw [Nat.card_Ico, Nat.add_sub_cancel_left] at hcard
  rw [freeCount, freeBelow, hset]
  exact hcard

/-- Giving back a run of frames none of which is free raises it by that length. -/
theorem Pmm.freeCount_giveRun (h : p.Wf) (hb : p.pmmBitmap ≠ 0) (hs : 0 < s)
    (hend : s + n ≤ p.pmmTotalPages.toNat) (hused : ∀ f, s ≤ f → f < s + n → ¬ p.Free f) :
    (p.giveRun s n).freeCount = p.freeCount + n := by
  have hgive := free_giveRun p s n
  have htake := freeCount_takeRun (h.giveRun hs) hend fun f h1 h2 =>
    (hgive f).2 (.inr ⟨hb, by omega, h1, h2⟩)
  have hsame : ((p.giveRun s n).takeRun s n).freeCount = p.freeCount := by
    have hiff : ∀ f, ((p.giveRun s n).takeRun s n).Free f ↔ p.Free f := fun f => by
      rw [free_takeRun (h.giveRun hs) hend, hgive]
      constructor
      · rintro ⟨hf | ⟨-, -, hin⟩, hout⟩
        · exact hf
        · exact absurd hin hout
      · exact fun hf => ⟨.inl hf, fun hin => hused f hin.1 hin.2 hf⟩
    exact le_antisymm (freeBelow_le_of (fun f => (hiff f).1) _)
      (freeBelow_le_of (fun f => (hiff f).2) _)
  rw [← htake, hsame]

end

/-! ## The invariant of a run -/

section

variable (info : E820Info) (k : KernelImage) (vmem : Mem)

/-- What is free when `pmm_init` returns has been counted, frame by frame. -/
theorem boot_freeCount_le (hlen : info.entries.length ≤ 32) :
    (boot info k vmem).pmm.freeCount ≤
      (pmmGetTotalUsablePages (boot info k vmem).pmm).toNat := by
  by_cases hfit : BitmapFits info k
  · rw [pmmTotalUsablePages_eq info k vmem hlen hfit]
    refine (Pmm.freeBelow_le_card (countedFrames info).toFinset fun f _ hf => ?_).trans
      (List.toFinset_card_le _)
    rw [List.mem_toFinset, mem_countedFrames]
    exact ((boot_free_iff info k vmem f).1 hf).2.1
  · have hnone : (boot info k vmem).pmm.freeCount = 0 :=
      Pmm.freeBelow_eq_zero.2 fun f _ hf => hfit ((boot_free_iff info k vmem f).1 hf).1
    rw [hnone]
    exact Nat.zero_le _

/-- A run frees no frame that was not free when it began. -/
theorem Accounted.freeCount_le {p : Pmm} {t : Tracked} (h : Accounted p t) :
    t.pmm.freeCount ≤ p.freeCount :=
  Pmm.freeBelow_le_of (fun f hf => (h.owned.covers f).2 (.inl hf)) _

/-- What an allocation does to the count. -/
theorem Allocates.freeCount {p : Pmm} (h : p.Wf) {n : U32} {r : U32 × Pmm}
    (hr : Allocates p n r) (hne : r.1 ≠ 0) : r.2.freeCount + n.toNat = p.freeCount := by
  rcases hr with rfl | ⟨s, rfl, -, hend, hfree⟩
  · exact absurd rfl hne
  · exact Pmm.freeCount_takeRun h hend hfree

/-- What the free of a live range does to it. -/
theorem Accounted.freeCount_free {p : Pmm} {t : Tracked} (h : Accounted p t) {a n : U32}
    (ha : (a, n) ∈ t.live) :
    (pmmFreeContiguous a n t.pmm).freeCount = t.pmm.freeCount + n.toNat := by
  obtain ⟨⟨s, rfl, hs, hend⟩, hn, hb⟩ := h.ranges _ ha
  have htotal := h.wf.total
  have hn' : 0 < n.toNat := hn
  have hlt : s < 0x100000 := by
    have hend' : s + n.toNat ≤ t.pmm.pmmTotalPages.toNat := hend
    omega
  rw [pmmFreeContiguous_spec h.wf hb hs hn hend]
  refine Pmm.freeCount_giveRun h.wf hb hs hend fun f h1 h2 hf => ?_
  have hmem : f ∈ framesOf (frameAddr s, n) := by
    rw [framesOf_frameAddr hlt]
    exact ⟨h1, h2⟩
  exact hf.2.2 (h.live_frame ha hmem).2.2

/-- What the counters say of a state: the free pages are among the usable ones, the used
ones are the others, and the fallback of `pmm_get_used_pages` is not taken. -/
structure Balanced (p : Pmm) : Prop where
  free_le : pmmGetFreePages p ≤ pmmGetTotalUsablePages p
  sum : (pmmGetUsedPages p).toNat + (pmmGetFreePages p).toNat = (pmmGetTotalUsablePages p).toNat
  noFallback : pmmGetUsedPages p = pmmGetTotalUsablePages p - pmmGetFreePages p

theorem Balanced.of_le {p : Pmm} (h : pmmGetFreePages p ≤ pmmGetTotalUsablePages p) :
    Balanced p := by
  have hused : pmmGetUsedPages p = pmmGetTotalUsablePages p - pmmGetFreePages p := if_pos h
  refine ⟨h, ?_, hused⟩
  rw [hused, BitVec.toNat_sub_of_le h]
  exact Nat.sub_add_cancel (BitVec.le_def.1 h)

/-- **The counters add up.**  In every state a run reaches after `pmm_init`, for every
table of at most 32 entries: no more pages are free than were counted usable; a successful
allocation of `n` pages lowers the free pages by `n`, the free of a live range raises
them by its length, and a failed allocation changes nothing. -/
theorem pmm_accounting (hlen : info.entries.length ≤ 32) {t : Tracked}
    (hrun : (tracked info k vmem).Reaches t) :
    Balanced t.pmm ∧
      (∀ n, ((pmmAllocContiguous n t.pmm).1 ≠ 0 →
          (pmmGetFreePages (pmmAllocContiguous n t.pmm).2).toNat + n.toNat =
            (pmmGetFreePages t.pmm).toNat) ∧
        ((pmmAllocContiguous n t.pmm).1 = 0 → (pmmAllocContiguous n t.pmm).2 = t.pmm)) ∧
      ∀ a n, (a, n) ∈ t.live →
        (pmmGetFreePages (pmmFreeContiguous a n t.pmm)).toNat =
          (pmmGetFreePages t.pmm).toNat + n.toNat := by
  have h := accounted_run (accounted_boot info k vmem) hrun
  have hfree := pmmGetFreePages_toNat h.wf
  refine ⟨.of_le ?_, fun n => ?_, fun a n ha => ?_⟩
  · have hle := h.freeCount_le.trans (boot_freeCount_le info k vmem hlen)
    rw [BitVec.le_def, hfree, pmmGetTotalUsablePages, h.table.usablePages]
    exact hle
  · have halloc := allocates_allocContiguous t.pmm n
    refine ⟨fun hne => ?_, halloc.null h.wf⟩
    have hwf : (pmmAllocContiguous n t.pmm).2.Wf := (h.allocates halloc).1.wf
    rw [pmmGetFreePages_toNat hwf, hfree]
    exact halloc.freeCount h.wf hne
  · rw [pmmGetFreePages_toNat (h.frees ha).1.wf, hfree]
    exact h.freeCount_free ha

end

/-- One page allocated on the machine with the overlap. -/
theorem pmm_accounting_one_page :
    Balanced ((tracked overlapTable smallKernel fun _ => 0).granted
      (pmmAllocPage (tracked overlapTable smallKernel fun _ => 0).pmm) 1).pmm :=
  (pmm_accounting overlapTable smallKernel (fun _ => 0) (by decide) (.single .allocPage)).1

end Frewozet
