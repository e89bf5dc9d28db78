import Frewozet.Base.Pool
import Frewozet.Pmm.Table

/-!
# Runs of the frame allocator

Any number of allocations and frees after `pmm_init`, in any order, where a free
gives back a range that was granted and is still live.

* `Tracked` — the statics of `pmm.c` with a ghost: the ranges that are out.
* `PmmStep` — one call.
* `Tracked.pool`, `PmmStep.simulates` — **the allocator refines a pool of
  frames**: each call grants free frames, takes a grant back, or does nothing.
* `Accounted`, `accounted_run` — the invariant of a run.
* `pmm_ownership` — who owns which frame, in every reachable state, and what is
  left when everything has come back.
* `pmm_reserved_iff` — what the entries of other types can count on: **their frames are given
  out exactly if an entry of type 1 claims them too**.
-/

namespace Frewozet

open Word Relation

/-! ## The steps -/

/-- The statics of `pmm.c`, and the ranges granted and not yet freed, each with
its address and its number of pages. -/
structure Tracked where
  pmm : Pmm
  live : List (U32 × U32)

/-- The state after an allocation of `n` pages has returned `r`. -/
def Tracked.granted (t : Tracked) (r : U32 × Pmm) (n : U32) : Tracked where
  pmm := r.2
  live := if r.1 = 0 then t.live else (r.1, n) :: t.live

/-- One call. -/
inductive PmmStep (t : Tracked) : Tracked → Prop
  | allocContiguous (n : U32) : PmmStep t (t.granted (pmmAllocContiguous n t.pmm) n)
  | allocPage : PmmStep t (t.granted (pmmAllocPage t.pmm) 1)
  | allocPageBelow (limit : U32) : PmmStep t (t.granted (pmmAllocPageBelow limit t.pmm) 1)
  | freeContiguous (a n : U32) (h : (a, n) ∈ t.live) :
      PmmStep t ⟨pmmFreeContiguous a n t.pmm, t.live.erase (a, n)⟩
  | freePage (a : U32) (h : (a, 1) ∈ t.live) :
      PmmStep t ⟨pmmFreePage a t.pmm, t.live.erase (a, 1)⟩

/-- The states some run of calls reaches from `t`. -/
abbrev Tracked.Reaches (t t' : Tracked) : Prop := ReflTransGen PmmStep t t'

/-- The state in which `pmm_init` leaves the allocator, with nothing granted. -/
def tracked (info : E820Info) (k : KernelImage) (vmem : Mem) : Tracked :=
  ⟨(boot info k vmem).pmm, []⟩

/-! ## The pool -/

/-- The frames that are free, and those that are out. -/
def Tracked.pool (t : Tracked) : Pool Nat := ⟨{f | t.pmm.Free f}, t.live.map framesOf⟩

/-- A granted range is what the allocator says it is: it starts at a page of the
table other than the first, holds at least one, and ends inside the table. -/
structure Range (p : Pmm) (a : U32 × U32) : Prop where
  addr : ∃ s, a.1 = frameAddr s ∧ 0 < s ∧ s + a.2.toNat ≤ p.pmmTotalPages.toNat
  pos : 0 < a.2.toNat
  bitmap : p.pmmBitmap ≠ 0

theorem SameTable.range {p p' : Pmm} (h : SameTable p p') {a : U32 × U32} (ha : Range p a) :
    Range p' a :=
  ⟨by obtain ⟨s, h1, h2, h3⟩ := ha.addr; exact ⟨s, h1, h2, by rw [h.total]; exact h3⟩, ha.pos,
    by rw [h.bitmap]; exact ha.bitmap⟩

/-! ## The invariant -/

/-- The invariant of a run from `p`: the books are in order, still those of the
same table, and each range that is out is a range of frames. -/
structure Accounted (p : Pmm) (t : Tracked) : Prop where
  wf : t.pmm.Wf
  table : SameTable p t.pmm
  ranges : ∀ a ∈ t.live, Range t.pmm a
  owned : Pool.Owned {f | p.Free f} t.pool

/-- What an allocation can do, in any of the three functions. -/
def Allocates (p : Pmm) (n : U32) (r : U32 × Pmm) : Prop :=
  r = (0, p) ∨ ∃ s, r = (frameAddr s, p.takeRun s n.toNat) ∧ 0 < n.toNat ∧
    s + n.toNat ≤ p.pmmTotalPages.toNat ∧ ∀ f, s ≤ f → f < s + n.toNat → p.Free f

theorem allocates_allocContiguous (p : Pmm) (n : U32) : Allocates p n (pmmAllocContiguous n p) := by
  rcases pmmAllocContiguous_spec (p := p) n with ⟨h, -⟩ | ⟨s, h1, h2, h3, h4, -⟩
  · exact .inl h
  · exact .inr ⟨s, h1, h2, h3, h4⟩

theorem allocates_allocPageBelow (p : Pmm) (limit : U32) :
    Allocates p 1 (pmmAllocPageBelow limit p) := by
  rcases pmmAllocPageBelow_spec (p := p) limit with ⟨h, -⟩ | ⟨s, h1, h2, -⟩
  · exact .inl h
  · refine .inr ⟨s, h1, by decide, h2.lt, fun f hf1 hf2 => ?_⟩
    have hone : (1 : U32).toNat = 1 := rfl
    rwa [show f = s by omega]

theorem granted_zero (t : Tracked) (n : U32) : t.granted (0, t.pmm) n = t := by
  simp [Tracked.granted]

/-- **An allocation grants free frames of the pool, or does nothing.** -/
theorem Accounted.allocates {p : Pmm} {t : Tracked} (h : Accounted p t) {n : U32} {r : U32 × Pmm}
    (hr : Allocates t.pmm n r) :
    Accounted p (t.granted r n) ∧
      ((t.granted r n) = t ∨ Pool.Step t.pool (t.granted r n).pool) := by
  rcases hr with rfl | ⟨s, rfl, hn, hend, hfree⟩
  · rw [granted_zero]
    exact ⟨h, .inl rfl⟩
  have hs : 0 < s := h.wf.pos (hfree s (le_refl s) (by omega))
  have hlt : s < 0x100000 := h.wf.lt (hfree s (le_refl s) (by omega))
  have hb := (hfree s (le_refl s) (by omega)).1
  have hsame := sameTable_takeRun h.wf hb hend
  have hlive : (t.granted (frameAddr s, t.pmm.takeRun s n.toNat) n).live =
      (frameAddr s, n) :: t.live := if_neg (frameAddr_ne_zero hlt hs)
  have hsub : framesOf (frameAddr s, n) ⊆ t.pool.free := by
    rw [framesOf_frameAddr hlt]
    exact fun f hf => hfree f hf.1 hf.2
  have hpool : (t.granted (frameAddr s, t.pmm.takeRun s n.toNat) n).pool =
      ⟨t.pool.free \ framesOf (frameAddr s, n), framesOf (frameAddr s, n) :: t.pool.live⟩ := by
    apply Pool.ext
    · ext f
      rw [framesOf_frameAddr hlt]
      exact Pmm.free_takeRun h.wf hend f
    · change List.map framesOf _ = _
      rw [hlive]
      rfl
  have hstep : Pool.Step t.pool (t.granted (frameAddr s, t.pmm.takeRun s n.toNat) n).pool := by
    rw [hpool]
    exact .grant _ hsub
  refine ⟨⟨h.wf.takeRun hend, h.table.trans hsame, ?_, h.owned.step hstep⟩, .inr hstep⟩
  intro a ha
  rw [hlive] at ha
  rcases List.mem_cons.1 ha with rfl | ha
  · exact ⟨⟨s, rfl, hs, hend⟩, hn, hb⟩
  · exact hsame.range (h.ranges a ha)

/-- **A free takes a grant of the pool back.** -/
theorem Accounted.frees {p : Pmm} {t : Tracked} (h : Accounted p t) {a n : U32}
    (ha : (a, n) ∈ t.live) :
    Accounted p ⟨pmmFreeContiguous a n t.pmm, t.live.erase (a, n)⟩ ∧
      Pool.Step t.pool (Tracked.pool ⟨pmmFreeContiguous a n t.pmm, t.live.erase (a, n)⟩) := by
  obtain ⟨⟨s, rfl, hs, hend⟩, hn, hb⟩ := h.ranges _ ha
  have htotal := h.wf.total
  have hlt : s < 0x100000 := by
    have hn' : 0 < n.toNat := hn
    have hend' : s + n.toNat ≤ t.pmm.pmmTotalPages.toNat := hend
    omega
  have hfree := pmmFreeContiguous_spec h.wf hb hs hn hend
  have hsame := sameTable_giveRun t.pmm s n.toNat
  have hperm := List.perm_cons_erase ha
  have hpool : Tracked.pool ⟨t.pmm.giveRun s n.toNat, t.live.erase (frameAddr s, n)⟩ =
      ⟨t.pool.free ∪ framesOf (frameAddr s, n), (t.live.erase (frameAddr s, n)).map framesOf⟩ := by
    apply Pool.ext
    · ext f
      rw [framesOf_frameAddr hlt]
      change (t.pmm.giveRun s n.toNat).Free f ↔ t.pmm.Free f ∨ (s ≤ f ∧ f < s + n.toNat)
      rw [Pmm.free_giveRun]
      refine or_congr_right ⟨fun hc => hc.2.2, fun hc => ⟨hb, ?_, hc⟩⟩
      exact lt_of_lt_of_le hc.2 hend
    · rfl
  have hstep : Pool.Step t.pool
      (Tracked.pool ⟨t.pmm.giveRun s n.toNat, t.live.erase (frameAddr s, n)⟩) := by
    rw [hpool]
    exact .release _ _ (hperm.map framesOf)
  rw [hfree]
  refine ⟨⟨h.wf.giveRun hs, h.table.trans hsame, ?_, h.owned.step hstep⟩, hstep⟩
  intro b hb
  exact hsame.range (h.ranges b (List.mem_of_mem_erase hb))

/-- **The allocator refines the pool.** -/
theorem PmmStep.simulates {p : Pmm} {t t' : Tracked} (h : Accounted p t) (hstep : PmmStep t t') :
    Accounted p t' ∧ (t' = t ∨ Pool.Step t.pool t'.pool) := by
  cases hstep with
  | allocContiguous n => exact h.allocates (allocates_allocContiguous t.pmm n)
  | allocPage => exact h.allocates (allocates_allocContiguous t.pmm 1)
  | allocPageBelow limit => exact h.allocates (allocates_allocPageBelow t.pmm limit)
  | freeContiguous a n ha =>
    obtain ⟨h1, h2⟩ := h.frees ha
    exact ⟨h1, .inr h2⟩
  | freePage a ha =>
    obtain ⟨h1, h2⟩ := h.frees ha
    exact ⟨h1, .inr h2⟩

theorem accounted_run {p : Pmm} {t t' : Tracked} (h : Accounted p t) (hrun : t.Reaches t') :
    Accounted p t' := by
  induction hrun with
  | refl => exact h
  | tail _ hstep ih => exact (PmmStep.simulates ih hstep).1

section

variable (info : E820Info) (k : KernelImage) (vmem : Mem)

theorem accounted_boot : Accounted (boot info k vmem).pmm (tracked info k vmem) :=
  ⟨boot_wf info k vmem, .refl _, by simp [tracked], Pool.Owned.initial _⟩

/-- A live frame was free when `pmm_init` returned, and its bit is set. -/
theorem Accounted.live_frame {p : Pmm} {t : Tracked} (h : Accounted p t) {a : U32 × U32}
    (ha : a ∈ t.live) {f : Nat} (hf : f ∈ framesOf a) :
    p.Free f ∧ f < t.pmm.pmmTotalPages.toNat ∧ pmmTestBit t.pmm.words f := by
  have hmem : framesOf a ∈ t.pool.live := List.mem_map_of_mem ha
  have hfree : p.Free f := h.owned.mem_all hmem hf
  have hlt : f < t.pmm.pmmTotalPages.toNat := by rw [h.table.total]; exact hfree.lt
  refine ⟨hfree, hlt, ?_⟩
  by_contra hbit
  refine Set.disjoint_left.1 (h.owned.apart _ hmem) hf ?_
  exact ⟨by rw [h.table.bitmap]; exact hfree.1, hlt, hbit⟩

/-- Free the ranges of a list, first to last. -/
def freeAll (ranges : List (U32 × U32)) (p : Pmm) : Pmm :=
  ranges.foldl (fun p a => pmmFreeContiguous a.1 a.2 p) p

/-- Freeing everything that is out is a run, whatever the order. -/
theorem reaches_freeAll : ∀ (order : List (U32 × U32)) (t : Tracked), order.Perm t.live →
    t.Reaches ⟨freeAll order t.pmm, []⟩ := by
  intro order
  induction order with
  | nil =>
    intro t ht
    obtain ⟨pmm, live⟩ := t
    obtain rfl : live = [] := ht.symm.eq_nil
    exact .refl
  | cons a order ih =>
    intro t ht
    have ha : a ∈ t.live := ht.mem_iff.1 List.mem_cons_self
    have hrest : order.Perm (t.live.erase a) := by
      have := ht.erase a
      rwa [List.erase_cons_head] at this
    refine .head (.freeContiguous a.1 a.2 ha) ?_
    exact ih ⟨pmmFreeContiguous a.1 a.2 t.pmm, t.live.erase a⟩ hrest

/-- What a state of the allocator promises about the ranges that are out. -/
structure Ownership (t : Tracked) : Prop where
  /-- No frame belongs to two of them. -/
  disjoint : (t.live.map framesOf).Pairwise Disjoint
  /-- Each frame is one of the table's, is marked, and is not the kernel's. -/
  frame : ∀ a ∈ t.live, ∀ f ∈ framesOf a, f < t.pmm.pmmTotalPages.toNat ∧
    pmmTestBit t.pmm.words f ∧ f ≠ 0 ∧ OutsideKernel k t.pmm f
  /-- None starts at address 0, and each has a frame. -/
  nonnull : ∀ a ∈ t.live, a.1 ≠ 0 ∧ (framesOf a).Nonempty
  /-- A null result is a failure: nothing has been taken. -/
  null : ∀ n limit, ((pmmAllocContiguous n t.pmm).1 = 0 → (pmmAllocContiguous n t.pmm).2 = t.pmm) ∧
    ((pmmAllocPage t.pmm).1 = 0 → (pmmAllocPage t.pmm).2 = t.pmm) ∧
    ((pmmAllocPageBelow limit t.pmm).1 = 0 → (pmmAllocPageBelow limit t.pmm).2 = t.pmm)

theorem Allocates.null {p : Pmm} (h : p.Wf) {n : U32} {r : U32 × Pmm} (hr : Allocates p n r)
    (h0 : r.1 = 0) : r.2 = p := by
  rcases hr with rfl | ⟨s, rfl, hn, -, hfree⟩
  · rfl
  · have hs := hfree s (le_refl s) (by omega)
    exact absurd h0 (frameAddr_ne_zero (h.lt hs) (h.pos hs))

/-- **Who owns which frame.**  In every state a run reaches after `pmm_init`, live
ranges are disjoint and clear of the kernel, and freeing all of them, in any
order, puts the statics back to what `pmm_init` left. -/
theorem pmm_ownership {t : Tracked} (hrun : (tracked info k vmem).Reaches t) :
    Ownership k t ∧ ∀ order, order.Perm t.live → freeAll order t.pmm = (boot info k vmem).pmm := by
  have h := accounted_run (accounted_boot info k vmem) hrun
  refine ⟨⟨h.owned.disjoint, ?_, ?_, ?_⟩, ?_⟩
  · intro a ha f hf
    obtain ⟨hfree, hlt, hbit⟩ := h.live_frame ha hf
    obtain ⟨-, -, h1, h2, h3⟩ := (boot_free_iff_outsideKernel info k vmem f).1 hfree
    exact ⟨hlt, hbit, by omega, h1, h2, by rwa [bitmapFrame_congr h.table]⟩
  · intro a ha
    obtain ⟨⟨s, haddr, hs, hend⟩, hn, -⟩ := h.ranges a ha
    have := h.wf.total
    have hlt : s < 0x100000 := by omega
    refine ⟨by rw [haddr]; exact frameAddr_ne_zero hlt hs, s, ?_⟩
    rw [show a = (frameAddr s, a.2) from Prod.ext haddr rfl, framesOf_frameAddr hlt]
    exact ⟨le_refl s, by omega⟩
  · intro n limit
    exact ⟨(allocates_allocContiguous t.pmm n).null h.wf,
      (allocates_allocContiguous t.pmm 1).null h.wf,
      (allocates_allocPageBelow t.pmm limit).null h.wf⟩
  · intro order hperm
    have hend := accounted_run h (reaches_freeAll order t hperm)
    refine hend.table.ext (boot_words_eq_nil info k vmem) fun f => ?_
    exact Set.ext_iff.1 (hend.owned.restored rfl) f

end

/-- A machine with memory from 1 to 4 MiB, of which the firmware keeps the third
in an entry of its own. -/
def overlapTable : E820Info where
  signature := E820_SIG
  entries := [⟨0x100000, 0x300000, 1, 1⟩, ⟨0x200000, 0x100000, 2, 1⟩]

/-- One page allocated on that machine. -/
theorem pmm_ownership_one_page :
    Ownership smallKernel ((tracked overlapTable smallKernel fun _ => 0).granted
      (pmmAllocPage (tracked overlapTable smallKernel fun _ => 0).pmm) 1) :=
  (pmm_ownership overlapTable smallKernel (fun _ => 0) (.single .allocPage)).1

/-! ## Reserved memory -/

/-- A byte of the frame belongs to an entry of another type than 1. -/
def Reserved (info : E820Info) (f : Nat) : Prop := ∃ e ∈ info.entries, e.type ≠ 1 ∧ e.Meets f

/-- The frame is `pmm_init`'s to give: there is a bitmap, the frame lies past 1 MiB, past the
kernel and outside the bitmap, and an entry of type 1 that starts and ends below 4 GiB holds all
of it, or starts in the last page below 4 GiB and ends behind it. -/
structure ToGive (info : E820Info) (k : KernelImage) (f : Nat) : Prop where
  fits : BitmapFits info k
  high : 256 ≤ f
  kernel : kernelEndFrame k ≤ f
  bitmap : ¬ BitmapPage info k f
  ram : ∃ e ∈ info.entries, e.type = 1 ∧ e.base.toNat < 0x100000000 ∧
    e.end64.toNat < 0x100000000 ∧ (f + 1) * 4096 ≤ e.end64.toNat ∧
      (e.base.toNat ≤ f * 4096 ∨ 0xFFFFF000 < e.base.toNat)

/-- The frame is in a range that is out. -/
def Tracked.Holds (t : Tracked) (f : Nat) : Prop := ∃ a ∈ t.live, f ∈ framesOf a

section

variable (info : E820Info) (k : KernelImage) (vmem : Mem)

theorem toGive_iff (f : Nat) : ToGive info k f ↔ (boot info k vmem).pmm.Free f := by
  rw [boot_free_iff]
  simp only [freedBy_iff]
  exact ⟨fun h => ⟨h.fits, h.ram, h.high, h.kernel, h.bitmap⟩,
    fun ⟨hfit, hram, hhigh, hkernel, hbitmap⟩ => ⟨hfit, hhigh, hkernel, hbitmap, hram⟩⟩

/-- What is granted was free when `pmm_init` returned. -/
theorem free_of_holds {t : Tracked} (hrun : (tracked info k vmem).Reaches t) {f : Nat}
    (hf : t.Holds f) : (boot info k vmem).pmm.Free f := by
  obtain ⟨a, ha, hmem⟩ := hf
  exact ((accounted_run (accounted_boot info k vmem) hrun).live_frame ha hmem).1

/-- **Every free frame is granted in the end**, when one page after the other is taken. -/
theorem Accounted.reaches_holds {p : Pmm} {f : Nat} : ∀ {n : Nat} {t : Tracked}, Accounted p t →
    t.pmm.Free f → t.pmm.freeBelow f = n → ∃ t', t.Reaches t' ∧ t'.Holds f := by
  intro n
  induction n with
  | zero =>
    intro t h hf hcount
    have hbelow := Pmm.freeBelow_eq_zero.1 hcount
    refine ⟨_, .single .allocPage, ?_⟩
    rcases pmmAllocPage_spec (p := t.pmm) with ⟨-, hnone⟩ | ⟨s, hr, hs, hfirst⟩
    · exact absurd hf (hnone f)
    -- nothing is free below the frame, so it is the first one
    obtain rfl : s = f := le_antisymm (Nat.le_of_not_lt fun hlt => hfirst f hlt hf)
      (Nat.le_of_not_lt fun hlt => hbelow s hlt hs)
    rw [hr]
    refine ⟨(frameAddr s, 1), ?_, ?_⟩
    · rw [Tracked.granted, if_neg (frameAddr_ne_zero (h.wf.lt hf) (h.wf.pos hf))]
      exact List.mem_cons_self
    · rw [framesOf_frameAddr (h.wf.lt hf)]
      exact ⟨le_refl s, Nat.lt_succ_self s⟩
  | succ n ih =>
    intro t h hf hcount
    rcases pmmAllocPage_spec (p := t.pmm) with ⟨-, hnone⟩ | ⟨s, hr, hs, hfirst⟩
    · exact absurd hf (hnone f)
    obtain ⟨g, hg, hgfree⟩ := Pmm.freeBelow_pos.1 (by rw [hcount]; exact Nat.succ_pos n)
    have hlt : s < f := lt_of_le_of_lt (Nat.le_of_not_lt fun hlt => hfirst g hlt hgfree) hg
    have hnext := (PmmStep.simulates h .allocPage).1
    have htake : (t.granted (pmmAllocPage t.pmm) 1).pmm = t.pmm.takeRun s 1 := by
      rw [hr]
      rfl
    have hf' : (t.granted (pmmAllocPage t.pmm) 1).pmm.Free f := by
      rw [htake, Pmm.free_takeRun h.wf hs.lt]
      exact ⟨hf, by omega⟩
    have hcount' : (t.granted (pmmAllocPage t.pmm) 1).pmm.freeBelow f = n := by
      rw [htake, Pmm.freeBelow_take h.wf hs hfirst, hcount, Nat.add_sub_cancel]
    obtain ⟨t', hrun, hholds⟩ := ih hnext hf' hcount'
    exact ⟨t', .head .allocPage hrun, hholds⟩

/-- **What a reserved entry can count on.**  A frame that meets one is free when `pmm_init`
returns exactly if it is `pmm_init`'s to give, and then, and only then, some sequence of calls
is given it.  So reserved memory wins on a machine if and only if none of it is to be given:
the entries are not compared with each other. -/
theorem pmm_reserved_iff :
    (∀ f, Reserved info f → ((boot info k vmem).pmm.Free f ↔ ToGive info k f) ∧
      ((∃ t, (tracked info k vmem).Reaches t ∧ t.Holds f) ↔ ToGive info k f)) ∧
    ((∀ f, Reserved info f → ¬ (boot info k vmem).pmm.Free f ∧
        ∀ t, (tracked info k vmem).Reaches t → ¬ t.Holds f) ↔
      ∀ f, Reserved info f → ¬ ToGive info k f) := by
  have hgranted : ∀ f, (∃ t, (tracked info k vmem).Reaches t ∧ t.Holds f) ↔ ToGive info k f := by
    intro f
    rw [toGive_iff info k vmem]
    refine ⟨fun ⟨t, hrun, hholds⟩ => free_of_holds info k vmem hrun hholds, fun hf => ?_⟩
    exact (accounted_boot info k vmem).reaches_holds hf rfl
  refine ⟨fun f _ => ⟨(toGive_iff info k vmem f).symm, hgranted f⟩, ?_⟩
  refine forall₂_congr fun f _ => ?_
  rw [← toGive_iff info k vmem f, ← hgranted f]
  exact ⟨fun h ⟨t, hrun, hholds⟩ => h.2 t hrun hholds,
    fun h => ⟨h, fun t hrun hholds => h ⟨t, hrun, hholds⟩⟩⟩

end

/-- The first frame of the reserved entry is free on the machine with the overlap. -/
theorem overlapTable_reserved_free :
    Reserved overlapTable 512 ∧ (boot overlapTable smallKernel (fun _ => 0)).pmm.Free 512 := by
  refine ⟨⟨_, List.mem_cons_of_mem _ List.mem_cons_self, by decide, ?_⟩, ?_⟩
  · exact ⟨0x200000, by decide, by decide, by decide, by decide⟩
  · exact (boot_free_iff overlapTable smallKernel (fun _ => 0) 512).2
      ⟨by decide, ⟨_, List.mem_cons_self, by decide⟩, by decide, by decide, by decide⟩

end Frewozet
