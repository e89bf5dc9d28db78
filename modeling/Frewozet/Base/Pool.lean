import Mathlib.Data.Set.Lattice
import Mathlib.Logic.Relation
import Mathlib.Order.CompletePartialOrder

/-!
# A pool of resources with owners

What an allocator is for, with nothing said about how it keeps its books: a set
of free resources and the grants that are out.

* `Pool.Step` — some free resources are granted, or a grant comes back whole.
* `Pool.Owned` — every resource is free or in exactly one grant; kept by every
  step (`Owned.step`) and so along every run (`Owned.run`).
* `Owned.restored` — when every grant is back, the free set is the one the pool
  started with.
-/

/-- The free resources, and the grants that are out. -/
@[ext] structure Pool (α : Type) where
  free : Set α
  live : List (Set α)

namespace Pool

variable {α : Type}

/-- Grant free resources, or take a grant back. -/
inductive Step (p : Pool α) : Pool α → Prop
  | grant (s : Set α) (h : s ⊆ p.free) : Step p ⟨p.free \ s, s :: p.live⟩
  | release (s : Set α) (rest : List (Set α)) (h : p.live.Perm (s :: rest)) :
      Step p ⟨p.free ∪ s, rest⟩

/-- Every resource of `all` is free or granted, and never twice over. -/
structure Owned (all : Set α) (p : Pool α) : Prop where
  disjoint : p.live.Pairwise Disjoint
  apart : ∀ s ∈ p.live, Disjoint s p.free
  covers : ∀ a, a ∈ all ↔ a ∈ p.free ∨ ∃ s ∈ p.live, a ∈ s

theorem Owned.initial (all : Set α) : Owned all ⟨all, []⟩ :=
  ⟨.nil, by simp, by simp⟩

theorem Owned.grant {all : Set α} {p : Pool α} (h : Owned all p) {s : Set α} (hs : s ⊆ p.free) :
    Owned all ⟨p.free \ s, s :: p.live⟩ := by
  refine ⟨?_, ?_, ?_⟩
  · refine List.pairwise_cons.2 ⟨fun t ht => ?_, h.disjoint⟩
    exact ((h.apart t ht).mono_right hs).symm
  · intro t ht
    rcases List.mem_cons.1 ht with rfl | ht
    · exact Set.disjoint_sdiff_right
    · exact (h.apart t ht).mono_right Set.sdiff_subset
  · intro a
    rw [h.covers a]
    constructor
    · rintro (hf | ⟨t, ht, ha⟩)
      · by_cases ha : a ∈ s
        · exact .inr ⟨s, List.mem_cons_self, ha⟩
        · exact .inl ⟨hf, ha⟩
      · exact .inr ⟨t, List.mem_cons_of_mem _ ht, ha⟩
    · rintro (hf | ⟨t, ht, ha⟩)
      · exact .inl hf.1
      · rcases List.mem_cons.1 ht with rfl | ht
        · exact .inl (hs ha)
        · exact .inr ⟨t, ht, ha⟩

theorem Owned.release {all : Set α} {p : Pool α} (h : Owned all p) {s : Set α}
    {rest : List (Set α)} (hperm : p.live.Perm (s :: rest)) : Owned all ⟨p.free ∪ s, rest⟩ := by
  have hd := List.pairwise_cons.1 ((hperm.pairwise_iff fun h => h.symm).1 h.disjoint)
  refine ⟨hd.2, ?_, ?_⟩
  · intro t ht
    refine Set.disjoint_union_right.2 ⟨h.apart t ?_, (hd.1 t ht).symm⟩
    exact hperm.mem_iff.2 (List.mem_cons_of_mem _ ht)
  · intro a
    rw [h.covers a]
    constructor
    · rintro (hf | ⟨t, ht, ha⟩)
      · exact .inl (.inl hf)
      · rcases List.mem_cons.1 (hperm.mem_iff.1 ht) with rfl | ht
        · exact .inl (.inr ha)
        · exact .inr ⟨t, ht, ha⟩
    · rintro ((hf | ha) | ⟨t, ht, ha⟩)
      · exact .inl hf
      · exact .inr ⟨s, hperm.mem_iff.2 List.mem_cons_self, ha⟩
      · exact .inr ⟨t, hperm.mem_iff.2 (List.mem_cons_of_mem _ ht), ha⟩

theorem Owned.step {all : Set α} {p q : Pool α} (h : Owned all p) (hstep : Step p q) :
    Owned all q := by
  cases hstep with
  | grant s hs => exact h.grant hs
  | release s rest hperm => exact h.release hperm

/-- **Ownership along a run.** -/
theorem Owned.run {all : Set α} {p q : Pool α} (h : Owned all p)
    (hrun : Relation.ReflTransGen Step p q) : Owned all q := by
  induction hrun with
  | refl => exact h
  | tail _ hstep ih => exact ih.step hstep

/-- **With every grant back, everything is free again.** -/
theorem Owned.restored {all : Set α} {p : Pool α} (h : Owned all p) (hnil : p.live = []) :
    p.free = all := by
  ext a
  rw [h.covers a, hnil]
  simp

/-- A granted resource belongs to the pool. -/
theorem Owned.mem_all {all : Set α} {p : Pool α} (h : Owned all p) {s : Set α} (hs : s ∈ p.live)
    {a : α} (ha : a ∈ s) : a ∈ all :=
  (h.covers a).2 (.inr ⟨s, hs, ha⟩)

end Pool
