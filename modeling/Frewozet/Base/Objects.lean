import Mathlib.Data.List.Basic
import Mathlib.Logic.Function.Basic

/-!
# Objects in memory

What a program may rely on that is handed memory piece by piece: every piece is an object
with contents of its own, whatever is done to the others.

* `Extent` — where the cells of an object lie; `Extent.Apart`, two that share no cell.
* `Contents` — what has been stored in an object, cell by cell.
* `InMemory mem es cs` — the memory holds these contents at these places.
* `InMemory.congr`, `InMemory.alloc`, `InMemory.store` — what a change elsewhere, a new object
  and a store do.
-/

namespace Objects

/-- What is known of the cells of an object: nothing of those nobody has stored to. -/
abbrev Contents (V : Type) := Nat → Option V

/-- A store to a cell. -/
def Contents.set {V : Type} (c : Contents V) (k : Nat) (v : V) : Contents V :=
  Function.update c k (some v)

/-- Where the cells of an object lie, and how many there are. -/
structure Extent (A : Type) where
  cell : Nat → A
  size : Nat

namespace Extent

variable {A V : Type}

/-- The address is that of a cell. -/
def Covers (e : Extent A) (a : A) : Prop := ∃ k < e.size, e.cell k = a

/-- Different cells lie at different addresses. -/
def Simple (e : Extent A) : Prop := ∀ j k, j < e.size → k < e.size → e.cell j = e.cell k → j = k

/-- No cell of one is a cell of the other. -/
def Apart (e f : Extent A) : Prop := ∀ a, e.Covers a → ¬ f.Covers a

/-- The memory holds the contents there. -/
def Holds (e : Extent A) (mem : A → V) (c : Contents V) : Prop :=
  ∀ k v, k < e.size → c k = some v → mem (e.cell k) = v

theorem Apart.symm {e f : Extent A} (h : e.Apart f) : f.Apart e := fun a hf he => h a he hf

theorem covers_cell {e : Extent A} {k : Nat} (hk : k < e.size) : e.Covers (e.cell k) := ⟨k, hk, rfl⟩

theorem Holds.congr {e : Extent A} {mem mem' : A → V} {c : Contents V} (h : e.Holds mem c)
    (hm : ∀ a, e.Covers a → mem' a = mem a) : e.Holds mem' c := fun k v hk hc =>
  (hm _ (covers_cell hk)).trans (h k v hk hc)

/-- The object that is stored to. -/
theorem Holds.set {e : Extent A} {mem mem' : A → V} {c : Contents V} (h : e.Holds mem c)
    (hs : e.Simple) {k : Nat} {v : V} (hk : k < e.size) (hv : mem' (e.cell k) = v)
    (hm : ∀ a, a ≠ e.cell k → mem' a = mem a) : e.Holds mem' (c.set k v) := by
  intro j w hj hc
  by_cases hjk : j = k
  · subst hjk
    rw [Contents.set, Function.update_self] at hc
    rw [hv, Option.some.inj hc]
  · rw [Contents.set, Function.update_of_ne hjk] at hc
    rw [hm _ fun heq => hjk (hs j k hj hk heq)]
    exact h j w hj hc

/-- A store past the end is to none of the cells. -/
theorem Holds.set_outside {e : Extent A} {mem : A → V} {c : Contents V} (h : e.Holds mem c)
    {k : Nat} (v : V) (hk : e.size ≤ k) : e.Holds mem (c.set k v) := by
  intro j w hj hc
  rw [Contents.set, Function.update_of_ne (by omega)] at hc
  exact h j w hj hc

end Extent

/-- **The objects are in memory**: they share no cell, and it holds the contents of each. -/
structure InMemory {A V : Type} (mem : A → V) (es : List (Extent A)) (cs : List (Contents V)) :
    Prop where
  length : es.length = cs.length
  simple : ∀ e ∈ es, e.Simple
  apart : es.Pairwise Extent.Apart
  holds : ∀ (i : Nat) e c, es[i]? = some e → cs[i]? = some c → e.Holds mem c

namespace InMemory

variable {A V : Type} {mem mem' : A → V} {es : List (Extent A)} {cs : List (Contents V)}

theorem nil (mem : A → V) : InMemory mem [] [] :=
  ⟨rfl, fun _ he => absurd he List.not_mem_nil, .nil, fun _ _ _ he => by cases he⟩

/-- A change outside all objects. -/
theorem congr (h : InMemory mem es cs)
    (hm : ∀ e ∈ es, ∀ a, e.Covers a → mem' a = mem a) : InMemory mem' es cs :=
  ⟨h.length, h.simple, h.apart, fun i e c he hc =>
    (h.holds i e c he hc).congr (hm e (List.mem_of_getElem? he))⟩

/-- **A new object**, apart from the others. -/
theorem alloc (h : InMemory mem es cs) {e : Extent A} {c : Contents V} (hs : e.Simple)
    (hapart : ∀ f ∈ es, f.Apart e) (hc : e.Holds mem c) :
    InMemory mem (es ++ [e]) (cs ++ [c]) where
  length := by rw [List.length_append, List.length_append, h.length]; rfl
  simple := fun f hf => by
    rcases List.mem_append.1 hf with hf | hf
    · exact h.simple f hf
    · rw [List.mem_singleton.1 hf]
      exact hs
  apart := List.pairwise_append.2
    ⟨h.apart, List.pairwise_singleton _ _, fun f hf g hg => List.mem_singleton.1 hg ▸ hapart f hf⟩
  holds := fun i f d hf hd => by
    by_cases hi : i < es.length
    · rw [List.getElem?_append_left hi] at hf
      rw [List.getElem?_append_left (h.length ▸ hi)] at hd
      exact h.holds i f d hf hd
    · have hle : es.length ≤ i := Nat.le_of_not_lt hi
      rw [List.getElem?_append_right hle] at hf
      rw [List.getElem?_append_right (h.length ▸ hle), ← h.length] at hd
      obtain rfl := List.mem_singleton.1 (List.mem_of_getElem? hf)
      obtain rfl := List.mem_singleton.1 (List.mem_of_getElem? hd)
      exact hc

/-- Two objects of the list are apart. -/
theorem apart_of_ne (h : InMemory mem es cs) {i j : Nat} {e f : Extent A} (he : es[i]? = some e)
    (hf : es[j]? = some f) (hne : i ≠ j) : e.Apart f := by
  obtain ⟨hi, rfl⟩ := List.getElem?_eq_some_iff.1 he
  obtain ⟨hj, rfl⟩ := List.getElem?_eq_some_iff.1 hf
  rcases Nat.lt_or_gt_of_ne hne with hlt | hlt
  · exact List.pairwise_iff_getElem.1 h.apart i j hi hj hlt
  · exact (List.pairwise_iff_getElem.1 h.apart j i hj hi hlt).symm

/-- **A store** to one object changes the contents of that one. -/
theorem store (h : InMemory mem es cs) {i k : Nat} {v : V} {e : Extent A} (he : es[i]? = some e)
    (hk : k < e.size) (hv : mem' (e.cell k) = v) (hm : ∀ a, a ≠ e.cell k → mem' a = mem a) :
    InMemory mem' es (cs.modify i fun c => c.set k v) where
  length := by rw [List.length_modify, h.length]
  simple := h.simple
  apart := h.apart
  holds := fun j f d hf hd => by
    rw [List.getElem?_modify] at hd
    obtain ⟨c, hc, rfl⟩ := Option.map_eq_some_iff.1 hd
    by_cases hij : i = j
    · subst hij
      obtain rfl := Option.some.inj (he.symm.trans hf)
      rw [if_pos rfl]
      exact (h.holds i e c hf hc).set (h.simple e (List.mem_of_getElem? he)) hk hv hm
    · rw [if_neg hij]
      refine (h.holds j f c hf hc).congr fun a ha => hm a ?_
      rintro rfl
      exact h.apart_of_ne he hf hij _ (Extent.covers_cell hk) ha

/-- A store to no cell of an object changes nothing. -/
theorem store_outside (h : InMemory mem es cs) {i k : Nat} (v : V)
    (hk : ∀ e, es[i]? = some e → e.size ≤ k) :
    InMemory mem es (cs.modify i fun c => c.set k v) where
  length := by rw [List.length_modify, h.length]
  simple := h.simple
  apart := h.apart
  holds := fun j f d hf hd => by
    rw [List.getElem?_modify] at hd
    obtain ⟨c, hc, rfl⟩ := Option.map_eq_some_iff.1 hd
    have hold := h.holds j f c hf hc
    by_cases hij : i = j
    · subst hij
      rw [if_pos rfl]
      exact hold.set_outside v (hk f hf)
    · rw [if_neg hij]
      exact hold

end InMemory

end Objects
