import Mathlib.Algebra.Ring.Nat
import Mathlib.Data.List.Basic

/-!
# Tilings

A list of pieces, each with a start and a stop, that covers an interval of
numbers from one end to the other without a gap.

* `Tiles` — the list covers `[lo, hi)`.
* `tiles_append` — a tiling is cut between any two of its pieces.
* `Tiles.replace` — a piece is exchanged for a tiling of the same interval.
* `Tiles.mem_bounds`, `Tiles.pairwise`, `Tiles.apart` — every piece lies inside, and
  each one ends before the next begins.
* `Tiles.sum`, `Tiles.length_le` — the lengths add up, and bound how many there are.
-/

namespace Tiling

variable {β : Type} (start stop : β → Nat)

/-- The pieces cover `[lo, hi)`, in order. -/
def Tiles : Nat → Nat → List β → Prop
  | lo, hi, [] => lo = hi
  | lo, hi, b :: bs => start b = lo ∧ start b ≤ stop b ∧ Tiles (stop b) hi bs

variable {start stop}

theorem Tiles.le : ∀ {bs : List β} {lo hi : Nat}, Tiles start stop lo hi bs → lo ≤ hi := by
  intro bs
  induction bs with
  | nil => intro lo hi h; exact Nat.le_of_eq h
  | cons b bs ih =>
    rintro lo hi ⟨h1, h2, h3⟩
    have := ih h3
    omega

/-- **Cutting a tiling in two.** -/
theorem tiles_append : ∀ {xs ys : List β} {lo hi : Nat}, Tiles start stop lo hi (xs ++ ys) ↔
    ∃ mid, Tiles start stop lo mid xs ∧ Tiles start stop mid hi ys := by
  intro xs
  induction xs with
  | nil =>
    intro ys lo hi
    constructor
    · exact fun h => ⟨lo, rfl, h⟩
    · rintro ⟨mid, h1, h2⟩
      obtain rfl : lo = mid := h1
      exact h2
  | cons x xs ih =>
    intro ys lo hi
    constructor
    · rintro ⟨h1, h2, h3⟩
      obtain ⟨mid, h4, h5⟩ := ih.1 h3
      exact ⟨mid, ⟨h1, h2, h4⟩, h5⟩
    · rintro ⟨mid, ⟨h1, h2, h3⟩, h4⟩
      exact ⟨h1, h2, ih.2 ⟨mid, h3, h4⟩⟩

/-- The interval around one piece. -/
theorem tiles_around {xs ys : List β} {b : β} {lo hi : Nat} :
    Tiles start stop lo hi (xs ++ b :: ys) ↔
      Tiles start stop lo (start b) xs ∧ start b ≤ stop b ∧ Tiles start stop (stop b) hi ys := by
  rw [tiles_append]
  constructor
  · rintro ⟨mid, h1, h2, h3, h4⟩
    exact ⟨h2 ▸ h1, h3, h4⟩
  · rintro ⟨h1, h2, h3⟩
    exact ⟨start b, h1, rfl, h2, h3⟩

/-- **Exchanging a piece** for a tiling of its interval. -/
theorem Tiles.replace {xs ys zs : List β} {b : β} {lo hi : Nat}
    (h : Tiles start stop lo hi (xs ++ b :: ys)) (hz : Tiles start stop (start b) (stop b) zs) :
    Tiles start stop lo hi (xs ++ zs ++ ys) := by
  obtain ⟨h1, -, h3⟩ := tiles_around.1 h
  rw [List.append_assoc]
  exact tiles_append.2 ⟨_, h1, tiles_append.2 ⟨_, hz, h3⟩⟩

/-- A piece at the end. -/
theorem Tiles.snoc {xs : List β} {b : β} {lo mid hi : Nat} (h : Tiles start stop lo mid xs)
    (hb : start b = mid) (hle : mid ≤ hi) (hstop : stop b = hi) :
    Tiles start stop lo hi (xs ++ [b]) :=
  tiles_append.2 ⟨mid, h, hb, by omega, hstop⟩

theorem Tiles.mem_bounds {bs : List β} {lo hi : Nat} (h : Tiles start stop lo hi bs) {b : β}
    (hb : b ∈ bs) : lo ≤ start b ∧ start b ≤ stop b ∧ stop b ≤ hi := by
  obtain ⟨xs, ys, rfl⟩ := List.append_of_mem hb
  obtain ⟨h1, h2, h3⟩ := tiles_around.1 h
  exact ⟨h1.le, h2, h3.le⟩

/-- **Each piece ends before the next begins.** -/
theorem Tiles.pairwise : ∀ {bs : List β} {lo hi : Nat}, Tiles start stop lo hi bs →
    bs.Pairwise fun b c => stop b ≤ start c := by
  intro bs
  induction bs with
  | nil => intro lo hi _; exact .nil
  | cons b bs ih =>
    rintro lo hi ⟨-, -, h⟩
    exact List.pairwise_cons.2 ⟨fun c hc => (h.mem_bounds hc).1, ih h⟩

/-- Two pieces are the same one, or one ends before the other begins. -/
theorem Tiles.apart {bs : List β} {lo hi : Nat} (h : Tiles start stop lo hi bs) {b c : β}
    (hb : b ∈ bs) (hc : c ∈ bs) : b = c ∨ stop b ≤ start c ∨ stop c ≤ start b := by
  obtain ⟨xs, ys, rfl⟩ := List.append_of_mem hc
  obtain ⟨h1, -, h3⟩ := tiles_around.1 h
  rcases List.mem_append.1 hb with hb | hb
  · exact .inr (.inl (h1.mem_bounds hb).2.2)
  rcases List.mem_cons.1 hb with rfl | hb
  · exact .inl rfl
  · exact .inr (.inr (h3.mem_bounds hb).1)

/-- **The lengths add up.** -/
theorem Tiles.sum : ∀ {bs : List β} {lo hi : Nat}, Tiles start stop lo hi bs →
    lo + (bs.map fun b => stop b - start b).sum = hi := by
  intro bs
  induction bs with
  | nil =>
    intro lo hi h
    have heq : lo = hi := h
    simpa using heq
  | cons b bs ih =>
    rintro lo hi ⟨h1, h2, h3⟩
    have := ih h3
    rw [List.map_cons, List.sum_cons]
    omega

/-- Pieces of a certain length at least: how many there can be. -/
theorem Tiles.length_le {k : Nat} : ∀ {bs : List β} {lo hi : Nat}, Tiles start stop lo hi bs →
    (∀ b ∈ bs, start b + k ≤ stop b) → lo + bs.length * k ≤ hi := by
  intro bs
  induction bs with
  | nil =>
    intro lo hi h _
    have heq : lo = hi := h
    simp [heq]
  | cons b bs ih =>
    rintro lo hi ⟨h1, -, h3⟩ hk
    have := ih h3 fun c hc => hk c (List.mem_cons_of_mem _ hc)
    have := hk b List.mem_cons_self
    rw [List.length_cons, Nat.add_one_mul]
    omega

end Tiling
