import Mathlib.Tactic.Common

/-!
# Counted loops

`for (i = 0; i < n; i++)` over a state, and its invariant rule.

* `forRange n f s` — run `f 0`, …, `f (n - 1)`.
* `forRange_rule` — **the invariant rule**: what holds before the first round and goes
  from each round to the next holds at the end.
* `forRange_hom` — a map that each round commutes with commutes with the loop.
* `forRangeM`, `forRangeM_rule`, `forRangeM_hom` — the rules where a round can fail.
-/

variable {σ : Type}

/-- Run `f` for `0`, …, `n - 1`. -/
def forRange : Nat → (Nat → σ → σ) → σ → σ
  | 0, _, s => s
  | n + 1, f, s => f n (forRange n f s)

theorem forRange_zero (f : Nat → σ → σ) (s : σ) : forRange 0 f s = s := rfl

theorem forRange_succ (n : Nat) (f : Nat → σ → σ) (s : σ) :
    forRange (n + 1) f s = f n (forRange n f s) := rfl

-- a loop over a screen is not to be unrolled by the elaborator
attribute [irreducible] forRange

theorem forRange_rule {P : Nat → σ → Prop} {f : Nat → σ → σ} {s : σ} (h0 : P 0 s) :
    ∀ {n : Nat}, (∀ i < n, ∀ u, P i u → P (i + 1) (f i u)) → P n (forRange n f s) := by
  intro n
  induction n with
  | zero => intro _; rwa [forRange_zero]
  | succ n ih =>
    intro hstep
    rw [forRange_succ]
    exact hstep n (Nat.lt_succ_self n) _ (ih fun i hi => hstep i (Nat.lt_succ_of_lt hi))

theorem forRange_hom {g : σ → σ} {f : Nat → σ → σ} (h : ∀ i s, g (f i s) = f i (g s)) (n : Nat)
    (s : σ) : g (forRange n f s) = forRange n f (g s) := by
  induction n with
  | zero => rw [forRange_zero, forRange_zero]
  | succ n ih => rw [forRange_succ, forRange_succ, h, ih]

/-- A loop whose rounds can fail. -/
def forRangeM : Nat → (Nat → σ → Option σ) → σ → Option σ
  | 0, _, s => some s
  | n + 1, f, s => forRangeM n f s >>= f n

theorem forRangeM_rule {P : Nat → σ → Prop} {f : Nat → σ → Option σ} {s : σ} (h0 : P 0 s) :
    ∀ {n : Nat}, (∀ i < n, ∀ u, P i u → ∃ v, f i u = some v ∧ P (i + 1) v) →
      ∃ v, forRangeM n f s = some v ∧ P n v := by
  intro n
  induction n with
  | zero => exact fun _ => ⟨s, rfl, h0⟩
  | succ n ih =>
    intro hstep
    obtain ⟨u, hu, hP⟩ := ih fun i hi => hstep i (Nat.lt_succ_of_lt hi)
    obtain ⟨v, hv, hQ⟩ := hstep n (Nat.lt_succ_self n) u hP
    exact ⟨v, by rw [forRangeM, hu]; exact hv, hQ⟩

theorem forRangeM_hom {g : σ → σ} {f : Nat → σ → Option σ} (h : ∀ i s, f i (g s) = (f i s).map g)
    (n : Nat) (s : σ) : forRangeM n f (g s) = (forRangeM n f s).map g := by
  induction n with
  | zero => rfl
  | succ n ih =>
    rw [forRangeM, forRangeM, ih]
    cases forRangeM n f s with
    | none => rfl
    | some u => exact h n u
