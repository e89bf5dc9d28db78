import Mathlib.Tactic.Common

/-!
# The first run that fits

A scan over positions `0, 1, 2, …` of which some are free, looking for `want`
free ones in a row.  It keeps the start and the length of the run it is in and
throws both away at every position that is taken.

* `IsRun free n s` — the `n` positions from `s` on are free.
* `runScan` — the scan, over a given number of positions.
* `runScan_some`, `runScan_none` — what it finds is a run that ends in time and
  no run starts before it; when it finds nothing there is no run.
-/

namespace FirstFit

/-- The `n` positions from `s` on are free. -/
def IsRun (free : Nat → Bool) (n s : Nat) : Prop := ∀ i, s ≤ i → i < s + n → free i = true

instance (free : Nat → Bool) (n s : Nat) : Decidable (IsRun free n s) :=
  decidable_of_iff (∀ i < n, free (s + i) = true)
    ⟨fun h i h1 h2 => by simpa [Nat.add_sub_cancel' h1] using h (i - s) (by omega),
      fun h i hi => h (s + i) (by omega) (by omega)⟩

/-- Look at `left` more positions, from `page` on, inside a run that started at
`runStart` and has reached length `runLen`. -/
def runScan (free : Nat → Bool) (want : Nat) : Nat → Nat → Nat → Nat → Option Nat
  | 0, _, _, _ => none
  | left + 1, page, runStart, runLen =>
    if free page then
      let runStart := if runLen = 0 then page else runStart
      if runLen + 1 = want then some runStart
      else runScan free want left (page + 1) runStart (runLen + 1)
    else runScan free want left (page + 1) runStart 0

variable {free : Nat → Bool} {want : Nat}

/-- What the scan knows on its way: the run it is in, and that no run of the
wanted length starts before that one. -/
structure Scanning (free : Nat → Bool) (want page runStart runLen : Nat) : Prop where
  short : runLen < want
  inside : runLen ≤ page
  start : runLen ≠ 0 → runStart = page - runLen
  run : IsRun free runLen (page - runLen)
  none_before : ∀ t < page - runLen, ¬ IsRun free want t

theorem Scanning.zero (h : 0 < want) : Scanning free want 0 0 0 :=
  ⟨h, Nat.le_refl _, fun h => absurd rfl h, fun i _ h => by omega, fun t h => by omega⟩

/-- One more free position makes the run longer. -/
theorem Scanning.extend {page rs rl : Nat} (h : Scanning free want page rs rl)
    (hf : free page = true) : IsRun free (rl + 1) (page - rl) := by
  intro i h1 h2
  have hin := h.inside
  by_cases hi : i = page
  · rw [hi, hf]
  · exact h.run i h1 (by omega)

/-- A taken position ends every run that reaches it. -/
theorem Scanning.reset {page rs rl : Nat} (h : Scanning free want page rs rl)
    (hf : free page = false) : Scanning free want (page + 1) rs 0 := by
  have hs := h.short
  have hin := h.inside
  refine ⟨by omega, by omega, fun h => absurd rfl h, fun i _ h => by omega, ?_⟩
  intro t ht hrun
  by_cases hlt : t < page - rl
  · exact h.none_before t hlt hrun
  · have := hrun page (by omega) (by omega)
    rw [hf] at this
    exact Bool.false_ne_true this

theorem Scanning.advance {page rs rl : Nat} (h : Scanning free want page rs rl)
    (hf : free page = true) (hne : rl + 1 ≠ want) :
    Scanning free want (page + 1) (if rl = 0 then page else rs) (rl + 1) := by
  have hs := h.short
  have hin := h.inside
  have hsub : page + 1 - (rl + 1) = page - rl := by omega
  refine ⟨by omega, by omega, fun _ => ?_, by rw [hsub]; exact h.extend hf,
    fun t ht => h.none_before t (by omega)⟩
  by_cases h0 : rl = 0
  · rw [if_pos h0]; omega
  · rw [if_neg h0, h.start h0]; omega

theorem runScan_spec : ∀ (left page rs rl : Nat), Scanning free want page rs rl →
    match runScan free want left page rs rl with
    | some s => IsRun free want s ∧ s + want ≤ page + left ∧ ∀ t < s, ¬ IsRun free want t
    | none => ∀ s, s + want ≤ page + left → ¬ IsRun free want s := by
  intro left
  induction left with
  | zero =>
    intro page rs rl h s hs
    have := h.short
    have := h.inside
    exact h.none_before s (by omega)
  | succ left ih =>
    intro page rs rl h
    have hin := h.inside
    cases hf : free page with
    | false =>
      rw [runScan]
      simp only [hf, Bool.false_eq_true, if_false]
      have := ih (page + 1) rs 0 (h.reset hf)
      rwa [Nat.add_right_comm page 1 left] at this
    | true =>
      rw [runScan]
      simp only [hf, if_true]
      by_cases hw : rl + 1 = want
      · have hstart : (if rl = 0 then page else rs) = page - rl := by
          by_cases h0 : rl = 0
          · rw [if_pos h0]; omega
          · rw [if_neg h0, h.start h0]
        simp only [hw, if_true, hstart]
        exact ⟨hw ▸ h.extend hf, by omega, h.none_before⟩
      · simp only [hw, if_false]
        have := ih (page + 1) _ (rl + 1) (h.advance hf hw)
        rwa [Nat.add_right_comm page 1 left] at this

/-- **What the scan finds is the first run.** -/
theorem runScan_some {total s : Nat} (hw : 0 < want)
    (h : runScan free want total 0 0 0 = some s) :
    IsRun free want s ∧ s + want ≤ total ∧ ∀ t < s, ¬ IsRun free want t := by
  have := runScan_spec total 0 0 0 (Scanning.zero hw : Scanning free want 0 0 0)
  rw [h, Nat.zero_add] at this
  exact this

/-- **Nothing found means nothing there.** -/
theorem runScan_none {total : Nat} (hw : 0 < want)
    (h : runScan free want total 0 0 0 = none) (s : Nat) (hs : s + want ≤ total) :
    ¬ IsRun free want s := by
  have := runScan_spec total 0 0 0 (Scanning.zero hw : Scanning free want 0 0 0)
  rw [h, Nat.zero_add] at this
  exact this s hs

end FirstFit
