import Mathlib.Tactic.Common

/-!
# Machines that take labelled steps

A machine is what each label does to its state, where it can happen at all; a run is one
label after the other.

* `Steps.run` — runs.
* `Steps.run_simulation` — **a machine follows another**: each step is answered by the step
  that is seen of it, or by none where nothing is seen.
* `Steps.run_prefix` — where there is never a choice, a run that ends is the only one.
-/

variable {σ τ : Type*} {L K : Type*}

/-- What a label does, where it can happen. -/
abbrev Steps (L σ : Type*) := L → σ → Option σ

namespace Steps

/-- One label after the other. -/
def run (step : Steps L σ) : List L → σ → Option σ
  | [], s => some s
  | l :: ls, s => (step l s).bind (run step ls)

variable {step : Steps L σ}

theorem run_cons {l : L} {ls : List L} {s u : σ} (h : run step (l :: ls) s = some u) :
    ∃ s', step l s = some s' ∧ run step ls s' = some u :=
  Option.bind_eq_some_iff.1 h

theorem run_append (ls ks : List L) (s : σ) :
    run step (ls ++ ks) s = (run step ls s).bind (run step ks) := by
  induction ls generalizing s with
  | nil => rfl
  | cons l ls ih =>
    rw [List.cons_append, run, run, Option.bind_assoc]
    exact congrArg _ (funext ih)

/-- The step that answers one to `s'`: none where nothing is seen. -/
def Answers (step' : Steps K τ) (R : σ → τ → Prop) (s' : σ) (t : τ) : Option K → Prop
  | none => R s' t
  | some k => ∃ t', step' k t = some t' ∧ R s' t'

/-- **The simulation rule**, `see` saying what is seen of a label. -/
theorem run_simulation {step' : Steps K τ} {R : σ → τ → Prop} (see : L → Option K)
    (h : ∀ l s t s', R s t → step l s = some s' → Answers step' R s' t (see l)) :
    ∀ {ls : List L} {s s' : σ} {t : τ}, R s t → run step ls s = some s' →
      ∃ t', run step' (ls.filterMap see) t = some t' ∧ R s' t' := by
  intro ls
  induction ls with
  | nil =>
    intro s s' t hR hrun
    exact ⟨t, rfl, Option.some.inj hrun ▸ hR⟩
  | cons l ls ih =>
    intro s s' t hR hrun
    obtain ⟨u, hstep, hrest⟩ := run_cons hrun
    have hone := h l s t u hR hstep
    rw [List.filterMap_cons]
    cases hsee : see l with
    | none =>
      rw [hsee] at hone
      exact ih hone hrest
    | some k =>
      rw [hsee] at hone
      obtain ⟨t₁, ht₁, hR₁⟩ := hone
      obtain ⟨t', ht', hR'⟩ := ih hR₁ hrest
      exact ⟨t', by rw [run, ht₁]; exact ht', hR'⟩

/-- Where at most one of the labels `P` can happen, and a run by them has come to an end,
every run by them is the first part of it. -/
theorem run_prefix {P : L → Prop} (h : ∀ {s l k s' s''}, P l → P k → step l s = some s' →
      step k s = some s'' → l = k) {u : σ} (hend : ∀ l, P l → step l u = none) :
    ∀ {ks ls : List L} {s s' : σ}, (∀ k ∈ ks, P k) → run step ks s = some u →
      (∀ l ∈ ls, P l) → run step ls s = some s' → ls <+: ks := by
  intro ks
  induction ks with
  | nil =>
    intro ls s s' _ hks hl hrun
    cases ls with
    | nil => exact List.nil_prefix
    | cons l ls =>
      obtain ⟨v, hv, -⟩ := run_cons hrun
      rw [Option.some.inj hks, hend l (hl l List.mem_cons_self)] at hv
      cases hv
  | cons k ks ih =>
    intro ls s s' hk hks hl hrun
    cases ls with
    | nil => exact List.nil_prefix
    | cons l ls =>
      obtain ⟨w, hw, hksw⟩ := run_cons hks
      obtain ⟨v, hv, hlsv⟩ := run_cons hrun
      obtain rfl := h (hl l List.mem_cons_self) (hk k List.mem_cons_self) hv hw
      obtain rfl := Option.some.inj (hv.symm.trans hw)
      exact List.prefix_cons_inj l |>.2 (ih (fun k hk' => hk k (List.mem_cons_of_mem _ hk')) hksw
        (fun l' hl' => hl l' (List.mem_cons_of_mem _ hl')) hlsv)

end Steps
