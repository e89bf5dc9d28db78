import Frewozet.Base.Exec

/-!
# One machine that simulates another

Calls over two kinds of state, and what it means that one of them does what the other does.

* `Simulates R x y s t` — whenever `y` returns from `t`, `x` returns the same from `s`, and the two
  final states are related by `R`.  Nothing is asked where `y` stops.
* `Simulates.of_ret`, `Simulates.of_wp`, `simulates_pure`, `Simulates.bind`,
  `Simulates.bind_of`, `Simulates.step`, `Simulates.get` — the rules.
* `Simulates.transfer` — **what holds of `y` when it returns holds of `x`**, up to `R`.
-/

namespace Exec

variable {σ τ α β : Type}

/-- From `s`, `x` does what `y` does from `t`. -/
def Simulates (R : σ → τ → Prop) (x : Exec σ α) (y : Exec τ α) (s : σ) (t : τ) : Prop :=
  ∀ a t', y t = .ret a t' → ∃ s', x s = .ret a s' ∧ R s' t'

variable {R R' : σ → τ → Prop} {x : Exec σ α} {y : Exec τ α} {s : σ} {t : τ}

theorem Simulates.of_ret {a : α} {s' : σ} {t' : τ} (hx : x s = .ret a s') (hy : y t = .ret a t')
    (h : R s' t') : Simulates R x y s t := by
  intro b u hu
  rw [hy] at hu
  cases hu
  exact ⟨s', hx, h⟩

/-- The same, for a simulation that a precondition speaks of. -/
theorem Simulates.of_wp {a : α} {t' : τ} (hy : y t = .ret a t')
    (hx : wp x (fun b s' => b = a ∧ R s' t') (fun _ _ => False) s) : Simulates R x y s t := by
  cases hs : x s with
  | stop w s' => exact (wp_stops hx hs).elim
  | ret b s' =>
    obtain ⟨rfl, h⟩ := wp_ret hx hs
    exact .of_ret hs hy h

theorem simulates_pure (h : R s t) (a : α) : Simulates R (pure a) (pure a) s t := .of_ret rfl rfl h

/-- One call after the other.  What comes second may use how the first one went. -/
theorem Simulates.bind {f : α → Exec σ β} {g : α → Exec τ β} (h : Simulates R x y s t)
    (hf : ∀ a s' t', x s = .ret a s' → y t = .ret a t' → R s' t' → Simulates R' (f a) (g a) s' t') :
    Simulates R' (x >>= f) (y >>= g) s t := by
  intro b u hu
  simp only [Bind.bind] at hu ⊢
  cases hy : y t with
  | stop w t' => rw [hy] at hu; cases hu
  | ret a t' =>
    obtain ⟨s', hx, hR⟩ := h a t' hy
    rw [hy] at hu
    rw [hx]
    exact hf a s' t' hx hy hR b u hu

/-- The same, with what a precondition says of the leader. -/
theorem Simulates.bind_of {f : α → Exec σ β} {g : α → Exec τ β} (h : Simulates R x y s t)
    {Q : α → τ → Prop} {S : Stop → τ → Prop} (hy : wp y Q S t)
    (hf : ∀ a s' t', R s' t' → Q a t' → Simulates R' (f a) (g a) s' t') :
    Simulates R' (x >>= f) (y >>= g) s t :=
  h.bind fun a s' t' _ ht hR => hf a s' t' hR (wp_ret hy ht)

/-- After a call that is known to return. -/
theorem Simulates.step {f : α → Exec σ β} {g : α → Exec τ β} {a : α} {s' : σ} {t' : τ}
    (hx : x s = .ret a s') (hy : y t = .ret a t') (h : Simulates R (f a) (g a) s' t') :
    Simulates R (x >>= f) (y >>= g) s t := by
  intro b u hu
  simp only [Bind.bind] at hu ⊢
  rw [hy] at hu
  rw [hx]
  exact h b u hu

/-- What the state is read for. -/
theorem Simulates.get {f : σ → Exec σ α} (h : Simulates R (f s) y s t) :
    Simulates R (Exec.get >>= f) y s t := h

/-- **What holds of the leader holds of what simulates it.** -/
theorem Simulates.transfer (h : Simulates R x y s t) {Q : α → τ → Prop}
    (hy : wp y Q (fun _ _ => False) t) :
    wp x (fun a s' => ∃ t', y t = .ret a t' ∧ R s' t' ∧ Q a t') (fun _ _ => False) s := by
  cases hu : y t with
  | stop w t' => exact (wp_stops hy hu).elim
  | ret a t' =>
    obtain ⟨s', hx, hR⟩ := h a t' hu
    simp only [wp, hx]
    exact ⟨t', rfl, hR, wp_ret hy hu⟩

end Exec
