import Mathlib.Tactic.Common

/-!
# Calls that may not return

A small language for imperative code: a call reads and writes a state and ends
in an `Outcome`, either returning a value or stopping for good.  The state is
kept in both cases, so that what a call did before it stopped can be spoken of.

* `Exec σ α` — the calls, a lawful monad.
* `wp x Q S` — the weakest precondition: run from this state, `x` either returns
  with `Q` or stops with `S`.  `wp_bind`, `wp_pure`, `wp_get`, `wp_modify`,
  `wp_stop` and `wp_mono` are the rules, and `wp_ret`, `wp_stops`, `wp_total`
  read a precondition back as a fact about a given outcome.
* `Keeps P x` — `x` keeps `P`, whether it returns or stops, with a rule for every
  construct.
* `runAll`, `EachOk`, `runAll_invariant`, `runAll_each` — a list of calls in a row,
  the runs in which each call is made where it may be, the invariant rule for them,
  and the rule that speaks of every single step.
-/

/-- Why a call does not return: an access to an address nothing is mapped at, or
a loop that never ends. -/
inductive Stop where
  | fault
  | hang
  deriving DecidableEq, Repr

/-- How a call ends, and in which state. -/
inductive Outcome (σ α : Type) where
  | ret (a : α) (s : σ)
  | stop (why : Stop) (s : σ)

/-- The state a call ends in. -/
def Outcome.state {σ α : Type} : Outcome σ α → σ
  | .ret _ s => s
  | .stop _ s => s

@[simp] theorem Outcome.state_ret {σ α : Type} (a : α) (s : σ) : (Outcome.ret a s).state = s := rfl

@[simp] theorem Outcome.state_stop {σ α : Type} (w : Stop) (s : σ) :
    (Outcome.stop w s : Outcome σ α).state = s := rfl

/-- A call on a state `σ` that returns an `α`. -/
def Exec (σ α : Type) := σ → Outcome σ α

namespace Exec

variable {σ τ α β : Type}

instance : Monad (Exec σ) where
  pure a := fun s => .ret a s
  bind x f := fun s =>
    match x s with
    | .ret a s' => f a s'
    | .stop w s' => .stop w s'

instance : LawfulMonad (Exec σ) := .mk' _
  (fun x => by
    funext s
    change (match x s with
      | .ret a s' => .ret a s'
      | .stop w s' => .stop w s') = x s
    cases x s <;> rfl)
  (fun _ _ => rfl)
  (fun x f g => by
    funext s
    simp only [bind]
    cases x s <;> rfl)

/-- Read the state. -/
def get : Exec σ σ := fun s => .ret s s

/-- Change the state. -/
def modify (f : σ → σ) : Exec σ Unit := fun s => .ret () (f s)

/-- Stop for good. -/
def stop (w : Stop) : Exec σ α := fun s => .stop w s

/-- Go on with the value, or stop when there is none. -/
def ofOption (w : Stop) : Option α → Exec σ α
  | some a => pure a
  | none => stop w

/-- Run a call on one part of the state. -/
def zoom (view : τ → σ) (put : σ → τ → τ) (x : Exec σ α) : Exec τ α := fun t =>
  match x (view t) with
  | .ret a s => .ret a (put s t)
  | .stop w s => .stop w (put s t)

/-! ## Weakest preconditions -/

/-- Run from the given state, `x` returns with `Q` or stops with `S`. -/
def wp (x : Exec σ α) (Q : α → σ → Prop) (S : Stop → σ → Prop) (s : σ) : Prop :=
  match x s with
  | .ret a s' => Q a s'
  | .stop w s' => S w s'

variable {Q Q' : α → σ → Prop} {S S' : Stop → σ → Prop} {s s' : σ}

@[simp] theorem wp_pure (a : α) : wp (pure a) Q S s ↔ Q a s := Iff.rfl

@[simp] theorem wp_bind (x : Exec σ α) (f : α → Exec σ β) {R : β → σ → Prop} :
    wp (x >>= f) R S s ↔ wp x (fun a => wp (f a) R S) S s := by
  simp only [wp, bind]
  cases x s <;> rfl

@[simp] theorem wp_get {Q : σ → σ → Prop} : wp get Q S s ↔ Q s s := Iff.rfl

@[simp] theorem wp_modify (f : σ → σ) {Q : Unit → σ → Prop} :
    wp (modify f) Q S s ↔ Q () (f s) := Iff.rfl

@[simp] theorem wp_stop (w : Stop) : wp (stop w) Q S s ↔ S w s := Iff.rfl

@[simp] theorem wp_ofOption_some (w : Stop) (a : α) :
    wp (ofOption w (some a)) Q S s ↔ Q a s := Iff.rfl

@[simp] theorem wp_ofOption_none (w : Stop) : wp (ofOption w none) Q S s ↔ S w s := Iff.rfl

theorem wp_zoom {view : τ → σ} {put : σ → τ → τ} {x : Exec σ α} {Q : α → τ → Prop}
    {S : Stop → τ → Prop} {t : τ} :
    wp (zoom view put x) Q S t ↔
      wp x (fun a s => Q a (put s t)) (fun w s => S w (put s t)) (view t) := by
  simp only [wp, zoom]
  cases x (view t) <;> rfl

theorem wp_mono {x : Exec σ α} (h : wp x Q S s) (hQ : ∀ a s', Q a s' → Q' a s')
    (hS : ∀ w s', S w s' → S' w s') : wp x Q' S' s := by
  revert h
  simp only [wp]
  cases x s with
  | ret a s' => exact hQ a s'
  | stop w s' => exact hS w s'

theorem wp_trivial {x : Exec σ α} : wp x (fun _ _ => True) (fun _ _ => True) s := by
  simp only [wp]
  cases x s <;> trivial

theorem wp_and {x : Exec σ α} (h : wp x Q S s) (h' : wp x Q' S' s) :
    wp x (fun a t => Q a t ∧ Q' a t) (fun w t => S w t ∧ S' w t) s := by
  revert h h'
  simp only [wp]
  cases x s with
  | ret a s' => exact And.intro
  | stop w s' => exact And.intro

/-- What a precondition says of a call that returned. -/
theorem wp_ret {x : Exec σ α} {a : α} (h : wp x Q S s) (hx : x s = .ret a s') : Q a s' := by
  simpa only [wp, hx] using h

/-- What a precondition says of a call that stopped. -/
theorem wp_stops {x : Exec σ α} {w : Stop} (h : wp x Q S s) (hx : x s = .stop w s') : S w s' := by
  simpa only [wp, hx] using h

/-- A call that never stops returns. -/
theorem wp_total {x : Exec σ α} (h : wp x Q (fun _ _ => False) s) :
    ∃ a s', x s = .ret a s' ∧ Q a s' := by
  cases hx : x s with
  | ret a s' => exact ⟨a, s', rfl, wp_ret h hx⟩
  | stop w s' => exact (wp_stops h hx).elim

/-- A call that returns, returns what it returns. -/
theorem wp_ran {x : Exec σ α} (h : wp x Q S s) :
    wp x (fun a t => x s = .ret a t ∧ Q a t) S s := by
  revert h
  simp only [wp]
  cases x s with
  | ret a t => exact fun h => ⟨rfl, h⟩
  | stop w t => exact id

/-- A call that returns hands over to what comes next. -/
theorem bind_ret {x : Exec σ α} {a : α} (h : x s = .ret a s') (f : α → Exec σ β) :
    (x >>= f) s = f a s' := by
  simp only [bind, h]

theorem wp_bind_ret {x : Exec σ α} {a : α} (h : x s = .ret a s') {f : α → Exec σ β}
    {R : β → σ → Prop} : wp (x >>= f) R S s ↔ wp (f a) R S s' := by
  rw [wp, bind_ret h, wp]

/-- A precondition whose conclusion is about the final state only. -/
theorem wp_state {x : Exec σ α} {P : σ → Prop} :
    wp x (fun _ => P) (fun _ => P) s ↔ P (x s).state := by
  simp only [wp]
  cases x s <;> rfl

/-! ## What a call keeps -/

/-- Run where `P` holds, the call ends where `P` holds, returned or stopped. -/
def Keeps (P : σ → Prop) (x : Exec σ α) : Prop := ∀ s, P s → wp x (fun _ => P) (fun _ => P) s

section

variable {P : σ → Prop}

theorem keeps_pure (a : α) : Keeps P (pure a) := fun _ hs => hs

theorem keeps_bind {x : Exec σ α} {f : α → Exec σ β} (hx : Keeps P x) (hf : ∀ a, Keeps P (f a)) :
    Keeps P (x >>= f) := fun s hs =>
  (wp_bind x f).2 (wp_mono (hx s hs) (fun a t ht => hf a t ht) fun _ _ ht => ht)

theorem keeps_get : Keeps P get := fun _ hs => hs

theorem keeps_modify {f : σ → σ} (h : ∀ s, P s → P (f s)) : Keeps P (modify f) := h

theorem keeps_stop (w : Stop) : Keeps P (stop w : Exec σ α) := fun _ hs => hs

theorem keeps_ofOption (w : Stop) (o : Option α) : Keeps P (ofOption w o) := by
  cases o with
  | none => exact keeps_stop w
  | some a => exact keeps_pure a

theorem keeps_ite {c : Prop} [Decidable c] {x y : Exec σ α} (hx : Keeps P x) (hy : Keeps P y) :
    Keeps P (if c then x else y) := by
  split
  · exact hx
  · exact hy

theorem keeps_zoom {view : τ → σ} {put : σ → τ → τ} {x : Exec σ α} {R : τ → Prop}
    (h : ∀ t, R t → wp x (fun _ s => R (put s t)) (fun _ s => R (put s t)) (view t)) :
    Keeps R (zoom view put x) := fun t ht => wp_zoom.2 (h t ht)

end

/-! ## Calls in a row -/

/-- Run the calls of a list one after the other, as far as they return. -/
def runAll (step : β → Exec σ Unit) : List β → Exec σ Unit
  | [] => pure ()
  | b :: bs => do
    step b
    runAll step bs

@[simp] theorem runAll_nil (step : β → Exec σ Unit) : runAll step [] s = .ret () s := rfl

theorem runAll_cons (step : β → Exec σ Unit) (b : β) (bs : List β) :
    runAll step (b :: bs) = step b >>= fun _ => runAll step bs := rfl

/-- A call that returns is followed by the others. -/
theorem runAll_of_ret {step : β → Exec σ Unit} {b : β} {bs : List β} (h : step b s = .ret () s') :
    runAll step (b :: bs) s = runAll step bs s' := by
  simp only [runAll_cons, bind, h]

/-- Every call of the run is made in a state that allows it. -/
def EachOk (step : β → Exec σ Unit) (Ok : σ → β → Prop) : List β → σ → Prop
  | [], _ => True
  | b :: bs, s => Ok s b ∧ ∀ s', step b s = .ret () s' → EachOk step Ok bs s'

theorem EachOk.imp {step : β → Exec σ Unit} {Ok Ok' : σ → β → Prop}
    (h : ∀ s b, Ok s b → Ok' s b) : ∀ {bs : List β} {s : σ}, EachOk step Ok bs s →
      EachOk step Ok' bs s := by
  intro bs
  induction bs with
  | nil => exact fun _ => trivial
  | cons b bs ih => exact fun hok => ⟨h _ _ hok.1, fun s' hx => ih (hok.2 s' hx)⟩

/-- **The invariant rule.**  `I` holds while the calls return; `J` is what is
left of it when one stops. -/
theorem runAll_invariant {step : β → Exec σ Unit} {Ok : σ → β → Prop} {I J : σ → Prop}
    (hstep : ∀ s b, I s → Ok s b → wp (step b) (fun _ => I) (fun _ => J) s) :
    ∀ (bs : List β) (s : σ), I s → EachOk step Ok bs s →
      wp (runAll step bs) (fun _ => I) (fun _ => J) s := by
  intro bs
  induction bs with
  | nil => intro s hs _; exact hs
  | cons b bs ih =>
    intro s hs hok
    have hb := hstep s b hs hok.1
    rw [runAll_cons, wp_bind]
    cases hx : step b s with
    | ret u s' =>
      simp only [wp, hx] at hb ⊢
      exact ih s' hb (hok.2 s' hx)
    | stop w s' =>
      simp only [wp, hx] at hb ⊢
      exact hb

/-- **Every step of a run**, if no step stops: it is made, and what is known of a single
step is known of it. -/
theorem runAll_each {step : β → Exec σ Unit} {Ok : σ → β → Prop} {I : σ → Prop}
    {R : β → σ → σ → Prop}
    (hstep : ∀ s b, I s → Ok s b → wp (step b) (fun _ s' => I s' ∧ R b s s') (fun _ _ => False) s)
    {b : β} {post : List β} :
    ∀ {pre : List β} {s : σ}, I s → EachOk step Ok (pre ++ b :: post) s →
      ∃ t t', runAll step pre s = .ret () t ∧ I t ∧ Ok t b ∧ step b t = .ret () t' ∧ R b t t' := by
  intro pre
  induction pre with
  | nil =>
    intro s hs hok
    have hb := hstep s b hs hok.1
    obtain ⟨⟨⟩, s', hx, -, hr⟩ := wp_total hb
    exact ⟨s, s', rfl, hs, hok.1, hx, hr⟩
  | cons c pre ih =>
    intro s hs hok
    have hc := hstep s c hs hok.1
    obtain ⟨⟨⟩, s', hx, hs', -⟩ := wp_total hc
    rw [runAll_of_ret hx]
    exact ih hs' (hok.2 s' hx)

theorem keeps_runAll {step : β → Exec σ Unit} {P : σ → Prop} : ∀ {bs : List β},
    (∀ b ∈ bs, Keeps P (step b)) → Keeps P (runAll step bs) := by
  intro bs
  induction bs with
  | nil => exact fun _ => keeps_pure ()
  | cons b bs ih =>
    intro h
    rw [runAll_cons]
    exact keeps_bind (h b List.mem_cons_self) fun _ =>
      ih fun c hc => h c (List.mem_cons_of_mem _ hc)

end Exec
