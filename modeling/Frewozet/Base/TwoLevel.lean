import Mathlib.Tactic.Common

/-!
# Two-level tables

A directory of tables of entries, all of them held in frames of one store, as a
memory management unit walks them.  Nothing is said about how an entry is
encoded: `target e` is the frame it points to, if it is present.

* `leaf`, `walk` — the entry a walk ends at, and the frame it points to.
* `Proper` — the directory is not one of its own tables and no table hangs at two
  places.
* `leaf_set` — storing an entry of a table changes the walks that end there and
  no others.
* `walk_install` — hanging an empty table into the directory changes no walk.
* `leaf_congr` — entries of frames that are not tables do not matter.
-/

namespace TwoLevel

variable {F I E : Type} [DecidableEq F] [DecidableEq I]

/-- Replace one entry. -/
def setEntry (T : F → I → E) (f : F) (i : I) (e : E) : F → I → E := fun f' i' =>
  if f' = f ∧ i' = i then e else T f' i'

/-- Replace every entry of one frame. -/
def clear (T : F → I → E) (f : F) (e : E) : F → I → E := fun f' i' =>
  if f' = f then e else T f' i'

variable (target : E → Option F) (dir : F)

/-- The entry the walk for `(s, i)` ends at, if there is a table at `s`. -/
def leaf (T : F → I → E) (s i : I) : Option E := (target (T dir s)).map fun t => T t i

/-- The frame the walk ends at. -/
def walk (T : F → I → E) (s i : I) : Option F := (leaf target dir T s i).bind target

/-- The frame hangs in the directory. -/
def IsTable (T : F → I → E) (t : F) : Prop := ∃ s, target (T dir s) = some t

/-- The directory is no table, and each table hangs at one place. -/
structure Proper (T : F → I → E) : Prop where
  apart : ¬ IsTable target dir T dir
  inj : ∀ s s' t, target (T dir s) = some t → target (T dir s') = some t → s = s'

variable {target dir} {T T' : F → I → E} {s s' i i' : I} {t f : F} {e e₀ : E}

omit [DecidableEq I] in
@[simp] theorem clear_same : clear T f e f i = e := if_pos rfl

omit [DecidableEq I] in
theorem clear_of_ne (h : t ≠ f) : clear T f e t i = T t i := if_neg h

@[simp] theorem set_same : setEntry T f i e f i = e := if_pos ⟨rfl, rfl⟩

theorem set_of_ne (h : t ≠ f) : setEntry T f i e t i' = T t i' := if_neg fun hc => h hc.1

omit [DecidableEq F] [DecidableEq I] in
theorem leaf_of_target (h : target (T dir s) = some t) : leaf target dir T s i = some (T t i) := by
  rw [leaf, h, Option.map_some]

omit [DecidableEq F] [DecidableEq I] in
theorem leaf_of_none (h : target (T dir s) = none) : leaf target dir T s i = none := by
  rw [leaf, h, Option.map_none]

omit [DecidableEq F] [DecidableEq I] in
/-! ## Frames that are not tables -/

omit [DecidableEq F] [DecidableEq I] in
/-- Two stores that agree on the directory and on its tables have the same
walks. -/
theorem leaf_congr (hdir : ∀ j, T' dir j = T dir j)
    (htable : ∀ t, IsTable target dir T t → ∀ j, T' t j = T t j) :
    leaf target dir T' s i = leaf target dir T s i := by
  unfold leaf
  rw [hdir]
  cases h : target (T dir s) with
  | none => rfl
  | some t => rw [Option.map_some, Option.map_some, htable t ⟨s, h⟩]

omit [DecidableEq F] [DecidableEq I] in
theorem isTable_congr (hdir : ∀ j, T' dir j = T dir j) :
    IsTable target dir T' t ↔ IsTable target dir T t := by
  simp only [IsTable, hdir]

omit [DecidableEq F] [DecidableEq I] in
theorem Proper.congr (h : Proper target dir T) (hdir : ∀ j, T' dir j = T dir j) :
    Proper target dir T' :=
  ⟨by rw [isTable_congr hdir]; exact h.apart, by simpa only [hdir] using h.inj⟩

/-! ## Storing an entry of a table -/

theorem set_dir (h : Proper target dir T) (ht : target (T dir s) = some t) (j : I) :
    setEntry T t i e dir j = T dir j :=
  set_of_ne fun hc => h.apart ⟨s, hc ▸ ht⟩

theorem Proper.of_set (h : Proper target dir T) (ht : target (T dir s) = some t) :
    Proper target dir (setEntry T t i e) :=
  h.congr (set_dir h ht)

/-- **One entry, one walk.** -/
theorem leaf_set (h : Proper target dir T) (ht : target (T dir s) = some t) :
    leaf target dir (setEntry T t i e) s' i' =
      if s' = s ∧ i' = i then some e else leaf target dir T s' i' := by
  unfold leaf
  rw [set_dir h ht]
  cases ht' : target (T dir s') with
  | none =>
    rw [if_neg]
    · rfl
    · rintro ⟨rfl, -⟩
      rw [ht] at ht'
      cases ht'
  | some t' =>
    rw [Option.map_some, Option.map_some, setEntry]
    by_cases hc : t' = t ∧ i' = i
    · obtain ⟨rfl, rfl⟩ := hc
      rw [if_pos ⟨rfl, rfl⟩, if_pos ⟨h.inj s' s t' ht' ht, rfl⟩]
    · rw [if_neg hc, if_neg]
      rintro ⟨rfl, rfl⟩
      rw [ht] at ht'
      cases ht'
      exact hc ⟨rfl, rfl⟩

/-! ## Hanging a table in -/

/-- The store after frame `t`, filled with `e₀`, has been hung in at `s` through
the entry `e`. -/
def install (T : F → I → E) (dir : F) (s : I) (t : F) (e₀ e : E) : F → I → E :=
  setEntry (clear T t e₀) dir s e

/-- What hanging a table in asks for: the place is empty, the frame is neither
the directory nor a table, the new entry points to it and the filling is not
present. -/
structure Vacant (target : E → Option F) (dir : F) (T : F → I → E) (s : I) (t : F) (e₀ e : E) :
    Prop where
  place : target (T dir s) = none
  apart : t ≠ dir
  table : ¬ IsTable target dir T t
  entry : target e = some t
  filling : target e₀ = none

theorem install_dir (h : Vacant target dir T s t e₀ e) (j : I) :
    install T dir s t e₀ e dir j = if j = s then e else T dir j := by
  unfold install setEntry
  by_cases hj : j = s
  · rw [if_pos ⟨rfl, hj⟩, if_pos hj]
  · rw [if_neg fun hc => hj hc.2, if_neg hj, clear_of_ne h.apart.symm]

theorem target_install (h : Vacant target dir T s t e₀ e) :
    target (install T dir s t e₀ e dir s') = if s' = s then some t else target (T dir s') := by
  rw [install_dir h]
  split
  · exact h.entry
  · rfl

theorem install_table (h : Vacant target dir T s t e₀ e) (j : I) :
    install T dir s t e₀ e t j = e₀ := by
  rw [install, set_of_ne h.apart, clear_same]

theorem install_other (hdir : f ≠ dir) (ht : f ≠ t) (j : I) :
    install T dir s t e₀ e f j = T f j := by
  rw [install, set_of_ne hdir, clear_of_ne ht]

theorem isTable_install (h : Vacant target dir T s t e₀ e) :
    IsTable target dir (install T dir s t e₀ e) f ↔ f = t ∨ IsTable target dir T f := by
  unfold IsTable
  constructor
  · rintro ⟨j, hj⟩
    rw [target_install h] at hj
    split at hj
    · exact .inl (Option.some.inj hj).symm
    · exact .inr ⟨j, hj⟩
  · rintro (rfl | ⟨j, hj⟩)
    · exact ⟨s, by rw [target_install h, if_pos rfl]⟩
    · refine ⟨j, ?_⟩
      rw [target_install h, if_neg, hj]
      rintro rfl
      rw [h.place] at hj
      cases hj

theorem Proper.of_install (hp : Proper target dir T) (h : Vacant target dir T s t e₀ e) :
    Proper target dir (install T dir s t e₀ e) := by
  refine ⟨?_, ?_⟩
  · rw [isTable_install h]
    rintro (hc | hc)
    · exact h.apart hc.symm
    · exact hp.apart hc
  · intro j j' f hj hj'
    rw [target_install h] at hj hj'
    split at hj <;> split at hj' <;> rename_i h1 h2
    · rw [h1, h2]
    · cases hj
      exact absurd ⟨j', hj'⟩ h.table
    · cases hj'
      exact absurd ⟨j, hj⟩ h.table
    · exact hp.inj j j' f hj hj'

/-- **Where the new table hangs the walks now end in the filling; nothing else
changes.** -/
theorem leaf_install (hp : Proper target dir T) (h : Vacant target dir T s t e₀ e) :
    leaf target dir (install T dir s t e₀ e) s' i =
      if s' = s then some e₀ else leaf target dir T s' i := by
  by_cases hs : s' = s
  · rw [if_pos hs, leaf_of_target (t := t) (by rw [target_install h, if_pos hs]), install_table h]
  · rw [if_neg hs]
    cases ht : target (T dir s') with
    | none => rw [leaf_of_none ht, leaf_of_none (by rw [target_install h, if_neg hs, ht])]
    | some t' =>
      have hdir : t' ≠ dir := by rintro rfl; exact hp.apart ⟨s', ht⟩
      have htable : t' ≠ t := by rintro rfl; exact h.table ⟨s', ht⟩
      rw [leaf_of_target ht, leaf_of_target (by rw [target_install h, if_neg hs, ht]),
        install_other hdir htable]

/-- **An empty table changes no walk.** -/
theorem walk_install (hp : Proper target dir T) (h : Vacant target dir T s t e₀ e) :
    walk target dir (install T dir s t e₀ e) s' i = walk target dir T s' i := by
  unfold walk
  rw [leaf_install hp h]
  split
  · rename_i hs
    rw [hs, leaf_of_none h.place]
    exact h.filling
  · rfl

end TwoLevel
