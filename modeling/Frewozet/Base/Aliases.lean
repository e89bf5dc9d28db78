import Mathlib.Data.Set.Defs
import Mathlib.Logic.Function.Basic

/-!
# Memory behind a translation

What is found at an address is what the place holds that it is translated to.  Two addresses
may lead to one place; then a store through either is seen through both.

* `look tr mem void` — what is found at each address, `void` where there is no place.
* `look_alias` — a store is seen at every address that leads to its place.
* `Apart tr W` — no two addresses of `W` lead to one place.
* `look_store` — **within such a set a store changes what is found at its own address, and
  nothing else**.
-/

namespace Aliases

variable {V P B : Type}

/-- What is found at an address. -/
def look (tr : V → Option P) (mem : P → B) (void : B) (v : V) : B := ((tr v).map mem).getD void

/-- No two of the addresses lead to one place. -/
def Apart (tr : V → Option P) (W : Set V) : Prop :=
  ∀ v ∈ W, ∀ w ∈ W, ∀ p, tr v = some p → tr w = some p → v = w

variable {tr : V → Option P} {mem mem' : P → B} {void : B} {v w : V} {p : P} {W : Set V}

theorem look_of_place (h : tr v = some p) : look tr mem void v = mem p := by
  rw [look, h]
  rfl

theorem look_congr (h : ∀ p, tr v = some p → mem' p = mem p) :
    look tr mem' void v = look tr mem void v := by
  cases hp : tr v with
  | none => rw [look, look, hp]; rfl
  | some p => rw [look_of_place hp, look_of_place hp, h p hp]

variable [DecidableEq P]

/-- **A store is seen at every alias** of the address. -/
theorem look_alias (h : tr w = some p) (b : B) : look tr (Function.update mem p b) void w = b := by
  rw [look_of_place h, Function.update_self]

/-- A store is not seen where the place is another. -/
theorem look_elsewhere (h : tr w ≠ some p) (b : B) :
    look tr (Function.update mem p b) void w = look tr mem void w := by
  refine look_congr fun q hq => Function.update_of_ne ?_ b mem
  rintro rfl
  exact h hq

/-- **A store, seen from a set of addresses without aliases.** -/
theorem look_store [DecidableEq V] (hW : Apart tr W) (hv : v ∈ W) (hw : w ∈ W)
    (h : tr v = some p) (b : B) :
    look tr (Function.update mem p b) void w = Function.update (look tr mem void) v b w := by
  by_cases hp : tr w = some p
  · rw [hW v hv w hw p h hp, look_alias hp, Function.update_self]
  · have hne : w ≠ v := by
      rintro rfl
      exact hp h
    rw [look_elsewhere hp, Function.update_of_ne hne]

end Aliases
