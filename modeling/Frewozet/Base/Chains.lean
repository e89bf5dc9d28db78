import Mathlib.Data.List.FinRange
import Mathlib.Data.List.Perm.Basic
import Mathlib.Logic.Function.Basic

/-!
# Tables of chains

A table has `n` chains, and what is added goes in front of the chain its index names.

* `Chains.push`, `Chains.pushAll` — one addition, and a row of them.
* `pushAll_apply` — what a chain is after them.
* `pushAll_find?` — **a search in one chain** finds what a search through everything that
  was added finds, the last addition first, if the index is one of what is searched for.
* `pushAll_all` — **the chains one after the other** are everything that was added.
-/

/-- `n` chains. -/
abbrev Chains (n : Nat) (α : Type*) := Fin n → List α

namespace Chains

variable {n : Nat} {α β : Type*}

/-- In front of the chain `i`. -/
def push (i : Fin n) (a : α) (t : Chains n α) : Chains n α := Function.update t i (a :: t i)

/-- One addition after the other: `node b`, in front of the chain `index b`. -/
def pushAll (index : β → Fin n) (node : β → α) (bs : List β) (t : Chains n α) : Chains n α :=
  bs.foldl (fun t b => t.push (index b) (node b)) t

/-- All that is in the table, chain after chain. -/
def all (t : Chains n α) : List α := (List.finRange n).flatMap t

theorem push_self (i : Fin n) (a : α) (t : Chains n α) : t.push i a i = a :: t i :=
  Function.update_self ..

theorem push_of_ne {i j : Fin n} (h : j ≠ i) (a : α) (t : Chains n α) : t.push i a j = t j :=
  Function.update_of_ne h ..

variable (index : β → Fin n) (node : β → α)

theorem pushAll_cons (b : β) (bs : List β) (t : Chains n α) :
    pushAll index node (b :: bs) t = pushAll index node bs (t.push (index b) (node b)) := rfl

/-- A chain holds what was added to it, the last addition first. -/
theorem pushAll_apply (bs : List β) (t : Chains n α) (i : Fin n) :
    pushAll index node bs t i =
      ((bs.reverse.filter fun b => index b = i).map node) ++ t i := by
  induction bs generalizing t with
  | nil => rfl
  | cons b bs ih =>
    rw [pushAll_cons, ih, List.reverse_cons, List.filter_append, List.map_append,
      List.append_assoc]
    by_cases hb : index b = i
    · subst hb
      rw [push_self, List.filter_singleton, decide_eq_true rfl]
      rfl
    · rw [push_of_ne (Ne.symm hb), List.filter_singleton, decide_eq_false hb]
      rfl

/-- **A search in one chain.** -/
theorem pushAll_find? {p : α → Bool} {i : Fin n} (h : ∀ b, p (node b) → index b = i)
    (bs : List β) :
    (pushAll index node bs (fun _ => []) i).find? p =
      (bs.reverse.find? (p ∘ node)).map node := by
  have hskip : (fun b => decide (index b = i) && (p ∘ node) b) = p ∘ node := by
    funext b
    cases hb : p (node b) with
    | true => simp [hb, h b hb]
    | false => simp [hb]
  rw [pushAll_apply, List.append_nil, List.find?_map, List.find?_filter]
  simp only [Bool.decide_and, Bool.decide_eq_true, decide_eq_true_eq, hskip]

/-- One addition is one more. -/
theorem push_all (i : Fin n) (a : α) (t : Chains n α) : (t.push i a).all.Perm (a :: t.all) := by
  obtain ⟨before, after, hsplit⟩ := List.append_of_mem (List.mem_finRange i)
  have hnodup := List.nodup_finRange n
  rw [hsplit, List.nodup_append] at hnodup
  have hother : ∀ {js : List (Fin n)}, i ∉ js → js.flatMap (t.push i a) = js.flatMap t :=
    fun hi => List.flatMap_congr fun j hj => push_of_ne (ne_of_mem_of_not_mem hj hi) a t
  rw [all, all, hsplit, List.flatMap_append, List.flatMap_append, List.flatMap_cons,
    List.flatMap_cons, push_self,
    hother (fun hi => hnodup.2.2 i hi i List.mem_cons_self rfl),
    hother (List.nodup_cons.1 hnodup.2.1).1]
  exact List.perm_middle

/-- **Everything that was added** is in the table, once. -/
theorem pushAll_all (bs : List β) (t : Chains n α) :
    (pushAll index node bs t).all.Perm (bs.map node ++ t.all) := by
  induction bs generalizing t with
  | nil => exact List.Perm.refl _
  | cons b bs ih =>
    rw [pushAll_cons, List.map_cons, List.cons_append]
    refine (ih _).trans ?_
    exact ((push_all (index b) (node b) t).append_left _).trans List.perm_middle

end Chains
