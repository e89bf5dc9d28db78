import Frewozet.Base.Chains
import Frewozet.Base.CString
import Frewozet.Terminal.Code
import Mathlib.Data.List.TakeWhile

/-!
# `command_hashtable.c`

The table of commands: 100 chains, and a new command goes in front of its chain.

* `strcmp`, `hash`, `registerCommand`, `lookupCommand`, `lookupCommandNode` — the code.
  A result `none` means that a null pointer was followed: what `kmalloc` returned for a
  node, or a key that `strdup` could not copy.
* `Registration` — the arguments of `register_command`; `registerEach` is a row of calls.
* `findNode_eq`, `chain_find?` — what the loop along a chain finds, and that a search in
  one chain is a search through all registrations.
* `latest` — what the table is for: of the registrations of a key the last one counts.

A function pointer is `none` where it is null.
-/

namespace Frewozet

/-! ## Strings -/

/-- `strcmp`. -/
def strcmp : List U8 → List U8 → Int
  | c :: s, d :: t =>
    if c ≠ 0 ∧ d ≠ 0 then if c ≠ d then c.toNat - d.toNat else strcmp s t
    else c.toNat - d.toNat
  | s, t => (s.headD 0).toNat - (t.headD 0).toNat

theorem cstr_cons_of_ne {c : U8} (h : c ≠ 0) (s : List U8) : cstr (c :: s) = c :: cstr s :=
  List.takeWhile_cons_of_pos (decide_eq_true h)

theorem cstr_zero_cons (s : List U8) : cstr (0 :: s) = [] :=
  List.takeWhile_cons_of_neg (by decide)

theorem cstr_cons_eq_nil {c : U8} {s : List U8} : cstr (c :: s) = [] ↔ c = 0 := by
  by_cases h : c = 0
  · exact iff_of_true (h ▸ cstr_zero_cons s) h
  · rw [cstr_cons_of_ne h]
    exact iff_of_false (List.cons_ne_nil _ _) h

/-- **It is zero** exactly for the same string. -/
theorem strcmp_eq_zero_iff : ∀ {s t : List U8}, strcmp s t = 0 ↔ cstr s = cstr t := by
  intro s
  induction s with
  | nil =>
    intro t
    cases t with
    | nil => exact iff_of_true rfl rfl
    | cons d t =>
      rw [strcmp.eq_2 _ _ (by rintro _ _ _ _ h; cases h), CharArray.toNat_sub_eq_zero]
      exact ⟨fun h => (cstr_cons_eq_nil.2 h.symm).symm, fun h => (cstr_cons_eq_nil.1 h.symm).symm⟩
  | cons c s ih =>
    intro t
    cases t with
    | nil =>
      rw [strcmp.eq_2 _ _ (by rintro _ _ _ _ _ h; cases h), CharArray.toNat_sub_eq_zero]
      exact cstr_cons_eq_nil.symm
    | cons d t =>
      rw [strcmp]
      by_cases h : c ≠ 0 ∧ d ≠ 0
      · rw [if_pos h, cstr_cons_of_ne h.1, cstr_cons_of_ne h.2]
        by_cases hne : c = d
        · rw [if_neg (not_not.2 hne), ih, hne, List.cons_inj_right]
        · rw [if_pos hne, CharArray.toNat_sub_eq_zero]
          exact iff_of_false hne fun hcons => hne (List.cons.inj hcons).1
      · -- one of the strings ends here
        rw [if_neg h, CharArray.toNat_sub_eq_zero]
        by_cases hc : c = 0
        · subst hc
          rw [cstr_zero_cons]
          exact ⟨fun h => (cstr_cons_eq_nil.2 h.symm).symm,
            fun h => (cstr_cons_eq_nil.1 h.symm).symm⟩
        · have hd : d = 0 := not_not.1 fun hd => h ⟨hc, hd⟩
          subst hd
          rw [cstr_zero_cons]
          exact cstr_cons_eq_nil.symm

/-! ## The code -/

def TABLE_SIZE : Nat := 100

/-- One round of the loop of `hash`.  A `char` is signed. -/
def hashStep (h : U32) (c : U8) : U32 := h + 739061 * c.signExtend 32

def hash (key : List U8) : U32 := (cstr key).foldl hashStep 0

/-- The chain of a key. -/
def tableIndex (key : List U8) : Fin TABLE_SIZE :=
  ⟨(hash key).toNat % TABLE_SIZE, Nat.mod_lt _ (by decide)⟩

-- a character above 127 counts as a negative number
example : (tableIndex [0xFF]).val = 35 := by decide

structure Node (V : Type) where
  key : Option (List U8)
  value : Option V
  helpText : List U8

/-- `table`, with the nodes a chain leads to. -/
abbrev Table (V : Type) := Chains TABLE_SIZE (Node V)

/-- The arguments of `register_command`. -/
structure Registration (V : Type) where
  key : List U8
  value : Option V
  helpText : List U8

/-- Which of its two allocations succeed: the one for the node, and `strdup`. -/
structure Allocated where
  node : Bool := true
  key : Bool := true

variable {V : Type}

/-- The node that `register_command` fills in. -/
def Registration.node (r : Registration V) (allocated : Allocated) : Node V where
  key := if allocated.key then some (cstr r.key) else none
  value := r.value
  helpText := r.helpText

/-- `register_command`. -/
def registerCommand (allocated : Allocated) (r : Registration V) (table : Table V) :
    Option (Table V) :=
  if allocated.node then some (table.push (tableIndex r.key) (r.node allocated)) else none

/-- One call after the other. -/
def registerEach : List (Allocated × Registration V) → Table V → Option (Table V)
  | [], table => some table
  | (allocated, r) :: rs, table => registerCommand allocated r table >>= registerEach rs

/-- The table before the first call: static memory. -/
def emptyTable : Table V := fun _ => []

/-- The loop along a chain, up to the first node with the key. -/
def findNode (key : List U8) : List (Node V) → Option (Option (Node V))
  | [] => some none
  | e :: next => do
    let found ← e.key
    if strcmp found key = 0 then some (some e) else findNode key next

/-- `lookup_command`. -/
def lookupCommand (key : List U8) (table : Table V) : Option (Option V) := do
  let e ← findNode key (table (tableIndex key))
  some (e.bind (·.value))

/-- `lookup_command_node`: the head of the chain, whatever its key. -/
def lookupCommandNode (key : List U8) (table : Table V) : List (Node V) := table (tableIndex key)

/-! ## The loop along a chain -/

/-- The node has the key. -/
def Node.has (key : List U8) (e : Node V) : Bool := decide (e.key.map cstr = some (cstr key))

/-- No node before the one with the key has lost its own. -/
def KeysKept (key : List U8) (chain : List (Node V)) : Prop :=
  ∀ e ∈ chain.takeWhile (fun e => !e.has key), e.key ≠ none

/-- **What the loop finds.** -/
theorem findNode_eq (key : List U8) (chain : List (Node V)) :
    (KeysKept key chain → findNode key chain = some (chain.find? (Node.has key))) ∧
      (¬ KeysKept key chain → findNode key chain = none) := by
  induction chain with
  | nil => exact ⟨fun _ => rfl, fun h => absurd (fun e he => absurd he List.not_mem_nil) h⟩
  | cons e next ih =>
    rw [findNode]
    cases hkey : e.key with
    | none =>
      have hhas : e.has key = false := by simp [Node.has, hkey]
      refine ⟨fun h => absurd hkey (h e ?_), fun _ => rfl⟩
      rw [List.takeWhile_cons_of_pos (by rw [hhas]; rfl)]
      exact List.mem_cons_self
    | some found =>
      dsimp only [bind, Option.bind]
      by_cases hsame : strcmp found key = 0
      · have hhas : e.has key = true := by
          simpa [Node.has, hkey] using strcmp_eq_zero_iff.1 hsame
        rw [if_pos hsame, List.find?_cons_of_pos hhas]
        refine ⟨fun _ => rfl, fun h => absurd (fun e' he' => ?_) h⟩
        rw [List.takeWhile_cons_of_neg (by rw [hhas]; decide)] at he'
        exact absurd he' List.not_mem_nil
      · have hhas : e.has key = false := by
          simpa [Node.has, hkey] using fun h => hsame (strcmp_eq_zero_iff.2 h)
        have hnext : KeysKept key (e :: next) ↔ KeysKept key next := by
          unfold KeysKept
          rw [List.takeWhile_cons_of_pos (by rw [hhas]; rfl), List.forall_mem_cons]
          exact and_iff_right (by rw [hkey]; exact Option.some_ne_none found)
        rw [if_neg hsame, List.find?_cons_of_neg (by rw [hhas]; decide), hnext]
        exact ih

/-! ## A row of registrations -/

/-- Where no node is null, the nodes are in the chains. -/
theorem registerEach_eq_some {rs : List (Allocated × Registration V)} {table table' : Table V} :
    registerEach rs table = some table' ↔ (∀ r ∈ rs, r.1.node = true) ∧
      table' = Chains.pushAll (fun r => tableIndex r.2.key) (fun r => r.2.node r.1) rs table := by
  induction rs generalizing table with
  | nil =>
    rw [registerEach, Option.some_inj, eq_comm]
    exact (and_iff_right fun r hr => absurd hr List.not_mem_nil).symm
  | cons r rs ih =>
    obtain ⟨allocated, r⟩ := r
    rw [registerEach, registerCommand, List.forall_mem_cons]
    cases hnode : allocated.node with
    | false => simp
    | true =>
      rw [if_pos rfl]
      exact ih.trans (and_congr_left' (and_iff_right rfl).symm)

/-- The last registration of a key. -/
def latest (rs : List (Registration V)) (key : List U8) : Option (Registration V) :=
  rs.reverse.find? fun r => decide (cstr r.key = cstr key)

theorem cstr_cstr (s : List U8) : cstr (cstr s) = cstr s := List.takeWhile_idem

/-- The chain of a key only depends on its string. -/
theorem tableIndex_congr {s t : List U8} (h : cstr s = cstr t) : tableIndex s = tableIndex t := by
  simp only [tableIndex, hash, h]

theorem node_has (key : List U8) (r : Allocated × Registration V) :
    (r.2.node r.1).has key = (r.1.key && decide (cstr r.2.key = cstr key)) := by
  cases hkey : r.1.key <;> simp [Node.has, Registration.node, hkey, cstr_cstr]

/-- **A search in the chain of a key** is one through all registrations. -/
theorem chain_find? (rs : List (Allocated × Registration V)) (key : List U8) :
    (Chains.pushAll (fun r => tableIndex r.2.key) (fun r => r.2.node r.1) rs emptyTable
        (tableIndex key)).find? (Node.has key) =
      (rs.reverse.find? fun r => r.1.key && decide (cstr r.2.key = cstr key)).map
        fun r => r.2.node r.1 := by
  refine (Chains.pushAll_find? _ _ (fun r hr => ?_) rs).trans ?_
  · rw [node_has, Bool.and_eq_true, decide_eq_true_eq] at hr
    exact tableIndex_congr hr.2
  · congr 2
    funext r
    exact node_has key r

/-- With both allocations for each of them. -/
def allocateAll (rs : List (Registration V)) : List (Allocated × Registration V) :=
  rs.map fun r => ({}, r)

/-- The table that results. -/
def registered (rs : List (Registration V)) : Table V :=
  Chains.pushAll (fun r => tableIndex r.key) (fun r => r.node {}) rs emptyTable

theorem registerEach_allocateAll (rs : List (Registration V)) :
    registerEach (allocateAll rs) emptyTable = some (registered rs) := by
  refine registerEach_eq_some.2 ⟨fun r hr => ?_, ?_⟩
  · obtain ⟨r, -, rfl⟩ := List.mem_map.1 hr
    rfl
  · rw [registered, Chains.pushAll, Chains.pushAll, allocateAll, List.foldl_map]

end Frewozet
