import Frewozet.Commands.Table

/-!
# `cmd_help_new` and the map of the commands

* `helpWalk`, `helpSearch`, `cmdHelpNew` — the code.
* `lookupCommand_registered`, `helpSearch_registered`, `helpWalk_registered` — the three
  ways through the chains.
* `command_table_is_map` — **after any registrations the three agree**: the last
  registration of a key is the one that counts, and each one is listed once.
-/

namespace Frewozet

variable {V : Type}

/-- `terminal_write_line`, as the calls it makes. -/
def writeLine (text : List U8) : List TermCall := [.write text, .write [NEWLINE]]

/-- One round of the loop over the table: the nodes whose help text is written.  Only the
key of the first one is looked at. -/
def helpChain : List (Node V) → List (Node V)
  | [] => []
  | node :: next => if node.key = none then [] else node :: next

/-- The whole loop. -/
def helpWalk (table : Table V) : List (Node V) :=
  (List.finRange TABLE_SIZE).flatMap fun i => helpChain (table i)

/-- The walk from `lookup_command_node`. -/
def helpSearch (name : List U8) (table : Table V) : Option (List TermCall) := do
  let command ← findNode name (lookupCommandNode name table)
  match command with
  | some node => some (writeLine node.helpText)
  | none => some [.write (chars "Command not found\n")]

/-- `cmd_help_new`; `stray` is behind an `argv[1]` that was not stored. -/
def cmdHelpNew (stray : List U8) (table : Table V) (argv : List (List U8)) :
    Option (List TermCall) :=
  if argv.length = 1 then some ((helpWalk table).flatMap fun node => writeLine node.helpText)
  else helpSearch (argv.getD 1 stray) table

/-! ## After a row of registrations -/

theorem registered_kept (rs : List (Registration V)) (i : Fin TABLE_SIZE) :
    ∀ e ∈ registered rs i, e.key ≠ none := by
  intro e he
  rw [registered, Chains.pushAll_apply, emptyTable, List.append_nil] at he
  obtain ⟨r, -, rfl⟩ := List.mem_map.1 he
  exact Option.some_ne_none _

/-- The loop along the chain of a key finds its last registration. -/
theorem findNode_registered (rs : List (Registration V)) (key : List U8) :
    findNode key (registered rs (tableIndex key)) =
      some ((latest rs key).map fun r => r.node {}) := by
  rw [(findNode_eq key _).1 fun e he =>
    registered_kept rs _ e ((List.takeWhile_prefix _).subset he)]
  refine congrArg some ?_
  have hchain := chain_find? (allocateAll rs) key
  rw [← (registerEach_eq_some.1 (registerEach_allocateAll rs)).2, allocateAll,
    ← List.map_reverse, List.find?_map, Option.map_map] at hchain
  exact hchain

theorem lookupCommand_registered (rs : List (Registration V)) (key : List U8) :
    lookupCommand key (registered rs) = some ((latest rs key).bind (·.value)) := by
  rw [lookupCommand, findNode_registered]
  cases latest rs key <;> rfl

theorem helpSearch_registered (rs : List (Registration V)) (name : List U8) :
    helpSearch name (registered rs) = some (match latest rs name with
      | some r => writeLine r.helpText
      | none => [.write (chars "Command not found\n")]) := by
  rw [helpSearch, lookupCommandNode, findNode_registered]
  cases latest rs name <;> rfl

theorem helpChain_eq {chain : List (Node V)} (h : ∀ e ∈ chain, e.key ≠ none) :
    helpChain chain = chain := by
  cases chain with
  | nil => rfl
  | cons node next => exact if_neg (h node List.mem_cons_self)

/-- **The walk over the table** meets each registration once. -/
theorem helpWalk_registered (rs : List (Registration V)) :
    (helpWalk (registered rs)).Perm (rs.map fun r => r.node {}) := by
  have hall : helpWalk (registered rs) = (registered rs).all :=
    List.flatMap_congr fun i _ => helpChain_eq (registered_kept rs i)
  have hempty : Chains.all (emptyTable : Table V) = [] :=
    List.flatMap_eq_nil_iff.2 fun _ _ => rfl
  rw [hall, ← List.append_nil (rs.map _), ← hempty]
  exact Chains.pushAll_all _ _ rs emptyTable

/-- **The table of commands is a map.**  After any row of registrations whose memory was
allocated: `lookup_command` returns the value of the last registration of a key, or null if
there is none; `help` with a name writes that registration's help text, or that there is
none; and `help` alone writes the help texts of all registrations, each once. -/
theorem command_table_is_map (rs : List (Registration V)) :
    ∃ table, registerEach (allocateAll rs) emptyTable = some table ∧
      (∀ key, lookupCommand key table = some ((latest rs key).bind (·.value))) ∧
      (∀ stray command name argv, cmdHelpNew stray table (command :: name :: argv) =
        some (match latest rs name with
          | some r => writeLine r.helpText
          | none => [.write (chars "Command not found\n")])) ∧
      ∃ visited : List (Node V), visited.Perm (rs.map fun r => r.node {}) ∧
        ∀ stray command, cmdHelpNew stray table [command] =
          some (visited.flatMap fun node => writeLine node.helpText) := by
  refine ⟨registered rs, registerEach_allocateAll rs, lookupCommand_registered rs,
    fun stray command name argv => ?_, helpWalk (registered rs), helpWalk_registered rs,
    fun stray command => rfl⟩
  exact helpSearch_registered rs name

end Frewozet
