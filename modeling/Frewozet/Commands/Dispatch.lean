import Frewozet.Commands.Help
import Frewozet.Shell.Screen

/-!
# Running a command

`shell_commands.c` has two ways to the handler of a command: `find_command`, along the
table of all commands, and the hash table that `register_all_commands` fills from it.

* `shellCommands`, `findCommand`, `registerAllCommands`, `shellExecuteCommand` — the code.
* `enterDispatch`, `executeDispatch` — what Enter and `shell_execute_command` decide to do;
  `shellDispatch_eq` and `shellExecuteCommand_eq` say that they do it.
* `lookupCommand_registerAll` — **the two ways agree** on every word.
* `enter_dispatches_iff` — pressing Enter does what `shell_execute_command` does exactly
  if the line is not blank.
-/

namespace Frewozet

/-! ## The code -/

/-- The functions behind the commands. -/
inductive Handler where
  | cmdHelpNew
  | cmdClear
  | cmdTicks
  | cmdEcho
  | cmdHistory
  | cmdCalc
  | cmdColorshell
  | cmdQuit
  | cmdShutdown
  | cmdHalt
  | cmdDebug
  | cmdMeminfo
  | cmdHeap
  | cmdAlloc
  | cmdPmminfo
  | cmdMemcpy
  | cmdMemset
  | cmdRuntime
  | cmdStrlen
  | cmdStrcmp
  | cmdStrncmp
  | cmdPageinfo
  | cmdMaptest
deriving DecidableEq

structure ShellCommand where
  name : List U8
  handler : Handler
  help : List U8

/-- `shell_commands`. -/
def shellCommands : List ShellCommand := [
  ⟨chars "help", .cmdHelpNew, chars "help                          - Show help"⟩,
  ⟨chars "clear", .cmdClear, chars "clear                         - Clear the terminal"⟩,
  ⟨chars "ticks", .cmdTicks, chars "ticks                         - Show timer ticks"⟩,
  ⟨chars "echo", .cmdEcho, chars "echo <message>                - Print text"⟩,
  ⟨chars "history", .cmdHistory, chars "history                       - Show command history"⟩,
  ⟨chars "calc", .cmdCalc, chars "calc <a> <op> <b>             - Simple arithmetic"⟩,
  ⟨chars "colorshell", .cmdColorshell,
    chars "colorshell                    - Enter ColorShell mode"⟩,
  ⟨chars "quit", .cmdQuit, chars "quit colorshell               - Exit ColorShell mode"⟩,
  ⟨chars "shutdown", .cmdShutdown, chars "shutdown                      - Attempt shutdown"⟩,
  ⟨chars "halt", .cmdHalt, chars "halt                          - Halt the system"⟩,
  ⟨chars "debug", .cmdDebug, chars "debug dividezero              - Trigger divide error"⟩,
  ⟨chars "meminfo", .cmdMeminfo, chars "meminfo                       - Show E820 memory map"⟩,
  ⟨chars "heap", .cmdHeap, chars "heap                          - Show heap pointers"⟩,
  ⟨chars "alloc", .cmdAlloc,
    chars "alloc <?size>                 - Allocate memory from heap. Default 64 bytes"⟩,
  ⟨chars "pmminfo", .cmdPmminfo,
    chars "pmminfo                       - Show physical memory manager info"⟩,
  ⟨chars "memcpy", .cmdMemcpy, chars "memcpy                        - Test memcpy"⟩,
  ⟨chars "memset", .cmdMemset, chars "memset                        - Test memset"⟩,
  ⟨chars "runtime", .cmdRuntime, chars "runtime                       - Show system runtime"⟩,
  ⟨chars "strlen", .cmdStrlen, chars "strlen <string>               - String length"⟩,
  ⟨chars "strcmp", .cmdStrcmp, chars "strcmp <a> <b>                - Compare strings"⟩,
  ⟨chars "strncmp", .cmdStrncmp, chars "strncmp <a> <b> <n>           - Compare prefix"⟩,
  ⟨chars "pageinfo", .cmdPageinfo, chars "pageinfo <virtaddr>            - Show physical mapping"⟩,
  ⟨chars "maptest", .cmdMaptest, chars "maptest                        - Map and test one page"⟩]

/-- `find_command`. -/
def findCommand (name : List U8) : Option ShellCommand :=
  shellCommands.find? fun command => strcmp command.name name = 0

def ShellCommand.registration (command : ShellCommand) : Registration Handler where
  key := command.name
  value := some command.handler
  helpText := command.help

/-- The calls of `register_all_commands`. -/
def commandRegistrations (allocated : Nat → Allocated) : List (Allocated × Registration Handler) :=
  shellCommands.mapIdx fun i command => (allocated i, command.registration)

/-- `register_all_commands`. -/
def registerAllCommands (allocated : Nat → Allocated) : Option (Table Handler) :=
  registerEach (commandRegistrations allocated) emptyTable

/-- What is done with the words of a line. -/
inductive Dispatch where
  | nothing
  | run (handler : Handler) (argv : List (List U8))
  | noSuchCommand (name : List U8)
deriving DecidableEq

/-- `shell_handle_char`, behind `shell_tokenize`: `argv[0]` is looked up, and `stray` is
behind an `argv[0]` that was not stored. -/
def enterDispatch (stray : List U8) (table : Table Handler) (argv : List (List U8)) :
    Option Dispatch := do
  let command ← lookupCommand (argv0 stray argv) table
  match command with
  | some handler => some (.run handler argv)
  | none => some (.noSuchCommand (argv0 stray argv))

/-- What `shell_execute_command` decides. -/
def executeDispatch (argv : List (List U8)) : Dispatch :=
  match argv with
  | [] => .nothing
  | name :: _ =>
    match findCommand name with
    | some command => .run command.handler argv
    | none => .noSuchCommand name

/-! ## In the shell -/

/-- The table of commands, where Enter looks. -/
def tableCommands (run : Handler → Command) (stray : List U8) (table : Table Handler) :
    Commands where
  lookup name := (lookupCommand name table).join.map run
  stray := stray

/-- What is done then; `unknown` writes that there is no such command. -/
def Dispatch.perform (run : Handler → Command) (unknown : List U8 → Terminal → Terminal)
    (d : Dispatch) (s : Shell) : Shell :=
  match d with
  | .nothing => s
  | .run handler argv => s.onTerminal (execCalls (run handler argv s))
  | .noSuchCommand name => s.onTerminal (unknown name)

/-- What Enter writes for a word that is no command. -/
def noSuchCommandFound (name : List U8) (t : Terminal) : Terminal :=
  terminalWriteLine (chars ": No such command found") (terminalWrite name t)

/-- What `shell_execute_command` writes for it. -/
def unknownCommand (name : List U8) (t : Terminal) : Terminal :=
  terminalWrite (chars "\n")
    (terminalWrite name (colorshellWrite (chars "Unknown command: ") "error" t))

/-- `shell_execute_command`. -/
def shellExecuteCommand (run : Handler → Command) (argv : List (List U8)) (s : Shell) : Shell :=
  match argv with
  | [] => s
  | name :: _ =>
    match findCommand name with
    | some command => s.onTerminal (execCalls (run command.handler argv s))
    | none => s.onTerminal (unknownCommand name)

theorem shellExecuteCommand_eq (run : Handler → Command) (argv : List (List U8)) (s : Shell) :
    shellExecuteCommand run argv s = (executeDispatch argv).perform run unknownCommand s := by
  cases argv with
  | nil => rfl
  | cons name rest =>
    rw [shellExecuteCommand, executeDispatch]
    cases findCommand name <;> rfl

theorem shellDispatch_eq {stray : List U8} {table : Table Handler} {argv : List (List U8)}
    {d : Dispatch} (h : enterDispatch stray table argv = some d) (run : Handler → Command)
    (s : Shell) : shellDispatch (tableCommands run stray table) argv s =
      d.perform run noSuchCommandFound s := by
  rw [enterDispatch] at h
  rw [shellDispatch, tableCommands]
  dsimp only
  cases hlookup : lookupCommand (argv0 stray argv) table with
  | none =>
    rw [hlookup] at h
    cases h
  | some command =>
    rw [hlookup] at h
    cases command with
    | none =>
      cases h
      rfl
    | some handler =>
      cases h
      rfl

/-! ## The two ways to a handler -/

/-- No two commands have the same name. -/
theorem shellCommands_unique {a b : ShellCommand} (ha : a ∈ shellCommands)
    (hb : b ∈ shellCommands) (h : cstr a.name = cstr b.name) : a = b :=
  List.inj_on_of_nodup_map (by decide : (shellCommands.map fun c => cstr c.name).Nodup) ha hb h

theorem findCommand_eq_some {name : List U8} {command : ShellCommand} :
    findCommand name = some command ↔ command ∈ shellCommands ∧ cstr command.name = cstr name := by
  constructor
  · intro h
    have hname := List.find?_some h
    rw [decide_eq_true_eq, strcmp_eq_zero_iff] at hname
    exact ⟨List.mem_of_find?_eq_some h, hname⟩
  · rintro ⟨hmem, hname⟩
    cases hfind : findCommand name with
    | none =>
      have hnot := List.find?_eq_none.1 hfind command hmem
      rw [decide_eq_true_eq, strcmp_eq_zero_iff] at hnot
      exact absurd hname hnot
    | some found =>
      have hfound := List.find?_some hfind
      rw [decide_eq_true_eq, strcmp_eq_zero_iff] at hfound
      rw [shellCommands_unique (List.mem_of_find?_eq_some hfind) hmem (hfound.trans hname.symm)]

theorem findCommand_eq_none {name : List U8} :
    findCommand name = none ↔ ∀ command ∈ shellCommands, cstr command.name ≠ cstr name := by
  rw [findCommand, List.find?_eq_none]
  refine forall₂_congr fun command _ => ?_
  rw [decide_eq_true_eq, strcmp_eq_zero_iff]

/-- A registration for each command. -/
theorem of_mem_commandRegistrations {allocated : Nat → Allocated}
    {r : Allocated × Registration Handler} (h : r ∈ commandRegistrations allocated) :
    ∃ command ∈ shellCommands, r.2 = command.registration := by
  obtain ⟨i, hi, rfl⟩ := List.mem_mapIdx.1 h
  exact ⟨_, List.getElem_mem hi, rfl⟩

theorem exists_commandRegistration (allocated : Nat → Allocated) {command : ShellCommand}
    (h : command ∈ shellCommands) :
    ∃ i, (allocated i, command.registration) ∈ commandRegistrations allocated := by
  obtain ⟨i, hi, hcommand⟩ := List.getElem_of_mem h
  exact ⟨i, List.mem_mapIdx.2 ⟨i, hi, by rw [hcommand]⟩⟩

variable {allocated : Nat → Allocated} {table : Table Handler}

/-- A registration that lost its key is in the way of its name. -/
theorem not_keysKept_of_lost {rs : List (Allocated × Registration Handler)} {name : List U8}
    {r : Allocated × Registration Handler} (hr : r ∈ rs) (hlost : r.1.key = false)
    (hindex : tableIndex r.2.key = tableIndex name)
    (hnone : rs.reverse.find? (fun r => r.1.key && decide (cstr r.2.key = cstr name)) = none) :
    ¬ KeysKept name (Chains.pushAll (fun r => tableIndex r.2.key) (fun r => r.2.node r.1) rs
      emptyTable (tableIndex name)) := by
  have hchain := chain_find? rs name
  rw [hnone] at hchain
  intro hkept
  refine hkept (r.2.node r.1) ?_ (if_neg (by rw [hlost]; decide))
  rw [List.takeWhile_eq_self_iff.2 fun e he => by
    simpa using List.find?_eq_none.1 hchain e he]
  rw [Chains.pushAll_apply]
  refine List.mem_append_left _ (List.mem_map.2 ⟨r, List.mem_filter.2 ⟨?_, ?_⟩, rfl⟩)
  · exact List.mem_reverse.2 hr
  · exact decide_eq_true hindex

/-- **Both ways lead to the same handler**, if no key is missing on the way. -/
theorem lookupCommand_registerAll (h : registerAllCommands allocated = some table)
    {name : List U8} (hkept : KeysKept name (table (tableIndex name))) :
    lookupCommand name table = some ((findCommand name).map (·.handler)) := by
  obtain ⟨-, htable⟩ := registerEach_eq_some.1 h
  rw [htable] at hkept ⊢
  rw [lookupCommand, (findNode_eq name _).1 hkept, chain_find?]
  cases hfound : (commandRegistrations allocated).reverse.find?
    (fun r => r.1.key && decide (cstr r.2.key = cstr name)) with
  | some r =>
    have hr := List.find?_some hfound
    rw [Bool.and_eq_true, decide_eq_true_eq] at hr
    obtain ⟨command, hmem, hcommand⟩ :=
      of_mem_commandRegistrations (List.mem_reverse.1 (List.mem_of_find?_eq_some hfound))
    rw [hcommand] at hr
    rw [findCommand_eq_some.2 ⟨hmem, hr.2⟩]
    change some r.2.value = _
    rw [hcommand]
    rfl
  | none =>
    suffices hnone : findCommand name = none by
      rw [hnone]
      rfl
    rw [findCommand_eq_none]
    intro command hmem hname
    obtain ⟨i, hr⟩ := exists_commandRegistration allocated hmem
    have hlost := List.find?_eq_none.1 hfound _ (List.mem_reverse.2 hr)
    rw [Bool.and_eq_true, decide_eq_true_eq] at hlost
    refine not_keysKept_of_lost hr ?_ (tableIndex_congr hname) hfound hkept
    exact Bool.eq_false_iff.2 fun hkey => hlost ⟨hkey, hname⟩

/-! ## Pressing Enter -/

/-- Enter does with the words of a line what `shell_execute_command` does, whatever is behind
an `argv[0]` that was not stored; and a word is no command if no command has its name. -/
structure DispatchesAlike (table : Table Handler) (argv : List (List U8)) : Prop where
  same : ∀ stray, enterDispatch stray table argv = some (executeDispatch argv)
  unknown : ∀ stray name rest, argv = name :: rest →
    (enterDispatch stray table argv = some (.noSuchCommand name) ↔
      ∀ command ∈ shellCommands, cstr command.name ≠ cstr name)

/-- With no word it does something all the same. -/
theorem enterDispatch_ne_nothing (stray : List U8) (table : Table Handler)
    (argv : List (List U8)) : enterDispatch stray table argv ≠ some .nothing := by
  rw [enterDispatch]
  cases lookupCommand (argv0 stray argv) table with
  | none => exact fun h => by cases h
  | some command => cases command <;> exact fun h => by cases h

theorem executeDispatch_noSuchCommand {name : List U8} {rest : List (List U8)} :
    executeDispatch (name :: rest) = .noSuchCommand name ↔
      ∀ command ∈ shellCommands, cstr command.name ≠ cstr name := by
  rw [← findCommand_eq_none, executeDispatch]
  cases findCommand name with
  | none => exact iff_of_true rfl rfl
  | some command => exact iff_of_false (fun h => by cases h) (fun h => by cases h)

theorem dispatchesAlike_iff (h : registerAllCommands allocated = some table)
    (argv : List (List U8)) : DispatchesAlike table argv ↔
      argv ≠ [] ∧ ∀ name ∈ argv.head?, KeysKept name (table (tableIndex name)) := by
  cases argv with
  | nil =>
    refine iff_of_false (fun halike => ?_) fun hne => hne.1 rfl
    exact enterDispatch_ne_nothing [] table [] (halike.same [])
  | cons name rest =>
    simp only [List.head?_cons, Option.mem_some_iff, forall_eq']
    constructor
    · intro halike
      refine ⟨List.cons_ne_nil _ _, ?_⟩
      by_contra hlost
      have hsame := halike.same []
      rw [enterDispatch, argv0, List.headD_cons, lookupCommand,
        (findNode_eq name _).2 hlost] at hsame
      cases hsame
    · rintro ⟨-, hkept⟩
      have hsame : ∀ stray,
          enterDispatch stray table (name :: rest) = some (executeDispatch (name :: rest)) := by
        intro stray
        rw [enterDispatch, argv0, List.headD_cons, lookupCommand_registerAll h hkept,
          executeDispatch]
        cases findCommand name <;> rfl
      refine ⟨hsame, fun stray name' rest' hargv => ?_⟩
      obtain ⟨rfl, rfl⟩ := List.cons.inj hargv
      rw [hsame stray, Option.some_inj]
      exact executeDispatch_noSuchCommand

/-- The table with all of its memory. -/
theorem registerAllCommands_allocated : registerAllCommands (fun _ => {}) =
    some (registered (shellCommands.map ShellCommand.registration)) := by
  have hregistrations : commandRegistrations (fun _ => {}) =
      allocateAll (shellCommands.map ShellCommand.registration) := by
    rw [allocateAll, List.map_map]
    exact List.ext_getElem (by rw [commandRegistrations, List.length_mapIdx, List.length_map])
      fun i h1 h2 => by simp only [commandRegistrations, List.getElem_mapIdx, List.getElem_map]; rfl
  rw [registerAllCommands, hregistrations, registerEach_allocateAll]

/-- **Pressing Enter.**  In every state of a run, the words of the line decide what is done,
and it is what `shell_execute_command` does with them, exactly if the line is not blank and
no key was lost to `strdup` on the way to the name of the command. -/
theorem enter_dispatches_iff (h : registerAllCommands allocated = some table) (s₀ : Shell)
    (events : List Event) : ∃ s argv s₁, (shellInit s₀ >>= pressAll events) = some s ∧
      (∃ buffer buffer', s.buffer.store s.bufferLength 0 = some buffer ∧
        shellWords buffer = some (argv, buffer')) ∧
      s₁.terminal = terminalWrite (chars "\n") s.terminal ∧
      (∀ run stray d, enterDispatch stray table argv = some d →
        ∃ u, shellEnter (tableCommands run stray table) s = some (shellPrintPrompt u) ∧
          u.terminal = (d.perform run noSuchCommandFound s₁).terminal) ∧
      (DispatchesAlike table argv ↔
        (∃ c ∈ (editAll events {}).line.text, ¬ isBlank c) ∧
          ∀ name ∈ argv.head?, KeysKept name (table (tableIndex name))) := by
  obtain ⟨s, hpress, hrun⟩ := onScreenRun_shellInit s₀ events
  obtain ⟨argv, s₁, ⟨buffer, buffer', hstore, hholds, hwords⟩, hnewline, henters⟩ :=
    shellEnter_of_represents hrun.represents
  refine ⟨s, argv, s₁, hpress, ⟨buffer, buffer', hstore, hwords⟩, hnewline,
    fun run stray d hd => ?_, ?_⟩
  · obtain ⟨u, henter, -, hu⟩ := henters (tableCommands run stray table)
    rw [shellDispatch_eq hd] at hu
    exact ⟨u, henter, hu⟩
  · rw [dispatchesAlike_iff h, shellWords_ne_nil_iff hholds hwords]

/-- Enter on the empty line: there is no word, and something is done. -/
theorem enter_empty_line_dispatches : ∃ table s argv,
    registerAllCommands (fun _ => {}) = some table ∧ shellInit freshShell = some s ∧
      (∃ buffer buffer', s.buffer.store s.bufferLength 0 = some buffer ∧
        shellWords buffer = some (argv, buffer')) ∧
      argv = [] ∧ ¬ DispatchesAlike table argv := by
  obtain ⟨u, hinit, hrun, -⟩ := onScreenRun_init freshShell
  obtain ⟨argv, -, ⟨buffer, buffer', hstore, hholds, hwords⟩, -⟩ :=
    shellEnter_of_represents hrun.represents
  have hempty : argv = [] := by
    by_contra hne
    obtain ⟨c, hc, -⟩ := (shellWords_ne_nil_iff hholds hwords).1 hne
    exact absurd hc List.not_mem_nil
  refine ⟨_, _, argv, registerAllCommands_allocated, hinit, ⟨buffer, buffer', hstore, hwords⟩,
    hempty, fun halike => ?_⟩
  exact ((dispatchesAlike_iff registerAllCommands_allocated argv).1 halike).1 hempty

/-- Enter on the line `halt`. -/
theorem enter_halt_dispatches : ∃ table s argv, registerAllCommands (fun _ => {}) = some table ∧
    (shellInit freshShell >>= pressAll (typeText (saying [] "info") (chars "halt"))) = some s ∧
      (∃ buffer buffer', s.buffer.store s.bufferLength 0 = some buffer ∧
        shellWords buffer = some (argv, buffer')) ∧ DispatchesAlike table argv := by
  obtain ⟨s, argv, s₁, hpress, hwords, -, -, halike⟩ :=
    enter_dispatches_iff registerAllCommands_allocated freshShell
      (typeText (saying [] "info") (chars "halt"))
  refine ⟨_, s, argv, registerAllCommands_allocated, hpress, hwords, halike.2 ⟨?_, ?_⟩⟩
  · rw [(@editAll_typeText (saying [] "info") (chars "halt") [] {} rfl (by decide) (by decide)).1]
    decide
  · exact fun name _ e he => registered_kept _ _ e ((List.takeWhile_prefix _).subset he)

end Frewozet
