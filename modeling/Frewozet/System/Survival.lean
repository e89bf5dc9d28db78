import Frewozet.System.Commands

/-!
# Running out of memory

Runs of the kernel in which the shell has its commands registered and runs them, until an
allocation fails.

* `MemoryCommand`, `MemoryCommand.exec` — the commands that ask for memory, and the two ways to
  search the table of commands.
* `MemoryCommand.Served` — **every allocation the command does not check succeeds**, read off the
  state before it.
* `MemoryCommand.Clear`, `Op.Spares` — what is written is written where nothing else is kept, and
  the nodes and their keys are left alone.
* `MemoryCommand.Survives` — no access stops it, and it leaves no half-built node.
* `MemoryCommand.spec`, `Action`, `sessionOk_run` — one command, and runs of commands that are
  served.
* `commands_survive_iff` — in every state such a run reaches, the next command survives
  exactly if it is served, and the table of commands has its memory to itself.
-/

namespace Frewozet

open Exec TwoLevel

/-! ## The commands -/

section

variable {V : Type}

/-- The commands, with the two ways to search the table. -/
inductive MemoryCommand (V : Type) where
  | registerCommand (r : Registration V)
  | cmdAlloc (argv : List (List U8))
  | cmdMemcpy
  | cmdMemset
  | cmdMaptest
  | lookupCommand (key : List U8)
  | cmdHelpNew (stray : List U8) (argv : List (List U8))

/-- Running one. -/
def MemoryCommand.exec : MemoryCommand V → Exec (Session V) Unit
  | registerCommand r => Session.registerCommand r
  | cmdAlloc argv => do
    let _ ← onSystem (Frewozet.cmdAlloc argv)
    return ()
  | cmdMemcpy => do
    let _ ← onSystem Frewozet.cmdMemcpy
    return ()
  | cmdMemset => do
    let _ ← onSystem Frewozet.cmdMemset
    return ()
  | cmdMaptest => do
    let _ ← onSystem (onMachine Frewozet.cmdMaptest)
    return ()
  | lookupCommand key => do
    let t ← get
    let _ ← ofOption .fault (Frewozet.lookupCommand key t.table)
    return ()
  | cmdHelpNew stray argv => do
    let t ← get
    let _ ← ofOption .fault (Frewozet.cmdHelpNew stray t.table argv)
    return ()

/-- What a command relies on: the tables it takes are in reach, and keys are strings whose
copy has a size. -/
def MemoryCommand.Owed (t : Session V) : MemoryCommand V → Prop
  | registerCommand r => MayAsk t.system NODE_BYTES ∧
      MayAsk (t.system.afterKmalloc NODE_BYTES) (strdupSize r.key) ∧
        (cstr r.key).length < 0xFFFFFFF0
  | cmdAlloc argv => MayAsk t.system (allocSize argv)
  | cmdMemcpy => MayAsk t.system 16 ∧ MayAsk (t.system.afterKmalloc 16) 16
  | cmdMemset => MayAsk t.system 16
  | cmdMaptest => MayTest t.system.machine
  | _ => True

/-- **Every allocation of the command that it does not check succeeds.** -/
def MemoryCommand.Served (t : Session V) : MemoryCommand V → Prop
  | registerCommand r => CanServe t.system NODE_BYTES ∧
      CanServe (t.system.afterKmalloc NODE_BYTES) (strdupSize r.key)
  | cmdMemcpy => CanServe t.system 16 ∧ CanServe (t.system.afterKmalloc 16) 16
  | cmdMemset => CanServe t.system 16
  | cmdMaptest => HasTestPage t.system.machine
  | _ => True

/-- **The command writes where nothing else is kept.**  What the bootstrap heap hands out to it is
sheltered, and the page of `cmd_maptest`, if there is one already, is neither of the heap nor
of anything the allocator was not given. -/
def MemoryCommand.Clear (k : KernelImage) (p₀ : Pmm) (t : Session V) : MemoryCommand V → Prop
  | registerCommand r => AsksClear k p₀ t.system NODE_BYTES ∧
      AsksClear k p₀ (t.system.afterKmalloc NODE_BYTES) (strdupSize r.key)
  | cmdMemcpy => AsksClear k p₀ t.system 16 ∧ AsksClear k p₀ (t.system.afterKmalloc 16) 16
  | cmdMemset => AsksClear k p₀ t.system 16
  | cmdMaptest => ∀ g, walkOf t.system.machine.tables TEST_VIRT = some g → p₀.Free g.val ∧
      ∀ q, t.system.memory.HeapPage q → walkOf t.system.machine.tables (pageAddr q) ≠ some g
  | _ => True

/-- The table is as it was, or `register_command` has linked a whole node. -/
def MemoryCommand.Linked (c : MemoryCommand V) (t u : Session V) : Prop :=
  u.table = t.table ∨ ∃ r, c = registerCommand r ∧
    Frewozet.registerCommand {} r t.table = some u.table

/-- **The command survives**: no access stops it, and it leaves no half-built node. -/
def MemoryCommand.Survives (c : MemoryCommand V) (t : Session V) : Prop :=
  ∃ u, c.exec t = .ret () u ∧ c.Linked t u

end

/-! ## One command -/

section

variable {V : Type} {k : KernelImage} {p₀ : Pmm} {t u : Session V} {c : MemoryCommand V}

theorem push_ne {table : Table V} {j : Fin TABLE_SIZE} {e : Node V} : table.push j e ≠ table := by
  intro hc
  have hlen := congrArg List.length (congrFun hc j)
  rw [Chains.push, Function.update_self, List.length_cons] at hlen
  omega

/-- A node whose key was not copied is not a whole one. -/
theorem linked_iff {r : Registration V} {key : Bool}
    (hu : u.table = t.table.push (tableIndex r.key) (r.node { key := key })) :
    (MemoryCommand.registerCommand r).Linked t u ↔ key = true := by
  unfold MemoryCommand.Linked
  rw [hu, or_iff_right push_ne]
  constructor
  · rintro ⟨r', hr, hpush⟩
    obtain rfl := MemoryCommand.registerCommand.inj hr
    have hnode := congrArg List.head? (congrFun (Option.some.inj hpush) (tableIndex r.key))
    simp only [Chains.push, Function.update_self, List.head?_cons, Option.some.injEq] at hnode
    have hfound := congrArg Node.key hnode
    cases key with
    | true => rfl
    | false => cases hfound
  · rintro rfl
    exact ⟨r, rfl, rfl⟩

/-- Every node has its key. -/
def WholeNodes (table : Table V) : Prop := ∀ i, ∀ e ∈ table i, e.key ≠ none

theorem WholeNodes.findNode (h : WholeNodes t.table) (key : List U8) (i : Fin TABLE_SIZE) :
    findNode key (t.table i) = some ((t.table i).find? (Node.has key)) :=
  (findNode_eq key _).1 fun e he => h i e ((List.takeWhile_prefix _).subset he)

/-- The kernel is in order, no node of the table is half-built, and nodes and keys are kept apart
from everything else. -/
structure SessionOk (k : KernelImage) (p₀ : Pmm) (t : Session V) : Prop where
  running : Running p₀ t.system
  whole : WholeNodes t.table
  kept : ∀ r ∈ t.held, KeptAt k p₀ t.system.memory r.1 r.2

/-- What a command leaves behind that returns. -/
structure MemoryCommand.Leaves (k : KernelImage) (p₀ : Pmm) (c : MemoryCommand V)
    (t u : Session V) : Prop where
  running : Running p₀ u.system
  used : ∀ a, UsedByte t.system.memory a → UsedByte u.system.memory a
  held : ∀ r ∈ u.held, r ∈ t.held ∨ KeptAt k p₀ u.system.memory r.1 r.2
  linked : c.Linked t u ↔ c.Served t

/-- A command that leaves the table alone and is served. -/
theorem Continues.leaves {v : System} (h : Continues p₀ t.system v) (hs : c.Served t) :
    c.Leaves k p₀ t { t with system := v } :=
  ⟨h.toRunning, fun _ => h.usedByte, fun _ => .inl, iff_of_true (.inl rfl) hs⟩

/-- **Every command.**  It returns or stops as its allocations go; if one it does not check
fails, it does not return, or leaves a half-built node. -/
theorem MemoryCommand.spec (h : SessionOk k p₀ t) (hc : c.Owed t) (hclear : c.Clear k p₀ t) :
    wp c.exec (fun _ => c.Leaves k p₀ t) (fun _ _ => ¬ c.Served t) t := by
  have hrun := h.running
  cases c with
  | registerCommand r =>
    refine wp_mono (wp_registerCommand hrun hc.1 hc.2.1 hclear.1 hclear.2 hc.2.2) ?_
      fun _ _ hno hs => hno hs.1
    rintro _ u ⟨hu, hnode, ⟨key, hkey, htable⟩, e, d, hheld, he, hd⟩
    refine ⟨hu.toRunning, fun _ => hu.usedByte, fun r hr => ?_,
      (linked_iff htable).trans (hkey.trans (and_iff_right hnode).symm)⟩
    rw [hheld, List.mem_cons, List.mem_cons] at hr
    rcases hr with rfl | rfl | hr
    · exact .inr he
    · exact .inr hd
    · exact .inl hr
  | cmdAlloc argv =>
    rw [exec, wp_bind, wp_onSystem]
    exact wp_mono (kmalloc_continues hrun hc) (fun _ _ hu => hu.leaves trivial)
      fun _ _ hf => hf.elim
  | cmdMemcpy =>
    rw [exec, wp_bind, wp_onSystem]
    exact wp_mono (wp_cmdMemcpy hrun hc.1 hc.2) (fun _ _ hu => hu.1.leaves hu.2) fun _ _ hno => hno
  | cmdMemset =>
    rw [exec, wp_bind, wp_onSystem]
    exact wp_mono (wp_cmdMemset hrun hc) (fun _ _ hu => hu.1.leaves hu.2) fun _ _ hno => hno
  | cmdMaptest =>
    rw [exec, wp_bind, wp_onSystem, onMachine, wp_zoom]
    refine wp_mono (wp_cmdMaptest hrun.ok.standing.ground.machine hc) ?_ fun _ _ hno => hno
    rintro _ m' ⟨⟨hm, he⟩, hhas⟩
    obtain ⟨bs, hheap⟩ := hrun.ok.heap
    have hu : Continues p₀ t.system { t.system with machine := m' } :=
      ⟨⟨⟨⟨bs, hheap⟩, hrun.ok.standing.evolve hm he
        (not_samePage_of_client hheap.heap fun _ hq => absurd hq.1 (by decide))⟩, hrun.bootstrap⟩,
        fun _ _ hq => hq⟩
    exact hu.leaves hhas
  | lookupCommand key =>
    rw [exec, wp_bind, wp_get, Frewozet.lookupCommand, h.whole.findNode]
    exact hrun.continues.leaves trivial
  | cmdHelpNew stray argv =>
    rw [exec, wp_bind, wp_get, Frewozet.cmdHelpNew]
    split
    · exact hrun.continues.leaves trivial
    · rw [helpSearch, lookupCommandNode, h.whole.findNode]
      cases (t.table (tableIndex (argv.getD 1 stray))).find? (Node.has (argv.getD 1 stray)) <;>
        exact hrun.continues.leaves trivial

theorem SessionOk.survives_iff (h : SessionOk k p₀ t) (hc : c.Owed t) (hclear : c.Clear k p₀ t) :
    c.Survives t ↔ c.Served t := by
  have hspec := MemoryCommand.spec h hc hclear
  cases hx : c.exec t with
  | ret _ u =>
    have hu := (wp_ret hspec hx).linked
    refine ⟨fun ⟨v, hv, hlinked⟩ => hu.1 ?_, fun hs => ⟨u, hx, hu.2 hs⟩⟩
    obtain rfl : u = v := by
      rw [hx] at hv
      cases hv
      rfl
    exact hlinked
  | stop w u =>
    refine iff_of_false (fun ⟨v, hv, _⟩ => ?_) (wp_stops hspec hx)
    rw [hx] at hv
    cases hv

/-- A command that is served keeps the nodes whole. -/
theorem WholeNodes.linked (h : WholeNodes t.table) (hl : c.Linked t u) : WholeNodes u.table := by
  rcases hl with hl | ⟨r, -, hl⟩
  · rwa [hl]
  · intro i e he
    rw [← Option.some.inj hl, Chains.push, Function.update_apply] at he
    split at he
    · rcases List.mem_cons.1 he with rfl | he
      · exact Option.some_ne_none _
      · exact h _ e he
    · exact h i e he

end

/-! ## Runs -/

/-- What happens in the running kernel. -/
inductive Action (V : Type) where
  | kernel (op : Op)
  | command (c : MemoryCommand V)

section

variable {V : Type} {k : KernelImage} {p₀ : Pmm} {t : Session V}

def Action.exec : Action V → Exec (Session V) Unit
  | kernel op => onSystem op.exec
  | command c => c.exec

/-- Callers do not write to the given ranges. -/
def Op.Spares (held : List (U32 × Nat)) (t : System) : Op → Prop
  | write vmem => ∀ r ∈ held, ∀ a : U32, r.1.toNat ≤ a.toNat → a.toNat < r.1.toNat + r.2 →
      vmem a = t.memory.vmem a
  | _ => True

/-- Calls are made where they may be and leave the table of commands alone, and commands are
served. -/
def Action.Ok (k : KernelImage) (p₀ : Pmm) (t : Session V) : Action V → Prop
  | kernel op => op.Ok True t.system ∧ op.Clear k p₀ t.system ∧ op.Spares t.held t.system
  | command c => c.Owed t ∧ c.Clear k p₀ t ∧ c.Served t

/-- No command is registered yet. -/
def bootSession (V : Type) (info : E820Info) (k : KernelImage) (vmem phys : Mem) : Session V where
  system := bootSystem info k vmem phys
  table := emptyTable

theorem sessionOk_boot (info : E820Info) (k : KernelImage) (vmem phys : Mem) :
    SessionOk k (boot info k vmem).pmm (bootSession V info k vmem phys) where
  running := ⟨systemOk_boot info k vmem phys True, bootstrapIn_boot info k vmem⟩
  whole := fun _ _ he => absurd he List.not_mem_nil
  kept := fun _ hr => absurd hr List.not_mem_nil

/-- **One step.** -/
theorem sessionOk_step (h : SessionOk k p₀ t) (a : Action V) (ha : a.Ok k p₀ t) :
    wp a.exec (fun _ => SessionOk k p₀) (fun _ _ => True) t := by
  cases a with
  | kernel op =>
    rw [Action.exec, wp_onSystem]
    refine wp_mono (wp_and (wp_and (systemOk_step h.running.ok op ha.1)
      (keeps_bootstrapIn op t.system h.running.bootstrap))
      (op.keeps_usedByte h.running.ok ha.1)) ?_ fun _ _ _ => trivial
    rintro _ u ⟨⟨hu, hboot⟩, hused⟩
    exact ⟨⟨hu, hboot⟩, h.whole, fun r hr => (h.kept r hr).of_used hused⟩
  | command c =>
    refine wp_mono (MemoryCommand.spec h ha.1 ha.2.1) ?_ fun _ _ _ => trivial
    intro _ u hu
    refine ⟨hu.running, h.whole.linked (hu.linked.2 ha.2.2), fun r hr => ?_⟩
    rcases hu.held r hr with hold | hnew
    · exact (h.kept r hold).of_used hu.used
    · exact hnew

/-- **A run.** -/
theorem sessionOk_run (h : SessionOk k p₀ t) {actions : List (Action V)} {u : Session V}
    (hok : EachOk Action.exec (Action.Ok k p₀) actions t)
    (hrun : runAll Action.exec actions t = .ret () u) :
    SessionOk k p₀ u := by
  have hall := runAll_invariant (I := SessionOk k p₀) (J := fun _ => True)
    (fun _ a hs ha => sessionOk_step hs a ha) actions t h hok
  have hend := wp_ret hall hrun
  exact hend

end

/-! ## A heap of one region -/

section

variable {p₀ : Pmm} {t : System} {bs : List Block} {size : U32}

/-- A free block that fits. -/
theorem canServe_of_fits (hheap : HeapAt t.memory bs) (he : t.memory.memoryPmmBackendEnabled = true)
    (hserve : ∃ b ∈ bs, b.fits (alignUpSize size MEMORY_DEFAULT_ALIGNMENT).toNat = true) :
    CanServe t size := by
  obtain ⟨b, hb, hfits⟩ := hserve
  rw [CanServe, if_pos he]
  refine .inl fun hc => ?_
  rw [hheap.find_none.1 hc b hb] at hfits
  cases hfits

/-- The state a call leaves that is served from one. -/
theorem afterKmalloc_served (h : Running p₀ t) (hheap : HeapAt t.memory bs)
    (he : t.memory.memoryPmmBackendEnabled = true) (h0 : size ≠ 0) (hok : MayAsk t size)
    (hserve : ∃ b ∈ bs, b.fits (alignUpSize size MEMORY_DEFAULT_ALIGNMENT).toNat = true) :
    ∃ xs b ys p, bs = xs ++ b :: ys ∧
      b.fits (alignUpSize size MEMORY_DEFAULT_ALIGNMENT).toNat = true ∧
      onHeap (kmalloc kernelBacking size) t = .ret p (t.afterKmalloc size) ∧
      HeapAt (t.afterKmalloc size).memory
        (xs ++ b.taken (alignUpSize size MEMORY_DEFAULT_ALIGNMENT).toNat ++ ys) ∧
      SameStatics t.memory (t.afterKmalloc size).memory ∧
      (t.afterKmalloc size).memory.heapVirtualCurrent = t.memory.heapVirtualCurrent ∧
      (t.afterKmalloc size).machine = t.machine := by
  obtain ⟨b, hb, hfits⟩ := hserve
  have hnot : ¬ ∀ b ∈ bs, b.fits (alignUpSize size MEMORY_DEFAULT_ALIGNMENT).toNat = false :=
    fun hc => by
      rw [hc b hb] at hfits
      cases hfits
  obtain ⟨bs', hheap', hspec⟩ := h.ok.kmalloc he h0 hok
  rw [hheap'.unique hheap] at hspec
  cases hx : kmalloc kernelBacking size (t.memory, t.machine) with
  | stop w v => exact (wp_stops hspec hx).elim
  | ret p v =>
    have hcall : onHeap (kmalloc kernelBacking size) t =
        .ret p { t with memory := v.1, machine := v.2 } := by rw [onHeap, zoom, hx]
    have hafter : t.afterKmalloc size = { t with memory := v.1, machine := v.2 } := by
      rw [System.afterKmalloc, hcall, Outcome.state_ret]
    rw [hafter]
    cases wp_ret hspec hx with
    | failed hnone => exact absurd hnone hnot
    | grown hnone => exact absurd hnone hnot
    | missed hnone => exact absurd hnone hnot
    | served hserves hback =>
      obtain ⟨xs, c, ys, vmem, rfl, -, hc, -, hmem, hheap₁, -⟩ := hserves
      refine ⟨xs, c, ys, p, rfl, hc, hcall, hheap₁, ?_, ?_, hback⟩
      · rw [hmem]
        exact .vmem _ _
      · rw [hmem]

/-- A call that does not grow the heap takes no table. -/
theorem mayAsk_of_fits (hheap : HeapAt t.memory bs)
    (hserve : ∃ b ∈ bs, b.fits (alignUpSize size MEMORY_DEFAULT_ALIGNMENT).toNat = true) :
    MayAsk t size := by
  obtain ⟨b, hb, hfits⟩ := hserve
  refine ⟨trivial, trivial, fun _ n hn hneeds => ?_⟩
  rw [Request.inner] at hn
  split at hn
  · cases hn
  · obtain rfl := Option.some.inj hn
    rw [hheap.find_none.1 hneeds.1 b hb] at hfits
    cases hfits

end

/-- The argument of `alloc` that leaves one block of 24 bytes in a region of four pages. -/
def mostOfRegion : List (List U8) := [chars "alloc", chars "16336"]

section

variable (info : E820Info) (k : KernelImage) (vmem phys : Mem)

/-- On a machine with eight free frames: the backend is enabled, and `alloc 16336` run. -/
theorem spend_boot (V : Type) (hcount : (boot info k vmem).pmm.freeCount = 8)
    (hlow : 2 ≤ (boot info k vmem).pmm.freeBelow 1024) : ∃ t : Session V,
      runAll Action.exec [.kernel .enable, .command (.cmdAlloc mostOfRegion)]
          (bootSession V info k vmem phys) = .ret () t ∧
        EachOk Action.exec (Action.Ok k (boot info k vmem).pmm)
          [.kernel .enable, .command (.cmdAlloc mostOfRegion)] (bootSession V info k vmem phys) ∧
        t.table = emptyTable ∧
        HeapAt t.system.memory [⟨0xC1000000, 16336, false⟩, ⟨0xC1003FDC, 24, true⟩] ∧
        t.system.memory.memoryPmmBackendEnabled = true ∧ t.system.memory.top = 0xC1004 ∧
        t.system.machine.pmm.freeCount = 3 ∧
        ∀ j < 1024, t.system.machine.HasTable (0xC1000 + j) := by
  obtain ⟨t1, hx1, hfirst⟩ := enable_returns info k vmem phys (.inr hlow)
  have he := hfirst.enough.2 (hcount.symm ▸ by decide)
  obtain ⟨hcurrent, htables, hleft⟩ := hfirst.after info k vmem phys he
  have henable : Action.exec (.kernel .enable) (bootSession V info k vmem phys) =
      .ret () ⟨t1, emptyTable, []⟩ := by
    change onSystem _ _ = _
    rw [onSystem, zoom, show (bootSession V info k vmem phys).system =
      bootSystem info k vmem phys from
      rfl, hx1]
    rfl
  have hok1 : EachOk (Action.exec (V := V)) (Action.Ok k (boot info k vmem).pmm)
      [.kernel .enable] (bootSession V info k vmem phys) :=
    ⟨⟨ok_enable_boot info k vmem phys True (.inr hlow), trivial, trivial⟩, fun _ _ => trivial⟩
  have h1 := sessionOk_run (sessionOk_boot info k vmem phys) hok1 (runAll_of_ret henable)
  have hsize : allocSize mostOfRegion = 16336 := by decide
  have hserve : ∃ b ∈ [(⟨0xC1000000, 0x3FF4, true⟩ : Block)],
      b.fits (alignUpSize 16336 MEMORY_DEFAULT_ALIGNMENT).toNat = true :=
    ⟨_, List.mem_singleton_self _, by decide⟩
  have hask := mayAsk_of_fits (t := t1) (hfirst.list he) hserve
  obtain ⟨xs, b, ys, p, hlist, -, hcall, hheap, hsame, hcur, hmachine⟩ :=
    afterKmalloc_served h1.running (hfirst.list he) he (by decide) hask hserve
  obtain ⟨rfl, rfl, rfl⟩ : xs = [] ∧ b = ⟨0xC1000000, 0x3FF4, true⟩ ∧ ys = [] := by
    cases xs with
    | nil => simpa [eq_comm] using hlist
    | cons x xs => simp at hlist
  have halloc : Action.exec (.command (.cmdAlloc mostOfRegion)) (⟨t1, emptyTable, []⟩ : Session V) =
      .ret () ⟨t1.afterKmalloc 16336, emptyTable, []⟩ := by
    change (onSystem (cmdAlloc mostOfRegion) >>= fun _ => pure ()) _ = _
    simp only [bind, onSystem, zoom, cmdAlloc, hsize, hcall]
    rfl
  refine ⟨⟨t1.afterKmalloc 16336, emptyTable, []⟩,
    (runAll_of_ret henable).trans (runAll_of_ret halloc), ⟨hok1.1, fun t ht => ?_⟩, rfl, hheap,
    hsame.enabled.trans he, ?_, ?_, ?_⟩
  · rw [henable] at ht
    cases ht
    refine ⟨⟨?_, trivial, trivial⟩, fun _ _ => trivial⟩
    change MayAsk t1 (allocSize mostOfRegion)
    rwa [hsize]
  · rw [Memory.top, hcur, hcurrent]
    rfl
  · rw [hmachine]
    change t1.machine.pmm.freeCount = 3
    omega
  · rwa [hmachine]

/-- `register_command` for a short key there: `strdup` finds no memory, and the node is linked
without its key. -/
theorem spend_loses_key {t : System} {p₀ : Pmm} (h : Running p₀ t)
    (hheap : HeapAt t.memory [⟨0xC1000000, 16336, false⟩, ⟨0xC1003FDC, 24, true⟩])
    (he : t.memory.memoryPmmBackendEnabled = true) (htop : t.memory.top = 0xC1004)
    (hcount : t.machine.pmm.freeCount = 3) (htables : ∀ j < 1024, t.machine.HasTable (0xC1000 + j))
    {s : List U8} (hs : strdupSize s ≠ 0)
    (hsize : alignUpSize (strdupSize s) MEMORY_DEFAULT_ALIGNMENT = 16) :
    MayAsk t NODE_BYTES ∧ MayAsk (t.afterKmalloc NODE_BYTES) (strdupSize s) ∧
      CanServe t NODE_BYTES ∧ ¬ CanServe (t.afterKmalloc NODE_BYTES) (strdupSize s) ∧
        (t.afterKmalloc NODE_BYTES).memory.memoryPmmBackendEnabled = true := by
  have hnode : (alignUpSize NODE_BYTES MEMORY_DEFAULT_ALIGNMENT).toNat = 16 := by decide
  have hserve : ∃ b ∈ [(⟨0xC1000000, 16336, false⟩ : Block), ⟨0xC1003FDC, 24, true⟩],
      b.fits (alignUpSize NODE_BYTES MEMORY_DEFAULT_ALIGNMENT).toNat = true :=
    ⟨⟨0xC1003FDC, 24, true⟩, by simp, by decide⟩
  have hask := mayAsk_of_fits hheap hserve
  obtain ⟨xs, b, ys, p, hlist, hfits, -, hheap', hsame, hcur, hmachine⟩ :=
    afterKmalloc_served h hheap he (by decide) hask hserve
  -- the second block is used now, whole
  have hused : ∀ c ∈ xs ++ b.taken (alignUpSize NODE_BYTES MEMORY_DEFAULT_ALIGNMENT).toNat ++ ys,
      c.fits 16 = false := by
    rw [hnode] at hfits ⊢
    cases xs with
    | nil =>
      obtain ⟨rfl, -⟩ := List.cons.inj hlist
      exact absurd hfits (by decide)
    | cons x xs =>
      obtain ⟨rfl, htail⟩ := List.cons.inj hlist
      cases xs with
      | nil =>
        obtain ⟨rfl, rfl⟩ := List.cons.inj htail
        decide
      | cons y xs =>
        obtain ⟨-, hnil⟩ := List.cons.inj htail
        exact absurd hnil.symm (by simp)
  have hnone : heapFindFreeBlock 16 (t.afterKmalloc NODE_BYTES).memory = some 0 :=
    hheap'.find_none.2 hused
  have htop' : (t.afterKmalloc NODE_BYTES).memory.top = 0xC1004 := by
    rw [Memory.top, hcur]
    exact htop
  have hpages : (growPages 16).toNat = 4 := by decide
  refine ⟨hask, ⟨trivial, trivial, fun _ n hn _ => ?_⟩, canServe_of_fits hheap he hserve, ?_,
    hsame.enabled.trans he⟩
  · obtain rfl := Option.some.inj ((if_neg hs).symm.trans hn)
    rw [hsize, GrowthLow, htop', hpages, hmachine]
    intro i hi hno
    exact absurd (htables (4 + i) (by omega)) (by rwa [← Nat.add_assoc])
  · rw [CanServe, if_pos (hsame.enabled.trans he), hsize, RoomInHeap, htop', hpages, hmachine,
      hcount]
    rintro (hc | ⟨-, hc, -⟩)
    · exact hc hnone
    · have hge := @framesNeeded_pos t.machine 0xC1004 4
      omega

end

/-! ## What survives -/

/-- **When running out of memory is survived.**  In every run from boot in which every
command is served and all that is written is written where nothing else is kept, the next
command survives exactly if it is served as well: `cmd_alloc`, `lookup_command` and `help`
always, `register_command`, `cmd_memcpy` and `cmd_memset` if none of their allocations fails,
and `cmd_maptest` if it gets its page or has it already.  The nodes and keys that have been
registered lie in used blocks or in sheltered memory. -/
theorem commands_survive_iff {V : Type} {info : E820Info} {k : KernelImage} {vmem phys : Mem}
    {actions : List (Action V)} {t : Session V}
    (hrun : runAll Action.exec actions (bootSession V info k vmem phys) = .ret () t)
    (hok : EachOk Action.exec (Action.Ok k (boot info k vmem).pmm) actions
      (bootSession V info k vmem phys)) {c : MemoryCommand V} (hc : c.Owed t)
    (hclear : c.Clear k (boot info k vmem).pmm t) :
    (c.Survives t ↔ c.Served t) ∧
      ∀ r ∈ t.held, KeptAt k (boot info k vmem).pmm t.system.memory r.1 r.2 := by
  have hend := sessionOk_run (sessionOk_boot info k vmem phys) hok hrun
  exact ⟨hend.survives_iff hc hclear, hend.kept⟩

/-- `memset` on a machine with eight free frames, with 24 bytes left in the heap. -/
theorem commands_survive_iff_memset : ∃ t : Session Unit,
    runAll Action.exec [.kernel .enable, .command (.cmdAlloc mostOfRegion)]
        (bootSession Unit tinyTable smallKernel (fun _ => 0) fun _ => 0) = .ret () t ∧
      MemoryCommand.cmdMemset.Survives t := by
  obtain ⟨hcount, hlow⟩ := tinyTable_counts fun _ => 0
  obtain ⟨t, hrun, hok, -, hheap, he, -⟩ :=
    spend_boot tinyTable smallKernel (fun _ => 0) (fun _ => 0)
    Unit hcount (by omega)
  have hserve : ∃ b ∈ [(⟨0xC1000000, 16336, false⟩ : Block), ⟨0xC1003FDC, 24, true⟩],
      b.fits (alignUpSize 16 MEMORY_DEFAULT_ALIGNMENT).toNat = true :=
    ⟨⟨0xC1003FDC, 24, true⟩, by simp, by decide⟩
  exact ⟨t, hrun, (commands_survive_iff hrun hok (c := .cmdMemset) (mayAsk_of_fits hheap hserve)
    (.of_enabled he)).1.2 (canServe_of_fits hheap he hserve)⟩

/-- `register_command` for the key `x` there: it returns, and a later search for the key
follows a null pointer. -/
theorem register_loses_key : ∃ t u : Session Unit,
    runAll Action.exec [.kernel .enable, .command (.cmdAlloc mostOfRegion)]
        (bootSession Unit tinyTable smallKernel (fun _ => 0) fun _ => 0) = .ret () t ∧
      (MemoryCommand.registerCommand ⟨chars "x", none, []⟩).exec t = .ret () u ∧
        lookupCommand (chars "x") u.table = none := by
  obtain ⟨hcount, hlow⟩ := tinyTable_counts fun _ => 0
  obtain ⟨t, hrun, hok, -, hheap, he, htop, hleft, htables⟩ := spend_boot tinyTable smallKernel
    (fun _ => 0) (fun _ => 0) Unit hcount (by omega)
  have h := (sessionOk_run (sessionOk_boot tinyTable smallKernel (fun _ => 0) fun _ => 0) hok
    hrun).running
  obtain ⟨hask, hask', hcan, hcannot, he'⟩ := spend_loses_key h hheap he htop hleft htables
    (s := chars "x") (by decide) (by decide)
  have hspec := wp_registerCommand (k := smallKernel) (r := ⟨chars "x", none, []⟩) h hask hask'
    (.of_enabled he) (.of_enabled he') (by decide)
  cases hx : (MemoryCommand.registerCommand ⟨chars "x", none, []⟩).exec t with
  | stop w u => exact absurd hcan (wp_stops hspec hx)
  | ret _ u =>
    obtain ⟨-, -, ⟨key, hkey, htable⟩, -⟩ := wp_ret hspec hx
    obtain rfl : key = false := by
      rw [Bool.eq_false_iff]
      exact fun hc => hcannot (hkey.1 hc)
    refine ⟨t, u, hrun, hx, ?_⟩
    rw [lookupCommand, htable, Chains.push_self]
    rfl

end Frewozet
