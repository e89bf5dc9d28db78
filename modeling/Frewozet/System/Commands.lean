import Frewozet.Commands.Help
import Frewozet.System.Pages
import Frewozet.System.Served
import Frewozet.Text.Decimal

/-!
# Commands that ask for memory

`register_command` and the four commands of the shell that ask for memory, on the real
allocators, with every access through a pointer they get.  What the commands show is left
out, but for the bytes they dump.

* `follow` — an access through a pointer: null, or to a page nothing is mapped at, it
  stops the kernel.
* `strdup`, `Session.registerCommand`, `cmdAlloc`, `cmdMemcpy`, `cmdMemset`, `cmdMaptest` —
  the code.
* `wp_strdup`, `wp_registerCommand`, `wp_cmdMemcpy`, `wp_cmdMemset`, `wp_cmdMaptest` — what
  each does, in terms of `CanServe`: **a pointer that is not checked is followed**.
-/

namespace Frewozet

open Exec TwoLevel

/-! ## Pointers -/

/-- An access at `addr` through the pointer `p`.  A null pointer stops the kernel also where
a client has mapped the first page. -/
def follow (p addr : U32) : Exec System Unit := do
  let t ← get
  if p ≠ 0 ∧ (mmu t.machine.phys addr).isSome then
    return ()
  else
    stop .fault

/-- `p[i]`. -/
def loadByte (p : U32) (i : Nat) : Exec System U8 := do
  follow p (p + BitVec.ofNat 32 i)
  let t ← get
  return t.memory.vmem (p + BitVec.ofNat 32 i)

/-- `p[i] = c;` -/
def storeByte (p : U32) (i : Nat) (c : U8) : Exec System Unit := do
  follow p (p + BitVec.ofNat 32 i)
  modify fun t => { t with memory :=
    { t.memory with vmem := t.memory.vmem.write8 (p + BitVec.ofNat 32 i) c } }

/-- The bytes one after the other, from `p[i]` on. -/
def storeBytes (p : U32) : Nat → List U8 → Exec System Unit
  | _, [] => pure ()
  | i, c :: cs => do
    storeByte p i c
    storeBytes p (i + 1) cs

/-- The loop of `memcpy`, with `n` bytes to go from the `i`th on. -/
def memcpyFrom (dest src : U32) (i : Nat) : Nat → Exec System Unit
  | 0 => pure ()
  | n + 1 => do
    let c ← loadByte src i
    storeByte dest i c
    memcpyFrom dest src (i + 1) n

/-- The loop of `shell_dump_bytes`: the bytes it shows. -/
def dumpFrom (data : U32) (i : Nat) : Nat → Exec System (List U8)
  | 0 => pure []
  | n + 1 => do
    let c ← loadByte data i
    let cs ← dumpFrom data (i + 1) n
    return c :: cs

/-- Access to `n` bytes from `p[i]` on, whatever is in them. -/
def touchFrom (p : U32) (i : Nat) : Nat → Exec System Unit
  | 0 => pure ()
  | n + 1 => do
    follow p (p + BitVec.ofNat 32 i)
    touchFrom p (i + 1) n

/-! ## The code -/

/-- What `strdup` asks for. -/
def strdupSize (s : List U8) : U32 := BitVec.ofNat 32 ((cstr s).length + 1)

/-- `strdup`. -/
def strdup (s : List U8) : Exec System U32 := do
  let p ← onHeap (kmalloc kernelBacking (strdupSize s))
  if p = 0 then
    return 0
  else do
    storeBytes p 0 (cstr s ++ [0])
    return p

/-- The size `cmd_alloc` asks for. -/
def allocSize (argv : List (List U8)) : U32 :=
  if 2 ≤ argv.length then (shellParseUint32 (argv.getD 1 [])).getD 64 else 64

/-- `cmd_alloc`: the pointer it shows, or null when it says that the allocation failed. -/
def cmdAlloc (argv : List (List U8)) : Exec System U32 :=
  onHeap (kmalloc kernelBacking (allocSize argv))

/-- `cmd_memcpy`: the two dumps. -/
def cmdMemcpy : Exec System (List U8 × List U8) := do
  let src ← onHeap (kmalloc kernelBacking 16)
  let dest ← onHeap (kmalloc kernelBacking 16)
  storeBytes src 0 ((List.range 16).map (BitVec.ofNat 8))
  memcpyFrom dest src 0 16
  let shown ← dumpFrom src 0 16
  let copied ← dumpFrom dest 0 16
  return (shown, copied)

/-- `cmd_memset`: the dump. -/
def cmdMemset : Exec System (List U8) := do
  let buffer ← onHeap (kmalloc kernelBacking 16)
  storeBytes buffer 0 (List.replicate 16 0xAB)
  dumpFrom buffer 0 16

/-- `test_virt` of `cmd_maptest`. -/
def TEST_VIRT : U32 := 0xC0400000

/-- `cmd_maptest`: the value read back, and where the page is.  When there is no page it
says so and goes on. -/
def cmdMaptest : Exec Machine (U32 × U32) := do
  let _ ← pagingAllocPage TEST_VIRT PAGE_WRITABLE
  let a ← dataAccess TEST_VIRT
  modify fun m => { m with phys := m.phys.write32 a 0x1234ABCD }
  let a ← dataAccess TEST_VIRT
  let m ← get
  let backing ← ofOption .fault (pagingTranslate m.phys TEST_VIRT)
  return (m.phys.read32 a, backing)

/-- `sizeof(Node)` on i386. -/
def NODE_BYTES : U32 := 16

/-- The kernel, and the table of commands. -/
structure Session (V : Type) where
  system : System
  table : Table V
  /-- Ghost: where the nodes and the copies of their keys are, as address and number of bytes. -/
  held : List (U32 × Nat) := []

section

variable {V : Type}

/-- A call that leaves the table of commands alone. -/
def onSystem {α : Type} (x : Exec System α) : Exec (Session V) α :=
  zoom Session.system (fun s t => { t with system := s }) x

/-- `register_command`.  The four fields it writes are the node of the chain. -/
def Session.registerCommand (r : Registration V) : Exec (Session V) Unit := do
  let e ← onSystem (onHeap (kmalloc kernelBacking NODE_BYTES))
  let key ← onSystem (strdup r.key)
  onSystem (touchFrom e 0 NODE_BYTES.toNat)
  modify fun t => { t with
    table := t.table.push (tableIndex r.key) (r.node { key := decide (key ≠ 0) })
    held := (e, NODE_BYTES.toNat) ::
      (key, if key = 0 then 0 else (cstr r.key).length + 1) :: t.held }

end

/-! ## Bytes that are held -/

section

variable {p₀ : Pmm} {t : System} {p q : U32} {n i : Nat}

theorem toNat_add_index {p : U32} {n i : Nat} (h : p.toNat + n < 2 ^ 32) (hi : i < n) :
    (p + BitVec.ofNat 32 i).toNat = p.toNat + i := Mem.toNat_add_of_lt (by omega)

/-- An access to bytes that are held goes through. -/
theorem wp_follow (h : Running p₀ t) (hp : Holds t.memory p n) (hne : p ≠ 0) (hi : i < n)
    {Q : Unit → System → Prop} {S : Stop → System → Prop} :
    wp (follow p (p + BitVec.ofNat 32 i)) Q S t ↔ Q () t := by
  have haddr := toNat_add_index hp.lt hi
  have hmapped := h.ok.mapped (a := p + BitVec.ofNat 32 i) hp (by omega) (by omega)
  rw [follow, wp_bind, wp_get, if_pos ⟨hne, hmapped⟩, wp_pure]

/-- One through a null pointer does not. -/
theorem wp_follow_null {addr : U32} {Q : Unit → System → Prop} {S : Stop → System → Prop} :
    wp (follow 0 addr) Q S t ↔ S .fault t := by
  rw [follow, wp_bind, wp_get, if_neg fun hc => hc.1 rfl, wp_stop]

theorem wp_loadByte (h : Running p₀ t) (hp : Holds t.memory p n) (hne : p ≠ 0) (hi : i < n) :
    wp (loadByte p i) (fun _ u => u = t) (fun _ _ => False) t := by
  rw [loadByte, wp_bind, wp_follow h hp hne hi]
  exact rfl

theorem wp_storeByte (h : Running p₀ t) (hp : Holds t.memory p n) (hne : p ≠ 0) (hi : i < n)
    (c : U8) : wp (storeByte p i c) (fun _ => Continues p₀ t) (fun _ _ => False) t := by
  have haddr := toNat_add_index hp.lt hi
  rw [storeByte, wp_bind, wp_follow h hp hne hi, wp_modify]
  refine h.write fun a ha => ?_
  obtain rfl : a = p + BitVec.ofNat 32 i := by
    by_contra hc
    exact ha (Mem.write8_of_ne _ _ hc)
  exact hp.writable (by omega) (by omega)

theorem wp_storeBytes (hne : p ≠ 0) : ∀ {cs : List U8} {i : Nat} {t : System}, Running p₀ t →
    Holds t.memory p n → i + cs.length ≤ n →
    wp (storeBytes p i cs) (fun _ => Continues p₀ t) (fun _ _ => False) t := by
  intro cs
  induction cs with
  | nil => exact fun h _ _ => h.continues
  | cons c cs ih =>
    intro i t h hp hn
    rw [List.length_cons] at hn
    rw [storeBytes, wp_bind]
    refine wp_mono (wp_storeByte h hp hne (by omega) c) ?_ fun _ _ hf => hf
    intro _ u hu
    exact wp_mono (ih hu.toRunning (hu.kept p n hp) (by omega)) (fun _ _ hv => hu.trans hv)
      fun _ _ hf => hf

theorem wp_memcpyFrom (hpne : p ≠ 0) (hqne : q ≠ 0) : ∀ {k i : Nat} {t : System}, Running p₀ t →
    Holds t.memory p n → Holds t.memory q n → i + k ≤ n →
    wp (memcpyFrom q p i k) (fun _ => Continues p₀ t) (fun _ _ => False) t := by
  intro k
  induction k with
  | zero => exact fun h _ _ _ => h.continues
  | succ k ih =>
    intro i t h hp hq hn
    rw [memcpyFrom, wp_bind]
    refine wp_mono (wp_loadByte h hp hpne (by omega)) ?_ fun _ _ hf => hf
    rintro c u rfl
    rw [wp_bind]
    refine wp_mono (wp_storeByte h hq hqne (by omega) c) ?_ fun _ _ hf => hf
    intro _ v hv
    exact wp_mono (ih hv.toRunning (hv.kept p n hp) (hv.kept q n hq) (by omega))
      (fun _ _ hw => hv.trans hw) fun _ _ hf => hf

theorem wp_dumpFrom (h : Running p₀ t) (hp : Holds t.memory p n) (hne : p ≠ 0) :
    ∀ {k i : Nat}, i + k ≤ n → wp (dumpFrom p i k) (fun _ u => u = t) (fun _ _ => False) t := by
  intro k
  induction k with
  | zero => exact fun _ => rfl
  | succ k ih =>
    intro i hn
    rw [dumpFrom, wp_bind]
    refine wp_mono (wp_loadByte h hp hne (by omega)) ?_ fun _ _ hf => hf
    rintro c u rfl
    rw [wp_bind]
    exact wp_mono (ih (by omega)) (fun _ _ hu => hu) fun _ _ hf => hf

theorem wp_touchFrom (h : Running p₀ t) (hp : Holds t.memory p n) (hne : p ≠ 0) :
    ∀ {k i : Nat}, i + k ≤ n → wp (touchFrom p i k) (fun _ u => u = t) (fun _ _ => False) t := by
  intro k
  induction k with
  | zero => exact fun _ => rfl
  | succ k ih =>
    intro i hn
    rw [touchFrom, wp_bind, wp_follow h hp hne (by omega)]
    exact ih (by omega)

end

/-! ## When a command may be run -/

/-- The kernel after a call of `kmalloc`. -/
def System.afterKmalloc (t : System) (size : U32) : System :=
  (onHeap (kmalloc kernelBacking size) t).state

/-- The tables that a call of `kmalloc` takes are in reach. -/
abbrev MayAsk (t : System) (size : U32) : Prop := (Op.request (.kmalloc size)).Ok True t

/-- What the bootstrap heap hands out for the call is sheltered memory. -/
def AsksClear (k : KernelImage) (p₀ : Pmm) (t : System) (size : U32) : Prop :=
  t.memory.memoryPmmBackendEnabled = false →
    RoomInBootstrap t.memory (alignUpSize size MEMORY_DEFAULT_ALIGNMENT) → ∀ a : U32,
      (Word.alignUp t.memory.bootstrapHeapCurrent MEMORY_DEFAULT_ALIGNMENT).toNat ≤ a.toNat →
      a.toNat < (Word.alignUp t.memory.bootstrapHeapCurrent MEMORY_DEFAULT_ALIGNMENT).toNat +
        (alignUpSize size MEMORY_DEFAULT_ALIGNMENT).toNat → Sheltered k p₀ a

theorem AsksClear.of_enabled {k : KernelImage} {p₀ : Pmm} {t : System} {size : U32}
    (he : t.memory.memoryPmmBackendEnabled = true) : AsksClear k p₀ t size :=
  fun hno => absurd (he.symm.trans hno) (by decide)

/-- The same for the call of `paging_alloc_page` in `cmd_maptest`, and nobody has mapped a
table at its page. -/
structure MayTest (m : Machine) : Prop where
  reach : entryTarget (m.tables dirFrame (slotOf TEST_VIRT)) = none →
    m.pmm.freeCount ≤ 1 ∨ 2 ≤ m.pmm.freeBelow 1024
  data : ∀ g, walkOf m.tables TEST_VIRT = some g →
    g ≠ dirFrame ∧ ¬ IsTable entryTarget dirFrame m.tables g

/-- `cmd_maptest` gets its page, or has it already. -/
def HasTestPage (m : Machine) : Prop :=
  ¬ ShortOfFrames m TEST_VIRT ∨ (mmu m.phys TEST_VIRT).isSome

/-! ## What they do -/

section

variable {p₀ : Pmm} {t : System} {p : U32} {i : Nat}

theorem wp_storeBytes_null {cs : List U8} (hcs : cs ≠ []) {Q : Unit → System → Prop}
    {S : Stop → System → Prop} : wp (storeBytes 0 i cs) Q S t ↔ S .fault t := by
  obtain ⟨c, cs, rfl⟩ := List.exists_cons_of_ne_nil hcs
  rw [storeBytes, wp_bind, storeByte, wp_bind, wp_follow_null]

/-- A call of `kmalloc`, with the state it leaves by name. -/
theorem wp_kmalloc (h : Running p₀ t) {size : U32} (h0 : size ≠ 0) (hsize : size.toNat ≤ 0xFFFFFFF0)
    (hok : MayAsk t size) : wp (onHeap (kmalloc kernelBacking size))
      (fun p u => MallocDone p₀ t size p u ∧ t.afterKmalloc size = u) (fun _ _ => False) t :=
  wp_mono (wp_ran (kmalloc_serves h h0 hsize hok))
    (fun _ _ hc => ⟨hc.2, by rw [System.afterKmalloc, hc.1, Outcome.state_ret]⟩) fun _ _ hf => hf

/-- The bytes from `p` on are where nothing else is kept. -/
def KeptAt (k : KernelImage) (p₀ : Pmm) (mem : Memory) (p : U32) (n : Nat) : Prop :=
  ∀ a : U32, p.toNat ≤ a.toNat → a.toNat < p.toNat + n → Sheltered k p₀ a ∨ UsedByte mem a

theorem KeptAt.of_used {k : KernelImage} {mem mem' : Memory} {n : Nat} (h : KeptAt k p₀ mem p n)
    (hu : ∀ a, UsedByte mem a → UsedByte mem' a) : KeptAt k p₀ mem' p n :=
  fun a hlo hhi => (h a hlo hhi).imp_right (hu a)

/-- Whoever held bytes of the heap holds them. -/
theorem Continues.usedByte {u : System} (h : Continues p₀ t u) {a : U32}
    (ha : UsedByte t.memory a) : UsedByte u.memory a := by
  obtain ⟨bs, b, hheap, hb, hused, hlo, hhi⟩ := ha
  have hin := hheap.inWindow hb
  rcases h.kept a 1 (.inl ⟨bs, b, hheap, hb, hused, hlo, by omega⟩) with
    ⟨cs, c, hcs, hc, hcused, h1, h2⟩ | ⟨-, hlow⟩
  · exact ⟨cs, c, hcs, hc, hcused, h1, by omega⟩
  · have := hin.1
    omega

/-- **What `kmalloc` returns is kept apart**, as long as the bootstrap heap serves the call from
sheltered memory, if it serves it. -/
theorem kmalloc_keptAt {k : KernelImage} (h : Running p₀ t) {size : U32} (h0 : size ≠ 0)
    (hsize : size.toNat ≤ 0xFFFFFFF0) (hclear : AsksClear k p₀ t size) :
    wp (onHeap (kmalloc kernelBacking size))
      (fun p u => p ≠ 0 → KeptAt k p₀ u.memory p size.toNat) (fun _ _ => True) t := by
  have hge := alignUpSize_ge hsize
  obtain ⟨bs, hheap⟩ := h.ok.heap
  rw [onHeap, wp_zoom]
  by_cases he : t.memory.memoryPmmBackendEnabled = true
  · refine wp_mono (kmalloc_enabled (B := kernelBacking) (s := t.machine) hheap he size) ?_
      fun _ _ _ => trivial
    rintro p ⟨mem', m'⟩ ⟨-, bs', hheap', hmalloc⟩ hp a hlo hhi
    cases hmalloc with
    | null hres => exact absurd hres hp
    | used b hptr hle hnew =>
      have hstop : b.stop = b.addr + 12 + b.size := rfl
      exact .inr ⟨bs', b, hheap'.heap, hnew.1, hnew.2.1, by omega, by omega⟩
  · have he' := Bool.eq_false_iff.2 he
    unfold wp
    rw [kmalloc_bootstrap he' h0]
    unfold bootstrapAlloc
    dsimp only
    rcases bootstrapAllocAligned_spec (alignUpSize size MEMORY_DEFAULT_ALIGNMENT)
      MEMORY_DEFAULT_ALIGNMENT t.memory with hr | ⟨p, hr, hp, -, -, -, hroom⟩
    · rw [hr]
      exact fun hc => absurd rfl hc
    · rw [if_neg (by decide), alignUpU32_eq (by decide)] at hp
      rw [hr, hp]
      rw [hp] at hroom
      dsimp only
      exact fun _ a hlo hhi => .inl (hclear he' hroom a hlo (by omega))

theorem strdupSize_toNat {s : List U8} (h : (cstr s).length < 0xFFFFFFF0) :
    (strdupSize s).toNat = (cstr s).length + 1 := toNat_ofNat_lt (by omega)

theorem wp_strdup {k : KernelImage} (h : Running p₀ t) {s : List U8}
    (hlen : (cstr s).length < 0xFFFFFFF0) (hok : MayAsk t (strdupSize s))
    (hclear : AsksClear k p₀ t (strdupSize s)) : wp (strdup s)
      (fun p u => Continues p₀ t u ∧ (p ≠ 0 ↔ CanServe t (strdupSize s)) ∧
        (p ≠ 0 → KeptAt k p₀ u.memory p ((cstr s).length + 1))) (fun _ _ => False) t := by
  have hsize := strdupSize_toNat hlen
  have h0 : strdupSize s ≠ 0 := fun hc => by
    rw [hc, show (0 : U32).toNat = 0 from rfl] at hsize
    omega
  rw [strdup, wp_bind]
  refine wp_mono (wp_and (kmalloc_serves h h0 (by omega) hok)
    (kmalloc_keptAt h h0 (by omega) hclear)) ?_ fun _ _ hf => hf.1
  rintro p u ⟨hp, hkept⟩
  by_cases hnull : p = 0
  · rw [if_pos hnull, wp_pure]
    exact ⟨hp.toContinues, hnull ▸ hp.served, fun hc => absurd rfl hc⟩
  · rw [if_neg hnull, wp_bind]
    refine wp_mono (wp_storeBytes hnull hp.toRunning (hp.holds hnull) ?_) ?_ fun _ _ hf => hf
    · rw [hsize, List.length_append, List.length_singleton]
      omega
    · intro _ v hv
      have hkept' := (hkept hnull).of_used fun _ => hv.usedByte
      rw [hsize] at hkept'
      exact ⟨hp.toContinues.trans hv, hp.served, fun _ => hkept'⟩

theorem wp_cmdMemset (h : Running p₀ t) (hok : MayAsk t 16) :
    wp cmdMemset (fun _ u => Continues p₀ t u ∧ CanServe t 16) (fun _ _ => ¬ CanServe t 16) t := by
  rw [cmdMemset, wp_bind]
  refine wp_mono (kmalloc_serves h (by decide) (by decide) hok) ?_ fun _ _ hf => hf.elim
  intro p u hp
  rw [wp_bind]
  by_cases hnull : p = 0
  · subst hnull
    rw [wp_storeBytes_null (by decide)]
    exact fun hc => hp.served.2 hc rfl
  · refine wp_mono (wp_storeBytes hnull hp.toRunning (hp.holds hnull) (by decide)) ?_
      fun _ _ hf => hf.elim
    intro _ v hv
    refine wp_mono (wp_dumpFrom hv.toRunning (hv.kept _ _ (hp.holds hnull)) hnull (by decide)) ?_
      fun _ _ hf => hf.elim
    rintro _ w rfl
    exact ⟨hp.toContinues.trans hv, hp.served.1 hnull⟩

theorem wp_memcpyFrom_null (h : Running p₀ t) {n k : Nat} (hp : Holds t.memory p n) (hne : p ≠ 0)
    (hi : i < n) {Q : Unit → System → Prop} {S : Stop → System → Prop} (hS : ∀ u, S .fault u) :
    wp (memcpyFrom 0 p i (k + 1)) Q S t := by
  rw [memcpyFrom, wp_bind]
  refine wp_mono (wp_loadByte h hp hne hi) ?_ fun _ _ hf => hf.elim
  intro c u _
  rw [wp_bind, storeByte, wp_bind, wp_follow_null]
  exact hS u

theorem wp_cmdMemcpy (h : Running p₀ t) (hok : MayAsk t 16) (hok' : MayAsk (t.afterKmalloc 16) 16) :
    wp cmdMemcpy
      (fun _ u => Continues p₀ t u ∧ CanServe t 16 ∧ CanServe (t.afterKmalloc 16) 16)
      (fun _ _ => ¬ (CanServe t 16 ∧ CanServe (t.afterKmalloc 16) 16)) t := by
  rw [cmdMemcpy, wp_bind]
  refine wp_mono (wp_kmalloc h (by decide) (by decide) hok) ?_ fun _ _ hf => hf.elim
  rintro src u ⟨hsrc, hafter⟩
  rw [hafter] at hok' ⊢
  rw [wp_bind]
  refine wp_mono (kmalloc_serves hsrc.toRunning (by decide) (by decide) hok') ?_
    fun _ _ hf => hf.elim
  intro dest v hdest
  rw [wp_bind]
  by_cases hsnull : src = 0
  · subst hsnull
    rw [wp_storeBytes_null (by decide)]
    exact fun hc => hsrc.served.2 hc.1 rfl
  have hs := hdest.kept _ _ (hsrc.holds hsnull)
  refine wp_mono (wp_storeBytes hsnull hdest.toRunning hs (by decide)) ?_ fun _ _ hf => hf.elim
  intro _ w hw
  have hs := hw.kept _ _ hs
  rw [wp_bind]
  by_cases hdnull : dest = 0
  · subst hdnull
    exact wp_memcpyFrom_null hw.toRunning hs hsnull (by decide) fun _ hc => hdest.served.2 hc.2 rfl
  have hd := hw.kept _ _ (hdest.holds hdnull)
  refine wp_mono (wp_memcpyFrom hsnull hdnull hw.toRunning hs hd (by decide)) ?_ fun _ _ hf =>
    hf.elim
  intro _ x hx
  rw [wp_bind]
  refine wp_mono (wp_dumpFrom hx.toRunning (hx.kept _ _ hs) hsnull (by decide)) ?_
    fun _ _ hf => hf.elim
  rintro _ y rfl
  rw [wp_bind]
  refine wp_mono (wp_dumpFrom hx.toRunning (hx.kept _ _ hd) hdnull (by decide)) ?_
    fun _ _ hf => hf.elim
  rintro _ z rfl
  exact ⟨((hsrc.toContinues.trans hdest.toContinues).trans hw).trans hx, hsrc.served.1 hsnull,
    hdest.served.1 hdnull⟩

end

/-! ### The test page -/

section

variable {p₀ : Pmm} {m : Machine}

/-- **`cmd_maptest`** goes through exactly if there is a page at its address in the end. -/
theorem wp_cmdMaptest (h : MachineOk p₀ m) (hok : MayTest m) :
    wp cmdMaptest
      (fun _ m' => (MachineOk p₀ m' ∧ Evolves (SamePage · TEST_VIRT) m m') ∧ HasTestPage m)
      (fun _ _ => ¬ HasTestPage m) m := by
  have hv : TEST_VIRT.toNat % 4096 = 0 := by decide
  have hslot : slotOf TEST_VIRT ≠ windowSlot := by decide
  have hspill : Spills m TEST_VIRT := fun k hk hpage => absurd (samePage_add hv hk) hpage
  rw [cmdMaptest, wp_bind]
  refine wp_mono (wp_and
    (@machineOk_allocPage p₀ m h TEST_VIRT PAGE_WRITABLE hslot hspill hok.reach)
    (wp_pagingAllocPage h.tablesSound.toPagesOk h.fresh
      (allocInReach_of_counts h.windowed h.wf hok.reach) (.inl hv))) ?_ fun _ _ hf => hf.2.elim
  rintro ok m1 ⟨⟨h1, he⟩, halloc⟩
  -- the page of a call that succeeds, or the one that was there
  have hpage : (∃ g, walkOf m1.tables TEST_VIRT = some g ∧ g ≠ dirFrame ∧
      ¬ IsTable entryTarget dirFrame m1.tables g ∧ HasTestPage m) ∨
      mmu m1.phys TEST_VIRT = none ∧ ¬ HasTestPage m := by
    cases halloc with
    | failed _ hshort hback =>
      have htables : m1.tables = m.tables := by rw [Machine.tables, hback.phys]
      rw [htables, hback.phys, HasTestPage, mmu_eq]
      cases hwalk : walkOf m.tables TEST_VIRT with
      | none => exact .inr ⟨rfl, by simpa using hshort⟩
      | some g => exact .inl ⟨g, rfl, (hok.data g hwalk).1, (hok.data g hwalk).2, .inr rfl⟩
    | mapped t mid _ htaken hsame =>
      have hm := h.tablesSound.toPagesOk
      refine .inl ⟨t, (hsame.walk _).trans (htaken.walk_self hm), htaken.fresh.1, fun hc => ?_,
        .inl (htaken.not_short h.wf)⟩
      exact htaken.noTable hm ((isTable_congr hsame.dir).1 hc)
  rw [wp_bind]
  rcases hpage with ⟨g, hwalk, hdir, htable, hhas⟩ | ⟨hnone, hhas⟩
  · have hmmu : mmu m1.phys TEST_VIRT = some (inFrame g TEST_VIRT) := by
      rw [mmu_eq, hwalk, Option.map_some]
    have haddr := inFrame_toNat g TEST_VIRT
    rw [hv] at haddr
    have hsame := sameTables_write32 hdir htable (a := inFrame g TEST_VIRT) (by omega) (by omega)
      0x1234ABCD
    have h2 := h1.sameTables hsame
    rw [wp_dataAccess hmmu, wp_bind, wp_modify]
    generalize ({ m1 with phys := m1.phys.write32 (inFrame g TEST_VIRT) 0x1234ABCD } : Machine) = m2
      at hsame h2 ⊢
    have hmmu2 : mmu m2.phys TEST_VIRT = some (inFrame g TEST_VIRT) := by
      rw [mmu_eq, hsame.walk, hwalk, Option.map_some]
    rw [wp_bind, wp_dataAccess hmmu2, wp_bind, wp_get, wp_bind, pagingTranslate_eq h2.windowed,
      wp_ofOption_some, wp_pure]
    exact ⟨⟨h2, he.trans hsame.evolves⟩, hhas⟩
  · unfold wp dataAccess
    rw [hnone]
    exact hhas

end

/-! ### `register_command` -/

section

variable {V : Type} {p₀ : Pmm} {t : Session V}

theorem wp_onSystem {α : Type} {x : Exec System α} {Q : α → Session V → Prop}
    {S : Stop → Session V → Prop} : wp (onSystem x) Q S t ↔
      wp x (fun a s => Q a { t with system := s }) (fun w s => S w { t with system := s })
        t.system :=
  wp_zoom

/-- **`register_command`**: without a node it stops the kernel; with one it links the node,
whether or not `strdup` has copied the key.  Node and key are kept apart. -/
theorem wp_registerCommand {k : KernelImage} {r : Registration V} (h : Running p₀ t.system)
    (hok : MayAsk t.system NODE_BYTES)
    (hok' : MayAsk (t.system.afterKmalloc NODE_BYTES) (strdupSize r.key))
    (hclear : AsksClear k p₀ t.system NODE_BYTES)
    (hclear' : AsksClear k p₀ (t.system.afterKmalloc NODE_BYTES) (strdupSize r.key))
    (hlen : (cstr r.key).length < 0xFFFFFFF0) :
    wp (Session.registerCommand r)
      (fun _ u => Continues p₀ t.system u.system ∧ CanServe t.system NODE_BYTES ∧ (∃ key : Bool,
        (key = true ↔ CanServe (t.system.afterKmalloc NODE_BYTES) (strdupSize r.key)) ∧
          u.table = t.table.push (tableIndex r.key) (r.node { key := key })) ∧
        ∃ e key, u.held = e :: key :: t.held ∧ KeptAt k p₀ u.system.memory e.1 e.2 ∧
          KeptAt k p₀ u.system.memory key.1 key.2)
      (fun _ _ => ¬ CanServe t.system NODE_BYTES) t := by
  rw [Session.registerCommand, wp_bind, wp_onSystem]
  refine wp_mono (wp_and (wp_kmalloc h (by decide) (by decide) hok)
    (kmalloc_keptAt h (by decide) (by decide) hclear)) ?_ fun _ _ hf => hf.1.elim
  rintro e u ⟨⟨he, hafter⟩, hekept⟩
  rw [hafter] at hok' hclear' ⊢
  rw [wp_bind, wp_onSystem]
  refine wp_mono (wp_strdup he.toRunning hlen hok' hclear') ?_ fun _ _ hf => hf.elim
  rintro key v ⟨hv, hkey, hkkept⟩
  rw [wp_bind, wp_onSystem]
  by_cases hnull : e = 0
  · subst hnull
    rw [show NODE_BYTES.toNat = 15 + 1 from rfl, touchFrom, wp_bind, wp_follow_null]
    exact fun hc => he.served.2 hc rfl
  · refine wp_mono (wp_touchFrom hv.toRunning (hv.kept _ _ (he.holds hnull)) hnull
      (Nat.zero_add _).le)
      ?_ fun _ _ hf => hf.elim
    rintro _ w rfl
    refine ⟨he.toContinues.trans hv, he.served.1 hnull, ⟨_, decide_eq_true_iff.trans hkey, rfl⟩,
      _, _, rfl, (hekept hnull).of_used fun _ => hv.usedByte, ?_⟩
    by_cases hk : key = 0
    · rw [if_pos hk]
      exact fun a hlo hhi => absurd hhi (not_lt.2 hlo)
    · rw [if_neg hk]
      exact hkkept hk

end

end Frewozet
