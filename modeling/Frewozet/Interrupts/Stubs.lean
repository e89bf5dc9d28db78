import Frewozet.Interrupts.Cpu

/-!
# `isr_irq.asm`

The code between the gates and `interrupt_handler`: a stub for each vector, which makes the
two kinds of exception look alike, and the common part behind them, which saves the
interrupted program on its own stack and hands the handler a pointer to it.

* `Stub`, `isrCommon` — the code, macro by macro and instruction by instruction.
* `InterruptFrame`, `readFrame` — `struct interrupt_frame`, as C reads it.
* `CallConvention` — what the compiled handler is trusted with: it returns to where it was
  called from, and leaves alone the frame it is shown and the segment descriptors.
* `AtHandler.shows` — **the handler is shown the interrupted program**: every field of the
  frame is the register it is named after, whatever the vector.
* `stub_resumes` — **the interrupted program does not notice**: whatever the handler does,
  all registers are as they were, and so is every byte that the handler left alone.
-/

namespace Frewozet

/-! ## The code -/

/-- The macro `ISR_NOERR`, up to its jump. -/
def isrNoErr (n : U32) : List Instr := [.cli, .pushImm 0, .pushImm n]

/-- The macro `ISR_ERR`, up to its jump. -/
def isrErr (n : U32) : List Instr := [.cli, .pushImm n]

/-- The macro `IRQ`, up to its jump; the number of the line only names the stub. -/
def irqMacro (n : U32) : List Instr := [.cli, .pushImm 0, .pushImm n]

/-- `isr_common`. -/
def isrCommon (returnAddress : U32) : List Instr :=
  [.pusha, .pushSeg .ds, .pushSeg .es, .pushSeg .fs, .pushSeg .gs,
    .movAx 0x10, .movSeg .ds, .movSeg .es, .movSeg .fs, .movSeg .gs,
    .pushEsp, .cld, .call returnAddress, .addEsp 4,
    .popSeg .gs, .popSeg .fs, .popSeg .es, .popSeg .ds, .popa, .addEsp 8, .iretd]

/-- The stubs: `isr0` to `isr31`, and `irq0` to `irq15`. -/
inductive Stub where
  | isr (n : Fin 32)
  | irq (n : Fin 16)
  deriving DecidableEq, Repr

/-- The stubs made with `ISR_ERR`. -/
def isrErrStubs : List (Fin 32) := [8, 10, 11, 12, 13, 14, 17]

/-- The stub of the general protection fault. -/
def generalProtection : Stub := .isr 13

namespace Stub

/-- The vector a stub is for. -/
def vector : Stub → U8
  | isr n => BitVec.ofNat 8 n.val
  | irq n => BitVec.ofNat 8 (32 + n.val)

/-- The number a stub pushes. -/
def number (stub : Stub) : U32 := stub.vector.setWidth 32

/-- A stub, up to its jump. -/
def head : Stub → List Instr
  | isr n => if n ∈ isrErrStubs then isrErr (isr n).number else isrNoErr (isr n).number
  | irq n => irqMacro (irq n).number

/-- A stub, and what it jumps to. -/
def code (stub : Stub) (returnAddress : U32) : List Instr := stub.head ++ isrCommon returnAddress

/-- The processor pushes an error code. -/
def hasErrorCode : Stub → Bool
  | isr n => n ∈ isrErrStubs
  | irq _ => false

end Stub

/-! ## The frame -/

/-- `struct interrupt_frame`. -/
structure InterruptFrame where
  gs : U32
  fs : U32
  es : U32
  ds : U32
  edi : U32
  esi : U32
  ebp : U32
  esp : U32
  ebx : U32
  edx : U32
  ecx : U32
  eax : U32
  interruptNumber : U32
  errorCode : U32
  eip : U32
  cs : U32
  eflags : U32
  deriving DecidableEq, Repr

/-- The frame at `a`. -/
def readFrame (m : Mem) (a : U32) : InterruptFrame :=
  let word (k : Nat) := m.read32 (a + BitVec.ofNat 32 (4 * k))
  { gs := word 0, fs := word 1, es := word 2, ds := word 3
    edi := word 4, esi := word 5, ebp := word 6, esp := word 7
    ebx := word 8, edx := word 9, ecx := word 10, eax := word 11
    interruptNumber := word 12, errorCode := word 13
    eip := word 14, cs := word 15, eflags := word 16 }

/-- `sizeof(struct interrupt_frame)`. -/
def INTERRUPT_FRAME_SIZE : Nat := 68

/-- What the common code has pushed before it calls the handler, newest first. -/
def frameSlots (c : Cpu) (stub : Stub) (errorCode : U32) : List Slot :=
  [.half c.gs, .half c.fs, .half c.es, .half c.ds, .word c.edi, .word c.esi, .word c.ebp,
    .word (c.esp - 20#32), .word c.ebx, .word c.edx, .word c.ecx, .word c.eax,
    .word stub.number, .word errorCode, .word c.eip, .half c.cs, .word c.eflags]

/-! ## The convention -/

/-- What the handler keeps to, whatever it does: it comes back to its caller, in the same
address space and not nested into another task, and it has not written into the frame that
its argument points at, nor into the tables. -/
structure CallConvention {σ : Type} (g : Callee σ) : Prop where
  esp : ∀ {c s c' s'}, g c s = some (c', s') → c'.esp = c.esp + 4#32
  ss : ∀ {c s c' s'}, g c s = some (c', s') → c'.ss = c.ss
  gdtr : ∀ {c s c' s'}, g c s = some (c', s') → c'.gdtr = c.gdtr
  idtr : ∀ {c s c' s'}, g c s = some (c', s') → c'.idtr = c.idtr
  zeroExtends : ∀ {c s c' s'}, g c s = some (c', s') → c'.zeroExtends = c.zeroExtends
  notNested : ∀ {c s c' s'}, g c s = some (c', s') → c.eflags &&& Cpu.NT = 0 →
    c'.eflags &&& Cpu.NT = 0
  frame : ∀ {c s c' s'}, g c s = some (c', s') →
    Mem.AgreeOn c.mem c'.mem (c.mem.read32 (c.esp + 4#32)).toNat
      ((c.mem.read32 (c.esp + 4#32)).toNat + INTERRUPT_FRAME_SIZE)
  gdt : ∀ {c s c' s'}, g c s = some (c', s') → c.gdtr.Agree c.mem c'.mem
  idt : ∀ {c s c' s'}, g c s = some (c', s') → c.idtr.Agree c.mem c'.mem

/-- A program that can be interrupted: there is room for the frame, the argument and the
return address below its stack pointer, and not in the descriptor table; its segment registers
hold what could be loaded again, and so can the kernel's data segment. -/
structure Interruptible (c : Cpu) : Prop where
  room : 76 ≤ c.esp.toNat
  plain : c.eflags &&& Cpu.VM = 0
  code : codeLoadable c.mem c.gdtr c.cs
  data : ∀ r, dataLoadable c.mem c.gdtr (c.seg r)
  kernelData : dataLoadable c.mem c.gdtr 0x10#16
  fits : c.gdtr.Fits
  apart : c.gdtr.base.toNat + c.gdtr.limit.toNat + 1 ≤ c.esp.toNat - 76 ∨
    c.esp.toNat ≤ c.gdtr.base.toNat

/-- What the handler is called with. -/
structure AtHandler (c : Cpu) (stub : Stub) (errorCode : U32) (h : Cpu) : Prop where
  slots : Stack.Holds h.mem (h.mem.read32 (h.esp + 4#32)) (frameSlots c stub errorCode)
  argument : h.mem.read32 (h.esp + 4#32) = c.esp - 68#32
  esp : h.esp = c.esp - 76#32
  outside : ∀ a : U32, a.toNat < c.esp.toNat - 76 ∨ c.esp.toNat ≤ a.toNat → h.mem a = c.mem a
  kept : (h.ss, h.gdtr, h.idtr, h.zeroExtends) = (c.ss, c.gdtr, c.idtr, c.zeroExtends)
  kernelData : ∀ r, h.seg r = 0x10#16
  flags : ∀ flag ∈ [Cpu.IF, Cpu.DF, Cpu.NT], h.eflags &&& flag = 0

/-! ## Saving -/

/-- Two states whose registers are the same, but for those that an interrupt and pushing
change. -/
structure SameRegisters (c e : Cpu) : Prop where
  eax : e.eax = c.eax
  ecx : e.ecx = c.ecx
  edx : e.edx = c.edx
  ebx : e.ebx = c.ebx
  ebp : e.ebp = c.ebp
  esi : e.esi = c.esi
  edi : e.edi = c.edi
  seg : ∀ r, e.seg r = c.seg r
  ss : e.ss = c.ss
  gdtr : e.gdtr = c.gdtr
  idtr : e.idtr = c.idtr
  zeroExtends : e.zeroExtends = c.zeroExtends

theorem SameRegisters.of_eq {c e : Cpu} (h : { c with
    esp := e.esp, eip := e.eip, eflags := e.eflags, cs := e.cs, mem := e.mem } = e) :
    SameRegisters c e := by
  rw [← h]
  exact ⟨rfl, rfl, rfl, rfl, rfl, rfl, rfl, fun r => by cases r <;> rfl, rfl, rfl, rfl, rfl⟩

theorem SameRegisters.trans {c d e : Cpu} (h : SameRegisters c d) (h' : SameRegisters d e) :
    SameRegisters c e :=
  ⟨h'.eax.trans h.eax, h'.ecx.trans h.ecx, h'.edx.trans h.edx, h'.ebx.trans h.ebx,
    h'.ebp.trans h.ebp, h'.esi.trans h.esi, h'.edi.trans h.edi,
    fun r => (h'.seg r).trans (h.seg r), h'.ss.trans h.ss, h'.gdtr.trans h.gdtr,
    h'.idtr.trans h.idtr, h'.zeroExtends.trans h.zeroExtends⟩

theorem SameRegisters.pushSelector {c e : Cpu} (h : SameRegisters c e) (sel : U16) :
    SameRegisters c (e.pushSelector sel) := h.trans (.of_eq rfl)

theorem SameRegisters.push {c e : Cpu} (h : SameRegisters c e) (w : U32) :
    SameRegisters c (e.push w) := h.trans (.of_eq rfl)

theorem SameRegisters.pusha {c e : Cpu} (h : SameRegisters c e) : SameRegisters c e.pusha := by
  unfold Cpu.pusha
  exact (((((((h.push _).push _).push _).push _).push _).push _).push _).push _

section

variable {σ : Type} (g : Callee σ) {c : Cpu} {stub : Stub} {external : Bool}
  {errorCode : Option U32}

/-- The bytes that the entry code pushes its words into. -/
def stackBottom (c : Cpu) : U32 := c.esp - 76#32

theorem stackBottom_toNat (hroom : 76 ≤ c.esp.toNat) :
    (stackBottom c).toNat = c.esp.toNat - 76 := by
  have hlt := c.esp.isLt
  have h76 : (76#32).toNat = 76 := rfl
  rw [stackBottom, BitVec.toNat_sub]
  omega

/-- The processor's part: three words, or four. -/
theorem saved_pushed (hroom : 76 ≤ c.esp.toNat) :
    SameRegisters c (c.saved errorCode) ∧ Cpu.Pushed c (stackBottom c) (c.saved errorCode)
      ((errorCode.toList.map Slot.word) ++ [.word c.eip, .half c.cs, .word c.eflags]) := by
  have hbottom := stackBottom_toNat hroom
  have hsame : SameRegisters c c := .of_eq rfl
  have h0 : Cpu.Pushed c (stackBottom c) c [] := Stack.Stacked.start _ (by omega)
  have heflags := h0.push c.eflags (by rw [List.length_nil]; omega)
  have hcs := heflags.pushSelector c.cs (by simp only [List.length_cons, List.length_nil]; omega)
  have heip := hcs.push c.eip (by simp only [List.length_cons, List.length_nil]; omega)
  cases errorCode with
  | none => exact ⟨((hsame.push _).pushSelector _).push _, heip⟩
  | some code =>
    exact ⟨(((hsame.push _).pushSelector _).push _).push _,
      heip.push code (by simp only [List.length_cons, List.length_nil]; omega)⟩

/-- The stub's part: the number, and a zero where there is no error code. -/
theorem exec_stub {d : Cpu} (hroom : 76 ≤ c.esp.toNat) (hsame : SameRegisters c d)
    (hp : Cpu.Pushed c (stackBottom c) d
      ((errorCode.toList.map Slot.word) ++ [.word c.eip, .half c.cs, .word c.eflags]))
    (herr : errorCode.isSome = stub.hasErrorCode) :
    ∃ e, (∀ s, execInstrs g stub.head d s = some (e, s)) ∧ SameRegisters c e ∧
      e.eflags = d.eflags &&& ~~~Cpu.IF ∧
      Cpu.Pushed c (stackBottom c) e [.word stub.number, .word (errorCode.getD 0), .word c.eip,
        .half c.cs, .word c.eflags] := by
  have hbottom := stackBottom_toNat hroom
  have hcli : SameRegisters c { d with eflags := d.eflags &&& ~~~Cpu.IF } :=
    hsame.trans (.of_eq rfl)
  have hpcli : Cpu.Pushed c (stackBottom c) { d with eflags := d.eflags &&& ~~~Cpu.IF } _ := hp
  cases errorCode with
  | none =>
    have hhead : stub.head = [.cli, .pushImm 0, .pushImm stub.number] := by
      cases stub with
      | irq n => rfl
      | isr n =>
        have hn : n ∉ isrErrStubs := by simpa [Stub.hasErrorCode] using herr
        exact if_neg hn
    have hzero := hpcli.push 0 (by simp; omega)
    rw [hhead]
    exact ⟨_, fun s => rfl, (hcli.push _).push _, rfl, hzero.push stub.number (by simp; omega)⟩
  | some code =>
    have hhead : stub.head = [.cli, .pushImm stub.number] := by
      cases stub with
      | irq n => cases herr
      | isr n =>
        have hn : n ∈ isrErrStubs := by simpa [Stub.hasErrorCode] using herr
        exact if_pos hn
    rw [hhead]
    exact ⟨_, fun s => rfl, hcli.push _, rfl, hpcli.push stub.number (by simp; omega)⟩

/-- Both: five slots, and no interrupts until the flags are restored. -/
theorem exec_head {e : Cpu} (hroom : 76 ≤ c.esp.toNat)
    (he : c.enter stub.vector external errorCode = .enters e)
    (herr : errorCode.isSome = stub.hasErrorCode) :
    ∃ e', (∀ s, execInstrs g stub.head e s = some (e', s)) ∧ SameRegisters c e' ∧
      e'.eflags &&& Cpu.IF = 0 ∧ e'.eflags &&& Cpu.NT = 0 ∧
      Cpu.Pushed c (stackBottom c) e' [.word stub.number, .word (errorCode.getD 0), .word c.eip,
        .half c.cs, .word c.eflags] := by
  obtain ⟨cs, eip, cleared, hcleared, rfl⟩ := Cpu.enter_enters he
  obtain ⟨hsame, hp⟩ : SameRegisters c (c.saved errorCode) ∧ _ := saved_pushed hroom
  obtain ⟨e', hrun, hsame', hflags, hp'⟩ := exec_stub g
    (d := { c.saved errorCode with cs := cs, eip := eip, eflags := c.eflags &&& ~~~cleared })
    hroom (hsame.trans (.of_eq rfl)) hp herr
  refine ⟨e', hrun, hsame', ?_, ?_, hp'⟩
  · rw [hflags]
    exact clear_and BitVec.and_self _
  · rw [hflags]
    exact clear_of_clear (clear_and hcleared _) _

theorem pusha_eflags (e : Cpu) : e.pusha.eflags = e.eflags := by
  have hpush : ∀ (w : U32) (d : Cpu), (d.push w).eflags = d.eflags := fun _ _ => rfl
  simp only [Cpu.pusha, hpush]

theorem Pushed.pusha {c₀ e : Cpu} {bottom : U32} {xs : List Slot}
    (h : Cpu.Pushed c₀ bottom e xs) (hroom : bottom.toNat + 4 * (xs.length + 8) ≤ c₀.esp.toNat) :
    Cpu.Pushed c₀ bottom e.pusha (.word e.edi :: .word e.esi :: .word e.ebp :: .word e.esp ::
      .word e.ebx :: .word e.edx :: .word e.ecx :: .word e.eax :: xs) := by
  have heax := h.push e.eax (by omega)
  have hecx := heax.push e.ecx (by rw [List.length_cons]; omega)
  have hedx := hecx.push e.edx (by simp only [List.length_cons]; omega)
  have hebx := hedx.push e.ebx (by simp only [List.length_cons]; omega)
  have hesp := hebx.push e.esp (by simp only [List.length_cons]; omega)
  have hebp := hesp.push e.ebp (by simp only [List.length_cons]; omega)
  have hesi := hebp.push e.esi (by simp only [List.length_cons]; omega)
  unfold Cpu.pusha
  exact hesi.push e.edi (by simp only [List.length_cons]; omega)

/-- `push` of one segment register after the other. -/
theorem exec_pushSegs {bottom : U32} : ∀ (rs : List Seg) {e : Cpu} {xs : List Slot},
    Cpu.Pushed c bottom e xs → SameRegisters c e →
    bottom.toNat + 4 * (xs.length + rs.length) ≤ c.esp.toNat →
    ∃ e', (∀ s, execInstrs g (rs.map .pushSeg) e s = some (e', s)) ∧ SameRegisters c e' ∧
      e'.eflags = e.eflags ∧
      Cpu.Pushed c bottom e' ((rs.map fun r => Slot.half (c.seg r)).reverse ++ xs) := by
  intro rs
  induction rs with
  | nil => exact fun {e} _ hp he _ => ⟨e, fun _ => rfl, he, rfl, hp⟩
  | cons r rs ih =>
    intro e xs hp he hroom
    rw [List.length_cons] at hroom
    have hone := hp.pushSelector (e.seg r) (by omega)
    obtain ⟨e', hrun, hsame, hflags, hpushed⟩ := ih hone (he.pushSelector _)
      (by rw [List.length_cons]; omega)
    refine ⟨e', hrun, hsame, hflags, ?_⟩
    rw [List.map_cons, List.reverse_cons, List.append_assoc, ← he.seg r]
    exact hpushed

/-- The common code's part: the other twelve slots. -/
theorem exec_save {e : Cpu} {code : U32} (hroom : 76 ≤ c.esp.toNat) (he : SameRegisters c e)
    (hp : Cpu.Pushed c (stackBottom c) e [.word stub.number, .word code, .word c.eip,
      .half c.cs, .word c.eflags]) :
    ∃ e', (∀ s, execInstrs g [.pusha, .pushSeg .ds, .pushSeg .es, .pushSeg .fs, .pushSeg .gs] e s =
        some (e', s)) ∧ SameRegisters c e' ∧ e'.eflags = e.eflags ∧
      Cpu.Pushed c (stackBottom c) e' (frameSlots c stub code) := by
  have hbottom := stackBottom_toNat hroom
  have hesp : e.esp = c.esp - 20#32 := hp.sp_eq
  have hpusha := Pushed.pusha hp (by simp only [List.length_cons, List.length_nil]; omega)
  rw [he.eax, he.ecx, he.edx, he.ebx, hesp, he.ebp, he.esi, he.edi] at hpusha
  obtain ⟨e', hrun, hsame, hflags, hpushed⟩ := exec_pushSegs g [.ds, .es, .fs, .gs] hpusha
    he.pusha (by simp only [List.length_cons, List.length_nil]; omega)
  refine ⟨e', fun s => ?_, hsame, hflags.trans (pusha_eflags e), hpushed⟩
  rw [execInstrs_cons rfl]
  exact hrun s

/-! ## The handler's entry -/

theorem setWidth_movAx (x : U32) (w : U16) : (x.extractLsb' 16 16 ++ w).setWidth 16 = w := by
  apply BitVec.eq_of_getLsbD_eq
  intro i hi
  rw [BitVec.getLsbD_setWidth, BitVec.getLsbD_append, if_pos hi]
  simp [hi]

/-- `mov` into one segment register after the other. -/
theorem exec_movSegs {sel : U16} (s : σ) : ∀ (rs : List Seg) {d : Cpu},
    dataLoadable d.mem d.gdtr sel → d.eax.setWidth 16 = sel →
    execInstrs g (rs.map .movSeg) d s = some (rs.foldl (fun d r => d.setSeg r sel) d, s) := by
  intro rs
  induction rs with
  | nil => exact fun _ _ => rfl
  | cons r rs ih =>
    intro d hload hax
    have hmov : (Instr.movSeg r).exec g d s = some (d.setSeg r sel, s) := by
      unfold Instr.exec
      dsimp only
      rw [hax, if_pos hload]
    rw [List.map_cons, execInstrs_cons hmov, List.foldl_cons]
    cases r <;> exact ih hload hax

/-- The kernel's own data segment, in all four registers. -/
theorem exec_segments {e : Cpu} (hload : dataLoadable e.mem e.gdtr 0x10#16) (s : σ) :
    execInstrs g [.movAx 0x10, .movSeg .ds, .movSeg .es, .movSeg .fs, .movSeg .gs] e s =
      some ({ e with
        eax := e.eax.extractLsb' 16 16 ++ 0x10#16
        ds := 0x10#16, es := 0x10#16, fs := 0x10#16, gs := 0x10#16 }, s) := by
  rw [execInstrs_cons rfl]
  exact exec_movSegs g s [.ds, .es, .fs, .gs]
    (d := { e with eax := e.eax.extractLsb' 16 16 ++ 0x10#16 }) hload (setWidth_movAx e.eax 0x10#16)

/-- The stack, from the bytes above the frame on, is what it was. -/
theorem table_agree (hc : Interruptible c) {m : Mem}
    (hm : ∀ a : U32, a.toNat < c.esp.toNat - 76 ∨ c.esp.toNat ≤ a.toNat → m a = c.mem a) :
    c.gdtr.Agree c.mem m := by
  intro a h1 h2
  have hapart := hc.apart
  exact (hm a (by omega)).symm

/-- The instructions behind the call. -/
def isrReturn : List Instr :=
  [.addEsp 4, .popSeg .gs, .popSeg .fs, .popSeg .es, .popSeg .ds, .popa, .addEsp 8, .iretd]

/-- The state in which the handler is called, from the one that the common code has saved. -/
def calling (returnAddress : U32) (e : Cpu) : Cpu :=
  { (e.push e.esp).push returnAddress with
    eax := e.eax.extractLsb' 16 16 ++ 0x10#16
    ds := 0x10#16, es := 0x10#16, fs := 0x10#16, gs := 0x10#16
    eflags := e.eflags &&& ~~~Cpu.DF }

theorem calling_kept (returnAddress : U32) (e : Cpu) :
    ((calling returnAddress e).ss, (calling returnAddress e).gdtr, (calling returnAddress e).idtr,
      (calling returnAddress e).zeroExtends) = (e.ss, e.gdtr, e.idtr, e.zeroExtends) := rfl

theorem calling_seg (returnAddress : U32) (e : Cpu) (r : Seg) :
    (calling returnAddress e).seg r = 0x10#16 := by
  cases r <;> rfl

/-- From the saved state on. -/
theorem exec_call {e : Cpu} (hload : dataLoadable e.mem e.gdtr 0x10#16) (returnAddress : U32)
    (s : σ) :
    execInstrs g ([.movAx 0x10, .movSeg .ds, .movSeg .es, .movSeg .fs, .movSeg .gs] ++
        .pushEsp :: .cld :: .call returnAddress :: isrReturn) e s =
      (g (calling returnAddress e) s).bind fun r => execInstrs g isrReturn r.1 r.2 := by
  rw [execInstrs_append, exec_segments g hload, Option.bind_some, execInstrs_cons rfl,
    execInstrs_cons rfl]
  rfl

/-- **Up to the handler.** -/
theorem exec_entry {e : Cpu} (hc : Interruptible c)
    (he : c.enter stub.vector external errorCode = .enters e)
    (herr : errorCode.isSome = stub.hasErrorCode) (returnAddress : U32) :
    ∃ h, AtHandler c stub (errorCode.getD 0) h ∧ ∀ s,
      execInstrs g (stub.code returnAddress) e s = (g h s).bind fun r =>
        execInstrs g isrReturn r.1 r.2 := by
  obtain ⟨e₁, hrun₁, hsame₁, hif, hnt, hp₁⟩ := exec_head g hc.room he herr
  obtain ⟨e₂, hrun₂, hsame₂, hflags, hp₂⟩ := exec_save g hc.room hsame₁ hp₁
  have hroom := hc.room
  have hbottom := stackBottom_toNat hroom
  have hload : dataLoadable e₂.mem e₂.gdtr 0x10#16 := by
    rw [hsame₂.gdtr, ← dataLoadable_congr hc.fits (table_agree hc fun a ha => hp₂.outside a ?_)]
    · exact hc.kernelData
    · omega
  have hesp : e₂.esp = c.esp - 68#32 := hp₂.sp_eq
  -- behind the frame, a pointer to it and the return address
  have harg := hp₂.push e₂.esp (by simp only [frameSlots, List.length_cons, List.length_nil]; omega)
  have hret : Cpu.Pushed c (stackBottom c) (calling returnAddress e₂) _ := harg.push returnAddress
    (by simp only [frameSlots, List.length_cons, List.length_nil]; omega)
  have hsp : (calling returnAddress e₂).esp = e₂.esp - 4#32 - 4#32 := rfl
  refine ⟨calling returnAddress e₂, ?_, fun s => ?_⟩
  · have hargument := hret.holds.2.1
    have hframe := hret.holds.2.2
    rw [hsp, BitVec.sub_add_cancel, BitVec.sub_add_cancel] at hframe
    refine
      { slots := ?_
        argument := hargument.trans hesp
        esp := hret.sp_eq
        outside := fun a ha => hret.outside a (by omega)
        kept := ?_
        kernelData := calling_seg returnAddress e₂
        flags := ?_ }
    · rw [show (calling returnAddress e₂).mem.read32 _ = e₂.esp from hargument]
      exact hframe
    · rw [calling_kept, hsame₂.ss, hsame₂.gdtr, hsame₂.idtr, hsame₂.zeroExtends]
    · have hclear : ∀ {flag : U32}, e₁.eflags &&& flag = 0 →
          e₂.eflags &&& ~~~Cpu.DF &&& flag = 0 := fun h => clear_of_clear (hflags ▸ h) _
      intro flag hflag
      simp only [List.mem_cons, List.not_mem_nil, or_false] at hflag
      rcases hflag with rfl | rfl | rfl
      · exact hclear hif
      · exact clear_and BitVec.and_self _
      · exact hclear hnt
  · have hcommon : isrCommon returnAddress =
        [.pusha, .pushSeg .ds, .pushSeg .es, .pushSeg .fs, .pushSeg .gs] ++
          ([.movAx 0x10, .movSeg .ds, .movSeg .es, .movSeg .fs, .movSeg .gs] ++
            .pushEsp :: .cld :: .call returnAddress :: isrReturn) := rfl
    rw [Stub.code, execInstrs_append, hrun₁ s, Option.bind_some, hcommon, execInstrs_append,
      hrun₂ s, Option.bind_some, exec_call g hload]

/-! ## The way back -/

/-- `pop` into one segment register after the other. -/
theorem exec_popSegs (s : σ) : ∀ (rs : List Seg) {d : Cpu} {xs : List Slot},
    Stack.Holds d.mem d.esp ((rs.map fun r => Slot.half (c.seg r)) ++ xs) →
    (∀ r, dataLoadable d.mem d.gdtr (c.seg r)) →
    ∃ d', execInstrs g (rs.map .popSeg) d s = some (d', s) ∧
      d' = rs.foldl (fun d r => (d.setSeg r (c.seg r)).drop 4#32) d ∧
      Stack.Holds d'.mem d'.esp xs := by
  intro rs
  induction rs with
  | nil => exact fun {d} _ h _ => ⟨d, rfl, rfl, h⟩
  | cons r rs ih =>
    rintro d xs ⟨htop, hrest⟩ hload
    have hpop : (Instr.popSeg r).exec g d s = some ((d.setSeg r (c.seg r)).drop 4#32, s) := by
      have htop : d.topSelector = c.seg r := htop
      unfold Instr.exec Cpu.popSeg
      dsimp only
      rw [htop, if_pos (hload r)]
      rfl
    rw [List.map_cons, execInstrs_cons hpop, List.foldl_cons]
    have hmem : ((d.setSeg r (c.seg r)).drop 4#32).mem = d.mem := by cases r <;> rfl
    have hesp : ((d.setSeg r (c.seg r)).drop 4#32).esp = d.esp + 4#32 := by cases r <;> rfl
    have hgdtr : ((d.setSeg r (c.seg r)).drop 4#32).gdtr = d.gdtr := by cases r <;> rfl
    refine ih ?_ ?_
    · rw [hmem, hesp]
      exact hrest
    · rw [hmem, hgdtr]
      exact hload

theorem popSegs_eq (c d : Cpu) :
    [Seg.gs, .fs, .es, .ds].foldl (fun d r => (d.setSeg r (c.seg r)).drop 4#32) (d.drop 4#32) =
      { d with
        gs := c.gs, fs := c.fs, es := c.es, ds := c.ds
        esp := d.esp + 4#32 + 4#32 + 4#32 + 4#32 + 4#32 } := by
  simp only [List.foldl_cons, List.foldl_nil, Cpu.setSeg, Cpu.drop, Cpu.seg]

/-- The general registers, the number and the error code, and what the processor pushed. -/
theorem exec_iret {d : Cpu} {x : U32} {code : U32} (hslots : Stack.Holds d.mem d.esp
      [.word c.edi, .word c.esi, .word c.ebp, .word x, .word c.ebx, .word c.edx, .word c.ecx,
        .word c.eax, .word stub.number, .word code, .word c.eip, .half c.cs, .word c.eflags])
    (hnt : d.eflags &&& Cpu.NT = 0) (hvm : c.eflags &&& Cpu.VM = 0)
    (hcode : codeLoadable d.mem d.gdtr c.cs) (s : σ) :
    execInstrs g [.popa, .addEsp 8, .iretd] d s = some ({ d with
      edi := c.edi, esi := c.esi, ebp := c.ebp, ebx := c.ebx, edx := c.edx, ecx := c.ecx
      eax := c.eax, eip := c.eip, cs := c.cs, eflags := c.eflags, esp := d.esp + 52#32 }, s) := by
  have hedi : d.mem.read32 (d.esp + BitVec.ofNat 32 (4 * 0)) = c.edi :=
    hslots.get (x := .word c.edi) rfl
  have hesi : d.mem.read32 (d.esp + BitVec.ofNat 32 (4 * 1)) = c.esi :=
    hslots.get (x := .word c.esi) rfl
  have hebp : d.mem.read32 (d.esp + BitVec.ofNat 32 (4 * 2)) = c.ebp :=
    hslots.get (x := .word c.ebp) rfl
  have hebx : d.mem.read32 (d.esp + BitVec.ofNat 32 (4 * 4)) = c.ebx :=
    hslots.get (x := .word c.ebx) rfl
  have hedx : d.mem.read32 (d.esp + BitVec.ofNat 32 (4 * 5)) = c.edx :=
    hslots.get (x := .word c.edx) rfl
  have hecx : d.mem.read32 (d.esp + BitVec.ofNat 32 (4 * 6)) = c.ecx :=
    hslots.get (x := .word c.ecx) rfl
  have heax : d.mem.read32 (d.esp + BitVec.ofNat 32 (4 * 7)) = c.eax :=
    hslots.get (x := .word c.eax) rfl
  have heip : d.mem.read32 (d.esp + BitVec.ofNat 32 (4 * 10)) = c.eip :=
    hslots.get (x := .word c.eip) rfl
  have hcs : d.mem.read16 (d.esp + BitVec.ofNat 32 (4 * 11)) = c.cs :=
    hslots.get (x := .half c.cs) rfl
  have heflags : d.mem.read32 (d.esp + BitVec.ofNat 32 (4 * 12)) = c.eflags :=
    hslots.get (x := .word c.eflags) rfl
  have hpopa : d.popa = { d with
      edi := c.edi, esi := c.esi, ebp := c.ebp, ebx := c.ebx, edx := c.edx, ecx := c.ecx
      eax := c.eax, esp := d.esp + 32#32 } := by
    unfold Cpu.popa
    dsimp only
    rw [hedi, hesi, hebp, hebx, hedx, hecx, heax]
  have hiret : ∀ {d' : Cpu}, d'.mem = d.mem → d'.gdtr = d.gdtr → d'.eflags = d.eflags →
      d'.esp = d.esp + BitVec.ofNat 32 (4 * 10) → d'.iretd = some { d' with
        eip := c.eip, cs := c.cs, eflags := c.eflags, esp := d.esp + 52#32 } := by
    intro d' hmem hgdtr hflags hesp
    have h4 : d.esp + BitVec.ofNat 32 (4 * 10) + 4#32 = d.esp + BitVec.ofNat 32 (4 * 11) :=
      BitVec.add_assoc _ _ _
    have h8 : d.esp + BitVec.ofNat 32 (4 * 10) + 8#32 = d.esp + BitVec.ofNat 32 (4 * 12) :=
      BitVec.add_assoc _ _ _
    have h12 : d.esp + BitVec.ofNat 32 (4 * 10) + 12#32 = d.esp + 52#32 :=
      BitVec.add_assoc _ _ _
    unfold Cpu.iretd
    dsimp only
    rw [hmem, hgdtr, hflags, hesp, h4, h8, h12, heip, hcs, heflags, if_pos ⟨hnt, hvm, hcode⟩]
  rw [execInstrs_cons rfl, execInstrs_cons rfl, hpopa]
  unfold execInstrs Instr.exec
  dsimp only
  rw [hiret]
  · rfl
  · rfl
  · rfl
  · rfl
  · exact BitVec.add_assoc _ _ _

/-- **Back from the handler.** -/
theorem exec_return {d : Cpu} {code : U32} (hc : Interruptible c) (hesp : d.esp = c.esp - 72#32)
    (hslots : Stack.Holds d.mem (c.esp - 68#32) (frameSlots c stub code))
    (hkept : (d.ss, d.gdtr, d.idtr, d.zeroExtends) = (c.ss, c.gdtr, c.idtr, c.zeroExtends))
    (hnt : d.eflags &&& Cpu.NT = 0) (htable : c.gdtr.Agree c.mem d.mem) (s : σ) :
    execInstrs g isrReturn d s = some ({ c with mem := d.mem }, s) := by
  obtain ⟨hss, hgdtr, hidtr, hzero⟩ : d.ss = c.ss ∧ d.gdtr = c.gdtr ∧ d.idtr = c.idtr ∧
      d.zeroExtends = c.zeroExtends := by simpa using hkept
  have hframe : d.esp + 4#32 = c.esp - 68#32 := by
    rw [hesp]
    bv_omega
  have hload : ∀ r, dataLoadable d.mem c.gdtr (c.seg r) := fun r => by
    rw [← dataLoadable_congr hc.fits htable]
    exact hc.data r
  have hcode : codeLoadable d.mem c.gdtr c.cs := by
    rw [← codeLoadable_congr hc.fits htable]
    exact hc.code
  obtain ⟨d', hrun, hd', hrest⟩ := exec_popSegs g s [.gs, .fs, .es, .ds]
    (d := d.drop 4#32) (c := c) (by rw [← hframe] at hslots; exact hslots)
    (by rw [← hgdtr] at hload; exact hload)
  rw [popSegs_eq] at hd'
  subst hd'
  have hsplit : isrReturn = .addEsp 4 :: ([Seg.gs, .fs, .es, .ds].map .popSeg ++
    [.popa, .addEsp 8, .iretd]) := rfl
  have hexec : execInstrs g ([Seg.gs, .fs, .es, .ds].map .popSeg) (d.drop 4) s = _ := hrun
  rw [hsplit, execInstrs_cons rfl, execInstrs_append, hexec, Option.bind_some,
    exec_iret g hrest hnt hc.plain (by rw [hgdtr]; exact hcode)]
  dsimp only
  rw [hss, hgdtr, hidtr, hzero, hframe]
  have hsp : c.esp - 68#32 + 4#32 + 4#32 + 4#32 + 4#32 + 52#32 = c.esp := by bv_omega
  rw [hsp]

/-- **The interrupted program does not notice.**  When the handler comes back, every register
is what it was, and the memory is what the handler made of the one it was given. -/
theorem stub_resumes {e : Cpu} (hg : CallConvention g) (hc : Interruptible c)
    (he : c.enter stub.vector external errorCode = .enters e)
    (herr : errorCode.isSome = stub.hasErrorCode) (returnAddress : U32) :
    ∃ h, AtHandler c stub (errorCode.getD 0) h ∧ ∀ s,
      execInstrs g (stub.code returnAddress) e s =
        (g h s).map fun r => ({ c with mem := r.1.mem }, r.2) := by
  obtain ⟨h, hat, hrun⟩ := exec_entry g hc he herr returnAddress
  refine ⟨h, hat, fun s => ?_⟩
  rw [hrun s]
  cases hcall : g h s with
  | none => rfl
  | some r =>
    obtain ⟨d, s'⟩ := r
    obtain ⟨hss, hgdtr, hidtr, hzero⟩ : h.ss = c.ss ∧ h.gdtr = c.gdtr ∧ h.idtr = c.idtr ∧
      h.zeroExtends = c.zeroExtends := by simpa using hat.kept
    have hroom := hc.room
    have hframe := hg.frame hcall
    rw [hat.argument] at hframe
    have hslots := hat.slots
    rw [hat.argument] at hslots
    have hfit : (c.esp - 68#32).toNat + 68 = c.esp.toNat := by
      have hlt := c.esp.isLt
      have h68 : (68#32).toNat = 68 := rfl
      rw [BitVec.toNat_sub]
      omega
    have hkept : Stack.Holds d.mem (c.esp - 68#32) (frameSlots c stub (errorCode.getD 0)) := by
      have hlt := c.esp.isLt
      refine hslots.congr ?_ (hframe.mono (Nat.le_refl _) ?_)
      · simp only [frameSlots, List.length_cons, List.length_nil]
        omega
      · simp only [frameSlots, List.length_cons, List.length_nil, INTERRUPT_FRAME_SIZE]
        omega
    rw [Option.bind_some, Option.map_some]
    refine exec_return g hc ?_ hkept ?_ ?_ ?_ s'
    · rw [hg.esp hcall, hat.esp]
      bv_omega
    · rw [hg.ss hcall, hg.gdtr hcall, hg.idtr hcall, hg.zeroExtends hcall, hss, hgdtr, hidtr, hzero]
    · exact hg.notNested hcall (hat.flags _ (by simp))
    · have htable := hg.gdt hcall
      rw [hgdtr] at htable
      exact (table_agree hc hat.outside).trans htable

end

/-! ## What the handler is shown -/

/-- The frame shows the interrupted program.  A segment register is shown in the low half of
its field. -/
structure FrameShows (c : Cpu) (stub : Stub) (errorCode : U32) (f : InterruptFrame) : Prop where
  segments : f.gs.setWidth 16 = c.gs ∧ f.fs.setWidth 16 = c.fs ∧ f.es.setWidth 16 = c.es ∧
    f.ds.setWidth 16 = c.ds ∧ f.cs.setWidth 16 = c.cs
  registers : [f.edi, f.esi, f.ebp, f.ebx, f.edx, f.ecx, f.eax] =
    [c.edi, c.esi, c.ebp, c.ebx, c.edx, c.ecx, c.eax]
  /-- Five words below the interrupted program's. -/
  esp : f.esp = c.esp - 20#32
  interruptNumber : f.interruptNumber = stub.number
  errorCode : f.errorCode = errorCode
  eip : f.eip = c.eip
  eflags : f.eflags = c.eflags

theorem read32_setWidth (m : Mem) (a : U32) : (m.read32 a).setWidth 16 = m.read16 a := by
  apply BitVec.eq_of_getLsbD_eq
  intro i hi
  rw [BitVec.getLsbD_setWidth, Mem.read32, Mem.read16, BitVec.getLsbD_append, BitVec.getLsbD_append,
    BitVec.getLsbD_append, if_pos (show i < 8 + (8 + 8) by omega),
    if_pos (show i < 8 + 8 by omega), decide_eq_true hi, Bool.true_and]

/-- **The handler is shown the interrupted program.** -/
theorem AtHandler.shows {c h : Cpu} {stub : Stub} {errorCode : U32}
    (hat : AtHandler c stub errorCode h) :
    FrameShows c stub errorCode (readFrame h.mem (h.mem.read32 (h.esp + 4#32))) := by
  have hslots := hat.slots
  have hhalf : ∀ {k : Nat} {w : U16}, (frameSlots c stub errorCode)[k]? = some (.half w) →
      (h.mem.read32 (h.mem.read32 (h.esp + 4#32) + BitVec.ofNat 32 (4 * k))).setWidth 16 = w :=
    fun hk => (read32_setWidth _ _).trans (hslots.get hk)
  have hword : ∀ {k : Nat} {w : U32}, (frameSlots c stub errorCode)[k]? = some (.word w) →
      h.mem.read32 (h.mem.read32 (h.esp + 4#32) + BitVec.ofNat 32 (4 * k)) = w :=
    fun hk => hslots.get hk
  refine
    { segments := ⟨hhalf rfl, hhalf rfl, hhalf rfl, hhalf rfl, hhalf rfl⟩
      registers := ?_
      esp := hword rfl
      interruptNumber := hword rfl
      errorCode := hword rfl
      eip := hword rfl
      eflags := hword rfl }
  unfold readFrame
  dsimp only
  rw [hword (k := 4) rfl, hword (k := 5) rfl, hword (k := 6) rfl, hword (k := 8) rfl,
    hword (k := 9) rfl, hword (k := 10) rfl, hword (k := 11) rfl]

end Frewozet
