import Frewozet.Base.Stack

/-!
# The processor, as far as interrupts go

What the instruction set says about segments, about taking an interrupt through the
interrupt table and about the instructions that the entry code is written in.  Nothing in
here is about this kernel.

* `Descriptor`, `descriptorAt` — the eight bytes of a segment descriptor, taken apart;
  `codeLoadable`, `dataLoadable` and `stackLoadable` are the checks made when a segment
  register is loaded.
* `Gate`, `gateAt` — the eight bytes of an interrupt gate.
* `Cpu.enter` — an interrupt, or an exception with its error code: through its gate onto
  the stack, or a fault of its own.
* `Instr.exec` — one instruction.  The function that is called is a parameter, with a state
  of its own beside the processor's.

A segment register is pushed as a half word by some processors and with zeros above it by
others: `Cpu.zeroExtends` says which.  Addresses are offsets into flat segments.
-/

namespace Frewozet

/-! ## Segments -/

/-- The limit and the base of a table, as `lgdt` and `lidt` read them. -/
structure TableRegister where
  limit : U16
  base : U32
  deriving DecidableEq, Repr

/-- The operand of `lgdt` and `lidt`. -/
def readTableRegister (m : Mem) (a : U32) : TableRegister := ⟨m.read16 a, m.read32 (a + 2#32)⟩

/-- A segment descriptor. -/
structure Descriptor where
  base : U32
  /-- The last offset of the segment. -/
  limit : U32
  access : U8
  /-- The segment's default size is 32 bits. -/
  big : Bool
  deriving DecidableEq, Repr

namespace Descriptor

def present (d : Descriptor) : Bool := d.access.getLsbD 7
def privilege (d : Descriptor) : BitVec 2 := d.access.extractLsb' 5 2
/-- A segment of code or data, not one of the system's. -/
def ordinary (d : Descriptor) : Bool := d.access.getLsbD 4
def executable (d : Descriptor) : Bool := d.access.getLsbD 3
/-- Conforming code, or data that grows downwards. -/
def direction (d : Descriptor) : Bool := d.access.getLsbD 2
/-- Code can be read, data can be written. -/
def readWrite (d : Descriptor) : Bool := d.access.getLsbD 1

end Descriptor

/-- The fields of the eight bytes, as they are stored. -/
structure DescriptorFields where
  base : U32
  limit : BitVec 20
  access : U8
  /-- The granularity, the size and two more bits, from the highest down. -/
  flags : BitVec 4
  deriving DecidableEq, Repr

/-- The fields of the descriptor in the eight bytes at `a`. -/
def readFields (m : Mem) (a : U32) : DescriptorFields :=
  { base := m (a + 7#32) ++ (m (a + 4#32) ++ m.read16 (a + 2#32))
    limit := (m (a + 6#32)).extractLsb' 0 4 ++ m.read16 a
    access := m (a + 5#32)
    flags := (m (a + 6#32)).extractLsb' 4 4 }

/-- What the fields stand for: a limit can be counted in pages. -/
def DescriptorFields.descriptor (f : DescriptorFields) : Descriptor :=
  { base := f.base
    limit := if f.flags.getLsbD 3 then f.limit ++ 0xFFF#12 else f.limit.setWidth 32
    access := f.access
    big := f.flags.getLsbD 2 }

/-- The selector is the null selector, whatever privilege it asks for. -/
def nullSelector (sel : U16) : Bool := sel &&& 0xFFFC#16 == 0#16

/-- The descriptor a selector stands for.  There is no local table. -/
def descriptorAt (m : Mem) (gdtr : TableRegister) (sel : U16) : Option Descriptor :=
  if sel.getLsbD 2 then none
  else if (sel &&& 0xFFF8#16) + 7 > gdtr.limit then none
  else some (readFields m (gdtr.base + (sel &&& 0xFFF8#16).setWidth 32)).descriptor

/-- The code segment of the highest privilege that a selector stands for; it need not be
present. -/
def codeSegment (m : Mem) (gdtr : TableRegister) (sel : U16) : Option Descriptor :=
  if nullSelector sel then none
  else (descriptorAt m gdtr sel).filter fun d => d.ordinary && d.executable && d.privilege == 0#2

/-- The selector can be loaded into `cs`, by code at the highest privilege. -/
def codeLoadable (m : Mem) (gdtr : TableRegister) (sel : U16) : Bool :=
  sel.extractLsb' 0 2 == 0#2 && (codeSegment m gdtr sel).any Descriptor.present

/-- The selector can be loaded into `ds`, `es`, `fs` and `gs`, by code at the highest
privilege. -/
def dataLoadable (m : Mem) (gdtr : TableRegister) (sel : U16) : Bool :=
  nullSelector sel || (descriptorAt m gdtr sel).any fun d =>
    d.ordinary && (!d.executable || d.readWrite) &&
      (d.executable && d.direction || sel.extractLsb' 0 2 ≤ d.privilege) && d.present

/-- The selector can be loaded into `ss`, by code at the highest privilege. -/
def stackLoadable (m : Mem) (gdtr : TableRegister) (sel : U16) : Bool :=
  !nullSelector sel && sel.extractLsb' 0 2 == 0#2 && (descriptorAt m gdtr sel).any fun d =>
    d.ordinary && !d.executable && d.readWrite && d.privilege == 0#2 && d.present

/-! ## Gates -/

/-- An interrupt gate. -/
structure Gate where
  offset : U32
  selector : U16
  typeAttr : U8
  deriving DecidableEq, Repr

/-- The gate in the eight bytes at `a`. -/
def readGate (m : Mem) (a : U32) : Gate :=
  { offset := m.read16 (a + 6#32) ++ m.read16 a
    selector := m.read16 (a + 2#32)
    typeAttr := m (a + 5#32) }

/-- The gate of a vector. -/
def gateAt (m : Mem) (idtr : TableRegister) (n : U8) : Option Gate :=
  if n.setWidth 16 * 8 + 7 > idtr.limit then none
  else some (readGate m (idtr.base + n.setWidth 32 * 8))

/-! ## The processor -/

/-- The registers and the memory. -/
@[ext]
structure Cpu where
  eax : U32
  ecx : U32
  edx : U32
  ebx : U32
  esp : U32
  ebp : U32
  esi : U32
  edi : U32
  eip : U32
  eflags : U32
  cs : U16
  ss : U16
  ds : U16
  es : U16
  fs : U16
  gs : U16
  gdtr : TableRegister
  idtr : TableRegister
  mem : Mem
  /-- A segment register is pushed with zeros above it. -/
  zeroExtends : Bool

/-- The segment registers for data. -/
inductive Seg where
  | ds | es | fs | gs
  deriving DecidableEq, Repr

namespace Cpu

def seg (c : Cpu) : Seg → U16
  | .ds => c.ds
  | .es => c.es
  | .fs => c.fs
  | .gs => c.gs

def setSeg (c : Cpu) (r : Seg) (sel : U16) : Cpu :=
  match r with
  | .ds => { c with ds := sel }
  | .es => { c with es := sel }
  | .fs => { c with fs := sel }
  | .gs => { c with gs := sel }

def push (w : U32) (c : Cpu) : Cpu :=
  { c with esp := c.esp - 4#32, mem := c.mem.write32 (c.esp - 4#32) w }

def pushSelector (sel : U16) (c : Cpu) : Cpu :=
  { c with
    esp := c.esp - 4#32
    mem := if c.zeroExtends then c.mem.write32 (c.esp - 4#32) (sel.setWidth 32)
      else c.mem.write16 (c.esp - 4#32) sel }

/-- The word at the top of the stack. -/
def top (c : Cpu) : U32 := c.mem.read32 c.esp

/-- The selector at the top of the stack. -/
def topSelector (c : Cpu) : U16 := c.mem.read16 c.esp

/-- The stack pointer, moved up. -/
def drop (n : U32) (c : Cpu) : Cpu := { c with esp := c.esp + n }

/-! The flags that matter here. -/

def TF : U32 := 0x00000100
def IF : U32 := 0x00000200
def DF : U32 := 0x00000400
def NT : U32 := 0x00004000
def RF : U32 := 0x00010000
def VM : U32 := 0x00020000

/-- What becomes of an interrupt. -/
inductive Entry where
  | enters (c : Cpu)
  | faults (vector : U8) (errorCode : U32)
  /-- A gate to a task, or to 16-bit code. -/
  | unmodelled

/-- The type of a gate to 32-bit code that keeps further interrupts out. -/
def INTERRUPT_GATE : BitVec 4 := 0xE

/-- The type of a gate to 32-bit code that does not. -/
def TRAP_GATE : BitVec 4 := 0xF

/-- The flags, the place to return to and the error code, pushed. -/
def saved (errorCode : Option U32) (c : Cpu) : Cpu :=
  let c := ((c.push c.eflags).pushSelector c.cs).push c.eip
  match errorCode with
  | none => c
  | some e => c.push e

/-- The error code of a fault on the way through the gate of `n`; its lowest bit says that
the interrupt came from outside. -/
def gateError (n : U8) (external : Bool) : U32 :=
  n.setWidth 32 * 8 + 2 + if external then 1 else 0

/-- The error code of a fault about the selector in a gate. -/
def selectorError (sel : U16) (external : Bool) : U32 :=
  (sel &&& 0xFFFC#16).setWidth 32 + if external then 1 else 0

/-- An interrupt or exception `n`, with the error code that some exceptions have. -/
def enter (n : U8) (external : Bool) (errorCode : Option U32) (c : Cpu) : Entry :=
  match gateAt c.mem c.idtr n with
  | none => .faults 13 (gateError n external)
  | some g =>
    let type := g.typeAttr.extractLsb' 0 5
    if type = 0x05 ∨ type = 0x06 ∨ type = 0x07 then .unmodelled
    else if type ≠ INTERRUPT_GATE.setWidth 5 ∧ type ≠ TRAP_GATE.setWidth 5 then
      .faults 13 (gateError n external)
    else if g.typeAttr.getLsbD 7 = false then .faults 11 (gateError n external)
    else
      match codeSegment c.mem c.gdtr g.selector with
      | none => .faults 13 (selectorError g.selector external)
      | some d =>
        if d.present = false then .faults 11 (selectorError g.selector external)
        else
          let cleared := TF ||| NT ||| RF ||| VM |||
            if type = INTERRUPT_GATE.setWidth 5 then IF else 0
          .enters { c.saved errorCode with
            cs := g.selector &&& 0xFFFC#16
            eip := g.offset
            eflags := c.eflags &&& ~~~cleared }

end Cpu

/-! ## Instructions -/

/-- The instructions of the entry code. -/
inductive Instr where
  | cli
  | cld
  | pushImm (w : U32)
  | pusha
  | popa
  | pushSeg (r : Seg)
  | popSeg (r : Seg)
  | movAx (w : U16)
  /-- `mov r, ax`. -/
  | movSeg (r : Seg)
  | pushEsp
  /-- A call, which leaves its return address. -/
  | call (returnAddress : U32)
  | addEsp (n : U32)
  | iretd
  deriving DecidableEq, Repr

/-- A function that is called, with the state it keeps. -/
abbrev Callee (σ : Type) := Cpu → σ → Option (Cpu × σ)

section

variable {σ : Type}

namespace Cpu

/-- `pusha`. -/
def pusha (c : Cpu) : Cpu :=
  (((((((c.push c.eax).push c.ecx).push c.edx).push c.ebx).push c.esp).push c.ebp).push c.esi).push
    c.edi

/-- `popa`: the saved stack pointer is passed over. -/
def popa (c : Cpu) : Cpu :=
  let word (k : Nat) := c.mem.read32 (c.esp + BitVec.ofNat 32 (4 * k))
  { c with
    edi := word 0, esi := word 1, ebp := word 2, ebx := word 4, edx := word 5, ecx := word 6
    eax := word 7, esp := c.esp + 32#32 }

/-- `pop` into a segment register. -/
def popSeg (r : Seg) (c : Cpu) : Option Cpu :=
  if dataLoadable c.mem c.gdtr c.topSelector then some ((c.setSeg r c.topSelector).drop 4#32)
  else none

/-- `iretd`, within the same privilege. -/
def iretd (c : Cpu) : Option Cpu :=
  let eip := c.mem.read32 c.esp
  let cs := c.mem.read16 (c.esp + 4#32)
  let eflags := c.mem.read32 (c.esp + 8#32)
  if c.eflags &&& NT = 0 ∧ eflags &&& VM = 0 ∧ codeLoadable c.mem c.gdtr cs then
    some { c with eip := eip, cs := cs, eflags := eflags, esp := c.esp + 12#32 }
  else none

end Cpu

/-- One instruction; nothing comes of one that faults, nor of a call that does not return. -/
def Instr.exec (callee : Callee σ) (i : Instr) (c : Cpu) (s : σ) : Option (Cpu × σ) :=
  match i with
  | cli => some ({ c with eflags := c.eflags &&& ~~~Cpu.IF }, s)
  | cld => some ({ c with eflags := c.eflags &&& ~~~Cpu.DF }, s)
  | pushImm w => some (c.push w, s)
  | pusha => some (c.pusha, s)
  | popa => some (c.popa, s)
  | pushSeg r => some (c.pushSelector (c.seg r), s)
  | popSeg r => (c.popSeg r).map fun c' => (c', s)
  | movAx w => some ({ c with eax := c.eax.extractLsb' 16 16 ++ w }, s)
  | movSeg r =>
    if dataLoadable c.mem c.gdtr (c.eax.setWidth 16) then
      some (c.setSeg r (c.eax.setWidth 16), s)
    else none
  | pushEsp => some (c.push c.esp, s)
  | call returnAddress => callee (c.push returnAddress) s
  | addEsp n => some (c.drop n, s)
  | iretd => c.iretd.map fun c' => (c', s)

/-- One instruction after the other. -/
def execInstrs (callee : Callee σ) : List Instr → Cpu → σ → Option (Cpu × σ)
  | [], c, s => some (c, s)
  | i :: is, c, s => (i.exec callee c s).bind fun r => execInstrs callee is r.1 r.2

theorem execInstrs_cons {callee : Callee σ} {i : Instr} {c c' : Cpu} {s s' : σ}
    (h : i.exec callee c s = some (c', s')) (is : List Instr) :
    execInstrs callee (i :: is) c s = execInstrs callee is c' s' := by
  rw [execInstrs, h]
  rfl

theorem execInstrs_append (callee : Callee σ) (is js : List Instr) (c : Cpu) (s : σ) :
    execInstrs callee (is ++ js) c s =
      (execInstrs callee is c s).bind fun r => execInstrs callee js r.1 r.2 := by
  induction is generalizing c s with
  | nil => rfl
  | cons i is ih =>
    rw [List.cons_append, execInstrs, execInstrs, Option.bind_assoc]
    exact congrArg _ (funext fun r => ih r.1 r.2)

end

/-! ## Flags -/

/-- A flag that a mask clears is clear. -/
theorem clear_and {mask flag : U32} (h : mask &&& flag = flag) (x : U32) :
    x &&& ~~~mask &&& flag = 0 := by
  rw [← h, BitVec.and_assoc, ← BitVec.and_assoc (~~~mask), BitVec.and_comm (~~~mask),
    BitVec.and_not_self]
  exact (congrArg (x &&& ·) BitVec.zero_and).trans BitVec.and_zero

/-- A flag that is clear stays so when others are cleared. -/
theorem clear_of_clear {x flag : U32} (h : x &&& flag = 0) (mask : U32) :
    x &&& ~~~mask &&& flag = 0 := by
  rw [BitVec.and_assoc, BitVec.and_comm (~~~mask), ← BitVec.and_assoc, h]
  exact BitVec.zero_and

/-! ## Entering and pushing -/

namespace Cpu

/-- The flags that an interrupt clears whatever its gate. -/
theorem enter_enters {n : U8} {external : Bool} {errorCode : Option U32} {c e : Cpu}
    (h : c.enter n external errorCode = .enters e) :
    ∃ cs eip cleared, cleared &&& NT = NT ∧
      e = { c.saved errorCode with cs := cs, eip := eip, eflags := c.eflags &&& ~~~cleared } := by
  unfold enter at h
  split at h
  · cases h
  · rename_i g _
    dsimp only at h
    split at h
    · cases h
    · split at h
      · cases h
      · split at h
        · cases h
        · split at h
          · cases h
          · split at h
            · cases h
            · refine ⟨_, _, _, ?_, (Entry.enters.inj h).symm⟩
              split <;> decide

/-- The slots have been pushed onto the stack of `c₀`, in the bytes from `bottom` up. -/
def Pushed (c₀ : Cpu) (bottom : U32) (c : Cpu) (xs : List Slot) : Prop :=
  Stack.Stacked c₀.mem c.mem bottom c₀.esp c.esp xs

section

variable {c₀ c : Cpu} {bottom : U32} {xs : List Slot}

theorem Pushed.push (h : Pushed c₀ bottom c xs) (w : U32)
    (hroom : bottom.toNat + 4 * (xs.length + 1) ≤ c₀.esp.toNat) :
    Pushed c₀ bottom (c.push w) (.word w :: xs) := by
  have hdepth := h.depth
  exact h.push_word w (by omega)

theorem Pushed.pushSelector (h : Pushed c₀ bottom c xs) (sel : U16)
    (hroom : bottom.toNat + 4 * (xs.length + 1) ≤ c₀.esp.toNat) :
    Pushed c₀ bottom (c.pushSelector sel) (.half sel :: xs) := by
  have hdepth := h.depth
  unfold Pushed Cpu.pushSelector
  dsimp only
  split
  · exact h.push_half_zero sel (by omega)
  · exact h.push_half sel (by omega)

end

end Cpu

/-! ## What a table's bytes say -/

theorem readFields_congr {m m' : Mem} {a : U32} (ha : a.toNat + 8 ≤ 2 ^ 32)
    (h : Mem.AgreeOn m m' a.toNat (a.toNat + 8)) : readFields m a = readFields m' a := by
  have hat : ∀ k < 8, (a + BitVec.ofNat 32 k).toNat = a.toNat + k := fun k hk =>
    Mem.toNat_add_of_lt (by omega)
  have hbyte : ∀ k < 8, m (a + BitVec.ofNat 32 k) = m' (a + BitVec.ofNat 32 k) := fun k hk =>
    h _ (by rw [hat k hk]; omega) (by rw [hat k hk]; omega)
  have hhalf : m.read16 a = m'.read16 a :=
    Mem.read16_congr (by omega) (h.mono (Nat.le_refl _) (by omega))
  have h2 := hat 2 (by omega)
  have hbase : m.read16 (a + 2#32) = m'.read16 (a + 2#32) :=
    Mem.read16_congr (by omega) (h.mono (by omega) (by omega))
  rw [readFields, readFields, hhalf, hbase, hbyte 4 (by omega), hbyte 5 (by omega),
    hbyte 6 (by omega), hbyte 7 (by omega)]

/-- The bytes of a table. -/
def TableRegister.Agree (r : TableRegister) (m m' : Mem) : Prop :=
  Mem.AgreeOn m m' r.base.toNat (r.base.toNat + r.limit.toNat + 1)

/-- The table ends below 4 GiB. -/
def TableRegister.Fits (r : TableRegister) : Prop := r.base.toNat + r.limit.toNat + 1 ≤ 2 ^ 32

theorem selectorOffset_toNat (sel : U16) : (sel &&& 0xFFF8#16).toNat % 8 = 0 := by
  have h : (sel &&& 0xFFF8#16) &&& 7#16 = 0#16 := by
    rw [BitVec.and_assoc]
    exact BitVec.and_zero
  have hnat := congrArg BitVec.toNat h
  rw [BitVec.toNat_and] at hnat
  exact (Nat.and_two_pow_sub_one_eq_mod _ 3).symm.trans hnat

theorem descriptorAt_congr {m m' : Mem} {gdtr : TableRegister} (hfit : gdtr.Fits)
    (h : gdtr.Agree m m') (sel : U16) : descriptorAt m gdtr sel = descriptorAt m' gdtr sel := by
  unfold descriptorAt
  split
  · rfl
  · split
    · rfl
    · rename_i hlimit
      have hmul := selectorOffset_toNat sel
      have hlt := (sel &&& 0xFFF8#16).isLt
      have hle : (sel &&& 0xFFF8#16).toNat + 7 ≤ gdtr.limit.toNat := by
        have hle := BitVec.le_def.1 (BitVec.not_lt.1 hlimit)
        rw [BitVec.toNat_add] at hle
        have h7 : (7 : U16).toNat = 7 := rfl
        omega
      have hoff : ((sel &&& 0xFFF8#16).setWidth 32).toNat = (sel &&& 0xFFF8#16).toNat := by
        rw [BitVec.toNat_setWidth]
        omega
      unfold TableRegister.Fits at hfit
      have hat : (gdtr.base + (sel &&& 0xFFF8#16).setWidth 32).toNat =
          gdtr.base.toNat + (sel &&& 0xFFF8#16).toNat := by
        rw [BitVec.toNat_add, hoff]
        omega
      rw [readFields_congr (by omega) (h.mono (by omega) (by omega))]

theorem dataLoadable_congr {m m' : Mem} {gdtr : TableRegister} (hfit : gdtr.Fits)
    (h : gdtr.Agree m m') (sel : U16) : dataLoadable m gdtr sel = dataLoadable m' gdtr sel := by
  rw [dataLoadable, dataLoadable, descriptorAt_congr hfit h]

theorem codeLoadable_congr {m m' : Mem} {gdtr : TableRegister} (hfit : gdtr.Fits)
    (h : gdtr.Agree m m') (sel : U16) : codeLoadable m gdtr sel = codeLoadable m' gdtr sel := by
  rw [codeLoadable, codeLoadable, codeSegment, codeSegment, descriptorAt_congr hfit h]

end Frewozet
