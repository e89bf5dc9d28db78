import Frewozet.Base.Words
import Mathlib.Data.List.FinRange

/-!
# `pic.c`

The two interrupt controllers, and what the kernel writes to their ports.

* `Pic` — a chip: the requests it has latched, those in service, the mask, and where it is
  in an initialisation.  `Pic.next` is the request it asks the processor to take.
* `Pic.writeCommand`, `Pic.writeData` — what a byte written to one of its two ports does.
* `Pics` — the pair; the slave's output is the master's input 2, by its edges.
* `picRemap`, `picSendEoi` — the code, as the bytes it writes to which port.
* `picRemap_remapped` — whatever the chips were in the middle of, they end up set up.

Only the commands that this kernel gives are modelled: there is no rotation of priorities,
and requests are edges.
-/

namespace Frewozet

/-! ## A chip -/

/-- Which byte of an initialisation the data port waits for. -/
inductive PicPhase where
  | ready | icw2 | icw3 | icw4
  deriving DecidableEq, Repr

/-- An 8259A. -/
structure Pic where
  /-- The interrupt request register. -/
  irr : U8
  /-- The in-service register. -/
  isr : U8
  /-- The interrupt mask register. -/
  imr : U8
  /-- The vector of input 0. -/
  offset : U8
  cascade : U8
  mode : U8
  phase : PicPhase
  /-- The first byte of the initialisation asks for a third and a fourth. -/
  single : Bool
  long : Bool
  deriving DecidableEq, Repr

namespace Pic

/-- The bit of an input. -/
def bit (i : Fin 8) : U8 := 1#8 <<< i.val

/-- A request that is not masked. -/
def requested (p : Pic) (i : Fin 8) : Bool := p.irr.getLsbD i && !p.imr.getLsbD i

/-- The request to be served: the highest that is not masked, if none as high is in
service. -/
def next (p : Pic) : Option (Fin 8) :=
  (Fin.find? fun i : Fin 8 => p.isr.getLsbD i || p.requested i).filter
    fun i => !p.isr.getLsbD i

/-- The output to the processor, or to the master. -/
def int (p : Pic) : Bool := p.next.isSome

/-- The edge of a request, and its end. -/
def request (i : Fin 8) (p : Pic) : Pic := { p with irr := p.irr ||| bit i }
def withdraw (i : Fin 8) (p : Pic) : Pic := { p with irr := p.irr &&& ~~~bit i }

/-- A request goes into service. -/
def acknowledge (i : Fin 8) (p : Pic) : Pic :=
  { p with irr := p.irr &&& ~~~bit i, isr := p.isr ||| bit i }

/-- The highest request in service is done, if there is one. -/
def endOfInterrupt (p : Pic) : Pic :=
  match Fin.find? fun i : Fin 8 => p.isr.getLsbD i with
  | none => p
  | some i => { p with isr := p.isr &&& ~~~bit i }

/-- A byte for the command port: the start of an initialisation, which forgets the requests
and the mask, or the end of an interrupt. -/
def writeCommand (v : U8) (p : Pic) : Pic :=
  if v.getLsbD 4 then
    { p with irr := 0, imr := 0, phase := .icw2, single := v.getLsbD 1, long := v.getLsbD 0 }
  else if v = 0x20 then p.endOfInterrupt
  else p

/-- A byte for the data port. -/
def writeData (v : U8) (p : Pic) : Pic :=
  let last := if p.long then PicPhase.icw4 else .ready
  match p.phase with
  | .ready => { p with imr := v }
  | .icw2 => { p with offset := v &&& 0xF8, phase := if p.single then last else .icw3 }
  | .icw3 => { p with cascade := v, phase := last }
  | .icw4 => { p with mode := v, phase := .ready }

end Pic

/-! ## The pair -/

def PIC1_COMMAND : U16 := 0x20
def PIC1_DATA : U16 := 0x21
def PIC2_COMMAND : U16 := 0xA0
def PIC2_DATA : U16 := 0xA1

def PIC_EOI : U8 := 0x20

/-- Both chips. -/
structure Pics where
  master : Pic
  slave : Pic
  deriving DecidableEq, Repr

namespace Pics

/-- The input of the master that the slave's output is wired to. -/
abbrev cascade : Fin 8 := ⟨2, by decide⟩

/-- Something happens to the slave: the master sees the edge of its output. -/
def onSlave (f : Pic → Pic) (s : Pics) : Pics :=
  let slave := f s.slave
  { slave := slave
    master :=
      if slave.int && !s.slave.int then s.master.request cascade
      else if s.slave.int && !slave.int then s.master.withdraw cascade
      else s.master }

/-- `inb`, of the two masks. -/
def inb (port : U16) (s : Pics) : U8 := if port = PIC1_DATA then s.master.imr else s.slave.imr

/-- `outb`. -/
def outb (s : Pics) (w : U16 × U8) : Pics :=
  if w.1 = PIC1_COMMAND then { s with master := s.master.writeCommand w.2 }
  else if w.1 = PIC1_DATA then { s with master := s.master.writeData w.2 }
  else if w.1 = PIC2_COMMAND then s.onSlave (Pic.writeCommand w.2)
  else if w.1 = PIC2_DATA then s.onSlave (Pic.writeData w.2)
  else s

end Pics

/-! ## The code -/

/-- `io_wait`: a byte for a port where nothing listens. -/
def ioWait : U16 × U8 := (0x80, 0)

/-- What `pic_remap` writes, `a1` and `a2` being the masks it has read. -/
def picRemapWrites (offset1 offset2 a1 a2 : U8) : List (U16 × U8) :=
  [(PIC1_COMMAND, 0x11), ioWait, (PIC2_COMMAND, 0x11), ioWait,
    (PIC1_DATA, offset1), ioWait, (PIC2_DATA, offset2), ioWait,
    (PIC1_DATA, 0x04), ioWait, (PIC2_DATA, 0x02), ioWait,
    (PIC1_DATA, 0x01), ioWait, (PIC2_DATA, 0x01), ioWait,
    (PIC1_DATA, a1), (PIC2_DATA, a2)]

/-- `pic_remap`. -/
def picRemap (offset1 offset2 : U8) (s : Pics) : Pics :=
  (picRemapWrites offset1 offset2 (s.inb PIC1_DATA) (s.inb PIC2_DATA)).foldl Pics.outb s

/-- `pic_send_eoi`. -/
def picSendEoi (irq : U8) : List (U16 × U8) :=
  (if irq ≥ 8 then [(PIC2_COMMAND, PIC_EOI)] else []) ++ [(PIC1_COMMAND, PIC_EOI)]

/-- What `interrupt_handler` writes to the controllers, for the number in its frame: nothing
for an exception, from which it does not return. -/
def interruptWrites (n : U32) : List (U16 × U8) :=
  if n < 32 then []
  else if n = 32 then picSendEoi 0
  else if n = 33 then picSendEoi 1
  else if n ≥ 32 ∧ n ≤ 47 then picSendEoi ((n - 32).setWidth 8)
  else []

/-! ## Bits -/

namespace Pic

theorem getLsbD_bit : ∀ i j : Fin 8, (bit i).getLsbD j = decide (j = i) := by decide

@[simp] theorem getLsbD_or_bit (x : U8) (i j : Fin 8) :
    (x ||| bit i).getLsbD j = (decide (j = i) || x.getLsbD j) := by
  rw [BitVec.getLsbD_or, getLsbD_bit, Bool.or_comm]

@[simp] theorem getLsbD_and_not_bit (x : U8) (i j : Fin 8) :
    (x &&& ~~~bit i).getLsbD j = (!decide (j = i) && x.getLsbD j) := by
  rw [BitVec.getLsbD_and, BitVec.getLsbD_not, getLsbD_bit, Bool.and_comm, decide_eq_true j.isLt,
    Bool.true_and]

/-- A chip without requests asks for nothing. -/
theorem int_of_irr_zero {p : Pic} (h : p.irr = 0) : p.int = false := by
  have hreq : ∀ i : Fin 8, p.requested i = false := fun i => by
    rw [requested, h]
    simp
  unfold int next
  rw [Option.isSome_eq_false_iff, Option.isNone_iff_eq_none, Option.filter_eq_none_iff]
  intro i hi
  have hserved := (Fin.find?_eq_some_iff.1 hi).1
  rw [hreq, Bool.or_false] at hserved
  rw [hserved]
  decide

/-- What is asked for when nothing is in service. -/
theorem next_of_isr_zero {p : Pic} (h : p.isr = 0) :
    p.next = Fin.find? p.requested := by
  have hisr : ∀ i : Fin 8, p.isr.getLsbD i = false := fun i => by
    rw [h]
    simp
  unfold next
  simp only [hisr, Bool.false_or, Bool.not_false]
  change (Fin.find? p.requested).filter (fun _ => true) = Fin.find? p.requested
  cases Fin.find? p.requested <;> rfl

end Pic

/-! ## After `pic_remap` -/

/-- A chip that has been set up, with the mask it had, its requests forgotten. -/
def Pic.remapped (p : Pic) (offset cascade : U8) : Pic :=
  { irr := 0, isr := p.isr, imr := p.imr, offset := offset &&& 0xF8, cascade := cascade, mode := 1
    phase := .ready, single := false, long := true }

namespace Pics

theorem outb_pic1_command (v : U8) (s : Pics) :
    s.outb (PIC1_COMMAND, v) = { s with master := s.master.writeCommand v } := rfl

theorem outb_pic1_data (v : U8) (s : Pics) :
    s.outb (PIC1_DATA, v) = { s with master := s.master.writeData v } := rfl

theorem outb_pic2_command (v : U8) (s : Pics) :
    s.outb (PIC2_COMMAND, v) = s.onSlave (Pic.writeCommand v) := rfl

theorem outb_pic2_data (v : U8) (s : Pics) :
    s.outb (PIC2_DATA, v) = s.onSlave (Pic.writeData v) := rfl

theorem outb_ioWait (s : Pics) : s.outb ioWait = s := rfl

/-- No edge, if the slave asks for nothing before and after. -/
theorem onSlave_quiet {f : Pic → Pic} {s : Pics} (h : s.slave.int = false)
    (h' : (f s.slave).int = false) : s.onSlave f = ⟨s.master, f s.slave⟩ := by
  unfold onSlave
  dsimp only
  rw [h, h']
  rfl

end Pics

theorem Pic.writeData_irr (v : U8) (p : Pic) : (p.writeData v).irr = p.irr := by
  unfold Pic.writeData
  dsimp only
  cases p.phase <;> rfl

/-- **Whatever the chips were in the middle of.** -/
theorem picRemap_remapped (offset1 offset2 : U8) (s : Pics) : picRemap offset1 offset2 s =
    ⟨s.master.remapped offset1 4, s.slave.remapped offset2 2⟩ := by
  have hquiet : ∀ {m p : Pic} (v : U8), p.irr = 0 →
      Pics.onSlave (Pic.writeData v) ⟨m, p⟩ = ⟨m, p.writeData v⟩ := fun v hp =>
    Pics.onSlave_quiet (Pic.int_of_irr_zero hp)
      (Pic.int_of_irr_zero ((Pic.writeData_irr v _).trans hp))
  -- the slave's requests are forgotten when the master has none any more
  have hfirst : Pics.onSlave (Pic.writeCommand 0x11) ⟨s.master.writeCommand 0x11, s.slave⟩ =
      ⟨s.master.writeCommand 0x11, s.slave.writeCommand 0x11⟩ := by
    have hint : (s.slave.writeCommand 0x11).int = false := Pic.int_of_irr_zero rfl
    unfold Pics.onSlave
    dsimp only
    rw [hint]
    cases s.slave.int
    · rfl
    · have hnone : (0 : U8) &&& ~~~Pic.bit 2 = 0 := by decide
      exact congrArg (fun irr => Pics.mk { s.master.writeCommand 0x11 with irr := irr } _) hnone
  unfold picRemap picRemapWrites
  simp only [List.foldl_cons, List.foldl_nil, Pics.outb_ioWait, Pics.outb_pic1_command,
    Pics.outb_pic1_data, Pics.outb_pic2_command, Pics.outb_pic2_data]
  rw [hfirst]
  dsimp only
  rw [hquiet _ rfl, hquiet _ rfl, hquiet _ rfl, hquiet _ rfl]
  rfl

end Frewozet
