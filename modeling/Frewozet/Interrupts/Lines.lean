import Frewozet.Base.Steps
import Frewozet.Interrupts.Pic

/-!
# The interrupt lines

The two controllers between the devices and the processor, while the kernel runs: requests
come and go at any time, the processor takes an interrupt with two pulses and asks for a
vector with the second, and `interrupt_handler` ends it with one or two bytes for the
ports.

* `Bus`, `busStep` — all of this, step by step.
* `Board`, `boardStep` — what the devices and the kernel can take it for: one latch for each
  line, in one order of priority, with nothing in service and nothing to be ended.
* `Follows` — how the two hang together, from one step to the next.
* `bus_follows` — **every run of the bus is a run of the board**: the bytes that the handler
  writes end just what is in service, whatever comes in between and even where the
  request has gone away and the vector is a spurious one.
* `bus_drains` — once the devices are quiet, the lines that are not masked are served, each
  once and the highest first.
-/

namespace Frewozet

/-! ## The lines -/

/-- The lines of the master. -/
def masterLine (i : Fin 8) : Fin 16 := ⟨i.val, by omega⟩

/-- The lines of the slave. -/
def slaveLine (j : Fin 8) : Fin 16 := ⟨8 + j.val, by omega⟩

theorem line_cases (n : Fin 16) : (∃ i, n = masterLine i) ∨ ∃ j, n = slaveLine j := by
  by_cases h : n.val < 8
  · exact .inl ⟨⟨n.val, h⟩, rfl⟩
  · refine .inr ⟨⟨n.val - 8, by omega⟩, Fin.ext ?_⟩
    change n.val = 8 + (n.val - 8)
    omega

namespace Pics

/-- A device's request: there is none on line 2, which the slave's output takes. -/
def onLine (f : Fin 8 → Pic → Pic) (n : Fin 16) (s : Pics) : Pics :=
  if h : n.val < 8 then { s with master := f ⟨n.val, h⟩ s.master }
  else s.onSlave (f ⟨n.val - 8, by omega⟩)

/-- The latch of a line. -/
def pending (s : Pics) (n : Fin 16) : Bool :=
  if n.val < 8 then s.master.irr.getLsbD n.val else s.slave.irr.getLsbD (n.val - 8)

/-- The line is masked, or the slave as a whole is. -/
def masked (s : Pics) (n : Fin 16) : Bool :=
  if n.val < 8 then s.master.imr.getLsbD n.val
  else s.slave.imr.getLsbD (n.val - 8) || s.master.imr.getLsbD 2

end Pics

/-! ## The bus -/

/-- How far an interrupt has got. -/
inductive BusPhase where
  | idle
  /-- The processor has seen the request, and is about to acknowledge it. -/
  | acking
  /-- The first pulse has put the master's input into service, if there was still one. -/
  | acked (i : Option (Fin 8))
  /-- The handler runs, with these bytes still to be written. -/
  | handling (writes : List (U16 × U8))
  deriving DecidableEq, Repr

/-- The controllers, and the processor's and the kernel's part. -/
structure Bus where
  pics : Pics
  phase : BusPhase
  /-- The vectors that the processor has been given. -/
  log : List U8
  deriving DecidableEq, Repr

/-- What can happen. -/
inductive BusLabel where
  | raise (n : Fin 16)
  | lower (n : Fin 16)
  /-- The processor sees the request. -/
  | sample
  | firstPulse
  | secondPulse
  /-- The handler writes its next byte. -/
  | write
  | iret
  deriving DecidableEq, Repr

namespace Bus

/-- The second pulse: the chip that is asked gives the vector, its own input 7 if there is
nothing left to give. -/
def vector (s : Pics) : Option (Fin 8) → U8 × Pics
  | none => (s.master.offset + 7, s)
  | some i =>
    if i = 2 then
      match s.slave.next with
      | none => (s.slave.offset + 7, s)
      | some j => (s.slave.offset + BitVec.ofNat 8 j.val, s.onSlave (Pic.acknowledge j))
    else (s.master.offset + BitVec.ofNat 8 i.val, s)

end Bus

/-- One step. -/
def busStep : Steps BusLabel Bus := fun l b =>
  match l, b.phase with
  | .raise n, _ => if n = 2 then none else some { b with pics := b.pics.onLine Pic.request n }
  | .lower n, _ => if n = 2 then none else some { b with pics := b.pics.onLine Pic.withdraw n }
  | .sample, .idle => if b.pics.master.int then some { b with phase := .acking } else none
  | .firstPulse, .acking =>
    match b.pics.master.next with
    | none => some { b with phase := .acked none }
    | some i => some { b with
        pics := { b.pics with master := b.pics.master.acknowledge i }
        phase := .acked (some i) }
  | .secondPulse, .acked i =>
    let r := Bus.vector b.pics i
    some { b with
      pics := r.2
      phase := .handling (interruptWrites (r.1.setWidth 32))
      log := b.log ++ [r.1] }
  | .write, .handling (w :: ws) => some { b with pics := b.pics.outb w, phase := .handling ws }
  | .iret, .handling [] => some { b with phase := .idle }
  | _, _ => none

/-! ## The board -/

/-- What the first pulse settles. -/
inductive Choice where
  | nothing
  | line (i : Fin 8)
  | slave
  deriving DecidableEq, Repr

inductive Stage where
  | idle
  | acking
  | chosen (c : Choice)
  | handling
  deriving DecidableEq, Repr

/-- A latch for each line. -/
structure Board where
  pending : Fin 16 → Bool
  stage : Stage
  log : List U8

inductive BoardLabel where
  | raise (n : Fin 16)
  | lower (n : Fin 16)
  | sample
  | choose
  | deliver
  | finish
  deriving DecidableEq, Repr

namespace Board

/-- The lines, from the highest priority down. -/
def order : List (Fin 16) :=
  [masterLine 0, masterLine 1] ++ ((List.finRange 8).map slaveLine ++
    [masterLine 3, masterLine 4, masterLine 5, masterLine 6, masterLine 7])

/-- The input of the master that a line comes in by. -/
def group : Option (Fin 16) → Choice
  | none => .nothing
  | some n => if h : n.val < 8 then .line ⟨n.val, h⟩ else .slave

section

variable (masked : Fin 16 → Bool)

/-- A request that is to be served. -/
def wants (b : Board) (n : Fin 16) : Bool := b.pending n && !masked n

/-- The highest of them, or the slave if it is one of the slave's. -/
def choice (b : Board) : Choice := group (order.find? (b.wants masked))

def clear (b : Board) (n : Fin 16) : Board :=
  { b with pending := fun m => b.pending m && !decide (m = n) }

/-- The vector, and the latch it is from: the slave settles for the highest of its lines
only now. -/
def vector (b : Board) : Choice → U8 × Board
  | .nothing => (39, b)
  | .line i => (32 + BitVec.ofNat 8 i.val, b)
  | .slave =>
    match Fin.find? fun j => b.wants masked (slaveLine j) with
    | none => (47, b)
    | some j => (40 + BitVec.ofNat 8 j.val, b.clear (slaveLine j))

end

end Board

/-- One step of the board. -/
def boardStep (masked : Fin 16 → Bool) : Steps BoardLabel Board := fun l b =>
  match l, b.stage with
  | .raise n, _ =>
    if n = 2 then none else some { b with pending := fun m => decide (m = n) || b.pending m }
  | .lower n, _ => if n = 2 then none else some (b.clear n)
  | .sample, .idle =>
    if b.choice masked = .nothing then none else some { b with stage := .acking }
  | .choose, .acking =>
    match b.choice masked with
    | .line i => some { b.clear (masterLine i) with stage := .chosen (.line i) }
    | c => some { b with stage := .chosen c }
  | .deliver, .chosen c =>
    let r := b.vector masked c
    some { r.2 with stage := .handling, log := b.log ++ [r.1] }
  | .finish, .handling => some { b with stage := .idle }
  | _, _ => none

/-- What the board sees of the bus: not the bytes for the ports. -/
def BusLabel.seen : BusLabel → Option BoardLabel
  | raise n => some (.raise n)
  | lower n => some (.lower n)
  | sample => some .sample
  | firstPulse => some .choose
  | secondPulse => some .deliver
  | write => none
  | iret => some .finish

/-! ## The slave's output and the master's input -/

namespace Pics

/-- The master has latched what the slave puts out. -/
def Linked (s : Pics) : Prop := s.master.irr.getLsbD 2 = s.slave.int

/-- It has latched no more than that. -/
def WeaklyLinked (s : Pics) : Prop := s.master.irr.getLsbD 2 = true → s.slave.int = true

section

variable {s : Pics} {f : Pic → Pic}

/-- Nothing of the master but its input 2. -/
theorem onSlave_master (f : Pic → Pic) (s : Pics) :
    (s.onSlave f).master = { s.master with irr := (s.onSlave f).master.irr } ∧
      ∀ i : Fin 8, i ≠ 2 →
        (s.onSlave f).master.irr.getLsbD i.val = s.master.irr.getLsbD i.val := by
  change _ ∧ ∀ i : Fin 8, i ≠ cascade → _
  unfold onSlave
  dsimp only
  split
  · exact ⟨rfl, fun i hi => by rw [Pic.request, Pic.getLsbD_or_bit, decide_eq_false hi,
      Bool.false_or]⟩
  · split
    · exact ⟨rfl, fun i hi => by rw [Pic.withdraw, Pic.getLsbD_and_not_bit, decide_eq_false hi,
        Bool.not_false, Bool.true_and]⟩
    · exact ⟨rfl, fun _ _ => rfl⟩

/-- The input, after something has happened to the slave. -/
theorem onSlave_irr_two (f : Pic → Pic) (s : Pics) : (s.onSlave f).master.irr.getLsbD 2 =
    if (f s.slave).int && !s.slave.int then true
    else if s.slave.int && !(f s.slave).int then false
    else s.master.irr.getLsbD 2 := by
  unfold onSlave
  dsimp only
  split
  · exact Pic.getLsbD_or_bit _ 2 2
  · split
    · exact Pic.getLsbD_and_not_bit _ 2 2
    · rfl

theorem Linked.onSlave (h : Linked s) (f : Pic → Pic) : Linked (s.onSlave f) := by
  unfold Linked at h ⊢
  rw [onSlave_irr_two, h]
  change _ = (f s.slave).int
  cases (f s.slave).int <;> cases s.slave.int <;> rfl

theorem WeaklyLinked.onSlave (h : WeaklyLinked s) (f : Pic → Pic) :
    WeaklyLinked (s.onSlave f) := by
  intro hirr
  rw [onSlave_irr_two] at hirr
  change (f s.slave).int = true
  cases hf : (f s.slave).int
  · rw [hf] at hirr
    cases hs : s.slave.int
    · rw [hs] at hirr
      exact absurd (h hirr) (by rw [hs]; decide)
    · rw [hs] at hirr
      cases hirr
  · rfl

/-- What the slave no longer puts out is not latched any more. -/
theorem WeaklyLinked.linked (h : WeaklyLinked s) (hf : (f s.slave).int = false) :
    Linked (s.onSlave f) := by
  have hirr := h.onSlave f
  have hint : (s.onSlave f).slave.int = false := hf
  unfold Linked
  rw [hint]
  exact Bool.eq_false_iff.2 fun htrue => by rw [hirr htrue] at hint; cases hint

end

/-! ## Requests -/

/-- Something that happens to one request of a chip, which it sets to `v`. -/
structure Latches (f : Fin 8 → Pic → Pic) (v : Bool) : Prop where
  only : ∀ i p, f i p = { p with irr := (f i p).irr }
  irr : ∀ i p (j : Fin 8), (f i p).irr.getLsbD j.val = if j = i then v else p.irr.getLsbD j.val

theorem latches_request : Latches Pic.request true where
  only _ _ := rfl
  irr i p j := by
    rw [Pic.request, Pic.getLsbD_or_bit]
    by_cases h : j = i <;> simp [h]

theorem latches_withdraw : Latches Pic.withdraw false where
  only _ _ := rfl
  irr i p j := by
    rw [Pic.withdraw, Pic.getLsbD_and_not_bit]
    by_cases h : j = i <;> simp [h]

/-- Only requests differ. -/
structure RequestsOnly (s s' : Pics) : Prop where
  master : s'.master = { s.master with irr := s'.master.irr }
  slave : s'.slave = { s.slave with irr := s'.slave.irr }

section

variable {s s' : Pics}

theorem RequestsOnly.masked (h : RequestsOnly s s') : s'.masked = s.masked := by
  unfold Pics.masked
  rw [h.master, h.slave]

theorem RequestsOnly.isr (h : RequestsOnly s s') :
    s'.master.isr = s.master.isr ∧ s'.slave.isr = s.slave.isr :=
  ⟨by rw [h.master], by rw [h.slave]⟩

theorem RequestsOnly.offset (h : RequestsOnly s s') :
    s'.master.offset = s.master.offset ∧ s'.slave.offset = s.slave.offset :=
  ⟨by rw [h.master], by rw [h.slave]⟩

theorem pending_masterLine (s : Pics) (i : Fin 8) :
    s.pending (masterLine i) = s.master.irr.getLsbD i.val := if_pos i.isLt

theorem pending_slaveLine (s : Pics) (j : Fin 8) :
    s.pending (slaveLine j) = s.slave.irr.getLsbD j.val := by
  have hnot : ¬ (slaveLine j).val < 8 := Nat.not_lt.2 (Nat.le_add_right 8 j.val)
  have hsub : (slaveLine j).val - 8 = j.val := Nat.add_sub_cancel_left 8 j.val
  rw [pending, if_neg hnot, hsub]

theorem masked_masterLine (s : Pics) (i : Fin 8) :
    s.masked (masterLine i) = s.master.imr.getLsbD i.val := if_pos i.isLt

theorem masked_slaveLine (s : Pics) (j : Fin 8) : s.masked (slaveLine j) =
    (s.slave.imr.getLsbD j.val || s.master.imr.getLsbD 2) := by
  have hnot : ¬ (slaveLine j).val < 8 := Nat.not_lt.2 (Nat.le_add_right 8 j.val)
  have hsub : (slaveLine j).val - 8 = j.val := Nat.add_sub_cancel_left 8 j.val
  rw [masked, if_neg hnot, hsub]

theorem onLine_masterLine (f : Fin 8 → Pic → Pic) (i : Fin 8) (s : Pics) :
    s.onLine f (masterLine i) = { s with master := f i s.master } := dif_pos i.isLt

theorem onLine_slaveLine (f : Fin 8 → Pic → Pic) (j : Fin 8) (s : Pics) :
    s.onLine f (slaveLine j) = s.onSlave (f j) := by
  have hnot : ¬ (slaveLine j).val < 8 := Nat.not_lt.2 (Nat.le_add_right 8 j.val)
  have hsub : (⟨(slaveLine j).val - 8, by omega⟩ : Fin 8) = j :=
    Fin.ext (Nat.add_sub_cancel_left 8 j.val)
  rw [onLine, dif_neg hnot, hsub]

theorem masterLine_inj {i j : Fin 8} : masterLine i = masterLine j ↔ i = j :=
  ⟨fun h => Fin.ext (Fin.mk.inj h), fun h => h ▸ rfl⟩

theorem slaveLine_inj {i j : Fin 8} : slaveLine i = slaveLine j ↔ i = j :=
  ⟨fun h => Fin.ext (Nat.add_left_cancel (Fin.mk.inj h)), fun h => h ▸ rfl⟩

theorem masterLine_ne_slaveLine (i j : Fin 8) : masterLine i ≠ slaveLine j := fun h => by
  have hval : i.val = 8 + j.val := congrArg Fin.val h
  omega

variable {f : Fin 8 → Pic → Pic} {v : Bool} {n : Fin 16}

/-- **A request comes or goes**: that line's latch, and no other. -/
theorem onLine_pending (hf : Latches f v) {m : Fin 16} (hm : m ≠ 2) :
    (s.onLine f n).pending m = if m = n then v else s.pending m := by
  rcases line_cases n with ⟨i, rfl⟩ | ⟨i, rfl⟩ <;> rcases line_cases m with ⟨j, rfl⟩ | ⟨j, rfl⟩
  · rw [onLine_masterLine, pending_masterLine, hf.irr]
    simp only [masterLine_inj, pending_masterLine]
  · rw [onLine_masterLine, pending_slaveLine, if_neg (masterLine_ne_slaveLine i j).symm,
      pending_slaveLine]
  · have hj : j ≠ 2 := fun h => hm (h ▸ rfl)
    rw [onLine_slaveLine, pending_masterLine, if_neg (masterLine_ne_slaveLine j i),
      pending_masterLine]
    exact (onSlave_master _ s).2 j hj
  · rw [onLine_slaveLine, pending_slaveLine]
    simp only [slaveLine_inj, pending_slaveLine]
    exact hf.irr i s.slave j

theorem onLine_requestsOnly (hf : Latches f v) (s : Pics) (n : Fin 16) :
    RequestsOnly s (s.onLine f n) := by
  rcases line_cases n with ⟨i, rfl⟩ | ⟨i, rfl⟩
  · rw [onLine_masterLine]
    exact ⟨hf.only i s.master, rfl⟩
  · rw [onLine_slaveLine]
    exact ⟨(onSlave_master _ s).1, hf.only i s.slave⟩

theorem Linked.onLine (h : Linked s) (hf : Latches f v) (hn : n ≠ 2) : Linked (s.onLine f n) := by
  rcases line_cases n with ⟨i, rfl⟩ | ⟨i, rfl⟩
  · have hi : i ≠ 2 := fun h => hn (h ▸ rfl)
    rw [onLine_masterLine]
    exact ((hf.irr i s.master 2).trans (if_neg hi.symm)).trans h
  · rw [onLine_slaveLine]
    exact h.onSlave _

theorem WeaklyLinked.onLine (h : WeaklyLinked s) (hf : Latches f v) (hn : n ≠ 2) :
    WeaklyLinked (s.onLine f n) := by
  rcases line_cases n with ⟨i, rfl⟩ | ⟨i, rfl⟩
  · have hi : i ≠ 2 := fun h => hn (h ▸ rfl)
    rw [onLine_masterLine]
    exact fun hirr => h (((hf.irr i s.master 2).trans (if_neg hi.symm)).symm.trans hirr)
  · rw [onLine_slaveLine]
    exact h.onSlave _

end

end Pics

/-! ## What there is to serve -/

namespace Board

/-- The board's latches are the chips', and its mask theirs. -/
structure SameLines (masked : Fin 16 → Bool) (s : Pics) (t : Board) : Prop where
  pending : ∀ n, n ≠ 2 → t.pending n = s.pending n
  masked : masked = s.masked

/-- Nothing is in service. -/
def Clear (s : Pics) : Prop := s.master.isr = 0 ∧ s.slave.isr = 0

variable {masked : Fin 16 → Bool} {s : Pics} {t : Board}

theorem SameLines.wants_masterLine (h : SameLines masked s t) {i : Fin 8} (hi : i ≠ 2) :
    t.wants masked (masterLine i) = s.master.requested i := by
  have hne : masterLine i ≠ 2 := fun heq => hi (Pics.masterLine_inj.1 heq)
  rw [wants, h.pending _ hne, h.masked, Pics.pending_masterLine, Pics.masked_masterLine,
    Pic.requested]

theorem SameLines.wants_slaveLine (h : SameLines masked s t) (j : Fin 8) :
    t.wants masked (slaveLine j) = (s.slave.requested j && !s.master.imr.getLsbD 2) := by
  have hne : slaveLine j ≠ 2 := (Pics.masterLine_ne_slaveLine 2 j).symm
  rw [wants, h.pending _ hne, h.masked, Pics.pending_slaveLine, Pics.masked_slaveLine,
    Pic.requested, Bool.not_or, Bool.and_assoc]

theorem SameLines.find_masterLine (h : SameLines masked s t) : ∀ {l : List (Fin 8)}, 2 ∉ l →
    (l.map masterLine).find? (t.wants masked) =
      (l.find? s.master.requested).map masterLine := by
  intro l
  induction l with
  | nil => exact fun _ => rfl
  | cons i l ih =>
    intro hl
    obtain ⟨hi, hl⟩ := not_or.1 fun hor => hl (List.mem_cons.2 hor)
    rw [List.map_cons, List.find?_cons, List.find?_cons, h.wants_masterLine (Ne.symm hi)]
    cases s.master.requested i
    · exact ih hl
    · rfl

theorem SameLines.find_slaveLine (h : SameLines masked s t) (hs : s.slave.isr = 0)
    (hm : s.master.imr.getLsbD 2 = false) :
    (Fin.find? fun j => t.wants masked (slaveLine j)) = s.slave.next := by
  rw [Pic.next_of_isr_zero hs]
  refine congrArg Fin.find? (funext fun j => ?_)
  rw [h.wants_slaveLine, hm, Bool.not_false, Bool.and_true]

/-- What the pair asks for, in the board's terms. -/
def asked : Option (Fin 8) → Choice
  | none => .nothing
  | some i => if i = 2 then .slave else .line i

theorem group_masterLine (o : Option (Fin 8)) (ho : o ≠ some 2) :
    group (o.map masterLine) = asked o := by
  cases o with
  | none => rfl
  | some i =>
    have hi : i ≠ 2 := fun h => ho (congrArg some h)
    exact (dif_pos i.isLt).trans (if_neg hi).symm

theorem group_slaveLine (j : Fin 8) : group (some (slaveLine j)) = .slave :=
  dif_neg (Nat.not_lt.2 (Nat.le_add_right 8 j.val))

/-- **The board's choice is the master's**, when nothing is in service. -/
theorem SameLines.choice_eq (h : SameLines masked s t) (hc : Clear s) (hl : s.Linked) :
    t.choice masked = asked s.master.next := by
  have horder : order = [0, 1].map masterLine ++ ((List.finRange 8).map slaveLine ++
    [3, 4, 5, 6, 7].map masterLine) := rfl
  have hrange : List.finRange 8 = [0, 1] ++ ([2] ++ [3, 4, 5, 6, 7]) := rfl
  have hnot : ∀ {l : List (Fin 8)}, 2 ∉ l → l.find? s.master.requested ≠ some 2 :=
    fun hl hsome => hl (List.mem_of_find?_eq_some hsome)
  have htwo : s.master.requested 2 = (s.slave.int && !s.master.imr.getLsbD 2) :=
    congrArg (· && !s.master.imr.getLsbD 2) hl
  rw [Pic.next_of_isr_zero hc.1, Fin.find?_eq_find?_finRange, choice, horder, List.find?_append,
    List.find?_append, h.find_masterLine (by decide), h.find_masterLine (by decide)]
  conv_rhs => rw [hrange, List.find?_append, List.find?_append]
  cases hfirst : [0, 1].find? s.master.requested with
  | some i =>
    rw [Option.map_some, Option.some_or, Option.some_or]
    exact group_masterLine (some i) fun h2 => hnot (by decide) (hfirst.trans h2)
  | none =>
    rw [Option.map_none, Option.none_or, Option.none_or]
    have hslave : ((List.finRange 8).map slaveLine).find? (t.wants masked) =
        if s.master.imr.getLsbD 2 then none else s.slave.next.map slaveLine := by
      rw [List.find?_map, ← Fin.find?_eq_find?_finRange]
      cases hmask : s.master.imr.getLsbD 2
      · exact congrArg (Option.map slaveLine) (h.find_slaveLine hc.2 hmask)
      · have hnone : (Fin.find? (t.wants masked ∘ slaveLine)) = none := by
          refine Fin.find?_eq_none_iff.2 fun j => ?_
          rw [Function.comp, h.wants_slaveLine, hmask, Bool.not_true, Bool.and_false]
        rw [hnone]
        rfl
    -- input 2 of the master against the eight lines behind it
    have hinput : [2].find? s.master.requested =
        if s.slave.int && !s.master.imr.getLsbD 2 then some 2 else none := by
      rw [List.find?_singleton, htwo]
    rw [hslave, hinput, Pic.int]
    cases s.master.imr.getLsbD 2 <;> cases s.slave.next
    · exact group_masterLine _ (hnot (by decide))
    · exact group_slaveLine _
    · exact group_masterLine _ (hnot (by decide))
    · exact group_masterLine _ (hnot (by decide))

end Board

/-! ## What is in service -/

open Board (Clear SameLines)

/-- The bytes that are still to be written end what is in service. -/
inductive Ends (s : Pics) : List (U16 × U8) → Prop where
  | done (h : Clear s) : Ends s []
  | master (hm : s.master.isr = 0 ∨ ∃ i, s.master.isr = Pic.bit i) (hs : s.slave.isr = 0) :
    Ends s [(PIC1_COMMAND, PIC_EOI)]
  | both (hm : s.master.isr = Pic.bit 2) (hs : s.slave.isr = 0 ∨ ∃ j, s.slave.isr = Pic.bit j) :
    Ends s [(PIC2_COMMAND, PIC_EOI), (PIC1_COMMAND, PIC_EOI)]

/-- How far the interrupt has got, and what is in service then. -/
def StageAgrees (s : Pics) : BusPhase → Stage → Prop
  | .idle, .idle => s.Linked ∧ Clear s
  | .acking, .acking => s.Linked ∧ Clear s
  | .acked none, .chosen .nothing => s.Linked ∧ Clear s
  | .acked (some i), .chosen (.line j) =>
    i = j ∧ i ≠ 2 ∧ s.Linked ∧ s.master.isr = Pic.bit i ∧ s.slave.isr = 0
  | .acked (some i), .chosen .slave =>
    i = 2 ∧ s.WeaklyLinked ∧ s.master.isr = Pic.bit 2 ∧ s.slave.isr = 0 ∧
      s.master.imr.getLsbD 2 = false
  | .handling ws, .handling => s.Linked ∧ Ends s ws
  | _, _ => False

/-- The board follows the bus. -/
structure Follows (masked : Fin 16 → Bool) (b : Bus) (t : Board) : Prop where
  lines : SameLines masked b.pics t
  masterOffset : b.pics.master.offset = 32
  slaveOffset : b.pics.slave.offset = 40
  log : t.log = b.log
  stage : StageAgrees b.pics b.phase t.stage

theorem endOfInterrupt_isr {p : Pic} (h : p.isr = 0 ∨ ∃ i, p.isr = Pic.bit i) :
    p.writeCommand PIC_EOI = { p with isr := 0 } := by
  have hcommand : p.writeCommand PIC_EOI = p.endOfInterrupt := rfl
  have hfirst : ∀ i : Fin 8, (Fin.find? fun j : Fin 8 => (Pic.bit i).getLsbD j.val) = some i := by
    decide
  have hnone : (Fin.find? fun j : Fin 8 => (0 : U8).getLsbD j.val) = none := by decide
  rw [hcommand, Pic.endOfInterrupt]
  rcases h with h | ⟨i, h⟩
  · rw [h, hnone]
    dsimp only
    rw [← h]
  · rw [h, hfirst i]
    exact congrArg (fun isr => { p with isr := isr }) (BitVec.and_not_self _)

section

variable {s s' : Pics}

theorem Ends.requestsOnly {ws : List (U16 × U8)} (h : Ends s ws) (hs : Pics.RequestsOnly s s') :
    Ends s' ws := by
  obtain ⟨hm, hsl⟩ := hs.isr
  cases h with
  | done h => exact .done ⟨hm.trans h.1, hsl.trans h.2⟩
  | master hm' hs' => exact .master (by rwa [hm]) (hsl.trans hs')
  | both hm' hs' => exact .both (hm.trans hm') (by rwa [hsl])

/-- Requests come and go at any time. -/
theorem StageAgrees.onLine {p : BusPhase} {g : Stage} (h : StageAgrees s p g)
    {f : Fin 8 → Pic → Pic} {v : Bool} (hf : Pics.Latches f v) {n : Fin 16} (hn : n ≠ 2) :
    StageAgrees (s.onLine f n) p g := by
  have honly := Pics.onLine_requestsOnly hf s n
  obtain ⟨hm, hs⟩ := honly.isr
  have hclear : s.Linked ∧ Clear s → (s.onLine f n).Linked ∧ Clear (s.onLine f n) :=
    fun h => ⟨h.1.onLine hf hn, hm.trans h.2.1, hs.trans h.2.2⟩
  match p, g, h with
  | .idle, .idle, h => exact hclear h
  | .acking, .acking, h => exact hclear h
  | .acked none, .chosen .nothing, h => exact hclear h
  | .acked (some i), .chosen (.line j), ⟨hij, hi, hl, hmi, hsi⟩ =>
    exact ⟨hij, hi, hl.onLine hf hn, hm.trans hmi, hs.trans hsi⟩
  | .acked (some i), .chosen .slave, ⟨hi, hl, hmi, hsi, himr⟩ =>
    refine ⟨hi, hl.onLine hf hn, hm.trans hmi, hs.trans hsi, ?_⟩
    rw [honly.master]
    exact himr
  | .handling ws, .handling, ⟨hl, he⟩ => exact ⟨hl.onLine hf hn, he.requestsOnly honly⟩

end

variable {masked : Fin 16 → Bool} {b b' : Bus} {t : Board}

theorem Follows.requestsOnly (h : Follows masked b t) {pics : Pics}
    (hs : Pics.RequestsOnly b.pics pics) {pending : Fin 16 → Bool}
    (hp : ∀ n, n ≠ 2 → pending n = pics.pending n) (hst : StageAgrees pics b.phase t.stage) :
    Follows masked { b with pics := pics } { t with pending := pending } :=
  ⟨⟨hp, h.lines.masked.trans hs.masked.symm⟩, hs.offset.1.trans h.masterOffset,
    hs.offset.2.trans h.slaveOffset, h.log, hst⟩

/-- The bus and the board go on to a next stage. -/
theorem Follows.onward (h : Follows masked b t) {p : BusPhase} {g : Stage}
    (hst : StageAgrees b.pics p g) : Follows masked { b with phase := p } { t with stage := g } :=
  ⟨⟨h.lines.pending, h.lines.masked⟩, h.masterOffset, h.slaveOffset, h.log, hst⟩

/-- A device's part. -/
theorem follows_request (h : Follows masked b t) {n : Fin 16} (hn : n ≠ 2) :
    Follows masked { b with pics := b.pics.onLine Pic.request n }
        { t with pending := fun m => decide (m = n) || t.pending m } ∧
      Follows masked { b with pics := b.pics.onLine Pic.withdraw n } (t.clear n) := by
  refine ⟨h.requestsOnly (Pics.onLine_requestsOnly Pics.latches_request _ _) (fun m hm => ?_)
    (h.stage.onLine Pics.latches_request hn),
    h.requestsOnly (Pics.onLine_requestsOnly Pics.latches_withdraw _ _) (fun m hm => ?_)
    (h.stage.onLine Pics.latches_withdraw hn)⟩
  · rw [Pics.onLine_pending Pics.latches_request hm, h.lines.pending m hm]
    by_cases heq : m = n <;> simp [heq]
  · rw [Pics.onLine_pending Pics.latches_withdraw hm, h.lines.pending m hm]
    by_cases heq : m = n <;> simp [heq]

/-! ## The processor's part -/

/-- A chip that acknowledges the request it asked for asks for no more, until that is
done. -/
theorem acknowledge_int {p : Pic} {j : Fin 8} (hp : p.isr = 0) (h : p.next = some j) :
    (p.acknowledge j).int = false := by
  rw [Pic.next_of_isr_zero hp] at h
  obtain ⟨-, hfirst⟩ := Fin.find?_eq_some_iff.1 h
  have hisr : (p.acknowledge j).isr = p.isr ||| Pic.bit j := rfl
  have hlater : ∀ i, i < j → (p.acknowledge j).requested i = false := by
    intro i hi
    have hone := hfirst i hi
    unfold Pic.requested at hone ⊢
    rw [show (p.acknowledge j).irr = p.irr &&& ~~~Pic.bit j from rfl, Pic.getLsbD_and_not_bit,
      decide_eq_false (Fin.ne_of_lt hi), Bool.not_false, Bool.true_and]
    exact hone
  have hserved : (Fin.find? fun i : Fin 8 => (p.acknowledge j).isr.getLsbD i.val ||
      (p.acknowledge j).requested i) = some j := by
    refine Fin.find?_eq_some_iff.2 ⟨?_, fun i hi => ?_⟩
    · rw [hisr, Pic.getLsbD_or_bit, decide_eq_true rfl, Bool.true_or, Bool.true_or]
    · rw [hlater i hi, hisr, Pic.getLsbD_or_bit, decide_eq_false (Fin.ne_of_lt hi), hp]
      simp
  rw [Pic.int, Pic.next, hserved, Option.filter_some, hisr, Pic.getLsbD_or_bit, decide_eq_true rfl,
    Bool.true_or]
  rfl

/-- The processor sees a request exactly if there is a line to be served. -/
theorem follows_sample (h : Follows masked b t) (hb : b.phase = .idle)
    (hstep : busStep .sample b = some b') :
    ∃ t', boardStep masked .sample t = some t' ∧ Follows masked b' t' := by
  have hstage := h.stage
  rw [hb] at hstage
  cases ht : t.stage with
  | idle =>
    rw [ht] at hstage
    obtain ⟨hl, hc⟩ := hstage
    have hchoice := h.lines.choice_eq hc hl
    unfold busStep at hstep
    rw [hb] at hstep
    dsimp only at hstep
    split at hstep
    · rename_i hint
      have hsome : t.choice masked ≠ .nothing := by
        rw [hchoice]
        cases hnext : b.pics.master.next with
        | none =>
          rw [Pic.int, hnext] at hint
          cases hint
        | some i =>
          unfold Board.asked
          dsimp only
          split <;> exact Choice.noConfusion
      refine ⟨{ t with stage := .acking }, ?_, ?_⟩
      · unfold boardStep
        rw [ht]
        exact if_neg hsome
      · rw [← Option.some.inj hstep]
        exact h.onward (g := .acking) ⟨hl, hc⟩
    · cases hstep
  | acking => rw [ht] at hstage; exact hstage.elim
  | chosen c => rw [ht] at hstage; exact hstage.elim
  | handling => rw [ht] at hstage; exact hstage.elim

theorem acknowledge_requests (p : Pic) (i : Fin 8) (j : Fin 8) :
    (p.acknowledge i).irr.getLsbD j.val = (p.irr.getLsbD j.val && !decide (j = i)) := by
  rw [Pic.acknowledge, Pic.getLsbD_and_not_bit, Bool.and_comm]

/-- What the master acknowledges is latched no more. -/
theorem pending_acknowledge (s : Pics) (i : Fin 8) (n : Fin 16) :
    Pics.pending { s with master := s.master.acknowledge i } n =
      (s.pending n && !decide (n = masterLine i)) := by
  rcases line_cases n with ⟨j, rfl⟩ | ⟨j, rfl⟩
  · rw [Pics.pending_masterLine, acknowledge_requests, Pics.pending_masterLine]
    simp only [Pics.masterLine_inj]
  · rw [Pics.pending_slaveLine, Pics.pending_slaveLine,
      decide_eq_false (Pics.masterLine_ne_slaveLine i j).symm, Bool.not_false, Bool.and_true]

/-- The first pulse. -/
theorem follows_firstPulse (h : Follows masked b t) (hb : b.phase = .acking)
    (hstep : busStep .firstPulse b = some b') :
    ∃ t', boardStep masked .choose t = some t' ∧ Follows masked b' t' := by
  have hstage := h.stage
  rw [hb] at hstage
  cases ht : t.stage with
  | acking =>
    rw [ht] at hstage
    obtain ⟨hl, hc⟩ := hstage
    have hchoice := h.lines.choice_eq hc hl
    have hzero : ∀ i : Fin 8, b.pics.master.isr ||| Pic.bit i = Pic.bit i := fun i => by
      rw [hc.1]
      exact BitVec.zero_or
    unfold busStep at hstep
    rw [hb] at hstep
    dsimp only at hstep
    cases hnext : b.pics.master.next with
    | none =>
      rw [hnext] at hstep hchoice
      refine ⟨{ t with stage := .chosen .nothing }, ?_, ?_⟩
      · unfold boardStep
        rw [ht]
        dsimp only
        rw [hchoice]
        rfl
      · rw [← Option.some.inj hstep]
        exact h.onward (p := .acked none) (g := .chosen .nothing) ⟨hl, hc⟩
    | some i =>
      rw [hnext] at hstep hchoice
      obtain rfl := Option.some.inj hstep
      have hirr : ({ b.pics with master := b.pics.master.acknowledge i } : Pics).master.irr.getLsbD
          2 = (b.pics.master.irr.getLsbD 2 && !decide (2 = i)) :=
        acknowledge_requests b.pics.master i 2
      by_cases hi : i = 2
      · -- the slave is to give the vector
        have hreq : b.pics.master.requested i = true := by
          rw [Pic.next_of_isr_zero hc.1] at hnext
          exact (Fin.find?_eq_some_iff.1 hnext).1
        rw [hi] at hirr hreq hchoice ⊢
        refine ⟨{ t with stage := .chosen .slave }, ?_, ⟨fun n hn => ?_, h.lines.masked⟩,
          h.masterOffset, h.slaveOffset, h.log, rfl, fun htrue => ?_, hzero 2, hc.2, ?_⟩
        · unfold boardStep
          rw [ht]
          dsimp only
          rw [hchoice]
          rfl
        · rw [pending_acknowledge, decide_eq_false (show n ≠ masterLine 2 from hn), Bool.not_false,
            Bool.and_true]
          exact h.lines.pending n hn
        · rw [hirr, decide_eq_true rfl, Bool.not_true, Bool.and_false] at htrue
          cases htrue
        · change b.pics.master.imr.getLsbD 2 = false
          simpa using (Bool.and_eq_true_iff.1 hreq).2
      · refine ⟨{ t.clear (masterLine i) with stage := .chosen (.line i) }, ?_,
          ⟨fun n hn => ?_, h.lines.masked⟩, h.masterOffset, h.slaveOffset, h.log, rfl, hi, ?_,
          hzero i, hc.2⟩
        · unfold boardStep
          rw [ht]
          dsimp only
          rw [hchoice, Board.asked, if_neg hi]
        · rw [pending_acknowledge, ← h.lines.pending n hn]
          rfl
        · unfold Pics.Linked
          rw [hirr, decide_eq_false (Ne.symm hi), Bool.not_false, Bool.and_true]
          exact hl
  | idle => rw [ht] at hstage; exact hstage.elim
  | chosen c => rw [ht] at hstage; exact hstage.elim
  | handling => rw [ht] at hstage; exact hstage.elim

/-- The bytes that the handler writes, for the vectors that there are. -/
theorem interruptWrites_vector :
    (∀ i : Fin 8, interruptWrites ((32 + BitVec.ofNat 8 i.val : U8).setWidth 32) =
      [(PIC1_COMMAND, PIC_EOI)]) ∧
    (∀ j : Fin 8, interruptWrites ((40 + BitVec.ofNat 8 j.val : U8).setWidth 32) =
      [(PIC2_COMMAND, PIC_EOI), (PIC1_COMMAND, PIC_EOI)]) := by
  constructor <;> decide

/-- The second pulse. -/
theorem follows_secondPulse (h : Follows masked b t) {o : Option (Fin 8)}
    (hb : b.phase = .acked o) (hstep : busStep .secondPulse b = some b') :
    ∃ t', boardStep masked .deliver t = some t' ∧ Follows masked b' t' := by
  have hstage := h.stage
  rw [hb] at hstage
  unfold busStep at hstep
  rw [hb] at hstep
  dsimp only at hstep
  obtain rfl := Option.some.inj hstep
  obtain ⟨hmaster, hslave⟩ := interruptWrites_vector
  cases ht : t.stage with
  | chosen c =>
    rw [ht] at hstage
    have hboard : boardStep masked .deliver t = some { (t.vector masked c).2 with
        stage := .handling, log := t.log ++ [(t.vector masked c).1] } := by
      unfold boardStep
      rw [ht]
    refine ⟨_, hboard, ?_⟩
    cases c with
    | nothing =>
      cases o with
      | some i => exact hstage.elim
      | none =>
        obtain ⟨hl, hc⟩ := hstage
        have hvector : Bus.vector b.pics none = (39, b.pics) := by
          rw [Bus.vector, h.masterOffset]
          rfl
        rw [hvector, show t.vector masked .nothing = (39, t) from rfl, h.log]
        exact ⟨⟨h.lines.pending, h.lines.masked⟩, h.masterOffset, h.slaveOffset, rfl, hl,
          (hmaster 7) ▸ Ends.master (.inl hc.1) hc.2⟩
    | line j =>
      cases o with
      | none => exact hstage.elim
      | some i =>
        obtain ⟨rfl, hi, hl, hmi, hs⟩ := hstage
        have hvector : Bus.vector b.pics (some i) = (32 + BitVec.ofNat 8 i.val, b.pics) := by
          rw [Bus.vector, if_neg hi, h.masterOffset]
        rw [hvector, show t.vector masked (.line i) = (32 + BitVec.ofNat 8 i.val, t) from rfl,
          h.log]
        exact ⟨⟨h.lines.pending, h.lines.masked⟩, h.masterOffset, h.slaveOffset, rfl, hl,
          (hmaster i) ▸ Ends.master (.inr ⟨i, hmi⟩) hs⟩
    | slave =>
      cases o with
      | none => exact hstage.elim
      | some i =>
        obtain ⟨rfl, hl, hmi, hs, himr⟩ := hstage
        have hfind := h.lines.find_slaveLine hs himr
        cases hnext : b.pics.slave.next with
        | none =>
          have hvector : Bus.vector b.pics (some 2) = (47, b.pics) := by
            rw [Bus.vector, if_pos rfl, hnext, h.slaveOffset]
            rfl
          have hlinked : b.pics.Linked := by
            have hint : b.pics.slave.int = false := by rw [Pic.int, hnext]; rfl
            unfold Pics.Linked
            rw [hint]
            exact Bool.eq_false_iff.2 fun htrue => by rw [hl htrue] at hint; cases hint
          have hspurious : t.vector masked .slave = (47, t) := by
            unfold Board.vector
            dsimp only
            rw [hfind, hnext]
          rw [hvector, hspurious, h.log]
          exact ⟨⟨h.lines.pending, h.lines.masked⟩, h.masterOffset, h.slaveOffset, rfl, hlinked,
            (hslave 7) ▸ Ends.both hmi (.inl hs)⟩
        | some j =>
          have hvector : Bus.vector b.pics (some 2) =
              (40 + BitVec.ofNat 8 j.val, b.pics.onSlave (Pic.acknowledge j)) := by
            rw [Bus.vector, if_pos rfl, hnext, h.slaveOffset]
          have htaken : t.vector masked .slave =
              (40 + BitVec.ofNat 8 j.val, t.clear (slaveLine j)) := by
            unfold Board.vector
            dsimp only
            rw [hfind, hnext]
          have honly : Pics.RequestsOnly { b.pics with slave :=
              { b.pics.slave with isr := b.pics.slave.isr ||| Pic.bit j } }
              (b.pics.onSlave (Pic.acknowledge j)) := ⟨(Pics.onSlave_master _ _).1, rfl⟩
          have hslaveIsr : b.pics.slave.isr ||| Pic.bit j = Pic.bit j := by
            rw [hs]
            exact BitVec.zero_or
          rw [hvector, htaken, h.log]
          refine ⟨⟨fun n hn => ?_, h.lines.masked.trans honly.masked.symm⟩,
            honly.offset.1.trans h.masterOffset, h.slaveOffset, rfl,
            hl.linked (acknowledge_int hs hnext),
            (hslave j) ▸ Ends.both (honly.isr.1.trans hmi) (.inr ⟨j, hslaveIsr⟩)⟩
          change (t.pending n && !decide (n = slaveLine j)) = _
          rw [h.lines.pending n hn]
          rcases line_cases n with ⟨m, rfl⟩ | ⟨m, rfl⟩
          · have hm : m ≠ 2 := fun heq => hn (heq ▸ rfl)
            rw [decide_eq_false (Pics.masterLine_ne_slaveLine m j), Bool.not_false, Bool.and_true,
              Pics.pending_masterLine, Pics.pending_masterLine]
            exact ((Pics.onSlave_master _ _).2 m hm).symm
          · rw [Pics.pending_slaveLine, Pics.pending_slaveLine]
            simp only [Pics.slaveLine_inj]
            exact (acknowledge_requests b.pics.slave j m).symm
  | idle => rw [ht] at hstage; cases o <;> exact hstage.elim
  | acking => rw [ht] at hstage; cases o <;> exact hstage.elim
  | handling => rw [ht] at hstage; cases o <;> exact hstage.elim

/-! ## The kernel's part -/

/-- The handler writes a byte, which the board does not see. -/
theorem follows_write (h : Follows masked b t) {w : U16 × U8} {ws : List (U16 × U8)}
    (hb : b.phase = .handling (w :: ws)) (hstep : busStep .write b = some b') :
    Follows masked b' t := by
  have hstage := h.stage
  rw [hb] at hstage
  unfold busStep at hstep
  rw [hb] at hstep
  obtain rfl := Option.some.inj hstep
  cases ht : t.stage with
  | handling =>
    rw [ht] at hstage
    obtain ⟨hl, he⟩ := hstage
    cases he with
    | master hm hs =>
      rw [Pics.outb_pic1_command, endOfInterrupt_isr hm]
      exact ⟨⟨h.lines.pending, h.lines.masked⟩, h.masterOffset, h.slaveOffset, h.log,
        ht ▸ ⟨hl, .done ⟨rfl, hs⟩⟩⟩
    | both hm hs =>
      have hslave : (b.pics.outb (PIC2_COMMAND, PIC_EOI)).slave = { b.pics.slave with isr := 0 } :=
        endOfInterrupt_isr hs
      obtain ⟨hmaster, hirr⟩ := Pics.onSlave_master (Pic.writeCommand PIC_EOI) b.pics
      rw [← Pics.outb_pic2_command] at hmaster hirr
      refine ⟨⟨fun n hn => ?_, ?_⟩, ?_, ?_, h.log, ht ▸ ⟨hl.onSlave _, .master (.inr ⟨2, ?_⟩) ?_⟩⟩
      · rw [h.lines.pending n hn]
        rcases line_cases n with ⟨i, rfl⟩ | ⟨j, rfl⟩
        · have hi : i ≠ 2 := fun heq => hn (heq ▸ rfl)
          rw [Pics.pending_masterLine, Pics.pending_masterLine]
          exact (hirr i hi).symm
        · rw [Pics.pending_slaveLine, Pics.pending_slaveLine, hslave]
      · rw [h.lines.masked]
        unfold Pics.masked
        rw [hmaster, hslave]
      · rw [hmaster]
        exact h.masterOffset
      · rw [hslave]
        exact h.slaveOffset
      · rw [hmaster]
        exact hm
      · exact congrArg Pic.isr hslave
  | idle => rw [ht] at hstage; exact hstage.elim
  | acking => rw [ht] at hstage; exact hstage.elim
  | chosen c => rw [ht] at hstage; exact hstage.elim

/-- The handler returns. -/
theorem follows_iret (h : Follows masked b t) (hb : b.phase = .handling [])
    (hstep : busStep .iret b = some b') :
    ∃ t', boardStep masked .finish t = some t' ∧ Follows masked b' t' := by
  have hstage := h.stage
  rw [hb] at hstage
  unfold busStep at hstep
  rw [hb] at hstep
  obtain rfl := Option.some.inj hstep
  cases ht : t.stage with
  | handling =>
    rw [ht] at hstage
    obtain ⟨hl, he⟩ := hstage
    cases he with
    | done hc =>
      refine ⟨{ t with stage := .idle }, ?_, h.onward (p := .idle) (g := .idle) ⟨hl, hc⟩⟩
      unfold boardStep
      rw [ht]
  | idle => rw [ht] at hstage; exact hstage.elim
  | acking => rw [ht] at hstage; exact hstage.elim
  | chosen c => rw [ht] at hstage; exact hstage.elim

/-! ## Runs -/

/-- Where each step can happen. -/
theorem busStep_phase {l : BusLabel} (hstep : busStep l b = some b') : match l with
    | .raise n | .lower n => n ≠ 2
    | .sample => b.phase = .idle
    | .firstPulse => b.phase = .acking
    | .secondPulse => ∃ o, b.phase = .acked o
    | .write => ∃ w ws, b.phase = .handling (w :: ws)
    | .iret => b.phase = .handling [] := by
  cases l with
  | raise n => exact fun hn => by rw [busStep, if_pos hn] at hstep; cases hstep
  | lower n => exact fun hn => by rw [busStep, if_pos hn] at hstep; cases hstep
  | sample | firstPulse | secondPulse =>
    cases hb : b.phase with
    | handling ws => cases ws <;> · unfold busStep at hstep; rw [hb] at hstep; cases hstep
    | _ => first
      | exact rfl
      | exact ⟨_, rfl⟩
      | unfold busStep at hstep; rw [hb] at hstep; cases hstep
  | write | iret =>
    cases hb : b.phase with
    | handling ws =>
      cases ws <;> first
        | exact rfl
        | exact ⟨_, _, rfl⟩
        | unfold busStep at hstep; rw [hb] at hstep; cases hstep
    | _ => unfold busStep at hstep; rw [hb] at hstep; cases hstep

/-- One step of the bus. -/
theorem follows_step (l : BusLabel) (b : Bus) (t : Board) (b' : Bus) (h : Follows masked b t)
    (hstep : busStep l b = some b') :
    Steps.Answers (boardStep masked) (Follows masked) b' t l.seen := by
  have hphase := busStep_phase hstep
  cases l with
  | raise n =>
    have hn : n ≠ 2 := hphase
    rw [busStep, if_neg hn] at hstep
    exact ⟨_, if_neg hn, Option.some.inj hstep ▸ (follows_request h hn).1⟩
  | lower n =>
    have hn : n ≠ 2 := hphase
    rw [busStep, if_neg hn] at hstep
    exact ⟨_, if_neg hn, Option.some.inj hstep ▸ (follows_request h hn).2⟩
  | sample => exact follows_sample h hphase hstep
  | firstPulse => exact follows_firstPulse h hphase hstep
  | secondPulse => exact hphase.elim fun _ hb => follows_secondPulse h hb hstep
  | write => exact hphase.elim fun _ hw => hw.elim fun _ hb => follows_write h hb hstep
  | iret => exact follows_iret h hphase hstep

/-- The bus when `kmain` has set the controllers up. -/
def Bus.remapped (s : Pics) : Bus := ⟨picRemap 32 40 s, .idle, []⟩

/-- The board then: nothing has been requested. -/
def Board.quiet : Board := ⟨fun _ => false, .idle, []⟩

theorem follows_remapped {s : Pics} (hs : Clear s) :
    Follows (picRemap 32 40 s).masked (Bus.remapped s) Board.quiet := by
  have hpics : (Bus.remapped s).pics = ⟨s.master.remapped 32 4, s.slave.remapped 40 2⟩ :=
    picRemap_remapped 32 40 s
  have hirr : ∀ i, (0 : U8).getLsbD i = false := fun i => BitVec.getLsbD_zero
  refine ⟨⟨fun n hn => ?_, rfl⟩, ?_, ?_, rfl, ?_, ?_⟩
  · rw [hpics]
    rcases line_cases n with ⟨i, rfl⟩ | ⟨j, rfl⟩
    · rw [Pics.pending_masterLine]
      exact (hirr _).symm
    · rw [Pics.pending_slaveLine]
      exact (hirr _).symm
  · rw [hpics]
    rfl
  · rw [hpics]
    rfl
  · rw [hpics]
    exact (hirr 2).trans (Pic.int_of_irr_zero rfl).symm
  · rw [hpics]
    exact hs

/-- **Every run of the bus is a run of the board.** -/
theorem bus_follows {s : Pics} {ls : List BusLabel} {b : Bus} (hs : Clear s)
    (hrun : busStep.run ls (Bus.remapped s) = some b) :
    ∃ t, (boardStep (picRemap 32 40 s).masked).run (ls.filterMap BusLabel.seen) Board.quiet =
        some t ∧ t.log = b.log ∧ (b.phase = .idle → Clear b.pics ∧ t.stage = .idle ∧
        ∀ n, n ≠ 2 → b.pics.pending n = t.pending n) := by
  obtain ⟨t, ht, hf⟩ : ∃ t, (boardStep (picRemap 32 40 s).masked).run
      (ls.filterMap BusLabel.seen) Board.quiet = some t ∧ Follows _ b t :=
    Steps.run_simulation BusLabel.seen follows_step (follows_remapped hs) hrun
  refine ⟨t, ht, hf.log, fun hidle => ?_⟩
  have hstage := hf.stage
  rw [hidle] at hstage
  cases hst : t.stage <;> rw [hst] at hstage
  · exact ⟨hstage.2, rfl, fun n hn => (hf.lines.pending n hn).symm⟩
  all_goals exact hstage.elim

/-- The controllers as they are found, with lines 6 and 14 masked. -/
def samplePics : Pics where
  master := ⟨0x01, 0, 0x40, 8, 4, 1, .ready, false, true⟩
  slave := ⟨0, 0, 0x40, 112, 2, 1, .ready, false, true⟩

theorem samplePics_clear : Clear samplePics := ⟨rfl, rfl⟩

/-- A key and the clock, of which the clock is served. -/
def sampleLabels : List BusLabel :=
  [.raise 1, .raise 0, .sample, .firstPulse, .secondPulse, .write, .iret]

theorem bus_follows_sample :
    ∃ b t, busStep.run sampleLabels (Bus.remapped samplePics) = some b ∧
      (boardStep (picRemap 32 40 samplePics).masked).run (sampleLabels.filterMap BusLabel.seen)
        Board.quiet = some t ∧ t.log = b.log := by
  obtain ⟨b, hb⟩ := Option.isSome_iff_exists.1
    (show (busStep.run sampleLabels (Bus.remapped samplePics)).isSome = true by decide +kernel)
  obtain ⟨t, ht, hlog, -⟩ := bus_follows samplePics_clear hb
  exact ⟨b, t, hb, ht, hlog⟩

/-! ## Serving what there is -/

/-- A step that is not a device's. -/
def BusLabel.own : BusLabel → Bool
  | raise _ | lower _ => false
  | _ => true

/-- The vector of a line. -/
def lineVector (n : Fin 16) : U8 := 32 + BitVec.ofNat 8 n.val

/-- The lines that are to be served, from the highest priority down. -/
def Bus.wanted (b : Bus) : List (Fin 16) :=
  Board.order.filter fun n => b.pics.pending n && !b.pics.masked n

/-- The first of the slave's lines, if no line of higher priority is to be served. -/
theorem find_slaveLine {n : Fin 16} {j : Fin 8} (hn : Board.order.find? (t.wants masked) = some n)
    (hj : n = slaveLine j) : (Fin.find? fun j => t.wants masked (slaveLine j)) = some j := by
  have horder : Board.order = [0, 1].map masterLine ++ ((List.finRange 8).map slaveLine ++
    [3, 4, 5, 6, 7].map masterLine) := rfl
  have hmaster : ∀ l : List (Fin 8), (l.map masterLine).find? (t.wants masked) ≠
      some (slaveLine j) := fun l hsome => by
    obtain ⟨i, -, hi⟩ := List.mem_map.1 (List.mem_of_find?_eq_some hsome)
    exact Pics.masterLine_ne_slaveLine i j hi
  rw [horder, List.find?_append, List.find?_append, hj] at hn
  cases hfirst : ([0, 1].map masterLine).find? (t.wants masked) with
  | some m =>
    rw [hfirst, Option.some_or] at hn
    exact absurd (hfirst.trans hn) (hmaster _)
  | none =>
    rw [hfirst, Option.none_or] at hn
    cases hsecond : ((List.finRange 8).map slaveLine).find? (t.wants masked) with
    | none =>
      rw [hsecond, Option.none_or] at hn
      exact absurd hn (hmaster _)
    | some m =>
      rw [hsecond, Option.some_or] at hn
      obtain rfl := Option.some.inj hn
      rw [List.find?_map, ← Fin.find?_eq_find?_finRange, Option.map_eq_some_iff] at hsecond
      obtain ⟨k, hk, heq⟩ := hsecond
      exact Pics.slaveLine_inj.1 heq ▸ hk

/-- The board takes the highest line, and no other. -/
theorem board_round {n : Fin 16} (ht : t.stage = .idle)
    (hn : Board.order.find? (t.wants masked) = some n) :
    (boardStep masked).run [.sample, .choose, .deliver, .finish] t =
      some { t.clear n with log := t.log ++ [lineVector n] } := by
  obtain ⟨pending, stage, log⟩ := t
  obtain rfl : stage = .idle := ht
  have hchoice : ∀ g : Stage, Board.choice masked ⟨pending, g, log⟩ = Board.group (some n) :=
    fun _ => congrArg Board.group hn
  rcases line_cases n with ⟨i, hi⟩ | ⟨j, hj⟩
  · have hgroup : Board.group (some n) = .line i := hi ▸ dif_pos i.isLt
    have hsample : boardStep masked .sample ⟨pending, .idle, log⟩ = some ⟨pending, .acking, log⟩ :=
      if_neg (by rw [hchoice, hgroup]; exact Choice.noConfusion)
    have hchoose : boardStep masked .choose ⟨pending, .acking, log⟩ =
        some { Board.clear ⟨pending, .acking, log⟩ n with stage := .chosen (.line i) } := by
      unfold boardStep
      dsimp only
      rw [hchoice, hgroup, hi]
    have hvector : lineVector n = 32 + BitVec.ofNat 8 i.val := hi ▸ rfl
    rw [Steps.run, hsample, Option.bind_some, Steps.run, hchoose, Option.bind_some, hvector]
    rfl
  · have hgroup : Board.group (some n) = .slave := hj ▸ Board.group_slaveLine j
    have hsample : boardStep masked .sample ⟨pending, .idle, log⟩ = some ⟨pending, .acking, log⟩ :=
      if_neg (by rw [hchoice, hgroup]; exact Choice.noConfusion)
    have hchoose : boardStep masked .choose ⟨pending, .acking, log⟩ =
        some ⟨pending, .chosen .slave, log⟩ := by
      unfold boardStep
      dsimp only
      rw [hchoice, hgroup]
    have hfind : (Fin.find? fun j => Board.wants masked ⟨pending, .chosen .slave, log⟩
        (slaveLine j)) = some j := find_slaveLine hn hj
    have hvector : Board.vector masked ⟨pending, .chosen .slave, log⟩ .slave =
        (lineVector n, Board.clear ⟨pending, .chosen .slave, log⟩ n) := by
      have hsum : ∀ j : Fin 8, lineVector (slaveLine j) = 40 + BitVec.ofNat 8 j.val := by decide
      rw [Board.vector, hfind, hj, hsum j]
    rw [Steps.run, hsample, Option.bind_some, Steps.run, hchoose, Option.bind_some, Steps.run]
    unfold boardStep
    dsimp only
    rw [hvector]
    rfl

/-- The handler writes what it has to. -/
theorem run_writes : ∀ {ws : List (U16 × U8)} {b : Bus}, b.phase = .handling ws →
    ∃ b', busStep.run (List.replicate ws.length .write) b = some b' ∧ b'.phase = .handling [] := by
  intro ws
  induction ws with
  | nil => exact fun {b} hb => ⟨b, rfl, hb⟩
  | cons w ws ih =>
    intro b hb
    obtain ⟨b', hrun, hb'⟩ := ih (b := { b with pics := b.pics.outb w, phase := .handling ws }) rfl
    refine ⟨b', ?_, hb'⟩
    have hstep : busStep .write b =
        some { b with pics := b.pics.outb w, phase := .handling ws } := by
      unfold busStep
      rw [hb]
    rw [List.length_cons, List.replicate_succ, Steps.run, hstep]
    exact hrun

/-- An interrupt, from the request to the return. -/
theorem bus_round (hb : b.phase = .idle) (hint : b.pics.master.int = true) :
    ∃ ks b', (∀ k ∈ ks, k.own = true) ∧
      ks.filterMap BusLabel.seen = [.sample, .choose, .deliver, .finish] ∧
      busStep.run ks b = some b' ∧ b'.phase = .idle := by
  obtain ⟨pics, phase, log⟩ := b
  obtain rfl : phase = .idle := hb
  have hsample : busStep .sample ⟨pics, .idle, log⟩ = some ⟨pics, .acking, log⟩ := if_pos hint
  obtain ⟨s, o, hfirst⟩ : ∃ s o, busStep .firstPulse ⟨pics, .acking, log⟩ =
      some ⟨s, .acked o, log⟩ := by
    unfold busStep
    dsimp only
    split
    · exact ⟨_, _, rfl⟩
    · exact ⟨_, _, rfl⟩
  obtain ⟨b₁, ws, hsecond, hws⟩ : ∃ b₁ ws, busStep .secondPulse ⟨s, .acked o, log⟩ = some b₁ ∧
      b₁.phase = .handling ws := ⟨_, _, rfl, rfl⟩
  obtain ⟨b₂, hwrites, hb₂⟩ := run_writes hws
  have hiret : busStep .iret b₂ = some { b₂ with phase := .idle } := by
    unfold busStep
    rw [hb₂]
  refine ⟨.sample :: .firstPulse :: .secondPulse ::
    (List.replicate ws.length .write ++ [.iret]), { b₂ with phase := .idle }, ?_, ?_, ?_, rfl⟩
  · intro k hk
    simp only [List.mem_cons, List.mem_append, List.mem_replicate, List.not_mem_nil, or_false]
      at hk
    rcases hk with rfl | rfl | rfl | ⟨-, rfl⟩ | rfl <;> rfl
  · have hhidden : (List.replicate ws.length BusLabel.write).filterMap BusLabel.seen = [] :=
      List.filterMap_eq_nil_iff.2 fun k hk => (List.mem_replicate.1 hk).2 ▸ rfl
    simp only [List.filterMap_cons, List.filterMap_append, hhidden]
    rfl
  · rw [Steps.run, hsample, Option.bind_some, Steps.run, hfirst, Option.bind_some, Steps.run,
      hsecond, Option.bind_some, Steps.run_append, hwrites, Option.bind_some, Steps.run, hiret]
    rfl

/-- The lines that the board wants served. -/
theorem Follows.wanted (h : Follows masked b t) :
    b.wanted = Board.order.filter (t.wants masked) := by
  have horder : ∀ n ∈ Board.order, n ≠ 2 := by decide
  refine List.filter_congr fun n hn => ?_
  rw [Board.wants, h.lines.pending n (horder n hn), h.lines.masked]

/-- The processor is asked exactly if a line is to be served. -/
theorem Follows.int_iff (h : Follows masked b t) (hb : b.phase = .idle) :
    t.stage = .idle ∧ (b.pics.master.int = true ↔ b.wanted ≠ []) := by
  have hstage := h.stage
  rw [hb] at hstage
  cases ht : t.stage with
  | idle =>
    rw [ht] at hstage
    have hchoice := h.lines.choice_eq hstage.2 hstage.1
    refine ⟨rfl, ?_⟩
    rw [h.wanted, Pic.int]
    unfold Board.choice at hchoice
    rw [← List.head?_filter] at hchoice
    cases hnext : b.pics.master.next with
    | none =>
      rw [hnext] at hchoice
      cases hw : Board.order.filter (t.wants masked) with
      | nil => simp
      | cons n l =>
        rw [hw, List.head?_cons] at hchoice
        unfold Board.group at hchoice
        dsimp only at hchoice
        split at hchoice <;> cases hchoice
    | some i =>
      rw [hnext] at hchoice
      cases hw : Board.order.filter (t.wants masked) with
      | nil =>
        rw [hw] at hchoice
        unfold Board.asked at hchoice
        dsimp only at hchoice
        split at hchoice <;> cases hchoice
      | cons n l => simp
  | acking => rw [ht] at hstage; exact hstage.elim
  | chosen c => rw [ht] at hstage; exact hstage.elim
  | handling => rw [ht] at hstage; exact hstage.elim

/-- One line after the other. -/
theorem follows_drains : ∀ {l : List (Fin 16)} {b : Bus} {t : Board}, Follows masked b t →
    b.phase = .idle → b.wanted = l →
    ∃ ks b', (∀ k ∈ ks, k.own = true) ∧ busStep.run ks b = some b' ∧ b'.phase = .idle ∧
      b'.pics.master.int = false ∧ b'.log = b.log ++ l.map lineVector := by
  intro l
  induction l with
  | nil =>
    intro b t h hb hl
    refine ⟨[], b, fun _ hk => (List.not_mem_nil hk).elim, rfl, hb, ?_, ?_⟩
    · exact Bool.eq_false_iff.2 fun hint => (h.int_iff hb).2.1 hint hl
    · rw [List.map_nil, List.append_nil]
  | cons n l ih =>
    intro b t h hb hl
    obtain ⟨ht, hint⟩ := h.int_iff hb
    have hfilter := h.wanted.symm.trans hl
    have hfind : Board.order.find? (t.wants masked) = some n := by
      rw [← List.head?_filter, hfilter]
      rfl
    obtain ⟨ks, b₁, hown, hseen, hrun, hb₁⟩ := bus_round hb (hint.2 (by rw [hl]; simp))
    obtain ⟨t₁, ht₁, h₁⟩ : ∃ t₁, (boardStep masked).run (ks.filterMap BusLabel.seen) t =
        some t₁ ∧ Follows masked b₁ t₁ := Steps.run_simulation BusLabel.seen follows_step h hrun
    rw [hseen, board_round ht hfind] at ht₁
    obtain rfl := Option.some.inj ht₁
    have hnodup : (n :: l).Nodup := hfilter ▸ List.Nodup.filter _ (by decide)
    have hrest : b₁.wanted = l := by
      have hwants : ∀ m, Board.wants masked { t.clear n with log := t.log ++ [lineVector n] } m =
          (!decide (m = n) && t.wants masked m) := fun m => by
        rw [Board.wants, Board.wants, Board.clear]
        dsimp only
        cases t.pending m <;> cases decide (m = n) <;> rfl
      rw [h₁.wanted, funext hwants, ← List.filter_filter, hfilter, List.filter_cons,
        decide_eq_true rfl]
      refine List.filter_eq_self.2 fun m hm => ?_
      have hne : m ≠ n := fun heq => (List.nodup_cons.1 hnodup).1 (heq ▸ hm)
      rw [decide_eq_false hne, Bool.not_false]
    obtain ⟨ks', b', hown', hrun', hb', hint', hlog⟩ := ih h₁ hb₁ hrest
    refine ⟨ks ++ ks', b', fun k hk => (List.mem_append.1 hk).elim (hown k) (hown' k), ?_, hb',
      hint', ?_⟩
    · rw [Steps.run_append, hrun]
      exact hrun'
    · have hone : b₁.log = b.log ++ [lineVector n] := by
        rw [← h₁.log, ← h.log]
      rw [hlog, hone, List.map_cons, List.append_assoc]
      rfl

/-- Of the processor's and the kernel's steps, one at most can happen. -/
theorem busStep_own {l k : BusLabel} {b b' b'' : Bus} (hl : l.own = true) (hk : k.own = true)
    (hstep : busStep l b = some b') (hstep' : busStep k b = some b'') : l = k := by
  have hone := busStep_phase hstep
  have hother := busStep_phase hstep'
  cases hb : b.phase with
  | handling ws =>
    cases ws <;> cases l <;> cases k <;> simp_all [BusLabel.own]
  | _ => cases l <;> cases k <;> simp_all [BusLabel.own]

/-- **When the devices are quiet**, every line that is to be served is served once, the
highest first: nothing else can happen. -/
theorem bus_drains {s : Pics} {ls : List BusLabel} {b : Bus} (hs : Clear s)
    (hrun : busStep.run ls (Bus.remapped s) = some b) (hb : b.phase = .idle) :
    ∃ ks b', (∀ k ∈ ks, k.own = true) ∧ busStep.run ks b = some b' ∧ b'.phase = .idle ∧
      b'.log = b.log ++ b.wanted.map lineVector ∧
      ∀ js c, (∀ j ∈ js, j.own = true) → busStep.run js b = some c → js <+: ks := by
  obtain ⟨t, -, h⟩ : ∃ t, (boardStep (picRemap 32 40 s).masked).run
      (ls.filterMap BusLabel.seen) Board.quiet = some t ∧ Follows _ b t :=
    Steps.run_simulation BusLabel.seen follows_step (follows_remapped hs) hrun
  obtain ⟨ks, b', hown, hks, hb', hint, hlog⟩ := follows_drains h hb rfl
  have hend : ∀ l : BusLabel, l.own = true → busStep l b' = none := by
    intro l hl
    cases hstep : busStep l b' with
    | none => rfl
    | some c =>
      have hphase := busStep_phase hstep
      rw [hb'] at hphase
      cases l with
      | sample =>
        unfold busStep at hstep
        rw [hb'] at hstep
        dsimp only at hstep
        rw [hint] at hstep
        cases hstep
      | raise n => cases hl
      | lower n => cases hl
      | firstPulse => cases hphase
      | secondPulse => obtain ⟨_, h⟩ := hphase; cases h
      | write => obtain ⟨_, _, h⟩ := hphase; cases h
      | iret => cases hphase
  exact ⟨ks, b', hown, hks, hb', hlog, fun js c hjs hrun' =>
    @Steps.run_prefix _ _ busStep (fun l => l.own = true) busStep_own b' hend _ _ _ _ hown hks hjs
      hrun'⟩

/-- Lines 3, 9 and 12 are served, line 14 is masked. -/
theorem bus_drains_sample :
    ∃ b ks b', busStep.run [.raise 12, .raise 3, .raise 14, .raise 9] (Bus.remapped samplePics) =
        some b ∧ busStep.run ks b = some b' ∧ b'.phase = .idle ∧ b'.log = [41, 44, 35] := by
  have hrun : (busStep.run [.raise 12, .raise 3, .raise 14, .raise 9]
      (Bus.remapped samplePics)).map (fun b => (b.phase, b.log, b.wanted)) =
      some (.idle, [], [9, 12, 3]) := by decide +kernel
  obtain ⟨b, hb, hfields⟩ := Option.map_eq_some_iff.1 hrun
  obtain ⟨hphase, hlog, hwanted⟩ : b.phase = .idle ∧ b.log = [] ∧ b.wanted = [9, 12, 3] := by
    simpa using hfields
  obtain ⟨ks, b', -, hks, hb', hlog', -⟩ := bus_drains samplePics_clear hb hphase
  refine ⟨b, ks, b', hb, hks, hb', hlog'.trans ?_⟩
  rw [hlog, hwanted]
  rfl

end Frewozet
