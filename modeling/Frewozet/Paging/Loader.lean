import Frewozet.Paging.Invariant

/-!
# The tables the kernel starts with

The loader clears two frames, fills one of them with the first 4 MiB and hangs it
into the other at address 0 and at `KERNEL_VIRT_BASE`; the kernel, once it runs in
the upper half, takes the first of the two out again.

* `loaderTables`, `kernelMachine` — the code.
* `tables_loader` — the entries it leaves, all of them.
* `kernelMachine_windowed` — **what is left is the direct map**.
-/

namespace Frewozet

open Word Exec TwoLevel

/-- `rep stosd`. -/
def repStosd (m : Mem) (edi eax : U32) : Nat → Mem
  | 0 => m
  | ecx + 1 => repStosd (m.write32 edi eax) (edi + 4#32) eax ecx

/-- `.map_loop`. -/
def mapLoop (m : Mem) (edi ebx : U32) : Nat → Mem
  | 0 => m
  | ecx + 1 => mapLoop (m.write32 edi (ebx ||| 3#32)) (edi + 4#32) (ebx + 0x1000#32) ecx

/-- What the loader writes before it turns paging on: both frames cleared, the
first 4 MiB in the table, and the table at the directory entries of 0 and of
`KERNEL_VIRT_BASE`. -/
def loaderTables (m : Mem) : Mem :=
  let m := repStosd m PAGE_DIR_PHYS 0 1024
  let m := repStosd m PAGE_TABLE0_PHYS 0 1024
  let m := mapLoop m PAGE_TABLE0_PHYS 0 1024
  let m := m.write32 (PAGE_DIR_PHYS + 0 * 4) (PAGE_TABLE0_PHYS ||| 3#32)
  m.write32 (PAGE_DIR_PHYS + 768 * 4) (PAGE_TABLE0_PHYS ||| 3#32)

/-- The machine on which the kernel starts to work: the loader's tables, with the
identity map removed through the direct map. -/
def kernelMachine (phys : Mem) : Machine :=
  (pagingRemoveIdentityMap { phys := loaderTables phys }).state

/-! ## The entries -/

/-- The address of the `j`-th word of a frame. -/
def wordAddr (f : Frame) (j : Nat) : U32 := BitVec.ofNat 32 (f.val * 4096 + 4 * j)

theorem wordAddr_add (f : Frame) (j : Nat) : wordAddr f j + 4#32 = wordAddr f (j + 1) := by
  apply BitVec.eq_of_toNat_eq
  simp only [wordAddr, BitVec.toNat_add, BitVec.toNat_ofNat]
  omega

theorem tables_write_word (m : Mem) (f : Frame) {j : Nat} (hj : j < 1024) (w : U32) (f' : Frame)
    (i : Fin 1024) : tables (m.write32 (wordAddr f j) w) f' i =
      if f' = f ∧ i.val = j then w else tables m f' i := by
  have h := congrFun (congrFun (tables_write32 m f ⟨j, hj⟩ w) f') i
  rw [show wordAddr f j = entryAddr f ⟨j, hj⟩ from rfl, h, setEntry]
  simp only [Fin.ext_iff]

/-- The entries from `j + 1` on, and then the one at `j`, are those from `j` on. -/
theorem ite_from_succ {α : Type*} {p : Prop} [Decidable p] {i j : Nat} {x y z : α}
    (h : i = j → y = x) : (if p ∧ j + 1 ≤ i then x else if p ∧ i = j then y else z) =
      if p ∧ j ≤ i then x else z := by
  by_cases hp : p
  · by_cases hlt : j + 1 ≤ i
    · rw [if_pos ⟨hp, hlt⟩, if_pos ⟨hp, by omega⟩]
    · rw [if_neg fun hc => hlt hc.2]
      by_cases heq : i = j
      · rw [if_pos ⟨hp, heq⟩, if_pos ⟨hp, by omega⟩, h heq]
      · rw [if_neg fun hc => heq hc.2, if_neg fun hc => by omega]
  · rw [if_neg fun hc => hp hc.1, if_neg fun hc => hp hc.1, if_neg fun hc => hp hc.1]

theorem tables_repStosd (f : Frame) (w : U32) (f' : Frame) (i : Fin 1024) :
    ∀ (n j : Nat) (m : Mem), j + n = 1024 → tables (repStosd m (wordAddr f j) w n) f' i =
      if f' = f ∧ j ≤ i.val then w else tables m f' i := by
  have hi := i.isLt
  intro n
  induction n with
  | zero =>
    intro j m hj
    rw [repStosd, if_neg fun hc => by omega]
  | succ n ih =>
    intro j m hj
    rw [repStosd, wordAddr_add, ih (j + 1) _ (by omega), tables_write_word m f (by omega),
      ite_from_succ fun _ => rfl]

theorem tables_mapLoop (f f' : Frame) (i : Fin 1024) : ∀ (n j : Nat) (m : Mem), j + n = 1024 →
    tables (mapLoop m (wordAddr f j) (BitVec.ofNat 32 (j * 4096)) n) f' i =
      if f' = f ∧ j ≤ i.val then BitVec.ofNat 32 (i.val * 4096) ||| 3#32 else tables m f' i := by
  have hi := i.isLt
  intro n
  induction n with
  | zero =>
    intro j m hj
    rw [mapLoop, if_neg fun hc => by omega]
  | succ n ih =>
    intro j m hj
    have hnext : BitVec.ofNat 32 (j * 4096) + 0x1000#32 = BitVec.ofNat 32 ((j + 1) * 4096) := by
      rw [Nat.add_mul, Nat.one_mul, BitVec.ofNat_add]
    rw [mapLoop, wordAddr_add, hnext, ih (j + 1) _ (by omega), tables_write_word m f (by omega),
      ite_from_succ fun heq => by rw [heq]]

/-- The entries the loader leaves, in every frame. -/
theorem tables_loader (m : Mem) (f : Frame) (i : Fin 1024) : tables (loaderTables m) f i =
    if f = dirFrame ∧ (i.val = 0 ∨ i.val = 768) then 0xA003#32
    else if f = windowFrame then BitVec.ofNat 32 (i.val * 4096) ||| 3#32
    else if f = dirFrame then 0 else tables m f i := by
  have hi := i.isLt
  have hdir0 : PAGE_DIR_PHYS + 0 * 4 = wordAddr dirFrame 0 := rfl
  have hdir768 : PAGE_DIR_PHYS + 768 * 4 = wordAddr dirFrame 768 := rfl
  have hdir : PAGE_DIR_PHYS = wordAddr dirFrame 0 := rfl
  have htable : PAGE_TABLE0_PHYS = wordAddr windowFrame 0 := rfl
  have hentry : PAGE_TABLE0_PHYS ||| 3#32 = 0xA003#32 := by decide
  unfold loaderTables
  dsimp only
  rw [hentry, hdir0, hdir768, hdir, htable, tables_write_word _ dirFrame (by decide),
    tables_write_word _ dirFrame (by decide), show (0 : U32) = BitVec.ofNat 32 (0 * 4096) from rfl,
    tables_mapLoop windowFrame f i 1024 0 _ rfl, tables_repStosd windowFrame _ f i 1024 0 _ rfl,
    tables_repStosd dirFrame _ f i 1024 0 _ rfl]
  by_cases hd : f = dirFrame
  · by_cases h0 : i.val = 0
    · simp [hd, h0]
    · by_cases h768 : i.val = 768 <;> simp [hd, h0, h768]
  · have hne : windowFrame ≠ dirFrame := by decide
    by_cases hw : f = windowFrame <;> simp [hd, hw, hne]

/-! ## The direct map is what is left -/

theorem entryTarget_direct (i : Fin 1024) :
    ∃ f : Frame,
      entryTarget (BitVec.ofNat 32 (i.val * 4096) ||| 3#32) = some f ∧ f.val = i.val := by
  have hi := i.isLt
  have haddr : (BitVec.ofNat 32 (i.val * 4096)).toNat = i.val * 4096 := by
    rw [BitVec.toNat_ofNat]
    omega
  have hsum : (BitVec.ofNat 32 (i.val * 4096) ||| 3#32).toNat = i.val * 4096 + 3 := by
    rw [or_low_toNat (by omega) (by decide), haddr]
    rfl
  have hodd : ¬ (BitVec.ofNat 32 (i.val * 4096) ||| 3#32) &&& PAGE_PRESENT = 0 := by
    rw [present_iff, hsum]
    omega
  refine ⟨_, if_neg hodd, ?_⟩
  change (BitVec.ofNat 32 (i.val * 4096) ||| 3#32).toNat / 4096 = i.val
  rw [hsum]
  omega

/-- With the identity entry still there the directory is reached all the same. -/
theorem mmu_loader (m : Mem) :
    mmu (loaderTables m) pagingGetPageDirectory = some PAGE_DIR_PHYS := by
  obtain ⟨f, hf, hval⟩ := entryTarget_direct 9
  have hslot : slotOf pagingGetPageDirectory = windowSlot := by decide
  have hindex : indexOf pagingGetPageDirectory = 9 := by decide
  have hpde : tables (loaderTables m) dirFrame windowSlot = 0xA003#32 := by
    rw [tables_loader, if_pos (by decide)]
  have hpte : tables (loaderTables m) windowFrame 9 =
      BitVec.ofNat 32 ((9 : Fin 1024).val * 4096) ||| 3#32 := by
    rw [tables_loader, if_neg (by decide), if_pos rfl]
  have htarget : entryTarget 0xA003#32 = some windowFrame := by decide
  rw [mmu_eq, walkOf_dir, hslot, hpde, hindex, htarget, Option.bind_some, hpte, hf,
    show f = dirFrame from Fin.ext hval]
  decide

theorem kernelMachine_eq (m : Mem) : kernelMachine m =
    { Machine.touched { phys := loaderTables m } pagingGetPageDirectory with
      phys := (loaderTables m).write32 PAGE_DIR_PHYS 0 } := by
  rw [kernelMachine, pagingRemoveIdentityMap,
    storeTable_ret (m := ({ phys := loaderTables m } : Machine)) (mmu_loader m), Outcome.state_ret]

theorem tables_kernelMachine (m : Mem) (f : Frame) (i : Fin 1024) :
    (kernelMachine m).tables f i =
      if f = dirFrame then (if i.val = 768 then 0xA003#32 else 0)
      else if f = windowFrame then BitVec.ofNat 32 (i.val * 4096) ||| 3#32 else tables m f i := by
  have hdir : PAGE_DIR_PHYS = wordAddr dirFrame 0 := rfl
  have hne : dirFrame ≠ windowFrame := by decide
  rw [kernelMachine_eq]
  change tables ((loaderTables m).write32 PAGE_DIR_PHYS 0) _ _ = _
  rw [hdir, tables_write_word _ _ (by decide), tables_loader]
  by_cases hd : f = dirFrame
  · by_cases h0 : i.val = 0
    · simp [hd, h0]
    · simp [hd, h0, hne]
  · simp [hd]

theorem kernelMachine_target (m : Mem) (s : Fin 1024) (t : Frame) :
    entryTarget ((kernelMachine m).tables dirFrame s) = some t ↔
      s = windowSlot ∧ t = windowFrame := by
  have htarget : entryTarget 0xA003#32 = some windowFrame := by decide
  have hzero : entryTarget 0#32 = none := rfl
  have hslot : s = windowSlot ↔ s.val = 768 := Fin.ext_iff
  rw [tables_kernelMachine, if_pos rfl]
  by_cases h : s.val = 768
  · simp [h, htarget, hslot, eq_comm]
  · simp [h, hzero, hslot]

/-- **The kernel starts with the direct map and nothing else.** -/
theorem kernelMachine_windowed (m : Mem) : Windowed (kernelMachine m).tables where
  proper := by
    refine ⟨?_, fun s s' t hs hs' => ?_⟩
    · rintro ⟨s, hs⟩
      exact absurd ((kernelMachine_target m s dirFrame).1 hs).2 (by decide)
    · rw [((kernelMachine_target m s t).1 hs).1, ((kernelMachine_target m s' t).1 hs').1]
  window := (kernelMachine_target m windowSlot windowFrame).2 ⟨rfl, rfl⟩
  direct := fun i => by
    rw [tables_kernelMachine, if_neg (by decide), if_pos rfl]
    exact entryTarget_direct i
  low := by
    rintro t ⟨s, hs⟩
    rw [((kernelMachine_target m s t).1 hs).2]
    decide

theorem kernelMachine_writable (m : Mem) : DirWritable (kernelMachine m).tables := by
  intro s t ht
  have hslot : s.val = 768 := Fin.ext_iff.1 ((kernelMachine_target m s t).1 ht).1
  rw [tables_kernelMachine, if_pos rfl, if_pos hslot]
  decide

theorem kernelMachine_good (m : Mem) : (kernelMachine m).AllGood := by
  rw [kernelMachine_eq]
  intro t ht
  obtain rfl := List.mem_singleton.1 ht
  change mmu (loaderTables m) pagingGetPageDirectory = some (virtToPhys pagingGetPageDirectory)
  rw [mmu_loader, pagingGetPageDirectory, virtToPhys_physToVirt]

end Frewozet
