import Frewozet.Flat.Memory
import Frewozet.Paging.PageMap

/-!
# The machine `pmm_init` leaves

The machine on which the kernel starts, with the words `pmm_init` has filled in where its
pointer says they are.

* `Machine.placeBitmap` — a machine with the statics of `pmm.c`, whose words are written to its
  memory.
* `bootMachine` — the kernel's machine after `pmm_init`; `bootMachine_resident` — **the bitmap
  is in place, and is the one `pmm_init` has made**.
-/

namespace Frewozet

open Word TwoLevel

/-! ## A bitmap put in place -/

/-- The statics of `pmm.c`, with the words at the pointer. -/
def Machine.placeBitmap (m : Machine) (p : Pmm) : Machine :=
  { m with
    phys := m.phys.writeWords (virtToPhys p.pmmBitmap) p.words
    pmm := { p with words := [] } }

section

variable {m : Machine} {p : Pmm}

@[simp] theorem Machine.placeBitmap_bitmap (m : Machine) (p : Pmm) :
    (m.placeBitmap p).pmm.pmmBitmap = p.pmmBitmap := rfl

@[simp] theorem Machine.placeBitmap_total (m : Machine) (p : Pmm) :
    (m.placeBitmap p).pmm.pmmTotalPages = p.pmmTotalPages := rfl

/-- A bitmap for which the direct map has room, past 1 MiB. -/
structure FitsWindow (p : Pmm) : Prop where
  total : p.pmmTotalPages.toNat ≤ 0x100000
  length : p.words.length = p.cells
  low : p.pmmBitmap ≠ 0 → 0xC0100000 ≤ p.pmmBitmap.toNat
  high : p.pmmBitmap ≠ 0 → p.pmmBitmap.toNat + 4 * p.cells ≤ 0xC0400000

namespace FitsWindow

theorem physBitmap (h : FitsWindow p) (hb : p.pmmBitmap ≠ 0) :
    (virtToPhys p.pmmBitmap).toNat = p.pmmBitmap.toNat - 0xC0000000 := by
  have hlow := h.low hb
  exact virtToPhys_toNat (by omega)

/-- Its frames lie between 1 and 4 MiB. -/
theorem frame (h : FitsWindow p) {f : Nat} (hf : BitmapFrame p f) : 256 ≤ f ∧ f < 1024 := by
  obtain ⟨h1, h2⟩ := hf
  by_cases hb : p.pmmBitmap = 0
  · have hcells : p.cells = 0 := if_pos hb
    rw [h.length, hcells] at h2
    rw [hb, show (virtToPhys 0).toNat = 0x40000000 from rfl] at h1 h2
    omega
  · have hlow := h.low hb
    have hhigh := h.high hb
    have hphys := h.physBitmap hb
    rw [h.length] at h2
    omega

/-- Nothing else is written. -/
theorem place_phys (h : FitsWindow p) {a : U32} (ha : ¬ BitmapFrame p (a.toNat / 4096)) :
    (m.placeBitmap p).phys a = m.phys a := by
  by_cases hb : p.pmmBitmap = 0
  · have hwords : p.words = [] := List.eq_nil_of_length_eq_zero (h.length.trans (if_pos hb))
    rw [Machine.placeBitmap, hwords]
    rfl
  · have hlow := h.low hb
    have hhigh := h.high hb
    have hphys := h.physBitmap hb
    have hlen := h.length
    rw [BitmapFrame] at ha
    exact Mem.writeWords_outside p.words m.phys (by omega) (by omega)

theorem place_tables (h : FitsWindow p) {f : Frame} (hf : ¬ BitmapFrame p f.val) (i : Fin 1024) :
    (m.placeBitmap p).tables f i = m.tables f i :=
  tables_congr_frame (fun a ha => h.place_phys (by rwa [show a.toNat / 4096 = f.val from
    congrArg Fin.val ha])) i

end FitsWindow

/-- No table lies past 1 MiB. -/
def TablesBelow (m : Machine) : Prop :=
  ∀ t, IsTable entryTarget dirFrame m.tables t → t.val < 256

/-- **The bitmap is in place, and its words are the ones that were put there.** -/
theorem placeBitmap_resident (h : FitsWindow p) (hm : Windowed m.tables) (hlow : TablesBelow m)
    (hspare : ∀ f, p.Free f → ¬ BitmapFrame p f) :
    Resident (m.placeBitmap p) ∧ SameTables { m with pmm := p } (m.placeBitmap p).seen := by
  have hdir : ¬ BitmapFrame p dirFrame.val := fun hc => absurd (h.frame hc).1 (by decide)
  have htable : ∀ t, IsTable entryTarget dirFrame m.tables t → ¬ BitmapFrame p t.val :=
    fun t ht hc => absurd (hlow t ht) (by have := (h.frame hc).1; omega)
  have hsame : ∀ t, IsTable entryTarget dirFrame m.tables t →
      ∀ i, (m.placeBitmap p).tables t i = m.tables t i := fun t ht => h.place_tables (htable t ht)
  have hwindowed : Windowed (m.placeBitmap p).tables := hm.congr (h.place_tables hdir) hsame
  have hplace : InPlace (m.placeBitmap p) ∧ (m.placeBitmap p).bitmap = p.words := by
    have hcells : (m.placeBitmap p).pmm.cells = p.cells := rfl
    have hon : ∀ f, (m.placeBitmap p).OnBitmap f ↔ BitmapFrame p f := fun f => by
      rw [Machine.OnBitmap, BitmapFrame, BitmapFrame, Machine.seen_words, Machine.length_bitmap,
        hcells, h.length]
      exact Iff.rfl
    have hin : InPlace (m.placeBitmap p) := by
      refine ⟨h.total, fun hb => ?_, ?_, fun f hf => ?_, fun hc => hdir ((hon _).1 hc),
        fun t ht hc => ?_⟩
      · have hlow := h.low hb
        change 0xC0000000 ≤ p.pmmBitmap.toNat
        omega
      · by_cases hb : p.pmmBitmap = 0
        · rw [hcells, Pmm.cells, if_pos hb]
          have hlt := (m.placeBitmap p).pmm.pmmBitmap.isLt
          omega
        · have hhigh := h.high hb
          change p.pmmBitmap.toNat + 4 * p.cells ≤ 2 ^ 32
          omega
      · exact hwindowed.inDirectMap (h.frame ((hon _).1 hf)).2
      · exact htable t ((isTable_congr (h.place_tables hdir)).1 ht) ((hon _).1 hc)
    have hlen : (m.placeBitmap p).bitmap.length = p.words.length :=
      (Machine.length_bitmap _).trans h.length.symm
    refine ⟨hin, List.ext_getElem hlen fun i h1 h2 => ?_⟩
    have hi : i < p.cells := h.length ▸ h2
    have hb := cells_ne_zero (Nat.zero_lt_of_lt hi)
    have hlow := h.low hb
    have hhigh := h.high hb
    have hphys := h.physBitmap hb
    have hend : (virtToPhys p.pmmBitmap).toNat + 4 * p.words.length ≤ 2 ^ 32 := by
      rw [hphys, h.length]
      omega
    rw [← List.getD_eq_getElem _ 0 h1, ← List.getD_eq_getElem _ 0 h2, Machine.getD_bitmap _ hi,
      ← Mem.read32_writeWords p.words m.phys hend h2]
    refine Mem.read32_of_bytes fun k hk => ?_
    rw [Machine.view_of_mmu (hin.byte ((hin.sound.word hi).2 k hk)).1]
    refine congrArg (m.placeBitmap p).phys ?_
    change p.pmmBitmap + BitVec.ofNat 32 (4 * i) + BitVec.ofNat 32 k - KERNEL_VIRT_BASE =
      p.pmmBitmap - KERNEL_VIRT_BASE + BitVec.ofNat 32 (4 * i) + BitVec.ofNat 32 k
    rw [BitVec.sub_eq_add_neg, BitVec.sub_eq_add_neg]
    ac_rfl
  have hseen : (m.placeBitmap p).seen.pmm = p := by
    rw [Machine.seen, hplace.2]
    rfl
  refine ⟨⟨hplace.1, fun f hf => ?_⟩, h.place_tables hdir, hsame, hseen, rfl, rfl⟩
  rw [Machine.OnBitmap, hseen]
  exact hspare f (hseen ▸ hf)

end

/-! ## The machine at the start -/

/-- The kernel's machine when `pmm_init` has returned. -/
def bootMachine (info : E820Info) (k : KernelImage) (vmem phys : Mem) : Machine :=
  (kernelMachine phys).placeBitmap (boot info k vmem).pmm

section

variable (info : E820Info) (k : KernelImage) (vmem phys : Mem)

theorem boot_fitsWindow (hk : 0xC0100000 ≤ k.kernelEnd.toNat) :
    FitsWindow (boot info k vmem).pmm := by
  have htotal := (boot_wf info k vmem).total
  by_cases hb : (boot info k vmem).pmm.pmmBitmap = 0
  · exact ⟨htotal, by rw [boot_words_eq_nil info k vmem hb, Pmm.cells, if_pos hb]; rfl,
      fun hc => absurd hb hc, fun hc => absurd hb hc⟩
  · have hfit := (boot_bitmap_iff info k vmem).1 hb
    have hr := boot_ready info k vmem hfit
    have hstart := bitmapStart_le k
    have hcells : (boot info k vmem).pmm.cells =
      (bitmapWords (boot info k vmem).pmm.pmmTotalPages).toNat := if_neg hb
    have hbitmap : (boot info k vmem).pmm.pmmBitmap.toNat = 0xC0000000 + bitmapStart k := by
      rw [hr.bitmap, BitVec.toNat_ofNat]
      omega
    have hroom := hfit.2.2
    have hlimit := (bootstrapBounds_spec info k).2
    have hend := k.endPhys_toNat
    refine ⟨htotal, ?_, fun _ => ?_, fun _ => ?_⟩
    · rw [hcells, hr.words, length_pmmFillBitmap]
    · rw [hbitmap, bitmapStart, kernelEndFrame]
      omega
    · rw [hbitmap, hcells, bitmapWords_toNat htotal, hr.total]
      rw [bitmapSize] at hroom
      omega

theorem tablesBelow_kernelMachine : TablesBelow (kernelMachine phys) := by
  rintro t ⟨s, hs⟩
  rw [((kernelMachine_target phys s t).1 hs).2]
  decide

/-- **After `pmm_init` the bitmap is in place**, for a kernel that ends past 1 MiB, as
`linker.ld` has it. -/
theorem bootMachine_resident (hk : 0xC0100000 ≤ k.kernelEnd.toNat) :
    Resident (bootMachine info k vmem phys) ∧
      SameTables { kernelMachine phys with pmm := (boot info k vmem).pmm }
        (bootMachine info k vmem phys).seen := by
  refine placeBitmap_resident (boot_fitsWindow info k vmem hk) (kernelMachine_windowed phys)
    (tablesBelow_kernelMachine phys) fun f hf hon => ?_
  obtain ⟨hfit, -, -, -, hout⟩ := (boot_free_iff info k vmem f).1 hf
  exact hout ((Ready.bitmapFrame_iff info k (boot_ready info k vmem hfit) f).1 hon)

/-- The tables are those of the kernel's first machine, and the allocator is in order. -/
theorem bootMachine_ok (hk : 0xC0100000 ≤ k.kernelEnd.toNat) :
    PagesOk (bootMachine info k vmem phys).seen ∧
      Windowed (bootMachine info k vmem phys).tables := by
  obtain ⟨-, hs⟩ := bootMachine_resident info k vmem phys hk
  have hw : Windowed (bootMachine info k vmem phys).tables :=
    (kernelMachine_windowed phys).congr hs.dir hs.table
  refine ⟨⟨hw.proper, ?_⟩, hw⟩
  rw [hs.pmm]
  exact boot_wf info k vmem

theorem bootMachine_isTable (hk : 0xC0100000 ≤ k.kernelEnd.toNat) (t : Frame) :
    IsTable entryTarget dirFrame (bootMachine info k vmem phys).tables t ↔ t = windowFrame := by
  obtain ⟨-, hs⟩ := bootMachine_resident info k vmem phys hk
  refine (isTable_congr hs.dir).trans ⟨?_, ?_⟩
  · rintro ⟨s, hs⟩
    exact ((kernelMachine_target phys s t).1 hs).2
  · rintro rfl
    exact ⟨windowSlot, (kernelMachine_target phys windowSlot windowFrame).2 ⟨rfl, rfl⟩⟩

theorem bootMachine_slot (hk : 0xC0100000 ≤ k.kernelEnd.toNat) {s : Fin 1024}
    (hs : s ≠ windowSlot) :
    entryTarget ((bootMachine info k vmem phys).tables dirFrame s) = none := by
  obtain ⟨-, hsame⟩ := bootMachine_resident info k vmem phys hk
  refine Option.eq_none_iff_forall_ne_some.2 fun t ht => hs ?_
  exact ((kernelMachine_target phys s t).1 ((congrArg entryTarget (hsame.dir s)).symm.trans ht)).1

/-- What is neither bitmap nor table is left as it was. -/
theorem bootMachine_phys (hk : 0xC0100000 ≤ k.kernelEnd.toNat) {a : U32}
    (hout : ¬ BitmapFrame (boot info k vmem).pmm (a.toNat / 4096)) (hdir : frameOf a ≠ dirFrame)
    (hwin : frameOf a ≠ windowFrame) : (bootMachine info k vmem phys).phys a = phys a := by
  refine ((boot_fitsWindow info k vmem hk).place_phys hout).trans ?_
  refine bytes_of_tables (f := frameOf a) (fun i => ?_) rfl
  exact (tables_kernelMachine phys (frameOf a) i).trans (by rw [if_neg hdir, if_neg hwin])

end

end Frewozet
