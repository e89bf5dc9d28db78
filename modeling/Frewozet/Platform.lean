import Frewozet.Base.Words

/-!
# The platform: physical memory as the firmware describes it

What every part of the kernel is told about the machine: the higher-half offset
of `mmu.h`, the E820 table the loader leaves at `E820_INFO_ADDR` (`ram_mapper.h`)
and where the linker script put the end of the kernel.

* `physToVirt`, `virtToPhys` — the two macros of `mmu.h`, wrapping as they do.
* `E820Info`, `ramMapperAvailable` — the table and its signature check.  The
  list holds the first `count` entries.
* `E820Entry.base32`, `E820Entry.end32` — the bounds of an entry as the loops over
  the table see them: `end32_of_le` is why an entry that reaches 4 GiB comes out
  with end 0.
* `E820Entry.Covers`, `E820Entry.Meets` — a page frame lies wholly inside an
  entry, or shares a byte with it.  Both are about the entry's true end, in
  unbounded numbers.
* `KernelImage` — the address of `_kernel_end`.  The image is linked above
  `KERNEL_VIRT_BASE` and the loader maps 4 MiB there, so it ends between the two.
-/

namespace Frewozet

/-! ## Addresses -/

def KERNEL_VIRT_BASE : U32 := 0xC0000000

/-! The bits of an entry, from `paging.h`. -/

def PAGE_PRESENT : U32 := 0x001
def PAGE_WRITABLE : U32 := 0x002
def PAGE_USER : U32 := 0x004

/-- `PHYS_TO_VIRT`. -/
def physToVirt (addr : U32) : U32 := addr + KERNEL_VIRT_BASE

/-- `VIRT_TO_PHYS`. -/
def virtToPhys (addr : U32) : U32 := addr - KERNEL_VIRT_BASE

@[simp] theorem virtToPhys_physToVirt (a : U32) : virtToPhys (physToVirt a) = a :=
  BitVec.add_sub_cancel a KERNEL_VIRT_BASE

theorem physToVirt_add (a b : U32) : physToVirt a + b = physToVirt (a + b) := by
  rw [physToVirt, physToVirt, BitVec.add_assoc, BitVec.add_assoc, BitVec.add_comm KERNEL_VIRT_BASE]

theorem physToVirt_toNat {a : U32} (h : a.toNat < 0x40000000) :
    (physToVirt a).toNat = a.toNat + 0xC0000000 := by
  rw [physToVirt, KERNEL_VIRT_BASE, BitVec.toNat_add]
  exact Nat.mod_eq_of_lt (by simp; omega)

theorem virtToPhys_toNat {a : U32} (h : 0xC0000000 ≤ a.toNat) :
    (virtToPhys a).toNat = a.toNat - 0xC0000000 := by
  have ha := a.isLt
  rw [virtToPhys, KERNEL_VIRT_BASE, BitVec.toNat_sub]
  simp
  omega

/-! ## The E820 table -/

/-- `struct e820_entry`. -/
structure E820Entry where
  base : U64
  length : U64
  type : U32
  acpiAttrs : U32
  deriving DecidableEq, Repr

/-- `struct e820_info`, with the entries it counts. -/
structure E820Info where
  signature : U32
  entries : List E820Entry
  deriving DecidableEq, Repr

def E820_SIG : U32 := 0x324F3845

/-- `ram_mapper_available`. -/
def ramMapperAvailable (info : E820Info) : Bool := info.signature == E820_SIG

namespace E820Entry

/-- `entry->base + entry->length`, in 64 bits. -/
def end64 (e : E820Entry) : U64 := e.base + e.length

/-- The end, held at 4 GiB and then narrowed to 32 bits: what all three loops
over the table do before they compare it with anything. -/
def end32 (e : E820Entry) : U32 :=
  let regionEnd := if e.end64 > 0x100000000#64 then 0x100000000#64 else e.end64
  regionEnd.setWidth 32

/-- The base, narrowed to 32 bits. -/
def base32 (e : E820Entry) : U32 := e.base.setWidth 32

theorem base32_toNat {e : E820Entry} (h : e.base < 0x100000000#64) :
    e.base32.toNat = e.base.toNat := by
  rw [base32, BitVec.toNat_setWidth]
  exact Nat.mod_eq_of_lt (by simpa [BitVec.lt_def] using h)

/-- An end at or past 4 GiB narrows to zero. -/
theorem end32_of_le {e : E820Entry} (h : 0x100000000 ≤ e.end64.toNat) : e.end32 = 0 := by
  have hend : (if e.end64 > 0x100000000#64 then 0x100000000#64 else e.end64) = 0x100000000#64 := by
    split
    · rfl
    · rename_i hgt
      apply BitVec.eq_of_toNat_eq
      simp only [gt_iff_lt, BitVec.lt_def, not_lt] at hgt
      exact Nat.le_antisymm hgt h
  simp only [end32, hend]
  rfl

theorem end32_toNat {e : E820Entry} (h : e.end64.toNat < 0x100000000) :
    e.end32.toNat = e.end64.toNat := by
  have hend : ¬ e.end64 > 0x100000000#64 := by
    simp only [gt_iff_lt, BitVec.lt_def, not_lt]
    exact h.le
  simp only [end32, if_neg hend, BitVec.toNat_setWidth]
  exact Nat.mod_eq_of_lt h

/-- The end of an entry that does not run past the 64-bit address space. -/
theorem end64_toNat {e : E820Entry} (h : e.base.toNat + e.length.toNat < 2 ^ 64) :
    e.end64.toNat = e.base.toNat + e.length.toNat := by
  rw [end64, BitVec.toNat_add, Nat.mod_eq_of_lt h]

/-- Wrapped or not, the end is at most the true end. -/
theorem end64_le (e : E820Entry) : e.end64.toNat ≤ e.base.toNat + e.length.toNat := by
  rw [end64, BitVec.toNat_add]
  exact Nat.mod_le _ _

/-- The frame lies wholly inside the entry. -/
def Covers (e : E820Entry) (f : Nat) : Prop :=
  e.base.toNat ≤ f * 4096 ∧ (f + 1) * 4096 ≤ e.base.toNat + e.length.toNat

/-- The frame and the entry have a byte in common. -/
def Meets (e : E820Entry) (f : Nat) : Prop :=
  ∃ b, e.base.toNat ≤ b ∧ b < e.base.toNat + e.length.toNat ∧ f * 4096 ≤ b ∧ b < (f + 1) * 4096

instance (e : E820Entry) (f : Nat) : Decidable (e.Covers f) :=
  inferInstanceAs (Decidable (_ ∧ _))

end E820Entry

/-! ## The kernel image -/

/-- Where the kernel ends: the address of the linker symbol `_kernel_end`. -/
structure KernelImage where
  kernelEnd : U32
  above : 0xC0000000 ≤ kernelEnd.toNat
  below : kernelEnd.toNat < 0xC0400000

namespace KernelImage

/-- `VIRT_TO_PHYS(&_kernel_end)`. -/
def endPhys (k : KernelImage) : U32 := virtToPhys k.kernelEnd

theorem endPhys_toNat (k : KernelImage) : k.endPhys.toNat = k.kernelEnd.toNat - 0xC0000000 :=
  virtToPhys_toNat k.above

theorem endPhys_below (k : KernelImage) : k.endPhys.toNat < 0x400000 := by
  have := k.endPhys_toNat
  have := k.below
  omega

end KernelImage

end Frewozet
