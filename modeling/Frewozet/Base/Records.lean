import Frewozet.Base.Bytes

/-!
# Tables of records in byte memory

Records of one size lie one behind the other, and are set one at a time by code that writes
the fields of a record in its own order.

* `RecordFormat α ρ` — how a record is read, and how it is written from what the setter is
  given: what is written is read back, reading depends on the record's own bytes only, and
  nothing else is written.
* `RecordFormat.read_set` — one record set; `RecordFormat.read_setAll` — after any number of
  them, **each record is the one that was set last**.
* `RecordFormat.setAll_outside` — the bytes around the table.
-/

/-- A key is looked up in an association list in which it stands for one value only. -/
theorem List.lookup_of_unique {κ β : Type} [BEq κ] [LawfulBEq κ] {k : κ} {v : β} :
    ∀ {xs : List (κ × β)}, (k, v) ∈ xs → (∀ p ∈ xs, p.1 = k → p.2 = v) →
      xs.lookup k = some v := by
  intro xs
  induction xs with
  | nil => exact fun h => absurd h List.not_mem_nil
  | cons p xs ih =>
    intro hmem huniq
    obtain ⟨hp, hxs⟩ := List.forall_mem_cons.1 huniq
    obtain ⟨k', w⟩ := p
    rw [List.lookup_cons]
    by_cases hk : k = k'
    · rw [beq_iff_eq.2 hk]
      exact congrArg some (hp hk.symm)
    · rw [beq_false_of_ne hk]
      refine ih ((List.mem_cons.1 hmem).resolve_left fun h => hk ?_) hxs
      exact congrArg Prod.fst h

/-- How records of type `ρ` lie in memory, and are set from arguments of type `α`. -/
structure RecordFormat (α ρ : Type) where
  size : Nat
  read : Mem → U32 → ρ
  write : Mem → U32 → α → Mem
  /-- The record that the arguments make. -/
  value : α → ρ
  read_congr : ∀ {m m' : Mem} {a : U32}, a.toNat + size ≤ 2 ^ 32 →
    Mem.AgreeOn m m' a.toNat (a.toNat + size) → read m a = read m' a
  read_write : ∀ (m : Mem) {a : U32} (x : α), a.toNat + size ≤ 2 ^ 32 →
    read (write m a x) a = value x
  write_outside : ∀ (m : Mem) {a b : U32} (x : α), a.toNat + size ≤ 2 ^ 32 →
    (b.toNat < a.toNat ∨ a.toNat + size ≤ b.toNat) → write m a x b = m b

namespace RecordFormat

variable {α ρ : Type} (F : RecordFormat α ρ)

/-- The address of a record in the table at `base`. -/
def address (base : U32) (i : Nat) : U32 := base + BitVec.ofNat 32 (F.size * i)

/-- Set the record with the number `i`. -/
def set (base : U32) (i : Nat) (x : α) (m : Mem) : Mem := F.write m (F.address base i) x

/-- Set one record after the other. -/
def setAll (base : U32) (xs : List (Nat × α)) (m : Mem) : Mem :=
  xs.foldl (fun m p => F.set base p.1 p.2 m) m

section

variable {F} {base : U32} {n : Nat} (hfit : base.toNat + F.size * n ≤ 2 ^ 32)

include hfit

theorem address_toNat {i : Nat} (hi : i < n) (hpos : 0 < F.size) :
    (F.address base i).toNat = base.toNat + F.size * i := by
  have hlt : F.size * i < F.size * n := Nat.mul_lt_mul_of_pos_left hi hpos
  exact Mem.toNat_add_of_lt (by omega)

theorem address_fits {i : Nat} (hi : i < n) :
    (F.address base i).toNat = base.toNat + F.size * i ∧
      (F.address base i).toNat + F.size ≤ base.toNat + F.size * n := by
  have hle : F.size * (i + 1) ≤ F.size * n := Nat.mul_le_mul_left _ hi
  rw [Nat.mul_succ] at hle
  rcases Nat.eq_zero_or_pos F.size with h0 | hpos
  · rw [address, h0, Nat.zero_mul, BitVec.add_zero]
    omega
  · have hat := address_toNat hfit hi hpos
    omega

/-- **One record set.** -/
theorem read_set {i j : Nat} (hi : i < n) (hj : j < n) (x : α) (m : Mem) :
    F.read (F.set base i x m) (F.address base j) =
      if j = i then F.value x else F.read m (F.address base j) := by
  obtain ⟨hati, hendi⟩ := address_fits hfit hi
  obtain ⟨hatj, hendj⟩ := address_fits hfit hj
  split
  · rename_i hji
    rw [hji]
    exact F.read_write m x (by omega)
  · rename_i hne
    refine F.read_congr (by omega) fun b h1 h2 => F.write_outside m x (by omega) ?_
    -- the two records lie on either side of each other
    rcases Nat.lt_or_gt_of_ne hne with hlt | hgt
    · have hle : F.size * (j + 1) ≤ F.size * i := Nat.mul_le_mul_left _ hlt
      rw [Nat.mul_succ] at hle
      omega
    · have hle : F.size * (i + 1) ≤ F.size * j := Nat.mul_le_mul_left _ hgt
      rw [Nat.mul_succ] at hle
      omega

theorem set_outside {i : Nat} (hi : i < n) (x : α) (m : Mem) {b : U32}
    (hb : b.toNat < base.toNat ∨ base.toNat + F.size * n ≤ b.toNat) : F.set base i x m b = m b := by
  obtain ⟨hat, hend⟩ := address_fits hfit hi
  exact F.write_outside m x (by omega) (by omega)

/-- **Each record is the one that was set last.** -/
theorem read_setAll {j : Nat} (hj : j < n) : ∀ {xs : List (Nat × α)} {m : Mem},
    (∀ p ∈ xs, p.1 < n) → F.read (F.setAll base xs m) (F.address base j) =
      ((xs.reverse.lookup j).map F.value).getD (F.read m (F.address base j)) := by
  intro xs
  induction xs with
  | nil => exact fun _ => rfl
  | cons p xs ih =>
    intro m hxs
    obtain ⟨hp, hxs⟩ := List.forall_mem_cons.1 hxs
    rw [setAll, List.foldl_cons]
    rw [show xs.foldl _ _ = F.setAll base xs (F.set base p.1 p.2 m) from rfl, ih hxs,
      List.reverse_cons, List.lookup_append]
    cases hlast : xs.reverse.lookup j with
    | some x => rfl
    | none =>
      obtain ⟨i, x⟩ := p
      rw [read_set hfit hp hj, Option.none_or, List.lookup_cons]
      by_cases heq : j = i
      · rw [if_pos heq, beq_iff_eq.2 heq]
        rfl
      · rw [if_neg heq, beq_false_of_ne heq]
        rfl

theorem setAll_outside {b : U32}
    (hb : b.toNat < base.toNat ∨ base.toNat + F.size * n ≤ b.toNat) :
    ∀ {xs : List (Nat × α)} {m : Mem}, (∀ p ∈ xs, p.1 < n) → F.setAll base xs m b = m b := by
  intro xs
  induction xs with
  | nil => exact fun _ => rfl
  | cons p xs ih =>
    intro m hxs
    obtain ⟨hp, hxs⟩ := List.forall_mem_cons.1 hxs
    rw [setAll, List.foldl_cons]
    exact (ih hxs).trans (set_outside hfit hp p.2 m hb)

end

end RecordFormat
