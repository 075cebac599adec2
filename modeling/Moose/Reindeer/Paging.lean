import Mathlib.Data.BitVec
import Moose.Lib.Run

/-!
# Page walks of the guest

`guest/paging.rs`: the walk from a guest virtual to a guest physical address, over the page tables
in the guest's memory. `leaf` is the walk as the processor defines it, up to the entry it ends in.

Of an entry the code takes bits 12 to 51 for the address, but of one for a large page all the bits
above, so that a no-execute bit ends up in the address. In protected mode it is the other way round:
the entry of a page of 4 MiB has bits 32 to 39 of the address in its bits 13 to 20, which the code
drops, and it has such pages only when CR4.PSE is set, which the code does not ask.
-/

set_option autoImplicit false

namespace Moose.Reindeer

open BitVec Lib

/-- The `SlatManager`'s way from guest memory to host memory, and what stands there. -/
structure GuestMemory where
  translate : BitVec 64 → Option (BitVec 64)
  host64 : BitVec 64 → BitVec 64
  host32 : BitVec 64 → BitVec 32

namespace GuestMemory

variable (g : GuestMemory)

/-! ## The code -/

def readGpa (gpa : BitVec 64) : Option (BitVec 64) := (g.translate gpa).map g.host64

def translateLongMode (guestVa guestCr3 : BitVec 64) : Option (BitVec 64) := do
  let pml4Entry ← g.readGpa ((guestCr3 &&& ~~~0xFFF#64) + (guestVa >>> 39 &&& 0x1FF) * 8)
  if pml4Entry &&& 1 = 0 then none else
  let pdptEntry ← g.readGpa ((pml4Entry &&& 0x000FFFFFFFFFF000) + (guestVa >>> 30 &&& 0x1FF) * 8)
  if pdptEntry &&& 1 = 0 then none else
  if pdptEntry &&& 0x80 ≠ 0 then
    some ((pdptEntry &&& ~~~0x3FFFFFFF#64) + (guestVa &&& 0x3FFFFFFF)) else
  let pdEntry ← g.readGpa ((pdptEntry &&& 0x000FFFFFFFFFF000) + (guestVa >>> 21 &&& 0x1FF) * 8)
  if pdEntry &&& 1 = 0 then none else
  if pdEntry &&& 0x80 ≠ 0 then some ((pdEntry &&& ~~~0x1FFFFF#64) + (guestVa &&& 0x1FFFFF)) else
  let ptEntry ← g.readGpa ((pdEntry &&& 0x000FFFFFFFFFF000) + (guestVa >>> 12 &&& 0x1FF) * 8)
  if ptEntry &&& 1 = 0 then none else
  some ((ptEntry &&& 0x000FFFFFFFFFF000) + (guestVa &&& 0xFFF))

/-- An entry of a table of 32-bit entries; a null pointer ends the walk. -/
def readTable (gpa : BitVec 64) (i : BitVec 32) : Option (BitVec 32) := do
  let hva ← g.translate gpa
  if hva = 0 then none else some (g.host32 (hva + i.setWidth 64 * 4))

def translateProtectedMode (gva cr3 : BitVec 32) : Option (BitVec 64) := do
  let pde ← g.readTable ((cr3 &&& ~~~0xFFF#32).setWidth 64) (gva >>> 22)
  if pde &&& 1 = 0 then none else
  if pde &&& (1#32 <<< 7) ≠ 0 then
    some (pde.setWidth 64 &&& 0xFFC00000 ||| gva.setWidth 64 &&& 0x003FFFFF) else
  let pte ← g.readTable (pde.setWidth 64 &&& ~~~0xFFF#64) (gva >>> 12 &&& 0x3FF)
  if pte &&& 1 = 0 then none else
  some (pte.setWidth 64 &&& ~~~0xFFF#64 ||| gva.setWidth 64 &&& 0xFFF)

/-! ## The walk of the processor -/

section Walk

variable {w : Nat} (entry : BitVec w → BitVec w → Option (BitVec w)) (large : Nat → Bool)
  (bits : Nat)
  (va : BitVec w)

def low (w n : Nat) : BitVec w := BitVec.ofNat w (2 ^ n - 1)

def addressBits (w : Nat) : BitVec w := BitVec.ofNat w (2 ^ 52 - 2 ^ 12)

/-- The entry that a walk ends in, and how many bits of the address are left for its page. The
tables split the address at `shifts`, with `bits` bits for an index; where there can be a `large`
page, bit 7 of the entry says that there is one. -/
def leaf : List Nat → BitVec w → Option (Nat × BitVec w)
  | [], _ => none
  | shift :: shifts, table => do
    let e ← entry table (va >>> shift &&& low w bits)
    if e &&& 1 = 0 then none
    else if shifts = [] ∨ large shift = true ∧ e &&& 0x80 ≠ 0 then some (shift, e)
    else leaf shifts (e &&& addressBits w)

/-- The address in a page of `2 ^ n` bytes. -/
def inPage (n : Nat) (e : BitVec w) : BitVec w :=
  (e &&& addressBits w &&& ~~~low w n) + (va &&& low w n)

end Walk

def longLeaf (guestVa guestCr3 : BitVec 64) : Option (Nat × BitVec 64) :=
  leaf (fun table i => g.readGpa (table + i * 8)) (· < 39) 9 guestVa [39, 30, 21, 12]
    (guestCr3 &&& ~~~0xFFF#64)

/-- With CR4.PSE clear, bit 7 of an entry is ignored. -/
def protectedLeaf (pse : Bool) (gva cr3 : BitVec 32) : Option (Nat × BitVec 32) :=
  leaf (fun table i => g.readTable (table.setWidth 64) i) (fun _ => pse) 10 gva [22, 12]
    (cr3 &&& ~~~0xFFF#32)

/-- The address in a page that a 32-bit entry maps. That of a page of 4 MiB has 40 bits. -/
def inProtectedPage (gva : BitVec 32) (n : Nat) (e : BitVec 32) : BitVec 64 :=
  (inPage gva n e).setWidth 64 + if n = 22 then (e &&& 0x1FE000).setWidth 64 <<< 19 else 0

/-! ## The two walks -/

variable {g} {n : Nat} (guestVa guestCr3 e : BitVec 64) (gva cr3 : BitVec 32)

/-- What the code makes of the entry. -/
def taken (n : Nat) (e : BitVec 64) : BitVec 64 :=
  if n = 12 then inPage guestVa 12 e else (e &&& ~~~low 64 n) + (guestVa &&& low 64 n)

theorem translateLongMode_eq : g.translateLongMode guestVa guestCr3 =
    (g.longLeaf guestVa guestCr3).map fun r => taken guestVa r.1 r.2 := by
  have hlow : low 64 9 = 0x1FF := rfl
  have hbits : addressBits 64 = 0x000FFFFFFFFFF000 := rfl
  have htaken : ∀ e, taken guestVa 30 e = (e &&& ~~~0x3FFFFFFF#64) + (guestVa &&& 0x3FFFFFFF) ∧
      taken guestVa 21 e = (e &&& ~~~0x1FFFFF#64) + (guestVa &&& 0x1FFFFF) ∧
      taken guestVa 12 e = (e &&& 0x000FFFFFFFFFF000) + (guestVa &&& 0xFFF) := fun e =>
    ⟨rfl, rfl, congrArg (· + _) ((BitVec.and_assoc ..).trans rfl)⟩
  unfold longLeaf translateLongMode
  simp [leaf, hlow, hbits, Option.map_bind, apply_ite (Option.map _), htaken]

theorem setWidth_and_mask (x : BitVec 32) (m : BitVec 64) :
    x.setWidth 64 &&& m = (x &&& m.setWidth 32).setWidth 64 := by
  ext i hi
  by_cases hx : i < 32
  · simp [hx, getLsbD_eq_getElem hi]
  · simp [hx, getLsbD_of_ge x i (Nat.not_lt.mp hx)]

theorem translateProtectedMode_eq : g.translateProtectedMode gva cr3 =
    (g.protectedLeaf true gva cr3).map fun r => (inPage gva r.1 r.2).setWidth 64 := by
  have hlow : gva >>> 22 &&& low 32 10 = gva >>> 22 := by
    apply eq_of_toNat_eq
    rw [toNat_and, show (low 32 10).toNat = 2 ^ 10 - 1 from rfl, Nat.and_two_pow_sub_one_eq_mod,
      toNat_ushiftRight, Nat.shiftRight_eq_div_pow]
    omega
  have htable : ∀ e : BitVec 32,
      e.setWidth 64 &&& 0xFFFFFFFFFFFFF000#64 = e.setWidth 64 &&& 0xFFFFF000 :=
    fun e => (setWidth_and_mask e _).trans (setWidth_and_mask e 0xFFFFF000).symm
  have hpage : ∀ n e, (inPage gva n e).setWidth 64 =
      e.setWidth 64 &&& (addressBits 32 &&& ~~~low 32 n).setWidth 64 |||
        gva.setWidth 64 &&& (low 32 n).setWidth 64 := by
    intro n e
    have hdisjoint : (e &&& addressBits 32 &&& ~~~low 32 n) &&& (gva &&& low 32 n) = 0 := by
      ext i hi
      simp +contextual
    rw [inPage, add_eq_or_of_and_eq_zero _ _ hdisjoint]
    simp [BitVec.and_assoc]
  unfold protectedLeaf translateProtectedMode
  simp [leaf, hlow, htable, Option.map_bind, apply_ite (Option.map _), hpage]
  rfl

theorem longLeaf_size (h : g.longLeaf guestVa guestCr3 = some (n, e)) :
    n = 12 ∨ n = 21 ∨ n = 30 := by
  simp only [longLeaf, leaf] at h
  grind [bind_eq_some]

theorem inPage_lt (h : n = 12 ∨ n = 21 ∨ n = 30) : (inPage guestVa n e).toNat < 2 ^ 52 := by
  have hand : ∀ x y : BitVec 64, (x &&& y).toNat ≤ y.toNat := fun x y => by
    rw [toNat_and]
    exact Nat.and_le_right
  have hpage := hand e (addressBits 64 &&& ~~~low 64 n)
  have hoffset := hand guestVa (low 64 n)
  have hsum : (addressBits 64 &&& ~~~low 64 n).toNat + (low 64 n).toNat < 2 ^ 52 := by
    rcases h with rfl | rfl | rfl <;> decide
  rw [inPage, toNat_add, BitVec.and_assoc]
  omega

theorem and_or_eq_iff {b c : BitVec 64} (h : b &&& c = 0) :
    e &&& (b ||| c) = e &&& b ↔ e &&& c = 0 := by
  rw [and_or_distrib_left]
  constructor
  · intro heq
    have hc := congrArg (· &&& c) heq
    simp only [BitVec.and_assoc, h, and_or_distrib_right, BitVec.and_self] at hc
    simpa using hc
  · intro hc
    rw [hc]
    exact or_zero

/-- A large page is found where it is when its entry has none of the bits from 52 on. -/
theorem taken_eq_iff (h : n = 21 ∨ n = 30) :
    taken guestVa n e = inPage guestVa n e ↔ e &&& 0xFFF0000000000000 = 0 := by
  have hbits : ~~~low 64 n = addressBits 64 &&& ~~~low 64 n ||| 0xFFF0000000000000 ∧
      (addressBits 64 &&& ~~~low 64 n) &&& 0xFFF0000000000000 = 0 := by
    rcases h with rfl | rfl <;> decide
  rw [← and_or_eq_iff e hbits.2, ← hbits.1, taken, if_neg (by omega), inPage, BitVec.add_left_inj,
    BitVec.and_assoc]

/-- When the code finds the page of a 32-bit entry: a page of 4 MiB lies below 4 GiB, and where the
processor has no such pages, the table that the entry stands for has the page at the same place. -/
def PseOk (g : GuestMemory) (pse : Bool) (gva cr3 : BitVec 32) : Prop :=
  ∀ pde, g.protectedLeaf true gva cr3 = some (22, pde) →
    if pse then pde &&& 0x1FE000 = 0
    else ∃ pte, g.protectedLeaf false gva cr3 = some (12, pte) ∧
      pte &&& 0xFFFFF000 = (pde &&& 0xFFC00000) + (gva &&& 0x3FF000)

section Protected

variable {gva cr3 pde pte : BitVec 32}

theorem setWidth_inj {x y : BitVec 32} : x.setWidth 64 = y.setWidth 64 ↔ x = y := by
  refine ⟨fun h => ?_, congrArg _⟩
  simpa using congrArg (BitVec.setWidth 32) h

theorem setWidth_shiftLeft_eq_zero_iff (x : BitVec 32) : x.setWidth 64 <<< 19 = 0 ↔ x = 0 := by
  rw [← toNat_inj, ← toNat_inj, toNat_shiftLeft, toNat_setWidth, Nat.shiftLeft_eq]
  have := x.isLt
  change _ = 0 ↔ _ = 0
  omega

/-- The page of 4 KiB that holds the address in a page of 4 MiB. -/
theorem inPage_eq_inPage_iff : inPage gva 22 pde = inPage gva 12 pte ↔
    pte &&& 0xFFFFF000 = (pde &&& 0xFFC00000) + (gva &&& 0x3FF000) := by
  have hlarge : inPage gva 22 pde = (pde &&& 0xFFC00000) + (gva &&& (0x3FF000 ||| 0xFFF)) := by
    rw [inPage, BitVec.and_assoc]
    rfl
  have hsmall : inPage gva 12 pte = (pte &&& 0xFFFFF000) + (gva &&& 0xFFF) := by
    rw [inPage, BitVec.and_assoc]
    rfl
  have hdisjoint : gva &&& 0x3FF000 &&& (gva &&& 0xFFF) = 0 := by
    rw [show gva &&& 0x3FF000 &&& (gva &&& 0xFFF) = gva &&& gva &&& (0x3FF000 &&& 0xFFF) by ac_rfl]
    exact and_zero
  rw [hlarge, hsmall, and_or_distrib_left, ← add_eq_or_of_and_eq_zero _ _ hdisjoint,
    ← BitVec.add_assoc, BitVec.add_left_inj, eq_comm]

theorem eq_inProtectedPage_iff :
    (inPage gva 22 pde).setWidth 64 = inProtectedPage gva 22 pde ↔ pde &&& 0x1FE000 = 0 := by
  rw [inProtectedPage, if_pos rfl]
  exact BitVec.self_eq_add_right.trans (setWidth_shiftLeft_eq_zero_iff _)

theorem protectedLeaf_false : g.protectedLeaf false gva cr3 = none ∨
    ∃ pte, g.protectedLeaf false gva cr3 = some (12, pte) := by
  cases h : g.protectedLeaf false gva cr3 with
  | none => exact .inl rfl
  | some r =>
    simp only [protectedLeaf, leaf] at h
    grind [bind_eq_some]

/-- The setting only matters for the entry of a page of 4 MiB. -/
theorem protectedLeaf_true : (∃ pde, g.protectedLeaf true gva cr3 = some (22, pde)) ∨
    g.protectedLeaf true gva cr3 = g.protectedLeaf false gva cr3 := by
  simp only [protectedLeaf, leaf]
  cases g.readTable (((cr3 &&& ~~~0xFFF#32)).setWidth 64) (gva >>> 22 &&& low 32 10) with
  | none => exact .inr rfl
  | some pde =>
    by_cases hlarge : pde &&& 0x80#32 = 0#32
    · simp [hlarge]
    · by_cases hpresent : pde &&& 1#32 = 0#32
      · simp [hpresent]
      · simp [hlarge, hpresent]

theorem protectedPage_iff (pse : Bool) : g.translateProtectedMode gva cr3 =
    (g.protectedLeaf pse gva cr3).map (fun r => inProtectedPage gva r.1 r.2) ↔
      g.PseOk pse gva cr3 := by
  rw [translateProtectedMode_eq, PseOk]
  obtain ⟨pde, hpde⟩ | heq := @protectedLeaf_true g gva cr3
  · cases pse with
    | true => simp [hpde, eq_inProtectedPage_iff]
    | false =>
      obtain hnone | ⟨pte, hpte⟩ := @protectedLeaf_false g gva cr3
      · simp [hpde, hnone]
      · simp [hpde, hpte, inProtectedPage, setWidth_inj, inPage_eq_inPage_iff]
  · obtain hnone | ⟨pte, hpte⟩ := @protectedLeaf_false g gva cr3
    · cases pse <;> simp [heq, hnone]
    · cases pse <;> simp [heq, hpte, inProtectedPage]

end Protected

/-- **The walks of the code.** In long mode it is the processor's if and only if it ends in a page
of 4 KiB or in an entry with none of the bits from 52 on; in protected mode it is as long as large
pages are enabled and lie below 4 GiB. -/
theorem translate_exact_iff (pse : Bool) :
    (g.translateLongMode guestVa guestCr3 =
        (g.longLeaf guestVa guestCr3).map (fun r => inPage guestVa r.1 r.2) ↔
      ∀ n e, g.longLeaf guestVa guestCr3 = some (n, e) → n = 12 ∨ e &&& 0xFFF0000000000000 = 0) ∧
    (∀ n e, g.longLeaf guestVa guestCr3 = some (n, e) → (inPage guestVa n e).toNat < 2 ^ 52) ∧
    (g.translateProtectedMode gva cr3 =
        (g.protectedLeaf pse gva cr3).map (fun r => inProtectedPage gva r.1 r.2) ↔
      g.PseOk pse gva cr3) := by
  refine ⟨?_, fun n e h => inPage_lt _ e (longLeaf_size _ _ e h), protectedPage_iff pse⟩
  rw [translateLongMode_eq]
  cases h : g.longLeaf guestVa guestCr3 with
  | none => simp
  | some r =>
    obtain ⟨n, e⟩ := r
    simp only [Option.map_some, Option.some_inj, Prod.mk.injEq, and_imp, forall_eq',
      forall_apply_eq_imp_iff]
    rcases longLeaf_size _ _ e h with rfl | hn
    · simp [taken]
    · rw [taken_eq_iff guestVa e hn, or_iff_right (by omega)]

/-- A page of 1 GiB at `0x40000000` that is not executable, and in protected mode a page of 4 MiB at
`0x100400000`, or what is a table when there are no such pages. -/
theorem translate_misplaces :
    translateLongMode ⟨some, fun gpa => if gpa = 0x2000 then 0x8000000040000081 else 0x2001,
      fun _ => 0⟩ 5 0x1000 = some 0x8000000040000005 ∧
    let g : GuestMemory := ⟨some, fun _ => 0, fun gpa => if gpa = 0x1000 then 0x402083 else 0x7001⟩
    g.translateProtectedMode 5 0x1000 = some 0x400005 ∧
      (g.protectedLeaf true 5 0x1000).map (fun r => inProtectedPage 5 r.1 r.2) =
        some 0x100400005 ∧
      (g.protectedLeaf false 5 0x1000).map (fun r => inProtectedPage 5 r.1 r.2) = some 0x7005 := by
  decide

end GuestMemory

end Moose.Reindeer
