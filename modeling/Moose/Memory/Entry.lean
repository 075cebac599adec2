import Mathlib.Data.BitVec
import Moose.Lib.Radix

/-!
# Addresses and page table entries

The types of `subsystem/memory.rs` that a walk reads: virtual and physical addresses, pages, frames
and the 64-bit entries of a page table, which hold the address of a frame and flags.

An assertion that fails is `none`. Everything later modules need to know about the bits of an entry
is said here once, as what `present`, `address`, `huge` and `perm` give after each operation.
-/

set_option autoImplicit false

namespace Moose.Memory

open BitVec

abbrev VirtualAddress := BitVec 64
abbrev PhysicalAddress := BitVec 64

def pageSize : Nat := 4096

structure Page where
  address : VirtualAddress
  aligned : address.toNat % pageSize = 0
deriving DecidableEq

structure Frame where
  address : PhysicalAddress
  aligned : address.toNat % pageSize = 0
deriving DecidableEq

/-! ## Virtual addresses -/

section

variable (address : VirtualAddress)

/-- Bit 47 is copied into the bits above it. -/
def signExtend : VirtualAddress := (address <<< 16).sshiftRight 16

/-- The check of `unmap` and of the translation. -/
def Canonical (address : VirtualAddress) : Prop :=
  let unused := address.toNat / 2 ^ 48
  let sign := address.toNat / 2 ^ 47 % 2
  (sign = 0 ∧ unused = 0) ∨ (sign = 1 ∧ unused = 0xFFFF)

instance (address : VirtualAddress) : Decidable (Canonical address) :=
  inferInstanceAs (Decidable (_ ∨ _))

def index (shift : Nat) (address : VirtualAddress) : Fin 512 :=
  ⟨address.toNat / 2 ^ shift % 512, Nat.mod_lt _ (by decide)⟩

/-- The indices at levels 4, 3 and 2. -/
def upperPath : List (Fin 512) :=
  [index 39 address, index 30 address, index 21 address]

theorem toInt_signExtend : (signExtend address).toInt = (address <<< 16).toInt / 65536 := by
  rw [signExtend, toInt_sshiftRight, Int.shiftRight_eq_div_pow]
  rfl

theorem signExtend_eq_iff : signExtend address = address ↔ Canonical address := by
  rw [← toInt_inj, toInt_signExtend, toInt_eq_toNat_cond, toInt_eq_toNat_cond,
    toNat_shiftLeft, Nat.shiftLeft_eq, Canonical]
  omega

variable (i4 i3 i2 i1 : Fin 512)

/-- The address with given indices, as `map_any_inner` puts it together. -/
def addressOf : VirtualAddress :=
  signExtend (BitVec.ofNat 64 i4 <<< 39 ||| BitVec.ofNat 64 i3 <<< 30 |||
    BitVec.ofNat 64 i2 <<< 21 ||| BitVec.ofNat 64 i1 <<< 12)

/-- Sign extension of an address below `2 ^ 48` keeps those bits. -/
theorem toNat_signExtend {address : VirtualAddress} (h : address.toNat < 2 ^ 48) :
    (signExtend address).toNat % 2 ^ 48 = address.toNat ∧ Canonical (signExtend address) := by
  have hint := toInt_signExtend address
  rw [toInt_eq_toNat_cond, toInt_eq_toNat_cond, toNat_shiftLeft,
    Nat.shiftLeft_eq] at hint
  unfold Canonical
  omega

theorem toNat_shiftedIndex (i : Fin 512) {s : Nat} (hs : s ≤ 39) :
    (BitVec.ofNat 64 i <<< s).toNat = i.val * 2 ^ s := by
  have hi := i.isLt
  have hlt : i.val * 2 ^ s < 2 ^ 64 := by
    calc i.val * 2 ^ s ≤ 512 * 2 ^ 39 :=
          Nat.mul_le_mul hi.le (Nat.pow_le_pow_right (by decide) hs)
      _ < 2 ^ 64 := by decide
  have hofNat : (BitVec.ofNat 64 i).toNat = i.val := by
    rw [BitVec.toNat_ofNat, Nat.mod_eq_of_lt (by omega)]
  rw [BitVec.toNat_shiftLeft, hofNat, Nat.shiftLeft_eq, Nat.mod_eq_of_lt hlt]

/-- The shifted indices do not overlap, so that joining them adds them up. -/
theorem toNat_addressOf : (addressOf i4 i3 i2 i1).toNat % 2 ^ 48 =
      i4.val * 2 ^ 39 + i3.val * 2 ^ 30 + i2.val * 2 ^ 21 + i1.val * 2 ^ 12 ∧
    Canonical (addressOf i4 i3 i2 i1) := by
  have hjoin : (BitVec.ofNat 64 i4 <<< 39 ||| BitVec.ofNat 64 i3 <<< 30 |||
      BitVec.ofNat 64 i2 <<< 21 ||| BitVec.ofNat 64 i1 <<< 12).toNat =
        i4.val * 2 ^ 39 + i3.val * 2 ^ 30 + i2.val * 2 ^ 21 + i1.val * 2 ^ 12 := by
    have e1 := Nat.two_pow_add_eq_or_of_lt (show i3.val * 2 ^ 30 < 2 ^ 39 by omega) i4.val
    have e2 := Nat.two_pow_add_eq_or_of_lt (show i2.val * 2 ^ 21 < 2 ^ 30 by omega)
      (i4.val * 2 ^ 9 + i3.val)
    have e3 := Nat.two_pow_add_eq_or_of_lt (show i1.val * 2 ^ 12 < 2 ^ 21 by omega)
      (i4.val * 2 ^ 18 + i3.val * 2 ^ 9 + i2.val)
    simp only [BitVec.toNat_or, toNat_shiftedIndex _ (by decide : 39 ≤ 39),
      toNat_shiftedIndex _ (by decide : 30 ≤ 39), toNat_shiftedIndex _ (by decide : 21 ≤ 39),
      toNat_shiftedIndex _ (by decide : 12 ≤ 39)]
    rw [show i4.val * 2 ^ 39 = 2 ^ 39 * i4.val by omega, ← e1,
      show 2 ^ 39 * i4.val + i3.val * 2 ^ 30 = 2 ^ 30 * (i4.val * 2 ^ 9 + i3.val) by omega, ← e2,
      show 2 ^ 30 * (i4.val * 2 ^ 9 + i3.val) + i2.val * 2 ^ 21 =
        2 ^ 21 * (i4.val * 2 ^ 18 + i3.val * 2 ^ 9 + i2.val) by omega, ← e3]
  have hlt : (BitVec.ofNat 64 i4 <<< 39 ||| BitVec.ofNat 64 i3 <<< 30 |||
      BitVec.ofNat 64 i2 <<< 21 ||| BitVec.ofNat 64 i1 <<< 12).toNat < 2 ^ 48 := by
    rw [hjoin]
    omega
  obtain ⟨hmod, hcanon⟩ := toNat_signExtend hlt
  exact ⟨hmod.trans hjoin, hcanon⟩

/-- The indices are the digits of the page number. -/
theorem digits_index : address.toNat / 2 ^ 12 % 2 ^ 36 = (index 39 address).val * 2 ^ 27 +
      (index 30 address).val * 2 ^ 18 + (index 21 address).val * 2 ^ 9 +
      (index 12 address).val := by
  simp only [index]
  omega

/-- `map_any_inner` returns the page whose indices it found. -/
theorem index_addressOf :
    upperPath (addressOf i4 i3 i2 i1) = [i4, i3, i2] ∧ index 12 (addressOf i4 i3 i2 i1) = i1 ∧
      (addressOf i4 i3 i2 i1).toNat % pageSize = 0 := by
  have hsum := (toNat_addressOf i4 i3 i2 i1).1
  generalize (addressOf i4 i3 i2 i1) = x at hsum
  have e4 : x.toNat / 2 ^ 39 % 512 = i4.val := by omega
  have e3 : x.toNat / 2 ^ 30 % 512 = i3.val := by omega
  have e2 : x.toNat / 2 ^ 21 % 512 = i2.val := by omega
  have e1 : x.toNat / 2 ^ 12 % 512 = i1.val := by omega
  refine ⟨?_, Fin.ext e1, ?_⟩
  · rw [upperPath, show index 39 x = i4 from Fin.ext e4, show index 30 x = i3 from Fin.ext e3,
      show index 21 x = i2 from Fin.ext e2]
  unfold pageSize
  omega

theorem page_eq_of_index {x y : VirtualAddress} (hx : Canonical x) (hy : Canonical y)
    (hax : x.toNat % pageSize = 0) (hay : y.toNat % pageSize = 0)
    (hup : upperPath x = upperPath y) (hlow : index 12 x = index 12 y) : x = y := by
  simp only [upperPath, List.cons.injEq, and_true] at hup
  obtain ⟨h4, h3, h2⟩ := hup
  have hdigits : x.toNat / 2 ^ 12 % 2 ^ 36 = y.toNat / 2 ^ 12 % 2 ^ 36 := by
    rw [digits_index, digits_index, h4, h3, h2, hlow]
  unfold pageSize at hax hay
  unfold Canonical at hx hy
  apply eq_of_toNat_eq
  omega

/-! ## Flags -/

abbrev PageTableFlags := BitVec 64

namespace PageTableFlags

def present : PageTableFlags := 1#64 <<< 0
def writable : PageTableFlags := 1#64 <<< 1
def userAccessible : PageTableFlags := 1#64 <<< 2
def writeThrough : PageTableFlags := 1#64 <<< 3
def noCache : PageTableFlags := 1#64 <<< 4
def accessed : PageTableFlags := 1#64 <<< 5
def dirty : PageTableFlags := 1#64 <<< 6
def hugePage : PageTableFlags := 1#64 <<< 7
def isGlobal : PageTableFlags := 1#64 <<< 8
def noExecute : PageTableFlags := 1#64 <<< 63

/-- The bits that `from_bits_truncate` keeps. -/
def all : PageTableFlags :=
  present ||| writable ||| userAccessible ||| writeThrough ||| noCache ||| accessed ||| dirty |||
    hugePage ||| isGlobal ||| noExecute

def contains (f g : PageTableFlags) : Bool := f &&& g == g

end PageTableFlags

end

structure PageFlags where
  writable : Bool := false
  executable : Bool := false
  userModeAccessible : Bool := false
  writeThrough : Bool := false
  disableCaching : Bool := false

/-- Writable, accessible to the user, executable. -/
abbrev Permissions := Bool × Bool × Bool

/-- `false` below `true`, as a semilattice that computes. -/
abbrev flagInf : SemilatticeInf Bool :=
  (@LinearOrder.toLattice Bool Bool.linearOrder).toSemilatticeInf

instance Permissions.inf : SemilatticeInf Permissions :=
  @Prod.instSemilatticeInf Bool (Bool × Bool) flagInf
    (@Prod.instSemilatticeInf Bool Bool flagInf flagInf)

theorem Permissions.sup_eq (p : Permissions) (w u : Bool) :
    p ⊔ (w, u, false) = (p.1 || w, p.2.1 || u, p.2.2) :=
  Prod.ext rfl (Prod.ext rfl (Bool.or_false p.2.2))

/-- What a mapping with these flags is meant to allow. -/
def PageFlags.perm (f : PageFlags) : Permissions := (f.writable, f.userModeAccessible, f.executable)

/-! ## Entries -/

abbrev PageTableEntry := BitVec 64

namespace PageTableEntry

open PageTableFlags (contains)

section

variable (e : PageTableEntry)

def address : PhysicalAddress := e &&& 0x0FFFFFFFFFFFF000#64

def flags : PageTableFlags :=
  (e &&& (1#64 <<< 63 ||| 0xFFF#64)) &&& PageTableFlags.all

/-- Both assertions of `set_address`, then the write. -/
def setAddress (a : PhysicalAddress) : Option PageTableEntry :=
  if a &&& 0xFFF#64 = 0#64 ∧ a < 1#64 <<< 52 then some (a ||| flags e) else none

def setFlags (f : PageTableFlags) : PageTableEntry := address e ||| f

def addFlag (g : PageTableFlags) : PageTableEntry := setFlags e (flags e ||| g)

/-- `assign_propagable_page_flags_to_page_table_entry` -/
def assignPropagable (f : PageFlags) : PageTableEntry :=
  let e := if f.writable then addFlag e PageTableFlags.writable else e
  if f.userModeAccessible then addFlag e PageTableFlags.userAccessible else e

/-- The flags that only the last level takes. -/
def assignLeafFlags (f : PageFlags) : PageTableEntry :=
  let e := if !f.executable then addFlag e PageTableFlags.noExecute else e
  let e := if f.writeThrough then addFlag e PageTableFlags.writeThrough else e
  if f.disableCaching then addFlag e PageTableFlags.noCache else e

/-- The entry for a new table or a new mapping: an address and no flag but `PRESENT`. -/
def link (frame : Frame) : Option PageTableEntry := do
  let e ← setAddress e frame.address
  some (setFlags e PageTableFlags.present)

def present (e : PageTableEntry) : Bool := contains (flags e) PageTableFlags.present
def huge : Bool := contains (flags e) PageTableFlags.hugePage
def noExecute (e : PageTableEntry) : Bool := contains (flags e) PageTableFlags.noExecute

def perm : Permissions :=
  (contains (flags e) PageTableFlags.writable, contains (flags e) PageTableFlags.userAccessible,
    !noExecute e)

/-! ### Address and flags are apart -/

end

variable {a : PhysicalAddress} {f g : PageTableFlags} {k : Nat}

theorem address_or (ha : address a = a) (hf : flags f = f) : address (a ||| f) = a := by
  have hzero : address f = 0#64 := by
    rw [← hf, address, flags, BitVec.and_assoc, BitVec.and_assoc]
    have : (1#64 <<< 63 ||| 0xFFF#64) &&& (PageTableFlags.all &&& 0x0FFFFFFFFFFFF000#64) =
      0#64 := by
      decide
    rw [this, BitVec.and_zero]
  rw [address, BitVec.and_or_distrib_right]
  change address a ||| address f = a
  rw [ha, hzero, BitVec.or_zero]

theorem flags_or (ha : address a = a) (hf : flags f = f) : flags (a ||| f) = f := by
  have hzero : flags a = 0#64 := by
    rw [← ha, address, flags, BitVec.and_assoc, BitVec.and_assoc]
    have : 0x0FFFFFFFFFFFF000#64 &&& ((1#64 <<< 63 ||| 0xFFF#64) &&& PageTableFlags.all) =
      0#64 := by
      decide
    rw [this, BitVec.and_zero]
  have hor : flags (a ||| f) = flags a ||| flags f := by
    simp [flags, BitVec.and_or_distrib_right]
  rw [hor, hzero, hf, BitVec.zero_or]

section

variable (e : PageTableEntry)

theorem address_address : address (address e) = address e := by
  rw [address, address, BitVec.and_assoc, BitVec.and_self]

theorem flags_flags : flags (flags e) = flags e := by
  simp only [flags, BitVec.and_assoc]
  congr 1

theorem flags_or_flags (hf : flags f = f) (hg : flags g = g) : flags (f ||| g) = f ||| g := by
  have hor : flags (f ||| g) = flags f ||| flags g := by
    simp [flags, and_or_distrib_right]
  rw [hor, hf, hg]

theorem address_setFlags (hf : flags f = f) :
    address (setFlags e f) = address e := address_or (address_address e) hf

theorem flags_setFlags (hf : flags f = f) :
    flags (setFlags e f) = f := flags_or (address_address e) hf

/-- An aligned address below `2 ^ 52` has no other bits than those of a frame number. -/
theorem and_frameMask {a : BitVec 64} (hlow : a &&& 0xFFF#64 = 0#64) (hlt : a < 1#64 <<< 52) :
    a &&& 0x000FFFFFFFFFF000#64 = a := by
  have hsplit : a = (a &&& 0xFFF#64) ||| (a &&& 0x000FFFFFFFFFF000#64) |||
      (a &&& 0xFFF0000000000000#64) := by
    rw [← and_or_distrib_left, ← and_or_distrib_left]
    have : 0xFFF#64 ||| 0x000FFFFFFFFFF000#64 ||| 0xFFF0000000000000#64 = allOnes 64 := by
      decide
    rw [this, and_allOnes]
  have hhigh : a &&& 0xFFF0000000000000#64 = 0#64 := by
    have hnat : a.toNat < 2 ^ 52 := by
      have := lt_def.mp hlt
      simpa using this
    apply eq_of_getLsbD_eq
    intro i hi
    rw [getLsbD_and, getLsbD_zero]
    by_cases h52 : i < 52
    · have : (0xFFF0000000000000#64).getLsbD i = false := by
        have hall : ∀ j : Fin 52, (0xFFF0000000000000#64).getLsbD j = false := by decide
        exact hall ⟨i, h52⟩
      rw [this, Bool.and_false]
    · rw [getLsbD, Nat.testBit_lt_two_pow
        (Nat.lt_of_lt_of_le hnat (Nat.pow_le_pow_right (by decide) (by omega))), Bool.false_and]
  rw [hlow, hhigh, zero_or, or_zero] at hsplit
  exact hsplit.symm

theorem address_eq_self (h : a &&& 0xFFF#64 = 0#64 ∧ a < 1#64 <<< 52) : address a = a := by
  have hmask := and_frameMask h.1 h.2
  have hsub : 0x000FFFFFFFFFF000#64 &&& 0x0FFFFFFFFFFFF000#64 = 0x000FFFFFFFFFF000#64 := by decide
  rw [address, ← hmask, BitVec.and_assoc, hsub]

/-- The assertions of `set_address` hold for an aligned address below `2 ^ 52`. -/
theorem assertions_of_aligned (ha : a.toNat % pageSize = 0)
    (h : a.toNat < 2 ^ 52) : a &&& 0xFFF#64 = 0#64 ∧ a < 1#64 <<< 52 := by
  constructor
  · apply eq_of_toNat_eq
    rw [toNat_and]
    have hmod := Nat.and_two_pow_sub_one_eq_mod a.toNat 12
    exact hmod.trans ha
  · exact lt_def.mpr h

/-! ### Single flags -/

theorem contains_bit (f : PageTableFlags) (hk : k < 64) :
    contains f (1#64 <<< k) = f.getLsbD k := by
  rw [contains, ← twoPow_eq, and_twoPow]
  have hne : (0#64 == twoPow 64 k) = false := by
    rw [beq_eq_false_iff_ne]
    intro heq
    have := congrArg (getLsbD · k) heq
    simp [hk] at this
  cases f.getLsbD k with
  | true => simp
  | false => simpa using hne

theorem flags_addFlag (hg : flags g = g) : flags (addFlag e g) = flags e ||| g :=
  flags_setFlags e (flags_or_flags (flags_flags e) hg)

theorem address_addFlag (hg : flags g = g) : address (addFlag e g) = address e :=
  address_setFlags e (flags_or_flags (flags_flags e) hg)

theorem contains_addFlag (hg : flags g = g)
    (hk : k < 64) : contains (flags (addFlag e g)) (1#64 <<< k) =
      (contains (flags e) (1#64 <<< k) || contains g (1#64 <<< k)) := by
  rw [flags_addFlag e hg, contains_bit _ hk, contains_bit _ hk, contains_bit _ hk, getLsbD_or]

/-! ### What a walk sees -/

end

/-- What the walks read of an entry. -/
structure View where
  present : Bool
  address : PhysicalAddress
  huge : Bool
  perm : Permissions
deriving DecidableEq

variable (e : PageTableEntry)

def view : View := ⟨present e, address e, huge e, perm e⟩

theorem view_addFlag (hg : flags g = g) : view (addFlag e g) =
      ⟨present e || contains g PageTableFlags.present, address e,
        huge e || contains g PageTableFlags.hugePage,
        ((perm e).1 || contains g PageTableFlags.writable,
          (perm e).2.1 || contains g PageTableFlags.userAccessible,
          (perm e).2.2 && !contains g PageTableFlags.noExecute)⟩ := by
  simp only [view, present, huge, perm, noExecute, address_addFlag e hg, PageTableFlags.present,
    PageTableFlags.hugePage, PageTableFlags.writable, PageTableFlags.userAccessible,
    PageTableFlags.noExecute, contains_addFlag e hg (by decide : 0 < 64),
    contains_addFlag e hg (by decide : 1 < 64), contains_addFlag e hg (by decide : 2 < 64),
    contains_addFlag e hg (by decide : 7 < 64), contains_addFlag e hg (by decide : 63 < 64),
    Bool.not_or]

/-- A flag that is added on a condition, in terms of what a walk sees of the flag alone. -/
theorem view_addFlag_if (b : Bool) {w u n : Bool}
    (hg : flags g = g) (hview : view g = ⟨false, 0#64, false, (w, u, !n)⟩) :
    view (if b then addFlag e g else e) =
      { view e with perm := ((perm e).1 || (b && w), (perm e).2.1 || (b && u),
        (perm e).2.2 && !(b && n)) } := by
  cases b with
  | false => simp [view]
  | true =>
    simp only [view, present, huge, perm, noExecute, hg, View.mk.injEq, Prod.mk.injEq] at hview
    obtain ⟨h1, -, h2, h3, h4, h5⟩ := hview
    rw [if_pos rfl, view_addFlag e hg, h1, h2, h3, h4, h5]
    simp [view]

theorem view_assignPropagable (f : PageFlags) : view (assignPropagable e f) =
      { view e with perm := perm e ⊔ (f.writable, f.userModeAccessible, false) } := by
  have hw := view_addFlag_if e f.writable (g := PageTableFlags.writable) (w := true) (u := false)
    (n := false) (by decide) (by decide)
  unfold assignPropagable
  rw [view_addFlag_if _ f.userModeAccessible (g := PageTableFlags.userAccessible) (w := false)
    (u := true) (n := false) (by decide) (by decide), hw]
  have hperm := congrArg View.perm hw
  change perm _ = _ at hperm
  rw [hperm, Permissions.sup_eq]
  simp

theorem view_assignLeafFlags (f : PageFlags) : view (assignLeafFlags e f) =
      { view e with perm := ((perm e).1, (perm e).2.1, (perm e).2.2 && f.executable) } := by
  have hx := view_addFlag_if e (!f.executable) (g := PageTableFlags.noExecute) (w := false)
    (u := false) (n := true) (by decide) (by decide)
  have hx_perm := congrArg View.perm hx
  have hplain : ∀ (e : PageTableEntry) (b : Bool) {g : PageTableFlags}, flags g = g →
      view g = ⟨false, 0#64, false, (false, false, true)⟩ →
      view (if b then addFlag e g else e) = view e := by
    intro e b g hg hview
    rw [view_addFlag_if e b (w := false) (u := false) (n := false) hg hview]
    simp [view]
  unfold assignLeafFlags
  rw [hplain _ _ (by decide) (by decide), hplain _ _ (by decide) (by decide), hx]
  simp

theorem view_link {frame : Frame} (h : frame.address.toNat < 2 ^ 52) :
    ∃ e', link e frame = some e' ∧
      view e' = ⟨true, frame.address, false, (false, false, true)⟩ := by
  have hassert := assertions_of_aligned frame.aligned h
  refine ⟨_, by rw [link, setAddress, if_pos hassert]; rfl, ?_⟩
  have hflags : flags PageTableFlags.present = PageTableFlags.present := by decide
  have haddr : address (frame.address ||| flags e) = frame.address :=
    address_or (address_eq_self hassert) (flags_flags e)
  simp only [view, present, huge, perm, noExecute, flags_setFlags _ hflags,
    address_setFlags _ hflags, haddr, View.mk.injEq, true_and]
  decide

/-! ## The format of the tables -/

/-- An entry that leads to a table is no huge page and restricts execution in no way. -/
def format : Lib.Radix.Format PhysicalAddress PageTableEntry Permissions where
  present := present
  addr := address
  perm := perm
  inner e := huge e = false ∧ (perm e).2.2 = true

theorem present_zero : present 0#64 = false := by decide

end PageTableEntry

end Moose.Memory
