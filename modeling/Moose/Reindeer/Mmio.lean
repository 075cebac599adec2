import Mathlib.Data.BitVec
import Mathlib.Logic.Function.Basic

/-!
# Device accesses of the guest

When the guest touches memory that belongs to a device, the faulting instruction is decoded
(`guest/mmio_decode.rs`), the access is handed to the bus, and the registers are updated
(`guest/registers.rs`, `handle_slat_violation` in `run_loop.rs`). `none` is a panic.

The decoder of instructions is trusted: `Instruction` is what it returns. The handlers of the
devices are a parameter: what they answer to reads, and which accesses they do not know and panic
on. What a device is told by a write is an output. A fault is followed to the next entry into the
guest, because RSP is the one general register that is not restored from the saved ones but from the
VMCS, where nobody writes it: what was loaded into it is lost.

The second half says what the processor itself would do with such an instruction, and
`emulate_eq_execute_iff` when the emulation does the same.
-/

set_option autoImplicit false

namespace Moose.Reindeer.Mmio

open Option BitVec

/-! ## Registers -/

inductive Gpr where
  | rax | rcx | rdx | rbx | rsp | rbp | rsi | rdi
  | r8 | r9 | r10 | r11 | r12 | r13 | r14 | r15
deriving DecidableEq

/-- The registers whose second byte has a name of its own: AH, CH, DH and BH. -/
inductive HighByte where
  | ah | ch | dh | bh

def HighByte.gpr : HighByte → Gpr
  | ah => .rax
  | ch => .rcx
  | dh => .rdx
  | bh => .rbx

/-- The names of registers in instructions. `r32 rax` is EAX, `r16 rax` AX and `r8 rax` AL; `other`
stands for all that are no general registers. -/
inductive Register where
  | r64 (g : Gpr)
  | r32 (g : Gpr)
  | r16 (g : Gpr)
  | r8 (g : Gpr)
  | high (h : HighByte)
  | other

structure RegisterState where
  general : Gpr → BitVec 64
  rip : BitVec 64
  rflags : BitVec 64 := 2#64

def Gpr.index : Gpr → Nat
  | rax => 0
  | rcx => 1
  | rdx => 2
  | rbx => 3
  | rsp => 4
  | rbp => 5
  | rsi => 6
  | rdi => 7
  | r8 => 8
  | r9 => 9
  | r10 => 10
  | r11 => 11
  | r12 => 12
  | r13 => 13
  | r14 => 14
  | r15 => 15

/-- The number of the register and its width in bytes. -/
def regInfo : Register → Nat × Nat
  | .r64 g => (g.index, 8)
  | .r32 g => (g.index, 4)
  | .r16 g => (g.index, 2)
  | .r8 g => (g.index, 1)
  | .high h => (h.gpr.index, 1)
  | .other => (0xFF, 0)

namespace RegisterState

/-- The first match of `get`. The branch of RSP is marked unreachable. -/
def valueAt (s : RegisterState) : Nat → Option (BitVec 64)
  | 0 => some (s.general .rax)
  | 1 => some (s.general .rcx)
  | 2 => some (s.general .rdx)
  | 3 => some (s.general .rbx)
  | 4 => none
  | 5 => some (s.general .rbp)
  | 6 => some (s.general .rsi)
  | 7 => some (s.general .rdi)
  | 8 => some (s.general .r8)
  | 9 => some (s.general .r9)
  | 10 => some (s.general .r10)
  | 11 => some (s.general .r11)
  | 12 => some (s.general .r12)
  | 13 => some (s.general .r13)
  | 14 => some (s.general .r14)
  | 15 => some (s.general .r15)
  | _ => none

/-- Only the high bytes are cut out, every other name gives all 64 bits. -/
def get (s : RegisterState) (index : Nat) (reg : Register) : Option (BitVec 64) :=
  (s.valueAt index).map fun val : BitVec 64 =>
    match reg with
    | .high _ => (val >>> 8) &&& 0xFF#64
    | _ => val

def write (s : RegisterState) (g : Gpr) (value : BitVec 64) : RegisterState :=
  { s with general := Function.update s.general g value }

def set (s : RegisterState) (reg : Register) (value : BitVec 64) : RegisterState :=
  match reg with
  | .r64 g => s.write g value
  | .r32 g => s.write g (value &&& 0xFFFFFFFF#64)
  | .r16 g => s.write g ((s.general g &&& ~~~0xFFFF#64) ||| (value &&& 0xFFFF#64))
  | .r8 g => s.write g ((s.general g &&& ~~~0xFF#64) ||| (value &&& 0xFF#64))
  | .high h =>
    s.write h.gpr ((s.general h.gpr &&& ~~~0xFF00#64) ||| ((value &&& 0xFF#64) <<< 8))
  | .other => s

end RegisterState

/-! ## Decoding -/

inductive MemorySize where
  | uint8 | int8 | uint16 | int16 | uint32 | int32 | uint64 | int64
  | other

/-- The kinds of operands, with their values. `immediate32to64` is an immediate of 32 bits that the
processor extends to 64 by its sign, and so on. -/
inductive OpKind where
  | register (reg : Register)
  | immediate8 (value : BitVec 8)
  | immediate16 (value : BitVec 16)
  | immediate32 (value : BitVec 32)
  | immediate64 (value : BitVec 64)
  | immediate8to16 (value : BitVec 8)
  | immediate8to32 (value : BitVec 8)
  | immediate8to64 (value : BitVec 8)
  | immediate32to64 (value : BitVec 32)
  | memory
  | other

inductive Mnemonic where
  | mov | movzx | movsx
deriving DecidableEq

/-- An instruction that moves data, as the decoder returns it. -/
structure Instruction where
  mnemonic : Mnemonic
  memorySize : MemorySize
  op0 : OpKind
  op1 : OpKind
  len : Nat

def memoryAccessLength : MemorySize → Option Nat
  | .uint8 | .int8 => some 1
  | .uint16 | .int16 => some 2
  | .uint32 | .int32 => some 4
  | .uint64 | .int64 => some 8
  | .other => none

structure DecodedMmioAccess where
  accessLength : Nat
  data : Option (BitVec 64)
  register : Option Register
  instructionLength : Nat

/-- The value of an immediate source operand, for the kinds the code lists. -/
def immediate : OpKind → Option (BitVec 64)
  | .immediate8 value => some (value.setWidth 64)
  | .immediate16 value => some (value.setWidth 64)
  | .immediate32 value => some (value.setWidth 64)
  | .immediate64 value => some value
  | _ => none

def decodeMmioAccess (i : Instruction) (isRead isWrite : Bool) (gpr : RegisterState) :
    Option DecodedMmioAccess := do
  let accessLength ← memoryAccessLength i.memorySize
  if isRead then
    match i.op0 with
    | .register reg => some ⟨accessLength, none, some reg, i.len⟩
    | _ => none
  else if isWrite then
    match i.op1 with
    | .register reg =>
      (gpr.get (regInfo reg).1 reg).map (⟨accessLength, some ·, some reg, i.len⟩)
    | op => (immediate op).map (⟨accessLength, some ·, none, i.len⟩)
  else
    some ⟨accessLength, none, none, i.len⟩

/-! ## The bus and the fault handler -/

structure MmioMapping (D : Type) where
  first : BitVec 64
  last : BitVec 64
  device : D

structure SystemBus (D : Type) where
  mmioMap : List (MmioMapping D)

structure MmioRead where
  cpuId : Nat
  addr : BitVec 64
  width : Nat
  register : Register

/-- What `handle_mmio_write` of a device is called with. -/
structure MmioWrite where
  cpuId : Nat
  addr : BitVec 64
  value : BitVec 64
  width : Nat

/-- The handlers of the devices. `handle_mmio_read` of the local and of the I/O interrupt controller
panics at a register it does not know, and so does `handle_mmio_write`. -/
structure DeviceHandlers (D : Type) where
  handleMmioRead : D → MmioRead → Option (BitVec 64)
  handleMmioWrite : D → MmioWrite → Bool

section

variable {D : Type}

/-- The device of the first range that contains the address. -/
def SystemBus.deviceAt (bus : SystemBus D) (addr : BitVec 64) : Option D :=
  (bus.mmioMap.find? fun e => e.first.ule addr && addr.ule e.last).map (·.device)

/-- The inner `none` is an address that no device claims. -/
def SystemBus.dispatchMmioRead (bus : SystemBus D) (dev : DeviceHandlers D) (read : MmioRead) :
    Option (Option (BitVec 64)) :=
  match bus.deviceAt read.addr with
  | none => some none
  | some d => (dev.handleMmioRead d read).map some

/-- The device the write goes to, with what it is told. -/
def SystemBus.dispatchMmioWrite (bus : SystemBus D) (dev : DeviceHandlers D) (write : MmioWrite) :
    Option (Option (D × MmioWrite)) :=
  match bus.deviceAt write.addr with
  | none => some none
  | some d => if dev.handleMmioWrite d write then some (some (d, write)) else none

/-- What a read gives that no device claims. -/
def unclaimedValue : Nat → BitVec 64
  | 1 => 0xFF#64
  | 2 => 0xFFFF#64
  | 4 => 0xFFFFFFFF#64
  | _ => 0xFFFFFFFFFFFFFFFF#64

/-- What a fault leaves behind: the registers and what a device was told. -/
structure Outcome (D : Type) where
  gpr : RegisterState
  delivered : Option (D × MmioWrite)

def advanceRip (gpr : RegisterState) (instructionLength : Nat) : Option RegisterState :=
  if gpr.rip.toNat + instructionLength < 2 ^ 64 then
    some { gpr with rip := gpr.rip + BitVec.ofNat 64 instructionLength }
  else
    none

def handleSlatViolation (bus : SystemBus D) (dev : DeviceHandlers D) (cpuId : Nat)
    (gpa : BitVec 64) (dataRead dataWrite : Bool) (access : DecodedMmioAccess)
    (gpr : RegisterState) : Option (Outcome D) :=
  if dataRead then do
    let register ← access.register
    let value ← bus.dispatchMmioRead dev ⟨cpuId, gpa, access.accessLength, register⟩
    let value := value.getD (unclaimedValue access.accessLength)
    (advanceRip (gpr.set register value) access.instructionLength).map (⟨·, none⟩)
  else if dataWrite then do
    let data ← access.data
    let delivered ← bus.dispatchMmioWrite dev ⟨cpuId, gpa, data, access.accessLength⟩
    (advanceRip gpr access.instructionLength).map (⟨·, delivered⟩)
  else
    (advanceRip gpr access.instructionLength).map (⟨·, none⟩)

/-- What the guest goes on with in `run`: RIP is written to the VMCS, the general registers are
restored from the saved ones, and RSP is what it was at the exit. -/
def RegisterState.vmEntry (exited saved : RegisterState) : RegisterState :=
  saved.write .rsp (exited.general .rsp)

/-- A fault of the guest from the decoding of the instruction to the next entry. -/
def emulate (bus : SystemBus D) (dev : DeviceHandlers D) (cpuId : Nat)
    (gpa : BitVec 64) (i : Instruction) (isRead isWrite : Bool) (gpr : RegisterState) :
    Option (Outcome D) := do
  let access ← decodeMmioAccess i isRead isWrite gpr
  let outcome ← handleSlatViolation bus dev cpuId gpa isRead isWrite access gpr
  some { outcome with gpr := gpr.vmEntry outcome.gpr }

end

/-! ## What the processor does -/

def Register.bytes (reg : Register) : Nat := (regInfo reg).2

def Register.gpr : Register → Option Gpr
  | r64 g | r32 g | r16 g | r8 g => some g
  | high h => some h.gpr
  | other => none

namespace RegisterState

/-- The part of the general register that an operand names, with zeros above it. -/
def readOperand (s : RegisterState) : Register → BitVec 64
  | .r64 g => s.general g
  | .r32 g => ((s.general g).setWidth 32).setWidth 64
  | .r16 g => ((s.general g).setWidth 16).setWidth 64
  | .r8 g => ((s.general g).setWidth 8).setWidth 64
  | .high h => ((s.general h.gpr).extractLsb' 8 8).setWidth 64
  | .other => 0#64

/-- A write to 32 bits clears the upper half, a write to less keeps the rest of the register. -/
def writeOperand (s : RegisterState) (reg : Register) (value : BitVec 64) : RegisterState :=
  match reg with
  | .r64 g => s.write g value
  | .r32 g => s.write g (0#32 ++ value.setWidth 32)
  | .r16 g => s.write g ((s.general g).extractLsb' 16 48 ++ value.setWidth 16)
  | .r8 g => s.write g ((s.general g).extractLsb' 8 56 ++ value.setWidth 8)
  | .high h =>
    s.write h.gpr ((s.general h.gpr).extractLsb' 16 48 ++
      (value.setWidth 8 ++ (s.general h.gpr).setWidth 8 : BitVec 16))
  | .other => s

def sourceOperand (s : RegisterState) : OpKind → BitVec 64
  | .register reg => s.readOperand reg
  | .immediate8 value => value.setWidth 64
  | .immediate16 value => value.setWidth 64
  | .immediate32 value => value.setWidth 64
  | .immediate64 value => value
  | .immediate8to16 value => (value.signExtend 16).setWidth 64
  | .immediate8to32 value => (value.signExtend 32).setWidth 64
  | .immediate8to64 value => value.signExtend 64
  | .immediate32to64 value => value.signExtend 64
  | .memory => 0#64
  | .other => 0#64

end RegisterState

def lowBytes (len : Nat) (value : BitVec 64) : BitVec 64 := (value.setWidth (8 * len)).setWidth 64

/-- What an instruction makes of the `len` bytes it loads. -/
def Mnemonic.extend (len : Nat) (value : BitVec 64) : Mnemonic → BitVec 64
  | mov => lowBytes len value
  | movzx => lowBytes len value
  | movsx => (value.setWidth (8 * len)).signExtend 64

/-- The width of a source operand; zero for what no store has as its source. -/
def OpKind.bytes : OpKind → Nat
  | register reg => reg.bytes
  | immediate8 _ => 1
  | immediate16 _ => 2
  | immediate32 _ => 4
  | immediate64 _ => 8
  | immediate8to16 _ => 2
  | immediate8to32 _ => 4
  | immediate8to64 _ => 8
  | immediate32to64 _ => 8
  | memory => 0
  | other => 0

/-- The two ways in which a move touches memory. -/
inductive Move where
  /-- `dst` gets the `len` bytes of memory. -/
  | load (mnemonic : Mnemonic) (dst : Register) (len : Nat)
  /-- The `len` bytes of memory get the operand. -/
  | store (src : OpKind) (len : Nat)

/-- The move an instruction is. A plain move has operands of one width; the extending ones load
fewer bytes than the register has. -/
inductive Instruction.IsMove (i : Instruction) : Move → Prop where
  | load {dst : Register} {len : Nat} (hlen : memoryAccessLength i.memorySize = some len)
      (h0 : i.op0 = .register dst) (h1 : i.op1 = .memory)
      (hwidth : if i.mnemonic = .mov then dst.bytes = len else len < dst.bytes) :
      IsMove i (.load i.mnemonic dst len)
  | store {len : Nat} (hlen : memoryAccessLength i.memorySize = some len) (hm : i.mnemonic = .mov)
      (h0 : i.op0 = .memory) (hwidth : i.op1.bytes = len) : IsMove i (.store i.op1 len)

/-- Whether the access is a read; the other bit of the exit says the opposite. -/
def Move.isRead : Move → Bool
  | load _ _ _ => true
  | store _ _ => false

section

variable {D : Type}

/-- What the device answers, unless it panics. -/
def loadedValue (bus : SystemBus D) (dev : DeviceHandlers D) (cpuId : Nat)
    (gpa : BitVec 64) (dst : Register) (len : Nat) : Option (BitVec 64) :=
  (bus.dispatchMmioRead dev ⟨cpuId, gpa, len, dst⟩).map (·.getD (unclaimedValue len))

/-- The move as the processor does it, when the memory at `gpa` has the value `loaded`, and a store
goes to the device that claims the address. -/
def execute (bus : SystemBus D) (cpuId : Nat) (gpa : BitVec 64) (loaded : BitVec 64)
    (instructionLength : Nat) (s : RegisterState) : Move → Outcome D
  | .load mnemonic dst len =>
    let value := mnemonic.extend len loaded
    ⟨{ s.writeOperand dst value with rip := s.rip + BitVec.ofNat 64 instructionLength }, none⟩
  | .store src len =>
    ⟨{ s with rip := s.rip + BitVec.ofNat 64 instructionLength },
      (bus.deviceAt gpa).map (·, ⟨cpuId, gpa, lowBytes len (s.sourceOperand src), len⟩)⟩

/-- What the memory at `gpa` has for the move: the answer of the device, if there is one. -/
def Move.loaded (bus : SystemBus D) (dev : DeviceHandlers D) (cpuId : Nat) (gpa : BitVec 64) :
    Move → BitVec 64
  | load _ dst len => (loadedValue bus dev cpuId gpa dst len).getD 0#64
  | store _ _ => 0#64

end

/-- The bits of the general register above the operand are zero. -/
def RegisterState.ZeroAbove (s : RegisterState) : Register → Prop
  | .r32 g => (s.general g).toNat < 2 ^ 32
  | .r16 g => (s.general g).toNat < 2 ^ 16
  | .r8 g => (s.general g).toNat < 2 ^ 8
  | .r64 _ | .high _ | .other => True

instance (s : RegisterState) : (reg : Register) → Decidable (s.ZeroAbove reg)
  | .r32 g => inferInstanceAs (Decidable ((s.general g).toNat < 2 ^ 32))
  | .r16 g => inferInstanceAs (Decidable ((s.general g).toNat < 2 ^ 16))
  | .r8 g => inferInstanceAs (Decidable ((s.general g).toNat < 2 ^ 8))
  | .r64 _ | .high _ | .other => .isTrue trivial

/-! ## The operands -/

theorem valueAt_index (s : RegisterState) (g : Gpr) :
    s.valueAt g.index = if g = .rsp then none else some (s.general g) := by
  cases g <;> rfl

variable {i : Nat}

theorem getLsbD_lowMask (k : Nat) (hi : i < 64) :
    (BitVec.ofNat 64 (2 ^ k - 1)).getLsbD i = decide (i < k) := by
  rw [getLsbD_ofNat, Nat.testBit_two_pow_sub_one, decide_eq_true hi, Bool.true_and]

theorem getLsbD_maskReplace (k : Nat) (x v : BitVec 64) (hi : i < 64) :
    ((x &&& ~~~BitVec.ofNat 64 (2 ^ k - 1)) ||| (v &&& BitVec.ofNat 64 (2 ^ k - 1))).getLsbD i =
      if i < k then v.getLsbD i else x.getLsbD i := by
  rw [getLsbD_or, getLsbD_and, getLsbD_and, getLsbD_not,
    getLsbD_lowMask k hi]
  by_cases h : i < k <;> simp [h, hi]

/-- Replacing them by putting two pieces together. -/
theorem getLsbD_appendReplace (k n : Nat) (x : BitVec 64) (v : BitVec k) (hi : i < n + k) :
    (x.extractLsb' k n ++ v).getLsbD i = if i < k then v.getLsbD i else x.getLsbD i := by
  rw [getLsbD_append, getLsbD_extractLsb']
  by_cases h : i < k
  · rw [if_pos h, if_pos h]
  rw [if_neg h, if_neg h, decide_eq_true (show i - k < n by omega), Bool.true_and,
    Nat.add_sub_cancel' (Nat.le_of_not_lt h)]

/-- The masks of `set` are the width rules of the processor. -/
theorem set_eq_writeOperand (s : RegisterState) (reg : Register) (value : BitVec 64) :
    s.set reg value = s.writeOperand reg value := by
  cases reg with
  | r64 g => rfl
  | other => rfl
  | r32 g =>
    refine congrArg (s.write g) (eq_of_getLsbD_eq fun i hi => ?_)
    rw [getLsbD_and, show (0xFFFFFFFF#64).getLsbD i = _ from getLsbD_lowMask 32 hi,
      getLsbD_append, getLsbD_setWidth, getLsbD_zero]
    by_cases h : i < 32 <;> simp [h]
  | r16 g =>
    refine congrArg (s.write g) (eq_of_getLsbD_eq fun i hi => ?_)
    refine (getLsbD_maskReplace 16 _ _ hi).trans ?_
    rw [getLsbD_appendReplace 16 48 _ _ hi, getLsbD_setWidth]
    by_cases h : i < 16 <;> simp [h]
  | r8 g =>
    refine congrArg (s.write g) (eq_of_getLsbD_eq fun i hi => ?_)
    refine (getLsbD_maskReplace 8 _ _ hi).trans ?_
    rw [getLsbD_appendReplace 8 56 _ _ hi, getLsbD_setWidth]
    by_cases h : i < 8 <;> simp [h]
  | high b =>
    refine congrArg (s.write b.gpr) (eq_of_getLsbD_eq fun i hi => ?_)
    have hmask : (0xFF00#64).getLsbD i = (decide (i < 16) && !decide (i < 8)) := by
      rw [show 0xFF00#64 = 0xFFFF#64 &&& ~~~0xFF#64 from rfl, getLsbD_and,
        getLsbD_not, show (0xFFFF#64).getLsbD i = _ from getLsbD_lowMask 16 hi,
        show (0xFF#64).getLsbD i = _ from getLsbD_lowMask 8 hi]
      simp [hi]
    have hbyte : (0xFF#64).getLsbD (i - 8) = decide (i - 8 < 8) := getLsbD_lowMask 8 (by omega)
    rw [getLsbD_or, getLsbD_and, getLsbD_not, hmask, getLsbD_shiftLeft,
      getLsbD_and, hbyte, getLsbD_appendReplace 16 48 _ _ hi, getLsbD_append,
      getLsbD_setWidth, getLsbD_setWidth]
    -- The three parts of the register: below, inside and above the second byte.
    by_cases h8 : i < 8
    · simp [h8, hi, show i < 16 by omega]
    by_cases h16 : i < 16
    · simp [h8, h16, hi, show i - 8 < 8 by omega]
    · simp [h8, h16, hi, show ¬ i - 8 < 8 by omega]

@[simp] theorem general_write (s : RegisterState) (g : Gpr) (v : BitVec 64) :
    (s.write g v).general g = v := by
  simp [RegisterState.write]

theorem setWidth_append_low {k n : Nat} (x : BitVec n) (v : BitVec k) :
    (x ++ v).setWidth k = v := by
  refine eq_of_getLsbD_eq fun i hi => ?_
  rw [getLsbD_setWidth, getLsbD_append, if_pos hi, decide_eq_true hi, Bool.true_and]

theorem toNat_lowBytes (len : Nat) (v : BitVec 64) :
    (lowBytes len v).toNat = v.toNat % 2 ^ (8 * len) := by
  rw [lowBytes, toNat_setWidth, toNat_setWidth]
  exact Nat.mod_eq_of_lt (lt_of_le_of_lt (Nat.mod_le _ _) v.isLt)

theorem eq_lowBytes_iff (len : Nat) (v : BitVec 64) :
    v = lowBytes len v ↔ v.toNat < 2 ^ (8 * len) := by
  rw [← toNat_inj, toNat_lowBytes, eq_comm, Nat.mod_eq_iff_lt (Nat.two_pow_pos _).ne']

theorem lowBytes_lowBytes (len : Nat) (v : BitVec 64) :
    lowBytes len (lowBytes len v) = lowBytes len v :=
  eq_of_toNat_eq (by rw [toNat_lowBytes, toNat_lowBytes, Nat.mod_mod])

/-- A register shows the low bytes of what was written into it. -/
theorem readOperand_writeOperand (s : RegisterState) (reg : Register) (v : BitVec 64) :
    (s.writeOperand reg v).readOperand reg = lowBytes reg.bytes v := by
  cases reg with
  | r64 g => exact (general_write s g v).trans ((eq_lowBytes_iff 8 v).mpr v.isLt)
  | other => exact eq_of_toNat_eq (by simp [toNat_lowBytes, Register.bytes, regInfo,
      RegisterState.readOperand, Nat.mod_one])
  | r32 g | r16 g | r8 g =>
    simp only [RegisterState.writeOperand, RegisterState.readOperand, general_write,
      setWidth_append_low]
    rfl
  | high b =>
    have hbyte (x : BitVec 48) (y z : BitVec 8) :
        (x ++ (y ++ z : BitVec 16)).extractLsb' 8 8 = y := by
      refine eq_of_getLsbD_eq fun i hi => ?_
      rw [getLsbD_extractLsb', getLsbD_append, if_pos (by omega),
        getLsbD_append, if_neg (by omega), decide_eq_true hi, Bool.true_and,
        Nat.add_sub_cancel_left]
    simp only [RegisterState.writeOperand, RegisterState.readOperand, general_write, hbyte]
    rfl

theorem writeOperand_eq_iff (s : RegisterState) (reg : Register) (v v' : BitVec 64) :
    s.writeOperand reg v = s.writeOperand reg v' ↔
      lowBytes reg.bytes v = lowBytes reg.bytes v' := by
  constructor
  · intro h
    rw [← readOperand_writeOperand s, ← readOperand_writeOperand s, h]
  intro h
  have hmod : v.toNat % 2 ^ (8 * reg.bytes) = v'.toNat % 2 ^ (8 * reg.bytes) := by
    rw [← toNat_lowBytes, ← toNat_lowBytes, h]
  have hcut : v.setWidth (8 * reg.bytes) = v'.setWidth (8 * reg.bytes) :=
    eq_of_toNat_eq (by rw [toNat_setWidth, toNat_setWidth, hmod])
  cases reg with
  | r64 g => exact congrArg (s.write g) (by simpa [Register.bytes, regInfo] using hcut)
  | other => rfl
  | r32 g => exact congrArg (fun w : BitVec 32 => s.write g (0#32 ++ w)) hcut
  | r16 g => exact congrArg (fun w : BitVec 16 => s.write g (_ ++ w)) hcut
  | r8 g => exact congrArg (fun w : BitVec 8 => s.write g (_ ++ w)) hcut
  | high b => exact congrArg (fun w : BitVec 8 => s.write b.gpr (_ ++ (w ++ _ : BitVec 16))) hcut

/-! ## Stores -/

/-- What `get` gives for a register: all of it, unless it is a high byte. -/
def RegisterState.gotten (s : RegisterState) : Register → BitVec 64
  | .r64 g | .r32 g | .r16 g | .r8 g => s.general g
  | .high h => s.readOperand (.high h)
  | .other => 0#64

theorem shiftRight_and_eq (x : BitVec 64) :
    (x >>> 8) &&& 0xFF#64 = (x.extractLsb' 8 8).setWidth 64 := by
  refine eq_of_getLsbD_eq fun i hi => ?_
  rw [getLsbD_and, show (0xFF#64).getLsbD i = _ from getLsbD_lowMask 8 hi,
    getLsbD_ushiftRight, getLsbD_setWidth, getLsbD_extractLsb',
    decide_eq_true hi, Bool.true_and, Bool.and_comm]

theorem get_regInfo (s : RegisterState) {reg : Register} (hreg : reg ≠ .other) :
    s.get (regInfo reg).1 reg = if reg.gpr = some .rsp then none else some (s.gotten reg) := by
  cases reg with
  | other => exact absurd rfl hreg
  | high b =>
    have hb : b.gpr ≠ .rsp := by cases b <;> decide
    simp [RegisterState.get, regInfo, valueAt_index, hb, Register.gpr, RegisterState.gotten,
      RegisterState.readOperand, shiftRight_and_eq]
  | r64 g | r32 g | r16 g | r8 g =>
    by_cases hg : g = .rsp <;>
      simp [RegisterState.get, regInfo, valueAt_index, hg, Register.gpr, RegisterState.gotten]

theorem toNat_setWidth_lt {n : Nat} (x : BitVec n) : (x.setWidth 64).toNat < 2 ^ n := by
  rw [toNat_setWidth]
  exact lt_of_le_of_lt (Nat.mod_le _ _) x.isLt

/-- `get` gives the operand exactly when the rest of the register is zero. -/
theorem gotten_eq_iff (s : RegisterState) (reg : Register) :
    s.gotten reg = lowBytes reg.bytes (s.readOperand reg) ↔ s.ZeroAbove reg := by
  cases reg with
  | r64 g => exact ⟨fun _ => trivial, fun _ => (eq_lowBytes_iff 8 _).mpr (s.general g).isLt⟩
  | r32 g => exact (iff_of_eq (congrArg _ (lowBytes_lowBytes 4 _))).trans (eq_lowBytes_iff 4 _)
  | r16 g => exact (iff_of_eq (congrArg _ (lowBytes_lowBytes 2 _))).trans (eq_lowBytes_iff 2 _)
  | r8 g => exact (iff_of_eq (congrArg _ (lowBytes_lowBytes 1 _))).trans (eq_lowBytes_iff 1 _)
  | high b => exact ⟨fun _ => trivial, fun _ => (eq_lowBytes_iff 1 _).mpr (toNat_setWidth_lt _)⟩
  | other => simp [RegisterState.gotten, RegisterState.ZeroAbove, RegisterState.readOperand,
    lowBytes]

theorem immediate_eq {src : OpKind} {v : BitVec 64} (h : immediate src = some v)
    (s : RegisterState) : v = lowBytes src.bytes (s.sourceOperand src) := by
  cases src <;> simp only [immediate, some.injEq, reduceCtorEq] at h
  case immediate8 x => exact h ▸ (eq_lowBytes_iff 1 _).mpr (toNat_setWidth_lt x)
  case immediate16 x => exact h ▸ (eq_lowBytes_iff 2 _).mpr (toNat_setWidth_lt x)
  case immediate32 x => exact h ▸ (eq_lowBytes_iff 4 _).mpr (toNat_setWidth_lt x)
  case immediate64 x => exact h ▸ (eq_lowBytes_iff 8 _).mpr x.isLt

/-! ## The whole fault -/

section

variable {D : Type} (bus : SystemBus D) (dev : DeviceHandlers D) (cpuId : Nat) (gpa : BitVec 64)

/-- The moves that are emulated as the processor does them. The device accepts the access, if there
is one. Loads: its value, taken as it is, fills the register as the instruction would, and the
register is not RSP, unless RSP has that value already. Stores: of a register other than RSP that is
zero above the operand, unless nobody listens; and of immediates that are not extended. -/
def Move.Emulable (s : RegisterState) : Move → Prop
  | load mnemonic dst len => ∃ value, loadedValue bus dev cpuId gpa dst len = some value ∧
    if dst.gpr = some .rsp then
      (s.writeOperand dst (mnemonic.extend len value)).general = s.general
    else lowBytes dst.bytes (mnemonic.extend len value) = lowBytes dst.bytes value
  | store (.register reg) len => reg.gpr ≠ some .rsp ∧ ∀ d, bus.deviceAt gpa = some d →
    s.ZeroAbove reg ∧ dev.handleMmioWrite d ⟨cpuId, gpa, lowBytes len (s.readOperand reg), len⟩
  | store src len => (immediate src).isSome ∧ ∀ d, bus.deviceAt gpa = some d →
    dev.handleMmioWrite d ⟨cpuId, gpa, lowBytes len (s.sourceOperand src), len⟩

variable {bus dev cpuId gpa}

variable {len : Nat} {i : Instruction} {s : RegisterState}

/-- The device is told what it should be told, and accepts it. -/
theorem dispatchMmioWrite_eq_iff {v v' : BitVec 64} :
    bus.dispatchMmioWrite dev ⟨cpuId, gpa, v, len⟩ =
        some ((bus.deviceAt gpa).map (·, ⟨cpuId, gpa, v', len⟩)) ↔
      ∀ d, bus.deviceAt gpa = some d →
        v = v' ∧ dev.handleMmioWrite d ⟨cpuId, gpa, v', len⟩ = true := by
  unfold SystemBus.dispatchMmioWrite
  cases h : bus.deviceAt gpa with
  | none => simp
  | some d =>
    by_cases hv : v = v'
    · subst hv
      simp
    · simp [hv]

theorem pos_of_memoryAccessLength {size : MemorySize}
    (h : memoryAccessLength size = some len) : 0 < len := by
  cases size <;> simp only [memoryAccessLength, some.injEq, reduceCtorEq] at h <;> omega

theorem withRip_writeOperand (s : RegisterState) (reg : Register) (v r : BitVec 64) :
    { s.writeOperand reg v with rip := r } = { s with rip := r }.writeOperand reg v := by
  cases reg <;> rfl

theorem rip_set (s : RegisterState) (reg : Register) (v : BitVec 64) :
    (s.set reg v).rip = s.rip := by
  cases reg <;> rfl

theorem rflags_writeOperand (s : RegisterState) (reg : Register) (v : BitVec 64) :
    (s.writeOperand reg v).rflags = s.rflags := by
  cases reg <;> rfl

theorem write_self (s : RegisterState) (g : Gpr) : s.write g (s.general g) = s := by
  unfold RegisterState.write
  rw [Function.update_eq_self]

/-- Any register but RSP arrives in the guest as it was saved; RSP stays as it was. -/
theorem vmEntry_writeOperand (s : RegisterState) (reg : Register) (v : BitVec 64) :
    s.vmEntry (s.writeOperand reg v) = if reg.gpr = some .rsp then s else s.writeOperand reg v := by
  have hwrite : ∀ g w, s.vmEntry (s.write g w) = if g = .rsp then s else s.write g w := by
    intro g w
    unfold RegisterState.vmEntry
    split
    next hg =>
      subst hg
      simp only [RegisterState.write, Function.update_idem, Function.update_eq_self]
    next hg =>
      have hsame : s.general .rsp = (s.write g w).general .rsp :=
        (Function.update_of_ne (Ne.symm hg) _ _).symm
      rw [hsame, write_self]
  cases reg with
  | r64 g | r32 g | r16 g | r8 g =>
    simp only [RegisterState.writeOperand, hwrite, Register.gpr, some.injEq]
  | high b =>
    simp only [RegisterState.writeOperand, hwrite, Register.gpr, some.injEq]
  | other => exact write_self s .rsp

theorem emulate_load_iff {dst : Register}
    (hlen : memoryAccessLength i.memorySize = some len) (h0 : i.op0 = .register dst) :
    emulate bus dev cpuId gpa i true false s = some (execute bus cpuId gpa
        (Move.loaded bus dev cpuId gpa (.load i.mnemonic dst len)) i.len s
          (.load i.mnemonic dst len)) ↔
      s.rip.toNat + i.len < 2 ^ 64 ∧
        (Move.load i.mnemonic dst len).Emulable bus dev cpuId gpa s := by
  have hdecode : decodeMmioAccess i true false s = some ⟨len, none, some dst, i.len⟩ := by
    simp [decodeMmioAccess, hlen, h0]
  have hrun : emulate bus dev cpuId gpa i true false s =
      (loadedValue bus dev cpuId gpa dst len).bind fun value =>
        (advanceRip (s.set dst value) i.len).map fun gpr => ⟨s.vmEntry gpr, none⟩ := by
    rw [emulate, hdecode, loadedValue]
    cases hread : bus.dispatchMmioRead dev ⟨cpuId, gpa, len, dst⟩ with
    | none => simp [handleSlatViolation, hread]
    | some value =>
      cases hrip : advanceRip (s.set dst (value.getD (unclaimedValue len))) i.len <;>
        simp [handleSlatViolation, hread, hrip]
  rw [hrun]
  simp only [Move.Emulable, Move.loaded]
  cases loadedValue bus dev cpuId gpa dst len with
  | none => simp
  | some value =>
    rw [Option.bind_some, advanceRip, rip_set]
    by_cases hrip : s.rip.toNat + i.len < 2 ^ 64
    · have hentry : ∀ r, s.vmEntry { s.writeOperand dst value with rip := r } =
          { s.vmEntry (s.writeOperand dst value) with rip := r } := fun _ => rfl
      rw [if_pos hrip, set_eq_writeOperand, execute, map_some, some.injEq,
        Outcome.mk.injEq, hentry, vmEntry_writeOperand]
      simp only [hrip, true_and, and_true, getD_some, some.injEq, exists_eq_left']
      by_cases hrsp : dst.gpr = some .rsp
      · rw [if_pos hrsp, if_pos hrsp, RegisterState.mk.injEq, rflags_writeOperand]
        simp only [and_true]
        exact eq_comm
      · rw [if_neg hrsp, if_neg hrsp, withRip_writeOperand, withRip_writeOperand,
          writeOperand_eq_iff]
        exact eq_comm
    · simp only [hrip, if_false, map_none, reduceCtorEq, false_and]

/-- What a store comes to, once the decoder has found the data. -/
theorem emulate_store_of_data {data : BitVec 64} {reg : Option Register}
    (hdecode : decodeMmioAccess i false true s = some ⟨len, some data, reg, i.len⟩) :
    emulate bus dev cpuId gpa i false true s =
        some (execute bus cpuId gpa 0#64 i.len s (.store i.op1 len)) ↔
      s.rip.toNat + i.len < 2 ^ 64 ∧ ∀ d, bus.deviceAt gpa = some d →
        data = lowBytes len (s.sourceOperand i.op1) ∧ dev.handleMmioWrite d
          ⟨cpuId, gpa, lowBytes len (s.sourceOperand i.op1), len⟩ = true := by
  have hrun : emulate bus dev cpuId gpa i false true s =
      (bus.dispatchMmioWrite dev ⟨cpuId, gpa, data, len⟩).bind fun delivered =>
        (advanceRip s i.len).map fun gpr => ⟨s.vmEntry gpr, delivered⟩ := by
    rw [emulate, hdecode]
    cases hwrite : bus.dispatchMmioWrite dev ⟨cpuId, gpa, data, len⟩ with
    | none => simp [handleSlatViolation, hwrite]
    | some delivered =>
      cases hrip : advanceRip s i.len <;> simp [handleSlatViolation, hwrite, hrip]
  have hentry : ∀ r, s.vmEntry { s with rip := r } = { s with rip := r } :=
    fun r => congrArg (fun t : RegisterState => { t with rip := r }) (write_self s .rsp)
  rw [hrun, advanceRip, ← dispatchMmioWrite_eq_iff]
  by_cases hrip : s.rip.toNat + i.len < 2 ^ 64
  · rw [if_pos hrip, execute]
    simp only [hrip, true_and]
    cases bus.dispatchMmioWrite dev ⟨cpuId, gpa, data, len⟩ with
    | none => simp
    | some delivered => simp [hentry]
  · rw [if_neg hrip]
    simp only [hrip, false_and, iff_false]
    cases bus.dispatchMmioWrite dev ⟨cpuId, gpa, data, len⟩ <;> simp

theorem emulate_storeRegister_iff {reg : Register}
    (hlen : memoryAccessLength i.memorySize = some len) (hop : i.op1 = .register reg)
    (hwidth : reg.bytes = len) (hother : reg ≠ .other) :
    emulate bus dev cpuId gpa i false true s =
        some (execute bus cpuId gpa 0#64 i.len s (.store i.op1 len)) ↔
      s.rip.toNat + i.len < 2 ^ 64 ∧ (Move.store i.op1 len).Emulable bus dev cpuId gpa s := by
  have hget := get_regInfo s hother
  by_cases hrsp : reg.gpr = some .rsp
  · have hpanic : emulate bus dev cpuId gpa i false true s = none := by
      simp [emulate, decodeMmioAccess, hlen, hop, hget, hrsp]
    simp [hpanic, hop, Move.Emulable, hrsp]
  have hdecode : decodeMmioAccess i false true s =
      some ⟨len, some (s.gotten reg), some reg, i.len⟩ := by
    simp [decodeMmioAccess, hlen, hop, hget, hrsp]
  rw [emulate_store_of_data hdecode, hop, ← hwidth]
  simp [RegisterState.sourceOperand, gotten_eq_iff, Move.Emulable, hrsp]

theorem emulate_storeImmediate_iff
    (hlen : memoryAccessLength i.memorySize = some len) (hop : ∀ reg, i.op1 ≠ .register reg)
    (hwidth : i.op1.bytes = len) : emulate bus dev cpuId gpa i false true s =
        some (execute bus cpuId gpa 0#64 i.len s (.store i.op1 len)) ↔
      s.rip.toNat + i.len < 2 ^ 64 ∧ (Move.store i.op1 len).Emulable bus dev cpuId gpa s := by
  have hdecode : decodeMmioAccess i false true s =
      (immediate i.op1).map (⟨len, some ·, none, i.len⟩) := by
    cases h : i.op1 <;> simp_all [decodeMmioAccess]
  have hok : (Move.store i.op1 len).Emulable bus dev cpuId gpa s ↔ (immediate i.op1).isSome ∧
      ∀ d, bus.deviceAt gpa = some d →
        dev.handleMmioWrite d ⟨cpuId, gpa, lowBytes len (s.sourceOperand i.op1), len⟩ := by
    cases h : i.op1 <;> simp_all [Move.Emulable]
  rw [hok]
  cases himm : immediate i.op1 with
  | none => simp [emulate, hdecode, himm]
  | some v =>
    rw [himm, map_some] at hdecode
    rw [emulate_store_of_data hdecode, ← hwidth]
    simp [immediate_eq himm s]

/-- The emulation of a move does what the processor would do, exactly for the moves and states named
by `Emulable`, as long as the next instruction is inside the address space. -/
theorem emulate_eq_execute_iff (bus : SystemBus D) (dev : DeviceHandlers D) (cpuId : Nat)
    (gpa : BitVec 64) (i : Instruction) (m : Move) (hm : i.IsMove m) (s : RegisterState) :
    emulate bus dev cpuId gpa i m.isRead (!m.isRead) s =
        some (execute bus cpuId gpa (m.loaded bus dev cpuId gpa) i.len s m) ↔
      s.rip.toNat + i.len < 2 ^ 64 ∧ m.Emulable bus dev cpuId gpa s := by
  cases hm with
  | load hlen h0 h1 hwidth => exact emulate_load_iff hlen h0
  | @store len hlen hmov h0 hwidth =>
    have hpos : 0 < len := pos_of_memoryAccessLength hlen
    by_cases hreg : ∃ reg, i.op1 = .register reg
    · obtain ⟨reg, hop⟩ := hreg
      rw [hop] at hwidth
      refine emulate_storeRegister_iff hlen hop hwidth ?_
      rintro rfl
      exact hpos.ne hwidth
    · exact emulate_storeImmediate_iff hlen (fun reg h => hreg ⟨reg, h⟩) hwidth

end

/-- One device at the address of the local interrupt controller. -/
def lapicBus : SystemBus Unit := ⟨[⟨0xFEE00000#64, 0xFEE00FFF#64, ()⟩]⟩

/-- It answers with one value, and knows all registers but the one at offset 0x40. -/
def answering (value : BitVec 64) : DeviceHandlers Unit where
  handleMmioRead _ read := if read.addr = 0xFEE00040#64 then none else some value
  handleMmioWrite _ _ := true

/-- `mov [m], eax` with a small value in RAX. -/
theorem emulate_eq_execute_iff_eax :
    let i : Instruction := ⟨.mov, .uint32, .memory, .register (.r32 .rax), 6⟩
    let s : RegisterState := { general := fun _ => 0x1FF#64, rip := 0x1000#64 }
    emulate lapicBus (answering 0#64) 0 0xFEE000F0#64 i false true s =
      some (execute lapicBus 0 0xFEE000F0#64 0#64 6 s (.store i.op1 4)) :=
  (emulate_eq_execute_iff lapicBus (answering 0#64) 0 _
    ⟨.mov, .uint32, .memory, .register (.r32 .rax), 6⟩ _
    (.store rfl rfl rfl rfl) { general := fun _ => 0x1FF#64, rip := 0x1000#64 }).mpr
    ⟨by decide, by decide, fun _ _ => ⟨by decide, rfl⟩⟩

/-- Moves that are not emulated as the processor does them. RSP as the source and an immediate that
is extended by its sign end in a panic; `mov [m], al` tells the device all of RAX; a load that
extends by the sign leaves the sign out; what is loaded into RSP is lost; and a read of a register
that the device does not know ends in a panic. -/
theorem emulate_ne_execute :
    let s : RegisterState := { general := fun _ => 0x1FF#64, rip := 0x1000#64 }
    let emulated (i : Instruction) (m : Move) (gpa : BitVec 64) :=
      emulate lapicBus (answering 0x80#64) 0 gpa i m.isRead (!m.isRead) s
    let executed (i : Instruction) (m : Move) :=
      execute lapicBus 0 0xFEE000F0#64 0x80#64 i.len s m
    (∃ i m, Instruction.IsMove i m ∧ m = .store (.register (.r64 .rsp)) 8 ∧
      emulated i m 0xFEE000F0#64 = none) ∧
    (∃ i m, Instruction.IsMove i m ∧ m = .store (.immediate32to64 (-1)) 8 ∧
      emulated i m 0xFEE000F0#64 = none) ∧
    (∃ i m, Instruction.IsMove i m ∧ m = .store (.register (.r8 .rax)) 1 ∧
      (emulated i m 0xFEE000F0#64).map (·.delivered) =
        some (some ((), ⟨0, 0xFEE000F0#64, 0x1FF#64, 1⟩)) ∧
      (executed i m).delivered = some ((), ⟨0, 0xFEE000F0#64, 0xFF#64, 1⟩)) ∧
    (∃ i m, Instruction.IsMove i m ∧ m = .load .movsx (.r32 .rax) 1 ∧
      (emulated i m 0xFEE000F0#64).map (·.gpr.general .rax) = some 0x80#64 ∧
      (executed i m).gpr.general .rax = 0xFFFFFF80#64) ∧
    (∃ i m, Instruction.IsMove i m ∧ m = .load .mov (.r64 .rsp) 8 ∧
      (emulated i m 0xFEE000F0#64).map (·.gpr.general .rsp) = some 0x1FF#64 ∧
      (executed i m).gpr.general .rsp = 0x80#64) ∧
    (∃ i m, Instruction.IsMove i m ∧ m = .load .mov (.r32 .rax) 4 ∧
      emulated i m 0xFEE00040#64 = none) :=
  ⟨⟨⟨.mov, .uint64, .memory, .register (.r64 .rsp), 7⟩, _, .store rfl rfl rfl rfl, rfl, rfl⟩,
    ⟨⟨.mov, .int64, .memory, .immediate32to64 (-1), 11⟩, _, .store rfl rfl rfl rfl, rfl, rfl⟩,
    ⟨⟨.mov, .uint8, .memory, .register (.r8 .rax), 6⟩, _, .store rfl rfl rfl rfl, rfl, rfl, rfl⟩,
    ⟨⟨.movsx, .int8, .register (.r32 .rax), .memory, 7⟩, _, .load rfl rfl rfl (by decide), rfl, rfl,
      rfl⟩,
    ⟨⟨.mov, .uint64, .register (.r64 .rsp), .memory, 7⟩, _, .load rfl rfl rfl rfl, rfl, rfl, rfl⟩,
    ⟨⟨.mov, .uint32, .register (.r32 .rax), .memory, 6⟩, _, .load rfl rfl rfl rfl, rfl, rfl⟩⟩

end Moose.Reindeer.Mmio
