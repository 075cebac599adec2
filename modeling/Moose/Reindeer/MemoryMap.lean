import Mathlib.Logic.Function.Basic
import Moose.Lib.Bytes

/-!
# The memory map of the guest

`default_pc_memory_map` and `map_guest_ram` of `setup.rs`, and the call of `bios.rs` that gives the
map to the guest (INT 15h, AX = E820h).

The extended memory is given with its size in place of its last byte, so it is one byte too long for
every size, and the guest gets a page more than was asked for. The record for the guest has one byte
for the type, where the guest reads four, and is stored as if the guest's memory were contiguous in
the host. So what the guest reads depends on its buffer, and the result about its loop of calls says
on what.

`none` is a panic or an error.
-/

set_option autoImplicit false

namespace Moose.Reindeer

open List Function Lib

inductive MemoryDescriptorType where
  | availableToOs | reserved | acpiReclaim | acpiNvsMemory
  deriving DecidableEq

def MemoryDescriptorType.toNat : MemoryDescriptorType → Nat
  | availableToOs => 1
  | reserved => 2
  | acpiReclaim => 3
  | acpiNvsMemory => 4

/-- The range is inclusive. -/
structure VirtualMachineMemoryDescriptor where
  start : Nat
  last : Nat
  memoryType : MemoryDescriptorType
  allocate : Bool

namespace VirtualMachineMemoryDescriptor

/-! ## Setting up -/

def defaultPcMemoryMap (memSize : Nat) : Option (List VirtualMachineMemoryDescriptor) :=
  if 2 ^ 64 ≤ 0x100000 + memSize then none
  else some
    [⟨0, 0x9EFFF, .availableToOs, true⟩,
      ⟨0x9F000, 0x9FFFF, .reserved, true⟩,
      ⟨0xA0000, 0xFFFFF, .reserved, true⟩,
      ⟨0x100000, 0x100000 + memSize, .availableToOs, true⟩,
      ⟨0x7F6E0000, 0x7F6EFFFF, .acpiReclaim, true⟩]

/-- The addresses that stepping through the range by pages comes to. -/
def pages (d : VirtualMachineMemoryDescriptor) : List Nat :=
  (range ((d.last + 1 - d.start + 4095) / 4096)).map (d.start + 4096 * ·)

/-- The addresses that get a frame. -/
def gpas (ds : List VirtualMachineMemoryDescriptor) : List Nat :=
  (ds.filter (·.allocate)).flatMap pages

/-- Each page gets the next of the frames that the allocator has, in place of one it may have had.
-/
def mapGuestRam (ds : List VirtualMachineMemoryDescriptor) (frames : List Nat)
    (slat : Nat → Option Nat) : Option (Nat → Option Nat) :=
  if frames.length < (gpas ds).length then none
  else some (((gpas ds).zip frames).foldl (fun s (gpa, f) => update s (gpa / 4096) (some f)) slat)

def Has (d : VirtualMachineMemoryDescriptor) (a : Nat) : Prop := d.start ≤ a ∧ a ≤ d.last

/-- What the map is for: pages of their own, and the memory that was asked for, mapped to it. -/
structure LaidOut (memSize : Nat) (ds : List VirtualMachineMemoryDescriptor) : Prop where
  disjoint : ds.Pairwise fun d d' => ∀ a, ¬(d.Has a ∧ d'.Has a)
  granular : ∀ d ∈ ds, 4096 ∣ d.start ∧ 4096 ∣ d.last + 1
  available : ∀ a, 0x100000 ≤ a → ((∃ d ∈ ds, d.memoryType = .availableToOs ∧ d.Has a) ↔
    a < 0x100000 + memSize ∧ ¬(0x7F6E0000 ≤ a ∧ a ≤ 0x7F6EFFFF))
  mapped : ∀ frames slat, frames.Nodup → mapGuestRam ds frames (fun _ => none) = some slat →
    (∀ page, (slat page).isSome = true ↔
      ∃ d ∈ ds, d.allocate = true ∧ ∃ a, d.Has a ∧ a / 4096 = page) ∧
    ∀ page page' f, slat page = some f → slat page' = some f → page = page'

/-- **No size is laid out as it should be.** -/
theorem defaultPcMemoryMap_not_laidOut (memSize : Nat) (hsize : 4096 ∣ memSize) :
    ¬∃ ds, defaultPcMemoryMap memSize = some ds ∧ LaidOut memSize ds := by
  rintro ⟨ds, hds, hlaid⟩
  unfold defaultPcMemoryMap at hds
  split at hds
  · cases hds
  cases hds
  -- the end of the extended memory is one byte into a page
  have hend := (hlaid.granular ⟨0x100000, 0x100000 + memSize, .availableToOs, true⟩ (by simp)).2
  dsimp only at hend
  omega

theorem defaultPcMemoryMap_not_laidOut_128m : 4096 ∣ 0x8000000 ∧
    ¬∃ ds, defaultPcMemoryMap 0x8000000 = some ds ∧ LaidOut 0x8000000 ds :=
  ⟨by decide, defaultPcMemoryMap_not_laidOut _ (by decide)⟩

/-- With 128 MiB, a byte of the 129th is available. -/
theorem defaultPcMemoryMap_long : (defaultPcMemoryMap 0x8000000).any (fun ds =>
    ds.any fun d => d.memoryType = .availableToOs ∧ d.start ≤ 0x8100000 ∧ 0x8100000 ≤ d.last) =
      true := by
  decide

/-- The pages of the map: up to the one at the end of the extended memory, and the ACPI area. -/
theorem gpas_eq {memSize : Nat} {ds : List VirtualMachineMemoryDescriptor}
    (h : defaultPcMemoryMap (4096 * memSize) = some ds) :
    gpas ds = (range (256 + (memSize + 1))).map (4096 * ·) ++
      (range 16).map (0x7F6E0000 + 4096 * ·) := by
  have hcount : (0x100000 + 4096 * memSize + 1 - 0x100000 + 4095) / 4096 = memSize + 1 := by omega
  unfold defaultPcMemoryMap at h
  split at h
  · cases h
  cases h
  simp only [gpas, pages, hcount, filter_cons_of_pos, filter_nil, flatMap_cons, flatMap_nil,
    append_nil, ← append_assoc]
  rw [show 256 + (memSize + 1) = 0x9F + 1 + 0x60 + (memSize + 1) from rfl]
  simp only [range_add, map_append, map_map, comp_def, Nat.mul_add, append_assoc]
  simp only [Nat.reduceMul, Nat.reduceAdd, Nat.reduceSub, Nat.reduceDiv, Nat.zero_add,
    ← Nat.add_assoc]

/-- What `map_guest_ram` does with the map: a page behind the memory that was asked for gets a frame
as well, and where that memory reaches the ACPI area, the pages there are mapped a second time, over
a frame that is then lost. -/
theorem gpas_defaultPcMemoryMap {memSize : Nat} {ds : List VirtualMachineMemoryDescriptor}
    (hsize : 4096 ∣ memSize) (h : defaultPcMemoryMap memSize = some ds) :
    (gpas ds).length = 256 + (memSize / 4096 + 1) + 16 ∧ 0x100000 + memSize ∈ gpas ds ∧
      ((gpas ds).Nodup ↔ 0x100000 + memSize < 0x7F6E0000) := by
  obtain ⟨n, rfl⟩ := hsize
  rw [gpas_eq h]
  refine ⟨by simp, mem_append_left _ (mem_map.mpr ⟨256 + n, by simp, by omega⟩), ?_⟩
  have hlow : ((range (256 + (n + 1))).map (4096 * ·)).Nodup :=
    nodup_range.map fun _ _ h => by omega
  have hhigh : ((range 16).map (0x7F6E0000 + 4096 * ·)).Nodup :=
    nodup_range.map fun _ _ h => by omega
  simp only [nodup_append, hlow, hhigh, true_and, forall_mem_map, mem_range]
  constructor
  · intro hne
    by_contra hle
    exact hne 0x7F6E0 (by omega) 0 (by decide) rfl
  · intro hlt i hi j hj
    omega

/-! ## INT 15h, AX = E820h

The guest asks for one entry at a time, with the number that the call before gave it in EBX, until
that is 0. Between two calls it may move its buffer and change the memory, so a call is a buffer
with the memory that it finds. The carry flag is in the flags that the guest has on its stack.
-/

/-- Where a byte of guest memory is, by the frames of the guest's pages. -/
def translate (frame : Nat → Option Nat) (gpa : Nat) : Option Nat :=
  (frame (gpa / 4096)).map (· * 4096 + gpa % 4096)

def store (m : Nat → UInt8) (p : Nat) (bytes : List UInt8) (a : Nat) : UInt8 :=
  if a < p then m a else (bytes[a - p]?).getD (m a)

/-- `BiosMemoryMapAddressRangeDescriptor` in memory. It is packed, and the type is one byte. -/
def entry (d : VirtualMachineMemoryDescriptor) : Option (List UInt8) :=
  if d.last < d.start ∨ 2 ^ 64 ≤ d.last - d.start + 1 then none
  else some (toLe 8 d.start ++ toLe 8 (d.last - d.start + 1) ++ toLe 1 d.memoryType.toNat)

/-- `handle_bios_call` for the function: the carry flag, EBX, and what is stored where. The address
of the buffer is translated once. -/
def e820 (ds : List VirtualMachineMemoryDescriptor) (frame : Nat → Option Nat)
    (edx index sizeOfBuffer buffer : Nat) : Option (Bool × Nat × Nat × List UInt8) :=
  if edx ≠ 0x534D4150 then none
  else if sizeOfBuffer < 20 then some (true, index, 0, [])
  else match ds[index]? with
    | none => some (true, index, 0, [])
    | some d => do
      let bytes ← d.entry
      let p ← translate frame buffer
      some (false, if ds.length ≤ index + 1 then 0 else index + 1, p, bytes)

/-- What the guest is to read. -/
def record (d : VirtualMachineMemoryDescriptor) : List UInt8 :=
  toLe 8 d.start ++ toLe 8 (d.last - d.start + 1) ++ toLe 4 d.memoryType.toNat

structure Call where
  buffer : Nat
  memory : Nat → UInt8

/-- What comes of a call: the twenty bytes that the guest reads at its buffer, and the addresses
outside of them that were stored to. -/
structure Reply where
  record : List (Option UInt8)
  outside : List Nat

def Call.addresses (c : Call) (frame : Nat → Option Nat) : List (Option Nat) :=
  (range 20).map fun k => translate frame (c.buffer + k)

def Call.reply (c : Call) (frame : Nat → Option Nat) (p : Nat) (bytes : List UInt8) : Reply where
  record := (c.addresses frame).map (Option.map (store c.memory p bytes))
  outside := ((range bytes.length).map (p + ·)).filter (some · ∉ c.addresses frame)

/-- The guest's loop from a value of EBX on. It gives up when the carry flag is set. -/
def readMap (ds : List VirtualMachineMemoryDescriptor) (frame : Nat → Option Nat) :
    Nat → List Call → Option (List Reply)
  | _, [] => none
  | index, c :: calls => do
    let (carry, next, p, bytes) ← e820 ds frame 0x534D4150 index 20 c.buffer
    if carry then none
    else if next = 0 then some [c.reply frame p bytes]
    else some (c.reply frame p bytes :: (← readMap ds frame next calls))

/-- What the guest is to get for the entry. -/
def reply (d : VirtualMachineMemoryDescriptor) : Reply := ⟨d.record.map some, []⟩

/-- The buffer of a call that leaves the record complete: the 17 bytes that are stored lie one
behind the other in the host, as they do in one page, and the other three are zero beforehand. -/
structure Call.Suitable (c : Call) (frame : Nat → Option Nat) : Prop where
  contiguous : ∃ p, ∀ k < 17, translate frame (c.buffer + k) = some (p + k)
  zero : ∀ k < 3, (translate frame (c.buffer + (17 + k))).map c.memory = some 0

section Guest

variable {frame : Nat → Option Nat} {c : Call} {d : VirtualMachineMemoryDescriptor}
  {ds : List VirtualMachineMemoryDescriptor} {bytes : List UInt8} {m : Nat → UInt8}
  {a b j k p : Nat}

theorem store_add (h : k < bytes.length) : store m p bytes (p + k) = bytes[k] := by
  simp [store, h]

theorem store_outside (h : ∀ j < bytes.length, a ≠ p + j) : store m p bytes a = m a := by
  unfold store
  split
  · rfl
  · have hle : bytes.length ≤ a - p := by
      by_contra hlt
      exact h (a - p) (by omega) (by omega)
    rw [getElem?_eq_none hle, Option.getD_none]

theorem translate_eq_some_iff :
    translate frame b = some a ↔ ∃ f, frame (b / 4096) = some f ∧ f * 4096 + b % 4096 = a := by
  rw [translate, Option.map_eq_some_iff]

/-- The record is what is stored and three zeroes. -/
theorem record_eq (h : d.entry = some bytes) :
    bytes.length = 17 ∧ d.record = bytes ++ replicate 3 0 := by
  unfold entry at h
  split at h
  · cases h
  cases h
  refine ⟨by simp, ?_⟩
  rw [record, append_assoc, append_assoc, append_assoc]
  cases d.memoryType <;> rfl

theorem reply_record_iff :
    (c.addresses frame).map (Option.map (store c.memory p bytes)) = d.record.map some ↔
      ∀ k < 20, (translate frame (c.buffer + k)).map (store c.memory p bytes) = d.record[k]? := by
  have hlen : d.record.length = 20 := by simp [record]
  constructor
  · intro heq k hk
    have hget := congrArg (·[k]?) heq
    simpa [Call.addresses, hk, hlen] using hget
  · intro hall
    refine ext_getElem? fun k => ?_
    by_cases hk : k < 20
    · simp [Call.addresses, hk, hall, hlen]
    · rw [getElem?_eq_none (by simpa [Call.addresses] using hk),
        getElem?_eq_none (by simpa [hlen] using hk)]

section Frames

variable (hframe : ∀ page page' f, frame page = some f → frame page' = some f → page = page')
include hframe

theorem translate_inj (h : translate frame a = some p) (h' : translate frame b = some p) :
    a = b := by
  obtain ⟨f, hf, rfl⟩ := translate_eq_some_iff.mp h
  obtain ⟨g, hg, heq⟩ := translate_eq_some_iff.mp h'
  obtain rfl : f = g := by omega
  have := hframe _ _ _ hf hg
  omega

/-- Of the bytes of a buffer, the one that lies `j` behind the first in the host is number `j`. -/
theorem eq_of_translate_add (h : translate frame b = some p)
    (h' : translate frame (b + k) = some (p + j)) (hk : k < 20) (hj : j < 17) : k = j := by
  obtain ⟨f, hf, rfl⟩ := translate_eq_some_iff.mp h
  obtain ⟨g, hg, heq⟩ := translate_eq_some_iff.mp h'
  by_cases hfg : f = g
  · subst hfg
    have := hframe _ _ _ hf hg
    omega
  · have : b / 4096 ≠ (b + k) / 4096 := by
      intro hpage
      rw [hpage, hg] at hf
      exact hfg (Option.some_inj.mp hf).symm
    omega

/-- One call. What is stored past the end of a page lies in the buffer only if the frame of the next
page is the next frame. -/
theorem reply_eq_iff (hbytes : d.entry = some bytes) (hp : translate frame c.buffer = some p) :
    c.reply frame p bytes = d.reply ↔ c.Suitable frame := by
  obtain ⟨hlen, hrecord⟩ := record_eq hbytes
  have hreply : c.reply frame p bytes = d.reply ↔
      (∀ k < 20, (translate frame (c.buffer + k)).map (store c.memory p bytes) = d.record[k]?) ∧
      ∀ j < 17, ∃ k < 20, translate frame (c.buffer + k) = some (p + j) := by
    rw [Call.reply, reply, Reply.mk.injEq]
    exact and_congr reply_record_iff (by simp [Call.addresses, hlen])
  have hkeeps (hall : ∀ k < 17, translate frame (c.buffer + k) = some (p + k)) (k : Nat) :
      (translate frame (c.buffer + (17 + k))).map (store c.memory p bytes) =
        (translate frame (c.buffer + (17 + k))).map c.memory := by
    refine Option.map_congr fun a ha => store_outside fun j hj heq => ?_
    rw [hlen] at hj
    have := translate_inj hframe (ha.trans (congrArg some heq)) (hall j hj)
    omega
  rw [hreply]
  constructor
  · rintro ⟨hread, hinside⟩
    have hall : ∀ k < 17, translate frame (c.buffer + k) = some (p + k) := by
      intro j hj
      obtain ⟨k, hk, h⟩ := hinside j hj
      rwa [eq_of_translate_add hframe hp h hk hj] at h
    refine ⟨⟨p, hall⟩, fun k hk => ?_⟩
    rw [← hkeeps hall, hread _ (by omega), hrecord, getElem?_append_right (by omega), hlen,
      Nat.add_sub_cancel_left, getElem?_replicate_of_lt hk]
  · rintro ⟨⟨p', hall⟩, hzero⟩
    obtain rfl : p = p' := Option.some_inj.mp (hp.symm.trans (hall 0 (by decide)))
    refine ⟨fun k hk => ?_, fun j hj => ⟨j, by omega, hall j hj⟩⟩
    rw [hrecord]
    obtain hlt | ⟨i, rfl⟩ := Nat.lt_or_ge k 17 |>.imp_right Nat.exists_eq_add_of_le
    · have hlt' : k < bytes.length := by omega
      rw [hall k hlt, Option.map_some, store_add hlt', getElem?_append_left hlt',
        getElem?_eq_getElem hlt']
    · rw [hkeeps hall, hzero i (by omega), getElem?_append_right (by omega), hlen,
        Nat.add_sub_cancel_left, getElem?_replicate_of_lt (by omega)]

/-- The loop from a value of EBX on, over the calls that are left. -/
theorem readMap_suffix_iff (hds : ∀ d ∈ ds, d.start ≤ d.last ∧ d.last - d.start + 1 < 2 ^ 64)
    {calls : List Call} {index : Nat} (hlen : index + calls.length = ds.length)
    (hne : index < ds.length) :
    readMap ds frame index calls = some ((ds.drop index).map reply) ↔
      ∀ c ∈ calls, c.Suitable frame := by
  induction calls generalizing index with
  | nil => simp at hlen; omega
  | cons c calls ih =>
    have hentry : ∃ bytes, ds[index].entry = some bytes := by
      obtain ⟨hle, hfits⟩ := hds _ (getElem_mem hne)
      exact ⟨_, if_neg (by omega)⟩
    obtain ⟨bytes, hbytes⟩ := hentry
    rw [readMap, e820, if_neg (by decide), if_neg (by decide), getElem?_eq_getElem hne,
      drop_eq_getElem_cons hne, map_cons, forall_mem_cons]
    simp only [hbytes, Option.bind_eq_bind, Option.bind_some]
    cases hp : translate frame c.buffer with
    | none =>
      refine ⟨nofun, fun h => ?_⟩
      obtain ⟨p, hall⟩ := h.1.contiguous
      cases hp.symm.trans (hall 0 (by decide))
    | some p =>
      rw [length_cons] at hlen
      have hone := reply_eq_iff hframe hbytes hp
      by_cases hlast : ds.length ≤ index + 1
      · obtain rfl : calls = [] := length_eq_zero_iff.mp (by omega)
        rw [drop_eq_nil_of_le hlast]
        simp [hlast, hone]
      · have hnext : index + 1 + calls.length = ds.length := by omega
        rw [← hone, ← ih hnext (by omega)]
        cases hread : readMap ds frame (index + 1) calls with
        | none => simp [hlast, hread]
        | some replies => simp [hlast, hread]

end Frames

end Guest

/-- **What the guest gets of the memory map**: the entries in order, each as a complete record and
with nothing else stored, exactly when the buffer of every call is suitable. -/
theorem readMap_eq_iff (ds : List VirtualMachineMemoryDescriptor) (frame : Nat → Option Nat)
    (calls : List Call) (hne : ds ≠ [])
    (hds : ∀ d ∈ ds, d.start ≤ d.last ∧ d.last - d.start + 1 < 2 ^ 64)
    (hcalls : calls.length = ds.length)
    (hframe : ∀ page page' f, frame page = some f → frame page' = some f → page = page') :
    readMap ds frame 0 calls = some (ds.map reply) ↔ ∀ c ∈ calls, c.Suitable frame :=
  readMap_suffix_iff hframe hds ((Nat.zero_add _).trans hcalls) (length_pos_iff.mpr hne)

/-- Two entries, read into a buffer of zeroes that ends with its page. -/
theorem readMap_eq_iff_two :
    let ds := [⟨0, 0x9EFFF, .availableToOs, true⟩, ⟨0x9F000, 0x9FFFF, .reserved, true⟩]
    readMap ds some 0 (replicate 2 ⟨0x5FEC, fun _ => 0⟩) = some (ds.map reply) := by
  refine (readMap_eq_iff _ some _ (cons_ne_nil _ _) (by decide) rfl
    fun _ _ _ h h' => Option.some_inj.mp (h.trans h'.symm)).mpr fun c hc => ?_
  rw [eq_of_mem_replicate hc]
  exact ⟨⟨0x5FEC, by decide⟩, by decide⟩

/-- The type 1 is read as `0xFFFFFF01` in a buffer of ones. In a buffer of zeroes that crosses into
a page whose frame is elsewhere, the length and the type are stored behind the first frame. -/
theorem readMap_damaged :
    let ds := [⟨0, 0x9EFFF, .availableToOs, true⟩]
    (readMap ds some 0 [⟨0x5000, fun _ => 0xFF⟩]).map (·.map fun r => r.record.drop 16) =
      some [[some 1, some 255, some 255, some 255]] ∧
    (readMap ds (fun page => some (2 * page)) 0 [⟨0x5FF8, fun _ => 0⟩]).map (·.map Reply.outside) =
      some [(range 9).map (0xB000 + ·)] := by
  decide +kernel

end VirtualMachineMemoryDescriptor

end Moose.Reindeer
