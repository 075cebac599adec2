import Mathlib.Data.List.FinRange
import Moose.Memory.Entry

/-!
# The memory manager

`MemoryManager::map`, `unmap` and the translation, over the tables as they lie in physical memory.

The direct mapping of physical memory is left out: a table is named by its frame, not by the virtual
address of that frame. So is the flushing of the TLB. A panic is `none`; an error is returned
together with the memory, because the entries above the last level may have changed by then.
-/

set_option autoImplicit false

namespace Moose.Memory

open Lib.Radix (write clear)
open PageTableEntry

/-- The frames of the usable regions in the order of the memory map, and how many were taken. -/
structure FrameAllocator where
  frames : List Frame
  n : Nat

def FrameAllocator.allocate (a : FrameAllocator) : Option Frame × FrameAllocator :=
  (a.frames[a.n]?, { a with n := a.n + 1 })

inductive MemoryError where
  | alreadyMapped | nonExistentMapping | hugePage
deriving DecidableEq

structure MemoryManager where
  memory : PhysicalAddress → Fin 512 → PageTableEntry
  frameAllocator : FrameAllocator

/-- What a call returns unless it panics. -/
abbrev Outcome (α : Type) := MemoryManager × Except MemoryError α

namespace MemoryManager

section

variable (mm : MemoryManager)

def allocateFrame : Option Frame × MemoryManager :=
  let (frame, allocator) := mm.frameAllocator.allocate
  (frame, { mm with frameAllocator := allocator })

def setEntry (table : PhysicalAddress) (i : Fin 512) (e : PageTableEntry) : MemoryManager :=
  { mm with memory := write mm.memory table i e }

/-- An empty table below an entry; its callers panic when there is no frame left. -/
def allocateLowerLevelPageTable (table : PhysicalAddress) (i : Fin 512) : Option MemoryManager :=
  match mm.allocateFrame with
  | (none, _) => none
  | (some frame, mm) => do
    let mm := { mm with memory := clear mm.memory frame.address 0#64 }
    let e ← link (mm.memory table i) frame
    some (mm.setEntry table i e)

def assignPropagable (mm : MemoryManager) (table : PhysicalAddress) (i : Fin 512) (f : PageFlags) :
    MemoryManager :=
  mm.setEntry table i (PageTableEntry.assignPropagable (mm.memory table i) f)

/-! ## Mapping a given page -/

/-- One level of `map_inner`. At level 4 there is no huge page to look for. -/
def enter (table : PhysicalAddress) (i : Fin 512) (checkHuge : Bool)
    (f : PageFlags) : Option (Outcome PhysicalAddress) :=
  if present (mm.memory table i) then
    if checkHuge && huge (mm.memory table i) then some (mm, .error .hugePage)
    else
      let mm := mm.assignPropagable table i f
      some (mm, .ok (address (mm.memory table i)))
  else do
    let mm ← mm.allocateLowerLevelPageTable table i
    let mm := mm.assignPropagable table i f
    some (mm, .ok (address (mm.memory table i)))

/-- The levels above the last one, each with whether it looks for a huge page. -/
def descend (mm : MemoryManager) (table : PhysicalAddress) (f : PageFlags) :
    List (Fin 512 × Bool) → Option (Outcome PhysicalAddress)
  | [] => some (mm, .ok table)
  | (i, checkHuge) :: rest =>
    match mm.enter table i checkHuge f with
    | none => none
    | some (mm, .error e) => some (mm, .error e)
    | some (mm, .ok lower) => mm.descend lower f rest

def mapLeaf (table : PhysicalAddress) (i : Fin 512) (frame : Frame)
    (f : PageFlags) : Option (Outcome Unit) :=
  if present (mm.memory table i) then some (mm, .error .alreadyMapped)
  else do
    let e ← link (mm.memory table i) frame
    let e := PageTableEntry.assignPropagable e f
    some (mm.setEntry table i (assignLeafFlags e f), .ok ())

def mapInner (level4 : PhysicalAddress) (page : Page) (frame : Frame)
    (f : PageFlags) : Option (Outcome Unit) :=
  if signExtend page.address ≠ page.address then none
  else
    match mm.descend level4 f [(index 39 page.address, false), (index 30 page.address, true),
        (index 21 page.address, true)] with
    | none => none
    | some (mm, .error e) => some (mm, .error e)
    | some (mm, .ok level1) => mm.mapLeaf level1 (index 12 page.address) frame f

/-! ## Mapping some page -/

abbrev Slot := PhysicalAddress × Fin 512

/-- The entries on the way to a free one, from the top, or nothing if there is none. -/
abbrev Search :=
  MemoryManager → PhysicalAddress → Bool → Option (MemoryManager × Option (List Slot))

/-- The innermost loop; `zero` if the indices above are all zero, where the first page is skipped.
-/
def searchLevel1 : Search := fun mm table zero =>
  some (mm, ((List.finRange 512).find? fun i =>
    !(zero && i == 0) && !present (mm.memory table i)).map fun i => [(table, i)])

/-- The loops around it: an entry without a table gets one, a huge page is passed over. -/
def searchTables (checkHuge : Bool) (lower : Search) (mm : MemoryManager) (table : PhysicalAddress)
    (zero : Bool) : List Nat → Option (MemoryManager × Option (List Slot))
  | [] => some (mm, none)
  | n :: ns =>
    if h : n < 512 then
      if present (mm.memory table ⟨n, h⟩) && (checkHuge && huge (mm.memory table ⟨n, h⟩)) then
        mm.searchTables checkHuge lower table zero ns
      else do
        let mm ← if present (mm.memory table ⟨n, h⟩) then some mm
          else mm.allocateLowerLevelPageTable table ⟨n, h⟩
        let (mm, found) ← lower mm (address (mm.memory table ⟨n, h⟩)) (zero && n == 0)
        match found with
        | some slots => some (mm, some ((table, ⟨n, h⟩) :: slots))
        | none => mm.searchTables checkHuge lower table zero ns
    else none

def searchLevel2 : Search := fun mm table zero =>
  mm.searchTables true searchLevel1 table zero (List.range 512)

def searchLevel3 : Search := fun mm table zero =>
  mm.searchTables true searchLevel2 table zero (List.range 512)

/-- `start..stop` is the range of level 4 indices. -/
def mapAnyInner (level4 : PhysicalAddress) (start stop : Nat) (frame : Frame)
    (f : PageFlags) : Option (MemoryManager × Page) := do
  let (mm, found) ← mm.searchTables false searchLevel3 level4 true
    (List.range' start (stop - start))
  match found with
  | some [(t4, i4), (t3, i3), (t2, i2), (t1, i1)] => do
    let e ← link (mm.memory t1 i1) frame
    let mm := mm.setEntry t1 i1 e
    let mm := mm.assignPropagable t4 i4 f
    let mm := mm.assignPropagable t3 i3 f
    let mm := mm.assignPropagable t2 i2 f
    let mm := mm.assignPropagable t1 i1 f
    let mm := mm.setEntry t1 i1 (assignLeafFlags (mm.memory t1 i1) f)
    if h : (addressOf i4 i3 i2 i1).toNat % pageSize = 0 then some (mm, ⟨addressOf i4 i3 i2 i1, h⟩)
    else none
  | _ => none

end

inductive Map where
  | exact (page : Page) (frame : Frame)
  | identity (page : Page)
  | any (frame : Frame) (start stop : Nat)

def map (mm : MemoryManager) (level4 : PhysicalAddress) (m : Map) (f : PageFlags) :
    Option (Outcome (Page × Frame)) :=
  match m with
  | .exact page frame =>
    (mm.mapInner level4 page frame f).map fun r => (r.1, r.2.map fun _ => (page, frame))
  | .identity page =>
    (mm.mapInner level4 page ⟨page.address, page.aligned⟩ f).map fun r =>
      (r.1, r.2.map fun _ => (page, ⟨page.address, page.aligned⟩))
  | .any frame start stop =>
    (mm.mapAnyInner level4 start stop frame f).map fun r => (r.1, .ok (r.2, frame))

/-! ## Unmapping and translating -/

def offset (bits : Nat) (a : VirtualAddress) : Nat := a.toNat % 2 ^ bits

def clearEntry (mm : MemoryManager) (table : PhysicalAddress) (i : Fin 512) :
    Option MemoryManager := do
  let e ← setAddress (mm.memory table i) 0#64
  some (mm.setEntry table i (setFlags e 0#64))

/-- A huge page is unmapped at its own level, for its first address only. -/
def unmapInner (mm : MemoryManager) (level4 : PhysicalAddress) (page : Page) :
    Option (Outcome Unit) :=
  if ¬ Canonical page.address then none
  else
    let e4 := mm.memory level4 (index 39 page.address)
    if !present e4 then some (mm, .error .nonExistentMapping)
    else
      let e3 := mm.memory (address e4) (index 30 page.address)
      if !present e3 then some (mm, .error .nonExistentMapping)
      else if huge e3 then
        if offset 30 page.address = 0 then
          (mm.clearEntry (address e4) (index 30 page.address)).map (·, .ok ())
        else none
      else
        let e2 := mm.memory (address e3) (index 21 page.address)
        if !present e2 then some (mm, .error .nonExistentMapping)
        else if huge e2 then
          if offset 21 page.address = 0 then
            (mm.clearEntry (address e3) (index 21 page.address)).map (·, .ok ())
          else none
        else if offset 12 page.address ≠ 0 then none
        else if !present (mm.memory (address e2) (index 12 page.address)) then
          some (mm, .error .nonExistentMapping)
        else (mm.clearEntry (address e2) (index 12 page.address)).map (·, .ok ())

/-- `translate_virtual_address_to_physical_for_current_address_space`, for the tables of `level4`.
-/
def translateVirtualAddressToPhysical (mm : MemoryManager) (level4 : PhysicalAddress)
    (a : VirtualAddress) : Option PhysicalAddress :=
  if ¬ Canonical a then none
  else
    let e4 := mm.memory level4 (index 39 a)
    if !present e4 then none
    else
      let e3 := mm.memory (address e4) (index 30 a)
      if !present e3 then none
      else if huge e3 then some (address e3 + BitVec.ofNat 64 (offset 30 a))
      else
        let e2 := mm.memory (address e3) (index 21 a)
        if !present e2 then none
        else if huge e2 then some (address e2 + BitVec.ofNat 64 (offset 21 a))
        else
          let e1 := mm.memory (address e2) (index 12 a)
          if !present e1 then none
          else some (address e1 + BitVec.ofNat 64 (offset 12 a))

end MemoryManager

end Moose.Memory
