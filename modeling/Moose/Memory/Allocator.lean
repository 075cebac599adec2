import Moose.Memory.AddressSpace

/-!
# The kernel heap

`subsystem/allocator.rs`: a heap behind a fixed virtual address that grows by mapping pages at its
end. The list allocator that manages the bytes is foreign code; it is a parameter (`HeapCode`), and
`HeapCode.Correct` is what is assumed of it: it hands out disjoint parts of the range it was given.

Whether that range is mapped is up to the kernel. The growth maps the pages a request needs, then
tries to map some more and gives up when there is no frame; the heap is told about all of them
either way. `run_sound` therefore asks for enough frames whenever the heap grows.
-/

set_option autoImplicit false

namespace Moose.Memory

open Lib Lib.Radix MemoryManager

def heapStart : Nat := 0xFFFFFFFF82220000

structure Layout where
  size : Nat
  align : Nat

/-! ## The code -/

/-- `linked_list_allocator::Heap`. Addresses are numbers; no block is `none`. -/
structure HeapCode (H : Type) where
  init : Nat → Nat → H
  free : H → Nat
  extend : H → Nat → H
  allocateFirstFit : H → Layout → Option (Nat × H)
  deallocate : H → Nat → Layout → H

structure KernelHeapAllocator (H : Type) where
  memoryManager : MemoryManager
  heap : H
  currentlyAllocatedPages : Nat

/-- The nearest number of single precision, an even significand on a tie. -/
def toF32 (n : Nat) : Nat :=
  if n < 2 ^ 24 then n
  else
    let unit := 2 ^ (Nat.log2 n - 23)
    let significand := n / unit
    let rest := n % unit
    let rounded :=
      if 2 * rest < unit then significand
      else if unit < 2 * rest then significand + 1
      else significand + significand % 2
    rounded * unit

/-- `ceilf(remaining_bytes as f32 / 4096.0)`; the division only changes the exponent. -/
def minimalFrames (remainingBytes : Nat) : Nat := (toF32 remainingBytes + 4095) / 4096

/-- The bits below the highest one are set, then one is added; overflow is a panic. -/
def roundToNextPowerOfTwo (n : BitVec 64) : Option (BitVec 64) :=
  if n = 0#64 then some 1#64
  else
    let n := n - 1#64
    let n := n ||| n >>> 1
    let n := n ||| n >>> 2
    let n := n ||| n >>> 4
    let n := n ||| n >>> 8
    let n := n ||| n >>> 16
    let n := n ||| n >>> 32
    if n = BitVec.allOnes 64 then none else some (n + 1#64)

/-- A bit more than needed, so that the next request does not have to grow the heap again. -/
def optimalFrames (minimal : Nat) : Option Nat :=
  (roundToNextPowerOfTwo (BitVec.ofNat 64 (minimal + 1))).map fun n => max n.toNat 16

/-- The page at some distance from the start; there is none past the end of the address space. -/
def heapPage (k : Nat) : Option Page :=
  if heapStart + k * pageSize < 2 ^ 64 then
    some ⟨BitVec.ofNat 64 (heapStart + k * pageSize), by
      rw [BitVec.toNat_ofNat, heapStart, pageSize]
      omega⟩
  else none

/-- The loops that must map every page from `first` on. -/
def mapPages (level4 : PhysicalAddress) (mm : MemoryManager) (first : Nat) :
    Nat → Option MemoryManager
  | 0 => some mm
  | count + 1 => do
    let page ← heapPage first
    match mm.allocateFrame with
    | (none, _) => none
    | (some frame, mm) =>
      match mm.map level4 (.exact page frame) { writable := true } with
      | some (mm, .ok _) => mapPages level4 mm (first + 1) count
      | _ => none

/-- The loop that may stop early. -/
def tryMapPages (level4 : PhysicalAddress) (mm : MemoryManager) (first : Nat) :
    Nat → Option MemoryManager
  | 0 => some mm
  | count + 1 => do
    let page ← heapPage first
    match mm.allocateFrame with
    | (none, mm) => some mm
    | (some frame, mm) =>
      match mm.map level4 (.exact page frame) { writable := true } with
      | some (mm, .ok _) => tryMapPages level4 mm (first + 1) count
      | some (mm, .error _) => some mm
      | none => none

namespace KernelHeapAllocator

variable {H : Type}

/-- The kernel's own size is 64 MiB. An error ends the boot like a panic. -/
def initializeHeap (C : HeapCode H) (level4 : PhysicalAddress) (mm : MemoryManager)
    (initialHeapSize : Nat) : Option (KernelHeapAllocator H) := do
  let mm ← mapPages level4 mm 0 (initialHeapSize / pageSize)
  some ⟨mm, C.init heapStart initialHeapSize, initialHeapSize / pageSize⟩

/-- The part of `alloc` for a request that exceeds the free bytes. -/
def grow (C : HeapCode H) (level4 : PhysicalAddress) (a : KernelHeapAllocator H)
    (remainingBytes : Nat) : Option (KernelHeapAllocator H) := do
  let minimal := minimalFrames remainingBytes
  let optimal ← optimalFrames minimal
  if optimal < minimal then none
  else
    let mm ← mapPages level4 a.memoryManager a.currentlyAllocatedPages minimal
    let mm ← tryMapPages level4 mm (a.currentlyAllocatedPages + minimal) (optimal - minimal)
    -- all of them count, also those the loop did not get to
    some ⟨mm, C.extend a.heap (optimal * pageSize), a.currentlyAllocatedPages + optimal⟩

/-- The null pointer is `none`. -/
def allocateFirstFit (C : HeapCode H) (a : KernelHeapAllocator H) (layout : Layout) :
    KernelHeapAllocator H × Option Nat :=
  match C.allocateFirstFit a.heap layout with
  | none => (a, none)
  | some (p, heap) => ({ a with heap := heap }, some p)

def alloc (C : HeapCode H) (level4 : PhysicalAddress) (a : KernelHeapAllocator H)
    (layout : Layout) : Option (KernelHeapAllocator H × Option Nat) :=
  if C.free a.heap < layout.size then
    (a.grow C level4 (layout.size - C.free a.heap)).map fun a => a.allocateFirstFit C layout
  else some (a.allocateFirstFit C layout)

def dealloc (C : HeapCode H) (a : KernelHeapAllocator H) (p : Option Nat) (layout : Layout) :
    KernelHeapAllocator H :=
  match p with
  | none => a
  | some p => { a with heap := C.deallocate a.heap p layout }

end KernelHeapAllocator

/-! ## What is assumed of the heap, and what is to be shown -/

/-- The range a heap manages and the blocks it has handed out, each an address and a size. -/
structure HeapView (H : Type) where
  bottom : H → Nat
  size : H → Nat
  live : H → List (Nat × Nat)

def Apart (r s : Nat × Nat) : Prop := r.1 + r.2 ≤ s.1 ∨ s.1 + s.2 ≤ r.1

instance (r s : Nat × Nat) : Decidable (Apart r s) := inferInstanceAs (Decidable (_ ∨ _))

/-- The foreign heap is correct on the memory it was given. -/
structure HeapCode.Correct {H : Type} (C : HeapCode H) (V : HeapView H) : Prop where
  init : ∀ bottom size, V.bottom (C.init bottom size) = bottom ∧
    V.size (C.init bottom size) = size ∧ V.live (C.init bottom size) = []
  extend : ∀ h n, V.bottom (C.extend h n) = V.bottom h ∧ V.size (C.extend h n) = V.size h + n ∧
    V.live (C.extend h n) = V.live h
  allocate : ∀ h layout p h', C.allocateFirstFit h layout = some (p, h') →
    (V.bottom h ≤ p ∧ p + layout.size ≤ V.bottom h + V.size h) ∧
      (∀ r ∈ V.live h, Apart (p, layout.size) r) ∧
      V.bottom h' = V.bottom h ∧ V.size h' = V.size h ∧ V.live h' = (p, layout.size) :: V.live h
  deallocate : ∀ h p layout, (p, layout.size) ∈ V.live h →
    V.bottom (C.deallocate h p layout) = V.bottom h ∧ V.size (C.deallocate h p layout) = V.size h ∧
      V.live (C.deallocate h p layout) = (V.live h).erase (p, layout.size)

/-- The allocator and the blocks its callers hold. -/
structure HeapState (H : Type) where
  allocator : KernelHeapAllocator H
  live : List (Nat × Nat) := []

inductive Request where
  | alloc (layout : Layout)
  | dealloc (p : Option Nat) (layout : Layout)

namespace HeapState

variable {H : Type} {C : HeapCode H} {V : HeapView H} {level4 : PhysicalAddress}

/-- The output is the pointer that `alloc` returns. -/
def step (C : HeapCode H) (level4 : PhysicalAddress) (s : HeapState H) :
    Request → Option (HeapState H × Option Nat)
  | .alloc layout => (s.allocator.alloc C level4 layout).map fun r =>
      (⟨r.1, r.2.elim s.live fun p => (p, layout.size) :: s.live⟩, r.2)
  | .dealloc p layout =>
      some (⟨s.allocator.dealloc C p layout, p.elim s.live fun p => s.live.erase (p, layout.size)⟩,
        none)

/-- Only a block that was allocated is given back, with the layout it was allocated with. -/
def Valid (s : HeapState H) : Request → Prop
  | .alloc _ => True
  | .dealloc none _ => True
  | .dealloc (some p) layout => (p, layout.size) ∈ s.live

instance (s : HeapState H) : (r : Request) → Decidable (s.Valid r)
  | .alloc _ => isTrue trivial
  | .dealloc none _ => isTrue trivial
  | .dealloc (some _) _ => inferInstanceAs (Decidable (_ ∈ _))

/-- A byte lies in a page that is mapped writable. -/
def WritableAt (mm : MemoryManager) (level4 : PhysicalAddress) (x : Nat) : Prop :=
  x < 2 ^ 64 ∧ ∃ frame u e, mm.effective level4 (MemoryManager.pageOf (BitVec.ofNat 64 x)) =
    some (frame, (true, u, e))

/-- What is expected of the kernel heap. -/
structure Sound (V : HeapView H) (level4 : PhysicalAddress) (s : HeapState H) : Prop where
  /-- The range the foreign heap may use is mapped. -/
  declared : ∀ x, V.bottom s.allocator.heap ≤ x →
    x < V.bottom s.allocator.heap + V.size s.allocator.heap →
    WritableAt s.allocator.memoryManager level4 x
  /-- So are the blocks in use. -/
  mapped : ∀ r ∈ s.live, ∀ x, r.1 ≤ x → x < r.1 + r.2 →
    WritableAt s.allocator.memoryManager level4 x
  disjoint : s.live.Pairwise Apart

/-- A growth has four frames for every page: the page itself and, at most, three tables. -/
def EnoughFrames (C : HeapCode H) (s : HeapState H) : Request → Prop
  | .alloc layout => C.free s.allocator.heap < layout.size →
      ∀ optimal ∈ optimalFrames (minimalFrames (layout.size - C.free s.allocator.heap)),
        s.allocator.memoryManager.frameAllocator.n + 4 * optimal ≤
          s.allocator.memoryManager.frameAllocator.frames.length
  | .dealloc _ _ => True

end HeapState

/-! ## Mapping the pages -/

namespace MemoryManager

variable {mm mm' mm'' : MemoryManager} {level4 : PhysicalAddress}

/-- At most `k` frames were taken. -/
structure Takes (mm mm' : MemoryManager) (k : Nat) : Prop where
  frames : mm'.frameAllocator.frames = mm.frameAllocator.frames
  n : mm'.frameAllocator.n ≤ mm.frameAllocator.n + k

theorem Takes.trans {j k : Nat} (h : Takes mm mm' j) (h' : Takes mm' mm'' k) :
    Takes mm mm'' (j + k) := by
  refine ⟨h'.frames.trans h.frames, ?_⟩
  have hn := h.n
  have hn' := h'.n
  omega

theorem takes_allocateLowerLevelPageTable {table : PhysicalAddress} {i : Fin 512}
    (hrun : mm.allocateLowerLevelPageTable table i = some mm') : Takes mm mm' 1 := by
  unfold allocateLowerLevelPageTable allocateFrame FrameAllocator.allocate at hrun
  cases hf : mm.frameAllocator.frames[mm.frameAllocator.n]? with
  | none =>
    simp only [hf] at hrun
    cases hrun
  | some frame =>
    simp only [hf] at hrun
    obtain ⟨e, -, hrun⟩ := bind_eq_some.mp hrun
    cases hrun
    exact ⟨rfl, Nat.le_refl _⟩

theorem takes_enter {table : PhysicalAddress} {i : Fin 512} {checkHuge : Bool} {f : PageFlags}
    {r : Except MemoryError PhysicalAddress}
    (hrun : mm.enter table i checkHuge f = some (mm', r)) : Takes mm mm' 1 := by
  unfold enter at hrun
  split at hrun
  · split at hrun
    · cases hrun
      exact ⟨rfl, Nat.le_succ _⟩
    cases hrun
    exact ⟨rfl, Nat.le_succ _⟩
  · obtain ⟨mm1, htable, hrun⟩ := bind_eq_some.mp hrun
    have htakes := takes_allocateLowerLevelPageTable htable
    cases hrun
    exact ⟨htakes.frames, htakes.n⟩

theorem takes_descend {f : PageFlags} {levels : List (Fin 512 × Bool)} {table : PhysicalAddress}
    {r : Except MemoryError PhysicalAddress} (hrun : mm.descend table f levels = some (mm', r)) :
    Takes mm mm' levels.length := by
  induction levels generalizing mm table with
  | nil =>
    cases hrun
    exact ⟨rfl, Nat.le_refl _⟩
  | cons level levels ih =>
    unfold descend at hrun
    rw [List.length_cons, Nat.add_comm]
    split at hrun
    · cases hrun
    next mm1 e henter =>
      cases hrun
      exact (takes_enter henter).trans ⟨rfl, Nat.le_add_right _ _⟩
    next mm1 lower henter => exact (takes_enter henter).trans (ih hrun)

theorem takes_mapInner {page : Page} {frame : Frame} {f : PageFlags} {r : Except MemoryError Unit}
    (hrun : mm.mapInner level4 page frame f = some (mm', r)) : Takes mm mm' 3 := by
  unfold mapInner at hrun
  split at hrun
  · cases hrun
  split at hrun
  · cases hrun
  next mm1 e hdescend =>
    cases hrun
    exact takes_descend hdescend
  rename_i mm1 level1 hdescend
  -- the last level takes no frame
  have htakes := takes_descend hdescend
  unfold mapLeaf at hrun
  split at hrun
  · cases hrun
    exact htakes
  obtain ⟨e, -, hrun⟩ := bind_eq_some.mp hrun
  cases hrun
  exact ⟨htakes.frames, htakes.n⟩

end MemoryManager

theorem toNat_heapPage {k : Nat} {page : Page} (h : heapPage k = some page) :
    page.address.toNat = heapStart + k * pageSize := by
  unfold heapPage at h
  split at h
  next hlt =>
    cases h
    exact Nat.mod_eq_of_lt hlt
  · cases h

theorem canonical_heapPage {k : Nat} {page : Page} (h : heapPage k = some page) :
    Canonical page.address := by
  have hlt := page.address.isLt
  unfold Canonical
  rw [toNat_heapPage h, heapStart, pageSize] at *
  omega

theorem heapPage_injective {j k : Nat} {page page' : Page} (hj : heapPage j = some page)
    (hk : heapPage k = some page') (heq : page.address = page'.address) : j = k := by
  have h := toNat_heapPage hj
  rw [heq, toNat_heapPage hk, pageSize] at h
  omega

/-- The first pages of the heap are mapped writable, the others are free. -/
structure Extent (mm : MemoryManager) (level4 : PhysicalAddress) (a : AddressSpace) (pages : Nat) :
    Prop where
  represents : mm.Represents level4 a
  inside : ∀ k < pages, ∃ page frame, heapPage k = some page ∧
    a page.address = some (frame, (true, false, false))
  outside : ∀ k page, pages ≤ k → heapPage k = some page → a page.address = none

namespace Extent

variable {mm mm' : MemoryManager} {level4 : PhysicalAddress} {a : AddressSpace} {first : Nat}

/-- **One more page** is mapped with the next frame. -/
theorem mapPage (h : Extent mm level4 a first) {page : Page} (hpage : heapPage first = some page)
    {frame : Frame} (hframe : mm.frameAllocator.frames[mm.frameAllocator.n]? = some frame)
    {r : Except MemoryError (Page × Frame)}
    (hrun : (mm.allocateFrame).2.map level4 (.exact page frame) { writable := true } =
      some (mm', r)) :
    (∃ pair, r = .ok pair) ∧ (∃ a', Extent mm' level4 a' (first + 1)) ∧ mm.Takes mm' 4 := by
  obtain ⟨-, hmemory, hwf, -⟩ := h.represents.wf.takeFrame hframe
  have hrep : (mm.allocateFrame).2.Represents level4 a := ⟨hwf, h.represents.agrees⟩
  have hcanon := canonical_heapPage hpage
  have hbelow : frame.address.toNat < 2 ^ 52 :=
    h.represents.wf.fresh.below frame (List.mem_of_getElem? hframe)
  have htakes : Takes mm mm.allocateFrame.2 1 := ⟨rfl, Nat.le_refl _⟩
  generalize (mm.allocateFrame).2 = mm1 at hrun hrep htakes
  unfold map at hrun
  obtain ⟨⟨mm2, r2⟩, hinner, heq⟩ := Option.map_eq_some_iff.mp hrun
  cases heq
  replace htakes := htakes.trans (takes_mapInner hinner)
  obtain ⟨-, htaken, -⟩ | ⟨rfl, a', ⟨hfree, rfl⟩, hrep'⟩ := hrep.mapInner hcanon hbelow hinner
  · exact absurd (h.outside first page (Nat.le_refl _) hpage) htaken
  refine ⟨⟨_, rfl⟩, ⟨_, hrep', ?_, ?_⟩, htakes⟩
  · intro k hk
    rcases Nat.lt_succ_iff_lt_or_eq.mp hk with hlt | rfl
    · obtain ⟨page', frame', hpage', ha⟩ := h.inside k hlt
      refine ⟨page', frame', hpage', ?_⟩
      rw [AddressSpace.set, if_neg, ha]
      intro heq
      exact hlt.ne (heapPage_injective hpage' hpage heq)
    · exact ⟨page, frame.address, hpage, if_pos rfl⟩
  · intro k page' hk hpage'
    rw [AddressSpace.set, if_neg]
    · exact h.outside k page' (by omega) hpage'
    intro heq
    have := heapPage_injective hpage' hpage heq
    omega

theorem mapPages {count : Nat} (h : Extent mm level4 a first)
    (hrun : Memory.mapPages level4 mm first count = some mm') :
    (∃ a', Extent mm' level4 a' (first + count)) ∧ mm.Takes mm' (4 * count) := by
  induction count generalizing mm a first with
  | zero =>
    cases hrun
    exact ⟨⟨a, h⟩, rfl, Nat.le_refl _⟩
  | succ count ih =>
    unfold Memory.mapPages at hrun
    obtain ⟨page, hpage, hrun⟩ := bind_eq_some.mp hrun
    split at hrun
    · cases hrun
    rename_i frame mm0 hframe
    obtain rfl : (mm.allocateFrame).2 = mm0 := congrArg Prod.snd hframe
    split at hrun
    next mm1 pair hmap =>
      obtain ⟨-, ⟨a1, h1⟩, htakes⟩ := h.mapPage hpage (congrArg Prod.fst hframe) hmap
      obtain ⟨⟨a2, h2⟩, htakes'⟩ := ih h1 hrun
      rw [Nat.add_right_comm] at h2
      refine ⟨⟨a2, h2⟩, ?_⟩
      rw [Nat.mul_succ, Nat.add_comm]
      exact htakes.trans htakes'
    · cases hrun

/-- With enough frames the loop that may stop early does not. -/
theorem tryMapPages {count : Nat} (h : Extent mm level4 a first)
    (henough : mm.frameAllocator.n + 4 * count ≤ mm.frameAllocator.frames.length)
    (hrun : Memory.tryMapPages level4 mm first count = some mm') :
    ∃ a', Extent mm' level4 a' (first + count) := by
  induction count generalizing mm a first with
  | zero =>
    cases hrun
    exact ⟨a, h⟩
  | succ count ih =>
    unfold Memory.tryMapPages at hrun
    obtain ⟨page, hpage, hrun⟩ := bind_eq_some.mp hrun
    have hn : mm.frameAllocator.n < mm.frameAllocator.frames.length := by omega
    have hframe := List.getElem?_eq_getElem hn
    rw [show mm.allocateFrame = (some _, (mm.allocateFrame).2) from Prod.ext hframe rfl] at hrun
    dsimp only at hrun
    split at hrun
    next mm1 pair hmap =>
      obtain ⟨-, ⟨a1, h1⟩, htakes⟩ := h.mapPage hpage hframe hmap
      have hn1 := htakes.n
      obtain ⟨a2, h2⟩ := ih h1 (by rw [htakes.frames]; omega) hrun
      rw [Nat.add_right_comm] at h2
      exact ⟨a2, h2⟩
    next mm1 e hmap =>
      obtain ⟨⟨pair, hok⟩, -⟩ := h.mapPage hpage hframe hmap
      cases hok
    · cases hrun

end Extent

/-! ## Every run -/

namespace HeapState

variable {H : Type} {C : HeapCode H} {V : HeapView H} {level4 : PhysicalAddress} {s : HeapState H}

/-- The heap's range is the mapped extent, and the blocks in use are those of the heap. -/
structure Inv (V : HeapView H) (level4 : PhysicalAddress) (s : HeapState H) : Prop where
  extent : ∃ a, Extent s.allocator.memoryManager level4 a s.allocator.currentlyAllocatedPages
  bottom : V.bottom s.allocator.heap = heapStart
  size : V.size s.allocator.heap = s.allocator.currentlyAllocatedPages * pageSize
  live : V.live s.allocator.heap = s.live
  within : ∀ r ∈ s.live, heapStart ≤ r.1 ∧ r.1 + r.2 ≤ heapStart + V.size s.allocator.heap
  disjoint : s.live.Pairwise Apart

theorem Inv.writableAt (h : s.Inv V level4) {x : Nat} (hlow : heapStart ≤ x)
    (hhigh : x < heapStart + V.size s.allocator.heap) :
    WritableAt s.allocator.memoryManager level4 x := by
  obtain ⟨a, hextent⟩ := h.extent
  rw [h.size] at hhigh
  -- the page that holds the byte
  obtain ⟨page, frame, hpage, ha⟩ := hextent.inside ((x - heapStart) / pageSize) (by
    rw [pageSize] at *
    omega)
  have haddr := toNat_heapPage hpage
  have hlt := page.address.isLt
  have hx : x < 2 ^ 64 := by
    rw [haddr, heapStart, pageSize] at *
    omega
  have hpageOf : pageOf (BitVec.ofNat 64 x) = page.address := by
    apply BitVec.eq_of_toNat_eq
    rw [toNat_pageOf, BitVec.toNat_ofNat, Nat.mod_eq_of_lt hx, haddr]
    rw [heapStart, pageSize] at *
    omega
  refine ⟨hx, frame, false, false, ?_⟩
  rw [hpageOf, hextent.represents.effective (canonical_heapPage hpage), ha]

theorem Inv.sound (h : s.Inv V level4) : s.Sound V level4 where
  declared x hlow hhigh := by
    rw [h.bottom] at hlow hhigh
    exact h.writableAt hlow hhigh
  mapped r hr x hlow hhigh := by
    obtain ⟨hfirst, hlast⟩ := h.within r hr
    exact h.writableAt (Nat.le_trans hfirst hlow) (Nat.lt_of_lt_of_le hhigh hlast)
  disjoint := h.disjoint

section

variable (hC : C.Correct V) (h : s.Inv V level4)
include hC h

/-- The first-fit part of `alloc`, whether or not the heap has grown. -/
theorem Inv.allocateFirstFit (layout : Layout) :
    Inv V level4 ⟨(s.allocator.allocateFirstFit C layout).1,
      (s.allocator.allocateFirstFit C layout).2.elim s.live fun p =>
        (p, layout.size) :: s.live⟩ := by
  unfold KernelHeapAllocator.allocateFirstFit
  cases hfit : C.allocateFirstFit s.allocator.heap layout with
  | none => exact ⟨h.extent, h.bottom, h.size, h.live, h.within, h.disjoint⟩
  | some block =>
    obtain ⟨p, heap⟩ := block
    obtain ⟨hrange, hapart, hbottom, hsize, hlive⟩ := hC.allocate _ _ _ _ hfit
    refine ⟨h.extent, hbottom.trans h.bottom, hsize.trans h.size, ?_, ?_, ?_⟩
    · exact hlive.trans (congrArg _ h.live)
    · rw [h.bottom] at hrange
      intro r hr
      rw [hsize]
      rcases List.mem_cons.mp hr with rfl | hr
      · exact hrange
      · exact h.within r hr
    · rw [h.live] at hapart
      exact List.pairwise_cons.mpr ⟨hapart, h.disjoint⟩

/-- **Growing** keeps the heap's range and the mapped extent together, if the frames suffice. -/
theorem Inv.grow {remaining : Nat}
    (henough : ∀ optimal ∈ optimalFrames (minimalFrames remaining),
      s.allocator.memoryManager.frameAllocator.n + 4 * optimal ≤
        s.allocator.memoryManager.frameAllocator.frames.length) {allocator : KernelHeapAllocator H}
    (hrun : s.allocator.grow C level4 remaining = some allocator) :
    Inv V level4 ⟨allocator, s.live⟩ := by
  unfold KernelHeapAllocator.grow at hrun
  obtain ⟨optimal, hoptimal, hrun⟩ := bind_eq_some.mp hrun
  replace henough := henough optimal hoptimal
  split at hrun
  · cases hrun
  rename_i hle
  obtain ⟨mm1, hmap, hrun⟩ := bind_eq_some.mp hrun
  obtain ⟨mm2, htry, hrun⟩ := bind_eq_some.mp hrun
  cases hrun
  obtain ⟨a, hextent⟩ := h.extent
  obtain ⟨⟨a1, hextent1⟩, htakes⟩ := hextent.mapPages hmap
  have henough1 : mm1.frameAllocator.n + 4 * (optimal - minimalFrames remaining) ≤
      mm1.frameAllocator.frames.length := by
    have := htakes.n
    rw [htakes.frames]
    omega
  obtain ⟨a2, hextent2⟩ := hextent1.tryMapPages henough1 htry
  obtain ⟨hbottom, hsize, hlive⟩ := hC.extend s.allocator.heap (optimal * pageSize)
  refine ⟨⟨a2, ?_⟩, hbottom.trans h.bottom, ?_, hlive.trans h.live, ?_, h.disjoint⟩
  · rw [Nat.add_assoc, Nat.add_sub_cancel' (Nat.not_lt.mp hle)] at hextent2
    exact hextent2
  · rw [hsize, h.size, Nat.add_mul]
  intro r hr
  rw [hsize]
  have := h.within r hr
  omega

theorem Inv.dealloc {p : Option Nat} {layout : Layout} (hvalid : s.Valid (.dealloc p layout)) :
    Inv V level4 ⟨s.allocator.dealloc C p layout,
      p.elim s.live fun p => s.live.erase (p, layout.size)⟩ := by
  cases p with
  | none => exact ⟨h.extent, h.bottom, h.size, h.live, h.within, h.disjoint⟩
  | some p =>
    obtain ⟨hbottom, hsize, hlive⟩ := hC.deallocate s.allocator.heap p layout
      (by rw [h.live]; exact hvalid)
    refine ⟨h.extent, hbottom.trans h.bottom, hsize.trans h.size, ?_, ?_, ?_⟩
    · exact hlive.trans (congrArg (List.erase · _) h.live)
    · intro r hr
      dsimp only [KernelHeapAllocator.dealloc]
      rw [hsize]
      exact h.within r (List.mem_of_mem_erase hr)
    · exact h.disjoint.sublist List.erase_sublist

theorem Inv.step {request : Request} (hvalid : s.Valid request) (henough : s.EnoughFrames C request)
    {s' : HeapState H} {o : Option Nat} (hrun : step C level4 s request = some (s', o)) :
    s'.Inv V level4 := by
  cases request with
  | alloc layout =>
    simp only [HeapState.step] at hrun
    obtain ⟨⟨allocator, p⟩, halloc, heq⟩ := Option.map_eq_some_iff.mp hrun
    cases heq
    unfold KernelHeapAllocator.alloc at halloc
    split at halloc
    next hlt =>
      obtain ⟨grown, hgrow, heq⟩ := Option.map_eq_some_iff.mp halloc
      have hinv := (h.grow hC (henough hlt) hgrow).allocateFirstFit hC layout
      rw [heq] at hinv
      exact hinv
    · have hinv := h.allocateFirstFit hC layout
      rw [Option.some.inj halloc] at hinv
      exact hinv
  | dealloc p layout =>
    cases hrun
    exact h.dealloc hC hvalid

end

/-- **The kernel heap is sound** after every sequence of requests, as long as a growth finds four
frames for each of its pages. -/
theorem run_sound (C : HeapCode H) (V : HeapView H) (hC : C.Correct V) (level4 : PhysicalAddress)
    (mm : MemoryManager) (a : AddressSpace) (hrep : mm.Represents level4 a)
    (hfree : ∀ k page, heapPage k = some page → a page.address = none) (initialHeapSize : Nat)
    (hsize : initialHeapSize % pageSize = 0) (allocator : KernelHeapAllocator H)
    (hinit : KernelHeapAllocator.initializeHeap C level4 mm initialHeapSize = some allocator)
    (requests : List Request)
    (hok : Guarded (step C level4) (fun s r => s.Valid r ∧ s.EnoughFrames C r)
      ⟨allocator, []⟩ requests)
    (s : HeapState H) (pointers : List (Option Nat))
    (hrun : run (step C level4) ⟨allocator, []⟩ requests = some (s, pointers)) :
    s.Sound V level4 := by
  have hstart : Inv V level4 ⟨allocator, []⟩ := by
    unfold KernelHeapAllocator.initializeHeap at hinit
    obtain ⟨mm1, hmap, hinit⟩ := bind_eq_some.mp hinit
    cases hinit
    have hextent : Extent mm level4 a 0 :=
      ⟨hrep, fun k hk => absurd hk (Nat.not_lt_zero k), fun k page _ hpage => hfree k page hpage⟩
    obtain ⟨⟨a1, hextent1⟩, -⟩ := hextent.mapPages hmap
    rw [Nat.zero_add] at hextent1
    obtain ⟨hbottom, hsize', hlive⟩ := hC.init heapStart initialHeapSize
    refine ⟨⟨a1, hextent1⟩, hbottom, ?_, hlive, fun r hr => absurd hr List.not_mem_nil, .nil⟩
    rw [hsize']
    exact (Nat.div_mul_cancel (Nat.dvd_of_mod_eq_zero hsize)).symm
  have hinv : s.Inv V level4 := run_forall
    (fun _ _ _ _ h hok hstep => h.step hC hok.1 hok.2 hstep) hstart hok hrun
  exact hinv.sound

/-! ## A heap that never reuses memory -/

structure BumpHeap where
  bottom : Nat
  size : Nat
  next : Nat
  live : List (Nat × Nat)
  above : bottom ≤ next
  below : ∀ r ∈ live, r.1 + r.2 ≤ next

namespace BumpHeap

/-- The first address from `next` on with the alignment. -/
def place (h : BumpHeap) (layout : Layout) : Nat :=
  h.next + (layout.align - h.next % layout.align) % layout.align

theorem next_le_place (h : BumpHeap) (layout : Layout) : h.next ≤ h.place layout :=
  Nat.le_add_right _ _

def code : HeapCode BumpHeap where
  init bottom size := ⟨bottom, size, bottom, [], Nat.le_refl _, by simp⟩
  free h := h.bottom + h.size - h.next
  extend h n := { h with size := h.size + n }
  allocateFirstFit h layout :=
    if h.place layout + layout.size ≤ h.bottom + h.size then
      some (h.place layout,
        ⟨h.bottom, h.size, h.place layout + layout.size, (h.place layout, layout.size) :: h.live,
          by have := h.next_le_place layout; have := h.above; omega,
          by
            intro r hr
            rcases List.mem_cons.mp hr with rfl | hr
            · exact Nat.le_refl _
            have := h.below r hr
            have := h.next_le_place layout
            omega⟩)
    else none
  deallocate h p layout :=
    { h with
      live := h.live.erase (p, layout.size)
      below := fun r hr => h.below r (List.mem_of_mem_erase hr) }

def view : HeapView BumpHeap := ⟨bottom, size, live⟩

theorem correct : code.Correct view where
  init _ _ := ⟨rfl, rfl, rfl⟩
  extend _ _ := ⟨rfl, rfl, rfl⟩
  allocate h layout p h' hrun := by
    simp only [code] at hrun
    split at hrun
    next hle =>
      cases hrun
      have habove := h.above
      have hplace := h.next_le_place layout
      refine ⟨⟨?_, hle⟩, ?_, rfl, rfl, rfl⟩
      · exact Nat.le_trans habove hplace
      intro r hr
      exact .inr (Nat.le_trans (h.below r hr) hplace)
    · cases hrun
  deallocate _ _ _ _ := ⟨rfl, rfl, rfl⟩

end BumpHeap

def someFrames (count : Nat) : List Frame :=
  (List.range count).map fun k => ⟨BitVec.ofNat 64 (0x100000 + k * pageSize), by
    rw [BitVec.toNat_ofNat, pageSize]
    omega⟩

def zeroed (count : Nat) : MemoryManager := ⟨fun _ _ => 0#64, ⟨someFrames count, 0⟩⟩

instance decidableEnoughFrames (C : HeapCode H) (s : HeapState H) :
    (r : Request) → Decidable (s.EnoughFrames C r)
  | .alloc _ => inferInstanceAs (Decidable (_ → ∀ optimal ∈ optimalFrames _, _))
  | .dealloc _ _ => isTrue trivial

/-- One page at first; the first request makes the heap grow. -/
def someRequests : List Request :=
  [.alloc ⟨5000, 8⟩, .alloc ⟨20000, 16⟩, .dealloc (some heapStart) ⟨5000, 8⟩]

theorem run_sound_bump :
    ∃ allocator s pointers,
      KernelHeapAllocator.initializeHeap BumpHeap.code 0x1000#64 (zeroed 70) 4096 =
        some allocator ∧
      run (step BumpHeap.code 0x1000#64) ⟨allocator, []⟩ someRequests = some (s, pointers) ∧
      pointers = [some heapStart, some (heapStart + 5008), none] ∧
      s.Sound BumpHeap.view 0x1000#64 := by
  obtain ⟨allocator, hinit, hok, s, pointers, hrun, rfl⟩ : ∃ allocator,
      KernelHeapAllocator.initializeHeap BumpHeap.code 0x1000#64 (zeroed 70) 4096 =
        some allocator ∧
      Guarded (step BumpHeap.code 0x1000#64)
        (fun s r => s.Valid r ∧ s.EnoughFrames BumpHeap.code r) ⟨allocator, []⟩ someRequests ∧
      ∃ s pointers, run (step BumpHeap.code 0x1000#64) ⟨allocator, []⟩ someRequests =
          some (s, pointers) ∧
        pointers = [some heapStart, some (heapStart + 5008), none] := by decide +kernel
  have hrep : (zeroed 70).Represents 0x1000#64 (fun _ => none) :=
    represents_empty ⟨by decide +kernel, by decide +kernel, by decide +kernel⟩
      fun _ => rfl
  exact ⟨allocator, s, _, hinit, hrun, rfl,
    run_sound BumpHeap.code BumpHeap.view BumpHeap.correct 0x1000#64 (zeroed 70) _ hrep
      (fun _ _ _ => rfl) 4096 (by decide) allocator hinit someRequests hok s _ hrun⟩

/-- With eight frames the second block ends in a page that is not mapped. -/
theorem growth_past_the_mapped_pages :
    ∃ allocator s pointers,
      KernelHeapAllocator.initializeHeap BumpHeap.code 0x1000#64 (zeroed 8) 4096 =
        some allocator ∧
      Guarded (step BumpHeap.code 0x1000#64) Valid ⟨allocator, []⟩ (someRequests.take 2) ∧
      run (step BumpHeap.code 0x1000#64) ⟨allocator, []⟩ (someRequests.take 2) =
        some (s, pointers) ∧
      ¬ s.Sound BumpHeap.view 0x1000#64 := by
  obtain ⟨allocator, hinit, hok, s, pointers, hrun, hlive, hnone⟩ : ∃ allocator,
      KernelHeapAllocator.initializeHeap BumpHeap.code 0x1000#64 (zeroed 8) 4096 =
        some allocator ∧
      Guarded (step BumpHeap.code 0x1000#64) Valid ⟨allocator, []⟩ (someRequests.take 2) ∧
      ∃ s pointers, run (step BumpHeap.code 0x1000#64) ⟨allocator, []⟩ (someRequests.take 2) =
          some (s, pointers) ∧ (heapStart + 5008, 20000) ∈ s.live ∧
        s.allocator.memoryManager.effective 0x1000#64
          (pageOf (BitVec.ofNat 64 (heapStart + 25000))) = none := by decide +kernel
  refine ⟨allocator, s, pointers, hinit, hok, hrun, ?_⟩
  intro hsound
  obtain ⟨-, frame, u, e, heff⟩ := hsound.mapped _ hlive (heapStart + 25000) (by decide) (by decide)
  rw [hnone] at heff
  cases heff

end HeapState

end Moose.Memory
