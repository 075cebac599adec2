import Moose.Memory.Refine

/-!
# Address spaces

What the tables are for: a partial map from pages to frames and permissions. `AddressSpace.Step`
says what each call does to it, and every run of the memory manager from an empty top table is a run
of such a map (`run_refines`). The permissions of a page are the meet over the four levels of its
walk, as the processor computes them.
-/

set_option autoImplicit false

namespace Moose.Memory

open Option Lib Lib.Radix PageTableEntry

inductive Call where
  | map (m : MemoryManager.Map) (f : PageFlags)
  | unmap (page : Page)
  | translate (x : VirtualAddress)

inductive Reply where
  | mapped (page : Page) (frame : Frame)
  | unmapped
  | failed (e : MemoryError)
  | translated (r : Option PhysicalAddress)
deriving DecidableEq

namespace MemoryManager

def step (level4 : PhysicalAddress) (mm : MemoryManager) : Call → Option (MemoryManager × Reply)
  | .map m f => (mm.map level4 m f).map fun r =>
      (r.1, match r.2 with
        | .ok (page, frame) => .mapped page frame
        | .error e => .failed e)
  | .unmap page => (mm.unmapInner level4 page).map fun r =>
      (r.1, match r.2 with
        | .ok _ => .unmapped
        | .error e => .failed e)
  | .translate x => some (mm, .translated (mm.translateVirtualAddressToPhysical level4 x))

/-- Frame and effective permissions of a page. -/
def effective (mm : MemoryManager) (level4 : PhysicalAddress) (x : VirtualAddress) :
    Option (PhysicalAddress × Permissions) :=
  look format mm.memory level4 (upperPath x) (index 12 x)

end MemoryManager

/-- Canonical pages, and frames below `2 ^ 52`. -/
def Call.Valid : Call → Prop
  | .map (.exact page frame) _ => Canonical page.address ∧ frame.address.toNat < 2 ^ 52
  | .map (.identity page) _ => Canonical page.address ∧ page.address.toNat < 2 ^ 52
  | .map (.any frame _ _) _ => frame.address.toNat < 2 ^ 52
  | .unmap page => Canonical page.address
  | .translate _ => True

instance (c : Call) : Decidable c.Valid :=
  match c with
  | .map (.exact _ _) _ => inferInstanceAs (Decidable (_ ∧ _))
  | .map (.identity _) _ => inferInstanceAs (Decidable (_ ∧ _))
  | .map (.any _ _ _) _ => inferInstanceAs (Decidable (_ < _))
  | .unmap _ => inferInstanceAs (Decidable (Canonical _))
  | .translate _ => isTrue trivial

/-! ## The abstract map -/

abbrev AddressSpace := VirtualAddress → Option (PhysicalAddress × Permissions)

namespace AddressSpace

def set (a : AddressSpace) (x : VirtualAddress) (v : Option (PhysicalAddress × Permissions)) :
    AddressSpace := fun y => if y = x then v else a y

/-- A page that was free is mapped to a frame. -/
def Maps (a : AddressSpace) (page : Page) (frame : PhysicalAddress) (f : PageFlags)
    (a' : AddressSpace) : Prop :=
  a page.address = none ∧ a' = a.set page.address (some (frame, f.perm))

inductive Step (a : AddressSpace) : Call → Reply → AddressSpace → Prop where
  | exact {page frame f a'} (h : a.Maps page frame.address f a') :
    Step a (.map (.exact page frame) f) (.mapped page frame) a'
  | identity {page f a'} (h : a.Maps page page.address f a') :
    Step a (.map (.identity page) f) (.mapped page ⟨page.address, page.aligned⟩) a'
  | any {frame start stop f page a'} (hpage : Canonical page.address)
      (h : a.Maps page frame.address f a') :
    Step a (.map (.any frame start stop) f) (.mapped page frame) a'
  | taken {page frame f} (h : a page.address ≠ none) :
    Step a (.map (.exact page frame) f) (.failed .alreadyMapped) a
  | identityTaken {page f} (h : a page.address ≠ none) :
    Step a (.map (.identity page) f) (.failed .alreadyMapped) a
  | unmap {page} (h : a page.address ≠ none) :
    Step a (.unmap page) .unmapped (a.set page.address none)
  | missing {page} (h : a page.address = none) :
    Step a (.unmap page) (.failed .nonExistentMapping) a
  | translate {x} :
    Step a (.translate x) (.translated (if Canonical x then
      (a (MemoryManager.pageOf x)).map fun r =>
        r.1 + BitVec.ofNat 64 (MemoryManager.offset 12 x) else none)) a

end AddressSpace

/-! ## The simulation -/

namespace MemoryManager

variable {mm mm' : MemoryManager} {level4 : PhysicalAddress} {a : AddressSpace}

/-- The tables represent the map. -/
structure Represents (mm : MemoryManager) (level4 : PhysicalAddress) (a : AddressSpace) : Prop where
  wf : mm.Wf level4
  agrees : ∀ page : Page, Canonical page.address →
    leaf format mm.memory level4 (upperPath page.address) (index 12 page.address) = a page.address

section

variable (h : mm.Represents level4 a)
include h

theorem Represents.effective {page : Page} (hpage : Canonical page.address) :
    mm.effective level4 page.address = a page.address :=
  (h.wf.tree.look_eq_leaf (by simp [upperPath]) _).trans (h.agrees page hpage)

theorem Represents.extends (hext : Extends mm mm' level4) : mm'.Represents level4 a :=
  ⟨hext.wf, fun page hpage => (hext.leaf rfl _).trans (h.agrees page hpage)⟩

theorem Represents.sets {page : Page} (hpage : Canonical page.address)
    {v : Option (PhysicalAddress × Permissions)}
    (hset : Sets mm mm' level4 (upperPath page.address) (index 12 page.address) v) :
    mm'.Represents level4 (a.set page.address v) := by
  refine ⟨hset.wf, ?_⟩
  intro page' hpage'
  by_cases heq : page'.address = page.address
  · rw [AddressSpace.set, if_pos heq, heq]
    exact hset.self
  -- another page has another path
  have hne : ¬ (upperPath page'.address = upperPath page.address ∧
      index 12 page'.address = index 12 page.address) := by
    rintro ⟨hup, hlow⟩
    exact heq (page_eq_of_index hpage' hpage page'.aligned page.aligned hup hlow)
  rw [AddressSpace.set, if_neg heq, hset.other rfl hne]
  exact h.agrees page' hpage'

/-- A given page is mapped, or was mapped already. -/
theorem Represents.mapInner {page : Page} (hpage : Canonical page.address) {frame : Frame}
    (hframe : frame.address.toNat < 2 ^ 52) {f : PageFlags} {r : Except MemoryError Unit}
    (hrun : mm.mapInner level4 page frame f = some (mm', r)) :
    (r = .error .alreadyMapped ∧ a page.address ≠ none ∧ mm'.Represents level4 a) ∨
      (r = .ok () ∧ ∃ a', a.Maps page frame.address f a' ∧ mm'.Represents level4 a') := by
  obtain ⟨hnone, -⟩ | ⟨mm1, hmap, hext, hold⟩ | ⟨mm1, hmap, hold, hset⟩ :=
    h.wf.mapInner hpage hframe f
  · rw [hnone] at hrun
    cases hrun
  · rw [hmap] at hrun
    cases hrun
    rw [h.agrees page hpage] at hold
    exact .inl ⟨rfl, hold, h.extends hext⟩
  · rw [hmap] at hrun
    cases hrun
    rw [h.agrees page hpage] at hold
    exact .inr ⟨rfl, _, ⟨hold, rfl⟩, h.sets hpage hset⟩

/-- **One call** does to the map what it should. -/
theorem Represents.step {call : Call} (hvalid : call.Valid) {reply : Reply}
    (hrun : step level4 mm call = some (mm', reply)) :
    ∃ a', a.Step call reply a' ∧ mm'.Represents level4 a' := by
  cases call with
  | map m f =>
    cases m <;> simp only [MemoryManager.step, MemoryManager.map, map_map, map_eq_some_iff,
      Function.comp_apply, Prod.mk.injEq] at hrun
    case exact page frame =>
      obtain ⟨⟨mm1, r⟩, hmap, rfl, rfl⟩ := hrun
      obtain ⟨rfl, hold, hrep⟩ | ⟨rfl, a', hmaps, hrep⟩ := h.mapInner hvalid.1 hvalid.2 hmap
      · exact ⟨a, .taken hold, hrep⟩
      · exact ⟨a', .exact hmaps, hrep⟩
    case identity page =>
      obtain ⟨⟨mm1, r⟩, hmap, rfl, rfl⟩ := hrun
      obtain ⟨rfl, hold, hrep⟩ | ⟨rfl, a', hmaps, hrep⟩ := h.mapInner hvalid.1 hvalid.2 hmap
      · exact ⟨a, .identityTaken hold, hrep⟩
      · exact ⟨a', .identity hmaps, hrep⟩
    case any frame start stop =>
      obtain ⟨⟨mm1, page⟩, hmap, rfl, rfl⟩ := hrun
      obtain ⟨hpage, hold, hset⟩ := h.wf.mapAnyInner hvalid hmap
      rw [h.agrees page hpage] at hold
      exact ⟨_, .any hpage ⟨hold, rfl⟩, h.sets hpage hset⟩
  | unmap page =>
    simp only [MemoryManager.step, map_eq_some_iff, Prod.mk.injEq] at hrun
    obtain ⟨⟨mm1, r⟩, hunmap, rfl, rfl⟩ := hrun
    obtain ⟨hrun, hold⟩ | ⟨mm2, hrun, hold, hset⟩ := h.wf.unmapInner hvalid
    · rw [hrun] at hunmap
      cases hunmap
      rw [h.agrees page hvalid] at hold
      exact ⟨a, .missing hold, h⟩
    rw [hrun] at hunmap
    cases hunmap
    rw [h.agrees page hvalid] at hold
    exact ⟨_, .unmap hold, h.sets hvalid hset⟩
  | translate x =>
    cases hrun
    refine ⟨a, ?_, h⟩
    obtain ⟨hup, hlow, hcanon⟩ := index_pageOf x
    have halign : (pageOf x).toNat % pageSize = 0 := by
      rw [toNat_pageOf]
      exact Nat.mul_mod_left _ _
    have htranslate : mm.translateVirtualAddressToPhysical level4 x =
        if Canonical x then (a (pageOf x)).map fun r => r.1 + BitVec.ofNat 64 (offset 12 x)
        else none := by
      rw [h.wf.translate x]
      by_cases hx : Canonical x
      · have hagrees := h.agrees ⟨pageOf x, halign⟩ (hcanon.mpr hx)
        rw [hup, hlow] at hagrees
        rw [if_pos hx, if_pos hx, hagrees]
      · rw [if_neg hx, if_neg hx]
    rw [htranslate]
    exact .translate

end

/-- The calls that return in any case, if there are frames for three tables. -/
theorem Wf.returns (h : mm.Wf level4)
    (hframes : mm.frameAllocator.n + 3 ≤ mm.frameAllocator.frames.length) {call : Call}
    (hvalid : call.Valid) (hany : ∀ frame start stop f, call ≠ .map (.any frame start stop) f) :
    (step level4 mm call).isSome = true := by
  have hmap : ∀ {page : Page} (frame : Frame) (f : PageFlags), Canonical page.address →
      frame.address.toNat < 2 ^ 52 → (mm.mapInner level4 page frame f).isSome = true := by
    intro page frame f hpage hframe
    obtain ⟨-, hn⟩ | ⟨mm1, hmap, -⟩ | ⟨mm1, hmap, -⟩ := h.mapInner hpage hframe f
    · omega
    · rw [hmap]
      rfl
    · rw [hmap]
      rfl
  cases call with
  | map m f =>
    cases m with
    | exact page frame =>
      simp only [MemoryManager.step, MemoryManager.map, isSome_map]
      exact hmap frame f hvalid.1 hvalid.2
    | identity page =>
      simp only [MemoryManager.step, MemoryManager.map, isSome_map]
      exact hmap ⟨page.address, page.aligned⟩ f hvalid.1 hvalid.2
    | any frame start stop => exact absurd rfl (hany frame start stop f)
  | unmap page =>
    simp only [MemoryManager.step, isSome_map]
    obtain ⟨hrun, -⟩ | ⟨mm1, hrun, -⟩ := h.unmapInner hvalid
    · rw [hrun]
      rfl
    rw [hrun]
    rfl
  | translate x => rfl

theorem represents_empty (hfresh : mm.frameAllocator.Fresh level4)
    (hempty : ∀ i, mm.memory level4 i = 0#64) : mm.Represents level4 (fun _ => none) := by
  have hpres : ∀ i, format.present (mm.memory level4 i) = false := by
    intro i
    rw [hempty i]
    exact present_zero
  refine ⟨⟨hfresh, Tree.init hpres (.inl rfl)⟩, ?_⟩
  intro page _
  rw [leaf, upperPath, tableAt, hpres]
  rfl

/-- **The tables refine a partial map** along every run of valid calls from an empty top table: the
replies are those of the map, the effective translation of every page is what the map says, and the
next call does not panic as long as three frames are left. -/
theorem run_refines (level4 : PhysicalAddress) (mm : MemoryManager)
    (hfresh : mm.frameAllocator.Fresh level4) (hempty : ∀ i, mm.memory level4 i = 0#64)
    (calls : List Call) (hvalid : ∀ call ∈ calls, call.Valid) (replies : List Reply)
    (hrun : run (step level4) mm calls = some (mm', replies)) :
    ∃ a : AddressSpace, Trace AddressSpace.Step (fun _ => none) calls replies a ∧
      (∀ page : Page, Canonical page.address → mm'.effective level4 page.address = a page.address) ∧
      (mm'.frameAllocator.n + 3 ≤ mm'.frameAllocator.frames.length → ∀ call : Call, call.Valid →
        (∀ frame start stop f, call ≠ .map (.any frame start stop) f) →
        (step level4 mm' call).isSome = true) := by
  obtain ⟨a, htrace, hrep⟩ := run_sim_partial (R := fun mm a => mm.Represents level4 a)
    (fun _ _ _ _ _ h hv hs => h.step hv hs) calls hvalid (represents_empty hfresh hempty) hrun
  exact ⟨a, htrace, fun page hpage => hrep.effective hpage,
    fun hframes call hcall hany => hrep.wf.returns hframes hcall hany⟩

/-- A memory manager over zeroed memory with eight frames from `2 ^ 20` on. -/
def booted : MemoryManager where
  memory := fun _ _ => 0#64
  frameAllocator := ⟨[⟨0x100000#64, by decide⟩, ⟨0x101000#64, by decide⟩, ⟨0x102000#64, by decide⟩,
    ⟨0x103000#64, by decide⟩, ⟨0x104000#64, by decide⟩, ⟨0x105000#64, by decide⟩,
    ⟨0x106000#64, by decide⟩, ⟨0x107000#64, by decide⟩], 0⟩

/-- A kernel page, an identity mapping, the kernel page again, a translation and an unmapping. -/
def someCalls : List Call :=
  [.map (.exact ⟨0xFFFFFFFF82220000#64, by decide⟩ ⟨0x200000#64, by decide⟩)
      { writable := true },
    .map (.identity ⟨0x200000#64, by decide⟩) { executable := true, userModeAccessible := true },
    .map (.exact ⟨0xFFFFFFFF82220000#64, by decide⟩ ⟨0x300000#64, by decide⟩)
      { writable := true, userModeAccessible := true },
    .map (.any ⟨0x400000#64, by decide⟩ 0 1) { writable := true },
    .translate 0xFFFFFFFF82220123#64,
    .unmap ⟨0x200000#64, by decide⟩]

def someReplies : List Reply :=
  [.mapped ⟨0xFFFFFFFF82220000#64, by decide⟩ ⟨0x200000#64, by decide⟩,
    .mapped ⟨0x200000#64, by decide⟩ ⟨0x200000#64, by decide⟩, .failed .alreadyMapped,
    .mapped ⟨0x1000#64, by decide⟩ ⟨0x400000#64, by decide⟩,
    .translated (some 0x200123#64), .unmapped]

theorem run_refines_booted :
    ∃ mm', run (step 0x1000#64) booted someCalls = some (mm', someReplies) ∧
      ∃ a : AddressSpace, Trace AddressSpace.Step (fun _ => none) someCalls someReplies a ∧
        ∀ page : Page, Canonical page.address →
          mm'.effective 0x1000#64 page.address = a page.address := by
  have hreplies : (run (step 0x1000#64) booted someCalls).map (·.2) = some someReplies := by
    decide +kernel
  obtain ⟨⟨mm', replies⟩, hrun, rfl⟩ := map_eq_some_iff.mp hreplies
  have hfresh : booted.frameAllocator.Fresh 0x1000#64 := ⟨by decide, by decide, by decide⟩
  obtain ⟨a, htrace, heff, -⟩ := run_refines 0x1000#64 booted hfresh (fun _ => rfl) someCalls
    (by decide) _ hrun
  exact ⟨mm', hrun, a, htrace, heff⟩

end MemoryManager

end Moose.Memory
