import Mathlib.Order.ConditionallyCompleteLattice.Basic
import Moose.Memory.AddressSpace

/-!
# Extended page tables

`IntelEpt`: the tables that translate guest physical addresses. Their frames come from the memory
manager, which also maps each of them at its own address, so a table is named by its frame here. The
kernel's own tables and these ones lie in the same memory; they stay apart because a frame is handed
out once (`Wf`).

`IntelEpt::new` does not clear the frame of the top table.
-/

set_option autoImplicit false

namespace Moose.Reindeer

open Lib Lib.Radix
open Memory (MemoryManager PhysicalAddress Frame Page pageSize index upperPath)

abbrev GuestPhysAddr := BitVec 64
abbrev HostPhysAddr := BitVec 64

inductive MemoryAccessRights where
  | read | write | execute | readWrite | readExecute | readWriteExecute

/-! ## Entries -/

abbrev EptEntry := BitVec 64
abbrev EptFlags := BitVec 64

namespace EptFlags

def read : EptFlags := 1#64 <<< 0
def write : EptFlags := 1#64 <<< 1
def execute : EptFlags := 1#64 <<< 2
def writeBack : EptFlags := 6#64 <<< 3
def ignoreEpt : EptFlags := 1#64 <<< 6

def all : EptFlags := read ||| write ||| execute ||| writeBack ||| ignoreEpt

end EptFlags

def MemoryAccessRights.flags : MemoryAccessRights → EptFlags
  | .read => EptFlags.read
  | .write => EptFlags.read ||| EptFlags.write
  | .execute => EptFlags.read ||| EptFlags.execute
  | .readWrite => EptFlags.read ||| EptFlags.write
  | .readExecute => EptFlags.read ||| EptFlags.execute
  | .readWriteExecute => EptFlags.read ||| EptFlags.write ||| EptFlags.execute

namespace EptEntry

def address (e : EptEntry) : HostPhysAddr := e &&& 0xFFFFFFFFFFFFF000#64

def flags (e : EptEntry) : EptFlags := (e &&& 0xFFF#64) &&& EptFlags.all

/-- The assertion, and an address cut to 52 bits. -/
def setAddress (e : EptEntry) (a : HostPhysAddr) : Option EptEntry :=
  if a &&& 0xFFF#64 = 0#64 then some ((a &&& 0x000FFFFFFFFFF000#64) ||| flags e) else none

def setFlags (e : EptEntry) (f : EptFlags) : EptEntry := address e ||| f

def readable (e : EptEntry) : Bool := flags e &&& EptFlags.read == EptFlags.read

/-- `set_address` and then `set_flags`. -/
def link (e : EptEntry) (a : HostPhysAddr) (f : EptFlags) : Option EptEntry := do
  let e ← setAddress e a
  some (setFlags e f)

/-- Every flag value that is written is among the known flags and lets the entry be read. -/
theorem link_spec (e : EptEntry) {a : HostPhysAddr} (ha : a.toNat % pageSize = 0)
    (hlt : a.toNat < 2 ^ 52) {f : EptFlags} (hf : f &&& 0xFFFFFFFFFFFFF000#64 = 0#64)
    (hread : readable f = true) :
    ∃ e', link e a f = some e' ∧ readable e' = true ∧ address e' = a := by
  obtain ⟨hlow, hhigh⟩ := Memory.PageTableEntry.assertions_of_aligned ha hlt
  have hmask := Memory.PageTableEntry.and_frameMask hlow hhigh
  refine ⟨_, by rw [link, setAddress, if_pos hlow]; rfl, ?_⟩
  rw [hmask]
  have haddr : address (a ||| flags e) = a := by
    have hflags : flags e &&& 0xFFFFFFFFFFFFF000#64 = 0#64 := by
      rw [flags, BitVec.and_assoc, BitVec.and_assoc]
      have : 0xFFF#64 &&& (EptFlags.all &&& 0xFFFFFFFFFFFFF000#64) = 0#64 := by decide
      rw [this, BitVec.and_zero]
    have hself : a &&& 0xFFFFFFFFFFFFF000#64 = a := by
      have : 0x000FFFFFFFFFF000#64 &&& 0xFFFFFFFFFFFFF000#64 = 0x000FFFFFFFFFF000#64 := by decide
      rw [← hmask, BitVec.and_assoc, this]
    rw [address, BitVec.and_or_distrib_right, hflags, hself, BitVec.or_zero]
  constructor
  · -- the flags come from `f` only
    have hzero : address (a ||| flags e) &&& 0xFFF#64 = 0#64 := by
      rw [haddr, hlow]
    have hsame : flags (setFlags (a ||| flags e) f) = flags f := by
      rw [flags, setFlags, BitVec.and_or_distrib_right, hzero, BitVec.zero_or]
      rfl
    rw [readable, hsame]
    exact hread
  · rw [setFlags, haddr, address, BitVec.and_or_distrib_right, hf, BitVec.or_zero]
    have : 0x000FFFFFFFFFF000#64 &&& 0xFFFFFFFFFFFFF000#64 = 0x000FFFFFFFFFF000#64 := by decide
    rw [← hmask, BitVec.and_assoc, this]

/-- Whatever a path allows is not looked at. -/
def format : Format HostPhysAddr EptEntry Unit where
  present := readable
  addr := address
  perm _ := ()
  inner _ := True

end EptEntry

/-! ## The tables -/

open EptEntry

structure IntelEpt where
  eptp : HostPhysAddr

/-- The frame is mapped at its own address; the result is unwrapped. -/
def identityMap (mm : MemoryManager) (cr3 : PhysicalAddress) (frame : Frame) :
    Option MemoryManager :=
  match mm.map cr3 (.exact ⟨frame.address, frame.aligned⟩ frame) { writable := true } with
  | some (mm, .ok _) => some mm
  | _ => none

/-- A frame of the memory manager, mapped for writing. -/
def takeFrame (mm : MemoryManager) (cr3 : PhysicalAddress) : Option (MemoryManager × Frame) :=
  match mm.allocateFrame with
  | (none, _) => none
  | (some frame, mm) => do
    let mm ← identityMap mm cr3 frame
    some (mm, frame)

namespace IntelEpt

def new (mm : MemoryManager) (cr3 : PhysicalAddress) : Option (MemoryManager × IntelEpt) := do
  let (mm, frame) ← takeFrame mm cr3
  some (mm, ⟨frame.address⟩)

def allocateLowerLevelPageTable (mm : MemoryManager) (cr3 : PhysicalAddress) (table : HostPhysAddr)
    (i : Fin 512) : Option MemoryManager := do
  let (mm, frame) ← takeFrame mm cr3
  let mm := { mm with memory := clear mm.memory frame.address 0#64 }
  let e ← link (mm.memory table i) frame.address
    (EptFlags.read ||| EptFlags.write ||| EptFlags.execute)
  some (mm.setEntry table i e)

def enter (mm : MemoryManager) (cr3 : PhysicalAddress) (table : HostPhysAddr) (i : Fin 512) :
    Option (MemoryManager × HostPhysAddr) := do
  let mm ← if readable (mm.memory table i) then some mm
    else allocateLowerLevelPageTable mm cr3 table i
  some (mm, address (mm.memory table i))

def map (ept : IntelEpt) (mm : MemoryManager) (cr3 : PhysicalAddress) (gpa : GuestPhysAddr)
    (hpa : HostPhysAddr) (rights : MemoryAccessRights) : Option MemoryManager := do
  let (mm, level3) ← enter mm cr3 ept.eptp (index 39 gpa)
  let (mm, level2) ← enter mm cr3 level3 (index 30 gpa)
  let (mm, level1) ← enter mm cr3 level2 (index 21 gpa)
  let e ← link (mm.memory level1 (index 12 gpa)) hpa (rights.flags ||| EptFlags.writeBack)
  some (mm.setEntry level1 (index 12 gpa) e)

/-- Page `i` of a block and the next `n` ones. -/
def mapFrom (ept : IntelEpt) (cr3 : PhysicalAddress) (gpa : GuestPhysAddr) (hpa : HostPhysAddr)
    (rights : MemoryAccessRights) (i : Nat) : Nat → MemoryManager → Option MemoryManager
  | 0, mm => some mm
  | n + 1, mm => do
    let mm ← ept.map mm cr3 (gpa + BitVec.ofNat 64 (i * pageSize))
      (hpa + BitVec.ofNat 64 (i * pageSize)) rights
    ept.mapFrom cr3 gpa hpa rights (i + 1) n mm

def mapContiguous (ept : IntelEpt) (mm : MemoryManager) (cr3 : PhysicalAddress)
    (gpa : GuestPhysAddr) (hpa : HostPhysAddr) (sizeInPages : Nat) (rights : MemoryAccessRights) :
    Option MemoryManager :=
  ept.mapFrom cr3 gpa hpa rights 0 sizeInPages mm

def translate (ept : IntelEpt) (mm : MemoryManager) (gpa : GuestPhysAddr) : Option HostPhysAddr :=
  let e4 := mm.memory ept.eptp (index 39 gpa)
  if !readable e4 then none
  else
    let e3 := mm.memory (address e4) (index 30 gpa)
    if !readable e3 then none
    else
      let e2 := mm.memory (address e3) (index 21 gpa)
      if !readable e2 then none
      else
        let e1 := mm.memory (address e2) (index 12 gpa)
        if !readable e1 then none
        else some (address e1 + BitVec.ofNat 64 (MemoryManager.offset 12 gpa))

/-! ## The invariant -/

variable {mm mm' mm'' : MemoryManager} {cr3 eptp a b : PhysicalAddress} {p q : List (Fin 512)}
  {i : Fin 512}

/-- The kernel's tables are as they should be, and the tables here are a tree of frames that the
memory manager does not write any more. -/
structure Wf (mm : MemoryManager) (cr3 eptp : PhysicalAddress) : Prop where
  host : mm.Wf cr3
  tree : Tree format mm.memory eptp 3 (fun x => ¬ mm.Owned cr3 x)

/-- Tables stay where they are, and the last level stays as it is. -/
structure Extends (mm mm' : MemoryManager) (cr3 eptp : PhysicalAddress) : Prop where
  wf : Wf mm' cr3 eptp
  table : ∀ {p a}, p.length ≤ 3 → tableAt format mm.memory eptp p = some a →
    tableAt format mm'.memory eptp p = some a
  leaf : ∀ {q}, q.length = 3 → ∀ j, leaf format mm'.memory eptp q j = leaf format mm.memory eptp q j

theorem Extends.trans (h : Extends mm mm' cr3 eptp) (h' : Extends mm' mm'' cr3 eptp) :
    Extends mm mm'' cr3 eptp :=
  ⟨h'.wf, fun hp ha => h'.table hp (h.table hp ha), fun hq j => (h'.leaf hq j).trans (h.leaf hq j)⟩

theorem ceiling_unit (m : PhysicalAddress → Fin 512 → EptEntry) (root : PhysicalAddress)
    (p : List (Fin 512)) (x : Unit) : Ceiling format m root p x := fun _ _ _ _ _ => le_refl _

/-- The identity mapping keeps everything but the kernel's own tables. -/
theorem identityMap_spec (h : mm.Wf cr3) {frame : Frame} (hframe : frame.address.toNat < 2 ^ 52)
    (hrun : identityMap mm cr3 frame = some mm') :
    mm'.Wf cr3 ∧ (∀ {x}, mm'.Owned cr3 x → mm.Owned cr3 x) ∧
      ∀ {x}, ¬ mm.Owned cr3 x → mm'.memory x = mm.memory x := by
  unfold identityMap MemoryManager.map at hrun
  dsimp only at hrun
  have hpage : Memory.Canonical frame.address := by
    -- another address fails the assertion of `map_inner`
    by_contra hpage
    have hnone : mm.mapInner cr3 ⟨frame.address, frame.aligned⟩ frame { writable := true } =
        none := if_pos fun heq => hpage ((Memory.signExtend_eq_iff _).mp heq)
    rw [hnone] at hrun
    cases hrun
  obtain ⟨hnone, -⟩ | ⟨mm1, hmap, -⟩ | ⟨mm1, hmap, -, hset⟩ :=
    h.mapInner (show Memory.Canonical (Page.address ⟨frame.address, frame.aligned⟩) from hpage)
      hframe { writable := true }
  · rw [hnone] at hrun
    cases hrun
  · rw [hmap] at hrun
    cases hrun
  · rw [hmap] at hrun
    cases hrun
    exact ⟨hset.wf, hset.owned, hset.frame⟩

/-- A frame for a table: the memory manager gives it away. -/
theorem takeFrame_spec (h : mm.Wf cr3) {frame : Frame}
    (hrun : takeFrame mm cr3 = some (mm', frame)) :
    mm.frameAllocator.frames[mm.frameAllocator.n]? = some frame ∧ mm'.Wf cr3 ∧
      (∀ {x}, mm'.Owned cr3 x → mm.Owned cr3 x) ∧ mm.Owned cr3 frame.address ∧
      ¬ mm'.Owned cr3 frame.address ∧
      (∀ {x}, ¬ mm.Owned cr3 x ∨ x = frame.address → mm'.memory x = mm.memory x) := by
  unfold takeFrame at hrun
  cases hf : mm.frameAllocator.frames[mm.frameAllocator.n]? with
  | none =>
    have hnone : mm.allocateFrame.1 = none := hf
    split at hrun
    · cases hrun
    next heq =>
      rw [heq] at hnone
      cases hnone
  | some frame' =>
    obtain ⟨hframe, hmem, hwf, howned, hold, hnew⟩ := h.takeFrame hf
    split at hrun
    · cases hrun
    next f mm1 heq =>
      rw [heq] at hframe hmem hwf howned hnew
      cases hframe
      obtain ⟨mm2, hid, hret⟩ := bind_eq_some.mp hrun
      cases hret
      obtain ⟨hwf2, howned2, hframe2⟩ :=
        identityMap_spec hwf (h.fresh.below frame (List.mem_of_getElem? hf)) hid
      refine ⟨rfl, hwf2, fun hx => howned (howned2 hx), hold, fun hx => hnew (howned2 hx), ?_⟩
      rintro x (hx | rfl)
      · rw [hframe2 fun hx' => hx (howned hx'), hmem]
      · rw [hframe2 hnew, hmem]

/-- A table at the end of a path belongs to no one else. -/
theorem Wf.not_owned (h : Wf mm cr3 eptp) (hp : p.length ≤ 3)
    (ha : tableAt format mm.memory eptp p = some a) : ¬ mm.Owned cr3 a := h.tree.used hp ha

theorem Wf.allocateLowerLevelPageTable (h : Wf mm cr3 eptp) (hlen : p.length < 3)
    (ha : tableAt format mm.memory eptp p = some a) (hi : readable (mm.memory a i) = false)
    (hrun : allocateLowerLevelPageTable mm cr3 a i = some mm') :
    Extends mm mm' cr3 eptp ∧ readable (mm'.memory a i) = true := by
  obtain ⟨⟨mm1, frame⟩, htake, hrun⟩ := bind_eq_some.mp hrun
  obtain ⟨hf, hwf1, howned1, hold, hnew, hmem⟩ := takeFrame_spec h.host htake
  have hown_a := h.not_owned hlen.le ha
  have hab : a ≠ frame.address := fun heq => hown_a (heq ▸ hold)
  -- the tables are the same after the frame was taken
  have hagree : ∀ {p : List (Fin 512)} {c : PhysicalAddress}, p.length ≤ 3 →
      tableAt format mm.memory eptp p = some c → mm1.memory c = mm.memory c :=
    fun hp hc => hmem (.inl (h.not_owned hp hc))
  have htree1 := h.tree.agree hagree
  have htable1 : ∀ {q : List (Fin 512)}, q.length ≤ 3 →
      tableAt format mm1.memory eptp q = tableAt format mm.memory eptp q :=
    fun hq => Tree.tableAt_agree hagree hq
  have ha1 : tableAt format mm1.memory eptp p = some a := (htable1 hlen.le).trans ha
  have hi1 : readable (mm1.memory a i) = false := by
    rw [hagree hlen.le ha]
    exact hi
  have hbelow : frame.address.toNat < 2 ^ 52 := h.host.fresh.below frame (List.mem_of_getElem? hf)
  obtain ⟨e, he, hread, haddr⟩ := link_spec (mm1.memory a i) frame.aligned hbelow
    (f := EptFlags.read ||| EptFlags.write ||| EptFlags.execute) (by decide) (by decide)
  dsimp only at hrun
  rw [clear_ne hab, bind_of_eq_some he] at hrun
  cases hrun
  have hzero : readable 0#64 = false := by decide
  have hb : ¬ ¬ mm.Owned cr3 frame.address := not_not.mpr hold
  have hgrow : ∀ {q : List (Fin 512)}, q.length ≤ 3 →
      tableAt format (write (clear mm1.memory frame.address 0#64) a i e) eptp q =
        if q = p ++ [i] then some frame.address else tableAt format mm1.memory eptp q :=
    htree1.tableAt_grow hlen ha1 hi1 hb hzero hread haddr
  have hhost := hwf1.elsewhere (write (clear mm1.memory frame.address 0#64) a i e) (by
    intro x hx
    have hxa : x ≠ a := fun heq => hown_a (howned1 (heq ▸ hx))
    have hxf : x ≠ frame.address := fun heq => hnew (heq ▸ hx)
    rw [write_of_ne hxa]
    funext j
    exact clear_ne hxf j)
  refine ⟨⟨⟨hhost.1, ?_⟩, ?_, ?_⟩, ?_⟩
  · apply htree1.grow hlen ha1 hi1 hb hzero hread haddr trivial (ceiling_unit _ _ _ _)
    · exact fun x hx hx' => hx (howned1 (hhost.2 hx'))
    · exact fun hx' => hnew (hhost.2 hx')
  · intro q c hq hc
    change tableAt format (write _ a i e) eptp q = some c
    have hnot : q ≠ p ++ [i] := by
      rintro rfl
      rw [tableAt_snoc_of_absent ha hi] at hc
      cases hc
    rw [hgrow hq, if_neg hnot, htable1 hq, hc]
  · intro q hq j
    exact (htree1.leaf_grow hlen ha1 hi1 hb hzero hread haddr hq j).trans
      (Tree.leaf_agree hagree hq.le j)
  · change readable (write _ a i e a i) = true
    rw [write_self]
    exact hread

theorem Wf.enter (h : Wf mm cr3 eptp) (hlen : p.length < 3)
    (ha : tableAt format mm.memory eptp p = some a) (hrun : enter mm cr3 a i = some (mm', b)) :
    Extends mm mm' cr3 eptp ∧ tableAt format mm'.memory eptp (p ++ [i]) = some b := by
  unfold IntelEpt.enter at hrun
  cases hi : readable (mm.memory a i) with
  | true =>
    rw [hi, if_pos rfl] at hrun
    cases hrun
    exact ⟨⟨h, fun _ hc => hc, fun _ _ => rfl⟩, tableAt_snoc_of_present ha hi⟩
  | false =>
    rw [hi, if_neg nofun] at hrun
    obtain ⟨mm1, halloc, hret⟩ := bind_eq_some.mp hrun
    cases hret
    obtain ⟨hext, hread⟩ := h.allocateLowerLevelPageTable hlen ha hi halloc
    exact ⟨hext, tableAt_snoc_of_present (hext.table hlen.le ha) hread⟩

/-- What is written for a page, and what is not. -/
structure Sets (mm mm' : MemoryManager) (cr3 eptp : PhysicalAddress) (gpa : GuestPhysAddr)
    (hpa : HostPhysAddr) : Prop where
  wf : Wf mm' cr3 eptp
  self : leaf format mm'.memory eptp (upperPath gpa) (index 12 gpa) = some (hpa, ())
  other : ∀ {q j}, q.length = 3 → ¬ (q = upperPath gpa ∧ j = index 12 gpa) →
    leaf format mm'.memory eptp q j = leaf format mm.memory eptp q j

theorem Wf.map {ept : IntelEpt} (h : Wf mm cr3 ept.eptp) {gpa : GuestPhysAddr} {hpa : HostPhysAddr}
    (haligned : hpa.toNat % pageSize = 0) (hlt : hpa.toNat < 2 ^ 48) {rights : MemoryAccessRights}
    (hrun : ept.map mm cr3 gpa hpa rights = some mm') : Sets mm mm' cr3 ept.eptp gpa hpa := by
  obtain ⟨⟨mm1, level3⟩, h1, hrun⟩ := bind_eq_some.mp hrun
  obtain ⟨⟨mm2, level2⟩, h2, hrun⟩ := bind_eq_some.mp hrun
  obtain ⟨⟨mm3, level1⟩, h3, hrun⟩ := bind_eq_some.mp hrun
  obtain ⟨e1, t1⟩ := h.enter (p := []) (by simp) rfl h1
  obtain ⟨e2, t2⟩ := e1.wf.enter (p := [index 39 gpa]) (by simp) t1 h2
  obtain ⟨e3, t3⟩ := e2.wf.enter (p := [index 39 gpa, index 30 gpa]) (by simp) t2 h3
  have ht : tableAt format mm3.memory ept.eptp (upperPath gpa) = some level1 := t3
  have hext := (e1.trans e2).trans e3
  have hflags : (rights.flags ||| EptFlags.writeBack) &&& 0xFFFFFFFFFFFFF000#64 = 0#64 ∧
      readable (rights.flags ||| EptFlags.writeBack) = true := by
    cases rights <;> decide
  obtain ⟨e, he, hread, haddr⟩ := link_spec (mm3.memory level1 (index 12 gpa)) haligned
    (Nat.lt_of_lt_of_le hlt (by decide)) hflags.1 hflags.2
  dsimp only at hrun
  rw [bind_of_eq_some he] at hrun
  cases hrun
  have hlen : (upperPath gpa).length = 3 := rfl
  have hown := e3.wf.not_owned hlen.le ht
  have hhost := e3.wf.host.elsewhere (write mm3.memory level1 (index 12 gpa) e) (by
    intro x hx
    exact write_of_ne fun heq => hown (heq ▸ hx))
  refine ⟨⟨hhost.1, ?_⟩, ?_, ?_⟩
  · apply (e3.wf.tree.setLeaf hlen ht fun _ => ceiling_unit _ _ _ _).mono_used
    exact fun x hx hx' => hx (hhost.2 hx')
  · have hself := e3.wf.tree.leaf_setLeaf_self (i := index 12 gpa) (e := e) hlen ht
    rw [show format.present e = true from hread, if_pos rfl,
      show format.addr e = hpa from haddr] at hself
    exact hself
  · intro q j hq hne
    exact (e3.wf.tree.leaf_setLeaf_ne hlen ht hq hne).trans (hext.leaf hq j)

theorem translate_eq (ept : IntelEpt) (mm : MemoryManager) (gpa : GuestPhysAddr) :
    ept.translate mm gpa = (leaf format mm.memory ept.eptp (upperPath gpa) (index 12 gpa)).map
      fun r => r.1 + BitVec.ofNat 64 (MemoryManager.offset 12 gpa) := by
  rw [upperPath, leaf_three]
  unfold translate
  dsimp only [format]
  generalize mm.memory ept.eptp (index 39 gpa) = e4
  generalize mm.memory (address e4) (index 30 gpa) = e3
  generalize mm.memory (address e3) (index 21 gpa) = e2
  generalize mm.memory (address e2) (index 12 gpa) = e1
  by_cases h4 : readable e4 = true
  · by_cases h3 : readable e3 = true
    · by_cases h2 : readable e2 = true
      · by_cases h1 : readable e1 = true
        · simp [h4, h3, h2, h1]
        · simp [h4, h3, h2, h1]
      · simp [h4, h3, h2]
    · simp [h4, h3]
  · simp [h4]

/-! ## Runs -/

inductive Call where
  | map (gpa : GuestPhysAddr) (hpa : HostPhysAddr) (rights : MemoryAccessRights)
  | mapContiguous (gpa : GuestPhysAddr) (hpa : HostPhysAddr) (sizeInPages : Nat)
      (rights : MemoryAccessRights)
  | translate (gpa : GuestPhysAddr)

def step (ept : IntelEpt) (cr3 : PhysicalAddress) (mm : MemoryManager) :
    Call → Option (MemoryManager × Option HostPhysAddr)
  | .map gpa hpa rights => (ept.map mm cr3 gpa hpa rights).map (·, none)
  | .mapContiguous gpa hpa sizeInPages rights =>
    (ept.mapContiguous mm cr3 gpa hpa sizeInPages rights).map (·, none)
  | .translate gpa => some (mm, ept.translate mm gpa)

/-- `n` pages from an aligned address on, below `2 ^ 48`. -/
def InRange (x : BitVec 64) (n : Nat) : Prop :=
  x.toNat % pageSize = 0 ∧ x.toNat + n * pageSize ≤ 2 ^ 48

def Call.Valid : Call → Prop
  | .map gpa hpa _ => InRange gpa 1 ∧ InRange hpa 1
  | .mapContiguous gpa hpa n _ => InRange gpa n ∧ InRange hpa n
  | .translate gpa => gpa.toNat < 2 ^ 48

instance (x : BitVec 64) (n : Nat) : Decidable (InRange x n) := inferInstanceAs (Decidable (_ ∧ _))

instance (c : Call) : Decidable c.Valid :=
  match c with
  | .map _ _ _ => inferInstanceAs (Decidable (_ ∧ _))
  | .mapContiguous _ _ _ _ => inferInstanceAs (Decidable (_ ∧ _))
  | .translate _ => inferInstanceAs (Decidable (_ < _))

/-- The host frame of every guest page that was mapped. -/
abbrev GuestMap := GuestPhysAddr → Option HostPhysAddr

namespace GuestMap

def set (g : GuestMap) (gpa : GuestPhysAddr) (hpa : HostPhysAddr) : GuestMap :=
  fun x => if x = gpa then some hpa else g x

/-- Page `i` of a block and the next `n` ones. -/
def setFrom (gpa : GuestPhysAddr) (hpa : HostPhysAddr) (i : Nat) : Nat → GuestMap → GuestMap
  | 0, g => g
  | n + 1, g => setFrom gpa hpa (i + 1) n
      (g.set (gpa + BitVec.ofNat 64 (i * pageSize)) (hpa + BitVec.ofNat 64 (i * pageSize)))

/-- The frame of the page, and the offset in it. -/
def translate (g : GuestMap) (gpa : GuestPhysAddr) : Option HostPhysAddr :=
  (g (MemoryManager.pageOf gpa)).map fun hpa =>
    hpa + BitVec.ofNat 64 (MemoryManager.offset 12 gpa)

inductive Step (g : GuestMap) : Call → Option HostPhysAddr → GuestMap → Prop where
  | map {gpa hpa rights} : Step g (.map gpa hpa rights) none (g.set gpa hpa)
  | mapContiguous {gpa hpa n rights} :
    Step g (.mapContiguous gpa hpa n rights) none (g.setFrom gpa hpa 0 n)
  | translate {gpa} : Step g (.translate gpa) (g.translate gpa) g

end GuestMap

/-- The tables represent the map. -/
structure Represents (mm : MemoryManager) (cr3 eptp : PhysicalAddress) (g : GuestMap) : Prop where
  wf : Wf mm cr3 eptp
  agrees : ∀ x : GuestPhysAddr, InRange x 1 →
    leaf format mm.memory eptp (upperPath x) (index 12 x) = (g x).map (·, ())

theorem eq_of_index {x y : GuestPhysAddr} (hx : InRange x 1) (hy : InRange y 1)
    (hup : upperPath x = upperPath y) (hlow : index 12 x = index 12 y) : x = y := by
  simp only [upperPath, List.cons.injEq, and_true] at hup
  have hdigits : x.toNat / 2 ^ 12 % 2 ^ 36 = y.toNat / 2 ^ 12 % 2 ^ 36 := by
    rw [Memory.digits_index, Memory.digits_index, hup.1, hup.2.1, hup.2.2, hlow]
  unfold InRange pageSize at hx hy
  apply BitVec.eq_of_toNat_eq
  omega

variable {ept : IntelEpt} {g : GuestMap} {gpa : GuestPhysAddr} {hpa : HostPhysAddr}
  {rights : MemoryAccessRights}

theorem Represents.map (h : Represents mm cr3 ept.eptp g) (hg : InRange gpa 1) (hh : InRange hpa 1)
    (hrun : ept.map mm cr3 gpa hpa rights = some mm') :
    Represents mm' cr3 ept.eptp (g.set gpa hpa) := by
  have hlt : hpa.toNat < 2 ^ 48 := by
    have := hh.2
    unfold pageSize at this
    omega
  have hset := h.wf.map hh.1 hlt hrun
  refine ⟨hset.wf, ?_⟩
  intro x hx
  by_cases heq : x = gpa
  · rw [heq, hset.self, GuestMap.set, if_pos rfl]
    rfl
  have hne : ¬ (upperPath x = upperPath gpa ∧ index 12 x = index 12 gpa) :=
    fun hidx => heq (eq_of_index hx hg hidx.1 hidx.2)
  rw [hset.other rfl hne, h.agrees x hx, GuestMap.set, if_neg heq]

theorem InRange.page {x : BitVec 64} {n i : Nat} (h : InRange x n) (hi : i < n) :
    InRange (x + BitVec.ofNat 64 (i * pageSize)) 1 := by
  obtain ⟨haligned, hlt⟩ := h
  unfold InRange pageSize at *
  have hnat : (x + BitVec.ofNat 64 (i * 4096)).toNat = x.toNat + i * 4096 := by
    rw [BitVec.toNat_add, BitVec.toNat_ofNat]
    omega
  rw [hnat]
  omega

/-- A block, page by page; the induction is on the pages still to map. -/
theorem Represents.mapFrom {k : Nat} (hg : InRange gpa k) (hh : InRange hpa k) (n : Nat) :
    ∀ {mm mm' : MemoryManager} {g : GuestMap} {i : Nat}, Represents mm cr3 ept.eptp g →
      i + n ≤ k → ept.mapFrom cr3 gpa hpa rights i n mm = some mm' →
      Represents mm' cr3 ept.eptp (g.setFrom gpa hpa i n) := by
  induction n with
  | zero =>
    intro mm mm' g i h _ hrun
    cases hrun
    exact h
  | succ n ih =>
    intro mm mm' g i h hle hrun
    obtain ⟨mm1, hmap, hrest⟩ := bind_eq_some.mp hrun
    have h1 := h.map (hg.page (i := i) (by omega)) (hh.page (i := i) (by omega)) hmap
    exact ih h1 (by omega) hrest

theorem Represents.translate (h : Represents mm cr3 ept.eptp g) (hgpa : gpa.toNat < 2 ^ 48) :
    ept.translate mm gpa = g.translate gpa := by
  obtain ⟨hup, hlow, -⟩ := MemoryManager.index_pageOf gpa
  have hpage : InRange (MemoryManager.pageOf gpa) 1 := by
    unfold InRange pageSize
    rw [MemoryManager.toNat_pageOf]
    omega
  have hagrees := h.agrees _ hpage
  rw [hup, hlow] at hagrees
  rw [translate_eq, hagrees, Option.map_map]
  rfl

theorem Represents.step (h : Represents mm cr3 ept.eptp g) {call : Call} (hvalid : call.Valid)
    {out : Option HostPhysAddr} (hrun : ept.step cr3 mm call = some (mm', out)) :
    ∃ g', g.Step call out g' ∧ Represents mm' cr3 ept.eptp g' := by
  cases call with
  | map gpa hpa rights =>
    obtain ⟨mm1, hmap, hret⟩ := Option.map_eq_some_iff.mp hrun
    cases hret
    exact ⟨_, .map, h.map hvalid.1 hvalid.2 hmap⟩
  | mapContiguous gpa hpa n rights =>
    obtain ⟨mm1, hmap, hret⟩ := Option.map_eq_some_iff.mp hrun
    cases hret
    exact ⟨_, .mapContiguous, Represents.mapFrom hvalid.1 hvalid.2 n h (by omega) hmap⟩
  | translate gpa =>
    cases hrun
    rw [h.translate hvalid]
    exact ⟨g, .translate, h⟩

/-- The frame that the top table will get holds no entry that can be read. -/
def CleanRoot (mm : MemoryManager) : Prop :=
  ∀ frame, mm.frameAllocator.frames[mm.frameAllocator.n]? = some frame →
    ∀ i, readable (mm.memory frame.address i) = false

/-- **The tables refine the map of the calls** if the frame of the top table was clean. -/
theorem run_translates (cr3 : PhysicalAddress) (mm mm1 : MemoryManager) (hhost : mm.Wf cr3)
    (hclean : CleanRoot mm) (ept : IntelEpt) (hnew : new mm cr3 = some (mm1, ept))
    (calls : List Call) (hvalid : ∀ call ∈ calls, call.Valid) (outs : List (Option HostPhysAddr))
    (hrun : run (ept.step cr3) mm1 calls = some (mm', outs)) :
    ∃ g : GuestMap, Trace GuestMap.Step (fun _ => none) calls outs g ∧
      ∀ gpa : GuestPhysAddr, gpa.toNat < 2 ^ 48 → ept.translate mm' gpa = g.translate gpa := by
  obtain ⟨⟨mm2, frame⟩, htake, hret⟩ := bind_eq_some.mp hnew
  cases hret
  obtain ⟨hf, hwf, -, -, hnotOwned, hmem⟩ := takeFrame_spec hhost htake
  have hempty : ∀ i, format.present (mm1.memory frame.address i) = false := by
    intro i
    rw [hmem (.inr rfl)]
    exact hclean frame hf i
  have hinit : Represents mm1 cr3 frame.address (fun _ => none) := by
    refine ⟨⟨hwf, Tree.init hempty hnotOwned⟩, ?_⟩
    intro x _
    rw [leaf, upperPath, tableAt, hempty]
    rfl
  obtain ⟨g, htrace, hrep⟩ := run_sim_partial
    (R := fun mm g => Represents mm cr3 (IntelEpt.mk frame.address).eptp g)
    (fun _ _ _ _ _ h hv hs => h.step hv hs) calls hvalid hinit hrun
  exact ⟨g, htrace, fun gpa hgpa => hrep.translate hgpa⟩

/-- A memory manager whose top table at `0x1000` is empty and whose other memory holds `e`. -/
def filled (e : BitVec 64) : MemoryManager :=
  { MemoryManager.booted with memory := fun a _ => if a = 0x1000#64 then 0#64 else e }

theorem wf_filled (e : BitVec 64) : (filled e).Wf 0x1000#64 := by
  have hfresh : MemoryManager.booted.frameAllocator.Fresh 0x1000#64 :=
    ⟨by decide, by decide, by decide⟩
  exact ⟨hfresh, Tree.init (fun _ => Memory.PageTableEntry.present_zero) (.inl rfl)⟩

/-- In clean memory two pages are mapped, one of them twice. -/
theorem run_translates_clean :
    ∃ mm1 ept mm' outs, new (filled 0#64) 0x1000#64 = some (mm1, ept) ∧
      run (ept.step 0x1000#64) mm1 [.mapContiguous 0x5000#64 0x8000#64 2 .readWrite,
        .map 0x5000#64 0x9000#64 .read, .translate 0x5010#64] = some (mm', outs) ∧
      outs = [none, none, some 0x9010#64] ∧
      ∃ g : GuestMap, ∀ gpa : GuestPhysAddr, gpa.toNat < 2 ^ 48 →
        ept.translate mm' gpa = g.translate gpa := by
  obtain ⟨mm1, ept, hnew, mm', outs, hrun, houts⟩ : ∃ mm1 ept,
      new (filled 0#64) 0x1000#64 = some (mm1, ept) ∧ ∃ mm' outs,
        run (ept.step 0x1000#64) mm1 [.mapContiguous 0x5000#64 0x8000#64 2 .readWrite,
          .map 0x5000#64 0x9000#64 .read, .translate 0x5010#64] = some (mm', outs) ∧
          outs = [none, none, some 0x9010#64] := by decide +kernel
  obtain ⟨g, -, htranslate⟩ := run_translates 0x1000#64 (filled 0#64) mm1 (wf_filled _) (by
    intro frame _ i
    have hzero : (filled 0#64).memory frame.address i = 0#64 := ite_self _
    rw [hzero]
    decide) ept hnew _ (by decide) outs hrun
  exact ⟨mm1, ept, mm', outs, hnew, hrun, houts, g, htranslate⟩

/-- A fresh `IntelEpt` translates a page that was never mapped, through what the frame of its top
table held before. -/
theorem fresh_ept_translates :
    ¬ ∀ (cr3 : PhysicalAddress) (mm mm1 : MemoryManager) (ept : IntelEpt), mm.Wf cr3 →
      new mm cr3 = some (mm1, ept) → ept.translate mm1 0#64 = none := by
  intro h
  obtain ⟨mm1, ept, hnew, htranslate⟩ : ∃ mm1 ept,
      new (filled 0x5007#64) 0x1000#64 = some (mm1, ept) ∧
        ept.translate mm1 0#64 = some 0x5000#64 := by decide +kernel
  have hnone := h 0x1000#64 (filled 0x5007#64) mm1 ept (wf_filled _) hnew
  cases hnone.symm.trans htranslate

end IntelEpt

end Moose.Reindeer
