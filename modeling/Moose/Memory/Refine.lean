import Moose.Lib.Run
import Moose.Memory.Manager

/-!
# The tables represent a partial map

`Wf` is the invariant: the tables of an address space form a tree of frames that the allocator has
handed out, and an entry never allows more than the one above it. The calls only do three things to
such a tree: they hang new tables into it, raise the flags of inner entries, and write entries of
the last level. `Extends` says what the first two leave alone, and that is everything a page can
see.
-/

set_option autoImplicit false

namespace Moose.Memory

open Lib Lib.Radix PageTableEntry

/-- The frames are distinct, below `2 ^ 52`, and none that is left is the top table. -/
structure FrameAllocator.Fresh (a : FrameAllocator) (level4 : PhysicalAddress) : Prop where
  nodup : (a.frames.map Frame.address).Nodup
  level4 : level4 ∉ (a.frames.drop a.n).map Frame.address
  below : ∀ f ∈ a.frames, f.address.toNat < 2 ^ 52

namespace MemoryManager

variable {mm mm' mm'' : MemoryManager} {level4 a b : PhysicalAddress} {p : List (Fin 512)}
  {i : Fin 512} {f : PageFlags}

/-- The top table and the frames handed out. -/
def Used (mm : MemoryManager) (level4 x : PhysicalAddress) : Prop :=
  x = level4 ∨ x ∈ (mm.frameAllocator.frames.take mm.frameAllocator.n).map Frame.address

structure Wf (mm : MemoryManager) (level4 : PhysicalAddress) : Prop where
  fresh : mm.frameAllocator.Fresh level4
  tree : Tree format mm.memory level4 3 (mm.Used level4)

/-- What the calls may write: the tables, and the frames that are left. -/
def Owned (mm : MemoryManager) (level4 x : PhysicalAddress) : Prop :=
  (∃ p : List (Fin 512), p.length ≤ 3 ∧ tableAt format mm.memory level4 p = some x) ∨
    x ∈ (mm.frameAllocator.frames.drop mm.frameAllocator.n).map Frame.address

/-- Tables stay where they are, the last level stays as it is, and so does all other memory. -/
structure Extends (mm mm' : MemoryManager) (level4 : PhysicalAddress) : Prop where
  wf : mm'.Wf level4
  owned : ∀ {x}, mm'.Owned level4 x → mm.Owned level4 x
  frame : ∀ {x}, ¬ mm.Owned level4 x → mm'.memory x = mm.memory x
  table : ∀ {p a}, p.length ≤ 3 → tableAt format mm.memory level4 p = some a →
    tableAt format mm'.memory level4 p = some a
  leaf : ∀ {q}, q.length = 3 → ∀ j, leaf format mm'.memory level4 q j =
    leaf format mm.memory level4 q j
  perm : ∀ {p a i}, p.length < 3 → tableAt format mm.memory level4 p = some a →
    present (mm.memory a i) = true → perm (mm.memory a i) ≤ perm (mm'.memory a i)
  frames : mm'.frameAllocator.frames = mm.frameAllocator.frames

/-- An entry that leads to a table still does. -/
theorem Extends.present (h : Extends mm mm' level4) (hlen : p.length < 3)
    (ha : tableAt format mm.memory level4 p = some a) (hi : present (mm.memory a i) = true) :
    PageTableEntry.present (mm'.memory a i) = true ∧
      address (mm'.memory a i) = address (mm.memory a i) := by
  have hnext : tableAt format mm.memory level4 (p ++ [i]) = some (address (mm.memory a i)) :=
    tableAt_snoc_of_present ha hi
  have hnext' := h.table (by simp; omega) hnext
  rw [tableAt_snoc, h.table hlen.le ha, Option.bind_some] at hnext'
  split at hnext'
  next hi' =>
    exact ⟨hi', Option.some.inj hnext'⟩
  · cases hnext'

theorem Extends.refl (h : mm.Wf level4) : Extends mm mm level4 :=
  ⟨h, id, fun _ => rfl, fun _ hp => hp, fun _ _ => rfl, fun _ _ _ => le_refl _, rfl⟩

theorem Extends.trans (h : Extends mm mm' level4) (h' : Extends mm' mm'' level4) :
    Extends mm mm'' level4 where
  wf := h'.wf
  owned hx := h.owned (h'.owned hx)
  frame hx := (h'.frame fun hx' => hx (h.owned hx')).trans (h.frame hx)
  table hp ha := h'.table hp (h.table hp ha)
  leaf hq j := (h'.leaf hq j).trans (h.leaf hq j)
  perm hp ha hi :=
    le_trans (h.perm hp ha hi) (h'.perm hp (h.table hp.le ha) (h.present hp ha hi).1)
  frames := h'.frames.trans h.frames

/-- What an entry of a table may allow does not become less. -/
theorem Extends.ceiling (h : Extends mm mm' level4) (hlen : p.length ≤ 3)
    (ha : tableAt format mm.memory level4 p = some a) {x : Permissions}
    (hceil : Ceiling format mm.memory level4 p x) : Ceiling format mm'.memory level4 p x := by
  rintro q j c rfl hc'
  rw [List.length_append, List.length_singleton] at hlen
  rw [tableAt_snoc] at ha
  cases hc : tableAt format mm.memory level4 q with
  | none =>
    rw [hc] at ha
    cases ha
  | some c0 =>
    rw [hc, Option.bind_some] at ha
    split at ha
    next hj =>
      rw [h.table (by omega) hc] at hc'
      cases hc'
      exact le_trans (hceil q j c rfl hc) (h.perm (by omega) hc hj)
    · cases ha

/-! ## What inner entries allow -/

/-- An inner entry lets everything be executed. -/
theorem Wf.exec_of_ceiling (h : mm.Wf level4) (hlen : p.length ≤ 3)
    (ha : tableAt format mm.memory level4 p = some a) {w u : Bool} (x : Bool)
    (hceil : Ceiling format mm.memory level4 p (w, u, false)) :
    Ceiling format mm.memory level4 p (w, u, x) := by
  rintro q j c rfl hc
  have hle := hceil q j c rfl hc
  rw [List.length_append, List.length_singleton] at hlen
  rw [tableAt_snoc, hc, Option.bind_some] at ha
  split at ha
  next hj =>
    have hinner := (h.tree.inner (by omega) hc hj).2
    change ((w, u, x) : Permissions) ≤ perm (mm.memory c j)
    refine ⟨hle.1, hle.2.1, ?_⟩
    rw [hinner]
    exact Bool.le_true x
  · cases ha

theorem ceiling_bot (m : PhysicalAddress → Fin 512 → PageTableEntry) (level4 : PhysicalAddress)
    (p : List (Fin 512)) : Ceiling format m level4 p (false, false, false) :=
  fun _ _ _ _ _ => ⟨Bool.false_le _, Bool.false_le _, Bool.false_le _⟩

/-! ## Raising flags -/

theorem Wf.assignPropagable (h : mm.Wf level4) (hlen : p.length < 3)
    (ha : tableAt format mm.memory level4 p = some a) (hi : present (mm.memory a i) = true)
    (hceil : Ceiling format mm.memory level4 p (f.writable, f.userModeAccessible, false)) :
    Extends mm (mm.assignPropagable a i f) level4 ∧
      ((f.writable, f.userModeAccessible, false) : Permissions) ≤
        perm ((mm.assignPropagable a i f).memory a i) := by
  have hview := view_assignPropagable (mm.memory a i) f
  simp only [view, View.mk.injEq] at hview
  obtain ⟨hpres, haddr, hhuge, hperm⟩ := hview
  have hinner := h.tree.inner hlen ha hi
  have hle : perm (mm.memory a i) ≤
      perm (PageTableEntry.assignPropagable (mm.memory a i) f) := by
    rw [hperm]
    exact le_sup_left
  have htree : Tree format (write mm.memory a i
      (PageTableEntry.assignPropagable (mm.memory a i) f)) level4 3 (mm.Used level4) := by
    apply h.tree.raise hlen ha hi (hpres.trans hi) haddr _ hle
    · rintro q j c rfl hc
      change perm _ ≤ perm _
      rw [hperm]
      exact sup_le (h.tree.ceiling hlen.le ha hi q j c rfl hc) (hceil q j c rfl hc)
    · refine ⟨hhuge.trans hinner.1, ?_⟩
      rw [hperm, Permissions.sup_eq]
      exact hinner.2
  have htable : ∀ q, tableAt format (mm.assignPropagable a i f).memory level4 q =
      tableAt format mm.memory level4 q := Tree.tableAt_raise hpres haddr
  refine ⟨⟨⟨h.fresh, htree⟩, ?_, ?_, ?_, ?_, ?_, rfl⟩, ?_⟩
  · rintro x (⟨q, hq, hx⟩ | hx)
    · rw [htable] at hx
      exact .inl ⟨q, hq, hx⟩
    · exact .inr hx
  · intro x hx
    apply write_of_ne
    rintro rfl
    exact hx (.inl ⟨p, hlen.le, ha⟩)
  · intro q c _ hc
    rw [htable, hc]
  · intro q hq j
    exact h.tree.leaf_raise hlen ha hpres haddr hq j
  · intro q c j _ _ _
    change perm _ ≤ perm (write mm.memory a i _ c j)
    by_cases heq : c = a ∧ j = i
    · rw [heq.1, heq.2, write_self]
      exact hle
    · rw [write_ne heq]
  · change _ ≤ perm (write mm.memory a i _ a i)
    rw [write_self, hperm]
    exact le_sup_right

/-! ## New tables -/

variable {frame : Frame} {page : Page}

theorem mem_remaining (hf : mm.frameAllocator.frames[mm.frameAllocator.n]? = some frame) :
    frame.address ∈ (mm.frameAllocator.frames.drop mm.frameAllocator.n).map Frame.address := by
  obtain ⟨hn, hget⟩ := List.getElem?_eq_some_iff.mp hf
  apply List.mem_map_of_mem
  rw [List.drop_eq_getElem_cons hn, hget]
  exact List.mem_cons_self

theorem not_used_next (h : mm.Wf level4)
    (hf : mm.frameAllocator.frames[mm.frameAllocator.n]? = some frame) :
    ¬ mm.Used level4 frame.address := by
  obtain ⟨hn, hget⟩ := List.getElem?_eq_some_iff.mp hf
  rintro (heq | hmem)
  · exact h.fresh.level4 (heq ▸ mem_remaining hf)
  obtain ⟨frame', hmem, heq⟩ := List.mem_map.mp hmem
  obtain ⟨k, hk, hget'⟩ := List.mem_iff_getElem.mp hmem
  rw [List.length_take] at hk
  rw [List.getElem_take] at hget'
  have hinj := (List.nodup_iff_injective_getElem.mp h.fresh.nodup)
  have hidx := @hinj ⟨k, by rw [List.length_map]; omega⟩
    ⟨mm.frameAllocator.n, by rw [List.length_map]; exact hn⟩
    (by simp only [List.getElem_map, hget', hget, heq])
  have := congrArg Fin.val hidx
  simp only at this
  omega

theorem remaining_subset {x : PhysicalAddress}
    (hx : x ∈ (mm.frameAllocator.frames.drop (mm.frameAllocator.n + 1)).map Frame.address) :
    x ∈ (mm.frameAllocator.frames.drop mm.frameAllocator.n).map Frame.address :=
  List.map_subset _ (List.drop_subset_drop_left _ (Nat.le_succ _)) hx

/-- The top table is not among the frames that are left after one was taken. -/
theorem Wf.fresh_next (h : mm.Wf level4) :
    ({ mm.frameAllocator with n := mm.frameAllocator.n + 1 } : FrameAllocator).Fresh level4 :=
  ⟨h.fresh.nodup, fun hmem => h.fresh.level4 (remaining_subset hmem), h.fresh.below⟩

theorem used_next {x : PhysicalAddress} (hx : mm.Used level4 x) :
    x = level4 ∨ x ∈ (mm.frameAllocator.frames.take (mm.frameAllocator.n + 1)).map
      Frame.address := by
  obtain rfl | hx := hx
  · exact .inl rfl
  · exact .inr (List.map_subset _ (List.take_subset_take_left _ (Nat.le_succ _)) hx)

/-- A new table is empty, and its frame was not used before. -/
theorem Wf.allocateLowerLevelPageTable (h : mm.Wf level4) (hlen : p.length < 3)
    (ha : tableAt format mm.memory level4 p = some a) (hi : present (mm.memory a i) = false)
    (hf : mm.frameAllocator.frames[mm.frameAllocator.n]? = some frame) :
    ∃ mm', mm.allocateLowerLevelPageTable a i = some mm' ∧ Extends mm mm' level4 ∧
      PageTableEntry.present (mm'.memory a i) = true ∧
      mm'.frameAllocator.n = mm.frameAllocator.n + 1 := by
  have hnew := not_used_next h hf
  have hne : a ≠ frame.address := fun heq => hnew (heq ▸ h.tree.used hlen.le ha)
  have hbelow : frame.address.toNat < 2 ^ 52 := h.fresh.below frame (List.mem_of_getElem? hf)
  obtain ⟨e, he, hview⟩ := view_link (mm.memory a i) hbelow
  simp only [view, View.mk.injEq] at hview
  obtain ⟨hpres, haddr, hhuge, hperm⟩ := hview
  have hframe : frame.address ∈ (mm.frameAllocator.frames.take
      (mm.frameAllocator.n + 1)).map Frame.address := by
    apply List.mem_map_of_mem
    rw [List.take_add_one, hf]
    exact List.mem_append_right _ (List.mem_singleton_self frame)
  have htree := h.tree.grow hlen ha hi hnew present_zero hpres haddr
    ⟨hhuge, congrArg (·.2.2) hperm⟩ (by
      change Ceiling format mm.memory level4 p (perm e)
      rw [hperm]
      exact h.exec_of_ceiling hlen.le ha true (ceiling_bot _ _ _)) (fun _ => used_next)
    (.inr hframe)
  have hrun : mm.allocateLowerLevelPageTable a i = some
      { memory := write (clear mm.memory frame.address 0#64) a i e
        frameAllocator := { mm.frameAllocator with n := mm.frameAllocator.n + 1 } } := by
    unfold MemoryManager.allocateLowerLevelPageTable allocateFrame FrameAllocator.allocate
    simp only [hf, clear_ne hne, he]
    rfl
  refine ⟨_, hrun, ⟨⟨h.fresh_next, htree⟩, ?_, ?_, ?_, ?_, ?_, rfl⟩, ?_, rfl⟩
  · rintro x (⟨q, hq, hx⟩ | hx)
    · change tableAt format (write _ a i e) level4 q = some x at hx
      rw [h.tree.tableAt_grow hlen ha hi hnew present_zero hpres haddr hq] at hx
      split at hx
      · cases hx
        exact .inr (mem_remaining hf)
      · exact .inl ⟨q, hq, hx⟩
    · exact .inr (remaining_subset hx)
  · intro x hx
    have hxa : x ≠ a := by
      rintro rfl
      exact hx (.inl ⟨p, hlen.le, ha⟩)
    have hxf : x ≠ frame.address := by
      rintro rfl
      exact hx (.inr (mem_remaining hf))
    funext j
    exact (write_ne fun heq => hxa heq.1).trans (clear_ne hxf j)
  · intro q c hq hc
    rw [h.tree.tableAt_grow hlen ha hi hnew present_zero hpres haddr hq]
    have hnot : q ≠ p ++ [i] := by
      rintro rfl
      rw [tableAt_snoc_of_absent ha hi] at hc
      cases hc
    rw [if_neg hnot, hc]
  · intro q hq j
    exact h.tree.leaf_grow hlen ha hi hnew present_zero hpres haddr hq j
  · intro q c j hq hc hj
    change perm _ ≤ perm (write _ a i e c j)
    have hslot : ¬ (c = a ∧ j = i) := by
      rintro ⟨rfl, rfl⟩
      rw [hi] at hj
      cases hj
    have hcf : c ≠ frame.address := fun heq => hnew (heq ▸ h.tree.used hq.le hc)
    rw [write_ne hslot, clear_ne hcf]
  · change PageTableEntry.present (write _ a i e a i) = true
    rw [write_self]
    exact hpres

/-! ## Frames for others -/

/-- A frame that is taken for another use is never written again. -/
theorem Wf.takeFrame (h : mm.Wf level4)
    (hf : mm.frameAllocator.frames[mm.frameAllocator.n]? = some frame) :
    (mm.allocateFrame).1 = some frame ∧ (mm.allocateFrame).2.memory = mm.memory ∧
      (mm.allocateFrame).2.Wf level4 ∧
      (∀ {x}, (mm.allocateFrame).2.Owned level4 x → mm.Owned level4 x) ∧
      mm.Owned level4 frame.address ∧ ¬ (mm.allocateFrame).2.Owned level4 frame.address := by
  refine ⟨hf, rfl, ⟨h.fresh_next, h.tree.mono_used fun _ => used_next⟩, ?_, .inr (mem_remaining hf),
    ?_⟩
  · rintro x (hx | hx)
    · exact .inl hx
    · exact .inr (remaining_subset hx)
  rintro (⟨q, hq, hx⟩ | hx)
  · exact not_used_next h hf (h.tree.used hq hx)
  -- it would be in the list twice
  obtain ⟨hn, hget⟩ := List.getElem?_eq_some_iff.mp hf
  have hnodup := h.fresh.nodup.sublist
    ((List.drop_sublist mm.frameAllocator.n mm.frameAllocator.frames).map Frame.address)
  rw [List.drop_eq_getElem_cons hn, hget, List.map_cons, List.nodup_cons] at hnodup
  exact hnodup.1 hx

theorem Wf.elsewhere (h : mm.Wf level4) (memory : PhysicalAddress → Fin 512 → PageTableEntry)
    (hagree : ∀ {x}, mm.Owned level4 x → memory x = mm.memory x) :
    ({ mm with memory := memory } : MemoryManager).Wf level4 ∧
      ∀ {x}, ({ mm with memory := memory } : MemoryManager).Owned level4 x → mm.Owned level4 x := by
  have hagree' : ∀ {p : List (Fin 512)} {a : PhysicalAddress}, p.length ≤ 3 →
      tableAt format mm.memory level4 p = some a → memory a = mm.memory a :=
    fun hp ha => hagree (.inl ⟨_, hp, ha⟩)
  refine ⟨⟨h.fresh, h.tree.agree hagree'⟩, ?_⟩
  rintro x (⟨p, hp, hx⟩ | hx)
  · exact .inl ⟨p, hp, (Tree.tableAt_agree hagree' hp).symm.trans hx⟩
  · exact .inr hx

theorem allocateLowerLevelPageTable_eq_none
    (hf : mm.frameAllocator.frames[mm.frameAllocator.n]? = none) :
    mm.allocateLowerLevelPageTable a i = none := by
  unfold MemoryManager.allocateLowerLevelPageTable allocateFrame FrameAllocator.allocate
  simp only [hf]

/-! ## The levels of a mapping -/

/-- The result of one level or of several: a table at the end of the path, below an entry that has
the flags. -/
structure Reaches (mm mm' : MemoryManager) (level4 : PhysicalAddress) (p : List (Fin 512))
    (f : PageFlags) (b : PhysicalAddress) : Prop extends Extends mm mm' level4 where
  reached : tableAt format mm'.memory level4 p = some b
  ceiling : Ceiling format mm'.memory level4 p (f.writable, f.userModeAccessible, false)

theorem Wf.raised (h : mm.Wf level4) (hlen : p.length < 3)
    (ha : tableAt format mm.memory level4 p = some a) (hi : present (mm.memory a i) = true)
    (hceil : Ceiling format mm.memory level4 p (f.writable, f.userModeAccessible, false)) :
    Reaches mm (mm.assignPropagable a i f) level4 (p ++ [i]) f
      (address ((mm.assignPropagable a i f).memory a i)) := by
  obtain ⟨hext, hle⟩ := h.assignPropagable hlen ha hi hceil
  have ha' := hext.table hlen.le ha
  exact ⟨hext, tableAt_snoc_of_present ha' (hext.present hlen ha hi).1, ceiling_snoc ha' hle⟩

/-- **One level of a mapping** either takes the last frame and panics, or enters a table. -/
theorem Wf.enter (h : mm.Wf level4) (hlen : p.length < 3)
    (ha : tableAt format mm.memory level4 p = some a) (i : Fin 512) (checkHuge : Bool)
    (hceil : Ceiling format mm.memory level4 p (f.writable, f.userModeAccessible, false)) :
    (mm.enter a i checkHuge f = none ∧
        mm.frameAllocator.frames.length ≤ mm.frameAllocator.n) ∨
      ∃ mm' b, mm.enter a i checkHuge f = some (mm', .ok b) ∧ Reaches mm mm' level4 (p ++ [i]) f b ∧
        mm'.frameAllocator.n ≤ mm.frameAllocator.n + 1 := by
  unfold MemoryManager.enter
  cases hi : present (mm.memory a i) with
  | true =>
    have hinner := h.tree.inner hlen ha hi
    have hhuge : huge (mm.memory a i) = false := hinner.1
    right
    rw [if_pos rfl, hhuge, Bool.and_false, if_neg nofun]
    exact ⟨_, _, rfl, h.raised hlen ha hi hceil, Nat.le_succ _⟩
  | false =>
    rw [if_neg nofun]
    cases hf : mm.frameAllocator.frames[mm.frameAllocator.n]? with
    | none =>
      left
      rw [allocateLowerLevelPageTable_eq_none hf]
      exact ⟨rfl, List.getElem?_eq_none_iff.mp hf⟩
    | some frame =>
      right
      obtain ⟨mm1, hrun, hext, hpres, hn⟩ := h.allocateLowerLevelPageTable hlen ha hi hf
      have hreach := hext.wf.raised hlen (hext.table hlen.le ha) hpres
        (hext.ceiling hlen.le ha hceil)
      rw [bind_of_eq_some hrun]
      exact ⟨_, _, rfl, ⟨hext.trans hreach.toExtends, hreach.reached, hreach.ceiling⟩, hn.le⟩

/-- All levels above the last one; the induction is on the levels still to enter. -/
theorem Wf.descend (rest : List (Fin 512 × Bool)) : ∀ {mm : MemoryManager} {p : List (Fin 512)}
    {a : PhysicalAddress}, mm.Wf level4 → p.length + rest.length ≤ 3 →
    tableAt format mm.memory level4 p = some a →
    Ceiling format mm.memory level4 p (f.writable, f.userModeAccessible, false) →
    (mm.descend a f rest = none ∧
        mm.frameAllocator.frames.length < mm.frameAllocator.n + rest.length) ∨
      ∃ mm' b, mm.descend a f rest = some (mm', .ok b) ∧
        Reaches mm mm' level4 (p ++ rest.map Prod.fst) f b := by
  induction rest with
  | nil =>
    intro mm p a h _ ha hceil
    right
    refine ⟨mm, a, rfl, .refl h, ?_, ?_⟩
    · simpa using ha
    · simpa using hceil
  | cons level rest ih =>
    obtain ⟨i, checkHuge⟩ := level
    intro mm p a h hlen ha hceil
    rw [List.length_cons] at hlen
    unfold MemoryManager.descend
    obtain ⟨hrun, hn⟩ | ⟨mm1, b, hrun, hreach, hn⟩ := h.enter (by omega) ha i checkHuge hceil
    · left
      rw [hrun, List.length_cons]
      exact ⟨rfl, by omega⟩
    rw [hrun]
    dsimp only
    have hlen1 : (p ++ [i]).length + rest.length ≤ 3 := by
      rw [List.length_append, List.length_singleton]
      omega
    obtain ⟨hrun1, hn1⟩ | ⟨mm2, c, hrun1, hreach1⟩ :=
      ih hreach.wf hlen1 hreach.reached hreach.ceiling
    · left
      rw [hrun1, List.length_cons]
      have hframes := hreach.frames
      rw [hframes] at hn1
      exact ⟨rfl, by omega⟩
    · right
      rw [List.append_assoc, List.singleton_append] at hreach1
      exact ⟨mm2, c, hrun1, hreach.toExtends.trans hreach1.toExtends, hreach1.reached,
        hreach1.ceiling⟩

/-! ## The last level -/

/-- One page gets a new meaning, the others keep theirs. -/
structure Sets (mm mm' : MemoryManager) (level4 : PhysicalAddress) (q : List (Fin 512))
    (i : Fin 512)
    (v : Option (PhysicalAddress × Permissions)) : Prop where
  wf : mm'.Wf level4
  owned : ∀ {x}, mm'.Owned level4 x → mm.Owned level4 x
  frame : ∀ {x}, ¬ mm.Owned level4 x → mm'.memory x = mm.memory x
  self : leaf format mm'.memory level4 q i = v
  other : ∀ {q' j}, q'.length = 3 → ¬ (q' = q ∧ j = i) →
    leaf format mm'.memory level4 q' j = leaf format mm.memory level4 q' j

variable {q : List (Fin 512)} {v : Option (PhysicalAddress × Permissions)} {e : PageTableEntry}

theorem Wf.setEntry (h : mm.Wf level4) (hlen : q.length = 3)
    (ha : tableAt format mm.memory level4 q = some a)
    (hceil : present e = true → Ceiling format mm.memory level4 q (perm e)) :
    Sets mm (mm.setEntry a i e) level4 q i
      (if present e then some (address e, perm e) else none) where
  wf := ⟨h.fresh, h.tree.setLeaf hlen ha hceil⟩
  owned := by
    rintro x (⟨p, hp, hx⟩ | hx)
    · exact .inl ⟨p, hp, (h.tree.tableAt_setLeaf hlen ha hp).symm.trans hx⟩
    · exact .inr hx
  frame := by
    intro x hx
    apply write_of_ne
    rintro rfl
    exact hx (.inl ⟨q, hlen.le, ha⟩)
  self := h.tree.leaf_setLeaf_self hlen ha
  other hq hne := h.tree.leaf_setLeaf_ne hlen ha hq hne

theorem Extends.sets (h : Extends mm mm' level4) (h' : Sets mm' mm'' level4 q i v) :
    Sets mm mm'' level4 q i v where
  wf := h'.wf
  owned hx := h.owned (h'.owned hx)
  frame hx := (h'.frame fun hx' => hx (h.owned hx')).trans (h.frame hx)
  self := h'.self
  other hq hne := (h'.other hq hne).trans (h.leaf hq _)

theorem Sets.trans {v' : Option (PhysicalAddress × Permissions)} (h : Sets mm mm' level4 q i v)
    (h' : Sets mm' mm'' level4 q i v') : Sets mm mm'' level4 q i v' where
  wf := h'.wf
  owned hx := h.owned (h'.owned hx)
  frame hx := (h'.frame fun hx' => hx (h.owned hx')).trans (h.frame hx)
  self := h'.self
  other hq hne := (h'.other hq hne).trans (h.other hq hne)

theorem leaf_eq_none (ha : tableAt format mm.memory level4 q = some a)
    (hi : present (mm.memory a i) = false) : leaf format mm.memory level4 q i = none := by
  rw [leaf_of_table ha]
  exact if_neg (by rw [show format.present = present from rfl, hi]; exact nofun)

/-- The flags of a leaf, given to an entry that was just linked. -/
theorem view_leaf (he : perm e = (false, false, true)) (f : PageFlags) :
    view (assignLeafFlags (PageTableEntry.assignPropagable e f) f) =
      { view e with perm := f.perm } := by
  have hassign := view_assignPropagable e f
  have hperm := congrArg View.perm hassign
  simp only [view] at hperm
  rw [view_assignLeafFlags, hassign, hperm, he]
  rfl

theorem Wf.mapLeaf (h : mm.Wf level4) (hlen : q.length = 3)
    (ha : tableAt format mm.memory level4 q = some a)
    (hceil : Ceiling format mm.memory level4 q (f.writable, f.userModeAccessible, false))
    (i : Fin 512) (hframe : frame.address.toNat < 2 ^ 52) :
    (mm.mapLeaf a i frame f = some (mm, .error .alreadyMapped) ∧
        leaf format mm.memory level4 q i ≠ none) ∨
      ∃ mm', mm.mapLeaf a i frame f = some (mm', .ok ()) ∧ leaf format mm.memory level4 q i = none ∧
        Sets mm mm' level4 q i (some (frame.address, f.perm)) := by
  unfold MemoryManager.mapLeaf
  cases hi : present (mm.memory a i) with
  | true =>
    left
    rw [if_pos rfl, leaf_of_table ha]
    exact ⟨rfl, (if_pos hi).trans_ne (Option.some_ne_none _)⟩
  | false =>
    right
    obtain ⟨e, he, hview⟩ := view_link (mm.memory a i) hframe
    have hleaf := view_leaf (congrArg View.perm hview) f
    rw [hview] at hleaf
    simp only [view, View.mk.injEq] at hleaf
    obtain ⟨hpres, haddr, -, hperm⟩ := hleaf
    rw [if_neg Bool.false_ne_true, bind_of_eq_some he]
    refine ⟨_, rfl, leaf_eq_none ha hi, ?_⟩
    have hset := h.setEntry (i := i)
      (e := assignLeafFlags (PageTableEntry.assignPropagable e f) f) hlen ha (by
        intro _
        rw [hperm]
        exact h.exec_of_ceiling hlen.le ha f.executable hceil)
    rw [hpres, if_pos rfl, haddr, hperm] at hset
    exact hset

/-- **A given page is mapped**, unless there may be too few frames for its tables. -/
theorem Wf.mapInner (h : mm.Wf level4) (hpage : Canonical page.address)
    (hframe : frame.address.toNat < 2 ^ 52) (f : PageFlags) :
    (mm.mapInner level4 page frame f = none ∧
        mm.frameAllocator.frames.length < mm.frameAllocator.n + 3) ∨
      (∃ mm', mm.mapInner level4 page frame f = some (mm', .error .alreadyMapped) ∧
        Extends mm mm' level4 ∧
        leaf format mm.memory level4 (upperPath page.address) (index 12 page.address) ≠ none) ∨
      ∃ mm', mm.mapInner level4 page frame f = some (mm', .ok ()) ∧
        leaf format mm.memory level4 (upperPath page.address) (index 12 page.address) = none ∧
        Sets mm mm' level4 (upperPath page.address) (index 12 page.address)
          (some (frame.address, f.perm)) := by
  unfold MemoryManager.mapInner
  rw [if_neg (not_not.mpr ((signExtend_eq_iff _).mpr hpage))]
  obtain ⟨hrun, hn⟩ | ⟨mm1, level1, hrun, hreach⟩ := Wf.descend (f := f)
    [(index 39 page.address, false), (index 30 page.address, true), (index 21 page.address, true)]
    h (Nat.le_refl 3) (p := []) (a := level4) rfl (ceiling_nil _)
  · left
    rw [hrun]
    exact ⟨rfl, hn⟩
  right
  rw [hrun]
  have hleaf : ∀ i, leaf format mm1.memory level4 (upperPath page.address) i =
      leaf format mm.memory level4 (upperPath page.address) i := fun i => hreach.leaf rfl i
  obtain ⟨hmap, hold⟩ | ⟨mm2, hmap, hold, hset⟩ := hreach.wf.mapLeaf (q := upperPath page.address)
    rfl hreach.reached hreach.ceiling (index 12 page.address) hframe
  · left
    rw [hleaf] at hold
    exact ⟨mm1, hmap, hreach.toExtends, hold⟩
  right
  rw [hleaf] at hold
  exact ⟨mm2, hmap, hold, hreach.toExtends.sets hset⟩

/-! ## Mapping some page -/

/-- The slots lead from the table at the end of `p` to an entry that is not present. -/
def OnPath (mm : MemoryManager) (level4 : PhysicalAddress) : List (Fin 512) → List Slot → Prop
  | _, [] => False
  | p, [(t, i)] => tableAt format mm.memory level4 p = some t ∧ present (mm.memory t i) = false
  | p, (t, i) :: slots => tableAt format mm.memory level4 p = some t ∧
      present (mm.memory t i) = true ∧ mm.OnPath level4 (p ++ [i]) slots

theorem OnPath.cons {t : PhysicalAddress} {slots : List Slot}
    (ht : tableAt format mm.memory level4 p = some t) (hi : present (mm.memory t i) = true)
    (h : mm.OnPath level4 (p ++ [i]) slots) : mm.OnPath level4 p ((t, i) :: slots) := by
  cases slots with
  | nil => exact absurd h id
  | cons slot slots => exact ⟨ht, hi, h⟩

/-- A search of `k` levels only adds tables, and finds a free entry. -/
def Finds (level4 : PhysicalAddress) (k : Nat) (search : Search) : Prop :=
  ∀ {mm mm' : MemoryManager} {p : List (Fin 512)} {a : PhysicalAddress} {zero : Bool}
    {found : Option (List Slot)}, mm.Wf level4 → p.length + k = 4 →
    tableAt format mm.memory level4 p = some a → search mm a zero = some (mm', found) →
    Extends mm mm' level4 ∧
      ∀ slots, found = some slots → mm'.OnPath level4 p slots ∧ slots.length = k

theorem finds_searchLevel1 (level4 : PhysicalAddress) : Finds level4 1 searchLevel1 := by
  intro mm mm' p a zero found h _ ha hrun
  cases hrun
  refine ⟨.refl h, ?_⟩
  intro slots hslots
  obtain ⟨i, hi, rfl⟩ := Option.map_eq_some_iff.mp hslots
  have hfree := List.find?_some hi
  simp only [Bool.and_eq_true, Bool.not_eq_true'] at hfree
  exact ⟨⟨ha, hfree.2⟩, rfl⟩

/-- A search below an entry that leads to a table. -/
theorem Finds.below {k : Nat} {lower : Search} (hlower : Finds level4 k lower) (hk : 0 < k)
    (h : mm.Wf level4) (hlen : p.length + (k + 1) = 4)
    (ha : tableAt format mm.memory level4 p = some a) (hi : present (mm.memory a i) = true)
    {zero : Bool} {found : Option (List Slot)}
    (hrun : lower mm (address (mm.memory a i)) zero = some (mm', found)) :
    Extends mm mm' level4 ∧ ∀ slots, found = some slots →
      mm'.OnPath level4 p ((a, i) :: slots) ∧ ((a, i) :: slots).length = k + 1 := by
  have hlen' : (p ++ [i]).length + k = 4 := by
    rw [List.length_append, List.length_singleton]
    omega
  have hnext : tableAt format mm.memory level4 (p ++ [i]) = some (address (mm.memory a i)) :=
    tableAt_snoc_of_present ha hi
  obtain ⟨hext, hslots⟩ := hlower h hlen' hnext hrun
  refine ⟨hext, ?_⟩
  intro slots hs
  obtain ⟨hpath, hcount⟩ := hslots slots hs
  refine ⟨.cons (hext.table (by omega) ha) (hext.present (by omega) ha hi).1 hpath, ?_⟩
  rw [List.length_cons, hcount]

/-- One level around a search; the induction is on the indices still to try. -/
theorem finds_searchTables {k : Nat} {lower : Search} (hk : 0 < k)
    (hlower : Finds level4 k lower) (checkHuge : Bool) (ns : List Nat) :
    Finds level4 (k + 1) (fun mm t z => mm.searchTables checkHuge lower t z ns) := by
  induction ns with
  | nil =>
    intro mm mm' p a zero found h _ _ hrun
    cases hrun
    exact ⟨.refl h, fun _ hs => by cases hs⟩
  | cons n ns ih =>
    intro mm mm' p a zero found h hlen ha hrun
    have hlen3 : p.length < 3 := by omega
    dsimp only at hrun
    unfold searchTables at hrun
    by_cases hn : n < 512
    · rw [dif_pos hn] at hrun
      -- the state in which the entry leads to a table, which may be a new one
      have hnext : ∀ mm1 : MemoryManager, Extends mm mm1 level4 →
          PageTableEntry.present (mm1.memory a ⟨n, hn⟩) = true → ∀ {r},
          lower mm1 (address (mm1.memory a ⟨n, hn⟩)) (zero && n == 0) = some r →
          r.2.elim (r.1.searchTables checkHuge lower a zero ns)
            (fun slots => some (r.1, some ((a, ⟨n, hn⟩) :: slots))) = some (mm', found) →
          Extends mm mm' level4 ∧
            ∀ slots, found = some slots → mm'.OnPath level4 p slots ∧ slots.length = k + 1 := by
        intro mm1 hext hpres r hlow hmatch
        obtain ⟨mm2, found2⟩ := r
        have ha1 := hext.table hlen3.le ha
        obtain ⟨hext2, hslots⟩ := hlower.below hk hext.wf hlen ha1 hpres hlow
        cases found2 with
        | some slots =>
          cases hmatch
          refine ⟨hext.trans hext2, ?_⟩
          intro slots' hs
          cases hs
          exact hslots slots rfl
        | none =>
          obtain ⟨hext3, hslots3⟩ := ih hext2.wf hlen (hext2.table hlen3.le ha1) hmatch
          exact ⟨(hext.trans hext2).trans hext3, hslots3⟩
      cases hi : present (mm.memory a ⟨n, hn⟩) with
      | true =>
        have hinner := h.tree.inner hlen3 ha hi
        have hhuge : huge (mm.memory a ⟨n, hn⟩) = false := hinner.1
        simp only [hi, hhuge, Bool.and_false, Bool.false_eq_true, if_false, if_true,
          some_bind] at hrun
        obtain ⟨r, hlow, hmatch⟩ := bind_eq_some.mp hrun
        exact hnext mm (.refl h) hi hlow (.trans (by cases r.2 <;> rfl) hmatch)
      | false =>
        simp only [hi, Bool.false_and, Bool.false_eq_true, if_false, Option.bind_eq_bind] at hrun
        obtain ⟨mm1, halloc, hrun⟩ := bind_eq_some.mp hrun
        obtain ⟨r, hlow, hmatch⟩ := bind_eq_some.mp hrun
        cases hf : mm.frameAllocator.frames[mm.frameAllocator.n]? with
        | none =>
          rw [allocateLowerLevelPageTable_eq_none hf] at halloc
          cases halloc
        | some frame =>
          obtain ⟨mm2, halloc2, hext, hpres, -⟩ := h.allocateLowerLevelPageTable hlen3 ha hi hf
          rw [halloc] at halloc2
          cases halloc2
          exact hnext mm1 hext hpres hlow (.trans (by cases r.2 <;> rfl) hmatch)
    · rw [dif_neg hn] at hrun
      cases hrun

theorem finds_searchLevel2 (level4 : PhysicalAddress) : Finds level4 2 searchLevel2 :=
  finds_searchTables Nat.one_pos (finds_searchLevel1 level4) true (List.range 512)

theorem finds_searchLevel3 (level4 : PhysicalAddress) : Finds level4 3 searchLevel3 :=
  finds_searchTables Nat.two_pos (finds_searchLevel2 level4) true (List.range 512)

theorem Sets.table (h : mm.Wf level4) (hlen : q.length = 3)
    (ha : tableAt format mm.memory level4 q = some a) (hp : p.length ≤ 3) :
    tableAt format (mm.setEntry a i e).memory level4 p = tableAt format mm.memory level4 p :=
  h.tree.tableAt_setLeaf hlen ha hp

/-- The flags of the four entries on a path, the last of which was just linked. -/
theorem Wf.assignPath (h : mm.Wf level4) {t4 t3 t2 t1 : PhysicalAddress} {i4 i3 i2 : Fin 512}
    (ht4 : tableAt format mm.memory level4 [] = some t4)
    (ht3 : tableAt format mm.memory level4 [i4] = some t3)
    (ht2 : tableAt format mm.memory level4 [i4, i3] = some t2)
    (ht1 : tableAt format mm.memory level4 [i4, i3, i2] = some t1)
    (hp4 : present (mm.memory t4 i4) = true) (hp3 : present (mm.memory t3 i3) = true)
    (hp2 : present (mm.memory t2 i2) = true) (f : PageFlags) :
    Reaches mm (((mm.assignPropagable t4 i4 f).assignPropagable t3 i3 f).assignPropagable t2 i2 f)
      level4 [i4, i3, i2] f t1 := by
  have r4 := h.raised (f := f) (p := []) (by simp) ht4 hp4 (ceiling_nil _)
  have ht3' := r4.table (by simp) ht3
  have hp3' := (r4.toExtends.present (by simp) ht3 hp3).1
  have r3 := r4.wf.raised (p := [i4]) (by simp) ht3' hp3' r4.ceiling
  have e3 := r4.toExtends.trans r3.toExtends
  have ht2' := e3.table (by simp) ht2
  have hp2' := (e3.present (by simp) ht2 hp2).1
  have r2 := r3.wf.raised (p := [i4, i3]) (by simp) ht2' hp2' r3.ceiling
  have e2 := e3.trans r2.toExtends
  exact ⟨e2, e2.table (by simp) ht1, r2.ceiling⟩

/-- **Some page is mapped**: one that was not mapped before. -/
theorem Wf.mapAnyInner (h : mm.Wf level4) {start stop : Nat} (hframe : frame.address.toNat < 2 ^ 52)
    (hrun : mm.mapAnyInner level4 start stop frame f = some (mm', page)) : Canonical page.address ∧
      leaf format mm.memory level4 (upperPath page.address) (index 12 page.address) = none ∧
      Sets mm mm' level4 (upperPath page.address) (index 12 page.address)
        (some (frame.address, f.perm)) := by
  obtain ⟨⟨mm1, found⟩, hsearch, hrun⟩ := bind_eq_some.mp hrun
  obtain ⟨hext, hslots⟩ := finds_searchTables (Nat.zero_lt_succ 2) (finds_searchLevel3 level4) false
    (List.range' start (stop - start)) h (p := []) rfl rfl hsearch
  dsimp only at hrun
  split at hrun
  next t4 i4 t3 i3 t2 i2 t1 i1 =>
    obtain ⟨⟨ht4, hp4, ht3, hp3, ht2, hp2, ht1, hp1⟩, -⟩ := hslots _ rfl
    obtain ⟨e, he, hrun⟩ := bind_eq_some.mp hrun
    obtain ⟨hup, hlow, haligned⟩ := index_addressOf i4 i3 i2 i1
    rw [dif_pos haligned] at hrun
    cases hrun
    refine ⟨(toNat_addressOf i4 i3 i2 i1).2, ?_⟩
    rw [hup, hlow]
    -- the new entry, before any flag is given
    obtain ⟨e', he', hview⟩ := view_link (mm1.memory t1 i1) hframe
    rw [he] at he'
    cases he'
    simp only [view, View.mk.injEq] at hview
    obtain ⟨hpres, haddr, -, hperm⟩ := hview
    have hset := hext.wf.setEntry (q := [i4, i3, i2]) (i := i1) (e := e) rfl ht1 (by
      intro _
      rw [hperm]
      exact hext.wf.exec_of_ceiling (by simp) ht1 true (ceiling_bot _ _ _))
    rw [hpres, if_pos rfl, haddr, hperm] at hset
    have htable : ∀ {p : List (Fin 512)}, p.length ≤ 3 →
        tableAt format (mm1.setEntry t1 i1 e).memory level4 p =
          tableAt format mm1.memory level4 p := fun hp => Sets.table hext.wf rfl ht1 hp
    have habove : ∀ {p : List (Fin 512)} {c : PhysicalAddress} (j : Fin 512), p.length < 3 →
        tableAt format mm1.memory level4 p = some c →
        (mm1.setEntry t1 i1 e).memory c j = mm1.memory c j :=
      fun j hp hc => hext.wf.tree.write_above rfl ht1 hp hc j
    have hreach := hset.wf.assignPath (f := f) ((htable (by simp)).trans ht4)
      ((htable (by simp)).trans ht3) ((htable (by simp)).trans ht2) ((htable (by simp)).trans ht1)
      (by rw [habove i4 (by simp) ht4]; exact hp4) (by rw [habove i3 (by simp) ht3]; exact hp3)
      (by rw [habove i2 (by simp) ht2]; exact hp2)
    generalize (((mm1.setEntry t1 i1 e).assignPropagable t4 i4 f).assignPropagable t3 i3
      f).assignPropagable t2 i2 f = mm2 at hreach ⊢
    -- the same entry, after its ancestors were raised
    have hleaf := (hreach.leaf (by simp) i1).trans hset.self
    rw [leaf_of_table hreach.reached] at hleaf
    split at hleaf
    next hpres2 =>
      change present (mm2.memory t1 i1) = true at hpres2
      obtain ⟨haddr2, hperm2⟩ := Prod.mk.inj (Option.some.inj hleaf)
      change address (mm2.memory t1 i1) = frame.address at haddr2
      have hview := view_leaf hperm2 f
      simp only [view, View.mk.injEq] at hview
      obtain ⟨hpres3, haddr3, -, hperm3⟩ := hview
      have hset2 := hreach.wf.setEntry (i := i1) (by simp) hreach.reached
        (e := assignLeafFlags (PageTableEntry.assignPropagable (mm2.memory t1 i1) f) f) (by
          intro _
          rw [hperm3]
          exact hreach.wf.exec_of_ceiling (by simp) hreach.reached f.executable hreach.ceiling)
      rw [hpres3, if_pos hpres2, haddr3, haddr2, hperm3] at hset2
      refine ⟨?_, hext.sets (hset.trans (hreach.toExtends.sets ?_))⟩
      · rw [← hext.leaf (by simp) i1]
        exact leaf_eq_none ht1 hp1
      simp only [MemoryManager.assignPropagable, MemoryManager.setEntry, write_write, write_self]
      exact hset2
    · cases hleaf
  · cases hrun

/-! ## Unmapping and translating -/

theorem leaf_upperPath (mm : MemoryManager) (level4 : PhysicalAddress) (x : VirtualAddress) :
    leaf format mm.memory level4 (upperPath x) (index 12 x) =
      let e4 := mm.memory level4 (index 39 x)
      let e3 := mm.memory (address e4) (index 30 x)
      let e2 := mm.memory (address e3) (index 21 x)
      let e1 := mm.memory (address e2) (index 12 x)
      if present e4 then if present e3 then if present e2 then
        if present e1 then some (address e1, perm e1) else none
      else none else none else none :=
  leaf_three mm.memory level4 _ _ _ _

theorem Wf.not_huge (h : mm.Wf level4) {x : VirtualAddress} {e4 e3 e2 : PageTableEntry}
    (h4 : mm.memory level4 (index 39 x) = e4) (h3 : mm.memory (address e4) (index 30 x) = e3)
    (h2 : mm.memory (address e3) (index 21 x) = e2) (hp4 : present e4 = true)
    (hp3 : present e3 = true) :
    huge e3 = false ∧ (present e2 = true → huge e2 = false) := by
  subst h4 h3 h2
  have ht3 : tableAt format mm.memory level4 [index 39 x] =
      some (address (mm.memory level4 (index 39 x))) := tableAt_snoc_of_present (p := []) rfl hp4
  have ht2 : tableAt format mm.memory level4 [index 39 x, index 30 x] =
      some (address (mm.memory (address (mm.memory level4 (index 39 x))) (index 30 x))) :=
    tableAt_snoc_of_present (p := [index 39 x]) ht3 hp3
  exact ⟨(h.tree.inner (by simp) ht3 hp3).1, fun hp2 => (h.tree.inner (by simp) ht2 hp2).1⟩

theorem clearEntry_eq (mm : MemoryManager) (table : PhysicalAddress) (i : Fin 512) :
    ∃ e, mm.clearEntry table i = some (mm.setEntry table i e) ∧ present e = false := by
  refine ⟨setFlags (0#64 ||| flags (mm.memory table i)) 0#64, rfl, ?_⟩
  have hzero : flags 0#64 = 0#64 := by decide
  rw [present, flags_setFlags _ hzero]
  decide

/-- **Unmapping** a page that is mapped, or not. -/
theorem Wf.unmapInner (h : mm.Wf level4) (hpage : Canonical page.address) :
    (mm.unmapInner level4 page = some (mm, .error .nonExistentMapping) ∧
        leaf format mm.memory level4 (upperPath page.address) (index 12 page.address) = none) ∨
      ∃ mm', mm.unmapInner level4 page = some (mm', .ok ()) ∧
        leaf format mm.memory level4 (upperPath page.address) (index 12 page.address) ≠ none ∧
        Sets mm mm' level4 (upperPath page.address) (index 12 page.address) none := by
  rw [leaf_upperPath]
  unfold MemoryManager.unmapInner
  rw [if_neg (not_not.mpr hpage)]
  dsimp only
  generalize h4 : mm.memory level4 (index 39 page.address) = e4
  generalize h3 : mm.memory (address e4) (index 30 page.address) = e3
  generalize h2 : mm.memory (address e3) (index 21 page.address) = e2
  generalize h1 : mm.memory (address e2) (index 12 page.address) = e1
  cases hp4 : present e4 with
  | false => exact .inl ⟨rfl, rfl⟩
  | true =>
    cases hp3 : present e3 with
    | false => exact .inl ⟨rfl, rfl⟩
    | true =>
      obtain ⟨hh3, hh2⟩ := h.not_huge h4 h3 h2 hp4 hp3
      cases hp2 : present e2 with
      | false =>
        left
        rw [hh3]
        exact ⟨rfl, rfl⟩
      | true =>
        have hoff : ¬ (offset 12 page.address ≠ 0) := not_not.mpr page.aligned
        cases hp1 : present e1 with
        | false =>
          left
          rw [hh3, hh2 hp2, if_neg hoff]
          exact ⟨rfl, rfl⟩
        | true =>
          right
          have ht1 : tableAt format mm.memory level4 (upperPath page.address) =
              some (address e2) := by
            simp only [upperPath, tableAt, format, h4, h3, h2, hp4, hp3, hp2, if_true]
          obtain ⟨e, hclear, he⟩ := mm.clearEntry_eq (address e2) (index 12 page.address)
          have hset := h.setEntry (i := index 12 page.address) (e := e) (by rfl) ht1 (by
            intro hpres
            rw [he] at hpres
            cases hpres)
          rw [he, if_neg Bool.false_ne_true] at hset
          refine ⟨_, ?_, Option.some_ne_none _, hset⟩
          rw [hh3, hh2 hp2, if_neg hoff, hclear]
          rfl

def pageOf (x : VirtualAddress) : VirtualAddress := BitVec.ofNat 64 (x.toNat / pageSize * pageSize)

theorem toNat_pageOf (x : VirtualAddress) : (pageOf x).toNat = x.toNat / 4096 * 4096 := by
  unfold pageOf pageSize
  rw [BitVec.toNat_ofNat, Nat.mod_eq_of_lt (by omega)]

theorem index_pageOf (x : VirtualAddress) : upperPath (pageOf x) = upperPath x ∧
    index 12 (pageOf x) = index 12 x ∧ (Canonical (pageOf x) ↔ Canonical x) := by
  have hpage := toNat_pageOf x
  generalize pageOf x = y at hpage
  have e4 : y.toNat / 2 ^ 39 = x.toNat / 2 ^ 39 := by omega
  have e3 : y.toNat / 2 ^ 30 = x.toNat / 2 ^ 30 := by omega
  have e2 : y.toNat / 2 ^ 21 = x.toNat / 2 ^ 21 := by omega
  have e1 : y.toNat / 2 ^ 12 = x.toNat / 2 ^ 12 := by omega
  have e47 : y.toNat / 2 ^ 47 = x.toNat / 2 ^ 47 := by omega
  have e48 : y.toNat / 2 ^ 48 = x.toNat / 2 ^ 48 := by omega
  simp only [upperPath, index, Canonical, e4, e3, e2, e1, e47, e48, and_self]

/-- **The translation** computes the map. -/
theorem Wf.translate (h : mm.Wf level4) (x : VirtualAddress) :
    mm.translateVirtualAddressToPhysical level4 x =
      if Canonical x then
        (leaf format mm.memory level4 (upperPath x) (index 12 x)).map
          fun r => r.1 + BitVec.ofNat 64 (offset 12 x)
      else none := by
  rw [leaf_upperPath]
  unfold translateVirtualAddressToPhysical
  by_cases hx : Canonical x
  · rw [if_neg (not_not.mpr hx), if_pos hx]
    dsimp only
    generalize h4 : mm.memory level4 (index 39 x) = e4
    generalize h3 : mm.memory (address e4) (index 30 x) = e3
    generalize h2 : mm.memory (address e3) (index 21 x) = e2
    generalize h1 : mm.memory (address e2) (index 12 x) = e1
    cases hp4 : present e4 with
    | false => rfl
    | true =>
      cases hp3 : present e3 with
      | false => rfl
      | true =>
        obtain ⟨hh3, hh2⟩ := h.not_huge h4 h3 h2 hp4 hp3
        cases hp2 : present e2 with
        | false =>
          rw [hh3]
          rfl
        | true =>
          rw [hh3, hh2 hp2]
          cases hp1 : present e1 with
          | false => rfl
          | true => rfl
  · rw [if_pos hx, if_neg hx]

end MemoryManager

end Moose.Memory
