import Moose.Lib.Run
import Moose.RbTree.Shape

/-!
# Working at a location

`At t C T` says that the arena of `t` holds the tree `T` inside the context `C`. `at_cons` moves
the location up or down one level without touching the arena. What each pointer operation of
`rb_tree.rs` does — a repaint, the link update of `replaceInParent`, a rotation, a transplant —
is stated in one form: the operation returns, the arena then represents the new shape in the same
context, and length and live indices are unchanged (`Keeps`). The fixups are assembled from these
lemmas without looking at the arena.
-/

set_option autoImplicit false

namespace Moose.RbTree

open List Lib

variable {Idx K V : Type} {A : GenArena Idx (Node Idx K V)}

structure At (t : RedBlackTree A) (C : Ctx (Entry Idx K V)) (T : Shape Idx K V) : Prop where
  root : t.root = ctxRoot C (rootIdx T)
  heap : Heap t.arenaGet [ctxChunk (rootIdx T) C, treeChunk (parentIdx C) T]

/-- What the pointer operations never touch. -/
def Node.data (n : Node Idx K V) : K × V := (n.key, n.value)

@[simp] theorem Node.data_withChild (n : Node Idx K V) (b : Branch) (o : Option Idx) :
    (n.withChild b o).data = n.data := by
  cases b <;> rfl

@[simp] theorem Node.data_withParent (n : Node Idx K V) (o : Option Idx) :
    (n.withParent o).data = n.data := rfl

@[simp] theorem Node.data_withColor (n : Node Idx K V) (c : Color) :
    (n.withColor c).data = n.data := rfl

/-- `t'` has the length of `t`, and every index resolves to the key and the value it did. -/
structure Keeps (t t' : RedBlackTree A) : Prop where
  len : t'.len = t.len
  data : ∀ i, (t'.arenaGet i).map Node.data = (t.arenaGet i).map Node.data

theorem Keeps.refl (t : RedBlackTree A) : Keeps t t := ⟨rfl, fun _ => rfl⟩

theorem Keeps.trans {t u v : RedBlackTree A} (h : Keeps t u) (h' : Keeps u v) : Keeps t v :=
  ⟨h'.len.trans h.len, fun i => (h'.data i).trans (h.data i)⟩

theorem Keeps.live {t t' : RedBlackTree A} (h : Keeps t t') (i : Idx) :
    (t'.arenaGet i).isSome = (t.arenaGet i).isSome := by
  simpa using congrArg Option.isSome (h.data i)

section At

variable {t : RedBlackTree A} {f : ColorTree.Frame (Entry Idx K V)} {C : Ctx (Entry Idx K V)}
  {T : Shape Idx K V}

theorem At.ctx (h : At t C T) : RepCtx t.arenaGet (rootIdx T) C :=
  h.heap.holds (ctxChunk _ _) (by simp)

theorem At.sub (h : At t C T) : Rep t.arenaGet (parentIdx C) T :=
  h.heap.holds (treeChunk _ _) (by simp)

theorem At.nodup (h : At t C T) : (ctxIdxs C ++ idxs T).Nodup := by
  simpa [ctxChunk, treeChunk] using h.heap.nodup

theorem ctx_foot_perm : (ctxIdxs (f :: C) ++ idxs T).Perm
    (ctxIdxs C ++ idxs (.mk f.side f.color T f.label f.sib)) := by
  refine .trans ?_ ((idxs_mk_perm _ _ _ _ _).symm.append_left _)
  simp only [ctxIdxs, cons_append, append_assoc]
  refine .trans (.cons _ ?_) perm_middle.symm
  refine .trans perm_append_comm ?_
  rw [append_assoc]

/-- One level up, next to other chunks: the node above the hole and its other child join the
    subtree. -/
theorem heap_cons {g : Idx → Option (Node Idx K V)} {r : List (Chunk Idx (Node Idx K V))} :
    Heap g (ctxChunk (rootIdx T) (f :: C) :: treeChunk (some f.label.idx) T :: r) ↔
      Heap g (ctxChunk (some f.label.idx) C ::
        treeChunk (parentIdx C) (.mk f.side f.color T f.label f.sib) :: r) := by
  have hfoot : ([ctxChunk (rootIdx T) (f :: C), treeChunk (some f.label.idx) T].flatMap
      Chunk.foot).Perm ([ctxChunk (some f.label.idx) C,
        treeChunk (parentIdx C) (.mk f.side f.color T f.label f.sib)].flatMap Chunk.foot) := by
    simpa [ctxChunk, treeChunk] using ctx_foot_perm
  constructor
  · intro h
    refine Heap.cut [] [_, _] [_, _] h hfoot fun hc => ?_
    simp only [forall_mem_cons] at hc ⊢
    obtain ⟨⟨hn, hs, hC⟩, hT, -⟩ := hc
    exact ⟨hC, rep_mk.mpr ⟨hn, hT, hs⟩, by simp⟩
  intro h
  refine Heap.cut [] [_, _] [_, _] h hfoot.symm fun hc => ?_
  simp only [forall_mem_cons] at hc ⊢
  obtain ⟨hC, hT, -⟩ := hc
  obtain ⟨hn, hT, hs⟩ := rep_mk.mp hT
  exact ⟨⟨hn, hs, hC⟩, hT, by simp⟩

theorem heap_append {g : Idx → Option (Node Idx K V)} {r : List (Chunk Idx (Node Idx K V))}
    {D : Ctx (Entry Idx K V)} :
    Heap g (ctxChunk (rootIdx T) (D ++ C) :: treeChunk (parentIdx (D ++ C)) T :: r) ↔
      Heap g (ctxChunk (rootIdx (D.plug T)) C :: treeChunk (parentIdx C) (D.plug T) :: r) := by
  induction D generalizing T with
  | nil => rfl
  | cons f D ih =>
    rw [cons_append, parentIdx_cons, heap_cons, Ctx.plug_cons, ← ih, rootIdx_mk]

theorem at_cons : At t (f :: C) T ↔ At t C (.mk f.side f.color T f.label f.sib) := by
  constructor
  · rintro ⟨hr, hh⟩
    exact ⟨by simpa [ctxRoot] using hr, by simpa using heap_cons.mp hh⟩
  rintro ⟨hr, hh⟩
  exact ⟨by simpa [ctxRoot] using hr, heap_cons.mpr (by simpa using hh)⟩

variable {b : Branch} {c : Color} {e : Entry Idx K V} {s : Shape Idx K V}

theorem At.down (h : At t C (.mk b c T e s)) : At t (⟨b, c, e, s⟩ :: C) T :=
  at_cons.mpr h

/-- A location is a way of looking at the whole tree. -/
theorem at_plug : At t C T ↔ At t [] (C.plug T) := by
  induction C generalizing T with
  | nil => rfl
  | cons f C ih => rw [at_cons, ih]; rfl

theorem at_append {D : Ctx (Entry Idx K V)} : At t (D ++ C) T ↔ At t C (D.plug T) := by
  rw [at_plug, Ctx.plug_append, ← at_plug]

/-- Only the indices of the tree matter. -/
theorem At.congr {t' : RedBlackTree A} (h : At t [] T) (hr : t'.root = t.root)
    (hg : ∀ i ∈ idxs T, t'.arenaGet i = t.arenaGet i) : At t' [] T := by
  refine ⟨hr.trans h.root, fun c hc => c.congr (fun i hi => ?_) (h.heap.holds c hc), h.heap.nodup⟩
  simp only [mem_cons, not_mem_nil, or_false] at hc
  rcases hc with rfl | rfl
  · exact absurd hi (by simp [ctxChunk, ctxIdxs])
  · exact hg i hi

theorem At.get_mk {s u : Shape Idx K V} (h : At t C (.mk b c s e u)) :
    t.arenaGet e.idx = some (e.toNode b c (parentIdx C) (rootIdx s) (rootIdx u)) :=
  (rep_mk.mp h.sub).1

/-- The record of the node above a location. -/
theorem At.get_parent (h : At t (f :: C) T) :
    t.arenaGet f.label.idx =
      some (f.label.toNode f.side f.color (parentIdx C) (rootIdx T) (rootIdx f.sib)) :=
  h.ctx.1

/-- The same node, looked at from the other child. -/
theorem At.sibling (h : At t (⟨b, c, e, s⟩ :: C) T) : At t (⟨b.opposite, c, e, T⟩ :: C) s := by
  rw [at_cons] at h ⊢
  rwa [ColorTree.mk_opposite]

theorem At.colorOf (h : At t C T) : t.colorOf (rootIdx T) = some T.rootColor := by
  cases T with
  | nil => rfl
  | node c l e r =>
    simp only [rootIdx_node, RedBlackTree.colorOf, h.get_mk (b := .left)]
    rfl

theorem At.colorOf_sib (h : At t (f :: C) T) :
    t.colorOf (rootIdx f.sib) = some f.sib.rootColor :=
  h.sibling.colorOf

theorem At.sib_ne (h : At t (f :: C) T) {i : Idx} (hi : rootIdx T = some i) :
    rootIdx f.sib ≠ some i := by
  intro he
  have hnd := nodup_append.mp h.nodup
  exact hnd.2.2 i (by simp [ctxIdxs, rootIdx_mem he]) i (rootIdx_mem hi) rfl

theorem At.notMem_ctx {s u : Shape Idx K V} (h : At t C (.mk b c s e u)) : e.idx ∉ ctxIdxs C := by
  intro hm
  have hnd := nodup_append.mp h.nodup
  exact hnd.2.2 _ hm _ (rootIdx_mem (rootIdx_mk b c s e u)) rfl

end At

/-! ## Single writes -/

variable [DecidableEq Idx]

/-- The test the code makes for the side a child hangs on. -/
theorem toNode_left_eq {e : Entry Idx K V} {b : Branch} {c : Color} {p near far : Option Idx}
    {i : Idx} (hi : near = some i) (hfar : far ≠ some i) :
    (if (e.toNode b c p near far).left = some i then Branch.left else Branch.right) = b := by
  cases b <;> simp [Entry.toNode, hi, hfar]

section writes

variable {t : RedBlackTree A}

theorem Keeps.of_upd {t' : RedBlackTree A} {o : Option Idx} {f : Node Idx K V → Node Idx K V}
    (hlen : t'.len = t.len) (hget : t'.arenaGet = upd t.arenaGet o f)
    (hf : ∀ n, (f n).data = n.data) : Keeps t t' := by
  refine ⟨hlen, fun j => ?_⟩
  rw [hget, upd]
  split
  · simp [Function.comp_def, hf]
  · rfl

theorem modify_spec {i : Idx} {n : Node Idx K V} (h : t.arenaGet i = some n)
    (f : Node Idx K V → Node Idx K V) :
    ∃ t', t.modify i f = some t' ∧ t'.root = t.root ∧ t'.len = t.len ∧
      t'.arenaGet = upd t.arenaGet (some i) f := by
  refine ⟨{ t with arena := A.set t.arena i (f n) }, by simp [RedBlackTree.modify, h], rfl, rfl, ?_⟩
  funext j
  by_cases hj : some i = some j
  · obtain rfl := Option.some.inj hj
    rw [upd_self h]
    exact A.get_set_self _ _ _ (by rw [RedBlackTree.arenaGet] at h; rw [h]; rfl)
  · rw [upd_of_ne hj]
    exact A.get_set_of_ne _ _ _ _ fun he => hj (he ▸ rfl)

variable {r : List (Chunk Idx (Node Idx K V))}

/-- A write to a record that is a chunk of its own. -/
theorem heap_modify (l : List (Chunk Idx (Node Idx K V)))
    {i : Idx} {n : Node Idx K V} (h : Heap t.arenaGet (l ++ .cell i n :: r))
    (f : Node Idx K V → Node Idx K V) (hf : ∀ n, (f n).data = n.data := by simp) :
    ∃ t', t.modify i f = some t' ∧ t'.root = t.root ∧ Keeps t t' ∧
      Heap t'.arenaGet (l ++ .cell i (f n) :: r) := by
  obtain ⟨t', ht', hr, hl, hg⟩ := modify_spec (h.get_cell l) f
  exact ⟨t', ht', hr, .of_upd hl hg hf, hg ▸ h.write l (.cell i (f n)) rfl
    (fun j hj => by simp [Chunk.cell, Option.some.inj hj]) fun hx => upd_self hx⟩

/-- A write to the top of a subtree, if it has one. -/
theorem heap_modify_top (l : List (Chunk Idx (Node Idx K V))) {p q : Option Idx} {T : Shape Idx K V}
    (h : Heap t.arenaGet (l ++ treeChunk p T :: r)) (T' : Shape Idx K V)
    (f : Node Idx K V → Node Idx K V) (hidx : idxs T' = idxs T)
    (hT : ∀ {g : Idx → Option (Node Idx K V)}, Rep g p T → (idxs T).Nodup →
      Rep (upd g (rootIdx T) f) q T') :
    ∃ t', t.modifySome (rootIdx T) f = some t' ∧ t'.root = t.root ∧ t'.len = t.len ∧
      t'.arenaGet = upd t.arenaGet (rootIdx T) f ∧ Heap t'.arenaGet (l ++ treeChunk q T' :: r) := by
  have hrep : Rep t.arenaGet p T := h.holds (treeChunk p T) (by simp)
  have hnd : (idxs T).Nodup := by
    have := h.nodup
    simp only [flatMap_append, flatMap_cons, nodup_append] at this
    exact this.2.1.1
  have hmod : ∃ t', t.modifySome (rootIdx T) f = some t' ∧ t'.root = t.root ∧ t'.len = t.len ∧
      t'.arenaGet = upd t.arenaGet (rootIdx T) f := by
    cases hi : rootIdx T with
    | none => exact ⟨t, rfl, rfl, rfl, by simp⟩
    | some i =>
      obtain ⟨n, hn⟩ := Option.isSome_iff_exists.mp (hrep.isSome_of_mem i (rootIdx_mem hi))
      exact modify_spec hn f
  obtain ⟨t', ht', hr, hl, hg⟩ := hmod
  refine ⟨t', ht', hr, hl, hg, ?_⟩
  rw [hg]
  exact h.write l (treeChunk q T') hidx (fun i hi => rootIdx_mem hi) fun hc => hT hc hnd

theorem heap_reparent (l : List (Chunk Idx (Node Idx K V)))
    {p : Option Idx} {T : Shape Idx K V} (h : Heap t.arenaGet (l ++ treeChunk p T :: r))
    (q : Option Idx) :
    ∃ t', t.modifySome (rootIdx T) (·.withParent q) = some t' ∧ t'.root = t.root ∧ Keeps t t' ∧
      Heap t'.arenaGet (l ++ treeChunk q T :: r) := by
  obtain ⟨t', ht', hr, hl, hg, hh⟩ :=
    heap_modify_top l h T (·.withParent q) rfl fun hT hnd => hT.reparent hnd q
  exact ⟨t', ht', hr, .of_upd hl hg fun n => n.data_withParent q, hh⟩

/-- The link update: whoever pointed at `u` points at `v`. -/
theorem replaceInParent_spec {C : Ctx (Entry Idx K V)}
    {u : Idx} (v : Option Idx) (hroot : t.root = ctxRoot C (some u))
    (h : Heap t.arenaGet (ctxChunk (some u) C :: r)) (hu : u ∉ ctxIdxs C) :
    ∃ t', t.replaceInParent (parentIdx C) u v = some t' ∧ t'.root = ctxRoot C v ∧ Keeps t t' ∧
      Heap t'.arenaGet (ctxChunk v C :: r) := by
  cases C with
  | nil =>
    refine ⟨{ t with root := v }, rfl, rfl, ⟨rfl, fun _ => rfl⟩, ?_⟩
    show Heap t.arenaGet _
    simpa using Heap.cut [] [ctxChunk (some u) []] [ctxChunk v []] h (.refl _)
      fun _ d hd => by simp only [mem_singleton] at hd; subst hd; trivial
  | cons f C =>
    have hctx : RepCtx t.arenaGet (some u) (f :: C) :=
      h.holds (ctxChunk (some u) (f :: C)) (by simp)
    have hnd : (ctxIdxs (f :: C)).Nodup := by
      have := h.nodup
      simp only [flatMap_cons, nodup_append] at this
      exact this.1
    have hfar : rootIdx f.sib ≠ some u := fun he =>
      hu (by simp [ctxIdxs, rootIdx_mem he])
    obtain ⟨t', ht', hr, hl, hg⟩ := modify_spec hctx.1 (·.withChild f.side v)
    refine ⟨t', ?_, ?_, .of_upd hl hg fun n => n.data_withChild _ _, ?_⟩
    · simp only [parentIdx_cons, RedBlackTree.replaceInParent, RedBlackTree.branchOfChild, hctx.1,
        some_bind, toNode_left_eq rfl hfar]
      exact ht'
    · rw [hr, hroot]
      rfl
    · rw [hg]
      refine h.write [] (ctxChunk v (f :: C)) rfl (fun i hi => ?_) fun hc => hc.retarget hnd v
      simp [ctxChunk, ctxIdxs, Option.some.inj hi]

end writes

/-! ## Paint, values, rotations, transplants at a location -/

section ops

variable {t : RedBlackTree A} {C : Ctx (Entry Idx K V)} {T : Shape Idx K V}

/-- `if let Some(i) = root of T { arena[i].color = c }`. -/
theorem At.paint (h : At t C T) (c : Color) :
    ∃ t', t.modifySome (rootIdx T) (·.withColor c) = some t' ∧ At t' C (T.paint c) ∧
      Keeps t t' := by
  obtain ⟨t', ht', hr, hl, hg, hh⟩ := heap_modify_top [_] h.heap (T.paint c) (·.withColor c)
    (idxs_paint c T) fun hT hnd => hT.repaint hnd c
  exact ⟨t', ht', ⟨by rw [hr, h.root, rootIdx_paint], by simpa using hh⟩,
    .of_upd hl hg fun n => n.data_withColor c⟩

variable {b : Branch} {c : Color} {e : Entry Idx K V} {s : Shape Idx K V}

/-- `arena[i].color = c` for the node at the location. -/
theorem At.paint_mk {s u : Shape Idx K V} (h : At t C (.mk b c s e u)) (c' : Color) :
    ∃ t', t.modify e.idx (·.withColor c') = some t' ∧ At t' C (.mk b c' s e u) ∧ Keeps t t' := by
  simpa [RedBlackTree.modifySome] using h.paint c'

theorem At.paint_parent (h : At t (⟨b, c, e, s⟩ :: C) T) (c' : Color) :
    ∃ t', t.modify e.idx (·.withColor c') = some t' ∧ At t' (⟨b, c', e, s⟩ :: C) T ∧
      Keeps t t' := by
  simp only [at_cons] at h ⊢
  exact h.paint_mk c'

theorem At.paint_sib (h : At t (⟨b, c, e, s⟩ :: C) T) (c' : Color) :
    ∃ t', t.modifySome (rootIdx s) (·.withColor c') = some t' ∧
      At t' (⟨b, c, e, s.paint c'⟩ :: C) T ∧ Keeps t t' := by
  obtain ⟨t', ht', hat, hk⟩ := h.sibling.paint c'
  exact ⟨t', ht', by simpa using hat.sibling, hk⟩

/-- The value of the entry at a location is overwritten in place. -/
theorem At.setValue {l r : Shape Idx K V} (h : At t C (.node c l e r)) (v : V) :
    ∃ t', t.modify e.idx (·.withValue v) = some t' ∧
      At t' C (.node c l { e with value := v } r) ∧ t'.len = t.len ∧
      ∀ i, (t'.arenaGet i).isSome = (t.arenaGet i).isSome := by
  obtain ⟨t', ht', hr, hl, hg, hh⟩ := heap_modify_top [_] h.heap
    (.node c l { e with value := v } r) (·.withValue v) (by simp [idxs_node])
    fun hT hnd => hT.upd_top hnd rfl (toNode_withValue _ _ _ _ _ _ v)
  exact ⟨t', ht', ⟨by rw [hr, h.root]; rfl, hh⟩, hl, fun i => by rw [hg, upd_isSome]⟩

/-- A rotation: the child on the far side moves above the node, its inner subtree changes
    parents. The mirror image is the same statement with the other `b`. -/
theorem At.rotate {c c' : Color} {S B D : Shape Idx K V} {x y : Entry Idx K V}
    (h : At t C (.mk b c S x (.mk b c' B y D))) : ∃ t', t.rotate b.opposite x.idx = some t' ∧
      At t' C (.mk b c' (.mk b c S x B) y D) ∧ Keeps t t' := by
  -- the pieces: context, the two records, the three subtrees
  have h0 := heap_unfold [_, _, _] (heap_unfold [_] h.heap)
  have hx := Heap.get_cell [_] h0
  have hy := Heap.get_cell [_, _, _] h0
  obtain ⟨t1, e1, r1, k1, h1⟩ := heap_modify [_] h0 (·.withChild b.opposite (rootIdx B))
  have hy1 := Heap.get_cell [_, _, _] h1
  obtain ⟨t2, e2, r2, k2, h2⟩ := heap_reparent [_, _, _, _] h1 (some x.idx)
  have hx2 := Heap.get_cell [_] h2
  obtain ⟨t3, e3, r3, k3, h3⟩ := heap_modify [_, _, _] h2 (·.withParent (parentIdx C))
  obtain ⟨t4, e4, r4, k4, h4⟩ := replaceInParent_spec (some y.idx)
    (by rw [r3, r2, r1, h.root]; simp) (by simpa using h3) h.notMem_ctx
  obtain ⟨t5, e5, r5, k5, h5⟩ := heap_modify [_, _, _] h4 (·.withChild b (some x.idx))
  obtain ⟨t6, e6, r6, k6, h6⟩ := heap_modify [_] h5 (·.withParent (some y.idx))
  refine ⟨t6, ?_, ⟨?_, ?_⟩, k1.trans (k2.trans (k3.trans (k4.trans (k5.trans k6))))⟩
  · simp only [RedBlackTree.rotate, RedBlackTree.link, RedBlackTree.setChild, hx, hy, hy1, hx2,
      some_bind, Branch.opposite_opposite, toNode_link,
      toNode_link_opposite, rootIdx_mk, toNode_withChild_opposite, toNode_parent, e1, e2, e3, e4,
      e5]
    exact e6
  · rw [r6, r5, r4, rootIdx_mk]
  simp only [toNode_withChild, toNode_withParent] at h6
  have h7 : Heap t6.arenaGet ([ctxChunk (some y.idx) C] ++
      [.cell y.idx (y.toNode b c' (parentIdx C) (some x.idx) (rootIdx D))] ++
      nodeChunks (some y.idx) b c S x B ++ [treeChunk (some y.idx) D]) := by
    refine h6.perm (.cons _ ?_)
    show ([_, _] ++ _ :: _).Perm _
    exact perm_middle
  have h8 := heap_fold [_, _] h7
  exact heap_fold [_] (by simpa [nodeChunks] using h8)

end ops
end Moose.RbTree
