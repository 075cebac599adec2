import Moose.Lib.SepHeap
import Moose.RbTree.Model

/-!
# The arena as a tree

`Rep g p T` says that the arena holds the tree `T` hanging from the node `p`: every node's record
has the entry, the colour and the three links its place demands. `RepCtx` says the same of a
tree with a hole.

For the pointer surgery a subtree and a context are chunks of the arena (`treeChunk`, `ctxChunk`):
a write to a record changes one chunk and leaves the others alone, and a subtree can be cut into
its top record and its children (`heap_unfold`) and put together again (`heap_fold`).
-/

set_option autoImplicit false

namespace Moose.RbTree

open List Lib

/-- What stands at one place of the tree: a key, its value and the node's index. -/
structure Entry (Idx K V : Type) where
  idx : Idx
  key : K
  value : V
  deriving DecidableEq

abbrev Shape (Idx K V : Type) := ColorTree (Entry Idx K V)

section Rep

variable {Idx K V : Type}

/-- The record of an entry whose child on side `b` is `near` and whose other child is `far`. -/
def Entry.toNode (e : Entry Idx K V) (b : Branch) (c : Color) (p near far : Option Idx) :
    Node Idx K V :=
  match b with
  | .left => ⟨e.key, e.value, c, p, near, far⟩
  | .right => ⟨e.key, e.value, c, p, far, near⟩

section toNode

variable (e : Entry Idx K V) (b : Branch) (c c' : Color) (p p' near far o : Option Idx)

@[simp] theorem toNode_key : (e.toNode b c p near far).key = e.key := by cases b <;> rfl

@[simp] theorem toNode_value : (e.toNode b c p near far).value = e.value := by cases b <;> rfl

@[simp] theorem toNode_color : (e.toNode b c p near far).color = c := by cases b <;> rfl

@[simp] theorem toNode_parent : (e.toNode b c p near far).parent = p := by cases b <;> rfl

@[simp] theorem toNode_left : (e.toNode .left c p near far).left = near := rfl

@[simp] theorem toNode_right : (e.toNode .left c p near far).right = far := rfl

@[simp] theorem toNode_link : (e.toNode b c p near far).link b = near := by cases b <;> rfl

@[simp] theorem toNode_link_opposite :
    (e.toNode b c p near far).link b.opposite = far := by cases b <;> rfl

@[simp] theorem toNode_withChild :
    (e.toNode b c p near far).withChild b o = e.toNode b c p o far := by cases b <;> rfl

@[simp] theorem toNode_withChild_opposite :
    (e.toNode b c p near far).withChild b.opposite o = e.toNode b c p near o := by
  cases b <;> rfl

@[simp] theorem toNode_withParent :
    (e.toNode b c p near far).withParent p' = e.toNode b c p' near far := by cases b <;> rfl

@[simp] theorem toNode_withColor :
    (e.toNode b c p near far).withColor c' = e.toNode b c' p near far := by cases b <;> rfl

@[simp] theorem toNode_withValue (v : V) :
    (e.toNode b c p near far).withValue v = ({ e with value := v } : Entry Idx K V).toNode
      b c p near far := by cases b <;> rfl

theorem toNode_opposite : e.toNode b.opposite c p near far = e.toNode b c p far near := by
  cases b <;> rfl

end toNode

def rootIdx (T : Shape Idx K V) : Option Idx := T.top?.map Entry.idx

def idxs (T : Shape Idx K V) : List Idx := T.toList.map Entry.idx

def parentIdx (C : Ctx (Entry Idx K V)) : Option Idx := C.parent?.map Entry.idx

def ctxIdxs : Ctx (Entry Idx K V) → List Idx
  | [] => []
  | f :: C => f.label.idx :: idxs f.sib ++ ctxIdxs C

/-- The root of a context whose hole is at `h`. -/
def ctxRoot : Ctx (Entry Idx K V) → Option Idx → Option Idx
  | [], h => h
  | f :: C, _ => ctxRoot C (some f.label.idx)

@[simp] theorem rootIdx_nil : rootIdx (.nil : Shape Idx K V) = none := rfl

@[simp] theorem rootIdx_node (c : Color) (l : Shape Idx K V) (e : Entry Idx K V)
    (r : Shape Idx K V) : rootIdx (.node c l e r) = some e.idx := rfl

@[simp] theorem rootIdx_mk (b : Branch) (c : Color) (s : Shape Idx K V) (e : Entry Idx K V)
    (u : Shape Idx K V) : rootIdx (.mk b c s e u) = some e.idx := by
  simp [rootIdx]

@[simp] theorem rootIdx_paint (c : Color) (T : Shape Idx K V) :
    rootIdx (T.paint c) = rootIdx T := by
  simp [rootIdx]

@[simp] theorem parentIdx_nil : parentIdx ([] : Ctx (Entry Idx K V)) = none := rfl

@[simp] theorem parentIdx_cons (f : ColorTree.Frame (Entry Idx K V)) (C : Ctx (Entry Idx K V)) :
    parentIdx (f :: C) = some f.label.idx := rfl

@[simp] theorem idxs_nil : idxs (.nil : Shape Idx K V) = [] := rfl

@[simp] theorem idxs_paint (c : Color) (T : Shape Idx K V) : idxs (T.paint c) = idxs T := by
  simp [idxs]

theorem idxs_node (c : Color) (l : Shape Idx K V) (e : Entry Idx K V) (r : Shape Idx K V) :
    idxs (.node c l e r) = idxs l ++ e.idx :: idxs r := by
  simp [idxs, ColorTree.toList]

theorem idxs_mk_perm (b : Branch) (c : Color) (s : Shape Idx K V) (e : Entry Idx K V)
    (u : Shape Idx K V) : (idxs (.mk b c s e u)).Perm (e.idx :: (idxs s ++ idxs u)) := by
  cases b with
  | left => simp [ColorTree.mk, idxs_node]
  | right =>
    simp only [ColorTree.mk, idxs_node]
    exact perm_middle.trans (perm_append_comm.cons _)

variable {T s u : Shape Idx K V} {g : Idx → Option (Node Idx K V)} {p : Option Idx} {b : Branch}
  {c : Color} {e : Entry Idx K V}

theorem rootIdx_mem {i : Idx} (h : rootIdx T = some i) : i ∈ idxs T := by
  cases T with
  | nil => exact absurd h (by simp)
  | node c l e r =>
    simp only [rootIdx_node, Option.some.injEq] at h
    simp [idxs_node, h]

theorem rootIdx_plug (C : Ctx (Entry Idx K V)) (T : Shape Idx K V) :
    rootIdx (C.plug T) = ctxRoot C (rootIdx T) := by
  induction C generalizing T with
  | nil => rfl
  | cons f C ih => rw [Ctx.plug_cons, ih, rootIdx_mk]; rfl

/-- The subtree `T`, hanging from `p`, is in the arena. -/
def Rep (g : Idx → Option (Node Idx K V)) : Option Idx → Shape Idx K V → Prop
  | _, .nil => True
  | p, .node c l e r =>
      g e.idx = some (e.toNode .left c p (rootIdx l) (rootIdx r)) ∧
      Rep g (some e.idx) l ∧ Rep g (some e.idx) r

/-- The context `C`, its hole pointing at `h`, is in the arena. -/
def RepCtx (g : Idx → Option (Node Idx K V)) : Option Idx → Ctx (Entry Idx K V) → Prop
  | _, [] => True
  | h, f :: C =>
      g f.label.idx = some (f.label.toNode f.side f.color (parentIdx C) h (rootIdx f.sib)) ∧
      Rep g (some f.label.idx) f.sib ∧ RepCtx g (some f.label.idx) C

theorem rep_mk : Rep g p (.mk b c s e u) ↔ g e.idx = some (e.toNode b c p (rootIdx s) (rootIdx u)) ∧
      Rep g (some e.idx) s ∧ Rep g (some e.idx) u := by
  cases b with
  | left => rfl
  | right =>
    simp only [ColorTree.mk, Rep]
    exact and_congr_right' and_comm

theorem Rep.congr {g g' : Idx → Option (Node Idx K V)} :
    ∀ {p : Option Idx}, (∀ i ∈ idxs T, g' i = g i) → Rep g p T → Rep g' p T := by
  induction T with
  | nil => intro _ _ _; trivial
  | node c l e r ihl ihr =>
    intro p hg ⟨hn, hl, hr⟩
    simp only [idxs_node, mem_append, mem_cons] at hg
    refine ⟨?_, ihl (fun i hi => hg i (Or.inl hi)) hl,
      ihr (fun i hi => hg i (Or.inr (Or.inr hi))) hr⟩
    rw [hg _ (Or.inr (Or.inl rfl)), hn]

theorem RepCtx.congr {g g' : Idx → Option (Node Idx K V)} {C : Ctx (Entry Idx K V)} :
    ∀ {h : Option Idx}, (∀ i ∈ ctxIdxs C, g' i = g i) → RepCtx g h C → RepCtx g' h C := by
  induction C with
  | nil => intro _ _ _; trivial
  | cons f C ih =>
    intro h hg ⟨hn, hs, hC⟩
    simp only [ctxIdxs, cons_append, mem_cons, mem_append] at hg
    refine ⟨?_, hs.congr fun i hi => hg i (Or.inr (Or.inl hi)),
      ih (fun i hi => hg i (Or.inr (Or.inr hi))) hC⟩
    rw [hg _ (Or.inl rfl), hn]

theorem Rep.isSome_of_mem : ∀ {p : Option Idx}, Rep g p T → ∀ i ∈ idxs T, (g i).isSome := by
  induction T with
  | nil => intro _ _ i hi; exact absurd hi (by simp)
  | node c l e r ihl ihr =>
    intro p ⟨hn, hl, hr⟩ i hi
    simp only [idxs_node, mem_append, mem_cons] at hi
    rcases hi with hi | rfl | hi
    · exact ihl hl i hi
    · rw [hn]; rfl
    · exact ihr hr i hi

theorem RepCtx.isSome_of_mem {C : Ctx (Entry Idx K V)} :
    ∀ {h : Option Idx}, RepCtx g h C → ∀ i ∈ ctxIdxs C, (g i).isSome := by
  induction C with
  | nil => intro _ _ i hi; exact absurd hi (by simp [ctxIdxs])
  | cons f C ih =>
    intro h ⟨hn, hs, hC⟩ i hi
    simp only [ctxIdxs, cons_append, mem_cons, mem_append] at hi
    rcases hi with rfl | hi | hi
    · rw [hn]; rfl
    · exact hs.isSome_of_mem i hi
    · exact ih hC i hi

/-! ## Subtrees and contexts as chunks of the arena -/

def treeChunk (p : Option Idx) (T : Shape Idx K V) : Chunk Idx (Node Idx K V) where
  foot := idxs T
  holds g := Rep g p T
  congr hg h := h.congr hg

/-- The context `C` whose hole points at `h`. -/
def ctxChunk (h : Option Idx) (C : Ctx (Entry Idx K V)) : Chunk Idx (Node Idx K V) where
  foot := ctxIdxs C
  holds g := RepCtx g h C
  congr hg h := h.congr hg

/-- The record of `e` with `near` on side `b`, and the two subtrees. -/
abbrev nodeChunks (p : Option Idx) (b : Branch) (c : Color) (s : Shape Idx K V)
    (e : Entry Idx K V) (u : Shape Idx K V) : List (Chunk Idx (Node Idx K V)) :=
  [.cell e.idx (e.toNode b c p (rootIdx s) (rootIdx u)), treeChunk (some e.idx) s,
    treeChunk (some e.idx) u]

theorem nodeChunks_foot (p q : Option Idx) (b : Branch) (c : Color) (s : Shape Idx K V)
    (e : Entry Idx K V) (u : Shape Idx K V) :
    ([treeChunk q (.mk b c s e u)].flatMap Chunk.foot).Perm
      ((nodeChunks p b c s e u).flatMap Chunk.foot) := by
  simpa [treeChunk, Chunk.cell] using idxs_mk_perm b c s e u

/-- Cuts a subtree into its top record and its two children. -/
theorem heap_unfold (l : List (Chunk Idx (Node Idx K V)))
    {r : List (Chunk Idx (Node Idx K V))} (h : Heap g (l ++ treeChunk p (.mk b c s e u) :: r)) :
    Heap g (l ++ nodeChunks p b c s e u ++ r) := by
  refine Heap.cut l [treeChunk p (.mk b c s e u)] _ (by simpa using h)
    (nodeChunks_foot p p b c s e u) fun hc => ?_
  obtain ⟨hn, hs, hu⟩ := rep_mk.mp (hc _ (mem_singleton_self _))
  simp only [forall_mem_cons]
  exact ⟨hn, hs, hu, by simp⟩

/-- Puts a top record and two children together. -/
theorem heap_fold (l : List (Chunk Idx (Node Idx K V)))
    {r : List (Chunk Idx (Node Idx K V))} (h : Heap g (l ++ nodeChunks p b c s e u ++ r)) :
    Heap g (l ++ treeChunk p (.mk b c s e u) :: r) := by
  have := Heap.cut l _ [treeChunk p (.mk b c s e u)] h (nodeChunks_foot p p b c s e u).symm
    fun hc => ?_
  · simpa using this
  simp only [forall_mem_cons] at hc ⊢
  exact ⟨rep_mk.mpr ⟨hc.1, hc.2.1, hc.2.2.1⟩, by simp⟩

section upd

variable [DecidableEq Idx] {g : Idx → Option (Node Idx K V)}

/-- Rewriting only the top of a subtree: its own record changes, both children stay. -/
theorem Rep.upd_top {p q : Option Idx} {c c' : Color} {l r : Shape Idx K V}
    {e e' : Entry Idx K V} {f : Node Idx K V → Node Idx K V} (h : Rep g p (.node c l e r))
    (hnd : (idxs (.node c l e r)).Nodup) (he : e'.idx = e.idx)
    (hf : f (e.toNode .left c p (rootIdx l) (rootIdx r)) =
      e'.toNode .left c' q (rootIdx l) (rootIdx r)) :
    Rep (upd g (some e.idx) f) q (.node c' l e' r) := by
  obtain ⟨hn, hl, hr⟩ := h
  simp only [idxs_node, nodup_append, nodup_cons] at hnd
  obtain ⟨-, ⟨her, -⟩, hlr⟩ := hnd
  refine ⟨?_, ?_, ?_⟩
  · rw [he, upd_self hn, hf]
  · rw [he]
    refine hl.congr fun i hi => upd_of_ne fun hei => ?_
    exact hlr i hi e.idx (by simp) (Option.some.inj hei).symm
  · rw [he]
    exact hr.congr fun i hi => upd_of_ne fun hei => her (Option.some.inj hei ▸ hi)

variable {p : Option Idx}

/-- Hanging a subtree from another parent is one write to its top. -/
theorem Rep.reparent {T : Shape Idx K V} (h : Rep g p T) (hnd : (idxs T).Nodup)
    (q : Option Idx) : Rep (upd g (rootIdx T) (·.withParent q)) q T := by
  cases T with
  | nil => trivial
  | node c l e r => exact h.upd_top hnd rfl (by simp)

/-- Painting the top of a subtree is one write. -/
theorem Rep.repaint {T : Shape Idx K V} (h : Rep g p T) (hnd : (idxs T).Nodup)
    (c : Color) : Rep (upd g (rootIdx T) (·.withColor c)) p (T.paint c) := by
  cases T with
  | nil => trivial
  | node c' l e r => exact h.upd_top hnd rfl (by simp)

/-- Pointing the hole of a context elsewhere is one write to the node above it. -/
theorem RepCtx.retarget {h : Option Idx} {fr : ColorTree.Frame (Entry Idx K V)}
    {C : Ctx (Entry Idx K V)} (hC : RepCtx g h (fr :: C)) (hnd : (ctxIdxs (fr :: C)).Nodup)
    (h' : Option Idx) :
    RepCtx (upd g (some fr.label.idx) (·.withChild fr.side h')) h' (fr :: C) := by
  obtain ⟨hn, hs, hC⟩ := hC
  simp only [ctxIdxs, cons_append, nodup_cons, mem_append, not_or] at hnd
  obtain ⟨⟨hfs, hfC⟩, -⟩ := hnd
  refine ⟨?_, ?_, ?_⟩
  · rw [upd_self hn]
    simp
  · exact hs.congr fun i hi => upd_of_ne fun he => hfs (Option.some.inj he ▸ hi)
  · exact hC.congr fun i hi => upd_of_ne fun he => hfC (Option.some.inj he ▸ hi)

end upd
end Rep
end Moose.RbTree
