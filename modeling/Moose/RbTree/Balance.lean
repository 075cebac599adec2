import Mathlib.Analysis.SpecialFunctions.Log.Base
import Moose.RbTree.Refine

/-!
# Balance

`insert` keeps the red-black shape. `remove` does so unless the node it cuts out is a black leaf
below the root: the position it leaves is a missing child, and the loop of `delete_fixup` breaks
at once on `None`, so the path through it stays one black node short. That is the whole story —
`remove_isRedBlack_iff` — because in a red-black tree the child that moves up is missing or red,
and a red one is simply painted black.
-/

set_option autoImplicit false

namespace Moose.RbTree

open Lib RedBlackTree

variable {Idx K V : Type} {A : GenArena Idx (Node Idx K V)}

namespace RedBlackTree

/-- The tree read off the links, top down. -/
def shapeFrom (t : RedBlackTree A) : Nat → Option Idx → Option (Shape Idx K V)
  | _, none => some .nil
  | 0, some _ => none
  | fuel + 1, some idx => do
    let node ← t.arenaGet idx
    let left ← t.shapeFrom fuel node.left
    let right ← t.shapeFrom fuel node.right
    some (.node node.color left ⟨idx, node.key, node.value⟩ right)

def shape (t : RedBlackTree A) : Option (Shape Idx K V) := t.shapeFrom t.fuel t.root

/-- The record of the node `detach_node` cuts out of the tree: the node itself if it has at most
    one child, its in-order successor otherwise. -/
def splicedNode (t : RedBlackTree A) (z : Idx) : Option (Node Idx K V) := do
  let node ← t.arenaGet z
  if node.left.isNone || node.right.isNone then some node
  else t.arenaGet (← (← t.subtreeMin node.right))

/-- Removing `key` does not cut a black leaf out from below the root. -/
def removeOk [LinearOrder K] (t : RedBlackTree A) (key : K) : Bool :=
  match t.findNode key with
  | some (some z) =>
    match t.splicedNode z with
    | some y => y.color = .red || y.left.isSome || y.right.isSome || t.len = 1
    | none => true
  | _ => true

end RedBlackTree

theorem shapeFrom_spec {t : RedBlackTree A} :
    ∀ {n : Nat} {T : Shape Idx K V} {p : Option Idx}, Rep t.arenaGet p T → T.height ≤ n →
      t.shapeFrom n (rootIdx T) = some T := by
  intro n
  induction n with
  | zero =>
    intro T p h hn
    cases T with
    | nil => rfl
    | node c l e r => exact absurd hn (by simp [ColorTree.height])
  | succ n ih =>
    intro T p h hn
    cases T with
    | nil => rfl
    | node c l e r =>
      obtain ⟨hg, hl, hr⟩ := h
      simp only [ColorTree.height, Nat.add_le_add_iff_right, sup_le_iff] at hn
      simp [shapeFrom, hg, ih hl hn.1, ih hr hn.2]

section

variable [LinearOrder K] {t : RedBlackTree A} {T T' : Shape Idx K V}

theorem Models.shape (h : Models t T) : t.shape = some T := by
  rw [RedBlackTree.shape, h.root_eq]
  exact shapeFrom_spec h.at_root.sub h.height_le_fuel

/-! ## Insertion -/

theorem Inserted.isRedBlack {key : K} {value : V} {i : Idx} (h : Inserted T key value i T')
    (hT : T.IsRedBlack) : T'.IsRedBlack := by
  cases h with
  | @update C c l r e hplug _ =>
    obtain ⟨c', n, hb, hC⟩ := Ctx.ctxOk_of_isRedBlack (hplug ▸ hT)
    refine hC.plug ?_
    cases hb with
    | red hl hr => exact .red hl hr
    | black hl hr => exact .black hl hr
  | fresh hplug _ _ hR =>
    obtain ⟨c, n, hb, hC⟩ := Ctx.ctxOk_of_isRedBlack (hplug ▸ hT)
    cases hb
    exact hR.isRedBlack hC (.red .nil .nil)

end

/-! ## Removal -/

section removal

variable {T T' : Shape Idx K V} {z : Entry Idx K V} {C : Ctx (Entry Idx K V)} {c : Color}
  {x : Shape Idx K V}

/-- The context left by the splice fits the subtree that was cut out of it. -/
theorem Splice.ctxOk (h : Splice T z C c x) (hT : T.IsRedBlack) :
    ∃ b w c' n, ColorTree.Balanced (.mk b c .nil w x) c' n ∧ C.CtxOk c' n := by
  cases h with
  | @one C b c x hplug =>
    obtain ⟨c', n, hb, hC⟩ := Ctx.ctxOk_of_isRedBlack (hplug ▸ hT)
    exact ⟨b, z, c', n, hb, hC⟩
  | @two C D cz _ s zl _ _ _ hplug =>
    have hE : (Ctx.plug (D ++ ⟨.right, cz, z, zl⟩ :: C) (.node c .nil s x)).IsRedBlack := by
      rw [Ctx.plug_append]
      exact hplug ▸ hT
    obtain ⟨c', n, hb, hC⟩ := Ctx.ctxOk_of_isRedBlack hE
    exact ⟨.left, s, c', n, hb, hC.relabel⟩

theorem balanced_mk_black {b : Branch} {w : Entry Idx K V} {n : Nat} {c' : Color}
    (h : ColorTree.Balanced (.mk b .black .nil w x) c' n) :
    c' = .black ∧ n = 1 ∧ ∃ d, ColorTree.Balanced x d 0 := by
  cases b with
  | left => cases h with | black hl hr => cases hl; exact ⟨rfl, rfl, _, hr⟩
  | right => cases h with | black hl hr => cases hr; exact ⟨rfl, rfl, _, hl⟩

/-- **When a removal keeps the shape**: the node that was cut out was red, had a child, or was the
    last one. -/
theorem Removed.isRedBlack_iff (h : Removed T z T') (hT : T.IsRedBlack) :
    ∃ C c x, Splice T z C c x ∧ (T'.IsRedBlack ↔ c = .red ∨ x ≠ .nil ∨ C = []) := by
  cases h with
  | @red C x hs =>
    refine ⟨C, .red, x, hs, iff_of_true ?_ (Or.inl rfl)⟩
    obtain ⟨b, w, c', n, hb, hC⟩ := hs.ctxOk hT
    obtain ⟨rfl, -, hx⟩ := hb.of_mk_red
    exact hC.toBlack.plug hx
  | @black C x R hs hR =>
    refine ⟨C, .black, x, hs, ?_⟩
    obtain ⟨b, w, c', n, hb, hC⟩ := hs.ctxOk hT
    obtain ⟨rfl, rfl, d, hx⟩ := balanced_mk_black hb
    rcases hx.zero with rfl | ⟨a, rfl⟩
    · rw [hR.nil_eq rfl]
      constructor
      · -- one black node fewer than the context asks for
        intro hrb
        refine Or.inr (Or.inr ?_)
        obtain ⟨c1, m, hm, hC1⟩ := Ctx.ctxOk_of_isRedBlack hrb
        cases hm
        exact hC.eq_nil_of_ne hC1 (by simp)
      · rintro (h | h | rfl)
        · exact absurd h (by simp)
        · exact absurd rfl h
        · exact ColorTree.isRedBlack_iff.mpr ⟨0, .nil⟩
    · refine iff_of_true ?_ (Or.inr (Or.inl (by simp)))
      rw [hR.paint_eq (by simp) (Or.inl rfl)]
      exact hC.plug (.black .nil .nil)

theorem Splice.ctx_eq_nil (h : Splice T z C c .nil) : C = [] ↔ T.size = 1 := by
  obtain ⟨L, M, hL, hM⟩ := h.toList_eq
  have hsize : T.size = (C.plug .nil).size + 1 := by
    rw [ColorTree.size_eq_length, ColorTree.size_eq_length, hL, hM]
    simp only [List.length_append, List.length_cons]
    omega
  constructor
  · rintro rfl
    rw [hsize]
    rfl
  intro h1
  have := C.length_add_size_le .nil
  exact List.eq_nil_of_length_eq_zero (by omega)

/-- The height bound in the form it is usually quoted. -/
theorem height_le_logb (h : T.IsRedBlack) :
    (T.height : ℝ) ≤ 2 * Real.logb 2 (T.size + 1) := by
  have hpow : (2 : ℝ) ^ T.height ≤ ((T.size : ℝ) + 1) ^ 2 := by exact_mod_cast h.pow_height_le
  calc (T.height : ℝ) = Real.logb 2 ((2 : ℝ) ^ T.height) := by
        rw [Real.logb_pow, Real.logb_self_eq_one (by norm_num), mul_one]
    _ ≤ Real.logb 2 (((T.size : ℝ) + 1) ^ 2) :=
        Real.logb_le_logb_of_le (by norm_num) (by positivity) hpow
    _ = 2 * Real.logb 2 (T.size + 1) := by rw [Real.logb_pow]; norm_num

end removal

section

variable [LinearOrder K] {t : RedBlackTree A} {T : Shape Idx K V} {z : Entry Idx K V}
  {C : Ctx (Entry Idx K V)} {c : Color} {x : Shape Idx K V}

/-- The node cut out, as the code finds it. -/
theorem Splice.splicedNode (h : Splice T z C c x) (hm : Models t T) :
    ∃ y, t.splicedNode z.idx = some y ∧ y.color = c ∧
      (y.left = none ∧ y.right = none ↔ x = .nil) := by
  have hnil : ∀ {S : Shape Idx K V}, rootIdx S = none ↔ S = .nil := by
    intro S
    simp [rootIdx, ColorTree.top?_eq_none]
  cases h with
  | @one C b c x hplug =>
    have hz := (at_plug.mpr (hplug ▸ hm.at_root)).get_mk
    refine ⟨z.toNode b c (parentIdx C) none (rootIdx x), ?_, toNode_color .., ?_⟩
    · cases b <;> simp [RedBlackTree.splicedNode, hz, Entry.toNode]
    · cases b <;> simp [Entry.toNode, hnil]
  | @two C D cz _ s zl _ hD hzl hplug =>
    have hat : At t C (.node cz zl z (D.plug (.node c .nil s x))) :=
      at_plug.mpr (hplug ▸ hm.at_root)
    have hE : At t (D ++ ⟨.right, cz, z, zl⟩ :: C) (.node c .nil s x) :=
      at_append.mpr (at_cons.mpr hat)
    have hz := hat.get_mk (b := .left)
    have hs := hE.get_mk (b := .left)
    have hfuel : (D.plug (.node c .nil s x)).height ≤ t.fuel := by
      have h1 := ColorTree.height_le_size (D.plug (.node c .nil s x))
      have h2 := C.size_le_plug (.node cz zl z (D.plug (.node c .nil s x)))
      rw [hplug, ← hm.len] at h2
      simp only [ColorTree.size, fuel] at h2 ⊢
      omega
    have hmin : t.subtreeMin (rootIdx (D.plug (.node c .nil s x))) = some (some s.idx) := by
      rw [subtreeMin, subtreeEnd_spec hat.sub.2.2 hfuel, endOf, Ctx.toList_plug, hD]
      simp [ColorTree.toList]
    have hl : rootIdx zl ≠ none := fun he => hzl (hnil.mp he)
    have hr : rootIdx (D.plug (.node c .nil s x)) ≠ none := fun he =>
      Ctx.plug_ne_nil D (by simp) (hnil.mp he)
    refine ⟨s.toNode .left c (parentIdx (D ++ ⟨.right, cz, z, zl⟩ :: C)) none (rootIdx x), ?_,
      toNode_color .., ?_⟩
    · simp [splicedNode, hz, hl, hr, hmin, hs]
    · simp [hnil]

/-- `removeOk` is the condition under which the shape is kept. -/
theorem Splice.removeOk_iff {key : K} (h : Splice T z C c x) (hm : Models t T)
    (hl : lookup T key = some z) :
    t.removeOk key = true ↔ c = .red ∨ x ≠ .nil ∨ C = [] := by
  obtain ⟨y, hy, rfl, hleaf⟩ := h.splicedNode hm
  have hfind : t.findNode key = some (some z.idx) := by rw [hm.findNode, hl]; rfl
  simp only [removeOk, hfind, hy, Bool.or_eq_true, decide_eq_true_eq]
  by_cases hx : x = .nil
  · obtain ⟨h1, h2⟩ := hleaf.mpr hx
    subst hx
    simp [h1, h2, h.ctx_eq_nil, hm.len]
  refine iff_of_true ?_ (Or.inr (Or.inl hx))
  have : ¬ (y.left = none ∧ y.right = none) := fun hn => hx (hleaf.mp hn)
  cases hyl : y.left with
  | none =>
    cases hyr : y.right with
    | none => exact absurd ⟨hyl, hyr⟩ this
    | some j => simp
  | some j => simp

end

/-! ## Runs -/

variable [DecidableEq Idx] [LinearOrder K]

/-- **Exactly when `remove` keeps a red-black tree red-black.** -/
theorem remove_isRedBlack_iff {t t' : RedBlackTree A} {T T' : Shape Idx K V} {key : K}
    {old : Option V} (hm : Models t T) (hT : T.IsRedBlack) (hr : t.remove key = some (t', old))
    (hm' : Models t' T') : T'.IsRedBlack ↔ t.removeOk key = true := by
  rcases hm.remove hT.root key with ⟨hl, e1⟩ | ⟨z, t1, T1, hl, e1, hrem, hm1⟩
  · rw [hr] at e1
    obtain ⟨rfl, -⟩ := Prod.mk.inj (Option.some.inj e1)
    have hTT : T' = T := Option.some.inj (hm'.shape.symm.trans hm.shape)
    have hfind : t'.findNode key = some none := by rw [hm.findNode, hl]; rfl
    simp [hTT, hT, removeOk, hfind]
  rw [hr] at e1
  obtain ⟨rfl, -⟩ := Prod.mk.inj (Option.some.inj e1)
  have hTT : T' = T1 := Option.some.inj (hm'.shape.symm.trans hm1.shape)
  obtain ⟨C, c, x, hs, hiff⟩ := hrem.isRedBlack_iff hT
  rw [hTT, hiff, hs.removeOk_iff hm hl]

/-- The step is not a `remove` that cuts a black leaf out from below the root. -/
def StepOk (t : RedBlackTree A) : Op K V → Prop
  | .remove key => t.removeOk key = true
  | _ => True

instance (t : RedBlackTree A) : (op : Op K V) → Decidable (StepOk t op)
  | .remove key => inferInstanceAs (Decidable (t.removeOk key = true))
  | .insert _ _ => isTrue trivial
  | .getMut _ _ => isTrue trivial

theorem step_isRedBlack {t : RedBlackTree A} (op : Op K V) (hok : StepOk t op)
    (h : ∃ T, Models t T ∧ T.IsRedBlack) :
    ∃ t' out, step t op = some (t', out) ∧ ∃ T', Models t' T' ∧ T'.IsRedBlack := by
  obtain ⟨T, hm, hT⟩ := h
  cases op with
  | insert key value =>
    obtain ⟨t', i, T', e1, hins, hm'⟩ := hm.insert hT.root key value
    exact ⟨t', .index i, by simp [step, e1], T', hm', hins.isRedBlack hT⟩
  | remove key =>
    rcases hm.remove hT.root key with ⟨-, e1⟩ | ⟨z, t', T', -, e1, -, hm'⟩
    · exact ⟨t, .value none, by simp [step, e1], T, hm, hT⟩
    exact ⟨t', .value (some z.value), by simp [step, e1], T', hm',
      (remove_isRedBlack_iff hm hT e1 hm').mpr hok⟩
  | getMut key f =>
    rcases hm.getMut key f with ⟨-, e1⟩ | ⟨e, t', T', -, e1, hins, -, hm'⟩
    · exact ⟨t, .value none, by simp [step, e1], T, hm, hT⟩
    · exact ⟨t', .value (some e.value), by simp [step, e1], T', hm', hins.isRedBlack hT⟩

/-- **Balance**: a run whose removals never cut a black leaf out from below the root ends in a
    red-black tree of logarithmic height. -/
theorem run_isRedBlack (A : GenArena Idx (Node Idx K V)) (ops : List (Op K V))
    (hok : Guarded step StepOk (RedBlackTree.new : RedBlackTree A) ops) :
    ∃ t outs T, run step (RedBlackTree.new : RedBlackTree A) ops = some (t, outs) ∧
      t.shape = some T ∧ T.IsRedBlack ∧ T.size = t.len ∧
      (T.height : ℝ) ≤ 2 * Real.logb 2 (t.len + 1) := by
  have hnew : ∃ T, Models (new : RedBlackTree A) T ∧ T.IsRedBlack :=
    ⟨.nil, new_refines.models, ColorTree.isRedBlack_iff.mpr ⟨0, .nil⟩⟩
  obtain ⟨t, outs, hrun, T, hm, hT⟩ :=
    run_inv (fun t op h hok => step_isRedBlack op hok h) hnew hok
  refine ⟨t, outs, T, hrun, hm.shape, hT, hm.len.symm, ?_⟩
  rw [hm.len]
  exact height_le_logb hT

abbrev NatTree := RedBlackTree (listArena (Node Nat Nat Nat))

/-- Removing the red leaf 3 from the tree of 1, 2, 3 meets the condition. -/
theorem run_isRedBlack_red_leaf :
    Guarded step StepOk (RedBlackTree.new : NatTree)
      [.insert 1 10, .insert 2 20, .insert 3 30, .remove 3] ∧
    ∃ t outs T, run step (RedBlackTree.new : NatTree)
        [.insert 1 10, .insert 2 20, .insert 3 30, .remove 3] = some (t, outs) ∧
      t.shape = some T ∧ T.IsRedBlack ∧ T.size = t.len ∧
      (T.height : ℝ) ≤ 2 * Real.logb 2 (t.len + 1) :=
  ⟨by decide, run_isRedBlack (listArena (Node Nat Nat Nat)) _ (by decide)⟩

/-- **The defect**: removing the black leaf 1 from the tree of 1 to 4 leaves the path to the left
    of the root one black node short. -/
theorem remove_black_leaf_unbalanced :
    ∃ t outs T, run step (RedBlackTree.new : NatTree)
        [.insert 1 10, .insert 2 20, .insert 3 30, .insert 4 40, .remove 1] = some (t, outs) ∧
      t.shape = some T ∧ ¬ T.IsRedBlack := by
  refine ⟨_, _, _, rfl, rfl, ?_⟩
  rintro ⟨-, -, hcount⟩
  exact absurd hcount (by decide)

end Moose.RbTree
