import Mathlib.Logic.Function.Basic
import Mathlib.Logic.Relation
import Moose.RbTree.Delete

/-!
# The tree is a finite ordered map

The abstract map is a partial function from keys to an index and a value. A run of `insert`,
`remove` and writes through `get_mut` from the empty tree is simulated step by step by the map,
and in every state reached the lookups, the in-order walk, the two ends and the indices answer as
the map does. Balance plays no part: the only thing the operations need of the shape they start
from is a black root.
-/

set_option autoImplicit false

namespace Moose.RbTree

open List Option Lib

variable {Idx K V : Type} {A : GenArena Idx (Node Idx K V)}

/-! ## Links -/

def IsChild (t : RedBlackTree A) (i j : Idx) : Prop :=
  ∃ n b, t.arenaGet i = some n ∧ n.link b = some j

/-- The links of all live nodes agree with each other and form no cycle. -/
structure LinksOk (t : RedBlackTree A) : Prop where
  /-- A child's parent link points back. -/
  child : ∀ i j, IsChild t i j → ∃ m, t.arenaGet j = some m ∧ m.parent = some i
  parent : ∀ i n p, t.arenaGet i = some n → n.parent = some p → IsChild t p i
  /-- The root is the one node without a parent. -/
  root : ∀ i n, t.arenaGet i = some n → (n.parent = none ↔ t.root = some i)
  distinct : ∀ i n j, t.arenaGet i = some n → n.left = some j → n.right ≠ some j
  acyclic : ∀ i, ¬ Relation.TransGen (IsChild t) i i

section links

variable {g : Idx → Option (Node Idx K V)}

/-- A child of a node of the tree is in the tree, in the subtree below the node. -/
theorem Rep.link_mem {T : Shape Idx K V} :
    ∀ {p : Option Idx}, Rep g p T → ∀ {i j : Idx} {n : Node Idx K V} {b : Branch}, i ∈ idxs T →
      g i = some n → n.link b = some j → j ∈ idxs T := by
  induction T with
  | nil => intro _ _ i _ _ _ hi; exact absurd hi (by simp)
  | node c l e r ihl ihr =>
    intro p ⟨hn, hl, hr⟩ i j n b hi hg hj
    simp only [idxs_node, mem_append, mem_cons] at hi ⊢
    rcases hi with hi | rfl | hi
    · exact Or.inl (ihl hl hi hg hj)
    · rw [hn] at hg
      obtain rfl := some.inj hg
      cases b with
      | left => exact Or.inl (rootIdx_mem hj)
      | right => exact Or.inr (Or.inr (rootIdx_mem hj))
    · exact Or.inr (Or.inr (ihr hr hi hg hj))

variable [DecidableEq Idx]

/-- The size of the subtree below an index. -/
def rank : Shape Idx K V → Idx → Nat
  | .nil, _ => 0
  | .node c l e r, i =>
      if i = e.idx then ColorTree.size (.node c l e r)
      else if i ∈ idxs l then rank l i else rank r i

theorem rank_root {T : Shape Idx K V} {i : Idx} (h : rootIdx T = some i) : rank T i = T.size := by
  cases T with
  | nil => exact absurd h (by simp)
  | node c l e r =>
    obtain rfl : e.idx = i := by simpa using h
    simp [rank]

/-- Going to a child makes the rank smaller. -/
theorem Rep.rank_lt {T : Shape Idx K V} :
    ∀ {p : Option Idx}, Rep g p T → (idxs T).Nodup → ∀ {i j : Idx} {n : Node Idx K V}
      {b : Branch}, i ∈ idxs T → g i = some n → n.link b = some j → rank T j < rank T i := by
  induction T with
  | nil => intro _ _ _ i _ _ _ hi; exact absurd hi (by simp)
  | node c l e r ihl ihr =>
    intro p ⟨hn, hl, hr⟩ hnd i j n b hi hg hj
    rw [idxs_node, nodup_append, nodup_cons] at hnd
    obtain ⟨hndl, ⟨her, hndr⟩, hlr⟩ := hnd
    have hel : ∀ k ∈ idxs l, k ≠ e.idx := fun k hk he => hlr k hk e.idx (by simp) he
    have hrr : ∀ k ∈ idxs r, k ≠ e.idx ∧ k ∉ idxs l := fun k hk =>
      ⟨fun he => her (he ▸ hk), fun hkl => hlr k hkl k (by simp [hk]) rfl⟩
    simp only [idxs_node, mem_append, mem_cons] at hi
    rcases hi with hi | rfl | hi
    · have hj' := hl.link_mem hi hg hj
      simp only [rank, hel i hi, hel j hj', hi, hj', if_false, if_true]
      exact ihl hl hndl hi hg hj
    · rw [hn] at hg
      obtain rfl := some.inj hg
      cases b with
      | left =>
        have hj' := rootIdx_mem (T := l) hj
        simp only [rank, hel j hj', hj', if_false, if_true, rank_root (T := l) hj, ColorTree.size]
        omega
      | right =>
        have hj' := hrr j (rootIdx_mem (T := r) hj)
        simp only [rank, hj'.1, hj'.2, if_false, if_true, rank_root (T := r) hj, ColorTree.size]
        omega
    · have hi' := hrr i hi
      have hj' := hrr j (hr.link_mem hi hg hj)
      simp only [rank, hi'.1, hi'.2, hj'.1, hj'.2, if_false]
      exact ihr hr hndr hi hg hj

/-- **Links are consistent** whenever the arena holds exactly a tree. -/
theorem linksOk {t : RedBlackTree A} {T : Shape Idx K V} (h : At t [] T)
    (hlive : ∀ i, (t.arenaGet i).isSome → i ∈ idxs T) : LinksOk t := by
  -- every live index has a location
  have hloc : ∀ i n, t.arenaGet i = some n → ∃ C c l e r, At t C (.node c l e r) ∧ e.idx = i ∧
      n = e.toNode .left c (parentIdx C) (rootIdx l) (rootIdx r) := by
    intro i n hi
    obtain ⟨e, he, rfl⟩ := mem_map.mp (hlive i (by rw [hi]; rfl))
    obtain ⟨C, c, l, r, hT⟩ := exists_location he
    have hat : At t C (.node c l e r) := at_plug.mpr (hT ▸ h)
    exact ⟨C, c, l, e, r, hat, rfl, some.inj (hi.symm.trans (hat.get_mk (b := .left)))⟩
  have hnd : (idxs T).Nodup := by simpa [ctxIdxs] using h.nodup
  refine ⟨?_, ?_, ?_, ?_, ?_⟩
  · rintro i j ⟨n, b, hi, hj⟩
    obtain ⟨C, c, l, e, r, hat, rfl, rfl⟩ := hloc i n hi
    obtain ⟨near, far, hmk⟩ := ColorTree.exists_mk b c l e r
    rw [hmk] at hat
    have hn := hat.get_mk
    rw [hi] at hn
    rw [some.inj hn, toNode_link] at hj
    have hdown := hat.down
    cases near with
    | nil => exact absurd hj (by simp)
    | node c' l' e' r' =>
      obtain rfl : e'.idx = j := by simpa using hj
      exact ⟨_, hdown.get_mk (b := .left), by simp⟩
  · intro i n p hi hp
    obtain ⟨C, c, l, e, r, hat, rfl, rfl⟩ := hloc i n hi
    cases C with
    | nil => exact absurd hp (by simp)
    | cons f C =>
      obtain rfl : f.label.idx = p := by simpa using hp
      exact ⟨_, f.side, hat.get_parent, by simp⟩
  · intro i n hi
    obtain ⟨C, c, l, e, r, hat, rfl, rfl⟩ := hloc i n hi
    cases C with
    | nil => simp [hat.root, ctxRoot]
    | cons f C =>
      have := hat.ne_root
      simp only [toNode_parent, parentIdx_cons, reduceCtorEq, false_iff]
      exact fun he => this he.symm
  · intro i n j hi hl
    obtain ⟨C, c, l, e, r, hat, rfl, rfl⟩ := hloc i n hi
    exact (At.down (b := .left) hat).sib_ne hl
  · -- a cycle would make a rank smaller than itself
    have hlt : ∀ i j, Relation.TransGen (IsChild t) i j → rank T j < rank T i := by
      intro i j hij
      induction hij with
      | single h1 =>
        obtain ⟨n, b, hi, hj⟩ := h1
        exact h.sub.rank_lt hnd (hlive _ (by rw [hi]; rfl)) hi hj
      | tail _ h1 ih =>
        obtain ⟨n, b, hi, hj⟩ := h1
        exact (h.sub.rank_lt hnd (hlive _ (by rw [hi]; rfl)) hi hj).trans ih
    exact fun i hii => absurd (hlt i i hii) (Nat.lt_irrefl _)

end links

/-! ## Operations and runs -/

/-- The calls that change the tree. A lookup does not, so it may stand between any two of them. -/
inductive Op (K V : Type) where
  | insert (key : K) (value : V)
  | remove (key : K)
  | getMut (key : K) (f : V → V)

/-- What a call returns: the index of `insert`, the value of the others. -/
inductive Out (Idx V : Type) where
  | index (idx : Idx)
  | value (old : Option V)

variable [LinearOrder K]

/-- The abstract map: the index and the value of every key that is in it. -/
abbrev OrdMap (Idx K V : Type) := K → Option (Idx × V)

/-- One step of the abstract map. A key keeps its index as long as it stays in the map, and a new
    key gets an index no other key has. -/
def MapStep (m : OrdMap Idx K V) : Op K V → Out Idx V → OrdMap Idx K V → Prop
  | .insert key value, .index idx, m' =>
      (match m key with
        | some (old, _) => idx = old
        | none => ∀ k v, m k ≠ some (idx, v)) ∧
      m' = Function.update m key (some (idx, value))
  | .remove key, .value old, m' =>
      old = (m key).map Prod.snd ∧ m' = Function.update m key none
  | .getMut key f, .value old, m' =>
      old = (m key).map Prod.snd ∧
      m' = Function.update m key ((m key).map fun (idx, v) => (idx, f v))
  | _, _, _ => False

def toMap (T : Shape Idx K V) : OrdMap Idx K V :=
  fun key => (lookup T key).map fun e => (e.idx, e.value)

structure Refines (t : RedBlackTree A) (m : OrdMap Idx K V) (T : Shape Idx K V) : Prop where
  models : Models t T
  root_black : T.rootColor = .black
  map_eq : m = toMap T

section

variable {T T' : Shape Idx K V} {key : K} {value : V} {i : Idx}

theorem toMap_inserted (h : Inserted T key value i T') (hs : Sorted T) :
    toMap T' = Function.update (toMap T) key (some (i, value)) := by
  funext k
  have hs' := h.sorted hs
  by_cases hk : k = key
  · subst hk
    have : lookup T' k = some ⟨i, k, value⟩ :=
      (lookup_eq_some hs').mpr ⟨(h.mem_iff hs _).mpr (Or.inl rfl), rfl⟩
    simp [toMap, this]
  rw [Function.update_of_ne hk, toMap, toMap]
  congr 1
  refine ext fun e => ?_
  rw [lookup_eq_some hs', lookup_eq_some hs, h.mem_iff hs]
  constructor
  · rintro ⟨rfl | ⟨he, -⟩, rfl⟩
    · exact absurd rfl hk
    · exact ⟨he, rfl⟩
  · rintro ⟨he, rfl⟩
    exact ⟨Or.inr ⟨he, hk⟩, rfl⟩

theorem toMap_removed {z : Entry Idx K V} (h : Removed T z T') (hs : Sorted T)
    (hs' : Sorted T') : toMap T' = Function.update (toMap T) z.key none := by
  obtain ⟨L, M, hT, hT'⟩ := h.toList_eq
  have hmem : ∀ e, e ∈ T'.toList ↔ e ∈ T.toList ∧ e.key ≠ z.key := by
    have hpw : (L ++ z :: M).Pairwise fun a b => a.key < b.key := hT ▸ hs
    rw [pairwise_append, pairwise_cons] at hpw
    obtain ⟨-, ⟨hM, -⟩, hL⟩ := hpw
    intro e
    rw [hT, hT', mem_append, mem_append, mem_cons]
    constructor
    · rintro (he | he)
      · exact ⟨Or.inl he, (hL e he z (by simp)).ne⟩
      · exact ⟨Or.inr (Or.inr he), (hM e he).ne'⟩
    rintro ⟨he | rfl | he, hne⟩
    · exact Or.inl he
    · exact absurd rfl hne
    · exact Or.inr he
  funext k
  by_cases hk : k = z.key
  · subst hk
    have : lookup T' z.key = none := lookup_eq_none.mpr fun e he => ((hmem e).mp he).2
    simp [toMap, this]
  rw [Function.update_of_ne hk, toMap, toMap]
  congr 1
  refine ext fun e => ?_
  rw [lookup_eq_some hs', lookup_eq_some hs, hmem]
  constructor
  · rintro ⟨⟨he, -⟩, rfl⟩
    exact ⟨he, rfl⟩
  rintro ⟨he, rfl⟩
  exact ⟨⟨he, hk⟩, rfl⟩

/-- The index an insertion returns is the key's own, or one that no key has. -/
theorem Inserted.index (h : Inserted T key value i T') (hs : Sorted T) :
    match toMap T key with
    | some (old, _) => i = old
    | none => ∀ k v, toMap T k ≠ some (i, v) := by
  rcases h.toList_eq with ⟨L, e, M, hT, hk, hi, -⟩ | ⟨L, M, hT, hL, hM, hi, -⟩
  · have he : lookup T key = some e := (lookup_eq_some hs).mpr ⟨by rw [hT]; simp, hk⟩
    simp [toMap, he, hi]
  have hno : lookup T key = none := by
    refine lookup_eq_none.mpr fun e he => ?_
    rw [hT, mem_append] at he
    rcases he with he | he
    · exact (hL e he).ne
    · exact (hM e he).ne'
  simp only [toMap, hno, map_none]
  intro k v hkv
  obtain ⟨e, he, hev⟩ := map_eq_some_iff.mp hkv
  refine hi (mem_map.mpr ⟨e, ((lookup_eq_some hs).mp he).1, ?_⟩)
  exact (Prod.mk.inj hev).1

end

theorem new_refines : Refines (RedBlackTree.new : RedBlackTree A) (fun _ => none) .nil := by
  have hnone : ∀ i, (RedBlackTree.new : RedBlackTree A).arenaGet i = none := A.get_new
  refine ⟨⟨⟨rfl, ?_, ?_⟩, rfl, fun i hi => ?_, List.Pairwise.nil⟩, rfl, rfl⟩
  · simp only [forall_mem_cons]
    exact ⟨trivial, trivial, by simp⟩
  · simp [ctxChunk, treeChunk, ctxIdxs]
  · rw [hnone i] at hi
    exact absurd hi (by simp)

variable [DecidableEq Idx]

def step (t : RedBlackTree A) : Op K V → Option (RedBlackTree A × Out Idx V)
  | .insert key value => do
    let (t, idx) ← t.insert key value
    some (t, .index idx)
  | .remove key => do
    let (t, old) ← t.remove key
    some (t, .value old)
  | .getMut key f => do
    let (t, old) ← t.getMut key f
    some (t, .value old)

/-- **One step simulates the map.** -/
theorem step_refines {t : RedBlackTree A} {m : OrdMap Idx K V} (op : Op K V)
    (h : ∃ T, Refines t m T) :
    ∃ t' out m', step t op = some (t', out) ∧ MapStep m op out m' ∧ ∃ T', Refines t' m' T' := by
  obtain ⟨T, hm, hroot, rfl⟩ := h
  cases op with
  | insert key value =>
    obtain ⟨t', i, T', e1, hins, hm'⟩ := hm.insert hroot key value
    exact ⟨t', .index i, _, by simp [step, e1],
      ⟨hins.index hm.sorted, (toMap_inserted hins hm.sorted)⟩, T', hm', hins.root_black hroot, rfl⟩
  | remove key =>
    rcases hm.remove hroot key with ⟨hl, e1⟩ | ⟨z, t', T', hl, e1, hrem, hm'⟩
    · refine ⟨t, .value none, toMap T, by simp [step, e1], ⟨by simp [toMap, hl], ?_⟩, T, hm, hroot,
        rfl⟩
      rw [eq_comm, Function.update_eq_self_iff]
      simp [toMap, hl]
    have hk := ((lookup_eq_some hm.sorted).mp hl).2
    refine ⟨t', .value (some z.value), toMap T', by simp [step, e1], ⟨by simp [toMap, hl], ?_⟩,
      T', hm', hrem.root_black hroot, rfl⟩
    rw [← hk]
    exact toMap_removed hrem hm.sorted hm'.sorted
  | getMut key f =>
    rcases hm.getMut key f with ⟨hl, e1⟩ | ⟨e, t', T', hl, e1, hins, hc, hm'⟩
    · refine ⟨t, .value none, toMap T, by simp [step, e1], ⟨by simp [toMap, hl], ?_⟩, T, hm, hroot,
        rfl⟩
      rw [eq_comm, Function.update_eq_self_iff]
      simp [toMap, hl]
    refine ⟨t', .value (some e.value), toMap T', by simp [step, e1], ⟨by simp [toMap, hl], ?_⟩,
      T', hm', hc.trans hroot, rfl⟩
    rw [toMap_inserted hins hm.sorted]
    simp [toMap, hl]

/-- Everything a caller can see of a tree that stands for the map `m`. -/
structure Answers (t : RedBlackTree A) (m : OrdMap Idx K V) : Prop where
  /-- The in-order walk lists exactly the keys of the map, ascending; `min` and `max` are its
      ends. -/
  walk : ∃ L, t.forEachInOrder = some L ∧ (L.map Prod.fst).Pairwise (· < ·) ∧
    (∀ k, k ∈ L.map Prod.fst ↔ (m k).isSome) ∧ t.len = L.length ∧
    t.min = some (L.map Prod.fst).head? ∧ t.max = some (L.map Prod.fst).getLast?
  findNode : ∀ k, t.findNode k = some ((m k).map Prod.fst)
  get : ∀ k, t.get k = some ((m k).map Prod.snd)
  contains : ∀ k, t.contains k = some (m k).isSome
  /-- The index of every entry resolves to its own key and value. -/
  index : ∀ k i v, m k = some (i, v) → ∃ n, t.arenaGet i = some n ∧ n.key = k ∧ n.value = v
  links : LinksOk t

theorem Refines.answers {t : RedBlackTree A} {m : OrdMap Idx K V} {T : Shape Idx K V}
    (h : Refines t m T) : Answers t m := by
  obtain ⟨hm, -, rfl⟩ := h
  have hmap : ∀ {k : K} {o : Option (Entry Idx K V)}, lookup T k = o →
      toMap T k = o.map fun e => (e.idx, e.value) := by
    intro k o ho
    rw [toMap, ho]
  refine ⟨?_, fun k => ?_, fun k => ?_, fun k => ?_, fun k i v hk => ?_, linksOk hm.at_root hm.live⟩
  · obtain ⟨L, hL, hkeys⟩ := hm.forEachInOrder
    refine ⟨L, hL, ?_, fun k => ?_, ?_, ?_, ?_⟩
    · rw [hkeys, List.pairwise_map]
      exact hm.sorted
    · rw [hkeys, List.mem_map]
      cases hl : lookup T k with
      | none =>
        have := lookup_eq_none.mp hl
        rw [hmap hl]
        simpa using this
      | some e =>
        have := (lookup_eq_some hm.sorted).mp hl
        rw [hmap hl]
        simpa using ⟨e, this⟩
    · rw [hm.len, ColorTree.size_eq_length]
      simpa using (congrArg List.length hkeys).symm
    · rw [hkeys, hm.min, List.head?_map]
    · rw [hkeys, hm.max, List.getLast?_map]
  · rw [hm.findNode, hmap rfl, Option.map_map]
    rfl
  · rw [hm.get, hmap rfl, Option.map_map]
    rfl
  · rw [hm.contains, hmap rfl, Option.isSome_map]
  · obtain ⟨e, he, hev⟩ := Option.map_eq_some_iff.mp hk
    obtain ⟨hmem, hkey⟩ := (lookup_eq_some hm.sorted).mp he
    obtain ⟨n, hn, hnk, hnv⟩ := hm.at_root.arenaGet_of_mem hmem
    obtain ⟨rfl, rfl⟩ := Prod.mk.inj hev
    exact ⟨n, hn, hnk.trans hkey, hnv⟩

/-- **The tree refines an ordered map**: every sequence of calls from the empty tree returns, the
    map makes the same calls with the same results, and the tree that is reached answers as the
    map that is reached. -/
theorem run_refines_ordMap (A : GenArena Idx (Node Idx K V)) (ops : List (Op K V)) :
    ∃ t outs m, run step (RedBlackTree.new : RedBlackTree A) ops = some (t, outs) ∧
      Trace MapStep (fun _ => none) ops outs m ∧ Answers t m := by
  obtain ⟨t, outs, m, hrun, htrace, T, hT⟩ :=
    run_sim (R := fun t m => ∃ T, Refines t m T) (fun _ _ op h => step_refines op h) ops
      ⟨.nil, new_refines (A := A)⟩
  exact ⟨t, outs, m, hrun, htrace, hT.answers⟩

end Moose.RbTree
