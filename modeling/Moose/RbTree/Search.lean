import Mathlib.Order.Compare
import Moose.RbTree.Location

/-!
# Lookups

The loops that only read: the descents of `find_node` and `insert`, the walks to either end, the
in-order walk. Each is stated against the shape the arena represents, with the fuel it needs
bounded by the height of the subtree it starts in.
-/

set_option autoImplicit false

namespace Moose.RbTree

open List Lib RedBlackTree ColorTree

variable {Idx K V : Type} {A : GenArena Idx (Node Idx K V)}

variable {T : Shape Idx K V} {e : Entry Idx K V} {t : RedBlackTree A} {key : K}
  {d : RedBlackTree.Descent Idx}

theorem exists_location (he : e ∈ T.toList) : ∃ C c l r, Ctx.plug C (.node c l e r) = T := by
  induction T with
  | nil => exact absurd he (by simp [toList])
  | node c l a r ihl ihr =>
    simp only [toList, mem_append, mem_cons] at he
    rcases he with he | rfl | he
    · obtain ⟨C, c', l', r', rfl⟩ := ihl he
      exact ⟨C ++ [⟨.left, c, a, r⟩], c', l', r', by rw [Ctx.plug_append]; rfl⟩
    · exact ⟨[], c, l, r, rfl⟩
    · obtain ⟨C, c', l', r', rfl⟩ := ihr he
      exact ⟨C ++ [⟨.right, c, a, l⟩], c', l', r', by rw [Ctx.plug_append]; rfl⟩

/-- **Indices stay good**: the index of every entry resolves to its own key and value. -/
theorem At.arenaGet_of_mem (h : At t [] T) (he : e ∈ T.toList) :
    ∃ node, t.arenaGet e.idx = some node ∧ node.key = e.key ∧ node.value = e.value := by
  obtain ⟨C, c, l, r, rfl⟩ := exists_location he
  exact ⟨_, (at_plug.mpr h).get_mk (b := .left), by simp, by simp⟩

/-! ## The two ends and the in-order walk -/

/-- The label at one end of the in-order list. -/
def endOf (T : Shape Idx K V) : Branch → Option (Entry Idx K V)
  | .left => T.toList.head?
  | .right => T.toList.getLast?

theorem endOf_mk (b : Branch) (c : Color) (s u : Shape Idx K V) (e : Entry Idx K V) :
    endOf (.mk b c s e u) b = (endOf s b).or (some e) := by
  cases b with
  | left => cases hs : s.toList <;> simp [endOf, ColorTree.mk, ColorTree.toList, hs]
  | right => simp [endOf, ColorTree.mk, ColorTree.toList, getLast?_append, getLast?_cons]

theorem subtreeEnd_spec {b : Branch} :
    ∀ {n : Nat} {T : Shape Idx K V} {p res : Option Idx}, Rep t.arenaGet p T → T.height ≤ n →
      t.subtreeEnd b n res (rootIdx T) = some (((endOf T b).map Entry.idx).or res) := by
  intro n
  induction n with
  | zero =>
    intro T p res h hn
    cases T with
    | nil => cases b <;> rfl
    | node c l e r => exact absurd hn (by simp [height])
  | succ n ih =>
    intro T p res h hn
    cases T with
    | nil => cases b <;> rfl
    | node c l e r =>
      obtain ⟨s, u, hmk⟩ := exists_mk b c l e r
      have hle : s.height ≤ n := by
        have hh : (mk b c s e u).height ≤ n + 1 := hmk ▸ hn
        cases b <;> simp only [ColorTree.mk, ColorTree.height] at hh <;> omega
      rw [hmk] at h ⊢
      obtain ⟨hg, hs, -⟩ := rep_mk.mp h
      simp only [rootIdx_mk, subtreeEnd, link, hg, some_bind, toNode_link, ih hs hle, endOf_mk]
      cases endOf s b <;> rfl

theorem walkInOrder_spec :
    ∀ {n : Nat} {T : Shape Idx K V} {p : Option Idx}, Rep t.arenaGet p T → T.height ≤ n →
      ∃ L, t.walkInOrder n (rootIdx T) = some L ∧ L.map Prod.fst = T.toList.map Entry.key := by
  intro n
  induction n with
  | zero =>
    intro T p h hn
    cases T with
    | nil => exact ⟨[], rfl, rfl⟩
    | node c l e r => exact absurd hn (by simp [height])
  | succ n ih =>
    intro T p h hn
    cases T with
    | nil => exact ⟨[], rfl, rfl⟩
    | node c l e r =>
      obtain ⟨hg, hl, hr⟩ := h
      simp only [height, Nat.add_le_add_iff_right, sup_le_iff] at hn
      obtain ⟨L, hL, hL'⟩ := ih hl hn.1
      obtain ⟨R, hR, hR'⟩ := ih hr hn.2
      refine ⟨L ++ (e.key, c) :: R, ?_, by simp [toList, hL', hR']⟩
      simp [walkInOrder, hg, Entry.toNode, hL, hR]

/-! ## The ordered descent -/

variable [LinearOrder K]

/-- The in-order list is strictly ascending. -/
def Sorted (T : Shape Idx K V) : Prop := T.toList.Pairwise fun a b => a.key < b.key

/-- `key` belongs into the hole of `C`. -/
def Around (C : Ctx (Entry Idx K V)) (key : K) : Prop :=
  (∀ e ∈ C.before, e.key < key) ∧ ∀ e ∈ C.after, key < e.key

theorem around_nil (key : K) : Around ([] : Ctx (Entry Idx K V)) key := by
  constructor <;> intro e he <;> exact absurd he (by simp [Ctx.before, Ctx.after])

/-- The side the path took is the one the comparison chooses. -/
theorem Around.side {f : ColorTree.Frame (Entry Idx K V)} {C : Ctx (Entry Idx K V)}
    (h : Around (f :: C) key) :
    (if key < f.label.key then Branch.left else Branch.right) = f.side := by
  cases hs : f.side with
  | left => exact if_pos (h.2 f.label (by simp [Ctx.after, hs]))
  | right => exact if_neg (not_lt_of_gt (h.1 f.label (by simp [Ctx.before, hs])))

section

variable {C : Ctx (Entry Idx K V)} {c : Color} {l r : Shape Idx K V} {e : Entry Idx K V} {key : K}

theorem Sorted.of_plug {T : Shape Idx K V} (h : Sorted (C.plug T)) : Sorted T := by
  unfold Sorted at h ⊢
  rw [Ctx.toList_plug, pairwise_append, pairwise_append] at h
  exact h.1.2.1

theorem Around.left (h : Around C key) (hs : Sorted (.node c l e r)) (hlt : key < e.key) :
    Around (⟨.left, c, e, r⟩ :: C) key := by
  refine ⟨h.1, fun a ha => ?_⟩
  simp only [Ctx.after, cons_append, mem_cons, mem_append] at ha
  rcases ha with rfl | ha | ha
  · exact hlt
  · exact hlt.trans ((pairwise_cons.mp (pairwise_append.mp hs).2.1).1 a ha)
  · exact h.2 a ha

theorem Around.right (h : Around C key) (hs : Sorted (.node c l e r)) (hgt : e.key < key) :
    Around (⟨.right, c, e, l⟩ :: C) key := by
  refine ⟨fun a ha => ?_, h.2⟩
  simp only [Ctx.before, mem_append, mem_singleton] at ha
  rcases ha with (ha | ha) | rfl
  · exact h.1 a ha
  · exact ((pairwise_append.mp hs).2.2 a ha e (by simp)).trans hgt
  · exact hgt

end

/-- Where the descent for `key` ends: at its entry, or in the hole it belongs into. -/
inductive Located (T : Shape Idx K V) (key : K) : RedBlackTree.Descent Idx → Prop
  | found {C : Ctx (Entry Idx K V)} {c : Color} {l r : Shape Idx K V} {e : Entry Idx K V} :
      C.plug (.node c l e r) = T → e.key = key → Located T key (.found e.idx)
  | missing {C : Ctx (Entry Idx K V)} :
      C.plug .nil = T → Around C key → Located T key (.missing (parentIdx C))

theorem descend_spec :
    ∀ {C : Ctx (Entry Idx K V)} {n : Nat}, At t C T → Sorted (C.plug T) → Around C key →
      T.height ≤ n →
      ∃ d, t.descend key n (parentIdx C) (rootIdx T) = some d ∧ Located (C.plug T) key d := by
  -- follows the path: each comparison pushes one frame
  induction T with
  | nil =>
    intro C n _ _ ha _
    exact ⟨_, by cases n <;> rfl, .missing rfl ha⟩
  | node c l e r ihl ihr =>
    intro C n h hs ha hn
    cases n with
    | zero => exact absurd hn (by simp [height])
    | succ n =>
      have hg : t.arenaGet e.idx = _ := h.get_mk (b := .left)
      have hso := hs.of_plug
      simp only [height, Nat.add_le_add_iff_right, sup_le_iff] at hn
      simp only [rootIdx_node, descend, hg, some_bind, toNode_key]
      cases hc : compare key e.key with
      | lt =>
        have hlt := compare_lt_iff_lt.mp hc
        exact ihl (C := ⟨.left, c, e, r⟩ :: C) (at_cons.mpr h) hs (ha.left hso hlt) hn.1
      | eq => exact ⟨_, rfl, .found rfl (compare_eq_iff_eq.mp hc).symm⟩
      | gt =>
        have hgt := compare_gt_iff_gt.mp hc
        exact ihr (C := ⟨.right, c, e, l⟩ :: C) (at_cons.mpr h) hs (ha.right hso hgt) hn.2

/-- `find_node` takes the path `insert` takes. -/
theorem findLoop_eq : ∀ {n : Nat} {p o : Option Idx}, t.descend key n p o = some d →
      t.findLoop key n o = some (match d with | .found idx => some idx | .missing _ => none) := by
  intro n
  induction n with
  | zero =>
    intro p o h
    cases o with
    | none => cases h; rfl
    | some i => exact absurd h (by simp [descend])
  | succ n ih =>
    intro p o h
    cases o with
    | none => cases h; rfl
    | some i =>
      simp only [descend, bind_eq_some] at h
      obtain ⟨node, hnode, h⟩ := h
      simp only [findLoop, hnode, some_bind]
      cases hc : compare key node.key with
      | lt => rw [hc] at h; exact ih h
      | eq => rw [hc] at h; cases h; rfl
      | gt => rw [hc] at h; exact ih h

/-- In a strictly ascending list a key determines its entry. -/
theorem Sorted.key_inj (hs : Sorted T) {a b : Entry Idx K V}
    (ha : a ∈ T.toList) (hb : b ∈ T.toList) (hk : a.key = b.key) : a = b := by
  have hnd : (T.toList.map Entry.key).Nodup := pairwise_map.mpr (List.Pairwise.imp ne_of_lt hs)
  exact inj_on_of_nodup_map hnd ha hb hk

theorem Located.of_mem (hs : Sorted T) (h : Located T key d) (he : e ∈ T.toList)
    (hk : e.key = key) : d = .found e.idx := by
  cases h with
  | @found C c l r a hT ha =>
    have hmem : a ∈ T.toList := by
      rw [← hT, Ctx.toList_plug]
      simp [toList]
    rw [hs.key_inj hmem he (ha.trans hk.symm)]
  | @missing C hT ha =>
    rw [← hT, Ctx.toList_plug] at he
    simp only [toList, append_nil, mem_append] at he
    rcases he with he | he
    · exact absurd hk (ha.1 e he).ne
    · exact absurd hk (ha.2 e he).ne'

theorem Located.of_notMem (h : Located T key d) (hno : ∀ e ∈ T.toList, e.key ≠ key) :
    ∃ C : Ctx (Entry Idx K V), C.plug .nil = T ∧ Around C key ∧ d = .missing (parentIdx C) := by
  cases h with
  | @found C c l r a hT ha =>
    refine absurd ha (hno a ?_)
    rw [← hT, Ctx.toList_plug]
    simp [toList]
  | @missing C hT ha => exact ⟨C, hT, ha, rfl⟩

/-! ## The whole tree -/

/-- The arena of `t` holds exactly the tree `T`: its entries in order, its length, and no other
    live index. -/
structure Models (t : RedBlackTree A) (T : Shape Idx K V) : Prop where
  at_root : At t [] T
  len : t.len = T.size
  live : ∀ i, (t.arenaGet i).isSome → i ∈ idxs T
  sorted : Sorted T

section

variable {t : RedBlackTree A} {T : Shape Idx K V}

theorem Models.root_eq (h : Models t T) : t.root = rootIdx T := h.at_root.root

theorem Models.height_le_fuel (h : Models t T) : T.height ≤ t.fuel := by
  have := T.height_le_size
  rw [fuel, h.len]
  omega

theorem Models.descend (h : Models t T) (key : K) :
    ∃ d, t.descend key t.fuel none t.root = some d ∧ Located T key d := by
  rw [h.root_eq]
  exact descend_spec (C := []) h.at_root h.sorted (around_nil key) h.height_le_fuel

def lookup (T : Shape Idx K V) (key : K) : Option (Entry Idx K V) :=
  T.toList.find? (·.key = key)

theorem lookup_eq_some (hs : Sorted T) {key : K} {e : Entry Idx K V} :
    lookup T key = some e ↔ e ∈ T.toList ∧ e.key = key := by
  constructor
  · intro h
    exact ⟨mem_of_find?_eq_some h, by simpa using find?_some h⟩
  rintro ⟨he, hk⟩
  cases hf : lookup T key with
  | none => exact absurd hk (by simpa using find?_eq_none.mp hf e he)
  | some a =>
    have hk' : a.key = key := by simpa using find?_some hf
    rw [hs.key_inj (mem_of_find?_eq_some hf) he (hk'.trans hk.symm)]

theorem lookup_eq_none {key : K} : lookup T key = none ↔ ∀ e ∈ T.toList, e.key ≠ key := by
  simp [lookup]

theorem Models.findNode (h : Models t T) (key : K) :
    t.findNode key = some ((lookup T key).map Entry.idx) := by
  obtain ⟨d, hd, hloc⟩ := h.descend key
  rw [RedBlackTree.findNode, findLoop_eq hd]
  cases hl : lookup T key with
  | none =>
    obtain ⟨C, -, -, rfl⟩ := hloc.of_notMem (lookup_eq_none.mp hl)
    rfl
  | some e =>
    obtain ⟨he, hk⟩ := (lookup_eq_some h.sorted).mp hl
    rw [hloc.of_mem h.sorted he hk]
    rfl

theorem Models.get (h : Models t T) (key : K) :
    t.get key = some ((lookup T key).map Entry.value) := by
  rw [RedBlackTree.get, h.findNode]
  cases hl : lookup T key with
  | none => rfl
  | some e =>
    obtain ⟨n, hn, -, hv⟩ := h.at_root.arenaGet_of_mem ((lookup_eq_some h.sorted).mp hl).1
    simp [hn, hv]

theorem Models.contains (h : Models t T) (key : K) :
    t.contains key = some (lookup T key).isSome := by
  rw [RedBlackTree.contains, h.findNode]
  simp

end

section

variable {t : RedBlackTree A} {T : Shape Idx K V}

theorem Models.keyAt_end (h : Models t T) (b : Branch) :
    t.keyAt ((endOf T b).map Entry.idx) = some ((endOf T b).map Entry.key) := by
  cases he : endOf T b with
  | none => rfl
  | some e =>
    have hmem : e ∈ T.toList := by
      cases b with
      | left => exact mem_of_head? he
      | right => exact mem_of_getLast? he
    obtain ⟨n, hn, hk, -⟩ := h.at_root.arenaGet_of_mem hmem
    simp [keyAt, hn, hk]

theorem Models.subtreeEnd (h : Models t T) (b : Branch) :
    t.subtreeEnd b t.fuel t.root t.root = some ((endOf T b).map Entry.idx) := by
  rw [h.root_eq, subtreeEnd_spec h.at_root.sub h.height_le_fuel]
  cases T with
  | nil => cases b <;> rfl
  | node c l e r =>
    obtain ⟨s, u, hmk⟩ := exists_mk b c l e r
    rw [hmk, endOf_mk]
    cases endOf s b <;> rfl

theorem Models.min (h : Models t T) : t.min = some (T.toList.head?.map Entry.key) := by
  simp only [RedBlackTree.min, RedBlackTree.subtreeMin, h.subtreeEnd, some_bind]
  exact h.keyAt_end .left

theorem Models.max (h : Models t T) : t.max = some (T.toList.getLast?.map Entry.key) := by
  simp only [RedBlackTree.max, RedBlackTree.subtreeMax, h.subtreeEnd, some_bind]
  exact h.keyAt_end .right

theorem Models.forEachInOrder (h : Models t T) :
    ∃ L, t.forEachInOrder = some L ∧ L.map Prod.fst = T.toList.map Entry.key := by
  rw [RedBlackTree.forEachInOrder, h.root_eq]
  exact walkInOrder_spec h.at_root.sub h.height_le_fuel

end
end Moose.RbTree
