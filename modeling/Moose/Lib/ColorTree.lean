import Mathlib.Order.Lattice
import Mathlib.Data.List.Nodup
import Mathlib.Tactic.Ring
import Mathlib.Tactic.Linarith

/-!
# Two-coloured binary trees and their zippers

The pure half of a red-black tree: shapes, colours, the in-order list, and a tree with a
hole. Nothing here mentions memory. A development that keeps its nodes in a store relates the
store to a `ColorTree` once, and argues about balance and order here.

The mirror-image cases of a balancing algorithm are the same case up to a `Branch`, so a node
is written `ColorTree.mk b c near a far` — `near` hangs on side `b` — and every lemma about a
rotation is stated once, for both sides.

A location inside a tree is a context (`Ctx`, the path to the hole, innermost frame first) and
the subtree that stands there; `Ctx.plug` puts the two together.
-/

set_option autoImplicit false

namespace Moose.Lib

open List

/-- Node colour. A missing child counts as black. -/
inductive Color where
  | red
  | black
  deriving DecidableEq

inductive Branch where
  | left
  | right
  deriving DecidableEq

def Branch.opposite : Branch → Branch
  | .left => .right
  | .right => .left

@[simp] theorem Branch.opposite_opposite (b : Branch) : b.opposite.opposite = b := by
  cases b <;> rfl

theorem Branch.eq_or_opposite (b d : Branch) : d = b ∨ d = b.opposite := by
  cases b <;> cases d <;> simp [opposite]

/-- A binary tree whose nodes carry a colour and a label. -/
inductive ColorTree (α : Type) where
  | nil
  | node (c : Color) (l : ColorTree α) (a : α) (r : ColorTree α)
  deriving DecidableEq

namespace ColorTree

variable {α : Type}

def toList : ColorTree α → List α
  | nil => []
  | node _ l a r => l.toList ++ a :: r.toList

def size : ColorTree α → Nat
  | nil => 0
  | node _ l _ r => l.size + 1 + r.size

/-- Number of nodes on the longest path down. -/
def height : ColorTree α → Nat
  | nil => 0
  | node _ l _ r => max l.height r.height + 1

def top? : ColorTree α → Option α
  | nil => none
  | node _ _ a _ => some a

/-- The colour of the top; a missing child is black. -/
def rootColor : ColorTree α → Color
  | nil => .black
  | node c _ _ _ => c

def paint (c : Color) : ColorTree α → ColorTree α
  | nil => nil
  | node _ l a r => node c l a r

/-- The node with `near` on side `b` and `far` on the other. -/
def mk (b : Branch) (c : Color) (near : ColorTree α) (a : α) (far : ColorTree α) : ColorTree α :=
  match b with
  | .left => node c near a far
  | .right => node c far a near

theorem mk_opposite (b : Branch) (c : Color) (s t : ColorTree α) (a : α) :
    mk b.opposite c s a t = mk b c t a s := by
  cases b <;> rfl

theorem exists_mk (b : Branch) (c : Color) (l : ColorTree α) (a : α) (r : ColorTree α) :
    ∃ near far, node c l a r = mk b c near a far := by
  cases b
  · exact ⟨l, r, rfl⟩
  · exact ⟨r, l, rfl⟩

@[simp] theorem top?_mk (b : Branch) (c : Color) (s t : ColorTree α) (a : α) :
    (mk b c s a t).top? = some a := by
  cases b <;> rfl

@[simp] theorem rootColor_mk (b : Branch) (c : Color) (s t : ColorTree α) (a : α) :
    (mk b c s a t).rootColor = c := by
  cases b <;> rfl

@[simp] theorem mk_ne_nil (b : Branch) (c : Color) (s t : ColorTree α) (a : α) :
    mk b c s a t ≠ nil := by
  cases b <;> simp [mk]

@[simp] theorem size_mk (b : Branch) (c : Color) (s t : ColorTree α) (a : α) :
    (mk b c s a t).size = s.size + 1 + t.size := by
  cases b <;> simp [mk, size]; omega

@[simp] theorem paint_mk (b : Branch) (c c' : Color) (s t : ColorTree α) (a : α) :
    (mk b c s a t).paint c' = mk b c' s a t := by
  cases b <;> rfl

@[simp] theorem toList_paint (c : Color) (t : ColorTree α) : (t.paint c).toList = t.toList := by
  cases t <;> rfl

@[simp] theorem top?_paint (c : Color) (t : ColorTree α) : (t.paint c).top? = t.top? := by
  cases t <;> rfl

theorem size_eq_length (t : ColorTree α) : t.size = t.toList.length := by
  induction t with
  | nil => rfl
  | node c l a r ihl ihr =>
    simp only [size, toList, length_append, length_cons, ihl, ihr]
    omega

theorem height_le_size (t : ColorTree α) : t.height ≤ t.size := by
  induction t with
  | nil => exact Nat.le_refl _
  | node c l a r ihl ihr => simp only [height, size]; omega

theorem top?_eq_none {t : ColorTree α} : t.top? = none ↔ t = nil := by
  cases t <;> simp [top?]

/-! ## A tree with a hole -/

/-- One step of a path: the node passed, the side the path went down, and the subtree on the
    side it did not. -/
structure Frame (α : Type) where
  side : Branch
  color : Color
  label : α
  sib : ColorTree α

end ColorTree

open ColorTree

/-- A path from a hole to the root, innermost frame first. -/
abbrev Ctx (α : Type) := List (ColorTree.Frame α)

namespace Ctx

variable {α : Type}

def plug : Ctx α → ColorTree α → ColorTree α
  | [], t => t
  | f :: C, t => plug C (mk f.side f.color t f.label f.sib)

def parent? (C : Ctx α) : Option α := C.head?.map (·.label)

def before : Ctx α → List α
  | [] => []
  | f :: C => match f.side with
    | .left => before C
    | .right => before C ++ f.sib.toList ++ [f.label]

def after : Ctx α → List α
  | [] => []
  | f :: C => match f.side with
    | .left => f.label :: f.sib.toList ++ after C
    | .right => after C

@[simp] theorem plug_nil (t : ColorTree α) : plug [] t = t := rfl

theorem plug_cons (f : Frame α) (C : Ctx α) (t : ColorTree α) :
    plug (f :: C) t = plug C (mk f.side f.color t f.label f.sib) := rfl

theorem plug_append (C D : Ctx α) (t : ColorTree α) : plug (C ++ D) t = plug D (plug C t) := by
  induction C generalizing t with
  | nil => rfl
  | cons f C ih => simp [plug, ih]

/-- The in-order list around a location. -/
theorem toList_plug (C : Ctx α) (t : ColorTree α) :
    (plug C t).toList = before C ++ t.toList ++ after C := by
  induction C generalizing t with
  | nil => simp [plug, before, after]
  | cons f C ih =>
    rw [plug_cons, ih]
    cases hs : f.side <;> simp [before, after, hs, mk, toList]

theorem before_append (C D : Ctx α) : before (C ++ D) = before D ++ before C := by
  induction C with
  | nil => simp [before]
  | cons f C ih => cases hs : f.side <;> simp [before, hs, ih]

variable {t : ColorTree α}

/-- A tree that is not empty, at its first label. -/
theorem exists_leftmost (h : t ≠ .nil) : ∃ (D : Ctx α) (c : Color) (a : α) (r : ColorTree α),
      before D = [] ∧ t = plug D (.node c .nil a r) := by
  induction t with
  | nil => exact absurd rfl h
  | node c l a r ihl _ =>
    by_cases hl : l = .nil
    · exact ⟨[], c, a, r, rfl, by rw [hl]; rfl⟩
    obtain ⟨D, c', a', r', hD, rfl⟩ := ihl hl
    refine ⟨D ++ [⟨.left, c, a, r⟩], c', a', r', ?_, ?_⟩
    · rw [before_append, hD]
      rfl
    rw [plug_append]
    rfl

/-- Replacing a subtree by one with the same in-order list keeps the whole list. -/
theorem toList_plug_congr {s t : ColorTree α} (C : Ctx α) (h : s.toList = t.toList) :
    (plug C s).toList = (plug C t).toList := by
  rw [toList_plug, toList_plug, h]

theorem rootColor_plug_cons (f : Frame α) (C : Ctx α) (s t : ColorTree α) :
    (plug (f :: C) s).rootColor = (plug (f :: C) t).rootColor := by
  induction C generalizing f s t with
  | nil => simp [plug]
  | cons g C ih => rw [plug_cons, plug_cons]; exact ih g _ _

theorem plug_ne_nil (C : Ctx α) (h : t ≠ .nil) : plug C t ≠ .nil := by
  induction C generalizing t with
  | nil => exact h
  | cons f C ih => exact ih (mk_ne_nil _ _ _ _ _)

theorem size_le_plug (C : Ctx α) (t : ColorTree α) : t.size ≤ (plug C t).size := by
  rw [size_eq_length, size_eq_length, toList_plug]
  simp only [length_append]
  omega

/-- A path is never longer than the tree has nodes. -/
theorem length_add_size_le (C : Ctx α) (t : ColorTree α) : C.length + t.size ≤ (plug C t).size := by
  induction C generalizing t with
  | nil => simp [plug]
  | cons f C ih =>
    have h := ih (mk f.side f.color t f.label f.sib)
    rw [size_mk] at h
    simp only [plug_cons, length_cons]
    omega

end Ctx

namespace ColorTree

variable {α : Type}

/-! ## The red-black shape -/

def NoRedRed : ColorTree α → Prop
  | nil => True
  | node c l _ r =>
      (c = .red → l.rootColor = .black ∧ r.rootColor = .black) ∧ NoRedRed l ∧ NoRedRed r

/-- For every missing child, how many black nodes the path from the top to it crosses. -/
def blackCounts : ColorTree α → List Nat
  | nil => [0]
  | node c l _ r =>
      (blackCounts l ++ blackCounts r).map (· + if c = .black then 1 else 0)

/-- Every path to a missing child crosses the same number of black nodes. -/
def SameBlackCount (t : ColorTree α) : Prop := ∀ m ∈ t.blackCounts, ∀ n ∈ t.blackCounts, m = n

/-- A red-black tree: black root, no red node with a red child, one black count. -/
structure IsRedBlack (t : ColorTree α) : Prop where
  root : t.rootColor = .black
  noRedRed : t.NoRedRed
  sameCount : t.SameBlackCount

instance (t : ColorTree α) : Decidable t.SameBlackCount :=
  inferInstanceAs (Decidable (∀ m ∈ t.blackCounts, ∀ n ∈ t.blackCounts, m = n))

/-- `Balanced t c n`: the top has colour `c`, no red node has a red child, and every path to a
    missing child crosses `n` black nodes. The inductive form of `NoRedRed ∧ SameBlackCount`. -/
inductive Balanced : ColorTree α → Color → Nat → Prop
  | nil : Balanced nil .black 0
  | red {l r : ColorTree α} {a : α} {n : Nat} :
      Balanced l .black n → Balanced r .black n → Balanced (node .red l a r) .red n
  | black {l r : ColorTree α} {a : α} {c d : Color} {n : Nat} :
      Balanced l c n → Balanced r d n → Balanced (node .black l a r) .black (n + 1)

variable {t s : ColorTree α} {c : Color} {n : Nat} {b : Branch} {a : α}

theorem Balanced.rootColor_eq (h : Balanced t c n) : t.rootColor = c := by
  cases h <;> rfl

theorem Balanced.noRedRed (h : Balanced t c n) : t.NoRedRed := by
  induction h with
  | nil => trivial
  | red hl hr ihl ihr => exact ⟨fun _ => ⟨hl.rootColor_eq, hr.rootColor_eq⟩, ihl, ihr⟩
  | black _ _ ihl ihr => exact ⟨fun h => absurd h (by simp), ihl, ihr⟩

theorem Balanced.blackCounts_eq (h : Balanced t c n) : ∀ m ∈ t.blackCounts, m = n := by
  induction h with
  | nil => simp [blackCounts]
  | red _ _ ihl ihr =>
    intro m hm
    simp only [blackCounts, reduceCtorEq, if_false, Nat.add_zero, map_id', mem_append]
      at hm
    rcases hm with hm | hm
    · exact ihl m hm
    · exact ihr m hm
  | black _ _ ihl ihr =>
    intro m hm
    simp only [blackCounts, if_true, mem_map, mem_append] at hm
    obtain ⟨k, hk | hk, rfl⟩ := hm
    · rw [ihl k hk]
    · rw [ihr k hk]

theorem blackCounts_ne_nil (t : ColorTree α) : t.blackCounts ≠ [] := by
  induction t with
  | nil => simp [blackCounts]
  | node c l a r ihl ihr => simp [blackCounts, ihl]

/-- Conversely, a tree with no red-red edge and one black count is `Balanced`. -/
theorem balanced_of_counts (hrr : t.NoRedRed) :
    ∀ {n : Nat}, (∀ m ∈ t.blackCounts, m = n) → Balanced t t.rootColor n := by
  induction t with
  | nil =>
    intro n h
    rw [← h 0 (by simp [blackCounts])]
    exact .nil
  | node c l a r ihl ihr =>
    obtain ⟨hcol, hl, hr⟩ := hrr
    intro n h
    cases c with
    | red =>
      simp only [blackCounts, reduceCtorEq, if_false, Nat.add_zero, map_id',
        mem_append] at h
      have hl' := ihl hl fun m hm => h m (Or.inl hm)
      have hr' := ihr hr fun m hm => h m (Or.inr hm)
      rw [(hcol rfl).1] at hl'
      rw [(hcol rfl).2] at hr'
      exact .red hl' hr'
    | black =>
      simp only [blackCounts, if_true, mem_map, mem_append] at h
      obtain ⟨k, hk⟩ := exists_mem_of_ne_nil _ l.blackCounts_ne_nil
      obtain rfl : k + 1 = n := h (k + 1) ⟨k, Or.inl hk, rfl⟩
      refine .black (ihl hl fun m hm => ?_) (ihr hr fun m hm => ?_)
      · have := h (m + 1) ⟨m, Or.inl hm, rfl⟩; omega
      · have := h (m + 1) ⟨m, Or.inr hm, rfl⟩; omega

theorem isRedBlack_iff : t.IsRedBlack ↔ ∃ n, Balanced t .black n := by
  constructor
  · rintro ⟨hroot, hrr, hsame⟩
    obtain ⟨k, hk⟩ := exists_mem_of_ne_nil _ t.blackCounts_ne_nil
    have h := balanced_of_counts hrr (n := k) fun m hm => hsame m hm k hk
    rw [hroot] at h
    exact ⟨k, h⟩
  · rintro ⟨n, h⟩
    exact ⟨h.rootColor_eq, h.noRedRed, fun m hm k hk => by
      rw [h.blackCounts_eq m hm, h.blackCounts_eq k hk]⟩

theorem Balanced.mk_red (hs : Balanced s .black n) (ht : Balanced t .black n) :
    Balanced (mk b .red s a t) .red n := by
  cases b
  · exact .red hs ht
  · exact .red ht hs

theorem Balanced.mk_black {c d : Color} (hs : Balanced s c n) (ht : Balanced t d n) :
    Balanced (mk b .black s a t) .black (n + 1) := by
  cases b
  · exact .black hs ht
  · exact .black ht hs

theorem Balanced.of_mk_red (h : Balanced (mk b .red s a t) c n) :
    c = .red ∧ Balanced s .black n ∧ Balanced t .black n := by
  cases b with
  | left => cases h with | red hl hr => exact ⟨rfl, hl, hr⟩
  | right => cases h with | red hl hr => exact ⟨rfl, hr, hl⟩

/-- Painting the top of a red subtree black adds one to its black count. -/
theorem Balanced.paint_black (h : Balanced t .red n) :
    Balanced (t.paint .black) .black (n + 1) := by
  cases h with | red hl hr => exact .black hl hr

/-- Without black nodes a subtree is empty or a single red node. -/
theorem Balanced.zero (h : Balanced t c 0) : t = .nil ∨ ∃ a, t = .node .red .nil a .nil := by
  cases h with
  | nil => exact Or.inl rfl
  | red hl hr =>
    cases hl
    cases hr
    exact Or.inr ⟨_, rfl⟩

/-! ## The height bound -/

/-- The height a balanced tree of a given colour and black count can reach. -/
def maxHeight : Color → Nat → Nat
  | .red, n => 2 * n + 1
  | .black, n => 2 * n

/-- The exponent of the size a balanced tree of a given colour must have. -/
def minLog : Color → Nat → Nat
  | .red, n => n + 1
  | .black, n => n

theorem Balanced.height_le (h : Balanced t c n) : t.height ≤ maxHeight c n := by
  induction h with
  | nil => exact Nat.le_refl _
  | red _ _ ihl ihr => simp only [height, maxHeight] at *; omega
  | @black l r _ c d n _ _ ihl ihr =>
    have hc : maxHeight c n ≤ 2 * n + 1 := by cases c <;> simp [maxHeight]
    have hd : maxHeight d n ≤ 2 * n + 1 := by cases d <;> simp [maxHeight]
    simp only [height]
    simp only [maxHeight]
    omega

theorem Balanced.pow_le_size (h : Balanced t c n) : 2 ^ minLog c n ≤ t.size + 1 := by
  induction h with
  | nil => exact Nat.le_refl _
  | red _ _ ihl ihr =>
    simp only [minLog, size] at *
    rw [Nat.pow_succ]
    omega
  | @black l r _ c d n _ _ ihl ihr =>
    have hc : 2 ^ n ≤ 2 ^ minLog c n :=
      Nat.pow_le_pow_right (by decide) (by cases c <;> simp [minLog])
    have hd : 2 ^ n ≤ 2 ^ minLog d n :=
      Nat.pow_le_pow_right (by decide) (by cases d <;> simp [minLog])
    simp only [minLog, size]
    rw [Nat.pow_succ]
    omega

/-- A red-black tree of `n` nodes has height at most `2 log₂ (n + 1)`, as an inequality of
    natural numbers. -/
theorem IsRedBlack.pow_height_le (h : t.IsRedBlack) : 2 ^ t.height ≤ (t.size + 1) ^ 2 := by
  obtain ⟨n, hb⟩ := isRedBlack_iff.mp h
  calc 2 ^ t.height ≤ 2 ^ (2 * n) := Nat.pow_le_pow_right (by decide) hb.height_le
    _ = (2 ^ n) ^ 2 := by rw [Nat.mul_comm, Nat.pow_mul]
    _ ≤ (t.size + 1) ^ 2 := Nat.pow_le_pow_left hb.pow_le_size 2

end ColorTree

namespace Ctx

variable {α : Type}

open ColorTree

/-! ## Contexts of a red-black tree -/

/-- `CtxOk C c n`: a tree with top colour `c` and black count `n` in the hole makes a red-black
    tree. Under a red frame only black fits; under a black frame both colours do. -/
inductive CtxOk : Ctx α → Color → Nat → Prop
  | root {n : Nat} : CtxOk [] .black n
  | red {b : Branch} {a : α} {s : ColorTree α} {C : Ctx α} {n : Nat} :
      Balanced s .black n → CtxOk C .red n → CtxOk (⟨b, .red, a, s⟩ :: C) .black n
  | black {b : Branch} {a : α} {s : ColorTree α} {C : Ctx α} {c d : Color} {n : Nat} :
      Balanced s d n → CtxOk C .black (n + 1) → CtxOk (⟨b, .black, a, s⟩ :: C) c n

variable {C : Ctx α} {c : Color} {n : Nat}

/-- A hole that takes a red top takes a black one. -/
theorem CtxOk.toBlack (h : CtxOk C c n) : CtxOk C .black n := by
  cases h with
  | root => exact .root
  | red hs hC => exact .red hs hC
  | black hs hC => exact .black hs hC

theorem CtxOk.plug (h : CtxOk C c n) :
    ∀ {t : ColorTree α}, Balanced t c n → (Ctx.plug C t).IsRedBlack := by
  induction h with
  | root => exact fun ht => isRedBlack_iff.mpr ⟨_, ht⟩
  | red hs _ ih => exact fun ht => ih (Balanced.mk_red ht hs)
  | black hs _ ih => exact fun ht => ih (Balanced.mk_black ht hs)

/-- Reading a red-black tree at a location: the subtree is balanced and its context fits. -/
theorem ctxOk_of_isRedBlack {t : ColorTree α} (h : (plug C t).IsRedBlack) :
    ∃ c n, Balanced t c n ∧ CtxOk C c n := by
  induction C generalizing t with
  | nil =>
    obtain ⟨n, hb⟩ := isRedBlack_iff.mp h
    exact ⟨_, n, hb, .root⟩
  | cons f C ih =>
    obtain ⟨b, col, a, s⟩ := f
    obtain ⟨c, n, hb, hC⟩ := ih (t := mk b col t a s) h
    cases b with
    | left =>
      cases hb with
      | red hl hr => exact ⟨_, _, hl, .red hr hC⟩
      | black hl hr => exact ⟨_, _, hl, .black hr hC⟩
    | right =>
      cases hb with
      | red hl hr => exact ⟨_, _, hr, .red hl hC⟩
      | black hl hr => exact ⟨_, _, hr, .black hl hC⟩

/-- Below the root the sibling fixes the black count a hole asks for. -/
theorem CtxOk.eq_nil_of_ne {c d : Color} {m n : Nat} (h : CtxOk C c m)
    (h' : CtxOk C d n) (hne : m ≠ n) : C = [] := by
  have hcount : ∀ {s : ColorTree α} {c d : Color}, Balanced s c m → Balanced s d n → m = n := by
    intro s c d hm hn
    obtain ⟨k, hk⟩ := exists_mem_of_ne_nil _ s.blackCounts_ne_nil
    rw [← hm.blackCounts_eq k hk, hn.blackCounts_eq k hk]
  cases h with
  | root => rfl
  | red hs _ => cases h' with | red hs' _ => exact absurd (hcount hs hs') hne
  | black hs _ => cases h' with | black hs' _ => exact absurd (hcount hs hs') hne

/-- The black count of a context does not look at labels. -/
theorem CtxOk.relabel {C D : Ctx α} {b : Branch} {col : Color} {a a' : α} {s : ColorTree α} :
    ∀ {c : Color} {n : Nat}, CtxOk (D ++ ⟨b, col, a, s⟩ :: C) c n →
      CtxOk (D ++ ⟨b, col, a', s⟩ :: C) c n := by
  induction D with
  | nil =>
    intro c n h
    cases h with
    | red hs hC => exact .red hs hC
    | black hs hC => exact .black hs hC
  | cons f D ih =>
    intro c n h
    cases h with
    | red hs hC => exact .red hs (ih hC)
    | black hs hC => exact .black hs (ih hC)

/-! ## Rebalancing after an insertion

`T` has a red top and sits in the hole of `C`; the only broken rule is a possibly red parent. One
constructor per case of the bottom-up algorithm, `b` being the side of the grandparent the pair
hangs on. -/

/-- `Rebalance C T R`: repairing the red top of `T` in `C` gives `R`, up to the colour of `R`'s
    root. -/
inductive Rebalance : Ctx α → ColorTree α → ColorTree α → Prop
  | root {T : ColorTree α} : Rebalance [] T T
  | blackParent {f : Frame α} {C : Ctx α} {T : ColorTree α} :
      f.color = .black → Rebalance (f :: C) T (plug (f :: C) T)
  | redUncle {b d : Branch} {c : Color} {p g : α} {s u T R : ColorTree α} {C : Ctx α} :
      u.rootColor = .red →
      Rebalance C (mk b .red (mk d .black T p s) g (u.paint .black)) R →
      Rebalance (⟨d, .red, p, s⟩ :: ⟨b, c, g, u⟩ :: C) T R
  | line {b : Branch} {c : Color} {p g : α} {s u T : ColorTree α} {C : Ctx α} :
      u.rootColor = .black →
      Rebalance (⟨b, .red, p, s⟩ :: ⟨b, c, g, u⟩ :: C) T
        (plug C (mk b .black T p (mk b .red s g u)))
  | triangle {b : Branch} {c cz : Color} {p g z : α} {s u T T' : ColorTree α} {C : Ctx α} :
      u.rootColor = .black →
      Rebalance (⟨b.opposite, .red, p, s⟩ :: ⟨b, c, g, u⟩ :: C) (mk b cz T z T')
        (plug C (mk b .black (mk b .red s p T) z (mk b .red T' g u)))

theorem Rebalance.toList_eq {T R : ColorTree α} (h : Rebalance C T R) :
    R.toList = (plug C T).toList := by
  induction h with
  | root => rfl
  | blackParent _ => rfl
  | @redUncle b d c p g s u T R C _ _ ih =>
    rw [ih, plug_cons, plug_cons]
    apply toList_plug_congr
    cases b <;> cases d <;> simp [mk, toList]
  | @line b c p g s u T C _ =>
    rw [plug_cons, plug_cons]
    apply toList_plug_congr
    cases b <;> simp [mk, toList]
  | @triangle b c cz p g z s u T T' C _ =>
    rw [plug_cons, plug_cons]
    apply toList_plug_congr
    cases b <;> simp [mk, toList, Branch.opposite]

theorem paint_of_isRedBlack {t : ColorTree α} (h : t.IsRedBlack) : t.paint .black = t := by
  cases t with
  | nil => rfl
  | node c l a r =>
    have hc : c = .black := h.root
    rw [hc]
    rfl

/-- **Insertion keeps the red-black shape.** The invariant of the climb: a black top of the same
    black count would fit the hole, so only the red top is in the way. -/
theorem Rebalance.isRedBlack {T R : ColorTree α} (h : Rebalance C T R) :
    ∀ {n : Nat}, CtxOk C .black n → Balanced T .red n → (R.paint .black).IsRedBlack := by
  induction h with
  | root => exact fun _ hT => isRedBlack_iff.mpr ⟨_, hT.paint_black⟩
  | @blackParent f C T hf =>
    intro n hC hT
    have hR : (plug (f :: C) T).IsRedBlack := by
      cases hC with
      | red _ _ => exact absurd hf (by simp)
      | black hs hC => exact (CtxOk.black hs hC).plug hT
    rwa [paint_of_isRedBlack hR]
  | @redUncle b d c p g s u T R C hu _ ih =>
    intro n hC hT
    cases hC with
    | red hs hC =>
      cases hC with
      | black hu' hC =>
        -- the uncle's colour is red, so painting it black raises its count with the parent's
        have hred := hu'.rootColor_eq
        rw [hu] at hred
        subst hred
        exact ih hC (Balanced.mk_red (hT.mk_black hs) hu'.paint_black)
  | @line b c p g s u T C hu =>
    intro n hC hT
    cases hC with
    | red hs hC =>
      cases hC with
      | black hu' hC =>
        have hblack := hu'.rootColor_eq
        rw [hu] at hblack
        subst hblack
        have hR := hC.plug
          (hT.mk_black (b := b) (a := p) (Balanced.mk_red (b := b) (a := g) hs hu'))
        rwa [paint_of_isRedBlack hR]
  | @triangle b c cz p g z s u T T' C hu =>
    intro n hC hT
    cases hC with
    | red hs hC =>
      cases hC with
      | black hu' hC =>
        have hblack := hu'.rootColor_eq
        rw [hu] at hblack
        subst hblack
        have hcz : cz = .red := by simpa using hT.rootColor_eq
        subst hcz
        obtain ⟨-, hT1, hT2⟩ := hT.of_mk_red
        have hR := hC.plug ((Balanced.mk_red (b := b) (a := p) hs hT1).mk_black (b := b) (a := z)
          (Balanced.mk_red (b := b) (a := g) hT2 hu'))
        rwa [paint_of_isRedBlack hR]

end Ctx
end Moose.Lib
