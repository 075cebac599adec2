import Mathlib.Order.Defs.LinearOrder
import Moose.Lib.ColorTree
import Moose.RbTree.Arena

/-!
# `RedBlackTree` as the code computes it

`common/src/rb_tree.rs`, function by function. The tree is a record of an arena, a root index
and a length; every method that writes returns the new record. `none` is a panic: an index that
does not resolve (`self.arena[idx]`), an `expect` or an `unwrap` on nothing.

The `while` loops run on fuel. Each one moves along a path of the tree, and no path is longer
than `len`, so `len + 1` steps are always enough; running out is `none` as well, which makes
"the result is `some`" say that the loop ended *and* that nothing panicked.
-/

set_option autoImplicit false

namespace Moose.RbTree

open Lib (Color Branch)

structure Node (Idx K V : Type) where
  key : K
  value : V
  color : Color
  parent : Option Idx
  left : Option Idx
  right : Option Idx

namespace Node

variable {Idx K V : Type} (n : Node Idx K V)

def link : Branch → Option Idx
  | .left => n.left
  | .right => n.right

def withChild (branch : Branch) (child : Option Idx) : Node Idx K V :=
  match branch with
  | .left => { n with left := child }
  | .right => { n with right := child }

def withParent (parent : Option Idx) : Node Idx K V :=
  { n with parent := parent }

def withColor (color : Color) : Node Idx K V := { n with color := color }

def withValue (value : V) : Node Idx K V := { n with value := value }

end Node

/-- The ordered map: nodes in an arena, the root's index and the number of entries. -/
structure RedBlackTree {Idx K V : Type} (A : GenArena Idx (Node Idx K V)) where
  arena : A.Carrier
  root : Option Idx
  len : Nat

namespace RedBlackTree

variable {Idx K V : Type} [DecidableEq Idx] {A : GenArena Idx (Node Idx K V)}

def new : RedBlackTree A := { arena := A.new, root := none, len := 0 }

section

variable (t : RedBlackTree A)

/-- `self.arena.get(idx)`; `self.arena[idx]` is the same with `none` a panic. -/
def arenaGet (idx : Idx) : Option (Node Idx K V) := A.get t.arena idx

/-- A write to `self.arena[idx]`. -/
def modify (idx : Idx) (f : Node Idx K V → Node Idx K V) : Option (RedBlackTree A) := do
  let n ← t.arenaGet idx
  some { t with arena := A.set t.arena idx (f n) }

/-- A write to `self.arena[idx]` under `if let Some(idx) = o`. -/
def modifySome (o : Option Idx) (f : Node Idx K V → Node Idx K V) : Option (RedBlackTree A) :=
  match o with
  | none => some t
  | some idx => t.modify idx f

def isEmpty : Bool := t.len == 0

/-- Steps a loop along a tree path is given. -/
def fuel : Nat := t.len + 1

def link (t : RedBlackTree A) (idx : Idx) (branch : Branch) : Option (Option Idx) := do
  let node ← t.arenaGet idx
  some (node.link branch)

def setChild (parent : Idx) (branch : Branch) (child : Option Idx) : Option (RedBlackTree A) :=
  t.modify parent (·.withChild branch child)

def branchOfChild (parent child : Idx) : Option Branch := do
  let node ← t.arenaGet parent
  some (if node.left = some child then .left else .right)

def colorOf : Option Idx → Option Color
  | none => some .black
  | some idx => do
    let node ← t.arenaGet idx
    some node.color

def nephewColors (sibling : Option Idx) (branch : Branch) : Option (Color × Color) :=
  match sibling with
  | none => some (.black, .black)
  | some s => do
    let near ← t.link s branch
    let far ← t.link s branch.opposite
    some (← t.colorOf near, ← t.colorOf far)

/-! ## Walks -/

/-- The loop `subtree_min` and `subtree_max` share: down one side until the link is missing. -/
def subtreeEnd (t : RedBlackTree A) (side : Branch) :
    Nat → (result node : Option Idx) → Option (Option Idx)
  | _, result, none => some result
  | 0, _, some _ => none
  | fuel + 1, _, some idx => do
    let next ← t.link idx side
    t.subtreeEnd side fuel (some idx) next

def subtreeMin (node : Option Idx) : Option (Option Idx) :=
  t.subtreeEnd .left t.fuel node node

def subtreeMax (node : Option Idx) : Option (Option Idx) :=
  t.subtreeEnd .right t.fuel node node

/-- `min` and `max`: the key at one end of the tree. -/
def keyAt : Option Idx → Option (Option K)
  | none => some none
  | some idx => do
    let node ← t.arenaGet idx
    some (some node.key)

def min : Option (Option K) := do t.keyAt (← t.subtreeMin t.root)

def max : Option (Option K) := do t.keyAt (← t.subtreeMax t.root)

/-- The calls `walk_in_order` makes to its callback, in order. -/
def walkInOrder (t : RedBlackTree A) : Nat → Option Idx → Option (List (K × Color))
  | _, none => some []
  | 0, some _ => none
  | fuel + 1, some idx => do
    let node ← t.arenaGet idx
    let before ← t.walkInOrder fuel node.left
    let after ← t.walkInOrder fuel node.right
    some (before ++ (node.key, node.color) :: after)

def forEachInOrder : Option (List (K × Color)) :=
  t.walkInOrder t.fuel t.root

/-! ## Rotations and transplant -/

/-- The link update the rotations and `transplant` share: whoever points at `u` — the root field,
    or `u`'s parent on the side `u` hangs — points at `v` from now on. -/
def replaceInParent (parent : Option Idx) (u : Idx) (v : Option Idx) : Option (RedBlackTree A) :=
  match parent with
  | none => some { t with root := v }
  | some p => do
    let branch ← t.branchOfChild p u
    t.setChild p branch v

/-- The body `left_rotate` and `right_rotate` share: the child of `x` on side `up` moves above
    it. -/
def rotate (up : Branch) (x : Idx) : Option (RedBlackTree A) := do
  let y ← (← t.link x up)
  let t ← t.setChild x up (← t.link y up.opposite)
  let t ← t.modifySome (← t.link y up.opposite) (·.withParent (some x))
  let xp := (← t.arenaGet x).parent
  let t ← t.modify y (·.withParent xp)
  let t ← t.replaceInParent xp x (some y)
  let t ← t.setChild y up.opposite (some x)
  t.modify x (·.withParent (some y))

def leftRotate (x : Idx) : Option (RedBlackTree A) := t.rotate .right x

def rightRotate (x : Idx) : Option (RedBlackTree A) := t.rotate .left x

def rotateIn (x : Idx) : Branch → Option (RedBlackTree A)
  | .left => t.leftRotate x
  | .right => t.rightRotate x

def rotateOut (x : Idx) : Branch → Option (RedBlackTree A)
  | .left => t.rightRotate x
  | .right => t.leftRotate x

def transplant (u : Idx) (v : Option Idx) : Option (RedBlackTree A) := do
  let uParent := (← t.arenaGet u).parent
  let t ← t.replaceInParent uParent u v
  t.modifySome v (·.withParent uParent)

/-! ## Insertion -/

def insertFixupIteration (z parent grandparent : Idx) (branch : Branch) :
    Option (RedBlackTree A × Idx) := do
  let uncle ← t.link grandparent branch.opposite
  if (← t.colorOf uncle) = .red then
    let t ← t.modify parent (·.withColor .black)
    let t ← t.modifySome uncle (·.withColor .black)
    let t ← t.modify grandparent (·.withColor .red)
    return (t, grandparent)
  let (t, z) ←
    if (← t.link parent branch.opposite) = some z then do
      pure (← t.rotateIn parent branch, parent)
    else pure (t, z)
  let parent ← (← t.arenaGet z).parent
  let grandparent ← (← t.arenaGet parent).parent
  let t ← t.modify parent (·.withColor .black)
  let t ← t.modify grandparent (·.withColor .red)
  return (← t.rotateOut grandparent branch, z)

def insertFixupLoop : Nat → RedBlackTree A → Idx → Option (RedBlackTree A)
  | 0, _, _ => none
  | fuel + 1, t, z => do
    match (← t.arenaGet z).parent with
    | none => some t
    | some parent =>
      if (← t.arenaGet parent).color ≠ .red then return t
      let grandparent ← (← t.arenaGet parent).parent
      let branch :=
        if (← t.arenaGet grandparent).left = some parent then Branch.left else Branch.right
      let (t, z) ← t.insertFixupIteration z parent grandparent branch
      insertFixupLoop fuel t z

def insertFixup (z : Idx) : Option (RedBlackTree A) := do
  let t ← insertFixupLoop t.fuel t z
  t.modifySome t.root (·.withColor .black)

end

/-- How the descent of `insert` ends: at the key, or at a missing child of `parent`. -/
inductive Descent (Idx : Type) where
  | found (idx : Idx)
  | missing (parent : Option Idx)

variable [LinearOrder K]

def findLoop (t : RedBlackTree A) (key : K) : Nat → Option Idx → Option (Option Idx)
  | _, none => some none
  | 0, some _ => none
  | fuel + 1, some idx => do
    let node ← t.arenaGet idx
    match compare key node.key with
    | .eq => some (some idx)
    | .lt => t.findLoop key fuel node.left
    | .gt => t.findLoop key fuel node.right

variable (t : RedBlackTree A)

def findNode (key : K) : Option (Option Idx) :=
  t.findLoop key t.fuel t.root

def contains (key : K) : Option Bool := do
  some (← t.findNode key).isSome

def get (key : K) : Option (Option V) := do
  match ← t.findNode key with
  | none => some none
  | some idx => some (some (← t.arenaGet idx).value)

/-- `get_mut` and a write through the reference it returns; the result is what stood there. -/
def getMut (key : K) (f : V → V) : Option (RedBlackTree A × Option V) := do
  match ← t.findNode key with
  | none => some (t, none)
  | some idx =>
    let old := (← t.arenaGet idx).value
    some (← t.modify idx (·.withValue (f old)), some old)

def descend (t : RedBlackTree A) (key : K) :
    Nat → (parent current : Option Idx) → Option (Descent Idx)
  | _, parent, none => some (.missing parent)
  | 0, _, some _ => none
  | fuel + 1, _, some cur => do
    let node ← t.arenaGet cur
    match compare key node.key with
    | .eq => some (.found cur)
    | .lt => t.descend key fuel (some cur) node.left
    | .gt => t.descend key fuel (some cur) node.right

/-- The `match parent` of `insert`: the new node becomes the root, or a child of `parent` on the
    side its key decides. -/
def hang (parent : Option Idx) (new : Idx) : Option (RedBlackTree A) :=
  match parent with
  | none => some { t with root := some new }
  | some p => do
    let branch :=
      if (← t.arenaGet new).key < (← t.arenaGet p).key then Branch.left else Branch.right
    t.setChild p branch (some new)

def insert (t : RedBlackTree A) (key : K) (value : V) : Option (RedBlackTree A × Idx) := do
  match ← t.descend key t.fuel none t.root with
  | .found cur => some (← t.modify cur (·.withValue value), cur)
  | .missing parent =>
    let (new, arena) := A.insert t.arena
      { key := key, value := value, color := .red, parent := none, left := none, right := none }
    let t : RedBlackTree A := { t with arena := arena, len := t.len + 1 }
    let t ← t.modify new (·.withParent parent)
    let t ← t.hang parent new
    some (← t.insertFixup new, new)

/-! ## Deletion -/

variable (parent : Idx) (branch : Branch)

/-- Case 1 of `delete_fixup_iteration`: a red sibling is rotated above the parent; the result
    carries the sibling the later cases work with. -/
def deleteCase1 (sibling : Option Idx) : Option (RedBlackTree A × Option Idx) := do
  if (← t.colorOf sibling) = .red then
    let t ← t.modifySome sibling (·.withColor .black)
    let t ← t.modify parent (·.withColor .red)
    let t ← t.rotateIn parent branch
    return (t, ← t.link parent branch.opposite)
  return (t, sibling)

/-- Case 3, entered when the nephew the code calls far is black. -/
def deleteCase3 (sibling : Option Idx) : Option (RedBlackTree A × Option Idx) := do
  let siblingSide := branch.opposite
  match sibling with
  | none => return (t, ← t.link parent branch.opposite)
  | some w =>
    let t ← t.modifySome (← t.link w siblingSide) (·.withColor .black)
    let t ← t.modify w (·.withColor .red)
    let t ← t.rotateOut w siblingSide
    return (t, ← t.link parent branch.opposite)

/-- Case 4; it ends the loop by returning the root. -/
def deleteCase4 (sibling : Option Idx) : Option (RedBlackTree A × Option Idx) := do
  let siblingSide := branch.opposite
  let parentColor := (← t.arenaGet parent).color
  let t ← t.modifySome sibling (·.withColor parentColor)
  let t ← t.modify parent (·.withColor .black)
  match sibling with
  | none =>
    let t ← t.rotateIn parent branch
    return (t, t.root)
  | some w =>
    let t ← t.modifySome (← t.link w siblingSide.opposite) (·.withColor .black)
    let t ← t.rotateIn parent branch
    return (t, t.root)

def deleteFixupIteration : Option (RedBlackTree A × Option Idx) := do
  let (t, sibling) ← t.deleteCase1 parent branch (← t.link parent branch.opposite)
  -- the nephews are read relative to the side of the sibling, not of the extra-black node
  let (nearColor, farColor) ← t.nephewColors sibling branch.opposite
  if nearColor = .black ∧ farColor = .black then
    let t ← t.modifySome sibling (·.withColor .red)
    return (t, some parent)
  if farColor = .black then
    let (t, sibling) ← t.deleteCase3 parent branch sibling
    t.deleteCase4 parent branch sibling
  else
    t.deleteCase4 parent branch sibling

/-- The `while` of `delete_fixup`; the index it ends with is the one painted black. -/
def deleteFixupLoop : Nat → RedBlackTree A → Option Idx →
    Option (RedBlackTree A × Option Idx)
  | 0, _, _ => none
  | fuel + 1, t, extraBlack => do
    if extraBlack = t.root ∨ (← t.colorOf extraBlack) ≠ .black then return (t, extraBlack)
    match extraBlack with
    | none => some (t, none)
    | some x =>
      match (← t.arenaGet x).parent with
      | none => some (t, some x)
      | some parent =>
        let branch :=
          if (← t.arenaGet parent).left = some x then Branch.left else Branch.right
        let (t, extraBlack) ← t.deleteFixupIteration parent branch
        deleteFixupLoop fuel t extraBlack

def deleteFixup (extraBlack : Option Idx) : Option (RedBlackTree A) := do
  let (t, extraBlack) ← deleteFixupLoop t.fuel t extraBlack
  t.modifySome extraBlack (·.withColor .black)

/-- The first `if` of `detach_two_children`: the successor ends up on top of `z`'s right subtree,
    which it may be already. -/
def liftSuccessor (z zRight successor : Idx) (successorRight : Option Idx) :
    Option (RedBlackTree A) := do
  if (← t.arenaGet successor).parent = some z then
    t.modifySome successorRight (·.withParent (some successor))
  else
    let t ← t.transplant successor successorRight
    let t ← t.setChild successor .right (some zRight)
    t.modify zRight (·.withParent (some successor))

def detachTwoChildren (z : Idx) : Option (RedBlackTree A × Option Idx × Color) := do
  let zRight ← (← t.arenaGet z).right
  let successor ← (← t.subtreeMin (some zRight))
  let successorColor := (← t.arenaGet successor).color
  let successorRight := (← t.arenaGet successor).right
  let t ← t.liftSuccessor z zRight successor successorRight
  let t ← t.transplant z (some successor)
  let t ← t.setChild successor .left (← t.arenaGet z).left
  let t ← t.modifySome (← t.arenaGet successor).left (·.withParent (some successor))
  let zColor := (← t.arenaGet z).color
  let t ← t.modify successor (·.withColor zColor)
  return (t, successorRight, successorColor)

/-- The three branches of `detach_node`: cuts `z` out and returns the node the fixup starts at and
    the colour that was lost. -/
def unlink (z : Idx) : Option (RedBlackTree A × Option Idx × Color) := do
  let node ← t.arenaGet z
  if node.left = none then
    return (← t.transplant z node.right, node.right, node.color)
  if node.right = none then
    return (← t.transplant z node.left, node.left, node.color)
  t.detachTwoChildren z

/-- `self.len -= 1` panics at zero. -/
def detachNode (z : Idx) : Option (RedBlackTree A) :=
  if t.len = 0 then none
  else do
    let (t, fixupNode, deletedWasBlack) ← unlink { t with len := t.len - 1 } z
    if deletedWasBlack = .black then t.deleteFixup fixupNode else some t

def remove (t : RedBlackTree A) (key : K) : Option (RedBlackTree A × Option V) := do
  match ← t.findNode key with
  | none => some (t, none)
  | some idx =>
    let t ← t.detachNode idx
    let (node, arena) := A.remove t.arena idx
    let node ← node
    some ({ t with arena := arena }, some node.value)

end RedBlackTree
end Moose.RbTree
