import Mathlib.Logic.Function.Basic
import Mathlib.Data.Int.Notation
import GfwProxy.Lib.RedBlack
import GfwProxy.Lib.Total

set_option autoImplicit false

/-!
# The timeout tree

`gf_rbtree.c`: the red-black tree of the requests by the time at which they expire.

## Main definitions

* `GfwProxy.Rbnode`, `GfwProxy.Rbtree` — the nodes at their addresses, the root and the sentinel.
* `GfwProxy.rbtreeInit`, `GfwProxy.rbtreeMin`, `GfwProxy.rbtreeInsert`, `GfwProxy.rbtreeDelete` —
  the operations.

## Design

A link is null or the address of a node.  The places where the source follows a link of a node are
`GfwProxy.Rbtree.down` and `GfwProxy.Rbtree.up`; they fail where the link is null, where the link is
a child of the sentinel, and where it is the parent of the root, which is not kept up to date.
Where the source only copies or compares a link, the link is read as a field.

The source has each rotation and each round of a fix-up twice, mirrored.  Here they have the
direction as a parameter; `rbtree_left_rotate` is `GfwProxy.rbtreeLeftRotate`.  A loop that has no
bound in the source runs for at most `fuel` rounds.
-/

namespace GfwProxy

open RedBlack (Dir)

/-- The address of a node. -/
abbrev NodeId := ℕ

/-- `struct rbnode`. -/
structure Rbnode where
  left : Option NodeId := none
  right : Option NodeId := none
  parent : Option NodeId := none
  key : ℤ := 0
  data : Option ℕ := none
  red : Bool := false
  deriving DecidableEq, Repr

/-- The link to a child. -/
def Rbnode.child (d : Dir) (n : Rbnode) : Option NodeId :=
  match d with
  | .left => n.left
  | .right => n.right

def Rbnode.setChild (d : Dir) (link : Option NodeId) (n : Rbnode) : Rbnode :=
  match d with
  | .left => { n with left := link }
  | .right => { n with right := link }

/-- `struct rbtree`, with the nodes that its links lead to. -/
structure Rbtree where
  root : NodeId
  sentinel : NodeId
  node : NodeId → Rbnode

/-- Why an operation on the tree stops: it follows a null link, a child link of the sentinel or the
parent link of the root, or a loop has not ended after `fuel` rounds. -/
inductive RbFault
  | null
  | sentinel
  | root
  | fuel
  deriving DecidableEq, Repr

/-- A computation on the tree. -/
abbrev Rb := StateT Rbtree (Except RbFault)

namespace Rbtree

/-! ## Links and colours -/

def setNode (x : NodeId) (f : Rbnode → Rbnode) : Rb Unit :=
  modify fun t => { t with node := Function.update t.node x (f (t.node x)) }

def setRoot (x : NodeId) : Rb Unit := modify fun t => { t with root := x }

def getNode (x : NodeId) : Rb Rbnode := do return (← get).node x

/-- Follow a link. -/
def follow : Option NodeId → Rb NodeId
  | none => throw .null
  | some y => return y

/-- Follow the link of `x` to a child. -/
def down (d : Dir) (x : NodeId) : Rb NodeId := do
  let t ← get
  if x = t.sentinel then throw .sentinel else follow ((t.node x).child d)

/-- Follow the link of `x` to its parent. -/
def up (x : NodeId) : Rb NodeId := do
  let t ← get
  if x = t.root then throw .root else follow (t.node x).parent

/-- `rbtree_red` -/
def paintRed (x : NodeId) : Rb Unit := setNode x fun n => { n with red := true }

/-- `rbtree_black` -/
def paintBlack (x : NodeId) : Rb Unit := setNode x fun n => { n with red := false }

/-- `rbtree_is_red` -/
def isRed (x : NodeId) : Rb Bool := do return (← getNode x).red

/-- `rbtree_copy_color` -/
def copyColor (x y : NodeId) : Rb Unit := do
  let n ← getNode y
  setNode x fun m => { m with red := n.red }

def setChild (d : Dir) (x : NodeId) (link : Option NodeId) : Rb Unit :=
  setNode x (Rbnode.setChild d link)

def setParent (x : NodeId) (link : Option NodeId) : Rb Unit :=
  setNode x fun n => { n with parent := link }

/-- The child of `x` gets the parent `p`, unless it is the sentinel. -/
def adopt (d : Dir) (x p : NodeId) : Rb Unit := do
  let t ← get
  if (t.node x).child d ≠ some t.sentinel then
    let y ← down d x
    setParent y (some p)
  else return ()

/-- The child of the parent of `x` that is `x` becomes `y`; the child in direction `d` is looked at
first. -/
def relink (d : Dir) (x y : NodeId) : Rb Unit := do
  let p ← up x
  let n ← getNode p
  if n.child d = some x then setChild d p (some y) else setChild d.flip p (some y)

/-- `y` takes the place of `x` under its parent or as the root. -/
def replace (d : Dir) (x y : NodeId) : Rb Unit := do
  let t ← get
  if x = t.root then setRoot y else relink d x y

/-- A rotation: the child of `x` in the direction other than `d` becomes its parent. -/
def rotate (d : Dir) (x : NodeId) : Rb Unit := do
  let temp ← down d.flip x
  let n ← getNode temp
  setChild d.flip x (n.child d)
  adopt d temp x
  let n ← getNode x
  setParent temp n.parent
  replace d x temp
  setChild d temp (some x)
  setParent x (some temp)

/-- `y` gets the links and the colour of `x`. -/
def copyNode (y x : NodeId) : Rb Unit := do
  let n ← getNode x
  setNode y fun m => { m with left := n.left, right := n.right, parent := n.parent, red := n.red }

end Rbtree

open Rbtree

/-- `rbtree_left_rotate` -/
def rbtreeLeftRotate (node : NodeId) : Rb Unit := rotate .left node

/-- `rbtree_right_rotate` -/
def rbtreeRightRotate (node : NodeId) : Rb Unit := rotate .right node

/-- `rbtree_node_init` -/
def rbtreeNodeInit (node : NodeId) : Rb Unit :=
  setNode node fun n =>
    { n with left := none, right := none, parent := none, key := 0, data := none }

/-- `rbtree_init` -/
def rbtreeInit (node : NodeId) : Rb Unit := do
  rbtreeNodeInit node
  paintBlack node
  modify fun t => { t with root := node, sentinel := node }

/-- `rbtree_node_min`: traverse left links. -/
def rbtreeNodeMin : ℕ → NodeId → Rb NodeId
  | 0, _ => throw .fuel
  | fuel + 1, node => do
    let left ← down .left node
    let t ← get
    if left ≠ t.sentinel then rbtreeNodeMin fuel left else return node

/-- `rbtree_min` -/
def rbtreeMin (fuel : ℕ) : Rb (Option NodeId) := do
  let t ← get
  if t.root = t.sentinel then
    -- empty tree
    return none
  else
    let node ← rbtreeNodeMin fuel t.root
    return some node

/-! ## Insertion -/

/-- A binary tree insert: the node whose child in the direction that is returned the new node
becomes. -/
def rbtreeDescend (key : ℤ) : ℕ → NodeId → Rb (NodeId × Dir)
  | 0, _ => throw .fuel
  | fuel + 1, temp => do
    let n ← getNode temp
    let d := if key < n.key then Dir.left else .right
    let next ← down d temp
    let t ← get
    if next = t.sentinel then return (temp, d) else rbtreeDescend key fuel next

/-- The part of a round of `rbtree_insert` after which the node is the outer grandchild. -/
def rbtreeInsertInner (d : Dir) (node : NodeId) : Rb NodeId := do
  let p ← up node
  let n ← getNode p
  if n.child d.flip = some node then
    rotate d p
    return p
  else return node

/-- The part of a round of `rbtree_insert` where the node is the outer grandchild. -/
def rbtreeInsertOuter (d : Dir) (node : NodeId) : Rb NodeId := do
  let p ← up node
  paintBlack p
  let g ← up p
  paintRed g
  rotate d.flip g
  return node

/-- A round of the fix-up of `rbtree_insert`, where the parent is the child of the grandparent in
direction `d`. -/
def rbtreeInsertRound (d : Dir) (node : NodeId) : Rb NodeId := do
  let p ← up node
  let g ← up p
  let temp ← down d.flip g
  if ← isRed temp then
    paintBlack p
    paintBlack temp
    paintRed g
    return g
  else
    let node ← rbtreeInsertInner d node
    rbtreeInsertOuter d node

/-- The loop of the fix-up of `rbtree_insert`. -/
def rbtreeInsertFixup : ℕ → NodeId → Rb Unit
  | 0, _ => throw .fuel
  | fuel + 1, node => do
    let t ← get
    if node = t.root then return ()
    else
      let p ← up node
      if ← isRed p then
        let g ← up p
        let n ← getNode g
        let node ← rbtreeInsertRound (if n.left = some p then .left else .right) node
        rbtreeInsertFixup fuel node
      else return ()

/-- `rbtree_insert` into a tree that is not empty. -/
def rbtreeInsertBelow (fuel : ℕ) (node : NodeId) : Rb Unit := do
  let t ← get
  let (temp, d) ← rbtreeDescend (t.node node).key fuel t.root
  setChild d temp (some node)
  setNode node fun n =>
    { n with parent := some temp, left := some t.sentinel, right := some t.sentinel, red := true }
  -- re-balance tree
  rbtreeInsertFixup fuel node
  let t ← get
  paintBlack t.root

/-- `rbtree_insert` -/
def rbtreeInsert (fuel : ℕ) (node : NodeId) : Rb Unit := do
  let t ← get
  if t.root = t.sentinel then
    -- empty tree
    setNode node fun n =>
      { n with parent := none, left := some t.sentinel, right := some t.sentinel, red := false }
    setRoot node
  else rbtreeInsertBelow fuel node

/-! ## Deletion -/

/-- A binary tree delete: the node that leaves its place, and its only child. -/
def rbtreeSubst (fuel : ℕ) (node : NodeId) : Rb (NodeId × NodeId) := do
  let t ← get
  if (t.node node).left = some t.sentinel then
    let temp ← down .right node
    return (node, temp)
  else if (t.node node).right = some t.sentinel then
    let temp ← down .left node
    return (node, temp)
  else
    let right ← down .right node
    let subst ← rbtreeNodeMin fuel right
    let temp ← down .right subst
    return (subst, temp)

/-- `temp`, which has taken the place of `subst`, gets its parent link. -/
def rbtreeTempParent (node subst temp : NodeId) : Rb Unit := do
  let n ← getNode subst
  if n.parent = some node then setParent temp (some subst) else setParent temp n.parent

/-- `subst` takes the place of `node`. -/
def rbtreeTransplant (node subst : NodeId) : Rb Unit := do
  copyNode subst node
  replace .left node subst
  adopt .left subst subst
  adopt .right subst subst

/-- The part of a round of `rbtree_delete` after which the sibling of `temp` is black. -/
def rbtreeDeleteSibling (d : Dir) (temp : NodeId) : Rb NodeId := do
  let p ← up temp
  let w ← down d.flip p
  if ← isRed w then
    paintBlack w
    paintRed p
    rotate d p
    let p ← up temp
    down d.flip p
  else return w

/-- The part of a round of `rbtree_delete` after which the outer child of the sibling is red. -/
def rbtreeDeleteOuter (d : Dir) (temp w : NodeId) : Rb NodeId := do
  let far ← down d.flip w
  if !(← isRed far) then
    let near ← down d w
    paintBlack near
    paintRed w
    rotate d.flip w
    let p ← up temp
    down d.flip p
  else return w

/-- Whether both children are black. -/
def rbtreeBlackChildren (w : NodeId) : Rb Bool := do
  let left ← down .left w
  if ← isRed left then return false
  else
    let right ← down .right w
    return !(← isRed right)

/-- The part of a round of `rbtree_delete` where the outer child of the sibling is red. -/
def rbtreeDeleteLast (d : Dir) (temp w : NodeId) : Rb NodeId := do
  let p ← up temp
  copyColor w p
  paintBlack p
  let far ← down d.flip w
  paintBlack far
  rotate d p
  let t ← get
  return t.root

/-- The part of a round of `rbtree_delete` where the sibling of `temp` is black. -/
def rbtreeDeleteBlack (d : Dir) (temp w : NodeId) : Rb NodeId := do
  if ← rbtreeBlackChildren w then
    paintRed w
    up temp
  else
    let w ← rbtreeDeleteOuter d temp w
    rbtreeDeleteLast d temp w

/-- A round of the fix-up of `rbtree_delete`, where `temp` is the child of its parent in direction
`d`. -/
def rbtreeDeleteRound (d : Dir) (temp : NodeId) : Rb NodeId := do
  let w ← rbtreeDeleteSibling d temp
  rbtreeDeleteBlack d temp w

/-- The loop of the fix-up of `rbtree_delete`, and the colour of the node at which it ends. -/
def rbtreeDeleteFixup : ℕ → NodeId → Rb Unit
  | 0, _ => throw .fuel
  | fuel + 1, temp => do
    let t ← get
    if temp ≠ t.root ∧ (t.node temp).red = false then
      let p ← up temp
      let n ← getNode p
      let temp ← rbtreeDeleteRound (if n.left = some temp then .left else .right) temp
      rbtreeDeleteFixup fuel temp
    else paintBlack temp

/-- `rbtree_delete` of a node that is not the root, or of a root with two children. -/
def rbtreeDeleteBelow (fuel : ℕ) (node subst temp : NodeId) : Rb Unit := do
  let red ← isRed subst
  relink .left subst temp
  if subst = node then
    let n ← getNode subst
    setParent temp n.parent
  else
    rbtreeTempParent node subst temp
    rbtreeTransplant node subst
  rbtreeNodeInit node
  if red then return () else rbtreeDeleteFixup fuel temp

/-- `rbtree_delete`, after it has found the node that leaves its place. -/
def rbtreeDeleteAt (fuel : ℕ) (node subst temp : NodeId) : Rb Unit := do
  let t ← get
  if subst = t.root then
    setRoot temp
    paintBlack temp
    rbtreeNodeInit node
  else rbtreeDeleteBelow fuel node subst temp

/-- `rbtree_delete` -/
def rbtreeDelete (fuel : ℕ) (node : NodeId) : Rb Unit := do
  let (subst, temp) ← rbtreeSubst fuel node
  rbtreeDeleteAt fuel node subst temp

end GfwProxy
