import Mathlib.Order.Lattice
import Rocc.Base.Slots
import Rocc.Rtx.Record

/-!
# B+ trees

What `MemstoreBPlusTree` and `MemstoreUint64BPlusTree` share: nodes of 15 keys, leaves on
a doubly linked chain, insertion with a special split at the right end, and the deletion
that only the second tree has.  Keys are any linear order; both trees compare words, one
of them several in turn.

Leaves are cells of a memory and point to each other by address.  Inner nodes are reached
from their parent only, so a subtree is a value, and its type says how many levels its
leaves are below.
-/

namespace Rocc.Memstore.BPlusTree

open Rtx

/-- `MEM_BTREE_M` and `NENT`, which are `IM` and `IN` in the other tree. -/
abbrev nodeKeys : Nat := 15

/-- The address of a leaf. -/
abbrev LeafId := Nat

/-- The address of a `MemNode`. -/
abbrev NodeId := Nat

/-- `LeafNode`.  The arrays `keys` and `values` are one array of pairs here, as every loop
moves both. -/
structure LeafNode (Key : Type) where
  numKeys : Nat
  entries : Nat → Key × NodeId
  left : Option LeafId
  right : Option LeafId
  seq : Nat

/-- `InnerNode`. -/
structure InnerNode (Key Child : Type) where
  numKeys : Nat
  keys : Nat → Key
  children : Nat → Child

/-- A subtree with its leaves `depth` levels below. -/
def Subtree (Key : Type) : Nat → Type
  | 0 => LeafId
  | depth + 1 => InnerNode Key (Subtree Key depth)

/-- The memory of the leaves. -/
abbrev Leaves (Key : Type) := LeafId → LeafNode Key

/-- A tree.  `depth` comes with the root, and a root of `NULL` has no depth: the next
insertion resets it. -/
structure Tree (Key : Type) where
  leaves : Leaves Key
  root : Option ((depth : Nat) × Subtree Key depth)

variable {Key Child : Type}

/-- `keys[0]` of a leaf. -/
def firstKey (leaves : Leaves Key) (leaf : LeafId) : Key := ((leaves leaf).entries 0).1

/-- The arrays of a new node are not initialised. -/
instance [Inhabited Key] [Inhabited Child] : Inhabited (InnerNode Key Child) :=
  ⟨⟨0, fun _ => default, fun _ => default⟩⟩

instance Subtree.instInhabited [Inhabited Key] : (depth : Nat) → Inhabited (Subtree Key depth)
  | 0 => ⟨(0 : Nat)⟩
  | depth + 1 =>
      have : Inhabited (Subtree Key depth) := Subtree.instInhabited depth
      inferInstanceAs (Inhabited (InnerNode Key (Subtree Key depth)))

/-! ## Descents -/

/-- The descent to a leaf, to the right of every key that passes the test. -/
def descend (goRight : Key → Bool) : (depth : Nat) → Subtree Key depth → LeafId
  | 0, leaf => leaf
  | depth + 1, (inner : InnerNode Key (Subtree Key depth)) =>
      descend goRight depth (inner.children (Slots.scan inner.keys goRight inner.numKeys))

/-- The entries of a leaf. -/
def LeafNode.list (leaf : LeafNode Key) : List (Key × NodeId) :=
  Slots.list leaf.entries leaf.numKeys

/-- The leaf that a descent reaches; it does not go through a root of `NULL`. -/
def Tree.findLeaf (tree : Tree Key) (goRight : Key → Bool) : Option LeafId :=
  tree.root.map fun root => descend goRight root.1 root.2

/-- The middle of a full node. -/
abbrev threshold : Nat := (nodeKeys + 1) / 2

section Ordered

variable [LinearOrder Key]

/-! ## Lookup -/

/-- The first entry of a leaf whose key is not below the given one. -/
def LeafNode.slotOf (leaf : LeafNode Key) (key : Key) : Nat :=
  Slots.scan leaf.entries (fun entry => entry.1 < key) leaf.numKeys

/-- The search in the leaf, in `Get`. -/
def LeafNode.find (leaf : LeafNode Key) (key : Key) : Option NodeId :=
  let k := leaf.slotOf key
  if k < leaf.numKeys ∧ (leaf.entries k).1 = key then some (leaf.entries k).2 else none

/-- `Get`, which does not survive a root of `NULL`. -/
def Tree.get (tree : Tree Key) (key : Key) : Option (Option NodeId) :=
  (tree.findLeaf fun separator => separator ≤ key).map fun leaf => (tree.leaves leaf).find key

/-! ## Insertion -/

/-- Shift the entries from `k` on and store one there. -/
def LeafNode.place (leaf : LeafNode Key) (k : Nat) (entry : Key × NodeId) : LeafNode Key :=
  { leaf with
    numKeys := leaf.numKeys + 1
    entries := Function.update (Slots.openUp leaf.entries k leaf.numKeys) k entry }

/-- Split a full leaf and store an entry at `k`: what stays, and the new sibling. -/
def LeafNode.split (leaf fresh : LeafNode Key) (k : Nat) (entry : Key × NodeId) :
    LeafNode Key × LeafNode Key :=
  if leaf.right = none ∧ k = leaf.numKeys then
    let sibling := { fresh with numKeys := 0 }
    (leaf, sibling.place 0 entry)
  else
    let count := leaf.numKeys - threshold
    let sibling := { fresh with
      numKeys := count
      entries := Slots.copyTo leaf.entries threshold fresh.entries count }
    let rest := { leaf with numKeys := threshold }
    if threshold ≤ k then
      (rest, sibling.place (k - threshold) entry)
    else
      (rest.place k entry, sibling)

/-- What `LeafInsert` leaves and returns: the memory, `new_sibling`, `*val`, and whether
`dummyval_` is in the tree now. -/
structure LeafInserted (Key : Type) where
  leaves : Leaves Key
  newSibling : Option LeafId
  val : NodeId
  taken : Bool

/-- `leaf->right->left = new_sibling`, if there is a right neighbour. -/
def linkBack (leaves : Leaves Key) (right : Option LeafId) (left : Option LeafId) :
    Leaves Key :=
  match right with
  | some right => Function.update leaves right { leaves right with left := left }
  | none => leaves

/-- `LeafInsert`; `new_leaf_node()` is at the address `fresh`. -/
def leafInsert (leaves : Leaves Key) (key : Key) (leaf : LeafId) (dummyval : NodeId)
    (fresh : LeafId) : LeafInserted Key :=
  let node := leaves leaf
  let k := node.slotOf key
  if k < node.numKeys ∧ (node.entries k).1 = key then
    ⟨leaves, none, (node.entries k).2, false⟩
  else if node.numKeys = nodeKeys then
    let (rest, sibling) := node.split (leaves fresh) k (key, dummyval)
    let linked := linkBack leaves node.right (some fresh)
    let rest := { rest with right := some fresh, seq := (node.seq + 1) % wordBound }
    let sibling := { sibling with right := node.right, left := some leaf, seq := 0 }
    ⟨Function.update (Function.update linked leaf rest) fresh sibling, some fresh, dummyval,
      true⟩
  else
    let inserted := { node.place k (key, dummyval) with seq := (node.seq + 1) % wordBound }
    ⟨Function.update leaves leaf inserted, none, dummyval, true⟩

/-- `-1` as an unsigned index. -/
def noIndex : Nat := 2 ^ 32 - 1

/-- Shift the entries from `k` on, unless `k` is `-1`, and store the child behind `k`. -/
def InnerNode.place (inner : InnerNode Key Child) (k : Nat) (key : Key) (child : Child) :
    InnerNode Key Child :=
  let opened :=
    if k ≠ noIndex then
      { numKeys := inner.numKeys + 1
        keys := Function.update (Slots.openUp inner.keys k inner.numKeys) k key
        children := Slots.openUp inner.children (k + 1) (inner.numKeys + 1) }
    else
      inner
  { opened with children := Function.update opened.children ((k + 1) % 2 ^ 32) child }

/-- What an inner node learns of a child that has been split: the new child, the key it
goes under, whether it is the special case of a split at the right end, and the key that
is compared with the middle of the inner node. -/
structure NewChild (Key Child : Type) where
  child : Child
  key : Key
  alone : Bool
  side : Key

/-- The new sibling of a full node, which gets the upper half. -/
def InnerNode.upperHalf (inner fresh : InnerNode Key Child) : InnerNode Key Child :=
  let count := inner.numKeys - threshold
  { numKeys := count
    keys := Function.update (Slots.copyTo inner.keys threshold fresh.keys count) (nodeKeys - 1)
      (inner.keys (threshold - 1))
    children := Function.update (Slots.copyTo inner.children threshold fresh.children count) count
      (inner.children inner.numKeys) }

/-- The part of `InnerInsert` after the child has been split.  A new sibling comes with
`upKey`, which is also in its last place for keys. -/
def InnerNode.addChild [Inhabited Key] [Inhabited Child] (inner : InnerNode Key Child) (k : Nat)
    (new : NewChild Key Child) : InnerNode Key Child × Option (InnerNode Key Child × Key) :=
  if inner.numKeys = nodeKeys then
    let fresh : InnerNode Key Child := default
    if new.alone then
      let upKey := new.key
      let sibling := { fresh with
        numKeys := 0
        keys := Function.update fresh.keys (nodeKeys - 1) upKey }
      (inner, some (sibling.place noIndex new.key new.child, upKey))
    else
      let upKey := inner.keys (threshold - 1)
      let sibling := inner.upperHalf fresh
      let rest := { inner with numKeys := threshold - 1 }
      if upKey ≤ new.side then
        let place := if threshold ≤ k then k - threshold else 0
        (rest, some (sibling.place place new.key new.child, upKey))
      else
        (rest.place k new.key new.child, some (sibling, upKey))
  else
    (inner.place k new.key new.child, none)

/-- What `InnerInsert` leaves and returns. -/
structure InnerInserted (Key Child : Type) where
  leaves : Leaves Key
  inner : InnerNode Key Child
  newSibling : Option (InnerNode Key Child × Key)
  val : NodeId
  taken : Bool
  leafTaken : Bool

/-- `InnerInsert`, for a node with its leaves `depth + 1` levels below; the growth of the
root is left to `insertRtm`. -/
def innerInsert [Inhabited Key] (key : Key) (dummyval : NodeId) (fresh : LeafId) :
    (depth : Nat) → InnerNode Key (Subtree Key depth) → Leaves Key →
      InnerInserted Key (Subtree Key depth)
  | 0, inner, leaves =>
      let k := Slots.scan inner.keys (fun separator => separator ≤ key) inner.numKeys
      let result := leafInsert leaves key (inner.children k) dummyval fresh
      match result.newSibling with
      | some newLeaf =>
          let newKey := firstKey result.leaves newLeaf
          let alone := (result.leaves newLeaf).numKeys == 1
          let (inner, newSibling) := inner.addChild k ⟨newLeaf, newKey, alone, newKey⟩
          ⟨result.leaves, inner, newSibling, result.val, result.taken, true⟩
      | none => ⟨result.leaves, inner, none, result.val, result.taken, false⟩
  | depth + 1, inner, leaves =>
      let k := Slots.scan inner.keys (fun separator => separator ≤ key) inner.numKeys
      let result := innerInsert key dummyval fresh depth (inner.children k) leaves
      let inner := { inner with children := Function.update inner.children k result.inner }
      match result.newSibling with
      | some (newInner, _) =>
          let newKey := newInner.keys (nodeKeys - 1)
          let alone := newInner.numKeys == 0
          let (inner, newSibling) := inner.addChild k ⟨newInner, newKey, alone, key⟩
          ⟨result.leaves, inner, newSibling, result.val, result.taken, result.leafTaken⟩
      | none =>
          ⟨result.leaves, inner, none, result.val, result.taken, result.leafTaken⟩

/-- What `Insert_rtm` leaves and returns. -/
structure TreeInserted (Key : Type) where
  tree : Tree Key
  val : NodeId
  taken : Bool
  leafTaken : Bool

/-- A new root over two subtrees. -/
def newRoot [Inhabited Key] [Inhabited Child] (left : Child) (upKey : Key) (right : Child) :
    InnerNode Key Child :=
  let fresh : InnerNode Key Child := default
  { numKeys := 1
    keys := Function.update fresh.keys 0 upKey
    children := Function.update (Function.update fresh.children 0 left) 1 right }

/-- A root leaf without neighbours. -/
def rootLeaf (leaf : LeafNode Key) : LeafNode Key :=
  { leaf with numKeys := 0, left := none, right := none, seq := 0 }

/-- `Insert_rtm` with a root. -/
def insertAt [Inhabited Key] (leaves : Leaves Key) (key : Key) (dummyval : NodeId)
    (fresh : LeafId) : (depth : Nat) → Subtree Key depth → TreeInserted Key
  | 0, (leaf : LeafId) =>
      let result := leafInsert leaves key leaf dummyval fresh
      match result.newSibling with
      | some newLeaf =>
          let upKey := firstKey result.leaves newLeaf
          let root : Subtree Key 1 := newRoot leaf upKey newLeaf
          ⟨⟨result.leaves, some ⟨1, root⟩⟩, result.val, result.taken, true⟩
      | none => ⟨⟨result.leaves, some ⟨0, leaf⟩⟩, result.val, result.taken, false⟩
  | depth + 1, (inner : InnerNode Key (Subtree Key depth)) =>
      let result := innerInsert key dummyval fresh depth inner leaves
      match result.newSibling with
      | some (sibling, upKey) =>
          let root : Subtree Key (depth + 2) := newRoot result.inner upKey sibling
          ⟨⟨result.leaves, some ⟨depth + 2, root⟩⟩, result.val, result.taken, result.leafTaken⟩
      | none =>
          let root : Subtree Key (depth + 1) := result.inner
          ⟨⟨result.leaves, some ⟨depth + 1, root⟩⟩, result.val, result.taken, result.leafTaken⟩

/-- `Insert_rtm`. -/
def Tree.insertRtm [Inhabited Key] (tree : Tree Key) (key : Key) (dummyval : NodeId)
    (fresh : LeafId) : TreeInserted Key :=
  match tree.root with
  | some ⟨depth, root⟩ => insertAt tree.leaves key dummyval fresh depth root
  | none =>
      let leaves := Function.update tree.leaves fresh (rootLeaf (tree.leaves fresh))
      { insertAt leaves key dummyval fresh 0 fresh with leafTaken := true }

end Ordered

end Rocc.Memstore.BPlusTree
