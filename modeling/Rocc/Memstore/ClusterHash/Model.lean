import Rocc.Base.Clusters
import Rocc.Base.Run
import Rocc.Rtx.Record

/-!
# `ClusterHash`

The class template with its parameters left open: the number of entries in a node, the
type of the contents and the function in place of `get_hash`.  `ClusterHash` holds a
bucket for each expected entry and a pool of indirect nodes, of which the first is never
handed out because the index zero ends a chain.

Nodes are numbered by their position in the table, the buckets first.  The functions that
read the table from far away go from one offset in the RDMA region to the next.
-/

namespace Rocc.Memstore.ClusterHash

open Rtx

universe u

/-- `Key`: a valid bit and 63 bits of a key. -/
structure Key where
  valid : Bool
  key : Nat

/-- `HeaderNode`. -/
structure HeaderNode (clusterNum : Nat) (Data : Type u) where
  keys : Fin clusterNum → Key
  datas : Fin clusterNum → Data
  next : Int

/-- The layout of `HeaderNode`: the keys, the contents and the index of the next node, with
the padding that the type of the contents asks for. -/
structure Layout (clusterNum : Nat) where
  datasOff : Nat
  dataSize : Nat
  nodeSize : Nat
  keys_le : 8 * clusterNum ≤ datasOff
  datas_le : datasOff + clusterNum * dataSize + 4 ≤ nodeSize

/-- What a table is made with, and the functions that do not depend on its contents. -/
structure Config (clusterNum : Nat) where
  expectedData : Nat
  layout : Layout clusterNum
  baseOff : Nat
  getHash : Nat → Nat
  expected_pos : 0 < expectedData
  getHash_lt : ∀ key, getHash key < expectedData

/-- The nodes and `free_indirect_num_`. -/
structure Table (clusterNum : Nat) (Data : Type u) where
  nodes : Nat → HeaderNode clusterNum Data
  freeIndirectNum : Nat

/-- A node and an entry of it. -/
abbrev Slot (clusterNum : Nat) := Nat × Fin clusterNum

variable {clusterNum : Nat} {Data : Type u}

theorem Layout.nodeSize_pos (layout : Layout clusterNum) : 0 < layout.nodeSize :=
  lt_of_lt_of_le (Nat.succ_pos _) layout.datas_le

namespace Config

variable (config : Config clusterNum)

/-- `logical_num_`. -/
def logicalNum : Nat := config.expectedData

/-- `indirect_num_`. -/
def indirectNum : Nat :=
  if config.expectedData ≤ clusterNum then config.expectedData
  else config.expectedData / clusterNum

/-- `get_indirect_node`. -/
def indirectNode (index : Int) : Nat := (index + config.logicalNum).toNat

/-- `CLUSTER_OFF`. -/
def clusterOff (index : Fin clusterNum) : Nat :=
  config.layout.datasOff + index * config.layout.dataSize

/-- The offset of a node in the RDMA region. -/
def nodeOff (position : Nat) : Nat := position * config.layout.nodeSize + config.baseOff

/-- The offset of the contents of an entry. -/
def slotOff (slot : Slot clusterNum) : Nat := config.clusterOff slot.2 + config.nodeOff slot.1

/-- A chain has at most the indirect nodes and its bucket. -/
def fuel : Nat := config.indirectNum + 1

end Config

/-- A node filled with zeros. -/
def HeaderNode.zero (zeroed : Data) : HeaderNode clusterNum Data where
  keys _ := ⟨false, 0⟩
  datas _ := zeroed
  next := 0

/-- A key in its 63 bits. -/
def storedKey (key : Nat) : Nat := key % 2 ^ 63

/-- The comparison of `get`. -/
def HeaderNode.isKey (node : HeaderNode clusterNum Data) (key : Nat) (index : Fin clusterNum) :
    Bool :=
  (node.keys index).key == key && (node.keys index).valid

namespace Table

/-- The constructor, from the memory it gets: all of it is filled with zeros. -/
def init (clusterNum : Nat) (zeroed : Data) : Table clusterNum Data where
  nodes _ := .zero zeroed
  freeIndirectNum := 1

variable (config : Config clusterNum) (zeroed : Data) (table : Table clusterNum Data)

/-- The node behind another one, unless its index is zero. -/
def next (position : Nat) : Option Nat :=
  let node := table.nodes position
  if node.next ≠ 0 then some (config.indirectNode node.next) else none

/-- `get`: the place of the key, or none for `NULL`.  No result if the loop goes on after
`fuel` nodes. -/
def get (key : Nat) : Option (Option (Slot clusterNum)) :=
  walk (table.next config)
    (fun position =>
      (firstIn (fun position => (table.nodes position).isKey key) position).map some)
    (fun _ => none) config.fuel (config.getHash key)

/-- The loop of `insert`: a free entry, or the last node of a full chain. -/
def freeSlot (key : Nat) : Option (Slot clusterNum ⊕ Nat) :=
  walk (table.next config)
    (fun position => (firstIn (fun position index =>
      !((table.nodes position).keys index).valid) position).map .inl)
    .inr config.fuel (config.getHash key)

/-- The key comes into an entry. -/
def setKey (slot : Slot clusterNum) (key : Nat) : Table clusterNum Data :=
  let node := table.nodes slot.1
  let marked := { node with keys := Function.update node.keys slot.2 ⟨true, storedKey key⟩ }
  { table with nodes := Function.update table.nodes slot.1 marked }

/-- The end of `insert`: a new node behind the last one.  No result if the assertion that one
is left fails. -/
def allocNew [NeZero clusterNum] (last key : Nat) :
    Option (Table clusterNum Data × Slot clusterNum) :=
  let free := table.freeIndirectNum
  if free < config.indirectNum then
    let fresh := config.indirectNode free
    let newNode : HeaderNode clusterNum Data := .zero zeroed
    let newNode := { newNode with keys := Function.update newNode.keys 0 ⟨true, storedKey key⟩ }
    let nodes := Function.update table.nodes fresh newNode
    let nodes := Function.update nodes last { nodes last with next := free }
    some ({ nodes := nodes, freeIndirectNum := free + 1 }, fresh, 0)
  else
    none

/-- `insert`. -/
def insert [NeZero clusterNum] (key : Nat) : Option (Table clusterNum Data × Slot clusterNum) :=
  (table.freeSlot config key).bind fun
    | .inl slot => some (table.setKey slot key, slot)
    | .inr last => table.allocNew config zeroed last key

/-- `get_with_insert`. -/
def getWithInsert [NeZero clusterNum] (key : Nat) :
    Option (Table clusterNum Data × Slot clusterNum) :=
  (table.get config key).bind fun
    | some slot => some (table, slot)
    | none => table.insert config zeroed key

/-- The contents of an entry. -/
def data (slot : Slot clusterNum) : Data := (table.nodes slot.1).datas slot.2

/-- A write through the pointer to the contents. -/
def setData (slot : Slot clusterNum) (data : Data) : Table clusterNum Data :=
  let node := table.nodes slot.1
  let written := { node with datas := Function.update node.datas slot.2 data }
  { table with nodes := Function.update table.nodes slot.1 written }

/-- `fetch_node`: what is in the region at an offset. -/
def fetchNode (off : Nat) : HeaderNode clusterNum Data :=
  table.nodes ((off - config.baseOff) / config.layout.nodeSize)

/-- The offset both versions of `remote_get` read next. -/
def nextOff (off : Nat) : Option Nat :=
  let node := table.fetchNode config off
  if node.next ≠ 0 then some (config.nodeOff (config.indirectNode node.next)) else none

/-- The part of `remote_get` that both versions share.  Behind the last node there is an
assertion that fails; `blocked` says where another one does. -/
def remoteGetWith (blocked : Nat → Bool) (key : Nat) : Option (Option (Nat × Data)) :=
  if config.baseOff ≠ 0 then
    walk (table.nextOff config)
      (fun off =>
        let node := table.fetchNode config off
        match (List.finRange clusterNum).find? (node.isKey key) with
        | some index => some (some (config.clusterOff index + off, node.datas index))
        | none => if blocked off then some none else none)
      (fun _ => none) config.fuel (config.nodeOff (config.getHash key))
  else
    some none

/-- `remote_get`: the index of the next node is checked.  Without a result inside an
assertion has failed. -/
def remoteGet (key : Nat) : Option (Option (Nat × Data)) :=
  table.remoteGetWith config (fun off =>
    let node := table.fetchNode config off
    !(0 ≤ node.next && node.next < config.indirectNum)) key

/-- `remote_get` for a scheduler: the buffer has `-1` in place of the index until the next
node has come. -/
def remoteGetYield (key : Nat) : Option (Option (Nat × Data)) :=
  table.remoteGetWith config (fun off =>
    (table.nextOff config off).any fun behind => (table.fetchNode config behind).next == -1) key

end Table

end Rocc.Memstore.ClusterHash
