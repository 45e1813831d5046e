import Rocc.Base.Clusters

/-!
# `RdmaHashExt`

Header nodes of eight entries, of which the first ones are the buckets, and behind them
data nodes in one array.  An entry is a key with the index of its data node, and an entry
whose index is zero is free.  Header and data nodes are found by offsets that the functions
compute in 32 bits.

The memory is given by the node at each offset.  Without one-sided operations the offset in
a data node is not written.
-/

namespace Rocc.Memstore.RdmaHashExt

/-- The bound of `uint`. -/
def uintBound : Nat := 2 ^ 32

/-- `CLUSTER_H`. -/
abbrev clusterH : Nat := 8

/-- `HeaderNode`. -/
structure HeaderNode where
  next : Nat
  keys : Fin clusterH → Nat
  indexes : Fin clusterH → Nat

/-- `DataNode`, with the fields of the `MemNode` behind it that are written or read. -/
structure DataNode where
  key : Nat
  value : Nat
  off : Nat

/-- What a table is made with, and the function in place of `GetHash`. -/
structure Config where
  length : Nat
  baseOff : Nat
  getHash : Nat → Nat
  length_ge : clusterH ≤ length
  length_lt : length < 2 ^ 31
  getHash_lt : ∀ key, getHash key < length / clusterH

/-- The nodes by their offsets, and the next ones that are handed out. -/
structure Table where
  headers : Nat → HeaderNode
  datas : Nat → DataNode
  freeIndirect : Nat
  freeData : Nat

/-- `sizeof(HeaderNode)`. -/
def headerSize : Nat := 136

/-- `sizeof(DataNode)`. -/
def dataNodeSize : Nat := 16

/-- `sizeof(MemNode)`. -/
def memNodeSize : Nat := 64

/-- `entrysize`. -/
def entrysize : Nat := ((memNodeSize - 1) / 8 + 1) * 8

/-- `data_size`. -/
def dataSize : Nat := dataNodeSize + entrysize

namespace Config

variable (config : Config)

/-- `Logical_length`. -/
def logicalLength : Nat := config.length / clusterH

/-- `indirect_length`. -/
def indirectLength : Nat := config.length / 2

/-- `total_length`. -/
def totalLength : Nat := config.length + config.indirectLength

/-- `size`. -/
def size : Nat :=
  (config.indirectLength * headerSize + config.length * dataSize) % uintBound

/-- `getHeaderNode_loc`. -/
def getHeaderNodeLoc (i : Nat) : Nat := i * headerSize % uintBound

/-- `getDataNode_loc`. -/
def getDataNodeLoc (i : Nat) : Nat :=
  (config.indirectLength * headerSize +
    (i + uintBound - config.indirectLength) % uintBound * dataSize) % uintBound

end Config

/-- The comparison of the searches. -/
def HeaderNode.isKey (node : HeaderNode) (key : Nat) (i : Fin clusterH) : Bool :=
  node.keys i == key && node.indexes i != 0

namespace Table

/-- The constructor, over memory that is zero. -/
def init (config : Config) : Table where
  headers _ := ⟨0, fun _ => 0, fun _ => 0⟩
  datas _ := ⟨0, 0, 0⟩
  freeIndirect := config.logicalLength
  freeData := config.indirectLength

variable (config : Config) (table : Table)

/-- The offset of the node behind the one at an offset. -/
def nextLoc (loc : Nat) : Option Nat :=
  let node := table.headers loc
  if node.next ≠ 0 then some (Config.getHeaderNodeLoc node.next) else none

/-- The search of `_GetWithInsert`: the offset of the data node of a key, or that of the last
header node.  No result if it goes on after more nodes than there are. -/
def search (key : Nat) : Option (Nat ⊕ Nat) :=
  walk table.nextLoc
    (fun loc => (firstIn (fun loc => (table.headers loc).isKey key) loc).map fun slot =>
      .inl (config.getDataNodeLoc ((table.headers slot.1).indexes slot.2)))
    .inr (config.indirectLength + 1) (Config.getHeaderNodeLoc (config.getHash key))

/-- A key with the next data node comes into an entry of the header node at an offset. -/
def addEntry (loc : Nat) (i : Fin clusterH) (key val : Nat) : Table × Nat :=
  let node := table.headers loc
  let dataLoc := config.getDataNodeLoc table.freeData
  let freeNode := table.datas dataLoc
  ({ table with
      headers := Function.update table.headers loc { node with
        keys := Function.update node.keys i key
        indexes := Function.update node.indexes i table.freeData }
      datas := Function.update table.datas dataLoc { freeNode with key := key, value := val }
      freeData := table.freeData + 1 }, dataLoc)

/-- The insertion of `_GetWithInsert` into the last node of a chain, or into a new one behind
it.  No result if no data node or no header node is left. -/
def addKey (last key val : Nat) : Option (Table × Nat) :=
  if table.freeData = config.totalLength then
    none
  else
    match (List.finRange clusterH).find? fun i => (table.headers last).indexes i == 0 with
    | some i => some (table.addEntry config last i key val)
    | none =>
        if table.freeIndirect = config.indirectLength then
          none
        else
          let node := table.headers last
          let linked := { table with
            headers := Function.update table.headers last { node with next := table.freeIndirect }
            freeIndirect := table.freeIndirect + 1 }
          some (linked.addEntry config (table.freeIndirect * headerSize) 0 key val)

/-- `_GetWithInsert`, with the offset of the data node whose `MemNode` it returns. -/
def getWithInsert (key val : Nat) : Option (Table × Nat) :=
  (table.search config key).bind fun
    | .inl dataLoc => some (table, dataLoc)
    | .inr last => table.addKey config last key val

/-- `Put`. -/
def put (key val : Nat) : Option (Table × Nat) := table.getWithInsert config key val

/-- The offset in the RDMA region of the header node that is read next. -/
def nextOff (off : Nat) : Option Nat :=
  let node := table.headers (off - config.baseOff)
  if node.next ≠ 0 then some (Config.getHeaderNodeLoc node.next + config.baseOff) else none

/-- `RemoteTraverse`: the offset from which the `MemNode` is read, and the offset in it, which
is returned.  Behind the last node an assertion fails. -/
def remoteTraverse (key : Nat) : Option (Option (Nat × Nat)) :=
  walk (table.nextOff config)
    (fun off =>
      let node := table.headers (off - config.baseOff)
      ((List.finRange clusterH).find? (node.isKey key)).map fun i =>
        let loc := config.getDataNodeLoc (node.indexes i) + dataNodeSize
        some (loc + config.baseOff, (table.datas (loc - dataNodeSize)).off))
    (fun _ => none) (config.indirectLength + 1)
    (Config.getHeaderNodeLoc (config.getHash key) + config.baseOff)

end Table

end Rocc.Memstore.RdmaHashExt
