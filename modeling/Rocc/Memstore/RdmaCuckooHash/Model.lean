import Rocc.Base.Shift

/-!
# `RdmaCuckooHash`

An array of nodes in buckets of four, with two buckets for each key.  `Insert` takes a free
node of one of the two.  When there is none, `find_path` walks from a random node of one of
them: each time to a random node of the other bucket of the key it is at, until there is a
free one.  Then the entries of the walk are copied one place on, from its end to its start.

The outcomes of `rand` are given to `Insert` in the order in which they are used.
-/

namespace Rocc.Memstore.RdmaCuckooHash

universe u

/-- `SLOT_PER_BUCKET`. -/
abbrev slotPerBucket : Nat := 4

/-- `MAX_TRY`. -/
def maxTry : Nat := 500

/-- `RdmaArrayNode`. -/
structure RdmaArrayNode where
  key : Nat
  index : Nat
  valid : Bool

/-- The sizes of a table, and the functions in place of `GetHash` and `GetHash2`. -/
structure Config where
  bucketlength : Nat
  entrysize : Nat
  getHash : Nat → Nat
  getHash2 : Nat → Nat
  entrysize_pos : 0 < entrysize
  getHash_lt : ∀ key, getHash key < bucketlength
  getHash2_lt : ∀ key, getHash2 key < bucketlength

/-- `sizeof(RdmaArrayNode)`. -/
def nodeSize : Nat := 24

/-- `get_dataloc`. -/
def Config.getDataloc (config : Config) (index : Nat) : Nat :=
  config.bucketlength * (nodeSize * slotPerBucket) + config.entrysize * index

/-- The nodes, what is stored at each offset, and `free_ptr`. -/
structure Table (Data : Type u) where
  header : Nat → RdmaArrayNode
  datas : Nat → Data
  freePtr : Nat

/-- The nodes of a bucket, in the order in which they are looked at. -/
def slotsOf (bucket : Nat) : List Nat :=
  (List.range slotPerBucket).map (bucket * slotPerBucket + ·)

variable {Data : Type u}

namespace Table

/-- A table over memory that is zero. -/
def init (zeroed : Data) : Table Data where
  header _ := ⟨0, 0, false⟩
  datas _ := zeroed
  freePtr := 0

variable (config : Config) (table : Table Data)

/-- The other bucket of the key in a node. -/
def anotherHash (pos : Nat) : Nat :=
  let key := (table.header pos).key
  if config.getHash key = pos / slotPerBucket then config.getHash2 key else config.getHash key

/-- `find_path`, from the node `kickPos` on with some tries left.  No result if the assertion
fails that there are enough. -/
def findPath : Nat → List Nat → Nat → Option (List Nat)
  | 0, _, _ => none
  | tries + 1, rands, kickPos =>
      let another := table.anotherHash config kickPos
      match (slotsOf another).find? fun pos => !(table.header pos).valid with
      | some pos => some [kickPos, pos]
      | none =>
          (findPath tries rands.tail
            (another * slotPerBucket + rands.headD 0 % slotPerBucket)).map (kickPos :: ·)

/-- The copies of `Insert`, from the end of the walk to its start. -/
def copyBack (header : Nat → RdmaArrayNode) : List Nat → Nat → RdmaArrayNode
  | prev :: pos :: rest =>
      let moved := copyBack header (pos :: rest)
      Function.update moved pos
        { moved pos with key := (moved prev).key, index := (moved prev).index }
  | _ => header

/-- The data of a key comes behind all others. -/
def putData (data : Data) : Table Data :=
  { table with
    datas := Function.update table.datas (config.getDataloc table.freePtr) data
    freePtr := table.freePtr + 1 }

/-- A free node of one of the two buckets of a key. -/
def freeSlot (key : Nat) : Option Nat :=
  (slotsOf (config.getHash key) ++ slotsOf (config.getHash2 key)).find? fun pos =>
    !(table.header pos).valid

/-- The walk that makes room for a key. -/
def kickPath (key : Nat) (rands : List Nat) : Option (List Nat) :=
  let bucket := if rands.headD 0 % 2 = 0 then config.getHash key else config.getHash2 key
  table.findPath config maxTry (rands.drop 2)
    (bucket * slotPerBucket + (rands.drop 1).headD 0 % slotPerBucket)

/-- The last node of the walk becomes valid, the entries are copied back, and the new key comes
into the first node. -/
def moveAlong (key : Nat) (path : List Nat) : Table Data :=
  let last := path.getLastD 0
  let opened := Function.update table.header last { table.header last with valid := true }
  let moved := copyBack opened path
  let first := path.headD 0
  { table with
    header := Function.update moved first
      { moved first with key := key, index := table.freePtr } }

/-- `Insert`. -/
def insert (key : Nat) (data : Data) (rands : List Nat) : Option (Table Data) :=
  match table.freeSlot config key with
  | some pos =>
      let placed := { table with
        header := Function.update table.header pos ⟨key, table.freePtr, true⟩ }
      some (placed.putData config data)
  | none =>
      (table.kickPath config key rands).map fun path =>
        (table.moveAlong key path).putData config data

/-- `Get`: what is stored for a key, or none for `NULL`. -/
def get (key : Nat) : Option Data :=
  ((slotsOf (config.getHash key) ++ slotsOf (config.getHash2 key)).find? fun pos =>
    (table.header pos).valid && (table.header pos).key == key).map fun pos =>
      table.datas (config.getDataloc (table.header pos).index)

end Table

end Rocc.Memstore.RdmaCuckooHash
