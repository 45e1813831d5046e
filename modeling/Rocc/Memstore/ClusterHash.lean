import Mathlib.Data.List.FinRange
import Mathlib.Logic.Function.Basic
import Rocc.Base.Run
import Rocc.Rtx.Record

/-!
# The clustered hash table

The model of `ClusterHash`: buckets of four entries in front, indirect nodes behind
them, and a `next` index from a full node to the indirect node that continues it.
Keys are 63 bits wide next to their `valid` bit, so a larger key is stored truncated
and never found again.

A search follows the chain of its bucket.  Chains lead to larger and larger indices,
so a search ends within the number of indirect nodes, and an insertion moves no entry
that was found before.
-/

namespace Rocc.Memstore

open Rtx

universe u

/-- `DRTM_CLUSTER_NUM`. -/
abbrev clusterNum : Nat := 4

/-- `HeaderNode`; an entry without its `valid` bit has no key. -/
structure HeaderNode (Data : Type u) where
  keys : Fin clusterNum → Option Nat
  datas : Fin clusterNum → Data
  next : Nat

/-- A position in the table. -/
structure Slot where
  node : Nat
  index : Fin clusterNum
  deriving DecidableEq, Repr

/-- `logical_num_`, `indirect_num_` and `base_off_`. -/
structure TableConfig where
  logicalNum : Nat
  indirectNum : Nat
  baseOff : Nat
  logical_pos : 0 < logicalNum
  indirect_pos : 0 < indirectNum

/-- The nodes in memory and `free_indirect_num_`. -/
structure Table (Data : Type u) where
  nodes : Nat → HeaderNode Data
  freeIndirectNum : Nat

variable {Data : Type u}

/-- A zeroed node. -/
def HeaderNode.zero (zeroed : Data) : HeaderNode Data where
  keys _ := none
  datas _ := zeroed
  next := 0

/-- The constructor zeroes the table; the first indirect node is left out. -/
def Table.initial (zeroed : Data) : Table Data where
  nodes _ := .zero zeroed
  freeIndirectNum := 1

/-- `murmur_hash_64a`. -/
def murmurHash64a (key seed : Nat) : Nat :=
  let m := 0xc6a4a7935bd1e995
  let r := 47
  let h := seed ^^^ (8 * m % wordBound)
  let k := key * m % wordBound
  let k := k ^^^ (k >>> r)
  let k := k * m % wordBound
  let h := (h ^^^ k) * m % wordBound
  let h := h ^^^ (h >>> r)
  let h := h * m % wordBound
  h ^^^ (h >>> r)

/-- `get_hash`: the bucket of a key. -/
def TableConfig.getHash (config : TableConfig) (key : Nat) : Nat :=
  murmurHash64a key 0xdeadbeef % config.logicalNum

/-- The position of an indirect node. -/
def TableConfig.indirectNode (config : TableConfig) (index : Nat) : Nat :=
  index + config.logicalNum

/-- A key as it is stored. -/
def storedKey (key : Nat) : Nat := key % 2 ^ 63

/-- The entry of a key in a node. -/
def HeaderNode.entryOf (node : HeaderNode Data) (key : Nat) : Option (Fin clusterNum) :=
  (List.finRange clusterNum).find? fun index => node.keys index == some key

/-- The first entry of a node that is not valid. -/
def HeaderNode.freeEntry (node : HeaderNode Data) : Option (Fin clusterNum) :=
  (List.finRange clusterNum).find? fun index => (node.keys index).isNone

/-! ## Operations -/

/-- The loop of `get`, with the slot found or, at the end of the chain, none.  No result
when `fuel` does not suffice. -/
def getFrom (config : TableConfig) (nodes : Nat → HeaderNode Data) (key : Nat) :
    Nat → Nat → Option (Option Slot)
  | 0, _ => none
  | fuel + 1, position =>
      let node := nodes position
      match node.entryOf key with
      | some index => some (some ⟨position, index⟩)
      | none =>
          if node.next ≠ 0 then
            getFrom config nodes key fuel (config.indirectNode node.next)
          else
            some none

/-- `get`. -/
def Table.get (config : TableConfig) (table : Table Data) (key : Nat) :
    Option (Option Slot) :=
  getFrom config table.nodes key (config.indirectNum + 1) (config.getHash key)

/-- Mark an entry as taken. -/
def Table.setKey (table : Table Data) (slot : Slot) (key : Nat) : Table Data :=
  let node := table.nodes slot.node
  let marked := { node with keys := Function.update node.keys slot.index (some key) }
  { table with nodes := Function.update table.nodes slot.node marked }

/-- A new indirect node behind `position`, with the key in its first entry.  No result
when none is left. -/
def Table.allocNew (config : TableConfig) (zeroed : Data) (table : Table Data)
    (position key : Nat) : Option (Table Data × Slot) :=
  let free := table.freeIndirectNum
  if free < config.indirectNum then
    let fresh := config.indirectNode free
    let cleared := Function.update table.nodes fresh { HeaderNode.zero zeroed with
      keys := Function.update (fun _ => none) 0 (some key) }
    some ({ nodes := Function.update cleared position { cleared position with next := free }
            freeIndirectNum := free + 1 }, ⟨fresh, 0⟩)
  else
    none

/-- The loop of `insert`. -/
def insertFrom (config : TableConfig) (zeroed : Data) (table : Table Data) (key : Nat) :
    Nat → Nat → Option (Table Data × Slot)
  | 0, _ => none
  | fuel + 1, position =>
      let node := table.nodes position
      match node.freeEntry with
      | some index =>
          some (table.setKey ⟨position, index⟩ (storedKey key), ⟨position, index⟩)
      | none =>
          if node.next ≠ 0 then
            insertFrom config zeroed table key fuel (config.indirectNode node.next)
          else
            table.allocNew config zeroed position (storedKey key)

/-- `insert`. -/
def Table.insert (config : TableConfig) (zeroed : Data) (table : Table Data) (key : Nat) :
    Option (Table Data × Slot) :=
  insertFrom config zeroed table key (config.indirectNum + 1) (config.getHash key)

/-- `get_with_insert`. -/
def Table.getWithInsert (config : TableConfig) (zeroed : Data) (table : Table Data)
    (key : Nat) : Option (Table Data × Slot) :=
  (table.get config key).bind fun
    | some slot => some (table, slot)
    | none => table.insert config zeroed key

/-- The contents of an entry. -/
def Table.data (table : Table Data) (slot : Slot) : Data :=
  (table.nodes slot.node).datas slot.index

/-- Overwrite the contents of an entry. -/
def Table.setData (table : Table Data) (slot : Slot) (data : Data) : Table Data :=
  let node := table.nodes slot.node
  let written := { node with datas := Function.update node.datas slot.index data }
  { table with nodes := Function.update table.nodes slot.node written }

/-- `sizeof(HeaderNode)`: four keys, four `MemNode`s on cache lines of their own, and
`next` on the last line. -/
def headerNodeSize : Nat := 384

/-- Offset of an entry in the RDMA region. -/
def TableConfig.slotOff (config : TableConfig) (slot : Slot) : Nat :=
  slot.node * headerNodeSize + config.baseOff + (64 + 64 * slot.index)

/-- `size_`. -/
def TableConfig.size (config : TableConfig) : Nat :=
  (config.indirectNum + config.logicalNum) * headerNodeSize

/-- `remote_get`: the same walk with one read a node; the entry's offset and contents. -/
def Table.remoteGet (config : TableConfig) (table : Table Data) (key : Nat) :
    Option (Nat × Data) :=
  if config.baseOff ≠ 0 then
    (table.get config key).join.map fun slot => (config.slotOff slot, table.data slot)
  else
    none

/-! ## Well-formed tables -/

/-- Where a position stands on its chain: buckets come first, then the indirect nodes. -/
def TableConfig.rank (config : TableConfig) (position : Nat) : Nat :=
  position - config.logicalNum

/-- Chains lead to larger indirect nodes that have been handed out, and the others are
untouched. -/
structure Table.WellFormed (config : TableConfig) (table : Table Data) : Prop where
  free_pos : 0 < table.freeIndirectNum
  free_le : table.freeIndirectNum ≤ config.indirectNum
  next_lt : ∀ position, (table.nodes position).next < table.freeIndirectNum
  increasing : ∀ position, (table.nodes position).next ≠ 0 →
    config.rank position < (table.nodes position).next
  untouched : ∀ index, table.freeIndirectNum ≤ index →
    (∀ entry, (table.nodes (config.indirectNode index)).keys entry = none) ∧
      (table.nodes (config.indirectNode index)).next = 0

variable {config : TableConfig} {table after : Table Data} {zeroed : Data}

theorem wellFormed_initial : (Table.initial zeroed).WellFormed config := by
  constructor
  case free_le => exact config.indirect_pos
  all_goals simp [Table.initial, HeaderNode.zero]

theorem rank_indirectNode (index : Nat) :
    config.rank (config.indirectNode index) = index := by
  simp [TableConfig.rank, TableConfig.indirectNode]

theorem Table.WellFormed.rank_getHash (wellFormed : table.WellFormed config) (key : Nat) :
    config.rank (config.getHash key) < table.freeIndirectNum := by
  have inside := Nat.mod_lt (murmurHash64a key 0xdeadbeef) config.logical_pos
  have positive := wellFormed.free_pos
  rw [TableConfig.rank, TableConfig.getHash]
  omega

theorem entryOf_eq_some {node : HeaderNode Data} {key : Nat} {index : Fin clusterNum}
    (found : node.entryOf key = some index) : node.keys index = some key := by
  simpa using List.find?_some found

theorem entryOf_eq_none {node : HeaderNode Data} {key : Nat} :
    node.entryOf key = none ↔ ∀ index, node.keys index ≠ some key := by
  simp [HeaderNode.entryOf]

theorem freeEntry_eq_some {node : HeaderNode Data} {index : Fin clusterNum}
    (found : node.freeEntry = some index) : node.keys index = none := by
  simpa using List.find?_some found

/-- A search that ends does not need more fuel. -/
theorem getFrom_succ {nodes : Nat → HeaderNode Data} {key fuel position : Nat}
    {result : Option Slot} (ended : getFrom config nodes key fuel position = some result) :
    getFrom config nodes key (fuel + 1) position = some result := by
  induction fuel generalizing position with
  | zero => cases ended
  | succ fuel ih =>
      rw [getFrom] at ended ⊢
      cases entry : (nodes position).entryOf key with
      | some index =>
          simpa only [entry] using ended
      | none =>
          simp only [entry] at ended ⊢
          split at ended
          · rename_i continues
            rw [if_pos continues]
            exact ih ended
          · rename_i stops
            rwa [if_neg stops]

theorem getFrom_of_le {nodes : Nat → HeaderNode Data} {key fuel more position : Nat}
    {result : Option Slot} (enough : fuel ≤ more)
    (ended : getFrom config nodes key fuel position = some result) :
    getFrom config nodes key more position = some result := by
  induction more, enough using Nat.le_induction with
  | base => exact ended
  | succ more _ ih => exact getFrom_succ ih

/-- A search on a well-formed table ends. -/
theorem Table.WellFormed.getFrom_isSome (wellFormed : table.WellFormed config) (key : Nat)
    {fuel position : Nat} (enough : table.freeIndirectNum ≤ config.rank position + fuel)
    (positive : 0 < fuel) : (getFrom config table.nodes key fuel position).isSome := by
  induction fuel generalizing position with
  | zero => cases positive
  | succ fuel ih =>
      rw [getFrom]
      cases entry : (table.nodes position).entryOf key with
      | some index => rfl
      | none =>
          simp only
          split
          · rename_i continues
            have larger := wellFormed.increasing position continues
            have bounded := wellFormed.next_lt position
            apply ih
            · rw [rank_indirectNode]
              omega
            · omega
          · rfl

theorem Table.WellFormed.get_isSome (wellFormed : table.WellFormed config) (key : Nat) :
    (table.get config key).isSome := by
  apply wellFormed.getFrom_isSome
  · have bound := wellFormed.free_le
    omega
  · omega

/-- The slot found holds the key. -/
theorem keys_of_getFrom {nodes : Nat → HeaderNode Data} {key fuel position : Nat} {slot : Slot}
    (found : getFrom config nodes key fuel position = some (some slot)) :
    (nodes slot.node).keys slot.index = some key := by
  induction fuel generalizing position with
  | zero => cases found
  | succ fuel ih =>
      rw [getFrom] at found
      cases entry : (nodes position).entryOf key with
      | some index =>
          simp only [entry, Option.some.injEq] at found
          subst found
          exact entryOf_eq_some entry
      | none =>
          simp only [entry] at found
          split at found
          · exact ih found
          · cases found

/-- Two keys are never found in the same slot. -/
theorem Table.slot_injective {key other : Nat} {slot : Slot}
    (found : table.get config key = some (some slot))
    (alsoFound : table.get config other = some (some slot)) : key = other := by
  have first := keys_of_getFrom found
  rw [keys_of_getFrom alsoFound] at first
  exact (Option.some.inj first).symm

/-- The node of a slot found lies in the table. -/
theorem Table.WellFormed.node_lt_of_getFrom (wellFormed : table.WellFormed config)
    {key fuel position : Nat} {slot : Slot}
    (inside : position < config.indirectNum + config.logicalNum)
    (found : getFrom config table.nodes key fuel position = some (some slot)) :
    slot.node < config.indirectNum + config.logicalNum := by
  induction fuel generalizing position with
  | zero => cases found
  | succ fuel ih =>
      rw [getFrom] at found
      cases entry : (table.nodes position).entryOf key with
      | some index =>
          simp only [entry, Option.some.injEq] at found
          subst found
          exact inside
      | none =>
          simp only [entry] at found
          split at found
          · have bounded := wellFormed.next_lt position
            have room := wellFormed.free_le
            apply ih _ found
            rw [TableConfig.indirectNode]
            omega
          · cases found

theorem Table.WellFormed.node_lt (wellFormed : table.WellFormed config) {key : Nat}
    {slot : Slot} (found : table.get config key = some (some slot)) :
    slot.node < config.indirectNum + config.logicalNum := by
  apply wellFormed.node_lt_of_getFrom _ found
  have bucket := Nat.mod_lt (murmurHash64a key 0xdeadbeef) config.logical_pos
  rw [TableConfig.getHash]
  omega

/-! ## Insertion -/

/-- The nodes after an insertion: an entry that was free has the key, or a new node has it
and hangs on a node that had no successor. -/
inductive Inserted (config : TableConfig) (zeroed : Data) (table : Table Data) (key : Nat) :
    Table Data → Slot → Prop where
  | entry (slot : Slot) : config.rank slot.node < table.freeIndirectNum →
      (table.nodes slot.node).keys slot.index = none →
      Inserted config zeroed table key (table.setKey slot (storedKey key)) slot
  | node (position : Nat) (after : Table Data) (slot : Slot) :
      config.rank position < table.freeIndirectNum → (table.nodes position).next = 0 →
      table.allocNew config zeroed position (storedKey key) = some (after, slot) →
      Inserted config zeroed table key after slot

theorem Table.WellFormed.inserted_of_insertFrom (wellFormed : table.WellFormed config)
    {key fuel position : Nat} {slot : Slot}
    (inside : config.rank position < table.freeIndirectNum)
    (inserted : insertFrom config zeroed table key fuel position = some (after, slot)) :
    Inserted config zeroed table key after slot := by
  induction fuel generalizing position with
  | zero => cases inserted
  | succ fuel ih =>
      rw [insertFrom] at inserted
      cases free : (table.nodes position).freeEntry with
      | some index =>
          simp only [free, Option.some.injEq, Prod.mk.injEq] at inserted
          obtain ⟨rfl, rfl⟩ := inserted
          exact .entry _ inside (freeEntry_eq_some free)
      | none =>
          simp only [free] at inserted
          split at inserted
          · apply ih _ inserted
            rw [rank_indirectNode]
            exact wellFormed.next_lt position
          · rename_i stops
            exact .node position after slot inside (not_not.mp stops) inserted

theorem allocNew_eq_some {position key : Nat} {slot : Slot}
    (allocated : table.allocNew config zeroed position key = some (after, slot)) :
    table.freeIndirectNum < config.indirectNum ∧
      slot = ⟨config.indirectNode table.freeIndirectNum, 0⟩ ∧
      after.freeIndirectNum = table.freeIndirectNum + 1 ∧
      ∀ other, other ≠ position → other ≠ config.indirectNode table.freeIndirectNum →
        after.nodes other = table.nodes other := by
  simp only [Table.allocNew] at allocated
  split at allocated
  · rename_i room
    cases allocated
    refine ⟨room, rfl, rfl, ?_⟩
    intro other different notFresh
    simp [Function.update_of_ne different, Function.update_of_ne notFresh]
  · cases allocated

/-- The two nodes an allocation changes. -/
theorem allocNew_nodes {position key : Nat} {slot : Slot}
    (allocated : table.allocNew config zeroed position key = some (after, slot))
    (old : position ≠ config.indirectNode table.freeIndirectNum) :
    after.nodes position =
        { table.nodes position with next := table.freeIndirectNum } ∧
      after.nodes (config.indirectNode table.freeIndirectNum) =
        { HeaderNode.zero zeroed with
          keys := Function.update (fun _ => none) 0 (some key) } := by
  simp only [Table.allocNew] at allocated
  split at allocated
  · cases allocated
    constructor
    · simp [Function.update_of_ne old]
    · simp [Function.update_of_ne (Ne.symm old)]
  · cases allocated

/-- A node on a chain is none of those not handed out. -/
theorem ne_indirectNode {position index : Nat} (inside : config.rank position < index) :
    position ≠ config.indirectNode index := by
  rintro rfl
  rw [rank_indirectNode] at inside
  exact lt_irrefl _ inside

theorem setKey_next (slot : Slot) (key position : Nat) :
    ((table.setKey slot key).nodes position).next = (table.nodes position).next := by
  simp only [Table.setKey]
  by_cases same : position = slot.node
  · subst same
    rw [Function.update_self]
  · rw [Function.update_of_ne same]

theorem Table.WellFormed.insert (wellFormed : table.WellFormed config) {key : Nat}
    {slot : Slot} (inserted : Inserted config zeroed table key after slot) :
    after.WellFormed config := by
  cases inserted with
  | entry slot inside _ =>
      constructor
      · exact wellFormed.free_pos
      · exact wellFormed.free_le
      · intro position
        rw [setKey_next]
        exact wellFormed.next_lt position
      · intro position
        rw [setKey_next]
        exact wellFormed.increasing position
      · intro index unused
        have elsewhere : config.indirectNode index ≠ slot.node :=
          (ne_indirectNode (inside.trans_le unused)).symm
        have same : (table.setKey slot (storedKey key)).nodes (config.indirectNode index) =
            table.nodes (config.indirectNode index) := Function.update_of_ne elsewhere _ _
        rw [same]
        exact wellFormed.untouched index unused
  | node position after slot inside last allocated =>
      have old := ne_indirectNode inside
      obtain ⟨room, rfl, advanced, others⟩ := allocNew_eq_some allocated
      obtain ⟨atPosition, atFresh⟩ := allocNew_nodes allocated old
      constructor
      · omega
      · omega
      · intro other
        rw [advanced]
        by_cases same : other = position
        · rw [same, atPosition]
          exact Nat.lt_succ_self _
        · by_cases fresh : other = config.indirectNode table.freeIndirectNum
          · rw [fresh, atFresh]
            exact Nat.succ_pos _
          · rw [others other same fresh]
            exact (wellFormed.next_lt other).trans (Nat.lt_succ_self _)
      · intro other
        by_cases same : other = position
        · rw [same, atPosition]
          exact fun _ => inside
        · by_cases fresh : other = config.indirectNode table.freeIndirectNum
          · rw [fresh, atFresh]
            exact fun continues => absurd rfl continues
          · rw [others other same fresh]
            exact wellFormed.increasing other
      · intro index unused
        rw [advanced] at unused
        have notPosition : config.indirectNode index ≠ position :=
          (ne_indirectNode (inside.trans (by omega))).symm
        have notFresh : config.indirectNode index ≠
            config.indirectNode table.freeIndirectNum := by
          simp only [TableConfig.indirectNode]
          omega
        rw [others _ notPosition notFresh]
        exact wellFormed.untouched index (by omega)

theorem entryOf_congr {node other : HeaderNode Data} {key : Nat}
    (same : ∀ index, node.keys index = some key ↔ other.keys index = some key) :
    node.entryOf key = other.entryOf key := by
  unfold HeaderNode.entryOf
  congr 1
  funext index
  rw [Bool.eq_iff_iff, beq_iff_eq, beq_iff_eq]
  exact same index

/-- An entry whose key was found before is found in the same place. -/
theorem getFrom_congr {nodes next : Nat → HeaderNode Data} {key fuel position : Nat}
    {slot : Slot} (entries : ∀ position, (next position).entryOf key = (nodes position).entryOf key)
    (chains : ∀ position, (nodes position).next ≠ 0 →
      (next position).next = (nodes position).next)
    (found : getFrom config nodes key fuel position = some (some slot)) :
    getFrom config next key fuel position = some (some slot) := by
  induction fuel generalizing position with
  | zero => cases found
  | succ fuel ih =>
      rw [getFrom] at found ⊢
      rw [entries position]
      cases entry : (nodes position).entryOf key with
      | some index => simpa only [entry] using found
      | none =>
          simp only [entry] at found ⊢
          split at found
          · rename_i continues
            rw [if_pos (by rwa [chains position continues]), chains position continues]
            exact ih found
          · cases found

/-- An insertion leaves the other keys where they are. -/
theorem Table.WellFormed.get_of_inserted (wellFormed : table.WellFormed config)
    {key other : Nat} {slot found : Slot} (different : storedKey key ≠ other)
    (inserted : Inserted config zeroed table key after slot)
    (present : table.get config other = some (some found)) :
    after.get config other = some (some found) := by
  apply getFrom_congr _ _ present
  · intro position
    apply entryOf_congr
    intro index
    cases inserted with
    | entry slot _ free =>
        simp only [Table.setKey]
        by_cases same : position = slot.node
        · subst same
          rw [Function.update_self]
          by_cases chosen : index = slot.index
          · subst chosen
            simp [free, different]
          · simp [Function.update_of_ne chosen]
        · rw [Function.update_of_ne same]
    | node last after slot inside _ allocated =>
        obtain ⟨-, -, -, others⟩ := allocNew_eq_some allocated
        obtain ⟨atLast, atFresh⟩ := allocNew_nodes allocated (ne_indirectNode inside)
        by_cases same : position = last
        · rw [same, atLast]
        · by_cases fresh : position = config.indirectNode table.freeIndirectNum
          · rw [fresh, atFresh, (wellFormed.untouched _ le_rfl).1 index]
            by_cases first : index = 0
            · subst first
              simp [different]
            · simp [Function.update_of_ne first]
          · rw [others position same fresh]
  · intro position continues
    cases inserted with
    | entry slot _ _ => exact setKey_next slot _ position
    | node last after slot inside stops allocated =>
        obtain ⟨-, -, -, others⟩ := allocNew_eq_some allocated
        have notLast : position ≠ last := by
          rintro rfl
          exact continues stops
        have notFresh : position ≠ config.indirectNode table.freeIndirectNum := by
          rintro rfl
          exact continues (wellFormed.untouched _ le_rfl).2
        rw [others position notLast notFresh]

/-- An insertion from a node on changes nothing before it. -/
theorem Table.WellFormed.insertFrom_before (wellFormed : table.WellFormed config)
    {key fuel position : Nat} {slot : Slot}
    (inside : config.rank position < table.freeIndirectNum)
    (inserted : insertFrom config zeroed table key fuel position = some (after, slot))
    {earlier : Nat} (before : config.rank earlier < config.rank position) :
    after.nodes earlier = table.nodes earlier := by
  induction fuel generalizing position with
  | zero => cases inserted
  | succ fuel ih =>
      have different : earlier ≠ position := by
        rintro rfl
        exact lt_irrefl _ before
      rw [insertFrom] at inserted
      cases free : (table.nodes position).freeEntry with
      | some index =>
          simp only [free, Option.some.injEq, Prod.mk.injEq] at inserted
          obtain ⟨rfl, rfl⟩ := inserted
          exact Function.update_of_ne different _ _
      | none =>
          simp only [free] at inserted
          split at inserted
          · rename_i continues
            apply ih _ inserted
            · rw [rank_indirectNode]
              exact before.trans (wellFormed.increasing position continues)
            · rw [rank_indirectNode]
              exact wellFormed.next_lt position
          · obtain ⟨-, -, -, others⟩ := allocNew_eq_some inserted
            exact others earlier different (ne_indirectNode (before.trans inside))

/-- A key that was absent is found where it was inserted. -/
theorem Table.WellFormed.getFrom_insertFrom (wellFormed : table.WellFormed config)
    {key fuel position : Nat} {slot : Slot} (small : storedKey key = key)
    (inside : config.rank position < table.freeIndirectNum)
    (absent : getFrom config table.nodes key fuel position = some none)
    (inserted : insertFrom config zeroed table key fuel position = some (after, slot)) :
    getFrom config after.nodes key (fuel + 1) position = some (some slot) := by
  induction fuel generalizing position with
  | zero => cases inserted
  | succ fuel ih =>
      rw [getFrom] at absent
      rw [insertFrom] at inserted
      have missing : (table.nodes position).entryOf key = none := by
        cases entry : (table.nodes position).entryOf key with
        | none => rfl
        | some index => simp [entry] at absent
      simp only [missing] at absent
      cases free : (table.nodes position).freeEntry with
      | some index =>
          simp only [free, Option.some.injEq, Prod.mk.injEq] at inserted
          obtain ⟨rfl, rfl⟩ := inserted
          have entry : ((table.setKey ⟨position, index⟩ (storedKey key)).nodes
              position).entryOf key = some index := by
            cases found : ((table.setKey ⟨position, index⟩ (storedKey key)).nodes
                position).entryOf key with
            | none =>
                have absurdKey := entryOf_eq_none.mp found index
                simp [Table.setKey, small] at absurdKey
            | some other =>
                have stored := entryOf_eq_some found
                by_contra different
                have notChosen : other ≠ index := fun same => different (by rw [same])
                simp only [Table.setKey, Function.update_self,
                  Function.update_of_ne notChosen] at stored
                exact entryOf_eq_none.mp missing other stored
          rw [getFrom]
          simp only [entry]
      | none =>
          simp only [free] at inserted
          split at inserted
          · rename_i continues
            rw [if_pos continues] at absent
            have larger : config.rank position <
                config.rank (config.indirectNode (table.nodes position).next) := by
              rw [rank_indirectNode]
              exact wellFormed.increasing position continues
            have room : config.rank (config.indirectNode (table.nodes position).next) <
                table.freeIndirectNum := by
              rw [rank_indirectNode]
              exact wellFormed.next_lt position
            have same := wellFormed.insertFrom_before room inserted larger
            rw [getFrom, same]
            simp only [missing, if_pos continues]
            exact ih room absent inserted
          · -- The chain ends here and the new node is its continuation.
            obtain ⟨-, rfl, -, -⟩ := allocNew_eq_some inserted
            obtain ⟨atPosition, atFresh⟩ := allocNew_nodes inserted (ne_indirectNode inside)
            have kept : (after.nodes position).entryOf key = none := by
              rw [atPosition]
              exact missing
            have entry : (after.nodes (config.indirectNode table.freeIndirectNum)).entryOf key =
                some 0 := by
              rw [atFresh, small]
              simp [HeaderNode.entryOf, List.finRange_succ]
            have successor : (after.nodes position).next = table.freeIndirectNum := by
              rw [atPosition]
            have positive := wellFormed.free_pos
            rw [getFrom, kept, successor]
            simp only
            rw [if_pos (by omega), getFrom]
            simp only [entry]

/-- What `get_with_insert` does: the table stays well formed, the key is found in the slot
returned, and every key found before is found where it was. -/
theorem Table.WellFormed.getWithInsert (wellFormed : table.WellFormed config) {key : Nat}
    {slot : Slot} (inserted : table.getWithInsert config zeroed key = some (after, slot)) :
    after.WellFormed config ∧
      (storedKey key = key → after.get config key = some (some slot)) ∧
      ∀ other found, storedKey key = key → table.get config other = some (some found) →
        after.get config other = some (some found) := by
  obtain ⟨result, looked, inserted⟩ := Option.bind_eq_some_iff.mp inserted
  cases result with
  | some existing =>
      cases inserted
      exact ⟨wellFormed, fun _ => looked, fun _ _ _ present => present⟩
  | none =>
      have bucket := wellFormed.rank_getHash key
      have shape := wellFormed.inserted_of_insertFrom bucket inserted
      have kept := wellFormed.insert shape
      refine ⟨kept, ?_, ?_⟩
      · intro small
        -- One more node than before was enough, and the table's own bound is enough too.
        have longer := wellFormed.getFrom_insertFrom small bucket looked inserted
        obtain ⟨result, ended⟩ := Option.isSome_iff_exists.mp (kept.get_isSome key)
        have same := getFrom_of_le (Nat.le_succ _) ended
        rw [longer] at same
        rw [ended]
        exact same.symm
      · intro other found small present
        apply wellFormed.get_of_inserted _ shape present
        intro same
        rw [small] at same
        rw [← same, looked] at present
        cases present

/-! ## Contents -/

theorem setData_nodes (table : Table Data) (slot : Slot) (data : Data) (position : Nat) :
    ((table.setData slot data).nodes position).keys = (table.nodes position).keys ∧
      ((table.setData slot data).nodes position).next = (table.nodes position).next := by
  simp only [Table.setData]
  by_cases same : position = slot.node
  · subst same
    rw [Function.update_self]
    exact ⟨rfl, rfl⟩
  · rw [Function.update_of_ne same]
    exact ⟨rfl, rfl⟩

theorem getFrom_setData (slot : Slot) (data : Data) (key fuel position : Nat) :
    getFrom config (table.setData slot data).nodes key fuel position =
      getFrom config table.nodes key fuel position := by
  induction fuel generalizing position with
  | zero => rfl
  | succ fuel ih =>
      obtain ⟨keys, next⟩ := setData_nodes table slot data position
      have entry : ((table.setData slot data).nodes position).entryOf key =
          (table.nodes position).entryOf key := by
        rw [HeaderNode.entryOf, keys, HeaderNode.entryOf]
      rw [getFrom, getFrom, entry, next]
      simp only [ih]

@[simp] theorem get_setData (slot : Slot) (data : Data) (key : Nat) :
    (table.setData slot data).get config key = table.get config key :=
  getFrom_setData slot data key _ _

theorem Table.WellFormed.setData (wellFormed : table.WellFormed config) (slot : Slot)
    (data : Data) : (table.setData slot data).WellFormed config := by
  have same := setData_nodes table slot data
  constructor
  · exact wellFormed.free_pos
  · exact wellFormed.free_le
  · intro position
    rw [(same position).2]
    exact wellFormed.next_lt position
  · intro position
    rw [(same position).2]
    exact wellFormed.increasing position
  · intro index unused
    rw [(same _).1, (same _).2]
    exact wellFormed.untouched index unused

@[simp] theorem data_setData_self (slot : Slot) (data : Data) :
    (table.setData slot data).data slot = data := by
  simp [Table.setData, Table.data]

theorem data_setData_of_ne {slot other : Slot} (different : other ≠ slot) (data : Data) :
    (table.setData slot data).data other = table.data other := by
  simp only [Table.setData, Table.data]
  by_cases same : other.node = slot.node
  · have elsewhere : other.index ≠ slot.index := by
      intro sameIndex
      apply different
      cases other
      cases slot
      simp_all
    rw [same, Function.update_self]
    exact Function.update_of_ne elsewhere _ _
  · rw [Function.update_of_ne same]

/-- Contents are kept or zeroed, and those of a key found before are kept. -/
theorem Table.WellFormed.data_getWithInsert (wellFormed : table.WellFormed config) {key : Nat}
    {slot : Slot} (inserted : table.getWithInsert config zeroed key = some (after, slot)) :
    (∀ other, after.data other = table.data other ∨ after.data other = zeroed) ∧
      ∀ other found, table.get config other = some (some found) →
        after.data found = table.data found := by
  obtain ⟨result, looked, inserted⟩ := Option.bind_eq_some_iff.mp inserted
  cases result with
  | some existing =>
      cases inserted
      exact ⟨fun _ => .inl rfl, fun _ _ _ => rfl⟩
  | none =>
      have bucket := wellFormed.rank_getHash key
      cases wellFormed.inserted_of_insertFrom bucket inserted with
      | entry slot _ _ =>
          have same : ∀ other, (table.setKey slot (storedKey key)).data other =
              table.data other := by
            intro other
            simp only [Table.setKey, Table.data]
            by_cases there : other.node = slot.node
            · rw [there, Function.update_self]
            · rw [Function.update_of_ne there]
          exact ⟨fun other => .inl (same other), fun _ found _ => same found⟩
      | node position after slot inside _ allocated =>
          obtain ⟨-, -, -, others⟩ := allocNew_eq_some allocated
          obtain ⟨atPosition, atFresh⟩ := allocNew_nodes allocated (ne_indirectNode inside)
          have same : ∀ other : Slot,
              other.node ≠ config.indirectNode table.freeIndirectNum →
                after.data other = table.data other := by
            intro other notFresh
            simp only [Table.data]
            by_cases there : other.node = position
            · rw [there, atPosition]
            · rw [others _ there notFresh]
          constructor
          · intro other
            by_cases fresh : other.node = config.indirectNode table.freeIndirectNum
            · right
              rw [Table.data, fresh, atFresh]
              rfl
            · exact .inl (same other fresh)
          · intro other found present
            apply same
            intro fresh
            have key := keys_of_getFrom present
            rw [fresh, (wellFormed.untouched _ le_rfl).1] at key
            cases key

end Rocc.Memstore
