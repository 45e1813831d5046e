import Mathlib.Algebra.Order.BigOperators.Group.List
import Mathlib.Data.Finset.Union
import Mathlib.Data.Fintype.Basic
import Rocc.Base.Memory

/-!
# Replication of write sets

Before a transaction writes back it sends its write set to backups.  `SymmetricView` gives
every partition its backups; `prepare_write_contents` fills a log entry, `log_remote` chooses
the machines that get it, and `clean_log` on each of them walks through the entry and
applies the items whose partition it backs.

Records of the coordinator's own machine are left out of the entry, and the cleaner
copies a value to the start of the record, where the loader keeps a header in front of
the value.  The machines are derived from `mac_set_` of the batch helper as the phases
before have left it.
-/

namespace Rocc.Rtx.Replication

open Memory

/-! ## Views -/

/-- `SymmetricView`: the arguments of its constructor. -/
structure View where
  repFactor : Nat
  totalMac : Nat
  deriving DecidableEq, Repr

/-- `rep_factor_`: no backups where there are not enough machines. -/
def View.rep (view : View) : Nat :=
  if view.totalMac ≤ view.repFactor then 0 else view.repFactor

/-- `mapping_` of one partition, as `assign_one` fills it. -/
def View.backups (view : View) (pid : Nat) : Finset Nat :=
  (Finset.range view.rep).image fun index => (pid + index + 1) % view.totalMac

/-- `is_backup`. -/
def View.isBackup (view : View) (bid pid : Nat) : Bool := bid ∈ view.backups pid

/-- Every partition has a backup as soon as there are any. -/
theorem View.exists_backup (view : View) (replicated : 0 < view.rep) (pid : Nat) :
    ∃ bid, bid ∈ view.backups pid ∧ bid < view.totalMac := by
  have machines : 0 < view.totalMac := by
    unfold View.rep at replicated
    split at replicated <;> omega
  refine ⟨(pid + 0 + 1) % view.totalMac, ?_, Nat.mod_lt _ machines⟩
  exact Finset.mem_image_of_mem _ (Finset.mem_range.mpr replicated)

/-! ## Log entries -/

/-- An item of the write set: partition, table and key of the record and the new value. -/
structure WriteItem where
  pid : UInt8
  tableid : UInt8
  key : UInt64
  data : List UInt8
  deriving DecidableEq, Repr

/-- `RtxWriteItem` with the value behind it: `pid`, `tableid` and `key`, then `len`, both
words aligned to 8 bytes. -/
def encodeItem (item : WriteItem) : List UInt8 :=
  [item.pid] ++ ([item.tableid] ++ (List.replicate 6 0 ++ (toBytes 8 item.key.toNat ++
    (toBytes 2 item.data.length ++ (List.replicate 6 0 ++ item.data)))))

/-- `sizeof(RtxWriteItem)`. -/
def itemSize : Nat := 24

/-- `sizeof(RTXRequestHeader)`. -/
def headerSize : Nat := 16

/-- A log entry: `RTXRequestHeader` with the number of items, then the items. -/
def encodeEntry (corId : UInt8) (items : List WriteItem) : List UInt8 :=
  [corId, UInt8.ofNat items.length] ++ List.replicate 14 0 ++ items.flatMap encodeItem

/-- `RTX_LOG_ENTRY_SIZE`. -/
def logEntrySize : Nat := 2048

/-- `prepare_write_contents`: the items of other machines. -/
def prepareWriteContents (home : Nat) (writeSet : List WriteItem) : List WriteItem :=
  writeSet.filter fun item => item.pid.toNat ≠ home

/-- A transaction that writes: its machine, what is left in `mac_set_` of the batch helper
when it logs, and its write set.  Its log entry fits into the log, which the logger asserts. -/
structure Txn where
  home : Nat
  macSet : Finset Nat
  corId : UInt8
  writeSet : List WriteItem
  writes : writeSet ≠ []
  fits : (encodeEntry corId (prepareWriteContents home writeSet)).length < logEntrySize

/-- The entry a transaction logs. -/
def Txn.entry (txn : Txn) : List UInt8 :=
  encodeEntry txn.corId (prepareWriteContents txn.home txn.writeSet)

/-- `log_remote`: the backups of the machines in `mac_set_` and of the own partition. -/
def Txn.destinations (view : View) (txn : Txn) : Finset Nat :=
  txn.macSet.biUnion view.backups ∪ view.backups txn.home

/-! ## Cleaning -/

/-- One applied item: the record of the backup store and the bytes stored in it, each with
its place behind `node->value`. -/
structure Applied where
  pid : UInt8
  tableid : UInt8
  key : UInt64
  cells : List (Nat × UInt8)
  deriving DecidableEq, Repr

/-- The cells that a copy of `data` to `offset` fills. -/
def cells (offset : Nat) : List UInt8 → List (Nat × UInt8)
  | [] => []
  | byte :: rest => (offset, byte) :: cells (offset + 1) rest

/-- An item applied with its value at `offset`. -/
def WriteItem.applied (item : WriteItem) (offset : Nat) : Applied where
  pid := item.pid
  tableid := item.tableid
  key := item.key
  cells := cells offset item.data

/-- The item at a place of a message. -/
def itemAt (message : Memory) (place : Nat) : WriteItem :=
  { pid := message place
    tableid := message (place + 1)
    key := UInt64.ofNat (ofBytes (message.read (place + 8) 8))
    data := message.read (place + itemSize) (ofBytes (message.read (place + 16) 2)) }

/-- The loop of `clean_log` on `machine`: `ttptr` moves over each item and its value, and a
value is copied to the start of the record. -/
def cleanLoop (view : View) (machine : Nat) (message : Memory) : Nat → Nat → List Applied
  | 0, _ => []
  | num + 1, place =>
      let item := itemAt message place
      let rest := cleanLoop view machine message num (place + item.data.length + itemSize)
      if view.isBackup machine item.pid.toNat then item.applied 0 :: rest else rest

/-- `num` of the header, which is signed. -/
def numOf (message : Memory) : Nat :=
  if (message 1).toNat < 128 then (message 1).toNat else 0

/-- `clean_log`. -/
def cleanLog (view : View) (machine : Nat) (message : Memory) : List Applied :=
  cleanLoop view machine message (numOf message) headerSize

/-- What cleaning the log of a transaction does on a machine whose receive buffer held
`stale` before. -/
def Txn.cleaned (view : View) (txn : Txn) (machine : Nat) (stale : Memory) : List Applied :=
  if machine ∈ txn.destinations view then
    cleanLog view machine (stale.write 0 txn.entry)
  else
    []

/-- A record of a backup store. -/
structure Node where
  seq : Nat
  value : Memory

/-- Records by partition, table and key. -/
abbrev BackupStore := UInt8 × UInt8 × UInt64 → Node

/-- The record an applied item belongs to. -/
def Applied.record (applied : Applied) : UInt8 × UInt8 × UInt64 :=
  (applied.pid, applied.tableid, applied.key)

/-- The copy into the record, byte by byte, and the step of its sequence word. -/
def applyTo (store : BackupStore) (applied : Applied) : BackupStore :=
  let node := store applied.record
  Function.update store applied.record
    { seq := (node.seq + 2) % 2 ^ 64
      value := applied.cells.foldl (fun value (place, byte) => value.write place [byte])
        node.value }

/-- The store of a machine when the logs of these transactions are cleaned. -/
def cleanAll (view : View) (machine : Nat) (stale : Memory) (txns : List Txn)
    (store : BackupStore) : BackupStore :=
  (txns.flatMap fun txn => txn.cleaned view machine stale).foldl applyTo store

/-! ## What replication is for -/

/-- Partitions of a write set. -/
def partitions (writeSet : List WriteItem) : Finset Nat :=
  writeSet.toFinset.image fun item => item.pid.toNat

/-- Backups of all written partitions and of the coordinator's own. -/
def Txn.required (view : View) (txn : Txn) : Finset Nat :=
  (partitions txn.writeSet).biUnion view.backups ∪ view.backups txn.home

/-- The items that a machine backs, each stored behind the header of its record. -/
def Txn.backed (view : View) (metaLen : UInt8 → Nat) (txn : Txn) (machine : Nat) :
    List Applied :=
  (txn.writeSet.filter fun item => view.isBackup machine item.pid.toNat).map
    fun item => item.applied (metaLen item.tableid)

/-- The log entry reaches the right machines and is applied as it should be. -/
structure Complete (view : View) (metaLen : UInt8 → Nat) (txn : Txn) : Prop where
  destinations : txn.destinations view = txn.required view
  cleaned : ∀ machine < view.totalMac, ∀ stale,
    txn.cleaned view machine stale = txn.backed view metaLen machine

/-- The record an item belongs to. -/
def WriteItem.record (item : WriteItem) : UInt8 × UInt8 × UInt64 :=
  (item.pid, item.tableid, item.key)

/-- The last item that transactions, in the order of their commits, wrote to a record. -/
def lastWrite (txns : List Txn) (record : UInt8 × UInt8 × UInt64) : Option WriteItem :=
  ((txns.flatMap Txn.writeSet).filter fun item => item.record = record).getLast?

/-- Behind the header of every record that the machine backs stands the last value written
to it. -/
def HoldsLast (view : View) (metaLen : UInt8 → Nat) (txns : List Txn) (machine : Nat)
    (store : BackupStore) : Prop :=
  ∀ record item, view.isBackup machine record.1.toNat = true →
    lastWrite txns record = some item →
    (store record).value.read (metaLen record.2.1) item.data.length = item.data

/-- The machine set left behind has the backups of the written partitions and no others,
every record is on another machine, and no value goes to a record with a header. -/
structure Harmless (view : View) (metaLen : UInt8 → Nat) (txn : Txn) : Prop where
  covered : ∀ item ∈ txn.writeSet,
    view.backups item.pid.toNat ⊆ txn.macSet.biUnion view.backups ∪ view.backups txn.home
  justified : ∀ mac ∈ txn.macSet, view.backups mac ⊆
    (partitions txn.writeSet).biUnion view.backups ∪ view.backups txn.home
  remote : ∀ item ∈ txn.writeSet, item.pid.toNat ≠ txn.home
  bare : ∀ item ∈ txn.writeSet, item.data = [] ∨ metaLen item.tableid = 0

/-! ## Destinations -/

theorem Txn.destinations_eq_iff {view : View} {txn : Txn} :
    txn.destinations view = txn.required view ↔
      (∀ item ∈ txn.writeSet,
        view.backups item.pid.toNat ⊆ txn.macSet.biUnion view.backups ∪ view.backups txn.home) ∧
      ∀ mac ∈ txn.macSet, view.backups mac ⊆
        (partitions txn.writeSet).biUnion view.backups ∪ view.backups txn.home := by
  constructor
  · intro same
    constructor
    · intro item member bid backup
      have needed : bid ∈ txn.required view := by
        apply Finset.mem_union_left
        apply Finset.mem_biUnion.mpr
        exact ⟨_, Finset.mem_image_of_mem _ (List.mem_toFinset.mpr member), backup⟩
      rw [← same] at needed
      exact needed
    · intro mac member bid backup
      have chosen : bid ∈ txn.destinations view :=
        Finset.mem_union_left _ (Finset.mem_biUnion.mpr ⟨mac, member, backup⟩)
      rw [same] at chosen
      exact chosen
  · rintro ⟨covered, justified⟩
    apply Finset.Subset.antisymm
    · apply Finset.union_subset _ Finset.subset_union_right
      intro bid chosen
      obtain ⟨mac, member, backup⟩ := Finset.mem_biUnion.mp chosen
      exact justified mac member backup
    · apply Finset.union_subset _ Finset.subset_union_right
      intro bid needed
      obtain ⟨pid, written, backup⟩ := Finset.mem_biUnion.mp needed
      obtain ⟨item, member, rfl⟩ := Finset.mem_image.mp written
      exact covered item (List.mem_toFinset.mp member) backup

/-- The lock phase of `OCC` collects the machines of the remote records, which is enough. -/
theorem Txn.destinations_of_occ {view : View} {txn : Txn}
    (locked : txn.macSet = partitions (prepareWriteContents txn.home txn.writeSet)) :
    txn.destinations view = txn.required view := by
  rw [Txn.destinations_eq_iff, locked]
  constructor
  · intro item member bid backup
    by_cases own : item.pid.toNat = txn.home
    · rw [own] at backup
      exact Finset.mem_union_right _ backup
    · apply Finset.mem_union_left
      apply Finset.mem_biUnion.mpr
      refine ⟨item.pid.toNat, Finset.mem_image_of_mem _ (List.mem_toFinset.mpr ?_), backup⟩
      exact List.mem_filter.mpr ⟨member, by simpa using own⟩
  · intro mac member bid backup
    apply Finset.mem_union_left
    apply Finset.mem_biUnion.mpr
    obtain ⟨item, listed, rfl⟩ := Finset.mem_image.mp member
    have written := (List.mem_filter.mp (List.mem_toFinset.mp listed)).1
    exact ⟨_, Finset.mem_image_of_mem _ (List.mem_toFinset.mpr written), backup⟩

/-! ## Walking through an entry -/

/-- A block in the middle of a message. -/
theorem read_middle (stale : Memory) (front block back : List UInt8) :
    (stale.write 0 (front ++ (block ++ back))).read front.length block.length = block := by
  have inside : front.length + block.length ≤ (front ++ (block ++ back)).length := by
    simp only [List.length_append]
    omega
  have found := read_write_inside stale 0 inside
  rw [Nat.zero_add, List.drop_left, List.take_left] at found
  exact found

theorem byte_middle (stale : Memory) (front back : List UInt8) (byte : UInt8) :
    (stale.write 0 (front ++ ([byte] ++ back))) front.length = byte := by
  have found := read_middle stale front [byte] back
  simpa [Memory.read] using found

/-- The values that fit into an entry have lengths of 16 bits. -/
def Small (items : List WriteItem) : Prop := ∀ item ∈ items, item.data.length < 2 ^ 16

/-- The item at the place where it was put. -/
theorem itemAt_encode (stale : Memory) (front back : List UInt8) (item : WriteItem)
    (small : item.data.length < 2 ^ 16) :
    itemAt (stale.write 0 (front ++ (encodeItem item ++ back))) front.length = item := by
  have length : ofBytes (toBytes 2 item.data.length) = item.data.length := by
    rw [ofBytes_toBytes, Nat.mod_eq_of_lt (by simpa using small)]
  have keyFits : ofBytes (toBytes 8 item.key.toNat) = item.key.toNat := by
    rw [ofBytes_toBytes, Nat.mod_eq_of_lt]
    exact item.key.toNat_lt
  have pid := byte_middle stale front
    ([item.tableid] ++ (List.replicate 6 0 ++ (toBytes 8 item.key.toNat ++
      (toBytes 2 item.data.length ++ (List.replicate 6 0 ++ item.data)))) ++ back) item.pid
  have tableid := byte_middle stale (front ++ [item.pid])
    (List.replicate 6 0 ++ (toBytes 8 item.key.toNat ++
      (toBytes 2 item.data.length ++ (List.replicate 6 0 ++ item.data))) ++ back) item.tableid
  have key := read_middle stale (front ++ [item.pid] ++ [item.tableid] ++ List.replicate 6 0)
    (toBytes 8 item.key.toNat)
    (toBytes 2 item.data.length ++ (List.replicate 6 0 ++ item.data) ++ back)
  have len := read_middle stale (front ++ [item.pid] ++ [item.tableid] ++ List.replicate 6 0 ++
    toBytes 8 item.key.toNat) (toBytes 2 item.data.length)
    (List.replicate 6 0 ++ item.data ++ back)
  have data := read_middle stale (front ++ [item.pid] ++ [item.tableid] ++ List.replicate 6 0 ++
    toBytes 8 item.key.toNat ++ toBytes 2 item.data.length ++ List.replicate 6 0) item.data back
  simp only [List.append_assoc, List.length_append, List.length_cons, List.length_nil,
    List.length_replicate, length_toBytes, Nat.add_assoc, Nat.reduceAdd, Nat.zero_add]
    at pid tableid key len data
  simp only [itemAt, encodeItem, List.append_assoc, itemSize, pid, tableid, key, len, length, data,
    keyFits, UInt64.ofNat_toNat]

theorem length_encodeItem (item : WriteItem) :
    (encodeItem item).length = item.data.length + itemSize := by
  simp only [encodeItem, List.length_append, List.length_cons, List.length_nil,
    List.length_replicate, length_toBytes, itemSize]
  omega

/-- The loop applies the items of an entry that the machine backs, in their order. -/
theorem cleanLoop_encode (view : View) (machine : Nat) (stale : Memory) (front : List UInt8)
    (items : List WriteItem) (small : Small items) :
    cleanLoop view machine (stale.write 0 (front ++ items.flatMap encodeItem)) items.length
        front.length =
      (items.filter fun item => view.isBackup machine item.pid.toNat).map (·.applied 0) := by
  induction items generalizing front with
  | nil => rfl
  | cons item rest ih =>
      obtain ⟨first, others⟩ := List.forall_mem_cons.mp small
      have here := itemAt_encode stale front (rest.flatMap encodeItem) item first
      -- The rest of the entry starts behind this item and its value.
      have later := ih (front ++ encodeItem item) others
      rw [List.length_append, length_encodeItem, List.append_assoc, ← Nat.add_assoc] at later
      rw [List.flatMap_cons, List.length_cons, cleanLoop, here, later, List.filter_cons]
      split <;> simp

/-- An entry that fits into the log has few and short items. -/
theorem small_of_fits {corId : UInt8} {items : List WriteItem}
    (fits : (encodeEntry corId items).length < logEntrySize) :
    items.length < 128 ∧ Small items := by
  have bound : (items.map fun item => item.data.length + itemSize).sum < logEntrySize := by
    have size : (items.flatMap encodeItem).length =
        (items.map fun item => item.data.length + itemSize).sum := by
      rw [List.length_flatMap]
      simp only [length_encodeItem]
    simp only [encodeEntry, List.length_append, size] at fits
    omega
  have count : items.length * itemSize ≤
      (items.map fun item => item.data.length + itemSize).sum := by
    have least := List.card_nsmul_le_sum (items.map fun item => item.data.length + itemSize)
      itemSize (by simp)
    simpa using least
  constructor
  · unfold itemSize logEntrySize at *
    omega
  · intro item member
    have single : item.data.length + itemSize ≤
        (items.map fun item => item.data.length + itemSize).sum :=
      List.single_le_sum (by simp) _ (List.mem_map_of_mem member)
    unfold logEntrySize at bound
    omega

/-- Cleaning an entry applies the logged items that the machine backs. -/
theorem cleanLog_encode (view : View) (machine : Nat) (stale : Memory) (corId : UInt8)
    (items : List WriteItem) (fits : (encodeEntry corId items).length < logEntrySize) :
    cleanLog view machine (stale.write 0 (encodeEntry corId items)) =
      (items.filter fun item => view.isBackup machine item.pid.toNat).map (·.applied 0) := by
  obtain ⟨few, small⟩ := small_of_fits fits
  have num : numOf (stale.write 0 (encodeEntry corId items)) = items.length := by
    have byte := byte_middle stale [corId]
      (List.replicate 14 0 ++ items.flatMap encodeItem) (UInt8.ofNat items.length)
    have count : (UInt8.ofNat items.length).toNat = items.length := by
      rw [UInt8.toNat_ofNat', Nat.mod_eq_of_lt (by omega)]
    have second : (stale.write 0 (encodeEntry corId items)) 1 = UInt8.ofNat items.length := byte
    rw [numOf, second, count, if_pos few]
  rw [cleanLog, num]
  exact cleanLoop_encode view machine stale
    ([corId, UInt8.ofNat items.length] ++ List.replicate 14 0) items small

theorem Txn.cleaned_eq (view : View) (txn : Txn) (machine : Nat) (stale : Memory) :
    txn.cleaned view machine stale = if machine ∈ txn.destinations view then
      ((prepareWriteContents txn.home txn.writeSet).filter
        fun item => view.isBackup machine item.pid.toNat).map (·.applied 0) else [] := by
  unfold Txn.cleaned
  split
  · exact cleanLog_encode view machine stale txn.corId _ txn.fits
  · rfl

/-! ## When replication is complete -/

theorem cells_eq_iff {offset : Nat} {data : List UInt8} :
    cells 0 data = cells offset data ↔ data = [] ∨ offset = 0 := by
  constructor
  · intro same
    cases data with
    | nil => exact .inl rfl
    | cons byte rest =>
        simp only [cells, List.cons.injEq, Prod.mk.injEq] at same
        exact .inr same.1.1.symm
  · rintro (rfl | rfl) <;> rfl

theorem applied_eq_iff {item : WriteItem} {offset : Nat} :
    item.applied 0 = item.applied offset ↔ item.data = [] ∨ offset = 0 := by
  rw [← cells_eq_iff]
  simp [WriteItem.applied]

variable {view : View} {metaLen : UInt8 → Nat} {txn : Txn}

/-- What a harmless transaction logs is its write set. -/
theorem Harmless.prepareWriteContents (harmless : Harmless view metaLen txn) :
    prepareWriteContents txn.home txn.writeSet = txn.writeSet := by
  apply List.filter_eq_self.mpr
  intro item member
  simpa using harmless.remote item member

theorem Harmless.complete (harmless : Harmless view metaLen txn) :
    Complete view metaLen txn where
  destinations := Txn.destinations_eq_iff.mpr ⟨harmless.covered, harmless.justified⟩
  cleaned := by
    intro machine _ stale
    rw [Txn.cleaned_eq, harmless.prepareWriteContents, Txn.backed]
    split
    · apply List.map_congr_left
      intro item member
      exact applied_eq_iff.mpr (harmless.bare item (List.mem_filter.mp member).1)
    · rename_i left
      -- A machine that backs an item is one of the destinations.
      have nothing : (txn.writeSet.filter
          fun item => view.isBackup machine item.pid.toNat) = [] := by
        apply List.filter_eq_nil_iff.mpr
        intro item member backup
        refine left (harmless.covered item member ?_)
        simpa [View.isBackup] using backup
      rw [nothing]
      rfl

/-- A receive buffer nothing was written to. -/
def blank : Memory := fun _ => 0

/-- A backup of the coordinator's partition misses the local items. -/
theorem Complete.remote (complete : Complete view metaLen txn) (replicated : 0 < view.rep) :
    ∀ item ∈ txn.writeSet, item.pid.toNat ≠ txn.home := by
  intro item member own
  obtain ⟨bid, backup, machine⟩ := view.exists_backup replicated txn.home
  have cleaned := congrArg List.length (complete.cleaned bid machine blank)
  have sent : bid ∈ txn.destinations view := Finset.mem_union_right _ backup
  rw [Txn.cleaned_eq, if_pos sent, Txn.backed, List.length_map, List.length_map,
    Replication.prepareWriteContents, List.filter_comm] at cleaned
  have backed : view.isBackup bid item.pid.toNat = true := by
    rw [own]
    simpa [View.isBackup] using backup
  refine absurd cleaned (Nat.ne_of_lt (List.length_filter_lt_length_iff_exists.mpr ?_))
  exact ⟨item, List.mem_filter.mpr ⟨member, backed⟩, by simpa using own⟩

theorem Complete.bare (complete : Complete view metaLen txn) (replicated : 0 < view.rep) :
    ∀ item ∈ txn.writeSet, item.data = [] ∨ metaLen item.tableid = 0 := by
  intro item member
  obtain ⟨bid, backup, machine⟩ := view.exists_backup replicated item.pid.toNat
  have cleaned := complete.cleaned bid machine blank
  have remote : prepareWriteContents txn.home txn.writeSet = txn.writeSet := by
    apply List.filter_eq_self.mpr
    intro other written
    simpa using complete.remote replicated other written
  have sent : bid ∈ txn.destinations view := by
    rw [complete.destinations]
    apply Finset.mem_union_left
    apply Finset.mem_biUnion.mpr
    exact ⟨_, Finset.mem_image_of_mem _ (List.mem_toFinset.mpr member), backup⟩
  rw [Txn.cleaned_eq, if_pos sent, remote, Txn.backed, List.map_inj_left] at cleaned
  refine applied_eq_iff.mp (cleaned item (List.mem_filter.mpr ⟨member, ?_⟩))
  simpa [View.isBackup] using backup

/-- Replication of a transaction is complete exactly when it is harmless. -/
theorem complete_iff (replicated : 0 < view.rep) :
    Complete view metaLen txn ↔ Harmless view metaLen txn := by
  constructor
  · intro complete
    obtain ⟨covered, justified⟩ := Txn.destinations_eq_iff.mp complete.destinations
    exact ⟨covered, justified, complete.remote replicated, complete.bare replicated⟩
  · exact Harmless.complete

/-! ## Stores of the backups -/

theorem foldl_cells (memory : Memory) (offset : Nat) (data : List UInt8) :
    (cells offset data).foldl (fun value (place, byte) => value.write place [byte]) memory =
      memory.write offset data := by
  induction data generalizing memory offset with
  | nil =>
      funext address
      simp [cells, Memory.write]
  | cons byte rest ih =>
      rw [cells, List.foldl_cons, ih, ← List.singleton_append, write_append]
      rfl

/-- Items of other records leave a record alone. -/
theorem foldl_applyTo_of_ne {record : UInt8 × UInt8 × UInt64} {list : List Applied}
    (others : ∀ applied ∈ list, applied.record ≠ record) (store : BackupStore) :
    list.foldl applyTo store record = store record := by
  induction list generalizing store with
  | nil => rfl
  | cons applied rest ih =>
      obtain ⟨first, later⟩ := List.forall_mem_cons.mp others
      rw [List.foldl_cons, ih later, applyTo, Function.update_of_ne first.symm]

/-- The last item of a record decides what it holds. -/
theorem foldl_applyTo_last {items : List WriteItem} {metaLen : UInt8 → Nat}
    {record : UInt8 × UInt8 × UInt64} {item : WriteItem} (store : BackupStore)
    (last : (items.filter fun item => item.record = record).getLast? = some item) :
    (((items.map fun item => item.applied (metaLen item.tableid)).foldl applyTo store)
      record).value.read (metaLen record.2.1) item.data.length = item.data := by
  obtain ⟨front, split⟩ := List.getLast?_eq_some_iff.mp last
  obtain ⟨before, after, rfl, _, rest⟩ := List.filter_eq_append_iff.mp split
  obtain ⟨skipped, behind, rfl, _, isRecord, none⟩ := List.filter_eq_cons_iff.mp rest
  have same : item.record = record := by simpa using isRecord
  have others : ∀ applied ∈ behind.map (fun item => item.applied (metaLen item.tableid)),
      applied.record ≠ record := by
    intro applied member
    obtain ⟨other, written, rfl⟩ := List.mem_map.mp member
    have different : other.record ≠ record := by
      simpa using List.filter_eq_nil_iff.mp none other written
    exact different
  rw [List.map_append, List.foldl_append, List.map_append, List.foldl_append, List.map_cons,
    List.foldl_cons, foldl_applyTo_of_ne others, ← same]
  have here : (item.applied (metaLen item.tableid)).record = item.record := rfl
  have value : (item.applied (metaLen item.tableid)).cells =
      cells (metaLen item.tableid) item.data := rfl
  rw [applyTo, here, Function.update_self, value, foldl_cells]
  exact read_write_self _ _ _

/-- Cleaning harmless transactions applies the items that a machine backs. -/
theorem flatMap_cleaned {txns : List Txn} (harmless : ∀ txn ∈ txns, Harmless view metaLen txn)
    {machine : Nat} (inside : machine < view.totalMac) (stale : Memory) :
    (txns.flatMap fun txn => txn.cleaned view machine stale) =
      ((txns.flatMap Txn.writeSet).filter
        fun item => view.isBackup machine item.pid.toNat).map
          fun item => item.applied (metaLen item.tableid) := by
  induction txns with
  | nil => rfl
  | cons txn rest ih =>
      obtain ⟨first, later⟩ := List.forall_mem_cons.mp harmless
      rw [List.flatMap_cons, List.flatMap_cons, List.filter_append, List.map_append, ih later,
        first.complete.cleaned machine inside stale]
      rfl

theorem holdsLast_of_harmless {txns : List Txn}
    (harmless : ∀ txn ∈ txns, Harmless view metaLen txn) {machine : Nat}
    (inside : machine < view.totalMac) (stale : Memory) (store : BackupStore) :
    HoldsLast view metaLen txns machine (cleanAll view machine stale txns store) := by
  intro record item backup last
  rw [cleanAll, flatMap_cleaned harmless inside stale]
  apply foldl_applyTo_last
  -- The machine backs the record, so it drops none of its items.
  have kept : (((txns.flatMap Txn.writeSet).filter
      fun item => view.isBackup machine item.pid.toNat).filter
        fun item => item.record = record) =
      (txns.flatMap Txn.writeSet).filter fun item => item.record = record := by
    rw [List.filter_filter]
    apply List.filter_congr
    intro other _
    by_cases same : other.record = record
    · have pid : other.pid = record.1 := congrArg Prod.fst same
      simp [same, pid, backup]
    · simp [same]
  rw [kept]
  exact last

/-- A transaction of machine 0 that writes the byte 7 to a record of machine 1, with the
machine set its lock phase has filled. -/
def oneWrite : Txn where
  home := 0
  macSet := {1}
  corId := 1
  writeSet := [{ pid := 1, tableid := 0, key := 5, data := [7] }]
  writes := by decide
  fits := by decide +kernel

end Rocc.Rtx.Replication
