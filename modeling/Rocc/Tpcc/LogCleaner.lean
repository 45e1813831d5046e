import Rocc.Db.Backup.Cell
import Rocc.Tpcc.Keys
import Rocc.Tpcc.Tables

/-!
# `TpccLogCleaner`

For most tables the sequence numbers are compared, and a backup ends with the latest values.  An
order line is taken over as it comes, and a new order of no length is deleted without a look at its
sequence number: what a backup ends with then depends on the order of the logs of different threads.
-/

namespace Rocc.Tpcc

open Db.Backup Db.DbLogger

universe u

/-- The warehouses of a machine, its stores, and the lengths of their values. -/
structure TpccLogCleaner where
  scaleFactor : UInt64
  backupStores : Int32 → Bool
  vlen : Int32 → UInt32 → Nat

namespace TpccLogCleaner

variable (cleaner : TpccLogCleaner)

/-- The cases of the first `switch` of `clean_log` that return. -/
def Ignored (tableId : UInt32) : Prop :=
  tableId = custIndex ∨ tableId = orderIndex ∨ tableId = hist

instance (tableId : UInt32) : Decidable (Ignored tableId) :=
  inferInstanceAs (Decidable (_ ∨ _ ∨ _))

/-- The cases of the first `switch` of `clean_log` that go on; the default fails. -/
def wareOf (tableId : UInt32) (key : UInt64) : Option Int32 :=
  if tableId = stoc then some (stockKeyToWare key.toInt64)
  else if tableId = dist then some (districtKeyToWare key.toInt64)
  else if tableId = ware then some key.toUInt32.toInt32
  else if tableId = newo then some (newOrderKeyToWare key.toInt64)
  else if tableId = cust then some (customerKeyToWare key.toInt64)
  else if tableId = orli then some (orderLineKeyToWare key.toInt64)
  else if tableId = orde then some (orderKeyToWare key.toInt64)
  else none

/-- The entry deletes a new order. -/
def Deletes (entry : Entry) : Prop := entry.tableId = newo ∧ entry.value = []

instance (entry : Entry) : Decidable (Deletes entry) := inferInstanceAs (Decidable (_ ∧ _))

/-- The part of `clean_log` that has found the record. -/
def apply (node : Node) (entry : Entry) : Node :=
  if entry.tableId = orli then nodeOf entry
  else if Deletes entry then { node with value := none }
  else node.cleanLog entry.seq entry.value

/-- `clean_log`, with its assertions. -/
def cleanLog (store : Store) (entry : Entry) : Option Store :=
  if Ignored entry.tableId then some store
  else do
    let wId ← wareOf entry.tableId entry.key
    let pid := warehouseToPartition cleaner.scaleFactor wId
    if 0 ≤ pid ∧ pid < 16 then
      if cleaner.backupStores pid then
        if Deletes entry ∨ cleaner.vlen pid entry.tableId = entry.value.length then
          let place := { partition := pid.toInt.toNat, tableId := entry.tableId, key := entry.key }
          some (Function.update store place (apply (store place) entry))
        else none
      else some store
    else none

/-- The record of an entry, if the machine backs it up. -/
def placeOf (entry : Entry) : Option Place :=
  if Ignored entry.tableId then none
  else do
    let wId ← wareOf entry.tableId entry.key
    let pid := warehouseToPartition cleaner.scaleFactor wId
    if cleaner.backupStores pid then
      some { partition := pid.toInt.toNat, tableId := entry.tableId, key := entry.key }
    else none

/-- The tables of which sequence numbers are compared. -/
def Compared (tableId : UInt32) : Prop :=
  tableId = stoc ∨ tableId = dist ∨ tableId = ware ∨ tableId = cust ∨ tableId = orde

theorem applies (place : Place) : Applies cleaner.cleanLog cleaner.placeOf place apply := by
  intro store entry after cleaned
  rw [cleanLog] at cleaned
  rw [placeOf]
  split at cleaned
  · rename_i ignored
    obtain rfl := Option.some.inj cleaned
    rw [if_pos ignored, if_neg (by simp)]
  · rename_i goes
    rw [if_neg goes]
    obtain ⟨wId, isWare, rest⟩ := Option.bind_eq_some_iff.mp cleaned
    rw [isWare, Option.bind_eq_bind, Option.bind_some]
    dsimp only at rest ⊢
    split at rest
    · split at rest
      · rename_i backed
        rw [if_pos backed]
        split at rest
        · obtain rfl := Option.some.inj rest
          rw [Function.update_apply]
          simp only [Option.some.injEq, eq_comm]
          split
          · rename_i here
            rw [← here]
          · rfl
        · cases rest
      · rename_i foreign
        obtain rfl := Option.some.inj rest
        rw [if_neg foreign, if_neg (by simp)]
    · cases rest

/-- The record is one of the table of its entries. -/
theorem tableId_of_placeOf {entry : Entry} {place : Place}
    (here : cleaner.placeOf entry = some place) : entry.tableId = place.tableId := by
  rw [placeOf] at here
  split at here
  · cases here
  · obtain ⟨wId, _, rest⟩ := Option.bind_eq_some_iff.mp here
    dsimp only at rest
    split at rest
    · exact congrArg Place.tableId (Option.some.inj rest)
    · cases rest

theorem compares {place : Place} (compared : Compared place.tableId) :
    Compares cleaner.cleanLog cleaner.placeOf place := by
  intro store entry after cleaned
  rw [cleaner.applies place store entry after cleaned]
  refine ite_congr rfl (fun here => ?_) fun _ => rfl
  rw [← cleaner.tableId_of_placeOf here] at compared
  have other : entry.tableId ≠ orli ∧ entry.tableId ≠ newo := by
    rcases compared with is | is | is | is | is <;> rw [is] <;> decide
  rw [apply, if_neg other.1, if_neg fun deletes => other.2 deletes.1]

end TpccLogCleaner

open TpccLogCleaner

variable {Thread : Type u} [DecidableEq Thread]

/-- A machine that backs up every warehouse, with values of one byte. -/
def oneByte : TpccLogCleaner where
  scaleFactor := 1
  backupStores _ := true
  vlen _ _ := 1

/-- Empty stores. -/
def noRecords : Store := fun _ => { seq := 0, value := none }

/-- The log of a warehouse. -/
def wareLog : Ring.Call :=
  { oneEntry with
    entries := [{ tableId := ware, key := 1, seq := 3, value := [4] }]
    small := by decide }

/-- The warehouse. -/
def warePlace : Place := { partition := 0, tableId := ware, key := 1 }

theorem taken_wareLog (entry : Entry) (member : entry ∈ toClean wareLog) (store : Store) :
    (oneByte.cleanLog store entry).isSome := by
  obtain rfl := List.mem_singleton.mp member
  rfl

theorem exists_wareLog : ∃ state : State Unit Store,
    Reachable (step oneByte.cleanLog) (State.initial noRecords) state ∧
      state.calls () = [wareLog] ∧ Drained state := by
  obtain ⟨state, reach, calls, drained⟩ :=
    exists_cleaned oneByte.cleanLog noRecords wareLog taken_wareLog
  exact ⟨state, reach, calls, fun _ => drained⟩

/-- When all logs are cleaned, every stock, district, warehouse, customer and order of the backup is
at the highest sequence number logged for it, with the value that was logged with it. -/
theorem compared_latest (cleaner : TpccLogCleaner) (start : Store) (state : State Thread Store)
    (reach : Reachable (step cleaner.cleanLog) (State.initial start) state)
    (drained : Drained state) (place : Place) (compared : Compared place.tableId) :
    IsLatest cleaner.placeOf start state place :=
  (inv_of_reachable reach).latest drained (cleaner.compares compared)

theorem compared_latest_ware : ∃ state : State Unit Store, state.calls () = [wareLog] ∧
    IsLatest oneByte.placeOf noRecords state warePlace := by
  obtain ⟨state, reach, calls, drained⟩ := exists_wareLog
  exact ⟨state, calls, compared_latest oneByte noRecords state reach drained warePlace
    (.inr (.inr (.inl rfl)))⟩

/-- When all logs are cleaned, a record of any table that one thread alone has logged is what the
entries of that thread make of it in the order of its log. -/
theorem one_logger_replays (cleaner : TpccLogCleaner) (start : Store) (state : State Thread Store)
    (reach : Reachable (step cleaner.cleanLog) (State.initial start) state)
    (drained : Drained state) (place : Place) (thread : Thread)
    (alone : ∀ other, other ≠ thread → ∀ entry ∈ (state.calls other).flatMap toClean,
      cleaner.placeOf entry ≠ some place) :
    state.store place =
      (entriesOf cleaner.placeOf place ((state.calls thread).flatMap toClean)).foldl apply
        (start place) :=
  (inv_of_reachable reach).sequential drained (cleaner.applies place) thread alone

theorem one_logger_replays_ware : ∃ state : State Unit Store, state.calls () = [wareLog] ∧
    state.store warePlace = { seq := 3, value := some [4] } := by
  obtain ⟨state, reach, calls, drained⟩ := exists_wareLog
  refine ⟨state, calls, ?_⟩
  have replayed := one_logger_replays oneByte noRecords state reach drained warePlace ()
    fun other different => absurd rfl different
  rw [calls] at replayed
  exact replayed.trans (by decide)

/-- A new order that one thread inserts and another deletes: whether the row is there at a backup
in the end depends on whose log is cleaned first. -/
theorem new_order_diverges (cleaner : TpccLogCleaner) (start : Store) {first second : Thread}
    (different : first ≠ second) (inserted deleted : Ring.Call) (insert delete : Entry)
    (inserts : toClean inserted = [insert]) (deletes : toClean deleted = [delete])
    (isDelete : Deletes delete) (isInsert : insert.tableId = newo ∧ ¬ Deletes insert)
    (place : Place) (insertAt : cleaner.placeOf insert = some place)
    (deleteAt : cleaner.placeOf delete = some place)
    (taken : ∀ entry ∈ [insert, delete], ∀ store, (cleaner.cleanLog store entry).isSome)
    (newer : (start place).seq < insert.seq) :
    ∃ state other : State Thread Store,
      Reachable (step cleaner.cleanLog) (State.initial start) state ∧
      Reachable (step cleaner.cleanLog) (State.initial start) other ∧
      Drained state ∧ Drained other ∧ state.calls = other.calls ∧
      state.calls first = [inserted] ∧ state.calls second = [deleted] ∧
      state.store place = { nodeOf insert with value := none } ∧
      other.store place = nodeOf insert := by
  have applyInsert (node : Node) (same : node.seq = (start place).seq) :
      apply node insert = nodeOf insert := by
    have notLine : insert.tableId ≠ orli := by
      rw [isInsert.1]
      decide
    have higher : ¬ insert.seq ≤ node.seq := by
      rw [same]
      exact UInt64.not_le.mpr newer
    rw [apply, if_neg notLine, if_neg isInsert.2, Node.cleanLog, if_neg higher]
    rfl
  have applyDelete (node : Node) : apply node delete = { node with value := none } := by
    have notLine : delete.tableId ≠ orli := by
      rw [isDelete.1]
      decide
    rw [apply, if_neg notLine, if_pos isDelete]
  obtain ⟨state, reach, drained, calls, cleaned⟩ :=
    exists_both cleaner.cleanLog start different inserted deleted (by rwa [inserts, deletes])
  obtain ⟨other, otherReach, otherDrained, otherCalls, otherCleaned⟩ :=
    exists_both cleaner.cleanLog start different.symm deleted inserted (by
      rw [inserts, deletes]
      intro entry member
      exact taken entry (by simpa [or_comm] using member))
  have stored := (cleaner.applies place).foldl (inv_of_reachable reach).store
  have otherStored := (cleaner.applies place).foldl (inv_of_reachable otherReach).store
  rw [cleaned, inserts, deletes] at stored
  rw [otherCleaned, inserts, deletes] at otherStored
  refine ⟨state, other, reach, otherReach, drained, otherDrained, ?_, ?_, ?_, ?_, ?_⟩
  · rw [calls, otherCalls, Function.update_comm different.symm]
  · rw [calls, Function.update_of_ne different, Function.update_self]
  · rw [calls, Function.update_self]
  · rw [stored]
    simp [entriesOf, insertAt, deleteAt, applyInsert, applyDelete]
  · rw [otherStored]
    simp [entriesOf, insertAt, deleteAt, applyInsert, applyDelete]

/-- The log of a new order. -/
def insertLog : Ring.Call :=
  { oneEntry with
    entries := [{ tableId := newo, key := 0xb00000001, seq := 3, value := [4] }]
    small := by decide }

/-- The log of its deletion. -/
def deleteLog : Ring.Call :=
  { oneEntry with
    entries := [{ tableId := newo, key := 0xb00000001, seq := 5, value := [] }]
    small := by decide }

theorem new_order_diverges_one : ∃ state other : State Bool Store,
    Drained state ∧ Drained other ∧ state.calls = other.calls ∧
      (state.store { partition := 0, tableId := newo, key := 0xb00000001 }).value = none ∧
      (other.store { partition := 0, tableId := newo, key := 0xb00000001 }).value = some [4] := by
  obtain ⟨state, other, _, _, drained, otherDrained, calls, _, _, stored, otherStored⟩ :=
    @new_order_diverges Bool _ oneByte noRecords true false (by decide) insertLog deleteLog
      { tableId := newo, key := 0xb00000001, seq := 3, value := [4] }
      { tableId := newo, key := 0xb00000001, seq := 5, value := [] } rfl rfl (by decide)
      (by decide) { partition := 0, tableId := newo, key := 0xb00000001 } (by decide) (by decide)
      (by
        intro entry member store
        rcases List.mem_pair.mp member with rfl | rfl <;> rfl)
      (by decide)
  exact ⟨state, other, drained, otherDrained, calls, by rw [stored], by rw [otherStored]; rfl⟩

end Rocc.Tpcc
