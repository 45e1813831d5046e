import Rocc.Db.Backup.Cell

/-!
# `BankLogCleaner`

All that is logged for a record of a partition that the machine backs up goes through the comparison
of sequence numbers, so that every backup ends with the latest values.
-/

namespace Rocc.Bank

open Db.Backup Db.DbLogger

universe u v

/-- The partition of an account, the stores of the backup, and the lengths of their values. -/
structure BankLogCleaner where
  acctToPid : UInt64 → Nat
  backupStores : Nat → Bool
  vlen : Nat → UInt32 → Nat

namespace BankLogCleaner

variable (cleaner : BankLogCleaner)

/-- `clean_log`, with its assertions. -/
def cleanLog (store : Store) (entry : Entry) : Option Store :=
  let pid := cleaner.acctToPid entry.key
  if pid < 16 then
    if cleaner.backupStores pid then
      if cleaner.vlen pid entry.tableId = entry.value.length then
        let place := { partition := pid, tableId := entry.tableId, key := entry.key : Place }
        some (Function.update store place ((store place).cleanLog entry.seq entry.value))
      else none
    else some store
  else none

/-- The record of an entry, if the machine backs it up. -/
def placeOf (entry : Entry) : Option Place :=
  let partition := cleaner.acctToPid entry.key
  if cleaner.backupStores partition then
    some { partition, tableId := entry.tableId, key := entry.key }
  else none

/-- Sequence numbers are compared for every record. -/
theorem compares (place : Place) : Compares cleaner.cleanLog cleaner.placeOf place := by
  intro store entry after cleaned
  rw [cleanLog] at cleaned
  dsimp only at cleaned
  split at cleaned
  · split at cleaned
    · rename_i backed
      split at cleaned
      · obtain rfl := Option.some.inj cleaned
        rw [placeOf, if_pos backed, Function.update_apply]
        simp only [Option.some.injEq, eq_comm]
        split
        · rename_i here
          rw [← here]
        · rfl
      · cases cleaned
    · rename_i foreign
      obtain rfl := Option.some.inj cleaned
      rw [placeOf, if_neg foreign, if_neg (by simp)]
  · cases cleaned

end BankLogCleaner

variable {Thread : Type u} [DecidableEq Thread]

/-- When all logs are cleaned, every record of the backup is at the highest sequence number logged
for it, with the value that was logged with it; however the logs of different threads were
interleaved. -/
theorem backup_latest (cleaner : BankLogCleaner) (start : Store) (state : State Thread Store)
    (reach : Reachable (step cleaner.cleanLog) (State.initial start) state)
    (drained : Drained state) (place : Place) : IsLatest cleaner.placeOf start state place :=
  (inv_of_reachable reach).latest drained (cleaner.compares place)

/-- A machine that backs up everything, with values of one byte. -/
def oneByte : BankLogCleaner where
  acctToPid _ := 0
  backupStores _ := true
  vlen _ _ := 1

/-- Empty stores. -/
def noRecords : Store := fun _ => { seq := 0, value := none }

/-- The log of one entry can be cleaned. -/
theorem exists_oneEntry : ∃ state : State Unit Store,
    Reachable (step oneByte.cleanLog) (State.initial noRecords) state ∧
      state.calls () = [oneEntry] ∧ Drained state := by
  obtain ⟨state, reach, calls, drained⟩ :=
    exists_cleaned oneByte.cleanLog noRecords oneEntry (by simp [oneEntry, oneByte, toClean,
      Entry.cleaned, BankLogCleaner.cleanLog])
  exact ⟨state, reach, calls, fun _ => drained⟩

theorem backup_latest_one : ∃ state : State Unit Store, state.calls () = [oneEntry] ∧
    ∀ place, IsLatest oneByte.placeOf noRecords state place := by
  obtain ⟨state, reach, calls, drained⟩ := exists_oneEntry
  exact ⟨state, calls, backup_latest oneByte noRecords state reach drained⟩

/-- Two backups of a partition that were sent the same entries end with the same records, if a
sequence number of a record comes with one value. -/
theorem backups_agree {Other : Type v} [DecidableEq Other] (left right : BankLogCleaner)
    (sameAccts : left.acctToPid = right.acctToPid) (start otherStart : Store)
    (state : State Thread Store) (other : State Other Store)
    (reach : Reachable (step left.cleanLog) (State.initial start) state)
    (otherReach : Reachable (step right.cleanLog) (State.initial otherStart) other)
    (drained : Drained state) (otherDrained : Drained other)
    (sameEntries : ∀ entry, Logged state entry ↔ Logged other entry)
    (oneValue : ∀ first second, Logged state first → Logged state second →
      first.tableId = second.tableId → first.key = second.key → first.seq = second.seq →
        first.value = second.value)
    (place : Place) (sameStart : start place = otherStart place)
    (backed : left.backupStores place.partition ∧ right.backupStores place.partition) :
    state.store place = other.store place := by
  have samePlace (entry : Entry) :
      left.placeOf entry = some place ↔ right.placeOf entry = some place := by
    rw [BankLogCleaner.placeOf, BankLogCleaner.placeOf, ← sameAccts]
    by_cases here : left.acctToPid entry.key = place.partition
    · simp [here, backed]
    · constructor
      · intro found
        split at found
        · exact absurd (congrArg Place.partition (Option.some.inj found)) here
        · cases found
      · intro found
        split at found
        · exact absurd (congrArg Place.partition (Option.some.inj found)) here
        · cases found
  refine (inv_of_reachable reach).agree drained (inv_of_reachable otherReach) otherDrained
    (left.compares place) (right.compares place) samePlace (fun entry _ => sameEntries entry)
    (fun first second isLogged otherLogged here otherHere => ?_) sameStart
  rw [BankLogCleaner.placeOf] at here otherHere
  split at here
  · split at otherHere
    · have same := Option.some.inj (here.trans otherHere.symm)
      exact oneValue first second isLogged otherLogged (congrArg Place.tableId same)
        (congrArg Place.key same)
    · cases otherHere
  · cases here

theorem backups_agree_one : ∃ state other : State Unit Store, state.calls () = [oneEntry] ∧
    other.calls () = [oneEntry] ∧ state.store { partition := 0, tableId := 1, key := 2 } =
      other.store { partition := 0, tableId := 1, key := 2 } := by
  obtain ⟨state, reach, calls, drained⟩ := exists_oneEntry
  obtain ⟨other, otherReach, otherCalls, otherDrained⟩ := exists_oneEntry
  have entries (one : State Unit Store) (called : one.calls () = [oneEntry]) (entry : Entry) :
      Logged one entry ↔ entry ∈ toClean oneEntry := by
    simp [Logged, called]
  refine ⟨state, other, calls, otherCalls, backups_agree oneByte oneByte rfl noRecords noRecords
    state other reach otherReach drained otherDrained ?_ ?_ _ rfl ⟨rfl, rfl⟩⟩
  · intro entry
    rw [entries state calls, entries other otherCalls]
  · intro first second isLogged otherLogged _ _ _
    rw [entries state calls] at isLogged otherLogged
    simp only [toClean, oneEntry, List.map_cons, List.map_nil, List.mem_singleton]
      at isLogged otherLogged
    rw [isLogged, otherLogged]

end Rocc.Bank
