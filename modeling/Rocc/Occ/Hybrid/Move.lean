import Mathlib.Data.List.TakeWhile
import Rocc.Occ.Hybrid.Invariant

/-!
# One transaction of a hybrid commit moves

A step of a transaction changes a lock word only from 0 or its own word, to 0 or its own
word, so the invariants of the others survive it.  `Move` says what a step does, and each
step of the protocol is shown to be one.
-/

set_option linter.unusedSectionVars false

namespace Rocc.Occ.Hybrid

open Rtx

universe u v w

variable {Key : Type u} {Value : Type v} {Tid : Type w}
variable [DecidableEq Key] [DecidableEq Tid]
variable {config : Config Key Tid} {state before after : State Key Value Tid} {tid : Tid}
variable {records : Key → Record Value} {txn next : Txn Key Value}

/-! ## One transaction moves -/

/-- What a step of a transaction may do to lock words. -/
def Guarantee (content : Nat) (before after : Key → Record Value) : Prop :=
  ∀ key, (after key).lock = (before key).lock ∨
    (((before key).lock = 0 ∨ (before key).lock = content) ∧
      ((after key).lock = 0 ∨ (after key).lock = content))

/-- What one step does. -/
structure Move (config : Config Key Tid) (tid : Tid) (before after : State Key Value Tid) :
    Prop where
  others : ∀ other, other ≠ tid → after.txns other = before.txns other
  guarantee : Guarantee (config.lockContent tid) before.records after.records
  own : Own config tid after.records (after.txns tid)
  decided : (before.txns tid).Decided → (after.txns tid).Decided
  kept : ∀ entry ∈ before.stored, entry ∈ after.stored
  stored : ∀ entry ∈ after.stored,
    entry ∈ before.stored ∨ (entry.1 = tid ∧ (after.txns tid).Decided)
  noted : ∀ key, ((after.records key).seq = (before.records key).seq ∧
    (after.records key).value = (before.records key).value) ∨ (tid, key) ∈ after.stored

/-- The steps of another transaction do not disturb one. -/
theorem Own.frame {other : Tid} {nextRecords : Key → Record Value}
    (own : Own config other records txn) (different : other ≠ tid)
    (guarantee : Guarantee (config.lockContent tid) records nextRecords) :
    Own config other nextRecords txn where
  nodup := own.nodup
  shape := own.shape
  owns key owned := by
    have locked := own.owns key owned
    rcases guarantee key with same | ⟨free | mine, -⟩
    · rw [same, locked]
    · exact absurd (locked.symm.trans free) (config.lockContent_ne_zero other)
    · exact absurd (config.lockContent_injective (locked.symm.trans mine)) different
  covers key locked := by
    rcases guarantee key with same | ⟨-, free | mine⟩
    · exact own.covers key (same.symm.trans locked)
    · exact absurd (locked.symm.trans free) (config.lockContent_ne_zero other)
    · exact absurd (config.lockContent_injective (locked.symm.trans mine)) different

theorem Inv.move (inv : Inv config before) (moved : Move config tid before after) :
    Inv config after where
  own other := by
    rcases eq_or_ne other tid with rfl | different
    · exact moved.own
    · rw [moved.others other different]
      exact (inv.own other).frame different moved.guarantee
  stored entry member := by
    rcases moved.stored entry member with old | ⟨same, decided⟩
    · have wasDecided := inv.stored entry old
      rcases eq_or_ne entry.1 tid with same | different
      · rw [same] at wasDecided ⊢
        exact moved.decided wasDecided
      · rw [moved.others _ different]
        exact wasDecided
    · rw [same]
      exact decided

/-- A step that leaves the records alone. -/
theorem Move.quiet (own : Own config tid state.records txn)
    (decided : (state.txns tid).Decided → txn.Decided) :
    Move config tid state (state.setTxn tid txn) where
  others other different := Function.update_of_ne different _ _
  guarantee _ := .inl rfl
  own := by simpa [State.setTxn] using own
  decided := by simpa [State.setTxn] using decided
  kept _ member := member
  stored _ member := .inl member
  noted _ := .inl ⟨rfl, rfl⟩

/-- A step on the lock word of one record. -/
theorem Move.relock {key : Key} {record : Record Value}
    (seq : record.seq = (state.records key).seq) (value : record.value = (state.records key).value)
    (lock : record.lock = (state.records key).lock ∨
      (((state.records key).lock = 0 ∨ (state.records key).lock = config.lockContent tid) ∧
        (record.lock = 0 ∨ record.lock = config.lockContent tid)))
    (own : Own config tid (Function.update state.records key record) txn)
    (decided : (state.txns tid).Decided → txn.Decided) :
    Move config tid state ((state.setRecord key record).setTxn tid txn) where
  others other different := Function.update_of_ne different _ _
  guarantee other := by
    rcases eq_or_ne other key with rfl | different
    · simpa [State.setTxn, State.setRecord] using lock
    · simp [State.setTxn, State.setRecord, different]
  own := by simpa [State.setTxn, State.setRecord] using own
  decided := by simpa [State.setTxn] using decided
  kept _ member := member
  stored _ member := .inl member
  noted other := by
    left
    rcases eq_or_ne other key with rfl | different
    · simp [State.setTxn, State.setRecord, seq, value]
    · simp [State.setTxn, State.setRecord, different]

/-- A step that overwrites one record. -/
theorem Move.store {key : Key} {record : Record Value}
    (lock : record.lock = (state.records key).lock ∨
      ((state.records key).lock = config.lockContent tid ∧ record.lock = 0))
    (own : Own config tid (Function.update state.records key record) txn)
    (decided : txn.Decided) :
    Move config tid state (((state.setRecord key record).note tid key).setTxn tid txn) where
  others other different := Function.update_of_ne different _ _
  guarantee other := by
    rcases eq_or_ne other key with rfl | different
    · rcases lock with same | ⟨mine, free⟩
      · simp [State.setTxn, State.note, State.setRecord, same]
      · simp [State.setTxn, State.note, State.setRecord, mine, free]
    · simp [State.setTxn, State.note, State.setRecord, different]
  own := by simpa [State.setTxn, State.note, State.setRecord] using own
  decided _ := by simpa [State.setTxn] using decided
  kept entry member := List.mem_append_left _ member
  stored entry member := by
    rcases List.mem_append.mp member with old | new
    · exact .inl old
    · rw [List.mem_singleton] at new
      subst new
      exact .inr ⟨rfl, by simpa [State.setTxn] using decided⟩
  noted other := by
    rcases eq_or_ne other key with rfl | different
    · exact .inr (List.mem_append_right _ List.mem_cons_self)
    · left
      simp [State.setTxn, State.note, State.setRecord, different]

/-- The records stay as they are. -/
theorem Own.restage (own : Own config tid records txn)
    (nodup : (keysOf (next.readSet ++ next.writeSet)).Nodup)
    (shape : next.Shape config tid)
    (owns : ∀ key, next.Owns config tid key → txn.Owns config tid key)
    (covers : ∀ key, txn.Covers config tid key → next.Covers config tid key) :
    Own config tid records next where
  nodup := nodup
  shape := shape
  owns key owned := own.owns key (owns key owned)
  covers key locked := covers key (own.covers key locked)

/-- One record changes. -/
theorem Own.setRecord (own : Own config tid records txn) {key : Key} {record : Record Value}
    (nodup : (keysOf (next.readSet ++ next.writeSet)).Nodup)
    (shape : next.Shape config tid)
    (ownsOthers : ∀ other, other ≠ key → next.Owns config tid other → txn.Owns config tid other)
    (coversOthers : ∀ other, other ≠ key → txn.Covers config tid other →
      next.Covers config tid other)
    (owns : next.Owns config tid key → record.lock = config.lockContent tid)
    (covers : record.lock = config.lockContent tid → next.Covers config tid key) :
    Own config tid (Function.update records key record) next where
  nodup := nodup
  shape := shape
  owns other owned := by
    rcases eq_or_ne other key with rfl | different
    · simpa using owns owned
    · simpa [different] using own.owns other (ownsOthers other different owned)
  covers other locked := by
    rcases eq_or_ne other key with rfl | different
    · exact covers (by simpa using locked)
    · exact coversOthers other different (own.covers other (by simpa [different] using locked))

/-! ## Sets and buffers -/

theorem keysOf_receive (items : List (Item Key Value)) (key : Key)
    {fill : Item Key Value → Item Key Value} (sameKey : ∀ item, (fill item).key = item.key) :
    keysOf (receive items key fill) = keysOf items := by
  simp only [keysOf, receive, List.map_map]
  apply List.map_congr_left
  intro item _
  simp only [Function.comp_apply]
  split
  · exact sameKey item
  · rfl

theorem keysOf_append (left right : List (Item Key Value)) :
    keysOf (left ++ right) = keysOf left ++ keysOf right := List.map_append

theorem Txn.Marks.mem {key : Key} (marked : txn.Marks key) : key ∈ keysOf txn.writeSet := by
  obtain ⟨item, member, same, -⟩ := marked
  exact List.mem_map.mpr ⟨item, member, same⟩

theorem Own.writeSet_nodup (own : Own config tid records txn) : (keysOf txn.writeSet).Nodup := by
  have nodup := own.nodup
  rw [keysOf_append, List.nodup_append] at nodup
  exact nodup.2.1

theorem Own.nodup_receive_write (own : Own config tid records txn) (key : Key)
    {fill : Item Key Value → Item Key Value} (sameKey : ∀ item, (fill item).key = item.key) :
    (keysOf (txn.readSet ++ receive txn.writeSet key fill)).Nodup := by
  rw [keysOf_append, keysOf_receive _ _ sameKey, ← keysOf_append]
  exact own.nodup

theorem Own.nodup_receive_read (own : Own config tid records txn) (key : Key)
    {fill : Item Key Value → Item Key Value} (sameKey : ∀ item, (fill item).key = item.key) :
    (keysOf (receive txn.readSet key fill ++ txn.writeSet)).Nodup := by
  rw [keysOf_append, keysOf_receive _ _ sameKey, ← keysOf_append]
  exact own.nodup

/-- Only the buffer of its own record changes when a verb completes. -/
theorem marks_receive_of_ne {items : List (Item Key Value)} {key other : Key}
    (fill : Item Key Value → Item Key Value) (sameKey : ∀ item, (fill item).key = item.key)
    (different : other ≠ key) :
    (∃ item ∈ receive items key fill, item.key = other ∧ item.lock = 0) ↔
      ∃ item ∈ items, item.key = other ∧ item.lock = 0 := by
  constructor
  · rintro ⟨_, member, isOther, free⟩
    obtain ⟨item, itemMember, rfl⟩ := List.mem_map.mp member
    by_cases same : item.key = key
    · rw [if_pos same, sameKey, same] at isOther
      exact absurd isOther.symm different
    · rw [if_neg same] at isOther free
      exact ⟨item, itemMember, isOther, free⟩
  · rintro ⟨item, member, rfl, free⟩
    exact ⟨item, List.mem_map.mpr ⟨item, member, if_neg different⟩, rfl, free⟩

theorem marks_receive_self {items : List (Item Key Value)} {key : Key}
    (fill : Item Key Value → Item Key Value) (sameKey : ∀ item, (fill item).key = item.key) :
    (∃ item ∈ receive items key fill, item.key = key ∧ item.lock = 0) ↔
      ∃ item ∈ items, item.key = key ∧ (fill item).lock = 0 := by
  constructor
  · rintro ⟨_, member, isKey, free⟩
    obtain ⟨item, itemMember, rfl⟩ := List.mem_map.mp member
    by_cases same : item.key = key
    · rw [if_pos same] at free
      exact ⟨item, itemMember, same, free⟩
    · rw [if_neg same] at isKey
      exact absurd isKey same
  · rintro ⟨item, member, same, free⟩
    refine ⟨fill item, List.mem_map.mpr ⟨item, member, if_pos same⟩, ?_, free⟩
    rw [sameKey]
    exact same

/-- A verb that leaves the lock words of the buffers alone keeps the marks. -/
theorem marks_receive {items : List (Item Key Value)} {key other : Key}
    (fill : Item Key Value → Item Key Value) (sameKey : ∀ item, (fill item).key = item.key)
    (sameLock : ∀ item, (fill item).lock = item.lock) :
    (∃ item ∈ receive items key fill, item.key = other ∧ item.lock = 0) ↔
      ∃ item ∈ items, item.key = other ∧ item.lock = 0 := by
  rcases eq_or_ne other key with rfl | different
  · rw [marks_receive_self fill sameKey]
    simp only [sameLock]
  · exact marks_receive_of_ne fill sameKey different

theorem ahead_cons_remote {key : Key} {todo : List Key} (remote : ¬ config.Local tid key) :
    config.ahead tid (key :: todo) = key :: config.ahead tid todo := by
  rw [Config.ahead, List.takeWhile_cons_of_pos (by simpa using remote)]
  rfl

/-- When everything is remote the whole set stands ahead of the first local record. -/
theorem ahead_of_remote {keys : List Key} (remote : ∀ key ∈ keys, ¬ config.Local tid key) :
    config.ahead tid keys = keys := by
  rw [Config.ahead, List.takeWhile_eq_self_iff]
  simpa using remote

end Rocc.Occ.Hybrid
