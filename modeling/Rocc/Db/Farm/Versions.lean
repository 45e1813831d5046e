import Rocc.Db.Farm.Locks

/-!
# DBFarm: sequence numbers, lock order and history along a run

A commit raises the sequence number of one record whose lock its transaction has; every
other step leaves the sequence numbers alone.
-/

set_option linter.unusedSectionVars false

namespace Rocc.Db.Farm

open Rtx Schedule

universe u v w x

variable {Key : Type u} {Value : Type v} {Tid : Type w} {Owner : Type x}

/-! ## Sets of a transaction -/

namespace Txn

variable (txn : Txn Key Value) (stage : Stage Key Value) (lock : Access Key) (key : Key)

@[simp] theorem setStage_stage : (txn.setStage stage).stage = stage := rfl

@[simp] theorem setStage_taken : (txn.setStage stage).taken = txn.taken := rfl

@[simp] theorem setStage_remote : (txn.setStage stage).remote = txn.remote := rfl

@[simp] theorem setStage_fetched : (txn.setStage stage).fetched = txn.fetched := rfl

@[simp] theorem setStage_written : (txn.setStage stage).written = txn.written := rfl

@[simp] theorem setStage_reads : (txn.setStage stage).reads = txn.reads := rfl

@[simp] theorem take_stage : (txn.take lock).stage = txn.stage := rfl

@[simp] theorem take_taken : (txn.take lock).taken = txn.taken ++ [lock] := rfl

@[simp] theorem take_remote : (txn.take lock).remote = txn.remote := rfl

@[simp] theorem take_written : (txn.take lock).written = txn.written := rfl

@[simp] theorem take_reads : (txn.take lock).reads = txn.reads := rfl

section Drop

variable [DecidableEq Key]

@[simp] theorem drop_stage : (txn.drop key).stage = txn.stage := rfl

@[simp] theorem drop_taken :
    (txn.drop key).taken = txn.taken.filter fun access => access.key ≠ key := rfl

@[simp] theorem drop_remote : (txn.drop key).remote = txn.remote := rfl

@[simp] theorem drop_written : (txn.drop key).written = txn.written := rfl

@[simp] theorem drop_reads : (txn.drop key).reads = txn.reads := rfl

@[simp] theorem drop_checked : (txn.drop key).checked = txn.checked := rfl

@[simp] theorem drop_confirmed : (txn.drop key).confirmed = txn.confirmed := rfl

end Drop

end Txn

/-- A record to be written has been read. -/
theorem Own.reads_of_written {config : Config Key Value Tid Owner} {tid : Tid}
    {txn : Txn Key Value} (own : Own config tid txn) {access : Access Key}
    (member : access ∈ txn.written) : access ∈ txn.reads := by
  rw [Txn.reads, List.mem_append]
  rcases List.mem_append.mp member with member | member
  · exact .inr (own.remote_fetched access member)
  · obtain ⟨item, listed, rfl⟩ := List.mem_map.mp member
    exact .inl (List.mem_map_of_mem (Txn.mem_localWrites listed))

/-! ## Sequence numbers -/

namespace Sound

variable {nodes nodes' : Key → Node Value} {txn : Txn Key Value}

/-- No sequence number changes. -/
theorem frame (sound : Sound nodes txn)
    (sameSeq : ∀ key, (nodes' key).seq = (nodes key).seq)
    (stays : ∀ key, (nodes key).value.isSome → (nodes' key).value.isSome) :
    Sound nodes' txn where
  seen access member := by
    obtain ⟨old, there⟩ := sound.seen access member
    exact ⟨(sameSeq access.key).symm ▸ old, stays access.key there⟩
  secured access taken checked := (sameSeq access.key).trans (sound.secured access taken checked)
  settled alive access member := by
    rw [sameSeq]
    exact sound.settled alive access member

/-- A record whose lock the transaction does not have is written. -/
theorem overwritten (sound : Sound nodes txn) {key : Key}
    (grown : (nodes' key).seq = (nodes key).seq + 2) (there : (nodes' key).value.isSome)
    (same : ∀ other, other ≠ key → nodes' other = nodes other)
    (free : key ∉ txn.taken.map (·.key)) : Sound nodes' txn where
  seen access member := by
    obtain ⟨old, value⟩ := sound.seen access member
    rcases eq_or_ne access.key key with rfl | different
    · exact ⟨by omega, there⟩
    · rw [same access.key different]
      exact ⟨old, value⟩
  secured access taken checked := by
    have different : access.key ≠ key := by
      rintro rfl
      exact free (List.mem_map_of_mem taken)
    rw [same access.key different]
    exact sound.secured access taken checked
  settled alive access member := by
    rcases sound.settled alive access member with taken | done
    · exact .inl taken
    · right
      rcases eq_or_ne access.key key with rfl | different
      · omega
      · rwa [same access.key different]

variable [DecidableEq Key]

/-- The transaction writes a record and gives its lock back. -/
theorem commit (sound : Sound nodes txn) {lock : Access Key} (taken : lock ∈ txn.taken)
    (unique : ∀ other ∈ txn.taken, other.key = lock.key → other = lock)
    (checked : lock ∈ txn.checked)
    (grown : (nodes' lock.key).seq = (nodes lock.key).seq + 2)
    (there : (nodes' lock.key).value.isSome)
    (same : ∀ other, other ≠ lock.key → nodes' other = nodes other) :
    Sound nodes' (txn.drop lock.key) where
  seen access member := by
    obtain ⟨old, value⟩ := sound.seen access member
    rcases eq_or_ne access.key lock.key with sameKey | different
    · rw [sameKey] at old ⊢
      exact ⟨by omega, there⟩
    · rw [same access.key different]
      exact ⟨old, value⟩
  secured access member sure := by
    rw [Txn.drop_taken, List.mem_filter, decide_eq_true_eq] at member
    rw [same access.key member.2]
    exact sound.secured access member.1 sure
  settled alive access member := by
    have current := sound.secured lock taken checked
    rcases eq_or_ne access.key lock.key with sameKey | different
    · right
      rcases sound.settled alive access member with held | done
      · have := unique access held sameKey
        subst this
        omega
      · rw [sameKey] at done ⊢
        omega
    · rw [same access.key different]
      rcases sound.settled alive access member with held | done
      · left
        rw [Txn.drop_taken, List.mem_filter, decide_eq_true_eq]
        exact ⟨held, different⟩
      · exact .inr done

/-- A lock is given back. -/
theorem release (sound : Sound nodes txn) (key : Key) (dead : ¬ txn.stage.Alive) :
    Sound nodes (txn.drop key) where
  seen := sound.seen
  secured access member checked := by
    rw [Txn.drop_taken, List.mem_filter] at member
    exact sound.secured access member.1 checked
  settled alive := absurd alive dead

end Sound

/-! ## The order of the locks -/

namespace Ranking

variable {state after : State Key Value Tid Owner}

/-- No transaction gets all its locks or compares a sequence number. -/
theorem frame (ranking : Ranking state) (order : after.lockOrder = state.lockOrder)
    (alive : ∀ tid, (after.txns tid).stage.Alive → (state.txns tid).stage.Alive ∧
      (after.txns tid).written = (state.txns tid).written ∧
      (after.txns tid).reads = (state.txns tid).reads ∧
      (after.txns tid).fetched = (state.txns tid).fetched ∧
      (after.txns tid).checked = (state.txns tid).checked)
    (ranked : ∀ tid, (state.txns tid).stage.Ranked → (after.txns tid).stage.Ranked) :
    Ranking after where
  nodup := order ▸ ranking.nodup
  listed tid now := by
    rw [order]
    exact ranking.listed tid (alive tid now).1
  ranked tid member := by
    rw [order] at member
    exact ranked tid (ranking.ranked tid member)
  ordered := by
    rw [order]
    refine ranking.ordered.imp fun {earlier later} ordered earlierNow laterNow => ?_
    obtain ⟨earlierAlive, earlierWritten, earlierReads, -⟩ := alive earlier earlierNow
    obtain ⟨laterAlive, laterWritten, -, laterFetched, laterChecked⟩ := alive later laterNow
    obtain ⟨writes, reads⟩ := ordered earlierAlive laterAlive
    constructor
    · rw [earlierWritten, Txn.confirmed, laterChecked, laterFetched]
      exact writes
    · rw [earlierReads, laterWritten, laterChecked]
      exact reads

/-- One transaction changes and is not among those that have had all their locks. -/
theorem frame_of_not_alive (ranking : Ranking state) (tid : Tid)
    (order : after.lockOrder = state.lockOrder)
    (others : ∀ other, other ≠ tid → after.txns other = state.txns other)
    (dead : ¬ (after.txns tid).stage.Alive)
    (ranked : (state.txns tid).stage.Ranked → (after.txns tid).stage.Ranked) :
    Ranking after := by
  refine ranking.frame order ?_ ?_
  · intro other alive
    rcases eq_or_ne other tid with rfl | different
    · exact absurd alive dead
    · rw [others other different] at alive ⊢
      exact ⟨alive, rfl, rfl, rfl, rfl⟩
  · intro other before
    rcases eq_or_ne other tid with rfl | different
    · exact ranked before
    · rw [others other different]
      exact before

/-- One transaction changes and keeps its sets. -/
theorem frame_of_same (ranking : Ranking state) (tid : Tid)
    (order : after.lockOrder = state.lockOrder)
    (others : ∀ other, other ≠ tid → after.txns other = state.txns other)
    (alive : (state.txns tid).stage.Alive)
    (written : (after.txns tid).written = (state.txns tid).written)
    (reads : (after.txns tid).reads = (state.txns tid).reads)
    (fetched : (after.txns tid).fetched = (state.txns tid).fetched)
    (checked : (after.txns tid).checked = (state.txns tid).checked)
    (ranked : (after.txns tid).stage.Ranked) : Ranking after := by
  refine ranking.frame order ?_ ?_
  · intro other now
    rcases eq_or_ne other tid with rfl | different
    · exact ⟨alive, written, reads, fetched, checked⟩
    · rw [others other different] at now ⊢
      exact ⟨now, rfl, rfl, rfl, rfl⟩
  · intro other before
    rcases eq_or_ne other tid with rfl | different
    · exact ranked
    · rw [others other different]
      exact before

end Ranking

/-! ## History -/

namespace Logged

variable {state after : State Key Value Tid Owner}

/-- Nothing is read or written. -/
theorem frame (logged : Logged state) (history : after.history = state.history)
    (fresh : after.fresh = state.fresh)
    (sameSeq : ∀ key, (after.nodes key).seq = (state.nodes key).seq)
    (reads : ∀ tid, ∀ access ∈ (state.txns tid).reads, access ∈ (after.txns tid).reads)
    (written : ∀ tid, ∀ access ∈ (state.txns tid).written,
      access ∈ (after.txns tid).written) : Logged after where
  read event member isRead := by
    rw [history] at member
    exact reads _ _ (logged.read event member isRead)
  wrote event member isWrite := by
    rw [history] at member
    exact written _ _ (logged.wrote event member isWrite)
  bound event member := by
    rw [history] at member
    rw [sameSeq]
    exact logged.bound event member
  passed event member isWrite := by
    rw [history] at member
    rw [fresh, sameSeq]
    exact logged.passed event member isWrite
  inTurn := history ▸ logged.inTurn

/-- One access is added to the history. -/
theorem append (logged : Logged state) {event : Event Key Tid}
    (history : after.history = state.history ++ [event])
    (reads : ∀ tid, ∀ access ∈ (state.txns tid).reads, access ∈ (after.txns tid).reads)
    (written : ∀ tid, ∀ access ∈ (state.txns tid).written,
      access ∈ (after.txns tid).written)
    (grows : ∀ key, (state.nodes key).seq ≤ (after.nodes key).seq)
    (passed : ∀ old ∈ state.history, old.write = true →
      after.fresh old.key = some old.tid ∨ old.seq + 2 ≤ (after.nodes old.key).seq)
    (read : event.write = false → event.access ∈ (after.txns event.tid).reads)
    (wrote : event.write = true → event.access ∈ (after.txns event.tid).written)
    (bound : event.seq ≤ (after.nodes event.key).seq)
    (settled : event.write = true →
      after.fresh event.key = some event.tid ∨ event.seq + 2 ≤ (after.nodes event.key).seq)
    (inTurn : ∀ old ∈ state.history, InTurn old event) : Logged after where
  read entry member isRead := by
    rw [history, List.mem_append, List.mem_singleton] at member
    rcases member with member | rfl
    · exact reads _ _ (logged.read entry member isRead)
    · exact read isRead
  wrote entry member isWrite := by
    rw [history, List.mem_append, List.mem_singleton] at member
    rcases member with member | rfl
    · exact written _ _ (logged.wrote entry member isWrite)
    · exact wrote isWrite
  bound entry member := by
    rw [history, List.mem_append, List.mem_singleton] at member
    rcases member with member | rfl
    · exact (logged.bound entry member).trans (grows _)
    · exact bound
  passed entry member isWrite := by
    rw [history, List.mem_append, List.mem_singleton] at member
    rcases member with member | rfl
    · exact passed entry member isWrite
    · exact settled isWrite
  inTurn := by
    rw [history, List.pairwise_append]
    refine ⟨logged.inTurn, List.pairwise_singleton _ _, ?_⟩
    intro old oldMember new newMember
    rw [List.mem_singleton] at newMember
    exact newMember ▸ inTurn old oldMember

/-- A read comes after every access so far, and after the commit of every record that
another transaction has made. -/
theorem inTurn_read (logged : Logged state) {tid : Tid} {key : Key}
    (visible : state.fresh key = none ∨ state.fresh key = some tid) :
    ∀ old ∈ state.history, InTurn old (.read tid { key, seq := (state.nodes key).seq }) := by
  intro old member sameKey
  have sameKey : old.key = key := sameKey
  have bound := logged.bound old member
  rw [sameKey] at bound
  refine ⟨bound, fun isWrite _ different => ?_⟩
  rcases logged.passed old member isWrite with made | done
  · rw [sameKey] at made
    rcases visible with none | mine
    · simp [none] at made
    · rw [mine] at made
      exact absurd (Option.some.inj made).symm different
  · rwa [sameKey] at done

end Logged

end Rocc.Db.Farm
