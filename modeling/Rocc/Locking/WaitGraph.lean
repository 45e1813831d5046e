import Rocc.Locking.Safety

/-!
# The wait graph of `WAITDIE`

A request waits when its lease is smaller than the lock word it finds, and stays
queued while its own word is.  The two words of one transaction are neighbours,
so between different transactions every edge of the wait graph leads to a larger
lease.  The only edge that does not is a transaction waiting for itself: one that
asks for the read lock of a record whose write lock it holds.
-/

set_option linter.unusedSectionVars false

namespace Rocc.Locking

open Rtx

universe u v w

variable {Key : Type u} {Tid : Type v} {Owner : Type w}
variable [DecidableEq Key] [DecidableEq Tid] [DecidableEq Owner]
variable {config : Config Key Tid Owner} {state after : State Key Tid Owner} {tid : Tid}

/-- `source` is queued with a word smaller than the lock word it waits for, and that
word belongs to `target`. -/
def WaitsFor (config : Config Key Tid Owner) (state : State Key Tid Owner)
    (source target : Tid) : Prop :=
  ∃ server, ∃ waiter ∈ state.waitLists server, waiter.tid = source ∧
    config.word source waiter.type < (state.records waiter.key).lock ∧
    config.Belongs target (state.records waiter.key).lock

/-- A lock request for reading does not meet the write word of its own
transaction. -/
def NoOwnWrite (config : Config Key Tid Owner) (state : State Key Tid Owner) :
    Action Key Tid → Prop
  | .lockItem tid =>
      match (state.txns tid).stage with
      | .request .read key false => (state.records key).lock ≠ config.word tid .write
      | _ => True
  | _ => True

instance (config : Config Key Tid Owner) (state : State Key Tid Owner) :
    (action : Action Key Tid) → Decidable (NoOwnWrite config state action)
  | .lockItem tid =>
      match reading : (state.txns tid).stage with
      | .request .read key false =>
          decidable_of_iff ((state.records key).lock ≠ config.word tid .write)
            (by simp only [NoOwnWrite, reading])
      | .request .read _ true => isTrue (by simp only [NoOwnWrite, reading])
      | .request .write _ _ => isTrue (by simp only [NoOwnWrite, reading])
      | .idle | .execute | .releaseReads .. | .releaseWrites .. | .writeBack ..
      | .releaseCommitted .. | .finished .. => isTrue (by simp only [NoOwnWrite, reading])
  | .begin .. | .request .. | .modify .. | .notify .. | .commit .. | .commitItem ..
  | .releaseItem .. | .resume .. => isTrue trivial

/-- Nobody waits to read a record it has locked for writing. -/
def NoSelfWait (config : Config Key Tid Owner) (state : State Key Tid Owner) : Prop :=
  ∀ server, ∀ waiter ∈ state.waitLists server, waiter.type = .read →
    (state.records waiter.key).lock ≠ config.word waiter.tid .write

/-! ## Acyclicity -/

/-- The words of different transactions are ordered like their leases. -/
theorem lease_lt_of_word_lt {source target : Tid} {sourceType targetType : LockType}
    (different : source ≠ target)
    (smaller : config.word source sourceType < config.word target targetType) :
    rLease (config.startTime source) < rLease (config.startTime target) := by
  have sourceMod := rLease_mod (config.startTime source)
  have targetMod := rLease_mod (config.startTime target)
  have distinct : rLease (config.startTime source) ≠ rLease (config.startTime target) :=
    fun same => different (config.lease_injective source target same)
  cases sourceType <;> cases targetType <;>
    simp only [Config.word, LockType.word] at smaller <;> omega

/-- The edges of the wait graph lead to larger leases. -/
theorem NoSelfWait.lease_lt (selfFree : NoSelfWait config state) {source target : Tid}
    (waits : WaitsFor config state source target) :
    rLease (config.startTime source) < rLease (config.startTime target) := by
  obtain ⟨server, waiter, member, rfl, smaller, targetType, owned⟩ := waits
  rw [owned] at smaller
  refine lease_lt_of_word_lt ?_ smaller
  rintro rfl
  cases type : waiter.type with
  | read =>
      cases targetType with
      | read =>
          rw [type] at smaller
          exact absurd smaller (lt_irrefl _)
      | write => exact selfFree server waiter member type owned
  | write =>
      rw [type] at smaller
      cases targetType <;> simp only [Config.word, LockType.word] at smaller <;> omega

theorem NoSelfWait.acyclic (selfFree : NoSelfWait config state) (tid : Tid) :
    ¬ Relation.TransGen (WaitsFor config state) tid tid :=
  not_transGen_self_of_rank (fun other => rLease (config.startTime other))
    (fun _ _ waits => selfFree.lease_lt waits) tid

/-! ## No step makes a transaction wait for itself -/

/-- Locks taken for or cleared by others do not disturb a waiter. -/
theorem NoSelfWait.of_kept (selfFree : NoSelfWait config state)
    (kept : ∀ server, ∀ waiter ∈ after.waitLists server,
      waiter ∈ state.waitLists server ∧
        ((after.records waiter.key).lock = (state.records waiter.key).lock ∨
          ¬ config.Belongs waiter.tid (after.records waiter.key).lock)) :
    NoSelfWait config after := by
  intro server waiter member type
  obtain ⟨member, same | foreign⟩ := kept server waiter member
  · rw [same]
    exact selfFree server waiter member type
  · exact fun own => foreign ⟨.write, own⟩

/-- The word of another transaction is no word of a waiter. -/
theorem not_belongs_word {other : Tid} (different : other ≠ tid) (type : LockType) :
    ¬ config.Belongs other (config.word tid type) := by
  rintro ⟨otherType, same⟩
  exact different (config.word_injective same).1.symm

theorem not_belongs_zero : ¬ config.Belongs tid 0 :=
  fun own => config.lockWords.ne_zero tid 0 own rfl

theorem selfFree_lockItem (inv : Inv config state) (selfFree : NoSelfWait config state)
    (allowed : NoOwnWrite config state (.lockItem tid))
    (stepped : lockItem config state tid = some after) : NoSelfWait config after := by
  obtain ⟨type, key, requested, outcome⟩ := lockItem_cases stepped
  have others : ∀ server, ∀ waiter ∈ state.waitLists server,
      waiter ∈ state.waitLists server ∧ waiter.tid ≠ tid :=
    inv.waiting.unqueued (by simp [requested])
  cases outcome with
  | granted free =>
      apply selfFree.of_kept
      intro server waiter member
      obtain ⟨member, different⟩ := others server waiter member
      refine ⟨member, ?_⟩
      rcases eq_or_ne waiter.key key with same | differentKey
      · right
        simpa [grant, State.log, State.setTxn, State.receives, State.setReplyBuf, State.lock,
          State.setRecord, same] using not_belongs_word different type
      · left
        simp [grant, State.log, State.setTxn, State.receives, State.setReplyBuf, State.lock,
          State.setRecord, differentKey]
  | refused _ =>
      exact selfFree.of_kept fun server waiter member => ⟨member, .inl rfl⟩
  | queued _ _ =>
      intro server waiter member reads
      have origin : waiter = { type, tid, key } ∨ waiter ∈ state.waitLists server := by
        simp only [addToWaitlist] at member
        rcases eq_or_ne server (config.server tid key) with rfl | different
        · rwa [Function.update_self, List.mem_cons] at member
        · rw [Function.update_of_ne different] at member
          exact .inr member
      rcases origin with rfl | member
      · simp only at reads
        subst reads
        simp only [NoOwnWrite, requested] at allowed
        exact allowed
      · exact selfFree server waiter member reads

theorem selfFree_notify (inv : Inv config state) (selfFree : NoSelfWait config state)
    {server : Nat × Nat} (stepped : notify config state server tid = some after) :
    NoSelfWait config after := by
  obtain ⟨waiter, rest, -, found, outcome⟩ := notify_cases stepped
  obtain ⟨-, kept, -⟩ := inv.dequeue found
  cases outcome with
  | granted free =>
      apply selfFree.of_kept
      intro other left leftMember
      obtain ⟨member, different⟩ := kept other left leftMember
      refine ⟨member, ?_⟩
      rcases eq_or_ne left.key waiter.key with same | differentKey
      · right
        simpa [grant, State.log, State.setTxn, State.receives, State.setReplyBuf, State.lock,
          State.dequeue, State.setRecord, same] using not_belongs_word different waiter.type
      · left
        simp [grant, State.log, State.setTxn, State.receives, State.setReplyBuf, State.lock,
          State.dequeue, State.setRecord, differentKey]
  | waits _ => exact selfFree
  | refused _ _ =>
      exact selfFree.of_kept fun other left leftMember =>
        ⟨(kept other left leftMember).1, .inl rfl⟩

/-- Clearing a lock disturbs no waiter. -/
theorem NoSelfWait.clear (selfFree : NoSelfWait config state) {key : Key}
    {record : Record Bytes} (cleared : record.lock = 0)
    (records : after.records = Function.update state.records key record)
    (waitLists : after.waitLists = state.waitLists) : NoSelfWait config after := by
  apply selfFree.of_kept
  intro server waiter member
  rw [waitLists] at member
  refine ⟨member, ?_⟩
  rw [records]
  rcases eq_or_ne waiter.key key with same | different
  · right
    rw [same, Function.update_self, cleared]
    exact not_belongs_zero
  · left
    rw [Function.update_of_ne different]

theorem selfFree_step {action : Action Key Tid} (inv : Inv config state)
    (selfFree : NoSelfWait config state) (allowed : NoOwnWrite config state action)
    (stepped : step config state action = some after) : NoSelfWait config after := by
  cases action with
  | lockItem tid => exact selfFree_lockItem inv selfFree allowed stepped
  | notify server tid => exact selfFree_notify inv selfFree stepped
  | commitItem tid machine =>
      simp only [step, commitItem] at stepped
      split at stepped
      · obtain ⟨⟨item, rest⟩, -, rfl⟩ := Option.map_eq_some_iff.mp stepped
        exact selfFree.clear (by simp [commitRpcHandler]) rfl rfl
      · cases stepped
  | releaseItem tid machine =>
      simp only [step, releaseItem] at stepped
      split at stepped
      case h_4 => cases stepped
      all_goals
        obtain ⟨item, rest, -, rfl⟩ := releaseOne_cases stepped
        exact selfFree.clear rfl rfl rfl
  | begin | request | modify | commit | resume =>
      obtain ⟨records, waitLists⟩ := client_step stepped trivial
      apply selfFree.of_kept
      intro server waiter member
      rw [waitLists] at member
      exact ⟨member, .inl (by rw [records])⟩

/-! ## A pass of `check_to_notify` -/

/-- Visiting one waiter leaves the other transactions, their waiters and every lock
that is taken alone. -/
theorem notify_others {server : Nat × Nat}
    (stepped : notify config state server tid = some after) :
    (∀ other, other ≠ tid → after.txns other = state.txns other) ∧
    (∀ waiter, waiter.tid ≠ tid → waiter ∈ state.waitLists server →
      waiter ∈ after.waitLists server) ∧
    ∀ key, (state.records key).lock ≠ 0 →
      (after.records key).lock = (state.records key).lock := by
  obtain ⟨waiter, rest, rfl, found, outcome⟩ := notify_cases stepped
  have remains : ∀ other : Waiter Key Tid, other.tid ≠ waiter.tid →
      other ∈ state.waitLists server → other ∈ rest := by
    intro other different member
    rcases (mem_of_nextFor found).mp member with rfl | member
    · exact absurd rfl different
    · exact member
  cases outcome with
  | granted free =>
      refine ⟨?_, ?_, ?_⟩
      · intro other different
        simp [grant, State.log, State.setTxn, State.receives, State.setReplyBuf, State.lock,
          State.dequeue, State.setRecord, different]
      · intro other different member
        simpa [grant, State.log, State.setTxn, State.receives, State.setReplyBuf, State.lock,
          State.dequeue, State.setRecord] using remains other different member
      · intro key taken
        have different : key ≠ waiter.key := by
          rintro rfl
          exact taken free
        simp [grant, State.log, State.setTxn, State.receives, State.setReplyBuf, State.lock,
          State.dequeue, State.setRecord, different]
  | waits _ => exact ⟨fun _ _ => rfl, fun _ _ member => member, fun _ _ => rfl⟩
  | refused _ _ =>
      refine ⟨?_, ?_, fun _ _ => rfl⟩
      · intro other different
        simp [refuse, State.setStage, State.setTxn, State.receives, State.setReplyBuf,
          State.dequeue, different]
      · intro other different member
        simpa [refuse, State.setStage, State.setTxn, State.receives, State.setReplyBuf,
          State.dequeue] using remains other different member

/-- A waiter whose word is not smaller than the lock word is refused when it is
visited. -/
theorem notify_refuses (inv : Inv config state) {server : Nat × Nat}
    {waiter : Waiter Key Tid} (member : waiter ∈ state.waitLists server)
    (taken : (state.records waiter.key).lock ≠ 0)
    (younger : (state.records waiter.key).lock ≤ config.word waiter.tid waiter.type) :
    ∃ after, notify config state server waiter.tid = some after ∧
      (after.txns waiter.tid).stage = (state.txns waiter.tid).abortStage waiter.type := by
  obtain ⟨after, rest, visited, outcome⟩ := inv.notify_mem member
  refine ⟨after, visited, ?_⟩
  cases outcome with
  | granted free => exact absurd free taken
  | waits older => exact absurd younger (not_le.mpr older)
  | refused _ _ =>
      simp [refuse, State.setStage, State.setTxn, State.receives, State.setReplyBuf,
        State.dequeue]

theorem notifyAll_of_none {server : Nat × Nat} {waiter : Waiter Key Tid}
    (visited : notify config state server waiter.tid = none)
    (rest : List (Waiter Key Tid)) :
    notifyAll config server (waiter :: rest) state = notifyAll config server rest state := by
  rw [notifyAll, visited, Option.getD_none]

theorem notifyAll_of_some {server : Nat × Nat} {waiter : Waiter Key Tid}
    (visited : notify config state server waiter.tid = some after)
    (rest : List (Waiter Key Tid)) :
    notifyAll config server (waiter :: rest) state = notifyAll config server rest after := by
  rw [notifyAll, visited, Option.getD_some]

theorem inv_notifyAll (inv : Inv config state) (server : Nat × Nat)
    (waiters : List (Waiter Key Tid)) : Inv config (notifyAll config server waiters state) := by
  induction waiters generalizing state with
  | nil => exact inv
  | cons waiter rest ih =>
      cases visited : notify config state server waiter.tid with
      | none =>
          rw [notifyAll_of_none visited]
          exact ih inv
      | some after =>
          rw [notifyAll_of_some visited]
          exact ih (inv_notify inv visited)

/-- A transaction none of whose waiters is visited stays as it is. -/
theorem notifyAll_txns {server : Nat × Nat} {waiters : List (Waiter Key Tid)}
    (absent : ∀ waiter ∈ waiters, waiter.tid ≠ tid) :
    (notifyAll config server waiters state).txns tid = state.txns tid := by
  induction waiters generalizing state with
  | nil => rfl
  | cons waiter rest ih =>
      have later : ∀ other ∈ rest, other.tid ≠ tid := fun other member =>
        absent other (by simp [member])
      cases visited : notify config state server waiter.tid with
      | none =>
          rw [notifyAll_of_none visited]
          exact ih later
      | some after =>
          rw [notifyAll_of_some visited, ih later]
          exact (notify_others visited).1 tid (absent waiter (by simp)).symm

/-- The loop refuses every waiter on its way whose word is not smaller than the lock
word. -/
theorem notifyAll_refuses {server : Nat × Nat} {waiter : Waiter Key Tid}
    {waiters : List (Waiter Key Tid)} (inv : Inv config state)
    (nodup : (waiters.map (·.tid)).Nodup) (visited : waiter ∈ waiters)
    (member : waiter ∈ state.waitLists server)
    (taken : (state.records waiter.key).lock ≠ 0)
    (younger : (state.records waiter.key).lock ≤ config.word waiter.tid waiter.type) :
    ((notifyAll config server waiters state).txns waiter.tid).stage =
      (state.txns waiter.tid).abortStage waiter.type := by
  induction waiters generalizing state with
  | nil => cases visited
  | cons first rest ih =>
      rw [List.map_cons, List.nodup_cons] at nodup
      rcases List.mem_cons.mp visited with rfl | later
      · obtain ⟨after, answered, aborts⟩ := notify_refuses inv member taken younger
        have unvisited : ∀ other ∈ rest, other.tid ≠ waiter.tid := fun other isLater same =>
          nodup.1 (List.mem_map.mpr ⟨other, isLater, same⟩)
        rw [notifyAll_of_some answered, notifyAll_txns unvisited, aborts]
      · have different : waiter.tid ≠ first.tid := fun same =>
          nodup.1 (List.mem_map.mpr ⟨waiter, later, same⟩)
        cases answered : notify config state server first.tid with
        | none =>
            rw [notifyAll_of_none answered]
            exact ih inv nodup.2 later member taken younger
        | some after =>
            obtain ⟨txns, waiters, locks⟩ := notify_others answered
            rw [notifyAll_of_some answered, ← txns waiter.tid different]
            apply ih (inv_notify inv answered) nodup.2 later (waiters waiter different member)
            · rw [locks waiter.key taken]
              exact taken
            · rw [locks waiter.key taken]
              exact younger

/-- A queued request whose word is not smaller than the lock word it waits for is
answered `LOCK_FAIL_MAGIC` by a pass of `check_to_notify`: its transaction starts
to release and no wait list holds it any more. -/
theorem checkToNotify_refuses (inv : Inv config state) {server : Nat × Nat}
    {waiter : Waiter Key Tid} (member : waiter ∈ state.waitLists server)
    (taken : (state.records waiter.key).lock ≠ 0)
    (younger : (state.records waiter.key).lock ≤ config.word waiter.tid waiter.type) :
    ((checkToNotify config state server).txns waiter.tid).stage =
        (state.txns waiter.tid).abortStage waiter.type ∧
      ∀ other, ∀ left ∈ (checkToNotify config state server).waitLists other,
        left.tid ≠ waiter.tid := by
  have refused := notifyAll_refuses inv (inv.waiting.nodup server) member member taken younger
  have invAfter := inv_notifyAll inv server (state.waitLists server)
  refine ⟨refused, ?_⟩
  intro other left leftMember
  apply (invAfter.waiting.unqueued _ other left leftMember).2
  intro type key
  rw [refused]
  cases waiter.type <;> simp [Txn.abortStage]

/-! ## Deadlock freedom -/

theorem selfFree_of_reach {database : Database config} {seq : Key → Nat}
    {replyBuf : Owner → Bytes}
    (reach : Reach (step config) (NoOwnWrite config)
      (State.initial database seq replyBuf) state) :
    Inv config state ∧ NoSelfWait config state := by
  apply reach.invariant fun state => Inv config state ∧ NoSelfWait config state
  · refine ⟨inv_initial database seq replyBuf, ?_⟩
    intro server waiter member
    cases member
  · rintro before action after ⟨inv, selfFree⟩ allowed stepped
    exact ⟨inv_step inv stepped, selfFree_step inv selfFree allowed stepped⟩

/-- In every run in which no request for reading meets the write word of its own
transaction, the wait graph has no cycle in any state reached, and a pass of
`check_to_notify` refuses every waiter whose word is not smaller than the lock word
it waits for. -/
theorem waitdie_deadlock_free (config : Config Key Tid Owner)
    (database : Database config) (seq : Key → Nat) (replyBuf : Owner → Bytes)
    (state : State Key Tid Owner)
    (reach : Reach (step config) (NoOwnWrite config)
      (State.initial database seq replyBuf) state) :
    (∀ tid, ¬ Relation.TransGen (WaitsFor config state) tid tid) ∧
      ∀ server, ∀ waiter ∈ state.waitLists server,
        (state.records waiter.key).lock ≠ 0 →
        (state.records waiter.key).lock ≤ config.word waiter.tid waiter.type →
        ((checkToNotify config state server).txns waiter.tid).stage =
            (state.txns waiter.tid).abortStage waiter.type ∧
          ∀ other, ∀ left ∈ (checkToNotify config state server).waitLists other,
            left.tid ≠ waiter.tid := by
  obtain ⟨inv, selfFree⟩ := selfFree_of_reach reach
  exact ⟨selfFree.acyclic, fun _ _ member taken younger =>
    checkToNotify_refuses inv member taken younger⟩

theorem waitdie_deadlock_free_queued :
    ∃ state : State Nat Bool Bool,
      state.waitLists (0, 0) ≠ [] ∧
      ∀ tid, ¬ Relation.TransGen (WaitsFor (pairConfig .waitdie) state) tid tid := by
  have reached : ∃ state : State Nat Bool Bool,
      Reach (step (pairConfig .waitdie)) (NoOwnWrite (pairConfig .waitdie))
        (State.initial (sevens .waitdie) (fun _ => 0) (fun _ => [0, 0])) state ∧
      state.waitLists (0, 0) ≠ [] :=
    Reach.exists_of_exec (waitingRun.take 6) (by decide +kernel)
  obtain ⟨state, reach, queued⟩ := reached
  exact ⟨state, queued, (waitdie_deadlock_free (pairConfig .waitdie) _ _ _ state reach).1⟩

/-- The condition is exact: a request for reading that meets the write word of its
own transaction is queued, and the transaction waits for itself. -/
theorem self_wait_of_own_write (waitdie : config.protocol = .waitdie) {key : Key}
    (requested : (state.txns tid).stage = .request .read key false)
    (own : (state.records key).lock = config.word tid .write) :
    ∃ after, lockItem config state tid = some after ∧ WaitsFor config after tid tid := by
  have older : config.word tid .read < config.word tid .write := by
    simp [Config.word, LockType.word]
  refine ⟨addToWaitlist config state tid .read key, ?_, ?_⟩
  · have taken := config.word_ne_zero tid .write
    have lease : rLease (config.startTime tid) < config.word tid .write := older
    simp [lockItem, requested, waitdie, Protocol.lockRpcHandler, Waitdie.lockRpcHandler,
      lockRpcHandler, own, taken, lease]
  · refine ⟨config.server tid key, { type := .read, tid, key }, ?_, rfl, ?_, .write, own⟩
    · simp [addToWaitlist]
    · exact older.trans_eq own.symm

/-- A transaction locks record 0 for writing and then asks to read it. -/
def ownWriteRun : List (Action Nat Bool) :=
  [.begin false, .request false .write 0, .lockItem false, .request false .read 0,
    .lockItem false]

/-- Such a transaction waits for itself. -/
theorem waitdie_self_wait :
    ¬ ∀ state : State Nat Bool Bool,
      Reachable (step (pairConfig .waitdie))
        (State.initial (sevens .waitdie) (fun _ => 0) (fun _ => [0, 0])) state →
      ∀ tid, ¬ Relation.TransGen (WaitsFor (pairConfig .waitdie) state) tid tid := by
  intro deadlockFree
  have reached : ∃ state : State Nat Bool Bool,
      Reachable (step (pairConfig .waitdie))
        (State.initial (sevens .waitdie) (fun _ => 0) (fun _ => [0, 0])) state ∧
      state.waitLists (0, 0) = [{ type := .read, tid := false, key := 0 }] ∧
      (state.records 0).lock = (pairConfig .waitdie).word false .write :=
    Reach.exists_of_exec ownWriteRun (by decide +kernel)
  obtain ⟨state, reach, queued, locked⟩ := reached
  refine deadlockFree state reach false
    (.single ⟨(0, 0), { type := .read, tid := false, key := 0 }, ?_, rfl, ?_, ?_⟩)
  · simp [queued]
  · rw [locked]
    decide
  · exact ⟨.write, locked⟩

end Rocc.Locking
