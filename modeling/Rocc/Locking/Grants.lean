import Rocc.Locking.Safety

/-!
# What a granted request delivers

`lock_rpc_handler` answers with the status byte and the value of the record,
`check_to_notify` with the status byte alone; the client decodes both the same way
and so takes over, after a delayed grant, whatever its reply buffer held before.
`Exact` is the invariant that every buffered value is the value of the record at
the moment its lock was taken; it survives every step but a delayed grant into a
reply buffer that holds something else.
-/

set_option linter.unusedSectionVars false

namespace Rocc.Locking

open Rtx

universe u v w

variable {Key : Type u} {Tid : Type v} {Owner : Type w}
variable [DecidableEq Key] [DecidableEq Tid] [DecidableEq Owner]
variable {config : Config Key Tid Owner} {state after : State Key Tid Owner}
variable {tid : Tid} {txn : Txn Key}

/-- The transaction still has to write this item back. -/
def Txn.Owes (txn : Txn Key) (item : ReadSetItem Key) : Prop :=
  ∃ pending, txn.stage = .writeBack pending ∧ item ∈ pending

/-- What a transaction still has to write back it still holds. -/
theorem Txn.Owes.mem_claims {item : ReadSetItem Key} (owed : txn.Owes item) :
    (item, LockType.write) ∈ txn.claims := by
  obtain ⟨pending, writing, member⟩ := owed
  simp [Txn.claims, writing, tagged, member]

/-- Buffers of one transaction. -/
structure TxnExact (config : Config Key Tid Owner) (txn : Txn Key) : Prop where
  exact : ∀ item ∈ txn.readSet ++ txn.writeSet, ∀ value, item.locked = some value →
    item.value = value
  sized : ∀ item ∈ txn.writeSet, item.locked ≠ none →
    item.data.length = config.len item.key
  granted : ∀ claim ∈ txn.claims, claim.1.locked ≠ none
  owes : ∀ item, txn.Owes item → item ∈ txn.writeSet

/-- Every buffered value is the one its record had when it was locked, and lengths
are as the tables say. -/
structure Exact (config : Config Key Tid Owner) (state : State Key Tid Owner) : Prop where
  sized : ∀ key, (state.records key).value.length = config.len key
  txns : ∀ tid, TxnExact config (state.txns tid)

/-- A delayed grant finds the value of the record already in the reply buffer. -/
def Delivered (config : Config Key Tid Owner) (state : State Key Tid Owner) :
    Action Key Tid → Prop
  | .notify server tid => ∀ waiter ∈ state.waitLists server, waiter.tid = tid →
      (state.records waiter.key).lock = 0 →
        ((state.replyBuf (config.owner tid)).drop 1).take (config.len waiter.key) =
          (state.records waiter.key).value
  | _ => True

instance (config : Config Key Tid Owner) (state : State Key Tid Owner)
    (action : Action Key Tid) : Decidable (Delivered config state action) := by
  unfold Delivered
  split <;> infer_instance

theorem exact_initial (database : Database config) (seq : Key → Nat)
    (replyBuf : Owner → Bytes) : Exact config (State.initial database seq replyBuf) where
  sized := database.sized
  txns tid := by
    constructor <;> simp [State.initial, Txn.claims, Txn.Owes]

/-! ## Frame lemmas -/

/-- A step of one transaction that keeps the lengths of the records. -/
theorem Exact.frame (exact : Exact config state) {records : Key → Record Bytes}
    {waitLists : Nat × Nat → List (Waiter Key Tid)} {running : Owner → Option Tid}
    {replyBuf : Owner → Bytes} {events : List (LockEvent Tid Key)}
    {commitOrder : List Tid}
    (sized : ∀ key, (records key).value.length = config.len key)
    (own : TxnExact config txn) :
    Exact config { state with
      records, waitLists, txns := Function.update state.txns tid txn, running, replyBuf,
      events, commitOrder } where
  sized := sized
  txns := by
    intro other
    rcases eq_or_ne other tid with rfl | different
    · simpa using own
    · simpa [different] using exact.txns other

/-- A move to a stage in which the transaction holds and owes no more. -/
theorem TxnExact.restage (exact : TxnExact config txn) {stage : Stage Key}
    (claims : ∀ claim ∈ ({ txn with stage } : Txn Key).claims, claim ∈ txn.claims)
    (owes : ∀ item, ({ txn with stage } : Txn Key).Owes item → item ∈ txn.writeSet) :
    TxnExact config { txn with stage } where
  exact := exact.exact
  sized := exact.sized
  granted claim member := exact.granted claim (claims claim member)
  owes := owes

/-- Changing a lock word changes no value. -/
theorem sized_setLock (exact : Exact config state) {key : Key} {record : Record Bytes}
    (sameValue : record.value = (state.records key).value) (other : Key) :
    (Function.update state.records key record other).value.length = config.len other := by
  rcases eq_or_ne other key with rfl | different
  · simpa [sameValue] using exact.sized other
  · simpa [different] using exact.sized other

/-! ## Preservation -/

theorem exact_begin (exact : Exact config state)
    (stepped : begin config state tid = some after) : Exact config after := by
  simp only [begin] at stepped
  split at stepped
  · simp only [Option.some.injEq] at stepped
    subst stepped
    apply exact.frame exact.sized
    constructor <;> simp [Txn.claims, tagged, Txn.Owes]
  · cases stepped

theorem exact_request (exact : Exact config state) {type : LockType} {key : Key}
    (stepped : request state tid type key = some after) : Exact config after := by
  simp only [request] at stepped
  split at stepped
  · rename_i executes
    simp only [Option.some.injEq] at stepped
    subst stepped
    have old := exact.txns tid
    apply exact.frame exact.sized
    constructor
    · intro item member value granted
      have earlier : item ∈ (state.txns tid).readSet ++ (state.txns tid).writeSet ∨
          item = .fresh key := by
        cases type <;> simp [Txn.push] at member ⊢ <;> tauto
      rcases earlier with member | rfl
      · exact old.exact item member value granted
      · cases granted
    · intro item member granted
      cases type with
      | read => exact old.sized item member granted
      | write =>
          rcases List.mem_append.mp member with member | member
          · exact old.sized item member granted
          · rw [List.mem_singleton.mp member] at granted
            exact absurd rfl granted
    · rw [claims_push executes]
      exact old.granted
    · rintro item ⟨pending, writing, -⟩
      cases writing
  · cases stepped

theorem exact_modify (exact : Exact config state) {key : Key} {data : Bytes}
    (stepped : modify config state tid key data = some after) : Exact config after := by
  simp only [modify] at stepped
  split at stepped
  · rename_i executes
    split at stepped
    · rename_i fits
      simp only [Option.some.injEq] at stepped
      subst stepped
      have old := exact.txns tid
      -- An overwritten item differs from the old one in its buffer only.
      have origin : ∀ item ∈ (state.txns tid).writeSet.map (fun item =>
          if item.key = key then { item with data } else item),
          ∃ was ∈ (state.txns tid).writeSet, was.key = item.key ∧
            was.locked = item.locked ∧ was.value = item.value ∧
            (item.data = was.data ∨ item.key = key ∧ item.data = data) := by
        intro item member
        obtain ⟨was, wasMember, rfl⟩ := List.mem_map.mp member
        refine ⟨was, wasMember, ?_⟩
        split
        · rename_i sameKey
          exact ⟨rfl, rfl, rfl, .inr ⟨sameKey, rfl⟩⟩
        · exact ⟨rfl, rfl, rfl, .inl rfl⟩
      apply exact.frame exact.sized
      constructor
      · intro item member value granted
        rcases List.mem_append.mp member with member | member
        · exact old.exact item (List.mem_append_left _ member) value granted
        · obtain ⟨was, wasMember, -, sameLocked, sameValue, -⟩ := origin item member
          rw [← sameValue]
          exact old.exact was (List.mem_append_right _ wasMember) value
            (sameLocked.trans granted)
      · intro item member granted
        obtain ⟨was, wasMember, sameKey, sameLocked, -, data | ⟨itemKey, data⟩⟩ :=
          origin item member
        · rw [data, ← sameKey]
          exact old.sized was wasMember (sameLocked ▸ granted)
        · rw [data, itemKey]
          exact fits
      · intro claim member
        have known := old.granted
        simp only [Txn.claims, executes, tagged, List.mem_append, List.mem_map] at member known
        rcases member with ⟨item, itemMember, rfl⟩ | ⟨item, itemMember, rfl⟩
        · exact known (item, .read) (.inl ⟨item, itemMember, rfl⟩)
        · obtain ⟨was, wasMember, -, sameLocked, -, -⟩ :=
            origin item (List.mem_map.mpr itemMember)
          rw [← sameLocked]
          exact known (was, .write) (.inr ⟨was, wasMember, rfl⟩)
      · rintro item ⟨pending, writing, -⟩
        simp [executes] at writing
    · cases stepped
  · cases stepped

/-- The items of the sets after a grant. -/
theorem mem_fillLast {type : LockType} {key : Key} {queued : Bool}
    (requests : txn.Requests) (requested : txn.stage = .request type key queued)
    (locked value : Bytes) (item : ReadSetItem Key) :
    (item ∈ (txn.fillLast type locked value).writeSet →
      item = (ReadSetItem.fresh key).fill locked value ∨ item ∈ txn.writeSet) ∧
    (item ∈ (txn.fillLast type locked value).readSet ++
        (txn.fillLast type locked value).writeSet →
      item = (ReadSetItem.fresh key).fill locked value ∨
        item ∈ txn.readSet ++ txn.writeSet) := by
  simp only [Txn.Requests, requested] at requests
  cases type with
  | read =>
      obtain ⟨items, ends⟩ := requests
      simp only [Txn.fillLast, ends, List.modifyLast_concat, List.mem_append,
        List.mem_singleton]
      tauto
  | write =>
      obtain ⟨items, ends⟩ := requests
      simp only [Txn.fillLast, ends, List.modifyLast_concat, List.mem_append,
        List.mem_singleton]
      tauto

/-- A grant that delivers the value of the record. -/
theorem TxnExact.fillLast (exact : TxnExact config txn) (requests : txn.Requests)
    {type : LockType} {key : Key} {queued : Bool}
    (requested : txn.stage = .request type key queued) {value : Bytes}
    (sized : value.length = config.len key) :
    TxnExact config { txn.fillLast type value value with stage := .execute } where
  exact := by
    intro item member other granted
    rcases (mem_fillLast requests requested value value item).2 member with rfl | member
    · exact Option.some.inj granted
    · exact exact.exact item member other granted
  sized := by
    intro item member granted
    rcases (mem_fillLast requests requested value value item).1 member with rfl | member
    · exact sized
    · exact exact.sized item member granted
  granted := by
    intro claim member
    have added := claims_fillLast requests requested value value
    rcases List.mem_cons.mp (added.mem_iff.mp member) with rfl | member
    · simp [ReadSetItem.fill]
    · exact exact.granted claim member
  owes := by
    rintro item ⟨pending, writing, -⟩
    cases writing

theorem exact_grant (inv : Inv config state) (exact : Exact config state)
    {type : LockType} {key : Key} {queued : Bool}
    {waitLists : Nat × Nat → List (Waiter Key Tid)} {replyBuf : Owner → Bytes}
    (requested : (state.txns tid).stage = .request type key queued) {payload : Bytes}
    (delivered : payload.take (config.len key) = (state.records key).value) :
    Exact config (grant config
      { state.lock config tid type key with waitLists, replyBuf } tid type key
      (state.records key).value payload) := by
  have own := (exact.txns tid).fillLast (inv.requests tid) requested (exact.sized key)
  rw [← delivered] at own
  apply exact.frame
  · exact sized_setLock exact rfl
  · rw [← delivered]
    exact own

theorem exact_refuse (exact : Exact config state) {type : LockType} {key : Key}
    {queued : Bool} {waitLists : Nat × Nat → List (Waiter Key Tid)}
    {replyBuf : Owner → Bytes}
    (requested : (state.txns tid).stage = .request type key queued) :
    Exact config (refuse { state with waitLists, replyBuf } tid type) := by
  apply exact.frame exact.sized
  apply (exact.txns tid).restage
  · intro claim member
    rwa [← claims_abortStage requested]
  · rintro item ⟨pending, writing, -⟩
    cases type <;> cases writing

/-- A direct grant delivers the value of the record. -/
theorem Exact.payload (exact : Exact config state) (tid : Tid) (key : Key) :
    (state.payload config tid ((state.records key).value.take (config.len key))).take
      (config.len key) = (state.records key).value := by
  have sized := exact.sized key
  have whole : (state.records key).value.take (config.len key) =
      (state.records key).value := by
    rw [← sized, List.take_length]
  rw [State.payload, whole, List.take_append_of_le_length (by omega), ← sized,
    List.take_length]

theorem exact_lockItem (inv : Inv config state) (exact : Exact config state)
    (stepped : lockItem config state tid = some after) : Exact config after := by
  obtain ⟨type, key, requested, outcome⟩ := lockItem_cases stepped
  cases outcome with
  | granted free => exact exact_grant inv exact requested (exact.payload tid key)
  | refused _ => exact exact_refuse exact requested
  | queued _ _ =>
      apply exact.frame exact.sized
      apply (exact.txns tid).restage
      · intro claim member
        cases type <;> simpa [Txn.claims, requested] using member
      · rintro item ⟨pending, writing, -⟩
        cases writing

theorem exact_notify (inv : Inv config state) (exact : Exact config state)
    {server : Nat × Nat} (allowed : Delivered config state (.notify server tid))
    (stepped : notify config state server tid = some after) : Exact config after := by
  obtain ⟨waiter, rest, rfl, found, outcome⟩ := notify_cases stepped
  have member : waiter ∈ state.waitLists server := (mem_of_nextFor found).mpr (.inl rfl)
  have requested := (inv.waiting.queued server waiter member).1
  cases outcome with
  | granted free =>
      exact exact_grant inv exact requested (allowed waiter member rfl free)
  | waits _ => exact exact
  | refused _ _ => exact exact_refuse exact requested

theorem exact_commit (exact : Exact config state)
    (stepped : commit state tid = some after) : Exact config after := by
  simp only [commit] at stepped
  split at stepped
  · rename_i executes
    simp only [Option.some.injEq] at stepped
    subst stepped
    apply exact.frame exact.sized
    apply (exact.txns tid).restage
    · intro claim member
      simp only [Txn.claims, executes, List.mem_append] at member ⊢
      exact member.symm
    · rintro item ⟨pending, writing, member⟩
      cases writing
      exact member
  · cases stepped

theorem exact_commitItem (exact : Exact config state) {machine : Nat}
    (stepped : commitItem config state tid machine = some after) : Exact config after := by
  simp only [commitItem] at stepped
  split at stepped
  · rename_i pending writing
    obtain ⟨⟨item, rest⟩, found, rfl⟩ := Option.map_eq_some_iff.mp stepped
    have old := exact.txns tid
    have remains : ∀ other, other ∈ rest → other ∈ pending := fun other member =>
      (mem_of_nextFor found).mpr (.inr member)
    have owed : (state.txns tid).Owes item :=
      ⟨pending, writing, (mem_of_nextFor found).mpr (.inl rfl)⟩
    apply exact.frame
    · intro key
      rcases eq_or_ne key item.key with rfl | different
      · have sized := old.sized item (old.owes item owed) (old.granted _ owed.mem_claims)
        simpa [State.setStage, State.setTxn, State.setRecord, commitRpcHandler] using sized
      · simpa [State.setStage, State.setTxn, State.setRecord, different] using
          exact.sized key
    · apply old.restage
      · intro claim member
        simp only [Txn.claims, writing, tagged, List.mem_append, List.mem_map] at member ⊢
        rcases member with ⟨other, otherMember, same⟩ | member
        · exact .inl ⟨other, remains other otherMember, same⟩
        · exact .inr member
      · rintro other ⟨left, isWriting, member⟩
        cases isWriting
        exact old.owes other ⟨pending, writing, remains other member⟩
  · cases stepped

theorem exact_releaseItem (exact : Exact config state) {machine : Nat}
    (stepped : releaseItem config state tid machine = some after) : Exact config after := by
  simp only [releaseItem] at stepped
  split at stepped
  case h_4 => cases stepped
  all_goals
    rename_i releasing
    obtain ⟨item, rest, found, rfl⟩ := releaseOne_cases stepped
    apply exact.frame
    · exact sized_setLock exact rfl
    · apply (exact.txns tid).restage
      · intro claim member
        simp only [Txn.claims, releasing, tagged, List.mem_append, List.mem_map,
          mem_of_nextFor found] at member ⊢
        grind
      · rintro other ⟨left, writing, -⟩
        cases writing

theorem exact_resume (exact : Exact config state)
    (stepped : resume config state tid = some after) : Exact config after := by
  simp only [resume] at stepped
  split at stepped
  case h_5 => cases stepped
  all_goals
    rename_i resumed
    simp only [Option.some.injEq] at stepped
    subst stepped
    apply exact.frame exact.sized
    apply (exact.txns tid).restage
    · simp [Txn.claims, resumed]
    · rintro other ⟨left, writing, -⟩
      cases writing

theorem exact_step {action : Action Key Tid} (inv : Inv config state)
    (exact : Exact config state) (allowed : Delivered config state action)
    (stepped : step config state action = some after) : Exact config after := by
  cases action with
  | begin tid => exact exact_begin exact stepped
  | request tid type key => exact exact_request exact stepped
  | modify tid key data => exact exact_modify exact stepped
  | lockItem tid => exact exact_lockItem inv exact stepped
  | notify server tid => exact exact_notify inv exact allowed stepped
  | commit tid => exact exact_commit exact stepped
  | commitItem tid machine => exact exact_commitItem exact stepped
  | releaseItem tid machine => exact exact_releaseItem exact stepped
  | resume tid => exact exact_resume exact stepped

theorem exact_of_reach {database : Database config} {seq : Key → Nat}
    {replyBuf : Owner → Bytes}
    (reach : Reach (step config) (Delivered config)
      (State.initial database seq replyBuf) state) :
    Inv config state ∧ Exact config state := by
  apply reach.invariant fun state => Inv config state ∧ Exact config state
  · exact ⟨inv_initial database seq replyBuf, exact_initial database seq replyBuf⟩
  · rintro before action after ⟨inv, exact⟩ allowed stepped
    exact ⟨inv_step inv stepped, exact_step inv exact allowed stepped⟩

/-! ## Delayed grants -/

/-- Every request that returned true left the value its record had when the lock was
taken. -/
def GrantsExact (state : State Key Tid Owner) : Prop :=
  ∀ tid, ∀ item ∈ (state.txns tid).readSet ++ (state.txns tid).writeSet,
    ∀ value, item.locked = some value → item.value = value

/-- In every run whose delayed grants find the value of the record already in the
reply buffer of the coroutine, all grants are exact. -/
theorem delayed_grants_exact (config : Config Key Tid Owner) (database : Database config)
    (seq : Key → Nat) (replyBuf : Owner → Bytes) (state : State Key Tid Owner)
    (reach : Reach (step config) (Delivered config)
      (State.initial database seq replyBuf) state) : GrantsExact state := by
  obtain ⟨-, exact⟩ := exact_of_reach reach
  exact fun tid => (exact.txns tid).exact

/-- The older transaction is granted record 0 from the wait list after a direct grant
of a record with the same value. -/
def deliveredRun : List (Action Nat Bool) :=
  [.begin false, .begin true, .request true .write 0, .lockItem true,
    .request false .read 2, .lockItem false, .request false .read 0, .lockItem false,
    .commit true, .commitItem true 0, .notify (0, 0) false]

theorem delayed_grants_exact_delivered :
    ∃ state : State Nat Bool Bool,
      (state.txns false).readSet.map (·.locked) = [some [7], some [7]] ∧
      GrantsExact state := by
  have reached : ∃ state : State Nat Bool Bool,
      Reach (step (pairConfig .waitdie)) (Delivered (pairConfig .waitdie))
        (State.initial (sevens .waitdie) (fun _ => 0) (fun _ => [0, 0])) state ∧
      (state.txns false).readSet.map (·.locked) = [some [7], some [7]] :=
    Reach.exists_of_exec deliveredRun (by decide +kernel)
  obtain ⟨state, reach, locked⟩ := reached
  exact ⟨state, locked, delayed_grants_exact (pairConfig .waitdie) _ _ _ state reach⟩

/-- The item a grant filled is the last one of its set. -/
theorem fill_mem_fillLast {type : LockType} {key : Key} {queued : Bool}
    (requests : txn.Requests) (requested : txn.stage = .request type key queued)
    (locked value : Bytes) :
    (ReadSetItem.fresh key).fill locked value ∈
      (txn.fillLast type locked value).readSet ++
        (txn.fillLast type locked value).writeSet := by
  simp only [Txn.Requests, requested] at requests
  cases type with
  | read =>
      obtain ⟨items, ends⟩ := requests
      simp [Txn.fillLast, ends, List.modifyLast_concat]
  | write =>
      obtain ⟨items, ends⟩ := requests
      simp [Txn.fillLast, ends, List.modifyLast_concat]

/-- The condition is exact: a delayed grant into a reply buffer that holds anything
else buffers a value the record did not have. -/
theorem not_grantsExact_of_stale (inv : Inv config state) {server : Nat × Nat}
    {waiter : Waiter Key Tid} (member : waiter ∈ state.waitLists server)
    (free : (state.records waiter.key).lock = 0)
    (stale : ((state.replyBuf (config.owner waiter.tid)).drop 1).take
      (config.len waiter.key) ≠ (state.records waiter.key).value) :
    ∃ after, notify config state server waiter.tid = some after ∧ ¬ GrantsExact after := by
  obtain ⟨after, rest, visited, outcome⟩ := inv.notify_mem member
  refine ⟨after, visited, ?_⟩
  have requested := (inv.waiting.queued server waiter member).1
  cases outcome with
  | granted _ =>
      intro exact
      have filled := fill_mem_fillLast (inv.requests waiter.tid) requested
        (state.records waiter.key).value
        ((state.payload config waiter.tid []).take (config.len waiter.key))
      exact stale (exact waiter.tid _ (by
        simpa [grant, State.log, State.setTxn, State.receives, State.setReplyBuf,
          State.lock, State.dequeue, State.setRecord] using filled) _ rfl)
  | waits older => exact absurd older (by simp [free])
  | refused taken _ => exact absurd free taken

/-- A waiter that is granted the lock after a write-back of 9 buffers the 0 its reply
buffer was initialised with. -/
theorem delayed_grant_stale :
    ¬ ∀ state : State Nat Bool Bool,
      Reachable (step (pairConfig .waitdie))
        (State.initial (sevens .waitdie) (fun _ => 0) (fun _ => [0, 0])) state →
      GrantsExact state := by
  intro exact
  have reached : ∃ state : State Nat Bool Bool,
      Reachable (step (pairConfig .waitdie))
        (State.initial (sevens .waitdie) (fun _ => 0) (fun _ => [0, 0])) state ∧
      (state.txns false).readSet =
        [{ key := 0, locked := some [9], value := [0], data := [0] }] :=
    Reach.exists_of_exec (waitingRun.take 11) (by decide +kernel)
  obtain ⟨state, reach, readSet⟩ := reached
  have same := exact state reach false
    { key := 0, locked := some [9], value := [0], data := [0] } (by simp [readSet]) [9] rfl
  cases same

end Rocc.Locking
