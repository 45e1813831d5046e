import Rocc.Locking.Invariant

/-!
# Every step keeps the ledger

Inversion lemmas first say everything a lock request and a visit of
`check_to_notify` can do; the preservation lemmas and the results about the two
protocols use these and never unfold the handlers.
-/

set_option linter.unusedSectionVars false

namespace Rocc.Locking

open Rtx

universe u v w

variable {Key : Type u} {Tid : Type v} {Owner : Type w}
variable [DecidableEq Key] [DecidableEq Tid] [DecidableEq Owner]
variable {config : Config Key Tid Owner} {state after : State Key Tid Owner} {tid : Tid}

/-! ## What a request can lead to -/

@[simp] theorem receive_cons (buffer : Bytes) (status : UInt8) (payload : Bytes) :
    receive buffer (status :: payload) =
      status :: (payload ++ buffer.drop (payload.length + 1)) := rfl

/-- Contents of the reply buffer behind the status byte. -/
def State.payload (config : Config Key Tid Owner) (state : State Key Tid Owner)
    (tid : Tid) (sent : Bytes) : Bytes :=
  sent ++ (state.replyBuf (config.owner tid)).drop (sent.length + 1)

/-- The coroutine of a transaction receives a status byte and what follows it. -/
def State.receives (config : Config Key Tid Owner) (state : State Key Tid Owner)
    (tid : Tid) (status : UInt8) (sent : Bytes) : State Key Tid Owner :=
  state.setReplyBuf (config.owner tid) (status :: state.payload config tid sent)

theorem tryLock_success (type : LockType) (key : Key) (locked sent : Bytes) :
    tryLock config state tid type key locked (lockSuccessMagic :: sent) =
      some (grant config (state.receives config tid lockSuccessMagic sent) tid type key
        locked (state.payload config tid sent)) := by
  simp [tryLock, State.receives, State.payload]

theorem tryLock_fail (type : LockType) (key : Key) (locked : Bytes) :
    tryLock config state tid type key locked [lockFailMagic] =
      some (refuse (state.receives config tid lockFailMagic []) tid type) := by
  simp [tryLock, State.receives, State.payload, lockFailMagic, lockSuccessMagic]

/-- The state after the lock of a record has been taken for a transaction. -/
def State.lock (config : Config Key Tid Owner) (state : State Key Tid Owner)
    (tid : Tid) (type : LockType) (key : Key) : State Key Tid Owner :=
  state.setRecord key { state.records key with lock := config.word tid type }

/-- The three answers of `lock_rpc_handler`. -/
inductive LockOutcome (config : Config Key Tid Owner) (state : State Key Tid Owner)
    (tid : Tid) (type : LockType) (key : Key) : State Key Tid Owner → Prop where
  | granted (free : (state.records key).lock = 0) :
      LockOutcome config state tid type key
        (grant config
          ((state.lock config tid type key).receives config tid lockSuccessMagic
            ((state.records key).value.take (config.len key)))
          tid type key (state.records key).value
          (state.payload config tid ((state.records key).value.take (config.len key))))
  | refused (taken : (state.records key).lock ≠ 0) :
      LockOutcome config state tid type key
        (refuse (state.receives config tid lockFailMagic []) tid type)
  | queued (waits : config.protocol = .waitdie)
      (older : config.word tid .read < (state.records key).lock) :
      LockOutcome config state tid type key (addToWaitlist config state tid type key)

theorem setRecord_self (key : Key) :
    state.setRecord key (state.records key) = state := by
  simp [State.setRecord]

/-- What processing a lock request can do. -/
theorem lockItem_cases (stepped : lockItem config state tid = some after) :
    ∃ type key, (state.txns tid).stage = .request type key false ∧
      LockOutcome config state tid type key after := by
  simp only [lockItem] at stepped
  split at stepped
  · rename_i type key requested
    refine ⟨type, key, requested, ?_⟩
    by_cases free : (state.records key).lock = 0
    · have answer : config.protocol.lockRpcHandler (state.records key) type
          (config.startTime tid) (config.len key) =
          ({ state.records key with lock := config.word tid type },
            some (lockSuccessMagic :: (state.records key).value.take (config.len key))) := by
        cases protocol : config.protocol <;>
          simp [Protocol.lockRpcHandler, Nowait.lockRpcHandler, Waitdie.lockRpcHandler,
            lockRpcHandler, free, Config.word]
      rw [answer] at stepped
      simp only [tryLock_success, Option.some.injEq] at stepped
      subst stepped
      exact .granted free
    · by_cases waits : config.protocol = .waitdie ∧
          config.word tid .read < (state.records key).lock
      · have answer : config.protocol.lockRpcHandler (state.records key) type
            (config.startTime tid) (config.len key) = (state.records key, none) := by
          have older : rLease (config.startTime tid) < (state.records key).lock := waits.2
          simp [waits.1, Protocol.lockRpcHandler, Waitdie.lockRpcHandler, lockRpcHandler,
            free, older]
        rw [answer] at stepped
        simp only [Option.some.injEq] at stepped
        subst stepped
        exact .queued waits.1 waits.2
      · have answer : config.protocol.lockRpcHandler (state.records key) type
            (config.startTime tid) (config.len key) =
            (state.records key, some [lockFailMagic]) := by
          cases protocol : config.protocol with
          | nowait =>
              simp [Protocol.lockRpcHandler, Nowait.lockRpcHandler, lockRpcHandler, free]
          | waitdie =>
              have younger : ¬ rLease (config.startTime tid) < (state.records key).lock :=
                fun older => waits ⟨protocol, older⟩
              simp [Protocol.lockRpcHandler, Waitdie.lockRpcHandler, lockRpcHandler, free,
                younger]
        rw [answer] at stepped
        simp only [setRecord_self, tryLock_fail, Option.some.injEq] at stepped
        subst stepped
        exact .refused free
  · cases stepped

/-- The wait list of a server without the waiter that has been answered. -/
def State.dequeue (state : State Key Tid Owner) (server : Nat × Nat)
    (rest : List (Waiter Key Tid)) : State Key Tid Owner :=
  { state with waitLists := Function.update state.waitLists server rest }

/-- The three things `check_to_notify` does with a waiter. -/
inductive NotifyOutcome (config : Config Key Tid Owner) (state : State Key Tid Owner)
    (server : Nat × Nat) (waiter : Waiter Key Tid) (rest : List (Waiter Key Tid)) :
    State Key Tid Owner → Prop where
  | granted (free : (state.records waiter.key).lock = 0) :
      NotifyOutcome config state server waiter rest
        (grant config
          (((state.lock config waiter.tid waiter.type waiter.key).dequeue server
            rest).receives config waiter.tid lockSuccessMagic [])
          waiter.tid waiter.type waiter.key (state.records waiter.key).value
          (state.payload config waiter.tid []))
  | waits (older : config.word waiter.tid waiter.type < (state.records waiter.key).lock) :
      NotifyOutcome config state server waiter rest state
  | refused (taken : (state.records waiter.key).lock ≠ 0)
      (younger : (state.records waiter.key).lock ≤ config.word waiter.tid waiter.type) :
      NotifyOutcome config state server waiter rest
        (refuse ((state.dequeue server rest).receives config waiter.tid lockFailMagic [])
          waiter.tid waiter.type)

/-- What visiting a waiter can do. -/
theorem notify_cases {server : Nat × Nat}
    (stepped : notify config state server tid = some after) :
    ∃ waiter rest, waiter.tid = tid ∧
      nextFor (fun waiter => waiter.tid == tid) (state.waitLists server) =
        some (waiter, rest) ∧
      NotifyOutcome config state server waiter rest after := by
  simp only [notify] at stepped
  split at stepped
  · cases stepped
  · rename_i waiter rest found
    have sameTid : waiter.tid = tid := by simpa using of_nextFor found
    refine ⟨waiter, rest, sameTid, found, ?_⟩
    by_cases free : (state.records waiter.key).lock = 0
    · have answer : checkToNotifyItem (state.records waiter.key) waiter.type
          (config.startTime waiter.tid) =
          ({ state.records waiter.key with lock := config.word waiter.tid waiter.type },
            some [lockSuccessMagic]) := by
        simp [checkToNotifyItem, free, Config.word]
      rw [answer] at stepped
      simp only [tryLock_success, Option.some.injEq] at stepped
      subst stepped
      exact .granted free
    · by_cases older : config.word waiter.tid waiter.type < (state.records waiter.key).lock
      · have answer : checkToNotifyItem (state.records waiter.key) waiter.type
            (config.startTime waiter.tid) = (state.records waiter.key, none) := by
          rw [Config.word] at older
          simp [checkToNotifyItem, free, older]
        rw [answer] at stepped
        simp only [Option.some.injEq] at stepped
        subst stepped
        exact .waits older
      · have answer : checkToNotifyItem (state.records waiter.key) waiter.type
            (config.startTime waiter.tid) =
            (state.records waiter.key, some [lockFailMagic]) := by
          rw [Config.word] at older
          simp [checkToNotifyItem, free, older]
        rw [answer] at stepped
        simp only [setRecord_self, tryLock_fail, Option.some.injEq] at stepped
        subst stepped
        exact .refused free (not_lt.mp older)

/-- A visit of `check_to_notify` always ends. -/
theorem notify_isSome (config : Config Key Tid Owner) {server : Nat × Nat} {waiter : Waiter Key Tid}
    (member : waiter ∈ state.waitLists server) :
    ∃ after, notify config state server waiter.tid = some after := by
  cases visited : notify config state server waiter.tid with
  | some after => exact ⟨after, rfl⟩
  | none =>
      simp only [notify] at visited
      split at visited
      · rename_i missing
        exact absurd member (not_mem_of_nextFor missing (by simp))
      · split at visited
        · rename_i answer
          simp only [checkToNotifyItem] at answer
          split at answer
          · cases answer
            simp [tryLock_success] at visited
          · split at answer
            · cases answer
            · cases answer
              simp [tryLock_fail] at visited
        · cases visited

/-! ## Claims of the new stage -/

@[simp] theorem tagged_append (type : LockType) (left right : List (ReadSetItem Key)) :
    tagged type (left ++ right) = tagged type left ++ tagged type right := by
  simp [tagged]

@[simp] theorem tagged_cons (type : LockType) (item : ReadSetItem Key)
    (items : List (ReadSetItem Key)) :
    tagged type (item :: items) = (item, type) :: tagged type items := rfl

@[simp] theorem tagged_nil (type : LockType) :
    tagged type ([] : List (ReadSetItem Key)) = [] := rfl

/-- A grant adds exactly the item that was requested. -/
theorem claims_fillLast {txn : Txn Key} {type : LockType} {key : Key} {queued : Bool}
    (requests : txn.Requests) (requested : txn.stage = .request type key queued)
    (locked value : Bytes) :
    ({ txn.fillLast type locked value with stage := .execute } : Txn Key).claims.Perm
      (((ReadSetItem.fresh key).fill locked value, type) :: txn.claims) := by
  simp only [Txn.Requests, requested] at requests
  cases type with
  | read =>
      obtain ⟨items, ends⟩ := requests
      simp only [Txn.claims, Txn.fillLast, requested, ends, List.modifyLast_concat,
        List.dropLast_concat, tagged_append, tagged_cons, tagged_nil, List.append_assoc,
        List.singleton_append]
      exact List.perm_middle
  | write =>
      obtain ⟨items, ends⟩ := requests
      simp only [Txn.claims, Txn.fillLast, requested, ends, List.modifyLast_concat,
        List.dropLast_concat, tagged_append, tagged_cons, tagged_nil]
      rw [← List.append_assoc]
      exact List.perm_append_singleton _ _

/-- A refused transaction still holds what it held. -/
theorem claims_abortStage {txn : Txn Key} {type : LockType} {key : Key} {queued : Bool}
    (requested : txn.stage = .request type key queued) :
    ({ txn with stage := txn.abortStage type } : Txn Key).claims = txn.claims := by
  cases type <;> simp only [Txn.claims, Txn.abortStage, requested]

/-- Sending a request changes no claim. -/
theorem claims_push {txn : Txn Key} (executes : txn.stage = .execute) (type : LockType)
    (key : Key) :
    ({ txn.push type (.fresh key) with stage := .request type key false } :
      Txn Key).claims = txn.claims := by
  cases type <;> simp [Txn.claims, Txn.push, executes]

theorem requests_push (txn : Txn Key) (type : LockType) (key : Key) :
    ({ txn.push type (.fresh key) with stage := .request type key false } :
      Txn Key).Requests := by
  cases type <;> exact ⟨_, rfl⟩

theorem requests_abortStage (txn : Txn Key) (type : LockType) :
    ({ txn with stage := txn.abortStage type } : Txn Key).Requests := by
  cases type <;> trivial

theorem not_growing_abortStage (txn : Txn Key) (type : LockType) :
    ¬ (txn.abortStage type).Growing := by
  cases type <;> exact id

/-! ## Preservation -/

theorem inv_begin (inv : Inv config state)
    (stepped : begin config state tid = some after) : Inv config after := by
  simp only [begin] at stepped
  split at stepped
  · rename_i idle _
    simp only [Option.some.injEq] at stepped
    subst stepped
    apply inv.frame
    · exact fun _ => rfl
    · simp [Config.claims, Txn.claims, idle]
    · simp [idle, Stage.Growing]
    · trivial
    · apply inv.waiting.setTxn _ inv.waiting.nodup
      exact inv.waiting.unqueued (by simp [idle])
  · cases stepped

theorem inv_request (inv : Inv config state) {type : LockType} {key : Key}
    (stepped : request state tid type key = some after) : Inv config after := by
  simp only [request] at stepped
  split at stepped
  · rename_i executes
    simp only [Option.some.injEq] at stepped
    subst stepped
    apply inv.frame
    · exact fun _ => rfl
    · rw [Config.claims, claims_push executes, Config.claims]
    · simp [executes, Stage.Growing]
    · exact requests_push _ type key
    · apply inv.waiting.setTxn _ inv.waiting.nodup
      exact inv.waiting.unqueued (by simp [executes])
  · cases stepped

theorem inv_modify (inv : Inv config state) {key : Key} {data : Bytes}
    (stepped : modify config state tid key data = some after) : Inv config after := by
  simp only [modify] at stepped
  split at stepped
  · rename_i executes
    split at stepped
    · simp only [Option.some.injEq] at stepped
      subst stepped
      apply inv.frame
      · exact fun _ => rfl
      · -- Only the contents of buffers change.
        apply List.Perm.of_eq
        simp only [Config.claims, Txn.claims, executes, tagged, List.map_append,
          List.map_map, List.append_cancel_left_eq]
        apply List.map_congr_left
        intro item _
        simp only [Function.comp]
        split <;> rfl
      · simp [executes, Stage.Growing]
      · simp [Txn.Requests, executes]
      · apply inv.waiting.setTxn _ inv.waiting.nodup
        exact inv.waiting.unqueued (by simp [executes])
    · cases stepped
  · cases stepped

/-- A grant, given what is left of the wait lists. -/
theorem inv_grant (inv : Inv config state) {type : LockType} {key : Key} {queued : Bool}
    {waitLists : Nat × Nat → List (Waiter Key Tid)} {replyBuf : Owner → Bytes}
    (requested : (state.txns tid).stage = .request type key queued)
    (free : (state.records key).lock = 0)
    (kept : ∀ server, ∀ waiter ∈ waitLists server,
      waiter ∈ state.waitLists server ∧ waiter.tid ≠ tid)
    (nodup : ∀ server, ((waitLists server).map (·.tid)).Nodup)
    (locked payload : Bytes) :
    Inv config (grant config
      { state.lock config tid type key with waitLists, replyBuf } tid type key locked
        payload) := by
  have added := claims_fillLast (inv.requests tid) requested locked
    (payload.take (config.len key))
  have growing : (state.txns tid).stage.Growing := by simp [requested, Stage.Growing]
  exact inv.acquire free growing rfl rfl added trivial (inv.waiting.setTxn kept nodup)

/-- A refusal, given what is left of the wait lists. -/
theorem inv_refuse (inv : Inv config state) {type : LockType} {key : Key} {queued : Bool}
    {waitLists : Nat × Nat → List (Waiter Key Tid)} {replyBuf : Owner → Bytes}
    (requested : (state.txns tid).stage = .request type key queued)
    (kept : ∀ server, ∀ waiter ∈ waitLists server,
      waiter ∈ state.waitLists server ∧ waiter.tid ≠ tid)
    (nodup : ∀ server, ((waitLists server).map (·.tid)).Nodup) :
    Inv config (refuse { state with waitLists, replyBuf } tid type) := by
  apply inv.frame
  · exact fun _ => rfl
  · rw [Config.claims, claims_abortStage requested, Config.claims]
  · intro grows
    exact absurd grows (not_growing_abortStage _ type)
  · exact requests_abortStage _ type
  · exact inv.waiting.setTxn kept nodup

theorem inv_addToWaitlist (inv : Inv config state) {type : LockType} {key : Key}
    (requested : (state.txns tid).stage = .request type key false) :
    Inv config (addToWaitlist config state tid type key) := by
  have others : ∀ server, ∀ waiter ∈ state.waitLists server,
      waiter ∈ state.waitLists server ∧ waiter.tid ≠ tid :=
    inv.waiting.unqueued (by simp [requested])
  apply inv.frame
  · exact fun _ => rfl
  · cases type <;> simp [Config.claims, Txn.claims, requested]
  · simp [requested, Stage.Growing]
  · have old := inv.requests tid
    cases type <;> simpa [Txn.Requests, requested] using old
  · constructor
    · intro server waiter member
      have cases : waiter = { type, tid, key } ∧ server = config.server tid key ∨
          waiter ∈ state.waitLists server := by
        rcases eq_or_ne server (config.server tid key) with rfl | different
        · rw [Function.update_self, List.mem_cons] at member
          exact member.imp (⟨·, rfl⟩) id
        · rw [Function.update_of_ne different] at member
          exact .inr member
      rcases cases with ⟨rfl, rfl⟩ | member
      · simp
      · rw [Function.update_of_ne (others server waiter member).2]
        exact inv.waiting.queued server waiter member
    · intro server
      rcases eq_or_ne server (config.server tid key) with rfl | different
      · rw [Function.update_self, List.map_cons, List.nodup_cons]
        refine ⟨?_, inv.waiting.nodup _⟩
        intro member
        obtain ⟨waiter, waiterMember, same⟩ := List.mem_map.mp member
        exact (others _ waiter waiterMember).2 same
      · rw [Function.update_of_ne different]
        exact inv.waiting.nodup server

theorem inv_lockItem (inv : Inv config state)
    (stepped : lockItem config state tid = some after) : Inv config after := by
  obtain ⟨type, key, requested, outcome⟩ := lockItem_cases stepped
  have others : ∀ server, ∀ waiter ∈ state.waitLists server,
      waiter ∈ state.waitLists server ∧ waiter.tid ≠ tid :=
    inv.waiting.unqueued (by simp [requested])
  cases outcome with
  | granted free => exact inv_grant inv requested free others inv.waiting.nodup _ _
  | refused _ => exact inv_refuse inv requested others inv.waiting.nodup
  | queued _ _ => exact inv_addToWaitlist inv requested

/-- Answering a waiter removes the only entry of its transaction. -/
theorem Inv.dequeue (inv : Inv config state) {server : Nat × Nat}
    {waiter : Waiter Key Tid} {rest : List (Waiter Key Tid)}
    (found : nextFor (fun waiter => waiter.tid == tid) (state.waitLists server) =
      some (waiter, rest)) :
    (state.txns waiter.tid).stage = .request waiter.type waiter.key true ∧
    (∀ other, ∀ left ∈ Function.update state.waitLists server rest other,
      left ∈ state.waitLists other ∧ left.tid ≠ waiter.tid) ∧
    ∀ other, ((Function.update state.waitLists server rest other).map (·.tid)).Nodup := by
  have member : waiter ∈ state.waitLists server := (mem_of_nextFor found).mpr (.inl rfl)
  obtain ⟨requested, served⟩ := inv.waiting.queued server waiter member
  have nodup := inv.waiting.nodup server
  rw [((nextFor_perm found).map _).nodup_iff, List.map_cons, List.nodup_cons] at nodup
  refine ⟨requested, ?_, ?_⟩
  · intro other left leftMember
    rcases eq_or_ne other server with rfl | different
    · rw [Function.update_self] at leftMember
      refine ⟨(mem_of_nextFor found).mpr (.inr leftMember), ?_⟩
      intro same
      exact nodup.1 (List.mem_map.mpr ⟨left, leftMember, same⟩)
    · rw [Function.update_of_ne different] at leftMember
      refine ⟨leftMember, ?_⟩
      intro same
      obtain ⟨leftRequested, leftServed⟩ := inv.waiting.queued other left leftMember
      rw [same, requested] at leftRequested
      injection leftRequested with _ sameKey
      exact different (by rw [leftServed, served, same, sameKey])
  · intro other
    rcases eq_or_ne other server with rfl | different
    · rw [Function.update_self]
      exact nodup.2
    · rw [Function.update_of_ne different]
      exact inv.waiting.nodup other

/-- A visit of a waiter that is on the list answers that waiter. -/
theorem Inv.notify_mem (inv : Inv config state) {server : Nat × Nat}
    {waiter : Waiter Key Tid} (member : waiter ∈ state.waitLists server) :
    ∃ after rest, notify config state server waiter.tid = some after ∧
      NotifyOutcome config state server waiter rest after := by
  obtain ⟨after, visited⟩ := notify_isSome config member
  obtain ⟨found, rest, sameTid, isNext, outcome⟩ := notify_cases visited
  have foundMember : found ∈ state.waitLists server := (mem_of_nextFor isNext).mpr (.inl rfl)
  have same : found = waiter :=
    List.inj_on_of_nodup_map (inv.waiting.nodup server) foundMember member sameTid
  subst same
  exact ⟨after, rest, visited, outcome⟩

theorem inv_notify (inv : Inv config state) {server : Nat × Nat}
    (stepped : notify config state server tid = some after) : Inv config after := by
  obtain ⟨waiter, rest, -, found, outcome⟩ := notify_cases stepped
  obtain ⟨requested, kept, nodup⟩ := inv.dequeue found
  cases outcome with
  | granted free => exact inv_grant inv requested free kept nodup _ _
  | waits _ => exact inv
  | refused _ _ => exact inv_refuse inv requested kept nodup

theorem inv_commit (inv : Inv config state)
    (stepped : commit state tid = some after) : Inv config after := by
  simp only [commit] at stepped
  split at stepped
  · rename_i executes
    simp only [Option.some.injEq] at stepped
    subst stepped
    apply inv.frame
    · exact fun _ => rfl
    · simp only [Config.claims, Txn.claims, executes]
      exact List.perm_append_comm.map _
    · simp [Stage.Growing]
    · trivial
    · apply inv.waiting.setTxn _ inv.waiting.nodup
      exact inv.waiting.unqueued (by simp [executes])
  · cases stepped

theorem inv_commitItem (inv : Inv config state) {machine : Nat}
    (stepped : commitItem config state tid machine = some after) : Inv config after := by
  simp only [commitItem] at stepped
  split at stepped
  · rename_i pending writing
    obtain ⟨⟨item, rest⟩, found, rfl⟩ := Option.map_eq_some_iff.mp stepped
    apply inv.release
    · simp [commitRpcHandler]
    · simp only [Txn.claims, writing]
      exact ((nextFor_perm found).map _).append_right _
    · exact id
    · simp [writing, Stage.Growing]
    · trivial
  · cases stepped

/-- Both release handlers clear the lock word when they do not stop. -/
theorem releaseRpcHandler_lock {protocol : Protocol} {record cleared : Record Bytes}
    {word : Nat} (released : protocol.releaseRpcHandler record word = some cleared) :
    cleared = { record with lock := 0 } := by
  cases protocol with
  | nowait =>
      simp only [Protocol.releaseRpcHandler, Nowait.releaseRpcHandler] at released
      split at released
      · exact (Option.some.inj released).symm
      · cases released
  | waitdie => exact (Option.some.inj released).symm

/-- What processing an item of a release message does. -/
theorem releaseOne_cases {machine : Nat} {type : LockType}
    {pending : List (ReadSetItem Key)} {next : List (ReadSetItem Key) → Stage Key}
    (stepped : releaseOne config state tid machine type pending next = some after) :
    ∃ item rest, nextFor (config.at machine) pending = some (item, rest) ∧
      after = ((state.setRecord item.key
        { state.records item.key with lock := 0 }).setStage tid (next rest)).log
          (.released tid item.key (config.word tid type)) := by
  obtain ⟨⟨item, rest⟩, found, released⟩ := Option.bind_eq_some_iff.mp stepped
  obtain ⟨cleared, answer, rfl⟩ := Option.map_eq_some_iff.mp released
  refine ⟨item, rest, found, ?_⟩
  rw [releaseRpcHandler_lock answer]

theorem inv_releaseOne (inv : Inv config state) (next : List (ReadSetItem Key) → Stage Key)
    {machine : Nat} {type : LockType} {pending : List (ReadSetItem Key)}
    {kept : List (ReadSetItem Key × LockType)}
    (releasing : (state.txns tid).stage = next pending)
    (claims : ∀ items, ({ state.txns tid with stage := next items } : Txn Key).claims =
      tagged type items ++ kept)
    (shrinks : ∀ items, ¬ (next items).Growing)
    (stepped : releaseOne config state tid machine type pending next = some after) :
    Inv config after := by
  obtain ⟨item, rest, found, rfl⟩ := releaseOne_cases stepped
  have held : (state.txns tid).claims = tagged type pending ++ kept := by
    rw [← claims pending, ← releasing]
  apply inv.release
  · rfl
  · have left := claims rest
    rw [held]
    refine .trans (((nextFor_perm found).map _).append_right kept) ?_
    exact .of_eq (congrArg (List.cons (item, type)) left.symm)
  · exact shrinks rest
  · rw [releasing]
    exact shrinks pending
  · have stuck := shrinks rest
    revert stuck
    simp only [Txn.Requests]
    cases next rest <;> simp [Stage.Growing]

theorem inv_releaseItem (inv : Inv config state) {machine : Nat}
    (stepped : releaseItem config state tid machine = some after) : Inv config after := by
  simp only [releaseItem] at stepped
  split at stepped
  · rename_i pending writes releasing
    have claims : ∀ items, ({ state.txns tid with stage := .releaseReads items writes } :
        Txn Key).claims = tagged .read items ++ tagged .write writes := fun _ => rfl
    exact inv_releaseOne inv (.releaseReads · writes) releasing claims (fun _ => id) stepped
  · rename_i pending releasing
    have claims : ∀ items, ({ state.txns tid with stage := .releaseWrites items } :
        Txn Key).claims = tagged .write items ++ [] := by simp [Txn.claims]
    exact inv_releaseOne inv .releaseWrites releasing claims (fun _ => id) stepped
  · rename_i pending releasing
    have claims : ∀ items, ({ state.txns tid with stage := .releaseCommitted items } :
        Txn Key).claims = tagged .read items ++ [] := by simp [Txn.claims]
    exact inv_releaseOne inv .releaseCommitted releasing claims (fun _ => id) stepped
  · cases stepped

theorem inv_resume (inv : Inv config state)
    (stepped : resume config state tid = some after) : Inv config after := by
  simp only [resume] at stepped
  split at stepped
  case h_5 => cases stepped
  all_goals
    rename_i resumed
    simp only [Option.some.injEq] at stepped
    subst stepped
    apply inv.frame
    · exact fun _ => rfl
    · simp [Config.claims, Txn.claims, resumed]
    · simp [Stage.Growing]
    · trivial
    · apply inv.waiting.setTxn _ inv.waiting.nodup
      exact inv.waiting.unqueued (by simp [resumed])

/-- One step of the system keeps the invariant. -/
theorem inv_step {action : Action Key Tid} (inv : Inv config state)
    (stepped : step config state action = some after) : Inv config after := by
  cases action with
  | begin tid => exact inv_begin inv stepped
  | request tid type key => exact inv_request inv stepped
  | modify tid key data => exact inv_modify inv stepped
  | lockItem tid => exact inv_lockItem inv stepped
  | notify server tid => exact inv_notify inv stepped
  | commit tid => exact inv_commit inv stepped
  | commitItem tid machine => exact inv_commitItem inv stepped
  | releaseItem tid machine => exact inv_releaseItem inv stepped
  | resume tid => exact inv_resume inv stepped

/-- The invariant holds in every state of every run. -/
theorem inv_of_reach {database : Database config} {seq : Key → Nat}
    {replyBuf : Owner → Bytes} {allowed : State Key Tid Owner → Action Key Tid → Prop}
    (reach : Reach (step config) allowed (State.initial database seq replyBuf) state) :
    Inv config state :=
  reach.invariant _ (inv_initial database seq replyBuf) fun _ _ _ inv _ stepped =>
    inv_step inv stepped

end Rocc.Locking
