import Rocc.Locking.Hybrid.Invariant

/-!
# Every step under the condition keeps the invariant

A lock request changes the claim of the item it is for and no other; the loops of releases
and commits hand each item over to a post or store 0 themselves, and a post that clears a
lock word gives back the lock of its item.
-/

set_option linter.unusedSectionVars false

namespace Rocc.Locking.Hybrid

open Rtx OneSided

universe u v

variable {Key : Type u} {Tid : Type v} [DecidableEq Key] [DecidableEq Tid]
variable {config : Config Key Tid} {state after : State Key Tid} {tid : Tid}
variable {txn : Txn Key} {item last : ReadSetItem Key} {type held : LockType}
variable {place : Nat × Key} {record : Record Bytes}

/-! ## Lock words and their history -/

@[simp] theorem lockEvents_self (tid : Tid) (place : Nat × Key) (word : Nat) :
    lockEvents tid place word word = [] := by
  simp [lockEvents]

theorem lockEvents_acquired {word : Nat} (taken : word ≠ 0) :
    lockEvents tid place 0 word = [.acquired tid place word] := by
  simp [lockEvents, taken, taken.symm]

theorem lockEvents_released {word : Nat} (locked : word ≠ 0) :
    lockEvents tid place word 0 = [.released tid place word] := by
  simp [lockEvents, locked]

/-- A step that changes no lock word. -/
theorem Inv.frame (inv : Inv config state)
    (sameLock : record.lock = (state.records place).lock)
    (sameClaims : (config.claims tid txn).Perm (config.claims tid (state.txns tid)))
    (stillGrowing : txn.stage.Growing → (state.txns tid).stage.Growing)
    (own : TxnOk config tid txn) :
    Inv config ((state.setRecord tid place record).setTxn tid txn) := by
  apply inv.update _ own
  simp only [State.setRecord, sameLock, lockEvents_self, List.append_nil]
  apply Books.Step.ofClaims_frame _ sameClaims stillGrowing
  intro other
  rcases eq_or_ne other place with rfl | different
  · simpa using sameLock
  · simp [different]

/-- A step that stores no record. -/
theorem Inv.frame_txn (inv : Inv config state)
    (sameClaims : (config.claims tid txn).Perm (config.claims tid (state.txns tid)))
    (stillGrowing : txn.stage.Growing → (state.txns tid).stage.Growing)
    (own : TxnOk config tid txn) : Inv config (state.setTxn tid txn) :=
  inv.update (.ofClaims_frame (fun _ => rfl) sameClaims stillGrowing) own

/-- A step that takes a free lock. -/
theorem Inv.acquire (inv : Inv config state) (free : (state.records place).lock = 0)
    (taken : record.lock = config.word tid type) (grows : (state.txns tid).stage.Growing)
    (added : (config.claims tid txn).Perm
      ((place, config.word tid type) :: config.claims tid (state.txns tid)))
    (own : TxnOk config tid txn) :
    Inv config ((state.setRecord tid place record).setTxn tid txn) := by
  apply inv.update _ own
  simp only [State.setRecord, free, taken, lockEvents_acquired (config.word_ne_zero tid type)]
  apply Books.Step.ofClaims_acquire
  · exact ⟨type, rfl⟩
  · exact free
  · simpa using taken
  · intro other different
    simp [different]
  · exact grows
  · exact added

/-- A step that gives a lock back. -/
theorem Inv.release (inv : Inv config state)
    (locked : (state.records place).lock = config.word tid held) (freed : record.lock = 0)
    (removed : (config.claims tid (state.txns tid)).Perm
      ((place, config.word tid held) :: config.claims tid txn))
    (shrinks : ¬ txn.stage.Growing) (own : TxnOk config tid txn) :
    Inv config ((state.setRecord tid place record).setTxn tid txn) := by
  apply inv.update _ own
  simp only [State.setRecord, locked, freed,
    lockEvents_released (config.word_ne_zero tid held)]
  apply Books.Step.ofClaims_release
  · simpa using freed
  · intro other different
    simp [different]
  · exact removed
  · exact shrinks

/-- What is left in a reply buffer does not matter. -/
theorem Inv.setReplyBuf (inv : Inv config state) (replyBuf : Tid → Bytes) :
    Inv config { state with replyBuf } where
  books := inv.books
  txns := inv.txns

/-! ## Claims of a growing transaction -/

theorem Txn.holding_of_growing (grows : txn.stage.Growing) :
    txn.holding = txn.readSet ++ txn.writeSet := by
  cases stage : txn.stage <;> simp_all [Txn.holding, Stage.Growing]

theorem claims_of_growing (grows : txn.stage.Growing) (quiet : txn.posts = []) :
    config.claims tid txn = config.claimsOf tid (txn.readSet ++ txn.writeSet) := by
  simp [Config.claims, Txn.holding_of_growing grows, quiet, clearing]

theorem TxnOk.claims_eq (ok : TxnOk config tid txn) (grows : txn.stage.Growing) :
    config.claims tid txn = config.claimsOf tid (txn.readSet ++ txn.writeSet) :=
  claims_of_growing grows (ok.quiet grows)

/-- The claims of both sets, that of the last item of one of them in front. -/
theorem claimsOf_perm (isLast : (txn.set type).getLast? = some item) :
    (config.claimsOf tid (txn.readSet ++ txn.writeSet)).Perm
      ((config.claim tid item).toList ++
        config.claimsOf tid (txn.keptReads type ++ txn.keptWrites type)) := by
  have split := List.dropLast_append_getLast? item isLast
  cases type with
  | read =>
      simp only [Txn.set] at split
      simp only [Txn.keptReads, Txn.keptWrites]
      conv_lhs => rw [← split]
      simp only [claimsOf_append, claimsOf_singleton, ← List.append_assoc]
      exact List.perm_append_comm.append_right _
  | write =>
      simp only [Txn.set] at split
      simp only [Txn.keptReads, Txn.keptWrites]
      conv_lhs => rw [← split]
      rw [← List.append_assoc, claimsOf_append, claimsOf_singleton]
      exact List.perm_append_comm

/-- Both sets are locked once the last item of one of them is. -/
theorem Locked.concat (isLast : (txn.set type).getLast? = some item)
    (kept : Locked config tid (txn.keptReads type) (txn.keptWrites type))
    (taken : Held config tid type item) : Locked config tid txn.readSet txn.writeSet := by
  have split := List.dropLast_append_getLast? item isLast
  cases type with
  | read =>
      refine ⟨?_, kept.writes⟩
      intro other member
      rw [← show txn.readSet.dropLast ++ [item] = txn.readSet from split] at member
      rcases List.mem_append.mp member with earlier | isItem
      · exact kept.reads other earlier
      · rw [List.mem_singleton.mp isItem]
        exact taken
  | write =>
      refine ⟨kept.reads, ?_⟩
      intro other member
      rw [← show txn.writeSet.dropLast ++ [item] = txn.writeSet from split] at member
      rcases List.mem_append.mp member with earlier | isItem
      · exact kept.writes other earlier
      · rw [List.mem_singleton.mp isItem]
        exact ⟨_, taken⟩

@[simp] theorem setLast_posts (txn : Txn Key) (type : LockType) (item : ReadSetItem Key) :
    (txn.setLast type item).posts = txn.posts := by
  cases type <;> rfl

@[simp] theorem getLast?_setLast (txn : Txn Key) (type : LockType) (item : ReadSetItem Key)
    (stage : Stage Key) :
    (({ txn.setLast type item with stage } : Txn Key).set type).getLast? = some item := by
  cases type <;> simp [Txn.setLast, Txn.setSet, Txn.set]

@[simp] theorem keptReads_setLast (txn : Txn Key) (type : LockType) (item : ReadSetItem Key)
    (stage : Stage Key) :
    ({ txn.setLast type item with stage } : Txn Key).keptReads type = txn.keptReads type := by
  cases type <;> simp [Txn.setLast, Txn.setSet, Txn.set, Txn.keptReads]

@[simp] theorem keptWrites_setLast (txn : Txn Key) (type : LockType)
    (item : ReadSetItem Key) (stage : Stage Key) :
    ({ txn.setLast type item with stage } : Txn Key).keptWrites type =
      txn.keptWrites type := by
  cases type <;> simp [Txn.setLast, Txn.setSet, Txn.set, Txn.keptWrites]

/-- A step of a lock request replaces its item. -/
theorem claims_setLast (config : Config Key Tid) (tid : Tid)
    (isLast : (txn.set type).getLast? = some item)
    (grows : txn.stage.Growing) (quiet : txn.posts = []) {stage : Stage Key}
    (stillGrows : stage.Growing) (last : ReadSetItem Key) :
    (config.claims tid txn).Perm ((config.claim tid item).toList ++
        config.claimsOf tid (txn.keptReads type ++ txn.keptWrites type)) ∧
      (config.claims tid { txn.setLast type last with stage }).Perm
        ((config.claim tid last).toList ++
          config.claimsOf tid (txn.keptReads type ++ txn.keptWrites type)) := by
  constructor
  · rw [claims_of_growing grows quiet]
    exact claimsOf_perm isLast
  · rw [claims_of_growing stillGrows (by simpa using quiet)]
    have moved : (config.claimsOf tid (_ ++ _)).Perm _ :=
      claimsOf_perm (getLast?_setLast txn type last stage)
    rwa [keptReads_setLast, keptWrites_setLast] at moved
/-! ## Sets -/

/-- A transaction that has not started to release. -/
theorem TxnOk.of_growing (ok : StageOk config tid txn) (quiet : txn.posts = []) :
    TxnOk config tid txn where
  stage := ok
  posts post member := by
    rw [quiet] at member
    cases member
  quiet _ := quiet

theorem TxnOk.locked (ok : TxnOk config tid txn) (executes : txn.stage = .execute) :
    Locked config tid txn.readSet txn.writeSet := by
  have stage := ok.stage
  simpa only [StageOk, executes] using stage

theorem inv_begin (inv : Inv config state) (stepped : begin state tid = some after) :
    Inv config after := by
  simp only [begin] at stepped
  split at stepped
  · rename_i idle
    cases stepped
    have grows : (state.txns tid).stage.Growing := by simp [idle, Stage.Growing]
    have ok := (inv.txns tid).stage
    simp only [StageOk, idle] at ok
    apply inv.frame_txn
    · rw [(inv.txns tid).claims_eq grows, ok.1, ok.2]
      exact .refl _
    · exact fun _ => grows
    · apply TxnOk.of_growing
      · constructor <;> simp
      · rfl
  · cases stepped

@[simp] theorem push_posts (txn : Txn Key) (type : LockType) (item : ReadSetItem Key) :
    (txn.push type item).posts = txn.posts := by
  cases type <;> rfl

theorem getLast?_push (txn : Txn Key) (type : LockType) (item : ReadSetItem Key)
    (stage : Stage Key) :
    (({ txn.push type item with stage } : Txn Key).set type).getLast? = some item := by
  cases type <;> simp [Txn.push, Txn.setSet, Txn.set]

@[simp] theorem keptReads_push (txn : Txn Key) (type : LockType) (item : ReadSetItem Key)
    (stage : Stage Key) :
    ({ txn.push type item with stage } : Txn Key).keptReads type = txn.readSet := by
  cases type <;> simp [Txn.push, Txn.setSet, Txn.set, Txn.keptReads]

@[simp] theorem keptWrites_push (txn : Txn Key) (type : LockType) (item : ReadSetItem Key)
    (stage : Stage Key) :
    ({ txn.push type item with stage } : Txn Key).keptWrites type = txn.writeSet := by
  cases type <;> simp [Txn.push, Txn.setSet, Txn.set, Txn.keptWrites]

/-- An item without a lock adds no claim. -/
theorem claims_push (quiet : txn.posts = []) {stage : Stage Key} (grows : stage.Growing)
    (free : item.granted = none) :
    (config.claims tid { txn.push type item with stage }).Perm
      (config.claimsOf tid (txn.readSet ++ txn.writeSet)) := by
  rw [claims_of_growing grows (by simpa using quiet)]
  have moved : (config.claimsOf tid (_ ++ _)).Perm _ :=
    claimsOf_perm (getLast?_push txn type item stage)
  rwa [keptReads_push, keptWrites_push, claim_of_not_granted free] at moved

/-- An item without a lock is appended and its lock requested. -/
theorem inv_push (inv : Inv config state) (executes : (state.txns tid).stage = .execute)
    (fresh : Fresh config tid type item) (free : item.granted = none) :
    Inv config (state.setTxn tid
      { (state.txns tid).push type item with stage := .request type false }) := by
  have grows : (state.txns tid).stage.Growing := by simp [executes, Stage.Growing]
  have quiet := (inv.txns tid).quiet grows
  apply inv.frame_txn
  · rw [(inv.txns tid).claims_eq grows]
    exact claims_push quiet (by trivial) free
  · exact fun _ => grows
  · apply TxnOk.of_growing
    · refine ⟨?_, item, getLast?_push .., free, fresh, Bool.noConfusion⟩
      rw [keptReads_push, keptWrites_push]
      exact (inv.txns tid).locked executes
    · simpa using quiet

theorem inv_access (inv : Inv config state) (executes : (state.txns tid).stage = .execute)
    {pid : Nat} {key : Key} {header : Nat} {data : Bytes}
    (reaches : config.build.lock = true → config.isLocal tid pid = false)
    (stepped : access config state tid type pid key header data = some after) :
    Inv config after := by
  simp only [access] at stepped
  obtain ⟨item, made, rfl⟩ := Option.map_eq_some_iff.mp stepped
  by_cases near : config.isLocal tid pid = true
  · rw [if_pos near, localItem] at made
    obtain ⟨found, -, rfl⟩ := Option.map_eq_some_iff.mp made
    apply inv_push inv executes _ rfl
    constructor
    · rfl
    · intro _
      refine ⟨rfl, ?_⟩
      by_contra locks
      simp [reaches (by simpa using locks)] at near
    · intro far
      simp [near] at far
  · rw [if_neg near] at made
    cases made
    apply inv_push inv executes _ rfl
    constructor
    · rfl
    · exact fun isNear => absurd isNear near
    · intro _
      refine ⟨?_, rfl⟩
      simp only [remoteItem]
      split <;> simp_all

theorem inv_read (inv : Inv config state) {pid : Nat} {key : Key} {header : Nat}
    {data : Bytes} (permitted : Cond config state (.read tid pid key header data))
    (stepped : read config state tid pid key header data = some after) :
    Inv config after := by
  simp only [read] at stepped
  split at stepped
  · rename_i executes
    rw [if_neg permitted.1] at stepped
    exact inv_access inv executes permitted.2 stepped
  · cases stepped

theorem inv_write (inv : Inv config state) {pid : Nat} {key : Key} {header : Nat}
    {data : Bytes} (permitted : Cond config state (.write tid pid key header data))
    (stepped : write config state tid pid key header data = some after) :
    Inv config after := by
  simp only [write] at stepped
  split at stepped
  · rename_i executes
    exact inv_access inv executes permitted stepped
  · cases stepped

/-- An executing transaction rearranges its sets. -/
theorem inv_sets (inv : Inv config state) (executes : (state.txns tid).stage = .execute)
    {reads writes : List (ReadSetItem Key)} (locked : Locked config tid reads writes)
    (same : (config.claimsOf tid (reads ++ writes)).Perm
      (config.claimsOf tid ((state.txns tid).readSet ++ (state.txns tid).writeSet))) :
    Inv config (state.setTxn tid
      { state.txns tid with readSet := reads, writeSet := writes }) := by
  have grows : (state.txns tid).stage.Growing := by simp [executes, Stage.Growing]
  have quiet := (inv.txns tid).quiet grows
  apply inv.frame_txn
  · rw [(inv.txns tid).claims_eq grows]
    refine List.Perm.trans (.of_eq ?_) same
    exact claims_of_growing grows quiet
  · exact fun _ => grows
  · apply TxnOk.of_growing
    · simpa only [StageOk, executes] using locked
    · exact quiet

theorem inv_addToWrite (inv : Inv config state) {index : Nat}
    (stepped : addToWrite state tid index = some after) : Inv config after := by
  simp only [addToWrite] at stepped
  split at stepped
  · rename_i executes
    obtain ⟨item, found, rfl⟩ := Option.map_eq_some_iff.mp stepped
    have locked := (inv.txns tid).locked executes
    obtain ⟨inBounds, isItem⟩ := List.getElem?_eq_some_iff.mp found
    have split := List.getElem_cons_eraseIdx_perm inBounds
    rw [isItem] at split
    apply inv_sets inv executes
    · constructor
      · intro other member
        exact locked.reads other (List.mem_of_mem_eraseIdx member)
      · intro other member
        rcases List.mem_append.mp member with earlier | isMoved
        · exact locked.writes other earlier
        · rw [List.mem_singleton.mp isMoved]
          exact ⟨.read, locked.reads item (List.mem_of_getElem? found)⟩
    · apply List.Perm.filterMap
      rw [← List.append_assoc]
      exact (List.perm_append_singleton _ _).trans (split.append_right _)
  · cases stepped

/-- A store into the buffer of an item leaves its lock alone. -/
theorem Held.store (taken : Held config tid held item) (data : Bytes) :
    Held config tid held { item with data := item.data.map fun _ => data } where
  granted := taken.granted
  data := by simpa using taken.data
  near := taken.near
  far := taken.far

theorem inv_modify (inv : Inv config state) {index : Nat} {data : Bytes}
    (stepped : modify state tid index data = some after) : Inv config after := by
  simp only [modify] at stepped
  split at stepped
  · rename_i executes
    cases stepped
    have locked := (inv.txns tid).locked executes
    by_cases inBounds : index < (state.txns tid).writeSet.length
    · obtain ⟨before, item, behind, isSet, -, modified⟩ := List.exists_of_modify
        (fun item : ReadSetItem Key => { item with data := item.data.map fun _ => data })
        inBounds
      rw [modified]
      apply inv_sets inv executes
      · refine ⟨locked.reads, ?_⟩
        have writes := locked.writes
        simp only [isSet, List.forall_mem_append, List.forall_mem_cons] at writes ⊢
        obtain ⟨held, taken⟩ := writes.2.1
        exact ⟨writes.1, ⟨held, taken.store data⟩, writes.2.2⟩
      · rw [isSet]
        simp only [claimsOf_append, claimsOf_cons]
        exact .refl _
    · rw [List.modify_eq_self (not_lt.mp inBounds)]
      exact inv_sets inv executes locked (.refl _)
  · cases stepped

/-! ## Lock requests -/

theorem headers_of_lock (locks : config.build.lock = true) (type : LockType) :
    config.build.headers type = true := by
  cases type <;> simp [Build.headers, locks]

/-- Without one-sided locks a granted lock marks every header. -/
theorem marks_of_not_lock (rpc : config.build.lock = false) (type : LockType) :
    config.build.marks type = config.build.headers type := by
  cases type <;> simp [Build.marks, Build.headers, rpc]

@[simp] theorem setRecord_self (tid : Tid) (place : Nat × Key) :
    state.setRecord tid place (state.records place) = state := by
  simp [State.setRecord]

/-- The last item is locked and the transaction executes again. -/
theorem stageOk_setLast
    (kept : Locked config tid (txn.keptReads type) (txn.keptWrites type))
    (taken : Held config tid type last) :
    StageOk config tid { txn.setLast type last with stage := .execute } := by
  refine Locked.concat (getLast?_setLast ..) ?_ taken
  rw [keptReads_setLast, keptWrites_setLast]
  exact kept

/-- A step of a lock request that takes no lock. -/
theorem inv_request (inv : Inv config state)
    (isLast : ((state.txns tid).set type).getLast? = some item)
    (grows : (state.txns tid).stage.Growing) {stage : Stage Key} (stillGrows : stage.Growing)
    (same : config.claim tid last = config.claim tid item)
    (ok : StageOk config tid { (state.txns tid).setLast type last with stage }) :
    Inv config (state.setTxn tid { (state.txns tid).setLast type last with stage }) := by
  have quiet := (inv.txns tid).quiet grows
  apply inv.frame_txn
  · have moved := claims_setLast config tid isLast grows quiet stillGrows last
    rw [same] at moved
    exact moved.2.trans moved.1.symm
  · exact fun _ => grows
  · exact .of_growing ok (by simpa using quiet)

/-- A step of a lock request that takes the lock. -/
theorem inv_grant (inv : Inv config state)
    (isLast : ((state.txns tid).set type).getLast? = some item)
    (grows : (state.txns tid).stage.Growing) {stage : Stage Key} (stillGrows : stage.Growing)
    (ungranted : item.granted = none) (free : (state.records item.place).lock = 0)
    (taken : record.lock = config.word tid type)
    (claimed : config.claim tid last = some (item.place, config.word tid type))
    (ok : StageOk config tid { (state.txns tid).setLast type last with stage }) :
    Inv config ((state.setRecord tid item.place record).setTxn tid
      { (state.txns tid).setLast type last with stage }) := by
  have quiet := (inv.txns tid).quiet grows
  apply inv.acquire free taken grows
  · have moved := claims_setLast config tid isLast grows quiet stillGrows last
    rw [claimed, claim_of_not_granted ungranted] at moved
    exact moved.2.trans (moved.1.symm.cons _)
  · exact .of_growing ok (by simpa using quiet)

/-- A request is refused or put on a wait list. -/
theorem inv_setStage (inv : Inv config state) (grows : (state.txns tid).stage.Growing)
    {stage : Stage Key} (stillGrows : stage.Growing)
    (ok : StageOk config tid { state.txns tid with stage }) :
    Inv config (state.setStage tid stage) := by
  have quiet := (inv.txns tid).quiet grows
  apply inv.frame_txn
  · rw [(inv.txns tid).claims_eq grows]
    exact .of_eq (claims_of_growing stillGrows quiet)
  · exact fun _ => grows
  · exact .of_growing ok quiet

/-- What a transaction knows about the item it requests. -/
theorem TxnOk.requested (ok : TxnOk config tid txn) {queued : Bool}
    (requests : txn.stage = .request type queued)
    (isLast : (txn.set type).getLast? = some item) :
    Locked config tid (txn.keptReads type) (txn.keptWrites type) ∧ item.granted = none ∧
      Fresh config tid type item ∧ (queued = true →
        config.build.lock = false ∧ config.isLocal tid item.pid = false) := by
  have stage := ok.stage
  simp only [StageOk, requests] at stage
  obtain ⟨kept, other, otherLast, known⟩ := stage
  rw [isLast] at otherLast
  cases otherLast
  exact ⟨kept, known⟩

theorem inv_casVerb (inv : Inv config state)
    (requests : (state.txns tid).stage = .request type false)
    (isLast : ((state.txns tid).set type).getLast? = some item)
    (locks : config.build.lock = true) : Inv config (casVerb config state tid type item) := by
  obtain ⟨kept, ungranted, fresh, -⟩ := (inv.txns tid).requested requests isLast
  have grows : (state.txns tid).stage.Growing := by simp [requests, Stage.Growing]
  have found : ∀ last : ReadSetItem Key, last.pid = item.pid → last.node = item.node →
      last.data = item.data → last.header.isSome → Fresh config tid type last := by
    intro last samePid sameNode sameData marked
    constructor
    · rw [sameData]
      exact fresh.data
    · rw [samePid, sameNode]
      exact fresh.near
    · rw [samePid, sameNode, marked, headers_of_lock locks]
      exact fun far => ⟨rfl, (fresh.far far).2.trans (headers_of_lock locks type)⟩
  have waits : ∀ last : ReadSetItem Key, Fresh config tid type last →
      last.header = some (state.records item.place).lock →
      last.granted = (if (state.records item.place).lock = 0 then some type else none) →
      StageOk config tid
        { (state.txns tid).setLast type last with stage := .lockRead type } := by
    intro last stillFresh header granted
    refine ⟨?_, locks, last, _, getLast?_setLast .., header, granted, stillFresh⟩
    rw [keptReads_setLast, keptWrites_setLast]
    exact kept
  unfold casVerb
  by_cases free : (state.records item.place).lock = 0
  · simp only [free, if_true, casLock]
    apply inv_grant inv isLast grows (by trivial) ungranted free rfl
    · exact claim_of_granted rfl
    · exact waits _ (found _ rfl rfl rfl rfl) (by simp [ReadSetItem.grant, free])
        (by simp [ReadSetItem.grant, free])
  · simp only [free, if_false, casLock, setRecord_self]
    apply inv_request inv isLast grows
    · trivial
    · rfl
    · exact waits _ (found _ rfl rfl rfl rfl) rfl (by simp [free, ungranted])

theorem inv_lockRead (inv : Inv config state) (stepped : lockRead config state tid = some after) :
    Inv config after := by
  simp only [lockRead] at stepped
  split at stepped
  · rename_i reads
    have ok := (inv.txns tid).stage
    simp only [StageOk, reads] at ok
    obtain ⟨kept, locks, item, found, isLast, header, granted, fresh⟩ := ok
    have grows : (state.txns tid).stage.Growing := by simp [reads, Stage.Growing]
    rw [isLast, Option.bind_some, header, Option.map_some, Option.some.injEq] at stepped
    by_cases free : found = 0
    · rw [if_pos free] at granted
      simp only [free, ne_eq, not_true_eq_false, if_false] at stepped
      subst stepped
      apply inv_request inv isLast grows
      · trivial
      · rfl
      · apply stageOk_setLast kept
        refine ⟨granted, rfl, fresh.near, fun far => ⟨?_, (fresh.far far).2⟩⟩
        rw [headers_of_lock locks, if_pos rfl]
    · rw [if_neg free] at granted
      rw [if_pos free] at stepped
      split at stepped
      · subst stepped
        apply inv_request inv isLast grows
        · trivial
        · rfl
        · have far := fresh.far
          rw [header] at far
          refine ⟨?_, _, getLast?_setLast .., granted, ⟨rfl, fresh.near, far⟩,
            Bool.noConfusion⟩
          rw [keptReads_setLast, keptWrites_setLast]
          exact kept
      · subst stepped
        apply inv_request inv isLast grows
        · trivial
        · rfl
        · refine ⟨?_, _, getLast?_setLast .., granted⟩
          rw [keptReads_setLast, keptWrites_setLast]
          exact kept
  · cases stepped

theorem inv_lockLocal (inv : Inv config state)
    (requests : (state.txns tid).stage = .request type false)
    (isLast : ((state.txns tid).set type).getLast? = some item)
    (near : config.isLocal tid item.pid = true)
    (stepped : lockLocal config state tid type item = some after) : Inv config after := by
  obtain ⟨kept, ungranted, fresh, -⟩ := (inv.txns tid).requested requests isLast
  have grows : (state.txns tid).stage.Growing := by simp [requests, Stage.Growing]
  simp only [lockLocal] at stepped
  split at stepped
  · split at stepped
    · cases stepped
    · cases stepped
      apply inv_setStage inv grows
      · trivial
      · exact ⟨kept, item, isLast, ungranted⟩
  · rename_i free
    cases stepped
    apply inv_grant inv isLast grows
    · trivial
    · exact ungranted
    · simpa using free
    · rfl
    · exact claim_of_granted rfl
    · apply stageOk_setLast kept
      refine ⟨rfl, fresh.data, fresh.near, ?_⟩
      intro far
      simp [ReadSetItem.grant, near] at far

/-- What a handler answers to a lock request. -/
inductive Answer (record : Record Bytes) (word : Nat) : Record Bytes × Option Bytes → Prop where
  | granted (free : record.lock = 0) (value : Bytes) :
      Answer record word ({ record with lock := word }, some (lockSuccessMagic :: value))
  | refused : Answer record word (record, some [lockFailMagic])
  | waits : Answer record word (record, none)

theorem lockRpcHandler_answer (protocol : Protocol) (record : Record Bytes) (type : LockType)
    (time len : Nat) :
    Answer record (type.word time) (protocol.lockRpcHandler record type time len) := by
  have handled : ∀ mayWait, Answer record (type.word time)
      (Locking.lockRpcHandler mayWait record type time len) := by
    intro mayWait
    unfold Locking.lockRpcHandler
    split
    · split
      · exact .waits
      · exact .refused
    · rename_i free
      exact .granted (by simpa using free) _
  cases protocol with
  | nowait => exact handled fun _ _ => false
  | waitdie => exact handled fun lease lock => decide (lease < lock)

theorem checkToNotifyItem_answer (record : Record Bytes) (type : LockType) (time : Nat) :
    Answer record (type.word time) (checkToNotifyItem record type time) := by
  unfold checkToNotifyItem
  split
  · rename_i free
    exact .granted free []
  · split
    · exact .waits
    · exact .refused

theorem inv_answer (inv : Inv config state) {queued : Bool}
    {reply : Record Bytes × Option Bytes}
    (requests : (state.txns tid).stage = .request type queued)
    (isLast : ((state.txns tid).set type).getLast? = some item)
    (rpc : config.build.lock = false) (far : config.isLocal tid item.pid = false)
    (answered : Answer (state.records item.place) (config.word tid type) reply)
    (stepped : answer config state tid type item reply = some after) : Inv config after := by
  obtain ⟨kept, ungranted, fresh, -⟩ := (inv.txns tid).requested requests isLast
  have grows : (state.txns tid).stage.Growing := by simp [requests, Stage.Growing]
  cases answered with
  | granted free value =>
      simp only [answer, tryLock, receive, List.cons_append, if_true, Option.some.injEq]
        at stepped
      subst stepped
      refine inv_grant (inv.setReplyBuf (Function.update state.replyBuf tid _)) isLast grows
        ?_ ?_ ?_ ?_ ?_ ?_
      · trivial
      · exact ungranted
      · exact free
      · rfl
      · exact claim_of_granted rfl
      · apply stageOk_setLast kept
        refine ⟨rfl, rfl, fresh.near, fun _ => ⟨?_, (fresh.far far).2⟩⟩
        simp only [ReadSetItem.take, ReadSetItem.grant, marks_of_not_lock rpc]
        split
        · rfl
        · rename_i plain
          have bare := (fresh.far far).1
          rw [Bool.eq_false_of_not_eq_true plain] at bare
          simpa using bare
  | refused =>
      have differs : lockFailMagic ≠ lockSuccessMagic := by decide
      simp only [answer, setRecord_self, tryLock, receive, List.cons_append, List.nil_append,
        differs, if_false, if_true, Option.some.injEq] at stepped
      subst stepped
      refine inv_setStage (inv.setReplyBuf (Function.update state.replyBuf tid _)) grows
        ?_ ?_
      · trivial
      · exact ⟨kept, item, isLast, ungranted⟩
  | waits =>
      cases stepped
      apply inv_setStage inv grows
      · trivial
      · exact ⟨kept, item, isLast, ungranted, fresh, fun _ => ⟨rpc, far⟩⟩

theorem inv_lockItem (inv : Inv config state) (stepped : lockItem config state tid = some after) :
    Inv config after := by
  simp only [lockItem] at stepped
  split at stepped
  · rename_i type requests
    obtain ⟨item, isLast, stepped⟩ := Option.bind_eq_some_iff.mp stepped
    obtain ⟨-, -, fresh, -⟩ := (inv.txns tid).requested requests isLast
    by_cases locks : config.build.lock = true
    · rw [if_pos locks] at stepped
      split at stepped
      · rename_i near
        simp [(fresh.near near).2] at locks
      · cases stepped
        exact inv_casVerb inv requests isLast locks
    · rw [if_neg locks] at stepped
      split at stepped
      · rename_i near
        exact inv_lockLocal inv requests isLast near stepped
      · rename_i far
        exact inv_answer inv requests isLast (by simpa using locks) (by simpa using far)
          (lockRpcHandler_answer ..) stepped
  · cases stepped

theorem inv_notify (inv : Inv config state) (stepped : notify config state tid = some after) :
    Inv config after := by
  simp only [notify] at stepped
  split at stepped
  · rename_i type requests
    obtain ⟨item, isLast, stepped⟩ := Option.bind_eq_some_iff.mp stepped
    obtain ⟨-, -, -, waits⟩ := (inv.txns tid).requested requests isLast
    obtain ⟨rpc, far⟩ := waits rfl
    exact inv_answer inv requests isLast rpc far (checkToNotifyItem_answer ..) stepped
  · cases stepped

/-! ## Releases and commits -/

theorem Releasing.of_reads {items : List (ReadSetItem Key)}
    (taken : ∀ item ∈ items, Held config tid .read item) :
    Releasing config tid .read items :=
  fun item member => ⟨.read, taken item member, .inl rfl⟩

theorem Releasing.of_writes {items : List (ReadSetItem Key)}
    (taken : ∀ item ∈ items, ∃ type, Held config tid type item)
    (releasable : ∀ item ∈ items, Releasable config tid item) :
    Releasing config tid .write items := by
  intro item member
  obtain ⟨held, own⟩ := taken item member
  refine ⟨held, own, ?_⟩
  rcases releasable item member with granted | far
  · rw [own.granted, Option.some.injEq] at granted
    exact .inl granted
  · exact .inr far

theorem Committing.of_writes {items : List (ReadSetItem Key)}
    (taken : ∀ item ∈ items, ∃ type, Held config tid type item)
    (writable : ∀ item ∈ items, Writable config tid item) :
    Committing config tid items := by
  intro item member
  obtain ⟨held, own⟩ := taken item member
  refine ⟨held, own, (writable item member).1, ?_⟩
  intro commits
  rcases (writable item member).2 commits with locks | releases | granted
  · exact headers_of_lock locks held
  · cases held <;> simp [Build.headers, releases]
  · rw [own.granted, Option.some.injEq] at granted
    subst granted
    simp [Build.headers, commits]

/-- A growing transaction starts to release or to write back. -/
theorem inv_walk (inv : Inv config state) (grows : (state.txns tid).stage.Growing)
    {phase : Phase Key} {todo : List (ReadSetItem Key)} (ok : PhaseOk config tid phase todo)
    (same : (config.claimsOf tid (todo ++ phase.rest)).Perm
      (config.claims tid (state.txns tid))) :
    Inv config (state.setStage tid (.walk phase todo)) := by
  have quiet := (inv.txns tid).quiet grows
  apply inv.frame_txn
  · refine List.Perm.trans (.of_eq ?_) same
    simp [Config.claims, Txn.holding, quiet, clearing]
  · exact fun _ => grows
  · constructor
    · exact ok
    · simp [quiet]
    · exact fun _ => quiet

theorem inv_abort (inv : Inv config state) (permitted : Cond config state (.abort tid))
    (stepped : abort state tid = some after) : Inv config after := by
  simp only [abort] at stepped
  split at stepped
  · rename_i type gaveUp
    cases stepped
    have grows : (state.txns tid).stage.Growing := by simp [gaveUp, Stage.Growing]
    have ok := (inv.txns tid).stage
    simp only [StageOk, gaveUp] at ok
    obtain ⟨kept, item, isLast, ungranted⟩ := ok
    simp only [Cond, gaveUp] at permitted
    apply inv_walk inv grows
    · exact ⟨.of_reads kept.reads, .of_writes kept.writes permitted⟩
    · have moved : (config.claimsOf tid (_ ++ _)).Perm _ := claimsOf_perm isLast
      rw [claim_of_not_granted ungranted] at moved
      rw [(inv.txns tid).claims_eq grows]
      exact moved.symm
  · cases stepped

theorem inv_commit (inv : Inv config state) {vote : Bool}
    (permitted : Cond config state (.commit tid vote))
    (stepped : commit config state tid vote = some after) : Inv config after := by
  simp only [commit] at stepped
  split at stepped
  · rename_i executes
    have grows : (state.txns tid).stage.Growing := by simp [executes, Stage.Growing]
    have locked := (inv.txns tid).locked executes
    cases vote with
    | true =>
        rw [if_pos rfl, if_neg] at stepped
        · cases stepped
          apply inv_walk inv grows
          · exact ⟨.of_writes locked.writes permitted, .of_reads locked.reads⟩
          · rw [(inv.txns tid).claims_eq grows]
            exact List.perm_append_comm.filterMap _
        · intro missing
          obtain ⟨item, member, bare⟩ := List.any_eq_true.mp missing
          obtain ⟨held, own⟩ := locked.writes item member
          have data := own.data
          simp_all
    | false =>
        rw [if_neg Bool.false_ne_true] at stepped
        split at stepped
        · cases stepped
          apply inv_walk inv grows
          · exact ⟨.of_reads locked.reads, .of_writes locked.writes permitted⟩
          · rw [(inv.txns tid).claims_eq grows]
            exact .refl _
        · cases stepped
  · cases stepped

/-- An item is handed over to a post that clears its lock word, or the word is cleared on
the spot. -/
inductive Hands (config : Config Key Tid) (item : ReadSetItem Key) : Effect Key → Prop where
  | post (posts : List (Post Key)) (clears : clearing posts = [item])
      (few : posts.length ≤ 2) (ok : ∀ post ∈ posts, PostOk config post) :
      Hands config item (.post posts)
  | store (record : Record Bytes) (freed : record.lock = 0) : Hands config item (.store record)

/-- The loop of a release gives back an item whose word it can compare, or need not. -/
theorem doRelease_hands (own : Held config tid held item)
    (matching : held = type ∨ config.isLocal tid item.pid = false ∧
      (config.build.release = true ∨ config.protocol = .waitdie))
    (locked : record.lock = config.word tid held) :
    Hands config item (doRelease config tid type record item) := by
  unfold doRelease
  by_cases near : config.isLocal tid item.pid = true
  · have same : held = type := by
      rcases matching with same | far
      · exact same
      · simp [near] at far
    subst same
    have freed : (record.localTryReleaseOp (config.word tid held)).lock = 0 := by
      simp [Record.localTryReleaseOp, locked]
    split
    · rw [releaseVerb, if_pos near, if_pos locked]
      exact .store _ freed
    · rw [releaseEntry, if_pos near, if_pos (own.near near).1]
      exact .store _ freed
  · have far := own.far (Bool.eq_false_of_not_eq_true near)
    split
    · rename_i releases
      have marked : config.build.headers held = true := by
        cases held <;> simp [Build.headers, releases]
      rw [releaseVerb, if_neg near, far.1, marked]
      refine .post _ rfl (Nat.le_succ 1) ?_
      simp only [List.forall_mem_singleton]
      exact ⟨held, own.granted, trivial⟩
    · rename_i releases
      rw [releaseEntry, if_neg near]
      refine .post _ rfl (Nat.le_succ 1) ?_
      simp only [List.forall_mem_singleton]
      refine ⟨held, own.granted, ?_⟩
      rcases matching with same | ⟨-, rdma | waitdie⟩
      · exact .inl same
      · exact absurd rdma releases
      · exact .inr waitdie

/-- The loop of a write-back gives back an item that has the buffer it needs. -/
theorem doWriteBack_hands (own : Held config tid held item)
    (far : config.isLocal tid item.pid = false)
    (marked : config.build.commit = true → config.build.headers held = true) :
    Hands config item (doWriteBack config tid item) := by
  have near : ¬ config.isLocal tid item.pid = true := by simp [far]
  rw [doWriteBack, if_neg near]
  split
  · rename_i commits
    obtain ⟨header, node⟩ := own.far far
    rw [marked commits, if_pos rfl] at header
    rw [if_pos ⟨by rw [header]; rfl, node.trans (marked commits), own.data⟩]
    refine .post _ rfl le_rfl ?_
    simp only [List.forall_mem_cons]
    exact ⟨⟨held, own.granted, own.data⟩, ⟨held, own.granted, trivial⟩, by simp⟩
  · rw [if_pos own.data]
    refine .post _ rfl (Nat.le_succ 1) ?_
    simp only [List.forall_mem_singleton]
    exact ⟨held, own.granted, own.data⟩

/-- The loop of a phase gives its next item back and is left with the others. -/
theorem PhaseOk.hands {phase : Phase Key} {todo : List (ReadSetItem Key)}
    (ok : PhaseOk config tid phase (item :: todo)) :
    PhaseOk config tid phase todo ∧ ∃ held, item.granted = some held ∧
      ∀ record : Record Bytes, record.lock = config.word tid held →
        Hands config item (phase.body config tid record item) := by
  cases phase with
  | releaseReads writes =>
      obtain ⟨releases, writesOk⟩ := ok
      simp only [Releasing, List.forall_mem_cons] at releases
      obtain ⟨⟨held, own, matching⟩, others⟩ := releases
      exact ⟨⟨others, writesOk⟩, held, own.granted,
        fun _ locked => doRelease_hands own matching locked⟩
  | releaseWrites =>
      simp only [PhaseOk, Releasing, List.forall_mem_cons] at ok
      obtain ⟨⟨held, own, matching⟩, others⟩ := ok
      exact ⟨others, held, own.granted, fun _ locked => doRelease_hands own matching locked⟩
  | writeBack reads =>
      obtain ⟨commits, readsOk⟩ := ok
      simp only [Committing, List.forall_mem_cons] at commits
      obtain ⟨⟨held, own, far, marked⟩, others⟩ := commits
      exact ⟨⟨others, readsOk⟩, held, own.granted, fun _ _ => doWriteBack_hands own far marked⟩
  | releaseCommitted =>
      simp only [PhaseOk, Releasing, List.forall_mem_cons] at ok
      obtain ⟨⟨held, own, matching⟩, others⟩ := ok
      exact ⟨others, held, own.granted, fun _ locked => doRelease_hands own matching locked⟩

theorem clearing_append (left right : List (Post Key)) :
    clearing (left ++ right) = clearing left ++ clearing right := by
  simp [clearing]

theorem inv_walkItem (inv : Inv config state) (stepped : walkItem config state tid = some after) :
    Inv config after := by
  simp only [walkItem] at stepped
  split at stepped
  · rename_i phase item todo walking
    have ok := (inv.txns tid).stage
    simp only [StageOk, walking] at ok
    obtain ⟨others, held, granted, hands⟩ := ok.hands
    have holding : (state.txns tid).holding = item :: todo ++ phase.rest := by
      simp [Txn.holding, walking]
    have member : item ∈ (state.txns tid).holding ++ clearing (state.txns tid).posts := by
      simp [holding]
    have locked := (inv.lock_eq granted member).1
    have handed := hands (state.records item.place) locked
    generalize phase.body config tid (state.records item.place) item = effect at stepped handed
    cases handed with
    | post posts clears _ posted =>
        cases stepped
        apply inv.frame_txn
        · apply List.Perm.filterMap
          simp only [holding, clearing_append, clears]
          simp only [Txn.holding, List.cons_append]
          rw [← List.append_assoc]
          exact List.perm_append_singleton _ _
        · exact False.elim
        · constructor
          · exact others
          · simp only [List.forall_mem_append]
            exact ⟨(inv.txns tid).posts, posted⟩
          · exact False.elim
    | store record freed =>
        cases stepped
        apply inv.release locked freed
        · rw [Config.claims, holding, List.cons_append, List.cons_append, claimsOf_cons,
            claim_of_granted granted]
          exact .refl _
        · exact id
        · exact ⟨others, (inv.txns tid).posts, False.elim⟩
  · cases stepped

theorem inv_walkEnd (inv : Inv config state) (stepped : walkEnd state tid = some after) :
    Inv config after := by
  simp only [walkEnd] at stepped
  split at stepped
  · rename_i phase walking
    cases stepped
    have ok := (inv.txns tid).stage
    simp only [StageOk, walking] at ok
    apply inv.frame_txn
    · apply List.Perm.filterMap
      simp [Txn.holding, walking]
    · exact False.elim
    · exact ⟨ok, (inv.txns tid).posts, False.elim⟩
  · cases stepped

theorem nowait_releaseRpcHandler {word : Nat} (own : record.lock = word) :
    Protocol.nowait.releaseRpcHandler record word = some { record with lock := 0 } := by
  simp [Protocol.releaseRpcHandler, Nowait.releaseRpcHandler, own]

/-- A post finds the word of its item and stores a free one, unless it only brings the
value. -/
theorem PostOk.store {post : Post Key} (ok : PostOk config post)
    (granted : post.item.granted = some held)
    (locked : post.kind.clears = true → record.lock = config.word tid held) :
    ∃ stored, post.store config tid record = some stored ∧
      if post.kind.clears then stored.lock = 0 else stored.lock = record.lock := by
  obtain ⟨kind, item⟩ := post
  obtain ⟨other, otherGranted, fits⟩ := ok
  simp only at granted otherGranted fits
  rw [granted, Option.some.injEq] at otherGranted
  subst otherGranted
  cases kind with
  | release type =>
      refine ⟨{ record with lock := 0 }, ?_, rfl⟩
      rcases fits with same | waitdie
      · subst same
        cases protocol : config.protocol with
        | nowait =>
            simp only [Post.store, protocol]
            exact nowait_releaseRpcHandler (locked rfl)
        | waitdie => simp [Post.store, protocol, Protocol.releaseRpcHandler,
            Waitdie.releaseRpcHandler]
      · simp [Post.store, waitdie, Protocol.releaseRpcHandler, Waitdie.releaseRpcHandler]
  | commit =>
      obtain ⟨data, isData⟩ := Option.isSome_iff_exists.mp fits
      refine ⟨commitRpcHandler record data, by simp [Post.store, isData], ?_⟩
      simp [PostKind.clears, commitRpcHandler]
  | write =>
      obtain ⟨data, isData⟩ := Option.isSome_iff_exists.mp fits
      exact ⟨{ record with value := data }, by simp [Post.store, isData], rfl⟩
  | unlock => exact ⟨_, rfl, rfl⟩

/-- The item of a post that clears a lock word is still claimed. -/
theorem mem_clearing {posts : List (Post Key)} {post : Post Key} (member : post ∈ posts)
    (clears : post.kind.clears = true) : post.item ∈ clearing posts :=
  List.mem_map.mpr ⟨post, List.mem_filter.mpr ⟨member, clears⟩, rfl⟩

theorem TxnOk.not_growing_of_post (ok : TxnOk config tid txn) {post : Post Key}
    (member : post ∈ txn.posts) : ¬ txn.stage.Growing := by
  intro grows
  rw [ok.quiet grows] at member
  cases member

theorem inv_deliver (inv : Inv config state) {machine : Nat}
    (stepped : deliver config state tid machine = some after) : Inv config after := by
  simp only [deliver] at stepped
  obtain ⟨⟨post, rest⟩, found, stepped⟩ := Option.bind_eq_some_iff.mp stepped
  have perm := nextFor_perm found
  have member : post ∈ (state.txns tid).posts := perm.mem_iff.mpr List.mem_cons_self
  have shrinks := (inv.txns tid).not_growing_of_post member
  have postOk := (inv.txns tid).posts post member
  obtain ⟨held, granted, -⟩ := id postOk
  have locked : post.kind.clears = true →
      (state.records post.item.place).lock = config.word tid held := by
    intro clears
    have claimed := List.mem_append_right (state.txns tid).holding (mem_clearing member clears)
    exact (inv.lock_eq granted claimed).1
  have own : TxnOk config tid { state.txns tid with posts := rest } := by
    constructor
    · have ok := (inv.txns tid).stage
      cases stage : (state.txns tid).stage <;> simp only [StageOk, stage] at ok ⊢
      case finished => simp [ok] at member
      all_goals exact ok
    · exact fun other otherMember =>
        (inv.txns tid).posts other (perm.mem_iff.mpr (List.mem_cons_of_mem _ otherMember))
    · exact fun grows => absurd grows shrinks
  have moved : (config.claims tid (state.txns tid)).Perm
      (config.claimsOf tid (clearing [post]) ++
        config.claims tid { state.txns tid with posts := rest }) := by
    rw [Config.claims, Config.claims, ← claimsOf_append]
    apply List.Perm.filterMap
    have split : (clearing (state.txns tid).posts).Perm (clearing [post] ++ clearing rest) :=
      ((perm.filter _).map _).trans (.of_eq (clearing_append [post] rest))
    exact (split.append_left _).trans (List.perm_append_comm_assoc _ _ _)
  split at stepped
  · obtain ⟨stored, storedEq, lock⟩ := postOk.store granted locked
    rw [storedEq] at stepped
    cases stepped
    by_cases clears : post.kind.clears = true
    · rw [if_pos clears] at lock
      apply inv.release (locked clears) lock
      · simpa [clearing, clears, claim_of_granted granted] using moved
      · exact shrinks
      · exact own
    · rw [if_neg clears] at lock
      apply inv.frame lock
      · simpa [clearing, clears] using moved.symm
      · exact id
      · exact own
  · cases stepped

theorem inv_resume (inv : Inv config state) (stepped : resume state tid = some after) :
    Inv config after := by
  have ok := (inv.txns tid).stage
  unfold resume at stepped
  split at stepped
  case h_5 => cases stepped
  all_goals
    rename_i waiting done
    cases stepped
    simp only [StageOk, waiting, PhaseOk] at ok
    apply inv.frame_txn
    · simp [Config.claims, Txn.holding, waiting, done, Phase.rest]
    · exact False.elim
    · refine ⟨?_, (inv.txns tid).posts, False.elim⟩
      first
        | exact done
        | exact ok.2

/-! ## Runs -/

/-- Every step under the condition keeps the invariant. -/
theorem inv_step (inv : Inv config state) {action : Action Key Tid}
    (permitted : Cond config state action) (stepped : step config state action = some after) :
    Inv config after := by
  cases action with
  | begin tid => exact inv_begin inv stepped
  | read tid pid key header data => exact inv_read inv permitted stepped
  | write tid pid key header data => exact inv_write inv permitted stepped
  | addToWrite tid index => exact inv_addToWrite inv stepped
  | modify tid index data => exact inv_modify inv stepped
  | lockItem tid => exact inv_lockItem inv stepped
  | lockRead tid => exact inv_lockRead inv stepped
  | notify tid => exact inv_notify inv stepped
  | abort tid => exact inv_abort inv permitted stepped
  | commit tid vote => exact inv_commit inv permitted stepped
  | walkItem tid => exact inv_walkItem inv stepped
  | walkEnd tid => exact inv_walkEnd inv stepped
  | deliver tid machine => exact inv_deliver inv stepped
  | resume tid => exact inv_resume inv stepped

/-- The invariant holds in every state of every run under the condition. -/
theorem inv_of_reach {value : Nat × Key → Bytes} {seq : Nat × Key → Nat}
    {replyBuf : Tid → Bytes}
    (reach : Reach (step config) (Cond config) (State.initial value seq replyBuf) state) :
    Inv config state :=
  reach.invariant (Inv config) (inv_initial config value seq replyBuf)
    fun _ _ _ inv permitted stepped => inv_step inv permitted stepped

end Rocc.Locking.Hybrid
