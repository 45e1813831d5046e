import Rocc.Db.Farm.Versions

/-!
# DBFarm: every step keeps the invariant

The steps fall into groups: edits of the sets of an executing transaction, moves to
another stage, aborts, locks taken, records written and locks given back.
-/

set_option linter.unusedSectionVars false

namespace Rocc.Db.Farm

open Rtx Schedule

universe u v w x

variable {Key : Type u} {Value : Type v} {Tid : Type w} {Owner : Type x}
variable [DecidableEq Key] [DecidableEq Value] [DecidableEq Tid] [DecidableEq Owner]
variable (config : Config Key Value Tid Owner)

section Conditions

variable (state : State Key Value Tid Owner) (tid : Tid)

/-- A local record that has the expected sequence number is not locked by another
coroutine. -/
def Unlocked : Stage Key Value → Prop
  | .checkLocalSet _ (item :: _) =>
      (state.nodes item.access.key).seq = item.access.seq →
        (state.nodes item.access.key).lock = 0 ∨
          (state.nodes item.access.key).lock = config.content tid
  | _ => True

/-- When a transaction has all its locks, the remote records it has fetched and does not
write are as fetched and not locked; when it sends its commits, the lengths of the values
fit into the `payload` field. -/
def Resumes : Stage Key Value → Prop
  | .lockAllSet _ [] =>
      ∀ access ∈ (state.txns tid).fetched, access ∈ (state.txns tid).remote ∨
        (state.nodes access.key).lock = 0 ∧ (state.nodes access.key).seq = access.seq
  | .commitLocalWrite [] =>
      ∀ item ∈ (state.txns tid).remoteWrites, config.vlen item.access.key < payloadBound
  | _ => True

/-- The next local commit does not overflow. -/
def CommitFits : Stage Key Value → Prop
  | .commitLocalWrite (item :: _) => (state.nodes item.access.key).seq + 2 < wordBound
  | _ => True

/-- The next remote commit does not overflow. -/
def DeliverFits : List (Msg Key Value Tid) → Prop
  | .commit _ item :: _ => (state.nodes item.access.key).seq + 2 < wordBound
  | _ => True

instance : DecidablePred (Unlocked config state tid) := fun stage => by
  unfold Unlocked
  split <;> infer_instance

instance : DecidablePred (Resumes config state tid) := fun stage => by
  unfold Resumes
  split <;> infer_instance

instance : DecidablePred (CommitFits state) := fun stage => by
  unfold CommitFits
  split <;> infer_instance

instance : DecidablePred (DeliverFits state) := fun queue => by
  unfold DeliverFits
  split <;> infer_instance

end Conditions

/-- What `DBFarm` relies on and does not check; nobody reads a record that another
transaction has inserted and nobody has committed. -/
def Validated (state : State Key Value Tid Owner) : Action Key Value Tid Owner → Prop
  | .get tid key => state.fresh key = none ∨ state.fresh key = some tid
  | .remoteAdd tid key => state.fresh key = none ∨ state.fresh key = some tid
  | .checkLocal tid => Unlocked config state tid (state.txns tid).stage
  | .resume tid => Resumes config state tid (state.txns tid).stage
  | .commitLocal tid => CommitFits state (state.txns tid).stage
  | .deliver owner partition => DeliverFits state (state.flight owner partition)
  | _ => True

instance (state : State Key Value Tid Owner) : DecidablePred (Validated config state) :=
  fun action => by
    unfold Validated
    split <;> infer_instance

variable {config} {state after : State Key Value Tid Owner} {tid : Tid}

/-! ## Common parts -/

theorem Own.setStage {txn : Txn Key Value} {stage : Stage Key Value}
    (own : Own config tid txn) (shape : (txn.setStage stage).Shape) :
    Own config tid (txn.setStage stage) :=
  ⟨own.inside, own.outside, own.remote_fetched, shape⟩

/-- The transactions that run are the same. -/
theorem Locks.running_same (locks : Locks config state)
    (others : ∀ other, other ≠ tid → after.txns other = state.txns other)
    (running : after.running = state.running) (active : (state.txns tid).stage.Active) :
    ∀ other, (after.txns other).stage.Active →
      after.running (config.owner other) = some other := by
  intro other now
  rw [running]
  rcases eq_or_ne other tid with rfl | different
  · exact locks.running other active
  · rw [others other different] at now
    exact locks.running other now

/-- The running transaction has ended. -/
theorem Locks.running_finish (locks : Locks config state)
    (others : ∀ other, other ≠ tid → after.txns other = state.txns other)
    (ended : ¬ (after.txns tid).stage.Active)
    (running : after.running = Function.update state.running (config.owner tid) none)
    (active : (state.txns tid).stage.Active) :
    ∀ other, (after.txns other).stage.Active →
      after.running (config.owner other) = some other := by
  intro other now
  rcases eq_or_ne other tid with rfl | different
  · exact absurd now ended
  · rw [others other different] at now
    have away : config.owner other ≠ config.owner tid :=
      fun same => different (locks.active_unique now active same)
    rw [running, Function.update_of_ne away]
    exact locks.running other now

section Changed

variable {txn : Txn Key Value}

theorem others_of_changed (changed : after.txns = Function.update state.txns tid txn) :
    ∀ other, other ≠ tid → after.txns other = state.txns other := by
  intro other different
  rw [changed, Function.update_of_ne different]

theorem self_of_changed (changed : after.txns = Function.update state.txns tid txn) :
    after.txns tid = txn := by
  rw [changed, Function.update_self]

/-- The sets of the acting transaction grow, those of the others stay. -/
theorem mono_of_changed {sets : Txn Key Value → List (Access Key)}
    (changed : after.txns = Function.update state.txns tid txn)
    (grows : ∀ access ∈ sets (state.txns tid), access ∈ sets txn) :
    ∀ other, ∀ access ∈ sets (state.txns other), access ∈ sets (after.txns other) := by
  intro other access member
  rcases eq_or_ne other tid with rfl | different
  · rw [self_of_changed changed]
    exact grows access member
  · rw [others_of_changed changed other different]
    exact member

/-- No sequence number changes, and the acting transaction is sound. -/
theorem Inv.sound_of_changed (inv : Inv config state)
    (changed : after.txns = Function.update state.txns tid txn)
    (sameSeq : ∀ key, (after.nodes key).seq = (state.nodes key).seq)
    (stays : ∀ key, (state.nodes key).value.isSome → (after.nodes key).value.isSome)
    (sound : Sound after.nodes txn) : ∀ other, Sound after.nodes (after.txns other) := by
  intro other
  rcases eq_or_ne other tid with rfl | different
  · rw [self_of_changed changed]
    exact sound
  · rw [others_of_changed changed other different]
    exact (inv.sound other).frame sameSeq stays

end Changed

/-! ## Edits of the sets -/

/-- The sets of an executing transaction change. -/
theorem Inv.edit (inv : Inv config state) (tid : Tid) (txn : Txn Key Value)
    (changed : after.txns = Function.update state.txns tid txn)
    (executes : (state.txns tid).stage = .execute) (executes' : txn.stage = .execute)
    (sameTaken : txn.taken = (state.txns tid).taken)
    (sameLock : ∀ key, (after.nodes key).lock = (state.nodes key).lock)
    (sameSeq : ∀ key, (after.nodes key).seq = (state.nodes key).seq)
    (stays : ∀ key, (state.nodes key).value.isSome → (after.nodes key).value.isSome)
    (flight : after.flight = state.flight) (running : after.running = state.running)
    (order : after.lockOrder = state.lockOrder)
    (inside : ∀ item ∈ txn.rwset, config.IsLocal tid item.access.key)
    (outside : ∀ access ∈ txn.fetched, ¬ config.IsLocal tid access.key)
    (fetched : ∀ access ∈ txn.remote, access ∈ txn.fetched)
    (seen : ∀ access ∈ txn.reads,
      access.seq ≤ (after.nodes access.key).seq ∧ (after.nodes access.key).value.isSome)
    (logged : Logged after) : Inv config after := by
  have nothing : txn.taken = [] := by
    have shape := (inv.locks.own tid).shape
    rw [sameTaken]
    simpa only [Txn.Shape, executes] using shape
  have own : Own config tid txn :=
    ⟨inside, outside, fetched, by simpa only [Txn.Shape, executes'] using nothing⟩
  have active : (state.txns tid).stage.Active := by simp [executes, Stage.Active]
  have others := others_of_changed changed
  have self := self_of_changed changed
  refine ⟨?_, ?_, ?_, logged⟩
  · refine inv.locks.quiet tid sameLock others (self ▸ sameTaken) (self ▸ own) ?_ ?_ ?_
      (inv.locks.running_same others running active) flight
    · simp [executes, Stage.Done]
    · simp [self, executes', Stage.Sent]
    · simp [executes, Stage.Sent]
  · refine inv.sound_of_changed changed sameSeq stays
      ⟨seen, fun access taken => ?_, fun alive => ?_⟩
    · simp [nothing] at taken
    · simp [executes', Stage.Alive] at alive
  · refine inv.ranking.frame_of_not_alive tid order others ?_ ?_
    · simp [self, executes', Stage.Alive]
    · simp [executes, Stage.Ranked]

/-- A read is noted. -/
theorem Inv.logged_read (inv : Inv config state) {txn : Txn Key Value} {key : Key}
    (changed : after.txns = Function.update state.txns tid txn)
    (history : after.history =
      state.history ++ [.read tid { key, seq := (state.nodes key).seq }])
    (nodes : after.nodes = state.nodes) (fresh : after.fresh = state.fresh)
    (visible : state.fresh key = none ∨ state.fresh key = some tid)
    (reads : ∀ access ∈ (state.txns tid).reads, access ∈ txn.reads)
    (written : ∀ access ∈ (state.txns tid).written, access ∈ txn.written)
    (member : { key, seq := (state.nodes key).seq } ∈ txn.reads) : Logged after := by
  have self := self_of_changed changed
  refine inv.logged.append history (mono_of_changed changed reads)
    (mono_of_changed changed written) (fun _ => nodes ▸ le_rfl) ?_ ?_ ?_ ?_ ?_
    (inv.logged.inTurn_read visible)
  · rw [fresh, nodes]
    exact inv.logged.passed
  · intro _
    exact self ▸ member
  · intro isWrite
    cases isWrite
  · rw [nodes]
    exact le_rfl
  · intro isWrite
    cases isWrite

namespace Txn

variable {txn : Txn Key Value} {item : RWSetItem Key Value} {access : Access Key}

theorem mem_reads_add :
    access ∈ (txn.add item).reads ↔ access ∈ txn.reads ∨ access = item.access := by
  simp only [reads, add, fetched, List.map_append, List.mem_append, List.map_cons,
    List.map_nil, List.mem_singleton]
  tauto

theorem mem_written_add (member : access ∈ txn.written) : access ∈ (txn.add item).written := by
  rcases List.mem_append.mp member with member | member
  · exact List.mem_append_left _ member
  · refine List.mem_append_right _ ?_
    simp only [localWrites, add, List.filter_append, List.map_append, List.mem_append]
    exact .inl member

theorem mem_rwset_add {other : RWSetItem Key Value} :
    other ∈ (txn.add item).rwset ↔ other ∈ txn.rwset ∨ other = item := by
  simp [add]

theorem mem_fetched_addRemote {item : RemoteSetItem Key Value} :
    access ∈ (txn.addRemote item).fetched ↔ access ∈ txn.fetched ∨ access = item.access := by
  simp [addRemote, fetched]

theorem mem_reads_addRemote {item : RemoteSetItem Key Value} :
    access ∈ (txn.addRemote item).reads ↔ access ∈ txn.reads ∨ access = item.access := by
  rw [reads, List.mem_append, mem_fetched_addRemote, reads, List.mem_append, or_assoc]
  rfl

end Txn

/-- A record of the partition is read. -/
theorem get_inv (inv : Inv config state) {key : Key}
    (visible : state.fresh key = none ∨ state.fresh key = some tid)
    (stepped : get config state tid key = some after) : Inv config after := by
  unfold get at stepped
  dsimp only at stepped
  split_ifs at stepped with enabled
  obtain ⟨⟨executes, isLocal⟩, -⟩ := enabled
  obtain ⟨value, there, rfl⟩ := Option.map_eq_some_iff.mp stepped
  have own := inv.locks.own tid
  refine inv.edit tid _ rfl executes executes rfl (fun _ => rfl) (fun _ => rfl)
    (fun _ stays => stays) rfl rfl rfl ?_ own.outside own.remote_fetched ?_ ?_
  · intro item member
    rcases Txn.mem_rwset_add.mp member with member | rfl
    · exact own.inside item member
    · exact isLocal
  · intro access member
    rcases Txn.mem_reads_add.mp member with member | rfl
    · exact (inv.sound tid).seen access member
    · exact ⟨le_rfl, by simp [State.record, State.setTxn, there]⟩
  · refine inv.logged_read rfl rfl rfl rfl visible ?_ ?_ ?_
    · exact fun access member => Txn.mem_reads_add.mpr (.inl member)
    · exact fun access member => Txn.mem_written_add member
    · exact Txn.mem_reads_add.mpr (.inr rfl)

/-- A remote record is fetched. -/
theorem remoteAdd_inv (inv : Inv config state) {key : Key}
    (visible : state.fresh key = none ∨ state.fresh key = some tid)
    (stepped : remoteAdd config state tid key = some after) : Inv config after := by
  unfold remoteAdd at stepped
  dsimp only at stepped
  split_ifs at stepped with enabled
  obtain ⟨executes, isRemote⟩ := enabled
  obtain ⟨value, there, rfl⟩ := Option.map_eq_some_iff.mp stepped
  have own := inv.locks.own tid
  refine inv.edit tid _ rfl executes executes rfl (fun _ => rfl) (fun _ => rfl)
    (fun _ stays => stays) rfl rfl rfl own.inside ?_ ?_ ?_ ?_
  · intro access member
    rcases Txn.mem_fetched_addRemote.mp member with member | rfl
    · exact own.outside access member
    · exact isRemote
  · intro access member
    exact Txn.mem_fetched_addRemote.mpr (.inl (own.remote_fetched access member))
  · intro access member
    rcases Txn.mem_reads_addRemote.mp member with member | rfl
    · exact (inv.sound tid).seen access member
    · exact ⟨le_rfl, by simp [State.record, State.setTxn, there]⟩
  · refine inv.logged_read rfl rfl rfl rfl visible ?_ (fun _ member => member) ?_
    · exact fun access member => Txn.mem_reads_addRemote.mpr (.inl member)
    · exact Txn.mem_reads_addRemote.mpr (.inr rfl)

/-- A local record is added to the write set and, when it is not there, appears. -/
theorem insert_inv (inv : Inv config state) {key : Key} {value : Value}
    (stepped : insert config state tid key value = some after) : Inv config after := by
  unfold insert at stepped
  dsimp only at stepped
  split_ifs at stepped with enabled
  obtain ⟨executes, isLocal⟩ := enabled
  have own := inv.locks.own tid
  have inside : ∀ item ∈ ((state.txns tid).add
      { access := { key, seq := 0 }, value := none, addr := some value, ro := false }).rwset,
      config.IsLocal tid item.access.key := by
    intro item member
    rcases Txn.mem_rwset_add.mp member with member | rfl
    · exact own.inside item member
    · exact isLocal
  split at stepped
  · rename_i old there
    cases stepped
    refine inv.edit tid _ rfl executes executes rfl (fun _ => rfl) (fun _ => rfl)
      (fun _ stays => stays) rfl rfl rfl inside own.outside own.remote_fetched ?_ ?_
    · intro access member
      rcases Txn.mem_reads_add.mp member with member | rfl
      · exact (inv.sound tid).seen access member
      · exact ⟨Nat.zero_le _, by simp [State.setTxn, there]⟩
    · refine inv.logged.frame rfl rfl (fun _ => rfl) (mono_of_changed rfl ?_)
        (mono_of_changed rfl ?_)
      · exact fun access member => Txn.mem_reads_add.mpr (.inl member)
      · exact fun access member => Txn.mem_written_add member
  · rename_i missing
    cases stepped
    have sameLock : ∀ other, (Function.update state.nodes key
        { state.nodes key with value := some value } other).lock = (state.nodes other).lock := by
      intro other
      rcases eq_or_ne other key with rfl | different <;> simp [*]
    have sameSeq : ∀ other, (Function.update state.nodes key
        { state.nodes key with value := some value } other).seq = (state.nodes other).seq := by
      intro other
      rcases eq_or_ne other key with rfl | different <;> simp [*]
    have stays : ∀ other, (state.nodes other).value.isSome → (Function.update state.nodes key
        { state.nodes key with value := some value } other).value.isSome := by
      intro other there
      rcases eq_or_ne other key with rfl | different <;> simp [*]
    -- Nothing has happened to a record that is not there.
    have untouched : ∀ event ∈ state.history, event.key ≠ key := by
      intro event member sameKey
      have read : event.access ∈ (state.txns event.tid).reads := by
        cases isWrite : event.write with
        | false => exact inv.logged.read event member isWrite
        | true =>
            exact (inv.locks.own event.tid).reads_of_written
              (inv.logged.wrote event member isWrite)
      have there := ((inv.sound event.tid).seen event.access read).2
      rw [Event.access, sameKey, missing] at there
      cases there
    refine inv.edit tid _ rfl executes executes rfl sameLock sameSeq stays rfl rfl rfl inside
      own.outside own.remote_fetched ?_ ?_
    · intro access member
      rcases Txn.mem_reads_add.mp member with member | rfl
      · obtain ⟨old, there⟩ := (inv.sound tid).seen access member
        exact ⟨(sameSeq access.key).symm ▸ old, stays access.key there⟩
      · exact ⟨Nat.zero_le _, by simp [State.record, State.setNode, State.setTxn]⟩
    · refine inv.logged.append rfl (mono_of_changed rfl ?_) (mono_of_changed rfl ?_)
        (fun other => (sameSeq other).ge) ?_ ?_ ?_ (Nat.zero_le _) ?_ ?_
      · exact fun access member => Txn.mem_reads_add.mpr (.inl member)
      · exact fun access member => Txn.mem_written_add member
      · intro old member isWrite
        have different := untouched old member
        simp only [State.record, State.setNode, State.setTxn]
        rw [Function.update_of_ne different, Function.update_of_ne different]
        exact inv.logged.passed old member isWrite
      · intro isRead
        cases isRead
      · intro _
        simp [State.record, State.setNode, State.setTxn, Event.wrote, Event.access, Txn.written,
          Txn.localWrites, Txn.add]
      · intro _
        left
        simp [State.record, State.setNode, State.setTxn, Event.wrote]
      · exact fun old member sameKey => absurd sameKey (untouched old member)

/-! ### Items marked as written -/

/-- Marking an item keeps the records of all items. -/
theorem map_access_modify (items : List (RWSetItem Key Value)) (index : Nat)
    (addr : Option Value) :
    (items.modify index fun item => { item with addr, ro := false }).map (·.access) =
      items.map (·.access) := by
  induction items generalizing index with
  | nil => simp
  | cons head tail ih => cases index <;> simp [ih]

/-- Marking an item keeps the written items. -/
theorem mem_filter_modify {items : List (RWSetItem Key Value)} {index : Nat}
    {addr : Option Value} {access : Access Key}
    (member : access ∈ (items.filter fun item => !item.ro).map (·.access)) :
    access ∈ ((items.modify index fun item => { item with addr, ro := false }).filter
      fun item => !item.ro).map (·.access) := by
  induction items generalizing index with
  | nil => simp at member
  | cons head tail ih =>
      cases index with
      | zero =>
          cases ro : head.ro <;> simp_all
      | succ index =>
          cases ro : head.ro with
          | true =>
              simp only [List.modify_succ_cons, List.filter_cons, ro] at member ⊢
              exact ih member
          | false =>
              simp only [List.modify_succ_cons, List.filter_cons, ro] at member ⊢
              rcases List.mem_cons.mp member with rfl | member
              · exact List.mem_cons_self
              · exact List.mem_cons_of_mem _ (ih member)

/-- An item of an executing transaction is marked as written. -/
theorem Inv.writeAt (inv : Inv config state) (executes : (state.txns tid).stage = .execute)
    (index : Nat) (addr : Option Value) :
    Inv config (state.setTxn tid ((state.txns tid).writeAt index addr)) := by
  have own := inv.locks.own tid
  have sameReads : ((state.txns tid).writeAt index addr).reads = (state.txns tid).reads := by
    rw [Txn.reads, Txn.writeAt, map_access_modify]
    rfl
  refine inv.edit tid _ rfl executes executes rfl (fun _ => rfl) (fun _ => rfl)
    (fun _ stays => stays) rfl rfl rfl ?_ own.outside own.remote_fetched ?_ ?_
  · intro item member
    have listed : item.access ∈ ((state.txns tid).writeAt index addr).rwset.map (·.access) :=
      List.mem_map_of_mem member
    rw [Txn.writeAt, map_access_modify] at listed
    obtain ⟨before, member, sameAccess⟩ := List.mem_map.mp listed
    rw [← sameAccess]
    exact own.inside before member
  · intro access member
    rw [sameReads] at member
    exact (inv.sound tid).seen access member
  · refine inv.logged.frame rfl rfl (fun _ => rfl) (mono_of_changed rfl ?_)
      (mono_of_changed rfl ?_)
    · intro access member
      rwa [sameReads]
    · intro access member
      rcases List.mem_append.mp member with member | member
      · exact List.mem_append_left _ member
      · exact List.mem_append_right _ (mem_filter_modify member)

theorem write_inv (inv : Inv config state) {key : Key} {value : Value}
    (stepped : write config state tid key value = some after) : Inv config after := by
  unfold write at stepped
  dsimp only at stepped
  split_ifs at stepped with enabled
  cases stepped
  exact inv.writeAt enabled.1 _ _

theorem writeLast_inv (inv : Inv config state) {value : Value}
    (stepped : writeLast state tid value = some after) : Inv config after := by
  unfold writeLast at stepped
  dsimp only at stepped
  split_ifs at stepped with enabled
  cases stepped
  exact inv.writeAt enabled _ _

theorem delete_inv (inv : Inv config state) {key : Key}
    (stepped : delete config state tid key = some after) : Inv config after := by
  unfold delete at stepped
  dsimp only at stepped
  split_ifs at stepped with enabled
  cases stepped
  exact inv.writeAt enabled.1 _ _

/-- A fetched record is marked as written. -/
theorem remoteWrite_inv (inv : Inv config state) {index : Nat} {val : Value}
    (stepped : remoteWrite state tid index val = some after) : Inv config after := by
  unfold remoteWrite at stepped
  dsimp only at stepped
  split at stepped
  · rename_i item executes found
    cases stepped
    have own := inv.locks.own tid
    have fetched : item.access ∈ (state.txns tid).fetched :=
      List.mem_map_of_mem (List.mem_of_getElem? found)
    have sameFetched : ((state.txns tid).rrwset.set index { item with ro := false }).map
        (·.access) = (state.txns tid).fetched := by
      rw [List.map_set, Txn.fetched]
      apply List.ext_getElem?
      intro other
      rw [List.getElem?_set]
      split_ifs with same inside <;> simp_all
    have added : ∀ access ∈ ((state.txns tid).remoteWrites ++
        [{ access := item.access, val : RemoteWrite Key Value }]).map (·.access),
        access ∈ (state.txns tid).fetched := by
      intro access member
      rw [List.map_append, List.mem_append] at member
      rcases member with member | member
      · exact own.remote_fetched access member
      · rwa [List.mem_singleton.mp member]
    refine inv.edit tid _ rfl executes executes rfl (fun _ => rfl) (fun _ => rfl)
      (fun _ stays => stays) rfl rfl rfl own.inside ?_ ?_ ?_ ?_
    · rw [Txn.fetched, sameFetched]
      exact own.outside
    · rw [Txn.fetched, sameFetched]
      exact added
    · rw [Txn.reads, Txn.fetched, sameFetched]
      exact (inv.sound tid).seen
    · refine inv.logged.frame rfl rfl (fun _ => rfl) (mono_of_changed rfl ?_)
        (mono_of_changed rfl ?_)
      · intro access member
        rw [Txn.reads, Txn.fetched, sameFetched]
        exact member
      · intro access member
        rcases List.mem_append.mp member with member | member
        · refine List.mem_append_left _ ?_
          rw [Txn.remote, List.map_append]
          exact List.mem_append_left _ member
        · exact List.mem_append_right _ member
  · cases stepped

end Rocc.Db.Farm
