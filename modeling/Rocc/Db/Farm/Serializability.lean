import Rocc.Db.Farm.Commit

/-!
# DBFarm: conflict serializability

Nothing validates the remote records that a transaction has only read: `add` leaves the
flag and the counter that `validate_reads` looks at unset.  `check_local_set` compares the
sequence number of a local record and not its lock, `insert` shows a record before its
transaction commits, and the length of a value is cut to 8 bits in a commit message.  In
every run in which none of this matters the transactions for which `end` returns true are
conflict-serializable in the order in which they had all their locks.
-/

set_option linter.unusedSectionVars false

namespace Rocc.Db.Farm

open Rtx Schedule

universe u v w x

variable {Key : Type u} {Value : Type v} {Tid : Type w} {Owner : Type x}
variable [DecidableEq Key] [DecidableEq Value] [DecidableEq Tid] [DecidableEq Owner]
variable {config : Config Key Value Tid Owner} {state after : State Key Value Tid Owner}
variable {tid : Tid}

/-! ## The end of `end` -/

/-- `end` returns false. -/
theorem Inv.finish_false (inv : Inv config state) (active : (state.txns tid).stage.Active)
    (working : ¬ (state.txns tid).stage.Alive)
    (sent : (state.txns tid).stage.Sent ∨ (state.txns tid).taken = [])
    (remote : ∀ access ∈ (state.txns tid).taken, access ∈ (state.txns tid).remote) :
    Inv config (state.finish config tid false) := by
  have own := inv.locks.own tid
  have changed : (state.finish config tid false).txns = Function.update state.txns tid
      ((state.txns tid).setStage (.finished false)) := rfl
  have others := others_of_changed changed
  have self := self_of_changed changed
  have ended : ¬ ((state.finish config tid false).txns tid).stage.Active := by
    rw [self]
    exact fun active => active
  have dead : ¬ ((state.finish config tid false).txns tid).stage.Alive := by
    rw [self]
    intro alive
    cases alive
  refine ⟨?_, ?_, ?_, ?_⟩
  · refine inv.locks.quiet tid (fun _ => rfl) others (by rw [self]; rfl)
      (self ▸ own.setStage remote) ?_ (fun _ => sent) ?_
      (inv.locks.running_finish others ended rfl active) rfl
    · intro done
      cases stage : (state.txns tid).stage <;> simp_all [Stage.Done, Stage.Active]
    · exact fun _ => ⟨by rw [self]; trivial, dead⟩
  · refine inv.sound_of_changed changed (fun _ => rfl) (fun _ stays => stays)
      ⟨(inv.sound tid).seen, fun access _ checked => ?_, fun alive => ?_⟩
    · simp [Txn.checked] at checked
    · cases alive
  · exact inv.ranking.frame_of_not_alive tid rfl others dead fun _ => by rw [self]; trivial
  · exact inv.logged.frame rfl rfl (fun _ => rfl)
      (mono_of_changed changed fun _ member => member)
      (mono_of_changed changed fun _ member => member)

theorem abort_inv (inv : Inv config state)
    (stepped : Farm.abort config state tid = some after) : Inv config after := by
  unfold Farm.abort at stepped
  split at stepped
  · rename_i executes
    cases stepped
    have nothing : (state.txns tid).taken = [] := by
      have shape := (inv.locks.own tid).shape
      simpa only [Txn.Shape, executes] using shape
    refine inv.finish_false ?_ ?_ (.inr nothing) (by simp [nothing])
    · simp [executes, Stage.Active]
    · simp [executes, Stage.Alive]
  · cases stepped

/-- The handlers find every item of a commit message whose values are short. -/
theorem understood_eq_self {items : List (RemoteWrite Key Value)}
    (short : ∀ item ∈ items, config.vlen item.access.key < payloadBound) :
    config.understood items = items := by
  induction items with
  | nil => rfl
  | cons item rest ih =>
      rw [Config.understood, if_pos (short item (by simp)),
        ih fun other member => short other (by simp [member])]

/-- `end` sends the commits and returns true. -/
theorem Inv.finish_true (inv : Inv config state)
    (committing : (state.txns tid).stage = .commitLocalWrite [])
    (short : ∀ item ∈ (state.txns tid).remoteWrites,
      config.vlen item.access.key < payloadBound) :
    Inv config ((state.send config (config.owner tid)
      ((config.understood (state.txns tid).remoteWrites).map fun item => .commit tid item)).finish
        config tid true) := by
  rw [understood_eq_self short]
  have own := inv.locks.own tid
  have shape := own.shape
  simp only [Txn.Shape, committing, List.map_nil, List.append_nil] at shape
  have active : (state.txns tid).stage.Active := by simp [committing, Stage.Active]
  generalize stepped : (state.send config (config.owner tid)
    ((state.txns tid).remoteWrites.map fun item => .commit tid item)).finish
      config tid true = after
  have changed : after.txns = Function.update state.txns tid
      ((state.txns tid).setStage (.finished true)) := by
    rw [← stepped]
    rfl
  have others := others_of_changed changed
  have self := self_of_changed changed
  have nodes : after.nodes = state.nodes := by
    rw [← stepped]
    rfl
  have keys : ((state.txns tid).remote.map (·.key)).Nodup :=
    (shape.1.map (·.key)).nodup_iff.mp (inv.locks.holding.nodup tid)
  refine ⟨?_, ?_, ?_, ?_⟩
  · refine inv.locks.send tid ((state.txns tid).remoteWrites.map fun item => .commit tid item)
      (fun _ => by rw [nodes]) others (by rw [self]; rfl) ?_ active
      (by simp [committing, Stage.Sent]) ?_ (by rw [← stepped]; rfl) ?_ ?_ ?_ ?_
    · rw [self]
      exact own.setStage fun access member => shape.1.mem_iff.mp member
    · refine inv.locks.running_finish others ?_ (by rw [← stepped]; rfl) active
      rw [self]
      exact fun active => active
    · intro message member
      obtain ⟨item, -, rfl⟩ := List.mem_map.mp member
      rfl
    · intro access held _
      obtain ⟨item, listed, rfl⟩ := List.mem_map.mp (shape.1.mem_iff.mp held)
      exact ⟨_, List.mem_map_of_mem listed, rfl⟩
    · intro message member
      obtain ⟨item, listed, rfl⟩ := List.mem_map.mp member
      refine ⟨rfl, rfl, own.remote_outside (List.mem_map_of_mem listed), ?_, ?_⟩
      · intro sender other commit
        cases commit
        rw [self]
        exact ⟨rfl, shape.1.mem_iff.mpr (List.mem_map_of_mem listed)⟩
      · intro sender access release
        cases release
    · rw [List.pairwise_map]
      rw [Txn.remote, List.map_map, List.Nodup, List.pairwise_map] at keys
      refine keys.imp fun different _ _ _ _ left right => ?_
      cases left
      cases right
      exact different
  · refine inv.sound_of_changed changed (fun _ => by rw [nodes]) (fun _ => by rw [nodes]; exact id)
      ?_
    rw [nodes]
    have sound := inv.sound tid
    refine ⟨sound.seen, fun access held checked => sound.secured access held ?_,
      fun _ => sound.settled ?_⟩
    · rw [Txn.checked, committing]
      exact checked
    · simp [committing, Stage.Alive]
  · refine inv.ranking.frame_of_same tid (by rw [← stepped]; rfl) others
      (by simp [committing, Stage.Alive]) (by rw [self]; rfl) (by rw [self]; rfl)
      (by rw [self]; rfl) ?_ (by rw [self]; trivial)
    rw [self, Txn.checked, Txn.checked, committing]
    rfl
  · exact inv.logged.frame (by rw [← stepped]; rfl) (by rw [← stepped]; rfl)
      (fun _ => by rw [nodes]) (mono_of_changed changed fun _ member => member)
      (mono_of_changed changed fun _ member => member)

/-! ## Every step -/

theorem resume_inv (inv : Inv config state)
    (allowed : Resumes config state tid (state.txns tid).stage)
    (stepped : resume config state tid = some after) : Inv config after := by
  have shape := (inv.locks.own tid).shape
  unfold resume at stepped
  dsimp only at stepped
  split at stepped
  · rename_i locking
    cases stepped
    simp only [Txn.Shape, locking, List.map_nil, List.append_nil] at shape
    refine inv.abort ?_ ?_ (fun access held => .inl (shape.2 access held)) (List.nil_sublist _)
    · simp [locking, Stage.Active]
    · simp [locking, Stage.Sent]
  · rename_i locking
    cases stepped
    simp only [Txn.Shape, locking, List.map_nil, List.append_nil] at shape
    refine inv.advance_early tid ?_ ?_ (by simp [Stage.Ranked]) (shape.1 trivial) ?_
    · simp [locking, Stage.Active]
    · simp [locking, Stage.Ranked]
    · intro access _ checked
      rw [Txn.checked, locking]
      exact checked
  · rename_i validating
    cases stepped
    simp only [Txn.Shape, validating] at shape
    refine inv.advance_early tid ?_ ?_ (by simp [Stage.Ranked]) ⟨?_, rfl⟩ ?_
    · simp [validating, Stage.Active]
    · simp [validating, Stage.Ranked]
    · rw [List.map_nil, List.append_nil]
      exact shape
    · intro access _ checked
      rw [Txn.checked, validating]
      exact checked
  · rename_i walked locking
    cases stepped
    have taken := inv.all_taken locking
    refine inv.advance tid rfl rfl rfl rfl rfl rfl ?_ ?_ (by simp [Stage.Sent]) ⟨taken, rfl⟩ ?_ ?_
      (inv.enlist locking allowed rfl rfl)
    · simp [locking, Stage.Active]
    · simp [locking, Stage.Sent]
    · intro access held checked
      refine (inv.sound tid).secured access held ?_
      rw [Txn.checked, locking]
      simpa [Txn.checked] using checked
    · exact fun _ access member => .inl (taken.mem_iff.mpr member)
  · rename_i passed checking
    cases stepped
    simp only [Txn.Shape, checking, List.append_nil] at shape
    have alive : (state.txns tid).stage.Alive := by simp [checking, Stage.Alive]
    have checked : ((state.txns tid).setStage
        (.commitLocalWrite (state.txns tid).localWrites)).checked =
          (state.txns tid).checked := by
      rw [Txn.checked, Txn.checked, checking, shape.2]
      rfl
    refine inv.advance tid rfl rfl rfl rfl rfl rfl ?_ ?_ (by simp [Stage.Sent])
      ⟨shape.1, List.Sublist.refl _⟩ ?_ (fun _ => (inv.sound tid).settled alive) ?_
    · simp [checking, Stage.Active]
    · simp [checking, Stage.Sent]
    · rw [checked]
      exact (inv.sound tid).secured
    · have self : (state.setTxn tid ((state.txns tid).setStage
          (.commitLocalWrite (state.txns tid).localWrites))).txns tid = _ :=
        self_of_changed rfl
      exact inv.ranking.frame_of_same tid rfl (others_of_changed rfl) alive (by rw [self]; rfl)
        (by rw [self]; rfl) (by rw [self]; rfl) (by rw [self, checked]) (by rw [self]; trivial)
  · rename_i committing
    cases stepped
    rw [committing, Resumes] at allowed
    exact inv.finish_true committing allowed
  · rename_i releasing
    cases stepped
    simp only [Txn.Shape, releasing, List.map_nil, List.not_mem_nil, or_false] at shape
    refine inv.finish_false ?_ ?_ (.inl ?_) shape.1
    · simp [releasing, Stage.Active]
    · simp [releasing, Stage.Alive]
    · simp [releasing, Stage.Sent]
  · cases stepped

/-- Every step of a run without unchecked conflicts keeps the invariant. -/
theorem step_inv {action : Action Key Value Tid Owner} (inv : Inv config state)
    (validated : Validated config state action)
    (stepped : step config state action = some after) : Inv config after := by
  cases action with
  | begin tid => exact begin_inv inv stepped
  | get tid key => exact get_inv inv validated stepped
  | write tid key value => exact write_inv inv stepped
  | writeLast tid value => exact writeLast_inv inv stepped
  | delete tid key => exact delete_inv inv stepped
  | insert tid key value => exact insert_inv inv stepped
  | remoteAdd tid key => exact remoteAdd_inv inv validated stepped
  | remoteWrite tid index val => exact remoteWrite_inv inv stepped
  | abort tid => exact abort_inv inv stepped
  | startEnd tid => exact startEnd_inv inv stepped
  | lockRpc tid partition => exact lockRpc_inv inv stepped
  | validateReads tid => exact validateReads_inv inv stepped
  | lockLocal tid => exact lockLocal_inv inv stepped
  | checkLocal tid => exact checkLocal_inv inv validated stepped
  | commitLocal tid => exact commitLocal_inv inv validated stepped
  | releaseLocal tid => exact releaseLocal_inv inv stepped
  | deliver owner partition => exact deliver_inv inv validated stepped
  | resume tid => exact resume_inv inv validated stepped

theorem inv_initial (config : Config Key Value Tid Owner) (seq : Key → Nat)
    (value : Key → Option Value) : Inv config (State.initial seq value) where
  locks :=
    { holding := .initial (fun _ => rfl) fun _ => rfl
      own := fun _ => ⟨nofun, nofun, nofun, rfl⟩
      running := fun _ active => active.elim
      channel := nofun
      posted := nofun
      apart := fun _ _ => .nil }
  sound _ := ⟨nofun, nofun, fun alive => alive.elim⟩
  ranking := ⟨List.nodup_nil, fun _ alive => alive.elim, nofun, .nil⟩
  logged := ⟨nofun, nofun, nofun, nofun, .nil⟩

/-! ## Serializability -/

/-- `end` has returned true. -/
def Committed (state : State Key Value Tid Owner) (tid : Tid) : Prop :=
  (state.txns tid).stage = .finished true

instance (tid : Tid) : Decidable (Committed state tid) :=
  inferInstanceAs (Decidable (_ = _))

theorem Committed.alive (committed : Committed state tid) :
    (state.txns tid).stage.Alive := by
  rw [committed]
  rfl

/-- Everything a committed transaction has read is known to have been right. -/
theorem Committed.confirmed (committed : Committed state tid) {access : Access Key}
    (read : access ∈ (state.txns tid).reads) : access ∈ (state.txns tid).confirmed := by
  rw [Txn.confirmed, Txn.checked, committed]
  rcases List.mem_append.mp read with member | member
  · exact List.mem_append_left _ (List.mem_append_right _ member)
  · exact List.mem_append_right _ member

theorem Committed.checked (committed : Committed state tid) {access : Access Key}
    (written : access ∈ (state.txns tid).written) : access ∈ (state.txns tid).checked := by
  rw [Txn.checked, committed]
  rcases List.mem_append.mp written with member | member
  · exact List.mem_append_left _ member
  · obtain ⟨item, listed, rfl⟩ := List.mem_map.mp member
    exact List.mem_append_right _ (List.mem_map_of_mem (Txn.mem_localWrites listed))

/-- No conflict runs against the order of the locks. -/
theorem Inv.not_conflict (inv : Inv config state) {earlier later : Tid}
    (earlierCommitted : Committed state earlier) (laterCommitted : Committed state later)
    (ordered : Ordered (state.txns earlier) (state.txns later)) :
    ¬ Schedule.Conflict state.schedule later earlier := by
  intro conflict
  have different := conflict.1
  obtain ⟨left, leftMember, right, rightMember, inTurn, rfl, rfl, sameKey, isWrite⟩ :=
    conflict.of_pairwise inv.logged.inTurn
  obtain ⟨notBefore, committedBefore⟩ := inTurn sameKey
  cases rightWrite : right.write with
  | true =>
      have rightWritten := inv.logged.wrote right rightMember rightWrite
      have leftRead : left.access ∈ (state.txns left.tid).reads := by
        cases leftWrite : left.write with
        | true =>
            exact (inv.locks.own left.tid).reads_of_written
              (inv.logged.wrote left leftMember leftWrite)
        | false => exact inv.logged.read left leftMember leftWrite
      -- The later one would have seen the write of the earlier one.
      have seen := ordered.writes_before _ rightWritten _ (laterCommitted.confirmed leftRead)
        sameKey.symm
      simp only [Event.access] at seen
      omega
  | false =>
      have leftWrite : left.write = true := by
        rcases isWrite with isWrite | isWrite
        · exact isWrite
        · rw [rightWrite] at isWrite
          cases isWrite
      have leftWritten := inv.logged.wrote left leftMember leftWrite
      have rightRead := inv.logged.read right rightMember rightWrite
      -- The earlier one cannot have read what the later one has written.
      have unseen := ordered.reads_before _ rightRead _ leftWritten
        (laterCommitted.checked leftWritten) sameKey.symm
      have seen := committedBefore leftWrite rightWrite different
      simp only [Event.access] at unseen
      omega

/-- In every state of every run without unchecked conflicts, the transactions for which
`end` has returned true are conflict-serializable. -/
theorem farm_conflict_serializable (config : Config Key Value Tid Owner) (seq₀ : Key → Nat)
    (value₀ : Key → Option Value) (state : State Key Value Tid Owner)
    (reach : Reach (step config) (Validated config) (State.initial seq₀ value₀) state) :
    ConflictSerializable state.schedule (Committed state) := by
  have inv : Inv config state :=
    reach.invariant (Inv config) (inv_initial config seq₀ value₀)
      fun _ _ _ inv validated stepped => step_inv inv validated stepped
  refine ⟨state.lockOrder.filter fun tid => Committed state tid,
    inv.ranking.nodup.filter _, ?_, ?_⟩
  · intro tid
    rw [List.mem_filter, decide_eq_true_eq]
    exact ⟨fun both => both.2,
      fun committed => ⟨inv.ranking.listed tid committed.alive, committed⟩⟩
  · refine ((inv.ranking.ordered.filter _).imp_of_mem
      fun {earlier later} earlierMember laterMember ordered => ?_)
    rw [List.mem_filter, decide_eq_true_eq] at earlierMember laterMember
    exact inv.not_conflict earlierMember.2 laterMember.2
      (ordered earlierMember.2.alive laterMember.2.alive)

/-- Two coroutines; every record with an even key is in partition 0. -/
def pairConfig (partition : Bool → Nat) : Config Nat Nat Bool Bool where
  pid key := key % 2
  owner tid := tid
  partition
  lockContent owner := if owner then 2 else 1
  words := by
    constructor
    · intro owner
      cases owner <;> decide
    · intro left right
      cases left <;> cases right <;> simp
  vlen _ := 8
  cut new _ := new

/-- The coroutines are on different machines. -/
def apartConfig : Config Nat Nat Bool Bool :=
  pairConfig fun owner => if owner then 1 else 0

/-- The coroutines are on one machine. -/
def nearConfig : Config Nat Nat Bool Bool :=
  pairConfig fun _ => 0

/-- `end` of a transaction that writes local records only, up to its locks. -/
def lockRun (tid : Bool) (items : Nat) : List (Action Nat Nat Bool Bool) :=
  [.startEnd tid, .resume tid, .resume tid] ++ List.replicate items (.lockLocal tid) ++
    [.resume tid]

/-- `check_local_set`. -/
def checkRun (tid : Bool) (items : Nat) : List (Action Nat Nat Bool Bool) :=
  List.replicate items (.checkLocal tid)

/-- The rest of `end` of a transaction that writes one local record. -/
def commitRun (tid : Bool) : List (Action Nat Nat Bool Bool) :=
  [.resume tid, .commitLocal tid, .resume tid]

/-- One transaction writes a local and a remote record; another one reads the first after
it and writes the second. -/
def transferRun : List (Action Nat Nat Bool Bool) :=
  [.begin false, .get false 0, .writeLast false 5, .remoteAdd false 1,
    .remoteWrite false 0 15, .startEnd false, .lockRpc false 1, .resume false, .resume false,
    .lockLocal false, .resume false] ++ checkRun false 1 ++ commitRun false ++
  [.begin true, .remoteAdd true 0, .deliver false 1, .get true 1, .writeLast true 7] ++
    lockRun true 1 ++ checkRun true 1 ++ commitRun true

theorem farm_conflict_serializable_transfer :
    ∃ state : State Nat Nat Bool Bool, (Committed state false ∧ Committed state true) ∧
      ConflictSerializable state.schedule (Committed state) := by
  have run : ∃ state : State Nat Nat Bool Bool,
      Reach (step apartConfig) (Validated apartConfig)
        (State.initial (fun _ => 0) fun _ => some 10) state ∧
      (Committed state false ∧ Committed state true) :=
    Reach.exists_of_exec transferRun (by decide +kernel)
  obtain ⟨state, reach, committed⟩ := run
  exact ⟨state, committed, farm_conflict_serializable apartConfig _ _ state reach⟩

/-- Two transactions read each other's record remotely and write their own. -/
def remoteSkew : List (Action Nat Nat Bool Bool) :=
  [.begin false, .remoteAdd false 1, .get false 0, .writeLast false 1, .begin true,
    .remoteAdd true 0, .get true 1, .writeLast true 1] ++ lockRun false 1 ++
    checkRun false 1 ++ commitRun false ++ lockRun true 1 ++ checkRun true 1 ++ commitRun true

/-- Two transactions read two local records and write one each. -/
def localSkew : List (Action Nat Nat Bool Bool) :=
  [.begin false, .get false 2, .get false 0, .writeLast false 1, .begin true, .get true 0,
    .get true 2, .writeLast true 1] ++ lockRun false 2 ++ lockRun true 2 ++
    checkRun false 2 ++ checkRun true 2 ++ commitRun false ++ commitRun true

/-- A remote record that is only read, and a local one that is locked, are not
validated. -/
theorem not_conflict_serializable :
    (∃ state : State Nat Nat Bool Bool, Reach (step apartConfig) anyAction
        (State.initial (fun _ => 0) fun _ => some 10) state ∧
      ¬ ConflictSerializable state.schedule (Committed state)) ∧
    ∃ state : State Nat Nat Bool Bool, Reach (step nearConfig) anyAction
        (State.initial (fun _ => 0) fun _ => some 10) state ∧
      ¬ ConflictSerializable state.schedule (Committed state) := by
  constructor
  · have run : ∃ state : State Nat Nat Bool Bool, Reach (step apartConfig) anyAction
        (State.initial (fun _ => 0) fun _ => some 10) state ∧
        (Committed state false ∧ Committed state true) ∧
        state.schedule = [⟨false, 1, false⟩, ⟨false, 0, false⟩, ⟨true, 0, false⟩,
          ⟨true, 1, false⟩, ⟨false, 0, true⟩, ⟨true, 1, true⟩] :=
      Reach.exists_of_exec remoteSkew (by decide +kernel)
    obtain ⟨state, reach, ⟨left, right⟩, schedule⟩ := run
    refine ⟨state, reach, not_conflictSerializable_of_cycle left right ?_ ?_⟩
    · rw [schedule]
      exact ⟨by decide, ⟨false, 1, false⟩, ⟨true, 1, true⟩, by decide, rfl, rfl, rfl, .inr rfl⟩
    · rw [schedule]
      exact ⟨by decide, ⟨true, 0, false⟩, ⟨false, 0, true⟩, by decide, rfl, rfl, rfl, .inr rfl⟩
  · have run : ∃ state : State Nat Nat Bool Bool, Reach (step nearConfig) anyAction
        (State.initial (fun _ => 0) fun _ => some 10) state ∧
        (Committed state false ∧ Committed state true) ∧
        state.schedule = [⟨false, 2, false⟩, ⟨false, 0, false⟩, ⟨true, 0, false⟩,
          ⟨true, 2, false⟩, ⟨false, 0, true⟩, ⟨true, 2, true⟩] :=
      Reach.exists_of_exec localSkew (by decide +kernel)
    obtain ⟨state, reach, ⟨left, right⟩, schedule⟩ := run
    refine ⟨state, reach, not_conflictSerializable_of_cycle left right ?_ ?_⟩
    · rw [schedule]
      exact ⟨by decide, ⟨false, 2, false⟩, ⟨true, 2, true⟩, by decide, rfl, rfl, rfl, .inr rfl⟩
    · rw [schedule]
      exact ⟨by decide, ⟨true, 0, false⟩, ⟨false, 0, true⟩, by decide, rfl, rfl, rfl, .inr rfl⟩

end Rocc.Db.Farm
