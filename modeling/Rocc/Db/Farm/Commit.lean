import Rocc.Db.Farm.End

/-!
# DBFarm: locking, committing and releasing keep the invariant
-/

set_option linter.unusedSectionVars false

namespace Rocc.Db.Farm

open Rtx Schedule

universe u v w x

variable {Key : Type u} {Value : Type v} {Tid : Type w} {Owner : Type x}
variable [DecidableEq Key] [DecidableEq Value] [DecidableEq Tid] [DecidableEq Owner]
variable {config : Config Key Value Tid Owner} {state after : State Key Value Tid Owner}
variable {tid : Tid}

/-! ## Locking -/

/-- `lock_rpc_handler` stops at an item. -/
theorem Inv.refused (inv : Inv config state) {pending left : List (RemoteWrite Key Value)}
    {failed : Bool} (locking : (state.txns tid).stage = .lockRemote pending failed)
    (subset : ∀ item ∈ left, item ∈ pending) :
    Inv config (state.setTxn tid ((state.txns tid).setStage (.lockRemote left true))) := by
  have shape := (inv.locks.own tid).shape
  simp only [Txn.Shape, locking] at shape
  refine inv.advance_early tid ?_ ?_ ?_ ⟨?_, ?_⟩ ?_
  · simp [locking, Stage.Active]
  · simp [locking, Stage.Ranked]
  · simp [Stage.Ranked]
  · intro succeeded
    cases succeeded
  · intro access member
    refine shape.2 access ?_
    rcases List.mem_append.mp member with member | member
    · exact List.mem_append_left _ member
    · obtain ⟨item, listed, rfl⟩ := List.mem_map.mp member
      exact List.mem_append_right _ (List.mem_map_of_mem (subset item listed))
  · intro access _ checked
    simp [Txn.checked] at checked

theorem lockRpc_inv (inv : Inv config state) {partition : Nat}
    (stepped : lockRpc config state tid partition = some after) : Inv config after := by
  unfold lockRpc at stepped
  dsimp only at stepped
  split at stepped
  · rename_i pending failed locking
    split_ifs at stepped with clear
    obtain ⟨⟨item, rest⟩, found, rfl⟩ := Option.map_eq_some_iff.mp stepped
    have here : config.pid item.access.key = partition := by
      simpa [Config.at] using of_nextFor found
    have shape := (inv.locks.own tid).shape
    simp only [Txn.Shape, locking] at shape
    have perm := (nextFor_perm found).map (·.access)
    have left : ∀ other ∈ dropFor (config.at partition) rest, other ∈ pending :=
      fun other member => (mem_of_nextFor found).mpr (.inr (mem_of_mem_dropFor member))
    have active : (state.txns tid).stage.Active := by simp [locking, Stage.Active]
    have early : ¬ (state.txns tid).stage.Ranked := by simp [locking, Stage.Ranked]
    have remote : ∀ access ∈ ((state.txns tid).taken ++ [item.access]) ++ rest.map (·.access),
        access ∈ (state.txns tid).remote := by
      intro access member
      refine shape.2 access ?_
      rw [List.append_assoc, List.mem_append] at member
      rcases member with member | member
      · exact List.mem_append_left _ member
      · exact List.mem_append_right _ (perm.mem_iff.mpr member)
    dsimp only
    split_ifs with locked current
    · exact inv.refused locking left
    · have free : (state.nodes item.access.key).lock = 0 := not_not.mp locked
      refine inv.take active early (by simp [Stage.Ranked]) free (fun _ => here ▸ clear)
        ⟨fun sure => ?_, remote⟩ ?_
      · rw [Txn.setStage_taken, Txn.take_taken, List.append_assoc]
        exact ((perm.symm.append_left _).trans (shape.1 sure))
      · intro access member checked
        rcases List.mem_append.mp member with member | member
        · refine (inv.sound tid).secured access member ?_
          cases failed with
          | true => simp [Txn.checked] at checked
          | false =>
              rw [Txn.checked, locking]
              exact checked
        · rw [List.mem_singleton.mp member]
          exact current
    · have free : (state.nodes item.access.key).lock = 0 := not_not.mp locked
      refine inv.take active early (by simp [Stage.Ranked]) free (fun _ => here ▸ clear)
        ⟨?_, ?_⟩ ?_
      · intro failed
        cases failed
      · intro access member
        refine remote access ?_
        rcases List.mem_append.mp member with member | member
        · exact List.mem_append_left _ member
        · obtain ⟨other, listed, rfl⟩ := List.mem_map.mp member
          exact List.mem_append_right _ (List.mem_map_of_mem (mem_of_mem_dropFor listed))
      · intro access _ checked
        simp [Txn.checked] at checked
  · cases stepped

theorem validateReads_inv (inv : Inv config state)
    (stepped : validateReads config state tid = some after) : Inv config after := by
  unfold validateReads at stepped
  dsimp only at stepped
  split at stepped
  · rename_i item rest validating
    have shape := (inv.locks.own tid).shape
    simp only [Txn.Shape, validating] at shape
    split_ifs at stepped with current
    · cases stepped
      exact inv.validated validating
    · cases stepped
      refine inv.abort ?_ ?_ ?_ (List.nil_sublist _)
      · simp [validating, Stage.Active]
      · simp [validating, Stage.Sent]
      · exact fun access member => .inl (shape.mem_iff.mp member)
  · cases stepped

theorem lockLocal_inv (inv : Inv config state)
    (stepped : lockLocal config state tid = some after) : Inv config after := by
  unfold lockLocal at stepped
  dsimp only at stepped
  split at stepped
  · rename_i walked item rest locking
    have own := inv.locks.own tid
    have shape := own.shape
    simp only [Txn.Shape, locking] at shape
    have active : (state.txns tid).stage.Active := by simp [locking, Stage.Active]
    split_ifs at stepped with ro locked
    · cases stepped
      exact inv.skipped ro locking
    · cases stepped
      refine inv.abort active (by simp [locking, Stage.Sent]) ?_ ?_
      · exact fun access member => List.mem_append.mp (shape.1.mem_iff.mp member)
      · rw [← shape.2]
        exact List.sublist_append_left _ _
    · cases stepped
      have written := shape.2
      rw [List.filter_cons_of_pos (by simp [ro])] at written
      have isLocal : config.IsLocal tid item.access.key := by
        refine own.inside item (Txn.mem_localWrites ?_)
        rw [← written]
        simp
      refine inv.take active (by simp [locking, Stage.Ranked]) (by simp [Stage.Ranked])
        (not_not.mp locked) (fun remote => absurd isLocal remote) ⟨?_, ?_⟩ ?_
      · rw [Txn.setStage_taken, Txn.take_taken, List.map_append, ← List.append_assoc]
        exact shape.1.append_right _
      · rw [List.append_assoc]
        exact written
      · intro access member checked
        have remote : access ∈ (state.txns tid).remote := checked
        rcases List.mem_append.mp member with member | member
        · refine (inv.sound tid).secured access member ?_
          rw [Txn.checked, locking]
          exact remote
        · rw [List.mem_singleton.mp member] at remote
          exact absurd isLocal (own.remote_outside remote)
  · cases stepped

theorem checkLocal_inv (inv : Inv config state)
    (unlocked : Unlocked config state tid (state.txns tid).stage)
    (stepped : checkLocal config state tid = some after) : Inv config after := by
  unfold checkLocal at stepped
  dsimp only at stepped
  split at stepped
  · rename_i passed item rest checking
    have shape := (inv.locks.own tid).shape
    simp only [Txn.Shape, checking] at shape
    have active : (state.txns tid).stage.Active := by simp [checking, Stage.Active]
    have unsent : ¬ (state.txns tid).stage.Sent := by simp [checking, Stage.Sent]
    split_ifs at stepped with current
    · cases stepped
      refine inv.advance tid rfl rfl rfl rfl rfl rfl active unsent (by simp [Stage.Sent])
        ⟨shape.1, (List.append_assoc _ _ _).trans shape.2⟩ ?_ ?_
        (inv.confirm checking current unlocked rfl rfl)
      · intro access taken checked
        rcases mem_checked_confirm checking checked with checked | rfl
        · exact (inv.sound tid).secured access taken checked
        · exact current
      · intro _
        exact (inv.sound tid).settled (by simp [checking, Stage.Alive])
    · cases stepped
      refine inv.abort active unsent ?_ (List.Sublist.refl _)
      exact fun access member => List.mem_append.mp (shape.1.mem_iff.mp member)
  · cases stepped

/-! ## Committing -/

/-- The record after a commit. -/
theorem Node.commit_seq {node : Node Value} {value : Option Value}
    (fits : node.seq + 2 < wordBound) : (node.commit value).seq = node.seq + 2 :=
  Nat.mod_eq_of_lt fits

/-- A transaction writes a record whose lock it has: sequence numbers and history. -/
theorem Inv.written_back (inv : Inv config state) {lock : Access Key} {value : Option Value}
    {txn : Txn Key Value} (taken : lock ∈ (state.txns tid).taken)
    (checked : lock ∈ (state.txns tid).checked) (written : lock ∈ (state.txns tid).written)
    (fits : (state.nodes lock.key).seq + 2 < wordBound)
    (there : value.isSome)
    (nodes : after.nodes = Function.update state.nodes lock.key
      ((state.nodes lock.key).commit value))
    (fresh : after.fresh = Function.update state.fresh lock.key none)
    (history : after.history = state.history ++
      [.wrote tid { key := lock.key, seq := (state.nodes lock.key).seq }])
    (changed : after.txns = Function.update state.txns tid txn)
    (sound : Sound after.nodes ((state.txns tid).drop lock.key) → Sound after.nodes txn)
    (sameReads : txn.reads = (state.txns tid).reads)
    (sameWritten : txn.written = (state.txns tid).written) :
    (∀ other, Sound after.nodes (after.txns other)) ∧ Logged after := by
  have others := others_of_changed changed
  have self := self_of_changed changed
  have grown : (after.nodes lock.key).seq = (state.nodes lock.key).seq + 2 := by
    rw [nodes, Function.update_self, Node.commit_seq fits]
  have same : ∀ key, key ≠ lock.key → after.nodes key = state.nodes key := by
    intro key different
    rw [nodes, Function.update_of_ne different]
  have present : (after.nodes lock.key).value.isSome := by
    rw [nodes, Function.update_self]
    exact there
  have current := (inv.sound tid).secured lock taken checked
  constructor
  · intro other
    rcases eq_or_ne other tid with rfl | different
    · rw [self]
      refine sound ((inv.sound other).commit taken ?_ checked grown present same)
      exact fun access held sameKey => (inv.locks.taken_unique held taken sameKey).2
    · rw [others other different]
      refine (inv.sound other).overwritten grown present same fun member => ?_
      obtain ⟨access, held, sameKey⟩ := List.mem_map.mp member
      exact different (inv.locks.taken_unique held taken sameKey).1
  · refine inv.logged.append history (mono_of_changed changed fun _ => by rw [sameReads]; exact id)
      (mono_of_changed changed fun _ => by rw [sameWritten]; exact id) ?_ ?_ nofun ?_ ?_ ?_ ?_
    · intro key
      rcases eq_or_ne key lock.key with rfl | different
      · omega
      · rw [same key different]
    · intro old member isWrite
      rw [fresh]
      rcases eq_or_ne old.key lock.key with sameKey | different
      · right
        have bound := inv.logged.bound old member
        rw [sameKey] at bound ⊢
        omega
      · rw [Function.update_of_ne different, same old.key different]
        exact inv.logged.passed old member isWrite
    · intro _
      rw [Event.access, Event.wrote, self, sameWritten, current]
      exact written
    · exact (Nat.le_add_right _ 2).trans grown.ge
    · exact fun _ => .inr grown.ge
    · intro old member sameKey
      have sameKey : old.key = lock.key := sameKey
      have bound := inv.logged.bound old member
      rw [sameKey] at bound
      exact ⟨bound, fun _ isRead => by cases isRead⟩

theorem commitLocal_inv (inv : Inv config state)
    (fits : CommitFits state (state.txns tid).stage)
    (stepped : commitLocal state tid = some after) : Inv config after := by
  unfold commitLocal at stepped
  dsimp only at stepped
  split at stepped
  · rename_i item rest committing
    rw [committing, CommitFits] at fits
    have own := inv.locks.own tid
    have shape := own.shape
    simp only [Txn.Shape, committing] at shape
    have listed : item ∈ (state.txns tid).localWrites := shape.2.subset (by simp)
    have inRwset := Txn.mem_localWrites listed
    have taken : item.access ∈ (state.txns tid).taken := by
      rw [shape.1.mem_iff]
      simp
    have checked : item.access ∈ (state.txns tid).checked := by
      rw [Txn.checked, committing]
      exact List.mem_append_right _ (List.mem_map_of_mem inRwset)
    have written : item.access ∈ (state.txns tid).written :=
      List.mem_append_right _ (List.mem_map_of_mem listed)
    have there := ((inv.sound tid).seen item.access
      (List.mem_append_left _ (List.mem_map_of_mem inRwset))).2
    have value : (item.addr <|> (state.nodes item.access.key).value).isSome := by
      cases item.addr <;> simp [there]
    have dropped : ((state.txns tid).taken.filter fun other =>
        other.key ≠ item.access.key).Perm
          ((state.txns tid).remote ++ rest.map (·.access)) := by
      refine filter_key_perm (inv.locks.holding.nodup tid) (shape.1.trans ?_)
      rw [List.map_cons]
      exact List.perm_middle
    have active : (state.txns tid).stage.Active := by simp [committing, Stage.Active]
    rw [Option.some.injEq] at stepped
    have changed : after.txns = Function.update state.txns tid
        (((state.txns tid).drop item.access.key).setStage (.commitLocalWrite rest)) := by
      rw [← stepped]
      rfl
    have nodes : after.nodes = Function.update state.nodes item.access.key
        ((state.nodes item.access.key).commit
          (item.addr <|> (state.nodes item.access.key).value)) := by
      rw [← stepped]
      rfl
    have others := others_of_changed changed
    have self := self_of_changed changed
    have keeps : Sound after.nodes ((state.txns tid).drop item.access.key) →
        Sound after.nodes (((state.txns tid).drop item.access.key).setStage
          (.commitLocalWrite rest)) := by
      rintro ⟨seen, secured, settled⟩
      refine ⟨seen, fun access held sure => ?_, fun _ => settled ?_⟩
      · refine secured access held ?_
        rw [Txn.drop_checked, Txn.checked, committing]
        exact sure
      · simp [committing, Stage.Alive]
    obtain ⟨sound, logged⟩ := inv.written_back taken checked written fits value nodes
      (by rw [← stepped]; rfl) (by rw [← stepped]; rfl) changed keeps rfl rfl
    refine ⟨?_, sound, ?_, logged⟩
    · refine inv.locks.unlockLocal tid taken ?_ ?_ others (by rw [self]; rfl) ?_ ?_ ?_ ?_
        (inv.locks.running_same others (by rw [← stepped]; rfl) active) (by rw [← stepped]; rfl)
      · rw [nodes, Function.update_self]
        rfl
      · intro key different
        rw [nodes, Function.update_of_ne different]
      · rw [self]
        exact ⟨own.inside, own.outside, own.remote_fetched, dropped,
          (List.sublist_cons_self _ _).trans shape.2⟩
      · simp [committing, Stage.Done]
      · rw [self]
        exact fun sent => sent.elim
      · simp [committing, Stage.Sent]
    · refine inv.ranking.frame_of_same tid (by rw [← stepped]; rfl) others
        (by simp [committing, Stage.Alive]) (by rw [self]; rfl) (by rw [self]; rfl)
        (by rw [self]; rfl) ?_ (by rw [self]; trivial)
      rw [self, Txn.checked, Txn.checked, committing]
      rfl
  · cases stepped

/-! ## Releasing -/

/-- A lock word with the content of a coroutine is cleared. -/
theorem Node.release_lock {node : Node Value} {content : Nat} (mine : node.lock = content) :
    (node.release content).lock = 0 := by
  rw [Node.release, if_pos mine]

theorem Node.release_of_ne {node : Node Value} {content : Nat} (other : node.lock ≠ content) :
    node.release content = node := by
  rw [Node.release, if_neg other]

@[simp] theorem Node.release_seq (node : Node Value) (content : Nat) :
    (node.release content).seq = node.seq := by
  rw [Node.release]
  split_ifs <;> rfl

@[simp] theorem Node.release_value (node : Node Value) (content : Nat) :
    (node.release content).value = node.value := by
  rw [Node.release]
  split_ifs <;> rfl

/-- A lock that does not have the content of a transaction is not on its list. -/
theorem Locks.filter_of_not_mine (locks : Locks config state) {key : Key}
    (other : (state.nodes key).lock ≠ config.content tid) :
    (state.txns tid).taken.filter (fun access => access.key ≠ key) = (state.txns tid).taken := by
  refine List.filter_eq_self.mpr fun access held => ?_
  simp only [decide_eq_true_eq]
  rintro rfl
  exact other (locks.holding.locked tid access.key (List.mem_map_of_mem held))

/-- Only locks change: sequence numbers and history. -/
theorem Inv.released (inv : Inv config state) {key : Key} {txn : Txn Key Value}
    (changed : after.txns = Function.update state.txns tid txn) (dead : ¬ txn.stage.Alive)
    (nodes : after.nodes = Function.update state.nodes key
      ((state.nodes key).release (config.content tid)))
    (fresh : after.fresh = state.fresh) (history : after.history = state.history)
    (taken : ∀ access ∈ txn.taken, access ∈ (state.txns tid).taken)
    (checked : ∀ access ∈ txn.checked, access ∈ (state.txns tid).checked)
    (sameReads : txn.reads = (state.txns tid).reads)
    (sameWritten : txn.written = (state.txns tid).written) :
    (∀ other, Sound after.nodes (after.txns other)) ∧ Logged after := by
  have same : ∀ other, (after.nodes other).seq = (state.nodes other).seq ∧
      (after.nodes other).value = (state.nodes other).value := by
    intro other
    rw [nodes]
    rcases eq_or_ne other key with rfl | different <;> simp [*]
  constructor
  · refine inv.sound_of_changed changed (fun other => (same other).1)
      (fun other there => (same other).2 ▸ there) ⟨?_, ?_, fun alive => absurd alive dead⟩
    · intro access member
      rw [sameReads] at member
      obtain ⟨old, there⟩ := (inv.sound tid).seen access member
      exact ⟨(same access.key).1.symm ▸ old, (same access.key).2.symm ▸ there⟩
    · intro access held sure
      rw [(same access.key).1]
      exact (inv.sound tid).secured access (taken access held) (checked access sure)
  · exact inv.logged.frame history fresh (fun other => (same other).1)
      (mono_of_changed changed fun _ => by rw [sameReads]; exact id)
      (mono_of_changed changed fun _ => by rw [sameWritten]; exact id)

theorem releaseLocal_inv (inv : Inv config state)
    (stepped : releaseLocal config state tid = some after) : Inv config after := by
  unfold releaseLocal at stepped
  dsimp only at stepped
  split at stepped
  · rename_i item rest releasing
    rw [Option.some.injEq] at stepped
    have own := inv.locks.own tid
    have shape := own.shape
    simp only [Txn.Shape, releasing] at shape
    have active : (state.txns tid).stage.Active := by simp [releasing, Stage.Active]
    have isLocal : config.IsLocal tid item.access.key :=
      own.inside item (Txn.mem_localWrites (shape.2.subset (by simp)))
    have changed : after.txns = Function.update state.txns tid
        (((state.txns tid).drop item.access.key).setStage (.releaseAllSet rest)) := by
      rw [← stepped]
      rfl
    have nodes : after.nodes = Function.update state.nodes item.access.key
        ((state.nodes item.access.key).release (config.content tid)) := by
      rw [← stepped]
      rfl
    have others := others_of_changed changed
    have self := self_of_changed changed
    have running := inv.locks.running_same others (by rw [← stepped]; rfl) active
    have flight : after.flight = state.flight := by
      rw [← stepped]
      rfl
    have own' : Own config tid (after.txns tid) := by
      rw [self]
      refine ⟨own.inside, own.outside, own.remote_fetched, ?_,
        (List.sublist_cons_self _ _).trans shape.2⟩
      intro access member
      rw [Txn.setStage_taken, Txn.drop_taken, List.mem_filter, decide_eq_true_eq] at member
      refine (shape.1 access member.1).imp_right fun listed => ?_
      rw [List.map_cons, List.mem_cons] at listed
      exact listed.resolve_left fun same => member.2 (by rw [same])
    have working : ¬ (state.txns tid).stage.Done := by simp [releasing, Stage.Done]
    have dead : (state.txns tid).stage.Sent →
        (after.txns tid).stage.Sent ∧ ¬ (after.txns tid).stage.Alive := by
      rw [self]
      exact fun _ => ⟨trivial, fun alive => alive⟩
    have sent : (state.txns tid).stage.Sent := by simp [releasing, Stage.Sent]
    obtain ⟨sound, logged⟩ := inv.released changed (fun alive => alive) nodes
      (by rw [← stepped]; rfl) (by rw [← stepped]; rfl)
      (fun access member => (List.mem_filter.mp member).1)
      (fun access member => by simp [Txn.checked] at member) rfl rfl
    refine ⟨?_, sound, ?_, logged⟩
    · by_cases mine : (state.nodes item.access.key).lock = config.content tid
      · -- A local lock with the word of this coroutine is the running transaction's.
        obtain ⟨holder, sameOwner, lock, held, sameKey⟩ := inv.locks.holder_of_content mine
        have holderLocal : config.IsLocal holder lock.key := by
          rw [Config.IsLocal, sameOwner, sameKey]
          exact isLocal
        have same : holder = tid := inv.locks.active_unique
          (inv.locks.active_of_local held holderLocal) active sameOwner
        rw [same] at held
        refine inv.locks.unlockLocal tid held ?_ ?_ others ?_ own' working (fun _ => sent) dead
          running flight
        · rw [sameKey, nodes, Function.update_self, Node.release_lock mine]
        · intro key different
          rw [sameKey] at different
          rw [nodes, Function.update_of_ne different]
        · rw [self, sameKey]
          rfl
      · refine inv.locks.quiet tid ?_ others ?_ own' working (fun _ => .inl sent) dead running
          flight
        · intro key
          rw [nodes, Node.release_of_ne mine, Function.update_eq_self]
        · rw [self]
          exact inv.locks.filter_of_not_mine mine
    · refine inv.ranking.frame_of_not_alive tid (by rw [← stepped]; rfl) others ?_ ?_
      · rw [self]
        exact fun alive => alive
      · rw [self]
        exact fun _ => trivial
  · cases stepped

/-! ## Handling a message -/

/-- A message is handled by `commit_rpc_handler`. -/
theorem commitRpc_inv (inv : Inv config state) {owner : Owner} {partition : Nat}
    {item : RemoteWrite Key Value} {rest : List (Msg Key Value Tid)}
    (queue : state.flight owner partition = .commit tid item :: rest)
    (fits : (state.nodes item.access.key).seq + 2 < wordBound) :
    Inv config (commitRpc config (state.receive owner partition rest) tid item) := by
  have posted := inv.locks.posted owner partition (.commit tid item) (by simp [queue])
  obtain ⟨finished, taken⟩ := posted.commits tid item rfl
  have own := inv.locks.own tid
  have shape := own.shape
  simp only [Txn.Shape, finished] at shape
  have remote := shape item.access taken
  generalize stepped : commitRpc config (state.receive owner partition rest) tid item = after
  have changed : after.txns = Function.update state.txns tid
      ((state.txns tid).drop item.access.key) := by
    rw [← stepped]
    rfl
  have nodes : ∃ value : Value, after.nodes = Function.update state.nodes item.access.key
      ((state.nodes item.access.key).commit (some value)) := by
    rw [← stepped]
    exact ⟨_, rfl⟩
  obtain ⟨value, nodes⟩ := nodes
  have others := others_of_changed changed
  have self := self_of_changed changed
  obtain ⟨sound, logged⟩ := inv.written_back taken
    (by rw [Txn.checked, finished]; exact List.mem_append_left _ remote)
    (List.mem_append_left _ remote) fits rfl nodes (by rw [← stepped]; rfl)
    (by rw [← stepped]; rfl) changed id rfl rfl
  refine ⟨?_, sound, ?_, logged⟩
  · refine inv.locks.deliver queue ?_ others self ?_ (by rw [← stepped]; rfl)
      (by rw [← stepped]; rfl)
    · refine inv.locks.unlock_holding taken ?_ ?_
        (fun other different => by rw [others other different]) (by rw [self]; rfl)
      · rw [nodes, Function.update_self]
        rfl
      · intro key different
        rw [nodes, Function.update_of_ne different]
    · change Own config tid (after.txns tid)
      rw [self]
      refine ⟨own.inside, own.outside, own.remote_fetched, ?_⟩
      simp only [Txn.Shape, Txn.drop_stage, finished]
      exact fun access member => shape access (List.mem_filter.mp member).1
  · refine inv.ranking.frame_of_same tid (by rw [← stepped]; rfl) others
      (by simp [finished, Stage.Alive]) (by rw [self]; rfl) (by rw [self]; rfl)
      (by rw [self]; rfl) (by rw [self]; rfl) ?_
    rw [self, Txn.drop_stage, finished]
    trivial

/-- A message is handled by `release_rpc_handler`. -/
theorem releaseRpc_inv (inv : Inv config state) {owner : Owner} {partition : Nat}
    {access : Access Key} {rest : List (Msg Key Value Tid)}
    (queue : state.flight owner partition = .release tid access :: rest) :
    Inv config (releaseRpc config (state.receive owner partition rest) tid access.key) := by
  have posted := inv.locks.posted owner partition (.release tid access) (by simp [queue])
  obtain ⟨sent, dead⟩ := posted.releases tid access rfl
  have own := inv.locks.own tid
  generalize stepped :
    releaseRpc config (state.receive owner partition rest) tid access.key = after
  have changed : after.txns = Function.update state.txns tid
      ((state.txns tid).drop access.key) := by
    rw [← stepped]
    rfl
  have nodes : after.nodes = Function.update state.nodes access.key
      ((state.nodes access.key).release (config.content tid)) := by
    rw [← stepped]
    rfl
  have others := others_of_changed changed
  have self := self_of_changed changed
  obtain ⟨sound, logged⟩ := inv.released changed dead nodes (by rw [← stepped]; rfl)
    (by rw [← stepped]; rfl) (fun lock member => (List.mem_filter.mp member).1)
    (fun lock member => member) rfl rfl
  refine ⟨?_, sound, ?_, logged⟩
  · refine inv.locks.deliver queue ?_ others self ?_ (by rw [← stepped]; rfl)
      (by rw [← stepped]; rfl)
    · by_cases mine : (state.nodes access.key).lock = config.content tid
      · -- The first message on a way to a lock is its holder's.
        obtain ⟨holder, sameOwner, lock, held, sameKey⟩ := inv.locks.holder_of_content mine
        have holderRemote : ¬ config.IsLocal holder lock.key := by
          rw [Config.IsLocal, sameOwner, sameKey]
          exact posted.outside
        have channel := inv.locks.channel holder lock held holderRemote
        have ownerEq : config.owner tid = owner := posted.owner_eq
        have pidEq : config.pid access.key = partition := posted.pid_eq
        rw [sameKey, sameOwner, ownerEq, pidEq, queue] at channel
        have same : tid = holder := channel.head_tid
        rw [← same] at held
        refine inv.locks.unlock_holding held ?_ ?_
          (fun other different => by rw [others other different]) (by rw [self, sameKey]; rfl)
        · rw [sameKey, nodes, Function.update_self, Node.release_lock mine]
        · intro key different
          rw [sameKey] at different
          rw [nodes, Function.update_of_ne different]
      · refine inv.locks.holding.frame ?_ fun other => ?_
        · intro key
          rw [nodes, Node.release_of_ne mine, Function.update_eq_self]
        · rcases eq_or_ne other tid with rfl | different
          · rw [self, Txn.drop_taken, inv.locks.filter_of_not_mine mine]
          · rw [others other different]
    · change Own config tid (after.txns tid)
      rw [self]
      refine ⟨own.inside, own.outside, own.remote_fetched, ?_⟩
      have shape := own.shape
      cases stage : (state.txns tid).stage with
      | releaseAllSet pending =>
          simp only [Txn.Shape, stage] at shape
          simp only [Txn.Shape, Txn.drop_stage, stage]
          exact ⟨fun lock member => shape.1 lock (List.mem_filter.mp member).1, shape.2⟩
      | finished committed =>
          simp only [Txn.Shape, stage] at shape
          simp only [Txn.Shape, Txn.drop_stage, stage]
          exact fun lock member => shape lock (List.mem_filter.mp member).1
      | _ => simp [stage, Stage.Sent] at sent
  · refine inv.ranking.frame_of_not_alive tid (by rw [← stepped]; rfl) others ?_ ?_
    · rw [self]
      exact dead
    · rw [self]
      exact id

theorem deliver_inv (inv : Inv config state) {owner : Owner} {partition : Nat}
    (fits : DeliverFits state (state.flight owner partition))
    (stepped : deliver config state owner partition = some after) : Inv config after := by
  unfold deliver at stepped
  split at stepped
  · cases stepped
  · rename_i queue
    cases stepped
    rw [queue, DeliverFits] at fits
    exact commitRpc_inv inv queue fits
  · rename_i queue
    cases stepped
    exact releaseRpc_inv inv queue

/-! ## Beginning and ending -/

theorem begin_inv (inv : Inv config state)
    (stepped : begin config state tid = some after) : Inv config after := by
  unfold begin at stepped
  split at stepped
  · rename_i idle nobody
    rw [Option.some.injEq] at stepped
    have own := inv.locks.own tid
    have nothing : (state.txns tid).taken = [] := by
      have shape := own.shape
      simpa only [Txn.Shape, idle] using shape
    have changed : after.txns = Function.update state.txns tid
        ((state.txns tid).setStage .execute) := by
      rw [← stepped]
      rfl
    have others := others_of_changed changed
    have self := self_of_changed changed
    have nodes : after.nodes = state.nodes := by
      rw [← stepped]
      rfl
    refine ⟨?_, ?_, ?_, ?_⟩
    · refine inv.locks.quiet tid (fun _ => by rw [nodes]) others (by rw [self]; rfl) ?_ ?_ ?_ ?_ ?_
        (by rw [← stepped]; rfl)
      · rw [self]
        exact own.setStage nothing
      · simp [idle, Stage.Done]
      · rw [self]
        exact fun sent => sent.elim
      · simp [idle, Stage.Sent]
      · intro other active
        rcases eq_or_ne other tid with rfl | different
        · rw [← stepped]
          exact Function.update_self ..
        · rw [others other different] at active
          have runs := inv.locks.running other active
          have away : config.owner other ≠ config.owner tid := by
            intro same
            rw [same, nobody] at runs
            cases runs
          rw [← stepped]
          exact (Function.update_of_ne away _ _).trans runs
    · rw [nodes]
      refine fun other => ?_
      rcases eq_or_ne other tid with rfl | different
      · rw [self]
        refine ⟨(inv.sound other).seen, fun access held => ?_, fun alive => alive.elim⟩
        simp [nothing] at held
      · rw [others other different]
        exact inv.sound other
    · refine inv.ranking.frame_of_not_alive tid (by rw [← stepped]; rfl) others ?_ ?_
      · rw [self]
        exact fun alive => alive
      · simp [idle, Stage.Ranked]
    · exact inv.logged.frame (by rw [← stepped]; rfl) (by rw [← stepped]; rfl)
        (fun _ => by rw [nodes]) (mono_of_changed changed fun _ member => member)
        (mono_of_changed changed fun _ member => member)
  · cases stepped

end Rocc.Db.Farm
