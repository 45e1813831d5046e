import Rocc.Db.Farm.Invariant

/-!
# DBFarm: locks and messages along a run

A step leaves the locks alone, takes one, gives one back or sends the messages that give
them back.
-/

set_option linter.unusedSectionVars false

namespace Rocc.Db.Farm

open Rtx Schedule

universe u v w x

variable {Key : Type u} {Value : Type v} {Tid : Type w} {Owner : Type x}

/-! ## Channels -/

namespace Channel

variable {tid : Tid} {stage stage' : Stage Key Value} {key : Key}
variable {message : Msg Key Value Tid} {queue rest : List (Msg Key Value Tid)}

/-- Nothing is on its way. -/
theorem nil (unsent : ¬ stage.Sent) :
    Channel tid stage key ([] : List (Msg Key Value Tid)) :=
  ⟨[], [], rfl, by simp, fun _ => rfl, fun sent => absurd sent unsent⟩

/-- The first message is one of the holder of the lock: if it were not, the holder would be
finished without a message to give back the lock. -/
theorem uncons (channel : Channel tid stage key (message :: rest)) :
    ∃ own others, rest = own ++ others ∧ (∀ mine ∈ message :: own, mine.tid = tid) ∧
      (¬ stage.Done → others = []) ∧
      (stage.Sent → ∃ giver ∈ message :: own, giver.key = key) := by
  obtain ⟨own, others, split, mine, alone, gives⟩ := channel
  cases own with
  | nil =>
      have done : stage.Done := by
        by_contra running
        simp [alone running] at split
      obtain ⟨giver, member, -⟩ := gives done.sent
      simp at member
  | cons first own =>
      simp only [List.cons_append, List.cons.injEq] at split
      obtain ⟨rfl, rfl⟩ := split
      exact ⟨own, others, rfl, mine, alone, gives⟩

theorem head_tid (channel : Channel tid stage key (message :: rest)) : message.tid = tid := by
  obtain ⟨own, others, -, mine, -⟩ := channel.uncons
  exact mine message (by simp)

/-- The first message is handled and does not give back this lock. -/
theorem tail (channel : Channel tid stage key (message :: rest))
    (other : message.key ≠ key) : Channel tid stage key rest := by
  obtain ⟨own, others, split, mine, alone, gives⟩ := channel.uncons
  refine ⟨own, others, split, fun message member => mine message (by simp [member]), alone,
    fun sent => ?_⟩
  obtain ⟨giver, member, sameKey⟩ := gives sent
  rcases List.mem_cons.mp member with rfl | member
  · exact absurd sameKey other
  · exact ⟨giver, member, sameKey⟩

/-- The holder moves on and sends nothing. -/
theorem move (channel : Channel tid stage key queue) (running : ¬ stage.Done)
    (sent : stage'.Sent → stage.Sent) : Channel tid stage' key queue := by
  obtain ⟨own, others, split, mine, alone, gives⟩ := channel
  exact ⟨own, others, split, mine, fun _ => alone running, fun later => gives (sent later)⟩

/-- The holder sends messages, one of which gives back the lock. -/
theorem send (channel : Channel tid stage key queue) (running : ¬ stage.Done)
    {sent : List (Msg Key Value Tid)} (mine : ∀ message ∈ sent, message.tid = tid)
    (gives : ∃ message ∈ sent, message.key = key) :
    Channel tid stage' key (queue ++ sent) := by
  obtain ⟨own, others, rfl, before, alone, -⟩ := channel
  obtain ⟨giver, member, sameKey⟩ := gives
  refine ⟨own ++ sent, [], by simp [alone running], ?_, fun _ => rfl,
    fun _ => ⟨giver, by simp [member], sameKey⟩⟩
  intro message member
  rcases List.mem_append.mp member with member | member
  · exact before message member
  · exact mine message member

/-- A later transaction sends messages. -/
theorem append (channel : Channel tid stage key queue) (done : stage.Done)
    (sent : List (Msg Key Value Tid)) : Channel tid stage key (queue ++ sent) := by
  obtain ⟨own, others, rfl, mine, -, gives⟩ := channel
  exact ⟨own, others ++ sent, by simp, mine, fun running => absurd done running, gives⟩

end Channel

/-! ## Coroutines -/

namespace Locks

variable {config : Config Key Value Tid Owner} {state after : State Key Value Tid Owner}
variable {tid : Tid}

/-- A coroutine runs one transaction at a time. -/
theorem active_unique (locks : Locks config state) {left right : Tid}
    (leftActive : (state.txns left).stage.Active)
    (rightActive : (state.txns right).stage.Active)
    (sameOwner : config.owner left = config.owner right) : left = right := by
  have leftRuns := locks.running left leftActive
  rw [sameOwner, locks.running right rightActive] at leftRuns
  exact (Option.some.inj leftRuns).symm

/-- A transaction that has a lock and does not run is finished. -/
theorem done_of_taken (locks : Locks config state) {access : Access Key}
    (taken : access ∈ (state.txns tid).taken)
    (inactive : ¬ (state.txns tid).stage.Active) : (state.txns tid).stage.Done := by
  have shape := (locks.own tid).shape
  rw [Txn.Shape] at shape
  cases stage : (state.txns tid).stage with
  | idle =>
      simp only [stage] at shape
      simp [shape] at taken
  | finished committed => trivial
  | _ => simp [stage, Stage.Active] at inactive

/-- A local lock is one of the transaction that its coroutine runs. -/
theorem active_of_local (locks : Locks config state) {access : Access Key}
    (taken : access ∈ (state.txns tid).taken) (isLocal : config.IsLocal tid access.key) :
    (state.txns tid).stage.Active := by
  by_contra inactive
  have done := locks.done_of_taken taken inactive
  have shape := (locks.own tid).shape
  rw [Txn.Shape] at shape
  cases stage : (state.txns tid).stage with
  | finished committed =>
      simp only [stage] at shape
      exact (locks.own tid).remote_outside (shape access taken) isLocal
  | _ => simp [stage, Stage.Done] at done

/-- A lock with the word of a coroutine is one of its transactions'. -/
theorem holder_of_content (locks : Locks config state) {key : Key}
    (locked : (state.nodes key).lock = config.content tid) :
    ∃ holder, config.owner holder = config.owner tid ∧
      ∃ access ∈ (state.txns holder).taken, access.key = key := by
  have nonzero : (state.nodes key).lock ≠ 0 := locked ▸ config.words.ne_zero _
  obtain ⟨holder, member⟩ := locks.holding.owner key nonzero
  obtain ⟨access, taken, sameKey⟩ := List.mem_map.mp member
  refine ⟨holder, config.words.injective ?_, access, taken, sameKey⟩
  exact (locks.holding.locked holder key member).symm.trans locked

/-- Two locks on one record are one lock. -/
theorem taken_unique (locks : Locks config state) {left right : Tid}
    {leftAccess rightAccess : Access Key} (leftTaken : leftAccess ∈ (state.txns left).taken)
    (rightTaken : rightAccess ∈ (state.txns right).taken)
    (sameKey : leftAccess.key = rightAccess.key) :
    left = right ∧ leftAccess = rightAccess := by
  have same : left = right := locks.holding.unique leftAccess.key left right
    (List.mem_map_of_mem leftTaken) (sameKey ▸ List.mem_map_of_mem rightTaken)
  subst same
  exact ⟨rfl, List.inj_on_of_nodup_map (locks.holding.nodup left) leftTaken rightTaken
    sameKey⟩

/-! ## What a step of one transaction keeps -/

section Frame

variable (locks : Locks config state)
variable (others : ∀ other, other ≠ tid → after.txns other = state.txns other)

include locks others

theorem own_frame (own : Own config tid (after.txns tid)) (other : Tid) :
    Own config other (after.txns other) := by
  rcases eq_or_ne other tid with rfl | different
  · exact own
  · rw [others other different]
    exact locks.own other

theorem holding_frame
    (sameLock : ∀ key, (after.nodes key).lock = (state.nodes key).lock)
    (sameTaken : (after.txns tid).taken = (state.txns tid).taken) :
    Holding config.content (fun key => (after.nodes key).lock)
      fun other => (after.txns other).taken.map (·.key) := by
  refine locks.holding.frame sameLock fun other => ?_
  rcases eq_or_ne other tid with rfl | different
  · rw [sameTaken]
  · rw [others other different]

/-- The sender of a message on its way is dead and stays so. -/
theorem posted_frame {owner : Owner} {partition : Nat} {message : Msg Key Value Tid}
    (member : message ∈ state.flight owner partition)
    (working : ¬ (state.txns tid).stage.Done)
    (dead : (state.txns tid).stage.Sent →
      (after.txns tid).stage.Sent ∧ ¬ (after.txns tid).stage.Alive) :
    Posted config after owner partition message := by
  have posted := locks.posted owner partition message member
  refine ⟨posted.owner_eq, posted.pid_eq, posted.outside, ?_, ?_⟩
  · intro sender item commit
    obtain ⟨stage, taken⟩ := posted.commits sender item commit
    have different : sender ≠ tid := by
      rintro rfl
      simp [stage, Stage.Done] at working
    rw [others sender different]
    exact ⟨stage, taken⟩
  · intro sender access release
    obtain ⟨before, alive⟩ := posted.releases sender access release
    rcases eq_or_ne sender tid with rfl | different
    · exact dead before
    · rw [others sender different]
      exact ⟨before, alive⟩

end Frame

/-! ## Steps that touch no lock -/

/-- The acting transaction keeps its locks and sends nothing. -/
theorem quiet (locks : Locks config state) (tid : Tid)
    (sameLock : ∀ key, (after.nodes key).lock = (state.nodes key).lock)
    (others : ∀ other, other ≠ tid → after.txns other = state.txns other)
    (sameTaken : (after.txns tid).taken = (state.txns tid).taken)
    (own : Own config tid (after.txns tid)) (working : ¬ (state.txns tid).stage.Done)
    (sent : (after.txns tid).stage.Sent →
      (state.txns tid).stage.Sent ∨ (state.txns tid).taken = [])
    (dead : (state.txns tid).stage.Sent →
      (after.txns tid).stage.Sent ∧ ¬ (after.txns tid).stage.Alive)
    (running : ∀ other, (after.txns other).stage.Active →
      after.running (config.owner other) = some other)
    (flight : after.flight = state.flight) : Locks config after where
  holding := locks.holding_frame others sameLock sameTaken
  own := locks.own_frame others own
  running := running
  channel other access taken remote := by
    rw [flight]
    rcases eq_or_ne other tid with rfl | different
    · rw [sameTaken] at taken
      refine (locks.channel other access taken remote).move working fun later => ?_
      rcases sent later with before | nothing
      · exact before
      · simp [nothing] at taken
    · rw [others other different] at taken ⊢
      exact locks.channel other access taken remote
  posted owner partition message member := by
    rw [flight] at member
    exact locks.posted_frame others member working dead
  apart owner partition := by
    rw [flight]
    exact locks.apart owner partition

/-! ## Taking a lock -/

/-- A free lock is taken; a remote one only when nothing is on its way there. -/
theorem take (locks : Locks config state) (tid : Tid) (access : Access Key)
    (free : (state.nodes access.key).lock = 0)
    (locked : (after.nodes access.key).lock = config.content tid)
    (sameLock : ∀ key, key ≠ access.key →
      (after.nodes key).lock = (state.nodes key).lock)
    (others : ∀ other, other ≠ tid → after.txns other = state.txns other)
    (added : (after.txns tid).taken = (state.txns tid).taken ++ [access])
    (own : Own config tid (after.txns tid)) (unsent : ¬ (state.txns tid).stage.Sent)
    (unsent' : ¬ (after.txns tid).stage.Sent)
    (running : ∀ other, (after.txns other).stage.Active →
      after.running (config.owner other) = some other)
    (clear : ¬ config.IsLocal tid access.key →
      state.flight (config.owner tid) (config.pid access.key) = [])
    (flight : after.flight = state.flight) : Locks config after where
  holding := by
    refine locks.holding.acquire (fun other => config.words.ne_zero _) tid free locked
      sameLock ?_ fun other different => by rw [others other different]
    rw [added, List.map_append]
    exact List.perm_append_singleton _ _
  own := locks.own_frame others own
  running := running
  channel other lock taken remote := by
    rw [flight]
    rcases eq_or_ne other tid with rfl | different
    · rw [added, List.mem_append, List.mem_singleton] at taken
      rcases taken with taken | rfl
      · exact (locks.channel other lock taken remote).move (fun done => unsent done.sent)
          fun sent => absurd sent unsent'
      · rw [clear remote]
        exact .nil unsent'
    · rw [others other different] at taken ⊢
      exact locks.channel other lock taken remote
  posted owner partition message member := by
    rw [flight] at member
    exact locks.posted_frame others member (fun done => unsent done.sent)
      fun sent => absurd sent unsent
  apart owner partition := by
    rw [flight]
    exact locks.apart owner partition

/-! ## Sending messages -/

section Send

variable [DecidableEq Owner]

/-- The running transaction sends the messages that give back its remote locks. -/
theorem send (locks : Locks config state) (tid : Tid) (messages : List (Msg Key Value Tid))
    (sameLock : ∀ key, (after.nodes key).lock = (state.nodes key).lock)
    (others : ∀ other, other ≠ tid → after.txns other = state.txns other)
    (sameTaken : (after.txns tid).taken = (state.txns tid).taken)
    (own : Own config tid (after.txns tid)) (active : (state.txns tid).stage.Active)
    (unsent : ¬ (state.txns tid).stage.Sent)
    (running : ∀ other, (after.txns other).stage.Active →
      after.running (config.owner other) = some other)
    (flight : after.flight = Function.update state.flight (config.owner tid) fun partition =>
      state.flight (config.owner tid) partition ++
        messages.filter fun message => config.pid message.key = partition)
    (mine : ∀ message ∈ messages, message.tid = tid)
    (gives : ∀ access ∈ (state.txns tid).taken, ¬ config.IsLocal tid access.key →
      ∃ message ∈ messages, message.key = access.key)
    (posted : ∀ message ∈ messages,
      Posted config after (config.owner tid) (config.pid message.key) message)
    (apart : messages.Pairwise Apart) : Locks config after where
  holding := locks.holding_frame others sameLock sameTaken
  own := locks.own_frame others own
  running := running
  channel other access taken remote := by
    rcases eq_or_ne other tid with rfl | different
    · rw [sameTaken] at taken
      rw [flight, Function.update_self]
      refine (locks.channel other access taken remote).send (fun done => unsent done.sent) ?_ ?_
      · intro message member
        exact mine message (List.mem_filter.mp member).1
      · obtain ⟨message, member, sameKey⟩ := gives access taken remote
        exact ⟨message, List.mem_filter.mpr ⟨member, by simp [sameKey]⟩, sameKey⟩
    · rw [others other different] at taken ⊢
      have channel := locks.channel other access taken remote
      rw [flight]
      by_cases sameOwner : config.owner other = config.owner tid
      · -- The other transaction of this coroutine is not running.
        have done : (state.txns other).stage.Done := by
          refine locks.done_of_taken taken fun otherActive => different ?_
          exact locks.active_unique otherActive active sameOwner
        rw [sameOwner, Function.update_self]
        rw [sameOwner] at channel
        exact channel.append done _
      · rw [Function.update_of_ne sameOwner]
        exact channel
  posted owner partition message member := by
    have old : message ∈ state.flight owner partition →
        Posted config after owner partition message := fun before =>
      locks.posted_frame others before (fun done => unsent done.sent) fun sent =>
        absurd sent unsent
    rw [flight] at member
    by_cases sameOwner : owner = config.owner tid
    · subst sameOwner
      rw [Function.update_self, List.mem_append, List.mem_filter] at member
      rcases member with member | ⟨member, toHere⟩
      · exact old member
      · simp only [decide_eq_true_eq] at toHere
        exact toHere ▸ posted message member
    · rw [Function.update_of_ne sameOwner] at member
      exact old member
  apart owner partition := by
    rw [flight]
    by_cases sameOwner : owner = config.owner tid
    · subst sameOwner
      rw [Function.update_self, List.pairwise_append]
      refine ⟨locks.apart _ partition, apart.filter _, ?_⟩
      intro left leftMember right rightMember leftTid leftItem rightTid rightItem leftEq rightEq
        sameKey
      -- Both transactions would have the lock of the record.
      obtain ⟨leftStage, leftTaken⟩ :=
        (locks.posted _ _ left leftMember).commits leftTid leftItem leftEq
      have rightMember := (List.mem_filter.mp rightMember).1
      have rightTaken := ((posted right rightMember).commits rightTid rightItem rightEq).2
      have rightMine : rightTid = tid := by
        have := mine right rightMember
        rwa [rightEq] at this
      rw [rightMine, sameTaken] at rightTaken
      have same := (locks.taken_unique leftTaken rightTaken sameKey).1
      rw [same] at leftStage
      simp [leftStage, Stage.Sent] at unsent
    · rw [Function.update_of_ne sameOwner]
      exact locks.apart owner partition

end Send

/-! ## Giving a lock back -/

section Unlock

variable [DecidableEq Key]

/-- One lock word is cleared and the lock is gone from the list of its holder. -/
theorem unlock_holding (locks : Locks config state) {access : Access Key}
    (taken : access ∈ (state.txns tid).taken)
    (freed : (after.nodes access.key).lock = 0)
    (sameLock : ∀ key, key ≠ access.key →
      (after.nodes key).lock = (state.nodes key).lock)
    (others : ∀ other, other ≠ tid → (after.txns other).taken = (state.txns other).taken)
    (removed : (after.txns tid).taken =
      (state.txns tid).taken.filter fun other => other.key ≠ access.key) :
    Holding config.content (fun key => (after.nodes key).lock)
      fun other => (after.txns other).taken.map (·.key) := by
  refine locks.holding.release tid access.key freed sameLock ?_ fun other different => by
    rw [others other different]
  rw [removed]
  exact (perm_cons_filter_key (locks.holding.nodup tid) taken).map (·.key)

/-- The running transaction clears one of its local locks. -/
theorem unlockLocal (locks : Locks config state) (tid : Tid) {access : Access Key}
    (taken : access ∈ (state.txns tid).taken)
    (freed : (after.nodes access.key).lock = 0)
    (sameLock : ∀ key, key ≠ access.key →
      (after.nodes key).lock = (state.nodes key).lock)
    (others : ∀ other, other ≠ tid → after.txns other = state.txns other)
    (removed : (after.txns tid).taken =
      (state.txns tid).taken.filter fun other => other.key ≠ access.key)
    (own : Own config tid (after.txns tid)) (working : ¬ (state.txns tid).stage.Done)
    (sent : (after.txns tid).stage.Sent → (state.txns tid).stage.Sent)
    (dead : (state.txns tid).stage.Sent →
      (after.txns tid).stage.Sent ∧ ¬ (after.txns tid).stage.Alive)
    (running : ∀ other, (after.txns other).stage.Active →
      after.running (config.owner other) = some other)
    (flight : after.flight = state.flight) : Locks config after where
  holding := locks.unlock_holding taken freed sameLock
    (fun other different => by rw [others other different]) removed
  own := locks.own_frame others own
  running := running
  channel other lock member remote := by
    rw [flight]
    rcases eq_or_ne other tid with rfl | different
    · rw [removed] at member
      exact (locks.channel other lock (List.mem_filter.mp member).1 remote).move working sent
    · rw [others other different] at member ⊢
      exact locks.channel other lock member remote
  posted owner partition message member := by
    rw [flight] at member
    exact locks.posted_frame others member working dead
  apart owner partition := by
    rw [flight]
    exact locks.apart owner partition

end Unlock

/-! ## Handling a message -/

section Deliver

variable [DecidableEq Key] [DecidableEq Owner] {owner : Owner} {partition : Nat}
variable {message : Msg Key Value Tid} {rest : List (Msg Key Value Tid)}

/-- One way loses its first message and the other ways stay. -/
theorem way_cases (flight : after.flight = Function.update state.flight owner
      (Function.update (state.flight owner) partition rest))
    (otherOwner : Owner) (otherPartition : Nat) :
    (otherOwner = owner ∧ otherPartition = partition ∧
        after.flight otherOwner otherPartition = rest) ∨
      (¬ (otherOwner = owner ∧ otherPartition = partition) ∧
        after.flight otherOwner otherPartition = state.flight otherOwner otherPartition) := by
  rw [flight]
  by_cases sameOwner : otherOwner = owner
  · subst sameOwner
    by_cases here : otherPartition = partition
    · subst here
      exact .inl ⟨rfl, rfl, by simp⟩
    · rw [Function.update_self, Function.update_of_ne here]
      exact .inr ⟨fun both => here both.2, rfl⟩
  · rw [Function.update_of_ne sameOwner]
    exact .inr ⟨fun both => sameOwner both.1, rfl⟩

/-- No second message commits what the first one on its way gives back. -/
theorem not_commit_again (locks : Locks config state)
    (queue : state.flight owner partition = message :: rest) {otherOwner : Owner}
    {otherPartition : Nat} {item : RemoteWrite Key Value}
    (ready : Posted config state otherOwner otherPartition (.commit message.tid item))
    (left : otherOwner = owner → otherPartition = partition →
      Msg.commit message.tid item ∈ rest) : item.access.key ≠ message.key := by
  intro sameKey
  have posted := locks.posted owner partition message (by simp [queue])
  -- The other message is on the same way.
  have sameOwner : otherOwner = owner := ready.owner_eq.symm.trans posted.owner_eq
  have samePartition : otherPartition = partition := by
    rw [← ready.pid_eq, ← posted.pid_eq, ← sameKey]
    rfl
  have member := left sameOwner samePartition
  obtain ⟨stage, -⟩ := ready.commits _ item rfl
  cases message with
  | commit first firstItem =>
      have apart := locks.apart owner partition
      rw [queue, List.pairwise_cons] at apart
      exact apart.1 _ member first firstItem _ item rfl rfl sameKey.symm
  | release first access =>
      have dead := (posted.releases first access rfl).2
      simp [show (state.txns first).stage = .finished true from stage, Stage.Alive] at dead

/-- A message is handled: what its sender has locked under its key is given back. -/
theorem deliver (locks : Locks config state)
    (queue : state.flight owner partition = message :: rest)
    (holding : Holding config.content (fun key => (after.nodes key).lock)
      fun other => (after.txns other).taken.map (·.key))
    (others : ∀ other, other ≠ message.tid → after.txns other = state.txns other)
    (dropped : after.txns message.tid = (state.txns message.tid).drop message.key)
    (own : Own config message.tid (after.txns message.tid))
    (running : after.running = state.running)
    (flight : after.flight = Function.update state.flight owner
      (Function.update (state.flight owner) partition rest)) : Locks config after := by
  have stages : ∀ other, (after.txns other).stage = (state.txns other).stage := by
    intro other
    rcases eq_or_ne other message.tid with rfl | different
    · rw [dropped]
      rfl
    · rw [others other different]
  have kept : ∀ other, ∀ lock ∈ (after.txns other).taken, lock ∈ (state.txns other).taken ∧
      (other = message.tid → lock.key ≠ message.key) := by
    intro other lock member
    rcases eq_or_ne other message.tid with rfl | different
    · rw [dropped, Txn.drop, List.mem_filter] at member
      exact ⟨member.1, fun _ => by simpa using member.2⟩
    · rw [others other different] at member
      exact ⟨member, fun same => absurd same different⟩
  have ways := way_cases flight
  refine ⟨holding, locks.own_frame others own, ?_, ?_, ?_, ?_⟩
  · intro other active
    rw [stages] at active
    rw [running]
    exact locks.running other active
  · intro other lock member remote
    obtain ⟨held, apart⟩ := kept other lock member
    have channel := locks.channel other lock held remote
    rw [stages]
    rcases ways (config.owner other) (config.pid lock.key) with ⟨sameOwner, here, way⟩ | ⟨-, way⟩
    · rw [sameOwner, here, queue] at channel
      rw [way]
      exact channel.tail (apart channel.head_tid.symm).symm
    · rw [way]
      exact channel
  · intro otherOwner otherPartition other member
    have before : other ∈ state.flight otherOwner otherPartition ∧
        (otherOwner = owner → otherPartition = partition → other ∈ rest) := by
      rcases ways otherOwner otherPartition with ⟨rfl, rfl, way⟩ | ⟨away, way⟩
      · rw [way] at member
        exact ⟨queue ▸ List.mem_cons_of_mem _ member, fun _ _ => member⟩
      · rw [way] at member
        exact ⟨member, fun sameOwner here => absurd ⟨sameOwner, here⟩ away⟩
    have ready := locks.posted otherOwner otherPartition other before.1
    refine ⟨ready.owner_eq, ready.pid_eq, ready.outside, ?_, ?_⟩
    · rintro sender item rfl
      obtain ⟨stage, held⟩ := ready.commits sender item rfl
      rw [stages]
      refine ⟨stage, ?_⟩
      rcases eq_or_ne sender message.tid with rfl | different
      · rw [dropped, Txn.drop, List.mem_filter]
        exact ⟨held, by simpa using locks.not_commit_again queue ready before.2⟩
      · rw [others sender different]
        exact held
    · intro sender access release
      rw [stages]
      exact ready.releases sender access release
  · intro otherOwner otherPartition
    rcases ways otherOwner otherPartition with ⟨-, -, way⟩ | ⟨-, way⟩
    · have apart := locks.apart owner partition
      rw [queue] at apart
      rw [way]
      exact apart.of_cons
    · rw [way]
      exact locks.apart _ _

end Deliver

end Locks

end Rocc.Db.Farm
