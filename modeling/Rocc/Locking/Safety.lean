import Rocc.Locking.Steps

/-!
# Lock safety

What the ledger means for a state and for a step, under either protocol.  The
release handler of `WAITDIE` clears a lock without looking at its word, so that
it never clears a foreign one has to come from the ledger.
-/

set_option linter.unusedSectionVars false

namespace Rocc.Locking

open Rtx

universe u v w

variable {Key : Type u} {Tid : Type v} {Owner : Type w}
variable [DecidableEq Key] [DecidableEq Tid] [DecidableEq Owner]
variable {config : Config Key Tid Owner} {state after : State Key Tid Owner} {tid : Tid}

/-- Lock safety of a state.  `inFlight` is about the items of the release and commit
messages no handler has processed yet. -/
structure LockSafe (config : Config Key Tid Owner) (state : State Key Tid Owner) :
    Prop where
  owned : ∀ key, (state.records key).lock ≠ 0 →
    ∃! tid, config.Belongs tid (state.records key).lock ∧
      Owns state.events tid key (state.records key).lock
  kept : ∀ tid key word, Owns state.events tid key word →
    (state.records key).lock = word
  exclusive : ∀ left right key leftWord rightWord, Owns state.events left key leftWord →
    Owns state.events right key rightWord → left = right
  inFlight : ∀ tid, ∀ message ∈ (state.txns tid).inFlight,
    (state.records message.1.key).lock = config.word tid message.2
  twoPhase : TwoPhase state.events
  finished : ∀ tid committed, (state.txns tid).stage = .finished committed →
    (∀ key type, (state.records key).lock ≠ config.word tid type) ∧
      ∀ server, ∀ waiter ∈ state.waitLists server, waiter.tid ≠ tid

/-- Every item of a release or commit message is a lock its sender holds. -/
theorem Txn.mem_claims_of_inFlight {txn : Txn Key} {message : ReadSetItem Key × LockType}
    (member : message ∈ txn.inFlight) : message ∈ txn.claims := by
  simp only [Txn.inFlight] at member
  split at member <;> rename_i stage <;> simp only [Txn.claims, stage]
  · exact List.mem_append_left _ member
  · exact member
  · exact List.mem_append_left _ member
  · exact member
  · cases member

/-- The lock of a claim carries the word of the claiming transaction. -/
theorem Inv.lock_of_claim (inv : Inv config state) {claim : ReadSetItem Key × LockType}
    (member : claim ∈ (state.txns tid).claims) :
    (state.records claim.1.key).lock = config.word tid claim.2 :=
  inv.ledger.held tid (claim.1.key, config.word tid claim.2)
    (List.mem_map.mpr ⟨claim, member, rfl⟩)

theorem Inv.lockSafe (inv : Inv config state) : LockSafe config state where
  owned _ locked := inv.ledger.existsUnique_owner config.lockWords locked
  kept _ _ _ owned := inv.ledger.lock_of_owns owned
  exclusive _ _ _ _ _ left right := (inv.ledger.owns_unique config.lockWords left right).1
  inFlight _ _ member := inv.lock_of_claim (Txn.mem_claims_of_inFlight member)
  twoPhase := inv.ledger.twoPhase
  finished := by
    intro tid committed done
    have nothing : config.claims tid (state.txns tid) = [] := by
      simp [Config.claims, Txn.claims, done]
    constructor
    · intro key type same
      exact inv.ledger.not_belongs_of_claims_nil config.lockWords nothing key ⟨type, same⟩
    · intro server waiter member same
      have queued := (inv.waiting.queued server waiter member).1
      rw [same, done] at queued
      cases queued

/-! ## What a step does to a lock word -/

/-- `LockStep` for the lock words of two states. -/
def LockChange (config : Config Key Tid Owner) (before after : State Key Tid Owner)
    (tid : Tid) : Prop :=
  LockStep config.Belongs tid (fun key => (before.records key).lock)
    fun key => (after.records key).lock

theorem lockChange_setRecord {records : Key → Record Bytes} {target : Key}
    {record : Record Bytes} {before : State Key Tid Owner}
    (sameRecords : before.records = records)
    (sameAfter : after.records = Function.update records target record)
    (changed : (records target).lock = 0 ∨ config.Belongs tid (records target).lock) :
    LockChange config before after tid := by
  intro key
  simp only [sameRecords, sameAfter]
  rcases eq_or_ne key target with rfl | different
  · exact .inr changed
  · left
    rw [Function.update_of_ne different]

theorem lockChange_lockItem (stepped : lockItem config state tid = some after) :
    LockChange config state after tid := by
  obtain ⟨type, key, -, outcome⟩ := lockItem_cases stepped
  cases outcome with
  | granted free => exact lockChange_setRecord rfl rfl (.inl free)
  | refused _ => exact fun _ => .inl rfl
  | queued _ _ => exact fun _ => .inl rfl

theorem lockChange_notify {server : Nat × Nat}
    (stepped : notify config state server tid = some after) :
    LockChange config state after tid := by
  obtain ⟨waiter, rest, -, -, outcome⟩ := notify_cases stepped
  cases outcome with
  | granted free => exact lockChange_setRecord rfl rfl (.inl free)
  | waits _ => exact fun _ => .inl rfl
  | refused _ _ => exact fun _ => .inl rfl

theorem lockChange_commitItem (inv : Inv config state) {machine : Nat}
    (stepped : commitItem config state tid machine = some after) :
    LockChange config state after tid := by
  simp only [commitItem] at stepped
  split at stepped
  · rename_i pending writing
    obtain ⟨⟨item, rest⟩, found, rfl⟩ := Option.map_eq_some_iff.mp stepped
    refine lockChange_setRecord rfl rfl (.inr ⟨.write, ?_⟩)
    have member : item ∈ pending := (mem_of_nextFor found).mpr (.inl rfl)
    have claim : (item, LockType.write) ∈ (state.txns tid).claims := by
      simp [Txn.claims, writing, tagged, member]
    exact inv.lock_of_claim claim
  · cases stepped

theorem lockChange_releaseOne (inv : Inv config state) {machine : Nat} {type : LockType}
    {pending : List (ReadSetItem Key)} {next : List (ReadSetItem Key) → Stage Key}
    (claimed : ∀ item ∈ pending, (item, type) ∈ (state.txns tid).inFlight)
    (stepped : releaseOne config state tid machine type pending next = some after) :
    LockChange config state after tid := by
  obtain ⟨item, rest, found, rfl⟩ := releaseOne_cases stepped
  refine lockChange_setRecord rfl rfl (.inr ⟨type, ?_⟩)
  have member : item ∈ pending := (mem_of_nextFor found).mpr (.inl rfl)
  exact inv.lock_of_claim (Txn.mem_claims_of_inFlight (claimed item member))

theorem lockChange_releaseItem (inv : Inv config state) {machine : Nat}
    (stepped : releaseItem config state tid machine = some after) :
    LockChange config state after tid := by
  simp only [releaseItem] at stepped
  split at stepped
  case h_4 => cases stepped
  all_goals
    rename_i releasing
    apply lockChange_releaseOne inv _ stepped
    intro item member
    simp [Txn.inFlight, releasing, tagged, member]

/-- Steps of a client that no handler takes part in. -/
def Action.Client : Action Key Tid → Prop
  | .lockItem _ => False
  | .notify _ _ => False
  | .commitItem _ _ => False
  | .releaseItem _ _ => False
  | _ => True

/-- Such steps leave the servers alone. -/
theorem client_step {action : Action Key Tid}
    (stepped : step config state action = some after) (client : action.Client) :
    after.records = state.records ∧ after.waitLists = state.waitLists := by
  cases action with
  | begin tid =>
      simp only [step, begin] at stepped
      split at stepped <;> cases stepped
      exact ⟨rfl, rfl⟩
  | request tid type key =>
      simp only [step, request] at stepped
      split at stepped <;> cases stepped
      exact ⟨rfl, rfl⟩
  | modify tid key data =>
      simp only [step, modify] at stepped
      split at stepped
      · split at stepped <;> cases stepped
        exact ⟨rfl, rfl⟩
      · cases stepped
  | commit tid =>
      simp only [step, commit] at stepped
      split at stepped <;> cases stepped
      exact ⟨rfl, rfl⟩
  | resume tid =>
      simp only [step, resume] at stepped
      split at stepped <;> cases stepped <;> exact ⟨rfl, rfl⟩
  | lockItem | notify | commitItem | releaseItem => exact absurd client id

theorem lockChange_client {action : Action Key Tid}
    (stepped : step config state action = some after) (client : action.Client) :
    LockChange config state after tid := by
  intro key
  left
  simp only [(client_step stepped client).1]

theorem lockChange_step (inv : Inv config state) {action : Action Key Tid}
    (stepped : step config state action = some after) :
    LockChange config state after action.tid := by
  cases action with
  | lockItem tid => exact lockChange_lockItem stepped
  | notify server tid => exact lockChange_notify stepped
  | commitItem tid machine => exact lockChange_commitItem inv stepped
  | releaseItem tid machine => exact lockChange_releaseItem inv stepped
  | begin | request | modify | commit | resume => exact lockChange_client stepped trivial

/-- A word disappears from a lock only in a step of the transaction it belongs
to. -/
theorem Inv.cleared_by_owner (inv : Inv config state) {action : Action Key Tid}
    (stepped : step config state action = some after) {key : Key} {type : LockType}
    (locked : (state.records key).lock = config.word tid type)
    (cleared : (after.records key).lock ≠ config.word tid type) : action.tid = tid := by
  rcases lockChange_step inv stepped key with same | free | ⟨other, mine⟩
  · exact absurd (same.trans locked) cleared
  · exact absurd (locked.symm.trans free) (config.word_ne_zero tid type)
  · exact (config.word_injective (mine.symm.trans locked)).1

/-! ## Lock safety of every run -/

/-- In every reachable state of either protocol locks are safe, and no step clears
a lock word that belongs to another transaction. -/
theorem lock_safe (config : Config Key Tid Owner) (database : Database config)
    (seq : Key → Nat) (replyBuf : Owner → Bytes) (state : State Key Tid Owner)
    (reach : Reachable (step config) (State.initial database seq replyBuf) state) :
    LockSafe config state ∧
      ∀ action after, step config state action = some after →
        ∀ key tid type, (state.records key).lock = config.word tid type →
          (after.records key).lock ≠ config.word tid type → action.tid = tid := by
  have inv := inv_of_reach reach
  exact ⟨inv.lockSafe, fun _ _ stepped _ _ _ locked cleared =>
    inv.cleared_by_owner stepped locked cleared⟩

/-- Two coroutines with one transaction each and one-byte records. -/
def pairConfig (protocol : Protocol) : Config Nat Bool Bool where
  protocol
  pid key := key % 2
  len _ := 1
  owner tid := tid
  worker owner := owner.toNat
  startTime tid := tid.toNat + 1
  lease_ne_zero tid := by cases tid <;> decide
  lease_injective left right same := by
    cases left <;> cases right <;> first | rfl | exact absurd same (by decide)

/-- One-byte records that all hold 7. -/
def sevens (protocol : Protocol) : Database (pairConfig protocol) where
  value _ := [7]
  sized _ := rfl

/-- The older transaction waits for record 0, is granted it by `check_to_notify` and
commits. -/
def waitingRun : List (Action Nat Bool) :=
  [.begin false, .begin true, .request true .write 0, .lockItem true,
    .request false .read 0, .lockItem false, .modify true 0 [9], .commit true,
    .notify (0, 0) false, .commitItem true 0, .notify (0, 0) false, .resume true,
    .resume true, .commit false, .resume false, .releaseItem false 0, .resume false]

theorem lock_safe_waiting :
    ∃ state : State Nat Bool Bool,
      ((state.txns false).Committed ∧ (state.txns true).Committed) ∧
      LockSafe (pairConfig .waitdie) state := by
  have reached : ∃ state : State Nat Bool Bool,
      Reachable (step (pairConfig .waitdie))
        (State.initial (sevens .waitdie) (fun _ => 0) (fun _ => [0, 0])) state ∧
      (state.txns false).Committed ∧ (state.txns true).Committed :=
    Reach.exists_of_exec waitingRun (by decide +kernel)
  obtain ⟨state, reach, committed⟩ := reached
  exact ⟨state, committed, (lock_safe (pairConfig .waitdie) _ _ _ state reach).1⟩

end Rocc.Locking
