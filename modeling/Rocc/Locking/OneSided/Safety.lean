import Rocc.Locking.OneSided.Steps
import Rocc.Locking.WaitGraph

/-!
# Safety of one-sided two-phase locking

What the invariant says about every state and every step: records have one holder at
a time, unlocks reach only records of their sender, nothing is left locked behind a
transaction, the commits are serial in their order, and a request that waits does so
for a younger transaction.
-/

set_option linter.unusedSectionVars false

namespace Rocc.Locking.OneSided

open Rtx

universe u v w x

variable {Key : Type u} {Value : Type v} {Tid : Type w} {Owner : Type x}
variable [DecidableEq Key] [DecidableEq Tid] [DecidableEq Owner]
variable {config : Config Key Tid Owner} {value₀ : Key → Value}
variable {state after : State Key Value Tid} {tid : Tid} {txn : Txn Key Value}

/-! ## Locks -/

/-- Lock safety of a state. -/
structure LockSafe (config : Config Key Tid Owner) (state : State Key Value Tid) :
    Prop where
  owned : ∀ key, (state.records key).lock ≠ 0 →
    ∃! tid, config.Belongs tid (state.records key).lock ∧
      Owns state.events tid key (state.records key).lock
  exclusive : ∀ left right key leftWord rightWord, Owns state.events left key leftWord →
    Owns state.events right key rightWord → left = right
  granted : ∀ tid, (state.txns tid).stage = .execute → ∀ entry ∈ (state.txns tid).items,
    (state.records entry.1.key).lock = config.word tid entry.2
  unlocking : ∀ tid, ∀ unlock ∈ (state.txns tid).unlocking,
    (state.records unlock.1).lock = config.word tid unlock.2 ∧
      Owns state.events tid unlock.1 (config.word tid unlock.2)
  finished : ∀ tid committed, (state.txns tid).stage = .finished committed →
    ∀ key type, (state.records key).lock ≠ config.word tid type
  twoPhase : TwoPhase state.events

/-- An unlock that has been posted is for a lock of its sender. -/
theorem Txn.mem_claims_of_unlocking {unlock : Key × LockType}
    (member : unlock ∈ txn.unlocking) : unlock ∈ txn.claims := by
  simp only [Txn.unlocking] at member
  split at member <;> rename_i stage <;> simp only [Txn.claims, stage]
  · exact List.mem_append_left _ member
  · exact member
  · exact List.mem_append_left _ member
  · exact member
  · cases member

theorem Inv.lockSafe (inv : Inv config value₀ state) : LockSafe config state where
  owned _ locked := inv.books.existsUnique_owner config.lockWords locked
  exclusive _ _ _ _ _ left right := (inv.books.owns_unique config.lockWords left right).1
  granted := by
    intro tid executes entry member
    have kept : entry ∈ (state.txns tid).kept := by rwa [Txn.kept, executes]
    exact inv.lock_of_claim (Txn.mem_claims_of_kept kept)
  unlocking := by
    intro tid unlock member
    have claim := Txn.mem_claims_of_unlocking member
    refine ⟨inv.lock_of_claim claim, (inv.books.owns tid _ _).mp ?_⟩
    exact List.mem_map.mpr ⟨unlock, claim, rfl⟩
  finished := by
    intro tid committed done key type same
    have nothing : (state.books config).claims tid = [] := by
      simp [State.books, Books.ofClaims, Config.claims, Txn.claims, done]
    exact inv.books.not_belongs_of_claims_nil config.lockWords nothing key ⟨type, same⟩
  twoPhase := inv.books.twoPhase

/-- `LockStep` for the lock words of two states. -/
def LockChange (config : Config Key Tid Owner) (before after : State Key Value Tid)
    (tid : Tid) : Prop :=
  LockStep config.Belongs tid (fun key => (before.records key).lock)
    fun key => (after.records key).lock

theorem lockChange_of_same (same : after.records = state.records) :
    LockChange config state after tid := by
  intro key
  left
  simp only [same]

theorem lockChange_setRecord {target : Key} {record : Record Value}
    (changed : after.records = Function.update state.records target record)
    (allowed : record.lock = (state.records target).lock ∨ (state.records target).lock = 0 ∨
      config.Belongs tid (state.records target).lock) : LockChange config state after tid := by
  intro key
  simp only [changed]
  rcases eq_or_ne key target with rfl | different
  · simpa using allowed
  · left
    rw [Function.update_of_ne different]

/-- An unlock that has been posted clears a word of its sender. -/
theorem Inv.lockChange_unlock (inv : Inv config value₀ state) {unlock : Key × LockType}
    {record : Record Value} (member : unlock ∈ (state.txns tid).unlocking)
    (changed : after.records = Function.update state.records unlock.1 record) :
    LockChange config state after tid :=
  lockChange_setRecord changed
    (.inr (.inr ⟨unlock.2, inv.lock_of_claim (Txn.mem_claims_of_unlocking member)⟩))

theorem lockChange_writeBackVerb (inv : Inv config value₀ state) {machine : Nat}
    (stepped : writeBackVerb config state tid machine = some after) :
    LockChange config state after tid := by
  simp only [writeBackVerb] at stepped
  split at stepped
  · rename_i posted writing
    obtain ⟨⟨⟨item, written⟩, rest⟩, found, rfl⟩ := Option.map_eq_some_iff.mp stepped
    have member : (item, written) ∈ posted := (mem_of_nextFor found).mpr (.inl rfl)
    cases written with
    | false => exact lockChange_setRecord rfl (.inl rfl)
    | true =>
        have unlocking : (item.key, LockType.write) ∈ (state.txns tid).unlocking := by
          simp only [Txn.unlocking, writing, locksOf_tagged, List.map_map, List.mem_map]
          exact ⟨(item, true), member, rfl⟩
        exact inv.lockChange_unlock unlocking rfl
  · cases stepped

theorem lockChange_unlockVerb (inv : Inv config value₀ state) {machine : Nat}
    {type : LockType} {posted : List Key} {next : List Key → Stage Key Value}
    (releasing : ∀ key ∈ posted, (key, type) ∈ (state.txns tid).unlocking)
    (stepped : unlockVerb config state tid machine type posted next = some after) :
    LockChange config state after tid := by
  obtain ⟨⟨key, rest⟩, found, rfl⟩ := Option.map_eq_some_iff.mp stepped
  exact inv.lockChange_unlock (releasing key ((mem_of_nextFor found).mpr (.inl rfl))) rfl

/-- No step changes a lock word of another transaction. -/
theorem lockChange_step (inv : Inv config value₀ state) {action : Action Key Value Tid}
    (stepped : step config state action = some after) :
    LockChange config state after action.tid := by
  cases action with
  | casVerb tid =>
      obtain ⟨type, items, item, -, -, -, outcome⟩ := casVerb_cases inv stepped
      cases outcome with
      | granted free => exact lockChange_setRecord rfl (.inr (.inl free))
      | refused taken => exact lockChange_of_same rfl
  | readVerb tid =>
      obtain ⟨type, items, item, -, -, -, outcome⟩ := readVerb_cases inv stepped
      cases outcome <;> exact lockChange_of_same rfl
  | writeBackVerb tid machine => exact lockChange_writeBackVerb inv stepped
  | releaseVerb tid machine =>
      simp only [step, releaseVerb] at stepped
      split at stepped
      case h_4 => cases stepped
      all_goals
        rename_i releasing
        apply lockChange_unlockVerb inv _ stepped
        intro key member
        simp [Action.tid, Txn.unlocking, releasing, member]
  | begin tid =>
      simp only [step, begin] at stepped
      split at stepped <;> cases stepped
      exact lockChange_of_same rfl
  | request tid type key lock data =>
      simp only [step, request] at stepped
      split at stepped <;> cases stepped
      exact lockChange_of_same rfl
  | modify tid key data =>
      simp only [step, modify] at stepped
      split at stepped <;> cases stepped
      exact lockChange_of_same rfl
  | commit tid vote =>
      simp only [step, commit] at stepped
      split at stepped
      · split at stepped <;> cases stepped <;> exact lockChange_of_same rfl
      · cases stepped
  | resume tid =>
      simp only [step, resume] at stepped
      split at stepped <;> cases stepped <;> exact lockChange_of_same rfl

/-! ## Commits -/

/-- The transactions whose `commit` has been called, in the order of the calls, are a
serial execution.  The order agrees with the order in which they held the records they
have in common, and the log explains every record nobody still has to write back. -/
structure CommitSerial (value₀ : Key → Value) (state : State Key Value Tid) : Prop where
  nodup : state.commitOrder.Nodup
  members : ∀ tid, tid ∈ state.commitOrder ↔ (state.txns tid).Decided
  conflicts : ∀ first second, first ∈ state.commitOrder → second ∈ state.commitOrder →
    first ≠ second → Conflict state.events first second →
      List.Sublist [first, second] state.commitOrder
  serial : Serial value₀ (footprints state.txns state.commitOrder)
  explains : ∀ key, (∀ data, ¬ Owed state.txns key data) →
    replay value₀ (footprints state.txns state.commitOrder) key = (state.records key).value

theorem Inv.commitSerial (inv : Inv config value₀ state) : CommitSerial value₀ state where
  nodup := inv.nodup
  members := inv.members
  conflicts := inv.conflicts
  serial := inv.deferred.serial
  explains := inv.deferred.settled

/-! ## The wait graph -/

/-- `source` is in the loop of a lock request for a record whose lock word is larger than
its own, and that word belongs to `target`. -/
def SpinsOn (config : Config Key Tid Owner) (state : State Key Value Tid)
    (source target : Tid) : Prop :=
  ∃ type item,
    ((state.txns source).stage = .lock type ∨ (state.txns source).stage = .lockRead type) ∧
    ((state.txns source).set type).getLast? = some item ∧
    config.word source type < (state.records item.key).lock ∧
    config.Belongs target (state.records item.key).lock

/-- A transaction that requests a record holds it only with the word of the request. -/
theorem Inv.type_of_requested (inv : Inv config value₀ state) {type held : LockType}
    {item : Item Key Value}
    (requesting : (state.txns tid).stage = .lock type ∨
      (state.txns tid).stage = .lockRead type)
    (requested : ((state.txns tid).set type).getLast? = some item)
    (locked : (state.records item.key).lock = config.word tid held) : held = type := by
  obtain ⟨items, last, split, fresh⟩ := (inv.txns tid).requests type requesting
  rw [split, List.getLast?_concat, Option.some.injEq] at requested
  subst requested
  have taken : (state.records last.key).lock ≠ 0 := by
    rw [locked]
    exact config.word_ne_zero tid held
  obtain ⟨owner, member⟩ := inv.books.owner last.key taken
  obtain ⟨⟨key, claimType⟩, claim, same⟩ := List.mem_map.mp member
  obtain ⟨rfl, sameWord⟩ := Prod.mk.inj same
  obtain ⟨rfl, rfl⟩ := config.word_injective (sameWord.trans locked)
  have notKept : (last.key, claimType) ∉ locksOf ((state.txns owner).without type) := by
    intro inWithout
    obtain ⟨entry, entryMember, sameEntry⟩ := List.mem_map.mp inWithout
    exact fresh entry entryMember (Prod.mk.inj sameEntry).1
  have inGranted : (last.key, claimType) ∈ locksOf ((state.txns owner).granted type) := by
    rcases requesting with stage | stage <;>
      simp only [Txn.claims, stage, locksOf_append, List.mem_append] at claim
    · exact absurd claim notKept
    · exact claim.resolve_right notKept
  obtain ⟨entry, entryMember, sameEntry⟩ := List.mem_map.mp inGranted
  obtain ⟨_, -, isEntry⟩ := List.mem_map.mp entryMember
  rw [← isEntry] at sameEntry
  exact (Prod.mk.inj sameEntry).2.symm

theorem Inv.lease_lt (inv : Inv config value₀ state) {source target : Tid}
    (waits : SpinsOn config state source target) :
    rLease (config.startTime source) < rLease (config.startTime target) := by
  obtain ⟨type, item, requesting, requested, smaller, held, locked⟩ := waits
  rw [locked] at smaller
  refine lease_lt_of_word_lt ?_ smaller
  rintro rfl
  rw [inv.type_of_requested requesting requested locked] at smaller
  exact lt_irrefl _ smaller

theorem Inv.acyclic (inv : Inv config value₀ state) (tid : Tid) :
    ¬ Relation.TransGen (SpinsOn config state) tid tid :=
  not_transGen_self_of_rank (fun other => rLease (config.startTime other))
    (fun _ _ waits => inv.lease_lt waits) tid

/-! ## The result -/

/-- Safety of `NOWAIT` and `WAITDIE` with one-sided verbs, for every run in which no
transaction asks for a record twice. -/
theorem two_phase_safe (config : Config Key Tid Owner) (value : Key → Value)
    (seq : Key → Nat) (state : State Key Value Tid)
    (reach : Reach (step config) Distinct (State.initial value seq) state) :
    LockSafe config state ∧
      (∀ action after, Distinct state action → step config state action = some after →
        LockChange config state after action.tid) ∧
      CommitSerial value state ∧
      ∀ tid, ¬ Relation.TransGen (SpinsOn config state) tid tid := by
  have inv := inv_of_reach reach
  exact ⟨inv.lockSafe, fun _ _ _ stepped => lockChange_step inv stepped, inv.commitSerial,
    inv.acyclic⟩

/-- The older transaction spins on record 0, gets it when the younger one has written it
back, and commits.  Its buffer had the marker in it from the start. -/
def spinningRun : List (Action Nat Nat Bool) :=
  [.begin false, .begin true, .request true .write 0 0 5, .casVerb true, .readVerb true,
    .request false .read 0 333 0, .casVerb false, .readVerb false, .modify true 0 9,
    .commit true true, .writeBackVerb true 0, .casVerb false, .readVerb false,
    .writeBackVerb true 0, .casVerb false, .resume true, .readVerb false, .resume true,
    .commit false true, .resume false, .releaseVerb false 0, .resume false]

theorem two_phase_safe_spinning :
    ∃ state : State Nat Nat Bool,
      ((state.txns false).stage = .finished true ∧ (state.txns true).stage = .finished true ∧
        (state.txns false).footprint.reads 0 = some 9) ∧
      LockSafe (pairConfig .waitdie) state ∧ CommitSerial (fun _ => 7) state := by
  have reached : ∃ state : State Nat Nat Bool,
      Reach (step (pairConfig .waitdie)) Distinct (State.initial (fun _ => 7) fun _ => 0)
        state ∧
      (state.txns false).stage = .finished true ∧ (state.txns true).stage = .finished true ∧
        (state.txns false).footprint.reads 0 = some 9 :=
    Reach.exists_of_exec spinningRun (by decide +kernel)
  obtain ⟨state, reach, finished⟩ := reached
  have safe := two_phase_safe (pairConfig .waitdie) (fun _ => 7) (fun _ => 0) state reach
  exact ⟨state, finished, safe.1, safe.2.2.1⟩

end Rocc.Locking.OneSided
