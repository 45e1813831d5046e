import Rocc.Mvcc.OneSided.Model

/-!
# What a one-sided step can do

A step of the system that respects the reads has one of seven effects.  Most only move a
transaction; the others pass the second check of a read, raise a read timestamp, take a lock,
accept it, write a version array, or clear a lock.
-/

set_option linter.unusedSectionVars false

namespace Rocc.Mvcc.OneSided

open Rtx

universe u v w

variable {Key : Type u} {Value : Type v} {Tid : Type w}
variable [DecidableEq Key] [DecidableEq Tid]

/-! ## Locks held -/

/-- Records whose lock the transaction has taken and not released. -/
def Txn.holds (txn : Txn Key Value) : List Key :=
  match txn.stage with
  | .idle => []
  | .finished _ => []
  | .lockRead key old =>
      txn.writeSet.map WriteItem.key ++ if old = 0 then [key] else []
  | .update pending => pending.map fun entry => entry.1.key
  | .release pending => pending
  | _ => txn.writeSet.map WriteItem.key

/-- Items locked and checked whose version is not written yet. -/
def Txn.intents (txn : Txn Key Value) : List (WriteItem Key Value) :=
  match txn.stage with
  | .idle => []
  | .finished _ => []
  | .update pending => (pending.filter fun entry => !entry.2).map Prod.fst
  | .release _ => []
  | _ => txn.writeSet

/-- The record of an intent is locked. -/
theorem Txn.key_mem_holds {txn : Txn Key Value} {item : WriteItem Key Value}
    (intended : item ∈ txn.intents) : item.key ∈ txn.holds := by
  cases reached : txn.stage with
  | idle | finished | release => simp [Txn.intents, reached] at intended
  | update pending =>
      simp only [Txn.intents, reached, List.mem_map, List.mem_filter] at intended
      obtain ⟨entry, ⟨queued, -⟩, rfl⟩ := intended
      simp only [Txn.holds, reached]
      exact List.mem_map_of_mem queued
  | lockRead key old =>
      simp only [Txn.intents, reached] at intended
      simp only [Txn.holds, reached, List.mem_append]
      exact .inl (List.mem_map_of_mem intended)
  | execute | read | readAgain | publish | header | lock =>
      simp only [Txn.intents, reached] at intended
      simp only [Txn.holds, reached]
      exact List.mem_map_of_mem intended

/-- One transaction goes on without a new lock, intent or snapshot. -/
structure Moves (txn next : Txn Key Value) : Prop where
  holds : next.holds.Sublist txn.holds
  intents : ∀ item ∈ next.intents, ∃ old ∈ txn.intents,
    old.key = item.key ∧ old.buffer.wts = item.buffer.wts
  snapshots : ∀ item ∈ next.snapshots, item ∈ txn.snapshots
  readSet : txn.stage ≠ .idle → ∀ item ∈ txn.readSet, item ∈ next.readSet
  begun : next.stage ≠ .idle
  accepted : ∀ key, next.stage ≠ .lockRead key 0

/-- What a step that respects the reads can do. -/
inductive Effect (config : Config Key Tid) (state : State Key Value Tid) :
    State Key Value Tid → Prop where
  | move (tid : Tid) (next : Txn Key Value) : Moves (state.txns tid) next →
      Effect config state (state.setTxn tid next)
  | snapshot (tid : Tid) (key : Key) (pos : Slot) (item : ReadItem Key Value)
      (next : Txn Key Value) : item.key = key →
      item.version = (state.records key).wts pos →
      checkRead (state.records key) (config.timestamp tid) = some pos →
      next.holds = (state.txns tid).holds → next.intents = (state.txns tid).intents →
      next.snapshots = (state.txns tid).snapshots ++ [item] →
      (∀ item ∈ (state.txns tid).readSet, item ∈ next.readSet) → next.stage ≠ .idle →
      (∀ key, next.stage ≠ .lockRead key 0) → Effect config state (state.setTxn tid next)
  | publish (tid : Tid) (key : Key) (rts : Nat) (next : Txn Key Value) :
      (state.records key).rts ≤ rts → Moves (state.txns tid) next →
      Effect config state
        ((state.setRecord key { state.records key with rts }).setTxn tid next)
  | lock (tid : Tid) (key : Key) : (state.txns tid).stage = .lock key →
      (state.records key).lock = 0 →
      (ReadPast config state.txns key (config.timestamp tid) →
        checkWrite (state.records key) (config.timestamp tid) ≠ 0) →
      Effect config state ((state.setRecord key
        { state.records key with lock := config.timestamp tid }).setStage tid
          (.lockRead key 0))
  | accept (tid : Tid) (key : Key) (item : WriteItem Key Value) :
      (state.txns tid).stage = .lockRead key 0 → item.key = key →
      item.buffer.wts = (state.records key).wts →
      checkWrite (state.records key) (config.timestamp tid) = 0 →
      Effect config state (state.setTxn tid { state.txns tid with
        stage := .execute, writeSet := (state.txns tid).writeSet ++ [item] })
  | install (tid : Tid) (item : WriteItem Key Value) (buffer : Header Value)
      (pending rest : List (WriteItem Key Value × Bool)) :
      (state.txns tid).stage = .update pending → pending.Perm ((item, false) :: rest) →
      item.prepare (config.timestamp tid) = some buffer →
      Effect config state ((state.setRecord item.key
        ((state.records item.key).writeVersions buffer)).setStage tid
          (.update ((item, true) :: rest)))
  | unlock (tid : Tid) (key : Key) (stage : Stage Key Value) :
      (state.txns tid).holds.Perm
        (key :: Txn.holds { state.txns tid with stage }) →
      (∀ item ∈ Txn.intents { state.txns tid with stage }, item ∈ (state.txns tid).intents) →
      Txn.snapshots { state.txns tid with stage } = (state.txns tid).snapshots →
      stage ≠ .idle → (∀ key, stage ≠ .lockRead key 0) →
      Effect config state ((state.setRecord key (state.records key).unlock).setStage tid stage)

/-! ## Moves -/

/-- Another stage of the same activity. -/
theorem moves_stage {txn : Txn Key Value} {stage : Stage Key Value}
    (holds : Txn.holds { txn with stage } = txn.holds)
    (intents : ∀ item ∈ Txn.intents { txn with stage }, item ∈ txn.intents)
    (snapshots : Txn.snapshots { txn with stage } = txn.snapshots)
    (begun : stage ≠ .idle) (accepted : ∀ key, stage ≠ .lockRead key 0) :
    Moves txn { txn with stage } where
  holds := holds ▸ .refl _
  intents item intended := ⟨item, intents item intended, rfl, rfl⟩
  snapshots item seen := snapshots ▸ seen
  readSet _ _ seen := seen
  begun := begun
  accepted := accepted

/-- The transaction gives up with the locks of its write set. -/
theorem moves_giveUp {txn : Txn Key Value} (holds : txn.holds = txn.writeSet.map WriteItem.key)
    (snapshots : txn.snapshots = txn.readSet) : Moves txn { txn with stage := txn.giveUp } := by
  apply moves_stage
  · rw [holds]
    rfl
  · intro item intended
    cases intended
  · rw [snapshots]
    rfl
  · simp [Txn.giveUp]
  · simp [Txn.giveUp]

/-! ## The effect of every step -/

variable {config : Config Key Tid} {state after : State Key Value Tid} {tid : Tid}

theorem effect_begin (stepped : begin state tid = some after) :
    Effect config state after := by
  simp only [begin] at stepped
  split at stepped
  · rename_i reached
    cases stepped
    apply Effect.move
    constructor <;> simp [Txn.holds, Txn.intents, Txn.snapshots, reached]
  · cases stepped

theorem effect_read {key : Key} (stepped : read state tid key = some after) :
    Effect config state after := by
  simp only [read] at stepped
  split at stepped
  · rename_i reached
    split at stepped
    · cases stepped
      apply Effect.move
      apply moves_stage <;> simp [Txn.holds, Txn.intents, Txn.snapshots, reached]
    · cases stepped
  · cases stepped

theorem effect_readVerb (stepped : readVerb config state tid = some after) :
    Effect config state after := by
  simp only [readVerb] at stepped
  split at stepped
  · rename_i reached
    split at stepped
    · cases stepped
      apply Effect.move
      apply moves_giveUp <;> simp [Txn.holds, Txn.snapshots, reached]
    · cases stepped
      apply Effect.move
      apply moves_stage <;> simp [Txn.holds, Txn.intents, Txn.snapshots, reached]
  · cases stepped

theorem effect_readAgainVerb (stepped : readAgainVerb config state tid = some after) :
    Effect config state after := by
  simp only [readAgainVerb] at stepped
  split at stepped
  · rename_i key buffer pos reached
    split at stepped
    · cases stepped
      apply Effect.move
      apply moves_giveUp <;> simp [Txn.holds, Txn.snapshots, reached]
    · rename_i newPos checked
      split at stepped
      · cases stepped
        apply Effect.move
        apply moves_giveUp <;> simp [Txn.holds, Txn.snapshots, reached]
      · rename_i unchanged
        simp only [not_or, not_not] at unchanged
        obtain ⟨rfl, same⟩ := unchanged
        let item : ReadItem Key Value :=
          { key, version := buffer.wts newPos, data := buffer.data newPos }
        -- A local read still has to raise the read timestamp, a remote one is complete.
        split at stepped
        · cases stepped
          refine .snapshot tid key newPos item _ rfl same.symm checked ?_ ?_ ?_ ?_ ?_ ?_
          all_goals simp [Txn.holds, Txn.intents, Txn.snapshots, reached, item]
        · rw [rtsLoop_returns _ _ 0] at stepped
          cases stepped
          refine .snapshot tid key newPos item _ rfl same.symm checked ?_ ?_ ?_ ?_ ?_ ?_
          all_goals simp +contextual [Txn.holds, Txn.intents, Txn.snapshots, reached, item]
  · cases stepped

theorem effect_publish (stepped : publish config state tid = some after) :
    Effect config state after := by
  simp only [publish] at stepped
  split at stepped
  · rename_i item reached
    cases stepped
    apply Effect.publish _ _ _ _ (le_max_left _ _)
    constructor
    case intents =>
        simp only [Txn.intents, reached]
        exact fun item written => ⟨item, written, rfl, rfl⟩
    all_goals simp +contextual [Txn.holds, Txn.snapshots, reached]
  · cases stepped

theorem effect_write {key : Key} (stepped : write state tid key = some after) :
    Effect config state after := by
  simp only [write] at stepped
  split at stepped
  · rename_i reached
    split at stepped
    · cases stepped
      apply Effect.move
      apply moves_stage <;> simp [Txn.holds, Txn.intents, Txn.snapshots, reached]
    · cases stepped
  · cases stepped

theorem effect_headerVerb (stepped : headerVerb config state tid = some after) :
    Effect config state after := by
  simp only [headerVerb] at stepped
  split at stepped
  · rename_i reached
    split at stepped
    · cases stepped
      apply Effect.move
      apply moves_giveUp <;> simp [Txn.holds, Txn.snapshots, reached]
    · cases stepped
      apply Effect.move
      apply moves_stage <;> simp [Txn.holds, Txn.intents, Txn.snapshots, reached]
  · cases stepped

theorem effect_lockVerb (permitted : ReadsRespected config state (.lockVerb tid))
    (stepped : lockVerb config state tid = some after) : Effect config state after := by
  simp only [lockVerb] at stepped
  split at stepped
  · rename_i key reached
    cases stepped
    by_cases free : (state.records key).lock = 0
    · rw [Header.casLock, if_pos free, free]
      simp only [ReadsRespected, Txn.locking, reached] at permitted
      exact .lock tid key reached free (permitted key rfl free)
    · have kept : state.setRecord key (state.records key) = state := by
        simp [State.setRecord]
      rw [Header.casLock, if_neg free, kept]
      apply Effect.move
      apply moves_stage <;> simp [Txn.holds, Txn.intents, Txn.snapshots, reached, free]
  · cases stepped

theorem effect_lockReadVerb (stepped : lockReadVerb config state tid = some after) :
    Effect config state after := by
  simp only [lockReadVerb] at stepped
  split at stepped
  · rename_i key old reached
    simp only [Option.map_eq_some_iff] at stepped
    obtain ⟨result, checked, rfl⟩ := stepped
    cases result with
    | fail =>
        have taken : old ≠ 0 := checkBuffer_fail checked
        apply Effect.move
        apply moves_giveUp <;> simp [Txn.holds, Txn.snapshots, reached, taken]
    | failLocked =>
        have free : old = 0 := checkBuffer_failLocked checked
        apply Effect.move
        apply moves_stage <;> simp [Txn.holds, Txn.intents, Txn.snapshots, reached, free]
    | success item =>
        obtain ⟨free, rfl, filled, -, unread, older, -⟩ := checkBuffer_success checked
        have locked : old = 0 := free
        subst locked
        refine .accept tid item.key item reached rfl ?_ ?_
        · rw [filled]
          rfl
        · exact checkWrite_eq_zero_iff.mpr ⟨unread, older⟩
  · cases stepped

theorem effect_modify {key : Key} {data : Value}
    (stepped : modify state tid key data = some after) : Effect config state after := by
  simp only [modify] at stepped
  split at stepped
  · rename_i reached
    cases stepped
    apply Effect.move
    have sameKey : ∀ item : WriteItem Key Value,
        (if item.key = key then item.modify fun _ => data else item).key = item.key := by
      intro item
      split <;> rfl
    have sameWts : ∀ item : WriteItem Key Value,
        item.buffer.wts =
          (if item.key = key then item.modify fun _ => data else item).buffer.wts := by
      intro item
      split <;> rfl
    constructor
    case holds => simp [Txn.holds, reached, sameKey, Function.comp_def]
    case intents =>
        simp only [Txn.intents, reached, List.mem_map]
        rintro _ ⟨item, written, rfl⟩
        exact ⟨item, written, (sameKey item).symm, sameWts item⟩
    all_goals simp [Txn.snapshots, reached]
  · cases stepped

theorem effect_commit (stepped : commit state tid = some after) :
    Effect config state after := by
  simp only [commit] at stepped
  split at stepped
  · rename_i reached
    cases stepped
    apply Effect.move
    apply moves_stage <;> simp [Txn.holds, Txn.intents, Txn.snapshots, reached,
      Function.comp_def]
  · cases stepped

theorem effect_abort (stepped : abort state tid = some after) :
    Effect config state after := by
  simp only [abort] at stepped
  split at stepped
  · rename_i reached
    cases stepped
    apply Effect.move
    apply moves_giveUp <;> simp [Txn.holds, Txn.snapshots, reached]
  · cases stepped

theorem effect_updateVerb {machine : Nat}
    (stepped : updateVerb config state tid machine = some after) :
    Effect config state after := by
  simp only [updateVerb] at stepped
  split at stepped
  · rename_i pending reached
    obtain ⟨⟨⟨item, written⟩, rest⟩, found, stepped⟩ := Option.bind_eq_some_iff.mp stepped
    have queued := nextFor_perm found
    cases written with
    | true =>
        cases stepped
        refine .unlock tid item.key _ ?holds ?intents ?_ ?_ ?_
        case holds =>
            simp only [Txn.holds, reached]
            exact queued.map fun entry => entry.1.key
        case intents =>
            simp only [Txn.intents, reached]
            intro other intended
            obtain ⟨entry, kept, rfl⟩ := List.mem_map.mp intended
            obtain ⟨left, unwritten⟩ := List.mem_filter.mp kept
            apply List.mem_map_of_mem
            exact List.mem_filter.mpr
              ⟨(mem_of_nextFor found).mpr (.inr left), unwritten⟩
        all_goals simp [Txn.snapshots, reached]
    | false =>
        simp only [Bool.false_eq_true, if_false, Option.map_eq_some_iff] at stepped
        obtain ⟨buffer, prepared, rfl⟩ := stepped
        exact .install tid item buffer pending rest reached queued prepared
  · cases stepped

theorem effect_releaseVerb {machine : Nat}
    (stepped : releaseVerb config state tid machine = some after) :
    Effect config state after := by
  simp only [releaseVerb] at stepped
  split at stepped
  · rename_i pending reached
    simp only [Option.map_eq_some_iff] at stepped
    obtain ⟨⟨key, rest⟩, found, rfl⟩ := stepped
    refine .unlock tid key _ ?holds ?_ ?_ ?_ ?_
    case holds =>
        simp only [Txn.holds, reached]
        exact nextFor_perm found
    all_goals simp [Txn.intents, Txn.snapshots, reached]
  · cases stepped

theorem effect_finish (stepped : finish state tid = some after) :
    Effect config state after := by
  simp only [finish] at stepped
  split at stepped
  · rename_i reached
    cases stepped
    apply Effect.move
    apply moves_stage <;> simp [Txn.holds, Txn.intents, Txn.snapshots, reached]
  · rename_i reached
    cases stepped
    apply Effect.move
    apply moves_stage <;> simp [Txn.holds, Txn.intents, Txn.snapshots, reached]
  · cases stepped

/-- Every step that respects the reads has one of the effects. -/
theorem effect_of_step {action : Action Key Value Tid}
    (permitted : ReadsRespected config state action)
    (stepped : step config state action = some after) : Effect config state after := by
  cases action with
  | begin => exact effect_begin stepped
  | read => exact effect_read stepped
  | readVerb => exact effect_readVerb stepped
  | readAgainVerb => exact effect_readAgainVerb stepped
  | publish => exact effect_publish stepped
  | write => exact effect_write stepped
  | headerVerb => exact effect_headerVerb stepped
  | lockVerb => exact effect_lockVerb permitted stepped
  | lockReadVerb => exact effect_lockReadVerb stepped
  | modify => exact effect_modify stepped
  | commit => exact effect_commit stepped
  | abort => exact effect_abort stepped
  | updateVerb => exact effect_updateVerb stepped
  | releaseVerb => exact effect_releaseVerb stepped
  | finish => exact effect_finish stepped

end Rocc.Mvcc.OneSided
