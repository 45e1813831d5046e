import Rocc.Base.Run
import Rocc.Locking.Model

/-!
# Lock ownership under two-phase locking

`Txn.claims` reads off the sets and the stage of a transaction which locks it
holds, in particular which items a release leaves out because their lock was
never granted.  `Inv` says that these claims, the lock words of the records and
the lock history form a ledger, and that the wait lists hold only requests whose
clients still wait for an answer.
-/

set_option linter.unusedSectionVars false

namespace Rocc.Locking

open Rtx

universe u v w

variable {Key : Type u} {Tid : Type v} {Owner : Type w}
variable [DecidableEq Key] [DecidableEq Tid] [DecidableEq Owner]

/-! ## Lock words -/

theorem rLease_mod (time : Nat) : rLease time % 512 = 0 := by
  simp only [rLease, wordBound]
  omega

/-- A transaction uses the word of a read lock and the word of a write lock. -/
def Config.Belongs (config : Config Key Tid Owner) (tid : Tid) (word : Nat) : Prop :=
  ∃ type, word = config.word tid type

/-- A word determines the transaction and the type of the lock. -/
theorem Config.word_injective (config : Config Key Tid Owner) {left right : Tid}
    {leftType rightType : LockType}
    (same : config.word left leftType = config.word right rightType) :
    left = right ∧ leftType = rightType := by
  have leftMod := rLease_mod (config.startTime left)
  have rightMod := rLease_mod (config.startTime right)
  cases leftType <;> cases rightType <;>
    simp only [Config.word, LockType.word] at same
  · exact ⟨config.lease_injective left right same, rfl⟩
  · omega
  · omega
  · exact ⟨config.lease_injective left right (by omega), rfl⟩

theorem Config.word_ne_zero (config : Config Key Tid Owner) (tid : Tid)
    (type : LockType) : config.word tid type ≠ 0 := by
  have lease := config.lease_ne_zero tid
  cases type <;> simp only [Config.word, LockType.word]
  · exact lease
  · omega

theorem Config.lockWords (config : Config Key Tid Owner) : LockWords config.Belongs where
  ne_zero := by
    rintro tid word ⟨type, rfl⟩
    exact config.word_ne_zero tid type
  unique := by
    rintro left right word ⟨leftType, rfl⟩ ⟨rightType, same⟩
    exact (config.word_injective same).1

/-! ## What a transaction holds -/

/-- The transaction has not started to release. -/
def Stage.Growing : Stage Key → Prop
  | .idle => True
  | .execute => True
  | .request _ _ _ => True
  | _ => False

/-- Items of a message or set, each with the type of its lock. -/
def tagged (type : LockType) (items : List (ReadSetItem Key)) :
    List (ReadSetItem Key × LockType) :=
  items.map fun item => (item, type)

/-- Locks a transaction holds.  The last item of a set whose request is not
answered yet is not one of them. -/
def Txn.claims (txn : Txn Key) : List (ReadSetItem Key × LockType) :=
  match txn.stage with
  | .idle => []
  | .execute => tagged .read txn.readSet ++ tagged .write txn.writeSet
  | .request .read _ _ => tagged .read txn.readSet.dropLast ++ tagged .write txn.writeSet
  | .request .write _ _ => tagged .read txn.readSet ++ tagged .write txn.writeSet.dropLast
  | .releaseReads pending writes => tagged .read pending ++ tagged .write writes
  | .releaseWrites pending => tagged .write pending
  | .writeBack pending => tagged .write pending ++ tagged .read txn.readSet
  | .releaseCommitted pending => tagged .read pending
  | .finished _ => []

/-- Items of the release or commit message a transaction has in flight. -/
def Txn.inFlight (txn : Txn Key) : List (ReadSetItem Key × LockType) :=
  match txn.stage with
  | .releaseReads pending _ => tagged .read pending
  | .releaseWrites pending => tagged .write pending
  | .writeBack pending => tagged .write pending
  | .releaseCommitted pending => tagged .read pending
  | _ => []

/-- Key and word of each claim. -/
def Config.claims (config : Config Key Tid Owner) (tid : Tid) (txn : Txn Key) :
    List (Key × Nat) :=
  txn.claims.map fun claim => (claim.1.key, config.word tid claim.2)

/-- The set of the requested type ends with the item that is being locked. -/
def Txn.Requests (txn : Txn Key) : Prop :=
  match txn.stage with
  | .request .read key _ => ∃ items, txn.readSet = items ++ [.fresh key]
  | .request .write key _ => ∃ items, txn.writeSet = items ++ [.fresh key]
  | _ => True

/-! ## The invariant -/

variable (config : Config Key Tid Owner)

/-- Every waiter stands for a client that waits for this answer, in the list of
its server, once. -/
structure WaitOk (txns : Tid → Txn Key)
    (waitLists : Nat × Nat → List (Waiter Key Tid)) : Prop where
  queued : ∀ server, ∀ waiter ∈ waitLists server,
    (txns waiter.tid).stage = .request waiter.type waiter.key true ∧
      server = config.server waiter.tid waiter.key
  nodup : ∀ server, ((waitLists server).map (·.tid)).Nodup

/-- Ownership of all locks in a state. -/
abbrev State.Ledger (state : State Key Tid Owner) : Prop :=
  Rocc.Ledger config.Belongs (fun key => (state.records key).lock)
    (fun tid => config.claims tid (state.txns tid))
    (fun tid => (state.txns tid).stage.Growing) state.events

/-- The invariant of both protocols. -/
structure Inv (state : State Key Tid Owner) : Prop where
  ledger : state.Ledger config
  requests : ∀ tid, (state.txns tid).Requests
  waiting : WaitOk config state.txns state.waitLists

variable {config} {state after : State Key Tid Owner} {tid : Tid} {txn : Txn Key}

theorem inv_initial (database : Database config) (seq : Key → Nat)
    (replyBuf : Owner → Bytes) : Inv config (State.initial database seq replyBuf) where
  ledger := Ledger.initial _ _ (fun _ => rfl) (fun _ => rfl)
  requests _ := trivial
  waiting := by
    constructor
    · intro server waiter member
      simp [State.initial] at member
    · intro server
      simp [State.initial]

/-! ## Frame lemmas -/

/-- Moving a transaction that no wait list mentions. -/
theorem WaitOk.setTxn {txns : Tid → Txn Key}
    {waitLists waitLists' : Nat × Nat → List (Waiter Key Tid)}
    (ok : WaitOk config txns waitLists)
    (kept : ∀ server, ∀ waiter ∈ waitLists' server,
      waiter ∈ waitLists server ∧ waiter.tid ≠ tid)
    (nodup : ∀ server, ((waitLists' server).map (·.tid)).Nodup) :
    WaitOk config (Function.update txns tid txn) waitLists' where
  queued := by
    intro server waiter member
    obtain ⟨member, different⟩ := kept server waiter member
    rw [Function.update_of_ne different]
    exact ok.queued server waiter member
  nodup := nodup

/-- No wait list mentions a transaction that is not queued. -/
theorem WaitOk.unqueued {txns : Tid → Txn Key}
    {waitLists : Nat × Nat → List (Waiter Key Tid)} (ok : WaitOk config txns waitLists)
    (notQueued : ∀ type key, (txns tid).stage ≠ .request type key true) :
    ∀ server, ∀ waiter ∈ waitLists server,
      waiter ∈ waitLists server ∧ waiter.tid ≠ tid := by
  intro server waiter member
  refine ⟨member, ?_⟩
  rintro rfl
  exact notQueued _ _ (ok.queued server waiter member).1

/-- The requests of the other transactions do not change. -/
theorem requests_update {txns : Tid → Txn Key} (old : ∀ other, (txns other).Requests)
    (new : txn.Requests) : ∀ other, (Function.update txns tid txn other).Requests := by
  intro other
  rcases eq_or_ne other tid with rfl | different
  · simpa using new
  · simpa [different] using old other

/-- A step of one transaction that changes no lock. -/
theorem Inv.frame (inv : Inv config state) {records : Key → Record Bytes}
    {waitLists : Nat × Nat → List (Waiter Key Tid)}
    {running : Owner → Option Tid} {replyBuf : Owner → Bytes} {commitOrder : List Tid}
    (sameLock : ∀ key, (records key).lock = (state.records key).lock)
    (sameClaims : (config.claims tid txn).Perm (config.claims tid (state.txns tid)))
    (stillGrowing : txn.stage.Growing → (state.txns tid).stage.Growing)
    (requests : txn.Requests)
    (waiting : WaitOk config (Function.update state.txns tid txn) waitLists) :
    Inv config { state with
      records, waitLists, txns := Function.update state.txns tid txn, running, replyBuf,
      commitOrder } where
  ledger := by
    apply Ledger.frame inv.ledger sameLock
    · intro other
      rcases eq_or_ne other tid with rfl | different
      · simpa using sameClaims
      · simp [different]
    · intro other
      rcases eq_or_ne other tid with rfl | different
      · simpa using stillGrowing
      · simp [different]
  requests := requests_update inv.requests requests
  waiting := waiting

/-- A step in which a growing transaction takes a free lock. -/
theorem Inv.acquire (inv : Inv config state) {record : Record Bytes}
    {waitLists : Nat × Nat → List (Waiter Key Tid)} {replyBuf : Owner → Bytes}
    {key : Key} {item : ReadSetItem Key} {type : LockType}
    (free : (state.records key).lock = 0) (grows : (state.txns tid).stage.Growing)
    (taken : record.lock = config.word tid type) (itemKey : item.key = key)
    (added : txn.claims.Perm ((item, type) :: (state.txns tid).claims))
    (requests : txn.Requests)
    (waiting : WaitOk config (Function.update state.txns tid txn) waitLists) :
    Inv config { state with
      records := Function.update state.records key record, waitLists,
      txns := Function.update state.txns tid txn, replyBuf,
      events := state.events ++ [.acquired tid key (config.word tid type)] } where
  ledger := by
    apply Ledger.acquire inv.ledger config.lockWords free grows ⟨type, rfl⟩
    · simpa using taken
    · intro other different
      simp [different]
    · simpa [Config.claims, itemKey] using
        added.map fun claim => (claim.1.key, config.word tid claim.2)
    · intro other different
      simp [different]
    · intro other
      rcases eq_or_ne other tid with rfl | different
      · exact fun _ => grows
      · simp [different]
  requests := requests_update inv.requests requests
  waiting := waiting

/-- A step in which a transaction gives a lock back. -/
theorem Inv.release (inv : Inv config state) {record : Record Bytes}
    {item : ReadSetItem Key} {type : LockType} (freed : record.lock = 0)
    (removed : (state.txns tid).claims.Perm ((item, type) :: txn.claims))
    (shrinks : ¬ txn.stage.Growing) (shrunk : ¬ (state.txns tid).stage.Growing)
    (requests : txn.Requests) :
    Inv config { state with
      records := Function.update state.records item.key record,
      txns := Function.update state.txns tid txn,
      events := state.events ++ [.released tid item.key (config.word tid type)] } where
  ledger := by
    apply Ledger.release inv.ledger config.lockWords
    · simpa using freed
    · intro other different
      simp [different]
    · simpa [Config.claims] using
        removed.map fun claim => (claim.1.key, config.word tid claim.2)
    · intro other different
      simp [different]
    · intro other
      rcases eq_or_ne other tid with rfl | different
      · simpa using fun grows => absurd grows shrinks
      · simp [different]
    · simpa using shrinks
  requests := requests_update inv.requests requests
  waiting := by
    apply inv.waiting.setTxn _ inv.waiting.nodup
    apply inv.waiting.unqueued
    intro requested key same
    exact shrunk (by simp [same, Stage.Growing])

end Rocc.Locking
