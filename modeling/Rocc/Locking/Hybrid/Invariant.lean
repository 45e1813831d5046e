import Rocc.Locking.Hybrid.Model

/-!
# Items, their buffers and the locks behind them

`Held` says what a granted lock leaves in its item, in every build.  A release or a commit
gives the lock of such an item back when the word it uses is the word that was stored, or
nobody compares the two; `Cond` asks for this where an abort or a commit begins.  `Txn.claims`
reads off a transaction which lock words are its own.
-/

set_option linter.unusedSectionVars false

namespace Rocc.Locking.Hybrid

open Rtx OneSided

universe u v

variable {Key : Type u} {Tid : Type v} [DecidableEq Key] [DecidableEq Tid]

/-! ## The condition on steps -/

/-- The release of the write set finds the word of a write lock, or leaves the word to a
machine that does not look at it. -/
def Releasable (config : Config Key Tid) (tid : Tid) (item : ReadSetItem Key) : Prop :=
  item.granted = some .write ∨
    config.isLocal tid item.pid = false ∧
      (config.build.release = true ∨ config.protocol = .waitdie)

/-- The write-back finds the record on another machine and the buffer it needs. -/
def Writable (config : Config Key Tid) (tid : Tid) (item : ReadSetItem Key) : Prop :=
  config.isLocal tid item.pid = false ∧
    (config.build.commit = true →
      config.build.lock = true ∨ config.build.release = true ∨ item.granted = some .write)

/-- The steps that take no item through a path that was made for another kind of item: nobody
reads table 7, one-sided locks are for other machines, an abort finds a write set it can
release and a commit one it can write back. -/
def Cond (config : Config Key Tid) (state : State Key Tid) : Action Key Tid → Prop
  | .read tid pid key _ _ =>
      config.tableid key ≠ itemTable ∧
        (config.build.lock = true → config.isLocal tid pid = false)
  | .write tid pid _ _ _ => config.build.lock = true → config.isLocal tid pid = false
  | .abort tid =>
      match (state.txns tid).stage with
      | .refused type => ∀ item ∈ (state.txns tid).keptWrites type, Releasable config tid item
      | _ => True
  | .commit tid true => ∀ item ∈ (state.txns tid).writeSet, Writable config tid item
  | .commit tid false => ∀ item ∈ (state.txns tid).writeSet, Releasable config tid item
  | _ => True

instance (config : Config Key Tid) (tid : Tid) (item : ReadSetItem Key) :
    Decidable (Releasable config tid item) :=
  inferInstanceAs (Decidable (_ ∨ _))

instance (config : Config Key Tid) (tid : Tid) (item : ReadSetItem Key) :
    Decidable (Writable config tid item) :=
  inferInstanceAs (Decidable (_ ∧ _))

instance (config : Config Key Tid) (state : State Key Tid) (action : Action Key Tid) :
    Decidable (Cond config state action) :=
  match action with
  | .read _ _ _ _ _ => inferInstanceAs (Decidable (_ ∧ _))
  | .write _ _ _ _ _ => inferInstanceAs (Decidable (_ → _))
  | .abort tid =>
      match found : (state.txns tid).stage with
      | .refused type =>
          decidable_of_iff
            (∀ item ∈ (state.txns tid).keptWrites type, Releasable config tid item)
            (by simp only [Cond, found])
      | .idle | .execute | .request .. | .lockRead .. | .walk .. | .wait .. | .finished ..
      | .halted => isTrue (by simp only [Cond, found])
  | .commit _ true => inferInstanceAs (Decidable (∀ _ ∈ _, _))
  | .commit _ false => inferInstanceAs (Decidable (∀ _ ∈ _, _))
  | .begin _ | .addToWrite .. | .modify .. | .lockItem _ | .lockRead _ | .notify _
  | .walkItem _ | .walkEnd _ | .deliver .. | .resume _ => isTrue trivial

/-! ## What a granted lock leaves in its item -/

/-- An item whose lock has been taken with this type. -/
structure Held (config : Config Key Tid) (tid : Tid) (type : LockType)
    (item : ReadSetItem Key) : Prop where
  granted : item.granted = some type
  data : item.data.isSome
  near : config.isLocal tid item.pid = true → item.node = true ∧ config.build.lock = false
  far : config.isLocal tid item.pid = false →
    item.header = (if config.build.headers type then some lockedMarker else none) ∧
      item.node = config.build.headers type

/-- Items the loop of a release of this type gives back. -/
def Releasing (config : Config Key Tid) (tid : Tid) (type : LockType)
    (items : List (ReadSetItem Key)) : Prop :=
  ∀ item ∈ items, ∃ held, Held config tid held item ∧
    (held = type ∨ config.isLocal tid item.pid = false ∧
      (config.build.release = true ∨ config.protocol = .waitdie))

/-- Items the loop of a write-back gives back. -/
def Committing (config : Config Key Tid) (tid : Tid) (items : List (ReadSetItem Key)) :
    Prop :=
  ∀ item ∈ items, ∃ held, Held config tid held item ∧ config.isLocal tid item.pid = false ∧
    (config.build.commit = true → config.build.headers held = true)

/-- The items of an executing transaction. -/
structure Locked (config : Config Key Tid) (tid : Tid)
    (reads writes : List (ReadSetItem Key)) : Prop where
  reads : ∀ item ∈ reads, Held config tid .read item
  writes : ∀ item ∈ writes, ∃ type, Held config tid type item

/-- An item whose lock has not been taken yet. -/
structure Fresh (config : Config Key Tid) (tid : Tid) (type : LockType)
    (item : ReadSetItem Key) : Prop where
  data : item.data.isSome
  near : config.isLocal tid item.pid = true → item.node = true ∧ config.build.lock = false
  far : config.isLocal tid item.pid = false →
    item.header.isSome = config.build.headers type ∧ item.node = config.build.headers type

/-- What is left of a phase. -/
def PhaseOk (config : Config Key Tid) (tid : Tid) (phase : Phase Key)
    (todo : List (ReadSetItem Key)) : Prop :=
  match phase with
  | .releaseReads writes =>
      Releasing config tid .read todo ∧ Releasing config tid .write writes
  | .releaseWrites => Releasing config tid .write todo
  | .writeBack reads => Committing config tid todo ∧ Releasing config tid .read reads
  | .releaseCommitted => Releasing config tid .read todo

/-- What has been posted can take effect. -/
def PostOk (config : Config Key Tid) (post : Post Key) : Prop :=
  ∃ held, post.item.granted = some held ∧
    match post.kind with
    | .release type => held = type ∨ config.protocol = .waitdie
    | .commit => post.item.data.isSome
    | .write => post.item.data.isSome
    | .unlock => True

/-- What holds of the sets of a transaction in each stage. -/
def StageOk (config : Config Key Tid) (tid : Tid) (txn : Txn Key) : Prop :=
  match txn.stage with
  | .idle => txn.readSet = [] ∧ txn.writeSet = []
  | .execute => Locked config tid txn.readSet txn.writeSet
  | .request type queued =>
      Locked config tid (txn.keptReads type) (txn.keptWrites type) ∧
        ∃ item, (txn.set type).getLast? = some item ∧ item.granted = none ∧
          Fresh config tid type item ∧ (queued = true →
            config.build.lock = false ∧ config.isLocal tid item.pid = false)
  | .lockRead type =>
      Locked config tid (txn.keptReads type) (txn.keptWrites type) ∧
        config.build.lock = true ∧
        ∃ item found, (txn.set type).getLast? = some item ∧ item.header = some found ∧
          item.granted = (if found = 0 then some type else none) ∧
            Fresh config tid type item
  | .refused type =>
      Locked config tid (txn.keptReads type) (txn.keptWrites type) ∧
        ∃ item, (txn.set type).getLast? = some item ∧ item.granted = none
  | .walk phase todo => PhaseOk config tid phase todo
  | .wait phase => PhaseOk config tid phase []
  | .finished _ => txn.posts = []
  | .halted => False

/-! ## What a transaction holds -/

/-- The transaction has not started to release. -/
def Stage.Growing : Stage Key → Prop
  | .walk _ _ => False
  | .wait _ => False
  | .finished _ => False
  | .halted => False
  | _ => True

/-- The items the next loop of a transaction is for. -/
def Phase.rest : Phase Key → List (ReadSetItem Key)
  | .releaseReads writes => writes
  | .releaseWrites => []
  | .writeBack reads => reads
  | .releaseCommitted => []

/-- Items no loop has dealt with. -/
def Txn.holding (txn : Txn Key) : List (ReadSetItem Key) :=
  match txn.stage with
  | .walk phase todo => todo ++ phase.rest
  | .wait phase => phase.rest
  | .finished _ => []
  | .halted => []
  | _ => txn.readSet ++ txn.writeSet

/-- The post clears the lock word of its record. -/
def PostKind.clears : PostKind → Bool
  | .release _ => true
  | .commit => true
  | .write => false
  | .unlock => true

/-- Items whose lock words the posts of a transaction are going to clear. -/
def clearing (posts : List (Post Key)) : List (ReadSetItem Key) :=
  (posts.filter (·.kind.clears)).map (·.item)

/-- Record and lock word of an item whose lock has been taken. -/
def Config.claim (config : Config Key Tid) (tid : Tid) (item : ReadSetItem Key) :
    Option ((Nat × Key) × Nat) :=
  item.granted.map fun type => (item.place, config.word tid type)

/-- Records and lock words of some items. -/
def Config.claimsOf (config : Config Key Tid) (tid : Tid) (items : List (ReadSetItem Key)) :
    List ((Nat × Key) × Nat) :=
  items.filterMap (config.claim tid)

/-- Records and lock words a transaction holds. -/
def Config.claims (config : Config Key Tid) (tid : Tid) (txn : Txn Key) :
    List ((Nat × Key) × Nat) :=
  config.claimsOf tid (txn.holding ++ clearing txn.posts)

/-- The word belongs to the transaction. -/
def Config.Belongs (config : Config Key Tid) (tid : Tid) (word : Nat) : Prop :=
  config.words.Belongs tid word

theorem Config.lockWords (config : Config Key Tid) : LockWords config.Belongs :=
  Locking.Config.lockWords config.words

theorem Config.word_ne_zero (config : Config Key Tid) (tid : Tid) (type : LockType) :
    config.word tid type ≠ 0 :=
  Locking.Config.word_ne_zero config.words tid type

/-- The accounts of who holds what. -/
def State.books (config : Config Key Tid) (state : State Key Tid) : Books Tid (Nat × Key) :=
  .ofClaims config.claims (fun txn => txn.stage.Growing)
    (fun place => (state.records place).lock) state.txns state.events

/-- What holds of one transaction. -/
structure TxnOk (config : Config Key Tid) (tid : Tid) (txn : Txn Key) : Prop where
  stage : StageOk config tid txn
  posts : ∀ post ∈ txn.posts, PostOk config post
  quiet : txn.stage.Growing → txn.posts = []

/-- The invariant of the hybrid builds. -/
structure Inv (config : Config Key Tid) (state : State Key Tid) : Prop where
  books : (state.books config).Balanced config.Belongs
  txns : ∀ tid, TxnOk config tid (state.txns tid)

theorem inv_initial (config : Config Key Tid) (value : Nat × Key → Bytes)
    (seq : Nat × Key → Nat) (replyBuf : Tid → Bytes) :
    Inv config (State.initial value seq replyBuf) where
  books := Ledger.initial _ _ (fun _ => rfl) (fun _ => rfl)
  txns tid := by
    constructor
    · exact ⟨rfl, rfl⟩
    · simp [State.initial]
    · exact fun _ => rfl

variable {config : Config Key Tid} {state after : State Key Tid} {tid : Tid}
variable {txn : Txn Key} {item : ReadSetItem Key} {type held : LockType}

/-! ## Steps on the books -/

@[simp] theorem claimsOf_nil : config.claimsOf tid [] = [] := rfl

@[simp] theorem claimsOf_append (left right : List (ReadSetItem Key)) :
    config.claimsOf tid (left ++ right) =
      config.claimsOf tid left ++ config.claimsOf tid right :=
  List.filterMap_append

theorem claimsOf_cons (item : ReadSetItem Key) (items : List (ReadSetItem Key)) :
    config.claimsOf tid (item :: items) =
      (config.claim tid item).toList ++ config.claimsOf tid items := by
  cases granted : config.claim tid item <;> simp [Config.claimsOf, granted]

@[simp] theorem claimsOf_singleton (item : ReadSetItem Key) :
    config.claimsOf tid [item] = (config.claim tid item).toList := by
  simp [claimsOf_cons]

theorem claim_of_granted (granted : item.granted = some type) :
    config.claim tid item = some (item.place, config.word tid type) := by
  simp [Config.claim, granted]

theorem claim_of_not_granted (free : item.granted = none) : config.claim tid item = none := by
  simp [Config.claim, free]

/-- A granted item among the claims of a transaction has its word in the lock. -/
theorem Inv.lock_eq (inv : Inv config state) (granted : item.granted = some type)
    (member : item ∈ (state.txns tid).holding ++ clearing (state.txns tid).posts) :
    (state.records item.place).lock = config.word tid type ∧
      Owns state.events tid item.place (config.word tid type) := by
  have claimed : (item.place, config.word tid type) ∈ config.claims tid (state.txns tid) :=
    List.mem_filterMap.mpr ⟨item, member, claim_of_granted granted⟩
  exact ⟨inv.books.held tid _ claimed, (inv.books.owns tid _ _).mp claimed⟩

/-- One transaction moves on the books and keeps its own invariant. -/
theorem Inv.update (inv : Inv config state) {records : Nat × Key → Record Bytes}
    {replyBuf : Tid → Bytes} {events : List (LockEvent Tid (Nat × Key))}
    (moved : Books.Step config.Belongs tid (state.books config) (State.books config
      { records, txns := Function.update state.txns tid txn, replyBuf, events }))
    (own : TxnOk config tid txn) :
    Inv config { records, txns := Function.update state.txns tid txn, replyBuf, events } where
  books := moved.balanced config.lockWords inv.books
  txns other := by
    rcases eq_or_ne other tid with rfl | different
    · simpa using own
    · simpa [different] using inv.txns other

end Rocc.Locking.Hybrid
