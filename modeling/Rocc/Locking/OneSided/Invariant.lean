import Rocc.Locking.OneSided.Model

/-!
# Ownership and values under one-sided two-phase locking

`Txn.claims` reads off the sets and the stage of a transaction which locks it holds.
`TxnOk` says that the markers in the buffers agree with that, so that a release posts
an unlock for every lock held and for no other, and that a transaction which holds a
lock has the current value of the record in its buffer.
-/

set_option linter.unusedSectionVars false

namespace Rocc.Locking.OneSided

open Rtx

universe u v w x

variable {Key : Type u} {Value : Type v} {Tid : Type w} {Owner : Type x}
variable [DecidableEq Key] [DecidableEq Tid] [DecidableEq Owner]

/-! ## What a transaction holds -/

/-- The transaction has not started to release. -/
def Stage.Growing : Stage Key Value → Prop
  | .idle => True
  | .execute => True
  | .lock _ => True
  | .lockRead _ => True
  | _ => False

/-- The items of a list, each with the type of its lock. -/
def tagged (type : LockType) (items : List (Item Key Value)) :
    List (Item Key Value × LockType) :=
  items.map (·, type)

/-- All items of both sets. -/
def Txn.items (txn : Txn Key Value) : List (Item Key Value × LockType) :=
  tagged .read txn.readSet ++ tagged .write txn.writeSet

/-- The items of the set that a request of this type does not touch. -/
def Txn.others (txn : Txn Key Value) : LockType → List (Item Key Value × LockType)
  | .read => tagged .write txn.writeSet
  | .write => tagged .read txn.readSet

/-- All items but the one that is being locked. -/
def Txn.without (txn : Txn Key Value) (type : LockType) :
    List (Item Key Value × LockType) :=
  tagged type (txn.set type).dropLast ++ txn.others type

/-- The item being locked, once its compare-and-swap has found 0. -/
def Txn.granted (txn : Txn Key Value) (type : LockType) :
    List (Item Key Value × LockType) :=
  tagged type ((txn.set type).getLast?.toList.filter (·.lock = 0))

/-- Items of a growing transaction whose lock request has returned true. -/
def Txn.kept (txn : Txn Key Value) : List (Item Key Value × LockType) :=
  match txn.stage with
  | .execute => txn.items
  | .lock type => txn.without type
  | .lockRead type => txn.without type
  | _ => []

/-- Record and type of the locks of some items. -/
def locksOf (items : List (Item Key Value × LockType)) : List (Key × LockType) :=
  items.map fun entry => (entry.1.key, entry.2)

/-- Locks a transaction holds. -/
def Txn.claims (txn : Txn Key Value) : List (Key × LockType) :=
  match txn.stage with
  | .idle => []
  | .execute => locksOf txn.items
  | .lock type => locksOf (txn.without type)
  | .lockRead type => locksOf (txn.granted type ++ txn.without type)
  | .releaseReads posted allWrites =>
      posted.map (·, .read) ++ locksOf (tagged .write (chosen allWrites txn.writeSet))
  | .releaseWrites posted => posted.map (·, .write)
  | .writeBack posted =>
      locksOf (tagged .write (posted.map (·.1))) ++ locksOf (tagged .read txn.readSet)
  | .releaseCommitted posted => posted.map (·, .read)
  | .finished _ => []

/-- Record and type of the unlocks that have been posted and have not completed. -/
def Txn.unlocking (txn : Txn Key Value) : List (Key × LockType) :=
  match txn.stage with
  | .releaseReads posted _ => posted.map (·, .read)
  | .releaseWrites posted => posted.map (·, .write)
  | .writeBack posted => locksOf (tagged .write (posted.map (·.1)))
  | .releaseCommitted posted => posted.map (·, .read)
  | _ => []

/-- Record and word of each claim. -/
def Config.claims (config : Config Key Tid Owner) (tid : Tid) (txn : Txn Key Value) :
    List (Key × Nat) :=
  txn.claims.map fun claim => (claim.1, config.word tid claim.2)

/-- The accounts of who holds what. -/
def State.books (config : Config Key Tid Owner) (state : State Key Value Tid) :
    Books Tid Key :=
  .ofClaims (Config.claims config) (fun txn => txn.stage.Growing)
    (fun key => (state.records key).lock) state.txns state.events

/-- An item whose value the transaction still has to store. -/
def Txn.Owes (txn : Txn Key Value) (item : Item Key Value) : Prop :=
  ∃ posted, txn.stage = .writeBack posted ∧ (item, false) ∈ posted

/-- A committed transaction still has to store this value. -/
def Owed (txns : Tid → Txn Key Value) (key : Key) (data : Value) : Prop :=
  ∃ tid item, (txns tid).Owes item ∧ item.key = key ∧ item.data = data

/-- Footprints of the committed transactions, in the order of their commits. -/
def footprints (txns : Tid → Txn Key Value) (order : List Tid) :
    List (Footprint Key Value) :=
  order.map fun tid => (txns tid).footprint

/-! ## The invariant -/

/-- What holds of one transaction. -/
structure TxnOk (records : Key → Record Value) (txn : Txn Key Value) : Prop where
  requests : ∀ type, txn.stage = .lock type ∨ txn.stage = .lockRead type →
    ∃ items item, txn.set type = items ++ [item] ∧
      ∀ entry ∈ txn.without type, entry.1.key ≠ item.key
  kept : ∀ entry ∈ txn.kept, entry.1.lock = lockedMarker ∧
    entry.1.value = (records entry.1.key).value
  writes : ∀ posted allWrites, txn.stage = .releaseReads posted allWrites →
    ∀ item ∈ chosen allWrites txn.writeSet, item.lock = lockedMarker
  reads : ∀ posted, txn.stage = .writeBack posted →
    ∀ item ∈ txn.readSet, item.lock = lockedMarker
  keys_nodup : txn.Decided → ((txn.readSet ++ txn.writeSet).map (·.key)).Nodup

variable (config : Config Key Tid Owner)

/-- The invariant of both protocols. -/
structure Inv (value₀ : Key → Value) (state : State Key Value Tid) : Prop where
  books : (state.books config).Balanced config.Belongs
  handover : Handover state.events
  txns : ∀ tid, TxnOk state.records (state.txns tid)
  members : ∀ tid, tid ∈ state.commitOrder ↔ (state.txns tid).Decided
  nodup : state.commitOrder.Nodup
  deferred : Deferred value₀ (footprints state.txns state.commitOrder)
    (fun key => (state.records key).value) (Owed state.txns)
  conflicts : ∀ first second, first ∈ state.commitOrder → second ∈ state.commitOrder →
    first ≠ second → Conflict state.events first second →
      List.Sublist [first, second] state.commitOrder

variable {config} {value₀ : Key → Value} {state : State Key Value Tid} {tid : Tid}
variable {txn : Txn Key Value}

theorem inv_initial (value : Key → Value) (seq : Key → Nat) :
    Inv config value (State.initial value seq : State Key Value Tid) where
  books := Ledger.initial _ _ (fun _ => rfl) (fun _ => rfl)
  handover := List.Pairwise.nil
  txns tid := by
    constructor <;> simp [State.initial, Txn.kept, Txn.Decided]
  members tid := by simp [State.initial, Txn.Decided]
  nodup := List.nodup_nil
  deferred := by
    apply Deferred.initial
    rintro key data ⟨tid, item, ⟨posted, writing, -⟩, -⟩
    simp [State.initial] at writing
  conflicts first _ member := by simp [State.initial] at member

/-! ## Stages and the log -/

theorem Stage.Growing.not_decided (grows : txn.stage.Growing) : ¬ txn.Decided := by
  cases stage : txn.stage <;> simp_all [Stage.Growing, Txn.Decided]

theorem Stage.Growing.not_owes (grows : txn.stage.Growing) (item : Item Key Value) :
    ¬ txn.Owes item := by
  rintro ⟨posted, writing, -⟩
  rw [writing] at grows
  exact grows

theorem not_owes_of_stage (notWriting : ∀ posted, txn.stage ≠ .writeBack posted)
    (item : Item Key Value) : ¬ txn.Owes item := by
  rintro ⟨posted, writing, -⟩
  exact notWriting posted writing

/-- Footprints do not change when a transaction outside the log does, or when its
footprint stays the same. -/
theorem footprints_update {txns : Tid → Txn Key Value} {order : List Tid}
    (same : tid ∈ order → txn.footprint = (txns tid).footprint) :
    footprints (Function.update txns tid txn) order = footprints txns order := by
  apply List.map_congr_left
  intro other member
  rcases eq_or_ne other tid with rfl | different
  · simpa using same member
  · simp [different]

theorem owed_update {txns : Tid → Txn Key Value}
    (same : ∀ item, txn.Owes item ↔ (txns tid).Owes item) (key : Key) (data : Value) :
    Owed (Function.update txns tid txn) key data ↔ Owed txns key data := by
  have owes : ∀ other item, (Function.update txns tid txn other).Owes item ↔
      (txns other).Owes item := by
    intro other item
    rcases eq_or_ne other tid with rfl | different
    · simpa using same item
    · simp [different]
  simp only [Owed, owes]

/-! ## Frame lemmas -/

/-- A transaction that does not move keeps its invariant when the records it has fetched
keep their values. -/
theorem TxnOk.of_values {records records' : Key → Record Value} (ok : TxnOk records txn)
    (same : ∀ entry ∈ txn.kept,
      (records' entry.1.key).value = (records entry.1.key).value) : TxnOk records' txn :=
  { ok with
    kept := fun entry member =>
      ⟨(ok.kept entry member).1, (ok.kept entry member).2.trans (same entry member).symm⟩ }

/-- One transaction moves and none is decided. -/
theorem Inv.update (inv : Inv config value₀ state) {records : Key → Record Value}
    {events : List (LockEvent Tid Key)}
    (moved : Books.Step config.Belongs tid (state.books config) (State.books config
      { state with records, txns := Function.update state.txns tid txn, events }))
    (own : TxnOk records txn)
    (sameValues : ∀ other, other ≠ tid → ∀ entry ∈ (state.txns other).kept,
      (records entry.1.key).value = (state.records entry.1.key).value)
    (decided : txn.Decided ↔ (state.txns tid).Decided)
    (deferred : Deferred value₀
      (footprints (Function.update state.txns tid txn) state.commitOrder)
      (fun key => (records key).value) (Owed (Function.update state.txns tid txn))) :
    Inv config value₀
      { state with records, txns := Function.update state.txns tid txn, events } where
  books := moved.balanced config.lockWords inv.books
  handover := moved.handover config.lockWords inv.books inv.handover
  txns other := by
    simp only
    rcases eq_or_ne other tid with rfl | different
    · rwa [Function.update_self]
    · rw [Function.update_of_ne different]
      exact (inv.txns other).of_values (sameValues other different)
  members other := by
    simp only [inv.members]
    rcases eq_or_ne other tid with rfl | different
    · rw [Function.update_self]
      exact decided.symm
    · rw [Function.update_of_ne different]
  nodup := inv.nodup
  deferred := deferred
  conflicts := by
    intro first second firstMember secondMember different conflict
    rcases moved.conflict conflict with earlier | ⟨rfl, grows⟩
    · exact inv.conflicts first second firstMember secondMember different earlier
    · exact absurd ((inv.members second).mp secondMember) (Stage.Growing.not_decided grows)

/-- A step that stores no value and decides nothing. -/
theorem Inv.frame (inv : Inv config value₀ state) {records : Key → Record Value}
    {events : List (LockEvent Tid Key)}
    (moved : Books.Step config.Belongs tid (state.books config) (State.books config
      { state with records, txns := Function.update state.txns tid txn, events }))
    (own : TxnOk state.records txn)
    (sameValue : ∀ key, (records key).value = (state.records key).value)
    (decided : txn.Decided ↔ (state.txns tid).Decided)
    (footprint : txn.Decided → txn.footprint = (state.txns tid).footprint)
    (owes : ∀ item, txn.Owes item ↔ (state.txns tid).Owes item) :
    Inv config value₀
      { state with records, txns := Function.update state.txns tid txn, events } := by
  refine inv.update moved ?_ ?_ decided ?_
  · exact own.of_values fun entry _ => sameValue entry.1.key
  · exact fun _ _ entry _ => sameValue entry.1.key
  · rw [footprints_update fun member => footprint (decided.mpr ((inv.members tid).mp member))]
    exact inv.deferred.frame sameValue (owed_update owes)

/-- A step of a growing transaction that stores no value. -/
theorem Inv.grow (inv : Inv config value₀ state) {records : Key → Record Value}
    {events : List (LockEvent Tid Key)}
    (moved : Books.Step config.Belongs tid (state.books config) (State.books config
      { state with records, txns := Function.update state.txns tid txn, events }))
    (own : TxnOk state.records txn)
    (sameValue : ∀ key, (records key).value = (state.records key).value)
    (grew : (state.txns tid).stage.Growing) (undecided : ¬ txn.Decided)
    (settled : ∀ item, ¬ txn.Owes item) :
    Inv config value₀
      { state with records, txns := Function.update state.txns tid txn, events } := by
  apply inv.frame moved own sameValue
  · exact iff_of_false undecided grew.not_decided
  · exact fun decided => absurd decided undecided
  · exact fun item => iff_of_false (settled item) (grew.not_owes item)

end Rocc.Locking.OneSided
