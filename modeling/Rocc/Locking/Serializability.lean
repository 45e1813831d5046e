import Rocc.Locking.Grants

/-!
# Serializability of `NOWAIT`

The committed transactions are serial in the order of their `commit` calls: at
that moment a transaction holds every lock it asked for, so the values it
buffered are the current ones.  `Values` keeps, next to the ledger, what the
replayed log says about every record: it is the value stored, except for records
a committed transaction still has to write back.
-/

set_option linter.unusedSectionVars false

namespace Rocc.Locking

open Rtx

universe u v w

variable {Key : Type u} {Tid : Type v} {Owner : Type w}
variable [DecidableEq Key] [DecidableEq Tid] [DecidableEq Owner]
variable {config : Config Key Tid Owner} {value₀ : Key → Bytes}
variable {state after : State Key Tid Owner} {tid : Tid} {txn : Txn Key}

/-- Footprints of the committed transactions, in the order of their commits. -/
def footprints (txns : Tid → Txn Key) (order : List Tid) : List (Footprint Key Bytes) :=
  order.map fun tid => (txns tid).footprint

/-- A committed transaction still has to write this value back. -/
def Pending (txns : Tid → Txn Key) (key : Key) (data : Bytes) : Prop :=
  ∃ tid item, (txns tid).Owes item ∧ item.key = key ∧ item.data = data

/-- What a transaction knows about values.  `records` are the records now. -/
structure TxnValues (records : Key → Record Bytes) (txn : Txn Key) : Prop where
  current : txn.stage.Growing → ∀ claim ∈ txn.claims,
    claim.1.locked = some (records claim.1.key).value
  locked : txn.Decided → ∀ item ∈ txn.readSet ++ txn.writeSet, item.locked ≠ none
  keys_nodup : txn.Decided → ((txn.readSet ++ txn.writeSet).map (·.key)).Nodup

/-- The log of committed transactions explains the records. -/
structure Values (value₀ : Key → Bytes) (state : State Key Tid Owner) : Prop where
  unqueued : ∀ server, state.waitLists server = []
  txns : ∀ tid, TxnValues state.records (state.txns tid)
  members : ∀ tid, tid ∈ state.commitOrder ↔ (state.txns tid).Decided
  nodup : state.commitOrder.Nodup
  serial : Serial value₀ (footprints state.txns state.commitOrder)
  pending : ∀ key data, Pending state.txns key data →
    replay value₀ (footprints state.txns state.commitOrder) key = data
  settled : ∀ key, (∀ data, ¬ Pending state.txns key data) →
    replay value₀ (footprints state.txns state.commitOrder) key = (state.records key).value

theorem values_initial (database : Database config) (seq : Key → Nat)
    (replyBuf : Owner → Bytes) :
    Values database.value (State.initial database seq replyBuf) where
  unqueued _ := rfl
  txns tid := by
    constructor <;> simp [State.initial, Txn.claims, Txn.Decided]
  members tid := by simp [State.initial, Txn.Decided]
  nodup := List.nodup_nil
  serial := trivial
  pending := by
    rintro key data ⟨tid, item, ⟨pending, writing, -⟩, -⟩
    simp [State.initial] at writing
  settled _ _ := rfl

/-! ## Frame lemmas -/

/-- Footprints do not change when a transaction outside the log does, or when its
sets stay the same. -/
theorem footprints_update {txns : Tid → Txn Key} {order : List Tid}
    (same : tid ∈ order → txn.footprint = (txns tid).footprint) :
    footprints (Function.update txns tid txn) order = footprints txns order := by
  apply List.map_congr_left
  intro other member
  rcases eq_or_ne other tid with rfl | different
  · simpa using same member
  · simp [different]

theorem pending_update {txns : Tid → Txn Key}
    (same : ∀ item, txn.Owes item ↔ (txns tid).Owes item) (key : Key) (data : Bytes) :
    Pending (Function.update txns tid txn) key data ↔ Pending txns key data := by
  have owes : ∀ other item, (Function.update txns tid txn other).Owes item ↔
      (txns other).Owes item := by
    intro other item
    rcases eq_or_ne other tid with rfl | different
    · simpa using same item
    · simp [different]
  simp only [Pending, owes]

/-- Locking and unlocking do not change what a transaction knows about values. -/
theorem TxnValues.of_same {records records' : Key → Record Bytes}
    (values : TxnValues records txn)
    (same : ∀ key, (records' key).value = (records key).value) :
    TxnValues records' txn where
  current grows claim member := by
    rw [same]
    exact values.current grows claim member
  locked := values.locked
  keys_nodup := values.keys_nodup

/-- A step of one transaction that stores no value and decides nothing. -/
theorem Values.frame (values : Values value₀ state)
    {records : Key → Record Bytes} {running : Owner → Option Tid}
    {replyBuf : Owner → Bytes} {events : List (LockEvent Tid Key)}
    (sameValue : ∀ key, (records key).value = (state.records key).value)
    (own : TxnValues state.records txn)
    (decided : txn.Decided ↔ (state.txns tid).Decided)
    (footprint : (state.txns tid).Decided →
      txn.footprint = (state.txns tid).footprint)
    (owes : ∀ item, txn.Owes item ↔ (state.txns tid).Owes item) :
    Values value₀ { state with
      records, txns := Function.update state.txns tid txn, running, replyBuf, events } := by
  have log : footprints (Function.update state.txns tid txn) state.commitOrder =
      footprints state.txns state.commitOrder :=
    footprints_update fun member => footprint ((values.members tid).mp member)
  constructor
  · exact values.unqueued
  · intro other
    rcases eq_or_ne other tid with rfl | different
    · simpa using own.of_same sameValue
    · simpa [different] using (values.txns other).of_same sameValue
  · intro other
    rw [values.members]
    rcases eq_or_ne other tid with rfl | different
    · simpa using decided.symm
    · simp [different]
  · exact values.nodup
  · rw [log]
    exact values.serial
  · intro key data isPending
    rw [log]
    exact values.pending key data ((pending_update owes key data).mp isPending)
  · intro key nothing
    rw [log]
    refine (values.settled key fun data isPending => ?_).trans (sameValue key).symm
    exact nothing data ((pending_update owes key data).mpr isPending)

/-- A growing transaction is not decided and writes nothing back. -/
theorem Stage.Growing.not_decided (grows : txn.stage.Growing) : ¬ txn.Decided := by
  cases stage : txn.stage <;> simp_all [Stage.Growing, Txn.Decided]

theorem Stage.Growing.not_owes (grows : txn.stage.Growing) (item : ReadSetItem Key) :
    ¬ txn.Owes item := by
  rintro ⟨pending, writing, -⟩
  rw [writing] at grows
  exact grows

/-- What a growing transaction has to know about values. -/
theorem TxnValues.of_growing {records : Key → Record Bytes} (grows : txn.stage.Growing)
    (current : ∀ claim ∈ txn.claims, claim.1.locked = some (records claim.1.key).value) :
    TxnValues records txn where
  current _ := current
  locked decided := absurd decided grows.not_decided
  keys_nodup decided := absurd decided grows.not_decided

/-- A step of a growing transaction that stores no value. -/
theorem Values.grow (values : Values value₀ state)
    {records : Key → Record Bytes} {running : Owner → Option Tid}
    {replyBuf : Owner → Bytes} {events : List (LockEvent Tid Key)}
    (sameValue : ∀ key, (records key).value = (state.records key).value)
    (grew : (state.txns tid).stage.Growing) (grows : txn.stage.Growing)
    (own : TxnValues state.records txn) :
    Values value₀ { state with
      records, txns := Function.update state.txns tid txn, running, replyBuf, events } := by
  apply values.frame sameValue own
  · exact iff_of_false grows.not_decided grew.not_decided
  · exact fun decided => absurd decided grew.not_decided
  · intro item
    exact iff_of_false (grows.not_owes item) (grew.not_owes item)

/-! ## Preservation -/

theorem values_begin (values : Values value₀ state)
    (stepped : begin config state tid = some after) : Values value₀ after := by
  simp only [begin] at stepped
  split at stepped
  · rename_i idle _
    simp only [Option.some.injEq] at stepped
    subst stepped
    apply values.grow
    · exact fun _ => rfl
    · simp [idle, Stage.Growing]
    · trivial
    · apply TxnValues.of_growing <;> simp [Stage.Growing, Txn.claims, tagged]
  · cases stepped

theorem values_request (values : Values value₀ state) {type : LockType} {key : Key}
    (stepped : request state tid type key = some after) : Values value₀ after := by
  simp only [request] at stepped
  split at stepped
  · rename_i executes
    simp only [Option.some.injEq] at stepped
    subst stepped
    have grew : (state.txns tid).stage.Growing := by simp [executes, Stage.Growing]
    apply values.grow
    · exact fun _ => rfl
    · exact grew
    · trivial
    · apply TxnValues.of_growing
      · trivial
      · rw [claims_push executes]
        exact (values.txns tid).current grew
  · cases stepped

theorem values_modify (values : Values value₀ state) {key : Key} {data : Bytes}
    (stepped : modify config state tid key data = some after) : Values value₀ after := by
  simp only [modify] at stepped
  split at stepped
  · rename_i executes
    split at stepped
    · simp only [Option.some.injEq] at stepped
      subst stepped
      have grew : (state.txns tid).stage.Growing := by simp [executes, Stage.Growing]
      apply values.grow
      · exact fun _ => rfl
      · exact grew
      · exact grew
      · apply TxnValues.of_growing
        · exact grew
        · intro claim member
          have known := (values.txns tid).current grew
          simp only [Txn.claims, executes, tagged, List.mem_append, List.mem_map] at member known
          rcases member with ⟨item, itemMember, rfl⟩ | ⟨item, ⟨was, wasMember, rfl⟩, rfl⟩
          · exact known (item, .read) (.inl ⟨item, itemMember, rfl⟩)
          · have before := known (was, .write) (.inr ⟨was, wasMember, rfl⟩)
            simp only at before ⊢
            split <;> exact before
    · cases stepped
  · cases stepped

theorem values_grant (inv : Inv config state) (values : Values value₀ state)
    {type : LockType} {key : Key} {replyBuf : Owner → Bytes} {payload : Bytes}
    (requested : (state.txns tid).stage = .request type key false) :
    Values value₀ (grant config { state.lock config tid type key with replyBuf } tid type
      key (state.records key).value payload) := by
  have grew : (state.txns tid).stage.Growing := by simp [requested, Stage.Growing]
  apply values.grow
  · intro other
    rcases eq_or_ne other key with rfl | different
    · simp [State.setTxn, State.lock, State.setRecord]
    · simp [State.setTxn, State.lock, State.setRecord, different]
  · exact grew
  · trivial
  · apply TxnValues.of_growing
    · trivial
    · intro claim member
      have added := claims_fillLast (inv.requests tid) requested
        (state.records key).value (payload.take (config.len key))
      rcases List.mem_cons.mp (added.mem_iff.mp member) with rfl | member
      · rfl
      · exact (values.txns tid).current grew claim member

theorem values_refuse (values : Values value₀ state) {type : LockType}
    {replyBuf : Owner → Bytes} (grew : (state.txns tid).stage.Growing) :
    Values value₀ (refuse { state with replyBuf } tid type) := by
  have undecided : ¬ ({ state.txns tid with stage := (state.txns tid).abortStage type } :
      Txn Key).Decided := by
    cases type <;> exact id
  have settled : ∀ item, ¬ ({ state.txns tid with
      stage := (state.txns tid).abortStage type } : Txn Key).Owes item := by
    rintro item ⟨pending, writing, -⟩
    cases type <;> cases writing
  apply values.frame
  · exact fun _ => rfl
  · constructor
    · exact fun grows => absurd grows (not_growing_abortStage _ type)
    · exact fun decided => absurd decided undecided
    · exact fun decided => absurd decided undecided
  · exact iff_of_false undecided grew.not_decided
  · exact fun decided => absurd decided grew.not_decided
  · exact fun item => iff_of_false (settled item) (grew.not_owes item)

theorem values_lockItem (nowait : config.protocol = .nowait) (inv : Inv config state)
    (values : Values value₀ state)
    (stepped : lockItem config state tid = some after) : Values value₀ after := by
  obtain ⟨type, key, requested, outcome⟩ := lockItem_cases stepped
  cases outcome with
  | granted free => exact values_grant inv values requested
  | refused taken => exact values_refuse values (by simp [requested, Stage.Growing])
  | queued waits older =>
      rw [nowait] at waits
      cases waits

/-- While a transaction executes it holds every item of its sets. -/
theorem mem_claims_of_execute (executes : txn.stage = .execute)
    {item : ReadSetItem Key} (member : item ∈ txn.readSet ++ txn.writeSet) :
    ∃ type, (item, type) ∈ txn.claims := by
  simp only [Txn.claims, executes, tagged, List.mem_append, List.mem_map] at member ⊢
  rcases member with member | member
  · exact ⟨.read, .inl ⟨item, member, rfl⟩⟩
  · exact ⟨.write, .inr ⟨item, member, rfl⟩⟩

/-- Two claims on one record are of one transaction. -/
theorem Inv.tid_eq_of_claims (inv : Inv config state) {left right : Tid}
    {leftClaim rightClaim : ReadSetItem Key × LockType}
    (leftMember : leftClaim ∈ (state.txns left).claims)
    (rightMember : rightClaim ∈ (state.txns right).claims)
    (sameKey : leftClaim.1.key = rightClaim.1.key) : left = right := by
  have leftLock := inv.lock_of_claim leftMember
  have rightLock := inv.lock_of_claim rightMember
  rw [sameKey] at leftLock
  exact (config.word_injective (leftLock.symm.trans rightLock)).1

/-- Nobody has to write back a record that a growing transaction holds. -/
theorem Inv.not_pending_of_claim (inv : Inv config state)
    (grows : (state.txns tid).stage.Growing) {claim : ReadSetItem Key × LockType}
    (member : claim ∈ (state.txns tid).claims) (data : Bytes) :
    ¬ Pending state.txns claim.1.key data := by
  rintro ⟨other, item, owed, sameKey, -⟩
  have same := inv.tid_eq_of_claims owed.mem_claims member sameKey
  subst same
  exact grows.not_owes item owed

/-- An executing transaction has distinct records in its sets. -/
theorem Inv.keys_nodup_of_execute (inv : Inv config state)
    (executes : (state.txns tid).stage = .execute) :
    (((state.txns tid).readSet ++ (state.txns tid).writeSet).map (·.key)).Nodup := by
  have nodup := inv.ledger.keys_nodup tid
  have keys : (config.claims tid (state.txns tid)).map Prod.fst =
      ((state.txns tid).readSet ++ (state.txns tid).writeSet).map (·.key) := by
    simp [Config.claims, Txn.claims, executes, tagged, Function.comp_def]
  rwa [keys] at nodup

theorem footprint_reads_eq_some {key : Key} {value : Bytes}
    (read : txn.footprint.reads key = some value) :
    ∃ item ∈ txn.readSet ++ txn.writeSet, item.key = key ∧ item.value = value := by
  obtain ⟨item, found, rfl⟩ := Option.map_eq_some_iff.mp read
  exact ⟨item, List.mem_of_find?_eq_some found, by simpa using List.find?_some found, rfl⟩

theorem footprint_writes_eq_none {key : Key} :
    txn.footprint.writes key = none ↔ ∀ item ∈ txn.writeSet, item.key ≠ key := by
  simp [Txn.footprint]

theorem footprint_writes_eq_some
    (nodup : ((txn.readSet ++ txn.writeSet).map (·.key)).Nodup)
    {item : ReadSetItem Key} (member : item ∈ txn.writeSet) :
    txn.footprint.writes item.key = some item.data := by
  rw [List.map_append, List.nodup_append] at nodup
  simp [Txn.footprint, find?_of_nodup nodup.2.1 member]

theorem pending_commit {txns : Tid → Txn Key} (grows : (txns tid).stage.Growing)
    (key : Key) (data : Bytes) :
    Pending (Function.update txns tid
        { txns tid with stage := .writeBack (txns tid).writeSet }) key data ↔
      Pending txns key data ∨
        ∃ item ∈ (txns tid).writeSet, item.key = key ∧ item.data = data := by
  constructor
  · rintro ⟨other, item, owed, named⟩
    rcases eq_or_ne other tid with rfl | different
    · rw [Function.update_self] at owed
      obtain ⟨pending, writing, member⟩ := owed
      cases writing
      exact .inr ⟨item, member, named⟩
    · rw [Function.update_of_ne different] at owed
      exact .inl ⟨other, item, owed, named⟩
  · rintro (⟨other, item, owed, named⟩ | ⟨item, member, named⟩)
    · have different : other ≠ tid := by
        rintro rfl
        exact grows.not_owes item owed
      exact ⟨other, item, by rwa [Function.update_of_ne different], named⟩
    · refine ⟨tid, item, ?_, named⟩
      rw [Function.update_self]
      exact ⟨_, rfl, member⟩

/-- Every item of a transaction that is about to commit carries the current value of its
record, and nobody owes that record a value. -/
theorem Values.buffered (values : Values value₀ state) (inv : Inv config state)
    (executes : (state.txns tid).stage = .execute) :
    ∀ item ∈ (state.txns tid).readSet ++ (state.txns tid).writeSet,
      item.locked = some (state.records item.key).value ∧
        ∀ data, ¬ Pending state.txns item.key data := by
  intro item member
  have grew : (state.txns tid).stage.Growing := by simp [executes, Stage.Growing]
  obtain ⟨type, claim⟩ := mem_claims_of_execute executes member
  exact ⟨(values.txns tid).current grew (item, type) claim, inv.not_pending_of_claim grew claim⟩

/-- The log grows by the transaction that commits. -/
theorem footprints_commit {txns : Tid → Txn Key} {order : List Tid} (outside : tid ∉ order)
    (same : txn.footprint = (txns tid).footprint) :
    footprints (Function.update txns tid txn) (order ++ [tid]) =
      footprints txns order ++ [(txns tid).footprint] := by
  have unchanged : footprints (Function.update txns tid txn) order = footprints txns order :=
    footprints_update fun member => absurd member outside
  simp only [footprints, List.map_append, List.map_cons, List.map_nil,
    Function.update_self] at unchanged ⊢
  rw [unchanged, same]

theorem values_commit (inv : Inv config state) (exact : Exact config state)
    (values : Values value₀ state)
    (stepped : commit state tid = some after) : Values value₀ after := by
  simp only [commit] at stepped
  split at stepped
  · rename_i executes
    simp only [Option.some.injEq] at stepped
    subst stepped
    have grew : (state.txns tid).stage.Growing := by simp [executes, Stage.Growing]
    have outside : tid ∉ state.commitOrder := fun member =>
      grew.not_decided ((values.members tid).mp member)
    have keys := inv.keys_nodup_of_execute executes
    have buffered := values.buffered inv executes
    have log := @footprints_commit _ _ _ _ _
      { state.txns tid with stage := .writeBack (state.txns tid).writeSet } _ _ outside rfl
    constructor
    · exact values.unqueued
    · intro other
      rcases eq_or_ne other tid with rfl | different
      · have own : TxnValues state.records
            { state.txns other with stage := .writeBack (state.txns other).writeSet } := by
          constructor
          · exact fun grows => absurd grows id
          · intro _ item member
            rw [(buffered item member).1]
            simp
          · exact fun _ => keys
        simpa [State.setStage, State.setTxn] using own
      · simpa [State.setStage, State.setTxn, different] using values.txns other
    · intro other
      rw [List.mem_append, List.mem_singleton, values.members]
      rcases eq_or_ne other tid with rfl | different
      · simp [State.setStage, State.setTxn, Txn.Decided]
      · simp [State.setStage, State.setTxn, different]
    · rw [List.nodup_append]
      refine ⟨values.nodup, by simp, ?_⟩
      intro left leftMember right rightMember
      rw [List.mem_singleton.mp rightMember]
      rintro rfl
      exact outside leftMember
    · refine (congrArg (Serial value₀) log).mpr (serial_concat.mpr ⟨values.serial, ?_⟩)
      intro key value read
      obtain ⟨item, member, rfl, rfl⟩ := footprint_reads_eq_some read
      obtain ⟨current, unowed⟩ := buffered item member
      rw [values.settled item.key unowed]
      exact ((exact.txns tid).exact item member _ current).symm
    · intro key data isPending
      refine (congrArg (fun log => replay value₀ log key) log).trans ?_
      rw [replay_concat]
      rcases (pending_commit grew key data).mp isPending with wasPending | ⟨item, member, rfl, rfl⟩
      · have unwritten : (state.txns tid).footprint.writes key = none := by
          rw [footprint_writes_eq_none]
          rintro item member rfl
          exact (buffered item (List.mem_append_right _ member)).2 data wasPending
        rw [Footprint.apply_of_not_writes unwritten]
        exact values.pending key data wasPending
      · exact Footprint.apply_of_writes (footprint_writes_eq_some keys member)
    · intro key nothing
      refine (congrArg (fun log => replay value₀ log key) log).trans ?_
      have unwritten : (state.txns tid).footprint.writes key = none := by
        rw [footprint_writes_eq_none]
        intro item member sameKey
        exact nothing item.data
          ((pending_commit grew key item.data).mpr (.inr ⟨item, member, sameKey, rfl⟩))
      rw [replay_concat, Footprint.apply_of_not_writes unwritten]
      apply values.settled
      intro data wasPending
      exact nothing data ((pending_commit grew key data).mpr (.inl wasPending))
  · cases stepped

/-- Writing one item back settles its record and no other. -/
theorem owes_writeBack {pending rest : List (ReadSetItem Key)} {item : ReadSetItem Key}
    {concerns : ReadSetItem Key → Bool} (writing : txn.stage = .writeBack pending)
    (found : nextFor concerns pending = some (item, rest)) (other : ReadSetItem Key) :
    txn.Owes other ↔
      other = item ∨ ({ txn with stage := .writeBack rest } : Txn Key).Owes other := by
  constructor
  · rintro ⟨was, wasWriting, member⟩
    rw [writing] at wasWriting
    cases wasWriting
    exact ((mem_of_nextFor found).mp member).imp id fun left => ⟨rest, rfl, left⟩
  · rintro (rfl | ⟨now, isWriting, member⟩)
    · exact ⟨pending, writing, (mem_of_nextFor found).mpr (.inl rfl)⟩
    · cases isWriting
      exact ⟨pending, writing, (mem_of_nextFor found).mpr (.inr member)⟩

theorem pending_writeBack {txns : Tid → Txn Key} {pending rest : List (ReadSetItem Key)}
    {item : ReadSetItem Key} {concerns : ReadSetItem Key → Bool}
    (writing : (txns tid).stage = .writeBack pending)
    (found : nextFor concerns pending = some (item, rest)) (key : Key) (data : Bytes) :
    Pending txns key data ↔ (item.key = key ∧ item.data = data) ∨
      Pending (Function.update txns tid { txns tid with stage := .writeBack rest })
        key data := by
  have owes := owes_writeBack writing found
  constructor
  · rintro ⟨other, left, owed, named⟩
    rcases eq_or_ne other tid with rfl | different
    · rcases (owes left).mp owed with rfl | stillOwed
      · exact .inl named
      · exact .inr ⟨other, left, by rwa [Function.update_self], named⟩
    · exact .inr ⟨other, left, by rwa [Function.update_of_ne different], named⟩
  · rintro (named | ⟨other, left, owed, named⟩)
    · exact ⟨tid, item, (owes item).mpr (.inl rfl), named⟩
    · refine ⟨other, left, ?_, named⟩
      rcases eq_or_ne other tid with rfl | different
      · rw [Function.update_self] at owed
        exact (owes left).mpr (.inr owed)
      · rwa [Function.update_of_ne different] at owed

/-- A committed value reaches its record. -/
theorem Values.store (inv : Inv config state) (values : Values value₀ state)
    {pending rest : List (ReadSetItem Key)} {item : ReadSetItem Key}
    {concerns : ReadSetItem Key → Bool} {record : Record Bytes}
    {events : List (LockEvent Tid Key)}
    (writing : (state.txns tid).stage = .writeBack pending)
    (found : nextFor concerns pending = some (item, rest))
    (stored : record.value = item.data) :
    Values value₀ { state with
      records := Function.update state.records item.key record,
      txns := Function.update state.txns tid
        { state.txns tid with stage := .writeBack rest },
      events } := by
  have old := values.txns tid
  have decided : (state.txns tid).Decided := by simp [Txn.Decided, writing]
  have owes := owes_writeBack writing found
  have owed : (state.txns tid).Owes item := (owes item).mpr (.inl rfl)
  have pendings := pending_writeBack writing found
  have log : footprints (Function.update state.txns tid
      { state.txns tid with stage := .writeBack rest }) state.commitOrder =
        footprints state.txns state.commitOrder := footprints_update fun _ => rfl
  constructor
  · exact values.unqueued
  · intro other
    simp only
    rcases eq_or_ne other tid with rfl | different
    · rw [Function.update_self]
      constructor
      · exact fun grows => absurd grows id
      · exact fun _ => old.locked decided
      · exact fun _ => old.keys_nodup decided
    · rw [Function.update_of_ne different]
      have others := values.txns other
      refine { others with current := ?_ }
      intro grows claim claimMember
      have differentKey : claim.1.key ≠ item.key := fun sameKey =>
        different (inv.tid_eq_of_claims claimMember owed.mem_claims sameKey)
      rw [Function.update_of_ne differentKey]
      exact others.current grows claim claimMember
  · intro other
    simp only [values.members]
    rcases eq_or_ne other tid with rfl | different
    · rw [Function.update_self]
      exact iff_of_true decided trivial
    · rw [Function.update_of_ne different]
  · exact values.nodup
  · rw [log]
    exact values.serial
  · intro key data isPending
    rw [log]
    exact values.pending key data ((pendings key data).mpr (.inr isPending))
  · intro key nothing
    simp only [log]
    rcases eq_or_ne key item.key with rfl | different
    · rw [Function.update_self, stored]
      exact values.pending item.key item.data ((pendings _ _).mpr (.inl ⟨rfl, rfl⟩))
    · rw [Function.update_of_ne different]
      apply values.settled
      intro data wasPending
      rcases (pendings key data).mp wasPending with ⟨sameKey, -⟩ | isPending
      · exact different sameKey.symm
      · exact nothing data isPending

theorem values_commitItem (inv : Inv config state) (values : Values value₀ state)
    {machine : Nat} (stepped : commitItem config state tid machine = some after) :
    Values value₀ after := by
  simp only [commitItem] at stepped
  split at stepped
  · rename_i pending writing
    obtain ⟨⟨item, rest⟩, found, rfl⟩ := Option.map_eq_some_iff.mp stepped
    exact values.store inv writing found rfl
  · cases stepped

/-- A move after which a transaction owes nothing it did not owe before. -/
theorem Values.restage (values : Values value₀ state)
    {records : Key → Record Bytes} {running : Owner → Option Tid}
    {events : List (LockEvent Tid Key)} {stage : Stage Key}
    (sameValue : ∀ key, (records key).value = (state.records key).value)
    (shrinks : ¬ stage.Growing)
    (decided : ({ state.txns tid with stage } : Txn Key).Decided ↔
      (state.txns tid).Decided)
    (owes : ∀ item, ({ state.txns tid with stage } : Txn Key).Owes item ↔
      (state.txns tid).Owes item) :
    Values value₀ { state with
      records, txns := Function.update state.txns tid { state.txns tid with stage },
      running, events } := by
  have old := values.txns tid
  apply values.frame sameValue _ decided (fun _ => rfl) owes
  constructor
  · exact fun grows => absurd grows shrinks
  · exact fun isDecided => old.locked (decided.mp isDecided)
  · exact fun isDecided => old.keys_nodup (decided.mp isDecided)

theorem values_releaseItem (values : Values value₀ state) {machine : Nat}
    (stepped : releaseItem config state tid machine = some after) :
    Values value₀ after := by
  simp only [releaseItem] at stepped
  split at stepped
  case h_4 => cases stepped
  all_goals
    rename_i releasing
    obtain ⟨item, rest, found, rfl⟩ := releaseOne_cases stepped
    apply values.restage
    · intro key
      rcases eq_or_ne key item.key with rfl | different
      · simp [State.setStage, State.setTxn, State.setRecord]
      · simp [State.setStage, State.setTxn, State.setRecord, different]
    · exact id
    · simp [Txn.Decided, releasing]
    · simp [Txn.Owes, releasing]

theorem values_resume (values : Values value₀ state)
    (stepped : resume config state tid = some after) : Values value₀ after := by
  simp only [resume] at stepped
  split at stepped
  case h_5 => cases stepped
  all_goals
    rename_i resumed
    simp only [Option.some.injEq] at stepped
    subst stepped
    apply values.restage
    · exact fun _ => rfl
    · exact id
    · simp [Txn.Decided, resumed]
    · simp [Txn.Owes, resumed]

theorem values_step (nowait : config.protocol = .nowait) {action : Action Key Tid}
    (inv : Inv config state) (exact : Exact config state) (values : Values value₀ state)
    (stepped : step config state action = some after) : Values value₀ after := by
  cases action with
  | begin tid => exact values_begin values stepped
  | request tid type key => exact values_request values stepped
  | modify tid key data => exact values_modify values stepped
  | lockItem tid => exact values_lockItem nowait inv values stepped
  | notify server tid =>
      simp [step, notify, values.unqueued, nextFor] at stepped
  | commit tid => exact values_commit inv exact values stepped
  | commitItem tid machine => exact values_commitItem inv values stepped
  | releaseItem tid machine => exact values_releaseItem values stepped
  | resume tid => exact values_resume values stepped

/-- Without wait lists no grant is delayed. -/
theorem Values.delivered (values : Values value₀ state) (action : Action Key Tid) :
    Delivered config state action := by
  cases action with
  | notify server tid => simp [Delivered, values.unqueued]
  | begin | request | modify | lockItem | commit | commitItem | releaseItem | resume =>
      trivial

theorem values_of_reach (nowait : config.protocol = .nowait) {database : Database config}
    {seq : Key → Nat} {replyBuf : Owner → Bytes}
    (reach : Reachable (step config) (State.initial database seq replyBuf) state) :
    Inv config state ∧ Exact config state ∧ Values database.value state := by
  apply reach.invariant fun state =>
    Inv config state ∧ Exact config state ∧ Values database.value state
  · exact ⟨inv_initial database seq replyBuf, exact_initial database seq replyBuf,
      values_initial database seq replyBuf⟩
  · rintro before action after ⟨inv, exact, values⟩ _ stepped
    exact ⟨inv_step inv stepped, exact_step inv exact (values.delivered action) stepped,
      values_step nowait inv exact values stepped⟩

/-! ## The result -/

/-- The transactions whose `commit` has been called, in the order of the calls, are
a serial execution; each of them buffered what its records held when it locked
them; and the log explains every record nobody still has to write back. -/
structure CommitSerial (value₀ : Key → Bytes) (state : State Key Tid Owner) : Prop where
  nodup : state.commitOrder.Nodup
  members : ∀ tid, tid ∈ state.commitOrder ↔ (state.txns tid).Decided
  buffered : ∀ tid ∈ state.commitOrder,
    ∀ item ∈ (state.txns tid).readSet ++ (state.txns tid).writeSet,
      item.locked = some item.value
  serial : Serial value₀ (footprints state.txns state.commitOrder)
  explains : ∀ key, (∀ tid item, (state.txns tid).Owes item → item.key ≠ key) →
    replay value₀ (footprints state.txns state.commitOrder) key =
      (state.records key).value

theorem Values.commitSerial (exact : Exact config state) (values : Values value₀ state) :
    CommitSerial value₀ state where
  nodup := values.nodup
  members := values.members
  buffered := by
    intro tid member item itemMember
    have known := values.txns tid
    obtain ⟨value, granted⟩ := Option.ne_none_iff_exists'.mp
      (known.locked ((values.members tid).mp member) item itemMember)
    rw [granted, (exact.txns tid).exact item itemMember value granted]
  serial := values.serial
  explains := by
    intro key unowed
    apply values.settled
    rintro data ⟨tid, item, owed, sameKey, -⟩
    exact unowed tid item owed sameKey

/-- Strict two-phase locking and serializability of `NOWAIT`: in every reachable
state locks are safe, no step clears a foreign lock word, no release message can
fail its assertion, and the commits are serial in their order. -/
theorem nowait_serializable (config : Config Key Tid Owner)
    (nowait : config.protocol = .nowait) (database : Database config) (seq : Key → Nat)
    (replyBuf : Owner → Bytes) (state : State Key Tid Owner)
    (reach : Reachable (step config) (State.initial database seq replyBuf) state) :
    LockSafe config state ∧
      (∀ action after, step config state action = some after →
        ∀ key tid type, (state.records key).lock = config.word tid type →
          (after.records key).lock ≠ config.word tid type → action.tid = tid) ∧
      (∀ tid, ∀ message ∈ (state.txns tid).inFlight,
        Nowait.releaseRpcHandler (state.records message.1.key)
          (config.word tid message.2) ≠ none) ∧
      CommitSerial database.value state := by
  obtain ⟨inv, exact, values⟩ := values_of_reach nowait reach
  refine ⟨inv.lockSafe, ?_, ?_, values.commitSerial exact⟩
  · intro action after stepped key tid type locked cleared
    exact inv.cleared_by_owner stepped locked cleared
  · intro tid message member
    simp [Nowait.releaseRpcHandler, inv.lockSafe.inFlight tid message member]

/-- The first transaction reads record 0 and overwrites record 1; the second one is
refused record 1 and releases record 2. -/
def refusedRun : List (Action Nat Bool) :=
  [.begin false, .begin true, .request false .read 0, .lockItem false,
    .request true .write 2, .request false .write 1, .lockItem true, .lockItem false,
    .modify false 1 [9], .request true .read 1, .lockItem true, .commit false,
    .commitItem false 1, .resume false, .releaseItem false 0, .resume false,
    .resume true, .releaseItem true 0, .resume true]

theorem nowait_serializable_refused :
    ∃ state : State Nat Bool Bool,
      ((state.txns false).Committed ∧ (state.txns true).stage = .finished false ∧
        (state.records 1).value = [9]) ∧
      CommitSerial (fun _ => [7]) state := by
  have reached : ∃ state : State Nat Bool Bool,
      Reachable (step (pairConfig .nowait))
        (State.initial (sevens .nowait) (fun _ => 0) (fun _ => [0, 0])) state ∧
      (state.txns false).Committed ∧ (state.txns true).stage = .finished false ∧
        (state.records 1).value = [9] :=
    Reach.exists_of_exec refusedRun (by decide +kernel)
  obtain ⟨state, reach, finished⟩ := reached
  exact ⟨state, finished,
    (nowait_serializable (pairConfig .nowait) rfl (sevens .nowait) _ _ state reach).2.2.2⟩

end Rocc.Locking
