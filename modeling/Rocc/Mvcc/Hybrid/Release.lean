import Rocc.Base.Holding
import Rocc.Mvcc.Hybrid.Model

/-!
# Failing requests leave no lock behind

A transaction is told which locks it has by its stage and its write set: everything in the
write set but, while a lock is requested, its last item.  Every failing return hands exactly
these to `release_writes`, in every build.  Which of two transactions a lock word belongs to
is settled by the compare-and-swap from 0, so start times may coincide.
-/

set_option linter.unusedSectionVars false

namespace Rocc.Mvcc.Hybrid

open Rtx OneSided

universe u v w

variable {Key : Type u} {Value : Type v} {Tid : Type w}

/-! ## Locks of a transaction -/

/-- The records the transaction has locked and not released. -/
def Txn.held (txn : Txn Key Value) : List Key :=
  match txn.stage with
  | .idle => []
  | .lockRequest _ => txn.keys.dropLast
  | .header _ => txn.keys.dropLast
  | .lock _ => txn.keys.dropLast
  | .lockRead _ old => if old = 0 then txn.keys else txn.keys.dropLast
  | .update pending => pending.map (·.1.key)
  | .release pending => pending
  | .finished _ => []
  | _ => txn.keys

/-- The record whose lock is being requested. -/
def Txn.attempt (txn : Txn Key Value) : Option Key :=
  match txn.stage with
  | .lockRequest key => some key
  | .header key => some key
  | .lock key => some key
  | .lockRead key _ => some key
  | _ => none

/-- The transaction has not started to unlock. -/
def Txn.Growing (txn : Txn Key Value) : Prop :=
  match txn.stage with
  | .update _ => False
  | .release _ => False
  | .finished _ => False
  | _ => True

/-- The transaction releases its locks, or has released them. -/
def Txn.GivesUp (txn : Txn Key Value) : Prop :=
  match txn.stage with
  | .release _ => True
  | .finished false => True
  | _ => False

/-- `remote_read` or `remote_write` has returned -1, or the vote was negative. -/
def Txn.GaveUp (txn : Txn Key Value) : Prop := txn.stage = .finished false

instance (txn : Txn Key Value) : Decidable txn.GaveUp :=
  match returned : txn.stage with
  | .finished false => isTrue returned
  | .finished true | .idle | .execute | .readRequest .. | .read .. | .readAgain ..
  | .lockRequest .. | .header .. | .lock .. | .lockRead .. | .update .. | .release .. =>
      isFalse (by simp [Txn.GaveUp, returned])

/-- The records the transaction locked before the request that failed. -/
def Txn.earlier (txn : Txn Key Value) : List Key :=
  match txn.failed with
  | none => txn.keys
  | some _ => txn.keys.dropLast

/-- The transaction has set the lock word of the record and has not cleared it. -/
def Txn.Holds (txn : Txn Key Value) (key : Key) : Prop :=
  key ∈ txn.taken ∧ key ∉ txn.freed

/-- What a transaction keeps about its locks. -/
structure TxnOk (txn : Txn Key Value) : Prop where
  balance : txn.taken.Perm (txn.freed ++ txn.held)
  nodup : txn.taken.Nodup
  growing : txn.Growing → txn.freed = [] ∧ txn.failed = none
  attempt : ∀ key ∈ txn.attempt, txn.keys.getLast? = some key
  failed : ∀ key ∈ txn.failed, txn.keys.getLast? = some key
  earlier : txn.GivesUp → ∀ key ∈ txn.earlier, key ∈ txn.taken

section Txn

variable {txn txn' : Txn Key Value} {key : Key}

theorem releaseWrites_all : txn.releaseWrites true = txn.keys := by
  rw [Txn.releaseWrites, if_pos rfl, Nat.sub_zero, Txn.keys, ← List.length_map,
    List.take_length]

theorem releaseWrites_butLast : txn.releaseWrites false = txn.keys.dropLast := by
  rw [Txn.releaseWrites, if_neg Bool.false_ne_true, List.dropLast_eq_take, Txn.keys,
    List.length_map]

/-- With its last element a list is what it was. -/
theorem dropLast_perm {keys : List Key} (last : keys.getLast? = some key) :
    keys.Perm (key :: keys.dropLast) := by
  have split : keys.dropLast ++ [key] = keys := List.dropLast_append_getLast? key last
  calc keys = keys.dropLast ++ [key] := split.symm
    _ |>.Perm (key :: keys.dropLast) := List.perm_append_singleton key _

theorem Txn.Growing.not_givesUp (grows : txn.Growing) : ¬ txn.GivesUp := by
  intro givesUp
  simp only [Txn.Growing, Txn.GivesUp] at grows givesUp
  split at givesUp <;> simp_all

/-- What a transaction holds it has taken and not given back. -/
theorem TxnOk.mem_held (ok : TxnOk txn) : key ∈ txn.held ↔ txn.Holds key := by
  have apart : (txn.freed ++ txn.held).Nodup := ok.balance.nodup_iff.mp ok.nodup
  rw [Txn.Holds, ok.balance.mem_iff, List.mem_append]
  constructor
  · intro held
    exact ⟨.inr held, fun freed => List.disjoint_of_nodup_append apart freed held⟩
  · rintro ⟨freed | held, kept⟩
    · exact absurd freed kept
    · exact held

/-- A step on the way that touches no lock. -/
theorem TxnOk.grow (ok : TxnOk txn) (grows : txn.Growing) (stillGrows : txn'.Growing)
    (sameHeld : txn'.held.Perm txn.held) (sameTaken : txn'.taken = txn.taken)
    (sameFreed : txn'.freed = txn.freed) (sameFailed : txn'.failed = txn.failed)
    (attempt : ∀ key ∈ txn'.attempt, txn'.keys.getLast? = some key) : TxnOk txn' where
  balance := by
    rw [sameTaken, sameFreed]
    exact ok.balance.trans (sameHeld.symm.append_left _)
  nodup := sameTaken ▸ ok.nodup
  growing _ := by
    rw [sameFreed, sameFailed]
    exact ok.growing grows
  attempt := attempt
  failed key member := by
    rw [sameFailed, (ok.growing grows).2] at member
    cases member
  earlier givesUp := absurd givesUp stillGrows.not_givesUp

/-- The transaction has locked one more record. -/
theorem TxnOk.take (ok : TxnOk txn) (grows : txn.Growing) (stillGrows : txn'.Growing)
    (fresh : key ∉ txn.held) (added : txn'.held.Perm (key :: txn.held))
    (taken : txn'.taken = txn.taken ++ [key]) (sameFreed : txn'.freed = txn.freed)
    (sameFailed : txn'.failed = txn.failed)
    (attempt : ∀ key ∈ txn'.attempt, txn'.keys.getLast? = some key) : TxnOk txn' := by
  obtain ⟨nothingFreed, notFailed⟩ := ok.growing grows
  have balance : txn.taken.Perm txn.held := by
    have old := ok.balance
    rwa [nothingFreed, List.nil_append] at old
  constructor
  · rw [taken, sameFreed, nothingFreed, List.nil_append]
    calc txn.taken ++ [key]
      _ |>.Perm (key :: txn.taken) := List.perm_append_singleton key _
      _ |>.Perm (key :: txn.held) := balance.cons key
      _ |>.Perm txn'.held := added.symm
  · rw [taken, (List.perm_append_singleton key _).nodup_iff, List.nodup_cons]
    exact ⟨fun member => fresh (balance.mem_iff.mp member), ok.nodup⟩
  · intro _
    exact ⟨sameFreed.trans nothingFreed, sameFailed.trans notFailed⟩
  · exact attempt
  · intro other member
    rw [sameFailed, notFailed] at member
    cases member
  · intro givesUp
    exact absurd givesUp stillGrows.not_givesUp

/-- A failing return hands what the transaction holds to `release_writes`. -/
theorem TxnOk.giveUp (ok : TxnOk txn) {pending : List Key}
    {failed : Option Key} (handed : pending = txn.held)
    (last : ∀ key ∈ failed, txn.keys.getLast? = some key)
    (covered : ∀ key ∈ ({ txn with stage := .release pending, failed } : Txn Key Value).earlier,
      key ∈ pending) :
    TxnOk { txn with stage := .release pending, failed } where
  balance := by
    show txn.taken.Perm (txn.freed ++ pending)
    rw [handed]
    exact ok.balance
  nodup := ok.nodup
  growing grows' := absurd grows' not_false
  attempt := nofun
  failed := last
  earlier _ key member :=
    ok.balance.mem_iff.mpr (List.mem_append_right _ (handed ▸ covered key member))

/-- A refused lock: what is held is everything before the last item, or everything. -/
theorem TxnOk.refused (ok : TxnOk txn) (attempted : txn.attempt = some key) {all : Bool}
    (handed : txn.releaseWrites all = txn.held) : TxnOk (txn.refused key all) := by
  apply ok.giveUp handed
  · rintro other ⟨⟩
    exact ok.attempt key attempted
  · intro other member
    have butLast : other ∈ txn.keys.dropLast := member
    cases all with
    | false => exact releaseWrites_butLast ▸ butLast
    | true => exact releaseWrites_all ▸ List.mem_of_mem_dropLast butLast

/-- A failing read, or a negative vote: everything is held. -/
theorem TxnOk.aborted (ok : TxnOk txn) (grows : txn.Growing) (all : txn.held = txn.keys) :
    TxnOk { txn with stage := .release (txn.releaseWrites true) } := by
  obtain ⟨_, notFailed⟩ := ok.growing grows
  apply ok.giveUp (releaseWrites_all.trans all.symm)
  · intro key member
    rw [notFailed] at member
    cases member
  · intro key member
    simp only [Txn.earlier, notFailed] at member
    exact releaseWrites_all ▸ member

/-- The transaction has unlocked one record. -/
theorem TxnOk.free (ok : TxnOk txn) {stage : Stage Key Value}
    (removed : txn.held.Perm (key :: ({ txn with stage } : Txn Key Value).held))
    (shrinks : ¬ ({ txn with stage } : Txn Key Value).Growing)
    (settled : ({ txn with stage } : Txn Key Value).attempt = none)
    (givingUp : ({ txn with stage } : Txn Key Value).GivesUp → txn.GivesUp) :
    TxnOk { txn with stage, freed := txn.freed ++ [key] } where
  balance := by
    show txn.taken.Perm ((txn.freed ++ [key]) ++ ({ txn with stage } : Txn Key Value).held)
    rw [List.append_assoc, List.singleton_append]
    exact ok.balance.trans (removed.append_left _)
  nodup := ok.nodup
  growing grows := absurd grows shrinks
  attempt key member := by
    have none : key ∈ (none : Option Key) := settled ▸ member
    cases none
  failed := ok.failed
  earlier givesUp := ok.earlier (givingUp givesUp)

/-- The transaction goes on without touching a lock, after it has started to unlock. -/
theorem TxnOk.shrink (ok : TxnOk txn) {stage : Stage Key Value}
    (sameHeld : txn.held.Perm ({ txn with stage } : Txn Key Value).held)
    (shrinks : ¬ ({ txn with stage } : Txn Key Value).Growing)
    (settled : ({ txn with stage } : Txn Key Value).attempt = none)
    (givingUp : ({ txn with stage } : Txn Key Value).GivesUp → txn.GivesUp) :
    TxnOk { txn with stage } where
  balance := ok.balance.trans (sameHeld.append_left _)
  nodup := ok.nodup
  growing grows := absurd grows shrinks
  attempt key member := by
    have none : key ∈ (none : Option Key) := settled ▸ member
    cases none
  failed := ok.failed
  earlier givesUp := ok.earlier (givingUp givesUp)

end Txn

/-! ## The invariant -/

/-- Lock words, what transactions hold and what they have logged agree. -/
structure Inv (config : Config Key Tid) (state : State Key Value Tid) : Prop where
  locks : Holding config.timestamp (fun key => (state.records key).lock)
    fun tid => (state.txns tid).held
  txns : ∀ tid, TxnOk (state.txns tid)

variable {config : Config Key Tid} {build : Build} {state after : State Key Value Tid}
variable {tid : Tid} {key : Key} {txn : Txn Key Value}

/-- A free record is held by nobody. -/
theorem Inv.not_held (inv : Inv config state) (free : (state.records key).lock = 0) :
    key ∉ (state.txns tid).held :=
  inv.locks.not_mem_of_free config.timestamp_ne_zero free

section Frame

variable [DecidableEq Key] [DecidableEq Tid]

theorem txns_update (ok : ∀ other, TxnOk (state.txns other)) (mine : TxnOk txn) :
    ∀ other, TxnOk (Function.update state.txns tid txn other) := by
  rw [Function.forall_update_iff state.txns fun _ txn => TxnOk txn]
  exact ⟨mine, fun other _ => ok other⟩

/-- A step that touches no lock. -/
theorem Inv.frame (inv : Inv config state) {records : Key → Header Value}
    (sameLock : ∀ key, (records key).lock = (state.records key).lock)
    (sameHeld : txn.held.Perm (state.txns tid).held) (ok : TxnOk txn) :
    Inv config ⟨records, Function.update state.txns tid txn⟩ where
  locks := by
    apply inv.locks.frame sameLock
    rw [Function.forall_update_iff state.txns fun other txn =>
      txn.held.Perm (state.txns other).held]
    exact ⟨sameHeld, fun _ _ => .refl _⟩
  txns := txns_update inv.txns ok

/-- A step that leaves the records alone. -/
theorem Inv.client (inv : Inv config state) (sameHeld : txn.held.Perm (state.txns tid).held)
    (ok : TxnOk txn) : Inv config (state.setTxn tid txn) :=
  inv.frame (fun _ => rfl) sameHeld ok

/-- A step that writes a record and leaves its lock word alone. -/
theorem Inv.write (inv : Inv config state) {header : Header Value}
    (sameLock : header.lock = (state.records key).lock)
    (sameHeld : txn.held.Perm (state.txns tid).held) (ok : TxnOk txn) :
    Inv config ((state.setRecord key header).setTxn tid txn) := by
  have sameLocks : ∀ other,
      (Function.update state.records key header other).lock = (state.records other).lock := by
    rw [Function.forall_update_iff state.records fun other header =>
      header.lock = (state.records other).lock]
    exact ⟨sameLock, fun _ _ => rfl⟩
  exact inv.frame sameLocks sameHeld ok

/-- A step that locks a free record. -/
theorem Inv.take (inv : Inv config state) {header : Header Value}
    (free : (state.records key).lock = 0) (locked : header.lock = config.timestamp tid)
    (added : txn.held.Perm (key :: (state.txns tid).held)) (ok : TxnOk txn) :
    Inv config ((state.setRecord key header).setTxn tid txn) where
  locks := by
    apply inv.locks.acquire config.timestamp_ne_zero tid free
    · simp only [State.setTxn, State.setRecord, Function.update_self, locked]
    · intro other different
      simp only [State.setTxn, State.setRecord, Function.update_of_ne different]
    · simpa only [State.setTxn, State.setRecord, Function.update_self] using added
    · intro other different
      simp only [State.setTxn, State.setRecord, Function.update_of_ne different]
  txns := txns_update inv.txns ok

/-- A step that unlocks a record its transaction holds. -/
theorem Inv.free (inv : Inv config state) {header : Header Value} (unlocked : header.lock = 0)
    (removed : (state.txns tid).held.Perm (key :: txn.held)) (ok : TxnOk txn) :
    Inv config ((state.setRecord key header).setTxn tid txn) where
  locks := by
    apply inv.locks.release tid key
    · simp only [State.setTxn, State.setRecord, Function.update_self, unlocked]
    · intro other different
      simp only [State.setTxn, State.setRecord, Function.update_of_ne different]
    · simpa only [State.setTxn, State.setRecord, Function.update_self] using removed
    · intro other different
      simp only [State.setTxn, State.setRecord, Function.update_of_ne different]
  txns := txns_update inv.txns ok

/-- The words of the records a transaction holds are its own. -/
theorem Inv.lock_eq (inv : Inv config state) (held : key ∈ (state.txns tid).held) :
    (state.records key).lock = config.timestamp tid :=
  inv.locks.locked tid key held

end Frame

/-! ## Steps -/

section Steps

variable [DecidableEq Key] [DecidableEq Tid]

theorem inv_initial (value : Key → Value) :
    Inv config (State.initial value : State Key Value Tid) where
  locks := Holding.initial (fun _ => rfl) fun _ => rfl
  txns _ := ⟨.nil, .nil, fun _ => ⟨rfl, rfl⟩, nofun, nofun, nofun⟩

theorem inv_begin (inv : Inv config state) (stepped : begin state tid = some after) :
    Inv config after := by
  simp only [Hybrid.begin] at stepped
  split at stepped
  · rename_i idle
    cases stepped
    apply inv.client
    · simp only [Txn.held, idle]
      exact .nil
    · exact ⟨.nil, .nil, fun _ => ⟨rfl, rfl⟩, nofun, nofun, nofun⟩
  · cases stepped

/-- A transaction that executes, or waits for a read, holds its write set. -/
structure Txn.HoldsAll (txn : Txn Key Value) : Prop where
  growing : txn.Growing
  held : txn.held = txn.keys
  attempt : txn.attempt = none

theorem holdsAll_of_execute (executes : txn.stage = .execute) : txn.HoldsAll := by
  constructor <;> simp only [Txn.Growing, Txn.held, Txn.attempt, executes]

/-- A step between two stages that hold the write set. -/
theorem TxnOk.stay {txn' : Txn Key Value} (ok : TxnOk txn) (before : txn.HoldsAll)
    (after : txn'.HoldsAll) (sameKeys : txn'.keys = txn.keys)
    (sameTaken : txn'.taken = txn.taken) (sameFreed : txn'.freed = txn.freed)
    (sameFailed : txn'.failed = txn.failed) : TxnOk txn' := by
  apply ok.grow before.growing after.growing _ sameTaken sameFreed sameFailed
  · intro key member
    rw [after.attempt] at member
    cases member
  · rw [after.held, before.held, sameKeys]

theorem Inv.stay {txn' : Txn Key Value} (inv : Inv config state)
    (before : (state.txns tid).HoldsAll) (after : txn'.HoldsAll)
    (sameKeys : txn'.keys = (state.txns tid).keys)
    (sameTaken : txn'.taken = (state.txns tid).taken)
    (sameFreed : txn'.freed = (state.txns tid).freed)
    (sameFailed : txn'.failed = (state.txns tid).failed) :
    Inv config (state.setTxn tid txn') := by
  apply inv.client
  · rw [after.held, before.held, sameKeys]
  · exact (inv.txns tid).stay before after sameKeys sameTaken sameFreed sameFailed

/-- A failing read hands the whole write set to `release_writes`. -/
theorem Inv.aborted (inv : Inv config state) (before : (state.txns tid).HoldsAll) :
    Inv config (state.setStage tid (.release ((state.txns tid).releaseWrites true))) := by
  apply inv.client
  · show ((state.txns tid).releaseWrites true).Perm _
    rw [releaseWrites_all, before.held]
  · exact (inv.txns tid).aborted before.growing before.held

theorem inv_read (inv : Inv config state)
    (stepped : read config build state tid key = some after) : Inv config after := by
  simp only [Hybrid.read] at stepped
  split at stepped
  · rename_i executes
    have before := holdsAll_of_execute executes
    split at stepped
    · cases stepped
      exact inv.stay before (holdsAll_of_execute executes) rfl rfl rfl rfl
    · cases stepped
      exact inv.stay before (holdsAll_of_execute executes) rfl rfl rfl rfl
    · split at stepped
      · cases stepped
        exact inv.stay before (holdsAll_of_execute executes) rfl rfl rfl rfl
      · split at stepped
        · cases stepped
          exact inv.stay before ⟨trivial, rfl, rfl⟩ rfl rfl rfl rfl
        · cases stepped
          exact inv.stay before ⟨trivial, rfl, rfl⟩ rfl rfl rfl rfl
  · cases stepped

/-- `read_rpc_handler` leaves the lock word alone. -/
theorem readRpcHandler_lock {header after : Header Value} {timestamp : Nat}
    {pos : Option Slot} (served : readRpcHandler header timestamp = (after, pos)) :
    after.lock = header.lock := by
  rcases readRpcHandler_cases header timestamp with same | ⟨found, _, same⟩
  · rw [same] at served
    cases served
    rfl
  · rw [same] at served
    cases served
    rfl

theorem inv_readReply (inv : Inv config state)
    (stepped : readReply config state tid = some after) : Inv config after := by
  simp only [readReply] at stepped
  split at stepped
  · rename_i key requesting
    have before : (state.txns tid).HoldsAll := by
      constructor <;> simp only [Txn.Growing, Txn.held, Txn.attempt, requesting]
    split at stepped
    · rename_i header served
      cases stepped
      apply inv.write (readRpcHandler_lock served)
      · show ((state.txns tid).releaseWrites true).Perm _
        rw [releaseWrites_all, before.held]
      · exact (inv.txns tid).aborted before.growing before.held
    · rename_i header pos served
      cases stepped
      apply inv.write (readRpcHandler_lock served)
      · rw [before.held]
        exact .refl _
      · exact (inv.txns tid).stay before ⟨trivial, rfl, rfl⟩ rfl rfl rfl rfl
  · cases stepped

theorem inv_readVerb (inv : Inv config state)
    (stepped : readVerb config state tid = some after) : Inv config after := by
  simp only [readVerb] at stepped
  split at stepped
  · rename_i key reading
    have before : (state.txns tid).HoldsAll := by
      constructor <;> simp only [Txn.Growing, Txn.held, Txn.attempt, reading]
    split at stepped
    · cases stepped
      exact inv.aborted before
    · cases stepped
      exact inv.stay before ⟨trivial, rfl, rfl⟩ rfl rfl rfl rfl
  · cases stepped

theorem inv_readAgainVerb (inv : Inv config state)
    (stepped : readAgainVerb config state tid = some after) : Inv config after := by
  simp only [readAgainVerb] at stepped
  split at stepped
  · rename_i key buffer pos reading
    have before : (state.txns tid).HoldsAll := by
      constructor <;> simp only [Txn.Growing, Txn.held, Txn.attempt, reading]
    split at stepped
    · cases stepped
      exact inv.aborted before
    · split at stepped
      · cases stepped
        exact inv.aborted before
      · obtain ⟨_, _, reached⟩ := Option.map_eq_some_iff.mp stepped
        cases reached
        exact inv.stay before ⟨trivial, rfl, rfl⟩ rfl rfl rfl rfl
  · cases stepped

/-- A transaction that waits for a lock holds everything before its last item. -/
structure Txn.Requests (txn : Txn Key Value) (key : Key) : Prop where
  growing : txn.Growing
  held : txn.held = txn.keys.dropLast
  attempt : txn.attempt = some key

/-- A new item is the last one; what was held is still held. -/
theorem Inv.request (inv : Inv config state) (before : (state.txns tid).HoldsAll)
    {txn' : Txn Key Value} (requests : txn'.Requests key)
    (appended : txn'.keys = (state.txns tid).keys ++ [key])
    (sameTaken : txn'.taken = (state.txns tid).taken)
    (sameFreed : txn'.freed = (state.txns tid).freed)
    (sameFailed : txn'.failed = (state.txns tid).failed) :
    Inv config (state.setTxn tid txn') := by
  have sameHeld : txn'.held.Perm (state.txns tid).held := by
    rw [requests.held, appended, List.dropLast_concat, before.held]
  apply inv.client sameHeld
  apply (inv.txns tid).grow before.growing requests.growing sameHeld sameTaken sameFreed
    sameFailed
  intro other attempted
  rw [requests.attempt] at attempted
  cases attempted
  rw [appended, List.getLast?_concat]

theorem inv_write (inv : Inv config state)
    (stepped : write build state tid key = some after) : Inv config after := by
  simp only [Hybrid.write] at stepped
  split at stepped
  · rename_i executes
    have before := holdsAll_of_execute executes
    split at stepped
    · cases stepped
      exact inv
    · cases path : build.lock with
      | rpc =>
          rw [path] at stepped
          cases stepped
          exact inv.request before ⟨trivial, rfl, rfl⟩ List.map_append rfl rfl rfl
      | rdma =>
          rw [path] at stepped
          cases stepped
          exact inv.request before ⟨trivial, rfl, rfl⟩ List.map_append rfl rfl rfl
  · cases stepped

/-- A refused lock: the transaction holds everything before its last item and hands that to
`release_writes`. -/
theorem Inv.refused (inv : Inv config state) (requests : (state.txns tid).Requests key) :
    ((state.txns tid).refused key false).held.Perm (state.txns tid).held ∧
      TxnOk ((state.txns tid).refused key false) := by
  have handed : (state.txns tid).releaseWrites false = (state.txns tid).held :=
    releaseWrites_butLast.trans requests.held.symm
  constructor
  · show ((state.txns tid).releaseWrites false).Perm _
    rw [handed]
  · exact (inv.txns tid).refused requests.attempt handed

/-- A granted lock: with its last item the transaction holds its whole write set. -/
theorem Inv.granted (inv : Inv config state) (requests : (state.txns tid).Requests key)
    {txn' : Txn Key Value} {header : Header Value} (free : (state.records key).lock = 0)
    (locked : header.lock = config.timestamp tid) (growing : txn'.Growing)
    (all : txn'.held = (state.txns tid).keys)
    (taken : txn'.taken = (state.txns tid).taken ++ [key])
    (sameFreed : txn'.freed = (state.txns tid).freed)
    (sameFailed : txn'.failed = (state.txns tid).failed)
    (attempt : ∀ other ∈ txn'.attempt, txn'.keys.getLast? = some other) :
    Inv config ((state.setRecord key header).setTxn tid txn') := by
  have ok := inv.txns tid
  have last : (state.txns tid).keys.getLast? = some key := ok.attempt key requests.attempt
  have added : txn'.held.Perm (key :: (state.txns tid).held) := by
    rw [all, requests.held]
    exact dropLast_perm last
  exact inv.take free locked added
    (ok.take requests.growing growing (inv.not_held free) added taken sameFreed sameFailed attempt)

theorem fill_key {item filled : WriteItem Key Value} {header : Header Value} {pos maxpos : Slot}
    (isFilled : item.fill build header pos maxpos = some filled) : filled.key = item.key := by
  simp only [WriteItem.fill] at isFilled
  split at isFilled
  · simp only [WriteItem.processReceivedDataHybrid] at isFilled
    split at isFilled
    · cases isFilled
      rfl
    · cases isFilled
  · cases isFilled
    rfl

/-- An item that takes the place of the last one with the same key. -/
theorem keys_setBack {item : WriteItem Key Value}
    (last : txn.keys.getLast? = some item.key) :
    (txn.setBack item).map WriteItem.key = txn.keys := by
  rw [Txn.setBack, List.map_append, List.map_dropLast]
  exact List.dropLast_append_getLast? item.key last

theorem inv_lockReply (inv : Inv config state)
    (stepped : lockReply config build state tid = some after) : Inv config after := by
  have ok := inv.txns tid
  simp only [lockReply] at stepped
  split at stepped
  · rename_i key requesting
    have requests : (state.txns tid).Requests key := by
      constructor <;> simp only [Txn.Growing, Txn.held, Txn.attempt, requesting]
    have last : (state.txns tid).keys.getLast? = some key := ok.attempt key requests.attempt
    split at stepped
    · cases stepped
    · rename_i header pos maxpos served
      obtain ⟨item, isLast, filledSome⟩ := Option.bind_eq_some_iff.mp stepped
      obtain ⟨filled, isFilled, reached⟩ := Option.map_eq_some_iff.mp filledSome
      cases reached
      obtain ⟨_, refusal⟩ | ⟨_, _, _, free, locked, _⟩ := lockReadRpcHandler_cases served
      · exact absurd rfl (refusal pos maxpos)
      · have sameKey : filled.key = key := by
          rw [Txn.keys, List.getLast?_map, isLast, Option.map_some, Option.some.injEq] at last
          rw [fill_key isFilled, last]
        have keys := keys_setBack (sameKey ▸ last)
        exact inv.granted requests free (congrArg Header.lock locked) trivial keys rfl rfl rfl
          nofun
    · rename_i header served
      cases stepped
      obtain ⟨sameHeld, refused⟩ := inv.refused requests
      obtain ⟨same, _⟩ | ⟨_, _, granted, _⟩ := lockReadRpcHandler_cases served
      · exact inv.write (congrArg Header.lock same) sameHeld refused
      · cases granted
    · rename_i header time served
      cases stepped
      obtain ⟨sameHeld, refused⟩ := inv.refused requests
      obtain ⟨same, _⟩ | ⟨_, _, granted, _⟩ := lockReadRpcHandler_cases served
      · exact inv.write (congrArg Header.lock same) sameHeld refused
      · cases granted
  · cases stepped

theorem inv_headerVerb (inv : Inv config state)
    (stepped : headerVerb config state tid = some after) : Inv config after := by
  simp only [headerVerb] at stepped
  split at stepped
  · rename_i key requesting
    have requests : (state.txns tid).Requests key := by
      constructor <;> simp only [Txn.Growing, Txn.held, Txn.attempt, requesting]
    split at stepped
    · cases stepped
      obtain ⟨sameHeld, refused⟩ := inv.refused requests
      exact inv.client sameHeld refused
    · cases stepped
      let locking : Txn Key Value := { state.txns tid with stage := .lock key }
      have goesOn : locking.Requests key := ⟨trivial, rfl, rfl⟩
      have sameHeld : locking.held.Perm (state.txns tid).held := by
        rw [goesOn.held, requests.held]
        exact .refl _
      apply inv.client sameHeld
      apply (inv.txns tid).grow requests.growing goesOn.growing sameHeld rfl rfl rfl
      intro other attempted
      have same : other ∈ (state.txns tid).attempt := requests.attempt ▸ attempted
      exact (inv.txns tid).attempt other same
  · cases stepped

/-- The compare-and-swap takes a free lock, or changes nothing. -/
theorem inv_lockVerb (inv : Inv config state)
    (stepped : lockVerb config state tid = some after) : Inv config after := by
  have ok := inv.txns tid
  simp only [lockVerb] at stepped
  split at stepped
  · rename_i key requesting
    have requests : (state.txns tid).Requests key := by
      constructor <;> simp only [Txn.Growing, Txn.held, Txn.attempt, requesting]
    have last : (state.txns tid).keys.getLast? = some key := ok.attempt key requests.attempt
    cases stepped
    by_cases free : (state.records key).lock = 0
    · have swapped : ((state.records key).casLock (config.timestamp tid)).lock =
          config.timestamp tid := by
        rw [Header.casLock, if_pos free]
      refine inv.granted requests free swapped trivial ?_ ?_ rfl rfl ?_
      · exact if_pos free
      · exact if_pos free
      · rintro other ⟨⟩
        exact last
    · have kept : ((state.records key).casLock (config.timestamp tid)).lock =
          (state.records key).lock := by
        rw [Header.casLock, if_neg free]
      rw [if_neg free]
      let failing : Txn Key Value :=
        { state.txns tid with stage := .lockRead key (state.records key).lock }
      have sameHeld : failing.held.Perm (state.txns tid).held := by
        have butLast : failing.held = (state.txns tid).keys.dropLast := if_neg free
        rw [butLast, requests.held]
      apply inv.write kept sameHeld
      refine ok.grow requests.growing trivial sameHeld rfl rfl rfl ?_
      rintro other ⟨⟩
      exact last
  · cases stepped

/-- The checks behind the swap: -1 goes with an old word that is not 0, -2 with a lock that
was taken. -/
theorem inv_lockReadVerb (inv : Inv config state)
    (stepped : lockReadVerb config state tid = some after) : Inv config after := by
  have ok := inv.txns tid
  simp only [lockReadVerb] at stepped
  split at stepped
  · rename_i key old requesting
    have attempted : (state.txns tid).attempt = some key := by
      simp only [Txn.attempt, requesting]
    have growing : (state.txns tid).Growing := by simp only [Txn.Growing, requesting]
    obtain ⟨result, checked, reached⟩ := Option.map_eq_some_iff.mp stepped
    cases reached
    cases result with
    | fail =>
        have taken : old ≠ 0 := checkBuffer_fail checked
        have butLast : (state.txns tid).held = (state.txns tid).keys.dropLast := by
          simp only [Txn.held, requesting, if_neg taken]
        obtain ⟨sameHeld, refused⟩ := inv.refused ⟨growing, butLast, attempted⟩
        exact inv.client sameHeld refused
    | failLocked =>
        have free : old = 0 := checkBuffer_failLocked checked
        have all : (state.txns tid).held = (state.txns tid).keys := by
          simp only [Txn.held, requesting, if_pos free]
        have handed : (state.txns tid).releaseWrites true = (state.txns tid).held :=
          releaseWrites_all.trans all.symm
        apply inv.client _ (ok.refused attempted handed)
        show ((state.txns tid).releaseWrites true).Perm _
        rw [handed]
    | success item =>
        obtain ⟨free, _⟩ := checkBuffer_success checked
        have all : (state.txns tid).held = (state.txns tid).keys := by
          simp only [Txn.held, requesting, if_pos (show old = 0 from free)]
        have keys : ((state.txns tid).setBack
            { key, seq := item.seq, buffer := .record item.buffer }).map WriteItem.key =
              (state.txns tid).keys := keys_setBack (ok.attempt key attempted)
        let filled : Txn Key Value := { state.txns tid with
          stage := .execute
          writeSet := (state.txns tid).setBack
            { key, seq := item.seq, buffer := .record item.buffer } }
        have sameHeld : filled.held.Perm (state.txns tid).held := by
          rw [all]
          exact .of_eq keys
        exact inv.client sameHeld (ok.grow growing trivial sameHeld rfl rfl rfl nofun)
  · cases stepped

theorem modify_key (item : WriteItem Key Value) (data : Value) :
    (item.modify data).key = item.key := by
  simp only [WriteItem.modify]
  split <;> rfl

theorem inv_modify {data : Value} (inv : Inv config state)
    (stepped : modify state tid key data = some after) : Inv config after := by
  simp only [Hybrid.modify] at stepped
  split at stepped
  · rename_i executes
    cases stepped
    refine inv.stay (holdsAll_of_execute executes) (holdsAll_of_execute executes) ?_ rfl rfl rfl
    simp only [Txn.keys, List.map_map]
    apply List.map_congr_left
    intro item _
    simp only [Function.comp_apply]
    split
    · exact modify_key item data
    · rfl
  · cases stepped

theorem inv_commit (inv : Inv config state) (stepped : commit state tid = some after) :
    Inv config after := by
  simp only [Hybrid.commit] at stepped
  split at stepped
  · rename_i executes
    have before := holdsAll_of_execute executes
    cases stepped
    have updated : ((state.txns tid).writeSet.map (·, false)).map (·.1.key) =
        (state.txns tid).keys := by
      rw [List.map_map]
      rfl
    have sameHeld : (state.txns tid).held.Perm
        (((state.txns tid).writeSet.map (·, false)).map (·.1.key)) := by
      rw [updated, before.held]
    exact inv.client sameHeld.symm
      ((inv.txns tid).shrink sameHeld not_false rfl fun givesUp => givesUp.elim)
  · cases stepped

theorem inv_abort (inv : Inv config state) (stepped : abort state tid = some after) :
    Inv config after := by
  simp only [abort] at stepped
  split at stepped
  · rename_i executes
    cases stepped
    exact inv.aborted (holdsAll_of_execute executes)
  · cases stepped

/-- `update_rpc_handler` clears the lock word. -/
theorem updateRpc_lock {timestamp : Nat} {header after : Header Value}
    {item : WriteItem Key Value} (updated : updateRpc timestamp header item = some after) :
    after.lock = 0 := by
  simp only [updateRpc] at updated
  split at updated
  · obtain ⟨data, _, handled⟩ := Option.bind_eq_some_iff.mp updated
    rw [(updateRpcHandler_eq_some handled).2]
  · cases updated

theorem inv_updateItem {machine : Nat} (inv : Inv config state)
    (stepped : updateItem config build state tid machine = some after) :
    Inv config after := by
  have ok := inv.txns tid
  simp only [updateItem] at stepped
  split at stepped
  · rename_i pending updating
    obtain ⟨⟨⟨item, written⟩, rest⟩, found, reached⟩ := Option.bind_eq_some_iff.mp stepped
    have held : (state.txns tid).held = pending.map (·.1.key) := by
      simp only [Txn.held, updating]
    have removed : (state.txns tid).held.Perm (item.key :: rest.map (·.1.key)) := by
      rw [held]
      exact (nextFor_perm found).map (·.1.key)
    have unlocked : TxnOk { state.txns tid with
        stage := .update rest, freed := (state.txns tid).freed ++ [item.key] } :=
      ok.free removed not_false rfl fun givesUp => givesUp.elim
    simp only at reached
    split at reached
    · obtain ⟨header, updated, same⟩ := Option.map_eq_some_iff.mp reached
      cases same
      exact inv.free (updateRpc_lock updated) removed unlocked
    · split at reached
      · cases reached
        exact inv.free rfl removed unlocked
      · obtain ⟨buffer, _, same⟩ := Option.map_eq_some_iff.mp reached
        cases same
        exact inv.write rfl removed.symm
          (ok.shrink removed not_false rfl fun givesUp => givesUp.elim)
  · cases stepped

theorem inv_releaseItem {machine : Nat} (inv : Inv config state)
    (stepped : releaseItem config build state tid machine = some after) :
    Inv config after := by
  have ok := inv.txns tid
  simp only [releaseItem] at stepped
  split at stepped
  · rename_i pending releasing
    obtain ⟨⟨key, rest⟩, found, reached⟩ := Option.bind_eq_some_iff.mp stepped
    have removed : (state.txns tid).held.Perm (key :: rest) := by
      have held : (state.txns tid).held = pending := by simp only [Txn.held, releasing]
      rw [held]
      exact nextFor_perm found
    have givesUp : (state.txns tid).GivesUp := by simp only [Txn.GivesUp, releasing]
    have unlocked : TxnOk { state.txns tid with
        stage := .release rest, freed := (state.txns tid).freed ++ [key] } :=
      ok.free removed not_false rfl fun _ => givesUp
    simp only at reached
    split at reached
    · obtain ⟨header, released, same⟩ := Option.map_eq_some_iff.mp reached
      cases same
      have cleared : header.lock = 0 := by rw [(releaseRpcHandler_eq_some released).2]
      exact inv.free cleared removed unlocked
    · cases reached
      exact inv.free rfl removed unlocked
  · cases stepped

theorem inv_finish (inv : Inv config state) (stepped : finish state tid = some after) :
    Inv config after := by
  have ok := inv.txns tid
  simp only [finish] at stepped
  split at stepped
  · rename_i updating
    cases stepped
    have nothing : (state.txns tid).held = [] := by simp only [Txn.held, updating, List.map_nil]
    have sameHeld : (state.txns tid).held.Perm [] := by rw [nothing]
    exact inv.client sameHeld.symm
      (ok.shrink sameHeld not_false rfl fun givesUp => givesUp.elim)
  · rename_i releasing
    cases stepped
    have nothing : (state.txns tid).held = [] := by simp only [Txn.held, releasing]
    have sameHeld : (state.txns tid).held.Perm [] := by rw [nothing]
    have givesUp : (state.txns tid).GivesUp := by simp only [Txn.GivesUp, releasing]
    exact inv.client sameHeld.symm (ok.shrink sameHeld not_false rfl fun _ => givesUp)
  · cases stepped

/-- Every step keeps the invariant. -/
theorem inv_step (inv : Inv config state) (action : Action Key Value Tid)
    (stepped : step config build state action = some after) : Inv config after := by
  cases action with
  | «begin» tid => exact inv_begin inv stepped
  | read tid key => exact inv_read inv stepped
  | readReply tid => exact inv_readReply inv stepped
  | readVerb tid => exact inv_readVerb inv stepped
  | readAgainVerb tid => exact inv_readAgainVerb inv stepped
  | write tid key => exact inv_write inv stepped
  | lockReply tid => exact inv_lockReply inv stepped
  | headerVerb tid => exact inv_headerVerb inv stepped
  | lockVerb tid => exact inv_lockVerb inv stepped
  | lockReadVerb tid => exact inv_lockReadVerb inv stepped
  | modify tid key data => exact inv_modify inv stepped
  | commit tid => exact inv_commit inv stepped
  | abort tid => exact inv_abort inv stepped
  | updateItem tid machine => exact inv_updateItem inv stepped
  | releaseItem tid machine => exact inv_releaseItem inv stepped
  | finish tid => exact inv_finish inv stepped

/-- The invariant holds in every run of every build. -/
theorem inv_of_reach {value : Key → Value}
    (reach : Reachable (step config build) (State.initial value) state) : Inv config state :=
  reach.invariant (Inv config) (inv_initial value)
    fun _ action _ inv _ stepped => inv_step inv action stepped

/-! ## Failing requests -/

/-- Locks after failing requests.  A record is never released more often than it was locked,
nor locked twice.  Once the request has returned, every record locked before it has been
locked once and released once, and so has every other record the transaction locked; the
transaction holds no lock, the refused one least of all, and a lock word that is not 0 then
is another's.  Until then some release can always be made.  `release_rpc_handler` and
`update_rpc_handler` find the lock word they assert. -/
structure Clean (config : Config Key Tid) (build : Build) (state : State Key Value Tid) :
    Prop where
  once : ∀ tid key, (state.txns tid).freed.count key ≤ (state.txns tid).taken.count key ∧
    (state.txns tid).taken.count key ≤ 1
  earlier : ∀ tid, (state.txns tid).GaveUp → ∀ key ∈ (state.txns tid).earlier,
    (state.txns tid).taken.count key = 1 ∧ (state.txns tid).freed.count key = 1
  returned : ∀ tid, (state.txns tid).GaveUp → ∀ key,
    (state.txns tid).freed.count key = (state.txns tid).taken.count key
  failed : ∀ tid, (state.txns tid).GaveUp → ∀ key ∈ (state.txns tid).failed,
    ¬ (state.txns tid).Holds key ∧ ((state.records key).lock ≠ 0 →
      ∃ other, other ≠ tid ∧ (state.txns other).Holds key ∧
        (state.records key).lock = config.timestamp other)
  releases : ∀ tid key pending, (state.txns tid).stage = .release (key :: pending) →
    (step config build state (.releaseItem tid (config.pid key))).isSome
  releaseAsserts : build.release = .rpc → ∀ tid pending,
    (state.txns tid).stage = .release pending → ∀ key ∈ pending,
      (state.records key).lock = config.timestamp tid
  updateAsserts : build.commit = .rpc → ∀ tid pending,
    (state.txns tid).stage = .update pending → ∀ entry ∈ pending,
      (state.records entry.1.key).lock = config.timestamp tid

theorem TxnOk.count (ok : TxnOk txn) :
    txn.taken.count key = txn.freed.count key + txn.held.count key := by
  rw [ok.balance.count_eq, List.count_append]

theorem Txn.GaveUp.held (gaveUp : txn.GaveUp) : txn.held = [] := by
  have finished : txn.stage = .finished false := gaveUp
  simp only [Txn.held, finished]

theorem Txn.GaveUp.givesUp (gaveUp : txn.GaveUp) : txn.GivesUp := by
  have finished : txn.stage = .finished false := gaveUp
  simp only [Txn.GivesUp, finished]

theorem TxnOk.count_of_gaveUp (ok : TxnOk txn) (gaveUp : txn.GaveUp) :
    txn.freed.count key = txn.taken.count key := by
  rw [ok.count, gaveUp.held, List.count_nil, Nat.add_zero]

/-- The transaction that a lock word belongs to, once another one holds nothing. -/
theorem Inv.owner_of_gaveUp (inv : Inv config state) (gaveUp : (state.txns tid).GaveUp)
    (locked : (state.records key).lock ≠ 0) :
    ∃ other, other ≠ tid ∧ (state.txns other).Holds key ∧
      (state.records key).lock = config.timestamp other := by
  obtain ⟨other, held⟩ := inv.locks.owner key locked
  refine ⟨other, ?_, (inv.txns other).mem_held.mp held, inv.lock_eq held⟩
  rintro rfl
  rw [gaveUp.held] at held
  cases held

/-- The first release that is pending can be made. -/
theorem Inv.releaseItem_isSome (inv : Inv config state) {pending : List Key}
    (releasing : (state.txns tid).stage = .release (key :: pending)) :
    (releaseItem config build state tid (config.pid key)).isSome := by
  have held : key ∈ (state.txns tid).held := by simp [Txn.held, releasing]
  have own : (state.records key).lock = config.timestamp tid := inv.lock_eq held
  have found : nextFor (config.at (config.pid key)) (key :: pending) = some (key, pending) := by
    simp [nextFor, Config.at]
  simp only [releaseItem, releasing, found, Option.bind_some]
  cases build.release with
  | rpc => simp [releaseRpcHandler, own]
  | rdma => rfl

/-- In every run of every build the locks of a transaction whose request fails are released,
each exactly once. -/
theorem failures_clean {value : Key → Value}
    (reach : Reachable (step config build) (State.initial value) state) :
    Clean config build state := by
  have inv := inv_of_reach reach
  constructor
  · intro tid key
    have ok := inv.txns tid
    exact ⟨by rw [ok.count]; exact Nat.le_add_right _ _,
      List.nodup_iff_count_le_one.mp ok.nodup key⟩
  · intro tid gaveUp key member
    have ok := inv.txns tid
    have taken : (state.txns tid).taken.count key = 1 :=
      List.count_eq_one_of_mem ok.nodup (ok.earlier gaveUp.givesUp key member)
    exact ⟨taken, (ok.count_of_gaveUp gaveUp).trans taken⟩
  · intro tid gaveUp key
    exact (inv.txns tid).count_of_gaveUp gaveUp
  · intro tid gaveUp key _
    refine ⟨?_, inv.owner_of_gaveUp gaveUp⟩
    rw [← (inv.txns tid).mem_held, gaveUp.held]
    exact List.not_mem_nil
  · intro tid key pending releasing
    exact inv.releaseItem_isSome releasing
  · intro _ tid pending releasing key member
    apply inv.lock_eq
    simpa only [Txn.held, releasing] using member
  · intro _ tid pending updating entry member
    apply inv.lock_eq
    simp only [Txn.held, updating]
    exact List.mem_map_of_mem member

end Steps

/-! ## A concrete run -/

/-- Two transactions with the start times 2 and 3; record `n` lies on machine `n`. -/
def pairConfig : Config Nat (Fin 2) where
  pid key := key
  hardCoded _ := false
  timestamp tid := tid.val + 2
  timestamp_ne_zero _ := Nat.succ_ne_zero _

/-- One-sided locks, the rest over RPC. -/
def lockBuild : Build where
  read := .rpc
  lock := .rdma
  release := .rpc
  commit := .rpc

/-- Transaction 0 has locked record 0 and looked at record 1 when transaction 1 reads
record 1; the lock is taken, found useless and released with the other one. -/
theorem failures_clean_locked :
    ∃ state : State Nat Nat (Fin 2), Clean pairConfig lockBuild state ∧
      (state.txns 0).GaveUp ∧ (state.txns 0).failed = some 1 ∧
      (state.txns 0).taken = [0, 1] ∧ (state.txns 0).freed = [1, 0] := by
  have run : ∃ state : State Nat Nat (Fin 2),
      Reachable (step pairConfig lockBuild) (.initial fun _ => 5) state ∧
        (state.txns 0).GaveUp ∧ (state.txns 0).failed = some 1 ∧
        (state.txns 0).taken = [0, 1] ∧ (state.txns 0).freed = [1, 0] :=
    Reach.exists_of_exec
      [.begin 0, .write 0 0, .headerVerb 0, .lockVerb 0, .lockReadVerb 0, .write 0 1,
        .headerVerb 0, .begin 1, .read 1 1, .readReply 1, .lockVerb 0, .lockReadVerb 0,
        .releaseItem 0 1, .releaseItem 0 0, .finish 0] (by decide +kernel)
  obtain ⟨state, reach, gaveUp, failed, taken, freed⟩ := run
  exact ⟨state, failures_clean reach, gaveUp, failed, taken, freed⟩

end Rocc.Mvcc.Hybrid
