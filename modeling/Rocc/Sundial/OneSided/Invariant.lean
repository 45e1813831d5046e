import Mathlib.Data.Prod.Lex
import Rocc.Base.Run
import Rocc.Sundial.OneSided.Model

/-!
# Timestamps of the one-sided path

A header word orders by its write timestamp first and by its read timestamp
within one version.  As long as no blind write puts an older header back, the
word of every record only grows in this order, and every header a client keeps in a
buffer stays below the one in the record.
-/

set_option linter.unusedSectionVars false

namespace Rocc.Sundial.OneSided

open Rtx

universe u v w

variable {Key : Type u} {Value : Type v} {Tid : Type w}
variable [DecidableEq Key] [DecidableEq Tid]

/-! ## Order of header words -/

/-- Both timestamps of a header word, the version first. -/
def lease (word : Nat) : ℕ ×ₗ ℕ := toLex (wts word, rts word)

theorem le_lease_iff {version bound word : Nat} :
    toLex (version, bound) ≤ lease word ↔
      version < wts word ∨ version = wts word ∧ bound ≤ rts word :=
  Prod.Lex.toLex_le_toLex

theorem lease_le_iff {left right : Nat} :
    lease left ≤ lease right ↔
      wts left < wts right ∨ wts left = wts right ∧ rts left ≤ rts right :=
  Prod.Lex.toLex_le_toLex

theorem wts_le_of_lease_le {left right : Nat} (grows : lease left ≤ lease right) :
    wts left ≤ wts right := by
  rcases lease_le_iff.mp grows with newer | ⟨same, -⟩
  · exact newer.le
  · exact same.le

/-- A lease of the current version ends within the read timestamp. -/
theorem le_rts_of_le_lease {version bound word : Nat}
    (granted : toLex (version, bound) ≤ lease word) (current : version = wts word) :
    bound ≤ rts word := by
  rcases le_lease_iff.mp granted with older | ⟨-, covered⟩
  · exact absurd current older.ne
  · exact covered

/-! ## Runs without stale writes -/

/-- The header write of a renewal finds the version that was read, and no longer lease than
it is going to write. -/
def State.RenewalCurrent (state : State Key Value Tid) (tid : Tid) : Prop :=
  let commitId := (state.txns tid).commitId
  ∀ item ∈ (state.txns tid).renewal, ¬ item.Refused commitId → rts item.seq < commitId →
    wts (state.records item.key).seq = wts item.seq ∧
      rts (state.records item.key).seq ≤ commitId

instance (state : State Key Value Tid) (tid : Tid) : Decidable (state.RenewalCurrent tid) :=
  inferInstanceAs (Decidable (∀ item ∈ _, _ → _ → _))

/-- The record the next unlock write of `release_writes` clears at `machine`. -/
def State.nextRelease (config : Config Key Tid) (state : State Key Value Tid) (tid : Tid)
    (machine : Nat) : Option (ReadSetItem Key Value) :=
  (nextFor (config.at ReadSetItem.key machine) (state.txns tid).releasing).map (·.1)

/-- Side condition on the steps of a run: renewals do not overwrite a newer header, commit
ids fit into a timestamp, and a release finds its record unlocked or locked by the releasing
transaction. -/
def WritesCurrent (config : Config Key Tid) (state : State Key Value Tid) :
    Action Key Value Tid → Prop
  | .renewLeaseWrite tid =>
      (state.txns tid).commitId < timestampBound ∧ state.RenewalCurrent tid
  | .prepare tid => (state.txns tid).commitId < timestampBound
  | .renewWrite tid => state.RenewalCurrent tid
  | .releaseVerb tid machine => ∀ item ∈ state.nextRelease config tid machine,
      (state.records item.key).lock = 0 ∨
        (state.records item.key).lock = config.startTime tid
  | _ => True

instance (config : Config Key Tid) (state : State Key Value Tid) :
    (action : Action Key Value Tid) → Decidable (WritesCurrent config state action)
  | .begin _ _ => inferInstanceAs (Decidable True)
  | .read _ _ => inferInstanceAs (Decidable True)
  | .readAgain _ => inferInstanceAs (Decidable True)
  | .write _ _ => inferInstanceAs (Decidable True)
  | .lockCas _ => inferInstanceAs (Decidable True)
  | .lockRead _ => inferInstanceAs (Decidable True)
  | .modify _ _ _ => inferInstanceAs (Decidable True)
  | .renewLease _ _ => inferInstanceAs (Decidable True)
  | .renewLeaseWrite _ => inferInstanceAs (Decidable (_ < _ ∧ State.RenewalCurrent _ _))
  | .prepare _ => inferInstanceAs (Decidable (_ < _))
  | .renewRead _ _ => inferInstanceAs (Decidable True)
  | .renewWrite _ => inferInstanceAs (Decidable (State.RenewalCurrent _ _))
  | .vote _ _ => inferInstanceAs (Decidable True)
  | .updateVerb _ _ => inferInstanceAs (Decidable True)
  | .releaseVerb _ _ => inferInstanceAs (Decidable (∀ item ∈ _, _ ∨ _))
  | .resume _ => inferInstanceAs (Decidable True)

/-! ## The invariant -/

/-- Items with a header that is still going to be looked at, and the read set. -/
def Txn.buffers (txn : Txn Key Value) : List (ReadSetItem Key Value) :=
  match txn.stage with
  | .readAgain item => item :: txn.readSet
  | .renewLease item => item :: txn.readSet
  | .renewWrite pending => pending ++ txn.readSet
  | _ => txn.readSet

/-- Records whose lock the transaction holds. -/
def Txn.locked (txn : Txn Key Value) : List Key :=
  match txn.stage with
  | .idle => []
  | .lockRead key => key :: txn.writeSet.map (·.key)
  | .update pending => pending.map (·.1.key)
  | .release pending _ => pending.map (·.key)
  | .releaseAgain _ => []
  | .finished _ => []
  | _ => txn.writeSet.map (·.key)

/-- The item is locked and not written back. -/
def Txn.Unwritten (txn : Txn Key Value) (item : ReadSetItem Key Value) : Prop :=
  match txn.stage with
  | .idle => False
  | .update pending => (item, false) ∈ pending
  | .release _ _ => False
  | .releaseAgain _ => False
  | .finished _ => False
  | _ => item ∈ txn.writeSet

/-- The lease of the item reaches to the commit id. -/
def Txn.Renewed (txn : Txn Key Value) (item : ReadSetItem Key Value) : Prop :=
  match txn.stage with
  | .renewWrite pending => item ∉ pending
  | .prepared => True
  | .update _ => True
  | .finished true => True
  | _ => False

/-- The commit id is fixed and bounded. -/
def Txn.Prepared (txn : Txn Key Value) : Prop :=
  match txn.stage with
  | .renewRead _ => True
  | .renewWrite _ => True
  | .prepared => True
  | .update _ => True
  | _ => False

/-- An item that was read: neither its timestamps nor the header in its buffer are ahead of
the record. -/
structure ReadOk (node : Node Value) (item : ReadSetItem Key Value) : Prop where
  observed : toLex (item.wts, item.rts) ≤ lease node.seq
  header : lease item.seq ≤ lease node.seq
  word : item.seq < wordBound

/-- An item that will be written: the record still has its version, and the commit id is
larger. -/
structure WriteOk (node : Node Value) (commitId : Nat) (item : ReadSetItem Key Value) :
    Prop where
  current : wts node.seq = item.wts
  after : item.wts < commitId

/-- What holds for one transaction. -/
structure TxnOk (config : Config Key Tid) (records : Key → Node Value) (tid : Tid)
    (txn : Txn Key Value) : Prop where
  reads : ∀ item ∈ txn.buffers, ReadOk (records item.key) item
  renewed : ∀ item ∈ txn.readSet, txn.Renewed item →
    toLex (item.wts, txn.commitId) ≤ lease (records item.key).seq
  locked : ∀ key ∈ txn.locked, (records key).lock = config.startTime tid
  locked_nodup : txn.locked.Nodup
  writes : ∀ item, txn.Unwritten item → WriteOk (records item.key) txn.commitId item
  bounded : txn.Prepared → txn.commitId < timestampBound

/-- The invariant of the runs without stale writes. -/
structure Inv (config : Config Key Tid) (state : State Key Value Tid) : Prop where
  word : ∀ key, (state.records key).seq < wordBound
  ordered : ∀ key, wts (state.records key).seq ≤ rts (state.records key).seq
  last : ∀ key, (state.history key).getLast? =
    some (wts (state.records key).seq, (state.records key).value)
  txnOk : ∀ tid, TxnOk config state.records tid (state.txns tid)

/-- The invariant holds after a step and no header word has gone backwards. -/
structure Progress (config : Config Key Tid) (state after : State Key Value Tid) : Prop where
  inv : Inv config after
  grows : ∀ key, lease (state.records key).seq ≤ lease (after.records key).seq

variable {config : Config Key Tid} {value : Key → Value}
variable {state after : State Key Value Tid} {tid : Tid} {txn : Txn Key Value}
variable {records : Key → Node Value} {key : Key} {node : Node Value}

theorem inv_initial (config : Config Key Tid) (value : Key → Value) :
    Inv config (State.initial value : State Key Value Tid) where
  word key := by simp [State.initial, Node.initial, wordBound]
  ordered key := by simp [State.initial, Node.initial, wts, rts]
  last key := by simp [State.initial, Node.initial, wts]
  txnOk tid := by
    constructor <;> simp [State.initial, Txn.buffers, Txn.Renewed, Txn.locked, Txn.Unwritten,
      Txn.Prepared]

end Rocc.Sundial.OneSided
