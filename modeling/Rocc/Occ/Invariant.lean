import Rocc.Base.Run
import Rocc.Occ.Model

/-!
# The invariant of optimistic concurrency control

`Inv` relates the lock and sequence word of every record to the stage of every
transaction.  A transaction that has taken all its locks enters `lockOrder`, and
`Txn.Ordered` says what a transaction that entered earlier and one that entered
later owe to each other: their writes of one record carry growing sequence
words, the later one has validated only records that already carry the earlier
one's writes, and the earlier one read nothing the later one wrote.
-/

namespace Rocc.Occ

open Rtx

universe u v w x

variable {Key : Type u} {Value : Type v} {Tid : Type w} {Owner : Type x}

/-! ## What the stage of a transaction says -/

/-- The coroutine is inside the transaction. -/
def Stage.Active : Stage Key Value → Prop
  | .idle => False
  | .finished _ => False
  | _ => True

/-- The locking phase is over. -/
def Stage.PastLocking : Stage Key Value → Prop
  | .idle => False
  | .execute => False
  | .lock _ _ => False
  | _ => True

namespace Txn

/-- Items whose lock the transaction may have. -/
def MayHold (txn : Txn Key Value) (item : ReadSetItem Key Value) : Prop :=
  item ∈ txn.writeSet ∧
    match txn.stage with
    | .lock pending _ => item ∉ pending
    | .validate _ _ => True
    | .writeBack pending => item ∈ pending
    | .release pending => item ∈ pending
    | _ => False

/-- Items the transaction has locked at the sequence word it loaded. -/
def Secured (txn : Txn Key Value) (item : ReadSetItem Key Value) : Prop :=
  item ∈ txn.writeSet ∧
    match txn.stage with
    | .lock pending failed => failed = false ∧ item ∉ pending
    | .validate _ failed => failed = false
    | .writeBack pending => item ∈ pending
    | _ => False

/-- Items the transaction has written back. -/
def Installed (txn : Txn Key Value) (item : ReadSetItem Key Value) : Prop :=
  item ∈ txn.writeSet ∧
    match txn.stage with
    | .writeBack pending => item ∉ pending
    | .finished committed => committed = true
    | _ => False

/-- The transaction holds or held all its locks and has not failed. -/
def Alive (txn : Txn Key Value) : Prop :=
  match txn.stage with
  | .validate _ failed => failed = false
  | .writeBack _ => True
  | .finished committed => committed = true
  | _ => False

/-- Items of the read set that passed validation. -/
def Validated (txn : Txn Key Value) (item : ReadSetItem Key Value) : Prop :=
  item ∈ txn.readSet ∧
    match txn.stage with
    | .validate pending failed => failed = false ∧ item ∉ pending
    | .writeBack _ => True
    | .finished committed => committed = true
    | _ => False

/-- A message in flight carries items of the set it was built from, each once. -/
def PendingOk (txn : Txn Key Value) : Prop :=
  match txn.stage with
  | .lock pending _ => pending.Nodup ∧ ∀ item ∈ pending, item ∈ txn.writeSet
  | .validate pending _ => pending.Nodup ∧ ∀ item ∈ pending, item ∈ txn.readSet
  | .writeBack pending => pending.Nodup ∧ ∀ item ∈ pending, item ∈ txn.writeSet
  | .release pending => pending.Nodup ∧ ∀ item ∈ pending, item ∈ txn.writeSet
  | _ => True

/-- Obligations between a transaction that took all its locks and one that did so
later. -/
structure Ordered (earlier later : Txn Key Value) : Prop where
  writeWrite : ∀ left ∈ earlier.writeSet, ∀ right ∈ later.writeSet,
    left.key = right.key → left.seq + 2 ≤ right.seq
  readWrite : ∀ left ∈ earlier.readSet, ∀ right ∈ later.writeSet,
    left.key = right.key → left.seq ≤ right.seq
  writeRead : ∀ left ∈ earlier.writeSet, ∀ right, later.Validated right →
    left.key = right.key → left.seq + 2 ≤ right.seq

end Txn

/-! ## The invariant -/

variable (config : Config Key Tid Owner) (seq₀ : Key → Nat) (value₀ : Key → Value)

/-- Facts about one transaction and the records it touches. -/
structure TxnOk (records : Key → Record Value) (tid : Tid)
    (txn : Txn Key Value) : Prop where
  keys_nodup : ((txn.readSet ++ txn.writeSet).map (·.key)).Nodup
  pending : txn.PendingOk
  secured : ∀ item, txn.Secured item →
    (records item.key).lock = config.content tid ∧
      (records item.key).seq = item.seq
  seen : ∀ item ∈ txn.readSet ++ txn.writeSet,
    seq₀ item.key ≤ item.seq ∧ item.seq ≤ (records item.key).seq
  installed : ∀ item, txn.Installed item →
    item.seq + 2 ≤ (records item.key).seq

/-- A sequence word and value of a record are the initial ones or were written
back together. -/
def Origin (txns : Tid → Txn Key Value) (key : Key) (seq : Nat) (value : Value) :
    Prop :=
  (seq = seq₀ key ∧ value = value₀ key) ∨
    ∃ tid item, (txns tid).Installed item ∧ item.key = key ∧
      item.seq + 2 = seq ∧ item.data = value

/-- Replacing transaction `tid` by `txn` adds no obligation towards the others that
is not already met. -/
def Narrows (txns : Tid → Txn Key Value) (tid : Tid) (txn : Txn Key Value) : Prop :=
  txn.Alive → (txns tid).Alive ∧ txn.readSet = (txns tid).readSet ∧
    txn.writeSet = (txns tid).writeSet ∧
    ∀ item, txn.Validated item → (txns tid).Validated item ∨
      ∀ other, other ≠ tid → (txns other).Alive → ∀ left ∈ (txns other).writeSet,
        left.key = item.key → left.seq + 2 ≤ item.seq

/-- The invariant of every run in which no sequence word wraps around. -/
structure Inv (state : State Key Value Tid Owner) : Prop where
  running : ∀ tid, (state.txns tid).stage.Active →
    state.running (config.owner tid) = some tid
  txnOk : ∀ tid, TxnOk config seq₀ state.records tid (state.txns tid)
  lockOwner : ∀ key, (state.records key).lock ≠ 0 →
    ∃ tid item, (state.records key).lock = config.content tid ∧
      (state.txns tid).MayHold item ∧ item.key = key
  loaded : ∀ tid, ∀ item ∈ (state.txns tid).readSet ++ (state.txns tid).writeSet,
    Origin seq₀ value₀ state.txns item.key item.seq item.value
  current : ∀ key, Origin seq₀ value₀ state.txns key (state.records key).seq
    (state.records key).value
  order_nodup : state.lockOrder.Nodup
  order_mem : ∀ tid, (state.txns tid).Alive → tid ∈ state.lockOrder
  order_stage : ∀ tid ∈ state.lockOrder, (state.txns tid).stage.PastLocking
  ordered : state.lockOrder.Pairwise fun earlier later =>
    (state.txns earlier).Alive → (state.txns later).Alive →
      (state.txns earlier).Ordered (state.txns later)

/-! ## Reading the invariant -/

namespace Inv

variable {config} {seq₀} {value₀} {state : State Key Value Tid Owner}

/-- A lock content identifies the transaction that uses it. -/
theorem tid_eq_of_content (inv : Inv config seq₀ value₀ state) {left right : Tid}
    (leftActive : (state.txns left).stage.Active)
    (rightActive : (state.txns right).stage.Active)
    (same : config.content left = config.content right) : left = right := by
  have owners := config.lockContent_injective same
  have leftRuns := inv.running left leftActive
  have rightRuns := inv.running right rightActive
  rw [owners, rightRuns] at leftRuns
  exact (Option.some.inj leftRuns).symm

end Inv

theorem Txn.Secured.active {txn : Txn Key Value} {item : ReadSetItem Key Value}
    (secured : txn.Secured item) : txn.stage.Active := by
  unfold Txn.Secured at secured
  cases stage : txn.stage <;> simp_all [Stage.Active]

/-- A live transaction still has the lock of what it has not written back. -/
theorem Txn.Alive.secured_or_installed {txn : Txn Key Value} (alive : txn.Alive)
    {item : ReadSetItem Key Value} (member : item ∈ txn.writeSet) :
    txn.Secured item ∨ txn.Installed item := by
  unfold Txn.Alive at alive
  unfold Txn.Secured Txn.Installed
  cases stage : txn.stage with
  | writeBack pending => exact (em (item ∈ pending)).imp (⟨member, ·⟩) (⟨member, ·⟩)
  | validate pending failed => simp_all
  | finished committed => simp_all
  | idle | execute | lock | release => simp_all

end Rocc.Occ
