import Rocc.Base.Run
import Rocc.Mvcc.Model

/-!
# The invariant of multi-version concurrency control

Between the lock and the update of a writer its record is closed to readers with
a larger timestamp, and a version once read keeps every writer with a smaller
timestamp out.  `Inv` records what follows from this for each item of a
transaction: a version handed out stays the one selected by its timestamp
whatever is installed later.
-/

set_option linter.unusedSectionVars false

namespace Rocc.Mvcc

open Rtx

universe u v w

variable {Key : Type u} {Value : Type v} {Tid : Type w}
variable [DecidableEq Key] [DecidableEq Tid]

/-! ## What a transaction holds and has installed -/

/-- The transaction has not started to unlock. -/
def Stage.Growing : Stage Key Value → Prop
  | .idle => True
  | .execute => True
  | _ => False

/-- Items whose lock the transaction holds. -/
def Txn.holds (txn : Txn Key Value) : List (ReadSetItem Key Value) :=
  match txn.stage with
  | .execute => txn.writeSet
  | .update pending => pending
  | .release pending => pending
  | _ => []

/-- Items whose new version is in the record. -/
def Txn.Installed (txn : Txn Key Value) (item : ReadSetItem Key Value) : Prop :=
  txn.Decided ∧ item ∈ txn.writeSet ∧ item ∉ txn.holds

/-- Lock words are timestamps. -/
def Config.Belongs (config : Config Key Tid) (tid : Tid) (word : Nat) : Prop :=
  word = config.timestamp tid

theorem Config.lockWords (config : Config Key Tid) : LockWords config.Belongs where
  ne_zero := by
    intro tid word mine
    have := config.two_le_timestamp tid
    rw [mine]
    omega
  unique := by
    intro left right word leftMine rightMine
    exact config.timestamp_injective (leftMine.symm.trans rightMine)

/-- Key and word of each lock. -/
def Config.claims (config : Config Key Tid) (tid : Tid) (txn : Txn Key Value) :
    List (Key × Nat) :=
  txn.holds.map fun item => (item.key, config.timestamp tid)

/-! ## Items -/

/-- An item that was read: no smaller writer can come. -/
structure ReadOk (header : Header Value) (history : List (Nat × Value))
    (timestamp : Nat) (item : ReadSetItem Key Value) : Prop where
  marked : timestamp ≤ header.rts
  unlocked : header.lock = 0 ∨ timestamp ≤ header.lock
  selected : Selected history timestamp item.version item.value

/-- An item that is locked: its base is the newest version and the slot chosen for
its own version has the smallest timestamp. -/
structure HoldOk (header : Header Value) (history : List (Nat × Value))
    (timestamp : Nat) (item : ReadSetItem Key Value) : Prop where
  base : (item.version, item.value) ∈ history
  newest : ∀ version ∈ history, version.1 ≤ item.version
  below : item.version < timestamp
  smallest : ∀ slot, header.wts item.seq ≤ header.wts slot

/-- An item that was installed. -/
structure InstallOk (history : List (Nat × Value)) (timestamp : Nat)
    (item : ReadSetItem Key Value) : Prop where
  selected : Selected history timestamp item.version item.value
  written : (timestamp, item.data) ∈ history

/-- The base of a lock is selected by the timestamp of its holder. -/
theorem HoldOk.selected {header : Header Value} {history : List (Nat × Value)}
    {timestamp : Nat} {item : ReadSetItem Key Value}
    (ok : HoldOk header history timestamp item) :
    Selected history timestamp item.version item.value :=
  ⟨ok.base, ok.below, fun version member _ => ok.newest version member⟩

/-- All installed versions are older than a lock holder. -/
theorem HoldOk.above {header : Header Value} {history : List (Nat × Value)}
    {timestamp : Nat} {item : ReadSetItem Key Value}
    (ok : HoldOk header history timestamp item) :
    ∀ version ∈ history, version.1 < timestamp :=
  fun version member => (ok.newest version member).trans_lt ok.below

/-! ## The invariant -/

variable (config : Config Key Tid) (value : Key → Value)

/-- A version is the initial one or was installed by a transaction. -/
def Written (txns : Tid → Txn Key Value) (key : Key) (version : Nat × Value) : Prop :=
  version = (1, value key) ∨ ∃ tid item, (txns tid).Installed item ∧ item.key = key ∧
    version = (config.timestamp tid, item.data)

/-- Ownership of all locks in a state. -/
abbrev State.Ledger (state : State Key Value Tid) : Prop :=
  Rocc.Ledger config.Belongs (fun key => (state.records key).lock)
    (fun tid => config.claims tid (state.txns tid))
    (fun tid => (state.txns tid).stage.Growing) state.events

/-- The invariant of the protocol. -/
structure Inv (state : State Key Value Tid) : Prop where
  ledger : state.Ledger config
  window : ∀ key, Window (state.records key).wts (state.records key).data
    (state.history key)
  base : ∀ key, (1, value key) ∈ state.history key
  written : ∀ key, ∀ version ∈ state.history key, Written config value state.txns key version
  reads : ∀ tid, ∀ item ∈ (state.txns tid).readSet,
    ReadOk (state.records item.key) (state.history item.key) (config.timestamp tid) item
  holds : ∀ tid, ∀ item ∈ (state.txns tid).holds,
    HoldOk (state.records item.key) (state.history item.key) (config.timestamp tid) item
  installed : ∀ tid item, (state.txns tid).Installed item →
    InstallOk (state.history item.key) (config.timestamp tid) item
  keys_nodup : ∀ tid, ((state.txns tid).writeSet.map (·.key)).Nodup
  holds_subset : ∀ tid, ∀ item ∈ (state.txns tid).holds, item ∈ (state.txns tid).writeSet
  commits_nodup : state.commits.Nodup
  mem_commits : ∀ tid, tid ∈ state.commits ↔ (state.txns tid).Decided

variable {config value} {state : State Key Value Tid} {tid : Tid} {txn : Txn Key Value}

theorem window_initial (first : Value) :
    Window (Header.initial first).wts (Header.initial first).data [(1, first)] where
  growing := by simp
  positive := by simp
  stored := by
    intro slot nonzero
    simp only [Header.initial, ne_eq, ite_eq_right_iff, one_ne_zero, imp_false,
      not_not] at nonzero
    simp [Header.initial, nonzero]
  injective := by
    intro left right same nonzero
    simp only [Header.initial] at same nonzero
    split at same
    · split at same
      · rename_i leftZero rightZero
        rw [leftZero, rightZero]
      · cases same
    · rename_i leftOther
      rw [if_neg leftOther] at nonzero
      exact absurd rfl nonzero
  newest := by
    intro version member
    rw [List.mem_singleton.mp member]
    exact .inl ⟨0, rfl⟩

theorem inv_initial (config : Config Key Tid) (value : Key → Value) :
    Inv config value (State.initial value : State Key Value Tid) where
  ledger := Ledger.initial _ _ (fun _ => rfl) (fun _ => rfl)
  window key := window_initial (value key)
  base key := by simp [State.initial]
  written key version member := .inl (by simpa [State.initial] using member)
  reads tid item member := by simp [State.initial] at member
  holds tid item member := by simp [State.initial, Txn.holds] at member
  installed tid item done := by
    simp [State.initial, Txn.Installed] at done
  keys_nodup tid := by simp [State.initial]
  holds_subset tid item member := by simp [State.initial, Txn.holds] at member
  commits_nodup := List.nodup_nil
  mem_commits tid := by simp [State.initial, Txn.Decided]

end Rocc.Mvcc
