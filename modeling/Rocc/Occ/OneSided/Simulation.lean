import Rocc.Occ.OneSided.Model
import Rocc.Occ.Serializability

/-!
# One-sided verbs refine the RPC handlers

A state of the one-sided protocol stands for a state of the protocol over RPC in which
locking and checking a record is one step, and so is writing it back and unlocking it.
The lock of a record counts as taken when the read behind the compare-and-swap has
fetched the sequence word, and as released when sequence word and value have been
written; in between the record is locked and its abstract counterpart is free.

`Rel` relates the two states, and `Inv` says that some related state satisfies the
invariant of the protocol over RPC.
-/

set_option linter.unusedSectionVars false

namespace Rocc.Occ.OneSided

open Rtx

universe u v w

variable {Key : Type u} {Value : Type v} {Tid : Type w}
variable [DecidableEq Key] [DecidableEq Tid]

/-! ## The abstract state -/

/-- The same system over RPC, with one transaction for each coroutine. -/
def Config.toOcc (config : Config Key Tid) : Occ.Config Key Tid Tid where
  pid := config.pid
  owner := id
  lockContent := config.lockContent
  lockContent_ne_zero := config.lockContent_ne_zero
  lockContent_injective := config.lockContent_injective

/-- An item without its header. -/
def Item.toOcc (item : Item Key Value) : ReadSetItem Key Value where
  key := item.key
  seq := item.seq
  value := item.value
  data := item.data

/-- Some item whose verbs have completed does not match. -/
def Flawed (items posted : List (Item Key Value)) : Prop :=
  ∃ key, (∀ other ∈ posted, other.key ≠ key) ∧
    ∃ item ∈ items, item.key = key ∧ ¬ item.Matches

/-- The stages of related transactions.  The abstract transaction knows that it has failed
only when the buffers show it. -/
def StageRel (txn : Txn Key Value) (stage : Occ.Stage Key Value) : Prop :=
  match txn.stage, stage with
  | .idle, .idle => True
  | .execute, .execute => True
  | .lock posted, .lock pending failed =>
      pending.Perm (posted.map fun entry => entry.1.toOcc) ∧
        (failed = true → Flawed txn.writeSet (posted.map (·.1)))
  | .validate posted, .validate pending failed =>
      pending.Perm (posted.map Item.toOcc) ∧
        (failed = true → Flawed txn.readSet posted)
  | .writeBack posted, .writeBack pending =>
      pending.Perm ((posted.filter (!·.2)).map fun entry => entry.1.toOcc)
  | .release posted, .release pending => pending.Perm (posted.map Item.toOcc)
  | .finished committed, .finished returned => committed = returned
  | _, _ => False

/-- Related transactions. -/
structure TxnRel (txn : Txn Key Value) (abstract : Occ.Txn Key Value) : Prop where
  readSet : abstract.readSet = txn.readSet.map Item.toOcc
  writeSet : abstract.writeSet = txn.writeSet.map Item.toOcc
  stage : StageRel txn abstract.stage

/-- The transaction has locked the record and not yet read its sequence word, or has
written it back and not yet unlocked it. -/
def Txn.Between (txn : Txn Key Value) (key : Key) : Prop :=
  match txn.stage with
  | .lock posted => (∃ item, (item, true) ∈ posted ∧ item.key = key) ∧
      ∃ item ∈ txn.writeSet, item.key = key ∧ item.lock = 0
  | .writeBack posted => ∃ item, (item, true) ∈ posted ∧ item.key = key
  | _ => False

/-- Related lock words of one record. -/
structure LockRel (txns : Tid → Txn Key Value) (key : Key) (lock abstract : Nat) : Prop where
  between : ∀ tid, (txns tid).Between key → abstract = 0
  same : (∀ tid, ¬ (txns tid).Between key) → abstract = lock

/-- Related states. -/
structure Rel (state : State Key Value Tid) (abstract : Occ.State Key Value Tid Tid) :
    Prop where
  txns : ∀ tid, TxnRel (state.txns tid) (abstract.txns tid)
  seq : ∀ key, (abstract.records key).seq = (state.records key).seq
  value : ∀ key, (abstract.records key).value = (state.records key).value
  lock : ∀ key, LockRel state.txns key (state.records key).lock (abstract.records key).lock
  idle : ∀ tid, (abstract.txns tid).stage = .idle → abstract.running tid = none

/-! ## Locks and buffers -/

/-- The transaction has not started to release. -/
def Stage.Growing : Stage Key Value → Prop
  | .idle => True
  | .execute => True
  | .lock _ => True
  | _ => False

/-- The compare-and-swap for the record has completed. -/
def Swapped (posted : List (Item Key Value × Bool)) (key : Key) : Prop :=
  ∀ entry ∈ posted, entry.1.key = key → entry.2 = true

instance (posted : List (Item Key Value × Bool)) (key : Key) :
    Decidable (Swapped posted key) :=
  inferInstanceAs (Decidable (∀ _ ∈ _, _))

/-- Records whose lock the transaction has. -/
def Txn.held (txn : Txn Key Value) : List Key :=
  match txn.stage with
  | .lock posted =>
      (txn.writeSet.filter fun item => item.lock = 0 ∧ Swapped posted item.key).map (·.key)
  | .validate _ => txn.writeSet.map (·.key)
  | .writeBack posted => posted.map (·.1.key)
  | .release posted => posted.map (·.key)
  | _ => []

/-- The lock words of a transaction. -/
def Config.Belongs (config : Config Key Tid) (tid : Tid) (word : Nat) : Prop :=
  word = config.lockContent tid

theorem Config.lockWords (config : Config Key Tid) : LockWords config.Belongs where
  ne_zero := by
    rintro tid word rfl
    exact config.lockContent_ne_zero tid
  unique := by
    rintro left right word rfl same
    exact config.lockContent_injective same

/-- The accounts of who holds what. -/
def State.books (config : Config Key Tid) (state : State Key Value Tid) : Books Tid Key :=
  .ofTxns Txn.held (fun txn => txn.stage.Growing) config.lockContent
    (fun key => (state.records key).lock) state.txns state.events

/-- What the buffers of a transaction hold in each stage. -/
def Txn.Buffers (txn : Txn Key Value) : Prop :=
  match txn.stage with
  | .execute => ∀ item ∈ txn.readSet ++ txn.writeSet, item.headerSeq = item.seq
  | .lock _ => ∀ item ∈ txn.readSet, item.headerSeq = item.seq
  | .validate _ => ∀ item ∈ txn.writeSet, item.lock = 0
  | .writeBack posted => ∀ entry ∈ posted, entry.1.headerSeq = entry.1.seq + 2 ∧
      entry.1.seq + 2 < wordBound
  | _ => True

variable (config : Config Key Tid) (seq₀ : Key → Nat) (value₀ : Key → Value)

/-- Some state of the protocol over RPC is related and meets its invariant. -/
def Simulated (state : State Key Value Tid) : Prop :=
  ∃ abstract, Occ.Inv config.toOcc seq₀ value₀ abstract ∧ Rel state abstract

/-- The invariant of the one-sided protocol. -/
structure Inv (state : State Key Value Tid) : Prop where
  books : (state.books config).Balanced config.Belongs
  buffers : ∀ tid, (state.txns tid).Buffers
  simulated : Simulated config seq₀ value₀ state

variable {config seq₀ value₀} {state after : State Key Value Tid} {tid : Tid}
variable {txn : Txn Key Value} {abstract : Occ.State Key Value Tid Tid}

theorem inv_initial (config : Config Key Tid) (seq₀ : Key → Nat) (value₀ : Key → Value) :
    Inv config seq₀ value₀ (State.initial seq₀ value₀) where
  books := Ledger.initial _ _ (fun _ => rfl) (fun _ => rfl)
  buffers _ := trivial
  simulated := by
    refine ⟨Occ.State.initial seq₀ value₀, Occ.inv_initial _ seq₀ value₀, ?_⟩
    constructor
    · exact fun _ => ⟨rfl, rfl, trivial⟩
    · exact fun _ => rfl
    · exact fun _ => rfl
    · exact fun _ => ⟨fun _ between => absurd between id, fun _ => rfl⟩
    · exact fun _ _ => rfl

/-! ## Reading the invariant -/

/-- Two items of the sets with one key are the same. -/
theorem TxnRel.keys_nodup {records : Key → Record Value} {abstractTxn : Occ.Txn Key Value}
    (rel : TxnRel txn abstractTxn)
    (ok : Occ.TxnOk config.toOcc seq₀ records tid abstractTxn) :
    ((txn.readSet ++ txn.writeSet).map (·.key)).Nodup := by
  have nodup := ok.keys_nodup
  rw [rel.readSet, rel.writeSet, ← List.map_append, List.map_map] at nodup
  exact nodup

theorem writeSet_keys_nodup (nodup : ((txn.readSet ++ txn.writeSet).map (·.key)).Nodup) :
    (txn.writeSet.map (·.key)).Nodup := by
  rw [List.map_append, List.nodup_append] at nodup
  exact nodup.2.1

theorem readSet_keys_nodup (nodup : ((txn.readSet ++ txn.writeSet).map (·.key)).Nodup) :
    (txn.readSet.map (·.key)).Nodup := by
  rw [List.map_append, List.nodup_append] at nodup
  exact nodup.1

/-- What a transaction holds carries its lock content. -/
theorem Inv.lock_of_held (inv : Inv config seq₀ value₀ state) {key : Key}
    (held : key ∈ (state.txns tid).held) :
    (state.records key).lock = config.lockContent tid :=
  inv.books.held tid (key, config.lockContent tid) (List.mem_map.mpr ⟨key, held, rfl⟩)

/-- A record with the content of a transaction is held by it. -/
theorem Inv.held_of_lock (inv : Inv config seq₀ value₀ state) {key : Key}
    (locked : (state.records key).lock = config.lockContent tid) :
    key ∈ (state.txns tid).held := by
  have taken : (state.records key).lock ≠ 0 := by
    rw [locked]
    exact config.lockContent_ne_zero tid
  obtain ⟨owner, claim⟩ := inv.books.owner key taken
  obtain ⟨other, held, same⟩ := List.mem_map.mp claim
  obtain ⟨rfl, sameContent⟩ := Prod.mk.inj same
  have owners := config.lockContent_injective (sameContent.trans locked)
  exact owners ▸ held

theorem Inv.tid_eq_of_held (inv : Inv config seq₀ value₀ state) {left right : Tid}
    {key : Key} (leftHeld : key ∈ (state.txns left).held)
    (rightHeld : key ∈ (state.txns right).held) : left = right :=
  config.lockContent_injective
    ((inv.lock_of_held leftHeld).symm.trans (inv.lock_of_held rightHeld))

end Rocc.Occ.OneSided
