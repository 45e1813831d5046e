import Rocc.Base.History
import Rocc.Occ.Serializability

/-!
# Counting updates

A committed transaction adds two to the sequence word of every record that it writes, and none
overwrites a version that another one has overwritten.
-/

set_option linter.unusedSectionVars false

namespace Rocc.Occ

open Rtx

universe u v w x

variable {Key : Type u} {Value : Type v} {Tid : Type w} {Owner : Type x}
variable [DecidableEq Key] [DecidableEq Tid]

/-- The transactions that have passed validation and write the record. -/
def State.writers (state : State Key Value Tid Owner) (key : Key) : List Tid :=
  state.serialOrder.filter fun tid => ((state.txns tid).footprint.writes key).isSome

/-- The versions that they overwrite. -/
def State.overwritten (state : State Key Value Tid Owner) (key : Key) : List Nat :=
  (state.writers key).map fun tid => (state.txns tid).seqOf key

variable [DecidableEq Owner] {config : Config Key Tid Owner} {seq₀ : Key → Nat}
variable {value₀ : Key → Value} {state : State Key Value Tid Owner} {key : Key}

theorem Inv.mem_writers (inv : Inv config seq₀ value₀ state) {tid : Tid} :
    tid ∈ state.writers key ↔
      (state.txns tid).Decided ∧ (state.txns tid).footprint.writes key ≠ none := by
  rw [State.writers, List.mem_filter, inv.mem_serialOrder, Option.isSome_iff_ne_none]

/-- A version that was loaded is the first one or was installed by a writer. -/
theorem Inv.follows (inv : Inv config seq₀ value₀ state) {seq : Nat} {value : Value}
    (origin : Origin seq₀ value₀ state.txns key seq value) :
    seq = seq₀ key ∨ ∃ before ∈ state.overwritten key, before + 2 = seq := by
  refine (inv.origin_cases origin).imp And.left ?_
  rintro ⟨writer, member, writes, version⟩
  refine ⟨_, List.mem_map.mpr ⟨writer, inv.mem_writers.mpr ?_, rfl⟩, version⟩
  exact ⟨inv.mem_serialOrder.mp member, by simp [writes]⟩

/-- What a writer has loaded of the record. -/
theorem Inv.item_of_writer (inv : Inv config seq₀ value₀ state) {tid : Tid}
    (member : tid ∈ state.writers key) :
    ∃ item ∈ (state.txns tid).writeSet, item.key = key ∧
      (state.txns tid).seqOf key = item.seq := by
  obtain ⟨_, writes⟩ := Option.ne_none_iff_exists'.mp (inv.mem_writers.mp member).2
  obtain ⟨item, itemMember, itemKey, -, seen⟩ := (inv.txnOk tid).writes_eq_some writes
  exact ⟨item, itemMember, itemKey, seen⟩

theorem Inv.overwritten_apart (inv : Inv config seq₀ value₀ state) :
    (state.overwritten key).Pairwise fun earlier later => earlier + 2 ≤ later := by
  rw [State.overwritten, List.pairwise_map]
  refine (inv.serialOrder_ordered.filter _).imp_of_mem ?_
  intro earlier later earlierMember laterMember ordered
  obtain ⟨left, leftMember, leftKey, leftSeq⟩ := inv.item_of_writer earlierMember
  obtain ⟨right, rightMember, rightKey, rightSeq⟩ := inv.item_of_writer laterMember
  rw [leftSeq, rightSeq]
  exact ordered.1.writeWrite left leftMember right rightMember (leftKey.trans rightKey.symm)

theorem Inv.origin_of_overwritten (inv : Inv config seq₀ value₀ state) {seq : Nat}
    (member : seq ∈ state.overwritten key) :
    seq₀ key ≤ seq ∧ ∃ value, Origin seq₀ value₀ state.txns key seq value := by
  obtain ⟨tid, writer, rfl⟩ := List.mem_map.mp member
  obtain ⟨item, itemMember, rfl, seen⟩ := inv.item_of_writer writer
  have inSets : item ∈ (state.txns tid).readSet ++ (state.txns tid).writeSet := by
    simp [itemMember]
  rw [seen]
  exact ⟨((inv.txnOk tid).seen item inSets).1, _, inv.loaded tid item inSets⟩

theorem Inv.le_of_origin (inv : Inv config seq₀ value₀ state) {seq : Nat} {value : Value}
    (origin : Origin seq₀ value₀ state.txns key seq value) : seq₀ key ≤ seq := by
  rcases inv.follows origin with rfl | ⟨before, member, rfl⟩
  · exact le_rfl
  · have := (inv.origin_of_overwritten member).1
    omega

/-- The versions overwritten, and with them any version that comes after all of them, are every
second number. -/
theorem Inv.overwritten_append (inv : Inv config seq₀ value₀ state) (more : List Nat)
    (apart : (state.overwritten key ++ more).Pairwise fun earlier later => earlier + 2 ≤ later)
    (origins : ∀ seq ∈ more, ∃ value, Origin seq₀ value₀ state.txns key seq value) :
    state.overwritten key ++ more =
      (List.range (state.overwritten key ++ more).length).map fun index =>
        seq₀ key + 2 * index := by
  have loaded : ∀ seq ∈ state.overwritten key ++ more,
      ∃ value, Origin seq₀ value₀ state.txns key seq value := by
    intro seq member
    rcases List.mem_append.mp member with old | new
    · exact (inv.origin_of_overwritten old).2
    · exact origins seq new
  refine eq_everySecond apart (fun seq member => ?_) fun seq member => ?_
  · obtain ⟨value, origin⟩ := loaded seq member
    exact inv.le_of_origin origin
  · obtain ⟨value, origin⟩ := loaded seq member
    refine (inv.follows origin).imp_right ?_
    rintro ⟨before, beforeMember, same⟩
    exact ⟨before, List.mem_append_left _ beforeMember, same⟩

theorem Inv.overwritten_eq (inv : Inv config seq₀ value₀ state) (key : Key) :
    state.overwritten key =
      (List.range (state.writers key).length).map fun index => seq₀ key + 2 * index := by
  have all := @Inv.overwritten_append _ _ _ _ _ _ _ _ _ _ _ key inv []
  simp only [List.append_nil] at all
  rw [all inv.overwritten_apart (by simp), State.overwritten, List.length_map]

/-- A record that nobody still has to write back has counted all its writers. -/
theorem Inv.seq_eq (inv : Inv config seq₀ value₀ state)
    (settled : ∀ tid item, (state.txns tid).Decided → item ∈ (state.txns tid).writeSet →
      item.key = key → (state.txns tid).Installed item) :
    (state.records key).seq = seq₀ key + 2 * (state.writers key).length := by
  have below : ∀ seq ∈ state.overwritten key, seq + 2 ≤ (state.records key).seq := by
    intro seq member
    obtain ⟨tid, writer, rfl⟩ := List.mem_map.mp member
    obtain ⟨item, itemMember, rfl, seen⟩ := inv.item_of_writer writer
    rw [seen]
    exact (inv.txnOk tid).installed item
      (settled tid item (inv.mem_writers.mp writer).1 itemMember rfl)
  have all := inv.overwritten_append [(state.records key).seq]
    (List.pairwise_append.mpr ⟨inv.overwritten_apart, by simp, by simpa using below⟩)
    (by simpa using ⟨_, inv.current key⟩)
  have last := congrArg (fun list => list[(state.overwritten key).length]?) all
  simpa [State.overwritten] using last

/-- A transaction that has passed validation and is not under way has returned. -/
theorem Txn.Decided.committed {txn : Txn Key Value} (decided : txn.Decided)
    (rests : ¬ txn.stage.Active) : txn.Committed := by
  rw [Txn.Decided] at decided
  rw [Txn.Committed]
  split at decided
  · rename_i writing
    rw [writing] at rests
    exact absurd trivial rests
  · assumption
  · exact decided.elim

/-- In every run the `n`-th transaction that writes a record overwrites the version that the one
before it has installed, so that no update is lost or made twice; and when no transaction is under
way all locks are free and the sequence word of every record has counted its writers. -/
theorem updates_counted (config : Config Key Tid Owner) (seq₀ : Key → Nat) (value₀ : Key → Value)
    (state : State Key Value Tid Owner)
    (reach : Reach (step config) NoWrap (State.initial seq₀ value₀) state) :
    (state.serialOrder.Nodup ∧ ∀ tid, tid ∈ state.serialOrder ↔ (state.txns tid).Decided) ∧
      (∀ key, state.overwritten key =
        (List.range (state.writers key).length).map fun index => seq₀ key + 2 * index) ∧
      ((∀ tid, ¬ (state.txns tid).stage.Active) → ∀ key,
        (state.records key).lock = 0 ∧
          (state.records key).seq = seq₀ key + 2 * (state.writers key).length) := by
  have inv := inv_of_reach reach
  refine ⟨⟨inv.order_nodup.filter _, fun _ => inv.mem_serialOrder⟩, inv.overwritten_eq,
    fun resting key => ⟨?_, inv.seq_eq ?_⟩⟩
  · by_contra locked
    obtain ⟨tid, item, -, ⟨-, held⟩, -⟩ := inv.lockOwner key locked
    have rests := resting tid
    cases stage : (state.txns tid).stage <;> simp_all [Stage.Active]
  · intro tid item decided member _
    have committed := decided.committed (resting tid)
    rw [Txn.Committed] at committed
    simp [Txn.Installed, member, committed]

/-- The two transactions of this run both write record 0. -/
def overwriteRun : List (Action Nat Nat Bool) :=
  [.begin false, .write false 0, .modify false 0 5, .commit false, .lockItem false 0,
    .resume false, .resume false, .commitItem false 0, .resume false, .begin true, .write true 0,
    .modify true 0 6, .commit true, .lockItem true 0, .resume true, .resume true,
    .commitItem true 0, .resume true]

theorem updates_counted_twice : ∃ state : State Nat Nat Bool Bool,
    ((state.txns false).Committed ∧ (state.txns true).Committed) ∧
      (state.records 0).lock = 0 ∧ (state.records 0).seq = 6 + 2 * (state.writers 0).length := by
  have reached : ∃ state : State Nat Nat Bool Bool,
      Reach (step pairConfig) NoWrap (State.initial (fun _ => 6) (fun _ => 10)) state ∧
        (state.txns false).Committed ∧ (state.txns true).Committed :=
    Reach.exists_of_exec overwriteRun (by decide +kernel)
  obtain ⟨state, reach, committed⟩ := reached
  refine ⟨state, committed,
    (updates_counted pairConfig (fun _ => 6) (fun _ => 10) state reach).2.2 ?_ 0⟩
  rintro (_ | _)
  · rw [show (state.txns false).stage = _ from committed.1]
    exact id
  · rw [show (state.txns true).stage = _ from committed.2]
    exact id

end Rocc.Occ
