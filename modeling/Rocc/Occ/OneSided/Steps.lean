import Rocc.Occ.OneSided.Simulation

/-!
# Every verb is simulated

One lemma for each step.  It says what the step does on the books of the locks and names
the step of the protocol over RPC it stands for, or that it stands for none.
-/

set_option linter.unusedSectionVars false

namespace Rocc.Occ.OneSided

open Rtx

universe u v w

variable {Key : Type u} {Value : Type v} {Tid : Type w}
variable [DecidableEq Key] [DecidableEq Tid]
variable {config : Config Key Tid} {seq₀ : Key → Nat} {value₀ : Key → Value}
variable {state after : State Key Value Tid} {tid : Tid} {txn : Txn Key Value}
variable {abstract : Occ.State Key Value Tid Tid} {abstractTxn : Occ.Txn Key Value}

/-! ## Related stages -/

theorem TxnRel.idle (rel : TxnRel txn abstractTxn) (stage : txn.stage = .idle) :
    abstractTxn.stage = .idle := by
  have related := rel.stage
  cases other : abstractTxn.stage <;> simp_all [StageRel]

theorem TxnRel.execute (rel : TxnRel txn abstractTxn) (stage : txn.stage = .execute) :
    abstractTxn.stage = .execute := by
  have related := rel.stage
  cases other : abstractTxn.stage <;> simp_all [StageRel]

theorem TxnRel.lock {posted : List (Item Key Value × Bool)} (rel : TxnRel txn abstractTxn)
    (stage : txn.stage = .lock posted) :
    ∃ pending failed, abstractTxn.stage = .lock pending failed ∧
      pending.Perm (posted.map fun entry => entry.1.toOcc) ∧
      (failed = true → Flawed txn.writeSet (posted.map (·.1))) := by
  have related := rel.stage
  cases other : abstractTxn.stage with
  | lock pending failed =>
      simp only [StageRel, stage, other] at related
      exact ⟨pending, failed, rfl, related⟩
  | idle | execute | validate | writeBack | release | finished =>
      simp only [StageRel, stage, other] at related

theorem TxnRel.validate {posted : List (Item Key Value)} (rel : TxnRel txn abstractTxn)
    (stage : txn.stage = .validate posted) :
    ∃ pending failed, abstractTxn.stage = .validate pending failed ∧
      pending.Perm (posted.map Item.toOcc) ∧
      (failed = true → Flawed txn.readSet posted) := by
  have related := rel.stage
  cases other : abstractTxn.stage with
  | validate pending failed =>
      simp only [StageRel, stage, other] at related
      exact ⟨pending, failed, rfl, related⟩
  | idle | execute | lock | writeBack | release | finished =>
      simp only [StageRel, stage, other] at related

theorem TxnRel.writeBack {posted : List (Item Key Value × Bool)}
    (rel : TxnRel txn abstractTxn) (stage : txn.stage = .writeBack posted) :
    ∃ pending, abstractTxn.stage = .writeBack pending ∧
      pending.Perm ((posted.filter (!·.2)).map fun entry => entry.1.toOcc) := by
  have related := rel.stage
  cases other : abstractTxn.stage with
  | writeBack pending =>
      simp only [StageRel, stage, other] at related
      exact ⟨pending, rfl, related⟩
  | idle | execute | lock | validate | release | finished =>
      simp only [StageRel, stage, other] at related

theorem TxnRel.release {posted : List (Item Key Value)} (rel : TxnRel txn abstractTxn)
    (stage : txn.stage = .release posted) :
    ∃ pending, abstractTxn.stage = .release pending ∧
      pending.Perm (posted.map Item.toOcc) := by
  have related := rel.stage
  cases other : abstractTxn.stage with
  | release pending =>
      simp only [StageRel, stage, other] at related
      exact ⟨pending, rfl, related⟩
  | idle | execute | lock | validate | writeBack | finished =>
      simp only [StageRel, stage, other] at related

/-! ## Related states -/

theorem LockRel.frame {txns : Tid → Txn Key Value} {key : Key} {lock other : Nat}
    (rel : LockRel txns key lock other)
    (same : txn.Between key ↔ (txns tid).Between key) :
    LockRel (Function.update txns tid txn) key lock other := by
  have between : ∀ anyone, (Function.update txns tid txn anyone).Between key ↔
      (txns anyone).Between key := by
    intro anyone
    rcases eq_or_ne anyone tid with rfl | different
    · rwa [Function.update_self]
    · rw [Function.update_of_ne different]
  constructor
  · exact fun anyone isBetween => rel.between anyone ((between anyone).mp isBetween)
  · exact fun nobody => rel.same fun anyone isBetween =>
      nobody anyone ((between anyone).mpr isBetween)

/-- Nobody is between the two halves of a step on the record. -/
theorem LockRel.settled {txns : Tid → Txn Key Value} {key : Key} {lock other : Nat}
    (nobody : ∀ tid, ¬ (txns tid).Between key) (same : other = lock) :
    LockRel txns key lock other where
  between anyone isBetween := absurd isBetween (nobody anyone)
  same _ := same

/-- Somebody is between the two halves of a step on the record. -/
theorem LockRel.halfway {txns : Tid → Txn Key Value} {key : Key} {lock other : Nat}
    (somebody : (txns tid).Between key) (free : other = 0) :
    LockRel txns key lock other where
  between _ _ := free
  same nobody := absurd somebody (nobody tid)

/-- One transaction moves on both sides. -/
theorem Rel.update (rel : Rel state abstract) {records others : Key → Record Value}
    {events : List (LockEvent Tid Key)} {running : Tid → Option Tid} {order : List Tid}
    (own : TxnRel txn abstractTxn)
    (seq : ∀ key, (others key).seq = (records key).seq)
    (value : ∀ key, (others key).value = (records key).value)
    (lock : ∀ key, LockRel (Function.update state.txns tid txn) key (records key).lock
      (others key).lock)
    (idle : abstractTxn.stage ≠ .idle)
    (unmoved : ∀ other, other ≠ tid → running other = abstract.running other) :
    Rel { records, txns := Function.update state.txns tid txn, events }
      { records := others, txns := Function.update abstract.txns tid abstractTxn, running,
        lockOrder := order } where
  txns other := by
    rcases eq_or_ne other tid with rfl | different
    · simpa using own
    · simpa [different] using rel.txns other
  seq := seq
  value := value
  lock := lock
  idle other := by
    rcases eq_or_ne other tid with rfl | different
    · simpa using fun isIdle => absurd isIdle idle
    · simpa [different, unmoved other different] using rel.idle other

/-- A step that leaves the records alone on both sides. -/
theorem Rel.move (rel : Rel state abstract) {running : Tid → Option Tid} {order : List Tid}
    (own : TxnRel txn abstractTxn)
    (between : ∀ key, txn.Between key ↔ (state.txns tid).Between key)
    (idle : abstractTxn.stage ≠ .idle)
    (unmoved : ∀ other, other ≠ tid → running other = abstract.running other) :
    Rel (state.setTxn tid txn)
      { abstract with
        txns := Function.update abstract.txns tid abstractTxn, running, lockOrder := order } :=
  rel.update own rel.seq rel.value (fun key => (rel.lock key).frame (between key)) idle unmoved

/-- What one step does: on the books, to the buffers, and to the abstract state. -/
structure Advance (config : Config Key Tid) (seq₀ : Key → Nat) (value₀ : Key → Value)
    (tid : Tid) (before after : State Key Value Tid) : Prop where
  books : Books.Step config.Belongs tid (before.books config) (after.books config)
  buffers : ∀ other, (after.txns other).Buffers
  simulated : Simulated config seq₀ value₀ after

theorem Inv.buffers_update (inv : Inv config seq₀ value₀ state) (own : txn.Buffers) :
    ∀ other, (Function.update state.txns tid txn other).Buffers := by
  rw [Function.forall_update_iff state.txns fun _ txn => txn.Buffers]
  exact ⟨own, fun other _ => inv.buffers other⟩

/-- Outside the stages `lock` and `writeBack` a transaction is between nothing. -/
theorem not_between (notLocking : ∀ posted, txn.stage ≠ .lock posted)
    (notWriting : ∀ posted, txn.stage ≠ .writeBack posted) (key : Key) :
    ¬ txn.Between key := by
  cases stage : txn.stage with
  | lock posted => exact absurd stage (notLocking posted)
  | writeBack posted => exact absurd stage (notWriting posted)
  | idle | execute | validate | release | finished => simp [Txn.Between, stage]

/-! ## Execution -/

theorem advance_begin (inv : Inv config seq₀ value₀ state)
    (stepped : begin state tid = some after) :
    Advance config seq₀ value₀ tid state after := by
  simp only [begin] at stepped
  split at stepped
  · rename_i idle
    cases stepped
    obtain ⟨abstract, occ, rel⟩ := inv.simulated
    have wasIdle := (rel.txns tid).idle idle
    have free : abstract.running (config.toOcc.owner tid) = none := rel.idle tid wasIdle
    have started : Occ.begin config.toOcc abstract tid = some
        { abstract.setTxn tid { stage := .execute, readSet := [], writeSet := [] } with
          running := Function.update abstract.running tid (some tid) } := by
      simp only [Occ.begin, wasIdle, free]
      rfl
    constructor
    · apply Books.Step.ofTxns_frame (fun _ => rfl)
      · simp [Txn.held, idle]
      · simp [idle, Stage.Growing]
    · exact inv.buffers_update (by simp [Txn.Buffers])
    · refine ⟨_, Occ.inv_begin occ started, ?_⟩
      apply rel.move
      · exact ⟨rfl, rfl, trivial⟩
      · simp [Txn.Between, idle]
      · simp
      · intro other different
        exact Function.update_of_ne different _ _
  · cases stepped

theorem TxnRel.fresh (rel : TxnRel txn abstractTxn) {key : Key} (fresh : txn.Fresh key) :
    abstractTxn.Fresh key := by
  intro item member
  rw [rel.readSet, rel.writeSet, ← List.map_append] at member
  obtain ⟨own, ownMember, rfl⟩ := List.mem_map.mp member
  exact fresh own ownMember

/-- Replacing the sets of a transaction that executes. -/
theorem Inv.setSets (inv : Inv config seq₀ value₀ state)
    (executes : (state.txns tid).stage = .execute) {readSet writeSet : List (Item Key Value)}
    (headers : ∀ item ∈ readSet ++ writeSet, item.headerSeq = item.seq)
    (occ : ∀ abstract, Occ.Inv config.toOcc seq₀ value₀ abstract → Rel state abstract →
      Occ.Inv config.toOcc seq₀ value₀ (abstract.setTxn tid
        { stage := .execute, readSet := readSet.map Item.toOcc,
          writeSet := writeSet.map Item.toOcc })) :
    Advance config seq₀ value₀ tid state
      (state.setTxn tid { stage := .execute, readSet, writeSet }) := by
  obtain ⟨abstract, holds, rel⟩ := inv.simulated
  constructor
  · apply Books.Step.ofTxns_frame (fun _ => rfl)
    · simp [Txn.held, executes]
    · simp [executes, Stage.Growing]
  · exact inv.buffers_update headers
  · refine ⟨_, occ abstract holds rel, ?_⟩
    apply rel.move
    · exact ⟨rfl, rfl, trivial⟩
    · simp [Txn.Between, executes]
    · simp
    · exact fun _ _ => rfl

theorem Inv.headers_of_execute (inv : Inv config seq₀ value₀ state)
    (executes : (state.txns tid).stage = .execute) :
    ∀ item ∈ (state.txns tid).readSet ++ (state.txns tid).writeSet,
      item.headerSeq = item.seq := by
  have buffers := inv.buffers tid
  simpa only [Txn.Buffers, executes] using buffers

theorem advance_read (inv : Inv config seq₀ value₀ state) {key : Key}
    (stepped : read state tid key = some after) :
    Advance config seq₀ value₀ tid state after := by
  simp only [read] at stepped
  split at stepped
  · rename_i executes
    split at stepped
    · rename_i fresh
      cases stepped
      have headers := inv.headers_of_execute executes
      rw [executes]
      apply inv.setSets executes
      · intro item member
        have grown : item = load key (state.records key) ∨
            item ∈ (state.txns tid).readSet ++ (state.txns tid).writeSet := by
          simp only [List.mem_append, List.mem_singleton] at member ⊢
          tauto
        rcases grown with rfl | member
        · rfl
        · exact headers item member
      · intro abstract occ rel
        have own := rel.txns tid
        apply occ.addItem (own.execute executes)
        · rw [own.readSet, own.writeSet, List.map_append, List.append_assoc]
          exact List.perm_middle
        · exact own.fresh fresh
        · exact (rel.seq key).symm
        · exact (rel.value key).symm
    · cases stepped
  · cases stepped

theorem advance_write (inv : Inv config seq₀ value₀ state) {key : Key}
    (stepped : write state tid key = some after) :
    Advance config seq₀ value₀ tid state after := by
  simp only [write] at stepped
  split at stepped
  · rename_i executes
    split at stepped
    · rename_i fresh
      cases stepped
      have headers := inv.headers_of_execute executes
      rw [executes]
      apply inv.setSets executes
      · intro item member
        rw [← List.append_assoc, List.mem_append, List.mem_singleton] at member
        rcases member with member | rfl
        · exact headers item member
        · rfl
      · intro abstract occ rel
        have own := rel.txns tid
        apply occ.addItem (own.execute executes)
        · rw [own.readSet, own.writeSet, List.map_append, ← List.append_assoc]
          exact List.perm_append_singleton _ _
        · exact own.fresh fresh
        · exact (rel.seq key).symm
        · exact (rel.value key).symm
    · cases stepped
  · cases stepped

theorem advance_modify (inv : Inv config seq₀ value₀ state) {key : Key} {data : Value}
    (stepped : modify state tid key data = some after) :
    Advance config seq₀ value₀ tid state after := by
  simp only [modify] at stepped
  split at stepped
  · rename_i executes
    cases stepped
    have headers := inv.headers_of_execute executes
    rw [executes]
    apply inv.setSets executes
    · intro item member
      rcases List.mem_append.mp member with member | member
      · exact headers item (List.mem_append_left _ member)
      · obtain ⟨own, ownMember, rfl⟩ := List.mem_map.mp member
        have known := headers own (List.mem_append_right _ ownMember)
        split <;> exact known
    · intro abstract occ rel
      have own := rel.txns tid
      have modified : Occ.modify abstract tid key data = some (abstract.setTxn tid
          { stage := .execute, readSet := (state.txns tid).readSet.map Item.toOcc,
            writeSet := ((state.txns tid).writeSet.map fun item =>
              if item.key = key then { item with data } else item).map Item.toOcc }) := by
        simp only [Occ.modify, own.execute executes, own.readSet, own.writeSet, List.map_map,
          Option.some.injEq]
        congr 2
        apply List.map_congr_left
        intro item _
        by_cases same : item.key = key <;> simp [Item.toOcc, same]
      exact Occ.inv_modify occ modified
  · cases stepped

/-- Copying the sequence word of the header changes nothing before the verbs are posted. -/
theorem map_copySeq {items : List (Item Key Value)}
    (headers : ∀ item ∈ items, item.headerSeq = item.seq) : items.map Item.copySeq = items := by
  conv_rhs => rw [← List.map_id items]
  apply List.map_congr_left
  intro item member
  have same := headers item member
  cases item
  simp only at same
  subst same
  rfl

theorem advance_commit (inv : Inv config seq₀ value₀ state)
    (stepped : commit state tid = some after) :
    Advance config seq₀ value₀ tid state after := by
  simp only [commit] at stepped
  split at stepped
  · rename_i executes
    have headers := inv.headers_of_execute executes
    rw [map_copySeq fun item member => headers item (List.mem_append_right _ member)] at stepped
    cases stepped
    obtain ⟨abstract, occ, rel⟩ := inv.simulated
    have own := rel.txns tid
    have locking : Occ.commit abstract tid = some
        (abstract.setStage tid (.lock (abstract.txns tid).writeSet false)) := by
      simp only [Occ.commit, own.execute executes]
    constructor
    · apply Books.Step.ofTxns_frame (fun _ => rfl)
      · have nothing : ∀ item ∈ (state.txns tid).writeSet,
            ¬ Swapped ((state.txns tid).writeSet.map (·, false)) item.key := by
          intro item member swapped
          cases swapped (item, false) (List.mem_map.mpr ⟨item, member, rfl⟩) rfl
        simp +contextual [Txn.held, executes, nothing]
      · exact fun _ => by simp [executes, Stage.Growing]
    · apply inv.buffers_update
      exact fun item member => headers item (List.mem_append_left _ member)
    · refine ⟨_, Occ.inv_commit occ locking, ?_⟩
      apply rel.move
      · refine ⟨own.readSet, own.writeSet, ?_⟩
        simp [StageRel, own.writeSet, Function.comp_def]
      · simp [Txn.Between, executes]
      · simp
      · exact fun _ _ => rfl
  · cases stepped

/-! ## Buffers -/

theorem receive_keys (items : List (Item Key Value)) (target : Key)
    {fill : Item Key Value → Item Key Value} (sameKey : ∀ item, (fill item).key = item.key) :
    (receive items target fill).map (·.key) = items.map (·.key) := by
  rw [receive, List.map_map]
  apply List.map_congr_left
  intro item _
  simp only [Function.comp_apply]
  split
  · exact sameKey item
  · rfl

theorem receive_toOcc (items : List (Item Key Value)) (target : Key)
    {fill : Item Key Value → Item Key Value} (same : ∀ item, (fill item).toOcc = item.toOcc) :
    (receive items target fill).map Item.toOcc = items.map Item.toOcc := by
  rw [receive, List.map_map]
  apply List.map_congr_left
  intro item _
  simp only [Function.comp_apply]
  split
  · exact same item
  · rfl

/-- A verb changes the buffer of its own item. -/
theorem exists_receive_self {items : List (Item Key Value)} {target : Key}
    (fill : Item Key Value → Item Key Value) (sameKey : ∀ item, (fill item).key = item.key)
    {property : Item Key Value → Prop} :
    (∃ item ∈ receive items target fill, item.key = target ∧ property item) ↔
      ∃ item ∈ items, item.key = target ∧ property (fill item) := by
  constructor
  · rintro ⟨_, member, isTarget, holds⟩
    obtain ⟨item, itemMember, rfl⟩ := List.mem_map.mp member
    by_cases same : item.key = target
    · rw [if_pos same] at holds
      exact ⟨item, itemMember, same, holds⟩
    · rw [if_neg same] at isTarget
      exact absurd isTarget same
  · rintro ⟨item, member, same, holds⟩
    refine ⟨fill item, List.mem_map.mpr ⟨item, member, if_pos same⟩, ?_, holds⟩
    rw [sameKey]
    exact same

/-- A verb leaves the buffers of the other items alone. -/
theorem exists_receive_of_ne {items : List (Item Key Value)} {target key : Key}
    (fill : Item Key Value → Item Key Value) (sameKey : ∀ item, (fill item).key = item.key)
    (different : key ≠ target) {property : Item Key Value → Prop} :
    (∃ item ∈ receive items target fill, item.key = key ∧ property item) ↔
      ∃ item ∈ items, item.key = key ∧ property item := by
  constructor
  · rintro ⟨_, member, isKey, holds⟩
    obtain ⟨item, itemMember, rfl⟩ := List.mem_map.mp member
    by_cases same : item.key = target
    · rw [if_pos same, sameKey, same] at isKey
      exact absurd isKey.symm different
    · rw [if_neg same] at isKey holds
      exact ⟨item, itemMember, isKey, holds⟩
  · rintro ⟨item, member, rfl, holds⟩
    exact ⟨item, List.mem_map.mpr ⟨item, member, if_neg different⟩, rfl, holds⟩

/-- A flaw stays when the verbs of another item go on. -/
theorem Flawed.receive {items posted rest : List (Item Key Value)} {target : Key}
    {fill : Item Key Value → Item Key Value} (sameKey : ∀ item, (fill item).key = item.key)
    (flawed : Flawed items posted) (inPosted : ∃ item ∈ posted, item.key = target)
    (shrinks : ∀ item ∈ rest, ∃ other ∈ posted, other.key = item.key) :
    Flawed (receive items target fill) rest := by
  obtain ⟨key, completed, mismatch⟩ := flawed
  have different : key ≠ target := by
    rintro rfl
    obtain ⟨item, member, same⟩ := inPosted
    exact completed item member same
  refine ⟨key, ?_, (exists_receive_of_ne fill sameKey different).mpr mismatch⟩
  intro item member same
  obtain ⟨other, otherMember, sameOther⟩ := shrinks item member
  exact completed other otherMember (sameOther.trans same)

/-! ## The messages of a phase -/

/-- Distinct items of a set with distinct keys have distinct keys. -/
theorem keys_nodup_of_subset {pending items : List (ReadSetItem Key Value)}
    (nodup : pending.Nodup) (subset : ∀ item ∈ pending, item ∈ items)
    (keys : (items.map (·.key)).Nodup) : (pending.map (·.key)).Nodup := by
  apply List.Nodup.map_on _ nodup
  intro left leftMember right rightMember sameKey
  exact List.inj_on_of_nodup_map keys (subset left leftMember) (subset right rightMember)
    sameKey

theorem Inv.writeSet_nodup (inv : Inv config seq₀ value₀ state) (tid : Tid) :
    ((state.txns tid).writeSet.map (·.key)).Nodup := by
  obtain ⟨abstract, occ, rel⟩ := inv.simulated
  exact writeSet_keys_nodup ((rel.txns tid).keys_nodup (occ.txnOk tid))

/-- The verbs posted for the items of a set have distinct keys. -/
theorem posted_of_pending {items posted : List (Item Key Value)}
    {pending : List (ReadSetItem Key Value)} (nodup : pending.Nodup)
    (subset : ∀ item ∈ pending, item ∈ items.map Item.toOcc)
    (keys : (items.map (·.key)).Nodup) (same : pending.Perm (posted.map Item.toOcc)) :
    (posted.map (·.key)).Nodup ∧ ∀ item ∈ posted, ∃ own ∈ items, own.toOcc = item.toOcc := by
  have itemKeys : ((items.map Item.toOcc).map (·.key)).Nodup := by
    rw [List.map_map]
    exact keys
  constructor
  · have pendingKeys := keys_nodup_of_subset nodup subset itemKeys
    rw [(same.map _).nodup_iff, List.map_map] at pendingKeys
    exact pendingKeys
  · intro item member
    have inPending : item.toOcc ∈ pending :=
      same.mem_iff.mpr (List.mem_map.mpr ⟨item, member, rfl⟩)
    exact List.mem_map.mp (subset _ inPending)

/-- What is known about the verbs of a lock phase. -/
theorem TxnRel.locking {records : Key → Record Value} {posted : List (Item Key Value × Bool)}
    {pending : List (ReadSetItem Key Value)} {failed : Bool} (rel : TxnRel txn abstractTxn)
    (ok : Occ.TxnOk config.toOcc seq₀ records tid abstractTxn)
    (stage : abstractTxn.stage = .lock pending failed)
    (same : pending.Perm (posted.map fun entry => entry.1.toOcc)) :
    (posted.map (·.1.key)).Nodup ∧
      ∀ entry ∈ posted, ∃ own ∈ txn.writeSet, own.toOcc = entry.1.toOcc := by
  have oldPending := ok.pending
  simp only [Occ.Txn.PendingOk, stage, rel.writeSet] at oldPending
  have samePosted : pending.Perm ((posted.map (·.1)).map Item.toOcc) := by
    rw [List.map_map]
    exact same
  obtain ⟨nodup, inSet⟩ := posted_of_pending oldPending.1 oldPending.2
    (writeSet_keys_nodup (rel.keys_nodup ok)) samePosted
  rw [List.map_map] at nodup
  exact ⟨nodup, fun entry member => inSet entry.1 (List.mem_map.mpr ⟨entry, member, rfl⟩)⟩

/-- What is known about the verbs of a validation. -/
theorem TxnRel.validating {records : Key → Record Value} {posted : List (Item Key Value)}
    {pending : List (ReadSetItem Key Value)} {failed : Bool} (rel : TxnRel txn abstractTxn)
    (ok : Occ.TxnOk config.toOcc seq₀ records tid abstractTxn)
    (stage : abstractTxn.stage = .validate pending failed)
    (same : pending.Perm (posted.map Item.toOcc)) :
    (posted.map (·.key)).Nodup ∧
      ∀ item ∈ posted, ∃ own ∈ txn.readSet, own.toOcc = item.toOcc := by
  have oldPending := ok.pending
  simp only [Occ.Txn.PendingOk, stage, rel.readSet] at oldPending
  exact posted_of_pending oldPending.1 oldPending.2
    (readSet_keys_nodup (rel.keys_nodup ok)) same

/-! ## Locking -/

section Locking

variable {posted rest : List (Item Key Value × Bool)} {item : Item Key Value}

theorem swapped_cas (split : posted.Perm ((item, false) :: rest))
    (nodup : (posted.map (·.1.key)).Nodup) (key : Key) :
    Swapped ((item, true) :: rest) key ↔ key = item.key ∨ Swapped posted key := by
  rw [(split.map _).nodup_iff, List.map_cons, List.nodup_cons] at nodup
  have notRest : ∀ entry ∈ rest, entry.1.key ≠ item.key := fun entry member same =>
    nodup.1 (List.mem_map.mpr ⟨entry, member, same⟩)
  constructor
  · intro swapped
    by_cases same : key = item.key
    · exact .inl same
    · right
      intro entry member isKey
      rcases List.mem_cons.mp (split.mem_iff.mp member) with rfl | member
      · exact absurd isKey.symm same
      · exact swapped entry (List.mem_cons_of_mem _ member) isKey
  · rintro (rfl | swapped) entry member isKey
    · rcases List.mem_cons.mp member with rfl | member
      · rfl
      · exact absurd isKey (notRest entry member)
    · rcases List.mem_cons.mp member with rfl | member
      · rfl
      · exact swapped entry (split.mem_iff.mpr (List.mem_cons_of_mem _ member)) isKey

theorem swapped_read (split : posted.Perm ((item, true) :: rest)) (key : Key) :
    Swapped rest key ↔ Swapped posted key := by
  constructor
  · intro swapped entry member isKey
    rcases List.mem_cons.mp (split.mem_iff.mp member) with rfl | member
    · rfl
    · exact swapped entry member isKey
  · intro swapped entry member isKey
    exact swapped entry (split.mem_iff.mpr (List.mem_cons_of_mem _ member)) isKey

theorem mem_held_lock (stage : txn.stage = .lock posted) (key : Key) :
    key ∈ txn.held ↔
      (∃ own ∈ txn.writeSet, own.key = key ∧ own.lock = 0) ∧ Swapped posted key := by
  simp only [Txn.held, stage, List.mem_map, List.mem_filter, decide_eq_true_eq]
  constructor
  · rintro ⟨own, ⟨member, free, swapped⟩, rfl⟩
    exact ⟨⟨own, member, rfl, free⟩, swapped⟩
  · rintro ⟨⟨own, member, rfl, free⟩, swapped⟩
    exact ⟨own, ⟨member, free, swapped⟩, rfl⟩

theorem held_nodup_lock (stage : txn.stage = .lock posted)
    (nodup : (txn.writeSet.map (·.key)).Nodup) : txn.held.Nodup := by
  simp only [Txn.held, stage]
  exact nodup.sublist (List.filter_sublist.map _)

theorem between_lock (stage : txn.stage = .lock posted) (key : Key) :
    txn.Between key ↔ (∃ item, (item, true) ∈ posted ∧ item.key = key) ∧
      ∃ own ∈ txn.writeSet, own.key = key ∧ own.lock = 0 := by
  simp [Txn.Between, stage]

/-- A record between compare-and-swap and read is held. -/
theorem held_of_between (stage : txn.stage = .lock posted)
    (nodup : (posted.map (·.1.key)).Nodup) {key : Key} (between : txn.Between key) :
    key ∈ txn.held := by
  obtain ⟨⟨found, member, isKey⟩, own⟩ := (between_lock stage key).mp between
  refine (mem_held_lock stage key).mpr ⟨own, ?_⟩
  intro entry entryMember sameKey
  have same : entry = (found, true) :=
    List.inj_on_of_nodup_map nodup entryMember member (sameKey.trans isKey.symm)
  rw [same]

end Locking

/-- A record between the two halves of a step is held. -/
theorem Inv.held_of_between (inv : Inv config seq₀ value₀ state) {key : Key}
    (between : (state.txns tid).Between key) : key ∈ (state.txns tid).held := by
  obtain ⟨abstract, occ, rel⟩ := inv.simulated
  cases stage : (state.txns tid).stage with
  | lock posted =>
      obtain ⟨pending, failed, locking, same, -⟩ := (rel.txns tid).lock stage
      have nodup := ((rel.txns tid).locking (occ.txnOk tid) locking same).1
      exact OneSided.held_of_between stage nodup between
  | writeBack posted =>
      simp only [Txn.Between, stage] at between
      obtain ⟨item, member, rfl⟩ := between
      simp only [Txn.held, stage]
      exact List.mem_map.mpr ⟨(item, true), member, rfl⟩
  | idle | execute | validate | release | finished =>
      simp only [Txn.Between, stage] at between

/-- A free record is between no two halves of a step. -/
theorem Inv.not_between_of_free (inv : Inv config seq₀ value₀ state) {key : Key}
    (free : (state.records key).lock = 0) (other : Tid) :
    ¬ (state.txns other).Between key := by
  intro between
  have locked := inv.lock_of_held (inv.held_of_between between)
  exact config.lockContent_ne_zero other (locked.symm.trans free)

/-- Only its holder is between the two halves of a step on a record. -/
theorem Inv.tid_eq_of_between (inv : Inv config seq₀ value₀ state) {key : Key} {other : Tid}
    (held : key ∈ (state.txns tid).held) (between : (state.txns other).Between key) :
    other = tid :=
  inv.tid_eq_of_held (inv.held_of_between between) held

/-- The posted compare-and-swap of an item is done. -/
theorem between_swap {posted rest : List (Item Key Value × Bool)} {item : Item Key Value}
    {lock : Nat} (locking : txn.stage = .lock posted)
    (split : posted.Perm ((item, false) :: rest)) {key : Key} (different : key ≠ item.key) :
    (txn.swap item rest lock).Between key ↔ txn.Between key := by
  rw [between_lock rfl, between_lock locking]
  simp only [Txn.swap]
  rw [exists_receive_of_ne (·.found lock) (fun _ => rfl) different]
  apply and_congr_left
  intro _
  constructor
  · rintro ⟨found, member, isKey⟩
    rcases List.mem_cons.mp member with isItem | member
    · cases isItem
      exact absurd isKey.symm different
    · exact ⟨found, split.mem_iff.mpr (List.mem_cons_of_mem _ member), isKey⟩
  · rintro ⟨found, member, isKey⟩
    rcases List.mem_cons.mp (split.mem_iff.mp member) with isItem | member
    · cases isItem
    · exact ⟨found, List.mem_cons_of_mem _ member, isKey⟩

/-- The transactions stay related when the compare-and-swap of an item is done. -/
theorem TxnRel.swap {posted rest : List (Item Key Value × Bool)} {item : Item Key Value}
    {lock : Nat} (rel : TxnRel txn abstractTxn) (locking : txn.stage = .lock posted)
    (split : posted.Perm ((item, false) :: rest)) :
    TxnRel (txn.swap item rest lock) abstractTxn := by
  obtain ⟨pending, failed, stage, same, flawed⟩ := rel.lock locking
  refine ⟨rel.readSet, ?_, ?_⟩
  · rw [rel.writeSet, Txn.swap, receive_toOcc]
    exact fun _ => rfl
  · simp only [StageRel, Txn.swap, stage]
    refine ⟨same.trans (split.map fun entry => entry.1.toOcc), ?_⟩
    intro isFailed
    apply (flawed isFailed).receive
    · exact fun _ => rfl
    · exact ⟨item, (split.map Prod.fst).mem_iff.mpr List.mem_cons_self, rfl⟩
    · intro other member
      exact ⟨other, (split.map Prod.fst).mem_iff.mpr member, rfl⟩

/-- What a transaction holds after a compare-and-swap. -/
theorem mem_held_swap {posted rest : List (Item Key Value × Bool)} {item own : Item Key Value}
    (lock : Nat) (locking : txn.stage = .lock posted)
    (split : posted.Perm ((item, false) :: rest)) (nodup : (posted.map (·.1.key)).Nodup)
    (ownMember : own ∈ txn.writeSet) (ownKey : own.key = item.key) (key : Key) :
    key ∈ (txn.swap item rest lock).held ↔ (key = item.key ∧ lock = 0) ∨ key ∈ txn.held := by
  have unswapped : ¬ Swapped posted item.key := fun swapped =>
    Bool.noConfusion (swapped (item, false) (split.mem_iff.mpr List.mem_cons_self) rfl)
  rw [mem_held_lock rfl, mem_held_lock locking, swapped_cas split nodup key]
  simp only [Txn.swap]
  rcases eq_or_ne key item.key with rfl | different
  · rw [exists_receive_self (·.found lock) fun _ => rfl]
    simp only [unswapped, or_false, and_false, true_and]
    constructor
    · rintro ⟨⟨_, _, _, free⟩, _⟩
      exact free
    · exact fun free => ⟨⟨own, ownMember, ownKey, free⟩, trivial⟩
  · rw [exists_receive_of_ne (·.found lock) (fun _ => rfl) different]
    simp only [different, false_or, false_and]

theorem held_nodup_swap {rest : List (Item Key Value × Bool)} {item : Item Key Value}
    {lock : Nat} (nodup : (txn.writeSet.map (·.key)).Nodup) :
    (txn.swap item rest lock).held.Nodup := by
  apply held_nodup_lock rfl
  rw [Txn.swap, receive_keys]
  · exact nodup
  · exact fun _ => rfl

theorem buffers_swap {posted rest : List (Item Key Value × Bool)} {item : Item Key Value}
    {lock : Nat} (locking : txn.stage = .lock posted) (buffers : txn.Buffers) :
    (txn.swap item rest lock).Buffers := by
  simp only [Txn.Buffers, locking] at buffers
  exact buffers

/-- What the abstract state is when no step of the protocol over RPC is taken. -/
theorem update_txn_self (abstract : Occ.State Key Value Tid Tid) (tid : Tid) :
    { abstract with txns := Function.update abstract.txns tid (abstract.txns tid) } =
      abstract := by
  rw [Function.update_eq_self]

/-- The first half of taking a lock. -/
theorem advance_swap_free (inv : Inv config seq₀ value₀ state)
    {posted rest : List (Item Key Value × Bool)} {item : Item Key Value}
    (locking : (state.txns tid).stage = .lock posted)
    (split : posted.Perm ((item, false) :: rest))
    (free : (state.records item.key).lock = 0) :
    Advance config seq₀ value₀ tid state
      { records := Function.update state.records item.key
          { state.records item.key with lock := config.lockContent tid },
        txns := Function.update state.txns tid ((state.txns tid).swap item rest 0),
        events := state.events ++ [.acquired tid item.key (config.lockContent tid)] } := by
  obtain ⟨abstract, occ, rel⟩ := inv.simulated
  obtain ⟨pending, failed, stage, same, -⟩ := (rel.txns tid).lock locking
  obtain ⟨nodup, inSet⟩ := (rel.txns tid).locking (occ.txnOk tid) stage same
  obtain ⟨own, ownMember, ownSame⟩ :=
    inSet (item, false) (split.mem_iff.mpr List.mem_cons_self)
  have ownKey : own.key = item.key := congrArg ReadSetItem.key ownSame
  have held := mem_held_swap 0 locking split nodup ownMember ownKey
  have unheld : item.key ∉ (state.txns tid).held := fun isHeld =>
    config.lockContent_ne_zero tid ((inv.lock_of_held isHeld).symm.trans free)
  have writeNodup := inv.writeSet_nodup tid
  constructor
  · apply Books.Step.ofTxns_acquire
    · rfl
    · exact free
    · simp
    · intro other different
      simp [different]
    · simp [locking, Stage.Growing]
    · rw [List.perm_ext_iff_of_nodup (held_nodup_swap writeNodup)
        (List.nodup_cons.mpr ⟨unheld, held_nodup_lock locking writeNodup⟩)]
      intro key
      rw [held key, List.mem_cons]
      simp
  · exact inv.buffers_update (buffers_swap locking (inv.buffers tid))
  · refine ⟨abstract, occ, ?_⟩
    rw [← update_txn_self abstract tid]
    apply rel.update
    · exact (rel.txns tid).swap locking split
    · intro key
      rcases eq_or_ne key item.key with rfl | different
      · simpa using rel.seq item.key
      · simpa [different] using rel.seq key
    · intro key
      rcases eq_or_ne key item.key with rfl | different
      · simpa using rel.value item.key
      · simpa [different] using rel.value key
    · intro key
      rcases eq_or_ne key item.key with rfl | different
      · apply LockRel.halfway
        · rw [Function.update_self, between_lock rfl]
          refine ⟨⟨item, List.mem_cons_self, rfl⟩, ?_⟩
          simp only [Txn.swap]
          rw [exists_receive_self (·.found 0) fun _ => rfl]
          exact ⟨own, ownMember, ownKey, rfl⟩
        · rw [(rel.lock item.key).same (inv.not_between_of_free free), free]
      · rw [Function.update_of_ne different]
        exact (rel.lock key).frame (between_swap locking split different)
    · simp [stage]
    · exact fun _ _ => rfl

/-- A compare-and-swap that finds the lock taken. -/
theorem advance_swap_taken (inv : Inv config seq₀ value₀ state)
    {posted rest : List (Item Key Value × Bool)} {item : Item Key Value} {lock : Nat}
    (locking : (state.txns tid).stage = .lock posted)
    (split : posted.Perm ((item, false) :: rest)) (taken : lock ≠ 0) :
    Advance config seq₀ value₀ tid state
      (state.setTxn tid ((state.txns tid).swap item rest lock)) := by
  obtain ⟨abstract, occ, rel⟩ := inv.simulated
  obtain ⟨pending, failed, stage, same, -⟩ := (rel.txns tid).lock locking
  obtain ⟨nodup, inSet⟩ := (rel.txns tid).locking (occ.txnOk tid) stage same
  obtain ⟨own, ownMember, ownSame⟩ :=
    inSet (item, false) (split.mem_iff.mpr List.mem_cons_self)
  have ownKey : own.key = item.key := congrArg ReadSetItem.key ownSame
  have held := mem_held_swap lock locking split nodup ownMember ownKey
  have writeNodup := inv.writeSet_nodup tid
  constructor
  · apply Books.Step.ofTxns_frame (fun _ => rfl)
    · rw [List.perm_ext_iff_of_nodup (held_nodup_swap writeNodup)
        (held_nodup_lock locking writeNodup)]
      intro key
      rw [held key]
      simp [taken]
    · exact fun _ => by simp [locking, Stage.Growing]
  · exact inv.buffers_update (buffers_swap locking (inv.buffers tid))
  · refine ⟨abstract, occ, ?_⟩
    rw [← update_txn_self abstract tid]
    apply rel.move
    · exact (rel.txns tid).swap locking split
    · intro key
      rcases eq_or_ne key item.key with rfl | different
      · have keyNodup := nodup
        rw [(split.map _).nodup_iff, List.map_cons, List.nodup_cons] at keyNodup
        refine iff_of_false ?_ ?_
        · rw [between_lock rfl]
          simp only [Txn.swap]
          rw [exists_receive_self (·.found lock) fun _ => rfl]
          rintro ⟨-, _, -, -, free⟩
          exact taken free
        · rw [between_lock locking]
          rintro ⟨⟨found, member, isKey⟩, -⟩
          rcases List.mem_cons.mp (split.mem_iff.mp member) with isItem | member
          · cases isItem
          · exact keyNodup.1 (List.mem_map.mpr ⟨_, member, isKey⟩)
      · exact between_swap locking split different
    · simp [stage]
    · exact fun _ _ => rfl

section Fetch

variable {posted rest : List (Item Key Value × Bool)} {item own : Item Key Value} {seq : Nat}

/-- The read of the sequence word does not change which locks were found free. -/
theorem exists_free_fetch (key : Key) :
    (∃ own ∈ (txn.fetch item rest seq).writeSet, own.key = key ∧ own.lock = 0) ↔
      ∃ own ∈ txn.writeSet, own.key = key ∧ own.lock = 0 := by
  simp only [Txn.fetch]
  rcases eq_or_ne key item.key with rfl | different
  · exact exists_receive_self (·.fetched seq) fun _ => rfl
  · exact exists_receive_of_ne (·.fetched seq) (fun _ => rfl) different

theorem held_fetch (locking : txn.stage = .lock posted)
    (split : posted.Perm ((item, true) :: rest))
    (nodup : (txn.writeSet.map (·.key)).Nodup) :
    (txn.fetch item rest seq).held.Perm txn.held := by
  have fetchedNodup : ((txn.fetch item rest seq).writeSet.map (·.key)).Nodup := by
    rw [Txn.fetch, receive_keys]
    · exact nodup
    · exact fun _ => rfl
  rw [List.perm_ext_iff_of_nodup (held_nodup_lock rfl fetchedNodup)
    (held_nodup_lock locking nodup)]
  intro key
  rw [mem_held_lock rfl, mem_held_lock locking, exists_free_fetch, swapped_read split]

theorem between_fetch (seq : Nat) (locking : txn.stage = .lock posted)
    (split : posted.Perm ((item, true) :: rest)) {key : Key} (different : key ≠ item.key) :
    (txn.fetch item rest seq).Between key ↔ txn.Between key := by
  rw [between_lock rfl, between_lock locking, exists_free_fetch]
  apply and_congr_left
  intro _
  constructor
  · rintro ⟨found, member, isKey⟩
    exact ⟨found, split.mem_iff.mpr (List.mem_cons_of_mem _ member), isKey⟩
  · rintro ⟨found, member, isKey⟩
    rcases List.mem_cons.mp (split.mem_iff.mp member) with isItem | member
    · cases isItem
      exact absurd isKey.symm different
    · exact ⟨found, member, isKey⟩

theorem not_between_fetch (split : posted.Perm ((item, true) :: rest))
    (nodup : (posted.map (·.1.key)).Nodup) :
    ¬ (txn.fetch item rest seq).Between item.key := by
  rw [(split.map _).nodup_iff, List.map_cons, List.nodup_cons] at nodup
  rw [between_lock rfl]
  rintro ⟨⟨found, member, isKey⟩, -⟩
  exact nodup.1 (List.mem_map.mpr ⟨_, member, isKey⟩)

/-- The transactions stay related when the read for an item is done and the abstract
transaction has gone on with the item. -/
theorem TxnRel.fetch {failed nowFailed : Bool} {pending : List (ReadSetItem Key Value)}
    (rel : TxnRel txn abstractTxn) (locking : txn.stage = .lock posted)
    (split : posted.Perm ((item, true) :: rest))
    (stage : abstractTxn.stage = .lock pending failed)
    (flawed : nowFailed = true → failed = true ∨
      Flawed (receive txn.writeSet item.key (·.fetched seq)) (rest.map (·.1))) :
    TxnRel (txn.fetch item rest seq)
      { abstractTxn with
        stage := .lock (rest.map fun entry => entry.1.toOcc) nowFailed } := by
  obtain ⟨_, _, otherStage, -, wasFlawed⟩ := rel.lock locking
  rw [stage] at otherStage
  cases otherStage
  refine ⟨rel.readSet, ?_, .refl _, ?_⟩
  · simp only [rel.writeSet, Txn.fetch]
    rw [receive_toOcc]
    exact fun _ => rfl
  · intro isFailed
    rcases flawed isFailed with was | now
    · apply (wasFlawed was).receive
      · exact fun _ => rfl
      · exact ⟨item, (split.map Prod.fst).mem_iff.mpr List.mem_cons_self, rfl⟩
      · intro other member
        exact ⟨other, (split.map Prod.fst).mem_iff.mpr (List.mem_cons_of_mem _ member), rfl⟩
    · exact now

/-- An item whose buffer does not match once its read is done. -/
theorem flawed_fetch (split : posted.Perm ((item, true) :: rest))
    (nodup : (posted.map (·.1.key)).Nodup) (ownMember : own ∈ txn.writeSet)
    (ownKey : own.key = item.key) (mismatch : ¬ (own.fetched seq).Matches) :
    Flawed (receive txn.writeSet item.key (·.fetched seq)) (rest.map (·.1)) := by
  rw [(split.map _).nodup_iff, List.map_cons, List.nodup_cons] at nodup
  refine ⟨item.key, ?_, ?_⟩
  · intro other member same
    obtain ⟨entry, entryMember, rfl⟩ := List.mem_map.mp member
    exact nodup.1 (List.mem_map.mpr ⟨entry, entryMember, same⟩)
  · exact (exists_receive_self (·.fetched seq) fun _ => rfl).mpr
      ⟨own, ownMember, ownKey, mismatch⟩

end Fetch

/-- The second half of taking a lock: the abstract transaction takes it and compares the
sequence word. -/
theorem simulated_fetch_free (inv : Inv config seq₀ value₀ state)
    (occ : Occ.Inv config.toOcc seq₀ value₀ abstract) (rel : Rel state abstract)
    {posted rest : List (Item Key Value × Bool)} {item own : Item Key Value}
    {pending : List (ReadSetItem Key Value)} {failed : Bool}
    (locking : (state.txns tid).stage = .lock posted)
    (split : posted.Perm ((item, true) :: rest))
    (stage : (abstract.txns tid).stage = .lock pending failed)
    (same : pending.Perm (posted.map fun entry => entry.1.toOcc))
    (ownMember : own ∈ (state.txns tid).writeSet) (ownSame : own.toOcc = item.toOcc)
    (free : own.lock = 0) :
    Simulated config seq₀ value₀ (state.setTxn tid
      ((state.txns tid).fetch item rest (state.records item.key).seq)) := by
  have ok := occ.txnOk tid
  have oldPending := ok.pending
  simp only [Occ.Txn.PendingOk, stage] at oldPending
  have nodup := ((rel.txns tid).locking ok stage same).1
  have pendingSplit : pending.Perm
      (item.toOcc :: rest.map fun entry => entry.1.toOcc) := same.trans (split.map _)
  obtain ⟨notRest, restNodup⟩ := List.nodup_cons.mp (pendingSplit.nodup_iff.mp oldPending.1)
  have shrinks : ∀ other ∈ rest.map (fun entry => entry.1.toOcc), other ∈ pending :=
    fun other member => pendingSplit.mem_iff.mpr (List.mem_cons_of_mem _ member)
  have member := oldPending.2 item.toOcc (pendingSplit.mem_iff.mpr List.mem_cons_self)
  have ownKey : own.key = item.key := congrArg ReadSetItem.key ownSame
  have ownSeq : own.seq = item.seq := congrArg ReadSetItem.seq ownSame
  have between : (state.txns tid).Between item.key :=
    (between_lock locking _).mpr ⟨⟨item, split.mem_iff.mpr List.mem_cons_self, rfl⟩,
      ⟨own, ownMember, ownKey, free⟩⟩
  have unlocked : (abstract.records item.toOcc.key).lock = 0 :=
    (rel.lock item.key).between tid between
  have held := inv.held_of_between between
  have related : ∀ nowFailed : Bool,
      (nowFailed = true → failed = true ∨
        Flawed (receive (state.txns tid).writeSet item.key
          (·.fetched (state.records item.key).seq)) (rest.map (·.1))) →
      Rel (state.setTxn tid ((state.txns tid).fetch item rest (state.records item.key).seq))
        ((abstract.setRecord item.toOcc.key
          { abstract.records item.toOcc.key with lock := config.toOcc.content tid }).setStage
            tid (.lock (rest.map fun entry => entry.1.toOcc) nowFailed)) := by
    intro nowFailed flawed
    apply rel.update
    · exact (rel.txns tid).fetch locking split stage flawed
    · intro key
      rcases eq_or_ne key item.key with rfl | different
      · simpa [Occ.State.setRecord, Item.toOcc] using rel.seq item.key
      · simpa [Occ.State.setRecord, Item.toOcc, different] using rel.seq key
    · intro key
      rcases eq_or_ne key item.key with rfl | different
      · simpa [Occ.State.setRecord, Item.toOcc] using rel.value item.key
      · simpa [Occ.State.setRecord, Item.toOcc, different] using rel.value key
    · intro key
      rcases eq_or_ne key item.key with rfl | different
      · apply LockRel.settled
        · intro other isBetween
          rcases eq_or_ne other tid with rfl | another
          · rw [Function.update_self] at isBetween
            exact not_between_fetch split nodup isBetween
          · rw [Function.update_of_ne another] at isBetween
            exact another (inv.tid_eq_of_between held isBetween)
        · have content : config.toOcc.content tid = (state.records item.key).lock :=
            (inv.lock_of_held held).symm
          simpa [Occ.State.setRecord, Item.toOcc] using content
      · have kept := (rel.lock key).frame
          (between_fetch (state.records item.key).seq locking split different)
        simpa [Occ.State.setRecord, Item.toOcc, different] using kept
    · simp
    · exact fun _ _ => rfl
  by_cases matching : (state.records item.key).seq = item.seq
  · refine ⟨_, ?_, related failed .inl⟩
    apply occ.lockFree stage shrinks member notRest unlocked
    exact ok.secure stage (fun other => by rw [pendingSplit.mem_iff, List.mem_cons]) restNodup
      ((rel.seq item.key).trans matching)
  · refine ⟨_, ?_, related true fun _ => .inr ?_⟩
    · apply occ.lockFree stage shrinks member notRest unlocked
      apply (ok.lockFailed stage restNodup shrinks).setRecord
      · exact le_rfl
      · simp [Occ.Txn.Secured]
    · apply flawed_fetch split nodup ownMember ownKey
      rintro ⟨-, fetched⟩
      exact matching (fetched.trans ownSeq)

/-- The read behind a compare-and-swap that found the lock taken. -/
theorem simulated_fetch_taken (occ : Occ.Inv config.toOcc seq₀ value₀ abstract)
    (rel : Rel state abstract) {posted rest : List (Item Key Value × Bool)}
    {item own : Item Key Value} {pending : List (ReadSetItem Key Value)} {failed : Bool}
    (locking : (state.txns tid).stage = .lock posted)
    (split : posted.Perm ((item, true) :: rest))
    (stage : (abstract.txns tid).stage = .lock pending failed)
    (same : pending.Perm (posted.map fun entry => entry.1.toOcc))
    (ownMember : own ∈ (state.txns tid).writeSet) (ownSame : own.toOcc = item.toOcc)
    (taken : own.lock ≠ 0) :
    Simulated config seq₀ value₀ (state.setTxn tid
      ((state.txns tid).fetch item rest (state.records item.key).seq)) := by
  have ok := occ.txnOk tid
  have oldPending := ok.pending
  simp only [Occ.Txn.PendingOk, stage] at oldPending
  have nodup := ((rel.txns tid).locking ok stage same).1
  have pendingSplit : pending.Perm
      (item.toOcc :: rest.map fun entry => entry.1.toOcc) := same.trans (split.map _)
  have restNodup := (List.nodup_cons.mp (pendingSplit.nodup_iff.mp oldPending.1)).2
  have ownKey : own.key = item.key := congrArg ReadSetItem.key ownSame
  refine ⟨abstract.setStage tid (.lock (rest.map fun entry => entry.1.toOcc) true), ?_, ?_⟩
  · apply occ.lockFailed stage restNodup
    exact fun other member => pendingSplit.mem_iff.mpr (List.mem_cons_of_mem _ member)
  · apply rel.move
    · apply (rel.txns tid).fetch locking split stage
      intro _
      right
      apply flawed_fetch split nodup ownMember ownKey
      rintro ⟨free, -⟩
      exact taken free
    · intro key
      rcases eq_or_ne key item.key with rfl | different
      · refine iff_of_false (not_between_fetch split nodup) ?_
        rw [between_lock locking]
        rintro ⟨-, other, otherMember, otherKey, free⟩
        have isOwn : other = own := List.inj_on_of_nodup_map
          (writeSet_keys_nodup ((rel.txns tid).keys_nodup ok)) otherMember ownMember
          (otherKey.trans ownKey.symm)
        exact taken (isOwn ▸ free)
      · exact between_fetch _ locking split different
    · simp
    · exact fun _ _ => rfl

theorem advance_fetch (inv : Inv config seq₀ value₀ state)
    {posted rest : List (Item Key Value × Bool)} {item : Item Key Value}
    (locking : (state.txns tid).stage = .lock posted)
    (split : posted.Perm ((item, true) :: rest)) :
    Advance config seq₀ value₀ tid state (state.setTxn tid
      ((state.txns tid).fetch item rest (state.records item.key).seq)) := by
  constructor
  · apply Books.Step.ofTxns_frame (fun _ => rfl)
    · exact held_fetch locking split (inv.writeSet_nodup tid)
    · exact fun _ => by simp [locking, Stage.Growing]
  · apply inv.buffers_update
    have buffers := inv.buffers tid
    simp only [Txn.Buffers, locking] at buffers
    exact buffers
  · obtain ⟨abstract, occ, rel⟩ := inv.simulated
    obtain ⟨pending, failed, stage, same, -⟩ := (rel.txns tid).lock locking
    obtain ⟨-, inSet⟩ := (rel.txns tid).locking (occ.txnOk tid) stage same
    obtain ⟨own, ownMember, ownSame⟩ :=
      inSet (item, true) (split.mem_iff.mpr List.mem_cons_self)
    by_cases free : own.lock = 0
    · exact simulated_fetch_free inv occ rel locking split stage same ownMember ownSame free
    · exact simulated_fetch_taken occ rel locking split stage same ownMember ownSame free

theorem advance_lockVerb (inv : Inv config seq₀ value₀ state) {machine : Nat}
    (stepped : lockVerb config state tid machine = some after) :
    Advance config seq₀ value₀ tid state after := by
  simp only [lockVerb] at stepped
  split at stepped
  · rename_i posted locking
    obtain ⟨⟨⟨item, swapped⟩, rest⟩, found, rfl⟩ := Option.map_eq_some_iff.mp stepped
    have split := nextFor_perm found
    cases swapped with
    | true => exact advance_fetch inv locking split
    | false =>
        by_cases free : (state.records item.key).lock = 0
        · simp only [casLock, free, if_true, Bool.false_eq_true, if_false]
          exact advance_swap_free inv locking split free
        · simp only [casLock, free, Bool.false_eq_true, if_false, State.setRecord,
            Function.update_eq_self]
          exact advance_swap_taken inv locking split free
  · cases stepped

/-! ## Validation -/

/-- The transactions stay related when the read for an item of the validation is done. -/
theorem TxnRel.check {posted rest : List (Item Key Value)} {item : Item Key Value}
    {record : Record Value} {failed nowFailed : Bool}
    {pending : List (ReadSetItem Key Value)} (rel : TxnRel txn abstractTxn)
    (validating : txn.stage = .validate posted) (split : posted.Perm (item :: rest))
    (stage : abstractTxn.stage = .validate pending failed)
    (flawed : nowFailed = true → failed = true ∨
      Flawed (receive txn.readSet item.key (·.checked record)) rest) :
    TxnRel (txn.check item rest record)
      { abstractTxn with stage := .validate (rest.map Item.toOcc) nowFailed } := by
  obtain ⟨_, _, otherStage, -, wasFlawed⟩ := rel.validate validating
  rw [stage] at otherStage
  cases otherStage
  refine ⟨?_, rel.writeSet, .refl _, ?_⟩
  · simp only [rel.readSet, Txn.check]
    rw [receive_toOcc]
    exact fun _ => rfl
  · intro isFailed
    rcases flawed isFailed with was | now
    · apply (wasFlawed was).receive
      · exact fun _ => rfl
      · exact ⟨item, split.mem_iff.mpr List.mem_cons_self, rfl⟩
      · exact fun other member => ⟨other, split.mem_iff.mpr (List.mem_cons_of_mem _ member), rfl⟩
    · exact now

theorem advance_check (inv : Inv config seq₀ value₀ state)
    {posted rest : List (Item Key Value)} {item : Item Key Value}
    (validating : (state.txns tid).stage = .validate posted)
    (split : posted.Perm (item :: rest)) :
    Advance config seq₀ value₀ tid state (state.setTxn tid
      ((state.txns tid).check item rest (state.records item.key))) := by
  obtain ⟨abstract, occ, rel⟩ := inv.simulated
  obtain ⟨pending, failed, stage, same, -⟩ := (rel.txns tid).validate validating
  have ok := occ.txnOk tid
  obtain ⟨nodup, inSet⟩ := (rel.txns tid).validating ok stage same
  obtain ⟨own, ownMember, ownSame⟩ := inSet item (split.mem_iff.mpr List.mem_cons_self)
  have ownKey : own.key = item.key := congrArg ReadSetItem.key ownSame
  have ownSeq : own.seq = item.seq := congrArg ReadSetItem.seq ownSame
  have pendingSplit : pending.Perm (item.toOcc :: rest.map Item.toOcc) :=
    same.trans (split.map _)
  have moves : ∀ nowFailed, TxnRel ((state.txns tid).check item rest (state.records item.key))
        { abstract.txns tid with stage := .validate (rest.map Item.toOcc) nowFailed } →
      Rel (state.setTxn tid ((state.txns tid).check item rest (state.records item.key)))
        (abstract.setStage tid (.validate (rest.map Item.toOcc) nowFailed)) := by
    intro nowFailed own
    apply rel.move own
    · simp [Txn.Between, Txn.check, validating]
    · simp
    · exact fun _ _ => rfl
  constructor
  · apply Books.Step.ofTxns_frame (fun _ => rfl)
    · simp [Txn.held, Txn.check, validating]
    · exact fun grows => absurd grows id
  · apply inv.buffers_update
    have buffers := inv.buffers tid
    simp only [Txn.Buffers, validating] at buffers
    exact buffers
  · by_cases valid : (state.records item.key).lock = 0 ∧
        (state.records item.key).seq = item.seq
    · have free := (rel.lock item.key).same (inv.not_between_of_free valid.1)
      have accepted : validateRpcHandler (abstract.records item.toOcc.key)
          item.toOcc.seq = true := by
        simp [validateRpcHandler, Record.localValidateOp, Item.toOcc, rel.seq item.key,
          free, valid.1, valid.2]
      exact ⟨_, occ.validateOk stage pendingSplit accepted,
        moves failed ((rel.txns tid).check validating split stage .inl)⟩
    · have oldPending := ok.pending
      simp only [Occ.Txn.PendingOk, stage] at oldPending
      refine ⟨_, occ.validateFailed stage ?_ ?_,
        moves true ((rel.txns tid).check validating split stage fun _ => .inr ?_)⟩
      · exact (List.nodup_cons.mp (pendingSplit.nodup_iff.mp oldPending.1)).2
      · exact fun other member => pendingSplit.mem_iff.mpr (List.mem_cons_of_mem _ member)
      · rw [(split.map _).nodup_iff, List.map_cons, List.nodup_cons] at nodup
        refine ⟨item.key, fun other member isKey => ?_, ?_⟩
        · exact nodup.1 (List.mem_map.mpr ⟨other, member, isKey⟩)
        · rw [exists_receive_self (·.checked (state.records item.key)) fun _ => rfl]
          refine ⟨own, ownMember, ownKey, ?_⟩
          rintro ⟨free, matching⟩
          exact valid ⟨free, matching.trans ownSeq⟩

theorem advance_validateVerb (inv : Inv config seq₀ value₀ state) {machine : Nat}
    (stepped : validateVerb config state tid machine = some after) :
    Advance config seq₀ value₀ tid state after := by
  simp only [validateVerb] at stepped
  split at stepped
  · rename_i posted validating
    obtain ⟨⟨item, rest⟩, found, rfl⟩ := Option.map_eq_some_iff.mp stepped
    exact advance_check inv validating (nextFor_perm found)
  · cases stepped

/-! ## Write-back and release -/

/-- What is between the halves of a write-back is written and not unlocked. -/
theorem between_writeBack {posted : List (Item Key Value × Bool)}
    (writing : txn.stage = .writeBack posted) (key : Key) :
    txn.Between key ↔ ∃ item, (item, true) ∈ posted ∧ item.key = key := by
  simp [Txn.Between, writing]

theorem between_writeValue {posted rest : List (Item Key Value × Bool)}
    {item : Item Key Value} (writing : txn.stage = .writeBack posted)
    (split : posted.Perm ((item, false) :: rest)) {key : Key} (different : key ≠ item.key) :
    Txn.Between { txn with stage := .writeBack ((item, true) :: rest) } key ↔
      txn.Between key := by
  rw [between_writeBack rfl, between_writeBack writing]
  constructor
  · rintro ⟨found, member, isKey⟩
    rcases List.mem_cons.mp member with isItem | member
    · cases isItem
      exact absurd isKey.symm different
    · exact ⟨found, split.mem_iff.mpr (List.mem_cons_of_mem _ member), isKey⟩
  · rintro ⟨found, member, isKey⟩
    rcases List.mem_cons.mp (split.mem_iff.mp member) with isItem | member
    · cases isItem
    · exact ⟨found, List.mem_cons_of_mem _ member, isKey⟩

theorem between_writeUnlock {posted rest : List (Item Key Value × Bool)}
    {item : Item Key Value} (writing : txn.stage = .writeBack posted)
    (split : posted.Perm ((item, true) :: rest)) {key : Key} (different : key ≠ item.key) :
    Txn.Between { txn with stage := .writeBack rest } key ↔ txn.Between key := by
  rw [between_writeBack rfl, between_writeBack writing]
  constructor
  · rintro ⟨found, member, isKey⟩
    exact ⟨found, split.mem_iff.mpr (List.mem_cons_of_mem _ member), isKey⟩
  · rintro ⟨found, member, isKey⟩
    rcases List.mem_cons.mp (split.mem_iff.mp member) with isItem | member
    · cases isItem
      exact absurd isKey.symm different
    · exact ⟨found, member, isKey⟩

/-- The first half of a write-back stores sequence word and value. -/
theorem advance_writeValue (inv : Inv config seq₀ value₀ state)
    {posted rest : List (Item Key Value × Bool)} {item : Item Key Value}
    (writing : (state.txns tid).stage = .writeBack posted)
    (split : posted.Perm ((item, false) :: rest)) :
    Advance config seq₀ value₀ tid state
      { state with
        records := Function.update state.records item.key
          { state.records item.key with seq := item.headerSeq, value := item.data },
        txns := Function.update state.txns tid
          { state.txns tid with stage := .writeBack ((item, true) :: rest) } } := by
  obtain ⟨abstract, occ, rel⟩ := inv.simulated
  obtain ⟨pending, stage, same⟩ := (rel.txns tid).writeBack writing
  have buffers := inv.buffers tid
  simp only [Txn.Buffers, writing] at buffers
  obtain ⟨advanced, fits⟩ := buffers (item, false) (split.mem_iff.mpr List.mem_cons_self)
  have pendingSplit : pending.Perm
      (item.toOcc :: (rest.filter (!·.2)).map fun entry => entry.1.toOcc) :=
    same.trans (by simpa using (split.filter (!·.2)).map fun entry => entry.1.toOcc)
  have ok := occ.txnOk tid
  have oldPending := ok.pending
  simp only [Occ.Txn.PendingOk, stage] at oldPending
  have inPending : item.toOcc ∈ pending := pendingSplit.mem_iff.mpr List.mem_cons_self
  have secured := (ok.secured item.toOcc (by
    simp [Occ.Txn.Secured, stage, oldPending.2 _ inPending, inPending])).2
  have seen : (abstract.records item.key).seq = item.seq := secured
  constructor
  · apply Books.Step.ofTxns_frame
    · intro key
      rcases eq_or_ne key item.key with rfl | different
      · simp
      · simp [different]
    · simp only [Txn.held, writing]
      exact ((split.map fun entry => entry.1.key)).symm
    · exact fun grows => absurd grows id
  · apply inv.buffers_update
    intro entry member
    rcases List.mem_cons.mp member with rfl | member
    · exact ⟨advanced, fits⟩
    · exact buffers entry (split.mem_iff.mpr (List.mem_cons_of_mem _ member))
  · refine ⟨_, occ.commitOne stage pendingSplit (by rwa [secured]), ?_⟩
    apply rel.update
    · refine ⟨(rel.txns tid).readSet, (rel.txns tid).writeSet, ?_⟩
      simp [StageRel]
    · intro key
      rcases eq_or_ne key item.key with rfl | different
      · have next : (item.seq + 2) % wordBound = item.headerSeq := by
          rw [advanced, Nat.mod_eq_of_lt fits]
        simpa [Occ.State.setRecord, Item.toOcc, commitOneshotHandler, Record.inplaceWriteOp,
          seen] using next
      · simpa [Occ.State.setRecord, Item.toOcc, different] using rel.seq key
    · intro key
      rcases eq_or_ne key item.key with rfl | different
      · simp [Occ.State.setRecord, Item.toOcc, commitOneshotHandler]
      · simpa [Occ.State.setRecord, Item.toOcc, different] using rel.value key
    · intro key
      rcases eq_or_ne key item.key with rfl | different
      · apply LockRel.halfway
        · rw [Function.update_self, between_writeBack rfl]
          exact ⟨item, List.mem_cons_self, rfl⟩
        · simp [Occ.State.setRecord, Item.toOcc, commitOneshotHandler]
      · have kept := (rel.lock key).frame (between_writeValue writing split different)
        simpa [Occ.State.setRecord, Item.toOcc, different] using kept
    · simp
    · exact fun _ _ => rfl

/-- The second half of a write-back unlocks the record. -/
theorem advance_writeUnlock (inv : Inv config seq₀ value₀ state)
    {posted rest : List (Item Key Value × Bool)} {item : Item Key Value}
    (writing : (state.txns tid).stage = .writeBack posted)
    (split : posted.Perm ((item, true) :: rest)) :
    Advance config seq₀ value₀ tid state
      { records := Function.update state.records item.key
          { state.records item.key with lock := 0 },
        txns := Function.update state.txns tid
          { state.txns tid with stage := .writeBack rest },
        events := state.events ++ [.released tid item.key (config.lockContent tid)] } := by
  obtain ⟨abstract, occ, rel⟩ := inv.simulated
  obtain ⟨pending, stage, same⟩ := (rel.txns tid).writeBack writing
  have buffers := inv.buffers tid
  simp only [Txn.Buffers, writing] at buffers
  have between : (state.txns tid).Between item.key :=
    (between_writeBack writing _).mpr ⟨item, split.mem_iff.mpr List.mem_cons_self, rfl⟩
  have held := inv.held_of_between between
  have heldSplit : (state.txns tid).held.Perm (item.key :: rest.map (·.1.key)) := by
    simp only [Txn.held, writing]
    exact split.map fun entry => entry.1.key
  have nodup : (state.txns tid).held.Nodup := by
    have keys := inv.books.keys_nodup tid
    rwa [State.books, Books.ofTxns_keys] at keys
  have notRest := (List.nodup_cons.mp (heldSplit.nodup_iff.mp nodup)).1
  constructor
  · apply Books.Step.ofTxns_release
    · simp
    · intro other different
      simp [different]
    · exact heldSplit
    · exact id
  · apply inv.buffers_update
    exact fun entry member => buffers entry (split.mem_iff.mpr (List.mem_cons_of_mem _ member))
  · refine ⟨abstract, occ, ?_⟩
    rw [← update_txn_self abstract tid]
    apply rel.update
    · refine ⟨(rel.txns tid).readSet, (rel.txns tid).writeSet, ?_⟩
      simp only [StageRel, stage]
      exact same.trans (by simpa using (split.filter (!·.2)).map fun entry => entry.1.toOcc)
    · intro key
      rcases eq_or_ne key item.key with rfl | different
      · simpa using rel.seq item.key
      · simpa [different] using rel.seq key
    · intro key
      rcases eq_or_ne key item.key with rfl | different
      · simpa using rel.value item.key
      · simpa [different] using rel.value key
    · intro key
      rcases eq_or_ne key item.key with rfl | different
      · apply LockRel.settled
        · intro other isBetween
          rcases eq_or_ne other tid with rfl | another
          · rw [Function.update_self, between_writeBack rfl] at isBetween
            obtain ⟨found, member, isKey⟩ := isBetween
            exact notRest (List.mem_map.mpr ⟨_, member, isKey⟩)
          · rw [Function.update_of_ne another] at isBetween
            exact another (inv.tid_eq_of_between held isBetween)
        · simpa using (rel.lock item.key).between tid between
      · have kept := (rel.lock key).frame (between_writeUnlock writing split different)
        simpa [different] using kept
    · simp [stage]
    · exact fun _ _ => rfl

theorem advance_writeBackVerb (inv : Inv config seq₀ value₀ state) {machine : Nat}
    (stepped : writeBackVerb config state tid machine = some after) :
    Advance config seq₀ value₀ tid state after := by
  simp only [writeBackVerb] at stepped
  split at stepped
  · rename_i posted writing
    obtain ⟨⟨⟨item, written⟩, rest⟩, found, rfl⟩ := Option.map_eq_some_iff.mp stepped
    cases written with
    | false => exact advance_writeValue inv writing (nextFor_perm found)
    | true => exact advance_writeUnlock inv writing (nextFor_perm found)
  · cases stepped

/-- The lock of an item that is released. -/
theorem Inv.abstract_lock_of_held (inv : Inv config seq₀ value₀ state)
    (rel : Rel state abstract) {key : Key} (held : key ∈ (state.txns tid).held)
    (notBetween : ¬ (state.txns tid).Between key) :
    (abstract.records key).lock = config.lockContent tid := by
  rw [← inv.lock_of_held held]
  apply (rel.lock key).same
  intro other between
  exact notBetween (inv.tid_eq_of_between held between ▸ between)

/-- The unlock of a release. -/
theorem advance_unlock (inv : Inv config seq₀ value₀ state)
    {posted rest : List (Item Key Value)} {item : Item Key Value}
    (releasing : (state.txns tid).stage = .release posted)
    (split : posted.Perm (item :: rest)) :
    Advance config seq₀ value₀ tid state
      { records := Function.update state.records item.key
          { state.records item.key with lock := 0 },
        txns := Function.update state.txns tid
          { state.txns tid with stage := .release rest },
        events := state.events ++ [.released tid item.key (config.lockContent tid)] } := by
  obtain ⟨abstract, occ, rel⟩ := inv.simulated
  obtain ⟨pending, stage, same⟩ := (rel.txns tid).release releasing
  have pendingSplit : pending.Perm (item.toOcc :: rest.map Item.toOcc) :=
    same.trans (split.map _)
  have heldSplit : (state.txns tid).held.Perm (item.key :: rest.map (·.key)) := by
    simp only [Txn.held, releasing]
    exact split.map _
  have held : item.key ∈ (state.txns tid).held := heldSplit.mem_iff.mpr List.mem_cons_self
  have notBetween : ∀ key, ¬ (state.txns tid).Between key :=
    not_between (by simp [releasing]) (by simp [releasing])
  have locked := inv.abstract_lock_of_held rel held (notBetween item.key)
  constructor
  · apply Books.Step.ofTxns_release
    · simp
    · intro other different
      simp [different]
    · exact heldSplit
    · exact id
  · exact inv.buffers_update trivial
  · refine ⟨_, occ.releaseOne stage pendingSplit, ?_⟩
    apply rel.update
    · exact ⟨(rel.txns tid).readSet, (rel.txns tid).writeSet, .refl _⟩
    · intro key
      rcases eq_or_ne key item.key with rfl | different
      · simpa [Occ.State.setRecord, Item.toOcc, releaseRpcHandler] using rel.seq item.key
      · simpa [Occ.State.setRecord, Item.toOcc, different] using rel.seq key
    · intro key
      rcases eq_or_ne key item.key with rfl | different
      · simpa [Occ.State.setRecord, Item.toOcc, releaseRpcHandler] using rel.value item.key
      · simpa [Occ.State.setRecord, Item.toOcc, different] using rel.value key
    · intro key
      rcases eq_or_ne key item.key with rfl | different
      · apply LockRel.settled
        · intro other isBetween
          rcases eq_or_ne other tid with rfl | another
          · rw [Function.update_self] at isBetween
            exact not_between (by simp) (by simp) _ isBetween
          · rw [Function.update_of_ne another] at isBetween
            exact another (inv.tid_eq_of_between held isBetween)
        · have own : (abstract.records item.key).lock = config.toOcc.content tid := locked
          simp [Occ.State.setRecord, Item.toOcc, releaseRpcHandler, Record.localTryReleaseOp, own]
      · have kept : LockRel (Function.update state.txns tid
            { state.txns tid with stage := .release rest }) key (state.records key).lock
            (abstract.records key).lock := by
          apply (rel.lock key).frame
          refine iff_of_false (not_between (by simp) (by simp) key) (notBetween key)
        simpa [Occ.State.setRecord, Item.toOcc, different] using kept
    · simp
    · exact fun _ _ => rfl

theorem advance_releaseVerb (inv : Inv config seq₀ value₀ state) {machine : Nat}
    (stepped : releaseVerb config state tid machine = some after) :
    Advance config seq₀ value₀ tid state after := by
  simp only [releaseVerb] at stepped
  split at stepped
  · rename_i posted releasing
    obtain ⟨⟨item, rest⟩, found, rfl⟩ := Option.map_eq_some_iff.mp stepped
    exact advance_unlock inv releasing (nextFor_perm found)
  · cases stepped

/-! ## Between the phases -/

/-- A matching set has no flaw. -/
theorem not_flawed {items posted : List (Item Key Value)}
    (matching : ∀ item ∈ items, item.Matches) : ¬ Flawed items posted := by
  rintro ⟨_, -, item, member, -, mismatch⟩
  exact mismatch (matching item member)

/-- When all locks are taken the validation is posted. -/
theorem advance_lockDone (inv : Inv config seq₀ value₀ state)
    (locking : (state.txns tid).stage = .lock [])
    (matching : ∀ item ∈ (state.txns tid).writeSet, item.Matches) :
    Advance config seq₀ value₀ tid state (state.setTxn tid
      { state.txns tid with stage := .validate (state.txns tid).readSet }) := by
  obtain ⟨abstract, occ, rel⟩ := inv.simulated
  obtain ⟨pending, failed, stage, same, flawed⟩ := (rel.txns tid).lock locking
  obtain rfl : pending = [] := same.eq_nil
  have clean : failed = false := Bool.eq_false_iff.mpr fun isFailed =>
    not_flawed matching (flawed isFailed)
  subst clean
  constructor
  · apply Books.Step.ofTxns_frame (fun _ => rfl)
    · have all : (state.txns tid).writeSet.filter
          (fun item => item.lock = 0 ∧ Swapped ([] : List (Item Key Value × Bool)) item.key) =
            (state.txns tid).writeSet := by
        rw [List.filter_eq_self]
        intro item member
        simpa [Swapped] using (matching item member).1
      simp only [Txn.held, locking, all]
      exact .refl _
    · exact fun grows => absurd grows id
  · exact inv.buffers_update fun item member => (matching item member).1
  · refine ⟨_, Occ.inv_lockDone occ stage, ?_⟩
    apply rel.move
    · refine ⟨(rel.txns tid).readSet, (rel.txns tid).writeSet, ?_, fun isFailed => ?_⟩
      · rw [(rel.txns tid).readSet]
      · cases isFailed
    · simp [Txn.Between, locking]
    · simp
    · exact fun _ _ => rfl

/-- When a phase has failed the unlocks are posted. -/
theorem advance_giveUp (inv : Inv config seq₀ value₀ state)
    (stopped : (state.txns tid).stage = .lock [] ∨ (state.txns tid).stage = .validate [])
    (held : (state.txns tid).releaseWrites.held.Perm (state.txns tid).held) :
    Advance config seq₀ value₀ tid state
      (state.setTxn tid (state.txns tid).releaseWrites) := by
  obtain ⟨abstract, occ, rel⟩ := inv.simulated
  have own := rel.txns tid
  have nodup := inv.writeSet_nodup tid
  have abstractStopped : ∃ failed, (abstract.txns tid).stage = .lock [] failed ∨
      (abstract.txns tid).stage = .validate [] failed := by
    rcases stopped with locking | validating
    · obtain ⟨pending, failed, stage, same, -⟩ := own.lock locking
      obtain rfl : pending = [] := same.eq_nil
      exact ⟨failed, .inl stage⟩
    · obtain ⟨pending, failed, stage, same, -⟩ := own.validate validating
      obtain rfl : pending = [] := same.eq_nil
      exact ⟨failed, .inr stage⟩
  have notBetween : ∀ key, ¬ (state.txns tid).Between key := by
    intro key
    rcases stopped with locking | validating
    · simp [Txn.Between, locking]
    · simp [Txn.Between, validating]
  obtain ⟨failed, stage⟩ := abstractStopped
  constructor
  · apply Books.Step.ofTxns_frame (fun _ => rfl)
    · exact held
    · exact fun grows => absurd grows id
  · exact inv.buffers_update trivial
  · refine ⟨abstract.setStage tid (.release
      (((state.txns tid).writeSet.filter (·.lock = 0)).map Item.toOcc)), ?_, ?_⟩
    · apply occ.giveUp stage
      · apply List.Nodup.of_map ReadSetItem.key
        rw [List.map_map]
        exact nodup.sublist (List.filter_sublist.map _)
      · intro item member
        rw [own.writeSet]
        exact List.map_subset _ (List.filter_subset_self _) member
      · intro item member locked
        rw [own.writeSet] at member
        obtain ⟨mine, mineMember, rfl⟩ := List.mem_map.mp member
        have taken : (abstract.records mine.key).lock ≠ 0 := fun free =>
          config.lockContent_ne_zero tid (locked.symm.trans free)
        have sameLock := (rel.lock mine.key).same fun other between =>
          taken ((rel.lock mine.key).between other between)
        have isHeld := inv.held_of_lock (sameLock.symm.trans locked)
        obtain ⟨found, foundMember, sameKey⟩ := List.mem_map.mp (held.mem_iff.mpr isHeld)
        obtain rfl : found = mine := List.inj_on_of_nodup_map nodup
          (List.filter_subset_self _ foundMember) mineMember sameKey
        exact List.mem_map.mpr ⟨found, foundMember, rfl⟩
    · apply rel.move
      · exact ⟨own.readSet, own.writeSet, .refl _⟩
      · exact fun key => iff_of_false (not_between (by simp [Txn.releaseWrites])
          (by simp [Txn.releaseWrites]) key) (notBetween key)
      · simp
      · exact fun _ _ => rfl

theorem map_advance_toOcc (items : List (Item Key Value)) :
    (items.map Item.advance).map Item.toOcc = items.map Item.toOcc := by
  rw [List.map_map]
  rfl

/-- When the validation has succeeded the write-back is posted. -/
theorem advance_validated (inv : Inv config seq₀ value₀ state)
    (validating : (state.txns tid).stage = .validate [])
    (matching : ∀ item ∈ (state.txns tid).readSet, item.Matches)
    (fits : ∀ item ∈ (state.txns tid).writeSet, item.seq + 2 < wordBound) :
    Advance config seq₀ value₀ tid state (state.setTxn tid
      { state.txns tid with
        stage := .writeBack (((state.txns tid).writeSet.map Item.advance).map (·, false)),
        writeSet := (state.txns tid).writeSet.map Item.advance }) := by
  obtain ⟨abstract, occ, rel⟩ := inv.simulated
  have own := rel.txns tid
  obtain ⟨pending, failed, stage, same, flawed⟩ := own.validate validating
  obtain rfl : pending = [] := same.eq_nil
  have clean : failed = false := Bool.eq_false_iff.mpr fun isFailed =>
    not_flawed matching (flawed isFailed)
  subst clean
  have resumed : Occ.resume config.toOcc abstract tid =
      some (abstract.setStage tid (.writeBack (abstract.txns tid).writeSet)) := by
    simp only [Occ.resume, stage]
  constructor
  · apply Books.Step.ofTxns_frame (fun _ => rfl)
    · simp only [Txn.held, validating, List.map_map]
      exact .refl _
    · exact fun grows => absurd grows id
  · apply inv.buffers_update
    intro entry member
    simp only [List.map_map, List.mem_map, Function.comp_apply] at member
    obtain ⟨item, itemMember, rfl⟩ := member
    exact ⟨Nat.mod_eq_of_lt (fits item itemMember), fits item itemMember⟩
  · refine ⟨_, Occ.inv_resume occ resumed, ?_⟩
    apply rel.move
    · refine ⟨own.readSet, ?_, ?_⟩
      · rw [map_advance_toOcc]
        exact own.writeSet
      · simp only [StageRel]
        rw [own.writeSet, ← map_advance_toOcc, List.filter_map, List.map_map]
        simp [Function.comp_def]
    · simp [Txn.Between, validating]
    · simp
    · exact fun _ _ => rfl

/-- The last verb of a write-back or of a release has completed. -/
theorem advance_finish (inv : Inv config seq₀ value₀ state) {committed : Bool}
    (drained : (committed = true ∧ (state.txns tid).stage = .writeBack []) ∨
      (committed = false ∧ (state.txns tid).stage = .release [])) :
    Advance config seq₀ value₀ tid state
      (state.setTxn tid { state.txns tid with stage := .finished committed }) := by
  obtain ⟨abstract, occ, rel⟩ := inv.simulated
  have own := rel.txns tid
  have resumed : Occ.resume config.toOcc abstract tid =
      some (abstract.finish tid tid committed) := by
    rcases drained with ⟨rfl, writing⟩ | ⟨rfl, releasing⟩
    · obtain ⟨pending, stage, same⟩ := own.writeBack writing
      obtain rfl : pending = [] := same.eq_nil
      simp only [Occ.resume, stage]
      rfl
    · obtain ⟨pending, stage, same⟩ := own.release releasing
      obtain rfl : pending = [] := same.eq_nil
      simp only [Occ.resume, stage]
      rfl
  have empty : (state.txns tid).held = [] := by
    rcases drained with ⟨-, stage⟩ | ⟨-, stage⟩ <;> simp [Txn.held, stage]
  have notBetween : ∀ key, ¬ (state.txns tid).Between key := by
    intro key
    rcases drained with ⟨-, stage⟩ | ⟨-, stage⟩ <;> simp [Txn.Between, stage]
  constructor
  · apply Books.Step.ofTxns_frame (fun _ => rfl)
    · rw [empty]
      exact .refl _
    · exact fun grows => absurd grows id
  · exact inv.buffers_update trivial
  · refine ⟨_, Occ.inv_resume occ resumed, ?_⟩
    apply rel.move
    · exact ⟨own.readSet, own.writeSet, rfl⟩
    · exact fun key => iff_of_false (not_between (by simp) (by simp) key) (notBetween key)
    · simp
    · intro other different
      exact Function.update_of_ne different _ _

theorem advance_resume (inv : Inv config seq₀ value₀ state)
    (fits : NoWrap state (.resume tid)) (stepped : resume state tid = some after) :
    Advance config seq₀ value₀ tid state after := by
  simp only [resume] at stepped
  split at stepped
  case h_1 locking =>
    have headers := inv.buffers tid
    simp only [Txn.Buffers, locking] at headers
    split at stepped
    · rename_i matching
      rw [map_copySeq headers] at stepped
      cases stepped
      exact advance_lockDone inv locking matching
    · cases stepped
      apply advance_giveUp inv (.inl locking)
      simp [Txn.held, Txn.releaseWrites, locking, Swapped]
  case h_2 validating =>
    have locked := inv.buffers tid
    simp only [Txn.Buffers, validating] at locked
    split at stepped
    · rename_i matching
      cases stepped
      apply advance_validated inv validating matching
      simpa only [NoWrap, Txn.validated, validating, if_pos matching] using fits
    · cases stepped
      apply advance_giveUp inv (.inr validating)
      have all : (state.txns tid).writeSet.filter (·.lock = 0) = (state.txns tid).writeSet := by
        rw [List.filter_eq_self]
        simpa using locked
      simp only [Txn.held, Txn.releaseWrites, validating, all]
      exact .refl _
  case h_3 writing =>
    cases stepped
    exact advance_finish inv (.inl ⟨rfl, writing⟩)
  case h_4 releasing =>
    cases stepped
    exact advance_finish inv (.inr ⟨rfl, releasing⟩)
  case h_5 => cases stepped

/-! ## Runs -/

/-- Every step of the one-sided protocol is simulated. -/
theorem advance_step (inv : Inv config seq₀ value₀ state) {action : Action Key Value Tid}
    (fits : NoWrap state action) (stepped : step config state action = some after) :
    Advance config seq₀ value₀ action.tid state after := by
  cases action with
  | begin tid => exact advance_begin inv stepped
  | read tid key => exact advance_read inv stepped
  | write tid key => exact advance_write inv stepped
  | modify tid key data => exact advance_modify inv stepped
  | commit tid => exact advance_commit inv stepped
  | lockVerb tid machine => exact advance_lockVerb inv stepped
  | validateVerb tid machine => exact advance_validateVerb inv stepped
  | writeBackVerb tid machine => exact advance_writeBackVerb inv stepped
  | releaseVerb tid machine => exact advance_releaseVerb inv stepped
  | resume tid => exact advance_resume inv fits stepped

theorem Inv.advance (inv : Inv config seq₀ value₀ state)
    (advanced : Advance config seq₀ value₀ tid state after) : Inv config seq₀ value₀ after where
  books := advanced.books.balanced config.lockWords inv.books
  buffers := advanced.buffers
  simulated := advanced.simulated

/-- The invariant holds in every state of a run. -/
theorem inv_of_reach
    (reach : Reach (step config) NoWrap (State.initial seq₀ value₀) state) :
    Inv config seq₀ value₀ state := by
  apply reach.invariant (Inv config seq₀ value₀) (inv_initial config seq₀ value₀)
  intro before action next inv fits stepped
  exact inv.advance (advance_step inv fits stepped)

end Rocc.Occ.OneSided
