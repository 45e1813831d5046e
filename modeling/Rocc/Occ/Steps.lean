import Rocc.Occ.Invariant

/-!
# Every step keeps the invariant

The steps fall into three groups.  Most of them only move one transaction to
another stage (`Inv.quiet`).  A lock, release or commit item also changes one
record.  The two steps that extend the obligations of `lockOrder` are the end of
the locking phase, where a transaction is appended, and the successful
validation of a record.
-/

set_option linter.unusedSectionVars false

namespace Rocc.Occ

open Rtx

universe u v w x

variable {Key : Type u} {Value : Type v} {Tid : Type w} {Owner : Type x}
variable [DecidableEq Key] [DecidableEq Tid] [DecidableEq Owner]
variable {config : Config Key Tid Owner} {seq₀ : Key → Nat} {value₀ : Key → Value}
variable {state after : State Key Value Tid Owner} {tid : Tid}
variable {txn : Txn Key Value}

/-! ## Frame lemmas -/

/-- What was written back stays written back. -/
theorem Origin.update {txns : Tid → Txn Key Value} {key : Key} {seq : Nat}
    {value : Value} (origin : Origin seq₀ value₀ txns key seq value)
    (kept : ∀ item, (txns tid).Installed item → txn.Installed item) :
    Origin seq₀ value₀ (Function.update txns tid txn) key seq value := by
  rcases origin with initial | ⟨writer, item, installed, sameKey, sameSeq, sameValue⟩
  · exact .inl initial
  · refine .inr ⟨writer, item, ?_, sameKey, sameSeq, sameValue⟩
    rcases eq_or_ne writer tid with rfl | different
    · simpa using kept item installed
    · simpa [different] using installed

/-- Changing one record keeps the facts about a transaction that has not secured
it. -/
theorem TxnOk.setRecord {records : Key → Record Value}
    (ok : TxnOk config seq₀ records tid txn) {key : Key} {record : Record Value}
    (grows : (records key).seq ≤ record.seq)
    (secured : ∀ item, txn.Secured item → item.key = key →
      record.lock = config.content tid ∧ record.seq = item.seq) :
    TxnOk config seq₀ (Function.update records key record) tid txn where
  keys_nodup := ok.keys_nodup
  pending := ok.pending
  secured := by
    intro item isSecured
    rcases eq_or_ne item.key key with same | different
    · simpa [same] using secured item isSecured same
    · simpa [different] using ok.secured item isSecured
  seen := by
    intro item member
    have bounds := ok.seen item member
    rcases eq_or_ne item.key key with same | different
    · rw [same] at bounds ⊢
      simpa using ⟨bounds.1, bounds.2.trans grows⟩
    · simpa [different] using bounds
  installed := by
    intro item isInstalled
    have bound := ok.installed item isInstalled
    rcases eq_or_ne item.key key with same | different
    · rw [same] at bound ⊢
      simpa using bound.trans grows
    · simpa [different] using bound

/-- The obligations of `lockOrder` survive a transaction that claims less. -/
theorem pairwise_narrows {order : List Tid} {txns : Tid → Txn Key Value}
    (narrows : Narrows txns tid txn) (nodup : order.Nodup)
    (ordered : order.Pairwise fun earlier later =>
      (txns earlier).Alive → (txns later).Alive →
        (txns earlier).Ordered (txns later)) :
    order.Pairwise fun earlier later =>
      (Function.update txns tid txn earlier).Alive →
      (Function.update txns tid txn later).Alive →
        (Function.update txns tid txn earlier).Ordered
          (Function.update txns tid txn later) := by
  refine (ordered.and nodup).imp fun {earlier later} before earlierAlive laterAlive => ?_
  have claimed : ∀ other, (Function.update txns tid txn other).Alive →
      (txns other).Alive ∧
      (Function.update txns tid txn other).readSet = (txns other).readSet ∧
      (Function.update txns tid txn other).writeSet = (txns other).writeSet := by
    intro other
    rcases eq_or_ne other tid with rfl | different
    · intro alive
      obtain ⟨was, reads, writes, -⟩ := narrows (by simpa using alive)
      simpa using ⟨was, reads, writes⟩
    · simp [Function.update_of_ne different]
  obtain ⟨wasEarlier, reads, writes⟩ := claimed earlier earlierAlive
  obtain ⟨wasLater, -, laterWrites⟩ := claimed later laterAlive
  have old := before.1 wasEarlier wasLater
  constructor
  · rw [writes, laterWrites]
    exact old.writeWrite
  · rw [reads, laterWrites]
    exact old.readWrite
  · rw [writes]
    intro left member right valid sameKey
    rcases eq_or_ne later tid with rfl | different
    · rw [Function.update_self] at valid laterAlive
      rcases (narrows laterAlive).2.2.2 right valid with wasValid | met
      · exact old.writeRead left member right wasValid sameKey
      · exact met earlier before.2 wasEarlier left member sameKey
    · rw [Function.update_of_ne different] at valid
      exact old.writeRead left member right valid sameKey

/-- A step that leaves the records alone and moves one transaction. -/
theorem Inv.move (inv : Inv config seq₀ value₀ state) {running : Owner → Option Tid}
    {order : List Tid}
    (runs : ∀ other, (Function.update state.txns tid txn other).stage.Active →
      running (config.owner other) = some other)
    (own : TxnOk config seq₀ state.records tid txn)
    (holds : ∀ item, (state.txns tid).MayHold item →
      (state.records item.key).lock = config.content tid → txn.MayHold item)
    (kept : ∀ item, (state.txns tid).Installed item → txn.Installed item)
    (loaded : ∀ item ∈ txn.readSet ++ txn.writeSet,
      Origin seq₀ value₀ state.txns item.key item.seq item.value)
    (nodup : order.Nodup) (grownOrder : ∀ other ∈ state.lockOrder, other ∈ order)
    (member : txn.Alive → tid ∈ order)
    (stages : ∀ other ∈ order,
      (Function.update state.txns tid txn other).stage.PastLocking)
    (ordered : order.Pairwise fun earlier later =>
      (Function.update state.txns tid txn earlier).Alive →
      (Function.update state.txns tid txn later).Alive →
        (Function.update state.txns tid txn earlier).Ordered
          (Function.update state.txns tid txn later)) :
    Inv config seq₀ value₀
      { state with
        txns := Function.update state.txns tid txn, running, lockOrder := order } where
  running := runs
  txnOk := by
    intro other
    rcases eq_or_ne other tid with rfl | different
    · simpa using own
    · simpa [different] using inv.txnOk other
  lockOwner := by
    intro key locked
    obtain ⟨holder, item, content, mayHold, sameKey⟩ := inv.lockOwner key locked
    refine ⟨holder, item, content, ?_, sameKey⟩
    rcases eq_or_ne holder tid with rfl | different
    · simpa using holds item mayHold (sameKey ▸ content)
    · simpa [different] using mayHold
  loaded := by
    intro other item member
    rcases eq_or_ne other tid with rfl | different
    · exact (loaded item (by simpa using member)).update kept
    · exact (inv.loaded other item (by simpa [different] using member)).update kept
  current key := (inv.current key).update kept
  order_nodup := nodup
  order_mem := by
    intro other alive
    rcases eq_or_ne other tid with rfl | different
    · exact member (by simpa using alive)
    · exact grownOrder other (inv.order_mem other (by simpa [different] using alive))
  order_stage := stages
  ordered := ordered

/-- A transaction that moves within or past its locking phase keeps its place. -/
theorem Inv.stages_kept (inv : Inv config seq₀ value₀ state)
    (stageOk : tid ∈ state.lockOrder → txn.stage.PastLocking) :
    ∀ other ∈ state.lockOrder,
      (Function.update state.txns tid txn other).stage.PastLocking := by
  intro other member
  rcases eq_or_ne other tid with rfl | different
  · simpa using stageOk member
  · simpa [different] using inv.order_stage other member

/-- A step that moves one transaction to a stage in which it claims less. -/
theorem Inv.quiet (inv : Inv config seq₀ value₀ state) {running : Owner → Option Tid}
    (runs : ∀ other, (Function.update state.txns tid txn other).stage.Active →
      running (config.owner other) = some other)
    (own : TxnOk config seq₀ state.records tid txn)
    (holds : ∀ item, (state.txns tid).MayHold item →
      (state.records item.key).lock = config.content tid → txn.MayHold item)
    (kept : ∀ item, (state.txns tid).Installed item → txn.Installed item)
    (loaded : ∀ item ∈ txn.readSet ++ txn.writeSet,
      Origin seq₀ value₀ state.txns item.key item.seq item.value)
    (narrows : Narrows state.txns tid txn)
    (stageOk : tid ∈ state.lockOrder → txn.stage.PastLocking) :
    Inv config seq₀ value₀
      { state with txns := Function.update state.txns tid txn, running } :=
  inv.move runs own holds kept loaded inv.order_nodup (fun _ member => member)
    (fun alive => inv.order_mem tid (narrows alive).1) (inv.stages_kept stageOk)
    (pairwise_narrows narrows inv.order_nodup inv.ordered)

/-- A step in which a handler changes one record for a transaction. -/
theorem Inv.touch (inv : Inv config seq₀ value₀ state) {key : Key}
    {record : Record Value} {stage : Stage Key Value}
    (active : (state.txns tid).stage.Active)
    (grows : (state.records key).seq ≤ record.seq)
    (others : ∀ other, other ≠ tid → ∀ item, (state.txns other).Secured item →
      item.key = key → record.lock = config.content other ∧ record.seq = item.seq)
    (own : TxnOk config seq₀ (Function.update state.records key record) tid
      { state.txns tid with stage })
    (held : record.lock ≠ 0 → ∃ holder item, record.lock = config.content holder ∧
      (Function.update state.txns tid { state.txns tid with stage } holder).MayHold item ∧
      item.key = key)
    (holds : ∀ item, (state.txns tid).MayHold item → item.key ≠ key →
      ({ state.txns tid with stage } : Txn Key Value).MayHold item)
    (kept : ∀ item, (state.txns tid).Installed item →
      ({ state.txns tid with stage } : Txn Key Value).Installed item)
    (current : Origin seq₀ value₀
      (Function.update state.txns tid { state.txns tid with stage }) key
      record.seq record.value)
    (narrows : Narrows state.txns tid { state.txns tid with stage })
    (stageOk : tid ∈ state.lockOrder → stage.PastLocking) :
    Inv config seq₀ value₀ ((state.setRecord key record).setStage tid stage) where
  running := by
    intro other otherActive
    rcases eq_or_ne other tid with rfl | different
    · exact inv.running other active
    · exact inv.running other
        (by simpa [State.setRecord, different] using otherActive)
  txnOk := by
    intro other
    rcases eq_or_ne other tid with rfl | different
    · simpa [State.setRecord] using own
    · simpa [State.setRecord, different] using
        (inv.txnOk other).setRecord grows (others other different)
  lockOwner := by
    intro other locked
    rcases eq_or_ne other key with rfl | different
    · simpa [State.setRecord] using held (by simpa [State.setRecord] using locked)
    · have unchanged : (state.setRecord key record).records other = state.records other := by
        simp [State.setRecord, different]
      rw [State.setStage_records, unchanged] at locked ⊢
      obtain ⟨holder, item, content, mayHold, sameKey⟩ := inv.lockOwner other locked
      refine ⟨holder, item, content, ?_, sameKey⟩
      rcases eq_or_ne holder tid with rfl | another
      · simpa [State.setRecord] using holds item mayHold (sameKey ▸ different)
      · simpa [State.setRecord, another] using mayHold
  loaded := by
    intro other item member
    rcases eq_or_ne other tid with rfl | different
    · exact (inv.loaded other item (by simpa [State.setRecord] using member)).update kept
    · exact (inv.loaded other item
        (by simpa [State.setRecord, different] using member)).update kept
  current := by
    intro other
    rcases eq_or_ne other key with rfl | different
    · simpa [State.setRecord] using current
    · simpa [State.setRecord, different] using (inv.current other).update kept
  order_nodup := inv.order_nodup
  order_mem := by
    intro other alive
    rcases eq_or_ne other tid with rfl | different
    · exact inv.order_mem other (narrows (by simpa [State.setRecord] using alive)).1
    · exact inv.order_mem other (by simpa [State.setRecord, different] using alive)
  order_stage := inv.stages_kept stageOk
  ordered := pairwise_narrows narrows inv.order_nodup inv.ordered

/-- Moving a transaction whose coroutine keeps running. -/
theorem Inv.still_runs (inv : Inv config seq₀ value₀ state)
    (active : (state.txns tid).stage.Active) :
    ∀ other, (Function.update state.txns tid txn other).stage.Active →
      state.running (config.owner other) = some other := by
  intro other otherActive
  rcases eq_or_ne other tid with rfl | different
  · exact inv.running other active
  · exact inv.running other (by simpa [different] using otherActive)

/-! ## Execution -/

theorem inv_begin (inv : Inv config seq₀ value₀ state)
    (stepped : begin config state tid = some after) :
    Inv config seq₀ value₀ after := by
  unfold begin at stepped
  split at stepped
  · rename_i idle free
    simp only [Option.some.injEq] at stepped
    subst stepped
    apply inv.quiet
    · intro other active
      rcases eq_or_ne other tid with rfl | different
      · simp
      · have runs := inv.running other (by simpa [different] using active)
        have owners : config.owner other ≠ config.owner tid := by
          intro same
          rw [same, free] at runs
          cases runs
        simpa [owners] using runs
    · constructor <;> simp [Txn.PendingOk, Txn.Secured, Txn.Installed]
    · simp [Txn.MayHold, idle]
    · simp [Txn.Installed, idle]
    · simp
    · simp [Narrows, Txn.Alive]
    · intro member
      have past := inv.order_stage tid member
      simp [idle, Stage.PastLocking] at past
  · cases stepped

/-- A transaction that executes is not yet in `lockOrder`. -/
theorem Inv.not_mem_order (inv : Inv config seq₀ value₀ state)
    (early : ¬ (state.txns tid).stage.PastLocking) : tid ∉ state.lockOrder :=
  fun member => early (inv.order_stage tid member)

/-- Replacing the sets of a transaction that executes. -/
theorem Inv.setSets (inv : Inv config seq₀ value₀ state)
    (executes : (state.txns tid).stage = .execute)
    {readSet writeSet : List (ReadSetItem Key Value)}
    (keys_nodup : ((readSet ++ writeSet).map (·.key)).Nodup)
    (seen : ∀ item ∈ readSet ++ writeSet,
      seq₀ item.key ≤ item.seq ∧ item.seq ≤ (state.records item.key).seq)
    (loaded : ∀ item ∈ readSet ++ writeSet,
      Origin seq₀ value₀ state.txns item.key item.seq item.value) :
    Inv config seq₀ value₀
      (state.setTxn tid { stage := .execute, readSet, writeSet }) := by
  apply inv.quiet
  · exact inv.still_runs (by simp [executes, Stage.Active])
  · constructor
    · exact keys_nodup
    · simp [Txn.PendingOk]
    · simp [Txn.Secured]
    · exact seen
    · simp [Txn.Installed]
  · simp [Txn.MayHold, executes]
  · simp [Txn.Installed, executes]
  · exact loaded
  · simp [Narrows, Txn.Alive]
  · intro member
    exact absurd member (inv.not_mem_order (by simp [executes, Stage.PastLocking]))

theorem readWriteRpcHandler_eq_some {key : Key} {record : Record Value}
    {item : ReadSetItem Key Value}
    (loaded : readWriteRpcHandler key record = some item) :
    item.key = key ∧ item.seq = record.seq ∧ item.value = record.value := by
  unfold readWriteRpcHandler Record.localGetOp at loaded
  split at loaded
  · cases loaded
  · simp only [Option.map_some, Option.some.injEq] at loaded
    subst loaded
    exact ⟨rfl, rfl, rfl⟩

/-- Facts a load adds about the item it fills in. -/
theorem Inv.load (inv : Inv config seq₀ value₀ state) {item : ReadSetItem Key Value}
    (sameSeq : item.seq = (state.records item.key).seq)
    (sameValue : item.value = (state.records item.key).value) :
    (seq₀ item.key ≤ item.seq ∧ item.seq ≤ (state.records item.key).seq) ∧
      Origin seq₀ value₀ state.txns item.key item.seq item.value := by
  have origin := inv.current item.key
  rw [← sameSeq, ← sameValue] at origin
  refine ⟨⟨?_, sameSeq.le⟩, origin⟩
  rcases origin with ⟨initial, -⟩ | ⟨writer, other, installed, sameKey, version, -⟩
  · exact initial.ge
  · have bounds := (inv.txnOk writer).seen other (by simp [installed.1])
    rw [sameKey] at bounds
    omega

/-- Sets that have one more record, with its current version. -/
theorem Inv.addItem (inv : Inv config seq₀ value₀ state)
    (executes : (state.txns tid).stage = .execute)
    {readSet writeSet : List (ReadSetItem Key Value)} {item : ReadSetItem Key Value}
    (grown : (readSet ++ writeSet).Perm
      (item :: ((state.txns tid).readSet ++ (state.txns tid).writeSet)))
    (fresh : (state.txns tid).Fresh item.key)
    (sameSeq : item.seq = (state.records item.key).seq)
    (sameValue : item.value = (state.records item.key).value) :
    Inv config seq₀ value₀
      (state.setTxn tid { stage := .execute, readSet, writeSet }) := by
  obtain ⟨seen, origin⟩ := inv.load sameSeq sameValue
  have old := inv.txnOk tid
  apply inv.setSets executes
  · rw [(grown.map _).nodup_iff, List.map_cons, List.nodup_cons]
    refine ⟨?_, old.keys_nodup⟩
    rw [List.mem_map]
    rintro ⟨other, member, equal⟩
    exact fresh other member equal
  · intro other member
    rcases List.mem_cons.mp (grown.mem_iff.mp member) with rfl | member
    · exact seen
    · exact old.seen other member
  · intro other member
    rcases List.mem_cons.mp (grown.mem_iff.mp member) with rfl | member
    · exact origin
    · exact inv.loaded tid other member

theorem inv_read (inv : Inv config seq₀ value₀ state) {key : Key}
    (stepped : read state tid key = some after) :
    Inv config seq₀ value₀ after := by
  unfold read at stepped
  simp only at stepped
  split at stepped
  · rename_i executes
    split at stepped
    · rename_i fresh
      obtain ⟨item, loaded, rfl⟩ := Option.map_eq_some_iff.mp stepped
      obtain ⟨rfl, sameSeq, sameValue⟩ := readWriteRpcHandler_eq_some loaded
      rw [executes]
      apply inv.addItem executes _ fresh sameSeq sameValue
      rw [List.append_assoc, List.singleton_append]
      exact List.perm_middle
    · cases stepped
  · cases stepped

theorem inv_write (inv : Inv config seq₀ value₀ state) {key : Key}
    (stepped : write state tid key = some after) :
    Inv config seq₀ value₀ after := by
  unfold write at stepped
  simp only at stepped
  split at stepped
  · rename_i executes
    split at stepped
    · rename_i fresh
      obtain ⟨item, loaded, rfl⟩ := Option.map_eq_some_iff.mp stepped
      obtain ⟨rfl, sameSeq, sameValue⟩ := readWriteRpcHandler_eq_some loaded
      rw [executes]
      apply inv.addItem executes _ fresh sameSeq sameValue
      rw [← List.append_assoc]
      exact List.perm_append_singleton _ _
    · cases stepped
  · cases stepped

theorem inv_modify (inv : Inv config seq₀ value₀ state) {key : Key} {data : Value}
    (stepped : modify state tid key data = some after) :
    Inv config seq₀ value₀ after := by
  unfold modify at stepped
  simp only at stepped
  split at stepped
  · rename_i executes
    simp only [Option.some.injEq] at stepped
    subst stepped
    have old := inv.txnOk tid
    -- The buffers change; key, sequence word and loaded value of no item does.
    have unchanged : ∀ other ∈ (state.txns tid).readSet ++
        (state.txns tid).writeSet.map (fun item =>
          if item.key = key then { item with data } else item),
        ∃ item ∈ (state.txns tid).readSet ++ (state.txns tid).writeSet,
          item.key = other.key ∧ item.seq = other.seq ∧ item.value = other.value := by
      intro other member
      rcases List.mem_append.mp member with member | member
      · exact ⟨other, by simp [member], rfl, rfl, rfl⟩
      · obtain ⟨item, itemMember, rfl⟩ := List.mem_map.mp member
        refine ⟨item, by simp [itemMember], ?_⟩
        split <;> simp
    rw [executes]
    apply inv.setSets executes
    · have keys : ((state.txns tid).writeSet.map (fun item =>
          if item.key = key then { item with data } else item)).map (·.key) =
          (state.txns tid).writeSet.map (·.key) := by
        rw [List.map_map]
        apply List.map_congr_left
        intro item _
        simp only [Function.comp]
        split <;> rfl
      rw [List.map_append, keys, ← List.map_append]
      exact old.keys_nodup
    · intro other member
      obtain ⟨item, itemMember, sameKey, sameSeq, -⟩ := unchanged other member
      rw [← sameKey, ← sameSeq]
      exact old.seen item itemMember
    · intro other member
      obtain ⟨item, itemMember, sameKey, sameSeq, sameValue⟩ := unchanged other member
      rw [← sameKey, ← sameSeq, ← sameValue]
      exact inv.loaded tid item itemMember
  · cases stepped

/-! ## Phases of `commit` -/

/-- The facts about a transaction that survive any move to another stage. -/
theorem TxnOk.restage {records : Key → Record Value} {stage : Stage Key Value}
    (ok : TxnOk config seq₀ records tid txn)
    (pending : ({ txn with stage } : Txn Key Value).PendingOk)
    (secured : ∀ item, ({ txn with stage } : Txn Key Value).Secured item →
      txn.Secured item)
    (installed : ∀ item, ({ txn with stage } : Txn Key Value).Installed item →
      txn.Installed item) :
    TxnOk config seq₀ records tid { txn with stage } where
  keys_nodup := ok.keys_nodup
  pending := pending
  secured item isSecured := ok.secured item (secured item isSecured)
  seen := ok.seen
  installed item isInstalled := ok.installed item (installed item isInstalled)

/-- Two items of a write set with one key are the same item. -/
theorem TxnOk.item_eq {records : Key → Record Value}
    (ok : TxnOk config seq₀ records tid txn) {left right : ReadSetItem Key Value}
    (leftMember : left ∈ txn.writeSet) (rightMember : right ∈ txn.writeSet)
    (sameKey : left.key = right.key) : left = right := by
  have keys := ok.keys_nodup
  rw [List.map_append, List.nodup_append] at keys
  exact List.inj_on_of_nodup_map keys.2.1 leftMember rightMember sameKey

/-- The items of a write set are distinct. -/
theorem TxnOk.writeSet_nodup {records : Key → Record Value}
    (ok : TxnOk config seq₀ records tid txn) : txn.writeSet.Nodup := by
  have keys := ok.keys_nodup
  rw [List.map_append, List.nodup_append] at keys
  exact List.Nodup.of_map _ keys.2.1

/-- The items of a read set are distinct. -/
theorem TxnOk.readSet_nodup {records : Key → Record Value}
    (ok : TxnOk config seq₀ records tid txn) : txn.readSet.Nodup := by
  have keys := ok.keys_nodup
  rw [List.map_append, List.nodup_append] at keys
  exact List.Nodup.of_map _ keys.1

theorem inv_commit (inv : Inv config seq₀ value₀ state)
    (stepped : commit state tid = some after) :
    Inv config seq₀ value₀ after := by
  simp only [commit] at stepped
  split at stepped
  · rename_i executes
    simp only [Option.some.injEq] at stepped
    subst stepped
    have old := inv.txnOk tid
    apply inv.quiet
    · exact inv.still_runs (by simp [executes, Stage.Active])
    · apply old.restage
      · exact ⟨old.writeSet_nodup, fun _ member => member⟩
      · intro item secured
        exact absurd secured.1 secured.2.2
      · simp [Txn.Installed]
    · simp [Txn.MayHold, executes]
    · simp [Txn.Installed, executes]
    · exact inv.loaded tid
    · simp [Narrows, Txn.Alive]
    · intro member
      exact absurd member (inv.not_mem_order (by simp [executes, Stage.PastLocking]))
  · cases stepped

/-- Two transactions cannot both have secured one record. -/
theorem Inv.not_secured_of_lock (inv : Inv config seq₀ value₀ state) {other : Tid}
    {item : ReadSetItem Key Value} (active : (state.txns tid).stage.Active)
    (locked : (state.records item.key).lock = config.content tid)
    (different : other ≠ tid) : ¬ (state.txns other).Secured item := by
  intro secured
  have content := ((inv.txnOk other).secured item secured).1
  exact different (inv.tid_eq_of_content secured.active active (content.symm.trans locked))

theorem content_ne_zero (config : Config Key Tid Owner) (tid : Tid) :
    config.content tid ≠ 0 :=
  config.lockContent_ne_zero _

/-- The three ways a lock item is answered. -/
theorem lockRpcHandler_cases (record : Record Value) (lockContent seq : Nat) :
    (record.lock ≠ 0 ∧ lockRpcHandler record lockContent seq = (record, false)) ∨
      (record.lock = 0 ∧ lockRpcHandler record lockContent seq =
        ({ record with lock := lockContent }, record.seq == seq)) := by
  by_cases free : record.lock = 0
  · right
    simp [lockRpcHandler, Record.localTryLockOp, free]
  · left
    simp [lockRpcHandler, Record.localTryLockOp, free]

/-- A lock item changes at most the lock word of its record and what is left of
the message. -/
theorem Inv.lockTo (inv : Inv config seq₀ value₀ state)
    {pending left : List (ReadSetItem Key Value)} {failed nowFailed : Bool}
    {key : Key} {lock : Nat}
    (locking : (state.txns tid).stage = .lock pending failed)
    (shrinks : ∀ item ∈ left, item ∈ pending)
    (others : ∀ other, other ≠ tid → ∀ item, (state.txns other).Secured item →
      item.key = key → lock = config.content other ∧ (state.records key).seq = item.seq)
    (own : TxnOk config seq₀
      (Function.update state.records key { state.records key with lock }) tid
      { state.txns tid with stage := .lock left nowFailed })
    (held : lock ≠ 0 → ∃ holder item, lock = config.content holder ∧
      (Function.update state.txns tid
        { state.txns tid with stage := .lock left nowFailed } holder).MayHold item ∧
      item.key = key) :
    Inv config seq₀ value₀
      ((state.setRecord key { state.records key with lock }).setStage tid
        (.lock left nowFailed)) := by
  have keeps : ∀ item, (state.txns tid).Installed item →
      ({ state.txns tid with stage := .lock left nowFailed } : Txn Key Value).Installed
        item := by
    simp [Txn.Installed, locking]
  apply inv.touch
  · simp [locking, Stage.Active]
  · exact le_rfl
  · exact others
  · exact own
  · exact held
  · intro item mayHold _
    simp only [Txn.MayHold, locking] at mayHold ⊢
    exact ⟨mayHold.1, fun member => mayHold.2 (shrinks item member)⟩
  · exact keeps
  · exact (inv.current key).update keeps
  · simp [Narrows, Txn.Alive]
  · intro member
    exact absurd member (inv.not_mem_order (by simp [locking, Stage.PastLocking]))

/-- A transaction that gives up locking has nothing left to prove about its locks. -/
theorem TxnOk.lockFailed {records : Key → Record Value}
    {pending left : List (ReadSetItem Key Value)} {failed : Bool}
    (ok : TxnOk config seq₀ records tid txn) (locking : txn.stage = .lock pending failed)
    (nodup : left.Nodup) (shrinks : ∀ item ∈ left, item ∈ pending) :
    TxnOk config seq₀ records tid { txn with stage := .lock left true } := by
  have oldPending := ok.pending
  simp only [Txn.PendingOk, locking] at oldPending
  apply ok.restage
  · exact ⟨nodup, fun item member => oldPending.2 item (shrinks item member)⟩
  · simp [Txn.Secured]
  · simp [Txn.Installed]

/-- A transaction gives up locking; its locks stay where they are. -/
theorem Inv.lockFailed (inv : Inv config seq₀ value₀ state)
    {pending left : List (ReadSetItem Key Value)} {failed : Bool}
    (locking : (state.txns tid).stage = .lock pending failed)
    (nodup : left.Nodup) (shrinks : ∀ item ∈ left, item ∈ pending) :
    Inv config seq₀ value₀ (state.setStage tid (.lock left true)) := by
  apply inv.quiet (inv.still_runs (by simp [locking, Stage.Active]))
  · exact (inv.txnOk tid).lockFailed locking nodup shrinks
  · intro item mayHold _
    simp only [Txn.MayHold, locking] at mayHold ⊢
    exact ⟨mayHold.1, fun member => mayHold.2 (shrinks item member)⟩
  · simp [Txn.Installed, locking]
  · exact inv.loaded tid
  · simp [Narrows, Txn.Alive]
  · intro member
    exact absurd member (inv.not_mem_order (by simp [locking, Stage.PastLocking]))

/-- The lock of a free record passes to the transaction whose item is processed. -/
theorem Inv.lockFree (inv : Inv config seq₀ value₀ state)
    {pending left : List (ReadSetItem Key Value)} {failed nowFailed : Bool}
    {item : ReadSetItem Key Value}
    (locking : (state.txns tid).stage = .lock pending failed)
    (shrinks : ∀ other ∈ left, other ∈ pending)
    (member : item ∈ (state.txns tid).writeSet) (processed : item ∉ left)
    (free : (state.records item.key).lock = 0)
    (own : TxnOk config seq₀
      (Function.update state.records item.key
        { state.records item.key with lock := config.content tid }) tid
      { state.txns tid with stage := .lock left nowFailed }) :
    Inv config seq₀ value₀
      ((state.setRecord item.key
        { state.records item.key with lock := config.content tid }).setStage tid
          (.lock left nowFailed)) := by
  apply inv.lockTo locking shrinks _ own
  · intro _
    refine ⟨tid, item, rfl, ?_, rfl⟩
    rw [Function.update_self]
    exact ⟨member, processed⟩
  · intro other _ otherItem secured sameKey
    have content := ((inv.txnOk other).secured otherItem secured).1
    rw [sameKey, free] at content
    exact absurd content.symm (content_ne_zero config other)

/-- A lock item that succeeds secures its record. -/
theorem TxnOk.secure {records : Key → Record Value}
    {pending rest : List (ReadSetItem Key Value)} {failed : Bool}
    {item : ReadSetItem Key Value} (ok : TxnOk config seq₀ records tid txn)
    (locking : txn.stage = .lock pending failed)
    (split : ∀ other, other ∈ pending ↔ other = item ∨ other ∈ rest)
    (nodup : rest.Nodup) (matching : (records item.key).seq = item.seq) :
    TxnOk config seq₀
      (Function.update records item.key
        { records item.key with lock := config.content tid }) tid
      { txn with stage := .lock rest failed } := by
  have oldPending := ok.pending
  simp only [Txn.PendingOk, locking] at oldPending
  have itemMember := oldPending.2 item ((split item).mpr (.inl rfl))
  constructor
  · exact ok.keys_nodup
  · exact ⟨nodup, fun other member =>
      oldPending.2 other ((split other).mpr (.inr member))⟩
  · intro other secured
    rcases eq_or_ne other item with rfl | different
    · simpa using matching
    · have differentKey : other.key ≠ item.key := fun sameKey =>
        different (ok.item_eq secured.1 itemMember sameKey)
      rw [Function.update_of_ne differentKey]
      apply ok.secured
      simp only [Txn.Secured, locking] at secured ⊢
      refine ⟨secured.1, secured.2.1, ?_⟩
      rw [split]
      exact not_or.mpr ⟨different, secured.2.2⟩
  · intro other member
    have bounds := ok.seen other member
    rcases eq_or_ne other.key item.key with same | different
    · rw [same] at bounds ⊢
      simpa using bounds
    · simpa [different] using bounds
  · simp [Txn.Installed]

theorem inv_lockItem (inv : Inv config seq₀ value₀ state) {machine : Nat}
    (stepped : lockItem config state tid machine = some after) :
    Inv config seq₀ value₀ after := by
  simp only [lockItem] at stepped
  split at stepped
  · rename_i pending failed locking
    obtain ⟨⟨item, rest⟩, found, rfl⟩ := Option.map_eq_some_iff.mp stepped
    have old := inv.txnOk tid
    have oldPending := old.pending
    simp only [Txn.PendingOk, locking] at oldPending
    obtain ⟨notRest, restNodup⟩ := nodup_of_nextFor found oldPending.1
    have inPending : ∀ other, other ∈ rest → other ∈ pending := fun other member =>
      (mem_of_nextFor found).mpr (.inr member)
    have itemMember := oldPending.2 item ((mem_of_nextFor found).mpr (.inl rfl))
    have dropped : ∀ other ∈ dropFor (config.at machine) rest, other ∈ pending :=
      fun other member => inPending other (mem_of_mem_dropFor member)
    simp only
    rcases lockRpcHandler_cases (state.records item.key) (config.content tid) item.seq with
      ⟨taken, answer⟩ | ⟨free, answer⟩
    · rw [answer, State.setRecord, Function.update_eq_self]
      exact inv.lockFailed locking (nodup_dropFor restNodup) dropped
    · rw [answer]
      by_cases matching : (state.records item.key).seq = item.seq
      · rw [if_pos (beq_iff_eq.mpr matching)]
        apply inv.lockFree locking inPending itemMember notRest free
        exact old.secure locking (fun _ => mem_of_nextFor found) restNodup matching
      · -- The record changed since it was loaded; the handler leaves it locked.
        rw [if_neg (by simpa using matching)]
        apply inv.lockFree locking dropped itemMember
          (fun member => notRest (mem_of_mem_dropFor member)) free
        apply (old.lockFailed locking (nodup_dropFor restNodup) dropped).setRecord
        · exact le_rfl
        · simp [Txn.Secured]
  · cases stepped

/-- A record that validates carries the writes of every live transaction. -/
theorem Inv.validated_after (inv : Inv config seq₀ value₀ state)
    {item : ReadSetItem Key Value}
    (valid : validateRpcHandler (state.records item.key) item.seq = true)
    {other : Tid} (alive : (state.txns other).Alive) {left : ReadSetItem Key Value}
    (member : left ∈ (state.txns other).writeSet) (sameKey : left.key = item.key) :
    left.seq + 2 ≤ item.seq := by
  simp only [validateRpcHandler, Record.localValidateOp, Bool.and_eq_true,
    beq_iff_eq] at valid
  rcases alive.secured_or_installed member with secured | installed
  · have content := ((inv.txnOk other).secured left secured).1
    rw [sameKey, valid.2] at content
    exact absurd content.symm (content_ne_zero config other)
  · have version := (inv.txnOk other).installed left installed
    rw [sameKey] at version
    omega

/-- A record of the read set validates. -/
theorem Inv.validateOk (inv : Inv config seq₀ value₀ state)
    {pending rest : List (ReadSetItem Key Value)} {item : ReadSetItem Key Value}
    {failed : Bool} (validating : (state.txns tid).stage = .validate pending failed)
    (split : pending.Perm (item :: rest))
    (valid : validateRpcHandler (state.records item.key) item.seq = true) :
    Inv config seq₀ value₀ (state.setStage tid (.validate rest failed)) := by
  have old := inv.txnOk tid
  have oldPending := old.pending
  simp only [Txn.PendingOk, validating] at oldPending
  have restNodup := (List.nodup_cons.mp (split.nodup_iff.mp oldPending.1)).2
  have inPending : ∀ other, other ∈ rest → other ∈ pending := fun other member =>
    split.mem_iff.mpr (List.mem_cons_of_mem _ member)
  apply inv.quiet (inv.still_runs (by simp [validating, Stage.Active]))
  · apply old.restage
    · exact ⟨restNodup, fun other member => oldPending.2 other (inPending other member)⟩
    · simp [Txn.Secured, validating]
    · simp [Txn.Installed]
  · simp +contextual [Txn.MayHold, validating]
  · simp [Txn.Installed, validating]
  · exact inv.loaded tid
  · -- Every obligation a validated record adds is already met.
    intro alive
    simp only [Txn.Alive] at alive
    subst alive
    refine ⟨by simp [Txn.Alive, validating], rfl, rfl, ?_⟩
    intro other validated
    simp only [Txn.Validated, validating] at validated ⊢
    rcases eq_or_ne other item with rfl | different
    · right
      intro writer _ writerAlive left member sameKey
      exact inv.validated_after valid writerAlive member sameKey
    · left
      refine ⟨validated.1, trivial, ?_⟩
      rw [split.mem_iff, List.mem_cons]
      exact not_or.mpr ⟨different, validated.2.2⟩
  · simp [Stage.PastLocking]

/-- A validation that fails adds no obligation. -/
theorem Inv.validateFailed (inv : Inv config seq₀ value₀ state)
    {pending left : List (ReadSetItem Key Value)} {failed : Bool}
    (validating : (state.txns tid).stage = .validate pending failed)
    (nodup : left.Nodup) (shrinks : ∀ item ∈ left, item ∈ pending) :
    Inv config seq₀ value₀ (state.setStage tid (.validate left true)) := by
  have old := inv.txnOk tid
  have oldPending := old.pending
  simp only [Txn.PendingOk, validating] at oldPending
  apply inv.quiet (inv.still_runs (by simp [validating, Stage.Active]))
  · apply old.restage
    · exact ⟨nodup, fun other member => oldPending.2 other (shrinks other member)⟩
    · simp [Txn.Secured]
    · simp [Txn.Installed]
  · simp +contextual [Txn.MayHold, validating]
  · simp [Txn.Installed, validating]
  · exact inv.loaded tid
  · simp [Narrows, Txn.Alive]
  · simp [Stage.PastLocking]

theorem inv_validateItem (inv : Inv config seq₀ value₀ state) {machine : Nat}
    (stepped : validateItem config state tid machine = some after) :
    Inv config seq₀ value₀ after := by
  simp only [validateItem] at stepped
  split at stepped
  · rename_i pending failed validating
    obtain ⟨⟨item, rest⟩, found, rfl⟩ := Option.map_eq_some_iff.mp stepped
    have oldPending := (inv.txnOk tid).pending
    simp only [Txn.PendingOk, validating] at oldPending
    simp only
    split
    · exact inv.validateOk validating (nextFor_perm found) ‹_›
    · apply inv.validateFailed validating
      · exact nodup_dropFor (nodup_of_nextFor found oldPending.1).2
      · intro other member
        exact (mem_of_nextFor found).mpr (.inr (mem_of_mem_dropFor member))
  · cases stepped

/-- The write-back of one record unlocks it and installs its next version. -/
theorem Inv.commitOne (inv : Inv config seq₀ value₀ state)
    {pending rest : List (ReadSetItem Key Value)} {item : ReadSetItem Key Value}
    (writing : (state.txns tid).stage = .writeBack pending)
    (split : pending.Perm (item :: rest))
    (fits : (state.records item.key).seq + 2 < wordBound) :
    Inv config seq₀ value₀
      ((state.setRecord item.key
        (commitOneshotHandler (state.records item.key) item.data)).setStage tid
          (.writeBack rest)) := by
  have old := inv.txnOk tid
  have oldPending := old.pending
  simp only [Txn.PendingOk, writing] at oldPending
  obtain ⟨notRest, restNodup⟩ := List.nodup_cons.mp (split.nodup_iff.mp oldPending.1)
  have inPending : ∀ other, other ∈ rest → other ∈ pending := fun other member =>
    split.mem_iff.mpr (List.mem_cons_of_mem _ member)
  have itemPending : item ∈ pending := split.mem_iff.mpr List.mem_cons_self
  have itemMember := oldPending.2 item itemPending
  have active : (state.txns tid).stage.Active := by simp [writing, Stage.Active]
  have secured := old.secured item (by simp [Txn.Secured, writing, itemMember, itemPending])
  have version : (commitOneshotHandler (state.records item.key) item.data).seq =
      item.seq + 2 := by
    rw [commitOneshotHandler, Record.inplaceWriteOp_seq _ _ fits, secured.2]
  have unlocked : (commitOneshotHandler (state.records item.key) item.data).lock = 0 := by
    simp [commitOneshotHandler]
  have nowInstalled : ({ state.txns tid with stage := .writeBack rest } :
      Txn Key Value).Installed item := ⟨itemMember, notRest⟩
  have keeps : ∀ other, (state.txns tid).Installed other →
      ({ state.txns tid with stage := .writeBack rest } : Txn Key Value).Installed other := by
    intro other installed
    simp only [Txn.Installed, writing] at installed ⊢
    exact ⟨installed.1, fun member => installed.2 (inPending other member)⟩
  apply inv.touch active
  · rw [version, secured.2]
    omega
  · intro other different otherItem otherSecured sameKey
    have locked := secured.1
    rw [← sameKey] at locked
    exact absurd otherSecured (inv.not_secured_of_lock active locked different)
  · constructor
    · exact old.keys_nodup
    · exact ⟨restNodup, fun other member => oldPending.2 other (inPending other member)⟩
    · intro other otherSecured
      have differentKey : other.key ≠ item.key := by
        intro sameKey
        have same := old.item_eq otherSecured.1 itemMember sameKey
        exact notRest (same ▸ otherSecured.2)
      rw [Function.update_of_ne differentKey]
      apply old.secured
      simp only [Txn.Secured, writing]
      exact ⟨otherSecured.1, inPending other otherSecured.2⟩
    · intro other member
      have bounds := old.seen other member
      rcases eq_or_ne other.key item.key with same | different
      · rw [same] at bounds ⊢
        rw [Function.update_self, version]
        omega
      · simpa [different] using bounds
    · intro other otherInstalled
      rcases eq_or_ne other item with rfl | different
      · rw [Function.update_self, version]
      · have differentKey : other.key ≠ item.key := fun sameKey =>
          different (old.item_eq otherInstalled.1 itemMember sameKey)
        rw [Function.update_of_ne differentKey]
        apply old.installed
        simp only [Txn.Installed, writing]
        refine ⟨otherInstalled.1, ?_⟩
        rw [split.mem_iff, List.mem_cons]
        exact not_or.mpr ⟨different, otherInstalled.2⟩
  · intro locked
    exact absurd unlocked locked
  · intro other mayHold differentKey
    simp only [Txn.MayHold, writing] at mayHold ⊢
    refine ⟨mayHold.1, ?_⟩
    rcases List.mem_cons.mp (split.mem_iff.mp mayHold.2) with rfl | member
    · exact absurd rfl differentKey
    · exact member
  · exact keeps
  · refine .inr ⟨tid, item, ?_, rfl, version.symm, rfl⟩
    rw [Function.update_self]
    exact nowInstalled
  · intro _
    refine ⟨by simp [Txn.Alive, writing], rfl, rfl, ?_⟩
    intro other validated
    left
    simpa [Txn.Validated, writing] using validated.1
  · simp [Stage.PastLocking]

theorem inv_commitItem (inv : Inv config seq₀ value₀ state) {key : Key}
    (fits : (state.records key).seq + 2 < wordBound)
    (stepped : commitItem state tid key = some after) :
    Inv config seq₀ value₀ after := by
  simp only [commitItem] at stepped
  split at stepped
  · rename_i pending writing
    obtain ⟨⟨item, rest⟩, found, rfl⟩ := Option.map_eq_some_iff.mp stepped
    have itemKey : item.key = key := by simpa using of_nextFor found
    rw [← itemKey] at fits
    exact inv.commitOne writing (nextFor_perm found) fits
  · cases stepped

/-- The release of one record clears its lock if the transaction has it. -/
theorem Inv.releaseOne (inv : Inv config seq₀ value₀ state)
    {pending rest : List (ReadSetItem Key Value)} {item : ReadSetItem Key Value}
    (releasing : (state.txns tid).stage = .release pending)
    (split : pending.Perm (item :: rest)) :
    Inv config seq₀ value₀
      ((state.setRecord item.key
        (releaseRpcHandler (state.records item.key) (config.content tid))).setStage tid
          (.release rest)) := by
  have old := inv.txnOk tid
  have oldPending := old.pending
  simp only [Txn.PendingOk, releasing] at oldPending
  have restNodup := (List.nodup_cons.mp (split.nodup_iff.mp oldPending.1)).2
  have inPending : ∀ other, other ∈ rest → other ∈ pending := fun other member =>
    split.mem_iff.mpr (List.mem_cons_of_mem _ member)
  have active : (state.txns tid).stage.Active := by simp [releasing, Stage.Active]
  have keeps : ∀ other, (state.txns tid).Installed other →
      ({ state.txns tid with stage := .release rest } : Txn Key Value).Installed other := by
    simp [Txn.Installed, releasing]
  simp only [releaseRpcHandler]
  apply inv.touch active
  · simp
  · intro other different otherItem otherSecured sameKey
    have kept := (inv.txnOk other).secured otherItem otherSecured
    rw [sameKey] at kept
    have foreign : (state.records item.key).lock ≠ config.content tid := by
      intro locked
      rw [← sameKey] at locked
      exact inv.not_secured_of_lock active locked different otherSecured
    simpa [Record.localTryReleaseOp, foreign] using kept
  · apply TxnOk.setRecord _ (by simp)
    · simp [Txn.Secured]
    · apply old.restage
      · exact ⟨restNodup, fun other member =>
          oldPending.2 other (inPending other member)⟩
      · simp [Txn.Secured]
      · simp [Txn.Installed]
  · intro locked
    have foreign : (state.records item.key).lock ≠ config.content tid := by
      intro own
      simp [Record.localTryReleaseOp, own] at locked
    simp only [Record.localTryReleaseOp, foreign, if_false] at locked ⊢
    obtain ⟨holder, heldItem, content, mayHold, sameKey⟩ := inv.lockOwner item.key locked
    have different : holder ≠ tid := by
      rintro rfl
      exact foreign content
    exact ⟨holder, heldItem, content, by simpa [different] using mayHold, sameKey⟩
  · intro other mayHold differentKey
    simp only [Txn.MayHold, releasing] at mayHold ⊢
    refine ⟨mayHold.1, ?_⟩
    rcases List.mem_cons.mp (split.mem_iff.mp mayHold.2) with rfl | member
    · exact absurd rfl differentKey
    · exact member
  · exact keeps
  · simpa using (inv.current item.key).update keeps
  · simp [Narrows, Txn.Alive]
  · simp [Stage.PastLocking]

theorem inv_releaseItem (inv : Inv config seq₀ value₀ state) {machine : Nat}
    (stepped : releaseItem config state tid machine = some after) :
    Inv config seq₀ value₀ after := by
  simp only [releaseItem] at stepped
  split at stepped
  · rename_i pending releasing
    obtain ⟨⟨item, rest⟩, found, rfl⟩ := Option.map_eq_some_iff.mp stepped
    exact inv.releaseOne releasing (nextFor_perm found)
  · cases stepped

/-- A transaction that has just taken all its locks comes after every live one. -/
theorem Inv.ordered_last (inv : Inv config seq₀ value₀ state)
    (locking : (state.txns tid).stage = .lock [] false) {other : Tid}
    (different : other ≠ tid) (alive : (state.txns other).Alive) :
    (state.txns other).Ordered
      { state.txns tid with stage := .validate (state.txns tid).readSet false } := by
  have active : (state.txns tid).stage.Active := by simp [locking, Stage.Active]
  have secured : ∀ right ∈ (state.txns tid).writeSet,
      (state.records right.key).lock = config.content tid ∧
        (state.records right.key).seq = right.seq := fun right member =>
    (inv.txnOk tid).secured right (by simp [Txn.Secured, locking, member])
  constructor
  · intro left leftMember right rightMember sameKey
    have held := secured right rightMember
    rw [← sameKey] at held
    rcases alive.secured_or_installed leftMember with leftSecured | installed
    · exact absurd leftSecured (inv.not_secured_of_lock active held.1 different)
    · have version := (inv.txnOk other).installed left installed
      omega
  · intro left leftMember right rightMember sameKey
    have held := secured right rightMember
    have bounds := (inv.txnOk other).seen left (by simp [leftMember])
    rw [sameKey] at bounds
    omega
  · intro left _ right validated _
    exact absurd validated.1 validated.2.2

/-- The end of the locking phase appends a transaction to `lockOrder`. -/
theorem inv_lockDone (inv : Inv config seq₀ value₀ state)
    (locking : (state.txns tid).stage = .lock [] false) :
    Inv config seq₀ value₀
      { state.setStage tid (.validate (state.txns tid).readSet false) with
        lockOrder := state.lockOrder ++ [tid] } := by
  have old := inv.txnOk tid
  have early : tid ∉ state.lockOrder :=
    inv.not_mem_order (by simp [locking, Stage.PastLocking])
  have members : ∀ other ∈ state.lockOrder, other ≠ tid := fun other member same =>
    early (same ▸ member)
  apply inv.move
  · exact inv.still_runs (by simp [locking, Stage.Active])
  · apply old.restage
    · exact ⟨old.readSet_nodup, fun _ member => member⟩
    · simp [Txn.Secured, locking]
    · simp [Txn.Installed]
  · simp +contextual [Txn.MayHold, locking]
  · simp [Txn.Installed, locking]
  · exact inv.loaded tid
  · rw [List.nodup_append]
    refine ⟨inv.order_nodup, by simp, ?_⟩
    intro left leftMember right rightMember
    rw [List.mem_singleton.mp rightMember]
    exact members left leftMember
  · intro other member
    exact List.mem_append_left _ member
  · simp
  · intro other member
    rcases List.mem_append.mp member with member | member
    · simpa [members other member] using inv.order_stage other member
    · rw [List.mem_singleton.mp member]
      simp [Stage.PastLocking]
  · rw [List.pairwise_append]
    refine ⟨?_, by simp, ?_⟩
    · refine inv.ordered.imp_of_mem fun {earlier later} earlierMember laterMember before => ?_
      simpa [members earlier earlierMember, members later laterMember] using before
    · intro earlier earlierMember later laterMember earlierAlive _
      rw [List.mem_singleton.mp laterMember, Function.update_self]
      rw [Function.update_of_ne (members earlier earlierMember)] at earlierAlive ⊢
      exact inv.ordered_last locking (members earlier earlierMember) earlierAlive

/-- After `commit` has returned no step belongs to the transaction any more. -/
theorem Inv.stopped (inv : Inv config seq₀ value₀ state)
    (active : (state.txns tid).stage.Active) {committed : Bool} :
    ∀ other, (Function.update state.txns tid
        { state.txns tid with stage := .finished committed } other).stage.Active →
      Function.update state.running (config.owner tid) none (config.owner other) =
        some other := by
  intro other otherActive
  rcases eq_or_ne other tid with rfl | different
  · simp [Stage.Active] at otherActive
  · have runs := inv.running other (by simpa [different] using otherActive)
    have owners : config.owner other ≠ config.owner tid := by
      intro same
      have own := inv.running tid active
      rw [same, own] at runs
      exact different (Option.some.inj runs).symm
    simpa [owners] using runs

/-- A transaction stops and releases the locks it may have. -/
theorem Inv.giveUp (inv : Inv config seq₀ value₀ state)
    {pending : List (ReadSetItem Key Value)} {failed : Bool}
    (stopped : (state.txns tid).stage = .lock [] failed ∨
      (state.txns tid).stage = .validate [] failed)
    (nodup : pending.Nodup) (shrinks : ∀ item ∈ pending, item ∈ (state.txns tid).writeSet)
    (covers : ∀ item ∈ (state.txns tid).writeSet,
      (state.records item.key).lock = config.content tid → item ∈ pending) :
    Inv config seq₀ value₀ (state.setStage tid (.release pending)) := by
  have active : (state.txns tid).stage.Active := by
    rcases stopped with stage | stage <;> simp [stage, Stage.Active]
  apply inv.quiet (inv.still_runs active)
  · apply (inv.txnOk tid).restage
    · exact ⟨nodup, shrinks⟩
    · simp [Txn.Secured]
    · simp [Txn.Installed]
  · intro item mayHold locked
    exact ⟨mayHold.1, covers item mayHold.1 locked⟩
  · rcases stopped with stage | stage <;> simp [Txn.Installed, stage]
  · exact inv.loaded tid
  · simp [Narrows, Txn.Alive]
  · simp [Stage.PastLocking]

theorem inv_resume (inv : Inv config seq₀ value₀ state)
    (stepped : resume config state tid = some after) :
    Inv config seq₀ value₀ after := by
  simp only [resume] at stepped
  have old := inv.txnOk tid
  split at stepped
  case h_1 locking =>
    simp only [Option.some.injEq] at stepped
    subst stepped
    exact inv.giveUp (.inl locking) old.writeSet_nodup (fun _ member => member)
      (fun _ member _ => member)
  case h_2 locking =>
    simp only [Option.some.injEq] at stepped
    subst stepped
    exact inv_lockDone inv locking
  case h_3 validating =>
    simp only [Option.some.injEq] at stepped
    subst stepped
    exact inv.giveUp (.inr validating) old.writeSet_nodup (fun _ member => member)
      (fun _ member _ => member)
  case h_4 validating =>
    simp only [Option.some.injEq] at stepped
    subst stepped
    apply inv.quiet (inv.still_runs (by simp [validating, Stage.Active]))
    · apply old.restage
      · exact ⟨old.writeSet_nodup, fun _ member => member⟩
      · simp [Txn.Secured, validating]
      · intro item installed
        exact absurd installed.1 installed.2
    · simp +contextual [Txn.MayHold, validating]
    · simp [Txn.Installed, validating]
    · exact inv.loaded tid
    · intro _
      refine ⟨by simp [Txn.Alive, validating], rfl, rfl, ?_⟩
      intro item validated
      left
      simpa [Txn.Validated, validating] using validated.1
    · simp [Stage.PastLocking]
  case h_5 writing =>
    simp only [Option.some.injEq] at stepped
    subst stepped
    apply inv.quiet (inv.stopped (by simp [writing, Stage.Active]))
    · apply old.restage
      · trivial
      · simp [Txn.Secured]
      · simp [Txn.Installed, writing]
    · simp [Txn.MayHold, writing]
    · simp [Txn.Installed, writing]
    · exact inv.loaded tid
    · intro _
      refine ⟨by simp [Txn.Alive, writing], rfl, rfl, ?_⟩
      intro item validated
      left
      simpa [Txn.Validated, writing] using validated.1
    · simp [Stage.PastLocking]
  case h_6 releasing =>
    simp only [Option.some.injEq] at stepped
    subst stepped
    apply inv.quiet (inv.stopped (by simp [releasing, Stage.Active]))
    · apply old.restage
      · trivial
      · simp [Txn.Secured]
      · simp [Txn.Installed]
    · simp [Txn.MayHold, releasing]
    · simp [Txn.Installed, releasing]
    · exact inv.loaded tid
    · simp [Narrows, Txn.Alive]
    · simp [Stage.PastLocking]
  case h_7 => cases stepped

end Rocc.Occ
