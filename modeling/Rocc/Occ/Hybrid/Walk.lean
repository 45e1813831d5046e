import Rocc.Occ.Hybrid.Move

/-!
# The walks of a hybrid commit

Execution, and the walk of every phase over a set of the transaction.
-/

set_option linter.unusedSectionVars false

namespace Rocc.Occ.Hybrid

open Rtx

universe u v w

variable {Key : Type u} {Value : Type v} {Tid : Type w}
variable [DecidableEq Key] [DecidableEq Tid]
variable {config : Config Key Tid} {state before after : State Key Value Tid} {tid : Tid}
variable {records : Key → Record Value} {txn next : Txn Key Value}

/-! ## Execution -/

theorem Own.quiet_of_execute (own : Own config tid records txn) (stage : txn.stage = .execute) :
    txn.Quiet := by
  have shape := own.shape
  simpa only [Txn.Shape, stage] using shape

theorem move_begin (inv : Inv config state) (stepped : begin state tid = some after) :
    Move config tid state after := by
  simp only [begin] at stepped
  split at stepped
  · rename_i idle
    cases stepped
    apply Move.quiet
    · apply (inv.own tid).restage
      · exact List.nodup_nil
      · exact ⟨rfl, rfl, rfl⟩
      · exact fun _ owned => absurd owned id
      · simp [Txn.Covers, Txn.Owns, idle]
    · simp [Txn.Decided, idle]
  · cases stepped

/-- Replacing the sets of a transaction that executes. -/
theorem Move.setSets (inv : Inv config state) (executes : (state.txns tid).stage = .execute)
    {readSet writeSet : List (Item Key Value)} (nodup : (keysOf (readSet ++ writeSet)).Nodup) :
    Move config tid state (state.setTxn tid { state.txns tid with readSet, writeSet }) := by
  apply Move.quiet
  · apply (inv.own tid).restage nodup
    · have quiet := (inv.own tid).quiet_of_execute executes
      simp only [Txn.Shape, executes]
      exact quiet
    · simp [Txn.Owns, executes]
    · simp [Txn.Covers, Txn.Owns, executes]
  · simp [Txn.Decided, executes]

/-- A fresh record joins one of the sets. -/
theorem nodup_of_fresh (item : Item Key Value) {items grown : List (Item Key Value)}
    (grows : grown.Perm (item :: items)) (nodup : (keysOf items).Nodup)
    (fresh : ∀ other ∈ items, other.key ≠ item.key) : (keysOf grown).Nodup := by
  rw [keysOf, (grows.map _).nodup_iff, List.map_cons, List.nodup_cons]
  refine ⟨?_, nodup⟩
  intro member
  obtain ⟨other, otherMember, same⟩ := List.mem_map.mp member
  exact fresh other otherMember same

theorem move_read (inv : Inv config state) {key : Key} {garbage : Nat}
    (stepped : read config state tid key garbage = some after) :
    Move config tid state after := by
  simp only [read] at stepped
  split at stepped
  · rename_i executes
    split at stepped
    · rename_i fresh
      cases stepped
      apply Move.setSets inv executes
      refine nodup_of_fresh (config.load tid key (state.records key) garbage) ?_
        (inv.own tid).nodup ?_
      · rw [List.append_assoc]
        exact List.perm_middle
      · exact fresh
    · cases stepped
  · cases stepped

theorem move_write (inv : Inv config state) {key : Key} {garbage : Nat}
    (stepped : write config state tid key garbage = some after) :
    Move config tid state after := by
  simp only [write] at stepped
  split at stepped
  · rename_i executes
    split at stepped
    · rename_i fresh
      cases stepped
      apply Move.setSets inv executes
      refine nodup_of_fresh (config.load tid key (state.records key) garbage) ?_
        (inv.own tid).nodup ?_
      · rw [← List.append_assoc]
        exact List.perm_append_singleton _ _
      · exact fresh
    · cases stepped
  · cases stepped

theorem move_modify (inv : Inv config state) {key : Key} {data : Value}
    (stepped : modify state tid key data = some after) :
    Move config tid state after := by
  simp only [modify] at stepped
  split at stepped
  · rename_i executes
    cases stepped
    apply Move.setSets inv executes
    rw [keysOf_append, keysOf_receive]
    · rw [← keysOf_append]
      exact (inv.own tid).nodup
    · exact fun _ => rfl
  · cases stepped

theorem move_commit (inv : Inv config state) (marked : Guarded config state (.commit tid))
    (stepped : commit state tid = some after) : Move config tid state after := by
  simp only [commit] at stepped
  split at stepped
  · rename_i executes
    cases stepped
    have own := inv.own tid
    obtain ⟨noVerbs, noBatch, noCalls⟩ := own.quiet_of_execute executes
    apply Move.quiet
    · apply own.restage
      · exact own.nodup
      · simp only [Guarded, Config.Marked] at marked
        constructor
        · exact noCalls
        · exact fun _ member => member
        · exact fun _ member missing => absurd member missing
        · simp [noVerbs]
        · simp [noBatch]
        · intro oneSided
          rw [if_pos oneSided] at marked
          refine ⟨noBatch, ?_, ?_, ?_⟩
          · simpa [noVerbs, casKeys] using own.writeSet_nodup
          · simp [noVerbs, casKeys]
          · exact marked.imp_right fun empty => ⟨noVerbs, rfl, empty⟩
        · intro rpc
          rw [if_neg (by simp [rpc])] at marked
          refine ⟨noVerbs, fun _ member => .inl member, ?_⟩
          rintro oneSided key ahead ⟨item, member, rfl, free⟩
          exact marked oneSided item member ahead free
      · rintro key ⟨-, missing, -, marks⟩
        exact absurd marks.mem missing
      · simp [Txn.Covers, Txn.Owns, executes]
    · simp [Txn.Decided, executes]
  · cases stepped

/-! ## The walk of the lock phase -/

/-- A local record is reached before anything is in flight. -/
theorem Txn.Locking.of_local {key : Key} {todo : List Key}
    (locking : txn.Locking config tid (key :: todo)) (isLocal : config.Local tid key) :
    txn.verbs = [] ∧
      (∀ other, ¬ Txn.Owns config tid { txn with stage := .lock (key :: todo) } other) ∧
      (config.oneSidedRelease = true → txn.Clean config tid (keysOf txn.writeSet)) := by
  have inSet := locking.subset key List.mem_cons_self
  cases flag : config.oneSidedLock with
  | true =>
      obtain ⟨-, -, -, remote | ⟨noVerbs, whole, empty⟩⟩ := locking.oneSided flag
      · exact absurd isLocal (remote key inSet)
      · refine ⟨noVerbs, ?_, ?_⟩
        · rintro other ⟨-, missing, -, marks⟩
          exact missing (whole ▸ marks.mem)
        · intro _ other ahead
          rw [← whole, empty] at ahead
          exact absurd ahead List.not_mem_nil
  | false =>
      obtain ⟨noVerbs, -, clean⟩ := locking.rpc flag
      refine ⟨noVerbs, ?_, clean⟩
      rintro other ⟨oneSided, -⟩
      exact absurd (flag.symm.trans oneSided) Bool.false_ne_true

/-- A local failure turns to the release with nothing in flight. -/
theorem Own.abort_local (own : Own config tid records txn) {key : Key}
    (noVerbs : txn.verbs = []) (noCalls : txn.calls = []) (inSet : key ∈ keysOf txn.writeSet)
    (isLocal : config.Local tid key)
    (clean : config.oneSidedRelease = true → txn.Clean config tid (keysOf txn.writeSet))
    (covers : ∀ other, txn.Covers config tid other → other ∈ keysOf txn.writeSet) :
    Own config tid records txn.abort := by
  have shape : txn.abort.Shape config tid := by
    refine ⟨?_, noCalls⟩
    constructor
    · exact fun _ member => member
    · simp [Txn.abort, noVerbs]
    · intro oneSided
      refine ⟨rfl, noCalls, ?_, fun _ => ⟨noVerbs, clean oneSided⟩⟩
      simpa [Txn.abort, noVerbs, unlockKeys] using own.writeSet_nodup
    · simp [Txn.abort, noVerbs, noCalls, unlockKeys]
  apply own.restage
  · exact own.nodup
  · exact shape
  · rintro other (⟨-, -, remote, -⟩ | posted)
    · exact absurd isLocal (remote key inSet)
    · simp [Txn.abort, noVerbs, unlockKeys] at posted
  · intro other covered
    cases flag : config.oneSidedRelease with
    | true =>
        simp only [Txn.Covers, Txn.abort, flag, if_true]
        exact .inr ⟨key, inSet, isLocal⟩
    | false =>
        simp only [Txn.Covers, Txn.abort, flag, Bool.false_eq_true, if_false]
        exact List.mem_append_left _ (covers other covered)

theorem Txn.eta_stage {stage : Stage Key} (same : txn.stage = stage) :
    { txn with stage } = txn := by
  cases txn
  simp only at same
  subst same
  rfl

theorem move_lockLocal (inv : Inv config state) {key : Key} {todo : List Key}
    (stage : (state.txns tid).stage = .lock (key :: todo)) (isLocal : config.Local tid key)
    (stepped : lockItem config state tid key todo = some after) :
    Move config tid state after := by
  have own := inv.own tid
  have shape := own.shape
  simp only [Txn.Shape, stage] at shape
  have inSet := shape.subset key List.mem_cons_self
  obtain ⟨noVerbs, ownsNothing, clean⟩ := shape.of_local isLocal
  rw [Txn.eta_stage stage] at ownsNothing
  simp only [lockItem, if_pos isLocal, Record.localTryLockOp] at stepped
  by_cases free : (state.records key).lock = 0
  · simp only [free, ne_eq, not_true_eq_false, if_false, Option.some.injEq] at stepped
    subst stepped
    apply Move.relock
    · rfl
    · rfl
    · exact .inr ⟨.inl free, .inr rfl⟩
    · apply own.setRecord
      · exact own.nodup
      · exact ⟨noVerbs, shape.calls, inSet, isLocal, clean⟩
      · exact fun other different same => absurd same different
      · intro other _ covered
        simp only [Txn.Covers, stage] at covered
        exact absurd covered (ownsNothing other)
      · exact fun _ => rfl
      · exact fun _ => rfl
    · simp [Txn.Decided, stage]
  · simp only [ne_eq, free, not_false_eq_true, if_true, Option.some.injEq] at stepped
    subst stepped
    apply Move.quiet
    · apply own.abort_local noVerbs shape.calls inSet isLocal clean
      intro other covered
      simp only [Txn.Covers, stage] at covered
      exact absurd covered (ownsNothing other)
    · simp [Txn.Decided, stage]

/-- The compare-and-swap of a remote record is posted. -/
theorem Txn.Locking.post {key : Key} {todo : List Key}
    (locking : txn.Locking config tid (key :: todo)) (remote : ¬ config.Local tid key)
    (oneSided : config.oneSidedLock = true) :
    Txn.Locking config tid { txn with
      stage := .lock todo,
      writeSet := receive txn.writeSet key Item.copySeq,
      verbs := txn.verbs ++ [.cas key, .fetch key] } todo := by
  have keys : keysOf (receive txn.writeSet key Item.copySeq) = keysOf txn.writeSet :=
    keysOf_receive _ _ fun _ => rfl
  obtain ⟨noBatch, nodup, posted, all⟩ := locking.oneSided oneSided
  have everywhere : txn.Remote config tid := by
    rcases all with everywhere | ⟨-, -, empty⟩
    · exact everywhere
    · rw [ahead_cons_remote remote] at empty
      cases empty
  have cas : casKeys (txn.verbs ++ [.cas key, .fetch key]) = casKeys txn.verbs ++ [key] := by
    simp [casKeys, Verb.casKey?]
  constructor
  · exact locking.calls
  · intro other member
    rw [keys]
    exact locking.subset other (List.mem_cons_of_mem _ member)
  · intro other member _
    exact everywhere other (by rwa [keys] at member)
  · intro verb member
    rcases List.mem_append.mp member with old | new
    · exact locking.verbs verb old
    · simp only [List.mem_cons, List.not_mem_nil, or_false] at new
      rcases new with rfl | rfl <;> trivial
  · simp [noBatch]
  · intro _
    refine ⟨noBatch, ?_, ?_, .inl ?_⟩
    · rw [cas, List.append_assoc]
      exact nodup
    · intro other member
      rw [cas, List.mem_append, List.mem_singleton] at member
      rw [keys]
      rcases member with old | rfl
      · exact posted other old
      · exact locking.subset _ List.mem_cons_self
    · intro other member
      exact everywhere other (by rwa [keys] at member)
  · intro rpc
    exact absurd (rpc.symm.trans oneSided) Bool.false_ne_true

theorem move_lockPost (inv : Inv config state) {key : Key} {todo : List Key}
    (stage : (state.txns tid).stage = .lock (key :: todo)) (remote : ¬ config.Local tid key)
    (oneSided : config.oneSidedLock = true) :
    Move config tid state (state.setTxn tid { state.txns tid with
      stage := .lock todo,
      writeSet := receive (state.txns tid).writeSet key Item.copySeq,
      verbs := (state.txns tid).verbs ++ [.cas key, .fetch key] }) := by
  have own := inv.own tid
  have shape := own.shape
  simp only [Txn.Shape, stage] at shape
  have marks : ∀ other, Txn.Marks { state.txns tid with
      stage := .lock todo,
      writeSet := receive (state.txns tid).writeSet key Item.copySeq,
      verbs := (state.txns tid).verbs ++ [.cas key, .fetch key] } other ↔
        (state.txns tid).Marks other :=
    fun other => marks_receive Item.copySeq (fun _ => rfl) fun _ => rfl
  have cas : casKeys ((state.txns tid).verbs ++ [.cas key, .fetch key]) =
      casKeys (state.txns tid).verbs ++ [key] := by
    simp [casKeys, Verb.casKey?]
  apply Move.quiet
  · apply own.restage
    · exact own.nodup_receive_write key fun _ => rfl
    · exact shape.post remote oneSided
    · rintro other ⟨-, missing, unposted, marked⟩
      simp only [cas, List.mem_append, List.mem_singleton, not_or] at unposted
      simp only [Txn.Owns, stage, List.mem_cons, not_or]
      exact ⟨oneSided, ⟨unposted.2, missing⟩, unposted.1, (marks other).mp marked⟩
    · intro other covered
      simp only [Txn.Covers, Txn.Owns, stage, List.mem_cons, not_or] at covered
      obtain ⟨-, ⟨different, missing⟩, unposted, marked⟩ := covered
      refine ⟨oneSided, missing, ?_, (marks other).mpr marked⟩
      simp [cas, unposted, different]
  · simp [Txn.Decided, stage]

theorem move_lockAppend (inv : Inv config state) {key : Key} {todo : List Key} (seq : Nat)
    (stage : (state.txns tid).stage = .lock (key :: todo)) (remote : ¬ config.Local tid key)
    (rpc : config.oneSidedLock = false) :
    Move config tid state (state.setTxn tid { state.txns tid with
      stage := .lock todo,
      batch := (state.txns tid).batch ++ [.lock key seq] }) := by
  have own := inv.own tid
  have shape := own.shape
  simp only [Txn.Shape, stage] at shape
  have inSet := shape.subset key List.mem_cons_self
  obtain ⟨noVerbs, all, clean⟩ := shape.rpc rpc
  have nothing : ∀ {Property : Prop}, config.oneSidedLock = true → Property := fun oneSided =>
    absurd (rpc.symm.trans oneSided) Bool.false_ne_true
  apply Move.quiet
  · apply own.restage
    · exact own.nodup
    · constructor
      · exact shape.calls
      · exact fun other member => shape.subset other (List.mem_cons_of_mem _ member)
      · intro other member missing
        rcases eq_or_ne other key with rfl | different
        · exact remote
        · exact shape.remote other member (by simp [different, missing])
      · exact shape.verbs
      · intro call member
        rcases List.mem_append.mp member with old | new
        · exact shape.batch call old
        · rw [List.mem_singleton] at new
          subst new
          exact inSet
      · exact nothing
      · intro _
        refine ⟨noVerbs, ?_, clean⟩
        intro other member
        simp only [lockKeys, List.filterMap_append, List.mem_append]
        rcases all other member with waiting | appended
        · rcases List.mem_cons.mp waiting with rfl | waiting
          · exact .inr (.inr (by simp [Call.lockKey?]))
          · exact .inl waiting
        · exact .inr (.inl appended)
    · rintro other ⟨oneSided, -⟩
      exact nothing oneSided
    · intro other covered
      simp only [Txn.Covers, Txn.Owns, stage] at covered
      exact nothing covered.1
  · simp [Txn.Decided, stage]

theorem move_lockItem (inv : Inv config state) {key : Key} {todo : List Key}
    (stage : (state.txns tid).stage = .lock (key :: todo))
    (stepped : lockItem config state tid key todo = some after) :
    Move config tid state after := by
  by_cases isLocal : config.Local tid key
  · exact move_lockLocal inv stage isLocal stepped
  · simp only [lockItem, if_neg isLocal] at stepped
    split at stepped
    · rename_i oneSided
      cases stepped
      exact move_lockPost inv stage isLocal oneSided
    · rename_i rpc
      obtain ⟨item, -, rfl⟩ := Option.map_eq_some_iff.mp stepped
      exact move_lockAppend inv item.seq stage isLocal (by simpa using rpc)

/-- A local record that has been locked does not pass its validation. -/
theorem move_lockLocalItem (inv : Inv config state) {key : Key} {todo : List Key}
    (stage : (state.txns tid).stage = .lockLocal key todo)
    (stepped : lockLocalItem state tid key todo = some after) :
    Move config tid state after := by
  have own := inv.own tid
  have shape := own.shape
  simp only [Txn.Shape, stage] at shape
  obtain ⟨noVerbs, noCalls, inSet, isLocal, clean⟩ := shape
  have locked : (state.records key).lock = config.lockContent tid :=
    own.owns key (by simp [Txn.Owns, stage])
  obtain ⟨item, -, rfl⟩ := Option.map_eq_some_iff.mp stepped
  have refused : (state.records key).localValidateOp item.seq = false := by
    simp [Record.localValidateOp, locked, config.lockContent_ne_zero]
  simp only [refused, Bool.false_eq_true, if_false]
  apply Move.quiet
  · apply own.abort_local noVerbs noCalls inSet isLocal clean
    intro other covered
    simp only [Txn.Covers, Txn.Owns, stage] at covered
    exact covered ▸ inSet
  · simp [Txn.Decided, stage]

/-- The walk of the lock phase is over. -/
theorem move_lockSend (inv : Inv config state) (stage : (state.txns tid).stage = .lock []) :
    Move config tid state (state.setTxn tid ((state.txns tid).send (.lockWait [] false))) := by
  have own := inv.own tid
  have shape := own.shape
  simp only [Txn.Shape, stage] at shape
  have remote : (state.txns tid).Remote config tid := fun key member =>
    shape.remote key member List.not_mem_nil
  apply Move.quiet
  · apply own.restage
    · exact own.nodup
    · constructor
      · rfl
      · exact remote
      · exact shape.verbs
      · simpa [Txn.send, shape.calls] using shape.batch
      · intro oneSided
        obtain ⟨noBatch, nodup, posted, -⟩ := shape.oneSided oneSided
        rw [List.append_nil] at nodup
        exact ⟨by simp [Txn.send, shape.calls, noBatch], nodup, posted⟩
      · intro rpc
        obtain ⟨noVerbs, all, clean⟩ := shape.rpc rpc
        refine ⟨noVerbs, by simp, ?_, ?_⟩
        · intro _ key member
          right
          simpa [Txn.send, shape.calls] using all key member
        · intro oneSided key marks
          refine clean oneSided key ?_ marks
          rw [ahead_of_remote remote]
          exact marks.mem
    · intro key owned
      cases flag : config.oneSidedLock with
      | true =>
          simp only [Txn.Owns, Txn.send, flag, if_true] at owned
          simp only [Txn.Owns, stage, flag, true_and, List.not_mem_nil, not_false_eq_true]
          exact owned
      | false => simp [Txn.Owns, Txn.send, flag] at owned
    · intro key covered
      simp only [Txn.Covers, Txn.Owns, stage] at covered
      simp only [Txn.Covers, Txn.Owns, Txn.send, covered.1, if_true]
      exact covered.2.2
  · simp [Txn.Decided, stage]

/-! ## The walk of the validation -/

/-- The walk or the replies of a validation go on. -/
theorem Own.validate (own : Own config tid records txn)
    (validating : (∃ todo, txn.stage = .validate todo) ∨ ∃ failed, txn.stage = .validateWait failed)
    (nextValidating : (∃ todo, next.stage = .validate todo) ∨
      ∃ failed, next.stage = .validateWait failed)
    (nodup : (keysOf (next.readSet ++ next.writeSet)).Nodup)
    (sameSet : next.writeSet = txn.writeSet) (shape : next.Shape config tid) :
    Own config tid records next := by
  have owns : ∀ key, txn.Owns config tid key ↔ key ∈ keysOf txn.writeSet := by
    intro key
    rcases validating with ⟨todo, stage⟩ | ⟨failed, stage⟩ <;> simp [Txn.Owns, stage]
  have covers : ∀ key, txn.Covers config tid key ↔ key ∈ keysOf txn.writeSet := by
    intro key
    rcases validating with ⟨todo, stage⟩ | ⟨failed, stage⟩ <;>
      simp [Txn.Covers, Txn.Owns, stage]
  have nextOwns : ∀ key, next.Owns config tid key ↔ key ∈ keysOf txn.writeSet := by
    intro key
    rcases nextValidating with ⟨todo, stage⟩ | ⟨failed, stage⟩ <;>
      simp [Txn.Owns, stage, sameSet]
  have nextCovers : ∀ key, next.Covers config tid key ↔ key ∈ keysOf txn.writeSet := by
    intro key
    rcases nextValidating with ⟨todo, stage⟩ | ⟨failed, stage⟩ <;>
      simp [Txn.Covers, Txn.Owns, stage, sameSet]
  apply own.restage nodup shape
  · exact fun key owned => (owns key).mpr ((nextOwns key).mp owned)
  · exact fun key covered => (nextCovers key).mpr ((covers key).mp covered)

/-- A release starts from a phase in which everything is remote. -/
theorem Own.abort_remote (own : Own config tid records txn)
    {writeSet : List (Item Key Value)} (keys : keysOf writeSet = keysOf txn.writeSet)
    (remote : txn.Remote config tid) (verbs : ∀ verb ∈ txn.verbs, verb.Checks)
    (noCalls : txn.calls = [])
    (marks : config.oneSidedRelease = true → ∀ key,
      Txn.Marks { txn with writeSet } key ↔ txn.Owns config tid key)
    (owned : ∀ key, txn.Covers config tid key →
      txn.Owns config tid key ∧ key ∈ keysOf txn.writeSet) :
    Own config tid records (Txn.abort { txn with writeSet }) := by
  have noUnlock : unlockKeys txn.verbs = [] := by
    rw [unlockKeys, List.filterMap_eq_nil_iff]
    intro verb member
    cases verb with
    | check key => rfl
    | cas | fetch | write | unlock => exact absurd (verbs _ member) id
  have nextRemote : ∀ key ∈ keysOf writeSet, ¬ config.Local tid key := by
    rw [keys]
    exact remote
  apply own.restage
  · rw [keysOf_append]
    simp only [Txn.abort, keys]
    rw [← keysOf_append]
    exact own.nodup
  · refine ⟨?_, noCalls⟩
    constructor
    · exact fun _ member => member
    · intro verb member
      cases verb with
      | check key => trivial
      | cas | fetch | write | unlock => exact absurd (verbs _ member) id
    · intro oneSided
      refine ⟨rfl, noCalls, ?_, ?_⟩
      · simpa [Txn.abort, noUnlock, keys] using own.writeSet_nodup
      · rintro ⟨key, member, isLocal⟩
        exact absurd isLocal (nextRemote key member)
    · intro _
      exact ⟨noUnlock, by simp [Txn.abort], by simp [Txn.abort, noCalls]⟩
  · rintro key (⟨oneSided, -, -, marked⟩ | posted)
    · exact (marks oneSided key).mp marked
    · simp [Txn.abort, noUnlock] at posted
  · intro key covered
    obtain ⟨owns, member⟩ := owned key covered
    rw [← keys] at member
    cases flag : config.oneSidedRelease with
    | true =>
        simp only [Txn.Covers, Txn.abort, flag, if_true]
        exact .inl (.inl ⟨flag, member, nextRemote, (marks flag key).mpr owns⟩)
    | false =>
        simp only [Txn.Covers, Txn.abort, flag, Bool.false_eq_true, if_false]
        exact List.mem_append_left _ member

/-- A validation that has failed turns to the release. -/
theorem Own.abort_validate (own : Own config tid records txn)
    (stage : (∃ todo, txn.stage = .validate todo) ∨ ∃ failed, txn.stage = .validateWait failed)
    (validating : txn.Validating config tid) (noCalls : txn.calls = []) :
    Own config tid records txn.abort := by
  have owns : ∀ key, txn.Owns config tid key ↔ key ∈ keysOf txn.writeSet := by
    intro key
    rcases stage with ⟨todo, stage⟩ | ⟨failed, stage⟩ <;> simp [Txn.Owns, stage]
  have covers : ∀ key, txn.Covers config tid key ↔ key ∈ keysOf txn.writeSet := by
    intro key
    rcases stage with ⟨todo, stage⟩ | ⟨failed, stage⟩ <;> simp [Txn.Covers, Txn.Owns, stage]
  apply own.abort_remote rfl validating.remote validating.verbs noCalls
  · intro oneSided key
    rw [owns]
    exact ⟨fun marked => Txn.Marks.mem marked, validating.marks oneSided key⟩
  · intro key covered
    exact ⟨(owns key).mpr ((covers key).mp covered), (covers key).mp covered⟩

theorem move_validateItem (inv : Inv config state) {key : Key} {todo : List Key}
    (stage : (state.txns tid).stage = .validate (key :: todo))
    (stepped : validateItem config state tid key todo = some after) :
    Move config tid state after := by
  have own := inv.own tid
  have shape := own.shape
  simp only [Txn.Shape, stage] at shape
  obtain ⟨validating, noCalls⟩ := shape
  have passes : Move config tid state
      (state.setTxn tid { state.txns tid with stage := .validate todo }) := by
    apply Move.quiet
    · apply own.validate (.inl ⟨_, stage⟩) (.inl ⟨todo, rfl⟩)
      · exact own.nodup
      · rfl
      · refine ⟨?_, noCalls⟩
        exact ⟨validating.remote, validating.marks, validating.verbs, validating.batch,
          validating.calls⟩
    · simp [Txn.Decided, stage]
  simp only [validateItem] at stepped
  obtain ⟨item, -, rfl⟩ := Option.map_eq_some_iff.mp stepped
  split
  · exact passes
  · split
    · split
      · exact passes
      · apply Move.quiet
        · exact own.abort_validate (.inl ⟨_, stage⟩) validating noCalls
        · simp [Txn.Decided, stage]
    · split
      · apply Move.quiet
        · apply own.validate (.inl ⟨_, stage⟩) (.inl ⟨todo, rfl⟩)
          · exact own.nodup_receive_read key fun _ => rfl
          · rfl
          · refine ⟨?_, noCalls⟩
            refine ⟨validating.remote, validating.marks, ?_, validating.batch, validating.calls⟩
            intro verb member
            rcases List.mem_append.mp member with old | new
            · exact validating.verbs verb old
            · rw [List.mem_singleton] at new
              subst new
              trivial
        · simp [Txn.Decided, stage]
      · apply Move.quiet
        · apply own.validate (.inl ⟨_, stage⟩) (.inl ⟨todo, rfl⟩)
          · exact own.nodup
          · rfl
          · refine ⟨?_, noCalls⟩
            refine ⟨validating.remote, validating.marks, validating.verbs, ?_, validating.calls⟩
            intro call member
            rcases List.mem_append.mp member with old | new
            · exact validating.batch call old
            · rw [List.mem_singleton] at new
              subst new
              trivial
        · simp [Txn.Decided, stage]

theorem move_validateSend (inv : Inv config state)
    (stage : (state.txns tid).stage = .validate []) :
    Move config tid state (state.setTxn tid ((state.txns tid).send (.validateWait false))) := by
  have own := inv.own tid
  have shape := own.shape
  simp only [Txn.Shape, stage] at shape
  obtain ⟨validating, noCalls⟩ := shape
  apply Move.quiet
  · apply own.validate (.inl ⟨_, stage⟩) (.inr ⟨false, rfl⟩)
    · exact own.nodup
    · rfl
    · refine ⟨?_, rfl⟩
      refine ⟨validating.remote, validating.marks, validating.verbs, by simp [Txn.send], ?_⟩
      simpa [Txn.send, noCalls] using validating.batch
  · simp [Txn.Decided, stage]

/-! ## The walks of write-back and release -/

theorem perm_posted (key : Key) (todo front back : List Key) :
    (todo ++ (front ++ key :: back)).Perm (key :: (todo ++ (front ++ back))) := by
  rw [← List.append_assoc, ← List.append_assoc]
  exact List.perm_middle

theorem move_writeBackItem (inv : Inv config state) {key : Key} {todo : List Key}
    (stage : (state.txns tid).stage = .writeBack (key :: todo))
    (stepped : writeBackItem config state tid key todo = some after) :
    Move config tid state after := by
  have own := inv.own tid
  have shape := own.shape
  simp only [Txn.Shape, stage] at shape
  obtain ⟨storing, noCalls⟩ := shape
  have inSet := storing.subset key List.mem_cons_self
  have remote := storing.remote key inSet
  simp only [writeBackItem] at stepped
  obtain ⟨item, -, rfl⟩ := Option.map_eq_some_iff.mp stepped
  rw [if_neg remote]
  split
  · have unlocks : unlockKeys ((state.txns tid).verbs ++
        [.write key ((item.seq + 2) % wordBound) item.data, .unlock key]) =
          unlockKeys (state.txns tid).verbs ++ [key] := by
      rw [unlockKeys, List.filterMap_append]
      rfl
    apply Move.quiet
    · apply own.restage
      · exact own.nodup
      · refine ⟨?_, noCalls⟩
        constructor
        · exact storing.remote
        · exact fun other member => storing.subset other (List.mem_cons_of_mem _ member)
        · intro verb member
          rcases List.mem_append.mp member with old | new
          · exact storing.verbs verb old
          · simp only [List.mem_cons, List.not_mem_nil, or_false] at new
            rcases new with rfl | rfl <;> trivial
        · exact storing.batch
        · exact storing.calls
        · have moved := perm_posted key todo (unlockKeys (state.txns tid).verbs)
            (commitKeys (state.txns tid).batch ++ commitKeys (state.txns tid).calls)
          simp only [unlocks, List.append_assoc, List.singleton_append]
          exact moved.nodup_iff.mpr
            (by simpa only [List.append_assoc, List.cons_append] using storing.nodup)
      · intro other owned
        simp only [Txn.Owns, stage, unlocks, List.mem_append, List.mem_cons,
          List.not_mem_nil, or_false] at owned ⊢
        tauto
      · intro other covered
        simp only [Txn.Covers, Txn.Owns, stage, unlocks, List.mem_append, List.mem_cons,
          List.not_mem_nil, or_false] at covered ⊢
        tauto
    · simp [Txn.Decided]
  · have commits : commitKeys ((state.txns tid).batch ++ [.commit key item.data]) =
        commitKeys (state.txns tid).batch ++ [key] := by
      simp [commitKeys, Call.commitKey?]
    apply Move.quiet
    · apply own.restage
      · exact own.nodup
      · refine ⟨?_, noCalls⟩
        constructor
        · exact storing.remote
        · exact fun other member => storing.subset other (List.mem_cons_of_mem _ member)
        · exact storing.verbs
        · intro call member
          rcases List.mem_append.mp member with old | new
          · exact storing.batch call old
          · rw [List.mem_singleton] at new
            subst new
            trivial
        · exact storing.calls
        · have moved := perm_posted key todo
            (unlockKeys (state.txns tid).verbs ++ commitKeys (state.txns tid).batch)
            (commitKeys (state.txns tid).calls)
          simp only [commits, List.append_assoc, List.singleton_append] at moved ⊢
          exact moved.nodup_iff.mpr
            (by simpa only [List.append_assoc, List.cons_append] using storing.nodup)
      · intro other owned
        simp only [Txn.Owns, stage, commits, List.mem_append, List.mem_cons,
          List.not_mem_nil, or_false] at owned ⊢
        tauto
      · intro other covered
        simp only [Txn.Covers, Txn.Owns, stage, commits, List.mem_append, List.mem_cons,
          List.not_mem_nil, or_false] at covered ⊢
        tauto
    · simp [Txn.Decided]

theorem move_writeBackSend (inv : Inv config state)
    (stage : (state.txns tid).stage = .writeBack []) :
    Move config tid state (state.setTxn tid ((state.txns tid).send .writeBackWait)) := by
  have own := inv.own tid
  have shape := own.shape
  simp only [Txn.Shape, stage] at shape
  obtain ⟨storing, noCalls⟩ := shape
  apply Move.quiet
  · apply own.restage
    · exact own.nodup
    · refine ⟨?_, rfl⟩
      constructor
      · exact storing.remote
      · simp
      · exact storing.verbs
      · simp [Txn.send]
      · simpa [Txn.send, noCalls] using storing.batch
      · simpa [Txn.send, noCalls, commitKeys] using storing.nodup
    · intro key owned
      simpa [Txn.Owns, Txn.send, stage, noCalls] using owned
    · intro key covered
      simpa [Txn.Covers, Txn.Owns, Txn.send, stage, noCalls] using covered
  · simp [Txn.Decided, Txn.send]

theorem move_releaseSend (inv : Inv config state)
    (stage : (state.txns tid).stage = .release []) :
    Move config tid state (state.setTxn tid ((state.txns tid).send .releaseWait)) := by
  have own := inv.own tid
  have shape := own.shape
  simp only [Txn.Shape, stage] at shape
  obtain ⟨releasing, noCalls⟩ := shape
  apply Move.quiet
  · apply own.restage
    · exact own.nodup
    · refine ⟨?_, rfl⟩
      constructor
      · simp
      · exact releasing.verbs
      · intro oneSided
        obtain ⟨noBatch, -, nodup, -⟩ := releasing.oneSided oneSided
        exact ⟨rfl, by simp [Txn.send, noBatch, noCalls], nodup, by simp⟩
      · intro rpc
        obtain ⟨noUnlock, batch, -⟩ := releasing.rpc rpc
        refine ⟨noUnlock, by simp [Txn.send], ?_⟩
        simpa [Txn.send, noCalls] using batch
    · intro key owned
      simp only [Txn.Owns, Txn.send] at owned
      simp only [Txn.Owns, stage]
      exact .inr owned
    · intro key covered
      cases flag : config.oneSidedRelease with
      | true => simpa [Txn.Covers, Txn.Owns, Txn.send, stage, flag] using covered
      | false => simpa [Txn.Covers, Txn.send, stage, flag, noCalls] using covered
  · simp [Txn.Decided, stage]

/-- The buffer a lookup finds decides whether the record is marked. -/
theorem Own.marks_iff (own : Own config tid records txn) {key : Key} {item : Item Key Value}
    (found : lookup txn.writeSet key = some item) : txn.Marks key ↔ item.lock = 0 := by
  have member : item ∈ txn.writeSet := List.mem_of_find?_eq_some found
  have isKey : item.key = key := by simpa using List.find?_some found
  constructor
  · rintro ⟨other, otherMember, otherKey, free⟩
    obtain rfl : other = item := List.inj_on_of_nodup_map own.writeSet_nodup otherMember member
      (otherKey.trans isKey.symm)
    exact free
  · exact fun free => ⟨item, member, isKey, free⟩

theorem mem_unlockKeys_post {verbs : List (Verb Key Value)} {key other : Key} {lock : Nat} :
    other ∈ unlockKeys (if lock = 0 then verbs ++ [.unlock key] else verbs) ↔
      other ∈ unlockKeys verbs ∨ (other = key ∧ lock = 0) := by
  split
  · rename_i free
    simp [unlockKeys, Verb.unlockKey?, free]
  · rename_i taken
    simp [taken]

/-- Whoever comes to a local record later has no mark ahead of it. -/
theorem Txn.Releasing.unmarked {key : Key} {todo : List Key}
    (releasing : txn.Releasing config tid (key :: todo))
    (oneSided : config.oneSidedRelease = true) (remote : ¬ config.Local tid key)
    (hasLocal : ∃ other ∈ todo, config.Local tid other) :
    txn.verbs = [] ∧ ¬ txn.Marks key ∧ txn.Clean config tid todo := by
  obtain ⟨other, inTodo, isLocal⟩ := hasLocal
  obtain ⟨-, -, -, stops⟩ := releasing.oneSided oneSided
  obtain ⟨noVerbs, clean⟩ := stops ⟨other, List.mem_cons_of_mem _ inTodo, isLocal⟩
  rw [Txn.Clean, ahead_cons_remote remote, List.forall_mem_cons] at clean
  exact ⟨noVerbs, clean⟩

/-- The unlock of a marked record is posted. -/
theorem Txn.Releasing.post {key : Key} {todo : List Key} {lock : Nat}
    (releasing : txn.Releasing config tid (key :: todo))
    (oneSided : config.oneSidedRelease = true) (remote : ¬ config.Local tid key)
    (marks : txn.Marks key ↔ lock = 0) :
    Txn.Releasing config tid { txn with
      stage := .release todo,
      verbs := if lock = 0 then txn.verbs ++ [.unlock key] else txn.verbs } todo := by
  obtain ⟨noBatch, noCalls, nodup, -⟩ := releasing.oneSided oneSided
  rw [List.cons_append, List.nodup_cons] at nodup
  constructor
  · exact fun other inTodo => releasing.subset other (List.mem_cons_of_mem _ inTodo)
  · intro verb posted
    simp only at posted
    split at posted
    · rcases List.mem_append.mp posted with old | new
      · exact releasing.verbs verb old
      · rw [List.mem_singleton] at new
        subst new
        trivial
    · exact releasing.verbs verb posted
  · intro _
    refine ⟨noBatch, noCalls, ?_, ?_⟩
    · simp only
      split
      · rw [unlockKeys, List.filterMap_append, ← List.append_assoc]
        exact List.nodup_append.mpr ⟨nodup.2, List.nodup_singleton _, by
          intro left leftMember right rightMember
          rw [List.mem_singleton.mp rightMember]
          exact fun same => nodup.1 (same ▸ leftMember)⟩
      · exact nodup.2
    · intro hasLocal
      obtain ⟨noVerbs, unmarked, clean⟩ := releasing.unmarked oneSided remote hasLocal
      refine ⟨?_, clean⟩
      simp only [if_neg fun free => unmarked (marks.mpr free)]
      exact noVerbs
  · intro rpc
    exact absurd (rpc.symm.trans oneSided) Bool.false_ne_true

/-- A one-sided release comes to a remote record. -/
theorem move_releasePost (inv : Inv config state) {key : Key} {todo : List Key}
    {item : Item Key Value} (stage : (state.txns tid).stage = .release (key :: todo))
    (oneSided : config.oneSidedRelease = true) (remote : ¬ config.Local tid key)
    (found : lookup (state.txns tid).writeSet key = some item) :
    Move config tid state (state.setTxn tid { state.txns tid with
      stage := .release todo,
      verbs := if item.lock = 0 then (state.txns tid).verbs ++ [.unlock key]
        else (state.txns tid).verbs }) := by
  have own := inv.own tid
  have shape := own.shape
  simp only [Txn.Shape, stage] at shape
  obtain ⟨releasing, noCalls⟩ := shape
  have marks := own.marks_iff found
  apply Move.quiet
  · apply own.restage
    · exact own.nodup
    · exact ⟨releasing.post oneSided remote marks, noCalls⟩
    · intro other owned
      simp only [Txn.Owns, stage, mem_unlockKeys_post] at owned ⊢
      rcases owned with ⟨-, inTodo, allRemote, marked⟩ | posted | ⟨rfl, free⟩
      · refine .inl ⟨oneSided, List.mem_cons_of_mem _ inTodo, ?_, marked⟩
        rw [List.forall_mem_cons]
        exact ⟨remote, allRemote⟩
      · exact .inr posted
      · refine .inl ⟨oneSided, List.mem_cons_self, ?_, marks.mpr free⟩
        rw [List.forall_mem_cons]
        refine ⟨remote, fun later inTodo isLocal => ?_⟩
        have unmarked := (releasing.unmarked oneSided remote ⟨later, inTodo, isLocal⟩).2.1
        exact unmarked (marks.mpr free)
    · intro other covered
      simp only [Txn.Covers, Txn.Owns, stage, oneSided, if_true, mem_unlockKeys_post, true_and,
        List.mem_cons, forall_eq_or_imp, exists_eq_or_imp] at covered ⊢
      rcases covered with (⟨rfl | inTodo, allRemote, marked⟩ | posted) | isLocal | later
      · exact .inl (.inr (.inr ⟨rfl, marks.mp marked⟩))
      · exact .inl (.inl ⟨inTodo, allRemote.2, marked⟩)
      · exact .inl (.inr (.inl posted))
      · exact absurd isLocal remote
      · exact .inr later
  · simp [Txn.Decided, stage]

/-- A one-sided release is not implemented for local records. -/
theorem move_releaseCrash (inv : Inv config state) {key : Key} {todo : List Key}
    (stage : (state.txns tid).stage = .release (key :: todo))
    (oneSided : config.oneSidedRelease = true) (isLocal : config.Local tid key) :
    Move config tid state (state.setTxn tid { state.txns tid with stage := .crashed }) := by
  have own := inv.own tid
  have shape := own.shape
  simp only [Txn.Shape, stage] at shape
  obtain ⟨noBatch, noCalls, -, stops⟩ := shape.1.oneSided oneSided
  have noVerbs := (stops ⟨key, List.mem_cons_self, isLocal⟩).1
  apply Move.quiet
  · apply own.restage
    · exact own.nodup
    · exact ⟨noVerbs, noBatch, noCalls⟩
    · exact fun _ owned => absurd owned id
    · exact fun _ _ => trivial
  · simp [Txn.Decided, stage]

/-- An RPC release comes to a local record. -/
theorem move_releaseLocal (inv : Inv config state) {key : Key} {todo : List Key}
    (stage : (state.txns tid).stage = .release (key :: todo))
    (rpc : config.oneSidedRelease = false) :
    Move config tid state ((state.setRecord key
      ((state.records key).localTryReleaseOp (config.lockContent tid))).setTxn tid
        { state.txns tid with stage := .release todo }) := by
  have own := inv.own tid
  have shape := own.shape
  simp only [Txn.Shape, stage] at shape
  obtain ⟨releasing, noCalls⟩ := shape
  have noUnlock := (releasing.rpc rpc).1
  have oneSidedAbsurd : config.oneSidedRelease ≠ true := by simp [rpc]
  have owns : ∀ other,
      ¬ Txn.Owns config tid { state.txns tid with stage := .release todo } other := by
    rintro other (⟨oneSided, -⟩ | posted)
    · exact oneSidedAbsurd oneSided
    · simp [noUnlock] at posted
  have released : ((state.records key).localTryReleaseOp (config.lockContent tid)).lock ≠
      config.lockContent tid := by
    unfold Record.localTryReleaseOp
    split
    · exact (config.lockContent_ne_zero tid).symm
    · assumption
  apply Move.relock
  · simp
  · simp
  · unfold Record.localTryReleaseOp
    split
    · rename_i mine
      exact .inr ⟨.inr mine, .inl rfl⟩
    · exact .inl rfl
  · apply own.setRecord
    · exact own.nodup
    · refine ⟨?_, noCalls⟩
      constructor
      · exact fun other inTodo => releasing.subset other (List.mem_cons_of_mem _ inTodo)
      · exact releasing.verbs
      · exact fun oneSided => absurd oneSided oneSidedAbsurd
      · exact releasing.rpc
    · exact fun other _ owned => absurd owned (owns other)
    · intro other different covered
      simp only [Txn.Covers, stage, rpc, Bool.false_eq_true, if_false, List.cons_append,
        List.mem_cons] at covered ⊢
      exact covered.resolve_left different
    · exact fun owned => absurd owned (owns key)
    · exact fun locked => absurd locked released
  · simp [Txn.Decided, stage]

/-- An RPC release comes to a remote record. -/
theorem move_releaseAppend (inv : Inv config state) {key : Key} {todo : List Key}
    (stage : (state.txns tid).stage = .release (key :: todo))
    (rpc : config.oneSidedRelease = false) :
    Move config tid state (state.setTxn tid { state.txns tid with
      stage := .release todo,
      batch := (state.txns tid).batch ++ [.release key] }) := by
  have own := inv.own tid
  have shape := own.shape
  simp only [Txn.Shape, stage] at shape
  obtain ⟨releasing, noCalls⟩ := shape
  obtain ⟨noUnlock, batch, calls⟩ := releasing.rpc rpc
  have oneSidedAbsurd : config.oneSidedRelease ≠ true := by simp [rpc]
  apply Move.quiet
  · apply own.restage
    · exact own.nodup
    · refine ⟨?_, noCalls⟩
      constructor
      · exact fun other inTodo => releasing.subset other (List.mem_cons_of_mem _ inTodo)
      · exact releasing.verbs
      · exact fun oneSided => absurd oneSided oneSidedAbsurd
      · intro _
        refine ⟨noUnlock, ?_, calls⟩
        intro call member
        rcases List.mem_append.mp member with old | new
        · exact batch call old
        · rw [List.mem_singleton] at new
          subst new
          trivial
    · rintro other (⟨oneSided, -⟩ | posted)
      · exact absurd oneSided oneSidedAbsurd
      · simp [noUnlock] at posted
    · intro other covered
      simp only [Txn.Covers, stage, rpc, Bool.false_eq_true, if_false, List.cons_append,
        List.mem_cons, List.mem_append, releaseKeys, List.filterMap_append] at covered ⊢
      rcases covered with rfl | inTodo | appended
      · exact .inr (.inr (by simp [Call.releaseKey?]))
      · exact .inl inTodo
      · exact .inr (.inl appended)
  · simp [Txn.Decided, stage]

theorem move_releaseItem (inv : Inv config state) {key : Key} {todo : List Key}
    (stage : (state.txns tid).stage = .release (key :: todo))
    (stepped : releaseItem config state tid key todo = some after) :
    Move config tid state after := by
  simp only [releaseItem] at stepped
  split at stepped
  · rename_i oneSided
    split at stepped
    · rename_i isLocal
      cases stepped
      exact move_releaseCrash inv stage oneSided isLocal
    · rename_i remote
      obtain ⟨item, found, rfl⟩ := Option.map_eq_some_iff.mp stepped
      exact move_releasePost inv stage oneSided remote found
  · rename_i rpc
    have isRpc : config.oneSidedRelease = false := by simpa using rpc
    split at stepped
    · cases stepped
      exact move_releaseLocal inv stage isRpc
    · cases stepped
      exact move_releaseAppend inv stage isRpc

theorem move_walk (inv : Inv config state) (stepped : walk config state tid = some after) :
    Move config tid state after := by
  simp only [walk] at stepped
  split at stepped
  case h_1 stage =>
    cases stepped
    exact move_lockSend inv stage
  case h_2 stage => exact move_lockItem inv stage stepped
  case h_3 stage => exact move_lockLocalItem inv stage stepped
  case h_4 stage =>
    cases stepped
    exact move_validateSend inv stage
  case h_5 stage => exact move_validateItem inv stage stepped
  case h_6 stage =>
    cases stepped
    exact move_writeBackSend inv stage
  case h_7 stage => exact move_writeBackItem inv stage stepped
  case h_8 stage =>
    cases stepped
    exact move_releaseSend inv stage
  case h_9 stage => exact move_releaseItem inv stage stepped
  case h_10 => cases stepped

end Rocc.Occ.Hybrid
