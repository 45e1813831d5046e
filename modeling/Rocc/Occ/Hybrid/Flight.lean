import Rocc.Occ.Hybrid.Walk

/-!
# Verbs and message items of a hybrid commit take effect
-/

set_option linter.unusedSectionVars false

namespace Rocc.Occ.Hybrid

open Rtx

universe u v w

variable {Key : Type u} {Value : Type v} {Tid : Type w}
variable [DecidableEq Key] [DecidableEq Tid]
variable {config : Config Key Tid} {state before after : State Key Value Tid} {tid : Tid}
variable {records : Key → Record Value} {txn next : Txn Key Value}

/-! ## Verbs -/

/-- Only the lock words of the records matter. -/
theorem Own.sameLocks {nextRecords : Key → Record Value} (own : Own config tid records txn)
    (same : ∀ key, (nextRecords key).lock = (records key).lock) :
    Own config tid nextRecords txn where
  nodup := own.nodup
  shape := own.shape
  owns key owned := (same key).trans (own.owns key owned)
  covers key locked := own.covers key ((same key).symm.trans locked)

section Drop

variable {verb : Verb Key Value} {rest : List (Verb Key Value)}

theorem casKeys_drop (split : txn.verbs.Perm (verb :: rest)) (noCas : verb.casKey? = none) :
    (casKeys txn.verbs).Perm (casKeys rest) := by
  have mapped := split.filterMap Verb.casKey?
  rwa [List.filterMap_cons_none noCas] at mapped

theorem unlockKeys_drop (split : txn.verbs.Perm (verb :: rest))
    (noUnlock : verb.unlockKey? = none) : (unlockKeys txn.verbs).Perm (unlockKeys rest) := by
  have mapped := split.filterMap Verb.unlockKey?
  rwa [List.filterMap_cons_none noUnlock] at mapped

/-- A verb is done and changes no lock word in the buffers of the write set. -/
structure Txn.Drops (txn next : Txn Key Value) (rest : List (Verb Key Value)) : Prop where
  stage : next.stage = txn.stage
  batch : next.batch = txn.batch
  calls : next.calls = txn.calls
  verbs : next.verbs = rest
  readKeys : keysOf next.readSet = keysOf txn.readSet
  writeKeys : keysOf next.writeSet = keysOf txn.writeSet
  marks : ∀ key, next.Marks key ↔ txn.Marks key

section Stages

variable (split : txn.verbs.Perm (verb :: rest)) (drops : txn.Drops next rest)

include split drops

theorem Txn.Drops.shrinks : ∀ other ∈ next.verbs, other ∈ txn.verbs := by
  intro other member
  rw [drops.verbs] at member
  exact split.mem_iff.mpr (List.mem_cons_of_mem _ member)

theorem Txn.Drops.cas (noCas : verb.casKey? = none) :
    (casKeys txn.verbs).Perm (casKeys next.verbs) := by
  rw [drops.verbs]
  exact casKeys_drop split noCas

theorem Txn.Drops.unlock (noUnlock : verb.unlockKey? = none) :
    (unlockKeys txn.verbs).Perm (unlockKeys next.verbs) := by
  rw [drops.verbs]
  exact unlockKeys_drop split noUnlock

theorem Txn.Locking.drop {todo : List Key} (locking : txn.Locking config tid todo)
    (noCas : verb.casKey? = none) : next.Locking config tid todo := by
  have some : txn.verbs ≠ [] := List.ne_nil_of_mem (split.mem_iff.mpr List.mem_cons_self)
  have cas := drops.cas split noCas
  constructor
  · exact drops.calls.trans locking.calls
  · simpa only [drops.writeKeys] using locking.subset
  · simpa only [drops.writeKeys] using locking.remote
  · exact fun other member => locking.verbs other (drops.shrinks split other member)
  · simpa only [drops.writeKeys, drops.batch] using locking.batch
  · intro oneSided
    obtain ⟨noBatch, nodup, posted, all⟩ := locking.oneSided oneSided
    refine ⟨drops.batch.trans noBatch, ((cas.append_right todo).nodup_iff).mp nodup, ?_, .inl ?_⟩
    · simpa only [drops.writeKeys, cas.mem_iff] using posted
    · rcases all with remote | ⟨empty, -⟩
      · simpa only [Txn.Remote, drops.writeKeys] using remote
      · exact absurd empty some
  · intro rpc
    exact absurd (locking.rpc rpc).1 some

theorem Txn.LockWaiting.drop {granted : List Key} {failed : Bool}
    (waiting : txn.LockWaiting config tid granted failed) (noCas : verb.casKey? = none) :
    next.LockWaiting config tid granted failed := by
  have cas := drops.cas split noCas
  constructor
  · exact drops.batch.trans waiting.batch
  · simpa only [Txn.Remote, drops.writeKeys] using waiting.remote
  · exact fun other member => waiting.verbs other (drops.shrinks split other member)
  · simpa only [drops.writeKeys, drops.calls] using waiting.calls
  · intro oneSided
    obtain ⟨noCalls, nodup, posted⟩ := waiting.oneSided oneSided
    refine ⟨drops.calls.trans noCalls, cas.nodup_iff.mp nodup, ?_⟩
    simpa only [drops.writeKeys, cas.mem_iff] using posted
  · intro rpc
    exact absurd (waiting.rpc rpc).1
      (List.ne_nil_of_mem (split.mem_iff.mpr List.mem_cons_self))

theorem Txn.Validating.drop (validating : txn.Validating config tid) :
    next.Validating config tid where
  remote := by simpa only [Txn.Remote, drops.writeKeys] using validating.remote
  marks := by simpa only [drops.writeKeys, drops.marks] using validating.marks
  verbs := fun other member => validating.verbs other (drops.shrinks split other member)
  batch := drops.batch ▸ validating.batch
  calls := drops.calls ▸ validating.calls

theorem Txn.Storing.drop {todo : List Key} (storing : txn.Storing config tid todo)
    (noUnlock : verb.unlockKey? = none) : next.Storing config tid todo where
  remote := by simpa only [Txn.Remote, drops.writeKeys] using storing.remote
  subset := by simpa only [drops.writeKeys] using storing.subset
  verbs := fun other member => storing.verbs other (drops.shrinks split other member)
  batch := drops.batch ▸ storing.batch
  calls := drops.calls ▸ storing.calls
  nodup := by
    rw [drops.batch, drops.calls]
    have unlock := drops.unlock split noUnlock
    exact (((unlock.append_right _).append_right _).append_left _).nodup_iff.mp storing.nodup

theorem Txn.Releasing.drop {todo : List Key} (releasing : txn.Releasing config tid todo)
    (noUnlock : verb.unlockKey? = none) : next.Releasing config tid todo := by
  have unlock := drops.unlock split noUnlock
  constructor
  · simpa only [drops.writeKeys] using releasing.subset
  · exact fun other member => releasing.verbs other (drops.shrinks split other member)
  · intro oneSided
    obtain ⟨noBatch, noCalls, nodup, stops⟩ := releasing.oneSided oneSided
    refine ⟨drops.batch.trans noBatch, drops.calls.trans noCalls,
      ((unlock.append_left todo).nodup_iff).mp nodup, fun hasLocal => ?_⟩
    exact absurd (stops hasLocal).1
      (List.ne_nil_of_mem (split.mem_iff.mpr List.mem_cons_self))
  · intro rpc
    obtain ⟨nothing, batch, calls⟩ := releasing.rpc rpc
    rw [nothing] at unlock
    exact ⟨unlock.symm.eq_nil, drops.batch ▸ batch, drops.calls ▸ calls⟩

theorem Txn.Drops.shape (noCas : verb.casKey? = none) (noUnlock : verb.unlockKey? = none)
    (shape : txn.Shape config tid) : next.Shape config tid := by
  have some : txn.verbs ≠ [] := List.ne_nil_of_mem (split.mem_iff.mpr List.mem_cons_self)
  cases stage : txn.stage <;> simp only [Txn.Shape, drops.stage, stage] at shape ⊢
  case idle | execute | finished | crashed | lockLocal => exact absurd shape.1 some
  case lock => exact shape.drop split drops noCas
  case lockWait => exact shape.drop split drops noCas
  case validate => exact ⟨shape.1.drop split drops, drops.calls.trans shape.2⟩
  case validateWait => exact ⟨shape.1.drop split drops, drops.batch.trans shape.2⟩
  case writeBack => exact ⟨shape.1.drop split drops noUnlock, drops.calls.trans shape.2⟩
  case writeBackWait => exact ⟨shape.1.drop split drops noUnlock, drops.batch.trans shape.2⟩
  case release => exact ⟨shape.1.drop split drops noUnlock, drops.calls.trans shape.2⟩
  case releaseWait => exact ⟨shape.1.drop split drops noUnlock, drops.batch.trans shape.2⟩

theorem Txn.Drops.owns (noCas : verb.casKey? = none) (noUnlock : verb.unlockKey? = none)
    (key : Key) : next.Owns config tid key ↔ txn.Owns config tid key := by
  have cas := drops.cas split noCas
  have unlock := drops.unlock split noUnlock
  cases stage : txn.stage <;>
    simp only [Txn.Owns, drops.stage, stage, drops.marks, drops.writeKeys, drops.batch,
      drops.calls, cas.mem_iff, unlock.mem_iff, List.mem_append]

/-- A verb that neither locks nor unlocks is done. -/
theorem Own.drop (own : Own config tid records txn) (noCas : verb.casKey? = none)
    (noUnlock : verb.unlockKey? = none) : Own config tid records next := by
  have owns : ∀ key, next.Owns config tid key ↔ txn.Owns config tid key :=
    drops.owns split noCas noUnlock
  apply own.restage
  · rw [keysOf_append]
    simp only [drops.readKeys, drops.writeKeys]
    rw [← keysOf_append]
    exact own.nodup
  · exact drops.shape split noCas noUnlock own.shape
  · exact fun key owned => (owns key).mp owned
  · intro key covered
    cases stage : txn.stage <;>
      simp only [Txn.Covers, drops.stage, stage, owns, drops.batch, drops.calls] at covered ⊢ <;>
      exact covered

end Stages

end Drop

section Cas

variable {key : Key} {rest : List (Verb Key Value)}

/-- The transaction after a compare-and-swap that has found the word `lock`. -/
def Txn.swap (txn : Txn Key Value) (key : Key) (rest : List (Verb Key Value)) (lock : Nat) :
    Txn Key Value :=
  { txn with
    verbs := rest, writeSet := receive txn.writeSet key fun item => { item with lock } }

theorem keysOf_swap (txn : Txn Key Value) (key : Key) (rest : List (Verb Key Value))
    (lock : Nat) : keysOf (txn.swap key rest lock).writeSet = keysOf txn.writeSet :=
  keysOf_receive _ _ fun _ => rfl

theorem marks_swap_of_ne {lock : Nat} {other : Key} (different : other ≠ key) :
    (txn.swap key rest lock).Marks other ↔ txn.Marks other :=
  marks_receive_of_ne (fun item => { item with lock }) (fun _ => rfl) different

theorem marks_swap_self {lock : Nat} (inSet : key ∈ keysOf txn.writeSet) :
    (txn.swap key rest lock).Marks key ↔ lock = 0 := by
  rw [Txn.Marks, Txn.swap, marks_receive_self (fun item => { item with lock }) fun _ => rfl]
  obtain ⟨item, member, same⟩ := List.mem_map.mp inSet
  exact ⟨fun ⟨_, _, _, free⟩ => free, fun free => ⟨item, member, same, free⟩⟩

/-- What is known when a compare-and-swap is in flight. -/
theorem Own.cas_cases (own : Own config tid records txn)
    (split : txn.verbs.Perm (.cas key :: rest)) :
    config.oneSidedLock = true ∧ key ∈ keysOf txn.writeSet ∧ key ∉ casKeys rest ∧
      ((∃ todo, txn.stage = .lock todo ∧ key ∉ todo) ∨
        ∃ granted failed, txn.stage = .lockWait granted failed) := by
  have inVerbs : Verb.cas key ∈ txn.verbs := split.mem_iff.mpr List.mem_cons_self
  have some : txn.verbs ≠ [] := List.ne_nil_of_mem inVerbs
  have cas : (casKeys txn.verbs).Perm (key :: casKeys rest) := split.filterMap Verb.casKey?
  have inCas : key ∈ casKeys txn.verbs := cas.mem_iff.mpr List.mem_cons_self
  have shape := own.shape
  cases stage : txn.stage with
  | idle | execute | finished | crashed | lockLocal =>
      simp only [Txn.Shape, stage] at shape
      exact absurd shape.1 some
  | lock todo =>
      simp only [Txn.Shape, stage] at shape
      cases flag : config.oneSidedLock with
      | false => exact absurd (shape.rpc flag).1 some
      | true =>
          obtain ⟨-, nodup, posted, -⟩ := shape.oneSided flag
          rw [(cas.append_right todo).nodup_iff, List.cons_append, List.nodup_cons,
            List.mem_append, not_or] at nodup
          exact ⟨rfl, posted key inCas, nodup.1.1, .inl ⟨todo, rfl, nodup.1.2⟩⟩
  | lockWait granted failed =>
      simp only [Txn.Shape, stage] at shape
      cases flag : config.oneSidedLock with
      | false => exact absurd (shape.rpc flag).1 some
      | true =>
          obtain ⟨-, nodup, posted⟩ := shape.oneSided flag
          rw [cas.nodup_iff, List.nodup_cons] at nodup
          exact ⟨rfl, posted key inCas, nodup.1, .inr ⟨granted, failed, rfl⟩⟩
  | validate | validateWait | writeBack | writeBackWait | release | releaseWait =>
      simp only [Txn.Shape, stage] at shape
      exact absurd (shape.1.verbs _ inVerbs) id

theorem Own.shape_swap (own : Own config tid records txn)
    (split : txn.verbs.Perm (.cas key :: rest)) (lock : Nat) :
    (txn.swap key rest lock).Shape config tid := by
  obtain ⟨oneSided, -, -, stages⟩ := own.cas_cases split
  have inVerbs : Verb.cas key ∈ txn.verbs := split.mem_iff.mpr List.mem_cons_self
  have shrinks : ∀ other ∈ rest, other ∈ txn.verbs := fun other member =>
    split.mem_iff.mpr (List.mem_cons_of_mem _ member)
  have cas : (casKeys txn.verbs).Perm (key :: casKeys rest) := split.filterMap Verb.casKey?
  have keys := keysOf_swap txn key rest lock
  have shape := own.shape
  have rpcAbsurd : config.oneSidedLock ≠ false := by simp [oneSided]
  rcases stages with ⟨todo, stage, -⟩ | ⟨granted, failed, stage⟩
  · simp only [Txn.Shape, stage] at shape
    simp only [Txn.Shape, Txn.swap, stage]
    obtain ⟨noBatch, nodup, posted, all⟩ := shape.oneSided oneSided
    rw [(cas.append_right todo).nodup_iff, List.cons_append, List.nodup_cons] at nodup
    constructor
    · exact shape.calls
    · exact fun other member => keys ▸ shape.subset other member
    · exact fun other member => shape.remote other (keys ▸ member)
    · exact fun other member => shape.verbs other (shrinks other member)
    · simp [noBatch]
    · intro _
      refine ⟨noBatch, nodup.2, ?_, .inl ?_⟩
      · exact fun other member =>
          keys ▸ posted other (cas.mem_iff.mpr (List.mem_cons_of_mem _ member))
      · rcases all with remote | ⟨empty, -⟩
        · exact fun other member => remote other (keys ▸ member)
        · exact absurd empty (List.ne_nil_of_mem inVerbs)
    · exact fun rpc => absurd rpc rpcAbsurd
  · simp only [Txn.Shape, stage] at shape
    simp only [Txn.Shape, Txn.swap, stage]
    obtain ⟨noCalls, nodup, posted⟩ := shape.oneSided oneSided
    rw [cas.nodup_iff, List.nodup_cons] at nodup
    constructor
    · exact shape.batch
    · exact fun other member => shape.remote other (keys ▸ member)
    · exact fun other member => shape.verbs other (shrinks other member)
    · simp [noCalls]
    · intro _
      refine ⟨noCalls, nodup.2, ?_⟩
      exact fun other member =>
        keys ▸ posted other (cas.mem_iff.mpr (List.mem_cons_of_mem _ member))
    · exact fun rpc => absurd rpc rpcAbsurd

/-- A compare-and-swap is done. -/
theorem Own.cas (own : Own config tid records txn)
    (split : txn.verbs.Perm (.cas key :: rest)) :
    Own config tid
      (Function.update records key (casLock (records key) (config.lockContent tid)))
      (txn.swap key rest (records key).lock) := by
  obtain ⟨oneSided, inSet, notRest, stages⟩ := own.cas_cases split
  have cas : (casKeys txn.verbs).Perm (key :: casKeys rest) := split.filterMap Verb.casKey?
  have owns : ∀ other, txn.Owns config tid other ↔
      (∀ todo, txn.stage = .lock todo → other ∉ todo) ∧ other ≠ key ∧ other ∉ casKeys rest ∧
        txn.Marks other := by
    intro other
    rcases stages with ⟨todo, stage, -⟩ | ⟨granted, failed, stage⟩
    · simp [Txn.Owns, stage, oneSided, cas.mem_iff, and_assoc]
    · simp [Txn.Owns, stage, oneSided, cas.mem_iff, and_assoc]
  have nextOwns : ∀ other, (txn.swap key rest (records key).lock).Owns config tid other ↔
      (∀ todo, txn.stage = .lock todo → other ∉ todo) ∧ other ∉ casKeys rest ∧
        (txn.swap key rest (records key).lock).Marks other := by
    intro other
    rcases stages with ⟨todo, stage, -⟩ | ⟨granted, failed, stage⟩
    · simp [Txn.Owns, Txn.swap, stage, oneSided]
    · simp [Txn.Owns, Txn.swap, stage, oneSided]
  have covers : ∀ other, txn.Covers config tid other ↔ txn.Owns config tid other := by
    intro other
    rcases stages with ⟨todo, stage, -⟩ | ⟨granted, failed, stage⟩ <;> simp [Txn.Covers, stage]
  have nextCovers : ∀ other, (txn.swap key rest (records key).lock).Covers config tid other ↔
      (txn.swap key rest (records key).lock).Owns config tid other := by
    intro other
    rcases stages with ⟨todo, stage, -⟩ | ⟨granted, failed, stage⟩ <;>
      simp [Txn.Covers, Txn.swap, stage]
  have past : ∀ todo, txn.stage = .lock todo → key ∉ todo := by
    intro todo stage
    rcases stages with ⟨_, other, missing⟩ | ⟨_, _, other⟩
    · rw [stage] at other
      cases other
      exact missing
    · rw [stage] at other
      cases other
  apply own.setRecord
  · exact own.nodup_receive_write key fun _ => rfl
  · exact own.shape_swap split _
  · intro other different owned
    obtain ⟨missing, unposted, marked⟩ := (nextOwns other).mp owned
    exact (owns other).mpr ⟨missing, different, unposted, (marks_swap_of_ne different).mp marked⟩
  · intro other different covered
    obtain ⟨missing, -, unposted, marked⟩ := (owns other).mp ((covers other).mp covered)
    exact (nextCovers other).mpr ((nextOwns other).mpr
      ⟨missing, unposted, (marks_swap_of_ne different).mpr marked⟩)
  · intro owned
    have free := (marks_swap_self inSet).mp ((nextOwns key).mp owned).2.2
    simp [casLock, free]
  · intro locked
    by_cases free : (records key).lock = 0
    · exact (nextCovers key).mpr ((nextOwns key).mpr
        ⟨past, notRest, (marks_swap_self inSet).mpr free⟩)
    · rw [casLock, if_neg free] at locked
      have owned := (covers key).mp (own.covers key locked)
      exact absurd rfl ((owns key).mp owned).2.1

end Cas

section Unlock

variable {key : Key} {rest : List (Verb Key Value)}

theorem unlockKeys_unlock (split : txn.verbs.Perm (.unlock key :: rest)) :
    (unlockKeys txn.verbs).Perm (key :: unlockKeys rest) :=
  split.filterMap Verb.unlockKey?

/-- The record is stored back once, by the write that comes before the unlock. -/
theorem Txn.Storing.unlock {todo : List Key} (storing : txn.Storing config tid todo)
    (split : txn.verbs.Perm (.unlock key :: rest)) :
    key ∉ todo ++ (unlockKeys rest ++ commitKeys txn.batch ++ commitKeys txn.calls) ∧
      Txn.Storing config tid { txn with verbs := rest } todo := by
  have unlocks := unlockKeys_unlock split
  have nodup := (((unlocks.append_right _).append_right _).append_left todo).nodup_iff.mp
    storing.nodup
  simp only [List.cons_append] at nodup
  rw [List.perm_middle.nodup_iff, List.nodup_cons] at nodup
  refine ⟨nodup.1, storing.remote, storing.subset, ?_, storing.batch, storing.calls, nodup.2⟩
  exact fun other member =>
    storing.verbs other (split.mem_iff.mpr (List.mem_cons_of_mem _ member))

/-- Only a one-sided release posts unlocks, one for each record. -/
theorem Txn.Releasing.unlock {todo : List Key} (releasing : txn.Releasing config tid todo)
    (split : txn.verbs.Perm (.unlock key :: rest)) :
    key ∉ todo ++ unlockKeys rest ∧
      Txn.Releasing config tid { txn with verbs := rest } todo := by
  have some : txn.verbs ≠ [] := List.ne_nil_of_mem (split.mem_iff.mpr List.mem_cons_self)
  have unlocks := unlockKeys_unlock split
  cases flag : config.oneSidedRelease with
  | false =>
      rw [(releasing.rpc flag).1] at unlocks
      exact absurd unlocks.symm.eq_nil (List.cons_ne_nil _ _)
  | true =>
      obtain ⟨noBatch, noCalls, nodup, stops⟩ := releasing.oneSided flag
      rw [(unlocks.append_left todo).nodup_iff, List.perm_middle.nodup_iff,
        List.nodup_cons] at nodup
      refine ⟨nodup.1, releasing.subset, ?_, ?_, ?_⟩
      · exact fun other member =>
          releasing.verbs other (split.mem_iff.mpr (List.mem_cons_of_mem _ member))
      · exact fun _ => ⟨noBatch, noCalls, nodup.2, fun hasLocal => absurd (stops hasLocal).1 some⟩
      · exact fun rpc => absurd (rpc.symm.trans flag) Bool.false_ne_true

/-- A record whose unlock is posted is owned, and once it is unlocked it no longer is. -/
theorem Own.unlock_cases (own : Own config tid records txn)
    (split : txn.verbs.Perm (.unlock key :: rest)) :
    txn.Owns config tid key ∧ ¬ Txn.Owns config tid { txn with verbs := rest } key ∧
      Txn.Shape config tid { txn with verbs := rest } := by
  have inVerbs : Verb.unlock key ∈ txn.verbs := split.mem_iff.mpr List.mem_cons_self
  have unlocks := unlockKeys_unlock split
  have shape := own.shape
  cases stage : txn.stage <;>
    simp only [Txn.Shape, Txn.Owns, stage, unlocks.mem_iff, List.mem_append, List.mem_cons,
      not_or, true_or, or_true, true_and] at shape ⊢
  case idle | execute | finished | crashed | lockLocal =>
    exact absurd shape.1 (List.ne_nil_of_mem inVerbs)
  case lock => exact absurd (shape.verbs _ inVerbs) id
  case lockWait => exact absurd (shape.verbs _ inVerbs) id
  case validate | validateWait => exact absurd (shape.1.verbs _ inVerbs) id
  case writeBack todo =>
    obtain ⟨missing, storing⟩ := shape.1.unlock split
    rw [stage] at storing
    simp only [List.mem_append, not_or] at missing
    exact ⟨⟨missing.1, missing.2.1.1, missing.2.1.2⟩, storing, shape.2⟩
  case writeBackWait =>
    obtain ⟨missing, storing⟩ := shape.1.unlock split
    rw [stage] at storing
    simp only [List.nil_append, List.mem_append, not_or] at missing
    exact ⟨⟨missing.1.1, missing.2⟩, storing, shape.2⟩
  case release todo =>
    obtain ⟨missing, releasing⟩ := shape.1.unlock split
    rw [stage] at releasing
    simp only [List.mem_append, not_or] at missing
    exact ⟨⟨fun posting => missing.1 posting.2.1, missing.2⟩, releasing, shape.2⟩
  case releaseWait =>
    obtain ⟨missing, releasing⟩ := shape.1.unlock split
    rw [stage] at releasing
    exact ⟨missing, releasing, shape.2⟩

/-- The other records are as before. -/
theorem owns_unlock {other : Key} (split : txn.verbs.Perm (.unlock key :: rest))
    (different : other ≠ key) :
    (Txn.Owns config tid { txn with verbs := rest } other ↔ txn.Owns config tid other) ∧
      (Txn.Covers config tid { txn with verbs := rest } other ↔ txn.Covers config tid other) := by
  have cas : (casKeys txn.verbs).Perm (casKeys rest) := split.filterMap Verb.casKey?
  have unlocks := unlockKeys_unlock split
  have owns : Txn.Owns config tid { txn with verbs := rest } other ↔
      txn.Owns config tid other := by
    cases stage : txn.stage <;>
      simp only [Txn.Owns, stage, Txn.Marks, cas.mem_iff, unlocks.mem_iff, List.mem_append,
        List.mem_cons, different, false_or]
  refine ⟨owns, ?_⟩
  have restaged : ∀ stage, txn.stage = stage →
      (Txn.Owns config tid { txn with stage, verbs := rest } other ↔
        txn.Owns config tid other) := by
    rintro stage rfl
    exact owns
  cases stage : txn.stage <;> simp only [Txn.Covers, stage, restaged _ stage]

/-- An unlock is done. -/
theorem Own.unlock (own : Own config tid records txn)
    (split : txn.verbs.Perm (.unlock key :: rest)) {record : Record Value}
    (free : record.lock = 0) :
    Own config tid (Function.update records key record) { txn with verbs := rest } := by
  obtain ⟨-, gone, shape⟩ := own.unlock_cases split
  apply own.setRecord
  · exact own.nodup
  · exact shape
  · exact fun other different owned => (owns_unlock split different).1.mp owned
  · exact fun other different covered => (owns_unlock split different).2.mpr covered
  · exact fun owned => absurd owned gone
  · intro locked
    exact absurd (locked.symm.trans free) (config.lockContent_ne_zero tid)

end Unlock

/-- A verb takes effect. -/
theorem move_perform (inv : Inv config state) {posted : Verb Key Value}
    {rest : List (Verb Key Value)} (split : (state.txns tid).verbs.Perm (posted :: rest)) :
    Move config tid state (perform config state tid rest posted) := by
  have own := inv.own tid
  cases posted with
  | cas key =>
      refine Move.relock ?_ ?_ ?_ (own.cas split) id
      · unfold casLock
        split <;> rfl
      · unfold casLock
        split <;> rfl
      · unfold casLock
        split
        · rename_i free
          exact .inr ⟨.inl free, .inr rfl⟩
        · exact .inl rfl
  | fetch key =>
      refine Move.quiet (own.drop split ?_ rfl rfl) id
      refine ⟨rfl, rfl, rfl, rfl, rfl, keysOf_receive _ _ fun _ => rfl, fun other => ?_⟩
      exact marks_receive _ (fun _ => rfl) fun _ => rfl
  | check key =>
      refine Move.quiet (own.drop split ?_ rfl rfl) id
      exact ⟨rfl, rfl, rfl, rfl, keysOf_receive _ _ fun _ => rfl, rfl, fun _ => .rfl⟩
  | write key seq data =>
      have decided : (state.txns tid).Decided := by
        have inVerbs : Verb.write key seq data ∈ (state.txns tid).verbs :=
          split.mem_iff.mpr List.mem_cons_self
        have shape := own.shape
        cases stage : (state.txns tid).stage with
        | idle | execute | finished | crashed | lockLocal =>
            simp only [Txn.Shape, stage] at shape
            exact absurd shape.1 (List.ne_nil_of_mem inVerbs)
        | lock | lockWait =>
            simp only [Txn.Shape, stage] at shape
            exact absurd (shape.verbs _ inVerbs) id
        | validate | validateWait | release | releaseWait =>
            simp only [Txn.Shape, stage] at shape
            exact absurd (shape.1.verbs _ inVerbs) id
        | writeBack | writeBackWait => simp [Txn.Decided, stage]
      refine Move.store (.inl rfl) ?_ decided
      have dropped : Own config tid state.records { state.txns tid with verbs := rest } :=
        own.drop split ⟨rfl, rfl, rfl, rfl, rfl, rfl, fun _ => .rfl⟩ rfl rfl
      apply dropped.sameLocks
      intro other
      rcases eq_or_ne other key with rfl | different
      · simp
      · simp [different]
  | unlock key =>
      have mine := own.owns key (own.unlock_cases split).1
      exact Move.relock rfl rfl (.inr ⟨.inr mine, .inl rfl⟩) (own.unlock split rfl) id

theorem move_verb (inv : Inv config state) {machine : Nat}
    (stepped : verb config state tid machine = some after) : Move config tid state after := by
  simp only [verb] at stepped
  obtain ⟨⟨posted, rest⟩, found, rfl⟩ := Option.map_eq_some_iff.mp stepped
  exact move_perform inv (nextFor_perm found)

/-! ## Handlers -/

section Handlers

variable {rest nextCalls : List (Call Key Value)}

/-- Message items are in flight only while the coroutine waits. -/
theorem Own.calls_cases (own : Own config tid records txn) {call : Call Key Value}
    (inCalls : call ∈ txn.calls) :
    (∃ granted failed, txn.stage = .lockWait granted failed ∧
        txn.LockWaiting config tid granted failed) ∨
      (∃ failed, txn.stage = .validateWait failed ∧ txn.Validating config tid ∧
        txn.batch = []) ∨
      (txn.stage = .writeBackWait ∧ txn.Storing config tid [] ∧ txn.batch = []) ∨
      (txn.stage = .releaseWait ∧ txn.Releasing config tid [] ∧ txn.batch = []) := by
  have some : txn.calls ≠ [] := List.ne_nil_of_mem inCalls
  have shape := own.shape
  cases stage : txn.stage with
  | idle | execute | finished | crashed =>
      simp only [Txn.Shape, stage] at shape
      exact absurd shape.2.2 some
  | lockLocal =>
      simp only [Txn.Shape, stage] at shape
      exact absurd shape.2.1 some
  | lock =>
      simp only [Txn.Shape, stage] at shape
      exact absurd shape.calls some
  | validate | writeBack | release =>
      simp only [Txn.Shape, stage] at shape
      exact absurd shape.2 some
  | lockWait granted failed =>
      simp only [Txn.Shape, stage] at shape
      exact .inl ⟨granted, failed, rfl, shape⟩
  | validateWait failed =>
      simp only [Txn.Shape, stage] at shape
      exact .inr (.inl ⟨failed, rfl, shape⟩)
  | writeBackWait =>
      simp only [Txn.Shape, stage] at shape
      exact .inr (.inr (.inl ⟨rfl, shape⟩))
  | releaseWait =>
      simp only [Txn.Shape, stage] at shape
      exact .inr (.inr (.inr ⟨rfl, shape⟩))

/-- Only a release by RPC has message items in flight. -/
theorem Txn.Releasing.call_releases {todo : List Key} {call : Call Key Value}
    (releasing : txn.Releasing config tid todo) (inCalls : call ∈ txn.calls) :
    config.oneSidedRelease = false ∧ call.Releases := by
  cases flag : config.oneSidedRelease with
  | true => exact absurd (releasing.oneSided flag).2.1 (List.ne_nil_of_mem inCalls)
  | false => exact ⟨rfl, (releasing.rpc flag).2.2 call inCalls⟩

/-- What is left of a message after a handler has processed an item of it. -/
theorem mem_rest {machine : Nat} {goesOn : Bool} {call : Call Key Value}
    (member : call ∈ if goesOn then rest
      else dropFor (fun call => config.at machine call.key) rest) : call ∈ rest := by
  split at member
  · exact member
  · exact mem_of_mem_dropFor member

/-- The replies to lock requests that are still out. -/
theorem Txn.LockWaiting.reply {granted : List Key} {failed goesOn : Bool} {key : Key}
    {seq : Nat} (waiting : txn.LockWaiting config tid granted failed) (locked : Bool)
    (rpc : config.oneSidedLock = false) (inSet : key ∈ keysOf txn.writeSet)
    (split : txn.calls.Perm (.lock key seq :: rest))
    (shrinks : ∀ call ∈ nextCalls, call ∈ rest) (whole : goesOn = true → nextCalls = rest)
    (noted : goesOn = true → locked = true) :
    Txn.LockWaiting config tid { txn with
      stage := .lockWait (if locked then granted ++ [key] else granted) (failed || !goesOn),
      calls := nextCalls } (if locked then granted ++ [key] else granted) (failed || !goesOn) := by
  obtain ⟨noVerbs, inside, all, unmarked⟩ := waiting.rpc rpc
  constructor
  · exact waiting.batch
  · exact waiting.remote
  · exact waiting.verbs
  · intro call member
    exact waiting.calls call (split.mem_iff.mpr (List.mem_cons_of_mem _ (shrinks call member)))
  · exact fun oneSided => absurd (rpc.symm.trans oneSided) Bool.false_ne_true
  · intro _
    refine ⟨noVerbs, ?_, ?_, unmarked⟩
    · intro other member
      split at member
      · rcases List.mem_append.mp member with old | new
        · exact inside other old
        · rw [List.mem_singleton] at new
          exact new ▸ inSet
      · exact inside other member
    · intro succeeded other member
      simp only [Bool.or_eq_false_iff, Bool.not_eq_false'] at succeeded
      have keys : (lockKeys txn.calls).Perm (key :: lockKeys rest) :=
        split.filterMap Call.lockKey?
      simp only [noted succeeded.2, if_true, whole succeeded.2, List.mem_append,
        List.mem_singleton]
      rcases all succeeded.1 other member with old | waits
      · exact .inl (.inl old)
      · rcases List.mem_cons.mp (keys.mem_iff.mp waits) with rfl | waits
        · exact .inl (.inr rfl)
        · exact .inr waits

theorem move_handleLock (inv : Inv config state) {key : Key} {seq machine : Nat}
    (split : (state.txns tid).calls.Perm (.lock key seq :: rest)) :
    Move config tid state (handle config state tid machine rest (.lock key seq)) := by
  have own := inv.own tid
  have inCalls : Call.lock key seq ∈ (state.txns tid).calls :=
    split.mem_iff.mpr List.mem_cons_self
  obtain ⟨granted, failed, stage, waiting⟩ | ⟨_, -, validating, -⟩ | ⟨-, storing, -⟩ |
    ⟨-, releasing, -⟩ := own.calls_cases inCalls
  · have rpc : config.oneSidedLock = false := by
      cases flag : config.oneSidedLock with
      | false => rfl
      | true => exact absurd (waiting.oneSided flag).1 (List.ne_nil_of_mem inCalls)
    have inSet : key ∈ keysOf (state.txns tid).writeSet := waiting.calls _ inCalls
    by_cases free : (state.records key).lock = 0
    · simp only [handle, lockRpcHandler, Record.localTryLockOp, free, ne_eq, not_true_eq_false,
        if_false, Stage.lockReply, stage]
      apply Move.relock
      · rfl
      · rfl
      · exact .inr ⟨.inl free, .inr rfl⟩
      · apply own.setRecord
        · exact own.nodup
        · refine waiting.reply true rpc inSet split (fun _ => mem_rest) ?_ fun _ => rfl
          exact fun goesOn => by rw [if_pos goesOn]
        · intro other different owned
          simpa [Txn.Owns, stage, rpc, different] using owned
        · intro other _ covered
          simp only [Txn.Covers, Txn.Owns, stage, rpc, Bool.false_eq_true, if_false] at covered
          simpa [Txn.Covers, Txn.Owns, rpc] using .inl covered
        · exact fun _ => rfl
        · intro _
          simp [Txn.Covers, Txn.Owns, rpc]
      · simp [Txn.Decided, stage]
    · have taken : ((state.records key).lock == 0) = false := by simpa using free
      simp only [handle, lockRpcHandler, Record.localTryLockOp, ne_eq, free, not_false_eq_true,
        if_true, Stage.lockReply, stage, taken, Bool.false_eq_true, if_false]
      apply Move.relock
      · rfl
      · rfl
      · exact .inl rfl
      · rw [Function.update_eq_self]
        apply own.restage
        · exact own.nodup
        · exact waiting.reply false rpc inSet split (fun _ => mem_of_mem_dropFor)
            (fun goesOn => absurd goesOn Bool.false_ne_true)
            (fun goesOn => absurd goesOn Bool.false_ne_true)
        · intro other owned
          simpa [Txn.Owns, stage, rpc] using owned
        · intro other covered
          simpa [Txn.Covers, Txn.Owns, stage, rpc] using covered
      · simp [Txn.Decided, stage]
  · exact absurd (validating.calls _ inCalls) id
  · exact absurd (storing.calls _ inCalls) id
  · exact absurd (releasing.call_releases inCalls).2 id

theorem move_handleValidate (inv : Inv config state) {key : Key} {seq machine : Nat}
    (split : (state.txns tid).calls.Perm (.validate key seq :: rest)) :
    Move config tid state (handle config state tid machine rest (.validate key seq)) := by
  have own := inv.own tid
  have inCalls : Call.validate key seq ∈ (state.txns tid).calls :=
    split.mem_iff.mpr List.mem_cons_self
  obtain ⟨granted, failed, -, waiting⟩ | ⟨failed, stage, validating, noBatch⟩ |
    ⟨-, storing, -⟩ | ⟨-, releasing, -⟩ := own.calls_cases inCalls
  · exact absurd (waiting.calls _ inCalls) id
  · simp only [handle, Stage.validateReply, stage]
    apply Move.quiet
    · apply own.validate (.inr ⟨failed, stage⟩) (.inr ⟨_, rfl⟩)
      · exact own.nodup
      · rfl
      · refine ⟨⟨validating.remote, validating.marks, validating.verbs, validating.batch, ?_⟩,
          noBatch⟩
        intro call member
        exact validating.calls call (split.mem_iff.mpr (List.mem_cons_of_mem _ (mem_rest member)))
    · simp [Txn.Decided, stage]
  · exact absurd (storing.calls _ inCalls) id
  · exact absurd (releasing.call_releases inCalls).2 id

theorem move_handleCommit (inv : Inv config state) {key : Key} {data : Value} {machine : Nat}
    (split : (state.txns tid).calls.Perm (.commit key data :: rest)) :
    Move config tid state (handle config state tid machine rest (.commit key data)) := by
  have own := inv.own tid
  have inCalls : Call.commit key data ∈ (state.txns tid).calls :=
    split.mem_iff.mpr List.mem_cons_self
  obtain ⟨granted, failed, -, waiting⟩ | ⟨_, -, validating, -⟩ | ⟨stage, storing, noBatch⟩ |
    ⟨-, releasing, -⟩ := own.calls_cases inCalls
  · exact absurd (waiting.calls _ inCalls) id
  · exact absurd (validating.calls _ inCalls) id
  · have commits : (commitKeys (state.txns tid).calls).Perm (key :: commitKeys rest) :=
      split.filterMap Call.commitKey?
    have nodup := ((commits.append_left _).append_left []).nodup_iff.mp storing.nodup
    rw [List.nil_append, List.perm_middle.nodup_iff, List.nodup_cons] at nodup
    have missing := nodup.1
    simp only [List.mem_append, not_or] at missing
    have mine : (state.records key).lock = config.lockContent tid :=
      own.owns key (by simp [Txn.Owns, stage, commits.mem_iff])
    apply Move.store
    · exact .inr ⟨mine, by simp [commitOneshotHandler]⟩
    · apply own.setRecord
      · exact own.nodup
      · simp only [Txn.Shape, stage]
        refine ⟨⟨storing.remote, storing.subset, storing.verbs, storing.batch, ?_, ?_⟩, noBatch⟩
        · exact fun call member =>
            storing.calls call (split.mem_iff.mpr (List.mem_cons_of_mem _ member))
        · simpa using nodup.2
      · intro other different owned
        simpa [Txn.Owns, stage, commits.mem_iff, different] using owned
      · intro other different covered
        simpa [Txn.Covers, Txn.Owns, stage, commits.mem_iff, different] using covered
      · intro owned
        simp only [Txn.Owns, stage, List.mem_append] at owned
        exact absurd owned (not_or.mpr ⟨missing.1.1, missing.2⟩)
      · intro locked
        rw [commitOneshotHandler, Record.inplaceWriteOp_lock] at locked
        exact absurd locked.symm (config.lockContent_ne_zero tid)
    · simp [Txn.Decided, stage]
  · exact absurd (releasing.call_releases inCalls).2 id

theorem move_handleRelease (inv : Inv config state) {key : Key} {machine : Nat}
    (split : (state.txns tid).calls.Perm (.release key :: rest)) :
    Move config tid state (handle config state tid machine rest (.release key)) := by
  have own := inv.own tid
  have inCalls : Call.release key ∈ (state.txns tid).calls :=
    split.mem_iff.mpr List.mem_cons_self
  obtain ⟨granted, failed, -, waiting⟩ | ⟨_, -, validating, -⟩ | ⟨-, storing, -⟩ |
    ⟨stage, releasing, noBatch⟩ := own.calls_cases inCalls
  · exact absurd (waiting.calls _ inCalls) id
  · exact absurd (validating.calls _ inCalls) id
  · exact absurd (storing.calls _ inCalls) id
  · have rpc := (releasing.call_releases inCalls).1
    obtain ⟨noUnlock, batch, calls⟩ := releasing.rpc rpc
    have releases : (releaseKeys (state.txns tid).calls).Perm (key :: releaseKeys rest) :=
      split.filterMap Call.releaseKey?
    have owns : ∀ other, ¬ Txn.Owns config tid { state.txns tid with calls := rest } other := by
      intro other owned
      simp [Txn.Owns, stage, noUnlock] at owned
    apply Move.relock
    · simp [releaseRpcHandler]
    · simp [releaseRpcHandler]
    · simp only [releaseRpcHandler, Record.localTryReleaseOp]
      split
      · rename_i mine
        exact .inr ⟨.inr mine, .inl rfl⟩
      · exact .inl rfl
    · apply own.setRecord
      · exact own.nodup
      · simp only [Txn.Shape, stage]
        refine ⟨⟨releasing.subset, releasing.verbs, ?_, ?_⟩, noBatch⟩
        · exact fun oneSided => absurd (rpc.symm.trans oneSided) Bool.false_ne_true
        · exact fun _ => ⟨noUnlock, batch, fun call member =>
            calls call (split.mem_iff.mpr (List.mem_cons_of_mem _ member))⟩
      · exact fun other _ owned => absurd owned (owns other)
      · intro other different covered
        simpa [Txn.Covers, stage, rpc, releases.mem_iff, different] using covered
      · exact fun owned => absurd owned (owns key)
      · intro locked
        simp only [releaseRpcHandler, Record.localTryReleaseOp] at locked
        split at locked
        · exact absurd locked.symm (config.lockContent_ne_zero tid)
        · contradiction
    · simp [Txn.Decided, stage]

theorem move_call (inv : Inv config state) {machine : Nat}
    (stepped : call config state tid machine = some after) : Move config tid state after := by
  simp only [call] at stepped
  obtain ⟨⟨item, rest⟩, found, rfl⟩ := Option.map_eq_some_iff.mp stepped
  have split := nextFor_perm found
  cases item with
  | lock key seq => exact move_handleLock inv split
  | validate key seq => exact move_handleValidate inv split
  | commit key data => exact move_handleCommit inv split
  | release key => exact move_handleRelease inv split

end Handlers

end Rocc.Occ.Hybrid
