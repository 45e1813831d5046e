import Rocc.Sundial.OneSided.Invariant

/-!
# Every verb keeps the timestamps in order

A verb changes one transaction and at most one record.  Other transactions only
notice that the header word of the record has grown (`TxnOk.touch`): they do not
hold the lock of a record that somebody else writes back.
-/

set_option linter.unusedSectionVars false

namespace Rocc.Sundial.OneSided

open Rtx

universe u v w

variable {Key : Type u} {Value : Type v} {Tid : Type w}
variable [DecidableEq Key] [DecidableEq Tid]
variable {config : Config Key Tid} {state after : State Key Value Tid} {tid : Tid}
variable {txn : Txn Key Value} {records : Key → Node Value} {key : Key} {node : Node Value}

/-! ## Frame rules -/

theorem Txn.mem_locked {item : ReadSetItem Key Value} (unwritten : txn.Unwritten item) :
    item.key ∈ txn.locked := by
  cases at_stage : txn.stage with
  | update pending =>
      simp only [Unwritten, at_stage] at unwritten
      simp only [locked, at_stage]
      exact List.mem_map_of_mem (f := fun entry => entry.1.key) unwritten
  | lockRead key =>
      simp only [Unwritten, at_stage] at unwritten
      simp only [locked, at_stage]
      exact List.mem_cons_of_mem _ (List.mem_map_of_mem unwritten)
  | _ =>
      simp_all [Unwritten, locked, -List.mem_map, List.mem_map_of_mem]

theorem ReadOk.grow {node node' : Node Value} {item : ReadSetItem Key Value}
    (ok : ReadOk node item) (grows : lease node.seq ≤ lease node'.seq) : ReadOk node' item where
  observed := ok.observed.trans grows
  header := ok.header.trans grows
  word := ok.word

theorem lease_update (grows : lease (records key).seq ≤ lease node.seq) (other : Key) :
    lease (records other).seq ≤ lease (Function.update records key node other).seq := by
  rcases eq_or_ne other key with rfl | different
  · rw [Function.update_self]
    exact grows
  · rw [Function.update_of_ne different]

/-- Changing a record: its header word may grow, but the lock of a held record and the
version of one still to be written stay. -/
theorem TxnOk.touch (ok : TxnOk config records tid txn)
    (grows : lease (records key).seq ≤ lease node.seq)
    (sameLock : key ∈ txn.locked → node.lock = (records key).lock)
    (sameVersion : ∀ item, txn.Unwritten item → item.key = key →
      wts node.seq = wts (records key).seq) :
    TxnOk config (Function.update records key node) tid txn where
  reads item member := (ok.reads item member).grow (lease_update grows item.key)
  renewed item member isRenewed :=
    (ok.renewed item member isRenewed).trans (lease_update grows item.key)
  locked other member := by
    rcases eq_or_ne other key with rfl | different
    · rw [Function.update_self, sameLock member]
      exact ok.locked other member
    · rw [Function.update_of_ne different]
      exact ok.locked other member
  locked_nodup := ok.locked_nodup
  writes item unwritten := by
    have writeOk := ok.writes item unwritten
    rcases eq_or_ne item.key key with rfl | different
    · rw [Function.update_self]
      exact ⟨(sameVersion item unwritten rfl).trans writeOk.current, writeOk.after⟩
    · rw [Function.update_of_ne different]
      exact writeOk
  bounded := ok.bounded

/-- Changing a record that the transaction has not locked. -/
theorem TxnOk.touch_unlocked (ok : TxnOk config records tid txn)
    (grows : lease (records key).seq ≤ lease node.seq) (unlocked : key ∉ txn.locked) :
    TxnOk config (Function.update records key node) tid txn := by
  apply ok.touch grows
  · exact fun member => absurd member unlocked
  · rintro item unwritten rfl
    exact absurd (Txn.mem_locked unwritten) unlocked

/-- Moving a transaction to another stage. -/
theorem TxnOk.restage (ok : TxnOk config records tid txn) {stage : Stage Key Value}
    (reads : ∀ item ∈ ({ txn with stage } : Txn Key Value).buffers,
      ReadOk (records item.key) item)
    (renewed : ∀ item ∈ txn.readSet, ({ txn with stage } : Txn Key Value).Renewed item →
      txn.Renewed item)
    (locked : ({ txn with stage } : Txn Key Value).locked.Subperm txn.locked)
    (unwritten : ∀ item, ({ txn with stage } : Txn Key Value).Unwritten item →
      txn.Unwritten item)
    (bounded : ({ txn with stage } : Txn Key Value).Prepared → txn.Prepared) :
    TxnOk config records tid { txn with stage } where
  reads := reads
  renewed item member isRenewed := ok.renewed item member (renewed item member isRenewed)
  locked key member := ok.locked key (locked.subset member)
  locked_nodup := by
    obtain ⟨kept, same, sublist⟩ := locked
    exact same.nodup_iff.mp (ok.locked_nodup.sublist sublist)
  writes item isUnwritten := ok.writes item (unwritten item isUnwritten)
  bounded isPrepared := ok.bounded (bounded isPrepared)

/-- A step that changes no record. -/
theorem Inv.client (inv : Inv config state) {events : List (LockEvent Tid Key)}
    (mine : TxnOk config state.records tid txn) :
    Progress config state
      { state with txns := Function.update state.txns tid txn, events } where
  inv := by
    constructor
    case word => exact inv.word
    case ordered => exact inv.ordered
    case last => exact inv.last
    case txnOk =>
      rw [Function.forall_update_iff state.txns fun other txn =>
        TxnOk config state.records other txn]
      exact ⟨mine, fun other _ => inv.txnOk other⟩
  grows key := le_rfl

/-- A record that nobody else has locked. -/
def State.Exclusive (state : State Key Value Tid) (tid : Tid) (key : Key) : Prop :=
  ∀ other, other ≠ tid → key ∉ (state.txns other).locked

theorem Inv.exclusive (inv : Inv config state)
    (lock : (state.records key).lock = 0 ∨ (state.records key).lock = config.startTime tid) :
    state.Exclusive tid key := by
  intro other different member
  have theirs := (inv.txnOk other).locked key member
  rcases lock with free | mine
  · exact config.startTime_ne_zero other (theirs.symm.trans free)
  · exact different (config.startTime_injective (theirs.symm.trans mine))

/-- A step that changes a record. -/
theorem Inv.touchRecord (inv : Inv config state) {history : Key → List (Nat × Value)}
    {events : List (LockEvent Tid Key)} (word : node.seq < wordBound)
    (ordered : wts node.seq ≤ rts node.seq)
    (last : (history key).getLast? = some (wts node.seq, node.value))
    (sameHistory : ∀ other, other ≠ key → history other = state.history other)
    (grows : lease (state.records key).seq ≤ lease node.seq)
    (others : ∀ other, other ≠ tid →
      TxnOk config (Function.update state.records key node) other (state.txns other))
    (mine : TxnOk config (Function.update state.records key node) tid txn) :
    Progress config state
      { records := Function.update state.records key node
        txns := Function.update state.txns tid txn
        history, events } where
  inv := by
    constructor
    case word =>
      rw [Function.forall_update_iff state.records fun _ node => node.seq < wordBound]
      exact ⟨word, fun other _ => inv.word other⟩
    case ordered =>
      rw [Function.forall_update_iff state.records fun _ node => wts node.seq ≤ rts node.seq]
      exact ⟨ordered, fun other _ => inv.ordered other⟩
    case last =>
      rw [Function.forall_update_iff state.records fun other node =>
        (history other).getLast? = some (wts node.seq, node.value)]
      refine ⟨last, fun other different => ?_⟩
      rw [sameHistory other different]
      exact inv.last other
    case txnOk =>
      rw [Function.forall_update_iff state.txns fun other txn =>
        TxnOk config (Function.update state.records key node) other txn]
      exact ⟨mine, others⟩
  grows := lease_update grows

/-! ## Stages that hold the write set -/

/-- The write set is locked and nothing of it is written back. -/
def Stage.Executes : Stage Key Value → Prop
  | .execute => True
  | .readAgain _ => True
  | .lockCas _ => True
  | .renewLease _ => True
  | .renewRead _ => True
  | .renewWrite _ => True
  | .prepared => True
  | _ => False

theorem Txn.locked_of_executes (executes : txn.stage.Executes) :
    txn.locked = txn.writeSet.map (·.key) := by
  cases at_stage : txn.stage <;> simp_all [Stage.Executes, locked]

theorem Txn.unwritten_of_executes (executes : txn.stage.Executes)
    {item : ReadSetItem Key Value} : txn.Unwritten item ↔ item ∈ txn.writeSet := by
  cases at_stage : txn.stage <;> simp_all [Stage.Executes, Unwritten]

theorem TxnOk.readSet (ok : TxnOk config records tid txn) :
    ∀ item ∈ txn.readSet, ReadOk (records item.key) item := by
  intro item member
  apply ok.reads
  cases at_stage : txn.stage <;> simp [Txn.buffers, at_stage, member]

theorem TxnOk.writeSet (ok : TxnOk config records tid txn) (executes : txn.stage.Executes) :
    ∀ item ∈ txn.writeSet, WriteOk (records item.key) txn.commitId item :=
  fun item member => ok.writes item ((Txn.unwritten_of_executes executes).mpr member)

/-- Moving between two stages that hold the write set. -/
theorem TxnOk.execute (ok : TxnOk config records tid txn) {next : Txn Key Value}
    (executed : txn.stage.Executes) (executes : next.stage.Executes)
    (sameKeys : next.writeSet.map (·.key) = txn.writeSet.map (·.key))
    (writes : ∀ item ∈ next.writeSet, WriteOk (records item.key) next.commitId item)
    (reads : ∀ item ∈ next.buffers, ReadOk (records item.key) item)
    (renewed : ∀ item ∈ next.readSet, next.Renewed item →
      toLex (item.wts, next.commitId) ≤ lease (records item.key).seq)
    (bounded : next.Prepared → next.commitId < timestampBound) :
    TxnOk config records tid next := by
  have sameLocked : next.locked = txn.locked := by
    rw [Txn.locked_of_executes executes, Txn.locked_of_executes executed, sameKeys]
  constructor
  case reads => exact reads
  case renewed => exact renewed
  case locked =>
    rw [sameLocked]
    exact ok.locked
  case locked_nodup =>
    rw [sameLocked]
    exact ok.locked_nodup
  case writes =>
    intro item unwritten
    exact writes item ((Txn.unwritten_of_executes executes).mp unwritten)
  case bounded => exact bounded

/-- Giving up: the write set is released. -/
theorem TxnOk.abort (ok : TxnOk config records tid txn) (executed : txn.stage.Executes)
    (again : Bool) :
    TxnOk config records tid { txn with stage := .release txn.writeSet again } := by
  apply ok.restage
  · exact ok.readSet
  · exact fun _ _ => False.elim
  · rw [Txn.locked_of_executes executed]
    exact .refl _
  · exact fun _ => False.elim
  · exact False.elim

/-- The stages of a transaction that has nothing to give back any more. -/
inductive Stage.Quits : Stage Key Value → Prop where
  | again {pending : List (ReadSetItem Key Value)} : Quits (.releaseAgain pending)
  | finished : Quits (.finished false)

theorem TxnOk.quit (ok : TxnOk config records tid txn) {stage : Stage Key Value}
    (quits : stage.Quits) : TxnOk config records tid { txn with stage } := by
  apply ok.restage
  · cases quits <;> exact ok.readSet
  · cases quits <;> exact fun _ _ => False.elim
  · cases quits <;> exact List.nil_subperm
  · cases quits <;> exact fun _ => False.elim
  · cases quits <;> exact False.elim

/-! ## Execution -/

theorem readOk_load (inv : Inv config state) (key : Key) :
    ReadOk (state.records key) (load (state.records key) key) where
  observed := le_rfl
  header := le_rfl
  word := inv.word key

/-- Reading the header again keeps the timestamps of the item. -/
theorem Inv.readHeader (inv : Inv config state) {item : ReadSetItem Key Value}
    (ok : ReadOk (state.records item.key) item) :
    ReadOk (state.records item.key) (item.readHeader (state.records item.key)) where
  observed := ok.observed
  header := le_rfl
  word := inv.word item.key

theorem WriteOk.mono {commitId larger : Nat} {item : ReadSetItem Key Value}
    (ok : WriteOk node commitId item) (le : commitId ≤ larger) : WriteOk node larger item where
  current := ok.current
  after := ok.after.trans_le le

theorem progress_begin {commitId : Nat} (inv : Inv config state)
    (stepped : begin state tid commitId = some after) : Progress config state after := by
  simp only [begin] at stepped
  split at stepped
  · cases stepped
    apply inv.client
    constructor <;> simp [Txn.buffers, Txn.Renewed, Txn.locked, Txn.Unwritten, Txn.Prepared]
  · cases stepped

theorem progress_read (inv : Inv config state) (stepped : read state tid key = some after) :
    Progress config state after := by
  have ok := inv.txnOk tid
  simp only [read] at stepped
  split at stepped
  · rename_i executes
    cases stepped
    have executed : (state.txns tid).stage.Executes := by
      rw [executes]
      trivial
    apply inv.client
    apply ok.execute executed
    · trivial
    · rfl
    · exact ok.writeSet executed
    · intro item member
      rcases List.mem_cons.mp member with rfl | member
      · exact readOk_load inv key
      · exact ok.readSet item member
    · exact fun _ _ => False.elim
    · exact False.elim
  · cases stepped

theorem progress_readAgain (inv : Inv config state)
    (stepped : readAgain state tid = some after) : Progress config state after := by
  have ok := inv.txnOk tid
  simp only [readAgain] at stepped
  split at stepped
  · rename_i item reads
    have executed : (state.txns tid).stage.Executes := by
      rw [reads]
      trivial
    have fresh := inv.readHeader (ok.reads item (by simp [Txn.buffers, reads]))
    split at stepped
    · cases stepped
      exact inv.client (ok.abort executed false)
    · cases stepped
      apply inv.client
      apply ok.execute executed
      · trivial
      · rfl
      · exact fun other member => (ok.writeSet executed other member).mono (le_max_left _ _)
      · intro other member
        rcases List.mem_append.mp member with member | member
        · exact ok.readSet other member
        · rw [List.mem_singleton.mp member]
          exact fresh
      · exact fun _ _ => False.elim
      · exact False.elim
  · cases stepped

theorem progress_write (inv : Inv config state) (stepped : write state tid key = some after) :
    Progress config state after := by
  have ok := inv.txnOk tid
  simp only [write] at stepped
  split at stepped
  · rename_i executes
    cases stepped
    have executed : (state.txns tid).stage.Executes := by
      rw [executes]
      trivial
    apply inv.client
    apply ok.execute executed
    · trivial
    · rfl
    · exact ok.writeSet executed
    · exact ok.readSet
    · exact fun _ _ => False.elim
    · exact False.elim
  · cases stepped

/-- The compare-and-swap finds a free lock. -/
theorem Inv.acquire (inv : Inv config state) (locks : (state.txns tid).stage = .lockCas key)
    (free : (state.records key).lock = 0) (events : List (LockEvent Tid Key)) :
    Progress config state { state with
      records := Function.update state.records key
        { state.records key with lock := config.startTime tid }
      txns := Function.update state.txns tid { state.txns tid with stage := .lockRead key }
      events } := by
  have ok := inv.txnOk tid
  have executed : (state.txns tid).stage.Executes := by
    rw [locks]
    trivial
  have unlocked : key ∉ (state.txns tid).locked := by
    intro member
    exact config.startTime_ne_zero tid ((ok.locked key member).symm.trans free)
  have touched : TxnOk config (Function.update state.records key
      { state.records key with lock := config.startTime tid }) tid (state.txns tid) :=
    ok.touch_unlocked le_rfl unlocked
  apply inv.touchRecord
  · exact inv.word key
  · exact inv.ordered key
  · exact inv.last key
  · exact fun _ _ => rfl
  · exact le_rfl
  · exact fun other different => (inv.txnOk other).touch_unlocked le_rfl
      (inv.exclusive (.inl free) other different)
  · have nodup := ok.locked_nodup
    have held := touched.locked
    rw [Txn.locked_of_executes executed] at unlocked nodup held
    constructor
    case reads => exact touched.readSet
    case renewed => exact fun _ _ => False.elim
    case locked =>
      intro other member
      rcases List.mem_cons.mp member with rfl | member
      · rw [Function.update_self]
      · exact held other member
    case locked_nodup => exact List.nodup_cons.mpr ⟨unlocked, nodup⟩
    case writes => exact touched.writeSet executed
    case bounded => exact False.elim

theorem progress_lockCas (inv : Inv config state)
    (stepped : lockCas config state tid = some after) : Progress config state after := by
  simp only [lockCas] at stepped
  split at stepped
  · rename_i key locks
    split at stepped
    · split at stepped
      · cases stepped
        exact ⟨inv, fun _ => le_rfl⟩
      · cases stepped
        apply inv.client
        apply (inv.txnOk tid).abort
        rw [locks]
        trivial
    · rename_i notTaken
      cases stepped
      exact inv.acquire locks (not_not.mp notTaken) _
  · cases stepped

theorem progress_lockRead (inv : Inv config state) (stepped : lockRead state tid = some after) :
    Progress config state after := by
  have ok := inv.txnOk tid
  simp only [lockRead] at stepped
  split at stepped
  · rename_i key locks
    cases stepped
    have sameLocks : (((state.txns tid).writeSet ++
        [load (state.records key) key]).map (·.key)).Perm (state.txns tid).locked := by
      simp only [Txn.locked, locks, List.map_append, List.map_cons, List.map_nil]
      exact List.perm_append_singleton _ _
    apply inv.client
    constructor
    case reads => exact ok.readSet
    case renewed => exact fun _ _ => False.elim
    case locked =>
      intro other member
      exact ok.locked other (sameLocks.mem_iff.mp member)
    case locked_nodup => exact sameLocks.nodup_iff.mpr ok.locked_nodup
    case writes =>
      intro item member
      rcases List.mem_append.mp member with member | member
      · have writeOk := ok.writes item (by simpa [Txn.Unwritten, locks] using member)
        exact writeOk.mono (le_max_left _ _)
      · rw [List.mem_singleton.mp member]
        -- the commit id is beyond the read timestamp, and so beyond the version
        exact ⟨rfl, (Nat.lt_succ_of_le (inv.ordered key)).trans_le (le_max_right _ _)⟩
    case bounded => exact False.elim
  · cases stepped

theorem progress_modify {data : Value} (inv : Inv config state)
    (stepped : modify state tid key data = some after) : Progress config state after := by
  have ok := inv.txnOk tid
  simp only [modify] at stepped
  split at stepped
  · rename_i executes
    cases stepped
    have executed : (state.txns tid).stage.Executes := by
      rw [executes]
      trivial
    apply inv.client
    apply ok.execute executed
    · exact executed
    · rw [List.map_map]
      apply List.map_congr_left
      intro item _
      simp only [Function.comp_apply]
      split <;> rfl
    · intro item member
      obtain ⟨old, oldMember, rfl⟩ := List.mem_map.mp member
      have writeOk := ok.writeSet executed old oldMember
      split
      · exact ⟨writeOk.current, writeOk.after⟩
      · exact writeOk
    · simpa [Txn.buffers, executes] using ok.readSet
    · simp [Txn.Renewed, executes]
    · simp [Txn.Prepared, executes]
  · cases stepped

/-! ## Renewals -/

theorem progress_renewLease {index : Nat} (inv : Inv config state)
    (stepped : renewLease state tid index = some after) : Progress config state after := by
  have ok := inv.txnOk tid
  simp only [renewLease] at stepped
  split at stepped
  · rename_i executes
    obtain ⟨item, found, rfl⟩ := Option.map_eq_some_iff.mp stepped
    have executed : (state.txns tid).stage.Executes := by
      rw [executes]
      trivial
    have fresh := inv.readHeader (ok.readSet item (List.mem_of_getElem? found))
    apply inv.client
    apply ok.execute executed
    · trivial
    · rfl
    · exact ok.writeSet executed
    · intro other member
      rcases List.mem_cons.mp member with rfl | member
      · exact fresh
      · exact ok.readSet other member
    · exact fun _ _ => False.elim
    · exact False.elim
  · cases stepped

/-- The header a renewal that was not refused leaves in a record: a lease up to the commit
id, of the same version. -/
structure WroteHeader (node node' : Node Value) (version commitId : Nat) : Prop where
  word : node'.seq < wordBound
  sameVersion : wts node'.seq = wts node.seq
  sameLock : node'.lock = node.lock
  sameValue : node'.value = node.value
  longer : rts node.seq ≤ rts node'.seq
  granted : toLex (version, commitId) ≤ lease node'.seq

theorem wroteHeader {item : ReadSetItem Key Value} {commitId : Nat} (word : node.seq < wordBound)
    (ok : ReadOk node item) (accepted : ¬ item.Refused commitId)
    (bounded : commitId < timestampBound)
    (current : rts item.seq < commitId →
      wts node.seq = wts item.seq ∧ rts node.seq ≤ commitId) :
    WroteHeader node (item.writeHeader commitId node) item.wts commitId := by
  rw [ReadSetItem.Refused, not_or, not_not] at accepted
  by_cases short : rts item.seq < commitId
  · have written : item.writeHeader commitId node =
        { node with seq := renewed item.seq commitId } := if_pos short
    have version : wts (renewed item.seq commitId) = wts item.seq :=
      wts_renewed ok.word bounded
    have bound : rts (renewed item.seq commitId) = commitId := rts_renewed ok.word bounded
    rw [written]
    constructor
    · exact renewed_lt _ _
    · exact version.trans (current short).1.symm
    · rfl
    · rfl
    · exact (current short).2.trans bound.ge
    · exact le_lease_iff.mpr (.inr ⟨accepted.1.trans version.symm, bound.ge⟩)
  · have kept : item.writeHeader commitId node = node := if_neg short
    have granted : toLex (item.wts, commitId) ≤ lease item.seq :=
      le_lease_iff.mpr (.inr ⟨accepted.1, not_lt.mp short⟩)
    rw [kept]
    exact ⟨word, rfl, rfl, rfl, le_rfl, granted.trans ok.header⟩

theorem WroteHeader.grows {node node' : Node Value} {version commitId : Nat}
    (wrote : WroteHeader node node' version commitId) : lease node.seq ≤ lease node'.seq :=
  lease_le_iff.mpr (.inr ⟨wrote.sameVersion.symm, wrote.longer⟩)

/-- A renewal writes a header; nobody notices but the transaction. -/
theorem Inv.wroteHeader (inv : Inv config state) {version commitId : Nat}
    (wrote : WroteHeader (state.records key) node version commitId)
    (mine : TxnOk config (Function.update state.records key node) tid (state.txns tid) →
      TxnOk config (Function.update state.records key node) tid txn) :
    Progress config state { state with
      records := Function.update state.records key node
      txns := Function.update state.txns tid txn } := by
  have touched : ∀ other, TxnOk config (Function.update state.records key node) other
      (state.txns other) := by
    intro other
    apply (inv.txnOk other).touch wrote.grows
    · exact fun _ => wrote.sameLock
    · exact fun _ _ _ => wrote.sameVersion
  apply inv.touchRecord wrote.word
  · rw [wrote.sameVersion]
    exact (inv.ordered key).trans wrote.longer
  · rw [wrote.sameVersion, wrote.sameValue]
    exact inv.last key
  · exact fun _ _ => rfl
  · exact wrote.grows
  · exact fun other _ => touched other
  · exact mine (touched tid)

theorem progress_renewLeaseWrite (inv : Inv config state)
    (current : WritesCurrent config state (.renewLeaseWrite tid))
    (stepped : renewLeaseWrite state tid = some after) : Progress config state after := by
  have ok := inv.txnOk tid
  simp only [renewLeaseWrite] at stepped
  split at stepped
  · rename_i item renews
    have executed : (state.txns tid).stage.Executes := by
      rw [renews]
      trivial
    have finish : ∀ {records}, TxnOk config records tid (state.txns tid) →
        TxnOk config records tid { state.txns tid with stage := .execute } := by
      intro records ok
      apply ok.execute executed
      · trivial
      · rfl
      · exact ok.writeSet executed
      · exact ok.readSet
      · exact fun _ _ => False.elim
      · exact False.elim
    split at stepped
    · cases stepped
      exact inv.client (finish ok)
    · rename_i accepted
      cases stepped
      have isNext : item ∈ (state.txns tid).renewal := by simp [Txn.renewal, renews]
      apply inv.wroteHeader
      · apply OneSided.wroteHeader (inv.word item.key)
        · exact ok.reads item (by simp [Txn.buffers, renews])
        · exact accepted
        · exact current.1
        · exact current.2 item isNext accepted
      · exact finish
  · cases stepped

theorem progress_prepare (inv : Inv config state)
    (bounded : (state.txns tid).commitId < timestampBound)
    (stepped : prepare state tid = some after) : Progress config state after := by
  have ok := inv.txnOk tid
  simp only [prepare] at stepped
  split at stepped
  · rename_i executes
    cases stepped
    have executed : (state.txns tid).stage.Executes := by
      rw [executes]
      trivial
    apply inv.client
    apply ok.execute executed
    · trivial
    · rfl
    · exact ok.writeSet executed
    · exact ok.readSet
    · exact fun _ _ => False.elim
    · exact fun _ => bounded
  · cases stepped

theorem progress_renewRead {machine : Nat} (inv : Inv config state)
    (stepped : renewRead config state tid machine = some after) :
    Progress config state after := by
  have ok := inv.txnOk tid
  simp only [renewRead] at stepped
  split at stepped
  · rename_i pending renews
    obtain ⟨⟨index, rest⟩, -, found⟩ := Option.bind_eq_some_iff.mp stepped
    obtain ⟨item, at_index, rfl⟩ := Option.map_eq_some_iff.mp found
    have executed : (state.txns tid).stage.Executes := by
      rw [renews]
      trivial
    have fresh := inv.readHeader (ok.readSet item (List.mem_of_getElem? at_index))
    apply inv.client
    apply ok.execute executed
    · trivial
    · rfl
    · exact ok.writeSet executed
    · intro other member
      rcases List.mem_or_eq_of_mem_set member with member | rfl
      · exact ok.readSet other member
      · exact fresh
    · exact fun _ _ => False.elim
    · exact fun _ => ok.bounded (by simp [Txn.Prepared, renews])
  · cases stepped

theorem progress_renewWrite (inv : Inv config state) (current : state.RenewalCurrent tid)
    (stepped : renewWrite state tid = some after) : Progress config state after := by
  have ok := inv.txnOk tid
  simp only [renewWrite] at stepped
  split at stepped
  · rename_i item rest renews
    have executed : (state.txns tid).stage.Executes := by
      rw [renews]
      trivial
    have bounded := ok.bounded (by simp [Txn.Prepared, renews])
    split at stepped
    · cases stepped
      exact inv.client (ok.abort executed true)
    · rename_i accepted
      cases stepped
      have isNext : item ∈ (state.txns tid).renewal := by simp [Txn.renewal, renews]
      have wrote := OneSided.wroteHeader (inv.word item.key)
        (ok.reads item (by simp [Txn.buffers, renews])) accepted bounded
        (current item isNext accepted)
      apply inv.wroteHeader wrote
      intro touched
      apply touched.execute executed
      · trivial
      · rfl
      · exact touched.writeSet executed
      · intro other member
        apply touched.reads other
        simp only [Txn.buffers, renews]
        rcases List.mem_append.mp member with member | member
        · exact List.mem_append_left _ (List.mem_cons_of_mem _ member)
        · exact List.mem_append_right _ member
      · intro other member notLeft
        by_cases same : other = item
        · subst same
          rw [Function.update_self]
          exact wrote.granted
        · apply touched.renewed other member
          simp only [Txn.Renewed, renews, List.mem_cons]
          exact not_or.mpr ⟨same, notLeft⟩
      · exact fun _ => bounded
  · cases stepped

/-! ## Updates and releases -/

theorem progress_vote {commit : Bool} (inv : Inv config state)
    (stepped : vote state tid commit = some after) : Progress config state after := by
  have ok := inv.txnOk tid
  simp only [vote] at stepped
  split at stepped
  · rename_i prepares
    have executed : (state.txns tid).stage.Executes := by
      rw [prepares]
      trivial
    split at stepped
    · cases stepped
      apply inv.client
      apply ok.restage
      · exact ok.readSet
      · simp [Txn.Renewed, prepares]
      · rw [Txn.locked_of_executes executed]
        simp only [Txn.locked, List.map_map, Function.comp_def]
        exact .refl _
      · intro item unwritten
        rw [Txn.unwritten_of_executes executed]
        simpa [Txn.Unwritten] using unwritten
      · simp [Txn.Prepared, prepares]
    · cases stepped
      exact inv.client (ok.abort executed false)
  · cases stepped

/-- The record a write-back leaves. -/
structure WroteBack (node node' : Node Value) (data : Value) (commitId : Nat) : Prop where
  word : node'.seq < wordBound
  version : wts node'.seq = commitId
  bound : rts node'.seq = commitId
  sameLock : node'.lock = node.lock
  value : node'.value = data

theorem wroteBack (node : Node Value) (data : Value) {commitId : Nat}
    (bounded : commitId < timestampBound) :
    WroteBack node (node.writeBack data commitId) data commitId := by
  simp only [Node.writeBack]
  exact ⟨newlease_lt commitId, wts_newlease bounded, rts_newlease bounded, rfl, rfl⟩

/-- The write-back of an item: its record is locked by the transaction and still has the
version that was locked, which is older than the commit id. -/
theorem Inv.wroteBack (inv : Inv config state) {item : ReadSetItem Key Value}
    {pending rest : List (ReadSetItem Key Value × Bool)}
    (updates : (state.txns tid).stage = .update pending)
    (split : pending.Perm ((item, false) :: rest))
    (wrote : WroteBack (state.records item.key) node item.data (state.txns tid).commitId) :
    Progress config state { state with
      records := Function.update state.records item.key node
      txns := Function.update state.txns tid
        { state.txns tid with stage := .update ((item, true) :: rest) }
      history := Function.update state.history item.key
        (state.history item.key ++ [((state.txns tid).commitId, item.data)]) } := by
  have ok := inv.txnOk tid
  have unwritten : (state.txns tid).Unwritten item := by
    simp only [Txn.Unwritten, updates]
    exact split.mem_iff.mpr List.mem_cons_self
  have writeOk := ok.writes item unwritten
  have mine := ok.locked item.key (Txn.mem_locked unwritten)
  have grows : lease (state.records item.key).seq ≤ lease node.seq := by
    apply lease_le_iff.mpr
    left
    rw [wrote.version, writeOk.current]
    exact writeOk.after
  have sameLocked : (state.txns tid).locked.Perm (item.key :: rest.map (·.1.key)) := by
    simp only [Txn.locked, updates]
    exact split.map _
  have stillUnwritten : ∀ other, ({ state.txns tid with
      stage := .update ((item, true) :: rest) } : Txn Key Value).Unwritten other →
      (other, false) ∈ rest := by
    intro other left
    simpa [Txn.Unwritten] using left
  apply inv.touchRecord wrote.word
  · exact (wrote.version.trans wrote.bound.symm).le
  · rw [Function.update_self, List.getLast?_concat, wrote.version, wrote.value]
  · exact fun other different => Function.update_of_ne different _ _
  · exact grows
  · exact fun other different => (inv.txnOk other).touch_unlocked grows
      (inv.exclusive (.inr mine) other different)
  · have moved : TxnOk config state.records tid
        { state.txns tid with stage := .update ((item, true) :: rest) } := by
      apply ok.restage
      · exact ok.readSet
      · simp [Txn.Renewed, updates]
      · exact sameLocked.symm.subperm
      · intro other left
        simp only [Txn.Unwritten, updates]
        exact split.mem_iff.mpr (List.mem_cons_of_mem _ (stillUnwritten other left))
      · simp [Txn.Prepared, updates]
    apply moved.touch grows
    · exact fun _ => wrote.sameLock
    · -- the record is locked once, so no other item is about it
      intro other left sameKey
      have nodup := sameLocked.nodup_iff.mp ok.locked_nodup
      have keyMember : item.key ∈ rest.map (·.1.key) := by
        rw [← sameKey]
        exact List.mem_map_of_mem (f := fun entry => entry.1.key) (stillUnwritten other left)
      exact absurd keyMember (List.nodup_cons.mp nodup).1

/-- An unlock of a record that is free or locked by the transaction, by a transaction that
gives the lock up. -/
theorem Inv.unlock (inv : Inv config state) {item : ReadSetItem Key Value}
    {stage : Stage Key Value} {events : List (LockEvent Tid Key)}
    (lock : (state.records item.key).lock = 0 ∨
      (state.records item.key).lock = config.startTime tid)
    (moved : TxnOk config state.records tid { state.txns tid with stage })
    (dropped : item.key ∉ ({ state.txns tid with stage } : Txn Key Value).locked) :
    Progress config state { state with
      records := Function.update state.records item.key (state.records item.key).unlock
      txns := Function.update state.txns tid { state.txns tid with stage }
      events } := by
  apply inv.touchRecord
  · exact inv.word item.key
  · exact inv.ordered item.key
  · exact inv.last item.key
  · exact fun _ _ => rfl
  · exact le_rfl
  · exact fun other different => (inv.txnOk other).touch_unlocked le_rfl
      (inv.exclusive lock other different)
  · exact moved.touch_unlocked le_rfl dropped

theorem progress_updateVerb {machine : Nat} (inv : Inv config state)
    (stepped : updateVerb config state tid machine = some after) :
    Progress config state after := by
  have ok := inv.txnOk tid
  simp only [updateVerb] at stepped
  split at stepped
  · rename_i pending updates
    obtain ⟨⟨⟨item, written⟩, rest⟩, found, rfl⟩ := Option.map_eq_some_iff.mp stepped
    have split := nextFor_perm found
    cases written with
    | false =>
        have bounded := ok.bounded (by simp [Txn.Prepared, updates])
        exact inv.wroteBack updates split (OneSided.wroteBack _ _ bounded)
    | true =>
        have sameLocked : (state.txns tid).locked.Perm (item.key :: rest.map (·.1.key)) := by
          simp only [Txn.locked, updates]
          exact split.map _
        apply inv.unlock
        · right
          exact ok.locked item.key (sameLocked.mem_iff.mpr List.mem_cons_self)
        · apply ok.restage
          · exact ok.readSet
          · simp [Txn.Renewed, updates]
          · exact (List.sublist_cons_self _ _).subperm.trans sameLocked.symm.subperm
          · intro other left
            simp only [Txn.Unwritten, updates]
            exact split.mem_iff.mpr (List.mem_cons_of_mem _ left)
          · simp [Txn.Prepared, updates]
        · exact (List.nodup_cons.mp (sameLocked.nodup_iff.mp ok.locked_nodup)).1
  · cases stepped

theorem mem_nextRelease {machine : Nat} {pending rest : List (ReadSetItem Key Value)}
    {item : ReadSetItem Key Value} (releasing : (state.txns tid).releasing = pending)
    (found : nextFor (config.at ReadSetItem.key machine) pending = some (item, rest)) :
    item ∈ state.nextRelease config tid machine := by
  simp [State.nextRelease, releasing, found]

theorem progress_releaseVerb {machine : Nat} (inv : Inv config state)
    (owned : WritesCurrent config state (.releaseVerb tid machine))
    (stepped : releaseVerb config state tid machine = some after) :
    Progress config state after := by
  have ok := inv.txnOk tid
  simp only [releaseVerb] at stepped
  split at stepped
  · rename_i pending again releases
    obtain ⟨⟨item, rest⟩, found, rfl⟩ := Option.map_eq_some_iff.mp stepped
    have releasing : (state.txns tid).releasing = pending := by simp [Txn.releasing, releases]
    have sameLocked : (state.txns tid).locked.Perm (item.key :: rest.map (·.key)) := by
      simp only [Txn.locked, releases]
      exact (nextFor_perm found).map _
    apply inv.unlock
    · exact owned item (mem_nextRelease releasing found)
    · apply ok.restage
      · exact ok.readSet
      · exact fun _ _ => False.elim
      · exact (List.sublist_cons_self _ _).subperm.trans sameLocked.symm.subperm
      · exact fun _ => False.elim
      · exact False.elim
    · exact (List.nodup_cons.mp (sameLocked.nodup_iff.mp ok.locked_nodup)).1
  · rename_i pending releases
    obtain ⟨⟨item, rest⟩, found, rfl⟩ := Option.map_eq_some_iff.mp stepped
    have releasing : (state.txns tid).releasing = pending := by simp [Txn.releasing, releases]
    apply inv.unlock
    · exact owned item (mem_nextRelease releasing found)
    · exact ok.quit .again
    · exact List.not_mem_nil
  · cases stepped

theorem progress_resume (inv : Inv config state) (stepped : resume state tid = some after) :
    Progress config state after := by
  have ok := inv.txnOk tid
  simp only [resume] at stepped
  split at stepped
  · rename_i renews
    cases stepped
    have executed : (state.txns tid).stage.Executes := by
      rw [renews]
      trivial
    apply inv.client
    apply ok.execute executed
    · trivial
    · rfl
    · exact ok.writeSet executed
    · intro item member
      rcases List.mem_append.mp member with member | member
      · exact ok.readSet item member
      · exact ok.readSet item member
    · exact fun item member notLeft => absurd member notLeft
    · exact fun _ => ok.bounded (by simp [Txn.Prepared, renews])
  · rename_i renews
    cases stepped
    have executed : (state.txns tid).stage.Executes := by
      rw [renews]
      trivial
    apply inv.client
    apply ok.execute executed
    · trivial
    · rfl
    · exact ok.writeSet executed
    · exact ok.readSet
    · exact fun item member _ => ok.renewed item member (by simp [Txn.Renewed, renews])
    · exact fun _ => ok.bounded (by simp [Txn.Prepared, renews])
  · rename_i updates
    cases stepped
    apply inv.client
    apply ok.restage
    · exact ok.readSet
    · simp [Txn.Renewed, updates]
    · exact List.nil_subperm
    · exact fun _ => False.elim
    · exact False.elim
  · cases stepped
    exact inv.client (ok.quit .again)
  · cases stepped
    exact inv.client (ok.quit .finished)
  · cases stepped
    exact inv.client (ok.quit .finished)
  · cases stepped

/-- Every allowed step keeps the invariant and moves no header word backwards. -/
theorem progress_step (inv : Inv config state) {action : Action Key Value Tid}
    (current : WritesCurrent config state action)
    (stepped : step config state action = some after) : Progress config state after := by
  cases action with
  | begin tid commitId => exact progress_begin inv stepped
  | read tid key => exact progress_read inv stepped
  | readAgain tid => exact progress_readAgain inv stepped
  | write tid key => exact progress_write inv stepped
  | lockCas tid => exact progress_lockCas inv stepped
  | lockRead tid => exact progress_lockRead inv stepped
  | modify tid key data => exact progress_modify inv stepped
  | renewLease tid index => exact progress_renewLease inv stepped
  | renewLeaseWrite tid => exact progress_renewLeaseWrite inv current stepped
  | prepare tid => exact progress_prepare inv current stepped
  | renewRead tid machine => exact progress_renewRead inv stepped
  | renewWrite tid => exact progress_renewWrite inv current stepped
  | vote tid commit => exact progress_vote inv stepped
  | updateVerb tid machine => exact progress_updateVerb inv stepped
  | releaseVerb tid machine => exact progress_releaseVerb inv current stepped
  | resume tid => exact progress_resume inv stepped

end Rocc.Sundial.OneSided
