import Rocc.Sundial.Rpc.Steps

/-!
# Logical time

In a run with current headers no committed transaction writes a record between
the version another one has read and the commit id of that reader.  Sorted by
commit id, equal ids in the order of the decisions, the committed transactions
are then a serial execution.  Without the side condition the header of an updated
record hides the update from a renewal, and both results fail.
-/

set_option linter.unusedSectionVars false

namespace Rocc.Sundial.Rpc

open Rtx

universe u v w

variable {Key : Type u} {Value : Type v} {Tid : Type w}
variable [DecidableEq Key] [DecidableEq Tid]

/-- No committed transaction wrote a record that this one has read with a commit id
after the write timestamp it observed and up to its own commit id. -/
def Undisturbed (state : State Key Value Tid) (tid : Tid) : Prop :=
  ∀ item ∈ (state.txns tid).readSet, ∀ writer, (state.txns writer).Decided →
    (state.txns writer).footprint.writes item.key ≠ none →
    ¬ (item.wts < (state.txns writer).commitId ∧
      (state.txns writer).commitId ≤ (state.txns tid).commitId)

/-- The version a transaction was given for a key. -/
def Txn.seen (txn : Txn Key Value) (key : Key) : Nat :=
  (((txn.readSet ++ txn.writeSet).find? (·.key = key)).map (·.version)).getD 0

variable {config : Config Key Tid} {value : Key → Value} {state : State Key Value Tid}
variable {tid : Tid}

/-! ## Footprints -/

theorem Txn.reads_eq_some {txn : Txn Key Value} {key : Key} {read : Value}
    (found : txn.footprint.reads key = some read) :
    ∃ item, (item ∈ txn.readSet ∨ item ∈ txn.writeSet) ∧ item.key = key ∧
      item.value = read ∧ txn.seen key = item.version := by
  obtain ⟨item, first, same⟩ := Option.map_eq_some_iff.mp found
  refine ⟨item, List.mem_append.mp (List.mem_of_find?_eq_some first), ?_, same, ?_⟩
  · simpa using List.find?_some first
  · simp [Txn.seen, first]

theorem Txn.writes_ne_none {txn : Txn Key Value} {key : Key}
    (written : txn.footprint.writes key ≠ none) :
    ∃ item ∈ txn.writeSet, item.key = key := by
  obtain ⟨data, found⟩ := Option.ne_none_iff_exists'.mp written
  obtain ⟨item, first, -⟩ := Option.map_eq_some_iff.mp found
  exact ⟨item, List.mem_of_find?_eq_some first, by simpa using List.find?_some first⟩

theorem TxnOk.writes_of_mem {records : Key → Node Value}
    {history : Key → List (Nat × Value)} {txn : Txn Key Value}
    (ok : TxnOk config records history tid txn) {item : ReadSetItem Key Value}
    (member : item ∈ txn.writeSet) : txn.footprint.writes item.key = some item.data := by
  have found := find?_of_nodup ok.keys_nodup member
  simp [Txn.footprint, found]

/-! ## Writers of a record -/

/-- A write of a decided transaction is in the history, or the transaction still holds
the record. -/
theorem Inv.write_cases (inv : Inv config value state) {writer : Tid}
    (decided : (state.txns writer).Decided) {item : ReadSetItem Key Value}
    (member : item ∈ (state.txns writer).writeSet) :
    (item ∈ (state.txns writer).holds ∧ HoldOk (state.records item.key)
        (state.history item.key) (config.startTime writer) (state.txns writer).commitId
        item) ∨
      ((state.txns writer).Installed item ∧
        InstallOk (state.history item.key) (state.txns writer).commitId item) := by
  have ok := inv.txnOk writer
  by_cases held : item ∈ (state.txns writer).holds
  · exact .inl ⟨held, ok.holds item held⟩
  · exact .inr ⟨⟨decided, member, held⟩, ok.installed item ⟨decided, member, held⟩⟩

theorem Txn.Decided.renewed {txn : Txn Key Value} (decided : txn.Decided)
    (item : ReadSetItem Key Value) : txn.Renewed item := by
  simp only [Txn.Decided] at decided
  split at decided
  · rename_i pending updates
    simp [Txn.Renewed, updates]
  · rename_i finished
    simp [Txn.Renewed, finished]
  · cases decided

/-- No decided transaction writes between the version read and the commit id of a decided
reader. -/
theorem Inv.write_outside (inv : Inv config value state) (decided : (state.txns tid).Decided)
    {read : ReadSetItem Key Value} (member : read ∈ (state.txns tid).readSet) {writer : Tid}
    (writerDecided : (state.txns writer).Decided) {write : ReadSetItem Key Value}
    (writeMember : write ∈ (state.txns writer).writeSet) (sameKey : write.key = read.key) :
    (state.txns writer).commitId ≤ read.version ∨
      (state.txns tid).commitId < (state.txns writer).commitId := by
  have lease := (inv.txnOk tid).renewed read member (decided.renewed read)
  rcases inv.write_cases writerDecided writeMember with ⟨-, holdOk⟩ | ⟨-, installOk⟩
  · right
    rw [sameKey] at holdOk
    exact (lease.covered.trans holdOk.lease).trans_lt holdOk.after
  · rw [sameKey] at installOk
    exact lease.undisturbed _ installOk.written

theorem Inv.undisturbed (inv : Inv config value state)
    (decided : (state.txns tid).Decided) : Undisturbed state tid := by
  rintro read member writer writerDecided written ⟨after, upTo⟩
  obtain ⟨write, writeMember, sameKey⟩ := Txn.writes_ne_none written
  rw [((inv.txnOk tid).reads read member).observed] at after
  rcases inv.write_outside decided member writerDecided writeMember sameKey with
    before | beyond
  · exact absurd after (not_lt.mpr before)
  · exact absurd upTo (not_le.mpr beyond)

/-- What a writer overwrites is the version before its own. -/
theorem Inv.base_outside (inv : Inv config value state) (decided : (state.txns tid).Decided)
    {base : ReadSetItem Key Value} (member : base ∈ (state.txns tid).writeSet) {writer : Tid}
    (different : writer ≠ tid) (writerDecided : (state.txns writer).Decided)
    {write : ReadSetItem Key Value} (writeMember : write ∈ (state.txns writer).writeSet)
    (sameKey : write.key = base.key) :
    (state.txns writer).commitId ≤ base.version ∨
      (state.txns tid).commitId < (state.txns writer).commitId := by
  rcases inv.write_cases decided member with ⟨held, holdOk⟩ | ⟨isDone, installOk⟩
  · -- A holder excludes other holders, and all versions so far are below its base.
    left
    rcases inv.write_cases writerDecided writeMember with ⟨writeHeld, -⟩ | ⟨-, writeOk⟩
    · exact absurd sameKey
        (inv.unheld (.inr holdOk.locked) writer different write writeHeld)
    · rw [holdOk.current]
      rw [sameKey] at writeOk
      exact inv.newest base.key _ writeOk.written
  · rcases inv.write_cases writerDecided writeMember with ⟨-, writeOk⟩ | ⟨writeDone, writeOk⟩
    · right
      rw [sameKey] at writeOk
      have atMost := inv.newest base.key _ installOk.written
      rw [← writeOk.current] at atMost
      exact (atMost.trans writeOk.covered).trans_lt writeOk.after
    · rw [sameKey] at writeOk
      rcases installOk.between _ writeOk.written with before | after
      · exact .inl before
      · refine .inr (lt_of_le_of_ne after fun same => different ?_)
        exact inv.unique writer tid write base writeDone isDone sameKey same.symm

/-- Base versions of a decided transaction lie below its commit id. -/
theorem Inv.base_lt (inv : Inv config value state) (decided : (state.txns tid).Decided)
    {base : ReadSetItem Key Value} (member : base ∈ (state.txns tid).writeSet) :
    base.version < (state.txns tid).commitId := by
  rcases inv.write_cases decided member with ⟨-, holdOk⟩ | ⟨-, installOk⟩
  · exact holdOk.covered.trans_lt holdOk.after
  · exact installOk.before

/-- The value of an item is that of its version. -/
theorem Inv.source (inv : Inv config value state) {key : Key} {seen : Nat} {read : Value}
    (loaded : (seen, read) ∈ state.history key) :
    (seen = 0 ∧ read = value key) ∨ ∃ writer, (state.txns writer).Decided ∧
      (state.txns writer).commitId = seen ∧
      (state.txns writer).footprint.writes key = some read := by
  rcases inv.written key _ loaded with first | ⟨writer, item, done, rfl, same⟩
  · exact .inl (Prod.mk.inj first)
  · obtain ⟨sameVersion, sameValue⟩ := Prod.mk.inj same
    refine .inr ⟨writer, done.1, sameVersion.symm, ?_⟩
    rw [sameValue]
    exact (inv.txnOk writer).writes_of_mem done.2.1

/-! ## The serial order -/

/-- Decisions that respect the versions read before them. -/
def State.Respects (state : State Key Value Tid) (earlier later : Tid) : Prop :=
  ∀ read ∈ (state.txns earlier).readSet, ∀ write ∈ (state.txns later).writeSet,
    read.key = write.key → read.version < (state.txns later).commitId

/-- What is known of a read of a decided transaction: its version, and that other
writers stay out of the interval up to the commit id. -/
structure SeenOk (state : State Key Value Tid) (tid : Tid) (key : Key) (read : Value) :
    Prop where
  loaded : ((state.txns tid).seen key, read) ∈ state.history key
  before : (state.txns tid).seen key ≤ (state.txns tid).commitId
  outside : ∀ writer, writer ≠ tid → (state.txns writer).Decided →
    ∀ write ∈ (state.txns writer).writeSet, write.key = key →
      (state.txns writer).commitId ≤ (state.txns tid).seen key ∨
        (state.txns tid).commitId < (state.txns writer).commitId
  respected : ∀ writer, state.Respects tid writer →
    (state.txns tid).commitId ≤ (state.txns writer).commitId →
    ∀ write ∈ (state.txns writer).writeSet, write.key = key →
      (state.txns tid).seen key < (state.txns writer).commitId

theorem Inv.seenOk (inv : Inv config value state) (decided : (state.txns tid).Decided)
    {key : Key} {read : Value} (found : (state.txns tid).footprint.reads key = some read) :
    SeenOk state tid key read := by
  obtain ⟨item, member, rfl, rfl, version⟩ := Txn.reads_eq_some found
  constructor <;> rw [version]
  all_goals rcases member with member | member
  · exact ((inv.txnOk tid).reads item member).loaded
  · rcases inv.write_cases decided member with ⟨-, holdOk⟩ | ⟨-, installOk⟩
    · exact holdOk.loaded
    · exact installOk.loaded
  · exact ((inv.txnOk tid).reads item member).before
  · exact (inv.base_lt decided member).le
  · intro writer _ writerDecided write writeMember sameKey
    exact inv.write_outside decided member writerDecided writeMember sameKey
  · intro writer different writerDecided write writeMember sameKey
    exact inv.base_outside decided member different writerDecided writeMember sameKey
  · intro writer respects _ write writeMember sameKey
    exact respects item member write writeMember sameKey.symm
  · intro writer _ ordered write writeMember sameKey
    exact (inv.base_lt decided member).trans_le ordered

section Order

variable {order : List Tid} (inv : Inv config value state)
variable (members : ∀ tid, tid ∈ order ↔ (state.txns tid).Decided)
variable (distinct : order.Nodup)
variable (sorted : order.Pairwise
  (Before (fun tid => (state.txns tid).commitId) state.Respects))

include inv members distinct sorted

/-- Commit ids certify the serial order. -/
theorem Inv.versionOrder :
    VersionOrder value (fun tid => (state.txns tid).footprint)
      (fun tid _ => (state.txns tid).commitId) (fun tid => (state.txns tid).seen)
      order where
  writeWrite := by
    refine (sorted.and distinct).imp_of_mem fun {earlier later} earlierMember laterMember
      both key wrote writes => ?_
    obtain ⟨old, oldMember, oldKey⟩ := Txn.writes_ne_none wrote
    obtain ⟨new, newMember, rfl⟩ := Txn.writes_ne_none writes
    rcases inv.base_outside ((members later).mp laterMember) newMember both.2
        ((members earlier).mp earlierMember) oldMember oldKey with before | beyond
    · exact before.trans_lt (inv.base_lt ((members later).mp laterMember) newMember)
    · exact absurd both.1.le (not_le.mpr beyond)
  writeRead := by
    refine (sorted.and distinct).imp_of_mem fun {earlier later} earlierMember laterMember
      both key wrote reads => ?_
    obtain ⟨old, oldMember, oldKey⟩ := Txn.writes_ne_none wrote
    obtain ⟨read, found⟩ := Option.ne_none_iff_exists'.mp reads
    have seen := inv.seenOk ((members later).mp laterMember) found
    rcases seen.outside earlier both.2 ((members earlier).mp earlierMember) old oldMember
        oldKey with before | beyond
    · exact before
    · exact absurd both.1.le (not_le.mpr beyond)
  readWrite := by
    refine sorted.imp_of_mem fun {earlier later} earlierMember laterMember before key reads
      writes => ?_
    obtain ⟨read, found⟩ := Option.ne_none_iff_exists'.mp reads
    obtain ⟨new, newMember, newKey⟩ := Txn.writes_ne_none writes
    have seen := inv.seenOk ((members earlier).mp earlierMember) found
    rcases before with less | ⟨same, respects⟩
    · exact seen.before.trans_lt less
    · exact seen.respected later respects same.le new newMember newKey
  origin := by
    intro reader member key read found
    have decided := (members reader).mp member
    have seen := inv.seenOk decided found
    rcases inv.source seen.loaded with ⟨first, initial⟩ | ⟨writer, writerDecided, same, written⟩
    · refine .inl ⟨initial, ?_⟩
      intro writer writerMember different wrote
      obtain ⟨write, writeMember, -⟩ := Txn.writes_ne_none wrote
      rw [first]
      exact (Nat.zero_le _).trans_lt
        (inv.base_lt ((members writer).mp writerMember) writeMember)
    · refine .inr ⟨writer, (members writer).mpr writerDecided, ?_, written, same⟩
      rintro rfl
      -- A transaction does not read its own version: its bases lie below it and its
      -- reads are of other records.
      obtain ⟨item, itemMember, itemKey, -, version⟩ := Txn.reads_eq_some found
      obtain ⟨write, writeMember, writeKey⟩ := Txn.writes_ne_none
        (Option.ne_none_iff_exists'.mpr ⟨read, written⟩)
      rcases itemMember with itemMember | itemMember
      · exact (inv.txnOk writer).disjoint decided item itemMember write writeMember
          (itemKey.trans writeKey.symm)
      · have below := inv.base_lt decided itemMember
        rw [same, version] at below
        exact lt_irrefl _ below

/-- An unlocked record holds what the serial execution leaves. -/
theorem Inv.replay_eq {key : Key} (free : (state.records key).lock = 0) :
    replay value (order.map fun tid => (state.txns tid).footprint) key =
      (state.records key).value := by
  have bounded : ∀ writer ∈ order, (state.txns writer).footprint.writes key ≠ none →
      0 < (state.txns writer).commitId ∧
        (state.txns writer).commitId ≤ version (state.records key) := by
    intro writer member wrote
    obtain ⟨write, writeMember, rfl⟩ := Txn.writes_ne_none wrote
    have decided := (members writer).mp member
    refine ⟨(Nat.zero_le _).trans_lt (inv.base_lt decided writeMember), ?_⟩
    rcases inv.write_cases decided writeMember with ⟨held, -⟩ | ⟨-, installOk⟩
    · exact absurd rfl (inv.unheld_of_free free writer write held)
    · exact inv.newest write.key _ installOk.written
  rcases inv.source (inv.current key) with ⟨first, initial⟩ | ⟨writer, decided, same, written⟩
  · rw [initial]
    apply replay_of_not_writes
    intro image imageMember
    obtain ⟨writer, member, rfl⟩ := List.mem_map.mp imageMember
    by_contra wrote
    have bounds := bounded writer member wrote
    omega
  · apply replay_of_latest (fun tid _ => (state.txns tid).commitId) _
      ((members writer).mpr decided) written
    · intro other member wrote
      rw [same]
      exact (bounded other member wrote).2
    · exact (inv.versionOrder members distinct sorted).writeWrite.imp fun grows => grows key

end Order

/-- In every run with current headers committed transactions are undisturbed, and sorted
by commit id, with ties in the order of the decisions, they are a serial execution that
leaves the value of every unlocked record. -/
theorem leases_serializable (config : Config Key Tid) (value : Key → Value)
    (state : State Key Value Tid)
    (reach : Reach (step config) (HeadersCurrent config) (State.initial value) state) :
    (∀ tid, (state.txns tid).Decided → Undisturbed state tid) ∧
    ∃ order : List Tid, order.Nodup ∧
      (∀ tid, tid ∈ order ↔ (state.txns tid).Decided) ∧
      (order.Pairwise fun earlier later =>
        (state.txns earlier).commitId ≤ (state.txns later).commitId) ∧
      Serial value (order.map fun tid => (state.txns tid).footprint) ∧
      ∀ key, (state.records key).lock = 0 →
        replay value (order.map fun tid => (state.txns tid).footprint) key =
          (state.records key).value := by
  have inv := inv_of_reach reach
  obtain ⟨order, permuted, sorted⟩ : ∃ order : List Tid, order.Perm state.commits ∧
      order.Pairwise (Before (fun tid => (state.txns tid).commitId) state.Respects) :=
    exists_sorted _ inv.ordered
  have members : ∀ tid, tid ∈ order ↔ (state.txns tid).Decided := fun tid =>
    permuted.mem_iff.trans (inv.mem_commits tid)
  have distinct : order.Nodup := permuted.nodup_iff.mpr inv.commits_nodup
  exact ⟨fun tid decided => inv.undisturbed decided, order, distinct, members,
    sorted.imp fun before => before.le, (inv.versionOrder members distinct sorted).serial,
    fun key free => inv.replay_eq members distinct sorted free⟩

/-- Transaction 0 waits for record 0 and overwrites what transaction 1 wrote there. -/
def overwriteRun : List (Action Nat Nat (Fin 2)) :=
  [.begin 0 0, .begin 1 0, .write 1 0, .write 1 1, .read 0 2, .write 0 0,
    .modify 1 0 7, .prepare 1, .resume 1, .vote 1 true, .updateItem 1 0, .notify 0,
    .modify 0 0 8, .prepare 0, .renewItem 0 2, .resume 0, .updateItem 1 1, .vote 0 true,
    .updateItem 0 0, .resume 0, .resume 1]

theorem leases_serializable_overwritten :
    ∃ state : State Nat Nat (Fin 2),
      (((state.txns 0).Committed ∧ (state.txns 1).Committed) ∧
        (state.records 0).value = 8 ∧ (state.txns 0).readSet.map (·.key) = [2]) ∧
      (∀ tid, (state.txns tid).Decided → Undisturbed state tid) ∧
      ∃ order : List (Fin 2), (∀ tid, tid ∈ order ↔ (state.txns tid).Decided) ∧
        Serial (fun _ => 5) (order.map fun tid => (state.txns tid).footprint) := by
  have reached : ∃ state : State Nat Nat (Fin 2),
      Reach (step pairConfig) (HeadersCurrent pairConfig) (State.initial fun _ => 5) state ∧
        ((state.txns 0).Committed ∧ (state.txns 1).Committed) ∧
        (state.records 0).value = 8 ∧ (state.txns 0).readSet.map (·.key) = [2] :=
    Reach.exists_of_exec overwriteRun (by decide +kernel)
  obtain ⟨state, reach, observed⟩ := reached
  obtain ⟨undisturbed, order, -, members, -, serial, -⟩ :=
    leases_serializable pairConfig (fun _ => 5) state reach
  exact ⟨state, observed, undisturbed, order, members, serial⟩

/-- Transaction 1 reads record 1 and updates record 0 with commit id 1; transaction 0 has
read record 0 before, updates record 1 with commit id 2 and renews its lease after the
update, whose header still shows the write timestamp 0. -/
def skewRun : List (Action Nat Nat (Fin 2)) :=
  [.begin 0 0, .begin 1 0, .read 1 1, .write 1 0, .modify 1 0 7, .prepare 1,
    .renewItem 1 1, .resume 1, .read 0 0, .write 0 1, .modify 0 1 8, .vote 1 true,
    .updateItem 1 0, .resume 1, .prepare 0, .renewItem 0 0, .resume 0, .vote 0 true,
    .updateItem 0 1, .resume 0]

/-- Both transactions commit although the second one wrote between the version the first
one read and its commit id, and neither order of them is serial. -/
theorem stale_header_disturbs :
    ∃ state : State Nat Nat (Fin 2),
      Reachable (step pairConfig) (State.initial fun _ => 5) state ∧
      ((state.txns 0).Committed ∧ (state.txns 1).Committed) ∧ ¬ Undisturbed state 0 ∧
      ¬ Serial (fun _ => 5) [(state.txns 0).footprint, (state.txns 1).footprint] ∧
      ¬ Serial (fun _ => 5) [(state.txns 1).footprint, (state.txns 0).footprint] := by
  have reached : ∃ state : State Nat Nat (Fin 2),
      Reachable (step pairConfig) (State.initial fun _ => 5) state ∧
        ((state.txns 0).Committed ∧ (state.txns 1).Committed) ∧
        (state.txns 0).readSet.map (fun item => (item.key, item.wts)) = [(0, 0)] ∧
        ((state.txns 0).commitId = 2 ∧ (state.txns 1).commitId = 1) ∧
        ((state.txns 0).footprint.reads 0 = some 5 ∧
          (state.txns 0).footprint.writes 1 = some 8) ∧
        (state.txns 1).footprint.reads 1 = some 5 ∧
        (state.txns 1).footprint.writes 0 = some 7 :=
    Reach.exists_of_exec skewRun (by decide +kernel)
  obtain ⟨state, reach, committed, observed, ids, first, second⟩ := reached
  refine ⟨state, reach, committed, ?_, ?_, ?_⟩
  · intro undisturbed
    obtain ⟨item, member, same⟩ := List.mem_map.mp
      (observed ▸ List.mem_singleton.mpr rfl :
        (0, 0) ∈ (state.txns 0).readSet.map fun item => (item.key, item.wts))
    obtain ⟨itemKey, itemWts⟩ := Prod.mk.inj same
    have decided : (state.txns 1).Decided := by
      have finished : (state.txns 1).stage = .finished true := committed.2
      simp [Txn.Decided, finished]
    apply undisturbed item member 1 decided
    · rw [itemKey, second.2]
      simp
    · omega
  · rintro ⟨-, serial, -⟩
    have seen := serial 1 5 second.1
    rw [Footprint.apply_of_writes first.2] at seen
    cases seen
  · rintro ⟨-, serial, -⟩
    have seen := serial 0 5 first.1
    rw [Footprint.apply_of_writes second.2] at seen
    cases seen

end Rocc.Sundial.Rpc
