import Rocc.Db.Rad.Model

/-!
# Snapshots are stable

`Safe` is the fact behind a finished read: the record is already newer than the
snapshot, or its `read_ts` has reached the snapshot and whoever has the lock has
collected that.  It survives every step, and a commit of a safe record gets a timestamp
above the snapshot.
-/

set_option linter.unusedSectionVars false

namespace Rocc.Db.Rad

open Rtx

universe u v w x

variable {Key : Type u} {Value : Type v} {Tid : Type w} {Rid : Type x}

/-! ## The invariant -/

/-- The transaction will commit the record above `time`, or has collected `time` for it
if its timestamp is still open. -/
def Collected (config : Config Key Tid) (tid : Tid) (txn : Txn Key Value Extra) (key : Key)
    (time : Nat) : Prop :=
  (txn.Decided → time < txn.extra.timestamp) ∧
    (¬ txn.Decided →
      if config.IsLocal tid key then time ≤ txn.extra.lockedTs
      else time ≤ txn.extra.replies (config.pid key))

/-- Every commit of the record from now on is above `time`. -/
def Safe (config : Config Key Tid) (base : Db.State Key Value Tid Extra) (key : Key)
    (time : Nat) : Prop :=
  time ≤ (base.nodes key).seq ∨
    time ≤ (base.nodes key).readTs ∧
      ∀ tid, key ∈ (base.txns tid).taken.map (·.key) → (base.txns tid).Sure →
        Collected config tid (base.txns tid) key time

/-- A reader that is past its wait is safe.  Before that its snapshot is published, and
the record has not changed or the reader is already safe. -/
def ReaderOk (config : Config Key Tid) (base : Db.State Key Value Tid Extra) :
    ReadStage Key → Prop
  | .idle => True
  | .publish _ _ => True
  | .loadSeq key version => version ≤ (base.nodes key).readTs
  | .checkLock key version seq | .pollSeq key version seq | .pollLock key version seq =>
      version ≤ (base.nodes key).readTs ∧
        ((base.nodes key).seq = seq ∨ Safe config base key version)
  | .search key version => Safe config base key version

/-- A decided transaction commits its remote records above their sequence numbers. -/
def TimeOk (config : Config Key Tid) (tid : Tid) (txn : Txn Key Value Extra) : Prop :=
  txn.Decided → txn.extra.maxTime = txn.extra.timestamp ∧
    ∀ seen ∈ txn.taken, ¬ config.IsLocal tid seen.key → seen.seq < txn.extra.timestamp

/-- The invariant of every orderly run. -/
structure RadInv (config : Config Key Tid) (state : State Key Value Tid Rid) : Prop where
  base : Inv config state.base
  times : ∀ tid, TimeOk config tid (state.base.txns tid)
  readers : ∀ rid, ReaderOk config state.base (state.readers rid)
  safe : ∀ read ∈ state.reads, Safe config state.base read.key read.snapshot
  position : ∀ read ∈ state.reads, read.position ≤ state.base.commits.length
  above : ∀ read ∈ state.reads, ∀ commit ∈ state.base.commits.drop read.position,
    commit.key = read.key → read.snapshot < commit.after
  grows : ∀ commit ∈ state.base.commits, commit.before < commit.after

/-! ## Collected timestamps -/

theorem le_foldl_max (times : List Nat) (start : Nat) : start ≤ times.foldl max start := by
  induction times generalizing start with
  | nil => exact le_rfl
  | cons time rest ih => exact (le_max_left start time).trans (ih _)

theorem le_foldl_max_of_mem {times : List Nat} {time : Nat} (member : time ∈ times)
    (start : Nat) : time ≤ times.foldl max start := by
  induction times generalizing start with
  | nil => cases member
  | cons head rest ih =>
      rcases List.mem_cons.mp member with rfl | member
      · exact (le_max_right start time).trans (le_foldl_max rest _)
      · exact ih member _

/-- The timestamp fixed after the last lock. -/
theorem Exceeds.lt_timestamp {txn : Txn Key Value Extra} {time : Nat}
    (exceeds : Exceeds txn time) (fits : txn.extra.tentative + 1 < wordBound) :
    time < ((dbrad : TxHandler Key Value Extra).lockedAll txn.extra txn.remoteset).timestamp := by
  simp only [dbrad]
  rw [Nat.mod_eq_of_lt fits]
  rcases exceeds with collected | ⟨item, member, larger⟩
  · exact (Nat.lt_succ_of_le collected).trans_le (le_foldl_max _ _)
  · have image : item.seen.seq ∈ txn.remoteset.map (·.seen.seq) :=
      List.mem_map.mpr ⟨item, member, rfl⟩
    exact larger.trans_le (le_foldl_max_of_mem image _)

theorem Collected.of_same {config : Config Key Tid} {tid : Tid}
    {before after : Txn Key Value Extra} {key : Key} {time : Nat}
    (collected : Collected config tid before key time)
    (decided : after.Decided ↔ before.Decided)
    (timestamp : after.extra.timestamp = before.extra.timestamp)
    (lockedTs : before.extra.lockedTs ≤ after.extra.lockedTs)
    (replies : ∀ partition, before.extra.replies partition ≤ after.extra.replies partition) :
    Collected config tid after key time := by
  constructor
  · intro isDecided
    rw [timestamp]
    exact collected.1 (decided.mp isDecided)
  · intro open_
    have old := collected.2 fun isDecided => open_ (decided.mpr isDecided)
    split_ifs at old ⊢
    · exact old.trans lockedTs
    · exact old.trans (replies _)

/-! ## What a step of a writer does to readers -/

section Writers

variable [DecidableEq Key] [DecidableEq Tid]
variable {config : Config Key Tid} {before after : Db.State Key Value Tid Extra}
variable {tid : Tid} {next : Option (Seen Key)} {key : Key} {time : Nat}

/-- What `Orderly` says about the transaction that fixes its timestamp. -/
def Fixes (config : Config Key Tid) (txn : Txn Key Value Extra) : Prop :=
  ∀ walked, txn.stage = .lockAllSet walked [] →
    txn.extra.tentative + 1 < wordBound ∧
      ∀ item ∈ txn.remoteWrites, Exceeds txn item.seen.seq ∧
        Exceeds txn (txn.extra.replies (config.pid item.seen.key))

/-- A remote record locked at the end of `LockAllSet` is one of the remote writes. -/
theorem remote_write_of_taken {txn : Txn Key Value Extra} {nodes : Key → MemNode Value}
    (ok : TxnOk config nodes tid txn) {walked : List (WriteSetItem Key Value)}
    (stage : txn.stage = .lockAllSet walked []) {seen : Seen Key} (member : seen ∈ txn.taken)
    (remote : ¬ config.IsLocal tid seen.key) :
    ∃ item ∈ txn.remoteWrites, item.seen = seen := by
  have own := ok.own
  rw [Txn.Own, stage] at own
  obtain ⟨perm, walk⟩ := own
  rcases List.mem_append.mp (perm.mem_iff.mp member) with member | member
  · exact List.mem_map.mp member
  · obtain ⟨item, itemMember, rfl⟩ := List.mem_map.mp member
    have written : item ∈ txn.rwset := by
      rw [List.filter_nil, List.append_nil] at walk
      rw [walk] at itemMember
      exact List.mem_of_mem_filter itemMember
    exact absurd (ok.locals item written) remote

/-- A sure transaction that takes no lock keeps what it has collected. -/
theorem Collected.calm (inv : Inv config before) {txn : Txn Key Value Extra}
    (fixes : Fixes config (before.txns tid))
    (calm : Calm (dbrad : TxHandler Key Value Extra) (before.txns tid) txn)
    (held : key ∈ (before.txns tid).taken.map (·.key))
    (collected : Collected config tid (before.txns tid) key time) :
    Collected config tid txn key time := by
  rcases calm with ⟨extra, decided⟩ | ⟨undecided, still, servers, extra⟩ |
    ⟨undecided, decided, ⟨walked, stage⟩, extra⟩
  · exact collected.of_same decided (by rw [extra]) (by rw [extra]) (by simp [extra])
  · exact collected.of_same (iff_of_false still undecided) (by rw [extra]; rfl)
      (by rw [extra]; exact le_rfl) (by rw [extra]; exact fun _ => le_rfl)
  · -- the timestamp is fixed here: above what was collected locally and remotely
    obtain ⟨fits, writes⟩ := fixes walked stage
    refine ⟨fun _ => ?_, fun open_ => absurd decided open_⟩
    rw [extra]
    have old := collected.2 undecided
    split_ifs at old with isLocal
    · exact Exceeds.lt_timestamp (.inl (old.trans (le_max_right _ _))) fits
    · obtain ⟨seen, member, rfl⟩ := List.mem_map.mp held
      obtain ⟨item, itemMember, rfl⟩ :=
        remote_write_of_taken (inv.txnOk tid) stage member isLocal
      exact old.trans_lt ((writes item itemMember).2.lt_timestamp fits)

/-- A record nobody has locked is safe once its `read_ts` has reached the snapshot. -/
theorem safe_of_free (inv : Inv config before) (free : (before.nodes key).lock = 0)
    (published : time ≤ (before.nodes key).readTs) : Safe config before key time :=
  .inr ⟨published, fun _ held _ =>
    absurd held (inv.holding.not_mem_of_free config.words.ne_zero free)⟩

/-- Writers leave `read_ts` alone. -/
theorem effect_readTs
    (effect : Effect config (dbrad : TxHandler Key Value Extra) before tid next after)
    (key : Key) : (after.nodes key).readTs = (before.nodes key).readTs := by
  cases effect with
  | frame txn ok taken seen calm => rfl
  | lock seen txn free ok taken items member undecided grown =>
      rcases eq_or_ne key seen.key with rfl | different <;>
        simp [State.setTxn, State.setNode, *]
  | unlock key' txn mine ok taken items unsure =>
      rcases eq_or_ne key key' with rfl | different <;>
        simp [Db.State.setTxn, Db.State.setNode, *]
  | commit seen version value seq txn chosen mine member sure decided stored ok taken items
      extra =>
      rcases eq_or_ne key seen.key with rfl | different <;>
        simp [Db.State.setTxn, Db.State.setNode, Db.State.commit, MemNode.install, *]

/-- A commit stores the timestamp of its transaction, which is above the old sequence
number. -/
theorem commit_timestamp (inv : Inv config before) (times : TimeOk config tid (before.txns tid))
    {seen : Seen Key} {seq : Nat} (mine : seen ∈ (before.txns tid).taken)
    (sure : (before.txns tid).Sure) (decided : (before.txns tid).Decided)
    (stored : if config.IsLocal tid seen.key then
        (dbrad : TxHandler Key Value Extra).commitLocalWrite (before.txns tid).extra seen.seq
          (before.nodes seen.key) = some seq
      else
        (dbrad : TxHandler Key Value Extra).commitRpcHandler (before.txns tid).extra
          (before.nodes seen.key) = some seq) :
    seq = (before.txns tid).extra.timestamp ∧ (before.nodes seen.key).seq < seq := by
  have current := (inv.txnOk tid).secured sure seen mine
  obtain ⟨same, larger⟩ := times decided
  rw [current]
  split_ifs at stored with isLocal
  · simp only [dbrad, Option.ite_none_right_eq_some, Option.some.injEq] at stored
    exact ⟨stored.2.symm, stored.2 ▸ stored.1⟩
  · simp only [dbrad, Option.ite_none_right_eq_some, Option.some.injEq] at stored
    rw [← stored.2, same]
    exact ⟨rfl, larger seen mine isLocal⟩

/-- A commit of a safe record is above the snapshot. -/
theorem Safe.lt_commit {seen : Seen Key} {seq : Nat} (safe : Safe config before seen.key time)
    (mine : seen ∈ (before.txns tid).taken) (sure : (before.txns tid).Sure)
    (decided : (before.txns tid).Decided)
    (stored : seq = (before.txns tid).extra.timestamp ∧ (before.nodes seen.key).seq < seq) :
    time < seq := by
  rcases safe with newer | ⟨-, holders⟩
  · exact newer.trans_lt stored.2
  · rw [stored.1]
    exact (holders tid (List.mem_map_of_mem mine) sure).1 decided

/-- The mover has to have collected the snapshot for its locks; the others have. -/
theorem Safe.move {txn : Txn Key Value Extra} (safe : Safe config before key time)
    (txns : after.txns = Function.update before.txns tid txn)
    (sameSeq : (after.nodes key).seq = (before.nodes key).seq)
    (sameTs : (after.nodes key).readTs = (before.nodes key).readTs)
    (mover : time ≤ (before.nodes key).readTs →
      (key ∈ (before.txns tid).taken.map (·.key) → (before.txns tid).Sure →
        Collected config tid (before.txns tid) key time) →
      key ∈ txn.taken.map (·.key) → txn.Sure → Collected config tid txn key time) :
    Safe config after key time := by
  rcases safe with newer | ⟨published, holders⟩
  · left
    rw [sameSeq]
    exact newer
  · right
    rw [sameTs]
    refine ⟨published, fun other => ?_⟩
    rw [txns]
    rcases eq_or_ne other tid with rfl | different
    · rw [Function.update_self]
      exact mover published (holders other)
    · rw [Function.update_of_ne different]
      exact holders other

/-- A safe record stays safe. -/
theorem Safe.effect (inv : Inv config before)
    (effect : Effect config (dbrad : TxHandler Key Value Extra) before tid next after)
    (fixes : Fixes config (before.txns tid)) (times : TimeOk config tid (before.txns tid))
    (safe : Safe config before key time) : Safe config after key time := by
  have invAfter := effect.inv inv
  have sameTs := effect_readTs effect key
  cases effect with
  | frame txn ok taken seen calm =>
      refine safe.move rfl rfl rfl fun _ old held sure => ?_
      rcases calm sure with ⟨nothing, -⟩ | ⟨wasSure, calm⟩
      · simp [nothing] at held
      · rw [taken] at held
        exact (old held wasSure).calm inv fixes calm held
  | lock seen txn free ok taken items member undecided grown =>
      refine safe.move rfl ?_ sameTs fun published old held sure => ?_
      · rcases eq_or_ne key seen.key with rfl | different <;>
          simp [Db.State.setTxn, Db.State.setNode, *]
      obtain ⟨wasSure, extra⟩ := grown sure
      rw [taken, List.map_append, List.mem_append] at held
      rcases held with held | held
      · -- what was collected for other locks only grows
        have collected := old held wasSure
        have decided := iff_of_false undecided.2 undecided.1
        split_ifs at extra
        · exact collected.of_same decided (by rw [extra]; rfl)
            (by rw [extra]; exact le_max_right _ _) (by rw [extra]; exact fun _ => le_rfl)
        · refine collected.of_same decided (by rw [extra]; rfl) (by rw [extra]; exact le_rfl) ?_
          intro partition
          rw [extra]
          dsimp only [dbrad]
          rcases eq_or_ne partition (config.pid seen.key) with rfl | different
          · rw [Function.update_self]
            exact le_max_left _ _
          · rw [Function.update_of_ne different]
      · -- the lock is taken after the snapshot was published
        have same : key = seen.key := by simpa using held
        subst same
        refine ⟨fun decided => absurd decided undecided.2, fun _ => ?_⟩
        split_ifs at extra ⊢
        · rw [extra]
          exact published.trans (le_max_left _ _)
        · rw [extra]
          dsimp only [dbrad]
          rw [Function.update_self]
          exact published.trans (le_max_right _ _)
  | unlock key' txn mine ok taken items unsure =>
      refine safe.move rfl ?_ sameTs fun _ _ _ sure => absurd sure unsure
      rcases eq_or_ne key key' with rfl | different <;>
        simp [Db.State.setTxn, Db.State.setNode, *]
  | commit seen version value seq txn chosen mine member sure decided stored ok taken items
      extra =>
      have timestamp := commit_timestamp inv times mine sure decided.1 stored
      rcases eq_or_ne key seen.key with rfl | different
      · rcases safe with newer | ⟨published, -⟩
        · left
          simp only [Db.State.setTxn, Db.State.commit, Db.State.setNode, MemNode.install,
            Function.update_self]
          omega
        · apply safe_of_free invAfter
          · simp [Db.State.setTxn, Db.State.commit, Db.State.setNode, MemNode.install]
          · rw [sameTs]
            exact published
      · refine safe.move rfl ?_ sameTs fun _ old held _ => ?_
        · simp [Db.State.setTxn, Db.State.commit, Db.State.setNode, different]
        · have stillHeld : key ∈ (before.txns tid).taken.map (·.key) := by
            obtain ⟨other, otherMember, rfl⟩ := List.mem_map.mp held
            rw [taken] at otherMember
            exact List.mem_map_of_mem (List.mem_of_mem_filter otherMember)
          exact (old stillHeld sure).of_same (iff_of_true decided.2 decided.1) (by rw [extra])
            (by rw [extra]) (by simp [extra])

/-- A decided transaction stays above its remote records. -/
theorem TimeOk.effect (inv : Inv config before)
    (effect : Effect config (dbrad : TxHandler Key Value Extra) before tid next after)
    (fixes : Fixes config (before.txns tid))
    (times : ∀ other, TimeOk config other (before.txns other)) (other : Tid) :
    TimeOk config other (after.txns other) := by
  rcases eq_or_ne other tid with rfl | different
  swap
  · have same : after.txns other = before.txns other := by
      cases effect <;> exact Function.update_of_ne different _ _
    rw [same]
    exact times other
  · cases effect with
    | frame txn ok taken seen calm =>
        simp only [Db.State.setTxn, Function.update_self]
        intro decided
        have sure : txn.Sure := by
          cases stage : txn.stage <;> simp_all [Txn.Decided, Txn.Sure]
        rcases calm sure with ⟨-, undecided⟩ | ⟨-, calm⟩
        · exact absurd decided undecided
        rcases calm with ⟨extra, same⟩ | ⟨-, undecided, -⟩ | ⟨-, -, ⟨walked, stage⟩, extra⟩
        · rw [extra, taken]
          exact times other (same.mp decided)
        · exact absurd decided undecided
        · rw [extra, taken]
          refine ⟨rfl, fun seen member remote => ?_⟩
          obtain ⟨item, itemMember, rfl⟩ :=
            remote_write_of_taken (inv.txnOk other) stage member remote
          obtain ⟨fits, writes⟩ := fixes walked stage
          exact (writes item itemMember).1.lt_timestamp fits
    | lock seen txn free ok taken items member undecided grown =>
        simp only [Db.State.setTxn, Function.update_self]
        exact fun decided => absurd decided undecided.2
    | unlock key txn mine ok taken items unsure =>
        simp only [Db.State.setTxn, Function.update_self]
        intro decided
        refine absurd ?_ unsure
        cases stage : txn.stage <;> simp_all [Txn.Decided, Txn.Sure]
    | commit seen version value seq txn chosen mine member sure decided stored ok taken items
        extra =>
        simp only [Db.State.setTxn, Function.update_self]
        intro _
        obtain ⟨same, larger⟩ := times other decided.1
        rw [extra, taken]
        exact ⟨same, fun seen member => larger seen (List.mem_of_mem_filter member)⟩

/-- A step of a writer commits nothing, or one record, which it leaves unlocked and above
every snapshot the record is safe for. -/
theorem effect_commits (inv : Inv config before)
    (effect : Effect config (dbrad : TxHandler Key Value Extra) before tid next after)
    (times : TimeOk config tid (before.txns tid)) :
    after.commits = before.commits ∧ (∀ key, (after.nodes key).seq = (before.nodes key).seq) ∨
      ∃ commit, after.commits = before.commits ++ [commit] ∧
        commit.before < commit.after ∧
        (∀ time, Safe config before commit.key time → time < commit.after) ∧
        (after.nodes commit.key).lock = 0 ∧
        ∀ key, key ≠ commit.key → (after.nodes key).seq = (before.nodes key).seq := by
  cases effect with
  | frame txn ok taken seen calm => exact .inl ⟨rfl, fun _ => rfl⟩
  | lock seen txn free ok taken items member undecided grown =>
      refine .inl ⟨rfl, fun key => ?_⟩
      rcases eq_or_ne key seen.key with rfl | different <;>
        simp [Db.State.setTxn, Db.State.setNode, *]
  | unlock key' txn mine ok taken items unsure =>
      refine .inl ⟨rfl, fun key => ?_⟩
      rcases eq_or_ne key key' with rfl | different <;>
        simp [Db.State.setTxn, Db.State.setNode, *]
  | commit seen version value seq txn chosen mine member sure decided stored ok taken items
      extra =>
      have timestamp := commit_timestamp inv times mine sure decided.1 stored
      refine .inr ⟨_, rfl, ?_, ?_, ?_, ?_⟩
      · exact timestamp.2
      · intro time safe
        exact safe.lt_commit mine sure decided.1 timestamp
      · simp [Db.State.setTxn, Db.State.commit, Db.State.setNode, MemNode.install]
      · intro key different
        simp only at different
        simp [Db.State.setTxn, Db.State.commit, Db.State.setNode, different]

theorem ReaderOk.effect (inv : Inv config before)
    (effect : Effect config (dbrad : TxHandler Key Value Extra) before tid next after)
    (fixes : Fixes config (before.txns tid)) (times : TimeOk config tid (before.txns tid))
    {stage : ReadStage Key} (ok : ReaderOk config before stage) :
    ReaderOk config after stage := by
  have sameTs := effect_readTs effect
  have waiting : ∀ key version seq, version ≤ (before.nodes key).readTs ∧
      ((before.nodes key).seq = seq ∨ Safe config before key version) →
      version ≤ (after.nodes key).readTs ∧
        ((after.nodes key).seq = seq ∨ Safe config after key version) := by
    rintro key version seq ⟨published, unchanged | safe⟩
    · rw [sameTs]
      refine ⟨published, ?_⟩
      rcases effect_commits inv effect times with ⟨-, sameSeq⟩ | ⟨commit, -, -, -, free, sameSeq⟩
      · exact .inl ((sameSeq key).trans unchanged)
      · rcases eq_or_ne key commit.key with rfl | different
        · exact .inr (safe_of_free (effect.inv inv) free (by rw [sameTs]; exact published))
        · exact .inl ((sameSeq key different).trans unchanged)
    · rw [sameTs]
      exact ⟨published, .inr (safe.effect inv effect fixes times)⟩
  cases stage with
  | idle => trivial
  | publish key version => trivial
  | loadSeq key version =>
      simp only [ReaderOk] at ok ⊢
      rw [sameTs]
      exact ok
  | checkLock key version seq => exact waiting key version seq ok
  | pollSeq key version seq => exact waiting key version seq ok
  | pollLock key version seq => exact waiting key version seq ok
  | search key version => exact Safe.effect inv effect fixes times ok

end Writers

/-! ## Runs -/

section Runs

variable [DecidableEq Key] [DecidableEq Value] [DecidableEq Tid] [DecidableEq Rid]
variable {config : Config Key Tid} {before after : State Key Value Tid Rid}

/-- A step of a writer keeps the invariant. -/
theorem RadInv.txn (inv : RadInv config before) {action : Db.Action Key Value Tid}
    {base : Db.State Key Value Tid Extra} (orderly : Orderly config before (.txn action))
    (effect : Effect config (dbrad : TxHandler Key Value Extra) before.base action.caller
      (nextCommit config before.base action) base) :
    RadInv config { before with base } := by
  have fixes : Fixes config (before.base.txns action.caller) := by
    intro walked stage
    simpa only [Orderly, stage] using orderly
  have times := inv.times action.caller
  constructor
  · exact effect.inv inv.base
  · exact TimeOk.effect inv.base effect fixes inv.times
  · exact fun rid => (inv.readers rid).effect inv.base effect fixes times
  · exact fun read member => (inv.safe read member).effect inv.base effect fixes times
  all_goals
    rcases effect_commits inv.base effect times with
      ⟨same, -⟩ | ⟨commit, added, grew, above, -, -⟩
  · rw [same]
    exact inv.position
  · intro read member
    have bound := inv.position read member
    simp only [added, List.length_append]
    omega
  · rw [same]
    exact inv.above
  · intro read member other otherMember sameKey
    simp only [added] at otherMember
    rw [List.drop_append_of_le_length (inv.position read member)] at otherMember
    rcases List.mem_append.mp otherMember with otherMember | otherMember
    · exact inv.above read member other otherMember sameKey
    · rw [List.mem_singleton.mp otherMember] at sameKey ⊢
      exact above read.snapshot (sameKey ▸ inv.safe read member)
  · rw [same]
    exact inv.grows
  · intro other otherMember
    simp only [added] at otherMember
    rcases List.mem_append.mp otherMember with otherMember | otherMember
    · exact inv.grows other otherMember
    · rw [List.mem_singleton.mp otherMember]
      exact grew

/-- A reader moves and changes nothing else. -/
theorem RadInv.setReader (inv : RadInv config before) {rid : Rid} {stage : ReadStage Key}
    (ok : ReaderOk config before.base stage) : RadInv config (before.setReader rid stage) where
  base := inv.base
  times := inv.times
  readers other := by
    simp only [State.setReader]
    rcases eq_or_ne other rid with rfl | different
    · rw [Function.update_self]
      exact ok
    · rw [Function.update_of_ne different]
      exact inv.readers other
  safe := inv.safe
  position := inv.position
  above := inv.above
  grows := inv.grows

/-- Raising `read_ts` of a record. -/
theorem Safe.publish {base : Db.State Key Value Tid Extra} {key other : Key}
    {version time : Nat} (raised : (base.nodes key).readTs ≤ version)
    (safe : Safe config base other time) :
    Safe config (base.setNode key { base.nodes key with readTs := version }) other time := by
  simp only [Safe, Db.State.setNode] at safe ⊢
  rcases eq_or_ne other key with rfl | different
  · rw [Function.update_self]
    exact safe.imp_right fun found => ⟨found.1.trans raised, found.2⟩
  · rw [Function.update_of_ne different]
    exact safe

theorem ReaderOk.publish {base : Db.State Key Value Tid Extra} {key : Key} {version : Nat}
    (raised : (base.nodes key).readTs ≤ version) {stage : ReadStage Key}
    (ok : ReaderOk config base stage) :
    ReaderOk config (base.setNode key { base.nodes key with readTs := version }) stage := by
  have seqOf : ∀ other, ((base.setNode key { base.nodes key with readTs := version }).nodes
      other).seq = (base.nodes other).seq := by
    intro other
    rcases eq_or_ne other key with rfl | different <;> simp [Db.State.setNode, *]
  have tsOf : ∀ other, (base.nodes other).readTs ≤ ((base.setNode key
      { base.nodes key with readTs := version }).nodes other).readTs := by
    intro other
    rcases eq_or_ne other key with rfl | different <;> simp [Db.State.setNode, *]
  cases stage with
  | idle => trivial
  | publish other time => trivial
  | loadSeq other time => exact le_trans ok (tsOf other)
  | checkLock other time seq | pollSeq other time seq | pollLock other time seq =>
      refine ⟨ok.1.trans (tsOf other), ?_⟩
      rw [seqOf]
      exact ok.2.imp_right fun safe => safe.publish raised
  | search other time => exact Safe.publish raised ok

/-- A reader publishes its snapshot. -/
theorem RadInv.publish (inv : RadInv config before) {rid : Rid} {key : Key} {version : Nat}
    (raised : (before.base.nodes key).readTs ≤ version) :
    RadInv config { before.setReader rid (.loadSeq key version) with
      base := before.base.setNode key { before.base.nodes key with readTs := version } } where
  base := by
    constructor
    · refine inv.base.holding.frame ?_ fun _ => .refl _
      intro other
      rcases eq_or_ne other key with rfl | different <;> simp [Db.State.setNode, *]
    · intro tid
      refine (inv.base.txnOk tid).frame fun seen _ => ?_
      rcases eq_or_ne seen.key key with same | different
      · simp [Db.State.setNode, same]
      · simp [Db.State.setNode, different]
  times := inv.times
  readers other := by
    simp only [State.setReader]
    rcases eq_or_ne other rid with rfl | different
    · rw [Function.update_self]
      simp [ReaderOk, Db.State.setNode]
    · rw [Function.update_of_ne different]
      exact (inv.readers other).publish raised
  safe read member := (inv.safe read member).publish raised
  position := inv.position
  above := inv.above
  grows := inv.grows

/-- A reader obtains a version of a safe record. -/
theorem RadInv.obtain (inv : RadInv config before) {key : Key} {snapshot : Nat}
    (safe : Safe config before.base key snapshot) (rid : Rid) (version : Nat) :
    RadInv config { before with
      reads := before.reads ++
        [{ rid, key, snapshot, version, position := before.base.commits.length }] } where
  base := inv.base
  times := inv.times
  readers := inv.readers
  safe read member := by
    rcases List.mem_append.mp member with member | member
    · exact inv.safe read member
    · rw [List.mem_singleton.mp member]
      exact safe
  position read member := by
    rcases List.mem_append.mp member with member | member
    · exact inv.position read member
    · rw [List.mem_singleton.mp member]
  above read member commit commitMember := by
    rcases List.mem_append.mp member with member | member
    · exact inv.above read member commit commitMember
    · rw [List.mem_singleton.mp member] at commitMember
      simp at commitMember
  grows := inv.grows

/-- A step of the system keeps the invariant. -/
theorem RadInv.step (decodes : ∀ key, config.nodeAt key = some key)
    (inv : RadInv config before) {action : Action Key Value Tid Rid}
    (orderly : Orderly config before action)
    (stepped : step config before action = some after) : RadInv config after := by
  cases action with
  | txn action =>
      obtain ⟨base, moved, rfl⟩ := Option.map_eq_some_iff.mp stepped
      have decoded : Decodes config before.base action := by
        cases action with
        | commitRpc tid partition => exact fun seen _ => decodes seen.key
        | _ => trivial
      exact inv.txn orderly (step_effect inv.base decoded moved)
  | startRead rid key version =>
      simp only [Rad.step] at stepped
      split at stepped
      · cases stepped
        apply inv.setReader
        split_ifs with lower
        · trivial
        · rw [not_le] at lower
          rcases orderly lower with free | newer
          · exact safe_of_free inv.base free lower.le
          · exact .inl newer
      · cases stepped
  | publish rid =>
      simp only [Rad.step] at stepped
      split at stepped
      · rename_i key version stage
        cases stepped
        simp only [Orderly, stage] at orderly
        exact inv.publish orderly
      · cases stepped
  | loadSeq rid =>
      simp only [Rad.step] at stepped
      split at stepped
      · rename_i key version stage
        cases stepped
        have ok := inv.readers rid
        rw [stage] at ok
        exact inv.setReader ⟨ok, .inl rfl⟩
      · cases stepped
  | checkLock rid =>
      simp only [Rad.step] at stepped
      split at stepped
      · rename_i key version seq stage
        cases stepped
        have ok := inv.readers rid
        rw [stage] at ok
        obtain ⟨published, unchanged⟩ := ok
        apply inv.setReader
        split_ifs with waits
        · exact ⟨published, unchanged⟩
        · rcases unchanged with unchanged | safe
          · rw [not_and_or, not_not, not_lt] at waits
            rcases waits with free | newer
            · exact safe_of_free inv.base free published
            · exact .inl (unchanged ▸ newer)
          · exact safe
      · cases stepped
  | pollSeq rid =>
      simp only [Rad.step] at stepped
      split at stepped
      · rename_i key version seq stage
        cases stepped
        have ok := inv.readers rid
        rw [stage] at ok
        apply inv.setReader
        split_ifs with changed
        · exact ok.2.resolve_left changed
        · exact ok
      · cases stepped
  | pollLock rid =>
      simp only [Rad.step] at stepped
      split at stepped
      · rename_i key version seq stage
        cases stepped
        have ok := inv.readers rid
        rw [stage] at ok
        apply inv.setReader
        split_ifs with free
        · exact safe_of_free inv.base free ok.1
        · exact ok
      · cases stepped
  | search rid =>
      simp only [Rad.step] at stepped
      split at stepped
      · rename_i key version stage
        have ok := inv.readers rid
        rw [stage] at ok
        obtain ⟨found, -, rfl⟩ := Option.map_eq_some_iff.mp stepped
        have moved : RadInv config (before.setReader rid .idle) := inv.setReader trivial
        cases found with
        | none => exact moved
        | some found =>
            exact moved.obtain ok rid found
      · cases stepped

theorem radInv_initial (config : Config Key Tid) (seq : Key → Nat)
    (value : Key → Option Value) :
    RadInv config (State.initial seq value : State Key Value Tid Rid) where
  base := inv_initial config seq value _
  times tid decided := by simp [State.initial, Db.State.initial, Txn.Decided] at decided
  readers rid := trivial
  safe read member := by simp [State.initial] at member
  position read member := by simp [State.initial] at member
  above read member := by simp [State.initial] at member
  grows commit member := by simp [State.initial, Db.State.initial] at member

/-- When the words of commit items lead to the locked nodes, snapshots are stable in every
orderly run: no commit after a read installs a version of the record above the one
obtained and not above the snapshot, and every commit raises the sequence number. -/
theorem snapshots_stable (config : Config Key Tid)
    (decodes : ∀ key, config.nodeAt key = some key) (seq : Key → Nat)
    (value : Key → Option Value) (state : State Key Value Tid Rid)
    (reach : Reach (step config) (Orderly config) (State.initial seq value) state) :
    Stable state := by
  have inv : RadInv config state :=
    reach.invariant _ (radInv_initial config seq value)
      fun _ _ _ inv orderly stepped => inv.step decodes orderly stepped
  refine ⟨?_, inv.grows⟩
  rintro read member commit commitMember sameKey ⟨-, within⟩
  exact absurd (inv.above read member commit commitMember sameKey) (not_lt.mpr within)

end Runs

/-- Records and coroutines on two partitions; a commit item leads to its node. -/
def pairConfig : Config Nat Bool where
  pid key := key % 2
  partition tid := tid.toNat
  lockContent tid := tid.toNat + 1
  nodeAt := some
  words := pairWords

/-- A local record that was read at a later snapshot is committed above it, and so is the
remote record of the same transaction. -/
theorem snapshots_stable_local :
    ∃ state : State Nat Nat Bool Unit,
      (state.reads.map (fun read => (read.key, read.snapshot, read.version)) =
          [(0, 2 ^ 25, 2)] ∧
        state.base.commits.map (fun commit => (commit.key, commit.after)) =
          [(0, 2 ^ 25 + 1), (1, 2 ^ 25 + 1)]) ∧
      Stable state := by
  have run : ∃ state : State Nat Nat Bool Unit,
      Reach (step pairConfig) (Orderly pairConfig)
        (State.initial (fun _ => 2) fun _ => some 10) state ∧
      state.reads.map (fun read => (read.key, read.snapshot, read.version)) =
          [(0, 2 ^ 25, 2)] ∧
        state.base.commits.map (fun commit => (commit.key, commit.after)) =
          [(0, 2 ^ 25 + 1), (1, 2 ^ 25 + 1)] :=
    Reach.exists_of_exec
      [.startRead () 0 (2 ^ 25), .publish (), .loadSeq (), .checkLock (), .search (),
        .txn (.begin false 1), .txn (.get false 0), .txn (.write false 0 11),
        .txn (.remoteAdd false .reqRead 1), .txn (.remoteWrite false 0 (some 12)),
        .txn (.startEnd false), .txn (.lockRpc false 1), .txn (.resume false),
        .txn (.lockLocal false), .txn (.resume false), .txn (.commitLocal false),
        .txn (.resume false), .txn (.commitRpc false 1), .txn (.resume false)]
      (by decide +kernel)
  obtain ⟨state, reach, facts⟩ := run
  exact ⟨state, facts, snapshots_stable pairConfig (fun _ => rfl) _ _ state reach⟩

/-- A remote record is read at a snapshot, and a transaction with a smaller timestamp then
commits it below the snapshot: the `read_ts` in the lock reply is not used. -/
theorem snapshot_overwritten :
    ∃ state : State Nat Nat Bool Unit,
      Reachable (step pairConfig) (State.initial (fun _ => 2) fun _ => some 10) state ∧
      (state.base.txns false).stage = .finished true ∧
      state.reads.map (fun read => (read.key, read.snapshot, read.version)) =
        [(1, 2 ^ 25, 2)] ∧
      state.base.commits.map (fun commit => (commit.key, commit.after)) =
        [(1, 2 ^ 24 + 1)] ∧
      ¬ Stable state :=
  Reach.exists_of_exec
    [.txn (.begin false 1), .startRead () 1 (2 ^ 25), .publish (), .loadSeq (),
      .checkLock (), .search (), .txn (.remoteAdd false .reqRead 1),
      .txn (.remoteWrite false 0 (some 12)), .txn (.startEnd false),
      .txn (.lockRpc false 1), .txn (.resume false), .txn (.resume false),
      .txn (.resume false), .txn (.commitRpc false 1), .txn (.resume false)]
    (by decide +kernel)

end Rocc.Db.Rad
