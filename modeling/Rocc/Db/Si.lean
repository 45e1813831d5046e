import Rocc.Base.History
import Rocc.Db.Steps
import Rocc.Rtx.Record

/-!
# DBSI: the first committer wins

`DBSI` with one clock (`ONE_CLOCK`, hence `EM_OCC`).  A commit compares the sequence
number remembered for the record under the record's lock, so an update is lost only
when a record returns to a sequence number it already had.  `CommitLocalWrite` adds 2
to the number remembered; `commit_rpc_handler2` stores 1 and then one more than what
it finds, which is always 2.
-/

set_option linter.unusedSectionVars false

namespace Rocc.Db.Si

open Rtx

universe u v w

variable {Key : Type u} {Value : Type v} {Tid : Type w}

/-! ## The class -/

/-- Sequence number of a record while a commit switches its value. -/
def switching : Nat := 1

/-- `DBSI`.  `get` retries while the record is switching and asserts that a record with
a value has a sequence number; `CommitLocalWrite` asserts the same of its item.  The
commit timestamp is not stored in the records. -/
def dbsi : TxHandler Key Value Unit where
  begin _ _ := some ()
  get node :=
    if node.seq = switching then
      none
    else
      match node.value with
      | none => some none
      | some _ => if node.seq = 0 then none else some (some node.seq)
  getRpcHandler node :=
    if node.seq = switching then
      none
    else
      match node.value with
      | none => some 0
      | some _ => some node.seq
  observe extra _ := extra
  lockRpcHandler extra _ _ := extra
  checkRes extra _ := extra
  lockAllSet extra _ := extra
  lockedAll extra _ := extra
  commitLocalWrite _ seq node :=
    if node.value.isSome ∧ seq = 0 then none else some ((seq + 2) % wordBound)
  commitRpcHandler _ node :=
    let node := { node with seq := switching }
    some (node.seq + 1)

/-! ## The invariant -/

/-- What a transaction remembers is the sequence number a version had, or 0 for a
version without value. -/
def Remembers (values : List Nat) (seen : Seen Key) : Prop :=
  ∃ seq, values[seen.version]? = some seq ∧ (seen.seq = seq ∨ seen.seq = 0 ∧ 0 < seq)

/-- Every commit installs the version after the one it has seen, and of two commits of
one record the later has seen what the earlier installed, or something newer, and
leaves another sequence number. -/
def FirstCommitterWins (commits : List (Commit Key Tid)) : Prop :=
  (∀ commit ∈ commits, commit.installed = commit.read + 1) ∧
    commits.Pairwise fun earlier later => earlier.key = later.key →
      earlier.installed ≤ later.read ∧ earlier.after ≠ later.after

instance [DecidableEq Key] (commits : List (Commit Key Tid)) :
    Decidable (FirstCommitterWins commits) :=
  inferInstanceAs (Decidable (_ ∧ _))

variable (config : Config Key Tid)

/-- The sequence numbers of every record grow. -/
structure SiInv (state : State Key Value Tid Unit) : Prop where
  base : Inv config state
  history : ∀ key, History (state.seqs key) (state.nodes key).seq
  remembers : ∀ tid, ∀ seen ∈ (state.txns tid).items,
    Remembers (state.seqs seen.key) seen
  stored : ∀ commit ∈ state.commits,
    (state.seqs commit.key)[commit.installed]? = some commit.after
  wins : FirstCommitterWins state.commits

variable [DecidableEq Key] [DecidableEq Tid]

/-- A local commit does not wrap around; a remote one is sent to the node that was
locked, and that node has a sequence number below the 2 it will store. -/
def InOrder (state : State Key Value Tid Unit) (action : Action Key Value Tid) : Prop :=
  match nextCommit config state action with
  | some seen =>
      if config.IsLocal action.caller seen.key then
        seen.seq + 2 < wordBound
      else
        config.nodeAt seen.key = some seen.key ∧ (state.nodes seen.key).seq < 2
  | none => True

instance (state : State Key Value Tid Unit) (action : Action Key Value Tid) :
    Decidable (InOrder config state action) := by
  unfold InOrder
  split <;> infer_instance

variable {config} {before after : State Key Value Tid Unit} {action : Action Key Value Tid}

theorem InOrder.decodes [DecidableEq Value] (inv : Inv config before)
    (inOrder : InOrder config before action) :
    Decodes config before action := by
  cases action with
  | commitRpc tid partition =>
      intro seen chosen
      have remote : ¬ config.IsLocal (Action.commitRpc tid partition : Action Key Value Tid).caller
          seen.key := inv.commitRpc_remote chosen
      simp only [InOrder, chosen] at inOrder
      rw [if_neg remote] at inOrder
      exact inOrder.1
  | _ => trivial

/-- `DBSI` shows the sequence number of a node, or 0 when it has no value. -/
theorem remembers_see {key : Key} {seq : Nat}
    (history : History (before.seqs key) (before.nodes key).seq)
    (shown : Shown (dbsi : TxHandler Key Value Unit) (before.nodes key) seq) :
    Remembers (before.seqs key) (before.see key seq) := by
  refine ⟨(before.nodes key).seq, history.getElem?_last, ?_⟩
  dsimp only [State.see]
  rcases shown with rfl | shown | shown
  · exact .inl rfl
  · simp only [dbsi] at shown
    cases value : (before.nodes key).value with
    | none => simp [value] at shown
    | some current =>
        simp only [value, Option.ite_none_left_eq_some, Option.some.injEq] at shown
        exact .inl shown.2.2.symm
  · simp only [dbsi, Option.ite_none_left_eq_some] at shown
    replace shown := shown.2
    split at shown
    · cases shown
      rcases Nat.eq_zero_or_pos (before.nodes key).seq with zero | positive
      · exact .inl zero.symm
      · exact .inr ⟨rfl, positive⟩
    · cases shown
      exact .inl rfl

/-- An item whose number the record still has was seen at the latest version. -/
theorem Remembers.latest {values : List Nat} {seen : Seen Key}
    (remembers : Remembers values seen) (history : History values seen.seq) :
    seen.version + 1 = values.length := by
  obtain ⟨seq, found, same | ⟨zero, positive⟩⟩ := remembers
  · exact history.position (same ▸ found)
  · have bound := history.le_latest (List.mem_of_getElem? found)
    omega

theorem Remembers.append {values : List Nat} {seen : Seen Key}
    (remembers : Remembers values seen) (next : Nat) :
    Remembers (values ++ [next]) seen := by
  obtain ⟨seq, found, related⟩ := remembers
  refine ⟨seq, ?_, related⟩
  rw [List.getElem?_append_left (List.getElem?_eq_some_iff.mp found).1]
  exact found

/-! ## Runs -/

/-- The new sequence number is larger than the old one. -/
theorem InOrder.grows (inOrder : InOrder config before action) {seen : Seen Key} {seq : Nat}
    (chosen : nextCommit config before action = some seen)
    (current : (before.nodes seen.key).seq = seen.seq)
    (stored : if config.IsLocal action.caller seen.key then
        (dbsi : TxHandler Key Value Unit).commitLocalWrite
          (before.txns action.caller).extra seen.seq (before.nodes seen.key) = some seq
      else
        (dbsi : TxHandler Key Value Unit).commitRpcHandler
          (before.txns action.caller).extra (before.nodes seen.key) = some seq) :
    (before.nodes seen.key).seq < seq := by
  simp only [InOrder, chosen] at inOrder
  by_cases isLocal : config.IsLocal action.caller seen.key
  · rw [if_pos isLocal] at inOrder stored
    simp only [dbsi, Option.ite_none_left_eq_some, Option.some.injEq] at stored
    rw [← stored.2, Nat.mod_eq_of_lt inOrder]
    omega
  · rw [if_neg isLocal] at inOrder stored
    simp only [dbsi, Option.some.injEq] at stored
    rw [← stored]
    exact inOrder.2

/-- A step that stores no sequence number keeps the invariant when its items are
remembered as they were shown. -/
theorem SiInv.quiet (inv : SiInv config before) {tid : Tid} {txn : Txn Key Value Unit}
    (base : Inv config after)
    (sameSeq : ∀ key, (after.nodes key).seq = (before.nodes key).seq)
    (txns : after.txns = Function.update before.txns tid txn)
    (seqs : after.seqs = before.seqs) (commits : after.commits = before.commits)
    (seen : ∀ seen ∈ txn.items, seen ∈ (before.txns tid).items ∨
      ∃ key seq, seen = before.see key seq ∧
        Shown (dbsi : TxHandler Key Value Unit) (before.nodes key) seq) :
    SiInv config after where
  base := base
  history key := by
    rw [seqs, sameSeq]
    exact inv.history key
  remembers other item member := by
    rw [seqs]
    rw [txns] at member
    rcases eq_or_ne other tid with rfl | different
    · rw [Function.update_self] at member
      rcases seen item member with old | ⟨key, seq, rfl, shown⟩
      · exact inv.remembers other item old
      · exact remembers_see (inv.history key) shown
    · rw [Function.update_of_ne different] at member
      exact inv.remembers other item member
  stored := by
    rw [commits, seqs]
    exact inv.stored
  wins := by
    rw [commits]
    exact inv.wins

/-- A commit of a record that is still at the version its writer has seen. -/
theorem SiInv.commit (inv : SiInv config before) {tid : Tid} {txn : Txn Key Value Unit}
    {seen : Seen Key} {node : MemNode Value}
    (base : Inv config ((before.commit tid seen.key seen.version node).setTxn tid txn))
    (member : seen ∈ (before.txns tid).items)
    (current : (before.nodes seen.key).seq = seen.seq)
    (grows : (before.nodes seen.key).seq < node.seq)
    (items : txn.items = (before.txns tid).items) :
    SiInv config ((before.commit tid seen.key seen.version node).setTxn tid txn) := by
  have history := inv.history seen.key
  have latest : seen.version + 1 = (before.seqs seen.key).length :=
    (inv.remembers tid seen member).latest (current ▸ history)
  have kept : ∀ key, ∃ rest, Function.update before.seqs seen.key
      (before.seqs seen.key ++ [node.seq]) key = before.seqs key ++ rest := by
    intro key
    rcases eq_or_ne key seen.key with rfl | different
    · exact ⟨[node.seq], by simp⟩
    · exact ⟨[], by simp [different]⟩
  have below : ∀ commit ∈ before.commits, commit.key = seen.key →
      commit.installed < (before.seqs seen.key).length := by
    intro commit commitMember sameKey
    have stored := inv.stored commit commitMember
    rw [sameKey] at stored
    exact (List.getElem?_eq_some_iff.mp stored).1
  constructor
  · exact base
  · intro key
    simp only [State.setTxn, State.commit, State.setNode]
    rcases eq_or_ne key seen.key with rfl | different
    · simpa using history.append grows
    · simpa [different] using inv.history key
  · intro other item itemMember
    have old : item ∈ (before.txns other).items := by
      simp only [State.setTxn, State.commit, State.setNode] at itemMember
      rcases eq_or_ne other tid with rfl | different
      · rw [Function.update_self, items] at itemMember
        exact itemMember
      · rwa [Function.update_of_ne different] at itemMember
    simp only [State.setTxn, State.commit, State.setNode]
    rcases eq_or_ne item.key seen.key with sameKey | different
    · rw [sameKey, Function.update_self]
      exact (sameKey ▸ inv.remembers other item old).append node.seq
    · rw [Function.update_of_ne different]
      exact inv.remembers other item old
  · intro commit commitMember
    simp only [State.setTxn, State.commit, State.setNode] at commitMember ⊢
    rcases List.mem_append.mp commitMember with commitMember | commitMember
    · obtain ⟨rest, extended⟩ := kept commit.key
      have stored := inv.stored commit commitMember
      rw [extended, List.getElem?_append_left (List.getElem?_eq_some_iff.mp stored).1]
      exact stored
    · rw [List.mem_singleton.mp commitMember]
      simp
  · simp only [State.setTxn, State.commit, State.setNode]
    constructor
    · intro commit commitMember
      rcases List.mem_append.mp commitMember with commitMember | commitMember
      · exact inv.wins.1 commit commitMember
      · rw [List.mem_singleton.mp commitMember]
        exact latest.symm
    · rw [List.pairwise_append]
      refine ⟨inv.wins.2, by simp, ?_⟩
      intro earlier earlierMember later laterMember sameKey
      rw [List.mem_singleton.mp laterMember] at sameKey ⊢
      have bound := below earlier earlierMember sameKey
      refine ⟨by dsimp only; omega, ?_⟩
      -- the new number is above every number the record has had
      have stored := inv.stored earlier earlierMember
      rw [sameKey] at stored
      have old := history.le_latest (List.mem_of_getElem? stored)
      dsimp only
      omega

/-- What a step can do keeps the invariant. -/
theorem SiInv.effect (inv : SiInv config before) (inOrder : InOrder config before action)
    (effect : Effect config (dbsi : TxHandler Key Value Unit) before action.caller
      (nextCommit config before action) after) : SiInv config after := by
  have base := effect.inv inv.base
  cases effect with
  | frame txn ok taken seen calm =>
      exact inv.quiet base (fun _ => rfl) rfl rfl rfl seen
  | lock seen txn free ok taken items member undecided grown =>
      refine inv.quiet base ?_ rfl rfl rfl fun _ member => .inl (items ▸ member)
      intro key
      rcases eq_or_ne key seen.key with rfl | different <;>
        simp [State.setTxn, State.setNode, *]
  | unlock key txn mine ok taken items unsure =>
      refine inv.quiet base ?_ rfl rfl rfl fun _ member => .inl (items ▸ member)
      intro other
      rcases eq_or_ne other key with rfl | different <;>
        simp [State.setTxn, State.setNode, *]
  | commit seen version value seq txn chosen mine member sure decided stored ok taken items
      extra =>
      have current := (inv.base.txnOk action.caller).secured sure seen mine
      exact inv.commit base member current (inOrder.grows chosen current stored) items

variable [DecidableEq Value]

theorem siInv_initial (config : Config Key Tid) (seq : Key → Nat)
    (value : Key → Option Value) : SiInv config (State.initial seq value ()) where
  base := inv_initial config seq value ()
  history key := History.singleton (seq key)
  remembers tid seen member := by simp [State.initial, Txn.items] at member
  stored commit member := by simp [State.initial] at member
  wins := by simp [State.initial, FirstCommitterWins]

/-- In every run in which remote commits reach the locked node while it has a sequence
number below 2, and local ones do not wrap around, no update is lost: of two commits of
one record the later has seen the value of the earlier or a newer one, each installs the
version after the one it has seen, and no sequence number is used twice. -/
theorem first_committer_wins (config : Config Key Tid) (seq : Key → Nat)
    (value : Key → Option Value) (state : State Key Value Tid Unit)
    (reach : Reach (step config dbsi) (InOrder config) (State.initial seq value ()) state) :
    FirstCommitterWins state.commits := by
  have inv : SiInv config state :=
    reach.invariant _ (siInv_initial config seq value)
      fun _ _ _ inv inOrder stepped =>
        inv.effect inOrder (step_effect inv.base (inOrder.decodes inv.base) stepped)
  exact inv.wins

/-- Coroutines on two partitions; a commit item leads to the node it was made from. -/
def pairConfig : Config Nat Bool where
  pid key := key % 2
  partition tid := tid.toNat
  lockContent tid := tid.toNat + 1
  nodeAt := some
  words := pairWords

/-- The first transaction updates a local record and inserts a remote one, the second
one reads the update back and writes again. -/
theorem first_committer_wins_twice :
    ∃ state : State Nat Nat Bool Unit,
      state.commits = [⟨false, 0, 0, 1, 2, 4⟩, ⟨false, 3, 0, 1, 0, 2⟩, ⟨false, 0, 1, 2, 4, 6⟩] ∧
        FirstCommitterWins state.commits := by
  have run : ∃ state : State Nat Nat Bool Unit,
      Reach (step pairConfig dbsi) (InOrder pairConfig)
        (State.initial (fun key => if key < 2 then 2 else 0)
          (fun key => if key < 2 then some 10 else none) ()) state ∧
      state.commits =
        [⟨false, 0, 0, 1, 2, 4⟩, ⟨false, 3, 0, 1, 0, 2⟩, ⟨false, 0, 1, 2, 4, 6⟩] :=
    Reach.exists_of_exec
      [.begin false 0, .get false 0, .write false 0 11, .remoteAdd false .reqInsert 3,
        .remoteWrite false 0 (some 7), .startEnd false, .lockRpc false 1, .resume false,
        .lockLocal false, .resume false, .commitLocal false, .resume false,
        .commitRpc false 1, .resume false, .begin false 0, .get false 0,
        .writeLast false 12, .startEnd false, .lockLocal false, .resume false,
        .commitLocal false, .resume false, .resume false]
      (by decide +kernel)
  obtain ⟨state, reach, commits⟩ := run
  exact ⟨state, commits, first_committer_wins pairConfig _ _ state reach⟩

/-- Two coroutines read one remote record and both commit an update of the value they
read; the record is back at the sequence number it had. -/
theorem update_lost :
    ∃ state : State Nat Nat Bool Unit,
      Reachable (step { pairConfig with pid := fun _ => 2 } dbsi)
        (State.initial (fun _ => 2) (fun _ => some 10) ()) state ∧
      ((state.txns false).stage = .finished true ∧
        (state.txns true).stage = .finished true) ∧
      state.commits = [⟨false, 0, 0, 1, 2, 2⟩, ⟨true, 0, 0, 2, 2, 2⟩] ∧
      ¬ FirstCommitterWins state.commits :=
  Reach.exists_of_exec
    [.begin false 0, .begin true 0, .remoteAdd false .reqRead 0, .remoteAdd true .reqRead 0,
      .remoteWrite false 0 (some 11), .remoteWrite true 0 (some 12), .startEnd false,
      .lockRpc false 2, .resume false, .resume false, .resume false, .commitRpc false 2,
      .resume false, .startEnd true, .lockRpc true 2, .resume true, .resume true,
      .resume true, .commitRpc true 2, .resume true]
    (by decide +kernel)

end Rocc.Db.Si
