import Mathlib.Data.List.TakeWhile
import Rocc.Occ.Solo

/-!
# Records of table 7 in the read set

`OCC::read` does not read a record of table 7.  It appends an entry with partition 0, sequence
word 0 and a NULL pointer for `node` and for `data_ptr`.  The loops of `commit` over the read
set tell these entries from others in different ways: by the table, by the partition or not at
all.

Other transactions may change the records until they are validated.  How the write set is
locked does not matter here, and neither do the records that a commit leaves.
-/

namespace Rocc.Occ.Solo.Placeholder

open Rtx Rtx.Batch

universe u

variable {Value : Type u}

/-! ## Data -/

/-- An entry of the read set; when `node` and `data_ptr` are NULL, the data mean nothing. -/
structure ReadEntry (Value : Type u) where
  item : ReadSetItem Value
  isNull : Bool

/-- What `OCC::read` appends for a record of table 7. -/
def placeholder (key : UInt64) (data : Value) : ReadEntry Value :=
  ⟨⟨⟨0, 7, key⟩, 0, data⟩, true⟩

/-- The entry was made by `OCC::read`. -/
def ReadEntry.Formed (entry : ReadEntry Value) : Prop :=
  (∃ key data, entry = placeholder key data) ∨
    (entry.isNull = false ∧ entry.item.place.tableid ≠ 7 ∧ entry.item.seq < wordBound)

/-- A read set. -/
structure ReadSet (Value : Type u) where
  entries : List (ReadEntry Value)
  formed : ∀ entry ∈ entries, entry.Formed

/-- The read set without the records of table 7. -/
def ReadSet.ordinary (set : ReadSet Value) : ReadSet Value where
  entries := set.entries.filter fun entry => !entry.isNull
  formed := fun entry member => set.formed entry (List.mem_of_mem_filter member)

def ReadSet.items (set : ReadSet Value) : List (ReadSetItem Value) :=
  set.entries.map ReadEntry.item

/-- Which phases of a build are one-sided; none of them in `OCC`. -/
structure Build where
  oneSidedRead : Bool
  oneSidedValidate : Bool
  oneSidedRelease : Bool
  deriving DecidableEq, Repr

/-- A transaction that starts to commit: its sets, the lock phase of the build on the write
set, and what other transactions do before the validation. -/
structure Txn (Value : Type u) where
  readSet : ReadSet Value
  writeSet : List (ReadSetItem Value)
  records : Records Value
  lockWrites : Records Value → Records Value × Bool
  others : Records Value → Records Value

/-- The write set is locked. -/
def Txn.locked (txn : Txn Value) : Bool := (txn.lockWrites txn.records).2

/-- The records as they are validated. -/
def Txn.seen (txn : Txn Value) : Records Value := txn.others (txn.lockWrites txn.records).1

/-- The transaction without the records of table 7. -/
def Txn.ordinary (txn : Txn Value) : Txn Value := { txn with readSet := txn.readSet.ordinary }

inductive Failure where
  /-- A NULL pointer, or what was computed from one, is dereferenced. -/
  | nullPointer
  | assertion
  deriving DecidableEq, Repr

/-! ## The phases of a commit -/

/-- The entry is on the machine of the client. -/
def isLocal (config : Config) (entry : ReadEntry Value) : Bool := config.Local entry.item

def isRemote (config : Config) (entry : ReadEntry Value) : Bool := !isLocal config entry

/-- `local_validate_op` on the record of an entry. -/
def passes (seen : Records Value) (entry : ReadEntry Value) : Bool :=
  (seen entry.item.place).localValidateOp entry.item.seq

/-- A loop that returns false at the first of those entries that does not pass. -/
def checkThose (seen : Records Value) (those : ReadEntry Value → Bool) :
    List (ReadEntry Value) → Except Failure Bool
  | [] => .ok true
  | entry :: rest =>
      if those entry then
        if entry.isNull then .error .nullPointer
        else if passes seen entry then checkThose seen those rest
        else .ok false
      else checkThose seen those rest

/-- `validate_reads`. -/
def validateReads (config : Config) (set : ReadSet Value)
    (delivery : Delivers (config.remote set.items)) (seen : Records Value) :
    Except Failure Bool :=
  match checkThose seen (isLocal config) set.entries with
  | .ok true => .ok (exchange validateRpcHandler delivery seen).2
  | other => other

/-- The first loop of `validate_reads_w_rdma`, which posts the reads of remote records. -/
def postReads (config : Config) (seen : Records Value) :
    List (ReadEntry Value) → Except Failure Bool
  | [] => .ok true
  | entry :: rest =>
      if entry.item.place.tableid = 7 then postReads config seen rest
      else if isRemote config entry then
        if entry.isNull then .error .nullPointer else postReads config seen rest
      else if entry.isNull then .error .nullPointer
      else if passes seen entry then postReads config seen rest
      else .ok false

/-- `validate_reads_w_rdma`; its second loop looks at the remote records. -/
def validateReadsWRdma (config : Config) (set : ReadSet Value) (seen : Records Value) :
    Except Failure Bool :=
  match postReads config seen set.entries with
  | .ok true => checkThose seen (isRemote config) set.entries
  | other => other

/-- Validation, when the write set is locked. -/
def decision (build : Build) (config : Config) (txn : Txn Value)
    (delivery : Delivers (config.remote txn.readSet.items)) : Except Failure Bool :=
  if txn.locked then
    if build.oneSidedValidate then validateReadsWRdma config txn.readSet txn.seen
    else validateReads config txn.readSet delivery txn.seen
  else .ok false

/-- Some record is written on the machine of the client. -/
def writesLocal (config : Config) (txn : Txn Value) : Bool :=
  txn.writeSet.any fun item => config.Local item

/-- The write-back after a commit, and the release after an abort, on a local record: the
first one fails the assertion on `meta`, a one-sided release is not implemented. -/
def finish (build : Build) (config : Config) (txn : Txn Value) (decided : Bool) :
    Except Failure Unit :=
  if writesLocal config txn && (decided || build.oneSidedRelease) then .error .assertion
  else .ok ()

/-- `gc_readset`: `free` takes a NULL pointer, `Rfree` of the header in front of it does not. -/
def gcReadset (build : Build) (config : Config) (set : ReadSet Value) : Except Failure Unit :=
  if (build.oneSidedRead || build.oneSidedValidate) &&
      set.entries.any (fun entry => isRemote config entry && entry.isNull) then
    .error .nullPointer
  else .ok ()

/-- `commit`. -/
def commit (build : Build) (config : Config) (txn : Txn Value)
    (delivery : Delivers (config.remote txn.readSet.items)) : Except Failure Bool := do
  let decided ← decision build config txn delivery
  finish build config txn decided
  gcReadset build config txn.readSet
  return decided

/-- Records of table 7 make no difference: no NULL pointer is dereferenced, and the commit
returns true exactly when it does without them. -/
def Unaffected (build : Build) (config : Config) (txn : Txn Value) : Prop :=
  ∀ (delivery : Delivers (config.remote txn.readSet.items))
    (without : Delivers (config.remote txn.ordinary.readSet.items)),
    commit build config txn delivery ≠ .error .nullPointer ∧
      (commit build config txn delivery = .ok true ↔
        commit build config txn.ordinary without = .ok true)

/-! ## When they make no difference -/

/-- The local records pass. -/
def localPass (config : Config) (txn : Txn Value) : Bool :=
  txn.readSet.entries.all fun entry =>
    entry.isNull || !isLocal config entry || passes txn.seen entry

/-- The entries pass that the handlers look at. -/
def Txn.HandledPass (config : Config) (txn : Txn Value) (set : ReadSet Value) : Prop :=
  ∀ item ∈ config.seen set.items, (txn.seen item.place).localValidateOp item.seq = true

/-- One of those entries does not pass and stands before all records of table 7. -/
def stopsEarly (txn : Txn Value) (those : ReadEntry Value → Bool) : Bool :=
  (txn.readSet.entries.takeWhile fun entry => !entry.isNull).any fun entry =>
    those entry && !passes txn.seen entry

/-- The cases by the build and the machine of the client. -/
def Harmless (build : Build) (config : Config) (txn : Txn Value) : Prop :=
  (∀ entry ∈ txn.readSet.entries, entry.isNull = false) ∨
    if config.nodeId = 0 then
      build.oneSidedValidate ∨ txn.locked = false ∨ stopsEarly txn (isLocal config)
    else if build.oneSidedValidate then
      writesLocal config txn ∧ build.oneSidedRelease ∧
        (txn.locked = false ∨ localPass config txn = false ∨ stopsEarly txn (isRemote config))
    else if build.oneSidedRead then
      writesLocal config txn ∧ (build.oneSidedRelease ∨
        (txn.locked ∧ localPass config txn ∧ txn.HandledPass config txn.readSet))
    else
      txn.locked = false ∨ localPass config txn = false ∨ writesLocal config txn ∨
        (txn.HandledPass config txn.readSet ↔ txn.HandledPass config txn.readSet.ordinary)

/-! ## The loops -/

section Loops

variable {seen : Records Value} {entries : List (ReadEntry Value)}

/-- A loop that meets no record of table 7. -/
theorem checkThose_of_not_null {those : ReadEntry Value → Bool}
    (apart : ∀ entry ∈ entries, those entry = true → entry.isNull = false) :
    checkThose seen those entries =
      .ok (entries.all fun entry => entry.isNull || !those entry || passes seen entry) := by
  induction entries with
  | nil => rfl
  | cons entry rest ih =>
      obtain ⟨first, others⟩ := List.forall_mem_cons.mp apart
      rw [checkThose, ih others, List.all_cons]
      cases here : those entry with
      | false => simp
      | true =>
          rw [first here]
          cases passes seen entry <;> simp

/-- A loop that looks at the records of table 7, of which there are some. -/
theorem checkThose_of_null {those : ReadEntry Value → Bool}
    (all : ∀ entry ∈ entries, entry.isNull = true → those entry = true)
    (some : ∃ entry ∈ entries, entry.isNull = true) :
    checkThose seen those entries =
      if (entries.takeWhile fun entry => !entry.isNull).any
          (fun entry => those entry && !passes seen entry) then .ok false
      else .error .nullPointer := by
  induction entries with
  | nil =>
      obtain ⟨entry, member, _⟩ := some
      cases member
  | cons entry rest ih =>
      obtain ⟨first, others⟩ := List.forall_mem_cons.mp all
      rw [checkThose]
      cases null : entry.isNull with
      | true => simp [null, first null]
      | false =>
          have later : ∃ entry ∈ rest, entry.isNull = true := by
            obtain ⟨other, member, isNull⟩ := some
            rcases List.mem_cons.mp member with rfl | inRest
            · rw [null] at isNull
              cases isNull
            · exact ⟨other, inRest, isNull⟩
          rw [ih others later, List.takeWhile_cons_of_pos (by rw [null]; rfl), List.any_cons]
          cases those entry with
          | false => simp
          | true => cases passes seen entry <;> simp

/-- The loop that posts the reads skips the records of table 7. -/
theorem postReads_eq {config : Config} (formed : ∀ entry ∈ entries, entry.Formed) :
    postReads config seen entries =
      .ok (entries.all fun entry =>
        entry.isNull || !isLocal config entry || passes seen entry) := by
  induction entries with
  | nil => rfl
  | cons entry rest ih =>
      obtain ⟨first, others⟩ := List.forall_mem_cons.mp formed
      rw [postReads, ih others, List.all_cons]
      rcases first with ⟨key, data, rfl⟩ | ⟨notNull, table, -⟩
      · rfl
      · rw [if_neg table, notNull, isRemote]
        cases isLocal config entry <;> cases passes seen entry <;> simp

/-- Only the ordinary entries count. -/
theorem all_ordinary {check : ReadEntry Value → Bool}
    (null : ∀ entry, entry.isNull = true → check entry = true) :
    (entries.filter fun entry => !entry.isNull).all check = entries.all check := by
  rw [List.all_filter]
  congr 1
  funext entry
  cases isNull : entry.isNull with
  | true => rw [null entry isNull]; rfl
  | false => rfl

/-- An entry in front of all records of table 7 that does not pass is an ordinary one. -/
theorem all_of_stopsEarly {txn : Txn Value} {those : ReadEntry Value → Bool}
    (stops : stopsEarly txn those = true) :
    (txn.readSet.entries.all fun entry =>
      entry.isNull || !those entry || passes txn.seen entry) = false := by
  obtain ⟨entry, early, fails⟩ := List.any_eq_true.mp stops
  rw [Bool.and_eq_true, Bool.not_eq_true'] at fails
  have notNull := List.mem_takeWhile_imp early
  rw [Bool.not_eq_true'] at notNull
  rw [List.all_eq_false]
  refine ⟨entry, (List.takeWhile_sublist _).subset early, ?_⟩
  rw [notNull, fails.1, fails.2]
  decide

end Loops

/-! ## The decision -/

section Decision

variable {build : Build} {config : Config} {txn : Txn Value}

/-- Records of table 7 are local on machine 0 and remote on the others. -/
theorem isLocal_of_null {entry : ReadEntry Value} (formed : entry.Formed)
    (null : entry.isNull = true) : isLocal config entry = decide (config.nodeId = 0) := by
  rcases formed with ⟨key, data, rfl⟩ | ⟨notNull, -⟩
  · rw [isLocal, decide_eq_decide]
    exact eq_comm
  · rw [null] at notNull
    cases notNull

theorem word_of_formed {entry : ReadEntry Value} (formed : entry.Formed) :
    entry.item.seq < wordBound := by
  rcases formed with ⟨key, data, rfl⟩ | ⟨-, -, word⟩
  · exact show 0 < wordBound by decide
  · exact word

/-- The remote records pass. -/
def remotePass (config : Config) (txn : Txn Value) : Bool :=
  txn.readSet.entries.all fun entry =>
    entry.isNull || !isRemote config entry || passes txn.seen entry

/-- What the build validates at the other machines. -/
def RemoteChecks (build : Build) (config : Config) (txn : Txn Value) : Prop :=
  if build.oneSidedValidate then remotePass config txn = true
  else txn.HandledPass config txn.readSet

/-- The decision where no loop meets a record of table 7. -/
theorem decision_eq_ok (delivery : Delivers (config.remote txn.readSet.items))
    (apart : ∀ entry ∈ txn.readSet.entries,
      (if build.oneSidedValidate then isRemote config entry else isLocal config entry) = true →
        entry.isNull = false) :
    ∃ decided, decision build config txn delivery = .ok decided ∧
      (decided = true ↔ txn.locked ∧ localPass config txn ∧ RemoteChecks build config txn) := by
  unfold decision RemoteChecks
  cases txn.locked with
  | false => exact ⟨false, rfl, by simp⟩
  | true =>
      cases path : build.oneSidedValidate with
      | true =>
          rw [path] at apart
          simp only [if_true] at apart ⊢
          rw [validateReadsWRdma, postReads_eq txn.readSet.formed, checkThose_of_not_null apart]
          change ∃ decided, (match Except.ok (localPass config txn) with
            | .ok true => .ok (remotePass config txn)
            | other => other : Except Failure Bool) = .ok decided ∧ _
          cases localPass config txn with
          | false => exact ⟨false, rfl, by simp⟩
          | true => exact ⟨remotePass config txn, rfl, by simp⟩
      | false =>
          rw [path] at apart
          simp only [Bool.false_eq_true, if_false, if_true] at apart ⊢
          rw [validateReads, checkThose_of_not_null apart]
          change ∃ decided, (match Except.ok (localPass config txn) with
            | .ok true => .ok (exchange validateRpcHandler delivery txn.seen).2
            | other => other : Except Failure Bool) = .ok decided ∧ _
          cases localPass config txn with
          | false => exact ⟨false, rfl, by simp⟩
          | true =>
              refine ⟨_, rfl, ?_⟩
              rw [exchange_validate delivery]
              · simp [Txn.HandledPass, Config.seen]
              · intro item member
                obtain ⟨entry, inSet, rfl⟩ := List.mem_map.mp (List.mem_of_mem_filter member)
                exact word_of_formed (txn.readSet.formed entry inSet)

/-! ## Commits with records of table 7 and without -/

/-- A commit with a decision. -/
theorem commit_of_decision {delivery : Delivers (config.remote txn.readSet.items)}
    {decided : Bool} (decides : decision build config txn delivery = .ok decided) :
    commit build config txn delivery =
      if writesLocal config txn && (decided || build.oneSidedRelease) then .error .assertion
      else (gcReadset build config txn.readSet).map fun _ => decided := by
  rw [commit, decides]
  change (do
    finish build config txn decided
    gcReadset build config txn.readSet
    return decided) = _
  unfold finish
  by_cases fails : (writesLocal config txn && (decided || build.oneSidedRelease)) = true
  · rw [if_pos fails, if_pos fails]
    rfl
  · rw [if_neg fails, if_neg fails]
    cases gcReadset build config txn.readSet <;> rfl

theorem commit_of_nullPointer {delivery : Delivers (config.remote txn.readSet.items)}
    (fails : decision build config txn delivery = .error .nullPointer) :
    commit build config txn delivery = .error .nullPointer := by
  simp only [commit, fails, bind, Except.bind]

/-- Where nothing is wrong with the read set, a commit returns true exactly when it decides so and
writes no local record. -/
theorem commit_eq_true_iff {delivery : Delivers (config.remote txn.readSet.items)}
    {decided : Bool} (decides : decision build config txn delivery = .ok decided)
    (freed : gcReadset build config txn.readSet = .ok ()) :
    commit build config txn delivery = .ok true ↔
      decided = true ∧ writesLocal config txn = false := by
  rw [commit_of_decision decides, freed]
  cases writesLocal config txn <;> cases decided <;> cases build.oneSidedRelease <;>
    simp [Except.map]

theorem commit_ne_nullPointer {delivery : Delivers (config.remote txn.readSet.items)}
    {decided : Bool} (decides : decision build config txn delivery = .ok decided)
    (freed : gcReadset build config txn.readSet = .ok ()) :
    commit build config txn delivery ≠ .error .nullPointer := by
  rw [commit_of_decision decides, freed]
  split <;> simp [Except.map]

theorem gcReadset_of_apart
    (apart : ∀ entry ∈ txn.readSet.entries,
      isRemote config entry = true → entry.isNull = false) :
    gcReadset build config txn.readSet = .ok () := by
  unfold gcReadset
  rw [if_neg]
  rw [Bool.and_eq_true, List.any_eq_true]
  rintro ⟨-, entry, member, both⟩
  rw [Bool.and_eq_true] at both
  rw [apart entry member both.1] at both
  exact absurd both.2 Bool.false_ne_true

theorem not_null_ordinary :
    ∀ entry ∈ txn.ordinary.readSet.entries, entry.isNull = false := by
  intro entry member
  have kept := List.of_mem_filter member
  rwa [Bool.not_eq_true'] at kept

theorem localPass_ordinary : localPass config txn.ordinary = localPass config txn :=
  all_ordinary fun entry null => by rw [null]; rfl

theorem remotePass_ordinary : remotePass config txn.ordinary = remotePass config txn :=
  all_ordinary fun entry null => by rw [null]; rfl

/-- A commit without records of table 7. -/
theorem commit_ordinary (without : Delivers (config.remote txn.ordinary.readSet.items)) :
    commit build config txn.ordinary without = .ok true ↔
      (txn.locked ∧ localPass config txn ∧ RemoteChecks build config txn.ordinary) ∧
        writesLocal config txn = false := by
  have notNull := @not_null_ordinary _ txn
  obtain ⟨decided, decides, accepts⟩ := decision_eq_ok without
    fun entry member _ => notNull entry member
  rw [commit_eq_true_iff decides (gcReadset_of_apart fun entry member _ => notNull entry member),
    accepts, localPass_ordinary]
  rfl

/-! ## The cases -/

/-- Without records of table 7 there is nothing to compare. -/
theorem unaffected_of_not_null
    (notNull : ∀ entry ∈ txn.readSet.entries, entry.isNull = false) :
    Unaffected build config txn := by
  have same : txn.ordinary.readSet.entries = txn.readSet.entries := by
    rw [Txn.ordinary, ReadSet.ordinary, List.filter_eq_self]
    intro entry member
    rw [notNull entry member]
    rfl
  intro delivery without
  obtain ⟨decided, decides, accepts⟩ := decision_eq_ok delivery
    fun entry member _ => notNull entry member
  have freed : gcReadset build config txn.readSet = .ok () :=
    gcReadset_of_apart fun entry member _ => notNull entry member
  refine ⟨commit_ne_nullPointer decides freed, ?_⟩
  rw [commit_eq_true_iff decides freed, accepts, commit_ordinary]
  have checks : RemoteChecks build config txn.ordinary ↔ RemoteChecks build config txn := by
    unfold RemoteChecks
    rw [remotePass_ordinary, Txn.HandledPass, Txn.HandledPass, ReadSet.items, ReadSet.items, same]
    rfl
  rw [checks]

/-- On machine 0 the one-sided validation skips the records of table 7. -/
theorem unaffected_of_home (home : config.nodeId = 0) (path : build.oneSidedValidate = true) :
    Unaffected build config txn := by
  have apart : ∀ entry ∈ txn.readSet.entries,
      isRemote config entry = true → entry.isNull = false := by
    intro entry member remote
    by_contra null
    rw [Bool.not_eq_false] at null
    rw [isRemote, isLocal_of_null (txn.readSet.formed entry member) null, home] at remote
    cases remote
  intro delivery without
  obtain ⟨decided, decides, accepts⟩ := @decision_eq_ok _ build config txn delivery
    (by rw [path]; exact apart)
  have freed : gcReadset build config txn.readSet = .ok () := gcReadset_of_apart apart
  refine ⟨commit_ne_nullPointer decides freed, ?_⟩
  rw [commit_eq_true_iff decides freed, accepts, commit_ordinary]
  simp only [RemoteChecks, path, if_true, remotePass_ordinary]

/-- On machine 0 the other validation comes to a record of table 7 unless it ends before. -/
theorem unaffected_home_iff (placed : ∃ entry ∈ txn.readSet.entries, entry.isNull = true)
    (home : config.nodeId = 0) (path : build.oneSidedValidate = false) :
    Unaffected build config txn ↔
      txn.locked = false ∨ stopsEarly txn (isLocal config) = true := by
  have locals : ∀ entry ∈ txn.readSet.entries, entry.isNull = true →
      isLocal config entry = true := by
    intro entry member null
    rw [isLocal_of_null (txn.readSet.formed entry member) null, home]
    rfl
  have freed : gcReadset build config txn.readSet = .ok () := by
    apply gcReadset_of_apart
    intro entry member remote
    by_contra null
    rw [isRemote, locals entry member (by simpa using null)] at remote
    cases remote
  have decides : ∀ delivery, decision build config txn delivery =
      if txn.locked && !stopsEarly txn (isLocal config) then .error .nullPointer
      else .ok false := by
    intro delivery
    unfold decision
    cases txn.locked with
    | false => rfl
    | true =>
        rw [if_pos rfl, path, if_neg Bool.false_ne_true, validateReads,
          checkThose_of_null locals placed, ← stopsEarly]
        cases stopsEarly txn (isLocal config) <;> rfl
  constructor
  · intro unaffected
    by_contra others
    rw [not_or, Bool.not_eq_false, Bool.not_eq_true] at others
    apply (unaffected (.inOrder _) (.inOrder _)).1
    apply commit_of_nullPointer
    rw [decides, others.1, others.2]
    rfl
  · intro ends delivery without
    have decided : decision build config txn delivery = .ok false := by
      rw [decides, if_neg]
      rcases ends with unlocked | stops
      · simp [unlocked]
      · simp [stops]
    refine ⟨commit_ne_nullPointer decided freed, ?_⟩
    rw [commit_eq_true_iff decided freed, commit_ordinary]
    constructor
    · rintro ⟨decided, -⟩
      cases decided
    · rintro ⟨⟨locked, passed, -⟩, -⟩
      rcases ends with unlocked | stops
      · rw [unlocked] at locked
        cases locked
      · rw [localPass, all_of_stopsEarly stops] at passed
        cases passed

theorem isRemote_of_null (away : config.nodeId ≠ 0) :
    ∀ entry ∈ txn.readSet.entries, entry.isNull = true → isRemote config entry = true := by
  intro entry member null
  rw [isRemote, isLocal_of_null (txn.readSet.formed entry member) null, decide_eq_false away]
  rfl

/-- On another machine `Rfree` is called with what was computed from NULL. -/
theorem gcReadset_away (placed : ∃ entry ∈ txn.readSet.entries, entry.isNull = true)
    (away : config.nodeId ≠ 0) (path : (build.oneSidedRead || build.oneSidedValidate) = true) :
    gcReadset build config txn.readSet = .error .nullPointer := by
  unfold gcReadset
  rw [path, if_pos]
  rw [Bool.true_and, List.any_eq_true]
  obtain ⟨entry, member, null⟩ := placed
  exact ⟨entry, member, by rw [isRemote_of_null away entry member null, null]; rfl⟩

/-- Where the garbage collection fails, a commit is harmless only if it does not get there. -/
theorem unaffected_of_freeing {decided : Bool}
    (fails : gcReadset build config txn.readSet = .error .nullPointer)
    (decides : ∀ delivery, decision build config txn delivery = .ok decided) :
    Unaffected build config txn ↔
      (writesLocal config txn && (decided || build.oneSidedRelease)) = true := by
  constructor
  · intro unaffected
    by_contra goesOn
    apply (unaffected (.inOrder _) (.inOrder _)).1
    rw [commit_of_decision (decides _), if_neg goesOn, fails]
    rfl
  · intro stops delivery without
    rw [commit_of_decision (decides _), if_pos stops, commit_ordinary]
    rw [Bool.and_eq_true] at stops
    simp [stops.1]

/-- On another machine the second loop of the one-sided validation comes to a record of table 7
unless it ends before, and the garbage collection does. -/
theorem unaffected_oneSided_iff (placed : ∃ entry ∈ txn.readSet.entries, entry.isNull = true)
    (away : config.nodeId ≠ 0) (path : build.oneSidedValidate = true) :
    Unaffected build config txn ↔
      writesLocal config txn = true ∧ build.oneSidedRelease = true ∧
        (txn.locked = false ∨ localPass config txn = false ∨
          stopsEarly txn (isRemote config) = true) := by
  have fails : gcReadset build config txn.readSet = .error .nullPointer :=
    gcReadset_away placed away (by rw [path, Bool.or_true])
  have decides : ∀ delivery, decision build config txn delivery =
      if txn.locked && localPass config txn && !stopsEarly txn (isRemote config) then
        .error .nullPointer
      else .ok false := by
    intro delivery
    unfold decision
    cases txn.locked with
    | false => rfl
    | true =>
        rw [if_pos rfl, if_pos path, validateReadsWRdma, postReads_eq txn.readSet.formed,
          ← localPass, checkThose_of_null (isRemote_of_null away) placed, ← stopsEarly]
        cases localPass config txn with
        | false => rfl
        | true => cases stopsEarly txn (isRemote config) <;> rfl
  by_cases ends : (txn.locked && localPass config txn && !stopsEarly txn (isRemote config)) = true
  · constructor
    · intro unaffected
      exfalso
      apply (unaffected (.inOrder _) (.inOrder _)).1
      apply commit_of_nullPointer
      rw [decides, if_pos ends]
    · rintro ⟨-, -, early⟩
      rw [Bool.and_eq_true, Bool.and_eq_true, Bool.not_eq_true'] at ends
      rw [ends.1.1, ends.1.2, ends.2] at early
      simp at early
  · rw [unaffected_of_freeing fails fun delivery => (decides delivery).trans (if_neg ends)]
    rw [Bool.and_eq_true, Bool.false_or]
    have early : txn.locked = false ∨ localPass config txn = false ∨
        stopsEarly txn (isRemote config) = true := by
      by_contra goesOn
      rw [not_or, not_or, Bool.not_eq_false, Bool.not_eq_false, Bool.not_eq_true] at goesOn
      apply ends
      rw [goesOn.1, goesOn.2.1, goesOn.2.2]
      rfl
    simp only [early, and_true]

instance (set : ReadSet Value) : Decidable (txn.HandledPass config set) :=
  inferInstanceAs (Decidable (∀ item ∈ _, _))

/-- The other validation sends records of table 7 to machine 0, on all machines but this. -/
theorem decision_away (away : config.nodeId ≠ 0) (path : build.oneSidedValidate = false)
    (delivery : Delivers (config.remote txn.readSet.items)) :
    decision build config txn delivery =
      .ok (txn.locked && localPass config txn &&
        decide (txn.HandledPass config txn.readSet)) := by
  have apart : ∀ entry ∈ txn.readSet.entries,
      isLocal config entry = true → entry.isNull = false := by
    intro entry member here
    by_contra null
    have remote := isRemote_of_null away entry member (by simpa using null)
    rw [isRemote, here] at remote
    cases remote
  obtain ⟨decided, decides, accepts⟩ := @decision_eq_ok _ build config txn delivery
    (by rw [path]; exact apart)
  rw [decides]
  congr 1
  rw [Bool.eq_iff_iff, accepts]
  simp [RemoteChecks, path, and_assoc]

/-- Records of table 7 make a difference on another machine, with RPCs only, when they alone make
the handlers reject or, by their number, accept. -/
theorem unaffected_rpc_iff (away : config.nodeId ≠ 0) (path : build.oneSidedValidate = false)
    (reading : build.oneSidedRead = false) :
    Unaffected build config txn ↔
      txn.locked = false ∨ localPass config txn = false ∨ writesLocal config txn = true ∨
        (txn.HandledPass config txn.readSet ↔ txn.HandledPass config txn.readSet.ordinary) := by
  have freed : gcReadset build config txn.readSet = .ok () := by
    unfold gcReadset
    rw [path, reading]
    rfl
  have outcome : Unaffected build config txn ↔
      (((txn.locked && localPass config txn) = true ∧ txn.HandledPass config txn.readSet) ∧
          writesLocal config txn = false ↔
        ((txn.locked && localPass config txn) = true ∧
            txn.HandledPass config txn.readSet.ordinary) ∧
          writesLocal config txn = false) := by
    have with7 : ∀ delivery, commit build config txn delivery = .ok true ↔
        ((txn.locked && localPass config txn) = true ∧ txn.HandledPass config txn.readSet) ∧
          writesLocal config txn = false := by
      intro delivery
      rw [commit_eq_true_iff (decision_away away path delivery) freed, Bool.and_eq_true,
        decide_eq_true_iff]
    have without7 : ∀ without, commit build config txn.ordinary without = .ok true ↔
        ((txn.locked && localPass config txn) = true ∧
            txn.HandledPass config txn.readSet.ordinary) ∧
          writesLocal config txn = false := by
      intro without
      rw [commit_ordinary, RemoteChecks, path, if_neg Bool.false_ne_true, Bool.and_eq_true,
        ← and_assoc]
      rfl
    constructor
    · intro unaffected
      rw [← with7 (.inOrder _), ← without7 (.inOrder _)]
      exact (unaffected _ _).2
    · intro same delivery without
      refine ⟨commit_ne_nullPointer (decision_away away path delivery) freed, ?_⟩
      rw [with7, without7]
      exact same
  rw [outcome]
  cases txn.locked with
  | false => simp
  | true =>
      cases localPass config txn with
      | false => simp
      | true => cases writesLocal config txn <;> simp

end Decision

/-- `commit` treats the records of table 7 as if they were not there exactly in the harmless
cases. -/
theorem unaffected_iff (build : Build) (config : Config) (txn : Txn Value) :
    Unaffected build config txn ↔ Harmless build config txn := by
  unfold Harmless
  by_cases notNull : ∀ entry ∈ txn.readSet.entries, entry.isNull = false
  · exact iff_of_true (unaffected_of_not_null notNull) (.inl notNull)
  · have placed : ∃ entry ∈ txn.readSet.entries, entry.isNull = true := by
      simpa using notNull
    rw [or_iff_right notNull]
    by_cases home : config.nodeId = 0
    · rw [if_pos home]
      cases path : build.oneSidedValidate with
      | true => exact iff_of_true (unaffected_of_home home path) (.inl rfl)
      | false =>
          rw [unaffected_home_iff placed home path]
          simp
    · rw [if_neg home]
      cases path : build.oneSidedValidate with
      | true =>
          rw [unaffected_oneSided_iff placed home path]
          simp
      | false =>
          cases reading : build.oneSidedRead with
          | true =>
              rw [unaffected_of_freeing (gcReadset_away placed home (by rw [reading]; rfl))
                (decision_away home path)]
              simp [and_assoc, or_comm]
          | false =>
              rw [unaffected_rpc_iff home path reading]
              simp

/-- The second loop of the one-sided validation reads in front of a NULL pointer. -/
theorem not_unaffected :
    ¬ ∀ (build : Build) (config : Config) (txn : Txn Nat), Unaffected build config txn := by
  intro all
  have unaffected := all ⟨true, true, true⟩ ⟨-1, 1, by decide⟩
    { readSet := ⟨[placeholder 5 0], by
        intro entry member
        rw [List.mem_singleton] at member
        exact .inl ⟨5, 0, member⟩⟩
      writeSet := []
      records := fun _ => ⟨0, 2, 0⟩
      lockWrites := fun records => (records, true)
      others := id }
  exact (unaffected (.inOrder _) (.inOrder _)).1 rfl

end Rocc.Occ.Solo.Placeholder
