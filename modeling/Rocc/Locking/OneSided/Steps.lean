import Rocc.Locking.OneSided.Invariant

/-!
# Every verb keeps the invariant

One lemma for each step.  A compare-and-swap that finds 0 takes a lock, an unlock of a
release or of a write-back gives one back, the write of a value pays what a committed
transaction owes, and every other step leaves locks and values alone.
-/

set_option linter.unusedSectionVars false

namespace Rocc.Locking.OneSided

open Rtx

universe u v w x

variable {Key : Type u} {Value : Type v} {Tid : Type w} {Owner : Type x}
variable [DecidableEq Key] [DecidableEq Tid] [DecidableEq Owner]
variable {config : Config Key Tid Owner} {value₀ : Key → Value}
variable {state after : State Key Value Tid} {tid : Tid} {txn : Txn Key Value}

/-! ## Sets -/

@[simp] theorem set_setSet (txn : Txn Key Value) (type : LockType)
    (items : List (Item Key Value)) (stage : Stage Key Value) :
    ({ txn.setSet type items with stage } : Txn Key Value).set type = items := by
  cases type <;> rfl

@[simp] theorem others_setSet (txn : Txn Key Value) (type : LockType)
    (items : List (Item Key Value)) (stage : Stage Key Value) :
    ({ txn.setSet type items with stage } : Txn Key Value).others type =
      txn.others type := by
  cases type <;> rfl

/-- Both sets are the set of a type and the other one. -/
theorem items_perm (txn : Txn Key Value) (type : LockType) :
    txn.items.Perm (tagged type (txn.set type) ++ txn.others type) := by
  cases type with
  | read => exact .refl _
  | write => exact List.perm_append_comm

theorem without_of_concat {type : LockType} {items : List (Item Key Value)}
    {item : Item Key Value} (split : txn.set type = items ++ [item]) :
    txn.without type = tagged type items ++ txn.others type := by
  simp [Txn.without, split]

theorem granted_of_concat {type : LockType} {items : List (Item Key Value)}
    {item : Item Key Value} (split : txn.set type = items ++ [item]) :
    txn.granted type = if item.lock = 0 then [(item, type)] else [] := by
  by_cases free : item.lock = 0 <;> simp [Txn.granted, tagged, split, free]

@[simp] theorem locksOf_tagged (type : LockType) (items : List (Item Key Value)) :
    locksOf (tagged type items) = items.map fun item => (item.key, type) := by
  simp [locksOf, tagged, Function.comp_def]

@[simp] theorem locksOf_append (left right : List (Item Key Value × LockType)) :
    locksOf (left ++ right) = locksOf left ++ locksOf right :=
  List.map_append

/-- The items of a release that all carry the marker are all unlocked. -/
theorem unlocks_of_marked {items : List (Item Key Value)}
    (marked : ∀ item ∈ items, item.lock = lockedMarker) :
    unlocks items = items.map (·.key) := by
  rw [unlocks, List.filter_eq_self.mpr]
  simpa using marked

/-! ## Growing transactions -/

/-- What a growing transaction has to keep. -/
theorem TxnOk.of_growing {records : Key → Record Value} (grows : txn.stage.Growing)
    (requests : ∀ type, txn.stage = .lock type ∨ txn.stage = .lockRead type →
      ∃ items item, txn.set type = items ++ [item] ∧
        ∀ entry ∈ txn.without type, entry.1.key ≠ item.key)
    (kept : ∀ entry ∈ txn.kept, entry.1.lock = lockedMarker ∧
      entry.1.value = (records entry.1.key).value) : TxnOk records txn where
  requests := requests
  kept := kept
  writes posted allWrites releasing := by
    rw [releasing] at grows
    exact absurd grows id
  reads posted writing := by
    rw [writing] at grows
    exact absurd grows id
  keys_nodup decided := absurd decided grows.not_decided

/-- A growing transaction that requests the last item of a set. -/
theorem TxnOk.of_request {records : Key → Record Value} {type : LockType}
    {items : List (Item Key Value)} {item : Item Key Value}
    (stage : txn.stage = .lock type ∨ txn.stage = .lockRead type)
    (split : txn.set type = items ++ [item])
    (fresh : ∀ entry ∈ txn.without type, entry.1.key ≠ item.key)
    (kept : ∀ entry ∈ txn.without type, entry.1.lock = lockedMarker ∧
      entry.1.value = (records entry.1.key).value) : TxnOk records txn := by
  apply TxnOk.of_growing
  · rcases stage with stage | stage <;> simp [stage, Stage.Growing]
  · intro other isOther
    have same : other = type := by
      rcases stage with stage | stage <;> simpa [stage, eq_comm] using isOther
    subst same
    exact ⟨items, item, split, fresh⟩
  · have same : txn.kept = txn.without type := by
      rcases stage with stage | stage <;> simp [Txn.kept, stage]
    rw [same]
    exact kept

/-- The claims of a transaction on the books. -/
theorem claims_perm {left right : Txn Key Value} (same : left.claims.Perm right.claims) :
    (Config.claims config tid left).Perm (Config.claims config tid right) :=
  same.map _

/-- A step that rearranges the claims of a transaction. -/
theorem frame_books {records : Key → Record Value}
    (sameLock : ∀ key, (records key).lock = (state.records key).lock)
    (same : txn.claims.Perm (state.txns tid).claims)
    (stillGrowing : txn.stage.Growing → (state.txns tid).stage.Growing) :
    Books.Step config.Belongs tid (state.books config) (State.books config
      { state with records, txns := Function.update state.txns tid txn }) :=
  .ofClaims_frame sameLock (claims_perm same) stillGrowing

/-- A step in which a growing transaction takes a free lock. -/
theorem acquire_books {key : Key} {record : Record Value} {type : LockType}
    (free : (state.records key).lock = 0) (taken : record.lock = config.word tid type)
    (grows : (state.txns tid).stage.Growing)
    (added : txn.claims.Perm ((key, type) :: (state.txns tid).claims)) :
    Books.Step config.Belongs tid (state.books config) (State.books config
      { state with
        records := Function.update state.records key record,
        txns := Function.update state.txns tid txn,
        events := state.events ++ [.acquired tid key (config.word tid type)] }) := by
  apply Books.Step.ofClaims_acquire
  · exact ⟨type, rfl⟩
  · exact free
  · simpa using taken
  · intro other different
    simp [different]
  · exact grows
  · exact added.map fun claim => (claim.1, config.word tid claim.2)

/-- A step in which a transaction gives a lock back. -/
theorem release_books {key : Key} {record : Record Value} {type : LockType}
    (freed : record.lock = 0)
    (removed : (state.txns tid).claims.Perm ((key, type) :: txn.claims))
    (shrinks : ¬ txn.stage.Growing) :
    Books.Step config.Belongs tid (state.books config) (State.books config
      { state with
        records := Function.update state.records key record,
        txns := Function.update state.txns tid txn,
        events := state.events ++ [.released tid key (config.word tid type)] }) := by
  apply Books.Step.ofClaims_release
  · simpa using freed
  · intro other different
    simp [different]
  · exact removed.map fun claim => (claim.1, config.word tid claim.2)
  · exact shrinks

theorem inv_begin (inv : Inv config value₀ state)
    (stepped : begin state tid = some after) : Inv config value₀ after := by
  simp only [begin] at stepped
  split at stepped
  · rename_i idle
    cases stepped
    have grew : (state.txns tid).stage.Growing := by simp [idle, Stage.Growing]
    apply inv.grow
    · apply frame_books (fun _ => rfl)
      · simp [Txn.claims, idle, Txn.items, locksOf, tagged]
      · exact fun _ => grew
    · apply TxnOk.of_growing
      · trivial
      · simp
      · simp [Txn.kept, Txn.items, tagged]
    · exact fun _ => rfl
    · exact grew
    · exact id
    · simp [Txn.Owes]
  · cases stepped

/-- Everything an executing transaction has in its sets is kept. -/
theorem TxnOk.kept_of_execute {records : Key → Record Value} (ok : TxnOk records txn)
    (executes : txn.stage = .execute) :
    ∀ entry ∈ txn.items, entry.1.lock = lockedMarker ∧
      entry.1.value = (records entry.1.key).value := by
  have kept := ok.kept
  simpa only [Txn.kept, executes] using kept

theorem inv_request (inv : Inv config value₀ state) {type : LockType} {key : Key}
    {lock : Nat} {data : Value}
    (distinct : Distinct state (.request tid type key lock data))
    (stepped : request state tid type key lock data = some after) :
    Inv config value₀ after := by
  simp only [request] at stepped
  split at stepped
  · rename_i executes
    cases stepped
    have grew : (state.txns tid).stage.Growing := by simp [executes, Stage.Growing]
    have kept := (inv.txns tid).kept_of_execute executes
    have members := fun entry =>
      (items_perm (state.txns tid) type).mem_iff (a := entry)
    apply inv.grow
    · apply frame_books (fun _ => rfl)
      · simp only [Txn.claims, executes]
        rw [without_of_concat (set_setSet ..), others_setSet]
        exact ((items_perm _ type).map _).symm
      · exact fun _ => grew
    · apply TxnOk.of_request (.inl rfl) (set_setSet ..)
      · rw [without_of_concat (set_setSet ..), others_setSet]
        intro entry member
        have inItems := (members entry).mpr member
        simp only [Txn.items, tagged, List.mem_append, List.mem_map] at inItems
        rcases inItems with ⟨item, itemMember, rfl⟩ | ⟨item, itemMember, rfl⟩
        · exact distinct item (List.mem_append_left _ itemMember)
        · exact distinct item (List.mem_append_right _ itemMember)
      · rw [without_of_concat (set_setSet ..), others_setSet]
        exact fun entry member => kept entry ((members entry).mpr member)
    · exact fun _ => rfl
    · exact grew
    · exact id
    · simp [Txn.Owes]
  · cases stepped

/-! ## Lock requests -/

/-- What the compare-and-swap of a lock request does. -/
inductive CasOutcome (config : Config Key Tid Owner) (state : State Key Value Tid)
    (tid : Tid) (type : LockType) (items : List (Item Key Value)) (item : Item Key Value) :
    State Key Value Tid → Prop where
  | granted (free : (state.records item.key).lock = 0) :
      CasOutcome config state tid type items item
        ((state.setRecord item.key
          { state.records item.key with lock := config.word tid type }).setTxn tid
            { (state.txns tid).setSet type (items ++ [{ item with lock := 0 }]) with
              stage := .lockRead type } |>.log
                (.acquired tid item.key (config.word tid type)))
  | refused (taken : (state.records item.key).lock ≠ 0) :
      CasOutcome config state tid type items item
        (state.setTxn tid
          { (state.txns tid).setSet type
              (items ++ [{ item with lock := (state.records item.key).lock }]) with
            stage := .lockRead type })

theorem casVerb_cases (inv : Inv config value₀ state)
    (stepped : casVerb config state tid = some after) :
    ∃ type items item, (state.txns tid).stage = .lock type ∧
      (state.txns tid).set type = items ++ [item] ∧
      (∀ entry ∈ (state.txns tid).without type, entry.1.key ≠ item.key) ∧
      CasOutcome config state tid type items item after := by
  simp only [casVerb] at stepped
  split at stepped
  · rename_i type locking
    obtain ⟨items, item, split, fresh⟩ := (inv.txns tid).requests type (.inl locking)
    refine ⟨type, items, item, locking, split, fresh, ?_⟩
    simp only [split, List.getLast?_concat, Option.map_some, List.modifyLast_concat,
      Option.some.injEq] at stepped
    subst stepped
    by_cases free : (state.records item.key).lock = 0
    · simp only [casLock, free, if_true]
      exact .granted free
    · simp only [casLock, free, if_false, State.setRecord, Function.update_eq_self]
      exact .refused free
  · cases stepped

theorem inv_casVerb (inv : Inv config value₀ state)
    (stepped : casVerb config state tid = some after) : Inv config value₀ after := by
  obtain ⟨type, items, item, locking, split, fresh, outcome⟩ := casVerb_cases inv stepped
  have grew : (state.txns tid).stage.Growing := by simp [locking, Stage.Growing]
  have ok := inv.txns tid
  have kept : ∀ entry ∈ (state.txns tid).without type, entry.1.lock = lockedMarker ∧
      entry.1.value = (state.records entry.1.key).value := by
    simpa only [Txn.kept, locking] using ok.kept
  rw [without_of_concat split] at fresh kept
  cases outcome with
  | granted free =>
      apply inv.grow
      · apply acquire_books free rfl grew
        simp only [Txn.claims, locking]
        rw [granted_of_concat (set_setSet ..), without_of_concat (set_setSet ..),
          others_setSet, without_of_concat split]
        simp [locksOf]
      · apply TxnOk.of_request (.inr rfl) (set_setSet ..)
        · rwa [without_of_concat (set_setSet ..), others_setSet]
        · rwa [without_of_concat (set_setSet ..), others_setSet]
      · intro key
        rcases eq_or_ne key item.key with rfl | different
        · simp [State.setTxn, State.setRecord]
        · simp [State.setTxn, State.setRecord, different]
      · exact grew
      · exact id
      · simp [Txn.Owes]
  | refused taken =>
      apply inv.grow
      · apply frame_books (fun _ => rfl)
        · simp only [Txn.claims, locking]
          rw [granted_of_concat (set_setSet ..), without_of_concat (set_setSet ..),
            others_setSet, without_of_concat split]
          simp [taken]
        · exact fun _ => grew
      · apply TxnOk.of_request (.inr rfl) (set_setSet ..)
        · rwa [without_of_concat (set_setSet ..), others_setSet]
        · rwa [without_of_concat (set_setSet ..), others_setSet]
      · exact fun _ => rfl
      · exact grew
      · exact id
      · simp [Txn.Owes]

/-- The locks of a transaction that aborts are the ones its releases look at. -/
theorem claims_abort {allReads : Bool} (allWrites : Bool)
    (marked : ∀ item ∈ chosen allReads txn.readSet, item.lock = lockedMarker) :
    (txn.abort allReads allWrites).claims =
      locksOf (tagged .read (chosen allReads txn.readSet) ++
        tagged .write (chosen allWrites txn.writeSet)) := by
  simp [Txn.claims, Txn.abort, unlocks_of_marked marked, Function.comp_def]

theorem txnOk_abort {records : Key → Record Value} {allReads allWrites : Bool}
    (marked : ∀ item ∈ chosen allWrites txn.writeSet, item.lock = lockedMarker) :
    TxnOk records (txn.abort allReads allWrites) where
  requests type requesting := by simp [Txn.abort] at requesting
  kept entry member := by simp [Txn.kept, Txn.abort] at member
  writes := by
    intro posted all releasing
    cases releasing
    exact marked
  reads posted writing := by simp [Txn.abort] at writing
  keys_nodup decided := by simp [Txn.Decided, Txn.abort] at decided

/-- A growing transaction gives up and releases what it keeps. -/
theorem Inv.abort (inv : Inv config value₀ state) {allReads allWrites : Bool}
    (grew : (state.txns tid).stage.Growing)
    (reads : ∀ item ∈ chosen allReads txn.readSet, item.lock = lockedMarker)
    (writes : ∀ item ∈ chosen allWrites txn.writeSet, item.lock = lockedMarker)
    (same : (locksOf (tagged .read (chosen allReads txn.readSet) ++
      tagged .write (chosen allWrites txn.writeSet))).Perm (state.txns tid).claims) :
    Inv config value₀ (state.setTxn tid (txn.abort allReads allWrites)) := by
  apply inv.grow
  · apply frame_books (fun _ => rfl)
    · rwa [claims_abort allWrites reads]
    · exact fun _ => grew
  · exact txnOk_abort writes
  · exact fun _ => rfl
  · exact grew
  · simp [Txn.Decided, Txn.abort]
  · simp [Txn.Owes, Txn.abort]

/-- A refused request gives up with all the items but the one refused. -/
theorem Inv.refuse (inv : Inv config value₀ state) {type : LockType}
    {items : List (Item Key Value)} {item refused : Item Key Value}
    (reading : (state.txns tid).stage = .lockRead type) (taken : item.lock ≠ 0)
    (split : (state.txns tid).set type = items ++ [item]) :
    Inv config value₀ (state.setTxn tid
      (((state.txns tid).setSet type (items ++ [refused])).refuse type)) := by
  have grew : (state.txns tid).stage.Growing := by simp [reading, Stage.Growing]
  have kept := (inv.txns tid).kept
  have claims : (state.txns tid).claims = locksOf ((state.txns tid).without type) := by
    simp [Txn.claims, reading, granted_of_concat split, taken]
  simp only [Txn.kept, reading] at kept
  rw [without_of_concat split] at kept claims
  cases type with
  | read =>
      apply inv.abort grew
      · intro other member
        have inItems : other ∈ items := by simpa [chosen, Txn.setSet] using member
        exact (kept (other, .read) (by simp [tagged, inItems])).1
      · intro other member
        have inWrites : other ∈ (state.txns tid).writeSet := by
          simpa [chosen, Txn.setSet] using member
        exact (kept (other, .write) (by simp [tagged, Txn.others, inWrites])).1
      · rw [claims]
        simp [chosen, Txn.setSet, Txn.others]
  | write =>
      apply inv.abort grew
      · intro other member
        have inReads : other ∈ (state.txns tid).readSet := by
          simpa [chosen, Txn.setSet] using member
        exact (kept (other, .read) (by simp [tagged, Txn.others, inReads])).1
      · intro other member
        have inItems : other ∈ items := by simpa [chosen, Txn.setSet] using member
        exact (kept (other, .write) (by simp [tagged, inItems])).1
      · rw [claims]
        simpa [chosen, Txn.setSet, Txn.others] using List.perm_append_comm

/-- What the read of a lock request and the tests behind it do. -/
inductive ReadOutcome (config : Config Key Tid Owner) (state : State Key Value Tid)
    (tid : Tid) (type : LockType) (items : List (Item Key Value)) (item : Item Key Value) :
    State Key Value Tid → Prop where
  | granted (free : item.lock = 0) :
      ReadOutcome config state tid type items item
        (state.setTxn tid
          { (state.txns tid).setSet type (items ++
              [{ item with
                  lock := lockedMarker,
                  value := (state.records item.key).value,
                  data := (state.records item.key).value }]) with
            stage := .execute })
  | spins (taken : item.lock ≠ 0)
      (again : spins config.protocol (config.word tid type) item.lock = true)
      (fetched : Item Key Value) (sameKey : fetched.key = item.key) :
      ReadOutcome config state tid type items item
        (state.setTxn tid
          { (state.txns tid).setSet type (items ++ [fetched]) with stage := .lock type })
  | refused (taken : item.lock ≠ 0) (fetched : Item Key Value) :
      ReadOutcome config state tid type items item
        (state.setTxn tid
          (((state.txns tid).setSet type (items ++ [fetched])).refuse type))

theorem readVerb_cases (inv : Inv config value₀ state)
    (stepped : readVerb config state tid = some after) :
    ∃ type items item, (state.txns tid).stage = .lockRead type ∧
      (state.txns tid).set type = items ++ [item] ∧
      (∀ entry ∈ (state.txns tid).without type, entry.1.key ≠ item.key) ∧
      ReadOutcome config state tid type items item after := by
  simp only [readVerb] at stepped
  split at stepped
  · rename_i type reading
    obtain ⟨items, item, split, fresh⟩ := (inv.txns tid).requests type (.inr reading)
    refine ⟨type, items, item, reading, split, fresh, ?_⟩
    simp only [split, List.getLast?_concat, Option.map_some, List.modifyLast_concat,
      Option.some.injEq] at stepped
    subst stepped
    by_cases free : item.lock = 0
    · rw [if_neg (not_not.mpr free)]
      exact .granted free
    · rw [if_pos free]
      split
      · exact .spins free ‹_› _ rfl
      · exact .refused free _
  · cases stepped

theorem inv_readVerb (inv : Inv config value₀ state)
    (stepped : readVerb config state tid = some after) : Inv config value₀ after := by
  obtain ⟨type, items, item, reading, split, fresh, outcome⟩ := readVerb_cases inv stepped
  have grew : (state.txns tid).stage.Growing := by simp [reading, Stage.Growing]
  have kept : ∀ entry ∈ (state.txns tid).without type, entry.1.lock = lockedMarker ∧
      entry.1.value = (state.records entry.1.key).value := by
    simpa only [Txn.kept, reading] using (inv.txns tid).kept
  rw [without_of_concat split] at fresh kept
  cases outcome with
  | granted free =>
      apply inv.grow
      · apply frame_books (fun _ => rfl)
        · simp only [Txn.claims, reading]
          rw [granted_of_concat split, without_of_concat split]
          refine ((items_perm _ type).map _).trans ?_
          rw [set_setSet, others_setSet]
          simpa [free, locksOf, tagged] using List.perm_middle
        · exact fun _ => grew
      · apply TxnOk.of_growing
        · trivial
        · simp
        · intro entry member
          have inItems := (items_perm _ type).mem_iff.mp member
          rw [set_setSet, others_setSet] at inItems
          by_cases isLast : entry ∈ tagged type items ++ (state.txns tid).others type
          · exact kept entry isLast
          · simp only [tagged, List.map_append, List.mem_append, not_or, List.map_cons,
              List.map_nil, List.mem_singleton] at inItems isLast
            rcases inItems with (inItems | rfl) | inOthers
            · exact absurd inItems isLast.1
            · exact ⟨rfl, rfl⟩
            · exact absurd inOthers isLast.2
      · exact fun _ => rfl
      · exact grew
      · exact id
      · simp [Txn.Owes]
  | spins taken again fetched sameKey =>
      apply inv.grow
      · apply frame_books (fun _ => rfl)
        · simp only [Txn.claims, reading]
          rw [granted_of_concat split, without_of_concat (set_setSet ..),
            others_setSet, without_of_concat split]
          simp [taken]
        · exact fun _ => grew
      · apply TxnOk.of_request (.inl rfl) (set_setSet ..)
        · rwa [without_of_concat (set_setSet ..), others_setSet, sameKey]
        · rwa [without_of_concat (set_setSet ..), others_setSet]
      · exact fun _ => rfl
      · exact grew
      · exact id
      · simp [Txn.Owes]
  | refused taken fetched => exact inv.refuse reading taken split

theorem inv_modify (inv : Inv config value₀ state) {key : Key} {data : Value}
    (stepped : modify state tid key data = some after) : Inv config value₀ after := by
  simp only [modify] at stepped
  split at stepped
  · rename_i executes
    cases stepped
    have grew : (state.txns tid).stage.Growing := by simp [executes, Stage.Growing]
    have kept := (inv.txns tid).kept_of_execute executes
    apply inv.grow
    · apply frame_books (fun _ => rfl)
      · simp only [Txn.claims, executes, Txn.items, locksOf_append, locksOf_tagged,
          List.map_map]
        apply List.Perm.of_eq
        congr 1
        apply List.map_congr_left
        intro item _
        simp only [Function.comp_apply]
        split <;> rfl
      · exact fun _ => grew
    · apply TxnOk.of_growing
      · exact grew
      · simp [executes]
      · intro entry member
        simp only [Txn.kept, executes, Txn.items, tagged, List.mem_append, List.mem_map]
          at member
        rcases member with ⟨item, itemMember, rfl⟩ | ⟨_, ⟨item, itemMember, rfl⟩, rfl⟩
        · exact kept (item, .read) (by simp [Txn.items, tagged, itemMember])
        · have known := kept (item, .write) (by simp [Txn.items, tagged, itemMember])
          simp only at known ⊢
          split <;> exact known
    · exact fun _ => rfl
    · exact grew
    · exact grew.not_decided
    · exact grew.not_owes
  · cases stepped

/-! ## Claims and what is owed -/

/-- The lock of a claim carries the word of the claiming transaction. -/
theorem Inv.lock_of_claim (inv : Inv config value₀ state) {claim : Key × LockType}
    (member : claim ∈ (state.txns tid).claims) :
    (state.records claim.1).lock = config.word tid claim.2 :=
  inv.books.held tid (claim.1, config.word tid claim.2)
    (List.mem_map.mpr ⟨claim, member, rfl⟩)

/-- Two claims on one record are of one transaction. -/
theorem Inv.tid_eq_of_claims (inv : Inv config value₀ state) {left right : Tid} {key : Key}
    {leftType rightType : LockType} (leftMember : (key, leftType) ∈ (state.txns left).claims)
    (rightMember : (key, rightType) ∈ (state.txns right).claims) : left = right := by
  have leftLock := inv.lock_of_claim leftMember
  have rightLock := inv.lock_of_claim rightMember
  exact (config.word_injective (leftLock.symm.trans rightLock)).1

/-- An item kept is locked. -/
theorem Txn.mem_claims_of_kept {entry : Item Key Value × LockType}
    (member : entry ∈ txn.kept) : (entry.1.key, entry.2) ∈ txn.claims := by
  have locked : ∀ items : List (Item Key Value × LockType), entry ∈ items →
      (entry.1.key, entry.2) ∈ locksOf items := fun _ inItems =>
    List.mem_map.mpr ⟨entry, inItems, rfl⟩
  simp only [Txn.kept] at member
  split at member <;> rename_i stage <;> simp only [Txn.claims, stage]
  · exact locked _ member
  · exact locked _ member
  · exact locked _ (List.mem_append_right _ member)
  · cases member

/-- A record with a value owed to it is locked. -/
theorem Txn.Owes.mem_claims {item : Item Key Value} (owed : txn.Owes item) :
    (item.key, LockType.write) ∈ txn.claims := by
  obtain ⟨posted, writing, member⟩ := owed
  simp only [Txn.claims, writing, locksOf_tagged, List.map_map, List.mem_append, List.mem_map]
  exact .inl ⟨(item, false), member, rfl⟩

/-- Nothing is owed to a record that a growing transaction keeps. -/
theorem Inv.not_owed_of_kept (inv : Inv config value₀ state)
    {entry : Item Key Value × LockType} (member : entry ∈ (state.txns tid).kept)
    (grows : (state.txns tid).stage.Growing) (data : Value) :
    ¬ Owed state.txns entry.1.key data := by
  rintro ⟨other, item, owed, sameKey, -⟩
  have claimed := owed.mem_claims
  rw [sameKey] at claimed
  have same := inv.tid_eq_of_claims claimed (Txn.mem_claims_of_kept member)
  subst same
  exact grows.not_owes item owed

/-! ## `commit` -/

/-- An executing transaction has distinct records in its sets. -/
theorem Inv.keys_nodup_of_execute (inv : Inv config value₀ state)
    (executes : (state.txns tid).stage = .execute) :
    (((state.txns tid).readSet ++ (state.txns tid).writeSet).map (·.key)).Nodup := by
  have nodup := inv.books.keys_nodup tid
  have keys : (Config.claims config tid (state.txns tid)).map Prod.fst =
      ((state.txns tid).readSet ++ (state.txns tid).writeSet).map (·.key) := by
    simp [Config.claims, Txn.claims, executes, Txn.items, Function.comp_def]
  rwa [← keys]

theorem footprint_reads_eq_some {key : Key} {value : Value}
    (read : txn.footprint.reads key = some value) :
    ∃ item ∈ txn.readSet ++ txn.writeSet, item.key = key ∧ item.value = value := by
  obtain ⟨item, found, rfl⟩ := Option.map_eq_some_iff.mp read
  exact ⟨item, List.mem_of_find?_eq_some found, by simpa using List.find?_some found, rfl⟩

theorem footprint_writes_eq_some
    (nodup : ((txn.readSet ++ txn.writeSet).map (·.key)).Nodup) {key : Key} {data : Value} :
    txn.footprint.writes key = some data ↔
      ∃ item ∈ txn.writeSet, item.key = key ∧ item.data = data := by
  constructor
  · intro written
    obtain ⟨item, found, rfl⟩ := Option.map_eq_some_iff.mp written
    exact ⟨item, List.mem_of_find?_eq_some found, by simpa using List.find?_some found, rfl⟩
  · rintro ⟨item, member, rfl, rfl⟩
    rw [List.map_append, List.nodup_append] at nodup
    exact Option.map_eq_some_iff.mpr ⟨item, find?_of_nodup nodup.2.1 member, rfl⟩

/-- A record of the footprint is in one of the sets. -/
theorem exists_item_of_footprint {key : Key}
    (touched : txn.footprint.reads key ≠ none ∨ txn.footprint.writes key ≠ none) :
    ∃ entry ∈ txn.items, entry.1.key = key := by
  rcases touched with read | written
  · obtain ⟨value, isRead⟩ := Option.ne_none_iff_exists'.mp read
    obtain ⟨item, member, sameKey, -⟩ := footprint_reads_eq_some isRead
    rcases List.mem_append.mp member with member | member
    · exact ⟨(item, .read), by simp [Txn.items, tagged, member], sameKey⟩
    · exact ⟨(item, .write), by simp [Txn.items, tagged, member], sameKey⟩
  · obtain ⟨data, isWritten⟩ := Option.ne_none_iff_exists'.mp written
    obtain ⟨item, found, -⟩ := Option.map_eq_some_iff.mp isWritten
    exact ⟨(item, .write), by simp [Txn.items, tagged, List.mem_of_find?_eq_some found],
      by simpa using List.find?_some found⟩

/-- The transaction after `commit` has posted its write-back. -/
def Txn.writeBack (txn : Txn Key Value) : Txn Key Value :=
  { txn with
    stage := .writeBack (txn.writeSet.map fun item => ({ item with lock := 0 }, false)),
    writeSet := txn.writeSet.map fun item => { item with lock := 0 } }

@[simp] theorem footprint_writeBack (txn : Txn Key Value) :
    txn.writeBack.footprint = txn.footprint := by
  have sets : txn.writeBack.readSet = txn.readSet ∧
      txn.writeBack.writeSet = txn.writeSet.map fun item => { item with lock := 0 } :=
    ⟨rfl, rfl⟩
  simp only [Txn.footprint, sets, List.find?_append, List.find?_map, Function.comp_def,
    Option.map_map]
  congr 1
  funext key
  cases txn.readSet.find? (·.key = key) with
  | some item => rfl
  | none => simp [Function.comp_def]

theorem owes_writeBack (item : Item Key Value) :
    txn.writeBack.Owes item ↔ ∃ written ∈ txn.writeSet, { written with lock := 0 } = item := by
  simp [Txn.Owes, Txn.writeBack]

theorem owed_writeBack {txns : Tid → Txn Key Value} (grew : (txns tid).stage.Growing)
    (nodup : (((txns tid).readSet ++ (txns tid).writeSet).map (·.key)).Nodup) (key : Key)
    (data : Value) :
    Owed (Function.update txns tid (txns tid).writeBack) key data ↔
      Owed txns key data ∨ (txns tid).footprint.writes key = some data := by
  rw [footprint_writes_eq_some nodup]
  constructor
  · rintro ⟨other, item, owed, named⟩
    rcases eq_or_ne other tid with rfl | different
    · rw [Function.update_self, owes_writeBack] at owed
      obtain ⟨written, member, rfl⟩ := owed
      exact .inr ⟨written, member, named⟩
    · rw [Function.update_of_ne different] at owed
      exact .inl ⟨other, item, owed, named⟩
  · rintro (⟨other, item, owed, named⟩ | ⟨written, member, named⟩)
    · have different : other ≠ tid := by
        rintro rfl
        exact grew.not_owes item owed
      exact ⟨other, item, by rwa [Function.update_of_ne different], named⟩
    · refine ⟨tid, { written with lock := 0 }, ?_, named⟩
      rw [Function.update_self, owes_writeBack]
      exact ⟨written, member, rfl⟩

theorem inv_commit (inv : Inv config value₀ state)
    (executes : (state.txns tid).stage = .execute) :
    Inv config value₀
      { state.setTxn tid (state.txns tid).writeBack with
        commitOrder := state.commitOrder ++ [tid] } := by
  have grew : (state.txns tid).stage.Growing := by simp [executes, Stage.Growing]
  have outside : tid ∉ state.commitOrder := fun member =>
    grew.not_decided ((inv.members tid).mp member)
  have nodup := inv.keys_nodup_of_execute executes
  have kept := (inv.txns tid).kept_of_execute executes
  have keeps : ∀ entry ∈ (state.txns tid).items, entry ∈ (state.txns tid).kept := by
    simp [Txn.kept, executes]
  have moved : Books.Step config.Belongs tid (state.books config) (State.books config
      (state.setTxn tid (state.txns tid).writeBack)) := by
    apply frame_books (fun _ => rfl)
    · simp only [Txn.claims, executes, Txn.writeBack, Txn.items, locksOf_append,
        locksOf_tagged, List.map_map, Function.comp_def]
      exact List.perm_append_comm
    · exact fun _ => grew
  constructor
  · exact moved.balanced config.lockWords inv.books
  · exact inv.handover
  · intro other
    simp only [State.setTxn]
    rcases eq_or_ne other tid with rfl | different
    · rw [Function.update_self]
      constructor
      · simp [Txn.writeBack]
      · simp [Txn.kept, Txn.writeBack]
      · simp [Txn.writeBack]
      · intro _ _ item (member : item ∈ (state.txns other).readSet)
        exact (kept (item, .read) (by simp [Txn.items, tagged, member])).1
      · intro _
        simpa [Txn.writeBack, Function.comp_def] using nodup
    · rw [Function.update_of_ne different]
      exact inv.txns other
  · intro other
    simp only [State.setTxn, List.mem_append, List.mem_singleton, inv.members]
    rcases eq_or_ne other tid with rfl | different
    · rw [Function.update_self]
      exact iff_of_true (.inr rfl) trivial
    · rw [Function.update_of_ne different]
      exact ⟨fun either => either.resolve_right different, .inl⟩
  · exact List.nodup_append.mpr ⟨inv.nodup, List.nodup_singleton tid, by
      rintro left leftMember right rightMember rfl
      exact outside (List.mem_singleton.mp rightMember ▸ leftMember)⟩
  · have log : footprints (Function.update state.txns tid (state.txns tid).writeBack)
        (state.commitOrder ++ [tid]) =
          footprints state.txns state.commitOrder ++ [(state.txns tid).footprint] := by
      rw [footprints, List.map_append]
      congr 1
      · exact footprints_update fun _ => footprint_writeBack _
      · simp
    simp only [State.setTxn, log]
    apply inv.deferred.commit
    · intro key value read
      obtain ⟨item, member, rfl, rfl⟩ := footprint_reads_eq_some read
      rcases List.mem_append.mp member with member | member
      · exact (kept (item, .read) (by simp [Txn.items, tagged, member])).2.symm
      · exact (kept (item, .write) (by simp [Txn.items, tagged, member])).2.symm
    · intro key touched value
      obtain ⟨entry, member, rfl⟩ := exists_item_of_footprint touched
      exact inv.not_owed_of_kept (keeps entry member) grew value
    · exact owed_writeBack grew nodup
  · intro first second firstMember secondMember different conflict
    have unreleased : first ≠ tid := by
      rintro rfl
      obtain ⟨key, word, released⟩ := inv.handover.released conflict
      exact inv.books.growing first grew key word released
    have firstOld : first ∈ state.commitOrder :=
      (List.mem_append.mp firstMember).resolve_right (by simpa using unreleased)
    rcases List.mem_append.mp secondMember with secondOld | isLast
    · exact (inv.conflicts first second firstOld secondOld different conflict).trans
        (List.sublist_append_left _ _)
    · exact (List.singleton_sublist.mpr firstOld).append (by simpa using isLast)

/-! ## Write-back and releases -/

/-- A step of a transaction that is not growing and stores no value. -/
theorem Inv.shrink (inv : Inv config value₀ state) {records : Key → Record Value}
    {events : List (LockEvent Tid Key)}
    (moved : Books.Step config.Belongs tid (state.books config) (State.books config
      { state with records, txns := Function.update state.txns tid txn, events }))
    (sameValue : ∀ key, (records key).value = (state.records key).value)
    (shrinks : ¬ txn.stage.Growing)
    (writes : ∀ posted allWrites, txn.stage = .releaseReads posted allWrites →
      ∀ item ∈ chosen allWrites txn.writeSet, item.lock = lockedMarker)
    (reads : ∀ posted, txn.stage = .writeBack posted →
      ∀ item ∈ txn.readSet, item.lock = lockedMarker)
    (decided : txn.Decided ↔ (state.txns tid).Decided)
    (keys : txn.Decided → (txn.readSet ++ txn.writeSet).map (·.key) =
      ((state.txns tid).readSet ++ (state.txns tid).writeSet).map (·.key))
    (footprint : txn.Decided → txn.footprint = (state.txns tid).footprint)
    (owes : ∀ item, txn.Owes item ↔ (state.txns tid).Owes item) :
    Inv config value₀
      { state with records, txns := Function.update state.txns tid txn, events } := by
  refine inv.frame moved ?_ sameValue decided footprint owes
  constructor
  · rintro type (stage | stage)
    · exact absurd (by simp [stage, Stage.Growing]) shrinks
    · exact absurd (by simp [stage, Stage.Growing]) shrinks
  · intro entry member
    cases stage : txn.stage <;> simp_all [Txn.kept, Stage.Growing]
  · exact writes
  · exact reads
  · intro isDecided
    rw [keys isDecided]
    exact (inv.txns tid).keys_nodup (decided.mp isDecided)

theorem value_setRecord {records : Key → Record Value} {target : Key} {record : Record Value}
    (same : record.value = (records target).value) (key : Key) :
    (Function.update records target record key).value = (records key).value := by
  rcases eq_or_ne key target with rfl | different
  · simpa using same
  · simp [different]

/-- An unlock of a release gives back a lock of its sender. -/
theorem inv_unlockVerb (inv : Inv config value₀ state) {machine : Nat} {type : LockType}
    {posted : List Key} {next : List Key → Stage Key Value}
    (releasing : (state.txns tid).stage = next posted)
    (claims : ∀ items rest : List Key, items.Perm rest →
      ({ state.txns tid with stage := next items } : Txn Key Value).claims.Perm
        ({ state.txns tid with stage := next rest } : Txn Key Value).claims)
    (head : ∀ key rest, ({ state.txns tid with stage := next (key :: rest) } :
      Txn Key Value).claims = (key, type) :: ({ state.txns tid with stage := next rest } :
        Txn Key Value).claims)
    (shrinks : ∀ items, ¬ (next items).Growing)
    (writes : ∀ items posted allWrites, next items = .releaseReads posted allWrites →
      ∃ others, (state.txns tid).stage = .releaseReads others allWrites)
    (notWriting : ∀ items posted, next items ≠ .writeBack posted)
    (decided : ∀ items, ({ state.txns tid with stage := next items } :
      Txn Key Value).Decided ↔ (state.txns tid).Decided)
    (stepped : unlockVerb config state tid machine type posted next = some after) :
    Inv config value₀ after := by
  obtain ⟨⟨key, rest⟩, found, rfl⟩ := Option.map_eq_some_iff.mp stepped
  apply inv.shrink
  · apply release_books rfl
    · have same : state.txns tid = { state.txns tid with stage := next posted } := by
        rw [← releasing]
      rw [same, ← head]
      exact claims _ _ (nextFor_perm found)
    · exact shrinks rest
  · exact value_setRecord rfl
  · exact shrinks rest
  · intro others allWrites isReleasing
    obtain ⟨before, wasReleasing⟩ := writes rest others allWrites isReleasing
    exact (inv.txns tid).writes before allWrites wasReleasing
  · exact fun others isWriting => absurd isWriting (notWriting rest others)
  · exact decided rest
  · exact fun _ => rfl
  · exact fun _ => rfl
  · intro item
    refine iff_of_false (not_owes_of_stage (notWriting rest) item)
      (not_owes_of_stage (fun others isWriting => ?_) item)
    exact notWriting posted others (releasing.symm.trans isWriting)

theorem inv_releaseVerb (inv : Inv config value₀ state) {machine : Nat}
    (stepped : releaseVerb config state tid machine = some after) :
    Inv config value₀ after := by
  simp only [releaseVerb] at stepped
  split at stepped
  case h_4 => cases stepped
  all_goals
    rename_i releasing
    refine inv_unlockVerb inv releasing ?_ ?_ ?_ ?_ ?_ ?_ stepped
    · intro items rest same
      simp only [Txn.claims]
      first
      | exact same.map _
      | exact (same.map _).append_right _
    · exact fun key rest => rfl
    · exact fun items => id
    · intro items posted all isReleasing
      first
      | cases isReleasing
        exact ⟨_, releasing⟩
      | cases isReleasing
    · exact fun items posted isWriting => by cases isWriting
    · intro items
      simp [Txn.Decided, releasing]

/-- The footprint is about the values of the read set, not about its markers. -/
theorem footprint_cleared (txn : Txn Key Value) (stage : Stage Key Value) :
    ({ txn with stage, readSet := cleared true txn.readSet } : Txn Key Value).footprint =
      txn.footprint := by
  have key : ∀ item : Item Key Value, item.clear.key = item.key := by
    intro item
    unfold Item.clear
    split <;> rfl
  have value : ∀ item : Item Key Value, item.clear.value = item.value := by
    intro item
    unfold Item.clear
    split <;> rfl
  simp only [Txn.footprint, cleared, if_true, List.find?_append, List.find?_map,
    Function.comp_def, key]
  congr 1
  funext other
  cases txn.readSet.find? (·.key = other) with
  | none => rfl
  | some item => simp [value]

theorem inv_resume (inv : Inv config value₀ state)
    (stepped : resume state tid = some after) : Inv config value₀ after := by
  simp only [resume] at stepped
  split at stepped
  · rename_i allWrites releasing
    cases stepped
    have marked := (inv.txns tid).writes [] allWrites releasing
    apply inv.shrink
    · apply frame_books (fun _ => rfl)
      · simp [Txn.claims, Txn.abortWrites, releasing, unlocks_of_marked marked,
          Function.comp_def]
      · exact fun grows => absurd grows id
    · exact fun _ => rfl
    · exact id
    · simp [Txn.abortWrites]
    · simp [Txn.abortWrites]
    · simp [Txn.Decided, Txn.abortWrites, releasing]
    · exact fun isDecided => absurd isDecided id
    · exact fun isDecided => absurd isDecided id
    · simp [Txn.Owes, Txn.abortWrites, releasing]
  · rename_i releasing
    cases stepped
    apply inv.shrink
    · apply frame_books (fun _ => rfl)
      · simp [Txn.claims, releasing]
      · exact fun grows => absurd grows id
    · exact fun _ => rfl
    · exact id
    · simp
    · simp
    · simp [Txn.Decided, releasing]
    · exact fun _ => rfl
    · exact fun _ => rfl
    · simp [Txn.Owes, releasing]
  · rename_i writing
    cases stepped
    have marked := (inv.txns tid).reads [] writing
    have keys : (cleared true (state.txns tid).readSet).map (·.key) =
        (state.txns tid).readSet.map (·.key) := by
      simp only [cleared, if_true, List.map_map]
      apply List.map_congr_left
      intro item _
      simp only [Function.comp_apply, Item.clear]
      split <;> rfl
    apply inv.shrink
    · apply frame_books (fun _ => rfl)
      · simp [Txn.claims, writing, chosen, unlocks_of_marked marked, Function.comp_def]
      · exact fun grows => absurd grows id
    · exact fun _ => rfl
    · exact id
    · simp
    · simp
    · simp [Txn.Decided, writing]
    · intro _
      rw [List.map_append, List.map_append, keys]
    · exact fun _ => footprint_cleared _ _
    · simp [Txn.Owes, writing]
  · rename_i releasing
    cases stepped
    apply inv.shrink
    · apply frame_books (fun _ => rfl)
      · simp [Txn.claims, releasing]
      · exact fun grows => absurd grows id
    · exact fun _ => rfl
    · exact id
    · simp
    · simp
    · simp [Txn.Decided, releasing]
    · exact fun _ => rfl
    · exact fun _ => rfl
    · simp [Txn.Owes, releasing]
  · cases stepped

/-- The locks of a write-back do not depend on which values have been stored. -/
theorem claims_writeBack_perm {txn : Txn Key Value} {posted rest : List (Item Key Value × Bool)}
    (same : (posted.map (·.1)).Perm (rest.map (·.1))) :
    ({ txn with stage := .writeBack posted } : Txn Key Value).claims.Perm
      ({ txn with stage := .writeBack rest } : Txn Key Value).claims := by
  simp only [Txn.claims, locksOf_tagged]
  exact (same.map _).append_right _

/-- The value of an item reaches its record. -/
theorem inv_writeValue (inv : Inv config value₀ state)
    {posted rest : List (Item Key Value × Bool)} {item : Item Key Value}
    {concerns : Item Key Value × Bool → Bool}
    (writing : (state.txns tid).stage = .writeBack posted)
    (found : nextFor concerns posted = some ((item, false), rest)) :
    Inv config value₀
      ((state.setRecord item.key { state.records item.key with value := item.data }).setTxn tid
        { state.txns tid with stage := .writeBack ((item, true) :: rest) }) := by
  have same : state.txns tid = { state.txns tid with stage := .writeBack posted } := by
    rw [← writing]
  have owed : (state.txns tid).Owes item :=
    ⟨posted, writing, (mem_of_nextFor found).mpr (.inl rfl)⟩
  have sameLock : ∀ key, (Function.update state.records item.key
      { state.records item.key with value := item.data } key).lock =
        (state.records key).lock := by
    intro key
    rcases eq_or_ne key item.key with rfl | different
    · simp
    · simp [different]
  have sameValue : ∀ key, (Function.update state.records item.key
      { state.records item.key with value := item.data } key).value =
        Function.update (fun key => (state.records key).value) item.key item.data key := by
    intro key
    rcases eq_or_ne key item.key with rfl | different
    · simp
    · simp [different]
  apply inv.update
  · apply frame_books sameLock
    · rw [same]
      exact claims_writeBack_perm ((nextFor_perm found).map Prod.fst).symm
    · exact fun grows => absurd grows id
  · constructor
    · simp
    · simp [Txn.kept]
    · simp
    · exact fun _ _ => (inv.txns tid).reads posted writing
    · exact fun _ => (inv.txns tid).keys_nodup (by simp [Txn.Decided, writing])
  · intro other different entry member
    refine (sameValue entry.1.key).trans (Function.update_of_ne ?_ _ _)
    intro sameKey
    have claimed := Txn.mem_claims_of_kept member
    rw [sameKey] at claimed
    exact different (inv.tid_eq_of_claims claimed owed.mem_claims)
  · simp [Txn.Decided, writing]
  · have log : footprints (Function.update state.txns tid
        { state.txns tid with stage := .writeBack ((item, true) :: rest) })
          state.commitOrder = footprints state.txns state.commitOrder :=
      footprints_update fun _ => rfl
    rw [log]
    simp only [State.setRecord, sameValue]
    apply inv.deferred.pay ⟨tid, item, owed, rfl, rfl⟩
    · rintro key data ⟨other, left, isOwed, rfl, rfl⟩
      rcases eq_or_ne other tid with rfl | different
      · obtain ⟨before, wasWriting, member⟩ := isOwed
        rw [writing] at wasWriting
        cases wasWriting
        rcases (mem_of_nextFor found).mp member with isItem | stillPosted
        · cases isItem
          exact .inl rfl
        · refine .inr ⟨other, left, ?_, rfl, rfl⟩
          rw [Function.update_self]
          exact ⟨_, rfl, List.mem_cons_of_mem _ stillPosted⟩
      · exact .inr ⟨other, left, by rwa [Function.update_of_ne different], rfl, rfl⟩
    · rintro key data ⟨other, left, isOwed, named⟩
      refine ⟨other, left, ?_, named⟩
      rcases eq_or_ne other tid with rfl | different
      · rw [Function.update_self] at isOwed
        obtain ⟨now, isWriting, member⟩ := isOwed
        cases isWriting
        have stillPosted : (left, false) ∈ rest := by simpa using member
        exact ⟨posted, writing, (mem_of_nextFor found).mpr (.inr stillPosted)⟩
      · rwa [Function.update_of_ne different] at isOwed

/-- The unlock of an item whose value has been stored. -/
theorem inv_writeUnlock (inv : Inv config value₀ state)
    {posted rest : List (Item Key Value × Bool)} {item : Item Key Value}
    {concerns : Item Key Value × Bool → Bool}
    (writing : (state.txns tid).stage = .writeBack posted)
    (found : nextFor concerns posted = some ((item, true), rest)) :
    Inv config value₀
      (((state.setRecord item.key { state.records item.key with lock := 0 }).setTxn tid
        { state.txns tid with stage := .writeBack rest }).log
          (.released tid item.key (config.word tid .write))) := by
  have same : state.txns tid = { state.txns tid with stage := .writeBack posted } := by
    rw [← writing]
  apply inv.shrink
  · apply release_books rfl
    · rw [same]
      exact claims_writeBack_perm ((nextFor_perm found).map _)
    · exact id
  · exact value_setRecord rfl
  · exact id
  · simp
  · exact fun _ _ => (inv.txns tid).reads posted writing
  · simp [Txn.Decided, writing]
  · exact fun _ => rfl
  · exact fun _ => rfl
  · intro other
    simp only [Txn.Owes, writing, Stage.writeBack.injEq, exists_eq_left',
      mem_of_nextFor found, Prod.mk.injEq, Bool.false_eq_true, and_false, false_or]

theorem inv_writeBackVerb (inv : Inv config value₀ state) {machine : Nat}
    (stepped : writeBackVerb config state tid machine = some after) :
    Inv config value₀ after := by
  simp only [writeBackVerb] at stepped
  split at stepped
  · rename_i posted writing
    obtain ⟨⟨⟨item, written⟩, rest⟩, found, rfl⟩ := Option.map_eq_some_iff.mp stepped
    cases written with
    | false => exact inv_writeValue inv writing found
    | true => exact inv_writeUnlock inv writing found
  · cases stepped

theorem inv_commitOrAbort (inv : Inv config value₀ state) {vote : Bool}
    (stepped : commit state tid vote = some after) : Inv config value₀ after := by
  simp only [commit] at stepped
  split at stepped
  · rename_i executes
    cases vote with
    | true =>
        cases stepped
        exact inv_commit inv executes
    | false =>
        cases stepped
        have kept := (inv.txns tid).kept_of_execute executes
        apply inv.abort (by simp [executes, Stage.Growing])
        · intro item member
          have inReads : item ∈ (state.txns tid).readSet := member
          exact (kept (item, .read) (by simp [Txn.items, tagged, inReads])).1
        · intro item member
          have inWrites : item ∈ (state.txns tid).writeSet := member
          exact (kept (item, .write) (by simp [Txn.items, tagged, inWrites])).1
        · simp [Txn.claims, executes, Txn.items, chosen]
  · cases stepped

/-- Every step keeps the invariant. -/
theorem inv_step {action : Action Key Value Tid} (inv : Inv config value₀ state)
    (distinct : Distinct state action) (stepped : step config state action = some after) :
    Inv config value₀ after := by
  cases action with
  | begin tid => exact inv_begin inv stepped
  | request tid type key lock data => exact inv_request inv distinct stepped
  | casVerb tid => exact inv_casVerb inv stepped
  | readVerb tid => exact inv_readVerb inv stepped
  | modify tid key data => exact inv_modify inv stepped
  | commit tid vote => exact inv_commitOrAbort inv stepped
  | writeBackVerb tid machine => exact inv_writeBackVerb inv stepped
  | releaseVerb tid machine => exact inv_releaseVerb inv stepped
  | resume tid => exact inv_resume inv stepped

theorem inv_of_reach {value : Key → Value} {seq : Key → Nat}
    (reach : Reach (step config) Distinct (State.initial value seq) state) :
    Inv config value state :=
  reach.invariant (Inv config value) (inv_initial value seq)
    fun _ _ _ inv distinct stepped => inv_step inv distinct stepped

end Rocc.Locking.OneSided
