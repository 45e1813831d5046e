import Rocc.Mvcc.Invariant

/-!
# Every step keeps the invariant

A step either leaves locks and versions alone (`Inv.frame`), takes a lock
(`Inv.acquire`), gives one back (`Inv.release`) or installs a version
(`Inv.install`).  Taking and giving back both rewrite one lock word and nothing
else (`Inv.setLock`).  Installing carries the argument: whoever read the record
before has a timestamp at most that of the lock holder.
-/

set_option linter.unusedSectionVars false

namespace Rocc.Mvcc

open Rtx

universe u v w

variable {Key : Type u} {Value : Type v} {Tid : Type w}
variable [DecidableEq Key] [DecidableEq Tid]
variable {config : Config Key Tid} {value : Key → Value}
variable {state after : State Key Value Tid} {tid : Tid} {txn : Txn Key Value}

/-! ## Items of the other transactions -/

theorem ReadOk.mono {header header' : Header Value} {history : List (Nat × Value)}
    {timestamp : Nat} {item : ReadSetItem Key Value}
    (ok : ReadOk header history timestamp item) (sameLock : header'.lock = header.lock)
    (marked : header.rts ≤ header'.rts) : ReadOk header' history timestamp item where
  marked := ok.marked.trans marked
  unlocked := by
    rw [sameLock]
    exact ok.unlocked
  selected := ok.selected

theorem HoldOk.congr {header header' : Header Value} {history : List (Nat × Value)}
    {timestamp : Nat} {item : ReadSetItem Key Value}
    (ok : HoldOk header history timestamp item) (same : header'.wts = header.wts) :
    HoldOk header' history timestamp item where
  base := ok.base
  newest := ok.newest
  below := ok.below
  smallest := by
    rw [same]
    exact ok.smallest

theorem Written.mono {txns txns' : Tid → Txn Key Value} {key : Key}
    {version : Nat × Value} (written : Written config value txns key version)
    (kept : ∀ tid item, (txns tid).Installed item → (txns' tid).Installed item) :
    Written config value txns' key version := by
  rcases written with first | ⟨writer, item, done, itemKey, same⟩
  · exact .inl first
  · exact .inr ⟨writer, item, kept writer item done, itemKey, same⟩

theorem installed_update {txns : Tid → Txn Key Value}
    (kept : ∀ item, (txns tid).Installed item → txn.Installed item) :
    ∀ other item, (txns other).Installed item →
      (Function.update txns tid txn other).Installed item := by
  intro other item done
  rcases eq_or_ne other tid with rfl | different
  · rw [Function.update_self]
    exact kept item done
  · rw [Function.update_of_ne different]
    exact done

/-- A version in the history of a record was not written by a transaction that has
not decided. -/
theorem Inv.version_ne (inv : Inv config value state)
    (undecided : ¬ (state.txns tid).Decided) {key : Key} {version : Nat × Value}
    (member : version ∈ state.history key) : version.1 ≠ config.timestamp tid := by
  intro same
  rcases inv.written key version member with first | ⟨writer, item, done, -, written⟩
  · have := config.two_le_timestamp tid
    rw [first] at same
    omega
  · rw [written] at same
    have sameTid := config.timestamp_injective same
    rw [sameTid] at done
    exact undecided done.1

/-! ## Frame rules -/

/-- A step of one transaction that changes no lock and no version. -/
theorem Inv.frame (inv : Inv config value state) {records : Key → Header Value}
    {commits : List Tid}
    (sameLock : ∀ key, (records key).lock = (state.records key).lock)
    (sameWts : ∀ key, (records key).wts = (state.records key).wts)
    (sameData : ∀ key, (records key).data = (state.records key).data)
    (marked : ∀ key, (state.records key).rts ≤ (records key).rts)
    (sameClaims : config.claims tid txn = config.claims tid (state.txns tid))
    (stillGrowing : txn.stage.Growing → (state.txns tid).stage.Growing)
    (reads : ∀ item ∈ txn.readSet,
      ReadOk (records item.key) (state.history item.key) (config.timestamp tid) item)
    (holds : ∀ item ∈ txn.holds, HoldOk (state.records item.key)
      (state.history item.key) (config.timestamp tid) item)
    (installed : ∀ item, txn.Installed item ↔ (state.txns tid).Installed item)
    (keysNodup : (txn.writeSet.map (·.key)).Nodup)
    (holdsSubset : ∀ item ∈ txn.holds, item ∈ txn.writeSet)
    (commitsNodup : commits.Nodup)
    (memCommits : ∀ other, other ∈ commits ↔
      (Function.update state.txns tid txn other).Decided) :
    Inv config value { state with
      records, txns := Function.update state.txns tid txn, commits } where
  ledger := by
    apply Ledger.frame inv.ledger sameLock
    · rw [Function.forall_update_iff state.txns fun other txn =>
        (config.claims other txn).Perm (config.claims other (state.txns other))]
      exact ⟨.of_eq sameClaims, fun _ _ => .refl _⟩
    · rw [Function.forall_update_iff state.txns fun other txn =>
        txn.stage.Growing → (state.txns other).stage.Growing]
      exact ⟨stillGrowing, fun _ _ => id⟩
  window key := by
    rw [sameWts, sameData]
    exact inv.window key
  base := inv.base
  written key version member := (inv.written key version member).mono
    (installed_update fun item => (installed item).mpr)
  reads := by
    rw [Function.forall_update_iff state.txns fun other txn => ∀ item ∈ txn.readSet,
      ReadOk (records item.key) (state.history item.key) (config.timestamp other) item]
    refine ⟨reads, fun other _ item member => ?_⟩
    exact (inv.reads other item member).mono (sameLock item.key) (marked item.key)
  holds := by
    rw [Function.forall_update_iff state.txns fun other txn => ∀ item ∈ txn.holds,
      HoldOk (records item.key) (state.history item.key) (config.timestamp other) item]
    constructor
    · intro item member
      exact (holds item member).congr (sameWts item.key)
    · intro other _ item member
      exact (inv.holds other item member).congr (sameWts item.key)
  installed := by
    rw [Function.forall_update_iff state.txns fun other txn => ∀ item, txn.Installed item →
      InstallOk (state.history item.key) (config.timestamp other) item]
    constructor
    · intro item done
      exact inv.installed tid item ((installed item).mp done)
    · intro other _
      exact inv.installed other
  keys_nodup := by
    rw [Function.forall_update_iff state.txns fun _ txn => (txn.writeSet.map (·.key)).Nodup]
    exact ⟨keysNodup, fun other _ => inv.keys_nodup other⟩
  holds_subset := by
    rw [Function.forall_update_iff state.txns fun _ txn =>
      ∀ item ∈ txn.holds, item ∈ txn.writeSet]
    exact ⟨holdsSubset, fun other _ => inv.holds_subset other⟩
  commits_nodup := commitsNodup
  mem_commits := memCommits

/-- The commit history does not mention the transactions that move. -/
theorem Inv.mem_commits_update (inv : Inv config value state)
    (same : txn.Decided ↔ (state.txns tid).Decided) :
    ∀ other, other ∈ state.commits ↔ (Function.update state.txns tid txn other).Decided := by
  rw [Function.forall_update_iff state.txns fun other txn =>
    other ∈ state.commits ↔ txn.Decided]
  exact ⟨(inv.mem_commits tid).trans same.symm, fun other _ => inv.mem_commits other⟩

/-- A transaction that has not decided has installed nothing. -/
theorem Txn.not_installed (undecided : ¬ txn.Decided) (item : ReadSetItem Key Value) :
    ¬ txn.Installed item :=
  fun done => undecided done.1

/-- A step of an undecided transaction that changes no record. -/
theorem Inv.move (inv : Inv config value state)
    (sameClaims : config.claims tid txn = config.claims tid (state.txns tid))
    (stillGrowing : txn.stage.Growing → (state.txns tid).stage.Growing)
    (reads : ∀ item ∈ txn.readSet, item ∈ (state.txns tid).readSet)
    (holds : ∀ item ∈ txn.holds, HoldOk (state.records item.key)
      (state.history item.key) (config.timestamp tid) item)
    (undecided : ¬ txn.Decided) (wasUndecided : ¬ (state.txns tid).Decided)
    (keysNodup : (txn.writeSet.map (·.key)).Nodup)
    (holdsSubset : ∀ item ∈ txn.holds, item ∈ txn.writeSet) :
    Inv config value (state.setTxn tid txn) :=
  inv.frame (fun _ => rfl) (fun _ => rfl) (fun _ => rfl) (fun _ => le_rfl) sameClaims
    stillGrowing (fun item member => inv.reads tid item (reads item member)) holds
    (fun item => iff_of_false (Txn.not_installed undecided item)
      (Txn.not_installed wasUndecided item))
    keysNodup holdsSubset inv.commits_nodup
    (inv.mem_commits_update (iff_of_false undecided wasUndecided))

theorem wts_setLock (records : Key → Header Value) (key : Key) (lock : Nat) (other : Key) :
    (Function.update records key { records key with lock } other).wts =
      (records other).wts := by
  rcases eq_or_ne other key with rfl | different
  · rw [Function.update_self]
  · rw [Function.update_of_ne different]

theorem data_setLock (records : Key → Header Value) (key : Key) (lock : Nat) (other : Key) :
    (Function.update records key { records key with lock } other).data =
      (records other).data := by
  rcases eq_or_ne other key with rfl | different
  · rw [Function.update_self]
  · rw [Function.update_of_ne different]

/-- Keys of the locks a transaction holds are distinct. -/
theorem Inv.holds_nodup (inv : Inv config value state) (tid : Tid) :
    ((state.txns tid).holds.map (·.key)).Nodup := by
  have distinct := inv.ledger.keys_nodup tid
  simpa [Config.claims, Function.comp_def] using distinct

/-- One transaction at most holds the lock of a record. -/
theorem Inv.holder_unique (inv : Inv config value state) {other : Tid}
    {item otherItem : ReadSetItem Key Value} (held : item ∈ (state.txns tid).holds)
    (otherHeld : otherItem ∈ (state.txns other).holds)
    (sameKey : otherItem.key = item.key) : other = tid ∧ otherItem = item := by
  have claim : (item.key, config.timestamp tid) ∈ config.claims tid (state.txns tid) :=
    List.mem_map.mpr ⟨item, held, rfl⟩
  have otherClaim : (item.key, config.timestamp other) ∈
      config.claims other (state.txns other) :=
    List.mem_map.mpr ⟨otherItem, otherHeld, by rw [sameKey]⟩
  have same := (inv.ledger.claim_unique config.lockWords otherClaim claim).1
  subst same
  exact ⟨rfl, List.inj_on_of_nodup_map (inv.holds_nodup other) otherHeld held sameKey⟩

/-- The lock word of a record that a transaction holds is its timestamp. -/
theorem Inv.lock_of_holds (inv : Inv config value state) {item : ReadSetItem Key Value}
    (held : item ∈ (state.txns tid).holds) :
    (state.records item.key).lock = config.timestamp tid :=
  inv.ledger.held tid (item.key, config.timestamp tid)
    (List.mem_map.mpr ⟨item, held, rfl⟩)

/-- A transaction that has not decided takes a lock or gives one back, and leaves the versions
alone. -/
theorem Inv.setLock (inv : Inv config value state) {key : Key} {word : Nat}
    {events : List (LockEvent Tid Key)}
    (ledger : State.Ledger config { state with
      records := Function.update state.records key { state.records key with lock := word }
      txns := Function.update state.txns tid txn
      events })
    (undecided : ¬ (state.txns tid).Decided) (stillUndecided : ¬ txn.Decided)
    (sameReads : txn.readSet = (state.txns tid).readSet)
    (readable : word = 0 ∨ (state.records key).rts ≤ word)
    (holds : ∀ held ∈ txn.holds, HoldOk (state.records held.key) (state.history held.key)
      (config.timestamp tid) held)
    (keys_nodup : (txn.writeSet.map (·.key)).Nodup)
    (holds_subset : ∀ held ∈ txn.holds, held ∈ txn.writeSet) :
    Inv config value { state with
      records := Function.update state.records key { state.records key with lock := word }
      txns := Function.update state.txns tid txn
      events } := by
  have reads : ∀ other, ∀ read ∈ (state.txns other).readSet,
      ReadOk (Function.update state.records key { state.records key with lock := word } read.key)
        (state.history read.key) (config.timestamp other) read := by
    intro other read member
    have readOk := inv.reads other read member
    rcases eq_or_ne read.key key with sameKey | different
    · rw [sameKey] at readOk ⊢
      rw [Function.update_self]
      exact ⟨readOk.marked, readable.imp_right readOk.marked.trans, readOk.selected⟩
    · rw [Function.update_of_ne different]
      exact readOk
  constructor
  case ledger => exact ledger
  case window =>
    intro other
    simp only [wts_setLock, data_setLock]
    exact inv.window other
  case base => exact inv.base
  case written =>
    intro other version member
    refine (inv.written other version member).mono (installed_update fun item done => ?_)
    exact absurd done (Txn.not_installed undecided item)
  case reads =>
    rw [Function.forall_update_iff state.txns fun other txn => ∀ read ∈ txn.readSet,
      ReadOk (Function.update state.records key
        { state.records key with lock := word } read.key)
        (state.history read.key) (config.timestamp other) read, sameReads]
    exact ⟨reads tid, fun other _ => reads other⟩
  case holds =>
    rw [Function.forall_update_iff state.txns fun other txn => ∀ held ∈ txn.holds,
      HoldOk (Function.update state.records key
        { state.records key with lock := word } held.key)
        (state.history held.key) (config.timestamp other) held]
    constructor
    · intro held member
      exact (holds held member).congr (wts_setLock ..)
    · intro other _ held member
      exact (inv.holds other held member).congr (wts_setLock ..)
  case installed =>
    rw [Function.forall_update_iff state.txns fun other txn => ∀ item, txn.Installed item →
      InstallOk (state.history item.key) (config.timestamp other) item]
    refine ⟨?_, fun other _ => inv.installed other⟩
    intro other done
    exact absurd done (Txn.not_installed stillUndecided other)
  case keys_nodup =>
    rw [Function.forall_update_iff state.txns fun _ txn => (txn.writeSet.map (·.key)).Nodup]
    exact ⟨keys_nodup, fun other _ => inv.keys_nodup other⟩
  case holds_subset =>
    rw [Function.forall_update_iff state.txns fun _ txn =>
      ∀ item ∈ txn.holds, item ∈ txn.writeSet]
    exact ⟨holds_subset, fun other _ => inv.holds_subset other⟩
  case commits_nodup => exact inv.commits_nodup
  case mem_commits => exact inv.mem_commits_update (iff_of_false stillUndecided undecided)

/-- An executing transaction takes a free lock. -/
theorem Inv.acquire (inv : Inv config value state) {item : ReadSetItem Key Value}
    (executes : (state.txns tid).stage = .execute)
    (free : (state.records item.key).lock = 0)
    (fresh : ∀ other ∈ (state.txns tid).writeSet, other.key ≠ item.key)
    (readBound : (state.records item.key).rts ≤ config.timestamp tid)
    (ok : HoldOk (state.records item.key) (state.history item.key)
      (config.timestamp tid) item) :
    Inv config value { state with
      records := Function.update state.records item.key
        { state.records item.key with lock := config.timestamp tid }
      txns := Function.update state.txns tid
        { state.txns tid with writeSet := (state.txns tid).writeSet ++ [item] }
      events := state.events ++ [.acquired tid item.key (config.timestamp tid)] } := by
  have undecided : ¬ (state.txns tid).Decided := by simp [Txn.Decided, executes]
  have stillUndecided : ¬ ({ state.txns tid with
      writeSet := (state.txns tid).writeSet ++ [item] } : Txn Key Value).Decided := by
    simp [Txn.Decided, executes]
  have holds : (state.txns tid).holds = (state.txns tid).writeSet := by
    simp [Txn.holds, executes]
  refine inv.setLock ?_ undecided stillUndecided rfl (.inr readBound) ?_ ?_ ?_
  · apply Ledger.acquire inv.ledger config.lockWords free
    · simp [executes, Stage.Growing]
    · rfl
    · simp
    · intro other different
      simp [different]
    · simp only [Function.update_self, Config.claims, Txn.holds, executes, List.map_append,
        List.map_cons, List.map_nil]
      exact List.perm_append_singleton _ _
    · intro other different
      simp [different]
    · rw [Function.forall_update_iff state.txns fun other txn =>
        txn.stage.Growing → (state.txns other).stage.Growing]
      exact ⟨id, fun _ _ => id⟩
  · intro held member
    simp only [Txn.holds, executes] at member
    rcases List.mem_append.mp member with member | member
    · exact inv.holds tid held (holds ▸ member)
    · rw [List.mem_singleton.mp member]
      exact ok
  · simp only [List.map_append, List.map_cons, List.map_nil]
    rw [List.nodup_append]
    refine ⟨inv.keys_nodup tid, by simp, ?_⟩
    intro key member last lastMember
    obtain ⟨other, otherMember, rfl⟩ := List.mem_map.mp member
    rw [List.mem_singleton.mp lastMember]
    exact fresh other otherMember
  · intro held member
    simpa [Txn.holds, executes] using member

/-- Removing one item from a message removes one claim. -/
theorem claims_nextFor {concerns : ReadSetItem Key Value → Bool}
    {pending rest : List (ReadSetItem Key Value)} {item : ReadSetItem Key Value}
    (holds : (state.txns tid).holds = pending)
    (found : nextFor concerns pending = some (item, rest))
    (kept : txn.holds = rest) :
    (config.claims tid (state.txns tid)).Perm
      ((item.key, config.timestamp tid) :: config.claims tid txn) := by
  rw [Config.claims, Config.claims, holds, kept]
  exact (nextFor_perm found).map _

/-- A transaction gives a lock back and leaves the versions alone. -/
theorem Inv.release (inv : Inv config value state) {machine : Nat}
    {pending rest : List (ReadSetItem Key Value)} {item : ReadSetItem Key Value}
    (releases : (state.txns tid).stage = .release pending)
    (found : nextFor (config.at machine) pending = some (item, rest)) :
    Inv config value { state with
      records := Function.update state.records item.key
        { state.records item.key with lock := 0 }
      txns := Function.update state.txns tid { state.txns tid with stage := .release rest }
      events := state.events ++ [.released tid item.key (config.timestamp tid)] } := by
  have holds : (state.txns tid).holds = pending := by simp [Txn.holds, releases]
  have undecided : ¬ (state.txns tid).Decided := by simp [Txn.Decided, releases]
  have stillUndecided : ¬ ({ state.txns tid with stage := .release rest } :
      Txn Key Value).Decided := by
    simp [Txn.Decided]
  have smaller : ∀ other ∈ rest, other ∈ (state.txns tid).holds := by
    intro other member
    rw [holds]
    exact (mem_of_nextFor found).mpr (.inr member)
  refine inv.setLock ?_ undecided stillUndecided rfl (.inl rfl) ?_ (inv.keys_nodup tid) ?_
  · apply Ledger.release inv.ledger config.lockWords
    · simp
    · intro other different
      simp [different]
    · simp only [Function.update_self]
      exact claims_nextFor holds found rfl
    · intro other different
      simp [different]
    · rw [Function.forall_update_iff state.txns fun other txn =>
        txn.stage.Growing → (state.txns other).stage.Growing]
      exact ⟨False.elim, fun _ _ => id⟩
    · simp [Stage.Growing]
  · exact fun held member => inv.holds tid held (smaller held member)
  · exact fun held member => inv.holds_subset tid held (smaller held member)

/-- Readers of a record have timestamps up to that of its lock holder, so they would
select what they were given also from the history with the new version. -/
theorem Inv.reads_install (inv : Inv config value state) {item : ReadSetItem Key Value}
    (held : item ∈ (state.txns tid).holds) {header : Header Value}
    (free : header.lock = 0) (sameRts : header.rts = (state.records item.key).rts)
    (other : Tid) (read : ReadSetItem Key Value)
    (member : read ∈ (state.txns other).readSet) :
    ReadOk (Function.update state.records item.key header read.key)
      (Function.update state.history item.key
        (state.history item.key ++ [(config.timestamp tid, item.data)]) read.key)
      (config.timestamp other) read := by
  have readOk := inv.reads other read member
  rcases eq_or_ne read.key item.key with sameKey | different
  · rw [sameKey] at readOk ⊢
    rw [Function.update_self, Function.update_self]
    refine ⟨sameRts ▸ readOk.marked, .inl free, readOk.selected.concat ?_⟩
    have lockWord := inv.lock_of_holds held
    have locked := config.two_le_timestamp tid
    rcases readOk.unlocked with unlocked | above
    · omega
    · exact above.trans_eq lockWord
  · rw [Function.update_of_ne different, Function.update_of_ne different]
    exact readOk

/-- Versions installed before are older than that of the lock holder. -/
theorem Inv.installed_install (inv : Inv config value state)
    {item : ReadSetItem Key Value} (held : item ∈ (state.txns tid).holds) (other : Tid)
    (done : ReadSetItem Key Value) (isDone : (state.txns other).Installed done) :
    InstallOk (Function.update state.history item.key
      (state.history item.key ++ [(config.timestamp tid, item.data)]) done.key)
      (config.timestamp other) done := by
  have doneOk := inv.installed other done isDone
  rcases eq_or_ne done.key item.key with sameKey | different
  · rw [sameKey] at doneOk ⊢
    rw [Function.update_self]
    have older := (inv.holds tid item held).above _ doneOk.written
    exact ⟨doneOk.selected.concat older.le, List.mem_append_left _ doneOk.written⟩
  · rw [Function.update_of_ne different]
    exact doneOk

/-- Nobody else holds the record, and the other items of its holder are elsewhere. -/
theorem Inv.holds_install (inv : Inv config value state) {item : ReadSetItem Key Value}
    (held : item ∈ (state.txns tid).holds) (header : Header Value)
    (versions : List (Nat × Value)) (other : Tid) (otherItem : ReadSetItem Key Value)
    (otherHeld : otherItem ∈ (state.txns other).holds)
    (different : other ≠ tid ∨ otherItem ≠ item) :
    HoldOk (Function.update state.records item.key header otherItem.key)
      (Function.update state.history item.key versions otherItem.key)
      (config.timestamp other) otherItem := by
  have otherKey : otherItem.key ≠ item.key := by
    intro sameKey
    obtain ⟨sameTid, sameItem⟩ := inv.holder_unique held otherHeld sameKey
    rcases different with different | different
    · exact different sameTid
    · exact different sameItem
  rw [Function.update_of_ne otherKey, Function.update_of_ne otherKey]
  exact inv.holds other otherItem otherHeld

/-- What is left to update after one item of it. -/
theorem Inv.update_rest (inv : Inv config value state) {machine : Nat}
    {pending rest : List (ReadSetItem Key Value)} {item : ReadSetItem Key Value}
    (updates : (state.txns tid).stage = .update pending)
    (found : nextFor (config.at machine) pending = some (item, rest)) :
    item ∈ (state.txns tid).holds ∧ item ∉ rest ∧
      ∀ other ∈ rest, other ∈ (state.txns tid).holds := by
  have holds : (state.txns tid).holds = pending := by simp [Txn.holds, updates]
  have nodup : pending.Nodup := holds ▸ List.Nodup.of_map _ (inv.holds_nodup tid)
  rw [holds]
  refine ⟨(mem_of_nextFor found).mpr (.inl rfl), (nodup_of_nextFor found nodup).1, ?_⟩
  exact fun other member => (mem_of_nextFor found).mpr (.inr member)

/-- The version is installed and those before stay so. -/
theorem Inv.installed_iff (inv : Inv config value state) {machine : Nat}
    {pending rest : List (ReadSetItem Key Value)} {item : ReadSetItem Key Value}
    (updates : (state.txns tid).stage = .update pending)
    (found : nextFor (config.at machine) pending = some (item, rest))
    (other : ReadSetItem Key Value) :
    ({ state.txns tid with stage := .update rest } : Txn Key Value).Installed other ↔
      (state.txns tid).Installed other ∨ other = item := by
  obtain ⟨held, removed, -⟩ := inv.update_rest updates found
  have holds : (state.txns tid).holds = pending := by simp [Txn.holds, updates]
  have decided : (state.txns tid).Decided := by simp [Txn.Decided, updates]
  simp only [Txn.Installed, holds, mem_of_nextFor found]
  constructor
  · rintro ⟨-, member, notLeft⟩
    by_cases same : other = item
    · exact .inr same
    · exact .inl ⟨decided, member, not_or.mpr ⟨same, notLeft⟩⟩
  · rintro (⟨-, member, notLeft⟩ | rfl)
    · exact ⟨trivial, member, fun left => notLeft (.inr left)⟩
    · exact ⟨trivial, inv.holds_subset tid other held, removed⟩

/-- Every version that is there has been written, the new one too. -/
theorem Inv.written_install (inv : Inv config value state) {item : ReadSetItem Key Value}
    (kept : ∀ other, (state.txns tid).Installed other → txn.Installed other)
    (isNew : txn.Installed item) (key : Key) (version : Nat × Value)
    (member : version ∈ Function.update state.history item.key
      (state.history item.key ++ [(config.timestamp tid, item.data)]) key) :
    Written config value (Function.update state.txns tid txn) key version := by
  have old : version ∈ state.history key →
      Written config value (Function.update state.txns tid txn) key version :=
    fun before => (inv.written key version before).mono (installed_update kept)
  rcases eq_or_ne key item.key with rfl | different
  · rw [Function.update_self, List.mem_append, List.mem_singleton] at member
    rcases member with member | new
    · exact old member
    · refine .inr ⟨tid, item, ?_, rfl, new⟩
      rw [Function.update_self]
      exact isNew
  · rw [Function.update_of_ne different] at member
    exact old member

/-- A lock holder installs its version. -/
theorem Inv.install (inv : Inv config value state) {machine : Nat}
    {pending rest : List (ReadSetItem Key Value)} {item : ReadSetItem Key Value}
    (updates : (state.txns tid).stage = .update pending)
    (found : nextFor (config.at machine) pending = some (item, rest)) :
    Inv config value { state with
      records := Function.update state.records item.key { state.records item.key with
        lock := 0
        wts := Function.update (state.records item.key).wts item.seq (config.timestamp tid)
        data := Function.update (state.records item.key).data item.seq item.data }
      txns := Function.update state.txns tid { state.txns tid with stage := .update rest }
      history := Function.update state.history item.key
        (state.history item.key ++ [(config.timestamp tid, item.data)])
      events := state.events ++ [.released tid item.key (config.timestamp tid)] } := by
  have holds : (state.txns tid).holds = pending := by simp [Txn.holds, updates]
  obtain ⟨held, removed, smaller⟩ := inv.update_rest updates found
  have installs := inv.installed_iff updates found
  have ok := inv.holds tid item held
  have positive : 0 < config.timestamp tid := by
    have := config.two_le_timestamp tid
    omega
  have decided : (state.txns tid).Decided := by simp [Txn.Decided, updates]
  constructor
  case ledger =>
    apply Ledger.release inv.ledger config.lockWords
    · simp
    · intro other different
      simp [different]
    · simp only [Function.update_self]
      exact claims_nextFor holds found rfl
    · intro other different
      simp [different]
    · rw [Function.forall_update_iff state.txns fun other txn =>
        txn.stage.Growing → (state.txns other).stage.Growing]
      exact ⟨False.elim, fun _ _ => id⟩
    · simp [Stage.Growing]
  case window =>
    intro key
    rcases eq_or_ne key item.key with rfl | different
    · simp only [Function.update_self]
      exact (inv.window item.key).install ok.smallest ok.above positive
    · simp only [Function.update_of_ne different]
      exact inv.window key
  case base =>
    intro key
    rcases eq_or_ne key item.key with rfl | different
    · simp only [Function.update_self]
      exact List.mem_append_left _ (inv.base item.key)
    · simp only [Function.update_of_ne different]
      exact inv.base key
  case written =>
    apply inv.written_install
    · exact fun other isDone => (installs other).mpr (.inl isDone)
    · exact (installs item).mpr (.inr rfl)
  case reads =>
    rw [Function.forall_update_iff state.txns fun other txn => ∀ read ∈ txn.readSet,
      ReadOk (Function.update state.records item.key _ read.key)
        (Function.update state.history item.key _ read.key) (config.timestamp other) read]
    constructor
    · apply inv.reads_install held
      · rfl
      · rfl
    · intro other _
      apply inv.reads_install held
      · rfl
      · rfl
  case holds =>
    rw [Function.forall_update_iff state.txns fun other txn => ∀ held ∈ txn.holds,
      HoldOk (Function.update state.records item.key _ held.key)
        (Function.update state.history item.key _ held.key) (config.timestamp other) held]
    constructor
    · intro other member
      refine inv.holds_install held _ _ tid other (smaller other member) (.inr ?_)
      rintro rfl
      exact removed member
    · intro other different otherItem member
      exact inv.holds_install held _ _ other otherItem member (.inl different)
  case installed =>
    rw [Function.forall_update_iff state.txns fun other txn => ∀ done, txn.Installed done →
      InstallOk (Function.update state.history item.key _ done.key)
        (config.timestamp other) done]
    refine ⟨?_, fun other _ => inv.installed_install held other⟩
    intro done isDone
    rcases (installs done).mp isDone with isDone | rfl
    · exact inv.installed_install held tid done isDone
    · rw [Function.update_self]
      exact ⟨ok.selected.concat le_rfl, by simp⟩
  case keys_nodup =>
    rw [Function.forall_update_iff state.txns fun _ txn => (txn.writeSet.map (·.key)).Nodup]
    exact ⟨inv.keys_nodup tid, fun other _ => inv.keys_nodup other⟩
  case holds_subset =>
    rw [Function.forall_update_iff state.txns fun _ txn =>
      ∀ item ∈ txn.holds, item ∈ txn.writeSet]
    refine ⟨?_, fun other _ => inv.holds_subset other⟩
    intro other member
    exact inv.holds_subset tid other (smaller other member)
  case commits_nodup => exact inv.commits_nodup
  case mem_commits => exact inv.mem_commits_update (iff_of_true trivial decided)

/-! ## Steps -/

theorem setRecord_self (key : Key) : state.setRecord key (state.records key) = state := by
  simp [State.setRecord]

theorem inv_begin (inv : Inv config value state)
    (stepped : begin state tid = some after) : Inv config value after := by
  simp only [begin] at stepped
  split at stepped
  · rename_i idle
    cases stepped
    apply inv.move
    · simp [Config.claims, Txn.holds, idle]
    · simp [idle, Stage.Growing]
    · simp
    · simp [Txn.holds]
    · simp [Txn.Decided]
    · simp [Txn.Decided, idle]
    · simp
    · simp [Txn.holds]
  · cases stepped

/-- An executing transaction gives up and releases its write set. -/
theorem Inv.giveUp (inv : Inv config value state)
    (executes : (state.txns tid).stage = .execute) :
    Inv config value (state.setStage tid (.release (state.txns tid).writeSet)) := by
  have holds : (state.txns tid).holds = (state.txns tid).writeSet := by
    simp [Txn.holds, executes]
  apply inv.move
  · simp [Config.claims, Txn.holds, executes]
  · simp [Stage.Growing]
  · simp
  · intro item member
    exact inv.holds tid item (holds ▸ member)
  · simp [Txn.Decided]
  · simp [Txn.Decided, executes]
  · exact inv.keys_nodup tid
  · simp [Txn.holds]

theorem inv_abort (inv : Inv config value state)
    (stepped : abort state tid = some after) : Inv config value after := by
  simp only [abort] at stepped
  split at stepped
  · rename_i executes
    cases stepped
    exact inv.giveUp executes
  · cases stepped

/-- A successful read adds an item whose version is selected. -/
theorem Inv.mark (inv : Inv config value state) {key : Key} {pos : Slot}
    (executes : (state.txns tid).stage = .execute)
    (checked : checkRead (state.records key) (config.timestamp tid) = some pos) :
    Inv config value ((state.setRecord key { state.records key with
      rts := max (state.records key).rts (config.timestamp tid) }).setTxn tid
        { state.txns tid with readSet := (state.txns tid).readSet ++ [{
            key, seq := 0, version := (state.records key).wts pos,
            value := (state.records key).data pos,
            data := (state.records key).data pos }] }) := by
  obtain ⟨unlocked, nonzero, below, largest⟩ := checkRead_eq_some checked
  have same : ∀ other, (Function.update state.records key { state.records key with
      rts := max (state.records key).rts (config.timestamp tid) } other).lock =
        (state.records other).lock ∧
      (Function.update state.records key { state.records key with
        rts := max (state.records key).rts (config.timestamp tid) } other).wts =
        (state.records other).wts ∧
      (Function.update state.records key { state.records key with
        rts := max (state.records key).rts (config.timestamp tid) } other).data =
        (state.records other).data ∧
      (state.records other).rts ≤ (Function.update state.records key
        { state.records key with
          rts := max (state.records key).rts (config.timestamp tid) } other).rts := by
    intro other
    rcases eq_or_ne other key with rfl | different
    · rw [Function.update_self]
      exact ⟨rfl, rfl, rfl, le_max_left _ _⟩
    · rw [Function.update_of_ne different]
      exact ⟨rfl, rfl, rfl, le_rfl⟩
  have undecided : ¬ (state.txns tid).Decided := by simp [Txn.Decided, executes]
  apply inv.frame (fun other => (same other).1) (fun other => (same other).2.1)
    (fun other => (same other).2.2.1) (fun other => (same other).2.2.2)
  · simp [Config.claims, Txn.holds, executes]
  · exact id
  · intro item member
    rcases List.mem_append.mp member with member | member
    · exact (inv.reads tid item member).mono (same item.key).1 (same item.key).2.2.2
    · rw [List.mem_singleton.mp member]
      rw [Function.update_self]
      exact ⟨le_max_right _ _, unlocked, (inv.window key).selected nonzero below largest⟩
  · intro item member
    apply inv.holds tid item
    simpa [Txn.holds, executes] using member
  · intro item
    exact iff_of_false (Txn.not_installed (by simp [Txn.Decided, executes]) item)
      (Txn.not_installed undecided item)
  · exact inv.keys_nodup tid
  · intro item member
    simpa [Txn.holds, executes] using member
  · exact inv.commits_nodup
  · exact inv.mem_commits_update (iff_of_false (by simp [Txn.Decided, executes]) undecided)

theorem inv_read {key : Key} (inv : Inv config value state)
    (stepped : read config state tid key = some after) : Inv config value after := by
  simp only [read] at stepped
  split at stepped
  · rename_i executes
    split at stepped
    · rcases readRpcHandler_cases (state.records key) (config.timestamp tid) with
        failed | ⟨pos, checked, answered⟩
      · simp only [failed, setRecord_self] at stepped
        cases stepped
        exact inv.giveUp executes
      · simp only [answered] at stepped
        cases stepped
        exact inv.mark executes checked
    · cases stepped
  · cases stepped

theorem inv_write {key : Key} (inv : Inv config value state)
    (stepped : write config state tid key = some after) : Inv config value after := by
  simp only [write] at stepped
  split at stepped
  · rename_i executes
    split at stepped
    · rename_i fresh
      cases answered : lockReadRpcHandler (state.records key) (config.timestamp tid) with
      | none => simp [answered] at stepped
      | some answer =>
          obtain ⟨header, reply⟩ := answer
          rcases lockReadRpcHandler_cases answered with ⟨rfl, refused⟩ | ⟨pos, maxpos, rfl,
            free, rfl, readBound, writeBound, smallest, nonzero, newest⟩
          · cases reply with
            | updateTs time =>
                simp only [answered, setRecord_self] at stepped
                cases stepped
                exact inv.giveUp executes
            | fail =>
                simp only [answered, setRecord_self] at stepped
                cases stepped
                exact inv.giveUp executes
            | success pos maxpos => exact absurd rfl (refused pos maxpos)
          · simp only [answered] at stepped
            cases stepped
            have base := (inv.window key).stored maxpos nonzero
            have undecided : ¬ (state.txns tid).Decided := by simp [Txn.Decided, executes]
            let item : ReadSetItem Key Value := {
              key, seq := pos, version := (state.records key).wts maxpos,
              value := (state.records key).data maxpos,
              data := (state.records key).data maxpos }
            have ok : HoldOk (state.records item.key) (state.history item.key)
                (config.timestamp tid) item := by
              constructor
              · exact base
              · exact (inv.window key).le_of_slots_le newest
              · exact lt_of_le_of_ne (writeBound maxpos) (inv.version_ne undecided base)
              · exact smallest
            exact inv.acquire executes free fresh readBound ok
    · cases stepped
  · cases stepped

theorem inv_modify {key : Key} {data : Value} (inv : Inv config value state)
    (stepped : modify state tid key data = some after) : Inv config value after := by
  simp only [modify] at stepped
  split at stepped
  · rename_i executes
    cases stepped
    -- Only the buffers change, which no part of the invariant reads before the decision.
    have mapped : ∀ item : ReadSetItem Key Value,
        (if item.key = key then { item with data } else item).key = item.key := by
      intro item
      split <;> rfl
    apply inv.move
    · simp [Config.claims, Txn.holds, executes, Function.comp_def, mapped]
    · exact id
    · simp
    · intro item member
      simp only [Txn.holds, executes] at member
      obtain ⟨old, oldMember, rfl⟩ := List.mem_map.mp member
      have ok := inv.holds tid old (by simpa [Txn.holds, executes] using oldMember)
      rw [mapped]
      split
      · exact ⟨ok.base, ok.newest, ok.below, ok.smallest⟩
      · exact ok
    · simp [Txn.Decided, executes]
    · simp [Txn.Decided, executes]
    · simpa [Function.comp_def, mapped] using inv.keys_nodup tid
    · intro item member
      simpa [Txn.holds, executes] using member
  · cases stepped

theorem inv_commit (inv : Inv config value state)
    (stepped : commit state tid = some after) : Inv config value after := by
  simp only [commit] at stepped
  split at stepped
  · rename_i executes
    cases stepped
    have holds : (state.txns tid).holds = (state.txns tid).writeSet := by
      simp [Txn.holds, executes]
    have undecided : ¬ (state.txns tid).Decided := by simp [Txn.Decided, executes]
    have uncommitted : tid ∉ state.commits := fun member =>
      undecided ((inv.mem_commits tid).mp member)
    apply inv.frame (fun _ => rfl) (fun _ => rfl) (fun _ => rfl) (fun _ => le_rfl)
    · simp [Config.claims, Txn.holds, executes]
    · simp [Stage.Growing]
    · exact inv.reads tid
    · intro item member
      exact inv.holds tid item (holds ▸ member)
    · intro item
      refine iff_of_false ?_ (Txn.not_installed undecided item)
      rintro ⟨-, member, notHeld⟩
      exact notHeld member
    · exact inv.keys_nodup tid
    · simp [Txn.holds]
    · rw [List.nodup_append]
      refine ⟨inv.commits_nodup, by simp, ?_⟩
      intro other member last lastMember same
      rw [List.mem_singleton.mp lastMember] at same
      exact uncommitted (same ▸ member)
    · intro other
      rcases eq_or_ne other tid with rfl | different
      · simp [Txn.Decided]
      · simpa [different] using inv.mem_commits other
  · cases stepped

theorem inv_updateItem {machine : Nat} (inv : Inv config value state)
    (stepped : updateItem config state tid machine = some after) :
    Inv config value after := by
  simp only [updateItem] at stepped
  split at stepped
  · rename_i pending updates
    obtain ⟨⟨item, rest⟩, found, updated⟩ := Option.bind_eq_some_iff.mp stepped
    obtain ⟨header, handled, rfl⟩ := Option.map_eq_some_iff.mp updated
    obtain ⟨-, rfl⟩ := updateRpcHandler_eq_some handled
    exact inv.install updates found
  · cases stepped

theorem inv_releaseItem {machine : Nat} (inv : Inv config value state)
    (stepped : releaseItem config state tid machine = some after) :
    Inv config value after := by
  simp only [releaseItem] at stepped
  split at stepped
  · rename_i pending releases
    obtain ⟨⟨item, rest⟩, found, updated⟩ := Option.bind_eq_some_iff.mp stepped
    obtain ⟨header, handled, rfl⟩ := Option.map_eq_some_iff.mp updated
    obtain ⟨-, rfl⟩ := releaseRpcHandler_eq_some handled
    exact inv.release releases found
  · cases stepped

theorem inv_resume (inv : Inv config value state)
    (stepped : resume state tid = some after) : Inv config value after := by
  simp only [resume] at stepped
  split at stepped
  · rename_i updates
    cases stepped
    apply inv.frame (fun _ => rfl) (fun _ => rfl) (fun _ => rfl) (fun _ => le_rfl)
    · simp [Config.claims, Txn.holds, updates]
    · simp [Stage.Growing]
    · exact inv.reads tid
    · simp [Txn.holds]
    · intro item
      simp [Txn.Installed, Txn.holds, Txn.Decided, updates]
    · exact inv.keys_nodup tid
    · simp [Txn.holds]
    · exact inv.commits_nodup
    · exact inv.mem_commits_update (by simp [Txn.Decided, updates])
  · rename_i releases
    cases stepped
    apply inv.move
    · simp [Config.claims, Txn.holds, releases]
    · simp [Stage.Growing]
    · simp
    · simp [Txn.holds]
    · simp [Txn.Decided]
    · simp [Txn.Decided, releases]
    · exact inv.keys_nodup tid
    · simp [Txn.holds]
  · cases stepped

theorem inv_step (inv : Inv config value state) (action : Action Key Value Tid)
    (stepped : step config state action = some after) : Inv config value after := by
  cases action with
  | begin tid => exact inv_begin inv stepped
  | read tid key => exact inv_read inv stepped
  | write tid key => exact inv_write inv stepped
  | modify tid key data => exact inv_modify inv stepped
  | commit tid => exact inv_commit inv stepped
  | abort tid => exact inv_abort inv stepped
  | updateItem tid machine => exact inv_updateItem inv stepped
  | releaseItem tid machine => exact inv_releaseItem inv stepped
  | resume tid => exact inv_resume inv stepped

/-- Every reachable state satisfies the invariant. -/
theorem inv_of_reach (reached : Reachable (step config) (State.initial value) state) :
    Inv config value state :=
  reached.invariant (Inv config value) (inv_initial config value)
    fun _ action _ inv _ stepped => inv_step inv action stepped

end Rocc.Mvcc
