import Mathlib.Data.Fintype.Basic
import Rocc.Mvcc.OneSided.Steps

/-!
# Snapshots of one-sided reads

A read of a remote record leaves no trace on it, so nothing keeps an older writer
from locking the record afterwards and installing a version between the one that was
read and the reader.  In the runs in which no write takes the lock of a record that a
later reader has read past, unless the timestamps of the record show it, no such
version is installed.

The lock word of a record is the timestamp of its only holder.  A reader that passes
its second check while the record is locked is not later than the holder, so what was
true of the holder when it took the lock is still true when it writes.
-/

set_option linter.unusedSectionVars false

namespace Rocc.Mvcc.OneSided

open Rtx

universe u v w

variable {Key : Type u} {Value : Type v} {Tid : Type w}
variable [DecidableEq Key] [DecidableEq Tid]

/-! ## Invariant -/

/-- What holds of one transaction, among all of them. -/
structure TxnOk (config : Config Key Tid) (records : Key → Header Value)
    (txns : Tid → Txn Key Value) (tid : Tid) (txn : Txn Key Value) : Prop where
  owned : ∀ key ∈ txn.holds, (records key).lock = config.timestamp tid
  nodup : txn.holds.Nodup
  current : ∀ item ∈ txn.intents, item.buffer.wts = (records item.key).wts
  unread : ∀ item ∈ txn.intents, ¬ ReadPast config txns item.key (config.timestamp tid)
  checking : ∀ key, txn.stage = .lockRead key 0 →
    ReadPast config txns key (config.timestamp tid) →
      checkWrite (records key) (config.timestamp tid) ≠ 0
  fresh : txn.stage = .idle → txn.readSet = []

/-- The invariant of the system. -/
def Inv (config : Config Key Tid) (state : State Key Value Tid) : Prop :=
  ∀ tid, TxnOk config state.records state.txns tid (state.txns tid)

variable {config : Config Key Tid} {state after : State Key Value Tid}
variable {records next : Key → Header Value} {txns later : Tid → Txn Key Value}
variable {tid : Tid} {txn : Txn Key Value} {key : Key}

/-- Changes to the records a transaction holds that it does not notice. -/
theorem TxnOk.frame (ok : TxnOk config records txns tid txn)
    (locks : ∀ key ∈ txn.holds, (next key).lock = (records key).lock)
    (writes : ∀ key ∈ txn.holds, (next key).wts = (records key).wts)
    (reads : ∀ key ∈ txn.holds, (records key).rts ≤ (next key).rts)
    (past : ∀ key ∈ txn.holds, ReadPast config later key (config.timestamp tid) →
      ReadPast config txns key (config.timestamp tid)) :
    TxnOk config next later tid txn where
  owned key held := (locks key held).trans (ok.owned key held)
  nodup := ok.nodup
  current item intended :=
    (ok.current item intended).trans (writes _ (Txn.key_mem_holds intended)).symm
  unread item intended seen :=
    ok.unread item intended (past _ (Txn.key_mem_holds intended) seen)
  checking := by
    intro key reached seen
    have held : key ∈ txn.holds := by simp [Txn.holds, reached]
    intro passed
    apply ok.checking key reached (past key held seen)
    obtain ⟨readBound, writeBound⟩ := checkWrite_eq_zero passed
    rw [checkWrite_eq_zero_iff]
    refine ⟨(reads key held).trans readBound, ?_⟩
    rw [writes key held] at writeBound
    exact writeBound
  fresh := ok.fresh

/-- A transaction that moves keeps what holds of it. -/
theorem TxnOk.moves {txn' : Txn Key Value} (ok : TxnOk config records txns tid txn)
    (moves : Moves txn txn') : TxnOk config records txns tid txn' where
  owned key held := ok.owned key (moves.holds.subset held)
  nodup := ok.nodup.sublist moves.holds
  current := by
    intro item intended
    obtain ⟨old, before, sameKey, sameWts⟩ := moves.intents item intended
    rw [← sameWts, ← sameKey]
    exact ok.current old before
  unread := by
    intro item intended
    obtain ⟨old, before, sameKey, -⟩ := moves.intents item intended
    rw [← sameKey]
    exact ok.unread old before
  checking key reached := absurd reached (moves.accepted key)
  fresh reached := absurd reached moves.begun

/-- Reads of the others are still there. -/
theorem readPast_of_update {txn' : Txn Key Value} {timestamp : Nat}
    (snapshots : ∀ item ∈ txn'.snapshots, item ∈ (txns tid).snapshots)
    (past : ReadPast config (Function.update txns tid txn') key timestamp) :
    ReadPast config txns key timestamp := by
  obtain ⟨reader, item, seen, range⟩ := past
  by_cases same : reader = tid
  · subst same
    rw [Function.update_self] at seen
    exact ⟨reader, item, snapshots item seen, range⟩
  · rw [Function.update_of_ne same] at seen
    exact ⟨reader, item, seen, range⟩

/-- A record has at most one holder. -/
theorem Inv.not_held (inv : Inv config state) (held : key ∈ (state.txns tid).holds)
    {other : Tid} (different : other ≠ tid) : key ∉ (state.txns other).holds := by
  intro both
  apply different
  apply config.timestamp_injective
  rw [← (inv other).owned key both, ← (inv tid).owned key held]

/-- Nobody holds a record whose lock word is 0. -/
theorem Inv.not_held_of_free (inv : Inv config state) (free : (state.records key).lock = 0)
    (other : Tid) : key ∉ (state.txns other).holds := by
  intro held
  have owned := (inv other).owned key held
  have positive := config.two_le_timestamp other
  omega

/-- Two transactions to look at: the one that moves and the others. -/
theorem Inv.of_update {next : Key → Header Value} {txn' : Txn Key Value}
    (own : TxnOk config next (Function.update state.txns tid txn') tid txn')
    (others : ∀ other, other ≠ tid →
      TxnOk config next (Function.update state.txns tid txn') other (state.txns other)) :
    Inv config { records := next, txns := Function.update state.txns tid txn' } := by
  intro other
  by_cases same : other = tid
  · subst same
    simpa using own
  · simpa [Function.update_of_ne same] using others other same

/-! ## The effects keep it -/

theorem Inv.move (inv : Inv config state) {txn' : Txn Key Value}
    (moves : Moves (state.txns tid) txn') : Inv config (state.setTxn tid txn') := by
  apply Inv.of_update
  · apply ((inv tid).moves moves).frame
    · exact fun _ _ => rfl
    · exact fun _ _ => rfl
    · exact fun _ _ => le_rfl
    · exact fun _ _ => readPast_of_update moves.snapshots
  · intro other _
    apply (inv other).frame
    · exact fun _ _ => rfl
    · exact fun _ _ => rfl
    · exact fun _ _ => le_rfl
    · exact fun _ _ => readPast_of_update moves.snapshots

/-- A read that passes its second check reads past no holder of the record. -/
theorem Inv.readPast_of_snapshot (inv : Inv config state) {txn' : Txn Key Value}
    {item : ReadItem Key Value} {pos : Slot} {other : Tid} {held : Key}
    (sameKey : item.key = key)
    (checked : checkRead (state.records key) (config.timestamp tid) = some pos)
    (snapshots : txn'.snapshots = (state.txns tid).snapshots ++ [item])
    (holds : held ∈ (state.txns other).holds)
    (past : ReadPast config (Function.update state.txns tid txn') held
      (config.timestamp other)) :
    ReadPast config state.txns held (config.timestamp other) := by
  obtain ⟨reader, read, seen, ofKey, below, above⟩ := past
  by_cases same : reader = tid
  · subst same
    rw [Function.update_self, snapshots, List.mem_append, List.mem_singleton] at seen
    rcases seen with seen | rfl
    · exact ⟨reader, read, seen, ofKey, below, above⟩
    · -- The lock word is the holder's timestamp and the check wants it above the reader's.
      have owned := (inv other).owned held holds
      have unlocked := (checkRead_eq_some checked).1
      have positive := config.two_le_timestamp other
      rw [← sameKey, ofKey, owned] at unlocked
      omega
  · rw [Function.update_of_ne same] at seen
    exact ⟨reader, read, seen, ofKey, below, above⟩

theorem Inv.snapshot (inv : Inv config state) {txn' : Txn Key Value}
    {item : ReadItem Key Value} {pos : Slot} (sameKey : item.key = key)
    (checked : checkRead (state.records key) (config.timestamp tid) = some pos)
    (holds : txn'.holds = (state.txns tid).holds)
    (intents : txn'.intents = (state.txns tid).intents)
    (snapshots : txn'.snapshots = (state.txns tid).snapshots ++ [item])
    (begun : txn'.stage ≠ .idle) (accepted : ∀ key, txn'.stage ≠ .lockRead key 0) :
    Inv config (state.setTxn tid txn') := by
  have kept : ∀ other, TxnOk config state.records (Function.update state.txns tid txn') other
      (state.txns other) := by
    intro other
    apply (inv other).frame
    · exact fun _ _ => rfl
    · exact fun _ _ => rfl
    · exact fun _ _ => le_rfl
    · exact fun _ held past => inv.readPast_of_snapshot sameKey checked snapshots held past
  apply Inv.of_update
  · constructor
    · rw [holds]
      exact (kept tid).owned
    · rw [holds]
      exact (kept tid).nodup
    · rw [intents]
      exact (kept tid).current
    · rw [intents]
      exact (kept tid).unread
    · exact fun key reached => absurd reached (accepted key)
    · exact fun reached => absurd reached begun
  · exact fun other _ => kept other

/-- A record changes while nobody else holds it. -/
theorem Inv.others (inv : Inv config state) {txn' : Txn Key Value} {header : Header Value}
    (alone : ∀ other, other ≠ tid → key ∉ (state.txns other).holds)
    (snapshots : ∀ item ∈ txn'.snapshots, item ∈ (state.txns tid).snapshots)
    (other : Tid) (different : other ≠ tid) :
    TxnOk config (Function.update state.records key header)
      (Function.update state.txns tid txn') other (state.txns other) := by
  have elsewhere : ∀ held ∈ (state.txns other).holds,
      Function.update state.records key header held = state.records held := by
    intro held holds
    apply Function.update_of_ne
    rintro rfl
    exact alone other different holds
  apply (inv other).frame
  · intro held holds
    rw [elsewhere held holds]
  · intro held holds
    rw [elsewhere held holds]
  · intro held holds
    rw [elsewhere held holds]
  · exact fun _ _ => readPast_of_update snapshots

theorem Inv.publish (inv : Inv config state) {rts : Nat} {txn' : Txn Key Value}
    (raised : (state.records key).rts ≤ rts) (moves : Moves (state.txns tid) txn') :
    Inv config ((state.setRecord key { state.records key with rts }).setTxn tid txn') := by
  have same : ∀ held, (Function.update state.records key { state.records key with rts }
        held).lock = (state.records held).lock ∧
      (Function.update state.records key { state.records key with rts } held).wts =
        (state.records held).wts ∧
      (state.records held).rts ≤
        (Function.update state.records key { state.records key with rts } held).rts := by
    intro held
    by_cases changed : held = key
    · subst changed
      simpa using raised
    · simp [Function.update_of_ne changed]
  apply Inv.of_update
  · apply ((inv tid).moves moves).frame
    · exact fun held _ => (same held).1
    · exact fun held _ => (same held).2.1
    · exact fun held _ => (same held).2.2
    · exact fun _ _ => readPast_of_update moves.snapshots
  · intro other _
    apply (inv other).frame
    · exact fun held _ => (same held).1
    · exact fun held _ => (same held).2.1
    · exact fun held _ => (same held).2.2
    · exact fun _ _ => readPast_of_update moves.snapshots

theorem Inv.lock (inv : Inv config state) (reached : (state.txns tid).stage = .lock key)
    (free : (state.records key).lock = 0)
    (past : ReadPast config state.txns key (config.timestamp tid) →
      checkWrite (state.records key) (config.timestamp tid) ≠ 0) :
    Inv config ((state.setRecord key
      { state.records key with lock := config.timestamp tid }).setStage tid
        (.lockRead key 0)) := by
  let txn' : Txn Key Value := { state.txns tid with stage := .lockRead key 0 }
  have snapshots : ∀ item ∈ txn'.snapshots, item ∈ (state.txns tid).snapshots := by
    simp [txn', Txn.snapshots, reached]
  have holds : txn'.holds = (state.txns tid).holds ++ [key] := by
    simp [txn', Txn.holds, reached]
  have intents : txn'.intents = (state.txns tid).intents := by
    simp [txn', Txn.intents, reached]
  have ok := inv tid
  have new := inv.not_held_of_free free tid
  have elsewhere : ∀ held ∈ (state.txns tid).holds, held ≠ key := by
    rintro held holding rfl
    exact new holding
  change Inv config ⟨Function.update state.records key _, Function.update state.txns tid txn'⟩
  apply Inv.of_update
  · constructor
    case owned =>
        intro held holding
        rw [holds, List.mem_append, List.mem_singleton] at holding
        rcases holding with holding | rfl
        · rw [Function.update_of_ne (elsewhere held holding)]
          exact ok.owned held holding
        · simp
    case nodup =>
        rw [holds, ← List.concat_eq_append]
        exact ok.nodup.concat new
    case current =>
        intro item intended
        rw [intents] at intended
        rw [Function.update_of_ne (elsewhere _ (Txn.key_mem_holds intended))]
        exact ok.current item intended
    case unread =>
        intro item intended seen
        rw [intents] at intended
        exact ok.unread item intended (readPast_of_update snapshots seen)
    case checking =>
        rintro held ⟨⟩ seen
        rw [Function.update_self]
        exact past (readPast_of_update snapshots seen)
    case fresh => exact fun begun => by cases begun
  · exact inv.others (fun other _ => inv.not_held_of_free free other) snapshots

theorem Inv.accept (inv : Inv config state) {item : WriteItem Key Value}
    (reached : (state.txns tid).stage = .lockRead key 0) (sameKey : item.key = key)
    (read : item.buffer.wts = (state.records key).wts)
    (passed : checkWrite (state.records key) (config.timestamp tid) = 0) :
    Inv config (state.setTxn tid { state.txns tid with
      stage := .execute, writeSet := (state.txns tid).writeSet ++ [item] }) := by
  let txn' : Txn Key Value := { state.txns tid with
    stage := .execute, writeSet := (state.txns tid).writeSet ++ [item] }
  have snapshots : ∀ item ∈ txn'.snapshots, item ∈ (state.txns tid).snapshots := by
    simp [txn', Txn.snapshots, reached]
  have holds : txn'.holds = (state.txns tid).holds := by
    simp [txn', Txn.holds, reached, sameKey]
  have intents : txn'.intents = (state.txns tid).intents ++ [item] := by
    simp [txn', Txn.intents, reached]
  have ok := inv tid
  apply Inv.of_update
  · constructor
    case owned =>
        rw [holds]
        exact ok.owned
    case nodup =>
        rw [holds]
        exact ok.nodup
    case current =>
        intro other intended
        rw [intents, List.mem_append, List.mem_singleton] at intended
        rcases intended with intended | rfl
        · exact ok.current other intended
        · rw [sameKey]
          exact read
    case unread =>
        intro other intended seen
        have seenBefore := readPast_of_update snapshots seen
        rw [intents, List.mem_append, List.mem_singleton] at intended
        rcases intended with intended | rfl
        · exact ok.unread other intended seenBefore
        · rw [sameKey] at seenBefore
          exact ok.checking key reached seenBefore passed
    case checking => exact fun _ reached => by cases reached
    case fresh => exact fun begun => by cases begun
  · intro other _
    apply (inv other).frame
    · exact fun _ _ => rfl
    · exact fun _ _ => rfl
    · exact fun _ _ => le_rfl
    · exact fun _ _ => readPast_of_update snapshots

theorem Inv.install (inv : Inv config state) {item : WriteItem Key Value}
    {buffer : Header Value} {pending rest : List (WriteItem Key Value × Bool)}
    (reached : (state.txns tid).stage = .update pending)
    (queued : pending.Perm ((item, false) :: rest)) :
    Inv config ((state.setRecord item.key
      ((state.records item.key).writeVersions buffer)).setStage tid
        (.update ((item, true) :: rest))) := by
  let txn' : Txn Key Value := { state.txns tid with stage := .update ((item, true) :: rest) }
  have snapshots : ∀ item ∈ txn'.snapshots, item ∈ (state.txns tid).snapshots := by
    simp [txn', Txn.snapshots, reached]
  have holds : (state.txns tid).holds.Perm txn'.holds := by
    simp only [txn', Txn.holds, reached]
    exact queued.map fun entry => entry.1.key
  have held : item.key ∈ (state.txns tid).holds := by
    rw [holds.mem_iff]
    simp [txn', Txn.holds]
  have ok := inv tid
  -- The other intents are about other records: the records held are distinct.
  have intents : ∀ other ∈ txn'.intents,
      other ∈ (state.txns tid).intents ∧ other.key ≠ item.key := by
    intro other intended
    simp only [txn', Txn.intents, List.filter_cons, Bool.not_true, Bool.false_eq_true,
      if_false] at intended
    obtain ⟨entry, kept, rfl⟩ := List.mem_map.mp intended
    obtain ⟨left, unwritten⟩ := List.mem_filter.mp kept
    constructor
    · simp only [Txn.intents, reached]
      apply List.mem_map_of_mem
      exact List.mem_filter.mpr ⟨queued.mem_iff.mpr (.tail _ left), unwritten⟩
    · have distinct := holds.nodup_iff.mp ok.nodup
      simp only [txn', Txn.holds, List.map_cons, List.nodup_cons] at distinct
      intro same
      apply distinct.1
      rw [← same]
      exact List.mem_map.mpr ⟨entry, left, rfl⟩
  have sameLock : ∀ key, (Function.update state.records item.key
      ((state.records item.key).writeVersions buffer) key).lock = (state.records key).lock := by
    intro key
    by_cases changed : key = item.key
    · subst changed
      simp [Header.writeVersions]
    · simp [Function.update_of_ne changed]
  apply Inv.of_update
  · constructor
    case owned =>
        intro key holding
        exact (sameLock key).trans (ok.owned key (holds.mem_iff.mpr holding))
    case nodup => exact holds.nodup_iff.mp ok.nodup
    case current =>
        intro other intended
        obtain ⟨before, different⟩ := intents other intended
        simp only [State.setRecord]
        rw [Function.update_of_ne different]
        exact ok.current other before
    case unread =>
        intro other intended seen
        exact ok.unread other (intents other intended).1 (readPast_of_update snapshots seen)
    case checking => exact fun _ reached => by cases reached
    case fresh => exact fun begun => by cases begun
  · exact inv.others (fun other different => inv.not_held held different) snapshots

theorem Inv.unlock (inv : Inv config state) {stage : Stage Key Value}
    (holds : (state.txns tid).holds.Perm (key :: Txn.holds { state.txns tid with stage }))
    (intents : ∀ item ∈ Txn.intents { state.txns tid with stage },
      item ∈ (state.txns tid).intents)
    (snapshots : Txn.snapshots { state.txns tid with stage } = (state.txns tid).snapshots)
    (begun : stage ≠ .idle) (accepted : ∀ key, stage ≠ .lockRead key 0) :
    Inv config ((state.setRecord key (state.records key).unlock).setStage tid stage) := by
  have ok := inv tid
  have distinct := List.nodup_cons.mp (holds.nodup_iff.mp ok.nodup)
  have held : key ∈ (state.txns tid).holds := holds.mem_iff.mpr (.head _)
  have elsewhere : ∀ other ∈ Txn.holds { state.txns tid with stage }, other ≠ key := by
    rintro other holding rfl
    exact distinct.1 holding
  have sameSnapshots : ∀ item ∈ Txn.snapshots { state.txns tid with stage },
      item ∈ (state.txns tid).snapshots := fun item seen => snapshots ▸ seen
  apply Inv.of_update
  · constructor
    case owned =>
        intro other holding
        simp only [State.setRecord]
        rw [Function.update_of_ne (elsewhere other holding)]
        exact ok.owned other (holds.mem_iff.mpr (.tail _ holding))
    case nodup => exact distinct.2
    case current =>
        intro item intended
        simp only [State.setRecord]
        rw [Function.update_of_ne (elsewhere _ (Txn.key_mem_holds intended))]
        exact ok.current item (intents item intended)
    case unread =>
        intro item intended seen
        exact ok.unread item (intents item intended) (readPast_of_update sameSnapshots seen)
    case checking => exact fun other reached => absurd reached (accepted other)
    case fresh => exact fun reached => absurd reached begun
  · exact inv.others (fun other different => inv.not_held held different) sameSnapshots

theorem inv_initial (value : Key → Value) :
    Inv config (State.initial value : State Key Value Tid) := by
  intro tid
  constructor <;> simp [State.initial, Txn.holds, Txn.intents]

theorem inv_effect (inv : Inv config state) (effect : Effect config state after) :
    Inv config after := by
  cases effect with
  | move tid next moves => exact inv.move moves
  | snapshot tid key pos item next sameKey _ checked holds intents snapshots _ begun accepted =>
      exact inv.snapshot sameKey checked holds intents snapshots begun accepted
  | publish tid key rts next raised moves => exact inv.publish raised moves
  | lock tid key reached free past => exact inv.lock reached free past
  | accept tid key item reached sameKey read passed =>
      exact inv.accept reached sameKey read passed
  | install tid item buffer pending rest reached queued _ => exact inv.install reached queued
  | unlock tid key stage holds intents snapshots begun accepted =>
      exact inv.unlock holds intents snapshots begun accepted

/-- The invariant holds in every run that respects the reads. -/
theorem inv_of_reach {value : Key → Value}
    (reach : Reach (step config) (ReadsRespected config) (State.initial value) state) :
    Inv config state := by
  apply reach.invariant (Inv config) (inv_initial value)
  intro before action after inv permitted stepped
  exact inv_effect inv (effect_of_step permitted stepped)

/-! ## Installed versions -/

/-- A step puts a version with `timestamp` into a slot of the record. -/
def Installs (before after : State Key Value Tid) (key : Key) (timestamp : Nat) : Prop :=
  ∃ slot, (before.records key).wts slot ≠ timestamp ∧ (after.records key).wts slot = timestamp

/-- A change of one record that leaves its write timestamps alone installs nothing. -/
theorem not_installs_of_wts {before after : State Key Value Tid} {timestamp : Nat}
    (same : (after.records key).wts = (before.records key).wts) :
    ¬ Installs before after key timestamp := by
  rintro ⟨slot, absent, present⟩
  rw [same] at present
  exact absent present

theorem wts_setRecord {changed : Key} {header : Header Value}
    (same : header.wts = (state.records changed).wts) :
    ((state.setRecord changed header).records key).wts = (state.records key).wts := by
  by_cases equal : key = changed
  · subst equal
    simpa [State.setRecord] using same
  · simp [State.setRecord, Function.update_of_ne equal]

/-- Only a transaction with an intent on the record installs a version, with its own
timestamp. -/
theorem Inv.intent_of_installs (inv : Inv config state) (effect : Effect config state after)
    {timestamp : Nat} (installs : Installs state after key timestamp) :
    ∃ writer, ∃ item ∈ (state.txns writer).intents, item.key = key ∧
      config.timestamp writer = timestamp := by
  cases effect with
  | move => exact absurd installs (not_installs_of_wts rfl)
  | snapshot => exact absurd installs (not_installs_of_wts rfl)
  | publish => exact absurd installs (not_installs_of_wts (wts_setRecord rfl))
  | lock => exact absurd installs (not_installs_of_wts (wts_setRecord rfl))
  | accept => exact absurd installs (not_installs_of_wts rfl)
  | unlock => exact absurd installs (not_installs_of_wts (wts_setRecord rfl))
  | install writer item buffer pending rest reached queued prepared =>
      have intended : item ∈ (state.txns writer).intents := by
        simp only [Txn.intents, reached, List.mem_map, List.mem_filter]
        exact ⟨(item, false), ⟨queued.mem_iff.mpr (.head _), rfl⟩, rfl⟩
      obtain ⟨slot, absent, present⟩ := installs
      change (Function.update state.records item.key _ key).wts slot = timestamp at present
      by_cases same : key = item.key
      · subst same
        refine ⟨writer, item, intended, rfl, ?_⟩
        simp only [WriteItem.prepare] at prepared
        split at prepared
        · cases prepared
          rw [Function.update_self] at present
          simp only [Header.writeVersions, (inv writer).current item intended] at present
          by_cases chosen : slot = item.pos
          · subst chosen
            rwa [Function.update_self] at present
          · rw [Function.update_of_ne chosen] at present
            exact absurd present absent
        · cases prepared
      · rw [Function.update_of_ne same] at present
        exact absurd present absent

/-- Completed reads are kept. -/
theorem mem_readSet_of_effect {reader : Tid} {item : ReadItem Key Value}
    (effect : Effect config state after)
    (returned : (state.txns reader).stage ≠ .idle ∧ item ∈ (state.txns reader).readSet) :
    (after.txns reader).stage ≠ .idle ∧ item ∈ (after.txns reader).readSet := by
  have step : ∀ (tid : Tid) (next : Txn Key Value), next.stage ≠ .idle →
      ((state.txns tid).stage ≠ .idle → ∀ item ∈ (state.txns tid).readSet,
        item ∈ next.readSet) →
      (Function.update state.txns tid next reader).stage ≠ .idle ∧
        item ∈ (Function.update state.txns tid next reader).readSet := by
    intro tid next begun kept
    by_cases same : reader = tid
    · subst same
      rw [Function.update_self]
      exact ⟨begun, kept returned.1 item returned.2⟩
    · rw [Function.update_of_ne same]
      exact returned
  cases effect with
  | move tid next moves => exact step tid next moves.begun moves.readSet
  | snapshot tid key pos item next _ _ _ _ _ _ kept begun _ =>
      exact step tid next begun fun _ => kept
  | publish tid key rts next _ moves => exact step tid next moves.begun moves.readSet
  | lock tid => exact step tid _ (by simp) fun _ _ kept => kept
  | accept tid => exact step tid _ (by simp) fun _ _ kept => kept
  | install tid => exact step tid _ (by simp) fun _ _ kept => kept
  | unlock tid key stage _ _ _ begun _ => exact step tid _ begun fun _ _ kept => kept

/-- In every run that respects the reads: once a read has returned the version with write
timestamp `item.version`, no later step installs a version of that record for a transaction
between that version and the reader. -/
theorem not_installs_between (config : Config Key Tid) (value : Key → Value)
    (state before after : State Key Value Tid) (action : Action Key Value Tid)
    (reach : Reach (step config) (ReadsRespected config) (State.initial value) state)
    (reader : Tid) (item : ReadItem Key Value)
    (returned : item ∈ (state.txns reader).readSet)
    (onwards : Reach (step config) (ReadsRespected config) state before)
    (permitted : ReadsRespected config before action)
    (stepped : step config before action = some after) (writer : Tid)
    (above : item.version < config.timestamp writer)
    (below : config.timestamp writer < config.timestamp reader) :
    ¬ Installs before after item.key (config.timestamp writer) := by
  intro installs
  have inv := inv_of_reach (reach.trans onwards)
  have begun : (state.txns reader).stage ≠ .idle := by
    intro idle
    rw [(inv_of_reach reach reader).fresh idle] at returned
    cases returned
  have kept := onwards.invariant
    (fun state => (state.txns reader).stage ≠ .idle ∧ item ∈ (state.txns reader).readSet)
    ⟨begun, returned⟩ fun _ _ _ kept permitted stepped =>
      mem_readSet_of_effect (effect_of_step permitted stepped) kept
  obtain ⟨owner, intent, intended, sameKey, sameTime⟩ :=
    inv.intent_of_installs (effect_of_step permitted stepped) installs
  apply (inv owner).unread intent intended
  have seen : item ∈ (before.txns reader).snapshots := by
    simp only [Txn.snapshots]
    split
    · exact List.mem_append.mpr (.inl kept.2)
    · exact kept.2
  rw [sameTime, sameKey]
  exact ⟨reader, item, seen, rfl, above, below⟩

instance [Fintype Tid] (config : Config Key Tid) (txns : Tid → Txn Key Value) (key : Key)
    (timestamp : Nat) : Decidable (ReadPast config txns key timestamp) :=
  inferInstanceAs (Decidable (∃ reader, ∃ item ∈ (txns reader).snapshots, item.key = key ∧
    item.version < timestamp ∧ timestamp < config.timestamp reader))

instance [Fintype Tid] (config : Config Key Tid) (state : State Key Value Tid) :
    ∀ action, Decidable (ReadsRespected config state action)
  | .lockVerb tid => inferInstanceAs (Decidable (∀ key ∈ (state.txns tid).locking,
      (state.records key).lock = 0 → ReadPast config state.txns key (config.timestamp tid) →
        checkWrite (state.records key) (config.timestamp tid) ≠ 0))
  | .begin _ | .read _ _ | .readVerb _ | .readAgainVerb _ | .publish _ | .write _ _
  | .headerVerb _ | .lockReadVerb _ | .modify _ _ _ | .commit _ | .abort _
  | .updateVerb _ _ | .releaseVerb _ _ | .finish _ => .isTrue trivial

instance (before after : State Key Value Tid) (key : Key) (timestamp : Nat) :
    Decidable (Installs before after key timestamp) :=
  inferInstanceAs (Decidable (∃ slot, (before.records key).wts slot ≠ timestamp ∧
    (after.records key).wts slot = timestamp))

/-- One record at machine 0, a reader on machine `node` and an older writer. -/
def readerAndWriter (node : Nat) : Config Unit (Fin 2) where
  pid _ := 0
  timestamp tid := if tid = 0 then 3000 else 2000
  two_le_timestamp := by decide
  timestamp_lt := by decide
  timestamp_injective := by decide
  node _ := node

/-- A local read and the header read of the writer, which finds the reader's timestamp. -/
theorem not_installs_between_local : ∃ state after : State Unit Nat (Fin 2),
    Reach (step (readerAndWriter 0)) (ReadsRespected (readerAndWriter 0))
        (State.initial fun _ => 5) state ∧
      (⟨(), 1, 5⟩ : ReadItem Unit Nat) ∈ (state.txns 0).readSet ∧
      step (readerAndWriter 0) state (.headerVerb 1) = some after ∧
      ¬ Installs state after () 2000 := by
  have reached : ∃ state : State Unit Nat (Fin 2),
      Reach (step (readerAndWriter 0)) (ReadsRespected (readerAndWriter 0))
          (State.initial fun _ => 5) state ∧
        (⟨(), 1, 5⟩ : ReadItem Unit Nat) ∈ (state.txns 0).readSet ∧
        (step (readerAndWriter 0) state (.headerVerb 1)).isSome = true :=
    Reach.exists_of_exec [.begin 0, .read 0 (), .readVerb 0, .readAgainVerb 0, .publish 0,
      .begin 1, .write 1 ()] (by decide +kernel)
  obtain ⟨state, reach, returned, isSome⟩ := reached
  obtain ⟨after, stepped⟩ := Option.isSome_iff_exists.mp isSome
  exact ⟨state, after, reach, returned, stepped,
    not_installs_between (readerAndWriter 0) _ state state after (.headerVerb 1) reach 0 _
      returned .refl trivial stepped 1 (by decide) (by decide)⟩

/-- The writer goes on to its version array. -/
def writerRun : List (Action Unit Nat (Fin 2)) :=
  [.begin 1, .write 1 (), .headerVerb 1, .lockVerb 1, .lockReadVerb 1, .modify 1 () 7,
    .commit 1]

/-- A remote reader returns the version with timestamp 1, and the older writer installs its
own version afterwards. -/
theorem remote_snapshot_overwritten : ¬ ∀ (config : Config Unit (Fin 2)) (value : Unit → Nat)
    (state before after : State Unit Nat (Fin 2)) (action : Action Unit Nat (Fin 2)),
    Reachable (step config) (State.initial value) state →
    ∀ (reader : Fin 2) (item : ReadItem Unit Nat), item ∈ (state.txns reader).readSet →
    Reachable (step config) state before → step config before action = some after →
    ∀ writer : Fin 2, item.version < config.timestamp writer →
      config.timestamp writer < config.timestamp reader →
        ¬ Installs before after item.key (config.timestamp writer) := by
  intro all
  have reached : ∃ state : State Unit Nat (Fin 2),
      Reachable (step (readerAndWriter 1)) (State.initial fun _ => 5) state ∧
        (⟨(), 1, 5⟩ : ReadItem Unit Nat) ∈ (state.txns 0).readSet ∧
        (exec (step (readerAndWriter 1)) anyAction state writerRun).any (fun before =>
          (step (readerAndWriter 1) before (.updateVerb 1 0)).any
            fun after => Installs before after () 2000) = true :=
    Reach.exists_of_exec [.begin 0, .read 0 (), .readVerb 0, .readAgainVerb 0]
      (by decide +kernel)
  obtain ⟨state, reach, returned, run⟩ := reached
  obtain ⟨before, executed, last⟩ := (Option.any_eq_true _ _).mp run
  obtain ⟨after, stepped, installs⟩ := (Option.any_eq_true _ _).mp last
  exact all (readerAndWriter 1) _ state before after _ reach 0 _ returned
    (Reach.refl.of_exec executed) stepped 1 (by decide) (by decide) (of_decide_eq_true installs)

end Rocc.Mvcc.OneSided
