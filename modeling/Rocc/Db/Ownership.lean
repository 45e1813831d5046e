import Rocc.Db.TxHandler

/-!
# The locks of a transaction

`TxnOk` says for every stage of `end` which locks the coroutine has and that the
records it has locked are still at the sequence numbers it remembers.  `Effect` lists
what one step can do to the whole system: change a transaction only, take a lock, give
one back, or commit a record whose lock is held.  Everything proved about the classes
built on `TxHandler` starts from `Effect`.
-/

set_option linter.unusedSectionVars false

namespace Rocc.Db

universe u v w x

variable {Key : Type u} {Value : Type v} {Tid : Type w} {Extra : Type x}

/-! ## What the stage of a transaction says -/

namespace Txn

/-- The records a transaction remembers. -/
def items (txn : Txn Key Value Extra) : List (Seen Key) :=
  txn.rwset.map (·.seen) ++ txn.remoteset.map (·.seen) ++ txn.remoteWrites.map (·.seen)

/-- No lock has failed. -/
def Sure (txn : Txn Key Value Extra) : Prop :=
  match txn.stage with
  | .lockRemote _ failed => failed = false
  | .lockAllSet _ _ => True
  | .commitLocalWrite _ => True
  | .commitRemote _ => True
  | _ => False

/-- All locks are taken and the transaction is installing its writes. -/
def Decided (txn : Txn Key Value Extra) : Prop :=
  match txn.stage with
  | .commitLocalWrite _ => True
  | .commitRemote _ => True
  | _ => False

/-- The locks a transaction has at its stage.  While it gives them back, the local
ones are those `LockAllSet` walked over, and every other one is still to be visited. -/
def Own (txn : Txn Key Value Extra) (isLocal : Key → Prop) [DecidablePred isLocal] :
    Prop :=
  match txn.stage with
  | .idle => txn.taken = []
  | .execute => txn.taken = []
  | .lockRemote pending failed =>
      (∀ item ∈ pending, item ∈ txn.remoteWrites) ∧
        (∀ seen ∈ txn.taken, seen ∈ txn.remoteWrites.map (·.seen)) ∧
        (failed = false →
          (txn.taken ++ pending.map (·.seen)).Perm (txn.remoteWrites.map (·.seen)))
  | .lockAllSet walked pending =>
      txn.taken.Perm (txn.remoteWrites.map (·.seen) ++ walked.map (·.seen)) ∧
        walked ++ pending.filter (fun item => !item.ro) = txn.localWrites
  | .commitLocalWrite pending =>
      txn.taken.Perm (pending.map (·.seen) ++ txn.remoteWrites.map (·.seen)) ∧
        ∀ item ∈ pending, item ∈ txn.rwset
  | .commitRemote pending =>
      txn.taken.Perm (pending.map (·.seen)) ∧ ∀ item ∈ pending, item ∈ txn.remoteWrites
  | .releaseRemote pending walked =>
      ((txn.taken.map (·.key)).filter fun key => isLocal key).Perm
          (walked.map (·.seen.key)) ∧
        (∀ item ∈ pending, ¬ isLocal item.seen.key) ∧
        ∀ seen ∈ txn.taken, ¬ isLocal seen.key → seen.key ∈ pending.map (·.seen.key)
  | .releaseAllSet pending =>
      (txn.taken.map (·.key)).Perm (pending.map (·.seen.key))
  | .finished _ => txn.taken = []

end Txn

/-- The record is in the partition of the coroutine. -/
def Config.IsLocal (config : Config Key Tid) (tid : Tid) (key : Key) : Prop :=
  config.pid key = config.partition tid

instance (config : Config Key Tid) (tid : Tid) : DecidablePred (config.IsLocal tid) :=
  fun _ => inferInstanceAs (Decidable (_ = _))

/-! ## The invariant -/

variable (config : Config Key Tid) (handler : TxHandler Key Value Extra)

/-- Facts about one transaction. -/
structure TxnOk (nodes : Key → MemNode Value) (tid : Tid) (txn : Txn Key Value Extra) :
    Prop where
  locals : ∀ item ∈ txn.rwset, config.IsLocal tid item.seen.key
  remotes : ∀ item ∈ txn.remoteset, ¬ config.IsLocal tid item.seen.key
  writes : ∀ item ∈ txn.remoteWrites, ¬ config.IsLocal tid item.seen.key
  own : txn.Own (config.IsLocal tid)
  secured : txn.Sure → ∀ seen ∈ txn.taken, (nodes seen.key).seq = seen.seq

/-- Locks, lists and stages agree. -/
structure Inv (state : State Key Value Tid Extra) : Prop where
  holding : Holding config.lockContent (fun key => (state.nodes key).lock)
    (fun tid => (state.txns tid).taken.map (·.key))
  txnOk : ∀ tid, TxnOk config state.nodes tid (state.txns tid)

/-! ## What a step can do -/

/-- A sequence number that the class can remember for a node. -/
def Shown (node : MemNode Value) (seq : Nat) : Prop :=
  seq = node.seq ∨ handler.get node = some (some seq) ∨
    handler.getRpcHandler node = some seq

/-- A sure transaction that takes no lock keeps its extra data, or reads replies, or
fixes what it commits with. -/
def Calm (before after : Txn Key Value Extra) : Prop :=
  (after.extra = before.extra ∧ (after.Decided ↔ before.Decided)) ∨
    (¬ before.Decided ∧ ¬ after.Decided ∧
      ∃ servers, after.extra = handler.checkRes before.extra servers) ∨
    (¬ before.Decided ∧ after.Decided ∧ (∃ walked, before.stage = .lockAllSet walked []) ∧
      after.extra = handler.lockedAll before.extra before.remoteset)

variable [DecidableEq Key] [DecidableEq Tid]

/-- The item that an action commits, if it is a commit. -/
def nextCommit (config : Config Key Tid) (state : State Key Value Tid Extra) :
    Action Key Value Tid → Option (Seen Key)
  | .commitLocal tid =>
      match (state.txns tid).stage with
      | .commitLocalWrite (item :: _) => some item.seen
      | _ => none
  | .commitRpc tid partition =>
      match (state.txns tid).stage with
      | .commitRemote pending =>
          (nextFor (config.at partition) pending).map fun found => found.1.seen
      | _ => none
  | _ => none

/-- One step of a coroutine, which commits the item `next` if it commits one. -/
inductive Effect (before : State Key Value Tid Extra) (tid : Tid)
    (next : Option (Seen Key)) : State Key Value Tid Extra → Prop where
  | frame (txn : Txn Key Value Extra)
      (ok : TxnOk config before.nodes tid txn)
      (taken : txn.taken = (before.txns tid).taken)
      (seen : ∀ seen ∈ txn.items, seen ∈ (before.txns tid).items ∨
        ∃ key seq, seen = before.see key seq ∧ Shown handler (before.nodes key) seq)
      (calm : txn.Sure → txn.taken = [] ∧ ¬ txn.Decided ∨
        (before.txns tid).Sure ∧ Calm handler (before.txns tid) txn) :
      Effect before tid next (before.setTxn tid txn)
  | lock (seen : Seen Key) (txn : Txn Key Value Extra)
      (free : (before.nodes seen.key).lock = 0)
      (ok : TxnOk config before.nodes tid txn)
      (taken : txn.taken = (before.txns tid).taken ++ [seen])
      (items : txn.items = (before.txns tid).items)
      (member : seen ∈ txn.items)
      (undecided : ¬ (before.txns tid).Decided ∧ ¬ txn.Decided)
      (grown : txn.Sure → (before.txns tid).Sure ∧
        if config.IsLocal tid seen.key then
          txn.extra = handler.lockAllSet (before.txns tid).extra (before.nodes seen.key)
        else
          txn.extra = handler.lockRpcHandler (before.txns tid).extra
            (config.pid seen.key) (before.nodes seen.key)) :
      Effect before tid next ((before.setNode seen.key
        { before.nodes seen.key with lock := config.lockContent tid }).setTxn tid txn)
  | unlock (key : Key) (txn : Txn Key Value Extra)
      (mine : key ∈ (before.txns tid).taken.map (·.key))
      (ok : TxnOk config before.nodes tid txn)
      (taken : txn.taken = (before.txns tid).taken.filter fun seen => seen.key ≠ key)
      (items : txn.items = (before.txns tid).items)
      (unsure : ¬ txn.Sure) :
      Effect before tid next ((before.setNode key
        { before.nodes key with lock := 0 }).setTxn tid txn)
  | commit (seen : Seen Key) (version : Nat) (value : Option Value) (seq : Nat)
      (txn : Txn Key Value Extra)
      (chosen : next = some seen)
      (mine : seen ∈ (before.txns tid).taken)
      (member : seen ∈ (before.txns tid).items)
      (sure : (before.txns tid).Sure)
      (decided : (before.txns tid).Decided ∧ txn.Decided)
      (stored : if config.IsLocal tid seen.key then
          handler.commitLocalWrite (before.txns tid).extra seen.seq
            (before.nodes seen.key) = some seq
        else
          handler.commitRpcHandler (before.txns tid).extra (before.nodes seen.key) =
            some seq)
      (ok : TxnOk config before.nodes tid txn)
      (taken : txn.taken = (before.txns tid).taken.filter fun other => other.key ≠ seen.key)
      (items : txn.items = (before.txns tid).items)
      (extra : txn.extra = (before.txns tid).extra) :
      Effect before tid next ((before.commit tid seen.key seen.version
        ((before.nodes seen.key).install version value seq)).setTxn tid txn)

/-! ## Lists of locks -/

section Lists

variable {config} {before : State Key Value Tid Extra} {tid : Tid}

theorem perm_cons_filter_ne {keys : List Key} {key : Key} (nodup : keys.Nodup)
    (member : key ∈ keys) : keys.Perm (key :: keys.filter fun other => other ≠ key) := by
  refine @perm_cons_filter_key _ _ _ id _ _ ?_ member
  rwa [List.map_id]

/-- Locks other than that of one record. -/
theorem map_drop (taken : List (Seen Key)) (key : Key) :
    (taken.filter fun seen => seen.key ≠ key).map (·.key) =
      (taken.map (·.key)).filter fun other => other ≠ key := by
  rw [List.filter_map]
  rfl

theorem Inv.keys_nodup (inv : Inv config before) :
    ((before.txns tid).taken.map (·.key)).Nodup :=
  inv.holding.nodup tid

/-- Clearing one lock of a transaction leaves the others. -/
theorem Inv.filter_perm (inv : Inv config before) {seen : Seen Key} {rest : List (Seen Key)}
    (perm : (before.txns tid).taken.Perm (seen :: rest)) :
    ((before.txns tid).taken.filter fun other => other.key ≠ seen.key).Perm rest :=
  filter_key_perm inv.keys_nodup perm

theorem Inv.filter_keys_perm (inv : Inv config before) {key : Key} {rest : List Key}
    (perm : ((before.txns tid).taken.map (·.key)).Perm (key :: rest)) :
    (((before.txns tid).taken.map (·.key)).filter fun other => other ≠ key).Perm rest := by
  refine @filter_key_perm _ _ _ id _ _ _ ?_ perm
  rw [List.map_id]
  exact inv.keys_nodup

end Lists

/-! ## Effects keep the invariant -/

section Effects

variable {config} {handler} {before after : State Key Value Tid Extra} {tid : Tid}
variable {next : Option (Seen Key)}

/-- A transaction only depends on the records whose locks it has. -/
theorem TxnOk.frame {nodes nodes' : Key → MemNode Value} {txn : Txn Key Value Extra}
    (ok : TxnOk config nodes tid txn)
    (same : ∀ seen ∈ txn.taken, (nodes' seen.key).seq = (nodes seen.key).seq) :
    TxnOk config nodes' tid txn where
  locals := ok.locals
  remotes := ok.remotes
  writes := ok.writes
  own := ok.own
  secured sure seen member := (same seen member).trans (ok.secured sure seen member)

/-- One coroutine moves; the others keep their records. -/
theorem Inv.move {nodes : Key → MemNode Value} {txn : Txn Key Value Extra}
    (inv : Inv config before) (ok : TxnOk config nodes tid txn)
    (same : ∀ other, other ≠ tid → ∀ seen ∈ (before.txns other).taken,
      (nodes seen.key).seq = (before.nodes seen.key).seq) :
    ∀ other, TxnOk config nodes other (Function.update before.txns tid txn other) := by
  intro other
  rcases eq_or_ne other tid with rfl | different
  · rw [Function.update_self]
    exact ok
  · rw [Function.update_of_ne different]
    exact (inv.txnOk other).frame (same other different)

/-- What a step can do keeps the invariant. -/
theorem Effect.inv (inv : Inv config before)
    (effect : Effect config handler before tid next after) :
    Inv config after := by
  cases effect with
  | frame txn ok taken seen calm =>
      refine ⟨inv.holding.frame (fun _ => rfl) ?_, inv.move ok fun _ _ _ _ => rfl⟩
      intro other
      rcases eq_or_ne other tid with rfl | different
      · simp [State.setTxn, taken]
      · simp [State.setTxn, different]
  | lock seen txn free ok taken items member undecided grown =>
      have sameSeq : ∀ key, (Function.update before.nodes seen.key
          { before.nodes seen.key with lock := config.lockContent tid } key).seq =
            (before.nodes key).seq := by
        intro key
        rcases eq_or_ne key seen.key with rfl | different <;> simp [*]
      refine ⟨inv.holding.acquire config.words.ne_zero tid free ?_ ?_ ?_ ?_,
        inv.move (ok.frame fun _ _ => sameSeq _) fun _ _ _ _ => sameSeq _⟩
      · simp [State.setTxn, State.setNode]
      · intro key different
        simp [State.setTxn, State.setNode, different]
      · simpa [State.setTxn, taken] using List.perm_append_singleton _ _
      · intro other different
        simp [State.setTxn, State.setNode, different]
  | unlock key txn mine ok taken items unsure =>
      have sameSeq : ∀ other, (Function.update before.nodes key
          { before.nodes key with lock := 0 } other).seq = (before.nodes other).seq := by
        intro other
        rcases eq_or_ne other key with rfl | different <;> simp [*]
      refine ⟨inv.holding.release tid key ?_ ?_ ?_ ?_,
        inv.move (ok.frame fun _ _ => sameSeq _) fun _ _ _ _ => sameSeq _⟩
      · simp [State.setTxn, State.setNode]
      · intro other different
        simp [State.setTxn, State.setNode, different]
      · simp only [State.setTxn, Function.update_self, taken]
        rw [map_drop]
        exact perm_cons_filter_ne inv.keys_nodup mine
      · intro other different
        simp [State.setTxn, State.setNode, different]
  | commit seen version value seq txn chosen mine member sure decided stored ok taken items extra =>
      have sameSeq : ∀ key, key ≠ seen.key → (Function.update before.nodes seen.key
          ((before.nodes seen.key).install version value seq) key).seq =
            (before.nodes key).seq := by
        intro key different
        simp [different]
      have held : seen.key ∈ (before.txns tid).taken.map (·.key) :=
        List.mem_map_of_mem mine
      refine ⟨inv.holding.release tid seen.key ?_ ?_ ?_ ?_,
        inv.move (ok.frame ?_) ?_⟩
      · simp [State.setTxn, State.commit, State.setNode, MemNode.install]
      · intro other different
        simp [State.setTxn, State.commit, State.setNode, different]
      · simp only [State.setTxn, Function.update_self, taken]
        rw [map_drop]
        exact perm_cons_filter_ne inv.keys_nodup held
      · intro other different
        simp [State.setTxn, State.commit, State.setNode, different]
      · intro other otherMember
        rw [taken] at otherMember
        exact sameSeq other.key (by simpa using (List.mem_filter.mp otherMember).2)
      · intro other different otherSeen otherMember
        apply sameSeq
        intro same
        have theirs : seen.key ∈ (before.txns other).taken.map (·.key) :=
          List.mem_map.mpr ⟨otherSeen, otherMember, same⟩
        exact different (inv.holding.unique _ _ _ theirs held)

end Effects

end Rocc.Db
