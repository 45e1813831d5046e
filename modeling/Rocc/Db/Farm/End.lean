import Rocc.Db.Farm.Steps

/-!
# DBFarm: the steps of `end` keep the invariant
-/

set_option linter.unusedSectionVars false

namespace Rocc.Db.Farm

open Rtx Schedule

universe u v w x

variable {Key : Type u} {Value : Type v} {Tid : Type w} {Owner : Type x}
variable [DecidableEq Key] [DecidableEq Value] [DecidableEq Tid] [DecidableEq Owner]
variable {config : Config Key Value Tid Owner} {state after : State Key Value Tid Owner}
variable {tid : Tid}

/-! ## Moves to another stage -/

/-- The running transaction goes on; records, locks and messages stay. -/
theorem Inv.advance (inv : Inv config state) (tid : Tid) {stage : Stage Key Value}
    (changed : after.txns = Function.update state.txns tid ((state.txns tid).setStage stage))
    (nodes : after.nodes = state.nodes) (flight : after.flight = state.flight)
    (running : after.running = state.running) (history : after.history = state.history)
    (fresh : after.fresh = state.fresh) (active : (state.txns tid).stage.Active)
    (unsent : ¬ (state.txns tid).stage.Sent) (unsent' : ¬ stage.Sent)
    (shape : ((state.txns tid).setStage stage).Shape)
    (secured : ∀ access ∈ (state.txns tid).taken,
      access ∈ ((state.txns tid).setStage stage).checked →
        (state.nodes access.key).seq = access.seq)
    (settled : stage.Alive → ∀ access ∈ (state.txns tid).written,
      access ∈ (state.txns tid).taken ∨ access.seq + 2 ≤ (state.nodes access.key).seq)
    (ranking : Ranking after) : Inv config after := by
  have others := others_of_changed changed
  have self := self_of_changed changed
  have own := (inv.locks.own tid).setStage shape
  refine ⟨?_, ?_, ranking, ?_⟩
  · refine inv.locks.quiet tid (fun _ => by rw [nodes]) others ?_ (self ▸ own) ?_ ?_ ?_
      (inv.locks.running_same others running active) flight
    · rw [self, Txn.setStage_taken]
    · exact fun done => unsent done.sent
    · intro sent
      rw [self] at sent
      exact absurd sent unsent'
    · exact fun sent => absurd sent unsent
  · rw [nodes]
    refine fun other => ?_
    rcases eq_or_ne other tid with rfl | different
    · rw [self]
      exact ⟨(inv.sound other).seen, secured, settled⟩
    · rw [others other different]
      exact inv.sound other
  · exact inv.logged.frame history fresh (fun _ => by rw [nodes])
      (mono_of_changed changed fun _ member => member)
      (mono_of_changed changed fun _ member => member)

/-- The running transaction goes on before it has all its locks. -/
theorem Inv.advance_early (inv : Inv config state) (tid : Tid) {stage : Stage Key Value}
    (active : (state.txns tid).stage.Active) (early : ¬ (state.txns tid).stage.Ranked)
    (early' : ¬ stage.Ranked) (shape : ((state.txns tid).setStage stage).Shape)
    (secured : ∀ access ∈ (state.txns tid).taken,
      access ∈ ((state.txns tid).setStage stage).checked →
        access ∈ (state.txns tid).checked) :
    Inv config (state.setTxn tid ((state.txns tid).setStage stage)) := by
  refine inv.advance tid rfl rfl rfl rfl rfl rfl active (fun sent => early sent.ranked)
    (fun sent => early' sent.ranked) shape ?_ ?_ ?_
  · intro access taken checked
    exact (inv.sound tid).secured access taken (secured access taken checked)
  · exact fun alive => absurd alive.ranked early'
  · refine inv.ranking.frame_of_not_alive tid rfl (others_of_changed rfl) ?_ ?_
    · rw [self_of_changed rfl]
      exact fun alive => early' alive.ranked
    · exact fun ranked => absurd ranked early

theorem startEnd_inv (inv : Inv config state)
    (stepped : startEnd state tid = some after) : Inv config after := by
  unfold startEnd at stepped
  dsimp only at stepped
  split at stepped
  · rename_i executes
    cases stepped
    have nothing : (state.txns tid).taken = [] := by
      have shape := (inv.locks.own tid).shape
      simpa only [Txn.Shape, executes] using shape
    refine inv.advance_early tid ?_ ?_ ?_ ?_ ?_
    · simp [executes, Stage.Active]
    · simp [executes, Stage.Ranked]
    · simp [Stage.Ranked]
    · rw [Txn.Shape]
      simp only [Txn.setStage_stage, Txn.setStage_taken, nothing]
      exact ⟨fun _ => .refl _, fun _ member => member⟩
    · simp [nothing]
  · cases stepped

/-- A step of `validate_reads` that does not fail. -/
theorem Inv.validated (inv : Inv config state) {item : RemoteSetItem Key Value}
    {rest : List (RemoteSetItem Key Value)}
    (validating : (state.txns tid).stage = .validateReads (item :: rest)) :
    Inv config (state.setTxn tid ((state.txns tid).setStage (.validateReads rest))) := by
  have shape := (inv.locks.own tid).shape
  simp only [Txn.Shape, validating] at shape
  refine inv.advance_early tid ?_ ?_ ?_ shape ?_
  · simp [validating, Stage.Active]
  · simp [validating, Stage.Ranked]
  · simp [Stage.Ranked]
  · intro access taken checked
    rw [Txn.checked, validating]
    exact checked

/-- A record that is only read is skipped by `lock_all_set`. -/
theorem Inv.skipped (inv : Inv config state) {item : RWSetItem Key Value}
    {walked rest : List (RWSetItem Key Value)} (ro : item.ro = true)
    (locking : (state.txns tid).stage = .lockAllSet walked (item :: rest)) :
    Inv config (state.setTxn tid ((state.txns tid).setStage (.lockAllSet walked rest))) := by
  have shape := (inv.locks.own tid).shape
  simp only [Txn.Shape, locking] at shape
  refine inv.advance_early tid ?_ ?_ ?_ ?_ ?_
  · simp [locking, Stage.Active]
  · simp [locking, Stage.Ranked]
  · simp [Stage.Ranked]
  · refine ⟨shape.1, ?_⟩
    have rest := shape.2
    rwa [List.filter_cons_of_neg (by simp [ro])] at rest
  · intro access taken checked
    rw [Txn.checked, locking]
    exact checked

/-! ## Having all locks -/

/-- A transaction that has had all its locks still has the lock of a record it writes or
has written the record. -/
theorem Inv.settled_or_held (inv : Inv config state) (alive : (state.txns tid).stage.Alive)
    {left right : Access Key} (written : left ∈ (state.txns tid).written)
    (sameKey : left.key = right.key) (current : (state.nodes right.key).seq = right.seq) :
    left ∈ (state.txns tid).taken ∨ left.seq + 2 ≤ right.seq := by
  rcases (inv.sound tid).settled alive left written with held | done
  · exact .inl held
  · right
    rwa [sameKey, current] at done

section Enlist

variable {walked : List (RWSetItem Key Value)}

/-- The locks of a transaction that has all of them. -/
theorem Inv.all_taken (inv : Inv config state)
    (locking : (state.txns tid).stage = .lockAllSet walked []) :
    (state.txns tid).taken.Perm (state.txns tid).written := by
  have shape := (inv.locks.own tid).shape
  simp only [Txn.Shape, locking, List.filter_nil, List.append_nil] at shape
  rw [Txn.written, ← shape.2]
  exact shape.1

/-- A transaction that has just got all its locks comes after every other one. -/
theorem Inv.ordered_last (inv : Inv config state)
    (locking : (state.txns tid).stage = .lockAllSet walked [])
    (unchanged : Resumes config state tid (state.txns tid).stage) {other : Tid}
    (different : other ≠ tid) (otherAlive : (state.txns other).stage.Alive) :
    Ordered (state.txns other)
      ((state.txns tid).setStage (.checkLocalSet [] (state.txns tid).rwset)) := by
  have remoteTaken : ∀ access ∈ (state.txns tid).remote, access ∈ (state.txns tid).taken :=
    fun access member => (inv.all_taken locking).mem_iff.mpr (List.mem_append_left _ member)
  have current : ∀ access ∈ (state.txns tid).remote,
      (state.nodes access.key).seq = access.seq := by
    intro access member
    refine (inv.sound tid).secured access (remoteTaken access member) ?_
    rw [Txn.checked, locking]
    exact member
  constructor
  · intro left leftWritten right rightConfirmed sameKey
    simp only [Txn.confirmed, Txn.checked, Txn.setStage_stage, Txn.setStage_remote,
      List.map_nil, List.append_nil, Txn.setStage_fetched, List.mem_append] at rightConfirmed
    -- A remote record is locked, or it is unlocked and as it was fetched.
    have byRemote : right ∈ (state.txns tid).remote → left.seq + 2 ≤ right.seq := by
      intro rightRemote
      refine (inv.settled_or_held otherAlive leftWritten sameKey
        (current right rightRemote)).resolve_left fun held => different ?_
      exact (inv.locks.taken_unique held (remoteTaken right rightRemote) sameKey).1
    rcases rightConfirmed with rightRemote | rightFetched
    · exact byRemote rightRemote
    · rw [locking, Resumes] at unchanged
      rcases unchanged right rightFetched with rightRemote | ⟨free, fetched⟩
      · exact byRemote rightRemote
      · refine (inv.settled_or_held otherAlive leftWritten sameKey fetched).resolve_left
          fun held => ?_
        exact inv.locks.holding.not_mem_of_free (fun _ => config.words.ne_zero _) free
          (List.mem_map.mpr ⟨left, held, sameKey⟩)
  · intro left leftRead right _ rightChecked sameKey
    simp only [Txn.checked, Txn.setStage_stage, Txn.setStage_remote, List.map_nil,
      List.append_nil] at rightChecked
    have bound := ((inv.sound other).seen left leftRead).1
    rwa [sameKey, current right rightChecked] at bound

/-- A transaction that has all its locks is put last. -/
theorem Inv.enlist (inv : Inv config state)
    (locking : (state.txns tid).stage = .lockAllSet walked [])
    (unchanged : Resumes config state tid (state.txns tid).stage)
    (changed : after.txns = Function.update state.txns tid
      ((state.txns tid).setStage (.checkLocalSet [] (state.txns tid).rwset)))
    (order : after.lockOrder = state.lockOrder ++ [tid]) : Ranking after := by
  have others := others_of_changed changed
  have self := self_of_changed changed
  have unlisted : tid ∉ state.lockOrder := by
    intro member
    have ranked := inv.ranking.ranked tid member
    simp [locking, Stage.Ranked] at ranked
  have same : ∀ other ∈ state.lockOrder, other ≠ tid ∧ after.txns other = state.txns other := by
    intro other member
    have different : other ≠ tid := by
      rintro rfl
      exact unlisted member
    exact ⟨different, others other different⟩
  refine ⟨?_, ?_, ?_, ?_⟩
  · rw [order]
    exact inv.ranking.nodup.append (by simp) (by simpa using unlisted)
  · intro other alive
    rw [order, List.mem_append, List.mem_singleton]
    rcases eq_or_ne other tid with rfl | different
    · exact .inr rfl
    · rw [others other different] at alive
      exact .inl (inv.ranking.listed other alive)
  · intro other member
    rw [order, List.mem_append, List.mem_singleton] at member
    rcases member with member | rfl
    · rw [(same other member).2]
      exact inv.ranking.ranked other member
    · rw [self]
      trivial
  · rw [order, List.pairwise_append]
    refine ⟨?_, List.pairwise_singleton _ _, ?_⟩
    · refine inv.ranking.ordered.imp_of_mem
        fun {earlier later} earlierListed laterListed before => ?_
      rw [(same earlier earlierListed).2, (same later laterListed).2]
      exact before
    · intro other member last lastMember otherAlive _
      rw [(same other member).2] at otherAlive ⊢
      rw [List.mem_singleton.mp lastMember, self]
      exact inv.ordered_last locking unchanged (same other member).1 otherAlive

end Enlist

section Confirm

variable {item : RWSetItem Key Value} {passed rest : List (RWSetItem Key Value)}

/-- Nobody else has the lock of a local record that `check_local_set` finds unlocked: a
transaction of this coroutine that is not running has no local lock. -/
theorem Inv.not_locked (inv : Inv config state)
    (checking : (state.txns tid).stage = .checkLocalSet passed (item :: rest))
    (current : (state.nodes item.access.key).seq = item.access.seq)
    (unlocked : Unlocked config state tid (state.txns tid).stage) {other : Tid}
    (different : other ≠ tid) {lock : Access Key} (held : lock ∈ (state.txns other).taken) :
    lock.key ≠ item.access.key := by
  intro sameKey
  have own := inv.locks.own tid
  have shape := own.shape
  simp only [Txn.Shape, checking] at shape
  have isLocal : config.IsLocal tid item.access.key := by
    refine own.inside item ?_
    rw [← shape.2]
    simp
  have word := inv.locks.holding.locked other lock.key (List.mem_map_of_mem held)
  rw [sameKey] at word
  rw [checking, Unlocked] at unlocked
  rcases unlocked current with free | mine
  · exact config.words.ne_zero _ (word.symm.trans free)
  · have sameOwner := config.words.injective (word.symm.trans mine)
    have otherLocal : config.IsLocal other lock.key := by
      rw [Config.IsLocal, sameOwner, sameKey]
      exact isLocal
    refine different (inv.locks.active_unique (inv.locks.active_of_local held otherLocal) ?_
      sameOwner)
    simp [checking, Stage.Active]

theorem mem_checked_confirm {txn : Txn Key Value}
    (checking : txn.stage = .checkLocalSet passed (item :: rest)) {access : Access Key}
    (member : access ∈ (txn.setStage (.checkLocalSet (passed ++ [item]) rest)).checked) :
    access ∈ txn.checked ∨ access = item.access := by
  simp only [Txn.checked, Txn.setStage_stage, Txn.setStage_remote, List.map_append,
    List.map_cons, List.map_nil, List.mem_append, List.mem_singleton] at member
  simp only [Txn.checked, checking, List.mem_append]
  tauto

/-- One more comparison keeps a transaction behind those before it. -/
theorem Inv.ordered_confirm (inv : Inv config state)
    (checking : (state.txns tid).stage = .checkLocalSet passed (item :: rest))
    (current : (state.nodes item.access.key).seq = item.access.seq)
    (unlocked : Unlocked config state tid (state.txns tid).stage) {other : Tid}
    (different : other ≠ tid) (otherAlive : (state.txns other).stage.Alive)
    (ordered : Ordered (state.txns other) (state.txns tid)) :
    Ordered (state.txns other)
      ((state.txns tid).setStage (.checkLocalSet (passed ++ [item]) rest)) := by
  constructor
  · intro left leftWritten right rightConfirmed sameKey
    rw [Txn.confirmed, List.mem_append] at rightConfirmed
    rcases rightConfirmed with rightChecked | rightFetched
    · rcases mem_checked_confirm checking rightChecked with rightChecked | rfl
      · exact ordered.writes_before left leftWritten right (List.mem_append_left _ rightChecked)
          sameKey
      · refine (inv.settled_or_held otherAlive leftWritten sameKey current).resolve_left
          fun held => ?_
        exact inv.not_locked checking current unlocked different held sameKey
    · exact ordered.writes_before left leftWritten right (List.mem_append_right _ rightFetched)
        sameKey
  · intro left leftRead right rightWritten rightChecked sameKey
    rcases mem_checked_confirm checking rightChecked with rightChecked | rfl
    · exact ordered.reads_before left leftRead right rightWritten rightChecked sameKey
    · have bound := ((inv.sound other).seen left leftRead).1
      rwa [sameKey, current] at bound

/-- `check_local_set` finds the expected sequence number of an unlocked record. -/
theorem Inv.confirm (inv : Inv config state)
    (checking : (state.txns tid).stage = .checkLocalSet passed (item :: rest))
    (current : (state.nodes item.access.key).seq = item.access.seq)
    (unlocked : Unlocked config state tid (state.txns tid).stage)
    (changed : after.txns = Function.update state.txns tid
      ((state.txns tid).setStage (.checkLocalSet (passed ++ [item]) rest)))
    (order : after.lockOrder = state.lockOrder) : Ranking after := by
  have alive : (state.txns tid).stage.Alive := by simp [checking, Stage.Alive]
  have others := others_of_changed changed
  have self := self_of_changed changed
  refine ⟨order ▸ inv.ranking.nodup, ?_, ?_, ?_⟩
  · intro other now
    rw [order]
    rcases eq_or_ne other tid with rfl | different
    · exact inv.ranking.listed other alive
    · rw [others other different] at now
      exact inv.ranking.listed other now
  · intro other member
    rw [order] at member
    rcases eq_or_ne other tid with rfl | different
    · rw [self]
      trivial
    · rw [others other different]
      exact inv.ranking.ranked other member
  · rw [order]
    refine (inv.ranking.ordered.and inv.ranking.nodup).imp ?_
    rintro earlier later ⟨before, apart⟩ earlierNow laterNow
    rcases eq_or_ne later tid with rfl | laterDifferent
    · rw [others earlier apart] at earlierNow ⊢
      rw [self]
      exact inv.ordered_confirm checking current unlocked apart earlierNow
        (before earlierNow alive)
    · rw [others later laterDifferent] at laterNow ⊢
      rcases eq_or_ne earlier tid with rfl | earlierDifferent
      · obtain ⟨writes, reads⟩ := before alive laterNow
        rw [self]
        exact ⟨writes, reads⟩
      · rw [others earlier earlierDifferent] at earlierNow ⊢
        exact before earlierNow laterNow

end Confirm

/-! ## Aborting -/

/-- A transaction that fails sends its releases and gives back its local locks. -/
theorem Inv.abort (inv : Inv config state) {walked : List (RWSetItem Key Value)}
    (active : (state.txns tid).stage.Active) (unsent : ¬ (state.txns tid).stage.Sent)
    (taken : ∀ access ∈ (state.txns tid).taken,
      access ∈ (state.txns tid).remote ∨ access ∈ walked.map (·.access))
    (walkedLocal : walked.Sublist (state.txns tid).localWrites) :
    Inv config (state.abort config tid walked) := by
  have own := inv.locks.own tid
  have changed : (state.abort config tid walked).txns = Function.update state.txns tid
      ((state.txns tid).setStage (.releaseAllSet walked)) := rfl
  have others := others_of_changed changed
  have self := self_of_changed changed
  refine ⟨?_, ?_, ?_, ?_⟩
  · refine inv.locks.send tid
      ((state.txns tid).remoteWrites.map fun item => .release tid item.access) (fun _ => rfl)
      others (by rw [self]; rfl) (self ▸ own.setStage ⟨taken, walkedLocal⟩) active unsent
      (inv.locks.running_same others rfl active) rfl ?_ ?_ ?_ ?_
    · intro message member
      obtain ⟨item, -, rfl⟩ := List.mem_map.mp member
      rfl
    · intro access held isRemote
      rcases taken access held with member | member
      · obtain ⟨item, listed, rfl⟩ := List.mem_map.mp member
        exact ⟨_, List.mem_map_of_mem listed, rfl⟩
      · obtain ⟨item, listed, rfl⟩ := List.mem_map.mp member
        exact absurd (own.inside item (Txn.mem_localWrites (walkedLocal.subset listed))) isRemote
    · intro message member
      obtain ⟨item, listed, rfl⟩ := List.mem_map.mp member
      refine ⟨rfl, rfl, own.remote_outside (List.mem_map_of_mem listed), ?_, ?_⟩
      · intro sender other commit
        cases commit
      · intro sender access release
        cases release
        rw [self]
        exact ⟨trivial, fun alive => alive⟩
    · rw [List.pairwise_map]
      refine List.pairwise_of_forall fun _ _ => ?_
      intro _ _ _ _ commit
      cases commit
  · refine inv.sound_of_changed changed (fun _ => rfl) (fun _ stays => stays)
      ⟨(inv.sound tid).seen, fun access _ checked => ?_, fun alive => alive.elim⟩
    simp [Txn.checked] at checked
  · refine inv.ranking.frame_of_not_alive tid rfl others ?_ ?_
    · rw [self]
      exact fun alive => alive
    · intro _
      rw [self]
      trivial
  · exact inv.logged.frame rfl rfl (fun _ => rfl)
      (mono_of_changed changed fun _ member => member)
      (mono_of_changed changed fun _ member => member)

/-! ## Taking locks -/

/-- The running transaction takes a lock before it has all of them. -/
theorem Inv.take (inv : Inv config state) {lock : Access Key} {stage : Stage Key Value}
    (active : (state.txns tid).stage.Active) (early : ¬ (state.txns tid).stage.Ranked)
    (early' : ¬ stage.Ranked) (free : (state.nodes lock.key).lock = 0)
    (clear : ¬ config.IsLocal tid lock.key →
      state.flight (config.owner tid) (config.pid lock.key) = [])
    (shape : (((state.txns tid).take lock).setStage stage).Shape)
    (secured : ∀ access ∈ (state.txns tid).taken ++ [lock],
      access ∈ (((state.txns tid).take lock).setStage stage).checked →
        (state.nodes access.key).seq = access.seq) :
    Inv config ((state.setNode lock.key
      { state.nodes lock.key with lock := config.content tid }).setTxn tid
        (((state.txns tid).take lock).setStage stage)) := by
  have own := inv.locks.own tid
  have node : ∀ key, ((state.setNode lock.key
      { state.nodes lock.key with lock := config.content tid }).nodes key).seq =
        (state.nodes key).seq ∧ ((state.setNode lock.key
      { state.nodes lock.key with lock := config.content tid }).nodes key).value =
        (state.nodes key).value := by
    intro key
    rcases eq_or_ne key lock.key with rfl | different <;> simp [State.setNode, *]
  have changed : ((state.setNode lock.key
      { state.nodes lock.key with lock := config.content tid }).setTxn tid
        (((state.txns tid).take lock).setStage stage)).txns = Function.update state.txns tid
          (((state.txns tid).take lock).setStage stage) := rfl
  have others := others_of_changed changed
  have self := self_of_changed changed
  refine ⟨?_, ?_, ?_, ?_⟩
  · refine inv.locks.take tid lock free (by simp [State.setNode, State.setTxn])
      (fun key different => by simp [State.setNode, State.setTxn, different]) others
      (by rw [self]; rfl) ?_ (fun sent => early sent.ranked) ?_
      (inv.locks.running_same others rfl active) clear rfl
    · rw [self]
      exact ⟨own.inside, own.outside, own.remote_fetched, shape⟩
    · rw [self]
      exact fun sent => early' sent.ranked
  · refine inv.sound_of_changed changed (fun key => (node key).1)
      (fun key there => (node key).2 ▸ there) ⟨?_, ?_, fun alive => absurd alive.ranked early'⟩
    · intro access member
      obtain ⟨old, there⟩ := (inv.sound tid).seen access member
      exact ⟨(node access.key).1.symm ▸ old, (node access.key).2.symm ▸ there⟩
    · intro access taken checked
      exact (node access.key).1.trans (secured access taken checked)
  · refine inv.ranking.frame_of_not_alive tid rfl others ?_ fun ranked => absurd ranked early
    rw [self]
    exact fun alive => early' alive.ranked
  · exact inv.logged.frame rfl rfl (fun key => (node key).1)
      (mono_of_changed changed fun _ member => member)
      (mono_of_changed changed fun _ member => member)

end Rocc.Db.Farm
