import Rocc.Db.Ownership

/-!
# Every step has one of the four effects

One lemma for each action of `TxHandler`: from a state of the invariant its step is a
case of `Effect`.  The execution of a transaction only adds items to its sets; `end`
walks the stages that `Txn.Own` describes.
-/

set_option linter.unusedSectionVars false

namespace Rocc.Db

universe u v w x

variable {Key : Type u} {Value : Type v} {Tid : Type w} {Extra : Type x}
variable [DecidableEq Key] [DecidableEq Tid]
variable {config : Config Key Tid} {handler : TxHandler Key Value Extra}
variable {before after : State Key Value Tid Extra} {tid : Tid}
variable {next : Option (Seen Key)}

/-! ## Steps of the execution -/

section Execution

/-- At these stages the transaction has no lock. -/
def Stage.Idle : Stage Key Value → Prop
  | .idle => True
  | .execute => True
  | .finished _ => True
  | _ => False

theorem TxnOk.taken_nil {nodes : Key → MemNode Value} {txn : Txn Key Value Extra}
    (ok : TxnOk config nodes tid txn) (idle : txn.stage.Idle) : txn.taken = [] := by
  have own := ok.own
  unfold Txn.Own at own
  cases stage : txn.stage <;> simp_all [Stage.Idle]

/-- A step between idle stages only has to place its items. -/
theorem Effect.execute (inv : Inv config before) (idle : (before.txns tid).stage.Idle)
    {txn : Txn Key Value Extra} (stage : txn.stage = .execute)
    (taken : txn.taken = (before.txns tid).taken)
    (locals : ∀ item ∈ txn.rwset, config.IsLocal tid item.seen.key)
    (remotes : ∀ item ∈ txn.remoteset, ¬ config.IsLocal tid item.seen.key)
    (writes : ∀ item ∈ txn.remoteWrites, ¬ config.IsLocal tid item.seen.key)
    (seen : ∀ seen ∈ txn.items, seen ∈ (before.txns tid).items ∨
      ∃ key seq, seen = before.see key seq ∧ Shown handler (before.nodes key) seq) :
    Effect config handler before tid next (before.setTxn tid txn) := by
  have unsure : ¬ txn.Sure := by simp [Txn.Sure, stage]
  refine .frame txn ⟨locals, remotes, writes, ?_, fun sure => absurd sure unsure⟩ taken seen
    fun sure => absurd sure unsure
  rw [Txn.Own, stage]
  exact taken.trans ((inv.txnOk tid).taken_nil idle)

/-- An item added to the write set is remembered as it was shown. -/
theorem Effect.add (inv : Inv config before) (idle : (before.txns tid).stage = .execute)
    {key : Key} (isLocal : config.IsLocal tid key) {seq : Nat}
    (shown : Shown handler (before.nodes key) seq) (addr : Option Value) (ro : Bool)
    (extra : Extra) :
    Effect config handler before tid next (before.setTxn tid
      { (before.txns tid).add { seen := before.see key seq, addr, ro } with extra }) := by
  have ok := inv.txnOk tid
  refine Effect.execute inv (by simp [idle, Stage.Idle]) (by exact idle) (by rfl) ?_
    ok.remotes ok.writes ?_
  rotate_left
  · intro seen member
    simp only [Txn.items, Txn.add, List.map_append, List.map_cons, List.map_nil,
      List.mem_append, List.mem_singleton] at member ⊢
    rcases member with ((member | rfl) | member) | member
    · exact .inl (.inl (.inl member))
    · exact .inr ⟨key, seq, rfl, shown⟩
    · exact .inl (.inl (.inr member))
    · exact .inl (.inr member)
  · intro item member
    rcases List.mem_append.mp member with member | member
    · exact ok.locals item member
    · rw [List.mem_singleton.mp member]
      exact isLocal

/-- A step that finds nothing to do. -/
theorem Effect.stay (inv : Inv config before) (idle : (before.txns tid).stage = .execute) :
    Effect config handler before tid next before := by
  have ok := inv.txnOk tid
  have same : before.setTxn tid (before.txns tid) = before := by
    simp [State.setTxn]
  have framed : Effect config handler before tid next (before.setTxn tid (before.txns tid)) :=
    Effect.execute inv (by simp [idle, Stage.Idle]) idle rfl ok.locals ok.remotes
      ok.writes fun _ member => .inl member
  rwa [same] at framed

variable [DecidableEq Value]

theorem begin_effect {now : Nat} (inv : Inv config before)
    (stepped : begin handler before tid now = some after) :
    Effect config handler before tid next after := by
  have fresh : (before.txns tid).stage.Idle →
      ∀ extra, Effect config handler before tid next (before.setTxn tid
        { before.txns tid with
          stage := .execute, rwset := [], remoteset := [], remoteWrites := [], extra }) := by
    intro idle extra
    refine Effect.execute inv idle (by rfl) (by rfl) ?_ ?_ ?_ ?_ <;> simp [Txn.items]
  unfold begin at stepped
  cases stage : (before.txns tid).stage with
  | idle =>
      simp only [stage, Option.map_eq_some_iff] at stepped
      obtain ⟨extra, -, rfl⟩ := stepped
      exact fresh (by simp [stage, Stage.Idle]) extra
  | finished committed =>
      simp only [stage, Option.map_eq_some_iff] at stepped
      obtain ⟨extra, -, rfl⟩ := stepped
      exact fresh (by simp [stage, Stage.Idle]) extra
  | _ => simp [stage] at stepped

theorem get_effect {key : Key} (inv : Inv config before)
    (stepped : get config handler before tid key = some after) :
    Effect config handler before tid next after := by
  unfold get at stepped
  split at stepped
  · rename_i here
    obtain ⟨found, read, rfl⟩ := Option.map_eq_some_iff.mp stepped
    cases found with
    | none => exact Effect.stay inv here.1
    | some seq => exact Effect.add inv here.1 here.2 (.inr (.inl read)) _ _ _
  · cases stepped

theorem insert_effect {key : Key} {value : Value} (inv : Inv config before)
    (stepped : insert config before tid key value = some after) :
    Effect config handler before tid next after := by
  unfold insert at stepped
  split at stepped
  · rename_i here
    cases stepped
    exact Effect.add inv here.1 here.2 (.inl rfl) _ _ (before.txns tid).extra
  · cases stepped

theorem modify_map {Item : Type*} {Image : Type*} (image : Item → Image)
    (change : Item → Item) (same : ∀ item, image (change item) = image item)
    (items : List Item) (index : Nat) :
    (items.modify index change).map image = items.map image := by
  induction items generalizing index with
  | nil => simp
  | cons head tail ih => cases index <;> simp [same, ih]

/-- Writing an item keeps what it remembers. -/
theorem Effect.writeAt (inv : Inv config before)
    (idle : (before.txns tid).stage = .execute) {index : Nat} {addr : Option Value}
    {txn : Txn Key Value Extra}
    (written : (before.txns tid).writeAt handler index addr = some txn) :
    Effect config handler before tid next (before.setTxn tid txn) := by
  have ok := inv.txnOk tid
  obtain ⟨item, -, rfl⟩ := Option.map_eq_some_iff.mp written
  have same : ((before.txns tid).rwset.modify index (·.write addr)).map (·.seen) =
      (before.txns tid).rwset.map (·.seen) :=
    modify_map _ (WriteSetItem.write · addr) (fun _ => rfl) _ _
  refine Effect.execute inv (by simp [idle, Stage.Idle]) (by exact idle) (by rfl) ?_
    ok.remotes ok.writes ?_
  rotate_left
  · intro seen member
    rw [Txn.items, same] at member
    exact .inl member
  · intro item member
    have image : item.seen ∈ (before.txns tid).rwset.map (·.seen) := by
      rw [← same]
      exact List.mem_map_of_mem member
    obtain ⟨original, originalMember, sameSeen⟩ := List.mem_map.mp image
    rw [← sameSeen]
    exact ok.locals original originalMember

theorem write_effect {key : Key} {value : Value} (inv : Inv config before)
    (stepped : write config handler before tid key value = some after) :
    Effect config handler before tid next after := by
  unfold write at stepped
  split at stepped
  · rename_i here
    obtain ⟨txn, written, rfl⟩ := Option.map_eq_some_iff.mp stepped
    exact Effect.writeAt inv here.1 written
  · cases stepped

theorem writeLast_effect {value : Value} (inv : Inv config before)
    (stepped : writeLast handler before tid value = some after) :
    Effect config handler before tid next after := by
  unfold writeLast at stepped
  dsimp only at stepped
  split at stepped
  · rename_i here
    obtain ⟨txn, written, rfl⟩ := Option.map_eq_some_iff.mp stepped
    exact Effect.writeAt inv here written
  · cases stepped

theorem delete_effect {key : Key} (inv : Inv config before)
    (stepped : delete config handler before tid key = some after) :
    Effect config handler before tid next after := by
  unfold delete at stepped
  split at stepped
  · rename_i here
    dsimp only at stepped
    split at stepped
    · rename_i written found
      cases stepped
      exact Effect.writeAt inv here.1 found
    · cases stepped
      exact Effect.add inv here.1 here.2 (.inl rfl) _ _ _
  · cases stepped

theorem deleteIndex_effect {key : Key} (inv : Inv config before)
    (stepped : deleteIndex config handler before tid key = some after) :
    Effect config handler before tid next after := by
  unfold deleteIndex at stepped
  split at stepped
  · rename_i here
    dsimp only at stepped
    split at stepped
    · cases stepped
      exact Effect.stay inv here.1
    · cases stepped
      exact Effect.add inv here.1 here.2 (.inl rfl) _ _ _
  · cases stepped

theorem getRpcHandler_shown {type : ReqType} {node : MemNode Value} {seq : Nat}
    (replied : getRpcHandler handler type node = some seq) : Shown handler node seq := by
  cases type with
  | reqRead => exact .inr (.inr replied)
  | reqInsert => exact .inl (Option.some.inj replied).symm

theorem remoteAdd_effect {type : ReqType} {key : Key} (inv : Inv config before)
    (stepped : remoteAdd config handler before tid type key = some after) :
    Effect config handler before tid next after := by
  unfold remoteAdd at stepped
  split at stepped
  · rename_i here
    obtain ⟨seq, replied, rfl⟩ := Option.map_eq_some_iff.mp stepped
    have ok := inv.txnOk tid
    refine Effect.execute inv (by simp [here.1, Stage.Idle]) (by exact here.1) (by rfl)
      ok.locals ?_ ok.writes ?_
    rotate_left
    · intro seen member
      simp only [Txn.items, List.map_append, List.map_cons, List.map_nil,
        List.mem_append, List.mem_singleton] at member ⊢
      rcases member with (member | member | rfl) | member
      · exact .inl (.inl (.inl member))
      · exact .inl (.inl (.inr member))
      · exact .inr ⟨key, seq, rfl, getRpcHandler_shown replied⟩
      · exact .inl (.inr member)
    · intro item member
      rcases List.mem_append.mp member with member | member
      · exact ok.remotes item member
      · rw [List.mem_singleton.mp member]
        exact here.2
  · cases stepped

theorem refetch_effect {index : Nat} (inv : Inv config before)
    (stepped : refetch handler before tid index = some after) :
    Effect config handler before tid next after := by
  unfold refetch at stepped
  dsimp only at stepped
  split at stepped
  · rename_i item idle found
    obtain ⟨seq, replied, rfl⟩ := Option.map_eq_some_iff.mp stepped
    have ok := inv.txnOk tid
    have itemMember := List.mem_of_getElem? found
    refine Effect.execute inv (by simp [idle, Stage.Idle]) (by exact idle) (by rfl)
      ok.locals ?_ ok.writes ?_
    rotate_left
    · intro seen member
      simp only [Txn.items, List.mem_append, List.mem_map] at member ⊢
      rcases member with (member | ⟨other, member, rfl⟩) | member
      · exact .inl (.inl (.inl member))
      · rcases List.mem_or_eq_of_mem_set member with member | rfl
        · exact .inl (.inl (.inr ⟨other, member, rfl⟩))
        · exact .inr ⟨item.seen.key, seq, rfl, getRpcHandler_shown replied⟩
      · exact .inl (.inr member)
    · intro other member
      rcases List.mem_or_eq_of_mem_set member with member | rfl
      · exact ok.remotes other member
      · exact ok.remotes item itemMember
  · cases stepped

theorem remoteWrite_effect {index : Nat} {payload : Option Value} (inv : Inv config before)
    (stepped : remoteWrite before tid index payload = some after) :
    Effect config handler before tid next after := by
  unfold remoteWrite at stepped
  dsimp only at stepped
  split at stepped
  · rename_i item idle found
    cases stepped
    have ok := inv.txnOk tid
    have itemMember := List.mem_of_getElem? found
    refine Effect.execute inv (by simp [idle, Stage.Idle]) (by exact idle) (by rfl)
      ok.locals ok.remotes ?_ ?_
    · intro other member
      rcases List.mem_append.mp member with member | member
      · exact ok.writes other member
      · rw [List.mem_singleton.mp member]
        exact ok.remotes item itemMember
    · intro seen member
      simp only [Txn.items, List.map_append, List.map_cons, List.map_nil,
        List.mem_append, List.mem_singleton] at member ⊢
      rcases member with (member | member) | member | rfl
      · exact .inl (.inl (.inl member))
      · exact .inl (.inl (.inr member))
      · exact .inl (.inr member)
      · exact .inl (.inl (.inr (List.mem_map_of_mem itemMember)))
  · cases stepped

end Execution

/-! ## Steps of `end` -/

section Ending

variable [DecidableEq Value]

/-- A stage change that keeps locks and items. -/
theorem Effect.advance (inv : Inv config before) (stage : Stage Key Value) (extra : Extra)
    (own : Txn.Own { before.txns tid with stage, extra } (config.IsLocal tid))
    (calm : Txn.Sure { before.txns tid with stage, extra } →
      (before.txns tid).taken = [] ∧ ¬ Txn.Decided { before.txns tid with stage, extra } ∨
        (before.txns tid).Sure ∧
          Calm handler (before.txns tid) { before.txns tid with stage, extra }) :
    Effect config handler before tid next
      (before.setTxn tid { before.txns tid with stage, extra }) := by
  have ok := inv.txnOk tid
  refine .frame _ ⟨ok.locals, ok.remotes, ok.writes, own, ?_⟩ rfl
    (fun _ member => .inl member) calm
  intro sure seen member
  rcases calm sure with ⟨nothing, -⟩ | ⟨wasSure, -⟩
  · dsimp only at member
    simp [nothing] at member
  · exact ok.secured wasSure seen member

/-- A lock is taken at the sequence number remembered for the record. -/
theorem Effect.takes (inv : Inv config before) {seen : Seen Key} (stage : Stage Key Value)
    (extra : Extra) (free : (before.nodes seen.key).lock = 0)
    (member : seen ∈ (before.txns tid).items)
    (undecided : ¬ (before.txns tid).Decided)
    (own : Txn.Own { (before.txns tid).take seen with stage, extra } (config.IsLocal tid))
    (grown : Txn.Sure { (before.txns tid).take seen with stage, extra } →
      (before.txns tid).Sure ∧ (before.nodes seen.key).seq = seen.seq ∧
      if config.IsLocal tid seen.key then
        extra = handler.lockAllSet (before.txns tid).extra (before.nodes seen.key)
      else
        extra = handler.lockRpcHandler (before.txns tid).extra (config.pid seen.key)
          (before.nodes seen.key))
    (still : ¬ Txn.Decided { (before.txns tid).take seen with stage, extra }) :
    Effect config handler before tid next ((before.setNode seen.key
      { before.nodes seen.key with lock := config.lockContent tid }).setTxn tid
        { (before.txns tid).take seen with stage, extra }) := by
  have ok := inv.txnOk tid
  refine .lock seen _ free ⟨ok.locals, ok.remotes, ok.writes, own, ?_⟩ rfl rfl member
    ⟨undecided, still⟩ fun sure => ⟨(grown sure).1, (grown sure).2.2⟩
  intro sure other otherMember
  rcases List.mem_append.mp otherMember with otherMember | otherMember
  · exact ok.secured (grown sure).1 other otherMember
  · rw [List.mem_singleton.mp otherMember]
    exact (grown sure).2.1

theorem startEnd_effect (inv : Inv config before)
    (stepped : startEnd before tid = some after) :
    Effect config handler before tid next after := by
  unfold startEnd at stepped
  dsimp only at stepped
  split at stepped
  · rename_i stage
    cases stepped
    have nothing := (inv.txnOk tid).taken_nil (by simp [stage, Stage.Idle])
    refine Effect.advance inv _ (before.txns tid).extra ?_ fun _ => .inl ⟨nothing, ?_⟩
    · by_cases empty : (before.txns tid).remoteWrites = []
      · simp [Txn.Own, empty, nothing, Txn.localWrites]
      · simp [Txn.Own, empty, nothing]
    · by_cases empty : (before.txns tid).remoteWrites = [] <;> simp [Txn.Decided, empty]
  · cases stepped

theorem lockRpc_effect {partition : Nat} (inv : Inv config before)
    (stepped : lockRpc config handler before tid partition = some after) :
    Effect config handler before tid next after := by
  unfold lockRpc at stepped
  dsimp only at stepped
  split at stepped
  · rename_i pending failed stage
    have ok := inv.txnOk tid
    have own := ok.own
    rw [Txn.Own, stage] at own
    obtain ⟨subset, takenSubset, perm⟩ := own
    have undecided : ¬ (before.txns tid).Decided := by simp [Txn.Decided, stage]
    obtain ⟨⟨item, rest⟩, found, rfl⟩ := Option.map_eq_some_iff.mp stepped
    have split := nextFor_perm found
    have itemMember : item ∈ (before.txns tid).remoteWrites :=
      subset item (split.mem_iff.mpr (by simp))
    have restSubset : ∀ other ∈ rest, other ∈ (before.txns tid).remoteWrites :=
      fun other member => subset other (split.mem_iff.mpr (List.mem_cons_of_mem _ member))
    have seenMember : item.seen ∈ (before.txns tid).items := by
      simp only [Txn.items, List.mem_append, List.mem_map]
      exact .inr ⟨item, itemMember, rfl⟩
    have dropSubset : ∀ other ∈ dropFor (config.at partition) rest,
        other ∈ (before.txns tid).remoteWrites :=
      fun other member => restSubset other (mem_of_mem_dropFor member)
    have tookSubset : ∀ seen ∈ (before.txns tid).taken ++ [item.seen],
        seen ∈ (before.txns tid).remoteWrites.map (·.seen) := by
      intro seen member
      rcases List.mem_append.mp member with member | member
      · exact takenSubset seen member
      · rw [List.mem_singleton.mp member]
        exact List.mem_map_of_mem itemMember
    have remote := ok.writes item itemMember
    have here : config.pid item.seen.key = partition := by
      simpa [Config.at] using of_nextFor found
    dsimp only
    split_ifs with locked matching
    · -- somebody has the lock: the handler stops
      refine Effect.advance inv _ (before.txns tid).extra ?_ ?_
      · simp only [Txn.Own]
        exact ⟨dropSubset, takenSubset, by simp⟩
      · simp [Txn.Sure]
    · refine Effect.takes inv _ _ (by simpa using locked) seenMember undecided ?_ ?_
        (by simp [Txn.Decided, Txn.setStage])
      · simp only [Txn.Own, Txn.take, Txn.setStage]
        refine ⟨restSubset, tookSubset, fun sure => ?_⟩
        refine List.Perm.trans ?_ (perm sure)
        rw [List.append_assoc]
        exact ((split.map _).symm).append_left _
      · intro sure
        refine ⟨by simpa [Txn.Sure, Txn.setStage, stage] using sure, matching, ?_⟩
        rw [if_neg remote, here]
    · -- the sequence number has changed: the lock stays until the release
      refine Effect.takes inv _ (before.txns tid).extra (by simpa using locked)
        seenMember undecided ?_ (by simp [Txn.Sure]) (by simp [Txn.Decided])
      simp only [Txn.Own, Txn.take]
      exact ⟨dropSubset, tookSubset, by simp⟩
  · cases stepped

/-- Locks split into those of remote and of local records. -/
theorem own_releaseRemote {txn : Txn Key Value Extra} {nodes : Key → MemNode Value}
    (ok : TxnOk config nodes tid txn) {taken : List (Seen Key)}
    {walked : List (WriteSetItem Key Value)}
    (walkedSubset : ∀ item ∈ walked, item ∈ txn.rwset)
    (perm : taken.Perm (txn.remoteWrites.map (·.seen) ++ walked.map (·.seen))) :
    ((taken.map (·.key)).filter fun key => config.IsLocal tid key).Perm
        (walked.map (·.seen.key)) ∧
      (∀ item ∈ txn.remoteWrites, ¬ config.IsLocal tid item.seen.key) ∧
      ∀ seen ∈ taken, ¬ config.IsLocal tid seen.key →
        seen.key ∈ txn.remoteWrites.map (·.seen.key) := by
  refine ⟨?_, ok.writes, ?_⟩
  · refine ((perm.map _).filter _).trans ?_
    rw [List.map_append, List.filter_append, List.map_map, List.map_map]
    have noneLocal : ((txn.remoteWrites.map ((·.key) ∘ (·.seen))).filter
        fun key => config.IsLocal tid key) = [] := by
      rw [List.filter_eq_nil_iff]
      intro key member
      obtain ⟨item, itemMember, rfl⟩ := List.mem_map.mp member
      simpa using ok.writes item itemMember
    have allLocal : ((walked.map ((·.key) ∘ (·.seen))).filter
        fun key => config.IsLocal tid key) = walked.map (·.seen.key) := by
      rw [List.filter_eq_self.mpr]
      · rfl
      · intro key member
        obtain ⟨item, itemMember, rfl⟩ := List.mem_map.mp member
        simpa using ok.locals item (walkedSubset item itemMember)
    rw [noneLocal, allLocal, List.nil_append]
  · intro seen member remote
    rcases List.mem_append.mp (perm.mem_iff.mp member) with member | member
    · obtain ⟨item, itemMember, rfl⟩ := List.mem_map.mp member
      exact List.mem_map.mpr ⟨item, itemMember, rfl⟩
    · obtain ⟨item, itemMember, rfl⟩ := List.mem_map.mp member
      exact absurd (ok.locals item (walkedSubset item itemMember)) remote

theorem lockLocal_effect (inv : Inv config before)
    (stepped : lockLocal config handler before tid = some after) :
    Effect config handler before tid next after := by
  unfold lockLocal at stepped
  dsimp only at stepped
  split at stepped
  · rename_i walked item rest stage
    have ok := inv.txnOk tid
    have own := ok.own
    rw [Txn.Own, stage] at own
    obtain ⟨perm, walk⟩ := own
    have undecided : ¬ (before.txns tid).Decided := by simp [Txn.Decided, stage]
    have wasSure : (before.txns tid).Sure := by simp [Txn.Sure, stage]
    have written : ∀ other ∈ walked ++ (item :: rest).filter (fun item => !item.ro),
        other ∈ (before.txns tid).rwset := by
      intro other member
      rw [walk] at member
      exact List.mem_of_mem_filter member
    have walkedSubset : ∀ other ∈ walked, other ∈ (before.txns tid).rwset :=
      fun other member => written other (List.mem_append_left _ member)
    split_ifs at stepped with readOnly locked matching
    · cases stepped
      refine Effect.advance inv _ (before.txns tid).extra ?_ ?_
      · simp only [Txn.Own]
        refine ⟨perm, ?_⟩
        rw [List.filter_cons_of_neg (by simp [readOnly])] at walk
        exact walk
      · intro _
        exact .inr ⟨wasSure, .inl ⟨rfl, by simp [Txn.Decided, stage]⟩⟩
    · cases stepped
      refine Effect.advance inv _ (before.txns tid).extra ?_ (by simp [Txn.Sure])
      simp only [Txn.Own]
      exact own_releaseRemote ok walkedSubset perm
    all_goals
      cases stepped
      have writes : item.ro = false := by simpa using readOnly
      rw [List.filter_cons_of_pos (by simp [writes])] at walk written
      have itemMember : item ∈ (before.txns tid).rwset := written item (by simp)
      have seenMember : item.seen ∈ (before.txns tid).items := by
        simp only [Txn.items, List.mem_append, List.mem_map]
        exact .inl (.inl ⟨item, itemMember, rfl⟩)
      have isLocal := ok.locals item itemMember
      have tookPerm : ((before.txns tid).taken ++ [item.seen]).Perm
          ((before.txns tid).remoteWrites.map (·.seen) ++ (walked ++ [item]).map (·.seen)) := by
        rw [List.map_append, ← List.append_assoc]
        exact perm.append_right _
    · refine Effect.takes inv _ _ (by simpa using locked) seenMember undecided ?_ ?_
        (by simp [Txn.Decided, Txn.setStage])
      · simp only [Txn.Own, Txn.take, Txn.setStage]
        refine ⟨tookPerm, ?_⟩
        rw [List.append_assoc]
        exact walk
      · intro _
        refine ⟨wasSure, matching, ?_⟩
        rw [if_pos isLocal]
    · refine Effect.takes inv _ (before.txns tid).extra (by simpa using locked)
        seenMember undecided ?_ (by simp [Txn.Sure]) (by simp [Txn.Decided])
      simp only [Txn.Own, Txn.take]
      refine own_releaseRemote ok ?_ tookPerm
      intro other member
      rcases List.mem_append.mp member with member | member
      · exact walkedSubset other member
      · rw [List.mem_singleton.mp member]
        exact itemMember
  · cases stepped

/-- A commit item leads to the node that was locked for it. -/
def Decodes (config : Config Key Tid) (state : State Key Value Tid Extra) :
    Action Key Value Tid → Prop
  | .commitRpc tid partition =>
      ∀ seen, nextCommit config state (.commitRpc tid partition) = some seen →
        config.nodeAt seen.key = some seen.key
  | _ => True

/-- A record whose lock is held is committed. -/
theorem Effect.commits (inv : Inv config before) {seen : Seen Key} {rest : List (Seen Key)}
    (version : Nat) (value : Option Value) {seq : Nat} (stage : Stage Key Value)
    (chosen : next = some seen)
    (perm : (before.txns tid).taken.Perm (seen :: rest))
    (member : seen ∈ (before.txns tid).items) (sure : (before.txns tid).Sure)
    (decided : (before.txns tid).Decided)
    (still : (((before.txns tid).drop seen.key).setStage stage).Decided)
    (stored : if config.IsLocal tid seen.key then
        handler.commitLocalWrite (before.txns tid).extra seen.seq
          (before.nodes seen.key) = some seq
      else
        handler.commitRpcHandler (before.txns tid).extra (before.nodes seen.key) = some seq)
    (own : (((before.txns tid).drop seen.key).setStage stage).Own (config.IsLocal tid)) :
    Effect config handler before tid next ((before.commit tid seen.key seen.version
      ((before.nodes seen.key).install version value seq)).setTxn tid
        (((before.txns tid).drop seen.key).setStage stage)) := by
  have ok := inv.txnOk tid
  refine .commit seen version value seq _ chosen (perm.mem_iff.mpr (by simp)) member sure
    ⟨decided, still⟩ stored ⟨ok.locals, ok.remotes, ok.writes, own, ?_⟩ rfl rfl rfl
  intro _ other otherMember
  exact ok.secured sure other (List.mem_of_mem_filter otherMember)

theorem commitLocal_effect (inv : Inv config before)
    (stepped : commitLocal handler before tid = some after) :
    Effect config handler before tid (nextCommit config before (.commitLocal tid)) after := by
  unfold commitLocal at stepped
  dsimp only at stepped
  split at stepped
  · rename_i item rest stage
    have ok := inv.txnOk tid
    have own := ok.own
    rw [Txn.Own, stage] at own
    obtain ⟨perm, subset⟩ := own
    obtain ⟨seq, stored, rfl⟩ := Option.map_eq_some_iff.mp stepped
    have itemMember := subset item (by simp)
    refine Effect.commits inv _ _ _ (by simp [nextCommit, stage]) perm ?_
      (by simp [Txn.Sure, stage])
      (by simp [Txn.Decided, stage]) (by simp [Txn.Decided, Txn.setStage]) ?_ ?_
    · simp only [Txn.items, List.mem_append, List.mem_map]
      exact .inl (.inl ⟨item, itemMember, rfl⟩)
    · rw [if_pos (ok.locals item itemMember)]
      exact stored
    · simp only [Txn.Own, Txn.setStage, Txn.drop]
      exact ⟨inv.filter_perm perm, fun other member => subset other (List.mem_cons_of_mem _ member)⟩
  · cases stepped

/-- What `commit_rpc_handler2` commits is remote. -/
theorem Inv.commitRpc_remote {partition : Nat} {seen : Seen Key} (inv : Inv config before)
    (chosen : nextCommit config before (.commitRpc tid partition) = some seen) :
    ¬ config.IsLocal tid seen.key := by
  have ok := inv.txnOk tid
  have own := ok.own
  simp only [nextCommit] at chosen
  split at chosen
  · rename_i pending stage
    rw [Txn.Own, stage] at own
    obtain ⟨⟨item, rest⟩, found, rfl⟩ := Option.map_eq_some_iff.mp chosen
    exact ok.writes item (own.2 item ((nextFor_perm found).mem_iff.mpr (by simp)))
  · cases chosen

theorem commitRpc_effect {partition : Nat} (inv : Inv config before)
    (decodes : Decodes config before (.commitRpc tid partition))
    (stepped : commitRpc config handler before tid partition = some after) :
    Effect config handler before tid (nextCommit config before (.commitRpc tid partition))
      after := by
  unfold commitRpc at stepped
  dsimp only at stepped
  split at stepped
  · rename_i pending stage
    have ok := inv.txnOk tid
    have own := ok.own
    rw [Txn.Own, stage] at own
    obtain ⟨perm, subset⟩ := own
    obtain ⟨⟨item, rest⟩, found, stepped⟩ := Option.bind_eq_some_iff.mp stepped
    have chosen : nextCommit config before (.commitRpc tid partition) = some item.seen := by
      simp [nextCommit, stage, found]
    have decoded := decodes item.seen chosen
    simp only [decoded, Option.bind_some] at stepped
    obtain ⟨seq, stored, rfl⟩ := Option.map_eq_some_iff.mp stepped
    have split := nextFor_perm found
    have itemMember := subset item (split.mem_iff.mpr (by simp))
    have takenPerm : (before.txns tid).taken.Perm (item.seen :: rest.map (·.seen)) :=
      perm.trans (split.map _)
    refine Effect.commits inv _ _ _ chosen takenPerm ?_ (by simp [Txn.Sure, stage])
      (by simp [Txn.Decided, stage]) (by simp [Txn.Decided, Txn.setStage]) ?_ ?_
    · simp only [Txn.items, List.mem_append, List.mem_map]
      exact .inr ⟨item, itemMember, rfl⟩
    · rw [if_neg (ok.writes item itemMember)]
      exact stored
    · simp only [Txn.Own, Txn.setStage, Txn.drop]
      exact ⟨inv.filter_perm takenPerm,
        fun other member => subset other (split.mem_iff.mpr (List.mem_cons_of_mem _ member))⟩
  · cases stepped

/-- A lock is given back. -/
theorem Effect.gives (inv : Inv config before) {key : Key} (stage : Stage Key Value)
    (mine : key ∈ (before.txns tid).taken.map (·.key))
    (own : (((before.txns tid).drop key).setStage stage).Own (config.IsLocal tid))
    (unsure : ¬ (((before.txns tid).drop key).setStage stage).Sure) :
    Effect config handler before tid next ((before.setNode key
      { before.nodes key with lock := 0 }).setTxn tid
        (((before.txns tid).drop key).setStage stage)) := by
  have ok := inv.txnOk tid
  exact .unlock key _ mine ⟨ok.locals, ok.remotes, ok.writes, own, fun sure => absurd sure unsure⟩
    rfl rfl unsure

theorem releaseRpc_effect {partition : Nat} (inv : Inv config before)
    (stepped : releaseRpc config before tid partition = some after) :
    Effect config handler before tid next after := by
  unfold releaseRpc at stepped
  dsimp only at stepped
  split at stepped
  · rename_i pending walked stage
    have ok := inv.txnOk tid
    have own := ok.own
    rw [Txn.Own, stage] at own
    obtain ⟨localPerm, pendingRemote, remoteSubset⟩ := own
    obtain ⟨⟨item, rest⟩, found, rfl⟩ := Option.map_eq_some_iff.mp stepped
    have split := (nextFor_perm found).map (·.seen.key)
    have remote : ¬ config.IsLocal tid item.seen.key :=
      pendingRemote item ((nextFor_perm found).mem_iff.mpr (by simp))
    have own' : (((before.txns tid).drop item.seen.key).setStage
        (.releaseRemote rest walked)).Own (config.IsLocal tid) := by
      simp only [Txn.Own, Txn.setStage, Txn.drop]
      refine ⟨?_, ?_, ?_⟩
      · rw [map_drop, List.filter_filter]
        refine List.Perm.trans (List.Perm.of_eq ?_) localPerm
        apply List.filter_congr
        intro key _
        by_cases isLocal : config.IsLocal tid key
        · have different : key ≠ item.seen.key := by
            rintro rfl
            exact remote isLocal
          simp [isLocal, different]
        · simp [isLocal]
      · intro other member
        exact pendingRemote other ((nextFor_perm found).mem_iff.mpr
          (List.mem_cons_of_mem _ member))
      · intro seen member otherRemote
        obtain ⟨member, different⟩ := List.mem_filter.mp member
        have pendingMember := split.mem_iff.mp (remoteSubset seen member otherRemote)
        rcases List.mem_cons.mp pendingMember with same | restMember
        · simp [same] at different
        · exact restMember
    by_cases locked : (before.nodes item.seen.key).lock = config.lockContent tid
    · have mine := inv.holding.mem_of_word config.words locked
      rw [MemNode.release, if_pos locked]
      exact Effect.gives inv _ mine own' (by simp [Txn.Sure, Txn.setStage])
    · -- the handler never got that far: somebody else, or nobody, has the lock
      have missing : item.seen.key ∉ (before.txns tid).taken.map (·.key) :=
        fun member => locked (inv.holding.locked tid _ member)
      have sameTaken : ((before.txns tid).taken.filter fun seen =>
          seen.key ≠ item.seen.key) = (before.txns tid).taken := by
        rw [List.filter_eq_self]
        intro seen member
        simp only [decide_eq_true_eq]
        intro same
        exact missing (List.mem_map.mpr ⟨seen, member, same⟩)
      rw [MemNode.release, if_neg locked]
      have sameNodes : before.setNode item.seen.key (before.nodes item.seen.key) = before := by
        simp [State.setNode]
      dsimp only
      rw [sameNodes]
      simp only [Txn.drop, sameTaken] at own' ⊢
      exact Effect.advance inv _ (before.txns tid).extra own' (by simp [Txn.Sure])
  · cases stepped

theorem releaseLocal_effect (inv : Inv config before)
    (stepped : releaseLocal before tid = some after) :
    Effect config handler before tid next after := by
  unfold releaseLocal at stepped
  dsimp only at stepped
  split at stepped
  · rename_i item rest stage
    have own := (inv.txnOk tid).own
    rw [Txn.Own, stage] at own
    cases stepped
    refine Effect.gives inv _ (own.mem_iff.mpr (by simp)) ?_ (by simp [Txn.Sure, Txn.setStage])
    simp only [Txn.Own, Txn.setStage, Txn.drop]
    rw [map_drop]
    exact inv.filter_keys_perm own
  · cases stepped

theorem resume_effect (inv : Inv config before)
    (stepped : resume config handler before tid = some after) :
    Effect config handler before tid next after := by
  have ok := inv.txnOk tid
  have own := ok.own
  unfold resume at stepped
  dsimp only at stepped
  split at stepped
  · rename_i failed stage
    rw [Txn.Own, stage] at own
    obtain ⟨-, takenSubset, perm⟩ := own
    split at stepped
    · cases stepped
      cases failed with
      | true =>
          rw [if_pos rfl]
          refine Effect.advance inv _ (before.txns tid).extra ?_ (by simp [Txn.Sure])
          simp only [Txn.Own]
          refine ⟨?_, ok.writes, ?_⟩
          · rw [List.map_nil, List.perm_nil, List.filter_eq_nil_iff]
            intro key member
            obtain ⟨seen, seenMember, rfl⟩ := List.mem_map.mp member
            obtain ⟨item, itemMember, rfl⟩ := List.mem_map.mp (takenSubset seen seenMember)
            simpa using ok.writes item itemMember
          · intro seen member _
            obtain ⟨item, itemMember, rfl⟩ := List.mem_map.mp (takenSubset seen member)
            exact List.mem_map.mpr ⟨item, itemMember, rfl⟩
      | false =>
          rw [if_neg (by simp)]
          refine Effect.advance inv _ _ ?_ ?_
          · simp only [Txn.Own]
            refine ⟨by simpa using perm rfl, by simp [Txn.localWrites]⟩
          · intro _
            refine .inr ⟨by simp [Txn.Sure, stage], .inr (.inl ⟨?_, ?_, _, rfl⟩)⟩ <;>
              simp [Txn.Decided, stage, Txn.setStage]
    · cases stepped
  · rename_i walked stage
    rw [Txn.Own, stage] at own
    obtain ⟨perm, walk⟩ := own
    cases stepped
    refine Effect.advance inv _ _ ?_ ?_
    · simp only [Txn.Own]
      simp only [List.filter_nil, List.append_nil] at walk
      refine ⟨?_, fun item member => List.mem_of_mem_filter member⟩
      rw [← walk]
      exact perm.trans List.perm_append_comm
    · intro _
      refine .inr ⟨by simp [Txn.Sure, stage], .inr (.inr ⟨?_, ?_, ⟨walked, stage⟩, rfl⟩)⟩ <;>
        simp [Txn.Decided, stage, Txn.setStage]
  · rename_i stage
    rw [Txn.Own, stage] at own
    cases stepped
    refine Effect.advance inv _ (before.txns tid).extra ?_ ?_
    · simp only [Txn.Own]
      exact ⟨by simpa using own.1, fun _ member => member⟩
    · intro _
      exact .inr ⟨by simp [Txn.Sure, stage], .inl ⟨rfl, by simp [Txn.Decided, stage]⟩⟩
  · rename_i stage
    rw [Txn.Own, stage] at own
    cases stepped
    refine Effect.advance inv _ (before.txns tid).extra ?_ (by simp [Txn.Sure])
    simpa [Txn.Own] using own.1
  · rename_i walked stage
    rw [Txn.Own, stage] at own
    cases stepped
    refine Effect.advance inv _ (before.txns tid).extra ?_ (by simp [Txn.Sure])
    simp only [Txn.Own]
    have allLocal : (((before.txns tid).taken.map (·.key)).filter
        fun key => config.IsLocal tid key) = (before.txns tid).taken.map (·.key) := by
      rw [List.filter_eq_self]
      intro key member
      obtain ⟨seen, seenMember, rfl⟩ := List.mem_map.mp member
      by_contra remote
      simpa using own.2.2 seen seenMember (by simpa using remote)
    rw [← allLocal]
    exact own.1
  · rename_i stage
    rw [Txn.Own, stage] at own
    cases stepped
    refine Effect.advance inv _ (before.txns tid).extra ?_ (by simp [Txn.Sure])
    simpa [Txn.Own] using own
  · cases stepped

end Ending

/-! ## Runs -/

section Runs

variable [DecidableEq Value]

/-- Every step is one of the four effects. -/
theorem step_effect {action : Action Key Value Tid} (inv : Inv config before)
    (decodes : Decodes config before action)
    (stepped : step config handler before action = some after) :
    Effect config handler before action.caller (nextCommit config before action) after := by
  cases action with
  | begin tid now => exact begin_effect inv stepped
  | get tid key => exact get_effect inv stepped
  | insert tid key value => exact insert_effect inv stepped
  | write tid key value => exact write_effect inv stepped
  | writeLast tid value => exact writeLast_effect inv stepped
  | delete tid key => exact delete_effect inv stepped
  | deleteIndex tid key => exact deleteIndex_effect inv stepped
  | remoteAdd tid type key => exact remoteAdd_effect inv stepped
  | refetch tid index => exact refetch_effect inv stepped
  | remoteWrite tid index payload => exact remoteWrite_effect inv stepped
  | startEnd tid => exact startEnd_effect inv stepped
  | lockRpc tid partition => exact lockRpc_effect inv stepped
  | lockLocal tid => exact lockLocal_effect inv stepped
  | commitLocal tid => exact commitLocal_effect inv stepped
  | commitRpc tid partition => exact commitRpc_effect inv decodes stepped
  | releaseRpc tid partition => exact releaseRpc_effect inv stepped
  | releaseLocal tid => exact releaseLocal_effect inv stepped
  | resume tid => exact resume_effect inv stepped

theorem inv_initial (config : Config Key Tid) (seq : Key → Nat)
    (value : Key → Option Value) (extra : Extra) :
    Inv config (State.initial seq value extra) where
  holding := Holding.initial (fun _ => rfl) fun _ => rfl
  txnOk tid := by
    constructor <;> simp [State.initial, Txn.Own, Txn.Sure]

end Runs

end Rocc.Db
