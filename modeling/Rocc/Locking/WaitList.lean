import Rocc.Base.Chain
import Rocc.Base.Run
import Rocc.Locking.Model

/-!
# The wait list of a worker

`GlobalLockManager` keeps the requests that wait for a lock in a doubly linked list.
`add_to_waitlist` puts a node in front; `check_to_notify` walks the list once, tries each
lock, answers the waiters it can answer and unlinks their nodes while it walks.  Nodes are
never freed, so a node is its place in the list of all nodes allocated so far.

The lock words belong to the records and may change between two calls in any way.
-/

set_option linter.unusedSectionVars false

namespace Rocc.Locking.WaitList

open Rtx

variable {Ptr Item : Type}

/-- `req_lock_type_t`. -/
inductive ReqLockType where
  | lockRead
  | lockWrite
  | lockInsert
  | sundialRead
  | sundialLockRead
  deriving DecidableEq, Repr

/-- `lock_waiter_t`. -/
structure Waiter (Item : Type) where
  type : ReqLockType
  pid : Nat
  tid : Nat
  cid : Nat
  txnStartTime : Nat
  item : Item
  deriving DecidableEq, Repr

/-- The fields of `wait_list_node` that never change. -/
structure Entry (Ptr Item : Type) where
  lockPtr : Ptr
  waiter : Waiter Item
  deriving DecidableEq, Repr

/-- A reply of `check_to_notify`, with the node it answers. -/
structure Reply where
  node : Nat
  pid : Nat
  cid : Nat
  status : UInt8
  payload : Bytes
  deriving DecidableEq, Repr

/-- The manager, the lock words, what `prepare_buf` reads for an item, and the replies sent so
far.  `cnt` counts nodes, each of which takes memory. -/
structure State (Ptr Item : Type) where
  entries : List (Entry Ptr Item)
  next : Nat → Option Nat
  prev : Nat → Option Nat
  head : Option Nat
  cnt : Int
  words : Ptr → Nat
  records : Item → Bytes
  replies : List Reply

/-- An assertion that fails, a pointer to no node, or a walk that does not end. -/
inductive Failure where
  | wrongWorker
  | unknownType
  | notHead
  | negativeCount
  | dangling
  | endless
  deriving DecidableEq, Repr

/-- An empty manager. -/
def State.initial (words : Ptr → Nat) (records : Item → Bytes) : State Ptr Item where
  entries := []
  next _ := none
  prev _ := none
  head := none
  cnt := 0
  words
  records
  replies := []

/-- `add_to_waitlist`. -/
def addToWaitlist (state : State Ptr Item) (lockAddr : Ptr) (waiter : Waiter Item) :
    State Ptr Item :=
  let node := state.entries.length
  let added : State Ptr Item := { state with
    entries := state.entries ++ [{ lockPtr := lockAddr, waiter }],
    head := some node,
    cnt := state.cnt + 1 }
  match state.head with
  | none =>
      { added with
        next := Function.update state.next node none,
        prev := Function.update state.prev node none }
  | some first =>
      { added with
        next := Function.update state.next node (some first),
        prev := Function.update (Function.update state.prev node none) first (some node) }

/-! ## One node of the walk -/

/-- What `check_to_notify` does with a waiter. -/
inductive Verdict where
  | success
  | fail
  | keep
  deriving DecidableEq, Repr

/-- The word a waiter stores into the lock. -/
def Waiter.ownWord (waiter : Waiter Item) : Nat :=
  match waiter.type with
  | .lockRead => rLease waiter.txnStartTime
  | .lockWrite => rLease waiter.txnStartTime + 1
  | _ => waiter.txnStartTime

/-- The `switch` of `check_to_notify`: the test on the lock word. -/
def verdict (waiter : Waiter Item) (word : Nat) : Except Failure Verdict :=
  match waiter.type with
  | .lockRead | .lockWrite | .sundialLockRead =>
      if word = 0 then
        .ok .success
      else if waiter.ownWord < word then
        .ok .keep
      else
        .ok .fail
  | .lockInsert | .sundialRead => .error .unknownType

/-- What stands behind the status byte of a grant: the record, for a `SUNDIAL` request. -/
def payload (records : Item → Bytes) (waiter : Waiter Item) : Bytes :=
  match waiter.type with
  | .sundialLockRead => records waiter.item
  | _ => []

/-- The reply to a waiter. -/
def reply (records : Item → Bytes) (node : Nat) (waiter : Waiter Item) (granted : Bool) :
    Reply where
  node
  pid := waiter.pid
  cid := waiter.cid
  status := if granted then lockSuccessMagic else lockFailMagic
  payload := if granted then payload records waiter else []

/-- Unlinking a node that has been answered. -/
def unlink (state : State Ptr Item) (iter : Nat) : Except Failure (State Ptr Item) :=
  match state.prev iter with
  | some left =>
      .ok { state with
        next := Function.update state.next left (state.next iter),
        prev := pointBack state.prev (state.next iter) (some left) }
  | none =>
      if state.head = some iter then
        .ok { state with
          head := state.next iter,
          prev := pointBack state.prev (state.next iter) none }
      else
        .error .notHead

/-- The code behind `SUCCESS:`. -/
def answer (state : State Ptr Item) (iter : Nat) (message : Reply) :
    Except Failure (State Ptr Item) :=
  match unlink { state with replies := state.replies ++ [message] } iter with
  | .error failure => .error failure
  | .ok unlinked =>
      if unlinked.cnt - 1 < 0 then
        .error .negativeCount
      else
        .ok { unlinked with cnt := unlinked.cnt - 1 }

variable [DecidableEq Ptr]

/-- The body of the loop of `check_to_notify`. -/
def visit (myWorkerId : Nat) (state : State Ptr Item) (iter : Nat) :
    Except Failure (State Ptr Item) :=
  match state.entries[iter]? with
  | none => .error .dangling
  | some entry =>
      if entry.waiter.tid ≠ myWorkerId then
        .error .wrongWorker
      else
        match verdict entry.waiter (state.words entry.lockPtr) with
        | .error failure => .error failure
        | .ok .success =>
            let words := Function.update state.words entry.lockPtr entry.waiter.ownWord
            answer { state with words } iter (reply state.records iter entry.waiter true)
        | .ok .fail => answer state iter (reply state.records iter entry.waiter false)
        | .ok .keep => .ok state

/-- The loop of `check_to_notify`, for at most so many nodes. -/
def notifyFrom (myWorkerId : Nat) :
    Nat → Option Nat → State Ptr Item → Except Failure (State Ptr Item)
  | _, none, state => .ok state
  | 0, some _, _ => .error .endless
  | bound + 1, some iter, state =>
      match visit myWorkerId state iter with
      | .error failure => .error failure
      | .ok visited => notifyFrom myWorkerId bound (visited.next iter) visited

/-- `check_to_notify`. -/
def checkToNotify (myWorkerId : Nat) (state : State Ptr Item) :
    Except Failure (State Ptr Item) :=
  notifyFrom myWorkerId state.entries.length state.head state

/-! ## Calls -/

/-- A call of the manager, or a change of the lock words and the records from outside. -/
inductive Action (Ptr Item : Type) where
  | addToWaitlist (lockAddr : Ptr) (waiter : Waiter Item)
  | checkToNotify (myWorkerId : Nat)
  | outside (words : Ptr → Nat) (records : Item → Bytes)

/-- A call that ends.  A failed assertion ends the process. -/
def step (state : State Ptr Item) : Action Ptr Item → Option (State Ptr Item)
  | .addToWaitlist lockAddr waiter => some (addToWaitlist state lockAddr waiter)
  | .checkToNotify myWorkerId => (checkToNotify myWorkerId state).toOption
  | .outside words records => some { state with words, records }

/-! ## The list behind the links -/

/-- The nodes in the list, in order, and the nodes that have been answered make up all nodes
that were added, and `cnt` is the length of the list. -/
structure Holds (state : State Ptr Item) (nodes : List Nat) : Prop where
  chain : IsChain state.next state.prev state.head nodes
  count : state.cnt = nodes.length
  partition : (nodes ++ state.replies.map (·.node)).Perm (List.range state.entries.length)

namespace Holds

variable {state : State Ptr Item} {nodes front back : List Nat} {node : Nat}

theorem lt_length (holds : Holds state nodes) (member : node ∈ nodes) :
    node < state.entries.length :=
  List.mem_range.mp (holds.partition.mem_iff.mp (List.mem_append_left _ member))

theorem length_le (holds : Holds state nodes) : nodes.length ≤ state.entries.length := by
  have lengths := holds.partition.length_eq
  rw [List.length_append, List.length_range] at lengths
  omega

theorem initial (words : Ptr → Nat) (records : Item → Bytes) :
    Holds (State.initial words records : State Ptr Item) [] where
  chain := IsChain.nil _ _
  count := rfl
  partition := .refl _

/-- A new waiter stands in front of the others. -/
theorem addToWaitlist (holds : Holds state nodes) (lockAddr : Ptr) (waiter : Waiter Item) :
    Holds (addToWaitlist state lockAddr waiter) (state.entries.length :: nodes) := by
  have fresh : state.entries.length ∉ nodes := fun member =>
    Nat.lt_irrefl _ (holds.lt_length member)
  have partition : (state.entries.length :: nodes ++ state.replies.map (·.node)).Perm
      (List.range (state.entries.length + 1)) := by
    rw [List.range_succ, List.cons_append]
    exact (holds.partition.cons _).trans (List.perm_append_singleton _ _).symm
  have count : state.cnt + 1 = ((state.entries.length :: nodes).length : Int) := by
    rw [holds.count, List.length_cons]
    omega
  have chain := holds.chain
  rw [WaitList.addToWaitlist]
  cases nodes with
  | nil =>
      rw [chain.starts]
      exact ⟨IsChain.singleton _ _ _, count, by simpa using partition⟩
  | cons first rest =>
      have linked := chain.push fresh
      rw [chain.starts]
      exact ⟨linked, count, by simpa using partition⟩

end Holds

/-! ## One pass -/

/-- A node of the list is unlinked; its own links stay. -/
theorem unlink_spec {state : State Ptr Item} {front back : List Nat} {node : Nat}
    (chain : IsChain state.next state.prev state.head (front ++ node :: back)) :
    ∃ next prev head, unlink state node = .ok { state with next, prev, head } ∧
      IsChain next prev head (front ++ back) ∧ next node = back.head? := by
  obtain ⟨backward, forward⟩ := chain.linked.of_mid
  rw [Option.or_none] at backward forward
  rcases List.eq_nil_or_concat' front with rfl | ⟨rest, left, rfl⟩
  · have first : state.head = some node := chain.starts
    refine ⟨state.next, pointBack state.prev back.head? none, back.head?, ?_, chain.tail,
      forward⟩
    simp only [unlink, backward, List.getLast?_nil, first, if_true, forward]
  · have distinct := chain.nodup
    have apart : node ≠ left := by
      rintro rfl
      rw [List.nodup_append] at distinct
      exact distinct.2.2 node (by simp) node List.mem_cons_self rfl
    refine ⟨Function.update state.next left back.head?,
      pointBack state.prev back.head? (some left), state.head, ?_, chain.unlink, ?_⟩
    · simp only [unlink, backward, List.getLast?_concat, forward]
    · rw [Function.update_of_ne apart]
      exact forward

/-- A waiter is answered: its node leaves the list for the replies. -/
theorem answer_spec {state : State Ptr Item} {front back : List Nat} {node : Nat}
    (holds : Holds state (front ++ node :: back)) (words : Ptr → Nat) (message : Reply)
    (isFor : message.node = node) :
    ∃ after, answer { state with words } node message = .ok after ∧
      Holds after (front ++ back) ∧ after.next node = back.head? ∧
      after.entries = state.entries ∧ after.words = words ∧
      after.records = state.records ∧ after.replies = state.replies ++ [message] := by
  let replied : State Ptr Item := { state with words, replies := state.replies ++ [message] }
  have linked : IsChain replied.next replied.prev replied.head (front ++ node :: back) :=
    holds.chain
  obtain ⟨next, prev, head, unlinked, chain, forward⟩ := unlink_spec linked
  have count := holds.count
  simp only [List.length_append, List.length_cons] at count
  have enough : ¬ state.cnt - 1 < 0 := by omega
  let sent := state.replies ++ [message]
  refine ⟨{ state with next, prev, head, words, cnt := state.cnt - 1, replies := sent },
    by simp only [answer, replied, unlinked, enough, if_false, sent], ?_, forward, rfl, rfl,
    rfl, rfl⟩
  refine ⟨chain, ?_, ?_⟩
  · simp only [List.length_append]
    omega
  · have partition := holds.partition
    have moved : (front ++ back ++ (state.replies ++ [message]).map (·.node)).Perm
        (front ++ node :: back ++ state.replies.map (·.node)) := by
      rw [List.map_append, List.map_singleton, isFor, ← List.append_assoc]
      refine (List.perm_append_singleton _ _).trans ?_
      rw [List.append_assoc, List.append_assoc, List.cons_append]
      exact List.perm_middle.symm
    exact moved.trans partition

/-- The test on the lock word, for the types that `check_to_notify` knows. -/
def ReqLockType.Served : ReqLockType → Prop
  | .lockRead => True
  | .lockWrite => True
  | .sundialLockRead => True
  | .lockInsert => False
  | .sundialRead => False

/-- A pass over some nodes: what becomes of each waiter is decided by its lock word at the time
it is examined.  The nodes that are kept, the replies and the lock words it leaves. -/
inductive Pass (entries : List (Entry Ptr Item)) (records : Item → Bytes) :
    List Nat → (Ptr → Nat) → List Nat → List Reply → (Ptr → Nat) → Prop where
  | done {words : Ptr → Nat} : Pass entries records [] words [] [] words
  | success {node : Nat} {nodes kept : List Nat} {entry : Entry Ptr Item}
      {words after : Ptr → Nat} {replies : List Reply}
      (found : entries[node]? = some entry) (free : words entry.lockPtr = 0)
      (rest : Pass entries records nodes
        (Function.update words entry.lockPtr entry.waiter.ownWord) kept replies after) :
      Pass entries records (node :: nodes) words kept
        (reply records node entry.waiter true :: replies) after
  | fail {node : Nat} {nodes kept : List Nat} {entry : Entry Ptr Item}
      {words after : Ptr → Nat} {replies : List Reply}
      (found : entries[node]? = some entry) (locked : words entry.lockPtr ≠ 0)
      (dies : words entry.lockPtr ≤ entry.waiter.ownWord)
      (rest : Pass entries records nodes words kept replies after) :
      Pass entries records (node :: nodes) words kept
        (reply records node entry.waiter false :: replies) after
  | keep {node : Nat} {nodes kept : List Nat} {entry : Entry Ptr Item}
      {words after : Ptr → Nat} {replies : List Reply}
      (found : entries[node]? = some entry) (locked : words entry.lockPtr ≠ 0)
      (waits : entry.waiter.ownWord < words entry.lockPtr)
      (rest : Pass entries records nodes words kept replies after) :
      Pass entries records (node :: nodes) words (node :: kept) replies after

/-- A pass stops at a waiter of another worker or of a type it does not know, and at no other
assertion. -/
inductive Stops (entries : List (Entry Ptr Item)) (myWorkerId : Nat) (nodes : List Nat) :
    Failure → Prop where
  | wrongWorker {node : Nat} {entry : Entry Ptr Item} (member : node ∈ nodes)
      (found : entries[node]? = some entry) (foreign : entry.waiter.tid ≠ myWorkerId) :
      Stops entries myWorkerId nodes .wrongWorker
  | unknownType {node : Nat} {entry : Entry Ptr Item} (member : node ∈ nodes)
      (found : entries[node]? = some entry) (unknown : ¬ entry.waiter.type.Served) :
      Stops entries myWorkerId nodes .unknownType

theorem Stops.mono {entries : List (Entry Ptr Item)} {myWorkerId : Nat} {nodes more : List Nat}
    {failure : Failure} (stops : Stops entries myWorkerId nodes failure)
    (subset : nodes ⊆ more) : Stops entries myWorkerId more failure := by
  cases stops with
  | wrongWorker member found foreign => exact .wrongWorker (subset member) found foreign
  | unknownType member found unknown => exact .unknownType (subset member) found unknown

/-- A verdict compares the lock word with the word of the waiter. -/
theorem verdict_cases (waiter : Waiter Item) (word : Nat) :
    (verdict waiter word = .error .unknownType ∧ ¬ waiter.type.Served) ∨
      (verdict waiter word = .ok .success ∧ word = 0) ∨
      (verdict waiter word = .ok .fail ∧ word ≠ 0 ∧ word ≤ waiter.ownWord) ∨
      (verdict waiter word = .ok .keep ∧ word ≠ 0 ∧ waiter.ownWord < word) := by
  have served : waiter.type.Served → verdict waiter word =
      if word = 0 then .ok .success
      else if waiter.ownWord < word then .ok .keep
      else .ok .fail := by
    intro served
    cases type : waiter.type <;> simp_all [ReqLockType.Served, verdict]
  by_cases known : waiter.type.Served
  · rw [served known]
    by_cases free : word = 0
    · simp [free]
    · by_cases waits : waiter.ownWord < word
      · simp [free, waits]
      · simp [free, waits]
        omega
  · left
    refine ⟨?_, known⟩
    cases type : waiter.type <;> simp_all [ReqLockType.Served, verdict]

/-- The walk from the first of some nodes, with the nodes already kept in front of them. -/
theorem notifyFrom_spec (myWorkerId : Nat) :
    ∀ (nodes front : List Nat) (bound : Nat) (state : State Ptr Item),
      nodes.length ≤ bound → Holds state (front ++ nodes) →
      match notifyFrom myWorkerId bound nodes.head? state with
      | .ok after => ∃ kept replies, Holds after (front ++ kept) ∧
          Pass state.entries state.records nodes state.words kept replies after.words ∧
          after.replies = state.replies ++ replies
      | .error failure => Stops state.entries myWorkerId nodes failure := by
  intro nodes
  induction nodes with
  | nil =>
      intro front bound state _ holds
      have ended : notifyFrom myWorkerId bound none state = .ok state := by
        cases bound <;> rfl
      rw [List.head?_nil, ended]
      exact ⟨[], [], holds, .done, (List.append_nil _).symm⟩
  | cons node rest ih =>
      intro front bound state enough holds
      cases bound with
      | zero => simp at enough
      | succ bound =>
      have shorter : rest.length ≤ bound := by simpa using enough
      have inside : node < state.entries.length := holds.lt_length (by simp)
      have found : state.entries[node]? = some state.entries[node] :=
        List.getElem?_eq_getElem inside
      generalize state.entries[node] = entry at found
      have subset : rest ⊆ node :: rest := List.subset_cons_self _ _
      rw [List.head?_cons, notifyFrom, visit]
      simp only [found]
      by_cases foreign : entry.waiter.tid ≠ myWorkerId
      · rw [if_pos foreign]
        exact .wrongWorker List.mem_cons_self found foreign
      rw [if_neg foreign]
      rcases verdict_cases entry.waiter (state.words entry.lockPtr) with
        ⟨isVerdict, unknown⟩ | ⟨isVerdict, free⟩ | ⟨isVerdict, locked, dies⟩ |
          ⟨isVerdict, locked, waits⟩
      · simp only [isVerdict]
        exact .unknownType List.mem_cons_self found unknown
      · obtain ⟨after, answered, still, forward, entries, words, records, replies⟩ :=
          answer_spec holds (Function.update state.words entry.lockPtr entry.waiter.ownWord)
            (reply state.records node entry.waiter true) rfl
        simp only [isVerdict, answered, forward]
        have walked := ih front bound after shorter still
        rw [entries, records, words, replies] at walked
        split at walked
        · obtain ⟨kept, others, holds, pass, sent⟩ := walked
          exact ⟨kept, _, holds, .success found free pass, by rw [sent, List.append_assoc]; rfl⟩
        · exact walked.mono subset
      · obtain ⟨after, answered, still, forward, entries, words, records, replies⟩ :=
          answer_spec holds state.words (reply state.records node entry.waiter false) rfl
        have same : ({ state with words := state.words } : State Ptr Item) = state := rfl
        rw [same] at answered
        simp only [isVerdict, answered, forward]
        have walked := ih front bound after shorter still
        rw [entries, records, words, replies] at walked
        split at walked
        · obtain ⟨kept, others, holds, pass, sent⟩ := walked
          exact ⟨kept, _, holds, .fail found locked dies pass,
            by rw [sent, List.append_assoc]; rfl⟩
        · exact walked.mono subset
      · have forward : state.next node = rest.head? := by
          rw [holds.chain.linked.of_mid.2, Option.or_none]
        simp only [isVerdict, forward]
        have walked := ih (front ++ [node]) bound state shorter (by simpa using holds)
        split at walked
        · obtain ⟨kept, others, holds, pass, sent⟩ := walked
          exact ⟨node :: kept, others, by simpa using holds, .keep found locked waits pass, sent⟩
        · exact walked.mono subset

/-- What `check_to_notify` does to the list of a worker. -/
theorem checkToNotify_spec {state : State Ptr Item} {nodes : List Nat}
    (holds : Holds state nodes) (myWorkerId : Nat) :
    match checkToNotify myWorkerId state with
    | .ok after => ∃ kept replies, Holds after kept ∧
        Pass state.entries state.records nodes state.words kept replies after.words ∧
        after.replies = state.replies ++ replies
    | .error failure => Stops state.entries myWorkerId nodes failure := by
  rw [checkToNotify, holds.chain.starts]
  exact notifyFrom_spec myWorkerId nodes [] state.entries.length state holds.length_le holds

/-! ## All sequences of calls -/

theorem holds_of_reachable {words : Ptr → Nat} {records : Item → Bytes} {state : State Ptr Item}
    (reach : Reachable step (State.initial words records) state) :
    ∃ nodes, Holds state nodes := by
  refine reach.invariant (fun state => ∃ nodes, Holds state nodes) ⟨[], Holds.initial _ _⟩ ?_
  rintro before action after ⟨nodes, holds⟩ - stepped
  cases action with
  | addToWaitlist lockAddr waiter =>
      rw [step, Option.some.injEq] at stepped
      exact ⟨_, stepped ▸ holds.addToWaitlist lockAddr waiter⟩
  | checkToNotify myWorkerId =>
      have spec := checkToNotify_spec holds myWorkerId
      rw [step] at stepped
      split at spec
      · rename_i last ended
        rw [ended, Except.toOption, Option.some.injEq] at stepped
        obtain ⟨kept, _, stays, -⟩ := spec
        exact ⟨kept, stepped ▸ stays⟩
      · rename_i failure ended
        rw [ended] at stepped
        cases stepped
  | outside words records =>
      rw [step, Option.some.injEq] at stepped
      subst stepped
      exact ⟨nodes, holds.chain, holds.count, holds.partition⟩

/-- After every sequence of calls the links form one finite list with both directions inverse
to each other, of the length that `cnt` says; the waiters in it and the waiters answered
are all waiters that were added, each once.  A pass answers and keeps them as their lock
words say, and no assertion about the list fails in it. -/
theorem wait_list_integrity {words : Ptr → Nat} {records : Item → Bytes}
    {state : State Ptr Item} (reach : Reachable step (State.initial words records) state) :
    ∃ nodes, Holds state nodes ∧
      (∀ left ∈ nodes, ∀ right ∈ nodes,
        state.next left = some right ↔ state.prev right = some left) ∧
      ∀ myWorkerId, match checkToNotify myWorkerId state with
        | .ok after => ∃ kept replies, Holds after kept ∧
            Pass state.entries state.records nodes state.words kept replies after.words ∧
            after.replies = state.replies ++ replies
        | .error failure => Stops state.entries myWorkerId nodes failure := by
  obtain ⟨nodes, holds⟩ := holds_of_reachable reach
  exact ⟨nodes, holds,
    fun left leftMember right rightMember => holds.chain.next_eq_iff leftMember rightMember,
    checkToNotify_spec holds⟩

/-- A write request of worker 0. -/
def writeWaiter (cid time : Nat) : Waiter Unit where
  type := .lockWrite
  pid := 0
  tid := 0
  cid
  txnStartTime := time
  item := ()

/-- Two waiters for one free lock: the younger one stands in front and gets it, the older one
goes on waiting. -/
theorem wait_list_integrity_pair :
    ∃ state : State Unit Unit,
      Reachable step (State.initial (fun _ => 0) fun _ => []) state ∧
      (state.cnt = 1 ∧ state.words () = (writeWaiter 2 2).ownWord) ∧
      ∃ nodes, Holds state nodes := by
  have run : ∃ state : State Unit Unit,
      Reachable step (State.initial (fun _ => 0) fun _ => []) state ∧
      state.cnt = 1 ∧ state.words () = (writeWaiter 2 2).ownWord := Reach.exists_of_exec
    [.addToWaitlist () (writeWaiter 1 1), .addToWaitlist () (writeWaiter 2 2), .checkToNotify 0]
    (by decide +kernel)
  obtain ⟨state, reach, facts⟩ := run
  exact ⟨state, reach, facts, (wait_list_integrity reach).imp fun _ holds => holds.1⟩

end Rocc.Locking.WaitList
