import Mathlib.Order.Fin.Basic
import Rocc.Base.Ready
import Rocc.Memstore.BPlusTree.Bounds

/-!
# `MemstoreBPlusTree`

The B+ tree over words.  Insertions take their record and, when they split a leaf, their
new leaf from a pair that every thread keeps ready.  Any sequence of insertions by any
threads makes a sorted map from keys to the records of their first insertions.
-/

namespace Rocc.Memstore.MemstoreBPlusTree

open BPlusTree Fences Rtx

/-- Keys are words. -/
abbrev Key := Fin wordBound

instance : Inhabited Key := ⟨⟨0, by decide⟩⟩

/-- What insertions write of a `MemNode`. -/
structure MemNode where
  value : Option Nat
  seq : Nat
  deriving DecidableEq

/-- `dummyval_` and `dummyleaf_` of a thread.  Both are replaced when a call has used them. -/
structure ThreadLocal where
  dummyval : NodeId
  dummyleaf : LeafId

/-- The tree with the memory of its records.  A thread without locals has not set
`localinit_`. -/
structure Store (Thread : Type) where
  tree : BPlusTree.Tree Key
  nodes : NodeId → MemNode
  locals : Thread → Option ThreadLocal
  nextNode : NodeId
  nextLeaf : LeafId

/-- What a new leaf starts with; its arrays and links are not initialised. -/
def emptyLeaf : LeafNode Key :=
  { numKeys := 0, entries := fun _ => default, left := none, right := none, seq := 0 }

variable {Thread : Type} [DecidableEq Thread]

namespace Store

/-- The constructor. -/
def init : Store Thread where
  tree := ⟨fun _ => emptyLeaf, some ⟨0, (0 : LeafId)⟩⟩
  nodes := fun _ => ⟨none, 0⟩
  locals := fun _ => none
  nextNode := 0
  nextLeaf := 1

/-- `GetMemNode`. -/
def getMemNode (store : Store Thread) : Store Thread × NodeId :=
  ({ store with
      nodes := Function.update store.nodes store.nextNode ⟨none, 0⟩
      nextNode := store.nextNode + 1 }, store.nextNode)

/-- `new LeafNode()`. -/
def newLeafNode (store : Store Thread) : Store Thread × LeafId :=
  let fresh := { store.tree.leaves store.nextLeaf with numKeys := 0 }
  ({ store with
      tree := { store.tree with
        leaves := Function.update store.tree.leaves store.nextLeaf fresh }
      nextLeaf := store.nextLeaf + 1 }, store.nextLeaf)

/-- `ThreadLocalInit`, and the locals it leaves. -/
def threadLocalInit (store : Store Thread) (thread : Thread) : Store Thread × ThreadLocal :=
  match store.locals thread with
  | some ready => (store, ready)
  | none =>
      let (store, dummyval) := store.getMemNode
      let (store, dummyleaf) := store.newLeafNode
      let ready := ⟨dummyval, dummyleaf⟩
      ({ store with locals := Function.update store.locals thread (some ready) }, ready)

/-- The dummies after an insertion: a new one for each that was taken; the value of a record
that was not taken is reset. -/
def refill (store : Store Thread) (thread : Thread) (ready : ThreadLocal) (taken leafTaken : Bool) :
    Store Thread :=
  let (store, dummyval) :=
    if taken then
      store.getMemNode
    else
      let idle := { store.nodes ready.dummyval with value := none }
      ({ store with nodes := Function.update store.nodes ready.dummyval idle }, ready.dummyval)
  let (store, dummyleaf) := if leafTaken then store.newLeafNode else (store, ready.dummyleaf)
  { store with locals := Function.update store.locals thread (some ⟨dummyval, dummyleaf⟩) }

/-- `_GetWithInsert`. -/
def getWithInsert (store : Store Thread) (thread : Thread) (key : Key) (val : Option Nat) :
    Store Thread × NodeId :=
  let (store, ready) := store.threadLocalInit thread
  let filled := { store.nodes ready.dummyval with value := val }
  let store := { store with nodes := Function.update store.nodes ready.dummyval filled }
  let result := store.tree.insertRtm key ready.dummyval ready.dummyleaf
  let store := { store with tree := result.tree }
  (store.refill thread ready result.taken result.leafTaken, result.val)

/-- `Put`. -/
def put (store : Store Thread) (thread : Thread) (key : Key) (val : Option Nat) :
    Store Thread × NodeId :=
  let (store, node) := store.getWithInsert thread key none
  ({ store with nodes := Function.update store.nodes node ⟨val, 0⟩ }, node)

/-- `Get`. -/
def get (store : Store Thread) (key : Key) : Option (Option NodeId) := store.tree.get key

end Store

/-- The two ways to insert. -/
inductive Insertion where
  | getWithInsert (val : Option Nat)
  | put (val : Option Nat)
  deriving DecidableEq

/-- A call by a thread. -/
structure Call (Thread : Type) where
  thread : Thread
  key : Key
  insertion : Insertion

/-- The store after a call, and the record it returns. -/
def Store.call (store : Store Thread) (call : Call Thread) : Store Thread × NodeId :=
  match call.insertion with
  | .getWithInsert val => store.getWithInsert call.thread call.key val
  | .put val => store.put call.thread call.key val

/-- The store after some calls, and the records they return. -/
def Store.run : Store Thread → List (Call Thread) → Store Thread × List NodeId
  | store, [] => (store, [])
  | store, call :: rest =>
      let (store, node) := store.call call
      let (store, nodes) := store.run rest
      (store, node :: nodes)

/-! ## The invariant -/

namespace Store

/-- The records in the tree. -/
def InTree (store : Store Thread) (node : NodeId) : Prop :=
  node ∈ store.tree.contents.map Prod.snd

/-- The leaves of the tree. -/
def IsLeaf (store : Store Thread) (leaf : LeafId) : Prop := leaf ∈ store.tree.flat.map Prod.snd

/-- The tree is well-formed, no record is there twice, and what the threads hold ready is
not in the tree. -/
structure Inv (store : Store Thread) : Prop where
  wellFormed : store.tree.WellFormed
  rooted : store.tree.root ≠ none
  distinct : (store.tree.contents.map Prod.snd).Nodup
  nodes : Ready store.InTree
    (fun thread => (store.locals thread).map ThreadLocal.dummyval) store.nextNode
  leaves : Ready store.IsLeaf
    (fun thread => (store.locals thread).map ThreadLocal.dummyleaf) store.nextLeaf

/-- The addresses held after one thread's locals have changed. -/
theorem held_update {locals : Thread → Option ThreadLocal} {thread : Thread}
    {ready : ThreadLocal} (field : ThreadLocal → Nat) :
    (fun other => (Function.update locals thread (some ready) other).map field) =
      Function.update (fun other => (locals other).map field) thread (some (field ready)) := by
  funext other
  by_cases same : other = thread
  · subst same
    simp
  · simp [same]

omit [DecidableEq Thread] in
theorem contents_init : (init : Store Thread).tree.contents = [] := rfl

omit [DecidableEq Thread] in
theorem inv_init : (init : Store Thread).Inv := by
  have flat : (init : Store Thread).tree.flat = [(⊥, 0)] := rfl
  refine ⟨⟨trivial, ?_⟩, by simp [init], ?_, ?_, ?_⟩
  · rw [flat]
    refine ⟨Fenced.singleton ?_ ?_, ⟨by simp, rfl, rfl, rfl, trivial⟩, ?_, ?_⟩
    · simp [entriesIn, init, emptyLeaf, LeafNode.list, Slots.list]
    · simp [entriesIn, init, emptyLeaf, LeafNode.list, Slots.list]
    · simp [init, emptyLeaf]
    · simp
  · simp [contents_init]
  · refine ⟨?_, by simp [init], by simp [init], by simp [init]⟩
    intro node member
    rw [InTree, contents_init] at member
    cases member
  · refine ⟨?_, by simp [init], by simp [init], by simp [init]⟩
    intro leaf member
    rw [IsLeaf, flat] at member
    simp_all [init]

section Init

variable {store : Store Thread} (inv : store.Inv) {thread : Thread}

omit [DecidableEq Thread] in
include inv in
/-- A new leaf is not in the tree. -/
theorem Inv.leaf_ne {block : WithBot Key × LeafId} (member : block ∈ store.tree.flat) :
    block.2 ≠ store.nextLeaf :=
  (inv.leaves.used_lt block.2 (List.mem_map_of_mem member)).ne

include inv in
/-- `ThreadLocalInit` leaves locals and touches nothing in the tree. -/
theorem Inv.threadLocalInit :
    (store.threadLocalInit thread).1.Inv ∧
      (store.threadLocalInit thread).1.locals thread = some (store.threadLocalInit thread).2 ∧
      (store.threadLocalInit thread).1.tree.contents = store.tree.contents ∧
      store.tree.Later (store.threadLocalInit thread).1.tree ∧
      ∀ node, store.InTree node →
        (store.threadLocalInit thread).1.nodes node = store.nodes node := by
  cases found : store.locals thread with
  | some ready =>
      simp only [Store.threadLocalInit, found]
      exact ⟨inv, trivial, trivial, .refl _, fun _ _ => trivial⟩
  | none =>
      simp only [Store.threadLocalInit, found, getMemNode, newLeafNode]
      have same : ∀ block ∈ store.tree.flat,
          Function.update store.tree.leaves store.nextLeaf
            { store.tree.leaves store.nextLeaf with numKeys := 0 } block.2 =
              store.tree.leaves block.2 :=
        fun block member => Function.update_of_ne (inv.leaf_ne member) _ _
      have contents := BPlusTree.Tree.contents_congr same
      refine ⟨⟨inv.wellFormed.congr same, inv.rooted, ?_, ?_, ?_⟩, ?_, contents, .of_congr same, ?_⟩
      · exact contents ▸ inv.distinct
      · rw [held_update]
        apply (inv.nodes.hold thread).congr
        intro node
        rw [InTree, contents]
        rfl
      · rw [held_update]
        exact inv.leaves.hold thread
      · exact Function.update_self ..
      · intro node inTree
        exact Function.update_of_ne (inv.nodes.used_lt node inTree).ne _ _

include inv in
/-- The insertion of a stored key changes nothing but the value of the idle record. -/
theorem Inv.refill_idle {ready : ThreadLocal} (held : store.locals thread = some ready)
    (nodes : NodeId → MemNode)
    (kept : ∀ node, node ≠ ready.dummyval → nodes node = store.nodes node) :
    Inv ({ store with nodes := nodes }.refill thread ready false false) ∧
      ({ store with nodes := nodes }.refill thread ready false false).tree = store.tree ∧
      ∀ node, store.InTree node →
        ({ store with nodes := nodes }.refill thread ready false false).nodes node =
          store.nodes node := by
  have same : Function.update store.locals thread (some ⟨ready.dummyval, ready.dummyleaf⟩) =
      store.locals := Function.update_eq_self_iff.mpr held.symm
  simp only [refill, Bool.false_eq_true, if_false, same]
  refine ⟨⟨inv.wellFormed, inv.rooted, inv.distinct, inv.nodes, inv.leaves⟩, trivial, ?_⟩
  intro node inTree
  have other : node ≠ ready.dummyval := by
    rintro rfl
    exact inv.nodes.unused thread _ (by simp [held]) inTree
  rw [Function.update_of_ne other, kept node other]

include inv in
/-- The insertion of an absent key takes the idle record, and perhaps the idle leaf. -/
theorem Inv.refill_taken {ready : ThreadLocal} (held : store.locals thread = some ready)
    {tree : BPlusTree.Tree Key} (wellFormed : tree.WellFormed) (rooted : tree.root ≠ none)
    {key : Key} (perm : tree.contents.Perm ((key, ready.dummyval) :: store.tree.contents))
    {leafTaken : Bool}
    (leaves : ∀ leaf, leaf ∈ tree.flat.map Prod.snd ↔
      store.IsLeaf leaf ∨ (leafTaken = true ∧ leaf = ready.dummyleaf))
    (nodes : NodeId → MemNode)
    (kept : ∀ node, node ≠ ready.dummyval → nodes node = store.nodes node) :
    Inv ({ store with nodes := nodes, tree := tree }.refill thread ready true leafTaken) ∧
      ({ store with nodes := nodes, tree := tree }.refill thread ready true
        leafTaken).tree.contents = tree.contents ∧
      tree.Later
        ({ store with nodes := nodes, tree := tree }.refill thread ready true leafTaken).tree ∧
      ∀ node, store.InTree node →
        ({ store with nodes := nodes, tree := tree }.refill thread ready true
          leafTaken).nodes node = store.nodes node := by
  have heldNode : (store.locals thread).map ThreadLocal.dummyval = some ready.dummyval := by
    rw [held, Option.map_some]
  have heldLeaf : (store.locals thread).map ThreadLocal.dummyleaf = some ready.dummyleaf := by
    rw [held, Option.map_some]
  have dummyval : ¬store.InTree ready.dummyval := inv.nodes.unused thread _ heldNode
  have distinct : (tree.contents.map Prod.snd).Nodup := by
    rw [(perm.map Prod.snd).nodup_iff, List.map_cons, List.nodup_cons]
    exact ⟨dummyval, inv.distinct⟩
  have inTree : ∀ node, node ∈ tree.contents.map Prod.snd ↔
      store.InTree node ∨ node = ready.dummyval := by
    intro node
    rw [(perm.map Prod.snd).mem_iff, List.map_cons, List.mem_cons, or_comm]
    rfl
  have nodesKept : ∀ node, store.InTree node →
      Function.update nodes store.nextNode ⟨none, 0⟩ node = store.nodes node := by
    intro node isIn
    rw [Function.update_of_ne (inv.nodes.used_lt node isIn).ne]
    exact kept node fun same => dummyval (same ▸ isIn)
  cases leafTaken with
  | false =>
      simp only [refill, if_true, Bool.false_eq_true, if_false, getMemNode]
      refine ⟨⟨wellFormed, rooted, distinct, ?_, ?_⟩, trivial, .refl _, nodesKept⟩
      · rw [held_update]
        exact inv.nodes.take heldNode inTree
      · have same : Function.update (fun other => (store.locals other).map ThreadLocal.dummyleaf)
            thread (some ready.dummyleaf) =
              fun other => (store.locals other).map ThreadLocal.dummyleaf :=
          Function.update_eq_self_iff.mpr heldLeaf.symm
        rw [held_update, same]
        exact inv.leaves.congr fun leaf => (leaves leaf).trans (by simp)
  | true =>
      simp only [refill, if_true, getMemNode, newLeafNode]
      have notNext : ∀ block ∈ tree.flat, block.2 ≠ store.nextLeaf := by
        intro block member same
        rcases (leaves block.2).mp (List.mem_map_of_mem member) with old | ⟨-, taken⟩
        · exact (inv.leaves.used_lt _ old).ne same
        · exact (inv.leaves.held_lt thread _ heldLeaf).ne (taken.symm.trans same)
      have same : ∀ block ∈ tree.flat, Function.update tree.leaves store.nextLeaf
          { tree.leaves store.nextLeaf with numKeys := 0 } block.2 = tree.leaves block.2 :=
        fun block member => Function.update_of_ne (notNext block member) _ _
      have contents := BPlusTree.Tree.contents_congr same
      refine ⟨⟨wellFormed.congr same, rooted, contents ▸ distinct, ?_, ?_⟩, contents,
        .of_congr same, nodesKept⟩
      · rw [held_update]
        apply (inv.nodes.take heldNode inTree).congr
        intro node
        simp only [InTree, contents]
      · rw [held_update]
        exact inv.leaves.take heldLeaf fun leaf => (leaves leaf).trans (by simp)

end Init

/-- What a call adds. -/
structure Adds (store after : Store Thread) (key : Key) (node : NodeId) : Prop where
  inv : after.Inv
  entries : ∀ entry, entry ∈ after.tree.contents ↔
    entry ∈ store.tree.contents ∨ entry = (key, node)
  nodes : ∀ entry ∈ store.tree.contents, entry.1 ≠ key →
    after.nodes entry.2 = store.nodes entry.2
  later : store.tree.Later after.tree

theorem Inv.getWithInsert {store : Store Thread} (inv : store.Inv) (thread : Thread) (key : Key)
    (val : Option Nat) :
    Adds store (store.getWithInsert thread key val).1 key
      (store.getWithInsert thread key val).2 := by
  obtain ⟨initInv, held, contents, atStart, nodes⟩ := @Inv.threadLocalInit _ _ store inv thread
  simp only [Store.getWithInsert]
  generalize store.threadLocalInit thread = initialised at *
  obtain ⟨started, ready⟩ := initialised
  simp only at initInv held contents atStart nodes ⊢
  have kept : ∀ node, node ≠ ready.dummyval → Function.update started.nodes ready.dummyval
      { started.nodes ready.dummyval with value := val } node = started.nodes node :=
    fun node other => Function.update_of_ne other _ _
  have inStarted : ∀ entry ∈ store.tree.contents, started.InTree entry.2 := by
    intro entry member
    rw [InTree, contents]
    exact List.mem_map_of_mem member
  have inStore : ∀ entry ∈ store.tree.contents, store.InTree entry.2 :=
    fun entry member => List.mem_map_of_mem member
  by_cases stored : ∃ node, (key, node) ∈ started.tree.contents
  · obtain ⟨node, stored⟩ := stored
    rw [initInv.wellFormed.insertRtm_found stored]
    obtain ⟨afterInv, tree, afterNodes⟩ := initInv.refill_idle held _ kept
    refine ⟨afterInv, ?_, ?_, tree ▸ atStart⟩
    · intro entry
      rw [tree, contents]
      rw [contents] at stored
      exact ⟨.inl, fun either => either.elim id fun same => same ▸ stored⟩
    · intro entry member _
      exact (afterNodes _ (inStarted entry member)).trans (nodes _ (inStore entry member))
  · have absent : ∀ node, (key, node) ∉ started.tree.contents :=
      fun node member => stored ⟨node, member⟩
    have unused : ready.dummyleaf ∉ started.tree.flat.map Prod.snd :=
      initInv.leaves.unused thread _ (by rw [held, Option.map_some])
    obtain ⟨before, fence, leaf, extra, behind, grown, wellFormed, val, taken, newLeaf⟩ :=
      @BPlusTree.Tree.WellFormed.insertRtm_absent _ _ started.tree key ready.dummyval
        ready.dummyleaf _ initInv.wellFormed initInv.rooted absent unused
    rw [taken, val]
    have leaves : ∀ other,
        other ∈ (started.tree.insertRtm key ready.dummyval ready.dummyleaf).tree.flat.map Prod.snd ↔
          started.IsLeaf other ∨
            ((started.tree.insertRtm key ready.dummyval ready.dummyleaf).leafTaken = true ∧
              other = ready.dummyleaf) := by
      intro other
      rw [grown.mem_leaves, newLeaf, IsLeaf]
      split <;> simp [*]
    obtain ⟨afterInv, tree, refilled, afterNodes⟩ :=
      initInv.refill_taken held wellFormed grown.rooted grown.perm leaves _ kept
    refine ⟨afterInv, ?_, ?_, (atStart.trans grown.later).trans refilled⟩
    · intro entry
      rw [tree, grown.perm.mem_iff, List.mem_cons, contents, or_comm]
    · intro entry member _
      exact (afterNodes _ (inStarted entry member)).trans (nodes _ (inStore entry member))

theorem Inv.put {store : Store Thread} (inv : store.Inv) (thread : Thread) (key : Key)
    (val : Option Nat) :
    Adds store (store.put thread key val).1 key (store.put thread key val).2 := by
  obtain ⟨⟨wellFormed, rooted, distinct, nodes, leaves⟩, entries, kept, later⟩ :=
    inv.getWithInsert thread key none
  refine ⟨⟨wellFormed, rooted, distinct, nodes, leaves⟩, entries, ?_, later⟩
  intro entry member otherKey
  refine (Function.update_of_ne ?_ _ _).trans (kept entry member otherKey)
  intro same
  have both := List.inj_on_of_nodup_map distinct ((entries entry).mpr (.inl member))
    ((entries _).mpr (.inr rfl)) same
  exact otherKey (congrArg Prod.fst both)

theorem Inv.call {store : Store Thread} (inv : store.Inv) (call : Call Thread) :
    Adds store (store.call call).1 call.key (store.call call).2 := by
  rw [Store.call]
  cases call.insertion with
  | getWithInsert val => exact inv.getWithInsert call.thread call.key val
  | put val => exact inv.put call.thread call.key val

omit [DecidableEq Thread] in
theorem Inv.get {store : Store Thread} (inv : store.Inv) (key : Key) :
    ∃ found, store.get key = some found ∧
      ∀ node, found = some node ↔ (key, node) ∈ store.tree.contents :=
  inv.wellFormed.get inv.rooted key

section Adds

variable {store after : Store Thread} {key : Key} {node : NodeId}

omit [DecidableEq Thread] in
/-- `Get` finds the record of the call. -/
theorem Adds.get_self (adds : Adds store after key node) : after.get key = some (some node) := by
  obtain ⟨found, isGet, stored⟩ := adds.inv.get key
  rw [isGet, (stored node).mpr ((adds.entries _).mpr (.inr rfl))]

omit [DecidableEq Thread] in
theorem Adds.get_of_ne (adds : Adds store after key node) (inv : store.Inv) {other : Key}
    (different : other ≠ key) : after.get other = store.get other := by
  obtain ⟨found, isGet, stored⟩ := adds.inv.get other
  obtain ⟨found', isGet', stored'⟩ := inv.get other
  have same : found = found' := by
    apply Option.ext
    intro node
    rw [stored, stored', adds.entries]
    simp [different]
  rw [isGet, isGet', same]

omit [DecidableEq Thread] in
/-- The record of a stored key is returned. -/
theorem Adds.eq_of_get (adds : Adds store after key node) (inv : store.Inv) {old : NodeId}
    (present : store.get key = some (some old)) : old = node := by
  obtain ⟨found, isGet, stored⟩ := inv.get key
  have isFound : found = some old := Option.some.inj (isGet.symm.trans present)
  have first := (adds.entries _).mpr (.inl ((stored old).mp isFound))
  have second := (adds.entries _).mpr (.inr rfl)
  exact congrArg Prod.snd (adds.inv.wellFormed.contents_ascending.value_unique first second rfl)

end Adds

end Store

/-- The record that the first call with a key returned. -/
def firstNode (calls : List (Call Thread)) (nodes : List NodeId) (key : Key) : Option NodeId :=
  ((calls.zip nodes).find? fun pair => pair.1.key = key).map Prod.snd

namespace Store

theorem Inv.run {store : Store Thread} (inv : store.Inv) (calls : List (Call Thread)) :
    (store.run calls).1.Inv ∧ ∀ key, (store.run calls).1.get key =
      (store.get key).map fun found => found.or (firstNode calls (store.run calls).2 key) := by
  induction calls generalizing store with
  | nil =>
      refine ⟨inv, fun key => ?_⟩
      simp [Store.run, firstNode]
  | cons call rest ih =>
      have adds := inv.call call
      obtain ⟨runInv, gets⟩ := ih adds.inv
      refine ⟨runInv, fun key => ?_⟩
      refine (gets key).trans ?_
      by_cases same : call.key = key
      · subst same
        rw [adds.get_self]
        obtain ⟨found, isGet, -⟩ := inv.get call.key
        cases found with
        | some old =>
            rw [isGet, adds.eq_of_get inv isGet]
            simp
        | none =>
            rw [isGet]
            simp [Store.run, firstNode]
      · rw [adds.get_of_ne inv (Ne.symm same)]
        simp [Store.run, firstNode, same]

end Store

/-- After any calls by any threads, `Get` returns the record of the first call with the key,
another call changes neither the record of another key nor what is in it, and the tree is
sorted. -/
theorem run_isSortedMap (calls : List (Call Thread)) :
    (∀ key, (Store.init.run calls).1.get key =
      some (firstNode calls (Store.init.run calls).2 key)) ∧
    (∀ call : Call Thread, ∀ key ≠ call.key,
      ((Store.init.run calls).1.call call).1.get key = (Store.init.run calls).1.get key ∧
      ∀ node, (Store.init.run calls).1.get key = some (some node) →
        ((Store.init.run calls).1.call call).1.nodes node = (Store.init.run calls).1.nodes node) ∧
    ∃ depth root keys, (Store.init.run calls).1.tree.IsSorted depth root keys ∧
      ∀ key, key ∈ keys ↔ ∃ node, (Store.init.run calls).1.get key = some (some node) := by
  obtain ⟨inv, gets⟩ := (@Store.inv_init Thread).run calls
  refine ⟨?_, ?_, ?_⟩
  · intro key
    obtain ⟨found, isGet, stored⟩ := (@Store.inv_init Thread).get key
    have isNone : found = none := by
      cases found with
      | none => rfl
      | some node => exact absurd ((stored node).mp rfl) (by simp [Store.contents_init])
    rw [gets key, isGet, isNone]
    rfl
  · intro call key different
    have adds := inv.call call
    refine ⟨adds.get_of_ne inv different, fun node present => ?_⟩
    obtain ⟨found, isGet, stored⟩ := inv.get key
    have isFound : found = some node := Option.some.inj (isGet.symm.trans present)
    exact adds.nodes (key, node) ((stored node).mp isFound) different
  · obtain ⟨depth, root, sorted⟩ := inv.wellFormed.isSorted inv.rooted
    refine ⟨depth, root, _, sorted, fun key => ?_⟩
    obtain ⟨found, isGet, stored⟩ := inv.get key
    simp only [isGet, Option.some.injEq, stored, List.mem_map, Prod.exists, exists_and_right,
      exists_eq_right]

end Rocc.Memstore.MemstoreBPlusTree
