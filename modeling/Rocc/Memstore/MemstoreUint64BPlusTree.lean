import Mathlib.Data.List.Lex
import Mathlib.Order.Fin.Basic
import Rocc.Base.Ready
import Rocc.Base.Run
import Rocc.Memstore.BPlusTree.Bounds
import Rocc.Memstore.BPlusTree.Removal

/-!
# `MemstoreUint64BPlusTree`

The B+ tree over keys of several words, with deletion.  It is a finite map as long as no key
is deleted that is not stored while a greater one is in its leaf: the slot that is found for
such a key is the one of the next greater key, and `LeafDelete` does not compare them.  A
tree without a root can only be inserted into, and the keys must fit in `KEY`.
-/

namespace Rocc.Memstore.MemstoreUint64BPlusTree

open BPlusTree Fences Rtx

/-- The words of a `KEY`. -/
abbrev keyWords : Nat := 5

/-- The first `array_length` words of a key. -/
abbrev Key (length : Nat) := { words : List (Fin wordBound) // words.length = length }

variable {length : Nat}

instance : Inhabited (Key length) :=
  ⟨⟨List.replicate length ⟨0, Nat.two_pow_pos 64⟩, List.length_replicate⟩⟩

/-- The loop of `Compare`. -/
def compareFrom : List (Fin wordBound) → List (Fin wordBound) → Int
  | a :: rest, b :: rest' => if b < a then 1 else if a < b then -1 else compareFrom rest rest'
  | _, _ => 0

/-- `Compare`. -/
def compare (a b : Key length) : Int := compareFrom a.1 b.1

theorem compareFrom_eq {a b : List (Fin wordBound)} (same : a.length = b.length) :
    compareFrom a b = if b < a then 1 else if a < b then -1 else 0 := by
  induction a generalizing b with
  | nil =>
      obtain rfl := List.eq_nil_of_length_eq_zero same.symm
      simp [compareFrom]
  | cons word rest ih =>
      cases b with
      | nil => simp at same
      | cons word' rest' =>
          rw [compareFrom, ih (Nat.succ_inj.mp same)]
          simp only [List.cons_lt_cons_iff]
          rcases lt_trichotomy word word' with below | rfl | above
          · simp [below, below.not_gt, below.ne, below.ne']
          · simp
          · simp [above]

/-- The order of the keys is the lexicographic one. -/
theorem compare_eq (a b : Key length) :
    compare a b = if b < a then 1 else if a < b then -1 else 0 :=
  compareFrom_eq (a.2.trans b.2.symm)

/-- The test `upKey[0] != -1`; a key without words leaves `upKey` as it was. -/
def pending (key : Key length) : Bool := key.1.head?.any fun word => word.1 ≠ wordBound - 1

/-- The tree and the `dummyval_` of every thread that has set `localinit_`. -/
structure Store (Thread : Type) (length : Nat) where
  tree : BPlusTree.Tree (Key length)
  locals : Thread → Option NodeId
  nextNode : NodeId
  nextLeaf : LeafId

variable {Thread : Type} [DecidableEq Thread]

namespace Store

/-- The constructor. -/
def init : Store Thread length where
  tree :=
    ⟨fun _ => { numKeys := 0, entries := fun _ => default, left := none, right := none, seq := 0 },
      some ⟨0, (0 : LeafId)⟩⟩
  locals := fun _ => none
  nextNode := 0
  nextLeaf := 1

/-- `dummyval_ = new MemNode()`. -/
def newDummyval (store : Store Thread length) (thread : Thread) : Store Thread length :=
  { store with
    locals := Function.update store.locals thread (some store.nextNode)
    nextNode := store.nextNode + 1 }

/-- `ThreadLocalInit`, and the dummy it leaves. -/
def threadLocalInit (store : Store Thread length) (thread : Thread) :
    Store Thread length × NodeId :=
  match store.locals thread with
  | some dummyval => (store, dummyval)
  | none => (store.newDummyval thread, store.nextNode)

/-- `Get`. -/
def get (store : Store Thread length) (key : Key length) : Option (Option NodeId) :=
  store.tree.get key

/-- `GetWithInsert`.  A longer key is stored past the end of its `KEY`. -/
def getWithInsert (store : Store Thread length) (thread : Thread) (key : Key length) :
    Option (Store Thread length × NodeId) :=
  if keyWords < length then
    none
  else
    let (store, dummyval) := store.threadLocalInit thread
    let result := store.tree.insertRtm key dummyval store.nextLeaf
    let store := { store with
      tree := result.tree
      nextLeaf := if result.leafTaken then store.nextLeaf + 1 else store.nextLeaf }
    let store := if result.taken then store.newDummyval thread else store
    some (store, result.val)

/-- `GetWithDelete`. -/
def getWithDelete (store : Store Thread length) (thread : Thread) (key : Key length) :
    Option (Store Thread length × Option NodeId) :=
  let store := (store.threadLocalInit thread).1
  (store.tree.deleteRtm pending key).map fun result => ({ store with tree := result.1 }, result.2)

end Store

/-- A call by a thread. -/
inductive Call (Thread : Type) (length : Nat) where
  | get (key : Key length)
  | getWithInsert (thread : Thread) (key : Key length)
  | getWithDelete (thread : Thread) (key : Key length)
  deriving DecidableEq

/-- The store after a call, and the record it returns.  There is no result if the call fails
or does not survive. -/
def Store.call (store : Store Thread length) :
    Call Thread length → Option (Store Thread length × Option NodeId)
  | .get key => (store.get key).map fun node => (store, node)
  | .getWithInsert thread key =>
      (store.getWithInsert thread key).map fun result => (result.1, some result.2)
  | .getWithDelete thread key => store.getWithDelete thread key

/-- The store and the calls so far with what they have returned, the last one first. -/
structure System (Thread : Type) (length : Nat) where
  store : Store Thread length
  log : List (Call Thread length × Option NodeId)

namespace System

def init : System Thread length := ⟨.init, []⟩

def step (system : System Thread length) (call : Call Thread length) :
    Option (System Thread length) :=
  (system.store.call call).map fun result => ⟨result.1, (call, result.2) :: system.log⟩

end System

/-! ## Finite maps -/

/-- The record of a key after the calls of a log: the one returned by the last insertion if
the key was not deleted since. -/
def nodeOf : List (Call Thread length × Option NodeId) → Key length → Option NodeId
  | [], _ => none
  | (.get _, _) :: earlier, key => nodeOf earlier key
  | (.getWithInsert _ inserted, result) :: earlier, key =>
      if inserted = key then result else nodeOf earlier key
  | (.getWithDelete _ deleted, _) :: earlier, key =>
      if deleted = key then none else nodeOf earlier key

/-- Every call has returned what a finite map returns. -/
def Explained : List (Call Thread length × Option NodeId) → Prop
  | [] => True
  | (.get key, result) :: earlier => Explained earlier ∧ result = nodeOf earlier key
  | (.getWithInsert _ key, result) :: earlier =>
      Explained earlier ∧ ∃ node, result = some node ∧
        (nodeOf earlier key = some node ∨
          nodeOf earlier key = none ∧ ∀ other, nodeOf earlier other ≠ some node)
  | (.getWithDelete _ key, result) :: earlier => Explained earlier ∧ result = nodeOf earlier key

/-- The chain of the leaves lists the keys of a map in order; a tree without a root stores
none. -/
def Store.Lists (store : Store Thread length) (map : Key length → Option NodeId) : Prop :=
  (store.tree.root = none ∧ ∀ key, map key = none) ∨
    ∃ depth root keys, store.tree.IsSorted depth root keys ∧ ∀ key, key ∈ keys ↔ map key ≠ none

/-- The condition under which a call does what it should. -/
def Store.Allows (store : Store Thread length) : Call Thread length → Prop
  | .get _ => store.tree.root ≠ none
  | .getWithInsert _ _ => length ≤ keyWords
  | .getWithDelete _ key => store.tree.root ≠ none ∧
      ∀ leaf, store.tree.findLeaf (fun separator => separator ≤ key) = some leaf →
        (store.tree.leaves leaf).slotOf key < (store.tree.leaves leaf).numKeys →
          ((store.tree.leaves leaf).entries ((store.tree.leaves leaf).slotOf key)).1 = key

instance Store.decidableAllows (store : Store Thread length) :
    ∀ call, Decidable (store.Allows call)
  | .get _ => inferInstanceAs (Decidable (store.tree.root ≠ none))
  | .getWithInsert _ _ => inferInstanceAs (Decidable (length ≤ keyWords))
  | .getWithDelete _ key => inferInstanceAs (Decidable (store.tree.root ≠ none ∧
      ∀ leaf ∈ store.tree.findLeaf (fun separator => separator ≤ key),
        (store.tree.leaves leaf).slotOf key < (store.tree.leaves leaf).numKeys →
          ((store.tree.leaves leaf).entries ((store.tree.leaves leaf).slotOf key)).1 = key))

/-! ## The invariant of the store -/

namespace Store

/-- The records in the tree. -/
def InTree (store : Store Thread length) (node : NodeId) : Prop :=
  node ∈ store.tree.contents.map Prod.snd

/-- The tree is well-formed, no record is there twice, and the dummies are not in it. -/
structure Inv (store : Store Thread length) : Prop where
  wellFormed : store.tree.WellFormed
  distinct : (store.tree.contents.map Prod.snd).Nodup
  nodes : Ready store.InTree store.locals store.nextNode
  leaves : ∀ leaf ∈ store.tree.flat.map Prod.snd, leaf < store.nextLeaf

variable {store : Store Thread length} {thread : Thread} {key : Key length}

omit [DecidableEq Thread] in
theorem contents_init : (init : Store Thread length).tree.contents = [] := rfl

omit [DecidableEq Thread] in
theorem inv_init : (init : Store Thread length).Inv := by
  have flat : (init : Store Thread length).tree.flat = [(⊥, 0)] := rfl
  refine ⟨⟨trivial, ?_⟩, by simp [contents_init],
    ⟨?_, by simp [init], by simp [init], by simp [init]⟩, ?_⟩
  · rw [flat]
    refine ⟨Fenced.singleton ?_ ?_, ⟨by simp, rfl, rfl, rfl, trivial⟩, ?_, ?_⟩
    · simp [entriesIn, init, LeafNode.list, Slots.list]
    · simp [entriesIn, init, LeafNode.list, Slots.list]
    · simp [init]
    · simp
  · intro node member
    rw [InTree, contents_init] at member
    cases member
  · rw [flat]
    simp [init]

/-- `ThreadLocalInit` does not touch the tree. -/
theorem Inv.threadLocalInit (inv : store.Inv) :
    (store.threadLocalInit thread).1.Inv ∧
      (store.threadLocalInit thread).1.tree = store.tree ∧
      (store.threadLocalInit thread).1.locals thread = some (store.threadLocalInit thread).2 := by
  cases found : store.locals thread with
  | some dummyval =>
      simp only [Store.threadLocalInit, found]
      exact ⟨inv, trivial, trivial⟩
  | none =>
      simp only [Store.threadLocalInit, found, newDummyval]
      exact ⟨⟨inv.wellFormed, inv.distinct, inv.nodes.hold thread, inv.leaves⟩, trivial,
        Function.update_self ..⟩

/-- The dummy comes into the tree. -/
theorem Inv.insert (inv : store.Inv) {dummyval : NodeId}
    (held : store.locals thread = some dummyval) {tree : BPlusTree.Tree (Key length)}
    (wellFormed : tree.WellFormed)
    (perm : tree.contents.Perm ((key, dummyval) :: store.tree.contents)) {leafTaken : Bool}
    (leaves : ∀ leaf ∈ tree.flat.map Prod.snd,
      leaf ∈ store.tree.flat.map Prod.snd ∨ (leafTaken = true ∧ leaf = store.nextLeaf)) :
    Inv (newDummyval { store with
      tree := tree
      nextLeaf := if leafTaken then store.nextLeaf + 1 else store.nextLeaf } thread) := by
  have inTree : ∀ node, node ∈ tree.contents.map Prod.snd ↔
      store.InTree node ∨ node = dummyval := by
    intro node
    rw [(perm.map Prod.snd).mem_iff, List.map_cons, List.mem_cons, or_comm]
    rfl
  refine ⟨wellFormed, ?_, inv.nodes.take held inTree, ?_⟩
  · rw [show (newDummyval _ thread).tree = tree from rfl, (perm.map Prod.snd).nodup_iff,
      List.map_cons, List.nodup_cons]
    exact ⟨inv.nodes.unused thread dummyval held, inv.distinct⟩
  · intro leaf member
    rcases leaves leaf member with old | ⟨taken, rfl⟩
    · have below := inv.leaves leaf old
      simp only [newDummyval]
      split
      · exact Nat.lt_succ_of_lt below
      · exact below
    · simp [newDummyval, taken]

/-- What `GetWithInsert` does. -/
theorem Inv.getWithInsert (inv : store.Inv) (fits : length ≤ keyWords) :
    ∃ after node, store.getWithInsert thread key = some (after, node) ∧ after.Inv ∧
      (∀ entry, entry ∈ after.tree.contents ↔ entry ∈ store.tree.contents ∨ entry = (key, node)) ∧
      ((key, node) ∈ store.tree.contents ∨
        (∀ other, (key, other) ∉ store.tree.contents) ∧ ¬store.InTree node) := by
  obtain ⟨started, same, held⟩ := @Inv.threadLocalInit _ _ _ store thread inv
  simp only [Store.getWithInsert, if_neg (not_lt.mpr fits)]
  generalize store.threadLocalInit thread = initialised at *
  obtain ⟨start, dummyval⟩ := initialised
  simp only at started same held ⊢
  refine ⟨_, _, rfl, ?_⟩
  have inTree : start.InTree = store.InTree := by
    funext node
    rw [InTree, InTree, same]
  have unused := started.nodes.unused thread dummyval held
  by_cases stored : ∃ node, (key, node) ∈ start.tree.contents
  · obtain ⟨node, stored⟩ := stored
    rw [started.wellFormed.insertRtm_found stored]
    rw [same] at stored
    refine ⟨started, fun entry => ?_, .inl stored⟩
    simp only [Bool.false_eq_true, if_false, same]
    exact ⟨.inl, fun either => either.elim id fun isEntry => isEntry ▸ stored⟩
  · have absent : ∀ node, (key, node) ∉ start.tree.contents := fun node member =>
      stored ⟨node, member⟩
    have notLeaf : start.nextLeaf ∉ start.tree.flat.map Prod.snd := fun member =>
      Nat.lt_irrefl _ (started.leaves _ member)
    obtain ⟨wellFormed, perm, leaves, val, taken⟩ :=
      @BPlusTree.Tree.WellFormed.insertRtm_new _ _ start.tree key _ started.wellFormed absent
        dummyval start.nextLeaf notLeaf
    rw [val, taken, if_pos rfl]
    refine ⟨started.insert held wellFormed perm leaves, fun entry => ?_, .inr ⟨?_, ?_⟩⟩
    · rw [← same, or_comm, ← List.mem_cons]
      exact perm.mem_iff
    · rwa [← same]
    · rwa [← inTree]

/-- What `GetWithDelete` does. -/
theorem Inv.getWithDelete (inv : store.Inv) (allowed : store.Allows (.getWithDelete thread key)) :
    ∃ after result, store.getWithDelete thread key = some (after, result) ∧ after.Inv ∧
      (∀ entry, entry ∈ after.tree.contents ↔ entry ∈ store.tree.contents ∧ entry.1 ≠ key) ∧
      ∀ node, result = some node ↔ (key, node) ∈ store.tree.contents := by
  obtain ⟨started, same, -⟩ := @Inv.threadLocalInit _ _ _ store thread inv
  simp only [Store.getWithDelete]
  generalize (store.threadLocalInit thread).1 = start at *
  by_cases stored : ∃ node, (key, node) ∈ start.tree.contents
  · obtain ⟨node, stored⟩ := stored
    obtain ⟨tree, isDelete, wellFormed, perm, entries, leaves⟩ :=
      @BPlusTree.Tree.WellFormed.deleteRtm_stored _ _ start.tree key pending started.wellFormed
        node stored
    refine ⟨_, _, by rw [isDelete, Option.map_some], ⟨wellFormed, ?_, ?_, ?_⟩, ?_, ?_⟩
    · have distinct := started.distinct
      rw [(perm.map Prod.snd).nodup_iff, List.map_cons, List.nodup_cons] at distinct
      exact distinct.2
    · apply started.nodes.release
      intro other member
      rw [InTree, (perm.map Prod.snd).mem_iff]
      exact List.mem_cons_of_mem _ member
    · exact fun leaf member => started.leaves leaf (leaves leaf member)
    · rw [← same]
      exact entries
    · intro other
      rw [← same]
      constructor
      · rintro ⟨⟩
        exact stored
      · intro also
        exact congrArg (some ·.2)
          (started.wellFormed.contents_ascending.value_unique stored also rfl)
  · have absent : ∀ node, (key, node) ∉ start.tree.contents := fun node member =>
      stored ⟨node, member⟩
    obtain ⟨rooted, last⟩ := allowed
    rw [← same] at rooted last ⊢
    refine ⟨start, none, ?_, started, fun entry => ⟨fun member => ⟨member, ?_⟩, And.left⟩, ?_⟩
    · rw [started.wellFormed.deleteRtm_absent rooted absent last, Option.map_some]
    · rintro rfl
      exact absent _ member
    · exact fun node => ⟨by simp, fun member => absurd member (absent node)⟩

omit [DecidableEq Thread] in
theorem Inv.get (inv : store.Inv) (rooted : store.tree.root ≠ none) (key : Key length) :
    ∃ found, store.get key = some found ∧
      ∀ node, found = some node ↔ (key, node) ∈ store.tree.contents :=
  inv.wellFormed.get rooted key

end Store

/-! ## The invariant of the system -/

namespace System

/-- The tree stores what the log says. -/
structure Inv (system : System Thread length) : Prop where
  store : system.store.Inv
  explained : Explained system.log
  stored : ∀ key node, (key, node) ∈ system.store.tree.contents ↔ nodeOf system.log key = some node

variable {system : System Thread length}

omit [DecidableEq Thread] in
theorem inv_init : (init : System Thread length).Inv :=
  ⟨Store.inv_init, trivial, fun key node => by
    simp [init, Store.contents_init, nodeOf]⟩

omit [DecidableEq Thread] in
/-- A lookup that agrees with the tree agrees with the log. -/
theorem Inv.eq_nodeOf (inv : system.Inv) {key : Key length} {found : Option NodeId}
    (same : ∀ node, found = some node ↔ (key, node) ∈ system.store.tree.contents) :
    found = nodeOf system.log key :=
  Option.ext fun node => (same node).trans (inv.stored key node)

/-- An allowed call has a result and keeps the invariant. -/
theorem Inv.step (inv : system.Inv) {call : Call Thread length}
    (allowed : system.store.Allows call) :
    ∃ after, system.step call = some after ∧ after.Inv := by
  cases call with
  | get key =>
      obtain ⟨found, isGet, same⟩ := inv.store.get allowed key
      refine ⟨⟨system.store, (.get key, found) :: system.log⟩, ?_, ⟨inv.store, ?_, inv.stored⟩⟩
      · simp only [System.step, Store.call, isGet, Option.map_some]
      · exact ⟨inv.explained, inv.eq_nodeOf same⟩
  | getWithInsert thread key =>
      obtain ⟨after, node, result, afterInv, entries, isNew⟩ :=
        @Store.Inv.getWithInsert _ _ _ system.store thread key inv.store allowed
      refine ⟨⟨after, (.getWithInsert thread key, some node) :: system.log⟩, ?_, ⟨afterInv, ?_, ?_⟩⟩
      · simp only [System.step, Store.call, result, Option.map_some]
      · refine ⟨inv.explained, node, rfl, ?_⟩
        rcases isNew with old | ⟨absent, unused⟩
        · exact .inl ((inv.stored key node).mp old)
        · refine .inr ⟨Option.eq_none_iff_forall_ne_some.mpr fun other isOther =>
            absent other ((inv.stored key other).mpr isOther), fun other isNode => unused ?_⟩
          exact List.mem_map_of_mem ((inv.stored other node).mpr isNode)
      · intro other value
        rw [entries, inv.stored, nodeOf, Prod.mk.injEq]
        by_cases isKey : key = other
        · subst isKey
          rw [if_pos rfl, Option.some.injEq]
          constructor
          · rintro (old | ⟨-, rfl⟩)
            · rcases isNew with same | ⟨absent, -⟩
              · exact Option.some.inj (((inv.stored key node).mp same).symm.trans old)
              · exact absurd ((inv.stored key value).mpr old) (absent value)
            · rfl
          · exact fun same => .inr ⟨rfl, same.symm⟩
        · simp [isKey, Ne.symm isKey]
  | getWithDelete thread key =>
      obtain ⟨after, found, result, afterInv, entries, same⟩ := inv.store.getWithDelete allowed
      refine ⟨⟨after, (.getWithDelete thread key, found) :: system.log⟩, ?_, ⟨afterInv, ?_, ?_⟩⟩
      · simp only [System.step, Store.call, result, Option.map_some]
      · exact ⟨inv.explained, inv.eq_nodeOf same⟩
      · intro other value
        rw [entries, inv.stored, nodeOf]
        by_cases isKey : key = other
        · simp [isKey]
        · simp [isKey, Ne.symm isKey]

end System

/-- In every run of allowed calls, each call has returned what a finite map returns, the
chain of the leaves lists the stored keys in order, and every further allowed call has a
result. -/
theorem isFiniteMap_of_allowed {system : System Thread length}
    (reach : Reach System.step (fun system call => system.store.Allows call) .init system) :
    Explained system.log ∧ system.store.Lists (nodeOf system.log) ∧
      ∀ call, system.store.Allows call → (system.step call).isSome = true := by
  have inv := reach.invariant System.Inv System.inv_init
    fun before call after inv allowed stepped => by
    obtain ⟨result, isResult, resultInv⟩ := inv.step allowed
    rw [stepped, Option.some.injEq] at isResult
    exact isResult ▸ resultInv
  refine ⟨inv.explained, ?_, fun call allowed => ?_⟩
  · by_cases rootless : system.store.tree.root = none
    · refine .inl ⟨rootless, fun key => Option.eq_none_iff_forall_ne_some.mpr fun node isNode => ?_⟩
      exact BPlusTree.Tree.rooted_of_mem ((inv.stored key node).mpr isNode) rootless
    · obtain ⟨depth, root, sorted⟩ := inv.store.wellFormed.isSorted rootless
      refine .inr ⟨depth, root, _, sorted, fun key => ?_⟩
      simp only [List.mem_map, Prod.exists, exists_and_right, exists_eq_right, inv.stored,
        Option.ne_none_iff_exists']
  · obtain ⟨after, isStep, -⟩ := inv.step allowed
    rw [isStep, Option.isSome_some]

/-- A key of one word. -/
def oneWord (word : Nat) : Key 1 := ⟨[⟨word % wordBound, Nat.mod_lt _ (by decide)⟩], rfl⟩

/-- Two keys are inserted, one of them is deleted, and the other one is found. -/
theorem isFiniteMap_of_allowed_pair : ∃ system : System (Fin 1) 1,
    system.log.map Prod.snd = [none, some 1, some 0, some 1, some 0] ∧
      Explained system.log ∧ system.store.Lists (nodeOf system.log) ∧
      ∀ call, system.store.Allows call → (system.step call).isSome = true := by
  obtain ⟨system, reach, results⟩ : ∃ system : System (Fin 1) 1,
      Reach System.step (fun system call => system.store.Allows call) .init system ∧
        system.log.map Prod.snd = [none, some 1, some 0, some 1, some 0] :=
    Reach.exists_of_exec [.getWithInsert 0 (oneWord 1), .getWithInsert 0 (oneWord 2),
      .getWithDelete 0 (oneWord 1), .get (oneWord 2), .getWithDelete 0 (oneWord 3)]
      (by decide +kernel)
  exact ⟨system, results, isFiniteMap_of_allowed reach⟩

/-- The deletion of a key that is not stored takes out the next greater one. -/
theorem not_isFiniteMap : ¬ ∀ (length : Nat) (system : System (Fin 1) length),
    Reachable System.step .init system → Explained system.log ∧
      system.store.Lists (nodeOf system.log) ∧ ∀ call, (system.step call).isSome = true := by
  intro always
  obtain ⟨system, reach, isLog⟩ : ∃ system : System (Fin 1) 1,
      Reachable System.step .init system ∧ system.log =
        [(.getWithDelete 0 (oneWord 1), some 0), (.getWithInsert 0 (oneWord 2), some 0)] :=
    Reach.exists_of_exec [.getWithInsert 0 (oneWord 2), .getWithDelete 0 (oneWord 1)]
      (by decide +kernel)
  have explained := (always 1 system reach).1
  rw [isLog] at explained
  exact absurd explained.2 (by decide)

end Rocc.Memstore.MemstoreUint64BPlusTree
