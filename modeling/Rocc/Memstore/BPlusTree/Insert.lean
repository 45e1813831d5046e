import Rocc.Memstore.BPlusTree.Leaf
import Rocc.Memstore.BPlusTree.Shape

/-!
# Insertion into a B+ tree

An insertion descends to a leaf and, where the leaf is split, puts its new sibling behind
it in the order of the leaves.  How inner nodes are split on the way back up makes no
difference to that order.
-/

namespace Rocc.Memstore.BPlusTree

open Fences Rtx

variable {Key Child : Type} [LinearOrder Key] {depth : Nat}

/-- The leaf that a key belongs to, between the others. -/
structure Located (blocks : List (WithBot Key × LeafId)) (key : Key)
    (before : List (WithBot Key × LeafId)) (fence : WithBot Key) (leaf : LeafId)
    (behind : List (WithBot Key × LeafId)) : Prop where
  split : blocks = before ++ (fence, leaf) :: behind
  reached : fence ≤ key
  ended : ∀ next ∈ behind, (key : WithBot Key) < next.1

/-- The first key of a new leaf separates it, and one that has no other key is the last. -/
structure Separated (leaves : Leaves Key) (fence : WithBot Key)
    (behind : List (WithBot Key × LeafId)) (new : LeafId) : Prop where
  low : fence < firstKey leaves new
  high : ∀ next ∈ behind, ((firstKey leaves new : Key) : WithBot Key) < next.1
  alone : (leaves new).numKeys = 1 → behind = []

section Children

variable [Inhabited Key] {inner : InnerNode Key (Subtree Key depth)} {lo : WithBot Key} {k : Nat}
variable {child : Subtree Key depth} {new : NewChild Key (Subtree Key depth)}

/-- A child is replaced by two. -/
theorem addChild_spec (fits : Fits (depth + 1) inner) (inside : k ≤ inner.numKeys)
    (ordered : Ordered (inner.pairs lo)) (low : inner.fence lo k ≤ new.side)
    (high : k < inner.numKeys → new.side < inner.keys k)
    (last : new.alone = true → k = inner.numKeys) (childFits : Fits depth child)
    (newFits : Fits depth new.child) {result}
    (added : InnerNode.addChild { inner with children := Function.update inner.children k child }
      k new = result) :
    flatOf (depth + 1) lo result.1 result.2 = flats depth ((inner.pairs lo).take k) ++
      (flat depth (inner.fence lo k) child ++ flat depth new.key new.child) ++
        flats depth ((inner.pairs lo).drop (k + 1)) ∧
      Fits (depth + 1) result.1 ∧ ∀ sibling ∈ result.2, Fits (depth + 1) sibling.1 ∧
        sibling.1.keys (nodeKeys - 1) = sibling.2 ∧
        (sibling.1.numKeys = 0 → new.alone = true) := by
  subst added
  let changed := { inner with children := Function.update inner.children k child }
  have pairs : changed.pairs lo = (inner.pairs lo).take k ++
      (inner.fence lo k, child) :: (inner.pairs lo).drop (k + 1) := pairs_update inside child
  have sameFences : (changed.pairs lo).map Prod.fst = (inner.pairs lo).map Prod.fst := by
    simp only [InnerNode.pairs, Slots.list, List.map_map]
    apply List.map_congr_left
    intro index _
    cases index <;> rfl
  have changedOrdered : Ordered (changed.pairs lo) :=
    List.pairwise_map.mp (sameFences ▸ List.pairwise_map.mpr ordered)
  have count : ((inner.pairs lo).take k).length = k := by simp; omega
  have all := @pairs_addChild _ _ changed lo k _ _ _ new fits.1 inside changedOrdered low high last
  have front : (changed.pairs lo).take (k + 1) =
      (inner.pairs lo).take k ++ [(inner.fence lo k, child)] := by
    rw [pairs, ← List.singleton_append, ← List.append_assoc]
    exact List.take_left' (by simp [count])
  have back : (changed.pairs lo).drop (k + 1) = (inner.pairs lo).drop (k + 1) := by
    rw [pairs, ← List.singleton_append, ← List.append_assoc]
    exact List.drop_left' (by simp [count])
  rw [front, back] at all
  have fit : ∀ pair ∈ pairsOf lo (changed.addChild k new), Fits depth pair.2 := by
    have old := ((fits_succ lo).mp fits).2
    rw [all]
    simp only [List.mem_append, List.mem_cons, List.not_mem_nil, or_false]
    rintro pair ((before | rfl) | rfl | behind)
    · exact old pair (List.mem_of_mem_take before)
    · exact childFits
    · exact newFits
    · exact old pair (List.mem_of_mem_drop behind)
  obtain ⟨small, siblingSmall⟩ := @addChild_fits _ _ changed k _ _ _ new fits.1 inside
  refine ⟨?_, (fits_succ lo).mpr ⟨small, fun pair member =>
    fit pair (List.mem_append_left _ member)⟩, ?_⟩
  · rw [flatOf_eq, all]
    simp
  · intro sibling member
    obtain ⟨few, place, alone⟩ := siblingSmall sibling member
    refine ⟨(fits_succ (sibling.2 : WithBot Key)).mpr ⟨few, ?_⟩, place, alone⟩
    intro pair inSibling
    apply fit
    apply List.mem_append_right
    rw [Option.mem_def.mp member]
    exact inSibling

end Children

/-! ## Inner nodes -/

section Inner

/-- The child that an insertion descends to. -/
theorem scan_spec {key : Key} {inner : InnerNode Key Child} {lo : WithBot Key} (reached : lo ≤ key)
    {k : Nat} (found : Slots.scan inner.keys (fun separator => separator ≤ key) inner.numKeys = k) :
    k ≤ inner.numKeys ∧ inner.fence lo k ≤ key ∧ (k < inner.numKeys → key < inner.keys k) := by
  subst found
  refine ⟨Slots.scan_le, ?_, ?_⟩
  · cases place : Slots.scan inner.keys (fun separator => separator ≤ key) inner.numKeys with
    | zero => exact reached
    | succ last =>
        have passed := Slots.test_of_lt_scan ((Nat.lt_succ_self last).trans_eq place.symm)
        exact WithBot.coe_le_coe.mpr (by simpa using passed)
  · intro more
    simpa using Slots.not_test_scan more

/-- The leaves behind a child are behind the separator. -/
theorem lt_of_mem_behind {key : Key} {inner : InnerNode Key (Subtree Key depth)} {lo : WithBot Key}
    (ordered : Ordered (flat (depth + 1) lo inner)) {k : Nat} (inside : k ≤ inner.numKeys)
    (below : k < inner.numKeys → key < inner.keys k) {next : WithBot Key × LeafId}
    (member : next ∈ flats depth ((inner.pairs lo).drop (k + 1))) :
    (key : WithBot Key) < next.1 := by
  rcases inside.lt_or_eq with more | last
  · rw [flat_around inside] at ordered
    have rest := (List.pairwise_append.mp ordered).2.1
    rw [drop_pairs more, flats_cons] at rest member
    obtain ⟨leaf, others, first⟩ := flat_eq_cons (inner.children (k + 1))
    simp only [first, List.cons_append] at rest member
    have stopped : (key : WithBot Key) < inner.keys k := WithBot.coe_lt_coe.mpr (below more)
    rcases List.mem_cons.mp member with rfl | later
    · exact stopped
    · exact stopped.trans ((List.pairwise_cons.mp rest).1 next later)
  · rw [last, drop_pairs_last, flats_nil] at member
    cases member

variable [Inhabited Key]

/-- What an insertion into a subtree does: in the leaf that the key belongs to whatever
`leafInsert` does, and in the order of the leaves at most one more leaf behind that one. -/
structure InsertedBelow (leaves : Leaves Key) (key : Key) (dummyval : NodeId) (fresh : LeafId)
    (lo : WithBot Key) (inner : InnerNode Key (Subtree Key depth))
    (result : InnerInserted Key (Subtree Key depth)) (before : List (WithBot Key × LeafId))
    (fence : WithBot Key) (leaf : LeafId) (behind : List (WithBot Key × LeafId)) : Prop where
  leaves_eq : result.leaves = (leafInsert leaves key leaf dummyval fresh).leaves
  val_eq : result.val = (leafInsert leaves key leaf dummyval fresh).val
  taken_eq : result.taken = (leafInsert leaves key leaf dummyval fresh).taken
  leafTaken_eq :
    result.leafTaken = (leafInsert leaves key leaf dummyval fresh).newSibling.isSome
  kept : (leafInsert leaves key leaf dummyval fresh).newSibling = none →
    result.inner = inner ∧ result.newSibling = none
  grown : ∀ new ∈ (leafInsert leaves key leaf dummyval fresh).newSibling,
    Separated (leafInsert leaves key leaf dummyval fresh).leaves fence behind new →
    flatOf (depth + 1) lo result.inner result.newSibling =
        before ++ (fence, leaf) ::
          (((firstKey (leafInsert leaves key leaf dummyval fresh).leaves new : Key) :
            WithBot Key), new) :: behind ∧
      Fits (depth + 1) result.inner ∧
      ∀ sibling ∈ result.newSibling, Fits (depth + 1) sibling.1 ∧
        sibling.1.keys (nodeKeys - 1) = sibling.2 ∧
        (sibling.1.numKeys = 0 →
          ((leafInsert leaves key leaf dummyval fresh).leaves new).numKeys = 1)

theorem innerInsert_spec {leaves : Leaves Key} {key : Key} {dummyval : NodeId} {fresh : LeafId}
    {inner : InnerNode Key (Subtree Key depth)} {lo : WithBot Key}
    (ordered : Ordered (flat (depth + 1) lo inner)) (reached : lo ≤ key)
    (fits : Fits (depth + 1) inner) :
    ∃ before fence leaf behind,
      Located (flat (depth + 1) lo inner) key before fence leaf behind ∧
        InsertedBelow leaves key dummyval fresh lo inner
          (innerInsert key dummyval fresh depth inner leaves) before fence leaf behind := by
  induction depth generalizing lo with
  | zero =>
      obtain ⟨k, found⟩ : ∃ k, Slots.scan inner.keys (fun separator => separator ≤ key)
        inner.numKeys = k := ⟨_, rfl⟩
      obtain ⟨inside, low, high⟩ := scan_spec reached found
      obtain ⟨leaf, child⟩ : ∃ leaf : LeafId, inner.children k = leaf := ⟨_, rfl⟩
      refine ⟨flats 0 ((inner.pairs lo).take k), inner.fence lo k, leaf,
        flats 0 ((inner.pairs lo).drop (k + 1)), ⟨?_, low, ?_⟩, ?_⟩
      · rw [flat_around inside, child]
        exact List.append_assoc ..
      · exact fun next => lt_of_mem_behind ordered inside high
      · cases grown : (leafInsert leaves key leaf dummyval fresh).newSibling with
        | none =>
            simp only [innerInsert, found, child, grown]
            constructor <;> simp [grown]
        | some new =>
            obtain ⟨added, isAdded⟩ : ∃ added : NewChild Key (Subtree Key 0),
              (⟨new, firstKey (leafInsert leaves key leaf dummyval fresh).leaves new,
                ((leafInsert leaves key leaf dummyval fresh).leaves new).numKeys == 1,
                firstKey (leafInsert leaves key leaf dummyval fresh).leaves new⟩ :
                NewChild Key (Subtree Key 0)) = added := ⟨_, rfl⟩
            obtain ⟨result, isResult⟩ : ∃ result, inner.addChild k added = result := ⟨_, rfl⟩
            simp only [innerInsert, found, child, grown, isAdded, isResult]
            refine ⟨rfl, rfl, rfl, by simp [grown], by simp [grown], ?_⟩
            rintro other isNew separated
            obtain rfl : new = other := Option.some.inj (grown.symm.trans isNew)
            have same :
                { inner with children := Function.update inner.children k leaf } = inner := by
              rw [← child, Function.update_eq_self]
            rw [← same] at isResult
            subst isAdded
            obtain ⟨joined, innerFits, siblingFits⟩ := addChild_spec fits inside
              (Ordered.pairs ordered) separated.low.le
              (fun more => by
                obtain ⟨next, member⟩ := @exists_fence _ _ inner lo k more
                exact WithBot.coe_lt_coe.mp (separated.high _ member))
              (fun alone => @last_of_flats_eq_nil _ _ inner lo k inside
                (separated.alone (by simpa using alone)))
              trivial trivial isResult
            refine ⟨?_, innerFits, ?_⟩
            · rw [joined]
              simp only [flat_zero, List.append_assoc, List.cons_append, List.nil_append]
            · intro sibling member
              obtain ⟨few, place, alone⟩ := siblingFits sibling member
              exact ⟨few, place, fun none => by simpa using alone none⟩
  | succ depth ih =>
      obtain ⟨k, found⟩ : ∃ k, Slots.scan inner.keys (fun separator => separator ≤ key)
        inner.numKeys = k := ⟨_, rfl⟩
      obtain ⟨inside, low, high⟩ := scan_spec reached found
      obtain ⟨child, isChild⟩ : ∃ child : InnerNode Key (Subtree Key depth),
        inner.children k = child := ⟨_, rfl⟩
      have around := @flat_around _ _ inner lo k inside
      have childOrdered : Ordered (flat (depth + 1) (inner.fence lo k) child) := by
        rw [around, isChild] at ordered
        exact (List.pairwise_append.mp (List.pairwise_append.mp ordered).1).2.1
      obtain ⟨before, fence, leaf, behind, located, below⟩ :=
        ih childOrdered low (isChild ▸ fits.2 k inside)
      refine ⟨flats (depth + 1) ((inner.pairs lo).take k) ++ before, fence, leaf,
        behind ++ flats (depth + 1) ((inner.pairs lo).drop (k + 1)), ⟨?_, located.reached, ?_⟩, ?_⟩
      · rw [around, isChild, located.split]
        simp only [List.append_assoc, List.cons_append]
      · intro next member
        rcases List.mem_append.mp member with inChild | beyond
        · exact located.ended next inChild
        · exact lt_of_mem_behind ordered inside high beyond
      · obtain ⟨deeper, isDeeper⟩ : ∃ deeper, innerInsert key dummyval fresh depth child leaves =
          deeper := ⟨_, rfl⟩
        rw [isDeeper] at below
        have within : ∀ {new}, Separated (leafInsert leaves key leaf dummyval fresh).leaves fence
            (behind ++ flats (depth + 1) ((inner.pairs lo).drop (k + 1))) new →
            Separated (leafInsert leaves key leaf dummyval fresh).leaves fence behind new :=
          fun separated => ⟨separated.low,
            fun next member => separated.high next (List.mem_append_left _ member),
            fun alone => (List.append_eq_nil_iff.mp (separated.alone alone)).1⟩
        cases grown : deeper.newSibling with
        | none =>
            simp only [innerInsert, found, isChild, isDeeper, grown]
            refine ⟨below.leaves_eq, below.val_eq, below.taken_eq, below.leafTaken_eq, ?_, ?_⟩
            · intro notSplit
              rw [(below.kept notSplit).1, ← isChild, Function.update_eq_self]
              exact ⟨rfl, rfl⟩
            · intro new isNew separated
              obtain ⟨joined, childFits, -⟩ := below.grown new isNew (within separated)
              rw [grown] at joined
              have one : flat (depth + 1) (inner.fence lo k) deeper.inner = _ :=
                (List.append_nil _).symm.trans joined
              refine ⟨(List.append_nil _).trans ((flat_update inside).trans ?_),
                fits_update fits inside childFits, by simp⟩
              rw [one]
              simp only [List.append_assoc, List.cons_append]
        | some sibling =>
            obtain ⟨newInner, upKey⟩ := sibling
            obtain ⟨added, isAdded⟩ : ∃ added : NewChild Key (Subtree Key (depth + 1)),
              (⟨newInner, newInner.keys (nodeKeys - 1), newInner.numKeys == 0, key⟩ :
                NewChild Key (Subtree Key (depth + 1))) = added := ⟨_, rfl⟩
            obtain ⟨result, isResult⟩ : ∃ result, InnerNode.addChild { inner with
              children := Function.update inner.children k deeper.inner } k added = result :=
              ⟨_, rfl⟩
            simp only [innerInsert, found, isChild, isDeeper, grown, isAdded, isResult]
            refine ⟨below.leaves_eq, below.val_eq, below.taken_eq, below.leafTaken_eq, ?_, ?_⟩
            · intro notSplit
              rw [(below.kept notSplit).2] at grown
              cases grown
            · intro new isNew separated
              obtain ⟨joined, childFits, siblings⟩ := below.grown new isNew (within separated)
              rw [grown] at joined
              obtain ⟨newFits, place, alone⟩ := siblings _ grown
              subst isAdded
              obtain ⟨all, innerFits, siblingFits⟩ := addChild_spec fits inside
                (Ordered.pairs ordered) low high
                (fun isAlone => @last_of_flats_eq_nil _ _ inner lo k inside
                  (List.append_eq_nil_iff.mp (separated.alone
                    (alone (by simpa using isAlone)))).2)
                childFits newFits isResult
              refine ⟨?_, innerFits, ?_⟩
              · have both : flat (depth + 1) (inner.fence lo k) deeper.inner ++
                    flat (depth + 1) upKey newInner = _ := joined
                have isKey : newInner.keys (nodeKeys - 1) = upKey := place
                rw [all, isKey, both]
                simp only [List.append_assoc, List.cons_append]
              · intro sibling member
                obtain ⟨few, last, isAlone⟩ := siblingFits sibling member
                exact ⟨few, last, fun none => alone (by simpa using isAlone none)⟩

end Inner

/-! ## Trees -/

section Trees

variable [Inhabited Key] {leaves : Leaves Key} {key : Key} {dummyval : NodeId} {fresh : LeafId}

/-- What an insertion into a tree with a root does. -/
structure InsertedIn (leaves : Leaves Key) (key : Key) (dummyval : NodeId) (fresh : LeafId)
    (root : (depth : Nat) × Subtree Key depth) (result : TreeInserted Key)
    (before : List (WithBot Key × LeafId)) (fence : WithBot Key) (leaf : LeafId)
    (behind : List (WithBot Key × LeafId)) : Prop where
  leaves_eq : result.tree.leaves = (leafInsert leaves key leaf dummyval fresh).leaves
  val_eq : result.val = (leafInsert leaves key leaf dummyval fresh).val
  taken_eq : result.taken = (leafInsert leaves key leaf dummyval fresh).taken
  leafTaken_eq :
    result.leafTaken = (leafInsert leaves key leaf dummyval fresh).newSibling.isSome
  kept : (leafInsert leaves key leaf dummyval fresh).newSibling = none →
    result.tree.root = some root
  grown : ∀ new ∈ (leafInsert leaves key leaf dummyval fresh).newSibling,
    Separated (leafInsert leaves key leaf dummyval fresh).leaves fence behind new →
    result.tree.flat = before ++ (fence, leaf) ::
        (((firstKey (leafInsert leaves key leaf dummyval fresh).leaves new : Key) :
          WithBot Key), new) :: behind ∧
      result.tree.Fits

theorem insertAt_spec {root : Subtree Key depth} (ordered : Ordered (flat depth ⊥ root))
    (fits : Fits depth root) :
    ∃ before fence leaf behind, Located (flat depth ⊥ root) key before fence leaf behind ∧
      InsertedIn leaves key dummyval fresh ⟨depth, root⟩
        (insertAt leaves key dummyval fresh depth root) before fence leaf behind := by
  cases depth with
  | zero =>
      obtain ⟨leaf, isLeaf⟩ : ∃ leaf : LeafId, leaf = root := ⟨root, rfl⟩
      subst isLeaf
      refine ⟨[], ⊥, leaf, [], ⟨rfl, bot_le, by simp⟩, ?_⟩
      cases grown : (leafInsert leaves key leaf dummyval fresh).newSibling with
      | none =>
          simp only [insertAt, grown]
          exact ⟨rfl, rfl, rfl, by simp [grown], fun _ => rfl, by simp [grown]⟩
      | some new =>
          simp only [insertAt, grown]
          refine ⟨rfl, rfl, rfl, by simp [grown], by simp [grown], ?_⟩
          rintro other isNew separated
          obtain rfl : new = other := Option.some.inj (grown.symm.trans isNew)
          refine ⟨?_, fits_newRoot trivial trivial⟩
          exact (flat_newRoot _ _ _).trans (by simp)
  | succ depth =>
      obtain ⟨inner, isInner⟩ : ∃ inner : InnerNode Key (Subtree Key depth), inner = root :=
        ⟨root, rfl⟩
      subst isInner
      obtain ⟨before, fence, leaf, behind, located, below⟩ :=
        @innerInsert_spec _ _ _ _ leaves key dummyval fresh _ _ ordered bot_le fits
      refine ⟨before, fence, leaf, behind, located, ?_⟩
      obtain ⟨result, isResult⟩ : ∃ result, innerInsert key dummyval fresh depth inner leaves =
        result := ⟨_, rfl⟩
      rw [isResult] at below
      cases grown : result.newSibling with
      | none =>
          simp only [insertAt, isResult, grown]
          refine ⟨below.leaves_eq, below.val_eq, below.taken_eq, below.leafTaken_eq, ?_, ?_⟩
          · intro notSplit
            rw [(below.kept notSplit).1]
          · intro new isNew separated
            obtain ⟨joined, innerFits, -⟩ := below.grown new isNew separated
            rw [grown] at joined
            exact ⟨(List.append_nil _).symm.trans joined, innerFits⟩
      | some sibling =>
          obtain ⟨right, upKey⟩ := sibling
          simp only [insertAt, isResult, grown]
          refine ⟨below.leaves_eq, below.val_eq, below.taken_eq, below.leafTaken_eq, ?_, ?_⟩
          · intro notSplit
            rw [(below.kept notSplit).2] at grown
            cases grown
          · intro new isNew separated
            obtain ⟨joined, innerFits, siblingFits⟩ := below.grown new isNew separated
            rw [grown] at joined
            exact ⟨(flat_newRoot _ _ _).trans joined,
              fits_newRoot innerFits (siblingFits _ grown).1⟩

end Trees

end Rocc.Memstore.BPlusTree
