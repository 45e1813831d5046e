import Rocc.Memstore.BPlusTree.Invariant

/-!
# Nodes of a B+ tree between their separators

What the order of the leaves says about the single nodes: their keys increase, and the
keys of a child, its separators included, lie between the separators around it.
-/

namespace Rocc.Memstore.BPlusTree

open Fences

variable {Key : Type}

/-- All keys of a subtree, those of the inner nodes included. -/
def keysBelow (leaves : Leaves Key) : (depth : Nat) → Subtree Key depth → List Key
  | 0, (leaf : LeafId) => (leaves leaf).list.map Prod.fst
  | depth + 1, (inner : InnerNode Key (Subtree Key depth)) =>
      Slots.list inner.keys inner.numKeys ++
        (Slots.list inner.children (inner.numKeys + 1)).flatMap (keysBelow leaves depth)

variable [LinearOrder Key]

/-- The keys of every node of a subtree increase and fit in it, and those of its children are
between the separators. -/
def Sorted (leaves : Leaves Key) : (depth : Nat) → Subtree Key depth → Prop
  | 0, (leaf : LeafId) => (leaves leaf).numKeys ≤ nodeKeys ∧
      ((leaves leaf).list.map Prod.fst).Pairwise (· < ·)
  | depth + 1, (inner : InnerNode Key (Subtree Key depth)) => inner.numKeys ≤ nodeKeys ∧
      (Slots.list inner.keys inner.numKeys).Pairwise (· < ·) ∧
      ∀ index ≤ inner.numKeys, Sorted leaves depth (inner.children index) ∧
        ∀ key ∈ keysBelow leaves depth (inner.children index),
          (∀ low, index = low + 1 → inner.keys low ≤ key) ∧
          (index < inner.numKeys → key < inner.keys index)

section Bounds

variable {leaves : Leaves Key} {depth : Nat} {lo : WithBot Key}

/-- No fence of a subtree is below its lower bound. -/
theorem le_fence {node : Subtree Key depth} (ordered : Ordered (flat depth lo node))
    {block : WithBot Key × LeafId} (member : block ∈ flat depth lo node) : lo ≤ block.1 := by
  obtain ⟨leaf, rest, first⟩ := flat_eq_cons node
  rw [first] at ordered member
  rcases List.mem_cons.mp member with rfl | later
  · exact le_rfl
  · exact ((List.pairwise_cons.mp ordered).1 block later).le

/-- The keys of a subtree are between its lower bound and the fences behind it. -/
theorem keysBelow_between {node : Subtree Key depth} {behind : List (WithBot Key × LeafId)}
    (fenced : Fenced (entriesIn leaves) (flat depth lo node ++ behind)) {key : Key}
    (member : key ∈ keysBelow leaves depth node) :
    lo ≤ key ∧ ∀ next ∈ behind, (key : WithBot Key) < next.1 := by
  induction depth generalizing lo behind with
  | zero =>
      obtain ⟨entry, inLeaf, rfl⟩ := List.mem_map.mp member
      obtain ⟨leaf, isLeaf⟩ : ∃ leaf : LeafId, leaf = node := ⟨node, rfl⟩
      subst isLeaf
      refine ⟨fenced.above (lo, leaf) List.mem_cons_self entry inLeaf, fun next inBehind => ?_⟩
      exact ((List.pairwise_cons.mp fenced.order).1 next inBehind).2 entry inLeaf
  | succ depth ih =>
      obtain ⟨inner, isInner⟩ : ∃ inner : InnerNode Key (Subtree Key depth), inner = node :=
        ⟨node, rfl⟩
      subst isInner
      have ordered : Ordered (flat (depth + 1) lo inner) :=
        (List.pairwise_append.mp (fenced.order.imp fun across => across.1)).1
      rcases List.mem_append.mp member with separator | inChild
      · obtain ⟨k, more, rfl⟩ := Slots.mem_list.mp separator
        obtain ⟨leaf, inRest⟩ := @exists_fence _ _ inner lo k more
        have inFlat : ((inner.keys k : WithBot Key), leaf) ∈ flat (depth + 1) lo inner := by
          rw [flat_around more.le]
          exact List.mem_append_right _ inRest
        exact ⟨le_fence ordered inFlat, fun next inBehind =>
          ((List.pairwise_append.mp fenced.order).2.2 _ inFlat next inBehind).1⟩
      · obtain ⟨child, isChild, inChild⟩ := List.mem_flatMap.mp inChild
        obtain ⟨k, inside, rfl⟩ := Slots.mem_list.mp isChild
        have around := @flat_around _ _ inner lo k (Nat.le_of_lt_succ inside)
        have suffix : (flat depth (inner.fence lo k) (inner.children k) ++
            (flats depth ((inner.pairs lo).drop (k + 1)) ++ behind)).Sublist
            (flat (depth + 1) lo inner ++ behind) := by
          rw [around, List.append_assoc, List.append_assoc]
          exact List.sublist_append_right _ _
        obtain ⟨low, high⟩ := ih (fenced.sublist suffix) inChild
        obtain ⟨leaf, rest, first⟩ := flat_eq_cons (inner.children k)
        have inFlat : (inner.fence lo k, leaf) ∈ flat (depth + 1) lo inner := by
          rw [around, first]
          simp
        exact ⟨(le_fence ordered inFlat).trans low,
          fun next inBehind => high next (List.mem_append_right _ inBehind)⟩

theorem sorted_of_fenced {node : Subtree Key depth}
    (fenced : Fenced (entriesIn leaves) (flat depth lo node)) (fits : Fits depth node)
    (room : ∀ block ∈ flat depth lo node, (leaves block.2).numKeys ≤ nodeKeys) :
    Sorted leaves depth node := by
  induction depth generalizing lo with
  | zero =>
      obtain ⟨leaf, isLeaf⟩ : ∃ leaf : LeafId, leaf = node := ⟨node, rfl⟩
      subst isLeaf
      exact ⟨room (lo, leaf) List.mem_cons_self,
        List.pairwise_map.mpr (fenced.ascending (lo, leaf) List.mem_cons_self)⟩
  | succ depth ih =>
      obtain ⟨inner, isInner⟩ : ∃ inner : InnerNode Key (Subtree Key depth), inner = node :=
        ⟨node, rfl⟩
      subst isInner
      have ordered : Ordered (flat (depth + 1) lo inner) :=
        fenced.order.imp fun across => across.1
      refine ⟨fits.1, ?_, fun k inside => ?_⟩
      · rw [List.pairwise_iff_getElem]
        intro low high _ inside before
        rw [Slots.getElem_list, Slots.getElem_list]
        exact keys_lt (Ordered.pairs ordered) before (by simpa using inside)
      · have around := @flat_around _ _ inner lo k inside
        have fencedFrom : Fenced (entriesIn leaves) (flat depth (inner.fence lo k)
            (inner.children k) ++ flats depth ((inner.pairs lo).drop (k + 1))) := by
          apply fenced.sublist
          rw [around, List.append_assoc]
          exact List.sublist_append_right _ _
        constructor
        · refine ih (fencedFrom.sublist (List.sublist_append_left _ _)) (fits.2 k inside) ?_
          intro block member
          apply room block
          rw [around]
          exact List.mem_append_left _ (List.mem_append_right _ member)
        · intro key member
          obtain ⟨low, high⟩ := keysBelow_between fencedFrom member
          refine ⟨?_, fun more => ?_⟩
          · rintro last rfl
            exact WithBot.coe_le_coe.mp low
          · obtain ⟨leaf, next⟩ := @exists_fence _ _ inner lo k more
            exact WithBot.coe_lt_coe.mp (high _ next)

omit [LinearOrder Key] in
/-- The leftmost leaf. -/
theorem head?_leavesBelow (node : Subtree Key depth) :
    (leavesBelow depth node).head? = some (descend (fun _ => false) depth node) := by
  induction depth with
  | zero => rfl
  | succ depth ih =>
      obtain ⟨inner, isInner⟩ : ∃ inner : InnerNode Key (Subtree Key depth), inner = node :=
        ⟨node, rfl⟩
      subst isInner
      have first : Slots.scan inner.keys (fun _ => false) inner.numKeys = 0 := by
        rw [Slots.scan_eq]
        cases Slots.list inner.keys inner.numKeys <;> rfl
      simp only [leavesBelow, descend, first]
      rw [Slots.list_succ_cons, List.flatMap_cons, List.head?_append, ih, Option.some_or]

end Bounds

/-- What a reader of the tree relies on: the nodes are sorted, every leaf is as many levels
below the root, and the chain leads through the leaves from left to right and lists the keys
in order. -/
structure Tree.IsSorted (tree : Tree Key) (depth : Nat) (root : Subtree Key depth)
    (keys : List Key) : Prop where
  root_eq : tree.root = some ⟨depth, root⟩
  sorted : Sorted tree.leaves depth root
  chain : IsChain (fun leaf => (tree.leaves leaf).right) (fun leaf => (tree.leaves leaf).left)
    (some (descend (fun _ => false) depth root)) (leavesBelow depth root)
  keys_eq : (leavesBelow depth root).flatMap
    (fun leaf => (tree.leaves leaf).list.map Prod.fst) = keys
  increasing : keys.Pairwise (· < ·)

theorem Tree.WellFormed.isSorted {tree : Tree Key} (wellFormed : tree.WellFormed)
    (rooted : tree.root ≠ none) :
    ∃ depth root, tree.IsSorted depth root (tree.contents.map Prod.fst) := by
  obtain ⟨⟨depth, root⟩, isRoot⟩ := Option.ne_none_iff_exists'.mp rooted
  have flat : tree.flat = BPlusTree.flat depth ⊥ root := by rw [Tree.flat, isRoot]
  have fits : BPlusTree.Fits depth root := by
    have fits := wellFormed.fits
    rwa [Tree.Fits, isRoot] at fits
  have chained := wellFormed.chained
  rw [flat] at chained
  have linked := chained.chain
  rw [map_flat, head?_leavesBelow] at linked
  refine ⟨depth, root, isRoot, sorted_of_fenced chained.fenced fits chained.room, linked, ?_, ?_⟩
  · rw [contents, flat, Fences.contents, ← @map_flat _ _ ⊥ root, List.flatMap_map, List.map_flatMap]
  · exact List.pairwise_map.mpr wellFormed.contents_ascending

end Rocc.Memstore.BPlusTree
