import Rocc.Memstore.BPlusTree.Iterator
import Rocc.Memstore.MemstoreBPlusTree
import Rocc.Memstore.MemstoreUint64BPlusTree

/-!
# `SeekPrev`

Both trees look for the predecessor of a key in the leaf that `FindLeaf` returns and in its
left neighbour.  Neither search takes the key and the value from the entry it ends at, the
first one does not take the index either, and without a left neighbour there is no result.
-/

namespace Rocc.Memstore.BPlusTree

open Fences

section Generic

variable {Key : Type} [LinearOrder Key]

/-- `SeekPrev` in a tree; the test says where `FindLeaf` goes to the right. -/
def Tree.seekPrev (tree : Tree Key) (goRight : Key → Bool) (iterator : Iterator Key) (key : Key) :
    Option (Iterator Key) :=
  (tree.findLeaf goRight).bind fun leaf => iterator.seekPrev tree.leaves leaf key

/-- The iterator is at the greatest key below the given one, by its index, its key and its
record, or invalid if there is none. -/
def Iterator.AtPredecessor (iterator : Iterator Key) (tree : Tree Key) (key : Key) : Prop :=
  (∃ leaf ∈ tree.flat.map Prod.snd, iterator.node = some leaf ∧
      iterator.valid tree.leaves = true ∧ 0 ≤ iterator.leafIndex ∧
      iterator.leafIndex.toNat < (tree.leaves leaf).numKeys ∧
      (tree.leaves leaf).entries iterator.leafIndex.toNat = (iterator.key, iterator.value) ∧
      IsLast tree.contents key (iterator.key, iterator.value)) ∨
    iterator.valid tree.leaves = false ∧ ∀ entry ∈ tree.contents, ¬entry.1 < key

/-- The iterator has had the key and the record of the predecessor before, and its index too
if the leaf that `FindLeaf` returns has a smaller key. -/
def Iterator.HasPredecessor (iterator : Iterator Key) (tree : Tree Key) (goRight : Key → Bool)
    (key : Key) : Prop :=
  IsLast tree.contents key (iterator.key, iterator.value) ∧
    ∀ leaf, tree.findLeaf goRight = some leaf → 0 < (tree.leaves leaf).slotOf key →
      iterator.leafIndex = ((tree.leaves leaf).slotOf key : Int) - 1

variable {tree : Tree Key} {goRight : Key → Bool} {key : Key}

/-- Where the predecessor is. -/
theorem Tree.WellFormed.predecessor (wellFormed : tree.WellFormed) (rooted : tree.root ≠ none)
    (right : ∀ separator, goRight separator = true → separator ≤ key)
    (left : ∀ separator, goRight separator = false → key ≤ separator) :
    ∃ leaf ∈ tree.flat.map Prod.snd, tree.findLeaf goRight = some leaf ∧
      ((0 < (tree.leaves leaf).slotOf key ∧
          IsLast tree.contents key
            ((tree.leaves leaf).entries ((tree.leaves leaf).slotOf key - 1))) ∨
        ((tree.leaves leaf).slotOf key = 0 ∧ (tree.leaves leaf).left = none ∧
          ∀ entry ∈ tree.contents, ¬entry.1 < key) ∨
        ∃ last ∈ tree.flat.map Prod.snd, (tree.leaves leaf).slotOf key = 0 ∧
          (tree.leaves leaf).left = some last ∧ 0 < (tree.leaves last).numKeys ∧
          IsLast tree.contents key
            ((tree.leaves last).entries ((tree.leaves last).numKeys - 1))) := by
  obtain ⟨before, fence, leaf, behind, descended, split, reached, ended⟩ :=
    @Tree.WellFormed.findLeaf _ _ tree wellFormed rooted goRight
      (fun fence => fence ≤ key) (fun fence => (key : WithBot Key) ≤ fence)
      (fun separator passed => WithBot.coe_le_coe.mpr (right separator passed))
      (fun separator failed => WithBot.coe_le_coe.mpr (left separator failed))
      (fun one two above less => above.trans less.le) bot_le
  have chained := wellFormed.chained
  rw [split] at chained
  have sorted := chained.fenced.contents_ascending
  have isContents : tree.contents =
      Fences.contents (entriesIn tree.leaves) (before ++ (fence, leaf) :: behind) := by
    rw [Tree.contents, split]
  have behindAbove : ∀ entry ∈ Fences.contents (entriesIn tree.leaves) behind, key ≤ entry.1 :=
    fun entry member => chained.fenced.le_of_mem_behind ended member
  refine ⟨leaf, by simp [split], descended, ?_⟩
  rw [isContents]
  by_cases some : 0 < (tree.leaves leaf).slotOf key
  · left
    obtain ⟨slot, isSlot⟩ := Nat.exists_eq_add_one_of_ne_zero some.ne'
    have inside : slot < (tree.leaves leaf).numKeys := by
      have few := @LeafNode.slotOf_le _ _ (tree.leaves leaf) key
      omega
    refine ⟨some, ?_⟩
    rw [isSlot, Nat.add_sub_cancel]
    refine .of_split sorted (contents_at inside) ?_ ?_
    · apply @LeafNode.lt_of_mem_take _ _ (tree.leaves leaf) key
      rw [isSlot]
      exact List.mem_take_iff_getElem.mpr
        ⟨slot, by simpa using inside, Slots.getElem_list _⟩
    · intro other member
      rcases List.mem_append.mp member with here | inBehind
      · exact LeafNode.le_of_mem_drop chained.ascending (isSlot ▸ here)
      · exact behindAbove other inBehind
  · right
    have none : (tree.leaves leaf).slotOf key = 0 := Nat.eq_zero_of_not_pos some
    have leafAbove : ∀ entry ∈ (tree.leaves leaf).list, key ≤ entry.1 := by
      intro entry member
      apply LeafNode.le_of_mem_drop chained.ascending
      rwa [none, List.drop_zero]
    rcases chained.left_spec with ⟨isNone, rfl⟩ | ⟨rest, lastFence, last, rfl, isLeft, keys⟩
    · left
      refine ⟨none, isNone, fun entry member => ?_⟩
      rw [List.nil_append, contents_cons] at member
      rcases List.mem_append.mp member with here | inBehind
      · exact (leafAbove entry here).not_gt
      · exact (behindAbove entry inBehind).not_gt
    · right
      refine ⟨last, by simp [split], none, isLeft, keys, ?_⟩
      obtain ⟨index, count⟩ := Nat.exists_eq_add_one_of_ne_zero keys.ne'
      have inside : index < (tree.leaves last).numKeys := by omega
      rw [count, Nat.add_sub_cancel]
      rw [List.append_assoc, List.singleton_append] at sorted ⊢
      refine .of_split sorted (contents_at inside) ?_ ?_
      · apply chained.fenced.lt_of_mem_before reached
        rw [contents_append]
        refine List.mem_append_right _ ?_
        rw [contents_cons]
        exact List.mem_append_left _ (Slots.mem_list.mpr ⟨index, inside, rfl⟩)
      · rw [List.drop_of_length_le (by simp [count]), List.nil_append, contents_cons]
        intro other member
        rcases List.mem_append.mp member with here | inBehind
        · exact leafAbove other here
        · exact behindAbove other inBehind

/-- `SeekPrev` is at the predecessor exactly if it need not take anything from it. -/
theorem Tree.WellFormed.seekPrev_at_iff (wellFormed : tree.WellFormed)
    (right : ∀ separator, goRight separator = true → separator ≤ key)
    (left : ∀ separator, goRight separator = false → key ≤ separator) (iterator : Iterator Key) :
    (∃ found, tree.seekPrev goRight iterator key = some found ∧ found.AtPredecessor tree key) ↔
      iterator.HasPredecessor tree goRight key := by
  by_cases rootless : tree.root = none
  · have nowhere : tree.findLeaf goRight = none := by rw [Tree.findLeaf, rootless, Option.map_none]
    constructor
    · rintro ⟨found, isFound, -⟩
      rw [Tree.seekPrev, nowhere] at isFound
      cases isFound
    · rintro ⟨last, -⟩
      exact absurd rootless (rooted_of_mem last.member)
  · have sorted := wellFormed.contents_ascending
    obtain ⟨leaf, inTree, descended, cases⟩ := wellFormed.predecessor rootless right left
    have isSeek : tree.seekPrev goRight iterator key =
        iterator.seekPrev tree.leaves leaf key := by
      rw [Tree.seekPrev, descended, Option.bind_some]
    rw [isSeek]
    rcases cases with ⟨some, last⟩ | ⟨none, isLeft, absent⟩ |
      ⟨other, inTree', none, isLeft, keys, last⟩
    · have inside : (tree.leaves leaf).slotOf key - 1 < (tree.leaves leaf).numKeys := by
        have few := @LeafNode.slotOf_le _ _ (tree.leaves leaf) key
        omega
      have keys : 0 < (tree.leaves leaf).numKeys := Nat.zero_lt_of_lt inside
      rw [Iterator.seekPrev, if_neg some.ne']
      constructor
      · rintro ⟨found, ⟨⟩, ⟨other, -, ⟨⟩, -, low, bound, entry, last'⟩ | ⟨invalid, -⟩⟩
        · refine ⟨last', fun other isLeaf _ => ?_⟩
          obtain rfl : leaf = other := Option.some.inj (descended.symm.trans isLeaf)
          have same := (congrArg Prod.fst entry).trans
            (congrArg Prod.fst (last'.unique sorted last))
          have place := LeafNode.place_unique (wellFormed.ascending inTree) bound inside same
          simp only at place low
          omega
        · simp [Iterator.valid, keys] at invalid
      · rintro ⟨last', index⟩
        have place := index leaf descended some
        have isPlace : iterator.leafIndex.toNat = (tree.leaves leaf).slotOf key - 1 := by omega
        refine ⟨_, rfl, .inl ⟨leaf, inTree, rfl, ?_, ?_, ?_, ?_, last'⟩⟩
        · simpa [Iterator.valid] using keys
        · simp only
          omega
        · rwa [isPlace]
        · rw [isPlace]
          exact last.unique sorted last'
    · rw [Iterator.seekPrev, if_pos none, isLeft, Option.map_none]
      constructor
      · rintro ⟨found, ⟨⟩, -⟩
      · rintro ⟨last, -⟩
        exact absurd last.below (absent _ last.member)
    · rw [Iterator.seekPrev, if_pos none, isLeft, Option.map_some]
      have isPlace : (((tree.leaves other).numKeys : Int) - 1).toNat =
          (tree.leaves other).numKeys - 1 := by omega
      constructor
      · rintro ⟨found, ⟨⟩, ⟨-, -, -, -, -, -, -, last'⟩ | ⟨invalid, -⟩⟩
        · refine ⟨last', fun other isLeaf some => ?_⟩
          obtain rfl : leaf = other := Option.some.inj (descended.symm.trans isLeaf)
          exact absurd none some.ne'
        · simp [Iterator.valid, keys] at invalid
      · rintro ⟨last', -⟩
        refine ⟨_, rfl, .inl ⟨other, inTree', rfl, ?_, ?_, ?_, ?_, last'⟩⟩
        · simpa [Iterator.valid] using keys
        · simp only
          omega
        · rw [isPlace]
          omega
        · rw [isPlace]
          exact last.unique sorted last'

end Generic

end Rocc.Memstore.BPlusTree

/-! ## The two trees -/

namespace Rocc.Memstore

open BPlusTree Fences

/-- `SeekPrev` over `MemstoreBPlusTree`. -/
def MemstoreBPlusTree.seekPrev (tree : BPlusTree.Tree MemstoreBPlusTree.Key)
    (iterator : Iterator MemstoreBPlusTree.Key) (key : MemstoreBPlusTree.Key) :
    Option (Iterator MemstoreBPlusTree.Key) :=
  tree.seekPrev (fun separator => separator ≤ key) iterator key

/-- `SeekPrev` over `MemstoreUint64BPlusTree`. -/
def MemstoreUint64BPlusTree.seekPrev {length : Nat}
    (tree : BPlusTree.Tree (MemstoreUint64BPlusTree.Key length))
    (iterator : Iterator (MemstoreUint64BPlusTree.Key length))
    (key : MemstoreUint64BPlusTree.Key length) :
    Option (Iterator (MemstoreUint64BPlusTree.Key length)) :=
  tree.seekPrev (fun separator => separator < key) iterator key

/-- In a well-formed tree of either kind `SeekPrev` is at the predecessor exactly if there is
one and the iterator had its key, its record and, where needed, its index before. -/
theorem seekPrev_iff (length : Nat) :
    (∀ tree : BPlusTree.Tree MemstoreBPlusTree.Key, tree.WellFormed → ∀ iterator key,
      (∃ found, MemstoreBPlusTree.seekPrev tree iterator key = some found ∧
          found.AtPredecessor tree key) ↔
        iterator.HasPredecessor tree (fun separator => separator ≤ key) key) ∧
    ∀ tree : BPlusTree.Tree (MemstoreUint64BPlusTree.Key length), tree.WellFormed →
      ∀ iterator key, (∃ found, MemstoreUint64BPlusTree.seekPrev tree iterator key = some found ∧
          found.AtPredecessor tree key) ↔
        iterator.HasPredecessor tree (fun separator => separator < key) key := by
  constructor
  · intro tree wellFormed iterator key
    refine wellFormed.seekPrev_at_iff (fun separator passed => by simpa using passed) ?_ iterator
    intro separator failed
    exact le_of_lt (by simpa using failed)
  · intro tree wellFormed iterator key
    refine wellFormed.seekPrev_at_iff ?_ (fun separator failed => by simpa using failed) iterator
    intro separator passed
    exact le_of_lt (by simpa using passed)

/-- The store after one insertion. -/
def oneKeyStore : MemstoreBPlusTree.Store (Fin 1) :=
  (MemstoreBPlusTree.Store.init.run [⟨0, ⟨5, by decide⟩, .put none⟩]).1

theorem oneKeyStore_wellFormed : oneKeyStore.tree.WellFormed :=
  (MemstoreBPlusTree.Store.inv_init.run _).1.wellFormed

/-- An iterator over it that has been on its key, and the empty tree. -/
theorem seekPrev_iff_oneKey :
    (∃ found, MemstoreBPlusTree.seekPrev oneKeyStore.tree
        ⟨none, 0, 0, none, 0, ⟨5, by decide⟩, 0⟩ ⟨7, by decide⟩ = some found ∧
        found.AtPredecessor oneKeyStore.tree ⟨7, by decide⟩) ∧
      ∀ iterator key, ¬∃ found, MemstoreUint64BPlusTree.seekPrev
        (MemstoreUint64BPlusTree.Store.init : MemstoreUint64BPlusTree.Store (Fin 1) 1).tree
        iterator key = some found ∧ found.AtPredecessor
          (MemstoreUint64BPlusTree.Store.init : MemstoreUint64BPlusTree.Store (Fin 1) 1).tree
          key := by
  constructor
  · refine ((seekPrev_iff 1).1 oneKeyStore.tree oneKeyStore_wellFormed _ _).mpr ⟨⟨?_, ?_, ?_⟩, ?_⟩
    · decide +kernel
    · decide
    · decide +kernel
    · decide +kernel
  · intro iterator key
    rw [(seekPrev_iff 1).2 _ MemstoreUint64BPlusTree.Store.inv_init.wellFormed]
    rintro ⟨last, -⟩
    cases last.member

/-- The key of an iterator that has not been anywhere is not the predecessor. -/
theorem not_seekPrev : ¬ ∀ tree : BPlusTree.Tree MemstoreBPlusTree.Key, tree.WellFormed →
    ∀ iterator key, ∃ found, MemstoreBPlusTree.seekPrev tree iterator key = some found ∧
      found.AtPredecessor tree key := by
  intro always
  have found := always oneKeyStore.tree oneKeyStore_wellFormed
    ⟨none, 0, 0, none, 0, ⟨0, by decide⟩, 0⟩ ⟨7, by decide⟩
  have predecessor := (oneKeyStore_wellFormed.seekPrev_at_iff
    (fun separator passed => by simpa using passed)
    (fun separator failed => le_of_lt (by simpa using failed)) _).mp found
  have absent : (⟨0, by decide⟩, 0) ∉ oneKeyStore.tree.contents := by decide +kernel
  exact absent predecessor.1.member

end Rocc.Memstore
