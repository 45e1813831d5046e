import Rocc.Memstore.BPlusTree.Delete

/-!
# Well-formed B+ trees after a deletion

A leaf that keeps some entry stays on the chain, and an empty one leaves it.  Either way the
tree stays well-formed and has lost one entry.
-/

namespace Rocc.Memstore.BPlusTree

open Fences Rtx

variable {Key : Type}

/-! ## The leaf -/

/-- The entry in the slot goes. -/
theorem list_removeEntry {leaf : LeafNode Key} {slot : Nat} (inside : slot < leaf.numKeys) :
    (leaf.removeEntry slot).list = leaf.list.eraseIdx slot := by
  obtain ⟨left, count⟩ : ∃ left, leaf.numKeys = left + 1 := ⟨leaf.numKeys - 1, by omega⟩
  have closed := @Slots.list_closeUp _ leaf.entries left slot (by omega)
  rw [List.eraseIdx_eq_take_drop_succ, LeafNode.list, LeafNode.list, LeafNode.removeEntry]
  simp only [count, Nat.add_sub_cancel]
  by_cases last : slot = left
  · rw [if_pos last, last, Slots.list_of_le (Nat.le_succ left),
      List.drop_of_length_le (by simp), List.append_nil]
  · rw [if_neg last, closed]

section Unlink

variable {leaves : Leaves Key} {leaf other : LeafId} {left right : Option LeafId}

/-- Only the link to the right changes. -/
theorem linkOn_eq : ∃ link, linkOn leaves left right leaf = { leaves leaf with right := link } := by
  cases left with
  | none => exact ⟨_, rfl⟩
  | some node =>
      by_cases same : leaf = node
      · subst same
        exact ⟨right, by simp [linkOn]⟩
      · exact ⟨_, Function.update_of_ne same _ _⟩

theorem linkOn_right : (linkOn leaves left right leaf).right =
    match left with
    | some node => Function.update (fun leaf => (leaves leaf).right) node right leaf
    | none => (leaves leaf).right := by
  cases left with
  | none => rfl
  | some node =>
      by_cases same : leaf = node
      · subst same
        simp [linkOn]
      · simp [linkOn, same]

theorem linkOn_left : (linkOn leaves left right leaf).left = (leaves leaf).left := by
  obtain ⟨link, same⟩ := @linkOn_eq _ leaves leaf left right
  rw [same]

/-- Other leaves keep all but their links. -/
theorem unlink_eq : ∃ left right,
    unlink leaves leaf other = { leaves other with left := left, right := right } := by
  obtain ⟨onward, isOnward⟩ :=
    @linkOn_eq _ leaves other (leaves leaf).left (leaves leaf).right
  obtain ⟨backward, isBackward⟩ := @linkBack_eq _
    (linkOn leaves (leaves leaf).left (leaves leaf).right) (leaves leaf).right (leaves leaf).left
    other
  exact ⟨backward, onward, by rw [unlink, isBackward, isOnward]⟩

end Unlink

variable [LinearOrder Key]

section LeafDelete

variable {leaves : Leaves Key} {key : Key} {leaf : LeafId}

theorem leafDelete_none (absent : (leaves leaf).slotOf key = (leaves leaf).numKeys) :
    leafDelete leaves key leaf = none := by
  simp only [leafDelete, if_pos absent]

/-- The leaf keeps some entry. -/
theorem leafDelete_kept (inside : (leaves leaf).slotOf key < (leaves leaf).numKeys)
    (more : (leaves leaf).numKeys ≠ 1) :
    ∃ res, leafDelete leaves key leaf =
        some (Function.update leaves leaf ((leaves leaf).removeEntry ((leaves leaf).slotOf key)),
          res) ∧
      res.value = ((leaves leaf).entries ((leaves leaf).slotOf key)).2 ∧ res.freeNode = false ∧
      ∀ upKey, res.upKey = some upKey → (leaves leaf).slotOf key = 0 ∧
        upKey = (((leaves leaf).removeEntry ((leaves leaf).slotOf key)).entries 0).1 := by
  have some : ((leaves leaf).removeEntry ((leaves leaf).slotOf key)).numKeys ≠ 0 := by
    change (leaves leaf).numKeys - 1 ≠ 0
    omega
  let upKey := if (leaves leaf).slotOf key = 0 then
    Option.some (((leaves leaf).removeEntry ((leaves leaf).slotOf key)).entries 0).1 else none
  refine ⟨⟨((leaves leaf).entries ((leaves leaf).slotOf key)).2, false, upKey⟩, ?_, rfl, rfl, ?_⟩
  · simp only [leafDelete, if_neg inside.ne, if_neg some]
    rfl
  · intro upKey isKey
    by_cases isFirst : (leaves leaf).slotOf key = 0
    · exact ⟨isFirst, (Option.some.inj ((if_pos isFirst).symm.trans isKey)).symm⟩
    · exact absurd ((if_neg isFirst).symm.trans isKey) (by simp)

/-- The leaf is empty now. -/
theorem leafDelete_freed (inside : (leaves leaf).slotOf key < (leaves leaf).numKeys)
    (alone : (leaves leaf).numKeys = 1) :
    leafDelete leaves key leaf =
      some (unlink (Function.update leaves leaf
          ((leaves leaf).removeEntry ((leaves leaf).slotOf key))) leaf,
        ⟨((leaves leaf).entries ((leaves leaf).slotOf key)).2, true, none⟩) := by
  have none : ((leaves leaf).removeEntry ((leaves leaf).slotOf key)).numKeys = 0 := by
    change (leaves leaf).numKeys - 1 = 0
    omega
  simp only [leafDelete, if_neg inside.ne, if_pos none]

end LeafDelete

/-! ## The chain -/

namespace Chained

variable {leaves : Leaves Key} {before behind : List (WithBot Key × LeafId)}
variable {fence : WithBot Key} {leaf : LeafId} {removed : LeafNode Key}

/-- Other entries are not touched. -/
theorem entriesIn_other (chained : Chained leaves (before ++ (fence, leaf) :: behind))
    {block : WithBot Key × LeafId} (member : block ∈ before ++ behind) :
    entriesIn (Function.update leaves leaf removed) block.2 = entriesIn leaves block.2 := by
  rw [entriesIn, Function.update_of_ne (chained.other_ne member)]

omit [LinearOrder Key] in
theorem mem_other {raised : WithBot Key} {block : WithBot Key × LeafId}
    (member : block ∈ before ++ (raised, leaf) :: behind) (other : block.2 ≠ leaf) :
    block ∈ before ++ (fence, leaf) :: behind := by
  rcases List.mem_append.mp member with inBefore | inRest
  · exact List.mem_append_left _ inBefore
  · rcases List.mem_cons.mp inRest with rfl | inBehind
    · exact absurd rfl other
    · exact List.mem_append_right _ (List.mem_cons_of_mem _ inBehind)

theorem erase_kept (chained : Chained leaves (before ++ (fence, leaf) :: behind))
    (fewer : removed.list.Sublist (leaves leaf).list) (some : removed.numKeys ≠ 0)
    (left : removed.left = (leaves leaf).left) (right : removed.right = (leaves leaf).right)
    {raised : WithBot Key} (low : fence ≤ raised)
    (above : ∀ entry ∈ removed.list, raised ≤ entry.1) :
    Chained (Function.update leaves leaf removed) (before ++ (raised, leaf) :: behind) := by
  have here : entriesIn (Function.update leaves leaf removed) leaf = removed.list := by
    rw [entriesIn, Function.update_self]
  constructor
  · apply chained.fenced.shrink (fun block member => chained.entriesIn_other member)
    · rwa [here]
    · rw [here]
      exact List.ne_nil_of_length_pos (by rw [LeafNode.length_list]; omega)
    · exact low
    · rwa [here]
  · have chain := chained.chain
    rw [List.map_append, List.map_cons] at chain ⊢
    rw [update_link (·.right) right, update_link (·.left) left]
    exact chain
  · have fewKeys : removed.numKeys ≤ (leaves leaf).numKeys := by
      simpa using fewer.length_le
    intro block member
    by_cases isLeaf : block.2 = leaf
    · rw [isLeaf, Function.update_self]
      exact fewKeys.trans (chained.room (fence, leaf) (by simp))
    · rw [Function.update_of_ne isLeaf]
      exact chained.room block (mem_other member isLeaf)
  · intro block member empty
    by_cases isLeaf : block.2 = leaf
    · rw [isLeaf, Function.update_self] at empty
      exact absurd empty some
    · rw [Function.update_of_ne isLeaf] at empty
      have alone := chained.filled block (mem_other member isLeaf) empty
      have isBlock : (fence, leaf) ∈ [block] := alone ▸ by simp
      exact absurd (congrArg Prod.snd (List.mem_singleton.mp isBlock)).symm isLeaf

/-- The links after a leaf was taken out. -/
theorem chain_unlink (chained : Chained leaves (before ++ (fence, leaf) :: behind))
    (left : removed.left = (leaves leaf).left) (right : removed.right = (leaves leaf).right) :
    IsChain (fun other => (unlink (Function.update leaves leaf removed) leaf other).right)
      (fun other => (unlink (Function.update leaves leaf removed) leaf other).left)
      ((before ++ behind).map Prod.snd).head? ((before ++ behind).map Prod.snd) := by
  obtain ⟨isLeft, isRight⟩ := chained.links
  have onward : (fun other => (unlink (Function.update leaves leaf removed) leaf other).right) =
      match (leaves leaf).left with
      | some node =>
          Function.update (fun other => (leaves other).right) node (leaves leaf).right
      | none => fun other => (leaves other).right := by
    funext other
    simp only [unlink, Function.update_self, linkBack_right, linkOn_right, left, right,
      update_link (·.right) right]
    cases (leaves leaf).left with
    | none => exact congrFun (update_link (·.right) right) other
    | some node => rfl
  have backward : (fun other => (unlink (Function.update leaves leaf removed) leaf other).left) =
      pointBack (fun other => (leaves other).left) (leaves leaf).right (leaves leaf).left := by
    funext other
    simp only [unlink, Function.update_self, linkBack_left, linkOn_left, left, right,
      update_link (·.left) left]
  have chain := chained.chain
  rw [onward, backward, isLeft, isRight]
  rw [List.map_append, List.map_cons] at chain
  rcases List.eq_nil_or_concat' before with rfl | ⟨front, last, rfl⟩
  · exact chain.tail
  · rw [List.map_append, List.map_singleton] at chain
    have unlinked := chain.unlink
    rw [List.map_append, List.map_append, List.map_singleton, List.getLast?_concat]
    rw [chain.starts] at unlinked
    simpa using unlinked

/-- An empty leaf goes. -/
theorem erase_freed (chained : Chained leaves (before ++ (fence, leaf) :: behind))
    (left : removed.left = (leaves leaf).left) (right : removed.right = (leaves leaf).right)
    {blocks : List (WithBot Key × LeafId)}
    (same : blocks.map Prod.snd = (before ++ behind).map Prod.snd)
    (fenced : Fenced (entriesIn leaves) blocks) :
    Chained (unlink (Function.update leaves leaf removed) leaf) blocks := by
  have kept : ∀ block ∈ blocks, ∃ old ∈ before ++ behind, old.2 = block.2 ∧
      ∃ left right, unlink (Function.update leaves leaf removed) leaf block.2 =
        { leaves block.2 with left := left, right := right } := by
    intro block member
    have isLeaf : block.2 ∈ blocks.map Prod.snd := List.mem_map_of_mem member
    rw [same] at isLeaf
    obtain ⟨old, inOld, isOld⟩ := List.mem_map.mp isLeaf
    obtain ⟨left, right, isBlock⟩ :=
      @unlink_eq _ (Function.update leaves leaf removed) leaf block.2
    rw [← isOld, Function.update_of_ne (chained.other_ne inOld), isOld] at isBlock
    exact ⟨old, inOld, isOld, left, right, isBlock⟩
  have inOld : ∀ old ∈ before ++ behind, old ∈ before ++ (fence, leaf) :: behind := by
    intro old member
    simp only [List.mem_append, List.mem_cons] at member ⊢
    tauto
  constructor
  · apply fenced.congr
    intro block member
    obtain ⟨-, -, -, left, right, isBlock⟩ := kept block member
    rw [entriesIn, isBlock]
    rfl
  · rw [same]
    exact chained.chain_unlink left right
  · intro block member
    obtain ⟨old, inRest, isOld, left, right, isBlock⟩ := kept block member
    rw [isBlock, ← isOld]
    exact chained.room old (inOld old inRest)
  · intro block member empty
    obtain ⟨old, inRest, isOld, left, right, isBlock⟩ := kept block member
    rw [isBlock, ← isOld] at empty
    have alone := chained.filled old (inOld old inRest) empty
    have isLeaf : (fence, leaf) ∈ [old] := alone ▸ by simp
    exact absurd (congrArg Prod.snd (List.mem_singleton.mp isLeaf)).symm (chained.other_ne inRest)

/-- What remains of the blocks when the leaf was freed. -/
theorem remains_freed (chained : Chained leaves (before ++ (fence, leaf) :: behind))
    (left : removed.left = (leaves leaf).left) (right : removed.right = (leaves leaf).right)
    {res : DeleteResult Key} (freed : res.freeNode = true) {rest : List (WithBot Key × LeafId)}
    (remains : Remains res fence leaf behind rest) :
    Chained (unlink (Function.update leaves leaf removed) leaf) (before ++ rest) ∧
      contents (entriesIn (unlink (Function.update leaves leaf removed) leaf)) (before ++ rest) =
        contents (entriesIn leaves) before ++ contents (entriesIn leaves) behind ∧
      rest.map Prod.snd = behind.map Prod.snd := by
  obtain ⟨fenced, same, kept⟩ : Fenced (entriesIn leaves) (before ++ rest) ∧
      rest.map Prod.snd = behind.map Prod.snd ∧
      contents (entriesIn leaves) rest = contents (entriesIn leaves) behind := by
    cases remains with
    | same kept => exact absurd (freed.symm.trans kept) (by simp)
    | raised kept upKey => exact absurd (freed.symm.trans kept) (by simp)
    | dropped _ => exact ⟨chained.fenced.sublist (by simp), rfl, rfl⟩
    | lowered _ => exact ⟨chained.fenced.lower, map_refence, contents_refence⟩
  have after := chained.erase_freed left right
    (show (before ++ rest).map Prod.snd = (before ++ behind).map Prod.snd by
      rw [List.map_append, List.map_append, same]) fenced
  refine ⟨after, ?_, same⟩
  have entries : ∀ block ∈ before ++ rest,
      entriesIn (unlink (Function.update leaves leaf removed) leaf) block.2 =
        entriesIn leaves block.2 := by
    intro block member
    have isLeaf : block.2 ∈ (before ++ behind).map Prod.snd := by
      rw [List.map_append, ← same, ← List.map_append]
      exact List.mem_map_of_mem member
    obtain ⟨old, inOld, isOld⟩ := List.mem_map.mp isLeaf
    obtain ⟨left, right, isBlock⟩ :=
      @unlink_eq _ (Function.update leaves leaf removed) leaf block.2
    rw [entriesIn, isBlock, ← isOld, Function.update_of_ne (chained.other_ne inOld)]
    rfl
  rw [contents_congr entries, contents_append, kept]

/-- What remains of them when the leaf has kept some entry. -/
theorem remains_kept (chained : Chained leaves (before ++ (fence, leaf) :: behind))
    (fewer : removed.list.Sublist (leaves leaf).list) (some : removed.numKeys ≠ 0)
    (left : removed.left = (leaves leaf).left) (right : removed.right = (leaves leaf).right)
    {res : DeleteResult Key} (kept : res.freeNode = false)
    (upKeys : ∀ upKey, res.upKey = Option.some upKey → upKey = (removed.entries 0).1)
    {rest : List (WithBot Key × LeafId)} (remains : Remains res fence leaf behind rest) :
    Chained (Function.update leaves leaf removed) (before ++ rest) ∧
      contents (entriesIn (Function.update leaves leaf removed)) (before ++ rest) =
        contents (entriesIn leaves) before ++ removed.list ++ contents (entriesIn leaves) behind ∧
      rest.map Prod.snd = leaf :: behind.map Prod.snd := by
  have above : ∀ entry ∈ removed.list, fence ≤ entry.1 := fun entry member =>
    chained.fenced.above (fence, leaf) (by simp) entry (fewer.subset member)
  have sorted : Ascending removed.list := chained.ascending.sublist fewer
  have first : removed.entries 0 ∈ removed.list :=
    Slots.mem_list.mpr ⟨0, Nat.pos_of_ne_zero some, rfl⟩
  obtain ⟨raised, rfl, low, high⟩ : ∃ raised, rest = (raised, leaf) :: behind ∧ fence ≤ raised ∧
      ∀ entry ∈ removed.list, raised ≤ entry.1 := by
    cases remains with
    | same _ => exact ⟨fence, rfl, le_rfl, above⟩
    | @raised upKey _ isKey =>
        rw [upKeys upKey isKey]
        exact ⟨_, rfl, above _ first, fun entry member =>
          WithBot.coe_le_coe.mpr (LeafNode.first_le sorted member)⟩
    | dropped freed => exact absurd (kept.symm.trans freed) (by simp)
    | lowered freed => exact absurd (kept.symm.trans freed) (by simp)
  refine ⟨chained.erase_kept fewer some left right low high, ?_, rfl⟩
  rw [contents_append, contents_cons, entriesIn, Function.update_self, List.append_assoc,
    contents_congr fun block member => chained.entriesIn_other (List.mem_append_left _ member),
    contents_congr fun block member => chained.entriesIn_other (List.mem_append_right _ member)]

end Chained

/-! ## Trees -/

/-- The deletion of the entry in a slot of the leaf that a key belongs to. -/
structure Tree.Shrunk (tree after : Tree Key) (key : Key)
    (before : List (WithBot Key × LeafId)) (fence : WithBot Key) (leaf : LeafId)
    (behind : List (WithBot Key × LeafId)) : Prop where
  wellFormed : after.WellFormed
  contents_eq : after.contents = Fences.contents (entriesIn tree.leaves) before ++
    (tree.leaves leaf).list.eraseIdx ((tree.leaves leaf).slotOf key) ++
    Fences.contents (entriesIn tree.leaves) behind
  leaves : ∀ other ∈ after.flat.map Prod.snd, other ∈ tree.flat.map Prod.snd

namespace Tree

variable {tree : Tree Key} {key : Key} {pending : Key → Bool}

omit [LinearOrder Key] in
theorem flat_mk {leaves : Leaves Key} {depth : Nat} {node : Subtree Key depth} :
    Tree.flat ⟨leaves, some ⟨depth, node⟩⟩ = BPlusTree.flat depth ⊥ node := rfl

/-- A deletion takes out what is in the slot for the key. -/
theorem WellFormed.deleteRtm (wellFormed : tree.WellFormed) (rooted : tree.root ≠ none) :
    ∃ before fence leaf behind, Located tree.flat key before fence leaf behind ∧
      tree.findLeaf (fun separator => separator ≤ key) = some leaf ∧
      ((tree.leaves leaf).slotOf key = (tree.leaves leaf).numKeys →
        tree.deleteRtm pending key = some (tree, none)) ∧
      ((tree.leaves leaf).slotOf key < (tree.leaves leaf).numKeys → ∃ after,
        tree.deleteRtm pending key =
          some (after, some ((tree.leaves leaf).entries ((tree.leaves leaf).slotOf key)).2) ∧
        tree.Shrunk after key before fence leaf behind) := by
  obtain ⟨⟨depth, root⟩, isRoot⟩ := Option.ne_none_iff_exists'.mp rooted
  have ordered := wellFormed.chained.ordered
  have fits := wellFormed.fits
  simp only [Tree.flat, isRoot] at ordered
  simp only [Tree.Fits, isRoot] at fits
  obtain ⟨before, fence, leaf, behind, located, descended, absent, present⟩ :=
    @deleteBelow_spec _ _ _ pending _ tree.leaves key root ordered bot_le fits
  have isFlat : tree.flat = BPlusTree.flat depth ⊥ root := by rw [Tree.flat, isRoot]
  rw [← isFlat] at located
  refine ⟨before, fence, leaf, behind, located, ?_, ?_, ?_⟩
  · rw [Tree.findLeaf, isRoot, Option.map_some, descended]
  · intro outside
    rw [Tree.deleteRtm, isRoot, Option.map_some]
    simp only [absent (leafDelete_none outside)]
  · intro inside
    have chained := wellFormed.chained
    rw [located.split] at chained
    by_cases alone : (tree.leaves leaf).numKeys = 1
    · obtain ⟨node, res, deleted, nodeFits, below⟩ :=
        present _ _ (leafDelete_freed inside alone)
      have first : (tree.leaves leaf).slotOf key = 0 := by omega
      have nothing : (tree.leaves leaf).list.eraseIdx ((tree.leaves leaf).slotOf key) = [] := by
        rw [first, ← List.length_eq_zero_iff, List.eraseIdx_zero, List.length_tail,
          LeafNode.length_list, alone]
      cases freed : res.freeNode with
      | true =>
          obtain ⟨-, rfl, rfl, -⟩ := below.freed freed
          refine ⟨⟨unlink (Function.update tree.leaves leaf
            ((tree.leaves leaf).removeEntry ((tree.leaves leaf).slotOf key))) leaf, none⟩, ?_,
            ⟨trivial, Chained.nil⟩, ?_, by simp [Tree.flat]⟩
          · simp only [Tree.deleteRtm, isRoot, Option.map_some, deleted, freed, if_true,
              below.value]
          · rw [nothing]
            rfl
      | false =>
          obtain ⟨rest, restFlat, remains, -⟩ := below.kept freed
          obtain ⟨after, contents, same⟩ := @Chained.remains_freed _ _ _ _ _ _ _
            ((tree.leaves leaf).removeEntry ((tree.leaves leaf).slotOf key)) chained rfl rfl _ rfl _
            remains
          refine ⟨⟨unlink (Function.update tree.leaves leaf
            ((tree.leaves leaf).removeEntry ((tree.leaves leaf).slotOf key))) leaf,
            some ⟨depth, node⟩⟩, ?_, ⟨⟨nodeFits, ?_⟩, ?_, ?_⟩⟩
          · simp only [Tree.deleteRtm, isRoot, Option.map_some, deleted, freed, below.value,
              Bool.false_eq_true, if_false]
          · rw [flat_mk, restFlat]
            exact after
          · rw [nothing, List.append_nil, Tree.contents, flat_mk, restFlat]
            exact contents
          · intro other member
            rw [flat_mk, restFlat, List.map_append, same] at member
            rw [located.split, List.map_append, List.map_cons]
            simp only [List.mem_append, List.mem_cons] at member ⊢
            tauto
    · obtain ⟨leafRes, isDelete, value, kept, upKeys⟩ := leafDelete_kept inside alone
      obtain ⟨node, res, deleted, nodeFits, below⟩ := present _ _ isDelete
      have freed : res.freeNode = false := by
        cases freed : res.freeNode with
        | false => rfl
        | true => exact absurd (kept.symm.trans (below.freed freed).1) (by simp)
      obtain ⟨rest, restFlat, remains, -⟩ := below.kept freed
      have isList := list_removeEntry inside
      have more : (tree.leaves leaf).numKeys - 1 ≠ 0 := by omega
      obtain ⟨after, contents, same⟩ := @Chained.remains_kept _ _ _ _ _ _ _
        ((tree.leaves leaf).removeEntry ((tree.leaves leaf).slotOf key)) chained
        (isList ▸ List.eraseIdx_sublist _ _) more rfl rfl _ kept
        (fun upKey isKey => (upKeys upKey isKey).2) _ remains
      refine ⟨⟨Function.update tree.leaves leaf
        ((tree.leaves leaf).removeEntry ((tree.leaves leaf).slotOf key)), some ⟨depth, node⟩⟩, ?_,
        ⟨⟨nodeFits, ?_⟩, ?_, ?_⟩⟩
      · simp only [Tree.deleteRtm, isRoot, Option.map_some, deleted, freed, below.value, value,
          Bool.false_eq_true, if_false]
      · rw [flat_mk, restFlat]
        exact after
      · rw [Tree.contents, flat_mk, restFlat, ← isList]
        exact contents
      · intro other member
        rw [flat_mk, restFlat, List.map_append, same] at member
        rwa [located.split, List.map_append, List.map_cons]

/-- The entries are the old ones without the deleted one. -/
theorem Shrunk.perm {after : Tree Key} {before behind : List (WithBot Key × LeafId)}
    {fence : WithBot Key} {leaf : LeafId} (located : Located tree.flat key before fence leaf behind)
    (inside : (tree.leaves leaf).slotOf key < (tree.leaves leaf).numKeys)
    (shrunk : tree.Shrunk after key before fence leaf behind) :
    tree.contents.Perm
      ((tree.leaves leaf).entries ((tree.leaves leaf).slotOf key) :: after.contents) := by
  have split := @Slots.list_eq_of_lt _ (tree.leaves leaf).entries _ _ inside
  rw [shrunk.contents_eq, contents, located.split, contents_append, contents_cons,
    List.eraseIdx_eq_take_drop_succ, entriesIn]
  conv_lhs => rw [LeafNode.list, split]
  simp only [List.append_assoc, List.cons_append]
  rw [← List.append_assoc]
  exact (List.perm_middle).trans (by rw [List.append_assoc]; rfl)

/-- A stored key is deleted, and nothing else. -/
theorem WellFormed.deleteRtm_stored (wellFormed : tree.WellFormed) {node : NodeId}
    (stored : (key, node) ∈ tree.contents) :
    ∃ after, tree.deleteRtm pending key = some (after, some node) ∧ after.WellFormed ∧
      tree.contents.Perm ((key, node) :: after.contents) ∧
      (∀ entry, entry ∈ after.contents ↔ entry ∈ tree.contents ∧ entry.1 ≠ key) ∧
      ∀ other ∈ after.flat.map Prod.snd, other ∈ tree.flat.map Prod.snd := by
  obtain ⟨before, fence, leaf, behind, located, -, -, present⟩ :=
    @WellFormed.deleteRtm _ _ tree key pending wellFormed (rooted_of_mem stored)
  have chained := wellFormed.chained
  have inLeaf := stored
  rw [contents, located.split] at inLeaf
  rw [located.split] at chained
  obtain ⟨inside, isEntry⟩ := LeafNode.entries_slotOf chained.ascending
    ((chained.mem_contents_iff located.reached located.ended).mp inLeaf)
  obtain ⟨after, isDelete, shrunk⟩ := present inside
  have perm := shrunk.perm located inside
  rw [isEntry] at isDelete perm
  refine ⟨after, isDelete, shrunk.wellFormed, perm, fun entry => ?_, shrunk.leaves⟩
  have distinct : (tree.contents.map Prod.fst).Nodup :=
    List.pairwise_map.mpr (wellFormed.contents_ascending.imp fun ordered => ordered.ne)
  rw [(perm.map Prod.fst).nodup_iff, List.map_cons, List.nodup_cons] at distinct
  rw [perm.mem_iff, List.mem_cons]
  constructor
  · exact fun member => ⟨.inr member, fun same =>
      distinct.1 (List.mem_map.mpr ⟨entry, member, same⟩)⟩
  · rintro ⟨rfl | member, other⟩
    · exact absurd rfl other
    · exact member

/-- A key that is not stored is not deleted if its leaf has no greater one. -/
theorem WellFormed.deleteRtm_absent (wellFormed : tree.WellFormed) (rooted : tree.root ≠ none)
    (absent : ∀ node, (key, node) ∉ tree.contents)
    (last : ∀ leaf, tree.findLeaf (fun separator => separator ≤ key) = some leaf →
      (tree.leaves leaf).slotOf key < (tree.leaves leaf).numKeys →
        ((tree.leaves leaf).entries ((tree.leaves leaf).slotOf key)).1 = key) :
    tree.deleteRtm pending key = some (tree, none) := by
  obtain ⟨before, fence, leaf, behind, located, found, nothing, -⟩ :=
    @WellFormed.deleteRtm _ _ tree key pending wellFormed rooted
  apply nothing
  by_contra some
  have inside := LeafNode.slotOf_le.lt_of_ne some
  have chained := wellFormed.chained
  rw [located.split] at chained
  apply absent ((tree.leaves leaf).entries ((tree.leaves leaf).slotOf key)).2
  rw [contents, located.split, chained.mem_contents_iff located.reached located.ended]
  exact Slots.mem_list.mpr ⟨_, inside, Prod.ext (last leaf found inside) rfl⟩

/-- An insertion into a tree without a root makes one. -/
theorem insertRtm_rootless [Inhabited Key] (rootless : tree.root = none) (dummyval : NodeId)
    (fresh : LeafId) :
    (tree.insertRtm key dummyval fresh).tree.WellFormed ∧
      (tree.insertRtm key dummyval fresh).tree.contents = [(key, dummyval)] ∧
      (tree.insertRtm key dummyval fresh).tree.flat = [(⊥, fresh)] ∧
      (tree.insertRtm key dummyval fresh).val = dummyval ∧
      (tree.insertRtm key dummyval fresh).taken = true ∧
      (tree.insertRtm key dummyval fresh).leafTaken = true := by
  let leaves := Function.update tree.leaves fresh (rootLeaf (tree.leaves fresh))
  have isFresh : leaves fresh = rootLeaf (tree.leaves fresh) := Function.update_self ..
  have empty : (leaves fresh).list = [] := by
    rw [isFresh]
    rfl
  obtain ⟨inserted, result, list, numKeys, left, right, -⟩ :=
    @leafInsert_room _ _ leaves fresh fresh key dummyval (by simp [empty])
      (by rw [isFresh]; exact (by decide : 0 ≠ nodeKeys))
  have isResult : tree.insertRtm key dummyval fresh =
      ⟨⟨Function.update leaves fresh inserted, some ⟨0, fresh⟩⟩, dummyval, true, true⟩ := by
    simp only [insertRtm, rootless, insertAt]
    rw [result]
  have isList : inserted.list = [(key, dummyval)] := by
    rw [list, LeafNode.with, empty]
    simp
  rw [isResult]
  refine ⟨⟨trivial, ?_⟩, ?_, rfl, rfl, rfl, rfl⟩
  · change Chained (Function.update leaves fresh inserted) [(⊥, fresh)]
    constructor
    · apply Fenced.singleton
      · simp
      · simp [entriesIn, isList]
    · rw [isFresh] at left right
      refine ⟨List.nodup_singleton _, rfl, ?_, ?_, trivial⟩
      · simp only [Function.update_self, left]
        rfl
      · simp only [Function.update_self, right]
        rfl
    · rw [isFresh] at numKeys
      simp [numKeys, rootLeaf, nodeKeys]
    · simp
  · change Fences.contents (entriesIn (Function.update leaves fresh inserted)) [(⊥, fresh)] = _
    rw [contents_cons, contents_nil, List.append_nil, entriesIn, Function.update_self, isList]

/-- The insertion of an absent key, with a root or without. -/
theorem WellFormed.insertRtm_new [Inhabited Key] (wellFormed : tree.WellFormed)
    (absent : ∀ node, (key, node) ∉ tree.contents) {dummyval : NodeId} {fresh : LeafId}
    (unused : fresh ∉ tree.flat.map Prod.snd) :
    (tree.insertRtm key dummyval fresh).tree.WellFormed ∧
      (tree.insertRtm key dummyval fresh).tree.contents.Perm ((key, dummyval) :: tree.contents) ∧
      (∀ leaf ∈ (tree.insertRtm key dummyval fresh).tree.flat.map Prod.snd,
        leaf ∈ tree.flat.map Prod.snd ∨
          ((tree.insertRtm key dummyval fresh).leafTaken = true ∧ leaf = fresh)) ∧
      (tree.insertRtm key dummyval fresh).val = dummyval ∧
      (tree.insertRtm key dummyval fresh).taken = true := by
  by_cases rootless : tree.root = none
  · obtain ⟨after, contents, flat, val, taken, leafTaken⟩ :=
      @insertRtm_rootless _ _ tree key _ rootless dummyval fresh
    have none : tree.contents = [] := by simp [Tree.contents, Tree.flat, rootless]
    refine ⟨after, by rw [contents, none], fun leaf member => .inr ⟨leafTaken, ?_⟩, val, taken⟩
    simpa [flat] using member
  · obtain ⟨before, fence, leaf, extra, behind, grown, after, val, taken, extraEq⟩ :=
      wellFormed.insertRtm_absent rootless absent unused
    refine ⟨after, grown.perm, fun other member => ?_, val, taken⟩
    rcases grown.mem_leaves.mp member with old | new
    · exact .inl old
    · rw [extraEq] at new
      split at new
      · exact .inr ⟨by assumption, List.mem_singleton.mp new⟩
      · cases new

end Tree

end Rocc.Memstore.BPlusTree
