import Rocc.Memstore.BPlusTree.Insert

/-!
# Well-formed B+ trees

The leaves of a well-formed tree are linked in order, no leaf is overfull, none is empty
unless it is the only one, and the entries are sorted under the fences.  Insertion keeps a
tree well-formed and adds one entry to its contents.
-/

namespace Rocc.Memstore.BPlusTree

open Fences Rtx

variable {Key : Type} [LinearOrder Key]

/-- The entries of a leaf in a memory. -/
abbrev entriesIn (leaves : Leaves Key) (leaf : LeafId) : List (Key × NodeId) := (leaves leaf).list

/-- Leaves under fences, as they are on the chain. -/
structure Chained (leaves : Leaves Key) (blocks : List (WithBot Key × LeafId)) : Prop where
  fenced : Fenced (entriesIn leaves) blocks
  chain : IsChain (fun leaf => (leaves leaf).right) (fun leaf => (leaves leaf).left)
    (blocks.map Prod.snd).head? (blocks.map Prod.snd)
  room : ∀ block ∈ blocks, (leaves block.2).numKeys ≤ nodeKeys
  filled : ∀ block ∈ blocks, (leaves block.2).numKeys = 0 → blocks = [block]

omit [LinearOrder Key] in
/-- A change of a leaf that keeps a link. -/
theorem update_link {Link : Type} {leaves : Leaves Key} {leaf : LeafId} {changed : LeafNode Key}
    (link : LeafNode Key → Link) (kept : link changed = link (leaves leaf)) :
    (fun other => link (Function.update leaves leaf changed other)) =
      fun other => link (leaves other) := by
  have updated := Function.comp_update link leaves leaf changed
  rw [kept] at updated
  exact updated.trans (Function.update_eq_self leaf (link ∘ leaves))

namespace Chained

variable {leaves : Leaves Key} {blocks before behind : List (WithBot Key × LeafId)}
variable {fence : WithBot Key} {leaf fresh : LeafId} {key : Key} {dummyval node : NodeId}

theorem nil : Chained leaves [] :=
  ⟨Fenced.nil, IsChain.nil _ _, by simp, by simp⟩

theorem ordered (chained : Chained leaves blocks) : Ordered blocks :=
  chained.fenced.order.imp fun across => across.1

theorem ascending (chained : Chained leaves (before ++ (fence, leaf) :: behind)) :
    Ascending (leaves leaf).list :=
  chained.fenced.ascending (fence, leaf) (by simp)

/-- Only the leaves of the chain matter. -/
theorem congr (chained : Chained leaves blocks) {leaves' : Leaves Key}
    (same : ∀ block ∈ blocks, leaves' block.2 = leaves block.2) : Chained leaves' blocks := by
  have sameEntries : ∀ block ∈ blocks, entriesIn leaves' block.2 = entriesIn leaves block.2 :=
    fun block member => by rw [entriesIn, same block member]
  have sameNode : ∀ leaf ∈ blocks.map Prod.snd, leaves' leaf = leaves leaf := by
    intro leaf member
    obtain ⟨block, inBlocks, rfl⟩ := List.mem_map.mp member
    exact same block inBlocks
  constructor
  · exact chained.fenced.congr sameEntries
  · refine ⟨chained.chain.nodup, rfl, chained.chain.linked.congr ?_ ?_⟩
    · exact fun leaf member => by rw [sameNode leaf member]
    · exact fun leaf member => by rw [sameNode leaf member]
  · exact fun block member => by rw [same block member]; exact chained.room block member
  · exact fun block member empty => chained.filled block member (by rwa [← same block member])

/-- The links of a leaf. -/
theorem links (chained : Chained leaves (before ++ (fence, leaf) :: behind)) :
    (leaves leaf).left = (before.map Prod.snd).getLast? ∧
      (leaves leaf).right = (behind.map Prod.snd).head? := by
  have linked := chained.chain.linked
  rw [List.map_append, List.map_cons] at linked
  simpa using linked.of_mid

/-- A leaf occurs once. -/
theorem apart (chained : Chained leaves (before ++ (fence, leaf) :: behind)) :
    leaf ∉ before.map Prod.snd ∧ leaf ∉ behind.map Prod.snd := by
  have distinct := chained.chain.nodup
  rw [List.map_append, List.map_cons, List.nodup_append, List.nodup_cons] at distinct
  exact ⟨fun member => distinct.2.2 leaf member leaf List.mem_cons_self rfl, distinct.2.1.1⟩

theorem other_ne (chained : Chained leaves (before ++ (fence, leaf) :: behind))
    {block : WithBot Key × LeafId} (member : block ∈ before ++ behind) : block.2 ≠ leaf := by
  intro same
  rcases List.mem_append.mp member with inBefore | inBehind
  · exact chained.apart.1 (same ▸ List.mem_map_of_mem inBefore)
  · exact chained.apart.2 (same ▸ List.mem_map_of_mem inBehind)

/-- The entry of a key is in the leaf it belongs to. -/
theorem mem_contents_iff (chained : Chained leaves (before ++ (fence, leaf) :: behind))
    (reached : fence ≤ key) (ended : ∀ next ∈ behind, (key : WithBot Key) < next.1) :
    (key, node) ∈ contents (entriesIn leaves) (before ++ (fence, leaf) :: behind) ↔
      (key, node) ∈ (leaves leaf).list := by
  rw [contents_append, contents_cons, List.mem_append, List.mem_append]
  constructor
  · rintro (inBefore | here | inBehind)
    · exact absurd (chained.fenced.lt_of_mem_before reached inBefore) (lt_irrefl key)
    · exact here
    · obtain ⟨next, member, inNext⟩ := mem_contents.mp inBehind
      have bound := chained.fenced.above next (by simp [member]) _ inNext
      exact absurd ((ended next member).trans_le bound) (lt_irrefl _)
  · exact fun here => .inr (.inl here)

/-! ## Insertion -/

/-- The entries of the leaf with one more stay within the fences. -/
theorem with_within (chained : Chained leaves (before ++ (fence, leaf) :: behind))
    (reached : fence ≤ key) (ended : ∀ next ∈ behind, (key : WithBot Key) < next.1)
    {entry : Key × NodeId} (member : entry ∈ (leaves leaf).with key dummyval) :
    fence ≤ entry.1 ∧ ∀ next ∈ behind, (entry.1 : WithBot Key) < next.1 := by
  rcases mem_with.mp member with old | rfl
  · refine ⟨chained.fenced.above (fence, leaf) (by simp) entry old, fun next inBehind => ?_⟩
    have order := (List.pairwise_append.mp chained.fenced.order).2.1
    exact ((List.pairwise_cons.mp order).1 next inBehind).2 entry old
  · exact ⟨reached, ended⟩

theorem insert_room (chained : Chained leaves (before ++ (fence, leaf) :: behind))
    (reached : fence ≤ key) (ended : ∀ next ∈ behind, (key : WithBot Key) < next.1)
    (absent : ∀ node, (key, node) ∉ (leaves leaf).list)
    (room : (leaves leaf).numKeys ≠ nodeKeys) {inserted : LeafNode Key}
    (list : inserted.list = (leaves leaf).with key dummyval)
    (numKeys : inserted.numKeys = (leaves leaf).numKeys + 1)
    (left : inserted.left = (leaves leaf).left) (right : inserted.right = (leaves leaf).right) :
    Chained (Function.update leaves leaf inserted) (before ++ (fence, leaf) :: behind) := by
  have here : entriesIn (Function.update leaves leaf inserted) leaf =
      (leaves leaf).with key dummyval := by
    rw [entriesIn, Function.update_self, list]
  constructor
  · have spliced := @Fenced.splice _ _ _ _ (entriesIn leaves)
      (entriesIn (Function.update leaves leaf inserted)) before behind [(fence, leaf)]
      [(fence, leaf)]
      (by simpa using chained.fenced)
      (fun block member => by rw [entriesIn, Function.update_of_ne (chained.other_ne member)])
      (Fenced.singleton
        (fun entry member => (chained.with_within reached ended (here ▸ member)).1)
        (here ▸ with_ascending chained.ascending absent))
      (by simp) ?_
    · simpa using spliced
    · intro block member next inBehind
      obtain rfl := List.mem_singleton.mp member
      have order := (List.pairwise_append.mp chained.fenced.order).2.1
      refine ⟨((List.pairwise_cons.mp order).1 next inBehind).1, fun entry inLeaf => ?_⟩
      exact (chained.with_within reached ended (here ▸ inLeaf)).2 next inBehind
  · rw [update_link (·.right) right, update_link (·.left) left]
    exact chained.chain
  · intro block member
    by_cases same : block.2 = leaf
    · rw [same, Function.update_self, numKeys]
      exact (chained.room (fence, leaf) (by simp)).lt_of_ne room
    · rw [Function.update_of_ne same]
      exact chained.room block member
  · intro block member empty
    by_cases same : block.2 = leaf
    · rw [same, Function.update_self, numKeys] at empty
      cases empty
    · rw [Function.update_of_ne same] at empty
      exact chained.filled block member empty

/-- The first key of a new sibling is its fence. -/
theorem separated (chained : Chained leaves (before ++ (fence, leaf) :: behind))
    (reached : fence ≤ key) (ended : ∀ next ∈ behind, (key : WithBot Key) < next.1)
    (absent : ∀ node, (key, node) ∉ (leaves leaf).list) {rest sibling : LeafNode Key}
    (split : Split leaves leaf fresh key dummyval rest sibling) :
    fence < (sibling.entries 0).1 ∧
      (∀ next ∈ behind, ((sibling.entries 0).1 : WithBot Key) < next.1) ∧
      (∀ entry ∈ rest.list, entry.1 < (sibling.entries 0).1) ∧
      ∀ entry ∈ sibling.list, (sibling.entries 0).1 ≤ entry.1 := by
  have sorted : Ascending (rest.list ++ sibling.list) :=
    split.joined ▸ with_ascending chained.ascending absent
  obtain ⟨-, siblingSorted, across⟩ := List.pairwise_append.mp sorted
  have first : sibling.entries 0 ∈ sibling.list :=
    Slots.mem_list.mpr ⟨0, split.sibling_keys.1, rfl⟩
  have inRest : rest.entries 0 ∈ rest.list := Slots.mem_list.mpr ⟨0, split.rest_keys.1, rfl⟩
  have below : ∀ entry ∈ rest.list ++ sibling.list,
      fence ≤ entry.1 ∧ ∀ next ∈ behind, (entry.1 : WithBot Key) < next.1 :=
    fun entry member => chained.with_within reached ended (split.joined ▸ member)
  refine ⟨?_, (below _ (List.mem_append_right _ first)).2,
    fun entry member => across entry member _ first,
    fun entry member => LeafNode.first_le siblingSorted member⟩
  exact (below _ (List.mem_append_left _ inRest)).1.trans_lt
    (WithBot.coe_lt_coe.mpr (across _ inRest _ first))

/-- Other leaves of the chain may only get another left neighbour. -/
theorem afterSplit_other (chained : Chained leaves (before ++ (fence, leaf) :: behind))
    (unused : fresh ∉ (before ++ (fence, leaf) :: behind).map Prod.snd)
    {rest sibling : LeafNode Key} {block : WithBot Key × LeafId}
    (member : block ∈ before ++ behind) :
    afterSplit leaves leaf fresh rest sibling block.2 =
      linkBack leaves (leaves leaf).right (some fresh) block.2 := by
  apply afterSplit_of_ne (chained.other_ne member)
  intro same
  apply unused
  rw [← same]
  rcases List.mem_append.mp member with inBefore | inBehind
  · exact List.mem_map_of_mem (List.mem_append_left _ inBefore)
  · exact List.mem_map_of_mem (List.mem_append_right _ (List.mem_cons_of_mem _ inBehind))

theorem insert_full (chained : Chained leaves (before ++ (fence, leaf) :: behind))
    (reached : fence ≤ key) (ended : ∀ next ∈ behind, (key : WithBot Key) < next.1)
    (absent : ∀ node, (key, node) ∉ (leaves leaf).list)
    (unused : fresh ∉ (before ++ (fence, leaf) :: behind).map Prod.snd)
    {rest sibling : LeafNode Key} (split : Split leaves leaf fresh key dummyval rest sibling) :
    Chained (afterSplit leaves leaf fresh rest sibling)
      (before ++ (fence, leaf) :: (((sibling.entries 0).1 : Key), fresh) :: behind) := by
  obtain ⟨low, high, restBelow, siblingAbove⟩ :=
    chained.separated reached ended absent split
  have notFresh : leaf ≠ fresh := fun same => unused (by simp [same])
  have others : ∀ block ∈ before ++ behind,
      afterSplit leaves leaf fresh rest sibling block.2 =
        linkBack leaves (leaves leaf).right (some fresh) block.2 := by
    exact fun block member => chained.afterSplit_other unused member
  have sorted : Ascending (rest.list ++ sibling.list) :=
    split.joined ▸ with_ascending chained.ascending absent
  obtain ⟨restSorted, siblingSorted, -⟩ := List.pairwise_append.mp sorted
  have within : ∀ entry ∈ rest.list ++ sibling.list,
      fence ≤ entry.1 ∧ ∀ next ∈ behind, (entry.1 : WithBot Key) < next.1 :=
    fun entry member => chained.with_within reached ended (split.joined ▸ member)
  have below : ∀ next ∈ behind, fence < next.1 := fun next member => low.trans (high next member)
  constructor
  · have middle : Fenced (entriesIn (afterSplit leaves leaf fresh rest sibling))
        [(fence, leaf), (((sibling.entries 0).1 : Key), fresh)] := by
      constructor
      · simp only [List.pairwise_cons, List.mem_singleton, forall_eq, entriesIn,
          afterSplit_leaf notFresh, List.not_mem_nil, false_implies, implies_true, and_true,
          List.Pairwise.nil]
        exact ⟨low, fun entry member => WithBot.coe_lt_coe.mpr (restBelow entry member)⟩
      · simp only [List.mem_cons, List.not_mem_nil, or_false, forall_eq_or_imp, forall_eq,
          entriesIn, afterSplit_leaf notFresh, afterSplit_fresh]
        exact ⟨fun entry member => (within entry (List.mem_append_left _ member)).1,
          fun entry member => WithBot.coe_le_coe.mpr (siblingAbove entry member)⟩
      · simp only [List.mem_cons, List.not_mem_nil, or_false, forall_eq_or_imp, forall_eq,
          entriesIn, afterSplit_leaf notFresh, afterSplit_fresh]
        exact ⟨restSorted, siblingSorted⟩
    have spliced := @Fenced.splice _ _ _ _ (entriesIn leaves) _ before behind [(fence, leaf)] _
      (by simpa using chained.fenced)
      (fun block member => by rw [entriesIn, others block member, linkBack_list]) middle ?_ ?_
    · simpa using spliced
    · simp only [List.mem_cons, List.not_mem_nil, or_false, forall_eq_or_imp, forall_eq,
        exists_eq_left]
      exact ⟨le_rfl, low.le⟩
    · simp only [List.mem_cons, List.not_mem_nil, or_false, forall_eq_or_imp, forall_eq, entriesIn,
        afterSplit_leaf notFresh, afterSplit_fresh]
      exact ⟨fun next member => ⟨below next member, fun entry inRest =>
          (within entry (List.mem_append_left _ inRest)).2 next member⟩,
        fun next member => ⟨high next member, fun entry inSibling =>
          (within entry (List.mem_append_right _ inSibling)).2 next member⟩⟩
  · have linked := chained.chain
    rw [List.map_append, List.map_cons] at linked unused
    have inserted := linked.insertAfter unused
    have sameRight : (fun other => (afterSplit leaves leaf fresh rest sibling other).right) =
        Function.update (Function.update (fun other => (leaves other).right) leaf (some fresh))
          fresh (behind.map Prod.snd).head? := by
      funext other
      by_cases isFresh : other = fresh
      · rw [isFresh, afterSplit_fresh, Function.update_self, split.sibling_right, chained.links.2]
      · rw [Function.update_of_ne isFresh]
        by_cases isLeaf : other = leaf
        · rw [isLeaf, afterSplit_leaf notFresh, Function.update_self, split.rest_right]
        · rw [Function.update_of_ne isLeaf, afterSplit_of_ne isLeaf isFresh, linkBack_right]
    have sameLeft : (fun other => (afterSplit leaves leaf fresh rest sibling other).left) =
        Function.update (pointBack (fun other => (leaves other).left)
          (behind.map Prod.snd).head? (some fresh)) fresh (some leaf) := by
      funext other
      by_cases isFresh : other = fresh
      · rw [isFresh, afterSplit_fresh, Function.update_self, split.sibling_left]
      · rw [Function.update_of_ne isFresh]
        by_cases isLeaf : other = leaf
        · rw [isLeaf, afterSplit_leaf notFresh, split.rest_left]
          cases first : (behind.map Prod.snd).head? with
          | none => rfl
          | some right =>
              have notRight : leaf ≠ right := fun same =>
                chained.apart.2 (same ▸ List.mem_of_mem_head? first)
              rw [pointBack, Function.update_of_ne notRight]
        · rw [afterSplit_of_ne isLeaf isFresh, linkBack_left, chained.links.2]
    rw [sameRight, sameLeft, List.map_append, List.map_cons, List.map_cons]
    have sameHead : (before.map Prod.snd ++ leaf :: fresh :: behind.map Prod.snd).head? =
        (before.map Prod.snd ++ leaf :: behind.map Prod.snd).head? := by
      cases before <;> rfl
    rw [sameHead]
    exact inserted
  · intro block member
    simp only [List.mem_append, List.mem_cons] at member
    rcases member with inBefore | rfl | rfl | inBehind
    · rw [others block (List.mem_append_left _ inBefore), linkBack_numKeys]
      exact chained.room block (by simp [inBefore])
    · rw [afterSplit_leaf notFresh]
      exact split.rest_keys.2
    · rw [afterSplit_fresh]
      exact split.sibling_keys.2
    · rw [others block (List.mem_append_right _ inBehind), linkBack_numKeys]
      exact chained.room block (by simp [inBehind])
  · have notAlone : ∀ block ∈ before ++ behind,
        (afterSplit leaves leaf fresh rest sibling block.2).numKeys ≠ 0 := by
      intro block member empty
      rw [others block member, linkBack_numKeys] at empty
      have alone := chained.filled block (by
        rcases List.mem_append.mp member with inBefore | inBehind
        · exact List.mem_append_left _ inBefore
        · exact List.mem_append_right _ (List.mem_cons_of_mem _ inBehind)) empty
      have count := congrArg List.length alone
      have some : 0 < (before ++ behind).length := List.length_pos_of_mem member
      simp only [List.length_append, List.length_cons, List.length_nil] at count some
      omega
    intro block member empty
    simp only [List.mem_append, List.mem_cons] at member
    rcases member with inBefore | rfl | rfl | inBehind
    · exact absurd empty (notAlone block (List.mem_append_left _ inBefore))
    · rw [afterSplit_leaf notFresh] at empty
      exact absurd empty split.rest_keys.1.ne'
    · rw [afterSplit_fresh] at empty
      exact absurd empty split.sibling_keys.1.ne'
    · exact absurd empty (notAlone block (List.mem_append_right _ inBehind))

end Chained

/-! ## Trees -/

/-- A well-formed tree. -/
structure Tree.WellFormed (tree : Tree Key) : Prop where
  fits : tree.Fits
  chained : Chained tree.leaves tree.flat

/-- The entries of a tree, from left to right. -/
def Tree.contents (tree : Tree Key) : List (Key × NodeId) :=
  Fences.contents (entriesIn tree.leaves) tree.flat

/-- The insertion of an absent key: its leaf gets one more entry, or shares the entries with a
new leaf. -/
structure Tree.Grown (tree after : Tree Key) (key : Key) (dummyval : NodeId)
    (before : List (WithBot Key × LeafId)) (fence : WithBot Key) (leaf : LeafId)
    (extra behind : List (WithBot Key × LeafId)) : Prop where
  located : Located tree.flat key before fence leaf behind
  flat_eq : after.flat = before ++ (fence, leaf) :: (extra ++ behind)
  joined : Fences.contents (entriesIn after.leaves) ((fence, leaf) :: extra) =
    (tree.leaves leaf).with key dummyval
  seq : (after.leaves leaf).seq = ((tree.leaves leaf).seq + 1) % wordBound
  others : ∀ block ∈ before ++ behind,
    ∃ link, after.leaves block.2 = { tree.leaves block.2 with left := link }

namespace Tree

variable {tree : Tree Key} {key : Key} {dummyval node : NodeId} {fresh : LeafId}

theorem WellFormed.contents_ascending (wellFormed : tree.WellFormed) : Ascending tree.contents :=
  wellFormed.chained.fenced.contents_ascending

omit [LinearOrder Key] in
/-- What is stored is stored below a root. -/
theorem rooted_of_mem {entry : Key × NodeId} (stored : entry ∈ tree.contents) :
    tree.root ≠ none := by
  intro none
  rw [contents, Tree.flat, none] at stored
  cases stored

/-- Only the leaves of the tree matter. -/
theorem WellFormed.congr (wellFormed : tree.WellFormed) {leaves : Leaves Key}
    (same : ∀ block ∈ tree.flat, leaves block.2 = tree.leaves block.2) :
    Tree.WellFormed { tree with leaves := leaves } :=
  ⟨wellFormed.fits, wellFormed.chained.congr same⟩

omit [LinearOrder Key] in
theorem contents_congr {leaves : Leaves Key}
    (same : ∀ block ∈ tree.flat, leaves block.2 = tree.leaves block.2) :
    Tree.contents { tree with leaves := leaves } = tree.contents :=
  Fences.contents_congr fun block member => congrArg LeafNode.list (same block member)

/-- The entries of a leaf are sorted. -/
theorem WellFormed.ascending (wellFormed : tree.WellFormed) {leaf : LeafId}
    (member : leaf ∈ tree.flat.map Prod.snd) : Ascending (tree.leaves leaf).list := by
  obtain ⟨block, inFlat, rfl⟩ := List.mem_map.mp member
  exact wellFormed.chained.fenced.ascending block inFlat

/-- The leaf that a descent ends in. -/
theorem WellFormed.findLeaf (wellFormed : tree.WellFormed) (rooted : tree.root ≠ none)
    {goRight : Key → Bool} {low high : WithBot Key → Prop}
    (right : ∀ separator : Key, goRight separator = true → low separator)
    (left : ∀ separator : Key, goRight separator = false → high separator)
    (upward : ∀ one two, high one → one < two → high two) (bottom : low ⊥) :
    ∃ before fence leaf behind, tree.findLeaf goRight = some leaf ∧
      tree.flat = before ++ (fence, leaf) :: behind ∧ low fence ∧
      ∀ next ∈ behind, high next.1 := by
  obtain ⟨⟨depth, root⟩, isRoot⟩ := Option.ne_none_iff_exists'.mp rooted
  have ordered := wellFormed.chained.ordered
  simp only [Tree.flat, isRoot] at ordered
  obtain ⟨before, fence, behind, split, passed, ended⟩ :=
    descend_spec right left upward ordered bottom
  refine ⟨before, fence, descend goRight depth root, behind, ?_, ?_, passed, ended⟩
  · simp only [Tree.findLeaf, isRoot, Option.map_some]
  · simpa only [Tree.flat, isRoot] using split

/-- `Get` finds what is stored. -/
theorem WellFormed.get (wellFormed : tree.WellFormed) (rooted : tree.root ≠ none) (key : Key) :
    ∃ found, tree.get key = some found ∧
      ∀ node, found = some node ↔ (key, node) ∈ tree.contents := by
  obtain ⟨before, fence, leaf, behind, found, split, reached, ended⟩ :=
    @WellFormed.findLeaf _ _ tree wellFormed rooted (fun separator => separator ≤ key)
      (fun fence => fence ≤ key) (fun fence => (key : WithBot Key) < fence)
      (fun separator passed => WithBot.coe_le_coe.mpr (by simpa using passed))
      (fun separator failed => WithBot.coe_lt_coe.mpr (by simpa using failed))
      (fun one two above less => above.trans less) bot_le
  have chained := wellFormed.chained
  rw [split] at chained
  refine ⟨(tree.leaves leaf).find key, by rw [Tree.get, found]; rfl, fun node => ?_⟩
  rw [LeafNode.find_eq_some chained.ascending, contents, split,
    chained.mem_contents_iff reached ended]

/-- The entries after an insertion. -/
theorem Grown.contents_eq {after : Tree Key} {before extra behind : List (WithBot Key × LeafId)}
    {fence : WithBot Key} {leaf : LeafId}
    (grown : tree.Grown after key dummyval before fence leaf extra behind) :
    after.contents = Fences.contents (entriesIn tree.leaves) before ++
      ((tree.leaves leaf).with key dummyval ++
        Fences.contents (entriesIn tree.leaves) behind) := by
  have same : ∀ block ∈ before ++ behind,
      entriesIn after.leaves block.2 = entriesIn tree.leaves block.2 := by
    intro block member
    obtain ⟨link, isBlock⟩ := grown.others block member
    rw [entriesIn, isBlock]
    rfl
  rw [contents, grown.flat_eq, ← List.cons_append, contents_append, contents_append, grown.joined,
    Fences.contents_congr fun block member => same block (List.mem_append_left _ member),
    Fences.contents_congr fun block member => same block (List.mem_append_right _ member)]

/-- They are the old ones and the new one. -/
theorem Grown.perm {after : Tree Key} {before extra behind : List (WithBot Key × LeafId)}
    {fence : WithBot Key} {leaf : LeafId}
    (grown : tree.Grown after key dummyval before fence leaf extra behind) :
    after.contents.Perm ((key, dummyval) :: tree.contents) := by
  rw [grown.contents_eq, contents, grown.located.split, contents_append, contents_cons,
    LeafNode.with, List.append_assoc, List.cons_append]
  have whole := List.take_append_drop ((tree.leaves leaf).slotOf key) (tree.leaves leaf).list
  conv_rhs => rw [entriesIn, ← whole, List.append_assoc, ← List.append_assoc]
  rw [← List.append_assoc]
  exact List.perm_middle

theorem Grown.mem_leaves {after : Tree Key} {before extra behind : List (WithBot Key × LeafId)}
    {fence : WithBot Key} {leaf other : LeafId}
    (grown : tree.Grown after key dummyval before fence leaf extra behind) :
    other ∈ after.flat.map Prod.snd ↔
      other ∈ tree.flat.map Prod.snd ∨ other ∈ extra.map Prod.snd := by
  rw [grown.flat_eq, grown.located.split]
  simp only [List.map_append, List.map_cons, List.mem_append, List.mem_cons]
  tauto

theorem Grown.rooted {after : Tree Key} {before extra behind : List (WithBot Key × LeafId)}
    {fence : WithBot Key} {leaf : LeafId}
    (grown : tree.Grown after key dummyval before fence leaf extra behind) : after.root ≠ none := by
  intro none
  have split := grown.flat_eq
  rw [Tree.flat, none] at split
  simp at split

/-- What a reader of a leaf may rely on after some insertions: the leaf is still there, and
while its `seq` has not moved on only its left neighbour may be another one. -/
structure Later (tree after : Tree Key) : Prop where
  entries : ∀ entry ∈ tree.contents, entry ∈ after.contents
  leaves : ∀ block ∈ tree.flat, block ∈ after.flat ∧ ∃ bumps,
    (after.leaves block.2).seq % wordBound =
      ((tree.leaves block.2).seq + bumps) % wordBound ∧
    tree.contents.length + bumps ≤ after.contents.length ∧
    (bumps = 0 → ∃ link, after.leaves block.2 = { tree.leaves block.2 with left := link })

omit [LinearOrder Key] in
theorem Later.of_congr {leaves : Leaves Key}
    (same : ∀ block ∈ tree.flat, leaves block.2 = tree.leaves block.2) :
    tree.Later { tree with leaves := leaves } := by
  have contents := contents_congr same
  refine ⟨fun entry member => by rwa [contents], fun block member => ⟨member, 0, ?_, ?_, ?_⟩⟩
  · rw [Nat.add_zero]
    exact congrArg (·.seq % wordBound) (same block member)
  · rw [contents, Nat.add_zero]
  · exact fun _ => ⟨_, same block member⟩

omit [LinearOrder Key] in
theorem Later.refl (tree : Tree Key) : tree.Later tree := .of_congr fun _ _ => rfl

omit [LinearOrder Key] in
theorem Later.trans {middle after : Tree Key} (first : tree.Later middle)
    (second : middle.Later after) : tree.Later after := by
  refine ⟨fun entry member => second.entries entry (first.entries entry member), ?_⟩
  intro block member
  obtain ⟨inMiddle, some, seq, count, same⟩ := first.leaves block member
  obtain ⟨inAfter, more, seq', count', same'⟩ := second.leaves block inMiddle
  refine ⟨inAfter, some + more, ?_, by omega, ?_⟩
  · rw [seq', Nat.add_mod, seq, ← Nat.add_mod, Nat.add_assoc]
  · intro none
    obtain ⟨link, isBlock⟩ := same (by omega)
    obtain ⟨link', isBlock'⟩ := same' (by omega)
    exact ⟨link', by rw [isBlock', isBlock]⟩

theorem Grown.later {after : Tree Key} {before extra behind : List (WithBot Key × LeafId)}
    {fence : WithBot Key} {leaf : LeafId}
    (grown : tree.Grown after key dummyval before fence leaf extra behind) : tree.Later after := by
  have count : after.contents.length = tree.contents.length + 1 := grown.perm.length_eq
  refine ⟨fun entry member => grown.perm.mem_iff.mpr (List.mem_cons_of_mem _ member), ?_⟩
  intro block member
  have inAfter : block ∈ after.flat := by
    rw [grown.flat_eq]
    rw [grown.located.split] at member
    simp only [List.mem_append, List.mem_cons] at member ⊢
    tauto
  rw [grown.located.split, List.mem_append, List.mem_cons] at member
  by_cases here : block = (fence, leaf)
  · subst here
    refine ⟨inAfter, 1, ?_, count.ge, fun none => absurd none one_ne_zero⟩
    rw [grown.seq, Nat.mod_mod]
  · have other : block ∈ before ++ behind := by
      rw [List.mem_append]
      tauto
    obtain ⟨link, isBlock⟩ := grown.others block other
    refine ⟨inAfter, 0, ?_, by omega, fun _ => ⟨link, isBlock⟩⟩
    rw [isBlock, Nat.add_zero]

variable [Inhabited Key]

/-- The leaf that an insertion ends in. -/
theorem WellFormed.located (wellFormed : tree.WellFormed) (rooted : tree.root ≠ none) :
    ∃ root before fence leaf behind, tree.root = some root ∧
      Located tree.flat key before fence leaf behind ∧
      InsertedIn tree.leaves key dummyval fresh root (tree.insertRtm key dummyval fresh)
        before fence leaf behind := by
  obtain ⟨⟨depth, root⟩, isRoot⟩ := Option.ne_none_iff_exists'.mp rooted
  have ordered := wellFormed.chained.ordered
  have fits := wellFormed.fits
  simp only [Tree.flat, isRoot] at ordered
  simp only [Tree.Fits, isRoot] at fits
  obtain ⟨before, fence, leaf, behind, located, inserted⟩ := insertAt_spec ordered fits
  refine ⟨⟨depth, root⟩, before, fence, leaf, behind, isRoot, ?_, ?_⟩
  · rwa [Tree.flat, isRoot]
  · rwa [Tree.insertRtm, isRoot]

theorem WellFormed.insertRtm_found (wellFormed : tree.WellFormed)
    (stored : (key, node) ∈ tree.contents) :
    tree.insertRtm key dummyval fresh = ⟨tree, node, false, false⟩ := by
  obtain ⟨root, before, fence, leaf, behind, isRoot, located, inserted⟩ :=
    @WellFormed.located _ _ tree key dummyval fresh _ wellFormed (rooted_of_mem stored)
  have chained := wellFormed.chained
  rw [contents, located.split] at stored
  rw [located.split] at chained
  have found := @leafInsert_found _ _ tree.leaves leaf fresh key dummyval node chained.ascending
    ((chained.mem_contents_iff located.reached located.ended).mp stored)
  obtain ⟨leavesEq, valEq, takenEq, leafTakenEq, kept, -⟩ := inserted
  rw [found] at leavesEq valEq takenEq leafTakenEq kept
  have rootEq := kept rfl
  rw [← isRoot] at rootEq
  cases result : tree.insertRtm key dummyval fresh with
  | mk after val taken leafTaken =>
      rw [result] at leavesEq valEq takenEq leafTakenEq rootEq
      cases after
      cases tree
      simp_all

theorem WellFormed.insertRtm_absent (wellFormed : tree.WellFormed) (rooted : tree.root ≠ none)
    (absent : ∀ node, (key, node) ∉ tree.contents) (unused : fresh ∉ tree.flat.map Prod.snd) :
    ∃ before fence leaf extra behind,
      tree.Grown (tree.insertRtm key dummyval fresh).tree key dummyval before fence leaf extra
        behind ∧
      (tree.insertRtm key dummyval fresh).tree.WellFormed ∧
      (tree.insertRtm key dummyval fresh).val = dummyval ∧
      (tree.insertRtm key dummyval fresh).taken = true ∧
      extra.map Prod.snd =
        if (tree.insertRtm key dummyval fresh).leafTaken then [fresh] else [] := by
  obtain ⟨root, before, fence, leaf, behind, isRoot, located, inserted⟩ :=
    @WellFormed.located _ _ tree key dummyval fresh _ wellFormed rooted
  have chained := wellFormed.chained
  rw [located.split] at chained unused
  have absentHere : ∀ node, (key, node) ∉ (tree.leaves leaf).list := by
    intro node member
    apply absent node
    rw [contents, located.split]
    exact (chained.mem_contents_iff located.reached located.ended).mpr member
  obtain ⟨after, isAfter⟩ : ∃ after, (tree.insertRtm key dummyval fresh).tree = after := ⟨_, rfl⟩
  obtain ⟨leavesEq, valEq, takenEq, leafTakenEq, kept, grown⟩ := inserted
  rw [isAfter] at leavesEq kept grown ⊢
  by_cases full : (tree.leaves leaf).numKeys = nodeKeys
  · obtain ⟨rest, sibling, result, split⟩ :=
      @leafInsert_full _ _ tree.leaves leaf fresh key dummyval absentHere full
    simp only [result] at leavesEq valEq takenEq leafTakenEq grown
    have notFresh : leaf ≠ fresh := fun same => unused (by simp [same])
    obtain ⟨low, high, restBelow, siblingAbove⟩ :=
      chained.separated located.reached located.ended absentHere split
    have first : firstKey (afterSplit tree.leaves leaf fresh rest sibling) fresh =
        (sibling.entries 0).1 := by rw [firstKey, afterSplit_fresh]
    have whenAlone : sibling.numKeys = 1 → behind = [] := by
      intro one
      have last := chained.links.2.symm.trans (split.alone one)
      simpa using last
    obtain ⟨flatEq, fits⟩ := grown fresh rfl
      ⟨by rw [first]; exact low, by rw [first]; exact high, by rwa [afterSplit_fresh]⟩
    rw [first] at flatEq
    refine ⟨before, fence, leaf, [((sibling.entries 0).1, fresh)], behind,
      ⟨located, flatEq, ?_, ?_, ?_⟩, ⟨fits, ?_⟩, valEq, takenEq, ?_⟩
    · rw [leavesEq]
      simp [entriesIn, afterSplit_leaf notFresh, split.joined]
    · rw [leavesEq, afterSplit_leaf notFresh, split.rest_seq]
    · intro block member
      rw [leavesEq, chained.afterSplit_other unused member]
      exact linkBack_eq
    · rw [leavesEq, flatEq]
      exact chained.insert_full located.reached located.ended absentHere unused split
    · rw [leafTakenEq]
      rfl
  · obtain ⟨node, result, list, numKeys, left, right, seq⟩ :=
      @leafInsert_room _ _ tree.leaves leaf fresh key dummyval absentHere full
    simp only [result] at leavesEq valEq takenEq leafTakenEq kept
    have rootEq : after.root = tree.root := (kept trivial).trans isRoot.symm
    have flatEq : after.flat = tree.flat := by rw [Tree.flat, rootEq]; rfl
    refine ⟨before, fence, leaf, [], behind, ⟨located, ?_, ?_, ?_, ?_⟩, ⟨?_, ?_⟩, valEq, takenEq,
      ?_⟩
    · rw [flatEq, located.split]
      rfl
    · simp [leavesEq, entriesIn, list]
    · rw [leavesEq, Function.update_self, seq]
    · intro block member
      rw [leavesEq, Function.update_of_ne (chained.other_ne member)]
      exact ⟨_, rfl⟩
    · have fits := wellFormed.fits
      rwa [Tree.Fits, ← rootEq] at fits
    · rw [leavesEq, flatEq, located.split]
      exact chained.insert_room located.reached located.ended absentHere full list numKeys left
        right
    · rw [leafTakenEq]
      rfl

end Tree

end Rocc.Memstore.BPlusTree
