import Rocc.Memstore.ClusterHash.Model

/-!
# Insertions into `ClusterHash`

A table as chains of clusters, and what `insert` does to it: the key comes into the first
free entry of the chain of its bucket, or into a new node behind a full chain, and nothing
else changes.
-/

namespace Rocc.Memstore.ClusterHash

universe u

variable {clusterNum : Nat} {Data : Type u} {config : Config clusterNum}

theorem indirectNum_pos [NeZero clusterNum] (config : Config clusterNum) :
    0 < config.indirectNum := by
  have positive := config.expected_pos
  rw [Config.indirectNum]
  split
  · exact positive
  · rename_i many
    exact Nat.div_pos (le_of_lt (not_le.mp many)) (NeZero.pos clusterNum)

namespace Table

variable {zeroed : Data} {table after : Table clusterNum Data} {tails longer : Nat → List Nat}
variable {key last : Nat} {slot : Slot clusterNum}

/-- The entries with their valid bit set, and the links. -/
def clusters (config : Config clusterNum) (table : Table clusterNum Data) :
    Clusters Nat clusterNum where
  entry position index :=
    let key := (table.nodes position).keys index
    if key.valid then some key.key else none
  link := table.next config

/-- The chains of the buckets, of which the `tails` are the indirect nodes; the indices in
the nodes are those that have been handed out, and the other nodes are as they were. -/
structure WellFormed (config : Config clusterNum) (zeroed : Data)
    (table : Table clusterNum Data) (tails : Nat → List Nat) : Prop where
  chains : Chains config.logicalNum (config.logicalNum + 1)
    (config.logicalNum + table.freeIndirectNum) (table.clusters config) tails
  free_pos : 0 < table.freeIndirectNum
  free_le : table.freeIndirectNum ≤ config.indirectNum
  next_nonneg : ∀ position, 0 ≤ (table.nodes position).next
  next_lt : ∀ position, (table.nodes position).next < table.freeIndirectNum
  unused : ∀ position, config.logicalNum + table.freeIndirectNum ≤ position →
    table.nodes position = .zero zeroed

theorem wellFormed_init [NeZero clusterNum] :
    (init clusterNum zeroed).WellFormed config zeroed fun _ => [] := by
  constructor
  case chains =>
    apply Chains.empty (Nat.le_succ _)
    · intro node
      simp [clusters, next, init, HeaderNode.zero]
    · intro node index
      simp [clusters, init, HeaderNode.zero]
  case free_le => exact indirectNum_pos config
  all_goals simp [init, HeaderNode.zero]

/-! ## The loops -/

theorem WellFormed.enough (wellFormed : table.WellFormed config zeroed tails) :
    config.logicalNum + table.freeIndirectNum - (config.logicalNum + 1) < config.fuel := by
  have bound := wellFormed.free_le
  rw [Config.fuel]
  omega

/-- `get` looks through the chain of the key. -/
theorem WellFormed.get_eq (wellFormed : table.WellFormed config zeroed tails) (key : Nat) :
    table.get config key =
      some ((slots clusterNum (path tails (config.getHash key))).find? fun slot =>
        (table.nodes slot.1).isKey key slot.2) := by
  refine (wellFormed.chains.walk_firstIn (config.getHash_lt key)
    (fun position => (table.nodes position).isKey key) some (fun _ => none)
    wellFormed.enough).trans ?_
  cases (slots clusterNum (path tails (config.getHash key))).find? fun slot =>
    (table.nodes slot.1).isKey key slot.2 <;> rfl

/-- The loop of `insert` ends at a free entry of the chain, or at its last node if there is
none. -/
theorem WellFormed.freeSlot_spec (wellFormed : table.WellFormed config zeroed tails)
    (key : Nat) :
    (∃ slot : Slot clusterNum, table.freeSlot config key = some (.inl slot) ∧
        slot.1 ∈ path tails (config.getHash key) ∧
        ((table.nodes slot.1).keys slot.2).valid = false) ∨
      table.freeSlot config key = some (.inr (Chains.last tails (config.getHash key))) ∧
        ∀ position ∈ path tails (config.getHash key), ∀ index,
          ((table.nodes position).keys index).valid = true := by
  have walked := wellFormed.chains.walk_firstIn (config.getHash_lt key)
    (fun position index => !((table.nodes position).keys index).valid)
    (.inl : Slot clusterNum → Slot clusterNum ⊕ Nat) .inr wellFormed.enough
  cases found : (slots clusterNum (path tails (config.getHash key))).find? fun slot =>
      !((table.nodes slot.1).keys slot.2).valid with
  | some slot =>
      have passed := List.find?_some found
      have member := mem_slots.mp (List.mem_of_find?_eq_some found)
      rw [found] at walked
      exact .inl ⟨slot, walked, member, by simpa using passed⟩
  | none =>
      rw [found] at walked
      refine .inr ⟨walked, fun position member index => ?_⟩
      have failed := List.find?_eq_none.mp found (position, index) (mem_slots.mpr member)
      simpa using failed

/-! ## Insertion -/

theorem clusters_setKey (slot : Slot clusterNum) (key : Nat) :
    (table.setKey slot key).clusters config =
      (table.clusters config).fill slot (storedKey key) := by
  have entries : ((table.setKey slot key).clusters config).entry =
      ((table.clusters config).fill slot (storedKey key)).entry := by
    funext position index
    by_cases same : position = slot.1
    · subst same
      by_cases chosen : index = slot.2
      · subst chosen
        simp [clusters, setKey, Clusters.fill]
      · simp [clusters, setKey, Clusters.fill, Function.update_of_ne chosen]
    · simp [clusters, setKey, Clusters.fill, Function.update_of_ne same]
  have links : ((table.setKey slot key).clusters config).link =
      ((table.clusters config).fill slot (storedKey key)).link := by
    funext position
    by_cases same : position = slot.1
    · subst same
      simp [clusters, next, setKey, Clusters.fill]
    · simp [clusters, next, setKey, Clusters.fill, Function.update_of_ne same]
  exact congrArg₂ Clusters.mk entries links

/-- The two nodes that change when a new one is linked. -/
theorem allocNew_spec [NeZero clusterNum] (room : table.freeIndirectNum < config.indirectNum)
    (old : last < config.logicalNum + table.freeIndirectNum) (zeroed : Data) (key : Nat) :
    ∃ after, table.allocNew config zeroed last key =
        some (after, config.logicalNum + table.freeIndirectNum, 0) ∧
      after.freeIndirectNum = table.freeIndirectNum + 1 ∧
      after.nodes (config.logicalNum + table.freeIndirectNum) = { HeaderNode.zero zeroed with
        keys := Function.update (fun _ => ⟨false, 0⟩) 0 ⟨true, storedKey key⟩ } ∧
      after.nodes last = { table.nodes last with next := table.freeIndirectNum } ∧
      ∀ other, other ≠ last → other ≠ config.logicalNum + table.freeIndirectNum →
        after.nodes other = table.nodes other := by
  have position : config.indirectNode table.freeIndirectNum =
      config.logicalNum + table.freeIndirectNum := by
    simp only [Config.indirectNode]
    omega
  rw [← position] at old ⊢
  rw [allocNew, if_pos room]
  refine ⟨_, rfl, rfl, ?_, ?_, ?_⟩
  · exact (Function.update_of_ne (ne_of_gt old) _ _).trans (Function.update_self ..)
  · simp only [Function.update_self]
    rw [Function.update_of_ne (ne_of_lt old)]
  · intro other notLast notFresh
    simp only
    rw [Function.update_of_ne notLast, Function.update_of_ne notFresh]

theorem clusters_grow [NeZero clusterNum] (positive : 0 < table.freeIndirectNum)
    (old : last < config.logicalNum + table.freeIndirectNum)
    (unlinked : table.next config (config.logicalNum + table.freeIndirectNum) = none)
    (fresh : after.nodes (config.logicalNum + table.freeIndirectNum) =
      { HeaderNode.zero zeroed with
        keys := Function.update (fun _ => ⟨false, 0⟩) 0 ⟨true, storedKey key⟩ })
    (atLast : after.nodes last = { table.nodes last with next := table.freeIndirectNum })
    (others : ∀ other, other ≠ last → other ≠ config.logicalNum + table.freeIndirectNum →
      after.nodes other = table.nodes other) :
    after.clusters config = (table.clusters config).grow last
      (config.logicalNum + table.freeIndirectNum) (storedKey key) := by
  have entries : (after.clusters config).entry = ((table.clusters config).grow last
      (config.logicalNum + table.freeIndirectNum) (storedKey key)).entry := by
    funext position index
    by_cases isFresh : position = config.logicalNum + table.freeIndirectNum
    · subst isFresh
      by_cases first : index = 0
      · subst first
        simp [clusters, fresh, Clusters.grow]
      · simp [clusters, fresh, Clusters.grow, Function.update_of_ne first]
    · by_cases isLast : position = last
      · subst isLast
        simp [clusters, atLast, Clusters.grow, Function.update_of_ne isFresh]
      · simp [clusters, others position isLast isFresh, Clusters.grow,
          Function.update_of_ne isFresh]
  have links : (after.clusters config).link = ((table.clusters config).grow last
      (config.logicalNum + table.freeIndirectNum) (storedKey key)).link := by
    funext position
    by_cases isLast : position = last
    · subst isLast
      have target : config.indirectNode table.freeIndirectNum =
          config.logicalNum + table.freeIndirectNum := by
        simp only [Config.indirectNode]
        omega
      have notZero : (table.freeIndirectNum : Int) ≠ 0 := by omega
      simp only [clusters, next, atLast, Clusters.grow, Function.update_self, if_pos notZero,
        target]
    · by_cases isFresh : position = config.logicalNum + table.freeIndirectNum
      · subst isFresh
        simp only [clusters, Clusters.grow, Function.update_of_ne isLast, unlinked]
        simp [next, fresh, HeaderNode.zero]
      · simp only [clusters, Clusters.grow, Function.update_of_ne isLast, next,
          others position isLast isFresh]
  exact congrArg₂ Clusters.mk entries links

/-- What `insert` does: the key comes into a place of its chain that was free, and the other
places and all contents are as before. -/
structure Inserts (config : Config clusterNum) (zeroed : Data)
    (table after : Table clusterNum Data) (tails longer : Nat → List Nat) (key : Nat)
    (slot : Slot clusterNum) : Prop where
  wellFormed : after.WellFormed config zeroed longer
  member : slot.1 ∈ path longer (config.getHash key)
  isFree : ((table.nodes slot.1).keys slot.2).valid = false
  set : (after.nodes slot.1).keys slot.2 = ⟨true, storedKey key⟩
  kept : ∀ other : Slot clusterNum, other ≠ slot →
    (after.nodes other.1).keys other.2 = (table.nodes other.1).keys other.2
  data : ∀ other, after.data other = table.data other
  sub : ∀ bucket < config.logicalNum, path tails bucket ⊆ path longer bucket
  free_le : table.freeIndirectNum ≤ after.freeIndirectNum
  held : ∀ bucket < config.logicalNum, (after.clusters config).held (path longer bucket) =
    (table.clusters config).held (path tails bucket) +
      if bucket = config.getHash key then 1 else 0

theorem WellFormed.setKey (wellFormed : table.WellFormed config zeroed tails)
    (member : slot.1 ∈ path tails (config.getHash key))
    (isFree : ((table.nodes slot.1).keys slot.2).valid = false) :
    Inserts config zeroed table (table.setKey slot key) tails tails key slot := by
  have bucket := config.getHash_lt key
  have free : (table.clusters config).entry slot.1 slot.2 = none := by
    simp [clusters, isFree]
  obtain ⟨chains, held⟩ := wellFormed.chains.fill bucket member free (storedKey key)
  rw [← clusters_setKey] at chains held
  have nodes : ∀ position,
      ((table.setKey slot key).nodes position).next = (table.nodes position).next ∧
        ((table.setKey slot key).nodes position).datas = (table.nodes position).datas := by
    intro position
    by_cases same : position = slot.1
    · subst same
      simp [Table.setKey]
    · simp [Table.setKey, Function.update_of_ne same]
  constructor
  case wellFormed =>
    constructor
    case chains => exact chains
    case free_pos => exact wellFormed.free_pos
    case free_le => exact wellFormed.free_le
    case next_nonneg => exact fun position => (nodes position).1 ▸ wellFormed.next_nonneg position
    case next_lt => exact fun position => (nodes position).1 ▸ wellFormed.next_lt position
    case unused =>
      intro position outside
      have notHere : position ≠ slot.1 := by
        rintro rfl
        exact absurd (wellFormed.chains.mem_path bucket member) (not_lt.mpr outside)
      exact (Function.update_of_ne notHere _ _).trans (wellFormed.unused position outside)
  case member => exact member
  case isFree => exact isFree
  case set => simp [Table.setKey]
  case kept =>
    intro other different
    by_cases same : other.1 = slot.1
    · have elsewhere : other.2 ≠ slot.2 := fun sameIndex => different (Prod.ext same sameIndex)
      simp [Table.setKey, same, Function.update_of_ne elsewhere]
    · simp [Table.setKey, Function.update_of_ne same]
  case data => exact fun other => congrFun (nodes other.1).2 other.2
  case sub => exact fun _ _ => List.Subset.refl _
  case free_le => exact le_rfl
  case held => exact held

theorem WellFormed.allocNew [NeZero clusterNum]
    (wellFormed : table.WellFormed config zeroed tails)
    (all : ∀ position ∈ path tails (config.getHash key), ∀ index,
      ((table.nodes position).keys index).valid = true)
    (room : table.freeIndirectNum < config.indirectNum) :
    ∃ after, table.allocNew config zeroed (Chains.last tails (config.getHash key)) key =
        some (after, config.logicalNum + table.freeIndirectNum, 0) ∧
      Inserts config zeroed table after tails (Function.update tails (config.getHash key)
          (tails (config.getHash key) ++ [config.logicalNum + table.freeIndirectNum])) key
        (config.logicalNum + table.freeIndirectNum, 0) := by
  have bucket := config.getHash_lt key
  have old := wellFormed.chains.mem_path bucket Chains.last_mem
  obtain ⟨after, allocated, advanced, fresh, atLast, others⟩ :=
    allocNew_spec room old zeroed key
  have present : ∀ position ∈ path tails (config.getHash key), ∀ index,
      ((table.clusters config).entry position index).isSome := by
    intro position member index
    simp [clusters, all position member index]
  obtain ⟨chains, held⟩ := wellFormed.chains.grow bucket present (storedKey key)
  have zero := wellFormed.unused _ le_rfl
  have unlinked : table.next config (config.logicalNum + table.freeIndirectNum) = none := by
    rw [next, zero]
    rfl
  rw [← clusters_grow wellFormed.free_pos old unlinked fresh atLast others] at chains held
  refine ⟨after, allocated, ?_⟩
  constructor
  case wellFormed =>
    have nexts : ∀ position, (after.nodes position).next = 0 ∨
        (after.nodes position).next = table.freeIndirectNum ∨
        (after.nodes position).next = (table.nodes position).next := by
      intro position
      by_cases isFresh : position = config.logicalNum + table.freeIndirectNum
      · exact .inl (by rw [isFresh, fresh]; rfl)
      · by_cases isLast : position = Chains.last tails (config.getHash key)
        · exact .inr (.inl (by rw [isLast, atLast]))
        · exact .inr (.inr (by rw [others position isLast isFresh]))
    constructor
    case chains =>
      rw [advanced, ← Nat.add_assoc]
      exact chains
    case free_pos => omega
    case free_le => omega
    case next_nonneg =>
      intro position
      have before := wellFormed.next_nonneg position
      rcases nexts position with same | same | same <;> omega
    case next_lt =>
      intro position
      have before := wellFormed.next_lt position
      rcases nexts position with same | same | same <;> omega
    case unused =>
      intro position outside
      rw [advanced] at outside
      rw [others position (by omega) (by omega)]
      exact wellFormed.unused position (by omega)
  case member => exact mem_path_extended _ _ _
  case isFree => simp [zero, HeaderNode.zero]
  case set => simp [fresh]
  case kept =>
    intro other different
    by_cases isFresh : other.1 = config.logicalNum + table.freeIndirectNum
    · have elsewhere : other.2 ≠ 0 := fun sameIndex => different (Prod.ext isFresh sameIndex)
      rw [isFresh, fresh, zero]
      simp [HeaderNode.zero, Function.update_of_ne elsewhere]
    · by_cases isLast : other.1 = Chains.last tails (config.getHash key)
      · rw [isLast, atLast]
      · rw [others _ isLast isFresh]
  case data =>
    intro other
    simp only [data]
    by_cases isFresh : other.1 = config.logicalNum + table.freeIndirectNum
    · rw [isFresh, fresh, zero]
    · by_cases isLast : other.1 = Chains.last tails (config.getHash key)
      · rw [isLast, atLast]
      · rw [others _ isLast isFresh]
  case sub => exact fun other _ => path_subset_extended _ _ _ other
  case free_le => omega
  case held => exact held

/-- `insert` finds a place, or the last node of a full chain when no node is left. -/
theorem WellFormed.insert [NeZero clusterNum] (wellFormed : table.WellFormed config zeroed tails)
    (key : Nat) :
    (∃ after slot longer, table.insert config zeroed key = some (after, slot) ∧
        Inserts config zeroed table after tails longer key slot) ∨
      table.insert config zeroed key = none ∧ table.freeIndirectNum = config.indirectNum ∧
        ∀ position ∈ path tails (config.getHash key), ∀ index,
          ((table.nodes position).keys index).valid = true := by
  rcases wellFormed.freeSlot_spec key with ⟨slot, isSlot, member, isFree⟩ | ⟨isLast, all⟩
  · refine .inl ⟨_, slot, tails, ?_, wellFormed.setKey member isFree⟩
    rw [Table.insert, isSlot]
    rfl
  · by_cases room : table.freeIndirectNum < config.indirectNum
    · obtain ⟨after, allocated, inserts⟩ := wellFormed.allocNew all room
      refine .inl ⟨after, _, _, ?_, inserts⟩
      rw [Table.insert, isLast]
      exact allocated
    · refine .inr ⟨?_, le_antisymm wellFormed.free_le (not_lt.mp room), all⟩
      rw [Table.insert, isLast]
      exact if_neg room

end Table

end Rocc.Memstore.ClusterHash
