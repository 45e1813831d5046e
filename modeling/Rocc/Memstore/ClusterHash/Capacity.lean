import Rocc.Memstore.ClusterHash.Insert

/-!
# How much `ClusterHash` holds

`ClusterHash(expected_data)` has as many buckets as expected entries.  Its pool is meant
for the case that all entries have the same bucket, but the division by the width of a node
rounds down and the first indirect node is left out, so that in this case the pool is one
node short unless the width divides the number of entries.
-/

namespace Rocc.Memstore.ClusterHash

open Rtx

universe u

variable {clusterNum : Nat} {Data : Type u}

/-- `size_`: the sum is one of two `int`s, and without a result it overflows. -/
def Config.size (config : Config clusterNum) : Option Nat :=
  if config.indirectNum + config.logicalNum < 2 ^ 31 then
    some ((config.indirectNum + config.logicalNum) * config.layout.nodeSize % wordBound)
  else
    none

/-- The nodes that `insert` reads or writes on the way to the place it returns. -/
def Table.touched (config : Config clusterNum) (table : Table clusterNum Data) (key : Nat)
    (slot : Slot clusterNum) : List Nat :=
  visited (table.next config) (firstIn fun position index =>
    !((table.nodes position).keys index).valid) config.fuel (config.getHash key) ++ [slot.1]

/-- One `insert` after the other, with all nodes that they read or write. -/
def Table.insertAll [NeZero clusterNum] (config : Config clusterNum) (zeroed : Data) :
    Table clusterNum Data → List Nat → Option (Table clusterNum Data × List Nat)
  | table, [] => some (table, [])
  | table, key :: rest =>
      (table.insert config zeroed key).bind fun (after, slot) =>
        (after.insertAll config zeroed rest).map fun (final, touched) =>
          (final, table.touched config key slot ++ touched)

/-- The assertions of the constructor and of `insert` hold, and the nodes that are read or
written lie in the memory of the table. -/
def Config.Holds [NeZero clusterNum] (config : Config clusterNum) (zeroed : Data)
    (keys : List Nat) : Prop :=
  ∃ size after touched, 0 < config.indirectNum ∧ config.size = some size ∧ size ≠ 0 ∧
    (Table.init clusterNum zeroed).insertAll config zeroed keys = some (after, touched) ∧
      ∀ position ∈ touched,
        position * config.layout.nodeSize % wordBound + config.layout.nodeSize ≤ size

variable {config : Config clusterNum} {zeroed : Data} {table after : Table clusterNum Data}
variable {tails : Nat → List Nat} {key : Nat} {slot : Slot clusterNum}

namespace Table

theorem WellFormed.mem_touched (wellFormed : table.WellFormed config zeroed tails)
    {position : Nat} (member : position ∈ table.touched config key slot) :
    position ∈ path tails (config.getHash key) ∨ position = slot.1 := by
  rcases List.mem_append.mp member with onChain | isSlot
  · exact .inl (mem_of_mem_visited
      (wellFormed.chains.linked (config.getHash key) (config.getHash_lt key)) onChain)
  · exact .inr (List.mem_singleton.mp isSlot)

/-- What a number of insertions leave: each bucket has as many entries more as keys. -/
theorem WellFormed.insertAll [NeZero clusterNum] {keys touched : List Nat}
    (wellFormed : table.WellFormed config zeroed tails)
    (inserted : table.insertAll config zeroed keys = some (after, touched)) :
    ∃ longer, after.WellFormed config zeroed longer ∧
      (∀ bucket < config.logicalNum, (after.clusters config).held (path longer bucket) =
        (table.clusters config).held (path tails bucket) +
          keys.countP fun key => config.getHash key == bucket) ∧
      (∀ position ∈ touched, position < config.logicalNum + after.freeIndirectNum) ∧
      table.freeIndirectNum ≤ after.freeIndirectNum := by
  induction keys generalizing table tails touched with
  | nil =>
      cases inserted
      exact ⟨tails, wellFormed, fun _ _ => rfl, by simp, le_rfl⟩
  | cons key rest ih =>
      obtain ⟨⟨middle, slot⟩, isInsert, inserted⟩ := Option.bind_eq_some_iff.mp inserted
      obtain ⟨⟨final, later⟩, isRest, same⟩ := Option.map_eq_some_iff.mp inserted
      cases same
      rcases wellFormed.insert key with ⟨middle', slot', longer, isInsert', inserts⟩ | ⟨none, -, -⟩
      · rw [isInsert, Option.some.injEq, Prod.mk.injEq] at isInsert'
        obtain ⟨rfl, rfl⟩ := isInsert'
        obtain ⟨longest, kept, counts, inside, grown⟩ := ih inserts.wellFormed isRest
        have bucket := config.getHash_lt key
        have first := inserts.free_le
        refine ⟨longest, kept, ?_, ?_, ?_⟩
        · intro other isOther
          rw [counts other isOther, inserts.held other isOther, List.countP_cons]
          by_cases same : other = config.getHash key
          · simp [same]
            omega
          · simp [same, Ne.symm same]
        · intro position member
          rcases List.mem_append.mp member with now | isLater
          · rcases wellFormed.mem_touched now with onChain | rfl
            · have bound := wellFormed.chains.mem_path bucket onChain
              omega
            · have bound := inserts.wellFormed.chains.mem_path bucket inserts.member
              omega
          · exact inside position isLater
        · exact first.trans grown
      · rw [isInsert] at none
        cases none

/-- When a chain is full, the nodes handed out fit what all entries need. -/
theorem WellFormed.free_le_div [NeZero clusterNum] {total : Nat}
    (wellFormed : table.WellFormed config zeroed tails)
    (count : ∑ bucket ∈ Finset.range config.logicalNum,
      (table.clusters config).held (path tails bucket) = total)
    (all : ∀ position ∈ path tails (config.getHash key), ∀ index,
      ((table.nodes position).keys index).valid = true) :
    table.freeIndirectNum ≤ total / clusterNum := by
  have present : ∀ position ∈ path tails (config.getHash key), ∀ index,
      ((table.clusters config).entry position index).isSome := by
    intro position member index
    simp [clusters, all position member index]
  have bucket := config.getHash_lt key
  obtain ⟨chains, held⟩ := wellFormed.chains.grow bucket present (storedKey key)
  have bound := chains.handed_le ((sum_succ bucket held).trans (congrArg (· + 1) count))
  rw [Nat.add_sub_cancel] at bound
  omega

/-- While no more entries come than are expected, the assertion of `insert` holds. -/
theorem WellFormed.insertAll_isSome [NeZero clusterNum] {keys : List Nat} {total : Nat}
    (wellFormed : table.WellFormed config zeroed tails)
    (count : ∑ bucket ∈ Finset.range config.logicalNum,
      (table.clusters config).held (path tails bucket) = total)
    (few : total + keys.length ≤ config.expectedData)
    (enough : (config.expectedData - 1) / clusterNum < config.indirectNum) :
    (table.insertAll config zeroed keys).isSome := by
  induction keys generalizing table tails total with
  | nil => rfl
  | cons key rest ih =>
      rw [List.length_cons] at few
      rcases wellFormed.insert key with ⟨middle, slot, longer, isInsert, inserts⟩ | ⟨-, used, all⟩
      · have more := sum_succ (config.getHash_lt key) inserts.held
        have remaining := ih inserts.wellFormed (more.trans (congrArg (· + 1) count)) (by omega)
        obtain ⟨final, isFinal⟩ := Option.isSome_iff_exists.mp remaining
        rw [Table.insertAll, isInsert, Option.bind_some]
        simp only [isFinal]
        rfl
      · have bound := wellFormed.free_le_div count all
        have divided : total / clusterNum ≤ (config.expectedData - 1) / clusterNum :=
          Nat.div_le_div_right (by omega)
        omega

end Table

/-- The pool is large enough for one chain with all entries. -/
theorem div_lt_indirectNum [NeZero clusterNum] (config : Config clusterNum) :
    (config.expectedData - 1) / clusterNum < config.indirectNum ↔
      config.expectedData ≤ clusterNum ∨ clusterNum ∣ config.expectedData := by
  have positive := config.expected_pos
  have width := NeZero.pos clusterNum
  rw [Config.indirectNum]
  constructor
  · intro enough
    by_cases small : config.expectedData ≤ clusterNum
    · exact .inl small
    · rw [if_neg small, Nat.div_lt_iff_lt_mul width] at enough
      right
      have rounded := Nat.div_mul_le_self config.expectedData clusterNum
      exact ⟨config.expectedData / clusterNum, by rw [mul_comm]; omega⟩
  · rintro (small | divides)
    · rw [if_pos small, Nat.div_eq_of_lt (by omega)]
      exact positive
    · split
      · rename_i small
        rw [Nat.div_eq_of_lt (by omega)]
        exact positive
      · rw [Nat.div_lt_iff_lt_mul width, Nat.div_mul_cancel divides]
        omega

/-- The same table with another function in place of `get_hash`. -/
def Config.withHash (config : Config clusterNum) (getHash : Nat → Nat)
    (getHash_lt : ∀ key, getHash key < config.expectedData) : Config clusterNum :=
  { config with getHash := getHash, getHash_lt := getHash_lt }

/-- The sizes for which nothing overflows and the pool suffices. -/
structure Config.Fits (config : Config clusterNum) : Prop where
  divides : config.expectedData ≤ clusterNum ∨ clusterNum ∣ config.expectedData
  nodes_lt : config.indirectNum + config.logicalNum < 2 ^ 31
  size_lt : (config.indirectNum + config.logicalNum) * config.layout.nodeSize < wordBound

theorem Config.Fits.holds [NeZero clusterNum] (fits : config.Fits) (zeroed : Data)
    {keys : List Nat} (few : keys.length ≤ config.expectedData) : config.Holds zeroed keys := by
  have started : (Table.init clusterNum zeroed).WellFormed config zeroed fun _ => [] :=
    Table.wellFormed_init
  have none : ∑ bucket ∈ Finset.range config.logicalNum,
      ((Table.init clusterNum zeroed).clusters config).held (path (fun _ => []) bucket) = 0 := by
    apply Finset.sum_eq_zero
    intro bucket _
    simp [Clusters.held, Table.clusters, Table.init, HeaderNode.zero]
  have expected : 0 + keys.length ≤ config.expectedData := by omega
  obtain ⟨⟨after, touched⟩, inserted⟩ := Option.isSome_iff_exists.mp
    (started.insertAll_isSome none expected ((div_lt_indirectNum config).mpr fits.divides))
  obtain ⟨longer, wellFormed, -, inside, -⟩ := started.insertAll inserted
  have size : config.size =
      some ((config.indirectNum + config.logicalNum) * config.layout.nodeSize) := by
    rw [Config.size, if_pos fits.nodes_lt, Nat.mod_eq_of_lt fits.size_lt]
  have positive := indirectNum_pos config
  refine ⟨_, after, touched, positive, size, ?_, inserted, ?_⟩
  · exact (Nat.mul_pos (by omega) config.layout.nodeSize_pos).ne'
  · intro position member
    have bound := inside position member
    have below := wellFormed.free_le
    have within : (position + 1) * config.layout.nodeSize ≤
        (config.indirectNum + config.logicalNum) * config.layout.nodeSize :=
      Nat.mul_le_mul_right _ (by omega)
    rw [Nat.succ_mul] at within
    exact (Nat.add_le_add_right (Nat.mod_le _ _) _).trans within

/-- If all expected keys with one bucket fit, the pool is large enough. -/
theorem Config.Holds.divides [NeZero clusterNum]
    (hashed : ∀ key, config.getHash key = 0)
    (holds : config.Holds zeroed (List.range config.expectedData)) :
    config.expectedData ≤ clusterNum ∨ clusterNum ∣ config.expectedData := by
  obtain ⟨size, after, touched, -, -, -, inserted, -⟩ := holds
  have started : (Table.init clusterNum zeroed).WellFormed config zeroed fun _ => [] :=
    Table.wellFormed_init
  obtain ⟨longer, wellFormed, counts, -, -⟩ := started.insertAll inserted
  have isBucket : 0 < config.logicalNum := config.expected_pos
  have count := counts 0 isBucket
  have length := wellFormed.chains.lengths 0 isBucket
  have handed := wellFormed.chains.length_tail_le isBucket
  have below := wellFormed.free_le
  have positive := wellFormed.free_pos
  have none : ((Table.init clusterNum zeroed).clusters config).held
      (path (fun _ => []) 0) = 0 := by
    simp [Clusters.held, Table.clusters, Table.init, HeaderNode.zero]
  have all : (List.range config.expectedData).countP
      (fun key => config.getHash key == 0) = config.expectedData := by
    rw [List.countP_eq_length.mpr (by simp [hashed]), List.length_range]
  rw [none, all, Nat.zero_add] at count
  rw [count] at length
  rw [← div_lt_indirectNum]
  omega

/-- If a node of each bucket lies in the memory, its size does not wrap around. -/
theorem Config.Holds.size_lt [NeZero clusterNum] {position : Nat}
    (hashed : ∀ key, config.getHash key = position) (holds : config.Holds zeroed [key]) :
    ∃ size, config.size = some size ∧
      position * config.layout.nodeSize % wordBound + config.layout.nodeSize ≤ size := by
  obtain ⟨size, after, touched, -, isSize, -, inserted, inside⟩ := holds
  refine ⟨size, isSize, inside position ?_⟩
  obtain ⟨⟨middle, slot⟩, -, inserted⟩ := Option.bind_eq_some_iff.mp inserted
  obtain ⟨final, -, same⟩ := Option.map_eq_some_iff.mp inserted
  cases same
  apply List.mem_append_left
  apply List.mem_append_left
  rw [hashed, Config.fuel, visited]
  exact List.mem_cons_self

theorem indirectNum_le (config : Config clusterNum) :
    config.indirectNum ≤ config.expectedData := by
  rw [Config.indirectNum]
  split
  · exact le_rfl
  · exact Nat.div_le_self _ _

/-- A size that wraps around leaves the end of some bucket outside. -/
theorem exists_outside (config : Config clusterNum)
    (wraps : wordBound ≤ (config.indirectNum + config.logicalNum) * config.layout.nodeSize) :
    ∃ position < config.expectedData,
      (config.indirectNum + config.logicalNum) * config.layout.nodeSize % wordBound <
        position * config.layout.nodeSize % wordBound + config.layout.nodeSize := by
  have isBound : 0 < wordBound := by decide
  have positive := config.expected_pos
  have sized := config.layout.nodeSize_pos
  by_cases far : wordBound ≤ config.expectedData * config.layout.nodeSize
  · -- The bucket that ends behind the last word.
    have low := Nat.div_mul_le_self (wordBound - 1) config.layout.nodeSize
    have high := Nat.lt_div_mul_add (a := wordBound - 1) sized
    refine ⟨(wordBound - 1) / config.layout.nodeSize, ?_, ?_⟩
    · rw [Nat.div_lt_iff_lt_mul sized]
      omega
    · rw [Nat.mod_eq_of_lt (show (wordBound - 1) / config.layout.nodeSize *
        config.layout.nodeSize < wordBound by omega)]
      have small := Nat.mod_lt
        ((config.indirectNum + config.logicalNum) * config.layout.nodeSize) isBound
      omega
  · -- The last bucket.
    have few := Nat.mul_le_mul_right config.layout.nodeSize (indirectNum_le config)
    have split : (config.indirectNum + config.logicalNum) * config.layout.nodeSize =
        config.indirectNum * config.layout.nodeSize +
          config.expectedData * config.layout.nodeSize := Nat.add_mul _ _ _
    have last : (config.expectedData - 1) * config.layout.nodeSize + config.layout.nodeSize =
        config.expectedData * config.layout.nodeSize := by
      rw [← Nat.succ_mul, Nat.succ_eq_add_one, Nat.sub_add_cancel positive]
    refine ⟨config.expectedData - 1, by omega, ?_⟩
    rw [Nat.mod_eq_of_lt (show (config.expectedData - 1) * config.layout.nodeSize < wordBound by
      omega), Nat.mod_eq_sub_mod wraps, Nat.mod_eq_of_lt (by omega)]
    omega

/-- Whatever the buckets of the keys are, up to `expected_data` of them can be inserted
without a failing assertion and within the memory of the table, exactly if the width of a
node divides their number or all fit in one node, and no size overflows. -/
theorem capacity_iff [NeZero clusterNum] (config : Config clusterNum) (zeroed : Data) :
    (∀ getHash lt keys, keys.Nodup → (∀ key ∈ keys, key < wordBound) →
        keys.length ≤ config.expectedData → (config.withHash getHash lt).Holds zeroed keys) ↔
      config.Fits := by
  constructor
  · intro always
    have positive := config.expected_pos
    have nodes : config.indirectNum + config.logicalNum < 2 ^ 31 := by
      obtain ⟨size, -, -, -, isSize, -⟩ := always (fun _ => 0) (fun _ => positive) []
        List.nodup_nil (by simp) (Nat.zero_le _)
      by_contra! many
      have overflows : (config.withHash (fun _ => 0) fun _ => positive).size = none :=
        if_neg (not_lt.mpr many)
      rw [overflows] at isSize
      cases isSize
    refine ⟨?_, nodes, ?_⟩
    · refine @Config.Holds.divides _ _ (config.withHash (fun _ => 0) fun _ => positive) zeroed _
        (fun _ => rfl) ?_
      apply always _ _ _ List.nodup_range
      · intro key member
        have small := List.mem_range.mp member
        have bound : (2 : Nat) ^ 31 ≤ wordBound := by decide
        change config.indirectNum + config.expectedData < 2 ^ 31 at nodes
        change key < config.expectedData at small
        omega
      · exact List.length_range.le
    · by_contra! wraps
      obtain ⟨position, isBucket, outside⟩ := exists_outside config wraps
      have one := always (fun _ => position) (fun _ => isBucket) [0] (List.nodup_singleton 0)
        (by simp [wordBound]) positive
      obtain ⟨size, isSize, inside⟩ := one.size_lt fun _ => rfl
      have same : config.size = some ((config.indirectNum + config.logicalNum) *
          config.layout.nodeSize % wordBound) := if_pos nodes
      rw [show (config.withHash (fun _ => position) fun _ => isBucket).size = config.size from rfl,
        same, Option.some.injEq] at isSize
      subst isSize
      exact absurd inside (not_le.mpr outside)
  · intro fits getHash lt keys _ _ few
    have same : (config.withHash getHash lt).Fits :=
      ⟨fits.divides, fits.nodes_lt, fits.size_lt⟩
    exact same.holds zeroed few

/-- Nodes of four entries on cache lines of their own, with one bucket for all keys. -/
def oneBucket (expectedData : Nat) (positive : 0 < expectedData) : Config 4 where
  expectedData := expectedData
  layout := ⟨64, 64, 384, by decide, by decide⟩
  baseOff := 0
  getHash _ := 0
  expected_pos := positive
  getHash_lt _ := positive

theorem capacity_iff_eight :
    (oneBucket 8 (by decide)).Holds () [1, 2, 3, 4, 5, 6, 7, 8] := by
  refine (capacity_iff (oneBucket 8 (by decide)) ()).mpr ⟨?_, ?_, ?_⟩ (fun _ => 0)
    (fun _ => by decide) _ ?_ ?_ ?_
  all_goals decide

/-- Five entries in one bucket need a second indirect node, the first one that can be handed
out, and there is none. -/
theorem not_capacity : ¬ ∀ (config : Config 4) (keys : List Nat), keys.Nodup →
    (∀ key ∈ keys, key < wordBound) → keys.length ≤ config.expectedData →
      config.Holds () keys := by
  intro always
  obtain ⟨size, after, touched, -, -, -, inserted, -⟩ :=
    always (oneBucket 5 (by decide)) [1, 2, 3, 4, 5] (by decide) (by decide) (by decide)
  have fails : ((Table.init 4 ()).insertAll (oneBucket 5 (by decide)) ()
      [1, 2, 3, 4, 5]).isSome = false := by decide +kernel
  rw [inserted] at fails
  cases fails

end Rocc.Memstore.ClusterHash
