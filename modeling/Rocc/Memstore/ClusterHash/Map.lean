import Rocc.Memstore.ClusterHash.Insert

/-!
# `ClusterHash` as a map

What a sequence of `get_with_insert` calls leaves, with writes to the places they have
returned in between: each key that was inserted has one place, which it keeps, and `get`
and both versions of `remote_get` find it.
-/

namespace Rocc.Memstore.ClusterHash

universe u

/-- A call of `get_with_insert`, or a write through a pointer that one has returned. -/
inductive Call (clusterNum : Nat) (Data : Type u) where
  | getWithInsert (key : Nat)
  | write (slot : Slot clusterNum) (data : Data)

variable {clusterNum : Nat} {Data : Type u}

/-- The key fits its 63 bits. -/
def Call.Small : Call clusterNum Data → Prop
  | .getWithInsert key => key < 2 ^ 63
  | .write _ _ => True

/-- The key that is inserted, if any. -/
def Call.key : Call clusterNum Data → Option Nat
  | .getWithInsert key => some key
  | .write _ _ => none

namespace Table

/-- One call; no result if the nodes are exhausted. -/
def step [NeZero clusterNum] (config : Config clusterNum) (zeroed : Data)
    (table : Table clusterNum Data) : Call clusterNum Data → Option (Table clusterNum Data)
  | .getWithInsert key => (table.getWithInsert config zeroed key).map Prod.fst
  | .write slot data =>
      if ((table.nodes slot.1).keys slot.2).valid then some (table.setData slot data) else none

/-- A sequence of calls. -/
def run [NeZero clusterNum] (config : Config clusterNum) (zeroed : Data)
    (table : Table clusterNum Data) (calls : List (Call clusterNum Data)) :
    Option (Table clusterNum Data) :=
  calls.foldlM (step config zeroed) table

/-- A map with these keys.  The loops end, a key has a place exactly if it was inserted, and
only one, and what comes from far away is where it is and what it holds. -/
structure IsMap (config : Config clusterNum) (table : Table clusterNum Data)
    (keys : List Nat) : Prop where
  get_eq_none : ∀ key, table.get config key = some none ↔ key ∉ keys
  get_eq_some : ∀ key ∈ keys, ∃ slot, table.get config key = some (some slot) ∧
    ∀ other, (table.nodes other.1).keys other.2 = ⟨true, key⟩ ↔ other = slot
  different : ∀ key other slot, table.get config key = some (some slot) →
    table.get config other = some (some slot) → key = other
  increasing : ∀ bucket < config.logicalNum, ∃ indices : List Nat,
    Leads (table.next config)
      (bucket :: indices.map fun index : Nat => config.indirectNode index) none ∧
        (0 :: indices).Pairwise (· < ·)
  loops_end : ∀ key, (table.get config key).isSome ∧ (table.freeSlot config key).isSome ∧
    (table.remoteGet config key).isSome ∧ (table.remoteGetYield config key).isSome
  remote : config.baseOff ≠ 0 → ∀ key slot, table.get config key = some (some slot) →
    table.remoteGet config key = some (some (config.slotOff slot, table.data slot)) ∧
      table.remoteGetYield config key = some (some (config.slotOff slot, table.data slot))

/-- The chains with the keys on them. -/
structure Inv (config : Config clusterNum) (zeroed : Data) (table : Table clusterNum Data)
    (tails : Nat → List Nat) (keys : List Nat) : Prop where
  wellFormed : table.WellFormed config zeroed tails
  keyed : Keyed config.logicalNum (table.clusters config) tails id config.getHash
  mem_iff : ∀ key, key ∈ keys ↔
    ∃ slot : Slot clusterNum, (table.nodes slot.1).keys slot.2 = ⟨true, key⟩

variable {config : Config clusterNum} {zeroed : Data} {table after : Table clusterNum Data}
variable {tails : Nat → List Nat} {keys : List Nat} {key : Nat} {slot : Slot clusterNum}

theorem isKey_iff {node : HeaderNode clusterNum Data} {index : Fin clusterNum} :
    node.isKey key index = true ↔ node.keys index = ⟨true, key⟩ := by
  cases stored : node.keys index with
  | mk valid own => simp [HeaderNode.isKey, stored, and_comm]

theorem holds_eq (position : Nat) (index : Fin clusterNum) :
    (table.clusters config).holds id key position index =
      (table.nodes position).isKey key index := by
  cases stored : (table.nodes position).keys index with
  | mk valid own => cases valid <;> simp [Clusters.holds, clusters, HeaderNode.isKey, stored]

/-! ## `get` -/

/-- A key is found where it is. -/
theorem Inv.get_eq_some_iff (inv : table.Inv config zeroed tails keys) :
    table.get config key = some (some slot) ↔
      (table.nodes slot.1).keys slot.2 = ⟨true, key⟩ := by
  rw [inv.wellFormed.get_eq]
  constructor
  · intro found
    have passed := List.find?_some (Option.some.inj found)
    exact isKey_iff.mp passed
  · intro stored
    have here : (table.clusters config).holds id key slot.1 slot.2 = true := by
      rw [holds_eq]
      exact isKey_iff.mpr stored
    have found := inv.keyed.find_of_holds inv.wellFormed.chains here
    simp only [holds_eq] at found
    exact congrArg some found

theorem Inv.get_eq_none_iff (inv : table.Inv config zeroed tails keys) :
    table.get config key = some none ↔ key ∉ keys := by
  rw [inv.mem_iff]
  constructor
  · rintro absent ⟨slot, stored⟩
    rw [inv.get_eq_some_iff.mpr stored] at absent
    cases absent
  · intro absent
    cases found : table.get config key with
    | none =>
        rw [inv.wellFormed.get_eq] at found
        cases found
    | some result =>
        cases result with
        | none => rfl
        | some slot => exact absurd ⟨slot, inv.get_eq_some_iff.mp found⟩ absent

/-! ## Calls -/

theorem inv_init [NeZero clusterNum] :
    (init clusterNum zeroed).Inv config zeroed (fun _ => []) [] := by
  have empty : ∀ position index, ((init clusterNum zeroed).clusters config).entry position index =
      none := fun _ _ => rfl
  refine ⟨wellFormed_init, ⟨?_, ?_⟩, ?_⟩
  · intro bucket _ position _ index found present
    rw [empty] at present
    cases present
  · intro slot other found also present
    rw [empty] at present
    cases present
  · simp [init, HeaderNode.zero]

theorem entry_eq_some_iff {position : Nat} {index : Fin clusterNum} {found : Nat} :
    (table.clusters config).entry position index = some found ↔
      (table.nodes position).keys index = ⟨true, found⟩ := by
  cases stored : (table.nodes position).keys index with
  | mk valid own => cases valid <;> simp [clusters, stored]

/-- A key that is new comes into a place that was free. -/
theorem Inv.inserts [NeZero clusterNum] {longer : Nat → List Nat}
    (inv : table.Inv config zeroed tails keys) (small : key < 2 ^ 63) (new : key ∉ keys)
    (inserts : Inserts config zeroed table after tails longer key slot) :
    after.Inv config zeroed longer (key :: keys) := by
  have stored : storedKey key = key := Nat.mod_eq_of_lt small
  have set := inserts.set
  rw [stored] at set
  refine ⟨inserts.wellFormed, ?_, ?_⟩
  · refine inv.keyed.add inv.wellFormed.chains inserts.wellFormed.chains inserts.sub
      (config.getHash_lt key) inserts.member (entry_eq_some_iff.mpr set) ?_ ?_
    · intro other different
      have same := inserts.kept other different
      simp [clusters, same]
    · rintro position index found present rfl
      exact new ((inv.mem_iff found).mpr ⟨(position, index), entry_eq_some_iff.mp present⟩)
  · intro other
    rw [List.mem_cons, inv.mem_iff]
    constructor
    · rintro (rfl | ⟨place, present⟩)
      · exact ⟨slot, set⟩
      · refine ⟨place, ?_⟩
        rw [inserts.kept place, present]
        rintro rfl
        have free := inserts.isFree
        rw [present] at free
        cases free
    · rintro ⟨place, present⟩
      by_cases same : place = slot
      · subst same
        rw [set, Key.mk.injEq] at present
        exact .inl present.2.symm
      · rw [inserts.kept place same] at present
        exact .inr ⟨place, present⟩

/-- `get_with_insert` returns the place of the key and leaves all other places and all
contents as they are. -/
theorem Inv.getWithInsert [NeZero clusterNum] (inv : table.Inv config zeroed tails keys)
    (small : key < 2 ^ 63)
    (inserted : table.getWithInsert config zeroed key = some (after, slot)) :
    ∃ longer, after.Inv config zeroed longer (key :: keys) ∧
      (after.nodes slot.1).keys slot.2 = ⟨true, key⟩ ∧
      (∀ other : Slot clusterNum, other ≠ slot →
        (after.nodes other.1).keys other.2 = (table.nodes other.1).keys other.2) ∧
      (∀ other : Slot clusterNum, ((table.nodes other.1).keys other.2).valid = true →
        (after.nodes other.1).keys other.2 = (table.nodes other.1).keys other.2) ∧
      ∀ other, after.data other = table.data other := by
  obtain ⟨result, looked, inserted⟩ := Option.bind_eq_some_iff.mp inserted
  cases result with
  | some existing =>
      cases inserted
      have present := inv.get_eq_some_iff.mp looked
      have member := (inv.mem_iff key).mpr ⟨slot, present⟩
      refine ⟨tails, ⟨inv.wellFormed, inv.keyed, ?_⟩, present, fun _ _ => rfl, fun _ _ => rfl,
        fun _ => rfl⟩
      intro other
      rw [← inv.mem_iff, List.mem_cons, or_iff_right_of_imp]
      rintro rfl
      exact member
  | none =>
      have new := inv.get_eq_none_iff.mp looked
      rcases inv.wellFormed.insert key with ⟨after', slot', longer, isInsert, inserts⟩ |
        ⟨isNone, -, -⟩
      · simp only [isInsert, Option.some.injEq, Prod.mk.injEq] at inserted
        obtain ⟨rfl, rfl⟩ := inserted
        have set := inserts.set
        rw [storedKey, Nat.mod_eq_of_lt small] at set
        refine ⟨longer, inv.inserts small new inserts, set, inserts.kept, ?_, inserts.data⟩
        intro other valid
        apply inserts.kept
        rintro rfl
        rw [inserts.isFree] at valid
        cases valid
      · simp only [isNone] at inserted
        cases inserted

theorem setData_nodes (slot : Slot clusterNum) (data : Data) (position : Nat) :
    ((table.setData slot data).nodes position).keys = (table.nodes position).keys ∧
      ((table.setData slot data).nodes position).next = (table.nodes position).next := by
  by_cases same : position = slot.1
  · subst same
    simp [setData]
  · simp [setData, Function.update_of_ne same]

theorem clusters_setData (slot : Slot clusterNum) (data : Data) :
    (table.setData slot data).clusters config = table.clusters config := by
  have entries : ((table.setData slot data).clusters config).entry =
      (table.clusters config).entry := by
    funext position index
    simp [clusters, (setData_nodes slot data position).1]
  have links : ((table.setData slot data).clusters config).link =
      (table.clusters config).link := by
    funext position
    simp [clusters, next, (setData_nodes slot data position).2]
  exact congrArg₂ Clusters.mk entries links

theorem Inv.setData (inv : table.Inv config zeroed tails keys)
    (valid : ((table.nodes slot.1).keys slot.2).valid = true) (data : Data) :
    (table.setData slot data).Inv config zeroed tails keys := by
  have same := @setData_nodes _ _ table slot data
  refine ⟨⟨?_, inv.wellFormed.free_pos, inv.wellFormed.free_le, ?_, ?_, ?_⟩, ?_, ?_⟩
  · rw [clusters_setData]
    exact inv.wellFormed.chains
  · exact fun position => (same position).2 ▸ inv.wellFormed.next_nonneg position
  · exact fun position => (same position).2 ▸ inv.wellFormed.next_lt position
  · intro position outside
    have zero := inv.wellFormed.unused position outside
    have elsewhere : position ≠ slot.1 := by
      rintro rfl
      rw [zero] at valid
      cases valid
    exact (Function.update_of_ne elsewhere _ _).trans zero
  · rw [clusters_setData]
    exact inv.keyed
  · intro key
    simp only [(same _).1]
    exact inv.mem_iff key

/-- A call keeps the keys and adds its own, and no valid entry changes. -/
theorem Inv.step [NeZero clusterNum] {call : Call clusterNum Data}
    (inv : table.Inv config zeroed tails keys) (small : call.Small)
    (stepped : table.step config zeroed call = some after) :
    ∃ longer, after.Inv config zeroed longer (call.key.toList ++ keys) ∧
      ∀ other : Slot clusterNum, ((table.nodes other.1).keys other.2).valid = true →
        (after.nodes other.1).keys other.2 = (table.nodes other.1).keys other.2 := by
  cases call with
  | getWithInsert key =>
      obtain ⟨⟨result, slot⟩, inserted, rfl⟩ := Option.map_eq_some_iff.mp stepped
      obtain ⟨longer, kept, -, -, entries, -⟩ := inv.getWithInsert small inserted
      exact ⟨longer, kept, entries⟩
  | write slot data =>
      rw [Table.step] at stepped
      split at stepped
      · rename_i valid
        cases stepped
        refine ⟨tails, inv.setData valid data, fun other _ => ?_⟩
        rw [(setData_nodes slot data other.1).1]
      · cases stepped

/-- The same for a sequence of calls. -/
theorem Inv.run [NeZero clusterNum] {calls : List (Call clusterNum Data)}
    (inv : table.Inv config zeroed tails keys) (small : ∀ call ∈ calls, call.Small)
    (ran : table.run config zeroed calls = some after) :
    ∃ longer keys', after.Inv config zeroed longer keys' ∧
      (∀ key, key ∈ keys' ↔ key ∈ keys ∨ key ∈ calls.filterMap Call.key) ∧
      ∀ other : Slot clusterNum, ((table.nodes other.1).keys other.2).valid = true →
        (after.nodes other.1).keys other.2 = (table.nodes other.1).keys other.2 := by
  induction calls generalizing table tails keys with
  | nil =>
      cases ran
      exact ⟨tails, keys, inv, by simp, fun _ _ => rfl⟩
  | cons call rest ih =>
      obtain ⟨middle, stepped, ran⟩ := Option.bind_eq_some_iff.mp ran
      obtain ⟨longer, kept, entries⟩ := inv.step (small call List.mem_cons_self) stepped
      obtain ⟨longest, keys', final, members, later⟩ :=
        ih kept (fun call member => small call (List.mem_cons_of_mem _ member)) ran
      refine ⟨longest, keys', final, ?_, ?_⟩
      · intro key
        rw [members, List.mem_append, List.filterMap_cons]
        cases call.key with
        | none => simp
        | some own =>
            simp only [Option.toList_some, List.mem_cons]
            tauto
      · intro other valid
        rw [later other (by rwa [entries other valid]), entries other valid]

/-! ## `remote_get` -/

theorem fetchNode_nodeOff (position : Nat) :
    table.fetchNode config (config.nodeOff position) = table.nodes position := by
  rw [fetchNode, Config.nodeOff, Nat.add_sub_cancel,
    Nat.mul_div_cancel _ config.layout.nodeSize_pos]

theorem nextOff_nodeOff (position : Nat) :
    table.nextOff config (config.nodeOff position) =
      (table.next config position).map config.nodeOff := by
  simp only [nextOff, fetchNode_nodeOff, next]
  split <;> rfl

/-- Where no assertion fails on the way, `remote_get` ends, and it returns what `get` finds. -/
theorem WellFormed.remoteGetWith (wellFormed : table.WellFormed config zeroed tails)
    {blocked : Nat → Bool} (open' : ∀ position, blocked (config.nodeOff position) = false)
    (key : Nat) :
    (table.remoteGetWith config blocked key).isSome ∧
      (config.baseOff ≠ 0 → ∀ slot, table.get config key = some (some slot) →
        table.remoteGetWith config blocked key =
          some (some (config.slotOff slot, table.data slot))) := by
  by_cases based : config.baseOff = 0
  · simp [Table.remoteGetWith, based]
  · have walked : table.remoteGetWith config blocked key =
        walk (table.next config)
          (fun position => (firstIn (fun position => (table.nodes position).isKey key)
            position).map fun slot => some (config.slotOff slot, table.data slot))
          (fun _ => none) config.fuel (config.getHash key) := by
      rw [Table.remoteGetWith, if_pos based]
      apply walk_map (wellFormed.chains.linked _ (config.getHash_lt key)) nextOff_nodeOff
      · intro position _
        simp only [fetchNode_nodeOff, firstIn, open']
        cases (List.finRange clusterNum).find? ((table.nodes position).isKey key) <;> rfl
      · exact fun _ => rfl
    have ended := walked.trans (wellFormed.chains.walk_firstIn (config.getHash_lt key)
      (fun position => (table.nodes position).isKey key)
      (fun slot => some (config.slotOff slot, table.data slot)) (fun _ => none)
      wellFormed.enough)
    rw [ended]
    refine ⟨rfl, ?_⟩
    intro _ slot found
    rw [wellFormed.get_eq, Option.some.injEq] at found
    rw [found]
    rfl

theorem WellFormed.remoteGet (wellFormed : table.WellFormed config zeroed tails) (key : Nat) :
    (table.remoteGet config key).isSome ∧
      (config.baseOff ≠ 0 → ∀ slot, table.get config key = some (some slot) →
        table.remoteGet config key = some (some (config.slotOff slot, table.data slot))) := by
  apply wellFormed.remoteGetWith
  intro position
  have nonneg := wellFormed.next_nonneg position
  have bound := wellFormed.next_lt position
  have below := wellFormed.free_le
  rw [fetchNode_nodeOff]
  simp
  omega

theorem WellFormed.remoteGetYield (wellFormed : table.WellFormed config zeroed tails)
    (key : Nat) :
    (table.remoteGetYield config key).isSome ∧
      (config.baseOff ≠ 0 → ∀ slot, table.get config key = some (some slot) →
        table.remoteGetYield config key =
          some (some (config.slotOff slot, table.data slot))) := by
  apply wellFormed.remoteGetWith
  intro position
  rw [nextOff_nodeOff]
  cases table.next config position with
  | none => rfl
  | some behind =>
      have nonneg := wellFormed.next_nonneg behind
      simp only [Option.map_some, Option.any_some, fetchNode_nodeOff, beq_eq_false_iff_ne]
      omega

/-! ## The map -/

/-- The indices along a chain increase. -/
theorem WellFormed.increasing (wellFormed : table.WellFormed config zeroed tails)
    {bucket : Nat} (isBucket : bucket < config.logicalNum) :
    ∃ indices : List Nat,
      Leads (table.next config)
        (bucket :: indices.map fun index : Nat => config.indirectNode index) none ∧
          (0 :: indices).Pairwise (· < ·) := by
  have inside := wellFormed.chains.inside bucket isBucket
  refine ⟨(tails bucket).map (· - config.logicalNum), ?_, ?_⟩
  · have same : ((tails bucket).map (· - config.logicalNum)).map
        (fun index : Nat => config.indirectNode index) = tails bucket := by
      rw [List.map_map]
      refine (List.map_congr_left ?_).trans (List.map_id _)
      intro position member
      have bound := (inside position member).1
      simp only [Function.comp_apply, Config.indirectNode, id_eq]
      omega
    rw [same]
    exact wellFormed.chains.linked bucket isBucket
  · rw [List.pairwise_cons]
    constructor
    · intro index member
      obtain ⟨position, inTail, rfl⟩ := List.mem_map.mp member
      have bound := (inside position inTail).1
      omega
    · rw [List.pairwise_map]
      refine (wellFormed.chains.sorted bucket isBucket).imp_of_mem ?_
      intro one two inOne inTwo less
      have bound := (inside one inOne).1
      omega

theorem Inv.isMap (inv : table.Inv config zeroed tails keys) : table.IsMap config keys := by
  constructor
  case get_eq_none => exact fun key => inv.get_eq_none_iff
  case get_eq_some =>
    intro key member
    obtain ⟨slot, stored⟩ := (inv.mem_iff key).mp member
    refine ⟨slot, inv.get_eq_some_iff.mpr stored, fun other => ⟨?_, ?_⟩⟩
    · intro also
      have found := inv.get_eq_some_iff.mpr stored
      rw [inv.get_eq_some_iff.mpr also, Option.some.injEq, Option.some.injEq] at found
      exact found
    · rintro rfl
      exact stored
  case different =>
    intro key other slot found also
    have stored := inv.get_eq_some_iff.mp found
    rw [inv.get_eq_some_iff.mp also, Key.mk.injEq] at stored
    exact stored.2.symm
  case increasing => exact fun bucket isBucket => inv.wellFormed.increasing isBucket
  case loops_end =>
    intro key
    refine ⟨?_, ?_, (inv.wellFormed.remoteGet key).1, (inv.wellFormed.remoteGetYield key).1⟩
    · rw [inv.wellFormed.get_eq]
      rfl
    · rcases inv.wellFormed.freeSlot_spec key with ⟨slot, found, -, -⟩ | ⟨found, -⟩
      · rw [found]
        rfl
      · rw [found]
        rfl
  case remote =>
    intro based key slot found
    exact ⟨(inv.wellFormed.remoteGet key).2 based slot found,
      (inv.wellFormed.remoteGetYield key).2 based slot found⟩

/-- Every table that a sequence of calls leaves is a map with the keys inserted.  A further
insertion returns the place of its key and changes no other place and no contents, and
further calls move no key. -/
theorem run_isMap [NeZero clusterNum] (config : Config clusterNum) (zeroed : Data)
    (calls : List (Call clusterNum Data)) (small : ∀ call ∈ calls, call.Small)
    (table : Table clusterNum Data)
    (ran : (init clusterNum zeroed).run config zeroed calls = some table) :
    table.IsMap config (calls.filterMap Call.key) ∧
      (∀ key < 2 ^ 63, ∀ after slot,
        table.getWithInsert config zeroed key = some (after, slot) →
          after.get config key = some (some slot) ∧
            (∀ other : Slot clusterNum, other ≠ slot →
              (after.nodes other.1).keys other.2 = (table.nodes other.1).keys other.2) ∧
            ∀ other, after.data other = table.data other) ∧
      ∀ more : List (Call clusterNum Data), (∀ call ∈ more, call.Small) → ∀ later,
        table.run config zeroed more = some later → ∀ key slot,
          table.get config key = some (some slot) → later.get config key = some (some slot) := by
  obtain ⟨tails, keys, inv, members, -⟩ := inv_init.run small ran
  refine ⟨?_, ?_, ?_⟩
  · have same : ∀ key, key ∈ keys ↔ key ∈ calls.filterMap Call.key := fun key => by
      simpa using members key
    exact Inv.isMap ⟨inv.wellFormed, inv.keyed, fun key => (same key).symm.trans (inv.mem_iff key)⟩
  · intro key isSmall after slot inserted
    obtain ⟨longer, kept, stored, entries, -, data⟩ := inv.getWithInsert isSmall inserted
    exact ⟨kept.get_eq_some_iff.mpr stored, entries, data⟩
  · intro more isSmall later ranMore key slot found
    obtain ⟨longer, keys', final, -, entries⟩ := inv.run isSmall ranMore
    have stored := inv.get_eq_some_iff.mp found
    rw [final.get_eq_some_iff, entries slot (by rw [stored]), stored]

end Table

/-- Four buckets of two entries, and a key in the bucket of its last bits. -/
def fourBuckets : Config 2 where
  expectedData := 4
  layout := ⟨16, 8, 40, by decide, by decide⟩
  baseOff := 64
  getHash key := key % 4
  expected_pos := Nat.succ_pos 3
  getHash_lt key := Nat.mod_lt key (Nat.succ_pos 3)

theorem run_isMap_three :
    ∃ table, (Table.init 2 0).run fourBuckets 0
        [.getWithInsert 1, .getWithInsert 5, .write (1, 1) 7, .getWithInsert 9] = some table ∧
      table.IsMap fourBuckets [1, 5, 9] := by
  have finished : ((Table.init 2 0).run fourBuckets 0
      [.getWithInsert 1, .getWithInsert 5, .write (1, 1) 7, .getWithInsert 9]).isSome := by
    decide +kernel
  obtain ⟨table, ran⟩ := Option.isSome_iff_exists.mp finished
  exact ⟨table, ran, (Table.run_isMap fourBuckets 0 _ (by simp [Call.Small]) table ran).1⟩

end Rocc.Memstore.ClusterHash
