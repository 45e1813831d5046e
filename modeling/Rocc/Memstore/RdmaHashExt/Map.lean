import Mathlib.Data.Finset.Card
import Rocc.Memstore.RdmaHashExt.Insert

/-!
# `RdmaHashExt` as a map

What sequences of `_GetWithInsert` and `Put` calls do with at most as many different keys
as the table is made for.  The pools never run out.  What can fail is the arithmetic: the
offsets are computed in 32 bits, and once the whole table does not fit them, `size` is too
small and the offsets of the data nodes come around to the header nodes.
-/

namespace Rocc.Memstore.RdmaHashExt

/-- A call with a pointer to a value. -/
inductive Call where
  | getWithInsert (key val : Nat)
  | put (key val : Nat)

/-- The key of a call. -/
def Call.key : Call → Nat
  | .getWithInsert key _ => key
  | .put key _ => key

/-- One call, with the offset of the data node returned. -/
def Table.call (config : Config) (table : Table) : Call → Option (Table × Nat)
  | .getWithInsert key val => table.getWithInsert config key val
  | .put key val => table.put config key val

/-- A sequence of calls; no result if one of them ends the program. -/
def Table.run (config : Config) (table : Table) (calls : List Call) : Option Table :=
  calls.foldlM (fun table call => (table.call config call).map Prod.fst) table

/-- The header nodes lie before the data nodes, no two nodes overlap, and all of them lie
below `size`. -/
structure Config.RegionsApart (config : Config) : Prop where
  header_le : ∀ i < config.indirectLength, Config.getHeaderNodeLoc i + headerSize ≤ config.size
  data_le : ∀ i, config.indirectLength ≤ i → i < config.totalLength →
    config.getDataNodeLoc i + dataSize ≤ config.size
  headers_apart : ∀ i j, i < j → j < config.indirectLength →
    Config.getHeaderNodeLoc i + headerSize ≤ Config.getHeaderNodeLoc j
  datas_apart : ∀ i j, config.indirectLength ≤ i → i < j → j < config.totalLength →
    config.getDataNodeLoc i + dataSize ≤ config.getDataNodeLoc j
  apart : ∀ i < config.indirectLength, ∀ j, config.indirectLength ≤ j → j < config.totalLength →
    Config.getHeaderNodeLoc i + headerSize ≤ config.getDataNodeLoc j

/-- The index of the header node behind the one with an index. -/
def Table.nextHeader (table : Table) (i : Nat) : Option Nat :=
  let node := table.headers (Config.getHeaderNodeLoc i)
  if node.next ≠ 0 then some node.next else none

/-- A map with these keys: each has a data node of its own, which `RemoteTraverse` reaches,
and the chains come to an end within the header nodes. -/
structure Table.IsMap (config : Config) (table : Table) (keys : Finset Nat) : Prop where
  found : ∀ key ∈ keys, ∃ index, config.indirectLength ≤ index ∧ index < config.totalLength ∧
    table.search config key = some (.inl (config.getDataNodeLoc index)) ∧
      (table.datas (config.getDataNodeLoc index)).key = key
  absent : ∀ key ∉ keys, ∃ last, table.search config key = some (.inr last)
  different : ∀ key other loc, table.search config key = some (.inl loc) →
    table.search config other = some (.inl loc) → key = other
  acyclic : ∀ bucket < config.logicalLength, ∃ nodes : List Nat,
    Leads table.nextHeader (bucket :: nodes) none ∧ (bucket :: nodes).Pairwise (· < ·) ∧
      ∀ node ∈ bucket :: nodes, node < config.indirectLength
  remote : ∀ key loc, table.search config key = some (.inl loc) →
    table.remoteTraverse config key =
      some (some (loc + dataNodeSize + config.baseOff, (table.datas loc).off))

/-- What a call does: it returns the data node of its key, the one it has had if there is
one, and the data nodes of the other keys are theirs and as they were. -/
def Table.Keeps (config : Config) (table : Table) (call : Call) : Prop :=
  ∃ after loc, table.call config call = some (after, loc) ∧
    after.search config call.key = some (.inl loc) ∧
    (∀ old, table.search config call.key = some (.inl old) → loc = old ∧ after = table) ∧
    ∀ other ≠ call.key, ∀ old, table.search config other = some (.inl old) →
      after.search config other = some (.inl old) ∧ after.datas old = table.datas old

/-- Whatever calls come with no more keys than the table is made for. -/
structure Config.IsMap (config : Config) : Prop where
  regions : config.RegionsApart
  runs : ∀ calls : List Call, (calls.map Call.key).toFinset.card ≤ config.length →
    ∃ table, (Table.init config).run config calls = some table ∧
      table.IsMap config (calls.map Call.key).toFinset ∧
      ∀ call : Call, (insert call.key (calls.map Call.key).toFinset).card ≤ config.length →
        table.Keeps config call

/-! ## The regions -/

variable {config : Config}

theorem Config.Fits.regionsApart (fits : config.Fits) : config.RegionsApart := by
  have size : config.size = config.indirectLength * headerSize + config.length * dataSize :=
    Nat.mod_eq_of_lt fits
  have data : ∀ i, config.indirectLength ≤ i → i < config.totalLength →
      (i - config.indirectLength + 1) * dataSize ≤ config.length * dataSize := by
    intro i above inside
    rw [Config.totalLength] at inside
    exact Nat.mul_le_mul_right _ (by omega)
  constructor
  case header_le =>
    intro i inside
    have below : (i + 1) * headerSize ≤ config.indirectLength * headerSize :=
      Nat.mul_le_mul_right _ inside
    rw [fits.getHeaderNodeLoc inside, size]
    rw [Nat.succ_mul] at below
    omega
  case data_le =>
    intro i above inside
    have below := data i above inside
    rw [fits.getDataNodeLoc above inside, size]
    rw [Nat.succ_mul] at below
    omega
  case headers_apart =>
    intro i j less inside
    have below : (i + 1) * headerSize ≤ j * headerSize := Nat.mul_le_mul_right _ less
    rw [fits.getHeaderNodeLoc (less.trans inside), fits.getHeaderNodeLoc inside]
    rwa [Nat.succ_mul] at below
  case datas_apart =>
    intro i j above less inside
    have below : (i - config.indirectLength + 1) * dataSize ≤
        (j - config.indirectLength) * dataSize := Nat.mul_le_mul_right _ (by omega)
    rw [fits.getDataNodeLoc above (less.trans inside),
      fits.getDataNodeLoc (above.trans less.le) inside]
    rw [Nat.succ_mul] at below
    omega
  case apart =>
    intro i inside j above inside'
    have below : (i + 1) * headerSize ≤ config.indirectLength * headerSize :=
      Nat.mul_le_mul_right _ inside
    rw [fits.getHeaderNodeLoc inside, fits.getDataNodeLoc above inside']
    rw [Nat.succ_mul] at below
    omega

/-- When the sizes do not fit, the node in which `size` lies is not below it. -/
theorem Config.RegionsApart.fits (apart : config.RegionsApart) : config.Fits := by
  by_contra! wraps
  have small : config.size < uintBound := Nat.mod_lt _ (by decide)
  rw [Config.Fits, not_lt] at wraps
  by_cases inHeaders : config.size < config.indirectLength * headerSize
  · have inside : config.size / headerSize < config.indirectLength := by
      rwa [Nat.div_lt_iff_lt_mul (by decide)]
    have low := Nat.div_mul_le_self config.size headerSize
    have high := Nat.lt_div_mul_add (a := config.size) (b := headerSize) (by decide)
    have below := apart.header_le _ inside
    rw [Config.getHeaderNodeLoc, Nat.mod_eq_of_lt (low.trans_lt small)] at below
    omega
  · -- The data node by its number.
    have low := Nat.div_mul_le_self (config.size - config.indirectLength * headerSize) dataSize
    have high := Nat.lt_div_mul_add
      (a := config.size - config.indirectLength * headerSize) (b := dataSize) (by decide)
    have inside : (config.size - config.indirectLength * headerSize) / dataSize <
        config.length := by
      rw [Nat.div_lt_iff_lt_mul (by decide)]
      omega
    have few := config.length_lt
    have below := apart.data_le (config.indirectLength +
      (config.size - config.indirectLength * headerSize) / dataSize) (Nat.le_add_right _ _)
      (by rw [Config.totalLength]; omega)
    have count : (config.indirectLength +
        (config.size - config.indirectLength * headerSize) / dataSize + uintBound -
          config.indirectLength) % uintBound =
        (config.size - config.indirectLength * headerSize) / dataSize := by
      rw [Nat.sub_add_comm (Nat.le_add_right _ _), Nat.add_sub_cancel_left, Nat.add_mod_right,
        Nat.mod_eq_of_lt]
      simp only [uintBound]
      omega
    rw [Config.getDataNodeLoc, count, Nat.mod_eq_of_lt (by omega)] at below
    omega

/-! ## Runs -/

namespace Table

variable {table after : Table} {tails longer : Nat → List Nat} {keys : Finset Nat}
variable {key loc : Nat}

/-- The chains hold these keys. -/
structure Inv (config : Config) (table : Table) (tails : Nat → List Nat)
    (keys : Finset Nat) : Prop where
  wellFormed : table.WellFormed config tails keys.card
  mem_iff : ∀ key, key ∈ keys ↔ ∃ position i, table.clusters.holds Prod.fst key position i = true

theorem inv_init : (init config).Inv config (fun _ => []) ∅ := by
  refine ⟨wellFormed_init, ?_⟩
  intro key
  simp [holds_eq, HeaderNode.isKey, init]

/-- A key that is not there is searched up to the last node of its chain. -/
theorem Inv.search_absent (inv : table.Inv config tails keys) (fits : config.Fits)
    (absent : key ∉ keys) :
    (∀ position i, table.clusters.holds Prod.fst key position i = false) ∧
      table.search config key =
        some (.inr (Chains.last tails (config.getHash key) * headerSize)) := by
  have nowhere : ∀ position i, table.clusters.holds Prod.fst key position i = false := by
    intro position i
    by_contra here
    exact absent ((inv.mem_iff key).mpr ⟨position, i, by simpa using here⟩)
  exact ⟨nowhere, inv.wellFormed.search_of_absent fits nowhere⟩

/-- The data node of a key is the one of its entry. -/
theorem Inv.search_iff (inv : table.Inv config tails keys) (fits : config.Fits) :
    table.search config key = some (.inl loc) ↔
      ∃ (slot : Nat × Fin clusterH) (index : Nat),
        table.clusters.entry slot.1 slot.2 = some (key, index) ∧
          loc = config.getDataNodeLoc index := by
  constructor
  · intro isFound
    by_cases member : key ∈ keys
    · obtain ⟨position, i, here⟩ := (inv.mem_iff key).mp member
      obtain ⟨⟨own, index⟩, present, rfl⟩ := Clusters.holds_iff.mp here
      refine ⟨(position, i), index, present, ?_⟩
      have searched := @WellFormed.search_of_entry _ _ _ _ inv.wellFormed fits (position, i) _
        present
      rw [isFound, Option.some.injEq, Sum.inl.injEq] at searched
      exact searched
    · rw [(inv.search_absent fits member).2] at isFound
      simp at isFound
  · rintro ⟨slot, index, present, rfl⟩
    have searched := inv.wellFormed.search_of_entry fits present
    exact searched

theorem Inv.add {slot : Nat × Fin clusterH} (inv : table.Inv config tails keys)
    (absent : key ∉ keys) (adds : Adds config table after longer keys.card key loc slot) :
    after.Inv config longer (insert key keys) := by
  refine ⟨by rw [Finset.card_insert_of_notMem absent]; exact adds.wellFormed, ?_⟩
  intro other
  rw [Finset.mem_insert, inv.mem_iff]
  constructor
  · rintro (rfl | ⟨position, i, here⟩)
    · exact ⟨slot.1, slot.2, Clusters.holds_iff.mpr ⟨_, adds.set, rfl⟩⟩
    · obtain ⟨found, present, same⟩ := Clusters.holds_iff.mp here
      refine ⟨position, i, Clusters.holds_iff.mpr ⟨found, ?_, same⟩⟩
      rw [← present]
      apply adds.kept (position, i)
      rintro rfl
      rw [adds.isFree] at present
      cases present
  · rintro ⟨position, i, here⟩
    obtain ⟨found, present, same⟩ := Clusters.holds_iff.mp here
    by_cases chosen : (position, i) = slot
    · subst chosen
      rw [adds.set, Option.some.injEq] at present
      subst present
      exact .inl same.symm
    · rw [adds.kept (position, i) chosen] at present
      exact .inr ⟨position, i, Clusters.holds_iff.mpr ⟨found, present, same⟩⟩

/-- A call with room for its key. -/
theorem Inv.call (inv : table.Inv config tails keys) (fits : config.Fits) (call : Call)
    (few : (insert call.key keys).card ≤ config.length) :
    ∃ after loc longer, table.call config call = some (after, loc) ∧
      after.Inv config longer (insert call.key keys) ∧
      after.search config call.key = some (.inl loc) ∧
      (∀ old, table.search config call.key = some (.inl old) → loc = old ∧ after = table) ∧
      ∀ other ≠ call.key, ∀ old, table.search config other = some (.inl old) →
        after.search config other = some (.inl old) ∧ after.datas old = table.datas old := by
  obtain ⟨key, val, isKey, isCall⟩ : ∃ key val, call.key = key ∧
      table.call config call = table.getWithInsert config key val := by
    cases call with
    | getWithInsert key val => exact ⟨key, val, rfl, rfl⟩
    | put key val => exact ⟨key, val, rfl, rfl⟩
  rw [isKey] at few
  rw [isKey, isCall]
  by_cases member : key ∈ keys
  · obtain ⟨position, i, here⟩ := (inv.mem_iff key).mp member
    obtain ⟨⟨own, index⟩, present, rfl⟩ := Clusters.holds_iff.mp here
    have searched := (inv.search_iff fits).mpr ⟨(position, i), index, present, rfl⟩
    refine ⟨table, _, tails, ?_, ?_, searched, ?_, fun _ _ _ same => ⟨same, rfl⟩⟩
    · rw [getWithInsert, searched]
      rfl
    · rwa [Finset.insert_eq_of_mem member]
    · intro old isOld
      rw [searched, Option.some.injEq, Sum.inl.injEq] at isOld
      exact ⟨isOld, rfl⟩
  · obtain ⟨absent, searched⟩ := inv.search_absent fits member
    rw [Finset.card_insert_of_notMem member] at few
    obtain ⟨after, loc, longer, slot, added, adds⟩ :=
      inv.wellFormed.addKey fits few absent val
    have next := inv.add member adds
    refine ⟨after, loc, longer, ?_, next, ?_, ?_, ?_⟩
    · rw [getWithInsert, searched]
      exact added
    · exact (next.search_iff fits).mpr ⟨slot, _, adds.set, adds.loc_eq⟩
    · intro old isOld
      rw [searched] at isOld
      simp at isOld
    · intro other _ old isOld
      obtain ⟨place, index, present, rfl⟩ := (inv.search_iff fits).mp isOld
      have kept : after.clusters.entry place.1 place.2 = some (other, index) := by
        rw [← present]
        apply adds.kept
        rintro rfl
        rw [adds.isFree] at present
        cases present
      refine ⟨(next.search_iff fits).mpr ⟨place, index, kept, rfl⟩, ?_⟩
      have different := inv.wellFormed.dataLoc_ne fits few present
      exact adds.datas _ different

/-- A sequence of calls with few enough keys. -/
theorem Inv.run (inv : table.Inv config tails keys) (fits : config.Fits) {calls : List Call}
    (few : (keys ∪ (calls.map Call.key).toFinset).card ≤ config.length) :
    ∃ after longer, table.run config calls = some after ∧
      after.Inv config longer (keys ∪ (calls.map Call.key).toFinset) := by
  induction calls generalizing table tails keys with
  | nil => exact ⟨table, tails, rfl, by simpa using inv⟩
  | cons call rest ih =>
      have same : keys ∪ ((call :: rest).map Call.key).toFinset =
          insert call.key keys ∪ (rest.map Call.key).toFinset := by
        rw [List.map_cons, List.toFinset_cons, Finset.union_insert, Finset.insert_union]
      rw [same] at few ⊢
      obtain ⟨middle, loc, longer, isCall, next, -⟩ :=
        inv.call fits call ((Finset.card_le_card Finset.subset_union_left).trans few)
      obtain ⟨after, longest, isRun, final⟩ := ih next few
      refine ⟨after, longest, ?_, final⟩
      rw [run, List.foldlM_cons, isCall]
      exact isRun

/-! ## `RemoteTraverse` -/

theorem WellFormed.nextOff {total : Nat} (wellFormed : table.WellFormed config tails total)
    (fits : config.Fits) (position : Nat) :
    table.nextOff config (position * headerSize + config.baseOff) =
      (table.clusters.link position).map (· * headerSize + config.baseOff) := by
  have bound := (wellFormed.next_lt position).trans_le wellFormed.free_le
  simp only [Table.nextOff, clusters, Nat.add_sub_cancel]
  split
  · rw [fits.getHeaderNodeLoc bound]
    rfl
  · rfl

/-- `RemoteTraverse` finds the entry of the key and reads its data node. -/
theorem WellFormed.remoteTraverse {total : Nat}
    (wellFormed : table.WellFormed config tails total) (fits : config.Fits)
    {slot : Nat × Fin clusterH} {found : Nat × Nat}
    (present : table.clusters.entry slot.1 slot.2 = some found) :
    table.remoteTraverse config found.1 =
      some (some (config.getDataNodeLoc found.2 + dataNodeSize + config.baseOff,
        (table.datas (config.getDataNodeLoc found.2)).off)) := by
  have bucket := config.getHash_lt found.1
  have walked := wellFormed.chains.walk_firstIn bucket
    (fun position i => table.clusters.holds Prod.fst found.1 position i)
    (fun slot =>
      let index := (table.headers (slot.1 * headerSize)).indexes slot.2
      some (config.getDataNodeLoc index + dataNodeSize + config.baseOff,
        (table.datas (config.getDataNodeLoc index)).off))
    (fun _ => none) wellFormed.enough
  have here : table.clusters.holds Prod.fst found.1 slot.1 slot.2 = true :=
    Clusters.holds_iff.mpr ⟨found, present, rfl⟩
  obtain ⟨-, same⟩ := entry_eq_some_iff.mp present
  have index : (table.headers (slot.1 * headerSize)).indexes slot.2 = found.2 := by rw [same]
  rw [wellFormed.keyed.find_of_holds wellFormed.chains here] at walked
  simp only [Option.elim_some, index] at walked
  rw [← walked, Table.remoteTraverse, fits.getHeaderNodeLoc (wellFormed.getHash_lt found.1)]
  apply walk_map (wellFormed.chains.linked _ bucket) (wellFormed.nextOff fits)
  · intro position _
    simp only [firstIn, holds_eq, Option.map_map, Nat.add_sub_cancel]
    rfl
  · exact fun _ => rfl

/-! ## The map -/

theorem nextHeader_eq (fits : config.Fits) {position : Nat}
    (inside : position < config.indirectLength) :
    table.nextHeader position = table.clusters.link position := by
  rw [Table.nextHeader, fits.getHeaderNodeLoc inside]
  rfl

theorem Inv.isMap (inv : table.Inv config tails keys) (fits : config.Fits) :
    table.IsMap config keys := by
  constructor
  case found =>
    intro key member
    obtain ⟨position, i, here⟩ := (inv.mem_iff key).mp member
    obtain ⟨⟨own, index⟩, present, rfl⟩ := Clusters.holds_iff.mp here
    have bounds := inv.wellFormed.index_bounds position i _ present
    have inside := inv.wellFormed.index_lt present
    have stored := inv.wellFormed.data_key position i _ present
    refine ⟨index, bounds.1, inside, ?_, stored⟩
    exact (inv.search_iff fits).mpr ⟨(position, i), index, present, rfl⟩
  case absent => exact fun key absent => ⟨_, (inv.search_absent fits absent).2⟩
  case different =>
    intro key other loc isFound isOther
    obtain ⟨slot, index, present, isLoc⟩ := (inv.search_iff fits).mp isFound
    obtain ⟨place, number, also, alsoLoc⟩ := (inv.search_iff fits).mp isOther
    have bounds := inv.wellFormed.index_bounds _ _ _ present
    have inside := inv.wellFormed.index_lt present
    have alsoBounds := inv.wellFormed.index_bounds _ _ _ also
    have alsoInside := inv.wellFormed.index_lt also
    have same := fits.getDataNodeLoc_inj bounds.1 inside alsoBounds.1 alsoInside
      (isLoc.symm.trans alsoLoc)
    have slots := inv.wellFormed.index_single slot place _ _ present also same
    rw [slots, also, Option.some.injEq, Prod.mk.injEq] at present
    exact present.1.symm
  case acyclic =>
    intro bucket isBucket
    have chains := inv.wellFormed.chains
    have inside : ∀ node ∈ path tails bucket, node < config.indirectLength := fun node member =>
      (chains.mem_path isBucket member).trans_le inv.wellFormed.free_le
    refine ⟨tails bucket, ?_, ?_, inside⟩
    · apply (chains.linked bucket isBucket).congr
      intro node member
      exact nextHeader_eq fits (inside node member)
    · rw [List.pairwise_cons]
      refine ⟨?_, chains.sorted bucket isBucket⟩
      intro node member
      exact isBucket.trans_le (chains.inside bucket isBucket node member).1
  case remote =>
    intro key loc isFound
    obtain ⟨slot, index, present, rfl⟩ := (inv.search_iff fits).mp isFound
    have reached := inv.wellFormed.remoteTraverse fits present
    exact reached

end Table

theorem Config.Fits.isMap (fits : config.Fits) : config.IsMap := by
  refine ⟨fits.regionsApart, ?_⟩
  intro calls few
  have start : (∅ ∪ (calls.map Call.key).toFinset).card ≤ config.length := by
    rwa [Finset.empty_union]
  obtain ⟨table, tails, isRun, inv⟩ := Table.inv_init.run fits start
  rw [Finset.empty_union] at inv
  refine ⟨table, isRun, inv.isMap fits, ?_⟩
  intro call room
  obtain ⟨after, loc, -, isCall, -, searched, same, others⟩ := inv.call fits call room
  exact ⟨after, loc, isCall, searched, same, others⟩

/-- The same table with another function in place of `GetHash`. -/
def Config.withHash (config : Config) (getHash : Nat → Nat)
    (getHash_lt : ∀ key, getHash key < config.length / clusterH) : Config :=
  { config with getHash := getHash, getHash_lt := getHash_lt }

/-- A table is a map for as many keys as it is made for, whatever their buckets are, exactly if
all its nodes together are below 2 ^ 32. -/
theorem isMap_iff (config : Config) :
    (∀ getHash lt, (config.withHash getHash lt).IsMap) ↔
      config.indirectLength * headerSize + config.length * dataSize < uintBound := by
  constructor
  · intro always
    exact (always config.getHash config.getHash_lt).regions.fits
  · intro fits getHash lt
    have same : (config.withHash getHash lt).Fits := fits
    exact same.isMap

/-- A table for 2 ^ 25 keys. -/
def largeConfig : Config where
  length := 2 ^ 25
  baseOff := 0
  getHash _ := 0
  length_ge := by decide
  length_lt := by decide
  getHash_lt _ := by decide

/-- The first data node of the large table lies behind `size`. -/
theorem not_isMap : ¬ ∀ config : Config, config.IsMap := by
  intro always
  have below := (always largeConfig).regions.data_le (2 ^ 24) (by decide) (by decide)
  revert below
  decide

end Rocc.Memstore.RdmaHashExt
