import Rocc.Memstore.ClusterHash

/-!
# Offsets of records

The model of `RHash`, the index of a table that other machines can read.  An entry
is a `MemNode`: the pointer to the record, which the RPC handlers follow, and `off`,
which one-sided accesses are to use.  Pointers are offsets from `conn_buf_`.

The loader puts a record and then sets `off` to the record's offset.  With
`RDMA_CACHE` the clients fetch `off` once, after loading, and look it up in their cache
from then on.  Without it every access walks the index: `rdma_lookup_op` returns where
the entry is, `rdma_read_val` what the entry says.  And `_GetWithInsert` sets `off` to the
place of the entry whenever it is called, also for a key that is there.
-/

namespace Rocc.Memstore

/-- `MemNode`, as far as it tells where the record is. -/
structure MemNode where
  value : Option Nat
  off : Nat
  deriving DecidableEq, Repr

/-- A zeroed `MemNode`. -/
def MemNode.zero : MemNode where
  value := none
  off := 0

/-- The table and the size of `SimpleCache`. -/
structure Config extends TableConfig where
  cacheSize : Nat
  cacheSize_lt : cacheSize < 2 ^ 31

/-- The index and the cache of a client. -/
structure Store where
  table : Table MemNode
  cache : Nat → Nat

/-- A zeroed index and an empty cache. -/
def Store.initial : Store where
  table := .initial .zero
  cache _ := 0

/-! ## Index operations -/

/-- Overwrite an entry. -/
def Store.setNode (store : Store) (slot : Slot) (node : MemNode) : Store :=
  { store with table := store.table.setData slot node }

/-- `_GetWithInsert`. -/
def Store.getWithInsert (config : Config) (store : Store) (key : Nat) (val : Option Nat) :
    Option (Store × Slot) :=
  (store.table.getWithInsert config.toTableConfig .zero key).map fun (table, slot) =>
    let placed : MemNode :=
      { off := config.slotOff slot, value := (table.data slot).value.or val }
    (Store.setNode { store with table } slot placed, slot)

/-- `RHash::Put`. -/
def Store.put (config : Config) (store : Store) (key val : Nat) : Option (Store × Slot) :=
  store.getWithInsert config key (some val)

/-- `MemDB::Put`. -/
def Store.memDbPut (config : Config) (store : Store) (key val : Nat) :
    Option (Store × Slot) :=
  (store.put config key val).map fun (after, slot) =>
    (after.setNode slot { after.table.data slot with value := some val }, slot)

/-- The loader puts a record and sets `off` to its offset. -/
def Store.load (config : Config) (store : Store) (entry : Nat × Nat) : Option Store :=
  (store.memDbPut config entry.1 entry.2).map fun (after, slot) =>
    after.setNode slot { after.table.data slot with off := entry.2 }

/-- `RemoteTraverse` of `populate_cache`: the entry is fetched and its `off` put into the
cache. -/
def Store.populate (config : Config) (store : Store) (key : Nat) : Option Store :=
  (store.table.remoteGet config.toTableConfig key).bind fun (_, node) =>
    if key < config.cacheSize / 8 then
      some { store with cache := Function.update store.cache key node.off }
    else
      none

/-- Calls on the index after loading. -/
inductive Op where
  | get (key : Nat)
  | getWithInsert (key : Nat) (val : Option Nat)
  | put (key val : Nat)
  | memDbPut (key val : Nat)
  deriving DecidableEq, Repr

/-- The key of a call. -/
def Op.key : Op → Nat
  | .get key => key
  | .getWithInsert key _ => key
  | .put key _ => key
  | .memDbPut key _ => key

/-- One call. -/
def Store.apply (config : Config) (store : Store) : Op → Option Store
  | .get key => (store.table.get config.toTableConfig key).map fun _ => store
  | .getWithInsert key val => (store.getWithInsert config key val).map Prod.fst
  | .put key val => (store.put config key val).map Prod.fst
  | .memDbPut key val => (store.memDbPut config key val).map Prod.fst

/-- `populate_cache`, where it is compiled in. -/
def Store.populateCache (config : Config) (rdmaCache : Bool) (keys : List Nat)
    (store : Store) : Option Store :=
  if rdmaCache then keys.foldlM (Store.populate config) store else some store

/-- Loading, `populate_cache`, and the calls that follow. -/
def run (config : Config) (rdmaCache : Bool) (loads : List (Nat × Nat)) (ops : List Op) :
    Option Store :=
  (loads.foldlM (Store.load config) .initial).bind fun loaded =>
    (loaded.populateCache config rdmaCache (loads.map Prod.fst)).bind fun populated =>
      ops.foldlM (Store.apply config) populated

/-! ## Lookups -/

/-- What `local_lookup_op` finds. -/
def Store.node (config : Config) (store : Store) (key : Nat) : Option MemNode :=
  (store.table.get config.toTableConfig key).join.map store.table.data

/-- The record header the RPC handlers use. -/
def Store.header (config : Config) (store : Store) (key : Nat) : Option Nat :=
  (store.node config key).bind MemNode.value

/-- `rdma_lookup_op`. -/
def rdmaLookupOp (config : Config) (rdmaCache : Bool) (store : Store) (key : Nat) :
    Option Nat :=
  if rdmaCache then
    some (store.cache key)
  else
    (store.table.remoteGet config.toTableConfig key).map Prod.fst

/-- `rdma_read_val`: without the cache the offset is fetched from the entry. -/
def rdmaReadVal (config : Config) (rdmaCache : Bool) (store : Store) (key : Nat) :
    Option Nat :=
  if rdmaCache then
    rdmaLookupOp config rdmaCache store key
  else
    (store.table.remoteGet config.toTableConfig key).map fun found => found.2.off

/-- One-sided and RPC accesses to a key use the same record header. -/
def SameLockWord (config : Config) (rdmaCache : Bool) (store : Store) (key : Nat) : Prop :=
  ∃ header, store.header config key = some header ∧
    rdmaLookupOp config rdmaCache store key = some header ∧
    rdmaReadVal config rdmaCache store key = some header

/-- The record loaded last under a key. -/
def lastLoaded : List (Nat × Nat) → Nat → Option Nat
  | [], _ => none
  | entry :: rest, key =>
      (lastLoaded rest key).or (if entry.1 = key then some entry.2 else none)

/-- The record a call stores under a key. -/
def Op.stores : Op → Nat → Option Nat
  | .memDbPut own val, key => if own = key then some val else none
  | _, _ => none

/-- The record stored last under a key. -/
def lastStored : List Op → Nat → Option Nat
  | [], _ => none
  | op :: rest, key => (lastStored rest key).or (op.stores key)

/-- A record outside the memory of the index. -/
def Config.Outside (config : Config) (record : Nat) : Prop :=
  record < config.baseOff ∨ config.baseOff + config.size ≤ record

/-- Records a call passes to the index. -/
def Op.records : Op → List Nat
  | .get _ => []
  | .getWithInsert _ val => val.toList
  | .put _ val => [val]
  | .memDbPut _ val => [val]

/-! ## What the calls do -/

variable {config : Config} {store after : Store} {key : Nat} {slot : Slot}

theorem node_eq_some {node : MemNode} :
    store.node config key = some node ↔ ∃ slot,
      store.table.get config.toTableConfig key = some (some slot) ∧
        store.table.data slot = node := by
  simp only [Store.node, Option.map_eq_some_iff, Option.join_eq_some_iff]

/-- The entry written. -/
theorem node_setNode_self (node : MemNode)
    (found : store.table.get config.toTableConfig key = some (some slot)) :
    (store.setNode slot node).node config key = some node := by
  apply node_eq_some.mpr
  refine ⟨slot, ?_, ?_⟩
  · simpa [Store.setNode] using found
  · simp [Store.setNode]

/-- The entries of the other keys. -/
theorem node_setNode_of_ne {other : Nat} (node : MemNode)
    (found : store.table.get config.toTableConfig key = some (some slot))
    (different : other ≠ key) :
    (store.setNode slot node).node config other = store.node config other := by
  simp only [Store.node, Store.setNode, get_setData]
  cases looked : store.table.get config.toTableConfig other with
  | none => rfl
  | some result =>
      cases result with
      | none => rfl
      | some place =>
          have elsewhere : place ≠ slot := by
            rintro rfl
            exact different (Table.slot_injective looked found)
          simp [data_setData_of_ne elsewhere]

/-- The index keeps the entry of a key. -/
def Keeps (config : Config) (store after : Store) (key : Nat) : Prop :=
  ∀ node, store.node config key = some node → after.node config key = some node

/-- `_GetWithInsert` finds or makes the entry of its key, sets `off` to its place, keeps a
record that is there, and keeps the other entries. -/
theorem getWithInsert_spec (wellFormed : store.table.WellFormed config.toTableConfig)
    {val : Option Nat}
    (called : store.getWithInsert config key val = some (after, slot)) :
    after.table.WellFormed config.toTableConfig ∧ after.cache = store.cache ∧
      (storedKey key = key →
        after.table.get config.toTableConfig key = some (some slot) ∧
        (∀ node, store.node config key = some node →
          after.table.data slot = { off := config.slotOff slot, value := node.value.or val }) ∧
        ∀ other, other ≠ key → Keeps config store after other) := by
  obtain ⟨⟨table, place⟩, inserted, same⟩ := Option.map_eq_some_iff.mp called
  obtain ⟨rfl, rfl⟩ := Prod.mk.inj same
  obtain ⟨kept, own, others⟩ := wellFormed.getWithInsert inserted
  obtain ⟨-, contents⟩ := wellFormed.data_getWithInsert inserted
  refine ⟨kept.setData _ _, rfl, ?_⟩
  intro small
  have found : Table.get config.toTableConfig table key = some (some place) := own small
  refine ⟨?_, ?_, ?_⟩
  · simpa [Store.setNode] using found
  · intro node present
    obtain ⟨old, looked, rfl⟩ := node_eq_some.mp present
    have samePlace : place = old := by
      have again := others key old small looked
      rw [found] at again
      exact Option.some.inj (Option.some.inj again)
    subst samePlace
    rw [← contents key place looked]
    simp [Store.setNode]
  · intro other different node present
    obtain ⟨old, looked, rfl⟩ := node_eq_some.mp present
    rw [node_setNode_of_ne _ found different]
    exact node_eq_some.mpr ⟨old, others other old small looked, contents other old looked⟩

/-- `MemDB::Put` stores its record and keeps the other entries. -/
theorem memDbPut_spec (wellFormed : store.table.WellFormed config.toTableConfig) {val : Nat}
    (called : store.memDbPut config key val = some (after, slot)) :
    after.table.WellFormed config.toTableConfig ∧ after.cache = store.cache ∧
      (storedKey key = key →
        after.table.get config.toTableConfig key = some (some slot) ∧
        (after.table.data slot).value = some val ∧
        ∀ other, other ≠ key → Keeps config store after other) := by
  obtain ⟨⟨middle, place⟩, put, same⟩ := Option.map_eq_some_iff.mp called
  obtain ⟨rfl, rfl⟩ := Prod.mk.inj same
  obtain ⟨kept, sameCache, spec⟩ := getWithInsert_spec wellFormed put
  refine ⟨kept.setData _ _, sameCache, ?_⟩
  intro small
  obtain ⟨found, -, others⟩ := spec small
  refine ⟨?_, ?_, ?_⟩
  · simpa [Store.setNode] using found
  · simp [Store.setNode]
  · intro other different node present
    rw [node_setNode_of_ne _ found different]
    exact others other different node present

/-- Loading sets record and offset of its key and keeps the other entries. -/
theorem load_spec (wellFormed : store.table.WellFormed config.toTableConfig)
    {entry : Nat × Nat} (called : store.load config entry = some after) :
    after.table.WellFormed config.toTableConfig ∧
      (storedKey entry.1 = entry.1 →
        after.node config entry.1 = some { value := some entry.2, off := entry.2 } ∧
        ∀ other, other ≠ entry.1 → Keeps config store after other) := by
  obtain ⟨⟨middle, place⟩, put, rfl⟩ := Option.map_eq_some_iff.mp called
  obtain ⟨kept, -, spec⟩ := memDbPut_spec wellFormed put
  refine ⟨kept.setData _ _, ?_⟩
  intro small
  obtain ⟨found, stored, others⟩ := spec small
  constructor
  · rw [node_setNode_self _ found]
    simp only [stored]
  · intro other different node present
    rw [node_setNode_of_ne _ found different]
    exact others other different node present

/-- A call that goes through keeps the cache, stores its record, and keeps every other
record. -/
theorem apply_spec (wellFormed : store.table.WellFormed config.toTableConfig) {op : Op}
    (small : storedKey op.key = op.key) {present : Nat}
    (existing : store.header config op.key = some present)
    (called : store.apply config op = some after) :
    after.table.WellFormed config.toTableConfig ∧ after.cache = store.cache ∧
      ∀ key header, store.header config key = some header →
        after.header config key = (op.stores key).or (some header) := by
  have headers : ∀ {next : Store} {key header : Nat}, Keeps config store next key →
      store.header config key = some header → next.header config key = some header := by
    intro next key header keeps there
    obtain ⟨node, looked, pointer⟩ := Option.bind_eq_some_iff.mp there
    exact Option.bind_eq_some_iff.mpr ⟨node, keeps node looked, pointer⟩
  -- An entry with a record is not given another one by `_GetWithInsert`.
  have inserts : ∀ {key : Nat} {val : Option Nat} {result : Store × Slot},
      op.key = key → store.getWithInsert config key val = some result →
      result.1.table.WellFormed config.toTableConfig ∧ result.1.cache = store.cache ∧
        ∀ other header, store.header config other = some header →
          result.1.header config other = some header := by
    rintro key val ⟨next, slot⟩ rfl inserted
    obtain ⟨kept, sameCache, spec⟩ := getWithInsert_spec wellFormed inserted
    obtain ⟨found, contents, others⟩ := spec small
    refine ⟨kept, sameCache, ?_⟩
    intro other header there
    by_cases same : other = op.key
    · subst same
      obtain ⟨node, looked, pointer⟩ := Option.bind_eq_some_iff.mp there
      apply Option.bind_eq_some_iff.mpr
      refine ⟨_, node_eq_some.mpr ⟨slot, found, rfl⟩, ?_⟩
      rw [contents node looked, pointer]
      rfl
    · exact headers (others other same) there
  cases op with
  | get key =>
      obtain ⟨result, -, rfl⟩ := Option.map_eq_some_iff.mp called
      exact ⟨wellFormed, rfl, fun _ _ there => there⟩
  | getWithInsert key val =>
      obtain ⟨result, inserted, rfl⟩ := Option.map_eq_some_iff.mp called
      exact inserts rfl inserted
  | put key val =>
      obtain ⟨result, inserted, rfl⟩ := Option.map_eq_some_iff.mp called
      exact inserts rfl inserted
  | memDbPut key val =>
      obtain ⟨⟨next, slot⟩, stored, rfl⟩ := Option.map_eq_some_iff.mp called
      obtain ⟨kept, sameCache, spec⟩ := memDbPut_spec wellFormed stored
      obtain ⟨found, written, others⟩ := spec small
      refine ⟨kept, sameCache, ?_⟩
      intro other header there
      by_cases same : other = key
      · subst same
        rw [Op.stores, if_pos rfl]
        exact Option.bind_eq_some_iff.mpr ⟨_, node_eq_some.mpr ⟨slot, found, rfl⟩, written⟩
      · rw [Op.stores, if_neg (Ne.symm same)]
        exact headers (others other same) there

/-! ## Runs -/

theorem loads_spec {loads : List (Nat × Nat)}
    (wellFormed : store.table.WellFormed config.toTableConfig)
    (small : ∀ entry ∈ loads, storedKey entry.1 = entry.1)
    (loaded : loads.foldlM (Store.load config) store = some after) :
    after.table.WellFormed config.toTableConfig ∧
      ∀ key, (∀ record, lastLoaded loads key = some record →
          after.node config key = some { value := some record, off := record }) ∧
        (lastLoaded loads key = none → Keeps config store after key) := by
  induction loads generalizing store with
  | nil =>
      cases loaded
      refine ⟨wellFormed, fun key => ⟨?_, fun _ _ present => present⟩⟩
      intro record loaded
      cases loaded
  | cons entry rest ih =>
      rw [List.foldlM_cons] at loaded
      obtain ⟨middle, first, others⟩ := Option.bind_eq_some_iff.mp loaded
      obtain ⟨smallFirst, smallRest⟩ := List.forall_mem_cons.mp small
      obtain ⟨kept, spec⟩ := load_spec wellFormed first
      obtain ⟨own, elsewhere⟩ := spec smallFirst
      obtain ⟨final, later⟩ := ih kept smallRest others
      refine ⟨final, ?_⟩
      intro key
      obtain ⟨replaced, untouched⟩ := later key
      rw [lastLoaded]
      cases last : lastLoaded rest key with
      | some record =>
          constructor
          · rintro other ⟨⟩
            exact replaced record last
          · intro none
            cases none
      | none =>
          by_cases same : entry.1 = key
          · subst same
            simp only [if_true, Option.none_or]
            constructor
            · rintro record ⟨⟩
              exact untouched last _ own
            · intro none
              cases none
          · simp only [same, if_false, Option.none_or]
            constructor
            · intro record none
              cases none
            · intro _ node present
              exact untouched last node (elsewhere key (Ne.symm same) node present)

theorem populate_eq_some (populated : store.populate config key = some after) :
    key < config.cacheSize / 8 ∧ after.table = store.table ∧
      ∃ node, store.node config key = some node ∧
        after.cache = Function.update store.cache key node.off := by
  obtain ⟨⟨off, node⟩, fetched, written⟩ := Option.bind_eq_some_iff.mp populated
  simp only [Table.remoteGet] at fetched
  split at fetched
  · obtain ⟨slot, looked, pair⟩ := Option.map_eq_some_iff.mp fetched
    obtain ⟨-, rfl⟩ := Prod.mk.inj pair
    by_cases cached : key < config.cacheSize / 8
    · simp only [if_pos cached, Option.some.injEq] at written
      subst written
      exact ⟨cached, rfl, _, node_eq_some.mpr
        ⟨slot, Option.join_eq_some_iff.mp looked, rfl⟩, rfl⟩
    · simp only [if_neg cached] at written
      cases written
  · cases fetched

theorem populates_spec {keys : List Nat}
    (populated : keys.foldlM (Store.populate config) store = some after) :
    after.table = store.table ∧
      (∀ key ∈ keys, key < config.cacheSize / 8 ∧
        ∃ node, store.node config key = some node ∧ after.cache key = node.off) ∧
      ∀ key, key ∉ keys → after.cache key = store.cache key := by
  induction keys generalizing store with
  | nil =>
      cases populated
      simp
  | cons first rest ih =>
      rw [List.foldlM_cons] at populated
      obtain ⟨middle, step, others⟩ := Option.bind_eq_some_iff.mp populated
      obtain ⟨cached, sameTable, node, looked, written⟩ := populate_eq_some step
      obtain ⟨keptTable, later, elsewhere⟩ := ih others
      have sameNode : ∀ key, middle.node config key = store.node config key := by
        intro key
        rw [Store.node, Store.node, sameTable]
      refine ⟨keptTable.trans sameTable, ?_, ?_⟩
      · intro key member
        by_cases again : key ∈ rest
        · obtain ⟨bound, found, lookedLater, fetched⟩ := later key again
          rw [sameNode] at lookedLater
          exact ⟨bound, found, lookedLater, fetched⟩
        · have same : key = first := (List.mem_cons.mp member).resolve_right again
          subst same
          refine ⟨cached, node, looked, ?_⟩
          rw [elsewhere key again, written, Function.update_self]
      · intro key absent
        obtain ⟨different, notRest⟩ := not_or.mp (mt List.mem_cons.mpr absent)
        rw [elsewhere key notRest, written, Function.update_of_ne different]

theorem ops_spec {ops : List Op} (wellFormed : store.table.WellFormed config.toTableConfig)
    (small : ∀ op ∈ ops, storedKey op.key = op.key)
    (existing : ∀ op ∈ ops, ∃ header, store.header config op.key = some header)
    (called : ops.foldlM (Store.apply config) store = some after) :
    after.cache = store.cache ∧ ∀ key header, store.header config key = some header →
      after.header config key = (lastStored ops key).or (some header) := by
  induction ops generalizing store with
  | nil =>
      cases called
      exact ⟨rfl, fun _ _ there => there⟩
  | cons op rest ih =>
      rw [List.foldlM_cons] at called
      obtain ⟨middle, first, others⟩ := Option.bind_eq_some_iff.mp called
      obtain ⟨smallFirst, smallRest⟩ := List.forall_mem_cons.mp small
      obtain ⟨⟨present, there⟩, existingRest⟩ := List.forall_mem_cons.mp existing
      obtain ⟨kept, sameCache, headers⟩ := apply_spec wellFormed smallFirst there first
      have stillThere : ∀ next ∈ rest, ∃ header, middle.header config next.key = some header := by
        intro next member
        obtain ⟨header, before⟩ := existingRest next member
        rw [headers next.key header before]
        cases op.stores next.key with
        | none => exact ⟨header, rfl⟩
        | some record => exact ⟨record, rfl⟩
      obtain ⟨finalCache, finalHeaders⟩ := ih kept smallRest stillThere others
      refine ⟨finalCache.trans sameCache, ?_⟩
      intro key header before
      have after := headers key header before
      rw [lastStored, Option.or_assoc]
      cases stored : op.stores key with
      | none =>
          rw [stored] at after
          exact finalHeaders key header after
      | some record =>
          rw [stored] at after
          exact finalHeaders key record after

/-! ## Entries and records never coincide -/

/-- The index is well formed and every record it points to is outside its memory. -/
structure Sound (config : Config) (store : Store) : Prop where
  wellFormed : store.table.WellFormed config.toTableConfig
  outside : ∀ slot record, (store.table.data slot).value = some record → config.Outside record

theorem sound_initial : Sound config .initial where
  wellFormed := wellFormed_initial
  outside slot record there := by cases there

theorem Sound.setNode (sound : Sound config store) {slot : Slot} {node : MemNode}
    (outside : ∀ record, node.value = some record → config.Outside record) :
    Sound config (store.setNode slot node) where
  wellFormed := sound.wellFormed.setData slot node
  outside := by
    intro other record there
    by_cases same : other = slot
    · subst same
      rw [Store.setNode, data_setData_self] at there
      exact outside record there
    · rw [Store.setNode, data_setData_of_ne same] at there
      exact sound.outside other record there

theorem Sound.getWithInsert (sound : Sound config store) {val : Option Nat}
    {result : Store × Slot} (outside : ∀ record ∈ val.toList, config.Outside record)
    (called : store.getWithInsert config key val = some result) : Sound config result.1 := by
  obtain ⟨⟨table, place⟩, inserted, rfl⟩ := Option.map_eq_some_iff.mp called
  obtain ⟨contents, -⟩ := sound.wellFormed.data_getWithInsert inserted
  have pointers : ∀ slot record, (table.data slot).value = some record →
      config.Outside record := by
    intro slot record there
    rcases contents slot with same | zeroed
    · rw [same] at there
      exact sound.outside slot record there
    · rw [zeroed] at there
      cases there
  have middle : Sound config { store with table } :=
    ⟨(sound.wellFormed.getWithInsert inserted).1, pointers⟩
  apply middle.setNode
  intro record there
  rcases Option.or_eq_some_iff.mp there with before | ⟨-, given⟩
  · exact pointers place record before
  · exact outside record (by simp [given])

theorem Sound.memDbPut (sound : Sound config store) {val : Nat} {result : Store × Slot}
    (outside : config.Outside val) (called : store.memDbPut config key val = some result) :
    Sound config result.1 := by
  obtain ⟨⟨middle, place⟩, put, rfl⟩ := Option.map_eq_some_iff.mp called
  have inserted : Sound config middle := sound.getWithInsert (by simpa using outside) put
  apply inserted.setNode
  rintro record ⟨⟩
  exact outside

theorem Sound.load (sound : Sound config store) {entry : Nat × Nat}
    (outside : config.Outside entry.2) (called : store.load config entry = some after) :
    Sound config after := by
  obtain ⟨⟨middle, place⟩, put, rfl⟩ := Option.map_eq_some_iff.mp called
  have stored : Sound config middle := sound.memDbPut outside put
  exact stored.setNode (stored.outside place)

theorem Sound.apply (sound : Sound config store) {op : Op}
    (outside : ∀ record ∈ op.records, config.Outside record)
    (called : store.apply config op = some after) : Sound config after := by
  cases op with
  | get key =>
      obtain ⟨_, -, rfl⟩ := Option.map_eq_some_iff.mp called
      exact sound
  | getWithInsert key val =>
      obtain ⟨_, inserted, rfl⟩ := Option.map_eq_some_iff.mp called
      exact sound.getWithInsert outside inserted
  | put key val =>
      obtain ⟨_, inserted, rfl⟩ := Option.map_eq_some_iff.mp called
      exact sound.getWithInsert (by simpa [Op.records] using outside) inserted
  | memDbPut key val =>
      obtain ⟨_, stored, rfl⟩ := Option.map_eq_some_iff.mp called
      exact sound.memDbPut (outside val (.head _)) stored

/-- What every item of a list keeps, the whole list keeps. -/
theorem Sound.foldlM {Item : Type} {step : Store → Item → Option Store} {items : List Item}
    (keeps : ∀ item ∈ items, ∀ before next, Sound config before → step before item = some next →
      Sound config next)
    (sound : Sound config store) (ran : items.foldlM step store = some after) :
    Sound config after := by
  induction items generalizing store with
  | nil =>
      cases ran
      exact sound
  | cons item rest ih =>
      rw [List.foldlM_cons] at ran
      obtain ⟨middle, first, others⟩ := Option.bind_eq_some_iff.mp ran
      obtain ⟨keepsFirst, keepsRest⟩ := List.forall_mem_cons.mp keeps
      exact ih keepsRest (keepsFirst store middle sound first) others

/-- Without the cache a lookup returns the place of the entry, which is not a record. -/
theorem Sound.not_sameLockWord (sound : Sound config store) :
    ¬ SameLockWord config false store key := by
  rintro ⟨header, pointer, lookup, -⟩
  obtain ⟨node, looked, value⟩ := Option.bind_eq_some_iff.mp pointer
  obtain ⟨slot, found, rfl⟩ := node_eq_some.mp looked
  have outside := sound.outside slot header value
  have inside := sound.wellFormed.node_lt found
  simp only [rdmaLookupOp, Bool.false_eq_true, if_false, Table.remoteGet, found] at lookup
  split at lookup
  · simp only [Option.join_some, Option.map_some, Option.some.injEq] at lookup
    have entry : slot.index.val < 4 := slot.index.isLt
    have last : slot.node + 1 ≤ config.indirectNum + config.logicalNum := inside
    have bytes := Nat.mul_le_mul_right headerNodeSize last
    rw [Config.Outside, TableConfig.size] at outside
    rw [TableConfig.slotOff] at lookup
    simp only [headerNodeSize] at bytes outside lookup
    omega
  · cases lookup

/-! ## The same lock word -/

theorem run_eq_some {rdmaCache : Bool} {loads : List (Nat × Nat)} {ops : List Op}
    (ran : run config rdmaCache loads ops = some after) :
    ∃ loaded populated, loads.foldlM (Store.load config) .initial = some loaded ∧
      loaded.populateCache config rdmaCache (loads.map Prod.fst) = some populated ∧
      ops.foldlM (Store.apply config) populated = some after := by
  obtain ⟨loaded, load, rest⟩ := Option.bind_eq_some_iff.mp ran
  obtain ⟨populated, populate, call⟩ := Option.bind_eq_some_iff.mp rest
  exact ⟨loaded, populated, load, populate, call⟩

theorem lastLoaded_isSome {loads : List (Nat × Nat)} (member : key ∈ loads.map Prod.fst) :
    ∃ record, lastLoaded loads key = some record := by
  induction loads with
  | nil => cases member
  | cons entry rest ih =>
      rw [lastLoaded]
      cases last : lastLoaded rest key with
      | some record => exact ⟨record, rfl⟩
      | none =>
          rw [List.map_cons, List.mem_cons] at member
          rcases member with same | later
          · exact ⟨entry.2, by simp [same]⟩
          · obtain ⟨record, found⟩ := ih later
            rw [last] at found
            cases found

/-- Without the cache no loaded key has the same lock word. -/
theorem not_sameLockWord_of_run {loads : List (Nat × Nat)} {ops : List Op}
    (ran : run config false loads ops = some after)
    (apart : ∀ entry ∈ loads, config.Outside entry.2)
    (opsApart : ∀ op ∈ ops, ∀ record ∈ op.records, config.Outside record) :
    ¬ SameLockWord config false after key := by
  obtain ⟨loaded, populated, load, populate, call⟩ := run_eq_some ran
  cases populate
  have soundLoaded := sound_initial.foldlM
    (fun entry member _ _ sound stepped => sound.load (apart entry member) stepped) load
  have soundAfter := soundLoaded.foldlM
    (fun op member _ _ sound stepped => sound.apply (opsApart op member) stepped) call
  exact soundAfter.not_sameLockWord

/-- With the cache a lookup returns the record loaded last, and the handlers use the record
stored last. -/
theorem sameLockWord_iff_of_run {loads : List (Nat × Nat)} {ops : List Op}
    (ran : run config true loads ops = some after)
    (existing : ∀ op ∈ ops, op.key ∈ loads.map Prod.fst)
    (member : key ∈ loads.map Prod.fst) :
    SameLockWord config true after key ↔ ∀ record, lastStored ops key = some record →
      lastLoaded loads key = some record := by
  obtain ⟨loaded, populated, load, populate, call⟩ := run_eq_some ran
  rw [Store.populateCache, if_pos rfl] at populate
  obtain ⟨sameTable, cached, -⟩ := populates_spec populate
  -- Only keys that fit the cache, and so the 63 bits of an entry, get past `populate_cache`.
  have small : ∀ key ∈ loads.map Prod.fst, storedKey key = key := by
    intro key member
    have bound := (cached key member).1
    have limit := config.cacheSize_lt
    exact Nat.mod_eq_of_lt (by omega)
  obtain ⟨wellFormed, contents⟩ := loads_spec wellFormed_initial
    (fun entry member => small entry.1 (List.mem_map_of_mem member)) load
  have headers : ∀ key ∈ loads.map Prod.fst, ∃ record, lastLoaded loads key = some record ∧
      populated.cache key = record ∧ populated.header config key = some record := by
    intro key member
    obtain ⟨record, last⟩ := lastLoaded_isSome member
    have there := (contents key).1 record last
    obtain ⟨-, node, looked, fetched⟩ := cached key member
    rw [there, Option.some.injEq] at looked
    subst looked
    refine ⟨record, last, fetched, ?_⟩
    rw [Store.header, Store.node, sameTable]
    exact Option.bind_eq_some_iff.mpr ⟨_, there, rfl⟩
  rw [← sameTable] at wellFormed
  obtain ⟨sameCache, stored⟩ := ops_spec wellFormed
    (fun op called => small op.key (existing op called))
    (fun op called => by
      obtain ⟨record, -, -, there⟩ := headers op.key (existing op called)
      exact ⟨record, there⟩) call
  obtain ⟨record, last, fetched, there⟩ := headers key member
  have pointer := stored key record there
  have lookup : rdmaLookupOp config true after key = some record := by
    rw [rdmaLookupOp, if_pos rfl, sameCache, fetched]
  have readVal : rdmaReadVal config true after key = some record := by
    rw [rdmaReadVal, if_pos rfl, lookup]
  rw [last]
  constructor
  · rintro ⟨header, used, looked, -⟩ other storedLast
    rw [pointer, storedLast] at used
    rw [lookup] at looked
    rw [looked, ← used]
    rfl
  · intro same
    refine ⟨record, ?_, lookup, readVal⟩
    rw [pointer]
    cases storedLast : lastStored ops key with
    | none => rfl
    | some other => exact (same other storedLast).symm

/-- For both settings of `RDMA_CACHE`, every sequence of loads and every sequence of later
calls on loaded keys: one-sided and RPC accesses use the same lock word for all loaded keys
exactly when nothing was loaded, or the cache is compiled in and no key was given another
record. -/
theorem sameLockWord_iff (config : Config) (rdmaCache : Bool) (loads : List (Nat × Nat))
    (ops : List Op) (after : Store) (ran : run config rdmaCache loads ops = some after)
    (existing : ∀ op ∈ ops, op.key ∈ loads.map Prod.fst)
    (apart : ∀ entry ∈ loads, config.Outside entry.2)
    (opsApart : ∀ op ∈ ops, ∀ record ∈ op.records, config.Outside record) :
    (∀ key ∈ loads.map Prod.fst, SameLockWord config rdmaCache after key) ↔
      loads = [] ∨ (rdmaCache = true ∧ ∀ key ∈ loads.map Prod.fst, ∀ record,
        lastStored ops key = some record → lastLoaded loads key = some record) := by
  cases rdmaCache with
  | false =>
      constructor
      · intro all
        left
        cases loads with
        | nil => rfl
        | cons entry rest =>
            exact absurd (all entry.1 (.head _)) (not_sameLockWord_of_run ran apart opsApart)
      · rintro (rfl | ⟨off, -⟩)
        · intro key member
          cases member
        · cases off
  | true =>
      constructor
      · intro all
        right
        refine ⟨rfl, ?_⟩
        intro key member
        exact (sameLockWord_iff_of_run ran existing member).mp (all key member)
      · rintro (rfl | ⟨-, same⟩)
        · intro key member
          cases member
        · intro key member
          exact (sameLockWord_iff_of_run ran existing member).mpr (same key member)

/-- Eight buckets and two indirect nodes at offset 64, and a cache for 100 keys. -/
def smallConfig : Config where
  logicalNum := 8
  indirectNum := 2
  baseOff := 64
  logical_pos := by decide
  indirect_pos := by decide
  cacheSize := 800
  cacheSize_lt := by decide

theorem sameLockWord_iff_released : ∃ after,
    run smallConfig true [(1, 8192), (2, 16384)] [.getWithInsert 1 none] = some after ∧
      ((∀ key ∈ [1, 2], SameLockWord smallConfig true after key) ↔
        [(1, 8192), (2, 16384)] = [] ∨ (true = true ∧ ∀ key ∈ [1, 2], ∀ record,
          lastStored [.getWithInsert 1 none] key = some record →
            lastLoaded [(1, 8192), (2, 16384)] key = some record)) := by
  have goes : (run smallConfig true [(1, 8192), (2, 16384)] [.getWithInsert 1 none]).isSome =
      true := by decide +kernel
  obtain ⟨after, ran⟩ := Option.isSome_iff_exists.mp goes
  refine ⟨after, ran, sameLockWord_iff smallConfig true [(1, 8192), (2, 16384)]
    [.getWithInsert 1 none] after ran ?_ ?_ ?_⟩
  · decide
  · intro entry member
    simp only [List.mem_cons, List.not_mem_nil, or_false] at member
    rcases member with rfl | rfl <;> right <;> decide
  · simp [Op.records]

/-- One loaded record without the cache: `rdma_lookup_op` returns the place of the entry, and
after one release handler `rdma_read_val` does too. -/
theorem lookup_returns_entry : ¬ ∀ (config : Config) (rdmaCache : Bool)
    (loads : List (Nat × Nat)) (ops : List Op) (after : Store),
    run config rdmaCache loads ops = some after →
    (∀ op ∈ ops, op.key ∈ loads.map Prod.fst) →
    (∀ entry ∈ loads, config.Outside entry.2) →
    (∀ op ∈ ops, ∀ record ∈ op.records, config.Outside record) →
    ∀ key ∈ loads.map Prod.fst, SameLockWord config rdmaCache after key := by
  intro all
  have goes : (run smallConfig false [(1, 8192)] [.getWithInsert 1 none]).isSome = true := by
    decide +kernel
  obtain ⟨after, ran⟩ := Option.isSome_iff_exists.mp goes
  have apart : ∀ entry ∈ [(1, 8192)], smallConfig.Outside entry.2 := by
    intro entry member
    rw [List.mem_singleton] at member
    subst member
    right
    decide
  have opsApart : ∀ op ∈ [Op.getWithInsert 1 none], ∀ record ∈ op.records,
      smallConfig.Outside record := by
    simp [Op.records]
  exact not_sameLockWord_of_run ran apart opsApart
    (all smallConfig false [(1, 8192)] [.getWithInsert 1 none] after ran (by decide) apart
      opsApart 1 (.head _))

end Rocc.Memstore
