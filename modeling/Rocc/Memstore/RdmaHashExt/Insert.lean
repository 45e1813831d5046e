import Rocc.Memstore.RdmaHashExt.Model

/-!
# Insertions into `RdmaHashExt`

While the sizes fit 32 bits, header nodes can be named by their index instead of their
offset.  The table is then a set of chains of clusters, where each entry has a data node of
its own, and the pools last for as many keys as the table is made for.
-/

namespace Rocc.Memstore.RdmaHashExt

/-- The sizes fit `uint`. -/
def Config.Fits (config : Config) : Prop :=
  config.indirectLength * headerSize + config.length * dataSize < uintBound

theorem Config.Fits.getHeaderNodeLoc {config : Config} (fits : config.Fits) {i : Nat}
    (inside : i < config.indirectLength) : Config.getHeaderNodeLoc i = i * headerSize := by
  have below : i * headerSize ≤ config.indirectLength * headerSize :=
    Nat.mul_le_mul_right _ (le_of_lt inside)
  exact Nat.mod_eq_of_lt (below.trans_lt (lt_of_le_of_lt (Nat.le_add_right _ _) fits))

theorem Config.Fits.getDataNodeLoc {config : Config} (fits : config.Fits) {i : Nat}
    (above : config.indirectLength ≤ i) (inside : i < config.totalLength) :
    config.getDataNodeLoc i =
      config.indirectLength * headerSize + (i - config.indirectLength) * dataSize := by
  have small := config.length_lt
  rw [Config.totalLength] at inside
  have count : (i + uintBound - config.indirectLength) % uintBound =
      i - config.indirectLength := by
    rw [Nat.sub_add_comm above, Nat.add_mod_right, Nat.mod_eq_of_lt]
    simp only [uintBound]
    omega
  have below : (i - config.indirectLength) * dataSize ≤ config.length * dataSize :=
    Nat.mul_le_mul_right _ (by omega)
  rw [Config.getDataNodeLoc, count]
  exact Nat.mod_eq_of_lt ((Nat.add_le_add_left below _).trans_lt fits)

/-- Data nodes with the same offset are the same. -/
theorem Config.Fits.getDataNodeLoc_inj {config : Config} (fits : config.Fits) {i j : Nat}
    (above : config.indirectLength ≤ i) (inside : i < config.totalLength)
    (above' : config.indirectLength ≤ j) (inside' : j < config.totalLength)
    (same : config.getDataNodeLoc i = config.getDataNodeLoc j) : i = j := by
  rw [fits.getDataNodeLoc above inside, fits.getDataNodeLoc above' inside',
    Nat.add_left_cancel_iff, Nat.mul_left_inj (by decide)] at same
  omega

namespace Table

variable {config : Config} {table after : Table} {tails longer : Nat → List Nat}
variable {key val loc last : Nat} {i : Fin clusterH} {keys : List Nat} {total : Nat}

/-- Entries with the index of their data node, and links, by the indices of the nodes. -/
def clusters (table : Table) : Clusters (Nat × Nat) clusterH where
  entry position i :=
    let node := table.headers (position * headerSize)
    if node.indexes i ≠ 0 then some (node.keys i, node.indexes i) else none
  link position :=
    let node := table.headers (position * headerSize)
    if node.next ≠ 0 then some node.next else none

/-- The chains of the buckets.  The data nodes that have been handed out are those of the
entries, and each has the key of its entry. -/
structure WellFormed (config : Config) (table : Table) (tails : Nat → List Nat)
    (total : Nat) : Prop where
  chains : Chains config.logicalLength config.logicalLength table.freeIndirect table.clusters tails
  keyed : Keyed config.logicalLength table.clusters tails Prod.fst config.getHash
  count : ∑ bucket ∈ Finset.range config.logicalLength,
    table.clusters.held (path tails bucket) = total
  freeData_eq : table.freeData = config.indirectLength + total
  total_le : total ≤ config.length
  free_le : table.freeIndirect ≤ config.indirectLength
  next_lt : ∀ position, (table.headers (position * headerSize)).next < table.freeIndirect
  index_bounds : ∀ position i found, table.clusters.entry position i = some found →
    config.indirectLength ≤ found.2 ∧ found.2 < table.freeData
  index_single : ∀ slot other : Nat × Fin clusterH, ∀ found also,
    table.clusters.entry slot.1 slot.2 = some found →
      table.clusters.entry other.1 other.2 = some also → found.2 = also.2 → slot = other
  data_key : ∀ position i found, table.clusters.entry position i = some found →
    (table.datas (config.getDataNodeLoc found.2)).key = found.1

theorem wellFormed_init : (init config).WellFormed config (fun _ => []) 0 := by
  have empty : ∀ position i, (init config).clusters.entry position i = none := fun _ _ => rfl
  have nothing : ∀ {position i found}, (init config).clusters.entry position i ≠ some found := by
    intro position i found present
    rw [empty] at present
    cases present
  have positive : 0 < config.logicalLength :=
    lt_of_le_of_lt (Nat.zero_le _) (config.getHash_lt 0)
  constructor
  case chains => exact Chains.empty le_rfl (fun _ => rfl) empty
  case keyed =>
    constructor
    case home => exact fun _ _ _ _ _ _ present => absurd present nothing
    case single => exact fun _ _ _ _ present => absurd present nothing
  case count =>
    apply Finset.sum_eq_zero
    intro bucket _
    rw [Clusters.held, List.countP_eq_zero]
    intro slot _
    simp [empty]
  case freeData_eq => rfl
  case total_le => exact Nat.zero_le _
  case free_le =>
    have half : config.length / 8 ≤ config.length / 2 := by omega
    exact half
  case next_lt => exact fun _ => positive
  case index_bounds => exact fun _ _ _ present => absurd present nothing
  case index_single => exact fun _ _ _ _ present => absurd present nothing
  case data_key => exact fun _ _ _ present => absurd present nothing

/-! ## The search -/

theorem entry_eq_some_iff {position : Nat} {found : Nat × Nat} :
    table.clusters.entry position i = some found ↔
      (table.headers (position * headerSize)).indexes i ≠ 0 ∧
        found = ((table.headers (position * headerSize)).keys i,
          (table.headers (position * headerSize)).indexes i) := by
  simp only [clusters]
  split
  · rename_i taken
    simp [taken, eq_comm]
  · rename_i free
    simp [not_not.mp free]

theorem holds_eq (position : Nat) (i : Fin clusterH) :
    table.clusters.holds Prod.fst key position i =
      (table.headers (position * headerSize)).isKey key i := by
  by_cases taken : (table.headers (position * headerSize)).indexes i = 0
  · simp [Clusters.holds, clusters, HeaderNode.isKey, taken]
  · simp [Clusters.holds, clusters, HeaderNode.isKey, taken]

theorem WellFormed.enough (wellFormed : table.WellFormed config tails total) :
    table.freeIndirect - config.logicalLength < config.indirectLength + 1 := by
  have bound := wellFormed.free_le
  omega

theorem WellFormed.getHash_lt (wellFormed : table.WellFormed config tails total) (key : Nat) :
    config.getHash key < config.indirectLength := by
  have first := wellFormed.chains.first_le
  have bound := wellFormed.free_le
  have bucket : config.getHash key < config.logicalLength := config.getHash_lt key
  omega

theorem WellFormed.nextLoc (wellFormed : table.WellFormed config tails total)
    (fits : config.Fits) (position : Nat) :
    table.nextLoc (position * headerSize) =
      (table.clusters.link position).map (· * headerSize) := by
  have bound := (wellFormed.next_lt position).trans_le wellFormed.free_le
  simp only [Table.nextLoc, clusters]
  split
  · rw [fits.getHeaderNodeLoc bound]
    rfl
  · rfl

/-- The search of a key along its chain. -/
theorem WellFormed.search_eq (wellFormed : table.WellFormed config tails total)
    (fits : config.Fits) (key : Nat) :
    table.search config key =
      some (((slots clusterH (path tails (config.getHash key))).find? fun slot =>
        table.clusters.holds Prod.fst key slot.1 slot.2).elim
          (.inr (Chains.last tails (config.getHash key) * headerSize))
          fun slot => .inl (config.getDataNodeLoc
            ((table.headers (slot.1 * headerSize)).indexes slot.2))) := by
  have bucket := config.getHash_lt key
  have walked := wellFormed.chains.walk_firstIn bucket
    (fun position i => table.clusters.holds Prod.fst key position i)
    (fun slot => (.inl (config.getDataNodeLoc
      ((table.headers (slot.1 * headerSize)).indexes slot.2)) : Nat ⊕ Nat))
    (fun position => .inr (position * headerSize)) wellFormed.enough
  rw [← walked, Table.search, fits.getHeaderNodeLoc (wellFormed.getHash_lt key)]
  apply walk_map (wellFormed.chains.linked _ bucket)
    (wellFormed.nextLoc fits)
  · intro position _
    simp only [firstIn, holds_eq, Option.map_map]
    rfl
  · exact fun _ => rfl

/-- A key that is there has its data node. -/
theorem WellFormed.search_of_entry (wellFormed : table.WellFormed config tails total)
    (fits : config.Fits) {slot : Nat × Fin clusterH} {found : Nat × Nat}
    (present : table.clusters.entry slot.1 slot.2 = some found) :
    table.search config found.1 = some (.inl (config.getDataNodeLoc found.2)) := by
  have here : table.clusters.holds Prod.fst found.1 slot.1 slot.2 = true :=
    Clusters.holds_iff.mpr ⟨found, present, rfl⟩
  rw [wellFormed.search_eq fits, wellFormed.keyed.find_of_holds wellFormed.chains here]
  obtain ⟨-, same⟩ := entry_eq_some_iff.mp present
  rw [same]
  rfl

/-- A key that is not there leads to the last node of its chain. -/
theorem WellFormed.search_of_absent (wellFormed : table.WellFormed config tails total)
    (fits : config.Fits)
    (absent : ∀ position i, table.clusters.holds Prod.fst key position i = false) :
    table.search config key =
      some (.inr (Chains.last tails (config.getHash key) * headerSize)) := by
  have none : ((slots clusterH (path tails (config.getHash key))).find? fun slot =>
      table.clusters.holds Prod.fst key slot.1 slot.2) = none := by
    rw [List.find?_eq_none]
    intro slot _
    simp [absent]
  rw [wellFormed.search_eq fits, none]
  rfl

/-! ## Insertion -/

theorem WellFormed.index_lt (wellFormed : table.WellFormed config tails total)
    {position : Nat} {found : Nat × Nat}
    (present : table.clusters.entry position i = some found) :
    found.2 < config.totalLength := by
  have bound := (wellFormed.index_bounds position i found present).2
  have few := wellFormed.total_le
  rw [wellFormed.freeData_eq] at bound
  rw [Config.totalLength]
  omega

/-- The data node of an entry is none of those that have not been handed out. -/
theorem WellFormed.dataLoc_ne (wellFormed : table.WellFormed config tails total)
    (fits : config.Fits) (room : total < config.length) {position : Nat} {found : Nat × Nat}
    (present : table.clusters.entry position i = some found) :
    config.getDataNodeLoc found.2 ≠ config.getDataNodeLoc table.freeData := by
  obtain ⟨above, below⟩ := wellFormed.index_bounds position i found present
  have next := wellFormed.freeData_eq
  intro same
  have equal := fits.getDataNodeLoc_inj above (wellFormed.index_lt present)
    (by omega) (by rw [Config.totalLength]; omega) same
  omega

/-- A key comes into a place of its chain that was free, with the next data node. -/
theorem WellFormed.add {slot : Nat × Fin clusterH}
    (wellFormed : table.WellFormed config tails total) (fits : config.Fits)
    (room : total < config.length)
    (absent : ∀ position i, table.clusters.holds Prod.fst key position i = false)
    (grown : Chains config.logicalLength config.logicalLength after.freeIndirect after.clusters
      longer)
    (sub : ∀ bucket < config.logicalLength, path tails bucket ⊆ path longer bucket)
    (member : slot.1 ∈ path longer (config.getHash key))
    (set : after.clusters.entry slot.1 slot.2 = some (key, table.freeData))
    (kept : ∀ other : Nat × Fin clusterH, other ≠ slot →
      after.clusters.entry other.1 other.2 = table.clusters.entry other.1 other.2)
    (held : ∀ bucket < config.logicalLength, after.clusters.held (path longer bucket) =
      table.clusters.held (path tails bucket) + if bucket = config.getHash key then 1 else 0)
    (advanced : after.freeData = table.freeData + 1)
    (written : (after.datas (config.getDataNodeLoc table.freeData)).key = key)
    (unwritten : ∀ loc, loc ≠ config.getDataNodeLoc table.freeData →
      after.datas loc = table.datas loc)
    (free_le : after.freeIndirect ≤ config.indirectLength)
    (next_lt : ∀ position, (after.headers (position * headerSize)).next < after.freeIndirect) :
    after.WellFormed config longer (total + 1) := by
  have isNext := wellFormed.freeData_eq
  have cases' : ∀ {position i found}, after.clusters.entry position i = some found →
      (position, i) = slot ∧ found = (key, table.freeData) ∨
        (position, i) ≠ slot ∧ table.clusters.entry position i = some found := by
    intro position i found present
    by_cases same : (position, i) = slot
    · subst same
      exact .inl ⟨rfl, Option.some.inj (present.symm.trans set)⟩
    · exact .inr ⟨same, (kept (position, i) same).symm.trans present⟩
  constructor
  case chains => exact grown
  case keyed =>
    refine wellFormed.keyed.add wellFormed.chains grown sub (config.getHash_lt key) member set
      kept ?_
    rintro position i found present same
    have here : table.clusters.holds Prod.fst key position i = true :=
      Clusters.holds_iff.mpr ⟨found, present, same⟩
    rw [absent] at here
    cases here
  case count =>
    rw [← wellFormed.count]
    exact sum_succ (config.getHash_lt key) held
  case freeData_eq => omega
  case total_le => exact room
  case free_le => exact free_le
  case next_lt => exact next_lt
  case index_bounds =>
    intro position i found present
    rcases cases' present with ⟨-, rfl⟩ | ⟨-, old⟩
    · exact ⟨by simp only; omega, by simp only; omega⟩
    · have bounds := wellFormed.index_bounds position i found old
      omega
  case index_single =>
    intro one two found also isFound isAlso same
    rcases cases' isFound with ⟨first, rfl⟩ | ⟨-, oldFound⟩
    · rcases cases' isAlso with ⟨second, -⟩ | ⟨-, oldAlso⟩
      · exact first.trans second.symm
      · have bounds := wellFormed.index_bounds two.1 two.2 also oldAlso
        simp only at same
        omega
    · rcases cases' isAlso with ⟨second, rfl⟩ | ⟨-, oldAlso⟩
      · have bounds := wellFormed.index_bounds one.1 one.2 found oldFound
        simp only at same
        omega
      · exact wellFormed.index_single one two found also oldFound oldAlso same
  case data_key =>
    intro position i found present
    rcases cases' present with ⟨-, rfl⟩ | ⟨-, old⟩
    · exact written
    · rw [unwritten _ (wellFormed.dataLoc_ne fits room old)]
      exact wellFormed.data_key position i found old

theorem headers_ne {position other : Nat} (different : position ≠ other) :
    position * headerSize ≠ other * headerSize :=
  fun same => different (Nat.eq_of_mul_eq_mul_right (by decide) same)

/-- An entry of the node with this index is set. -/
theorem clusters_addEntry (position : Nat) (taken : table.freeData ≠ 0) :
    (table.addEntry config (position * headerSize) i key val).1.clusters =
      table.clusters.fill (position, i) (key, table.freeData) := by
  have entries : (table.addEntry config (position * headerSize) i key val).1.clusters.entry =
      (table.clusters.fill (position, i) (key, table.freeData)).entry := by
    funext other j
    by_cases same : other = position
    · subst same
      by_cases chosen : j = i
      · subst chosen
        simp [clusters, addEntry, Clusters.fill, taken]
      · simp [clusters, addEntry, Clusters.fill, Function.update_of_ne chosen]
    · simp [clusters, addEntry, Clusters.fill, Function.update_of_ne same,
        Function.update_of_ne (headers_ne same)]
  have links : (table.addEntry config (position * headerSize) i key val).1.clusters.link =
      (table.clusters.fill (position, i) (key, table.freeData)).link := by
    funext other
    by_cases same : other = position
    · subst same
      simp [clusters, addEntry, Clusters.fill]
    · simp [clusters, addEntry, Clusters.fill, Function.update_of_ne (headers_ne same)]
  exact congrArg₂ Clusters.mk entries links

/-- A header node is linked behind the last one. -/
def link (table : Table) (last : Nat) : Table :=
  { table with
    headers := Function.update table.headers (last * headerSize)
      { table.headers (last * headerSize) with next := table.freeIndirect }
    freeIndirect := table.freeIndirect + 1 }

theorem clusters_link (last : Nat) (taken : table.freeIndirect ≠ 0) :
    (table.link last).clusters =
      { table.clusters with
        link := Function.update table.clusters.link last (some table.freeIndirect) } := by
  have entries : (table.link last).clusters.entry = table.clusters.entry := by
    funext other j
    by_cases same : other = last
    · subst same
      simp [clusters, link]
    · simp [clusters, link, Function.update_of_ne (headers_ne same)]
  have links : (table.link last).clusters.link =
      Function.update table.clusters.link last (some table.freeIndirect) := by
    funext other
    by_cases same : other = last
    · subst same
      simp [clusters, link, taken]
    · simp [clusters, link, Function.update_of_ne same, Function.update_of_ne (headers_ne same)]
  exact congrArg₂ Clusters.mk entries links

theorem addEntry_next (position other : Nat) :
    ((table.addEntry config (position * headerSize) i key val).1.headers
      (other * headerSize)).next = (table.headers (other * headerSize)).next := by
  by_cases same : other = position
  · subst same
    simp [addEntry]
  · simp [addEntry, Function.update_of_ne (headers_ne same)]

/-- What the insertion of a new key does: it succeeds, the key has the next data node, and
the entries and all other data nodes are as they were. -/
structure Adds (config : Config) (table after : Table) (longer : Nat → List Nat)
    (total key loc : Nat) (slot : Nat × Fin clusterH) : Prop where
  wellFormed : after.WellFormed config longer (total + 1)
  loc_eq : loc = config.getDataNodeLoc table.freeData
  isFree : table.clusters.entry slot.1 slot.2 = none
  set : after.clusters.entry slot.1 slot.2 = some (key, table.freeData)
  kept : ∀ other : Nat × Fin clusterH, other ≠ slot →
    after.clusters.entry other.1 other.2 = table.clusters.entry other.1 other.2
  datas : ∀ other, other ≠ config.getDataNodeLoc table.freeData →
    after.datas other = table.datas other

theorem WellFormed.freeData_pos (wellFormed : table.WellFormed config tails total) :
    table.freeData ≠ 0 := by
  have bucket := wellFormed.getHash_lt 0
  have next := wellFormed.freeData_eq
  omega

/-- The last node has a free entry. -/
theorem WellFormed.addEntry (wellFormed : table.WellFormed config tails total)
    (fits : config.Fits) (room : total < config.length)
    (absent : ∀ position i, table.clusters.holds Prod.fst key position i = false)
    (isFree : (table.headers (Chains.last tails (config.getHash key) * headerSize)).indexes i = 0)
    (val : Nat) :
    Adds config table
      (table.addEntry config (Chains.last tails (config.getHash key) * headerSize) i key val).1
      tails total key (config.getDataNodeLoc table.freeData)
      (Chains.last tails (config.getHash key), i) := by
  have bucket := config.getHash_lt key
  have free : table.clusters.entry (Chains.last tails (config.getHash key)) i = none := by
    simp [clusters, isFree]
  have filled := @clusters_addEntry config table key val i
    (Chains.last tails (config.getHash key)) wellFormed.freeData_pos
  have member : ((Chains.last tails (config.getHash key), i) : Nat × Fin clusterH).1 ∈
      path tails (config.getHash key) := Chains.last_mem
  obtain ⟨chains, held⟩ := wellFormed.chains.fill bucket member free (key, table.freeData)
  rw [← filled] at chains held
  have kept : ∀ other : Nat × Fin clusterH,
      other ≠ (Chains.last tails (config.getHash key), i) →
      (table.addEntry config (Chains.last tails (config.getHash key) * headerSize) i key
        val).1.clusters.entry other.1 other.2 = table.clusters.entry other.1 other.2 := by
    intro other different
    rw [filled]
    exact Clusters.entry_fill_of_ne different _
  have set : (table.addEntry config (Chains.last tails (config.getHash key) * headerSize) i key
      val).1.clusters.entry (Chains.last tails (config.getHash key)) i =
        some (key, table.freeData) := by
    rw [filled]
    exact Clusters.entry_fill (Chains.last tails (config.getHash key), i) _
  refine ⟨?_, rfl, free, set, kept, ?_⟩
  · refine wellFormed.add fits room absent chains (fun _ _ => List.Subset.refl _) member set kept
      held rfl ?_ ?_ wellFormed.free_le ?_
    · simp [Table.addEntry]
    · exact fun loc different => Function.update_of_ne different _ _
    · intro position
      rw [addEntry_next]
      exact wellFormed.next_lt position
  · exact fun loc different => Function.update_of_ne different _ _

/-- The last node is full: there is a header node for one more. -/
theorem WellFormed.freeIndirect_lt (wellFormed : table.WellFormed config tails total)
    (room : total < config.length)
    (all : ∀ node ∈ path tails (config.getHash key), ∀ i, (table.clusters.entry node i).isSome) :
    table.freeIndirect < config.indirectLength := by
  have bucket := config.getHash_lt key
  obtain ⟨grown, held⟩ := wellFormed.chains.grow bucket all (0, 0)
  have counted := (sum_succ bucket held).trans (congrArg (· + 1) wellFormed.count)
  have bound := grown.handed_le counted
  have eight := config.length_ge
  simp only [Config.logicalLength, Config.indirectLength, clusterH] at *
  omega

theorem WellFormed.addNode (wellFormed : table.WellFormed config tails total)
    (fits : config.Fits) (room : total < config.length)
    (absent : ∀ position i, table.clusters.holds Prod.fst key position i = false)
    (full : ∀ i, (table.headers
      (Chains.last tails (config.getHash key) * headerSize)).indexes i ≠ 0) (val : Nat) :
    table.freeIndirect < config.indirectLength ∧
      Adds config table ((table.link (Chains.last tails (config.getHash key))).addEntry config
          (table.freeIndirect * headerSize) 0 key val).1
        (Function.update tails (config.getHash key)
          (tails (config.getHash key) ++ [table.freeIndirect]))
        total key (config.getDataNodeLoc table.freeData) (table.freeIndirect, 0) := by
  have bucket := config.getHash_lt key
  have all : ∀ node ∈ path tails (config.getHash key), ∀ i,
      (table.clusters.entry node i).isSome := by
    intro node member i
    rw [← Chains.path_eq] at member
    rcases List.mem_append.mp member with front | isLast
    · exact wellFormed.chains.full _ bucket node front i
    · rw [List.mem_singleton.mp isLast]
      simp [clusters, full i]
  have left := wellFormed.freeIndirect_lt room all
  have unused := wellFormed.chains.outside table.freeIndirect fun other isOther member =>
    lt_irrefl _ (wellFormed.chains.mem_path isOther member)
  have taken : table.freeIndirect ≠ 0 :=
    (lt_of_le_of_lt (Nat.zero_le _) (wellFormed.next_lt 0)).ne'
  have grown : ((table.link (Chains.last tails (config.getHash key))).addEntry config
      (table.freeIndirect * headerSize) 0 key val).1.clusters =
        table.clusters.grow (Chains.last tails (config.getHash key)) table.freeIndirect
          (key, table.freeData) := by
    have filled := @clusters_addEntry config
      (table.link (Chains.last tails (config.getHash key))) key val 0 table.freeIndirect
      wellFormed.freeData_pos
    rw [filled, clusters_link _ taken, Clusters.grow_eq_fill unused.2]
    rfl
  obtain ⟨chains, held⟩ := wellFormed.chains.grow bucket all (key, table.freeData)
  rw [← grown] at chains held
  have member : ((table.freeIndirect, 0) : Nat × Fin clusterH).1 ∈
      path (Function.update tails (config.getHash key)
        (tails (config.getHash key) ++ [table.freeIndirect])) (config.getHash key) :=
    mem_path_extended _ _ _
  have sub : ∀ other < config.logicalLength, path tails other ⊆
      path (Function.update tails (config.getHash key)
        (tails (config.getHash key) ++ [table.freeIndirect])) other :=
    fun other _ => path_subset_extended _ _ _ other
  have set : ((table.link (Chains.last tails (config.getHash key))).addEntry config
      (table.freeIndirect * headerSize) 0 key val).1.clusters.entry table.freeIndirect 0 =
        some (key, table.freeData) := by
    rw [grown]
    exact Clusters.entry_grow ..
  have kept : ∀ other : Nat × Fin clusterH, other ≠ (table.freeIndirect, 0) →
      ((table.link (Chains.last tails (config.getHash key))).addEntry config
        (table.freeIndirect * headerSize) 0 key val).1.clusters.entry other.1 other.2 =
          table.clusters.entry other.1 other.2 := by
    intro other different
    rw [grown]
    exact Clusters.entry_grow_of_ne unused.2 different _
  refine ⟨left, ?_, rfl, unused.2 0, set, kept, ?_⟩
  · refine wellFormed.add fits room absent chains sub member set kept held rfl ?_ ?_ left ?_
    · simp [Table.addEntry, link]
    · exact fun loc different => Function.update_of_ne different _ _
    · intro position
      rw [addEntry_next]
      by_cases same : position = Chains.last tails (config.getHash key)
      · subst same
        simp [Table.addEntry, link]
      · have before := wellFormed.next_lt position
        simp only [Table.addEntry, link, Function.update_of_ne (headers_ne same)]
        omega
  · exact fun loc different => Function.update_of_ne different _ _

/-- The insertion of a key that is not there. -/
theorem WellFormed.addKey (wellFormed : table.WellFormed config tails total)
    (fits : config.Fits) (room : total < config.length)
    (absent : ∀ position i, table.clusters.holds Prod.fst key position i = false) (val : Nat) :
    ∃ after loc longer slot,
      table.addKey config (Chains.last tails (config.getHash key) * headerSize) key val =
          some (after, loc) ∧
        Adds config table after longer total key loc slot := by
  have next := wellFormed.freeData_eq
  have notAll : table.freeData ≠ config.totalLength := by
    rw [Config.totalLength]
    omega
  rw [Table.addKey, if_neg notAll]
  cases found : (List.finRange clusterH).find? fun i =>
      (table.headers (Chains.last tails (config.getHash key) * headerSize)).indexes i == 0 with
  | some i =>
      have isFree := List.find?_some found
      exact ⟨_, _, tails, _, rfl, wellFormed.addEntry fits room absent (by simpa using isFree) val⟩
  | none =>
      have full : ∀ i, (table.headers
          (Chains.last tails (config.getHash key) * headerSize)).indexes i ≠ 0 := by
        intro i
        simpa using List.find?_eq_none.mp found i (List.mem_finRange i)
      obtain ⟨left, adds⟩ := wellFormed.addNode fits room absent full val
      simp only [if_neg (ne_of_lt left)]
      exact ⟨_, _, _, _, rfl, adds⟩

end Table

end Rocc.Memstore.RdmaHashExt
