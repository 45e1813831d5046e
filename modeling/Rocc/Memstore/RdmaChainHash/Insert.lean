import Rocc.Memstore.RdmaChainHash.Model

/-!
# Insertions into `RdmaChainHash`

The nodes of the array as chains of clusters with one entry each: an entry in every header that is
valid and in every node that has been handed out.  While no call inserts the key of the last node of
its chain, the entries of a chain are the first calls of the keys of its bucket, in their order.
-/

namespace Rocc.Memstore.RdmaChainHash

universe u

variable {Val : Type u} {config : Config} {memory : Nat → RdmaArrayNode Val}

theorem Config.getHash_lt_headerLength (config : Config) (key : Nat) :
    config.getHash key < config.headerLength := by
  rw [headerLength, Nat.mul_one]
  exact config.getHash_lt key

theorem Config.headerLength_le (config : Config) : config.headerLength ≤ config.length := by
  rw [headerLength, Nat.mul_one]
  exact Nat.div_le_self _ _

/-! ## First calls -/

theorem firsts_concat (calls : List (Nat × Val)) (call : Nat × Val) :
    firsts (calls ++ [call]) =
      if call.1 ∈ (firsts calls).map Prod.fst then firsts calls else firsts calls ++ [call] := by
  rw [firsts, List.foldl_append]
  rfl

theorem firsts_concat_of_mem {calls : List (Nat × Val)} {call : Nat × Val}
    (member : call.1 ∈ (firsts calls).map Prod.fst) : firsts (calls ++ [call]) = firsts calls := by
  rw [firsts_concat, if_pos member]

theorem firsts_concat_of_not_mem {calls : List (Nat × Val)} {call : Nat × Val}
    (absent : call.1 ∉ (firsts calls).map Prod.fst) :
    firsts (calls ++ [call]) = firsts calls ++ [call] := by
  rw [firsts_concat, if_neg absent]

theorem mem_firsts (calls : List (Nat × Val)) (key : Nat) :
    key ∈ (firsts calls).map Prod.fst ↔ key ∈ calls.map Prod.fst := by
  induction calls using List.reverseRecOn with
  | nil => rfl
  | append_singleton calls call ih =>
      rw [List.map_append, List.mem_append, ← ih, firsts_concat]
      split
      · rename_i member
        constructor
        · exact .inl
        · rintro (before | same)
          · exact before
          · rw [List.map_singleton, List.mem_singleton] at same
            exact same ▸ member
      · rw [List.map_append, List.mem_append]

theorem nodup_firsts (calls : List (Nat × Val)) : ((firsts calls).map Prod.fst).Nodup := by
  induction calls using List.reverseRecOn with
  | nil => exact List.nodup_nil
  | append_singleton calls call ih =>
      rw [firsts_concat]
      split
      · exact ih
      · rename_i absent
        rw [List.map_append, List.map_singleton, ← List.concat_eq_append]
        exact ih.concat absent

/-- There are as many first calls as keys. -/
theorem length_firsts (calls : List (Nat × Val)) :
    (firsts calls).length = (calls.map Prod.fst).toFinset.card := by
  have keys : (calls.map Prod.fst).toFinset = ((firsts calls).map Prod.fst).toFinset := by
    ext key
    rw [List.mem_toFinset, List.mem_toFinset, mem_firsts]
  rw [keys, List.toFinset_card_of_nodup (nodup_firsts calls), List.length_map]

/-- The first call with a key is the first one there. -/
theorem find?_firsts (calls : List (Nat × Val)) (key : Nat) :
    ((firsts calls).find? fun call => call.1 = key) = calls.find? fun call => call.1 = key := by
  induction calls using List.reverseRecOn with
  | nil => rfl
  | append_singleton calls call ih =>
      rw [firsts_concat, List.find?_append, ← ih]
      split
      · rename_i member
        cases found : (firsts calls).find? fun call => call.1 = key with
        | some first => rfl
        | none =>
            obtain ⟨first, isFirst, same⟩ := List.mem_map.mp member
            have other := List.find?_eq_none.mp found first isFirst
            rw [same] at other
            rw [List.find?_singleton, if_neg (by simpa using other)]
            rfl
      · rw [List.find?_append]

namespace Table

variable {table after : Table Val} {tails : Nat → List Nat} {key bucket : Nat} {val : Val}
variable {stored : List (Nat × Val)}

/-! ## Chains -/

/-- A node has an entry. -/
abbrev Used (config : Config) (table : Table Val) (i : Nat) : Prop :=
  i < table.freePointer ∧ (i < config.headerLength → (table.array i).valid = true)

/-- The key and the entry of a node. -/
def entryAt (table : Table Val) (i : Nat) : Nat × Val := ((table.array i).key, (table.array i).data)

/-- The entries, and the links of the nodes that have been handed out. -/
def clusters (config : Config) (table : Table Val) : Clusters (Nat × Val) 1 where
  entry i _ := if table.Used config i then some (table.entryAt i) else none
  link i := if i < table.freePointer then table.next i else none

/-- The entries of a chain. -/
def entries (config : Config) (table : Table Val) (path : List Nat) : List (Nat × Val) :=
  path.filterMap fun i => (table.clusters config).entry i ⟨0, Nat.one_pos⟩

/-- The chains hold these entries, each bucket in this order. -/
structure Holds (config : Config) (table : Table Val) (tails : Nat → List Nat)
    (stored : List (Nat × Val)) : Prop where
  chains : Chains config.headerLength config.headerLength table.freePointer
    (table.clusters config) tails
  contents : ∀ bucket < config.headerLength, table.entries config (path tails bucket) =
    stored.filter fun call => config.getHash call.1 = bucket
  total : ∑ bucket ∈ Finset.range config.headerLength,
    (table.clusters config).held (path tails bucket) = stored.length
  free_le : table.freePointer ≤ config.length

theorem holds_init (config : Config) (memory : Nat → RdmaArrayNode Val) :
    (init config memory).Holds config (fun _ => []) [] := by
  have unused : ∀ i, ¬(init config memory).Used config i := by
    rintro i ⟨inside, valid⟩
    have isHeader : i < config.headerLength := inside
    have invalid := valid isHeader
    simp [init, isHeader] at invalid
  have empty : ∀ i index, ((init config memory).clusters config).entry i index = none :=
    fun i _ => if_neg (unused i)
  constructor
  case chains =>
    refine Chains.empty le_rfl ?_ empty
    intro i
    simp only [clusters]
    split
    · rename_i inside
      have isHeader : i < config.headerLength := inside
      simp [next, init, isHeader]
    · rfl
  case contents =>
    intro bucket _
    simp [entries, empty]
  case total =>
    apply Finset.sum_eq_zero
    intro bucket _
    rw [Clusters.held, List.countP_eq_zero]
    intro slot _
    simp [empty]
  case free_le => exact config.headerLength_le

/-! ## Walking along a chain -/

/-- The nodes of a chain have been handed out. -/
theorem Holds.leads (holds : table.Holds config tails stored)
    (isBucket : bucket < config.headerLength) : Leads table.next (path tails bucket) none := by
  apply (holds.chains.linked bucket isBucket).congr
  intro i member
  exact (if_pos (holds.chains.mem_path isBucket member)).symm

theorem Holds.enough (holds : table.Holds config tails stored)
    (isBucket : bucket < config.headerLength) : (tails bucket).length < config.length := by
  have handed := holds.chains.length_tail_le isBucket
  have bound := holds.free_le
  have first := holds.chains.first_le
  omega

/-- If the header of a chain is valid all of its nodes have entries. -/
theorem Holds.used (holds : table.Holds config tails stored)
    (isBucket : bucket < config.headerLength) (valid : (table.array bucket).valid = true)
    {i : Nat} (member : i ∈ path tails bucket) : table.Used config i := by
  refine ⟨holds.chains.mem_path isBucket member, fun isHeader => ?_⟩
  rcases List.mem_cons.mp member with rfl | later
  · exact valid
  · exact absurd isHeader (not_lt.mpr (holds.chains.inside bucket isBucket i later).1)

theorem Holds.entries_eq (holds : table.Holds config tails stored)
    (isBucket : bucket < config.headerLength) (valid : (table.array bucket).valid = true)
    {nodes : List Nat} (sub : nodes ⊆ path tails bucket) :
    table.entries config nodes = nodes.map table.entryAt := by
  rw [entries, ← List.filterMap_eq_map]
  apply List.filterMap_congr
  intro i member
  exact if_pos (holds.used isBucket valid (sub member))

/-- A chain whose header is not valid is empty. -/
theorem Holds.tails_eq_nil (holds : table.Holds config tails stored)
    (isBucket : bucket < config.headerLength) (invalid : (table.array bucket).valid = false) :
    tails bucket = [] ∧ (table.clusters config).entry bucket 0 = none := by
  have empty : (table.clusters config).entry bucket 0 = none := by
    apply if_neg
    rintro ⟨-, valid⟩
    rw [valid isBucket] at invalid
    cases invalid
  refine ⟨?_, empty⟩
  cases tail : tails bucket with
  | nil => rfl
  | cons second rest =>
      have inFront : bucket ∈ (path tails bucket).dropLast := by simp [path, tail]
      have full := holds.chains.full bucket isBucket bucket inFront 0
      rw [empty] at full
      cases full

/-- The contents of a chain that is not empty. -/
theorem Holds.map_path (holds : table.Holds config tails stored)
    (isBucket : bucket < config.headerLength) (valid : (table.array bucket).valid = true) :
    (path tails bucket).map table.entryAt =
      stored.filter fun call => config.getHash call.1 = bucket := by
  rw [← holds.contents bucket isBucket, holds.entries_eq isBucket valid (List.Subset.refl _)]

/-- The keys of a chain, without the last one. -/
def frontKeys (config : Config) (stored : List (Nat × Val)) (key : Nat) : List Nat :=
  ((stored.filter fun call => config.getHash call.1 = config.getHash key).dropLast).map Prod.fst

theorem findSome?_ite {Node Result : Type*} (nodes : List Node) (test : Node → Prop)
    [DecidablePred test] (result : Result) :
    (nodes.findSome? fun node => if test node then some result else none) =
      if ∃ node ∈ nodes, test node then some result else none := by
  induction nodes with
  | nil => simp
  | cons node rest ih =>
      rw [List.findSome?_cons]
      by_cases here : test node <;> simp [here, ih]

/-- The search of `Insert` in a chain that is not empty. -/
theorem Holds.search_eq (holds : table.Holds config tails stored) (key : Nat)
    (valid : (table.array (config.getHash key)).valid = true) :
    table.search config key = some
      (if key ∈ frontKeys config stored key then none
        else some (Chains.last tails (config.getHash key))) := by
  have isBucket := config.getHash_lt_headerLength key
  have leads := holds.leads isBucket
  have walked : table.search config key = some (((path tails (config.getHash key)).findSome?
      fun i => if (table.next i).isSome ∧ (table.array i).key = key then some none else none).getD
        (some (Chains.last tails (config.getHash key)))) :=
    walk_eq leads (holds.enough isBucket)
  have distinct := holds.chains.nodup_path isBucket
  have split : (path tails (config.getHash key)).dropLast ++
      [Chains.last tails (config.getHash key)] = path tails (config.getHash key) := Chains.path_eq
  rw [← split] at leads distinct
  -- The last node is not looked at.
  have looked : ∀ i ∈ path tails (config.getHash key),
      ((table.next i).isSome ↔ i ∈ (path tails (config.getHash key)).dropLast) := by
    intro i member
    have inSplit : i ∈ (path tails (config.getHash key)).dropLast ++
        [Chains.last tails (config.getHash key)] := by rwa [split]
    refine leads.isSome_iff_mem ?_ inSplit
    exact fun inFront => (List.nodup_append.mp distinct).2.2 _ inFront _ List.mem_cons_self rfl
  have known : (∃ i ∈ path tails (config.getHash key),
      (table.next i).isSome ∧ (table.array i).key = key) ↔ key ∈ frontKeys config stored key := by
    rw [frontKeys, ← holds.map_path isBucket valid, ← List.map_dropLast, List.map_map, List.mem_map]
    constructor
    · rintro ⟨i, member, continued, same⟩
      exact ⟨i, (looked i member).mp continued, same⟩
    · rintro ⟨i, inFront, same⟩
      have member := List.mem_of_mem_dropLast inFront
      exact ⟨i, member, (looked i member).mpr inFront, same⟩
  rw [walked, findSome?_ite, if_congr known rfl rfl]
  split <;> rfl

theorem findSome?_entryAt (table : Table Val) (nodes : List Nat) (key : Nat) :
    (nodes.findSome? fun i =>
        if (table.array i).key = key then some (some (table.array i).data) else none).getD none =
      ((nodes.map table.entryAt).find? fun call => call.1 = key).map Prod.snd := by
  induction nodes with
  | nil => rfl
  | cons i rest ih =>
      rw [List.findSome?_cons, List.map_cons, List.find?_cons]
      by_cases same : (table.array i).key = key
      · simp [entryAt, same]
      · simpa [entryAt, same] using ih

/-- `Get` finds the first entry with the key. -/
theorem Holds.get_eq (holds : table.Holds config tails stored) (key : Nat) :
    table.get config key = some ((stored.find? fun call => call.1 = key).map Prod.snd) := by
  have isBucket := config.getHash_lt_headerLength key
  have inBucket : ((stored.filter fun call =>
      config.getHash call.1 = config.getHash key).find? fun call => call.1 = key) =
        stored.find? fun call => call.1 = key := by
    rw [List.find?_filter]
    congr 1
    funext call
    by_cases same : call.1 = key <;> simp [same]
  rw [← inBucket]
  cases valid : (table.array (config.getHash key)).valid with
  | false =>
      obtain ⟨noTail, empty⟩ := holds.tails_eq_nil isBucket valid
      rw [← holds.contents _ isBucket]
      simp [get, valid, entries, path, noTail, empty]
  | true =>
      have walked : table.get config key = some (((path tails (config.getHash key)).findSome?
          fun i => if (table.array i).key = key then some (some (table.array i).data)
            else none).getD none) := by
        simp only [get, valid, Bool.true_eq_false, if_false]
        exact walk_eq (holds.leads isBucket) (holds.enough isBucket)
      rw [← holds.map_path isBucket valid, walked, findSome?_entryAt]

/-! ## A new key -/

/-- One more entry at the end of a chain. -/
theorem Holds.add (holds : table.Holds config tails stored) {longer : Nat → List Nat}
    (grown : Chains config.headerLength config.headerLength after.freePointer
      (after.clusters config) longer)
    (held : ∀ bucket < config.headerLength,
      (after.clusters config).held (path longer bucket) =
        (table.clusters config).held (path tails bucket) +
          if bucket = config.getHash key then 1 else 0)
    (listed : ∀ bucket < config.headerLength, after.entries config (path longer bucket) =
      table.entries config (path tails bucket) ++
        if bucket = config.getHash key then [(key, val)] else [])
    (free_le : after.freePointer ≤ config.length) :
    after.Holds config longer (stored ++ [(key, val)]) := by
  constructor
  case chains => exact grown
  case contents =>
    intro bucket isBucket
    rw [listed bucket isBucket, holds.contents bucket isBucket, List.filter_append,
      List.filter_singleton]
    simp only [eq_comm, Bool.cond_decide]
  case total =>
    rw [sum_succ (config.getHash_lt_headerLength key) held, holds.total, List.length_append,
      List.length_singleton]
  case free_le => exact free_le

/-- The header of an empty chain takes the key. -/
def fillHeader (config : Config) (table : Table Val) (key : Nat) (val : Val) : Table Val :=
  { table with
    array := Function.update table.array (config.getHash key)
      { table.array (config.getHash key) with key, valid := true, data := val } }

theorem clusters_fillHeader (val : Val) (inside : config.getHash key < table.freePointer) :
    (table.fillHeader config key val).clusters config =
      (table.clusters config).fill (config.getHash key, 0) (key, val) := by
  rw [clusters, clusters, Clusters.fill, Clusters.mk.injEq]
  constructor
  · funext i index
    by_cases same : i = config.getHash key
    · subst same
      simp [Used, fillHeader, entryAt, inside, Fin.eq_zero index]
    · simp [Used, fillHeader, entryAt, same]
  · funext i
    by_cases same : i = config.getHash key
    · subst same
      simp [next, fillHeader]
    · simp [next, fillHeader, same]

/-- The last node of a chain gets a successor with the key. -/
theorem clusters_link {last : Nat} (key : Nat) (val : Val) (positive : 0 < table.freePointer)
    (first : config.headerLength ≤ table.freePointer) (inside : last < table.freePointer) :
    (table.link last key val).clusters config =
      (table.clusters config).grow last table.freePointer (key, val) := by
  have different : last ≠ table.freePointer := Nat.ne_of_lt inside
  rw [clusters, clusters, Clusters.grow, Clusters.mk.injEq]
  constructor
  · funext i index
    by_cases isFree : i = table.freePointer
    · subst isFree
      simp [Used, link, entryAt, Fin.eq_zero index, Nat.not_lt.mpr first]
    · have within : i < table.freePointer + 1 ↔ i < table.freePointer := by omega
      by_cases isLast : i = last
      · subst isLast
        simp [Used, link, entryAt, isFree, within]
      · simp [Used, link, entryAt, isFree, isLast, within]
  · funext i
    by_cases isFree : i = table.freePointer
    · subst isFree
      simp [next, link, different.symm]
    · have within : i < table.freePointer + 1 ↔ i < table.freePointer := by omega
      by_cases isLast : i = last
      · subst isLast
        simp [next, link, isFree, inside, within, Nat.ne_of_gt positive]
      · simp [next, link, isFree, isLast, within]

end Table

end Rocc.Memstore.RdmaChainHash
