import Rocc.Memstore.RdmaChainHash.Insert

/-!
# When `RdmaChainHash` stores each key once

What one call does to a table that holds the first calls of all keys, and from it what a sequence
of calls does.
-/

namespace Rocc.Memstore.RdmaChainHash

universe u

variable {Val : Type u} {config : Config} {memory : Nat → RdmaArrayNode Val}
variable {done calls : List (Nat × Val)} {call : Nat × Val}

namespace Table

variable {table after : Table Val} {tails : Nat → List Nat} {key bucket : Nat} {val : Val}
variable {stored : List (Nat × Val)}

/-! ## One call -/

/-- A key of an empty chain. -/
theorem Holds.fillHeader (holds : table.Holds config tails stored)
    (invalid : (table.array (config.getHash key)).valid = false) (val : Val) :
    (table.fillHeader config key val).Holds config tails (stored ++ [(key, val)]) := by
  have isBucket := config.getHash_lt_headerLength key
  obtain ⟨noTail, empty⟩ := holds.tails_eq_nil isBucket invalid
  have member : config.getHash key ∈ path tails (config.getHash key) := List.mem_cons_self
  have filled := clusters_fillHeader val (holds.chains.mem_path isBucket member)
  obtain ⟨chains, held⟩ := holds.chains.fill isBucket
    (show (config.getHash key, (0 : Fin 1)).1 ∈ _ from member) empty (key, val)
  rw [← filled] at chains held
  refine holds.add chains held ?_ holds.free_le
  intro bucket isOther
  rw [entries, filled]
  by_cases same : bucket = config.getHash key
  · subst same
    have before : table.entries config (path tails (config.getHash key)) = [] := by
      simp [entries, path, noTail, empty]
    rw [before, if_pos rfl, path, noTail]
    simp [Clusters.fill]
  · rw [if_neg same, List.append_nil]
    apply List.filterMap_congr
    intro i inOther
    have elsewhere : (i, (0 : Fin 1)) ≠ (config.getHash key, 0) := by
      intro equal
      obtain rfl : i = config.getHash key := congrArg Prod.fst equal
      exact same (holds.chains.path_disjoint isOther isBucket inOther member)
    exact Clusters.entry_fill_of_ne elsewhere (key, val)

/-- A key of a chain that is not empty, while there is a free node. -/
theorem Holds.link (holds : table.Holds config tails stored)
    (valid : (table.array (config.getHash key)).valid = true)
    (room : table.freePointer ≠ config.length) (val : Val) :
    (table.link (Chains.last tails (config.getHash key)) key val).Holds config
      (Function.update tails (config.getHash key)
        (tails (config.getHash key) ++ [table.freePointer])) (stored ++ [(key, val)]) := by
  have isBucket := config.getHash_lt_headerLength key
  have first := holds.chains.first_le
  have grownTo := clusters_link key val (Nat.zero_lt_of_lt (isBucket.trans_le first)) first
    (holds.chains.mem_path isBucket Chains.last_mem)
  obtain ⟨chains, held⟩ := holds.chains.grow isBucket
    (fun i member _ => by
      simp only [clusters, if_pos (holds.used isBucket valid member), Option.isSome_some])
    (key, val)
  rw [← grownTo] at chains held
  have bound := holds.free_le
  refine holds.add chains held ?_ (by simp only [Table.link]; omega)
  intro bucket isOther
  have kept : ∀ i ∈ path tails bucket,
      ((table.clusters config).grow (Chains.last tails (config.getHash key)) table.freePointer
        (key, val)).entry i ⟨0, Nat.one_pos⟩ =
          (table.clusters config).entry i ⟨0, Nat.one_pos⟩ := by
    intro i member
    have older : i ≠ table.freePointer := Nat.ne_of_lt (holds.chains.mem_path isOther member)
    simp [Clusters.grow, older]
  rw [entries, grownTo]
  by_cases same : bucket = config.getHash key
  · subst same
    rw [path_extended, List.filterMap_append, List.filterMap_congr kept, if_pos rfl]
    simp [entries]
  · rw [path_extended_of_ne _ _ _ same, List.filterMap_congr kept, if_neg same, List.append_nil]
    rfl

/-- A key that is there and is not the last one of its chain is in front of it. -/
theorem mem_frontKeys (member : key ∈ (firsts calls).map Prod.fst)
    (notLast : lastNew config calls (config.getHash key) ≠ some key) :
    key ∈ frontKeys config (firsts calls) key := by
  obtain ⟨first, isFirst, rfl⟩ := List.mem_map.mp member
  have inBucket : first ∈ (firsts calls).filter fun call =>
      config.getHash call.1 = config.getHash first.1 := List.mem_filter.mpr ⟨isFirst, by simp⟩
  have nonempty := List.ne_nil_of_mem inBucket
  rw [← List.dropLast_append_getLast nonempty] at inBucket
  rcases List.mem_append.mp inBucket with inFront | isLast
  · exact List.mem_map_of_mem inFront
  · rw [lastNew, List.getLast?_eq_some_getLast nonempty, ← List.mem_singleton.mp isLast] at notLast
    exact absurd rfl notLast

/-- The last key of a chain is not in front of it. -/
theorem not_mem_frontKeys (isLast : lastNew config calls (config.getHash key) = some key) :
    key ∉ frontKeys config (firsts calls) key := by
  obtain ⟨last, found, rfl⟩ := Option.map_eq_some_iff.mp isLast
  have distinct : (((firsts calls).filter fun call =>
      config.getHash call.1 = config.getHash last.1).map Prod.fst).Nodup :=
    (nodup_firsts calls).sublist (List.filter_sublist.map Prod.fst)
  rw [← List.dropLast_append_getLast? last found, List.map_append, List.nodup_append] at distinct
  exact fun inFront => distinct.2.2 _ inFront _ List.mem_cons_self rfl

/-- A new key is not in front of the last node either. -/
theorem not_mem_frontKeys_of_not_mem (absent : key ∉ stored.map Prod.fst) :
    key ∉ frontKeys config stored key := by
  intro inFront
  obtain ⟨call, isFront, rfl⟩ := List.mem_map.mp inFront
  exact absent (List.mem_map_of_mem (List.mem_of_mem_filter (List.mem_of_mem_dropLast isFront)))

/-- `Insert` of a key that is in no node but the last one of its chain. -/
theorem Holds.insert_eq (holds : table.Holds config tails stored)
    (absent : key ∉ frontKeys config stored key) (val : Val) :
    table.insert config key val =
      if (table.array (config.getHash key)).valid = false then
        some (table.fillHeader config key val)
      else if table.freePointer = config.length then none
      else some (table.link (Chains.last tails (config.getHash key)) key val) := by
  cases valid : (table.array (config.getHash key)).valid with
  | false =>
      rw [insert, if_pos valid]
      rfl
  | true =>
      rw [insert, if_neg (by simp [valid]), holds.search_eq key valid, if_neg absent]
      rfl

/-- It changes the table, if it does not fail. -/
theorem Holds.insert_ne (holds : table.Holds config tails stored)
    (absent : key ∉ frontKeys config stored key) (val : Val) :
    table.insert config key val ≠ some table := by
  rw [holds.insert_eq absent]
  intro unchanged
  split at unchanged
  · rename_i invalid
    have same := congrArg (fun table => (table.array (config.getHash key)).valid)
      (Option.some.inj unchanged)
    simp [Table.fillHeader, invalid] at same
  · split at unchanged
    · cases unchanged
    · have same := congrArg freePointer (Option.some.inj unchanged)
      simp [Table.link] at same

/-- A new key goes to the end of its chain. -/
theorem Holds.of_insert (holds : table.Holds config tails stored)
    (absent : key ∉ frontKeys config stored key)
    (inserted : table.insert config key val = some after) :
    ∃ longer, after.Holds config longer (stored ++ [(key, val)]) := by
  rw [holds.insert_eq absent] at inserted
  split at inserted
  · rename_i invalid
    obtain rfl := Option.some.inj inserted
    exact ⟨tails, holds.fillHeader invalid val⟩
  · rename_i valid
    split at inserted
    · cases inserted
    · rename_i room
      obtain rfl := Option.some.inj inserted
      exact ⟨_, holds.link (by simpa using valid) room val⟩

/-- There are nodes for as many keys as there are nodes behind the headers. -/
theorem Holds.isSome_insert (holds : table.Holds config tails stored)
    (absent : key ∉ frontKeys config stored key) (val : Val)
    (few : stored.length + 1 ≤ config.length - config.headerLength) :
    (table.insert config key val).isSome := by
  have handed := holds.chains.handed_le holds.total
  rw [Nat.div_one] at handed
  have first := holds.chains.first_le
  rw [holds.insert_eq absent]
  split
  · rfl
  · rw [if_neg (by omega)]
    rfl

/-- A key that is in front of the last node of its chain changes nothing. -/
theorem Holds.insert_of_mem (holds : table.Holds config tails stored)
    (inFront : key ∈ frontKeys config stored key) (val : Val) :
    table.insert config key val = some table := by
  have isBucket := config.getHash_lt_headerLength key
  cases valid : (table.array (config.getHash key)).valid with
  | false =>
      obtain ⟨noTail, empty⟩ := holds.tails_eq_nil isBucket valid
      have nothing : table.entries config (path tails (config.getHash key)) = [] := by
        simp [entries, path, noTail, empty]
      rw [frontKeys, ← holds.contents _ isBucket, nothing] at inFront
      cases inFront
  | true =>
      rw [insert, if_neg (by simp [valid]), holds.search_eq key valid, if_pos inFront]
      rfl

end Table

/-! ## Sequences of calls -/

theorem NeverLast.of_prefix (never : NeverLast config calls) (before : done <+: calls) :
    NeverLast config done := fun earlier call isPrefix =>
  never earlier call (isPrefix.trans before)

/-- What a call of the sequence does. -/
theorem NeverLast.step (never : NeverLast config (done ++ [call])) {table : Table Val}
    {tails : Nat → List Nat} (holds : table.Holds config tails (firsts done)) :
    (call.1 ∈ done.map Prod.fst ∧ table.insert config call.1 call.2 = some table ∧
        firsts (done ++ [call]) = firsts done) ∨
      (call.1 ∉ Table.frontKeys config (firsts done) call.1 ∧
        firsts (done ++ [call]) = firsts done ++ [call]) := by
  by_cases member : call.1 ∈ (firsts done).map Prod.fst
  · have inFront := Table.mem_frontKeys member (never done call (List.prefix_refl _))
    exact .inl ⟨(mem_firsts done _).mp member, holds.insert_of_mem inFront call.2,
      firsts_concat_of_mem member⟩
  · exact .inr ⟨Table.not_mem_frontKeys_of_not_mem member, firsts_concat_of_not_mem member⟩

theorem run_concat (table : Table Val) (done : List (Nat × Val)) (call : Nat × Val) :
    table.run config (done ++ [call]) =
      (table.run config done).bind fun after => after.insert config call.1 call.2 := by
  simp only [Table.run, List.foldlM_append, List.foldlM_cons, List.foldlM_nil]
  cases List.foldlM (fun table call => Table.insert config table call.1 call.2) table done with
  | none => rfl
  | some middle => exact bind_pure (m := Option) _

/-- A table holds the first calls of all keys. -/
theorem NeverLast.holds (never : NeverLast config done) {table : Table Val}
    (isRun : (Table.init config memory).run config done = some table) :
    ∃ tails, table.Holds config tails (firsts done) := by
  induction done using List.reverseRecOn generalizing table with
  | nil =>
      obtain rfl := Option.some.inj isRun
      exact ⟨_, Table.holds_init config memory⟩
  | append_singleton done call ih =>
      rw [run_concat] at isRun
      obtain ⟨middle, isMiddle, inserted⟩ := Option.bind_eq_some_iff.mp isRun
      obtain ⟨tails, holds⟩ := ih (never.of_prefix (List.prefix_append _ _)) isMiddle
      rcases never.step holds with ⟨-, unchanged, same⟩ | ⟨absent, more⟩
      · rw [unchanged] at inserted
        obtain rfl := Option.some.inj inserted
        exact ⟨tails, by rwa [same]⟩
      · rw [more]
        exact holds.of_insert absent inserted

theorem NeverLast.isSome_run (never : NeverLast config done)
    (few : (done.map Prod.fst).toFinset.card ≤ config.length - config.headerLength) :
    ((Table.init config memory).run config done).isSome := by
  rw [← length_firsts] at few
  induction done using List.reverseRecOn with
  | nil => rfl
  | append_singleton done call ih =>
      have earlier := never.of_prefix (List.prefix_append done [call])
      have fewer : (firsts done).length ≤ config.length - config.headerLength := by
        rw [firsts_concat] at few
        split at few
        · exact few
        · rw [List.length_append] at few
          exact (Nat.le_add_right _ _).trans few
      obtain ⟨table, isRun⟩ := Option.isSome_iff_exists.mp (ih earlier fewer)
      obtain ⟨tails, holds⟩ := earlier.holds isRun
      rw [run_concat, isRun, Option.bind_some]
      rcases never.step holds with ⟨-, unchanged, -⟩ | ⟨absent, more⟩
      · rw [unchanged]
        rfl
      · rw [more, List.length_append, List.length_singleton] at few
        exact holds.isSome_insert absent call.2 few

/-- What the table is for, if no call inserts the last new key of its bucket. -/
theorem NeverLast.storesOnce (never : NeverLast config calls) : StoresOnce config memory calls := by
  constructor
  case stores =>
    intro done before table isRun
    obtain ⟨tails, holds⟩ := (never.of_prefix before).holds isRun
    constructor
    case get =>
      intro key
      rw [holds.get_eq, find?_firsts]
    case finite =>
      exact fun bucket isBucket =>
        ⟨tails bucket, holds.leads isBucket, holds.chains.nodup_path isBucket⟩
  case succeeds => exact fun done before few => (never.of_prefix before).isSome_run few
  case unchanged =>
    intro done call before table isRun member
    have earlier := never.of_prefix before
    obtain ⟨tails, holds⟩ := (earlier.of_prefix (List.prefix_append _ _)).holds isRun
    rcases earlier.step holds with ⟨-, unchanged, -⟩ | ⟨absent, -⟩
    · exact unchanged
    · exact absurd (Table.mem_frontKeys ((mem_firsts done _).mpr member)
        (never done call before)) absent

/-- A part of a sequence that does not fail does not fail either. -/
theorem isSome_run_of_done {table : Table Val} (before : done <+: calls)
    (succeeds : (table.run config calls).isSome) : (table.run config done).isSome := by
  obtain ⟨rest, rfl⟩ := before
  rw [Table.run, List.foldlM_append] at succeeds
  rw [Table.run]
  cases first : List.foldlM (fun table call => Table.insert config table call.1 call.2) table done
    with
  | none =>
      rw [first] at succeeds
      cases succeeds
  | some middle => rfl

/-- If each key is stored once, no call inserts the key that came last into its bucket as a new
one. -/
theorem StoresOnce.neverLast (once : StoresOnce config memory calls)
    (succeeds : ((Table.init config memory).run config calls.dropLast).isSome) :
    NeverLast config calls := by
  suffices parts : ∀ done, done <+: calls → NeverLast config done from
    parts calls (List.prefix_refl _)
  intro done before
  induction done using List.reverseRecOn with
  | nil =>
      intro earlier call isPrefix
      exact absurd (List.prefix_nil.mp isPrefix) (by simp)
  | append_singleton done call ih =>
      have earlier := ih ((List.prefix_append _ _).trans before)
      intro other next isPrefix
      rcases List.prefix_concat_iff.mp isPrefix with same | shorter
      · obtain ⟨rfl, single⟩ := List.append_inj' same rfl
        obtain rfl := List.singleton_inj.mp single
        intro isLast
        have running : other <+: calls.dropLast := by
          obtain ⟨rest, rfl⟩ := before
          rw [List.append_assoc, List.dropLast_append_of_ne_nil (by simp)]
          exact List.prefix_append _ _
        obtain ⟨table, isRun⟩ :=
          Option.isSome_iff_exists.mp (isSome_run_of_done running succeeds)
        obtain ⟨tails, holds⟩ := earlier.holds isRun
        have member : next.1 ∈ other.map Prod.fst := by
          obtain ⟨last, found, same⟩ := Option.map_eq_some_iff.mp isLast
          rw [← same, ← mem_firsts]
          exact List.mem_map_of_mem (List.mem_of_mem_filter (List.mem_of_getLast? found))
        exact holds.insert_ne (Table.not_mem_frontKeys isLast) next.2
          (once.unchanged other next before table isRun member)
      · exact earlier other next shorter

/-- As long as no call fails, a table stores each key once exactly if no call inserts the key that
came last into its bucket as a new one. -/
theorem storesOnce_iff (config : Config) (memory : Nat → RdmaArrayNode Val)
    (calls : List (Nat × Val))
    (succeeds : ((Table.init config memory).run config calls.dropLast).isSome) :
    StoresOnce config memory calls ↔ NeverLast config calls :=
  ⟨fun once => once.neverLast succeeds, NeverLast.storesOnce⟩

/-- Four nodes, one of them the header of the only bucket. -/
def smallConfig : Config where
  length := 4
  getHash _ := 0
  getHash_lt _ := by decide

theorem storesOnce_iff_one :
    StoresOnce smallConfig (fun _ => ⟨0, 0, false, 0⟩) [(1, 7)] := by
  refine (storesOnce_iff smallConfig _ _ rfl).mpr fun done call isPrefix => ?_
  have first : done = [] := by
    have lengths := isPrefix.length_le
    rw [List.length_append] at lengths
    exact List.length_eq_zero_iff.mp (Nat.le_zero.mp (Nat.le_of_succ_le_succ lengths))
  subst first
  simp [lastNew, firsts]

/-- A key that is inserted twice in a row is stored twice. -/
theorem not_storesOnce :
    ¬∀ (config : Config) (memory : Nat → RdmaArrayNode Nat) (calls : List (Nat × Nat)),
      ((Table.init config memory).run config calls.dropLast).isSome →
        StoresOnce config memory calls := by
  intro always
  have never : NeverLast smallConfig [(1, 7), (1, 8)] :=
    (always smallConfig (fun _ => ⟨0, 0, false, 0⟩) _ rfl).neverLast rfl
  exact never [(1, 7)] (1, 8) (List.prefix_refl _) rfl

end Rocc.Memstore.RdmaChainHash
