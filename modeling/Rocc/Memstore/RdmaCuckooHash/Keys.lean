import Mathlib.Data.List.Induction
import Rocc.Memstore.RdmaCuckooHash.Model

/-!
# The keys of `RdmaCuckooHash`

Whatever `find_path` does, `Insert` loses no entry: each stays in one node.  `Get` finds it
as long as this node is in one of the two buckets of its key.  An entry that the copies move
goes there when the walk does not come back to its node; but when it does, the node has
something else by the time it hands its entry on, and that goes into a bucket that was chosen
for another key.
-/

namespace Rocc.Memstore.RdmaCuckooHash

universe u

variable {Data : Type u}

/-- The node is in one of the two buckets of the key. -/
def Config.IsHome (config : Config) (key pos : Nat) : Prop :=
  pos / slotPerBucket = config.getHash key ∨ pos / slotPerBucket = config.getHash2 key

/-- A call of `Insert`, with the outcomes of `rand`. -/
structure Insertion (Data : Type u) where
  key : Nat
  data : Data
  rands : List Nat

namespace Table

/-- A sequence of calls; no result if the assertion of `find_path` fails in one of them. -/
def run (config : Config) (table : Table Data) (calls : List (Insertion Data)) :
    Option (Table Data) :=
  calls.foldlM (fun table call => table.insert config call.key call.data call.rands) table

/-- `Get` returns what was stored for the keys inserted, and nothing for the others. -/
def Keeps (config : Config) (table : Table Data) (calls : List (Insertion Data)) : Prop :=
  (∀ call ∈ calls, table.get config call.key = some call.data) ∧
    ∀ key ∉ calls.map Insertion.key, table.get config key = none

/-- If a walk is needed, the entry that comes into a node of it, other than the first one, has
a key with this bucket. -/
def Meets (config : Config) (table : Table Data) (call : Insertion Data) : Prop :=
  table.freeSlot config call.key = none →
    ∀ path, table.kickPath config call.key call.rands = some path →
      ∀ pos ∈ path, pos ≠ path.headD 0 →
        config.IsHome (table.header (source path pos)).key pos

/-- Each key is in one node, with the number of its data, whatever node that is. -/
structure Holds (config : Config) (table : Table Data) (calls : List (Insertion Data)) :
    Prop where
  single : ∀ one two, (table.header one).valid = true → (table.header two).valid = true →
    (table.header one).key = (table.header two).key → one = two
  index_lt : ∀ pos, (table.header pos).valid = true → (table.header pos).index < table.freePtr
  mem_iff : ∀ key data, (∃ call ∈ calls, call.key = key ∧ call.data = data) ↔
    ∃ pos, (table.header pos).valid = true ∧ (table.header pos).key = key ∧
      table.datas (config.getDataloc (table.header pos).index) = data

variable {config : Config} {table after : Table Data} {calls : List (Insertion Data)}
variable {call : Insertion Data} {key pos bucket : Nat} {data : Data}

theorem mem_slotsOf : pos ∈ slotsOf bucket ↔ pos / slotPerBucket = bucket := by
  simp only [slotsOf, List.mem_map, List.mem_range]
  constructor
  · rintro ⟨i, inside, rfl⟩
    simp only [slotPerBucket] at *
    omega
  · rintro rfl
    refine ⟨pos % slotPerBucket, Nat.mod_lt _ (by decide), ?_⟩
    rw [Nat.mul_comm]
    exact Nat.div_add_mod pos slotPerBucket

theorem mem_slots_iff (key pos : Nat) :
    pos ∈ slotsOf (config.getHash key) ++ slotsOf (config.getHash2 key) ↔
      config.IsHome key pos := by
  rw [List.mem_append, mem_slotsOf, mem_slotsOf, Config.IsHome]

theorem getDataloc_inj {i j : Nat} (same : config.getDataloc i = config.getDataloc j) : i = j := by
  rw [Config.getDataloc, Config.getDataloc, Nat.add_left_cancel_iff] at same
  exact Nat.eq_of_mul_eq_mul_left config.entrysize_pos same

/-! ## `Get` -/

theorem Holds.get_eq_some (holds : table.Holds config calls)
    (valid : (table.header pos).valid = true)
    (home : config.IsHome (table.header pos).key pos) :
    table.get config (table.header pos).key =
      some (table.datas (config.getDataloc (table.header pos).index)) := by
  have here : ((table.header pos).valid && (table.header pos).key == (table.header pos).key) =
      true := by simp [valid]
  rw [get]
  cases found : (slotsOf (config.getHash (table.header pos).key) ++
      slotsOf (config.getHash2 (table.header pos).key)).find? fun other =>
        (table.header other).valid && (table.header other).key == (table.header pos).key with
  | none =>
      exact absurd here (List.find?_eq_none.mp found pos ((mem_slots_iff _ _).mpr home))
  | some other =>
      have passed := List.find?_some found
      simp only [Bool.and_eq_true, beq_iff_eq] at passed
      rw [holds.single other pos passed.1 valid passed.2]
      rfl

/-- A key that `Get` finds is in one of its buckets. -/
theorem exists_of_get (found : table.get config key = some data) :
    ∃ pos, (table.header pos).valid = true ∧ (table.header pos).key = key ∧
      config.IsHome key pos := by
  obtain ⟨pos, isFound, -⟩ := Option.map_eq_some_iff.mp found
  have passed := List.find?_some isFound
  simp only [Bool.and_eq_true, beq_iff_eq] at passed
  exact ⟨pos, passed.1, passed.2, (mem_slots_iff _ _).mp (List.mem_of_find?_eq_some isFound)⟩

/-- `Get` is right exactly if all entries are in one of their buckets. -/
theorem Holds.keeps_iff (holds : table.Holds config calls) :
    table.Keeps config calls ↔
      ∀ pos, (table.header pos).valid = true → config.IsHome (table.header pos).key pos := by
  constructor
  · intro keeps pos valid
    obtain ⟨call, member, isKey, -⟩ := (holds.mem_iff _ _).mpr ⟨pos, valid, rfl, rfl⟩
    have found := keeps.1 call member
    rw [isKey] at found
    obtain ⟨other, alsoValid, sameKey, home⟩ := exists_of_get found
    rwa [holds.single other pos alsoValid valid sameKey] at home
  · intro home
    constructor
    · intro call member
      obtain ⟨pos, valid, isKey, isData⟩ := (holds.mem_iff _ _).mp ⟨call, member, rfl, rfl⟩
      rw [← isKey, ← isData]
      exact holds.get_eq_some valid (home pos valid)
    · intro key absent
      cases found : table.get config key with
      | none => rfl
      | some data =>
          obtain ⟨pos, valid, isKey, -⟩ := exists_of_get found
          obtain ⟨call, member, same, -⟩ := (holds.mem_iff _ _).mpr ⟨pos, valid, isKey, rfl⟩
          exact absurd (List.mem_map.mpr ⟨call, member, same⟩) absent

/-! ## The walk -/

variable {tries : Nat} {rands path : List Nat}

/-- A walk is through valid nodes up to a last one that is not valid. -/
theorem findPath_spec {kickPos : Nat} (valid : (table.header kickPos).valid = true)
    (found : table.findPath config tries rands kickPos = some path) :
    ∃ front last, path = kickPos :: (front ++ [last]) ∧
      (∀ pos ∈ kickPos :: front, (table.header pos).valid = true) ∧
      (table.header last).valid = false := by
  induction tries generalizing rands kickPos path with
  | zero => cases found
  | succ tries ih =>
      rw [findPath] at found
      cases free : (slotsOf (table.anotherHash config kickPos)).find? fun pos =>
          !(table.header pos).valid with
      | some last =>
          simp only [free, Option.some.injEq] at found
          have passed := List.find?_some free
          exact ⟨[], last, found.symm, by simpa using valid, by simpa using passed⟩
      | none =>
          simp only [free] at found
          obtain ⟨rest, isRest, rfl⟩ := Option.map_eq_some_iff.mp found
          have nextValid : (table.header (table.anotherHash config kickPos * slotPerBucket +
              rands.headD 0 % slotPerBucket)).valid = true := by
            have inBucket : table.anotherHash config kickPos * slotPerBucket +
                rands.headD 0 % slotPerBucket ∈ slotsOf (table.anotherHash config kickPos) := by
              rw [mem_slotsOf]
              simp only [slotPerBucket]
              omega
            simpa using List.find?_eq_none.mp free _ inBucket
          obtain ⟨front, last, rfl, valids, free'⟩ := ih nextValid isRest
          refine ⟨_ :: front, last, rfl, ?_, free'⟩
          intro pos member
          rcases List.mem_cons.mp member with rfl | later
          · exact valid
          · exact valids pos later

theorem findPath_start {kickPos : Nat}
    (found : table.findPath config tries rands kickPos = some path) :
    ∃ rest, path = kickPos :: rest := by
  cases tries with
  | zero => cases found
  | succ tries =>
      rw [findPath] at found
      cases free : (slotsOf (table.anotherHash config kickPos)).find? fun pos =>
          !(table.header pos).valid with
      | some last =>
          simp only [free, Option.some.injEq] at found
          exact ⟨_, found.symm⟩
      | none =>
          simp only [free] at found
          obtain ⟨rest, -, rfl⟩ := Option.map_eq_some_iff.mp found
          exact ⟨rest, rfl⟩

/-- Each step of a walk is to another bucket of the key it is at. -/
theorem findPath_isHome {kickPos : Nat}
    (found : table.findPath config tries rands kickPos = some path) {front back : List Nat}
    {prev pos : Nat} (split : path = front ++ prev :: pos :: back) :
    config.IsHome (table.header prev).key pos := by
  have another : ∀ prev pos, pos / slotPerBucket = table.anotherHash config prev →
      config.IsHome (table.header prev).key pos := by
    intro prev pos isBucket
    simp only [anotherHash] at isBucket
    split at isBucket
    · exact .inr isBucket
    · exact .inl isBucket
  induction tries generalizing rands kickPos path front with
  | zero => cases found
  | succ tries ih =>
      rw [findPath] at found
      cases free : (slotsOf (table.anotherHash config kickPos)).find? fun pos =>
          !(table.header pos).valid with
      | some last =>
          simp only [free, Option.some.injEq] at found
          have inBucket := mem_slotsOf.mp (List.mem_of_find?_eq_some free)
          rw [split] at found
          cases front with
          | nil =>
              simp only [List.nil_append, List.cons.injEq] at found
              obtain ⟨rfl, rfl, -⟩ := found
              exact another _ _ inBucket
          | cons first rest =>
              have length := congrArg List.length found
              simp at length
              omega
      | none =>
          simp only [free] at found
          obtain ⟨rest, isRest, rfl⟩ := Option.map_eq_some_iff.mp found
          cases front with
          | nil =>
              simp only [List.nil_append, List.cons.injEq] at split
              obtain ⟨rfl, rfl⟩ := split
              obtain ⟨others, isStart⟩ := findPath_start isRest
              rw [List.cons.injEq] at isStart
              apply another
              rw [isStart.1]
              simp only [slotPerBucket]
              omega
          | cons first others =>
              simp only [List.cons_append, List.cons.injEq] at split
              exact ih isRest split.2

/-- A walk is needed when the nodes of both buckets are valid, and it starts at one of them. -/
theorem kickPath_spec (full : table.freeSlot config key = none)
    (found : table.kickPath config key rands = some path) :
    ∃ first front last, path = first :: (front ++ [last]) ∧ config.IsHome key first ∧
      (∀ pos ∈ first :: front, (table.header pos).valid = true) ∧
      (table.header last).valid = false := by
  have home : config.IsHome key
      ((if rands.headD 0 % 2 = 0 then config.getHash key else config.getHash2 key) *
        slotPerBucket + (rands.drop 1).headD 0 % slotPerBucket) := by
    rw [Config.IsHome]
    simp only [slotPerBucket]
    split <;> omega
  have valid := List.find?_eq_none.mp full _ ((mem_slots_iff _ _).mpr home)
  simp only [Bool.not_eq_true', Bool.not_eq_false] at valid
  obtain ⟨front, last, isPath, valids, free⟩ := findPath_spec valid found
  exact ⟨_, front, last, isPath, home, valids, free⟩

/-! ## Insertion -/

/-- What is copied from node to node. -/
def entryOf (header : Nat → RdmaArrayNode) (pos : Nat) : Nat × Nat :=
  ((header pos).key, (header pos).index)

variable {header : Nat → RdmaArrayNode}

theorem copyBack_valid (header : Nat → RdmaArrayNode) (path : List Nat) (pos : Nat) :
    (copyBack header path pos).valid = (header pos).valid := by
  induction path with
  | nil => rfl
  | cons first rest ih =>
      cases rest with
      | nil => rfl
      | cons next rest =>
          rw [copyBack]
          by_cases same : pos = next
          · subst same
            simpa using ih
          · simpa [Function.update_of_ne same] using ih

/-- The copies are a shift of the entries. -/
theorem entryOf_copyBack (header : Nat → RdmaArrayNode) (path : List Nat) :
    entryOf (copyBack header path) = shift (entryOf header) path := by
  induction path with
  | nil => rfl
  | cons first rest ih =>
      cases rest with
      | nil => rfl
      | cons next rest =>
          rw [shift, ← ih, copyBack]
          funext pos
          by_cases same : pos = next
          · subst same
            simp [entryOf]
          · simp [entryOf, Function.update_of_ne same]

/-- The new key comes into a free node, and the other entries are where they are now. -/
theorem Holds.place {contents : Nat → Nat × Nat} {hole : Nat} (holds : table.Holds config calls)
    (new : call.key ∉ calls.map Insertion.key)
    (spread : Spread (fun pos => (header pos).valid = true) contents hole Prod.fst
      fun entry => ∃ pos, (table.header pos).valid = true ∧ entryOf table.header pos = entry)
    (used : (header hole).valid = true)
    (entries : entryOf header = Function.update contents hole (call.key, table.freePtr)) :
    ({ table with header := header }.putData config call.data).Holds config (calls ++ [call]) := by
  have fresh : ∀ entry : Nat × Nat,
      (∃ pos, (table.header pos).valid = true ∧ entryOf table.header pos = entry) →
        entry.1 ≠ ((call.key, table.freePtr) : Nat × Nat).1 := by
    rintro entry ⟨pos, valid, rfl⟩ same
    obtain ⟨old, member, isKey, -⟩ := (holds.mem_iff _ _).mpr ⟨pos, valid, rfl, rfl⟩
    exact new (List.mem_map.mpr ⟨old, member, isKey.trans same⟩)
  obtain ⟨single, all⟩ := spread.fill used fresh
  rw [← entries] at single all
  have read : ∀ index < table.freePtr,
      Function.update table.datas (config.getDataloc table.freePtr) call.data
        (config.getDataloc index) = table.datas (config.getDataloc index) := by
    intro index below
    exact Function.update_of_ne (fun same => Nat.ne_of_lt below (getDataloc_inj same)) _ _
  constructor
  case single => exact single
  case index_lt =>
    intro pos valid
    have index : (header pos).index = (entryOf header pos).2 := rfl
    rcases (all (entryOf header pos)).mpr ⟨pos, valid, rfl⟩ with added | ⟨old, oldValid, same⟩
    · change (header pos).index < table.freePtr + 1
      rw [index, added]
      exact Nat.lt_succ_self _
    · change (header pos).index < table.freePtr + 1
      rw [index, ← same]
      exact Nat.lt_succ_of_lt (holds.index_lt old oldValid)
  case mem_iff =>
    intro key data
    constructor
    · rintro ⟨one, member, rfl, rfl⟩
      rcases List.mem_append.mp member with old | isNew
      · obtain ⟨pos, valid, isKey, isData⟩ := (holds.mem_iff _ _).mp ⟨one, old, rfl, rfl⟩
        obtain ⟨place, placeValid, same⟩ := (all _).mp (.inr ⟨pos, valid, rfl⟩)
        have sameKey := congrArg Prod.fst same
        have sameIndex := congrArg Prod.snd same
        simp only [entryOf] at sameKey sameIndex
        refine ⟨place, placeValid, sameKey.trans isKey, ?_⟩
        simp only [putData, sameIndex]
        rw [read _ (holds.index_lt pos valid), isData]
      · rw [List.mem_singleton.mp isNew]
        obtain ⟨place, placeValid, same⟩ := (all _).mp (.inl rfl)
        have sameKey := congrArg Prod.fst same
        have sameIndex := congrArg Prod.snd same
        simp only [entryOf] at sameKey sameIndex
        refine ⟨place, placeValid, sameKey, ?_⟩
        simp only [putData, sameIndex, Function.update_self]
    · rintro ⟨place, placeValid, rfl, rfl⟩
      rcases (all (entryOf header place)).mpr ⟨place, placeValid, rfl⟩ with
        added | ⟨pos, valid, same⟩
      · have sameKey := congrArg Prod.fst added
        have sameIndex := congrArg Prod.snd added
        simp only [entryOf] at sameKey sameIndex
        refine ⟨call, List.mem_append_right _ (List.mem_singleton_self _), sameKey.symm, ?_⟩
        simp only [putData, sameIndex, Function.update_self]
      · have sameKey := congrArg Prod.fst same
        have sameIndex := congrArg Prod.snd same
        simp only [entryOf] at sameKey sameIndex
        obtain ⟨old, member, isKey, isData⟩ := (holds.mem_iff _ _).mpr ⟨pos, valid, rfl, rfl⟩
        refine ⟨old, List.mem_append_left _ member, isKey.trans sameKey, ?_⟩
        simp only [putData, ← sameIndex]
        rw [read _ (holds.index_lt pos valid), isData]

/-- The entries as they are, with a node that is not valid as the free one. -/
theorem Holds.spread (holds : table.Holds config calls) {hole : Nat}
    (isFree : (table.header hole).valid = false) {used : Nat → Prop}
    (used_iff : ∀ pos, used pos ↔ (table.header pos).valid = true ∨ pos = hole) :
    Spread used (entryOf table.header) hole Prod.fst
      fun entry => ∃ pos, (table.header pos).valid = true ∧ entryOf table.header pos = entry := by
  have valid : ∀ pos, used pos → pos ≠ hole → (table.header pos).valid = true :=
    fun pos isUsed different => ((used_iff pos).mp isUsed).resolve_right different
  constructor
  case single =>
    intro one two usedOne usedTwo notOne notTwo same
    exact holds.single one two (valid one usedOne notOne) (valid two usedTwo notTwo) same
  case all_iff =>
    intro entry
    constructor
    · rintro ⟨pos, isValid, same⟩
      refine ⟨pos, (used_iff pos).mpr (.inl isValid), ?_, same⟩
      rintro rfl
      rw [isFree] at isValid
      cases isValid
    · rintro ⟨pos, isUsed, different, same⟩
      exact ⟨pos, valid pos isUsed different, same⟩

/-- An insertion into a free node. -/
theorem Holds.insert_free (holds : table.Holds config calls)
    (new : call.key ∉ calls.map Insertion.key) (free : table.freeSlot config call.key = some pos) :
    ({ table with header := Function.update table.header pos ⟨call.key, table.freePtr, true⟩
      }.putData config call.data).Holds config (calls ++ [call]) := by
  have passed := List.find?_some free
  have isFree : (table.header pos).valid = false := by simpa using passed
  refine holds.place new (holds.spread isFree ?_) ?_ ?_
  · intro other
    by_cases same : other = pos
    · subst same
      simp
    · simp [same]
  · simp
  · funext other
    by_cases same : other = pos
    · subst same
      simp [entryOf]
    · simp [entryOf, Function.update_of_ne same]

/-- The nodes after the copies: the last one of the walk is valid too, and the entries have been
shifted to make room for the new one. -/
theorem moveAlong_header {first last : Nat} {front : List Nat} (key : Nat) :
    (∀ pos, ((table.moveAlong key (first :: (front ++ [last]))).header pos).valid = true ↔
        (table.header pos).valid = true ∨ pos = last) ∧
      entryOf (table.moveAlong key (first :: (front ++ [last]))).header =
        Function.update (shift (entryOf table.header) (first :: (front ++ [last]))) first
          (key, table.freePtr) := by
  have atEnd : (first :: (front ++ [last])).getLastD 0 = last := by
    rw [← List.cons_append, List.getLastD_concat]
  have opened : entryOf (Function.update table.header last
      { table.header last with valid := true }) = entryOf table.header := by
    funext pos
    by_cases same : pos = last
    · subst same
      simp [entryOf]
    · simp [entryOf, Function.update_of_ne same]
  constructor
  · intro pos
    have copied : ((table.moveAlong key (first :: (front ++ [last]))).header pos).valid =
        (Function.update table.header last { table.header last with valid := true } pos).valid := by
      simp only [moveAlong, atEnd, List.headD_cons]
      by_cases same : pos = first
      · subst same
        simp [copyBack_valid]
      · simp [Function.update_of_ne same, copyBack_valid]
    rw [copied]
    by_cases same : pos = last
    · subst same
      simp
    · simp [same]
  · rw [← opened, ← entryOf_copyBack]
    simp only [moveAlong, atEnd, List.headD_cons]
    funext pos
    by_cases same : pos = first
    · subst same
      simp [entryOf]
    · simp [entryOf, Function.update_of_ne same]

/-- An insertion that moves the entries of a walk. -/
theorem Holds.insert_kick (holds : table.Holds config calls)
    (new : call.key ∉ calls.map Insertion.key) {first last : Nat} {front : List Nat}
    (valids : ∀ pos ∈ first :: front, (table.header pos).valid = true)
    (isFree : (table.header last).valid = false) :
    ((table.moveAlong call.key (first :: (front ++ [last]))).putData config call.data).Holds
      config (calls ++ [call]) := by
  obtain ⟨valid, entries⟩ := @moveAlong_header _ table first last front call.key
  have onWalk : ∀ pos ∈ first :: (front ++ [last]),
      ((table.moveAlong call.key (first :: (front ++ [last]))).header pos).valid = true := by
    intro pos member
    rw [← List.cons_append, List.mem_append, List.mem_singleton] at member
    exact (valid pos).mpr (member.imp_left (valids pos))
  have spread := holds.spread isFree valid
  have atEnd : (first :: (front ++ [last])).getLast (List.cons_ne_nil _ _) = last := by simp
  refine holds.place new (Spread.shift ?_ onWalk) (onWalk first List.mem_cons_self) entries
  rw [atEnd]
  exact spread

/-- Whatever walk an insertion takes, no entry is lost, and if all entries were in one of their
buckets, then they are exactly if the walk meets the condition. -/
theorem Holds.insert (holds : table.Holds config calls)
    (new : call.key ∉ calls.map Insertion.key)
    (inserted : table.insert config call.key call.data call.rands = some after) :
    after.Holds config (calls ++ [call]) ∧
      ((∀ pos, (table.header pos).valid = true → config.IsHome (table.header pos).key pos) →
        ((∀ pos, (after.header pos).valid = true → config.IsHome (after.header pos).key pos) ↔
          table.Meets config call)) := by
  rw [Table.insert] at inserted
  cases free : table.freeSlot config call.key with
  | some pos =>
      simp only [free, Option.some.injEq] at inserted
      subst inserted
      refine ⟨holds.insert_free new free, ?_⟩
      intro home
      constructor
      · intro _ full
        rw [free] at full
        cases full
      · intro _ other valid
        have inBuckets := (mem_slots_iff _ _).mp (List.mem_of_find?_eq_some free)
        simp only [putData] at valid ⊢
        by_cases same : other = pos
        · subst same
          simpa using inBuckets
        · rw [Function.update_of_ne same] at valid ⊢
          exact home other valid
  | none =>
      simp only [free] at inserted
      obtain ⟨path, isPath, rfl⟩ := Option.map_eq_some_iff.mp inserted
      obtain ⟨first, front, last, rfl, firstHome, valids, isFree⟩ := kickPath_spec free isPath
      refine ⟨holds.insert_kick new valids isFree, ?_⟩
      intro home
      obtain ⟨valid, entries⟩ := @moveAlong_header _ table first last front call.key
      have atFirst : ((table.moveAlong call.key (first :: (front ++ [last]))).header first).key =
          call.key := by
        have same := congrArg Prod.fst (congrFun entries first)
        simpa [entryOf] using same
      have behind : ∀ pos ≠ first,
          ((table.moveAlong call.key (first :: (front ++ [last]))).header pos).key =
            (table.header (source (first :: (front ++ [last])) pos)).key := by
        intro pos different
        have same := congrArg Prod.fst (congrFun entries pos)
        rw [Function.update_of_ne different, shift_eq_source] at same
        exact same
      constructor
      · intro homes _ path alsoPath pos member different
        rw [isPath, Option.some.injEq] at alsoPath
        subst alsoPath
        have isValid : (table.header pos).valid = true ∨ pos = last := by
          rw [← List.cons_append, List.mem_append, List.mem_singleton] at member
          exact member.imp_left (valids pos)
        rw [List.headD_cons] at different
        rw [← behind pos different]
        exact homes pos ((valid pos).mpr isValid)
      · intro meets pos isValid
        by_cases isFirst : pos = first
        · subst isFirst
          change config.IsHome (((table.moveAlong call.key _).header pos).key) pos
          rw [atFirst]
          exact firstHome
        · change config.IsHome (((table.moveAlong call.key _).header pos).key) pos
          rw [behind pos isFirst]
          by_cases member : pos ∈ first :: (front ++ [last])
          · exact meets free _ isPath pos member (by rwa [List.headD_cons])
          · have same : source (first :: (front ++ [last])) pos = pos :=
              shift_of_notMem fun inTail => member (List.mem_of_mem_tail inTail)
            have notLast : pos ≠ last := by
              rintro rfl
              exact member (by simp)
            rw [same]
            exact home pos (((valid pos).mp isValid).resolve_right notLast)

/-- A walk that comes back to no node meets the condition. -/
theorem meets_of_nodup
    (distinct : ∀ path, table.kickPath config call.key call.rands = some path → path.Nodup) :
    table.Meets config call := by
  intro _ path isPath pos member different
  cases path with
  | nil => cases member
  | cons first rest =>
      rw [List.headD_cons] at different
      have inRest : pos ∈ rest := (List.mem_cons.mp member).resolve_left different
      obtain ⟨front, back, rfl⟩ := List.append_of_mem inRest
      -- The node before it on the walk.
      obtain ⟨start, prev, split⟩ : ∃ start prev, first :: front = start ++ [prev] :=
        ⟨_, _, (List.dropLast_append_getLast (List.cons_ne_nil first front)).symm⟩
      have whole : first :: (front ++ pos :: back) = start ++ prev :: pos :: back := by
        rw [← List.cons_append, split, List.append_assoc]
        rfl
      have nodup := distinct _ isPath
      rw [whole] at nodup ⊢
      rw [source_of_nodup nodup]
      exact findPath_isHome isPath whole

/-! ## Runs -/

variable {zeroed : Data}

theorem holds_init : (init zeroed).Holds config [] := by
  constructor <;> simp [init]

theorem run_concat (calls : List (Insertion Data)) (call : Insertion Data) :
    table.run config (calls ++ [call]) = (table.run config calls).bind fun state =>
      state.insert config call.key call.data call.rands := by
  rw [run, List.foldlM_append]
  simp [run]

/-- No entry is lost in a run. -/
theorem holds_of_run (distinct : (calls.map Insertion.key).Nodup)
    (ran : (init zeroed).run config calls = some table) : table.Holds config calls := by
  induction calls using List.reverseRecOn generalizing table with
  | nil =>
      cases ran
      exact holds_init
  | append_singleton done call ih =>
      rw [run_concat] at ran
      obtain ⟨state, isState, inserted⟩ := Option.bind_eq_some_iff.mp ran
      rw [List.map_append, List.nodup_append] at distinct
      have new : call.key ∉ done.map Insertion.key := fun member =>
        distinct.2.2 _ member _ (List.mem_singleton_self _) rfl
      exact ((ih distinct.1 isState).insert new inserted).1

/-- In a run with distinct keys `Get` is right after every insertion exactly if every walk meets
the condition. -/
theorem run_keeps_iff (config : Config) (zeroed : Data) (calls : List (Insertion Data))
    (distinct : (calls.map Insertion.key).Nodup) (table : Table Data)
    (ran : (init zeroed).run config calls = some table) :
    (∀ done, done <+: calls → ∀ state, (init zeroed).run config done = some state →
        state.Keeps config done) ↔
      ∀ done call, done ++ [call] <+: calls → ∀ state,
        (init zeroed).run config done = some state → state.Meets config call := by
  have holds : ∀ done, done <+: calls → ∀ state, (init zeroed).run config done = some state →
      state.Holds config done := by
    intro done isPart state isState
    exact holds_of_run (distinct.sublist (isPart.sublist.map _)) isState
  have newKey : ∀ done call, done ++ [call] <+: calls → call.key ∉ done.map Insertion.key := by
    intro done call isPart member
    have apart := distinct.sublist (isPart.sublist.map _)
    rw [List.map_append, List.nodup_append] at apart
    exact apart.2.2 _ member _ (List.mem_singleton_self _) rfl
  constructor
  · intro keeps done call isPart state isState
    have part : done <+: calls := List.IsPrefix.trans ⟨[call], rfl⟩ isPart
    obtain ⟨rest, isRest⟩ := isPart
    have whole := ran
    rw [← isRest, run, List.foldlM_append] at whole
    obtain ⟨after, isAfter, -⟩ := Option.bind_eq_some_iff.mp whole
    have inserted := isAfter
    change (init zeroed).run config (done ++ [call]) = some after at inserted
    rw [run_concat, isState, Option.bind_some] at inserted
    obtain ⟨afterHolds, meets_iff⟩ :=
      (holds done part state isState).insert (newKey done call ⟨rest, isRest⟩) inserted
    refine (meets_iff ((holds done part state isState).keeps_iff.mp
      (keeps done part state isState))).mp ?_
    exact afterHolds.keeps_iff.mp (keeps _ ⟨rest, isRest⟩ after isAfter)
  · intro meets done
    induction done using List.reverseRecOn with
    | nil =>
        intro _ state isState
        cases isState
        exact holds_init.keeps_iff.mpr fun pos valid => by simp [init] at valid
    | append_singleton done call ih =>
        intro isPart after isAfter
        have part : done <+: calls := List.IsPrefix.trans ⟨[call], rfl⟩ isPart
        rw [run_concat] at isAfter
        obtain ⟨state, isState, inserted⟩ := Option.bind_eq_some_iff.mp isAfter
        obtain ⟨afterHolds, meets_iff⟩ :=
          (holds done part state isState).insert (newKey done call isPart) inserted
        rw [afterHolds.keeps_iff]
        exact (meets_iff ((holds done part state isState).keeps_iff.mp
          (ih part state isState))).mpr (meets done call isPart state isState)

end Table

/-- Four buckets, which the digits of a key to the base four select. -/
def fourBuckets : Config where
  bucketlength := 4
  entrysize := 8
  getHash key := key / 16 % 4
  getHash2 key := key / 4 % 4
  entrysize_pos := Nat.succ_pos 7
  getHash_lt _ := Nat.mod_lt _ (Nat.succ_pos 3)
  getHash2_lt _ := Nat.mod_lt _ (Nat.succ_pos 3)

/-- Insertions without a walk, with the key as what is stored. -/
def direct (keys : List Nat) : List (Insertion Nat) :=
  keys.map fun key => ⟨key, key, []⟩

/-- Three full buckets, and then a key for which the walk goes through the nodes 0, 4, 8, 0, 5
and 12. -/
def cycle : List (Insertion Nat) :=
  direct [4, 5, 6, 7, 24, 28, 29, 30, 32, 33, 34, 35] ++ [⟨0, 0, [0, 0, 0, 0, 0, 1]⟩]

/-- The entry of node 8 ends in node 4, which is in neither of its buckets. -/
theorem cycle_loses : ∃ table, (Table.init 0).run fourBuckets cycle = some table ∧
    table.get fourBuckets 32 = none := by
  have checked : (((Table.init 0).run fourBuckets cycle).any fun table =>
      (table.get fourBuckets 32).isNone) = true := by decide +kernel
  cases ran : (Table.init 0).run fourBuckets cycle with
  | none => simp [ran] at checked
  | some table =>
      refine ⟨table, rfl, ?_⟩
      simpa [ran] using checked

theorem run_keeps_iff_cycle :
    ¬ ∀ done call, done ++ [call] <+: cycle → ∀ state,
      (Table.init 0).run fourBuckets done = some state → state.Meets fourBuckets call := by
  intro meets
  obtain ⟨table, ran, lost⟩ := cycle_loses
  have keeps := (Table.run_keeps_iff fourBuckets 0 cycle (by decide) table ran).mpr meets
  have found := (keeps cycle ⟨[], List.append_nil _⟩ table ran).1 ⟨32, 32, []⟩
    (by simp [cycle, direct])
  rw [lost] at found
  cases found

/-- `Get` returns `NULL` for a key that was inserted. -/
theorem not_run_keeps :
    ¬ ∀ (config : Config) (calls : List (Insertion Nat)), (calls.map Insertion.key).Nodup →
      ∀ table, (Table.init 0).run config calls = some table → table.Keeps config calls := by
  intro always
  obtain ⟨table, ran, lost⟩ := cycle_loses
  have found := (always fourBuckets cycle (by decide) table ran).1 ⟨32, 32, []⟩
    (by simp [cycle, direct])
  rw [lost] at found
  cases found

end Rocc.Memstore.RdmaCuckooHash
