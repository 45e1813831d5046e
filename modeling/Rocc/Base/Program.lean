import Mathlib.Data.List.Induction
import Mathlib.Logic.Function.Basic
import Rocc.Base.Replay

/-!
# Transaction programs

A transaction program loads records for reading or for writing, goes on with the values it got,
stores into the buffers of the records it writes, and commits.  What it writes depends on the store
only through what it has loaded, so a serial log in which every footprint comes from a program is
the programs run one after another.
-/

namespace Rocc

universe u v w x

/-- The calls of a transaction and what it does with the values it loads. -/
inductive Program (Key : Type u) (Value : Type v) where
  | commit
  | read (key : Key) (next : Value → Program Key Value)
  | write (key : Key) (next : Value → Program Key Value)
  | modify (key : Key) (data : Value) (rest : Program Key Value)

namespace Program

variable {Key : Type u} {Value : Type v} {Tid : Type w} [DecidableEq Key]

/-- A store into the buffer of a record that was loaded for writing. -/
def store (buffers : Key → Option Value) (key : Key) (data : Value) : Key → Option Value :=
  if (buffers key).isSome then Function.update buffers key (some data) else buffers

theorem store_apply (buffers : Key → Option Value) (key other : Key) (data : Value) :
    store buffers key data other =
      if other = key then (buffers other).map fun _ => data else buffers other := by
  rw [store]
  split
  · rename_i written
    rw [Function.update_apply]
    split
    · rename_i same
      obtain ⟨old, found⟩ := Option.isSome_iff_exists.mp written
      rw [same, found]
      rfl
    · rfl
  · rename_i unwritten
    split
    · rename_i same
      rw [same, Option.not_isSome_iff_eq_none.mp unwritten]
      rfl
    · rfl

/-- The buffers that the program commits when it runs alone. -/
def exec (store : Key → Value) : Program Key Value → (Key → Option Value) → Key → Option Value
  | commit, buffers => buffers
  | read key next, buffers => exec store (next (store key)) buffers
  | write key next, buffers =>
      exec store (next (store key)) (Function.update buffers key (some (store key)))
  | modify key data rest, buffers => exec store rest (Program.store buffers key data)

/-- The store after the program has run alone. -/
def run (program : Program Key Value) (store : Key → Value) : Key → Value :=
  fun key => (program.exec store (fun _ => none) key).getD (store key)

/-- The store after the programs have run one after another. -/
def sequential (program : Tid → Program Key Value) (store : Key → Value) (order : List Tid) :
    Key → Value :=
  order.foldl (fun store tid => (program tid).run store) store

@[simp] theorem sequential_concat (program : Tid → Program Key Value) (store : Key → Value)
    (order : List Tid) (tid : Tid) :
    sequential program store (order ++ [tid]) =
      (program tid).run (sequential program store order) := by
  simp [sequential]

/-- What every program of the order keeps holds after all of them. -/
theorem sequential_invariant {program : Tid → Program Key Value} {store : Key → Value}
    {order : List Tid} (inv : (Key → Value) → Prop) (initially : inv store)
    (kept : ∀ tid ∈ order, ∀ store, inv store → inv ((program tid).run store)) :
    inv (sequential program store order) := by
  induction order using List.reverseRecOn with
  | nil => exact initially
  | append_singleton order tid ih =>
      rw [sequential_concat]
      exact kept tid (by simp) _ (ih fun other member => kept other (by simp [member]))

/-- Load a record for writing and store a changed value into its buffer. -/
def update (key : Key) (change : Value → Value) (rest : Program Key Value) : Program Key Value :=
  write key fun value => modify key (change value) rest

@[simp] theorem exec_update (store : Key → Value) (key : Key) (change : Value → Value)
    (rest : Program Key Value) (buffers : Key → Option Value) :
    (update key change rest).exec store buffers =
      rest.exec store (Function.update buffers key (some (change (store key)))) := by
  rw [update, exec, exec]
  congr 1
  funext other
  rw [store_apply, Function.update_apply, Function.update_apply]
  split <;> rfl

/-- Where all records have the property, the program commits no record without it. -/
def Keeps (property : Key → Value → Prop) (program : Program Key Value) : Prop :=
  ∀ store : Key → Value, (∀ key, property key (store key)) →
    ∀ key value, program.exec store (fun _ => none) key = some value → property key value

theorem Keeps.run {property : Key → Value → Prop} {program : Program Key Value}
    (keeps : program.Keeps property) {store : Key → Value}
    (holds : ∀ key, property key (store key)) (key : Key) :
    property key (program.run store key) := by
  rw [Program.run]
  cases written : program.exec store (fun _ => none) key with
  | none => exact holds key
  | some value => exact keeps store holds key value written

/-! ## Footprints of sets -/

section Sets

variable {Item : Type x} (keyOf : Item → Key) (value data : Item → Value)

/-- What a transaction has loaded and buffered, when its sets hold an item for each record. -/
def ofSets (readSet writeSet : List Item) : Footprint Key Value where
  reads key := ((readSet ++ writeSet).find? (keyOf · = key)).map value
  writes key := (writeSet.find? (keyOf · = key)).map data

variable {keyOf} {readSet writeSet first last : List Item} {item : Item}

/-- Looking a key up behind the place where an item of a fresh key was put. -/
theorem find?_insert (fresh : ∀ other ∈ first, keyOf other ≠ keyOf item) (key : Key) :
    (first ++ item :: last).find? (keyOf · = key) =
      if key = keyOf item then some item else (first ++ last).find? (keyOf · = key) := by
  rw [List.find?_append, List.find?_append]
  by_cases same : key = keyOf item
  · subst same
    have missing : first.find? (keyOf · = keyOf item) = none := by
      simpa [List.find?_eq_none] using fresh
    simp [missing]
  · have other : ¬ keyOf item = key := fun isKey => same isKey.symm
    simp [same, other]

theorem ofSets_fresh {key : Key} (fresh : ∀ item ∈ readSet ++ writeSet, keyOf item ≠ key) :
    (ofSets keyOf value data readSet writeSet).reads key = none := by
  rw [ofSets, Option.map_eq_none_iff, List.find?_eq_none]
  simpa using fresh

/-- A record is loaded for reading. -/
theorem ofSets_read (fresh : ∀ other ∈ readSet ++ writeSet, keyOf other ≠ keyOf item) :
    (ofSets keyOf value data (readSet ++ [item]) writeSet).reads =
      Function.update (ofSets keyOf value data readSet writeSet).reads (keyOf item)
        (some (value item)) := by
  funext key
  simp only [ofSets, List.append_assoc, List.singleton_append]
  rw [find?_insert fun other member => fresh other (List.mem_append_left _ member),
    Function.update_apply]
  split <;> rfl

/-- A record is loaded for writing. -/
theorem ofSets_write (fresh : ∀ other ∈ readSet ++ writeSet, keyOf other ≠ keyOf item) :
    (ofSets keyOf value data readSet (writeSet ++ [item])).reads =
        Function.update (ofSets keyOf value data readSet writeSet).reads (keyOf item)
          (some (value item)) ∧
      (ofSets keyOf value data readSet (writeSet ++ [item])).writes =
        Function.update (ofSets keyOf value data readSet writeSet).writes (keyOf item)
          (some (data item)) := by
  constructor
  · funext key
    simp only [ofSets, ← List.append_assoc]
    rw [find?_insert fresh, List.append_nil, Function.update_apply]
    split <;> rfl
  · funext key
    simp only [ofSets]
    rw [find?_insert fun other member => fresh other (List.mem_append_right _ member),
      List.append_nil, Function.update_apply]
    split <;> rfl

/-- A record that was loaded for reading is loaded for writing as well. -/
theorem ofSets_readWrite {other : Item} (member : other ∈ readSet) (same : keyOf other = keyOf item)
    (fresh : ∀ other ∈ writeSet, keyOf other ≠ keyOf item) :
    (ofSets keyOf value data readSet (writeSet ++ [item])).reads =
        (ofSets keyOf value data readSet writeSet).reads ∧
      (ofSets keyOf value data readSet (writeSet ++ [item])).writes =
        Function.update (ofSets keyOf value data readSet writeSet).writes (keyOf item)
          (some (data item)) := by
  constructor
  · funext key
    simp only [ofSets, ← List.append_assoc, List.find?_append]
    cases found : readSet.find? (keyOf · = key) with
    | some first => rfl
    | none =>
        have missing : ¬ keyOf item = key := by
          rw [← same]
          simpa using List.find?_eq_none.mp found other member
        simp [missing]
  · funext key
    simp only [ofSets]
    rw [find?_insert fresh, List.append_nil, Function.update_apply]
    split <;> rfl

variable {value data}

/-- A store into the buffers of a key. -/
theorem ofSets_modify {set : Item → Item} (key : Key) {stored : Value}
    (sameKey : ∀ item, keyOf (set item) = keyOf item)
    (sameValue : ∀ item, value (set item) = value item)
    (isStored : ∀ item, data (set item) = stored) :
    let stores := writeSet.map fun item => if keyOf item = key then set item else item
    (ofSets keyOf value data readSet stores).reads =
        (ofSets keyOf value data readSet writeSet).reads ∧
      (ofSets keyOf value data readSet stores).writes =
        store (ofSets keyOf value data readSet writeSet).writes key stored := by
  intro stores
  have found (other : Key) : stores.find? (keyOf · = other) =
      (writeSet.find? (keyOf · = other)).map
        fun item => if keyOf item = key then set item else item := by
    rw [List.find?_map]
    congr 2
    funext item
    simp only [Function.comp]
    split
    · rw [sameKey]
    · rfl
  constructor
  · funext other
    simp only [ofSets, List.find?_append, found]
    cases readSet.find? (keyOf · = other) with
    | some item => rfl
    | none =>
        cases writeSet.find? (keyOf · = other) with
        | none => rfl
        | some item =>
            simp only [Option.none_or, Option.map_some]
            split
            · rw [sameValue]
            · rfl
  · funext other
    simp only [ofSets, found, store_apply]
    cases isItem : writeSet.find? (keyOf · = other) with
    | none => simp
    | some item =>
        have isKey : keyOf item = other := by simpa using List.find?_some isItem
        simp only [Option.map_some, isKey]
        split
        · rw [isStored]
        · rfl

end Sets

/-! ## A program under way -/

/-- Whatever store the values come from that were loaded so far, the program is at `rest` with the
buffers of the footprint. -/
def Goes (program : Program Key Value) (footprint : Footprint Key Value)
    (rest : Program Key Value) : Prop :=
  ∀ store : Key → Value,
    (∀ key value, footprint.reads key = some value → store key = value) →
      program.exec store (fun _ => none) = rest.exec store footprint.writes

namespace Goes

variable {program rest : Program Key Value} {footprint after : Footprint Key Value}
variable {key : Key} {value : Value} {next : Value → Program Key Value}

theorem start (nothing : footprint.writes = fun _ => none) : Goes program footprint program := by
  intro store _
  rw [nothing]

/-- Values that stay loaded. -/
theorem agrees {store : Key → Value}
    (reads : after.reads = Function.update footprint.reads key value)
    (fresh : footprint.reads key = none)
    (loaded : ∀ key value, after.reads key = some value → store key = value) :
    ∀ key value, footprint.reads key = some value → store key = value := by
  intro other found read
  have different : other ≠ key := by
    rintro rfl
    rw [fresh] at read
    cases read
  exact loaded other found (by rw [reads, Function.update_of_ne different, read])

theorem read (goes : Goes program footprint (.read key next)) (fresh : footprint.reads key = none)
    (reads : after.reads = Function.update footprint.reads key (some value))
    (writes : after.writes = footprint.writes) : Goes program after (next value) := by
  intro store loaded
  have found : store key = value := loaded key value (by rw [reads, Function.update_self])
  rw [goes store (agrees reads fresh loaded), exec, found, writes]

theorem write (goes : Goes program footprint (.write key next))
    (fresh : footprint.reads key = none)
    (reads : after.reads = Function.update footprint.reads key (some value))
    (writes : after.writes = Function.update footprint.writes key (some value)) :
    Goes program after (next value) := by
  intro store loaded
  have found : store key = value := loaded key value (by rw [reads, Function.update_self])
  rw [goes store (agrees reads fresh loaded), exec, found, writes]

/-- A record that was loaded before. -/
theorem rewrite (goes : Goes program footprint (.write key next))
    (read : footprint.reads key = some value) (reads : after.reads = footprint.reads)
    (writes : after.writes = Function.update footprint.writes key (some value)) :
    Goes program after (next value) := by
  intro store loaded
  rw [reads] at loaded
  rw [goes store loaded, exec, loaded key value read, writes]

theorem modify (goes : Goes program footprint (.modify key value rest))
    (reads : after.reads = footprint.reads)
    (writes : after.writes = Program.store footprint.writes key value) :
    Goes program after rest := by
  intro store loaded
  rw [goes store (by rwa [reads] at loaded), exec, writes]

/-- A program at its end has written what it writes when it runs alone. -/
theorem exec_eq (goes : Goes program footprint .commit) {store : Key → Value}
    (loaded : ∀ key value, footprint.reads key = some value → store key = value) :
    program.exec store (fun _ => none) = footprint.writes :=
  goes store loaded

end Goes

/-! ## Serial logs -/

variable {program : Tid → Program Key Value} {footprint : Tid → Footprint Key Value}
variable {store : Key → Value} {order : List Tid}

/-- A serial log of footprints that come from programs is a run of the programs. -/
theorem replay_eq_sequential (serial : Serial store (order.map footprint))
    (ended : ∀ tid ∈ order, Goes (program tid) (footprint tid) .commit) :
    replay store (order.map footprint) = sequential program store order := by
  induction order using List.reverseRecOn with
  | nil => rfl
  | append_singleton order tid ih =>
      rw [List.map_append, List.map_singleton, serial_concat] at serial
      have before := ih serial.1 fun other member => ended other (by simp [member])
      rw [List.map_append, List.map_singleton, replay_concat, sequential_concat, before]
      funext key
      rw [Footprint.apply, run, (ended tid (by simp)).exec_eq]
      rw [← before]
      exact serial.2

/-- What a transaction of a serial log has loaded is what it finds when the programs run one after
another. -/
theorem reads_sequential {first rest : List Tid} {tid : Tid}
    (serial : Serial store (order.map footprint)) (split : order = first ++ tid :: rest)
    (ended : ∀ tid ∈ order, Goes (program tid) (footprint tid) .commit) {key : Key} {value : Value}
    (read : (footprint tid).reads key = some value) :
    sequential program store first key = value := by
  subst split
  rw [List.map_append, serial_append, List.map_cons] at serial
  rw [← replay_eq_sequential serial.1 fun other member => ended other (by simp [member])]
  exact serial.2.1 key value read

/-- The programs run in this order: each has loaded what the ones before it leave, and writes what
it writes there. -/
structure RunsInOrder (program : Tid → Program Key Value) (footprint : Tid → Footprint Key Value)
    (store : Key → Value) (order : List Tid) : Prop where
  loads : ∀ first tid rest, order = first ++ tid :: rest →
    ∀ key value, (footprint tid).reads key = some value → sequential program store first key = value
  writes : ∀ first tid rest, order = first ++ tid :: rest →
    (footprint tid).writes = (program tid).exec (sequential program store first) fun _ => none

theorem runsInOrder (serial : Serial store (order.map footprint))
    (ended : ∀ tid ∈ order, Goes (program tid) (footprint tid) .commit) :
    RunsInOrder program footprint store order where
  loads _ _ _ split _ _ read := reads_sequential serial split ended read
  writes first tid rest split :=
    ((ended tid (by simp [split])).exec_eq fun _ _ read =>
      reads_sequential serial split ended read).symm

end Program

end Rocc
