import Mathlib.Data.List.Basic
import Mathlib.Data.List.Sort
import Mathlib.Order.Basic

/-!
# Serial replay of committed transactions

A committed transaction is reduced to its footprint: the value it read from each
key and the value it wrote to each key.  `Serial` says that running the
footprints one after another from a given store hands every transaction exactly
what it read, and `replay` is the store they leave.

`VersionOrder` is a certificate for `Serial`: every write installs a version,
every read names the version it saw, and along the order the versions of a key
only grow.  A protocol proof establishes the certificate from its own version
numbers (sequence numbers, timestamps, commit ids) and never replays anything.
-/

namespace Rocc

universe u v w

/-- Values read and written by one committed transaction. -/
structure Footprint (Key : Type u) (Value : Type v) where
  reads : Key → Option Value
  writes : Key → Option Value

namespace Footprint

variable {Key : Type u} {Value : Type v}

/-- The store after the writes of one transaction. -/
def apply (footprint : Footprint Key Value) (store : Key → Value) :
    Key → Value :=
  fun key => (footprint.writes key).getD (store key)

@[simp] theorem apply_of_writes {footprint : Footprint Key Value}
    {store : Key → Value} {key : Key} {value : Value}
    (written : footprint.writes key = some value) :
    footprint.apply store key = value := by
  simp [apply, written]

@[simp] theorem apply_of_not_writes {footprint : Footprint Key Value}
    {store : Key → Value} {key : Key}
    (unwritten : footprint.writes key = none) :
    footprint.apply store key = store key := by
  simp [apply, unwritten]

end Footprint

section Replay

variable {Key : Type u} {Value : Type v}

/-- The store left by running the transactions of a log in order. -/
def replay (store : Key → Value) : List (Footprint Key Value) → Key → Value
  | [] => store
  | footprint :: rest => replay (footprint.apply store) rest

/-- Running the log serially gives every transaction the values it read. -/
def Serial (store : Key → Value) : List (Footprint Key Value) → Prop
  | [] => True
  | footprint :: rest =>
      (∀ key value, footprint.reads key = some value → store key = value) ∧
        Serial (footprint.apply store) rest

theorem replay_append (store : Key → Value)
    (first second : List (Footprint Key Value)) :
    replay store (first ++ second) = replay (replay store first) second := by
  induction first generalizing store with
  | nil => rfl
  | cons footprint rest ih => simp only [List.cons_append, replay, ih]

theorem serial_append {store : Key → Value}
    {first second : List (Footprint Key Value)} :
    Serial store (first ++ second) ↔
      Serial store first ∧ Serial (replay store first) second := by
  induction first generalizing store with
  | nil => simp [Serial, replay]
  | cons footprint rest ih =>
      simp only [List.cons_append, Serial, replay, ih, and_assoc]

/-- Appending one transaction at the end of a serial log. -/
theorem serial_concat {store : Key → Value} {log : List (Footprint Key Value)}
    {last : Footprint Key Value} :
    Serial store (log ++ [last]) ↔
      Serial store log ∧
        ∀ key value, last.reads key = some value →
          replay store log key = value := by
  simp [serial_append, Serial]

@[simp] theorem replay_concat (store : Key → Value)
    (log : List (Footprint Key Value)) (last : Footprint Key Value) :
    replay store (log ++ [last]) = last.apply (replay store log) := by
  simp [replay_append, replay]

/-- A key no transaction writes keeps its initial value. -/
theorem replay_of_not_writes {store : Key → Value}
    {log : List (Footprint Key Value)} {key : Key}
    (unwritten : ∀ footprint ∈ log, footprint.writes key = none) :
    replay store log key = store key := by
  induction log generalizing store with
  | nil => rfl
  | cons footprint rest ih =>
      have headUnwritten := unwritten footprint (by simp)
      rw [replay, ih fun other member => unwritten other (by simp [member])]
      exact Footprint.apply_of_not_writes headUnwritten

/-- Reads of a log that splits as `first ++ footprint :: rest` see the store left
by `first`. -/
theorem serial_of_splits {store : Key → Value}
    {log : List (Footprint Key Value)}
    (reads : ∀ first footprint rest, log = first ++ footprint :: rest →
      ∀ key value, footprint.reads key = some value →
        replay store first key = value) : Serial store log := by
  induction log generalizing store with
  | nil => trivial
  | cons footprint rest ih =>
      refine ⟨reads [] footprint rest rfl, ih ?_⟩
      intro first other tail split key value read
      exact reads (footprint :: first) other tail (by rw [split]; rfl) key value read

/-- Of transactions that all overwrite a key with one value, none after the first reads
another one. -/
theorem Serial.reads_of_overwritten {store : Key → Value}
    {log : List (Footprint Key Value)} {key : Key} {value : Value} (serial : Serial store log)
    (writes : ∀ footprint ∈ log, footprint.writes key = some value)
    (stored : store key = value) :
    ∀ footprint ∈ log, ∀ other, footprint.reads key = some other → other = value := by
  induction log generalizing store with
  | nil => simp
  | cons first rest ih =>
      intro footprint member other reads
      rcases List.mem_cons.mp member with rfl | member
      · rw [← serial.1 key other reads, stored]
      · refine ih serial.2 (fun one inRest => writes one (List.mem_cons_of_mem _ inRest)) ?_
          footprint member other reads
        exact Footprint.apply_of_writes (writes first List.mem_cons_self)

/-- Two transactions that read a value cannot both overwrite it. -/
theorem not_serial_of_two_readers {Tid : Type w} {store : Key → Value} {order : List Tid}
    {footprint : Tid → Footprint Key Value} {key : Key} {value other : Value}
    {first second : Tid} (members : first ∈ order ∧ second ∈ order)
    (different : first ≠ second)
    (writes : ∀ tid ∈ order, (footprint tid).writes key = some value)
    (reads : (footprint first).reads key = some other ∧
      (footprint second).reads key = some other)
    (changed : other ≠ value) : ¬ Serial store (order.map footprint) := by
  intro serial
  cases order with
  | nil => exact List.not_mem_nil members.1
  | cons head rest =>
      have overwritten : ∀ tid ∈ rest, (footprint tid).reads key ≠ some other := by
        intro tid member read
        refine changed (serial.2.reads_of_overwritten ?_ ?_ _
          (List.mem_map.mpr ⟨tid, member, rfl⟩) other read)
        · intro image imageMember
          obtain ⟨writer, inRest, rfl⟩ := List.mem_map.mp imageMember
          exact writes writer (List.mem_cons_of_mem _ inRest)
        · exact Footprint.apply_of_writes (writes head List.mem_cons_self)
      rcases List.mem_cons.mp members.1 with rfl | inRest
      · rcases List.mem_cons.mp members.2 with rfl | inRest
        · exact different rfl
        · exact overwritten second inRest reads.2
      · exact overwritten first inRest reads.1

end Replay

/-! ## Sorted logs -/

section Sorting

variable {Tid : Type u} {rel : Tid → Tid → Prop}

/-- One transaction stands before another in a log sorted stably by rank. -/
def Before (rank : Tid → Nat) (rel : Tid → Tid → Prop) (earlier later : Tid) : Prop :=
  rank earlier < rank later ∨ (rank earlier = rank later ∧ rel earlier later)

theorem Before.le {rank : Tid → Nat} {earlier later : Tid}
    (before : Before rank rel earlier later) : rank earlier ≤ rank later := by
  rcases before with less | ⟨same, -⟩
  · exact less.le
  · exact same.le

theorem pairwise_orderedInsert {rank : Tid → Nat} {head : Tid} {sorted : List Tid}
    (related : ∀ other ∈ sorted, rel head other)
    (ordered : sorted.Pairwise (Before rank rel)) :
    (sorted.orderedInsert (fun left right => rank left ≤ rank right) head).Pairwise
      (Before rank rel) := by
  induction sorted with
  | nil => simp
  | cons first rest ih =>
      rw [List.forall_mem_cons] at related
      rw [List.pairwise_cons] at ordered
      rw [List.orderedInsert_cons]
      split
      · rename_i small
        refine List.pairwise_cons.mpr ⟨?_, List.pairwise_cons.mpr ordered⟩
        intro other member
        have bound : rank head ≤ rank other := by
          rcases List.mem_cons.mp member with rfl | member
          · exact small
          · exact small.trans (ordered.1 other member).le
        have headRelated : rel head other := by
          rcases List.mem_cons.mp member with rfl | member
          · exact related.1
          · exact related.2 other member
        exact bound.lt_or_eq.imp_right fun same => ⟨same, headRelated⟩
      · rename_i large
        refine List.pairwise_cons.mpr ⟨?_, ih related.2 ordered.2⟩
        intro other member
        rcases (List.mem_orderedInsert _).mp member with rfl | member
        · exact .inl (not_le.mp large)
        · exact ordered.1 other member

/-- A log can be sorted by rank so that equal ranks stay in order. -/
theorem exists_sorted (rank : Tid → Nat) {order : List Tid} (related : order.Pairwise rel) :
    ∃ sorted : List Tid, sorted.Perm order ∧ sorted.Pairwise (Before rank rel) := by
  induction order with
  | nil => exact ⟨[], .refl _, .nil⟩
  | cons head tail ih =>
      rw [List.pairwise_cons] at related
      obtain ⟨sorted, permuted, ordered⟩ := ih related.2
      refine ⟨sorted.orderedInsert (fun left right => rank left ≤ rank right) head,
        (List.perm_orderedInsert _ _ _).trans (permuted.cons head), ?_⟩
      apply pairwise_orderedInsert _ ordered
      exact fun other member => related.1 other (permuted.mem_iff.mp member)

end Sorting

/-! ## Version certificates -/

section Versions

variable {Key : Type u} {Value : Type v} {Tid : Type w} {Version : Type*}

/-- The order `order` respects the versions installed and seen by its
transactions: `ver` is the version a transaction installs for a key it writes,
`seen` the version it observed for a key it read. -/
structure VersionOrder [LinearOrder Version] (init : Key → Value)
    (footprint : Tid → Footprint Key Value) (ver seen : Tid → Key → Version)
    (order : List Tid) : Prop where
  writeWrite : order.Pairwise fun earlier later => ∀ key,
    (footprint earlier).writes key ≠ none →
    (footprint later).writes key ≠ none → ver earlier key < ver later key
  writeRead : order.Pairwise fun earlier later => ∀ key,
    (footprint earlier).writes key ≠ none →
    (footprint later).reads key ≠ none → ver earlier key ≤ seen later key
  readWrite : order.Pairwise fun earlier later => ∀ key,
    (footprint earlier).reads key ≠ none →
    (footprint later).writes key ≠ none → seen earlier key < ver later key
  origin : ∀ reader ∈ order, ∀ key value,
    (footprint reader).reads key = some value →
      (value = init key ∧ ∀ writer ∈ order, writer ≠ reader →
        (footprint writer).writes key ≠ none →
          seen reader key < ver writer key) ∨
      ∃ writer ∈ order, writer ≠ reader ∧
        (footprint writer).writes key = some value ∧
        ver writer key = seen reader key

variable [LinearOrder Version] {init : Key → Value}
variable {footprint : Tid → Footprint Key Value}
variable {ver seen : Tid → Key → Version} {order : List Tid}

/-- Along an order in which the versions of `key` grow, the replayed value is the
one of the writer with the largest version. -/
theorem replay_of_latest (ver : Tid → Key → Version) {store : Key → Value}
    {key : Key} {writer : Tid} {value : Value}
    (grows : order.Pairwise fun earlier later =>
      (footprint earlier).writes key ≠ none →
      (footprint later).writes key ≠ none → ver earlier key < ver later key)
    (member : writer ∈ order)
    (written : (footprint writer).writes key = some value)
    (latest : ∀ other ∈ order, (footprint other).writes key ≠ none →
      ver other key ≤ ver writer key) :
    replay store (order.map footprint) key = value := by
  obtain ⟨first, rest, rfl⟩ := List.append_of_mem member
  have restUnwritten : ∀ other ∈ rest, (footprint other).writes key = none := by
    intro other otherMember
    by_contra otherWritten
    have later := (List.pairwise_cons.mp (List.pairwise_append.mp grows).2.1).1
      other otherMember (by simp [written]) otherWritten
    have bound := latest other (by simp [otherMember]) otherWritten
    exact absurd later (not_lt.mpr bound)
  rw [List.map_append, replay_append, List.map_cons, replay,
    replay_of_not_writes]
  · exact Footprint.apply_of_writes written
  · intro image imageMember
    obtain ⟨other, otherMember, rfl⟩ := List.mem_map.mp imageMember
    exact restUnwritten other otherMember

/-- A version certificate makes the order a serial execution. -/
theorem VersionOrder.serial
    (certificate : VersionOrder init footprint ver seen order) :
    Serial init (order.map footprint) := by
  apply serial_of_splits
  intro prefixLog image restLog split key value read
  obtain ⟨first, tail, orderSplit, rfl, tailImage⟩ :=
    List.map_eq_append_iff.mp split
  obtain ⟨reader, rest, tailSplit, rfl, -⟩ := List.map_eq_cons_iff.mp tailImage
  subst tailSplit orderSplit
  have wrotePrefix := (List.pairwise_append.mp certificate.writeWrite).1
  have before : ∀ writer ∈ first, (footprint writer).writes key ≠ none →
      ver writer key ≤ seen reader key := by
    intro writer member written
    exact (List.pairwise_append.mp certificate.writeRead).2.2 writer member
      reader (by simp) key written (by simp [read])
  rcases certificate.origin reader (by simp) key value read with
    ⟨rfl, unseen⟩ | ⟨writer, member, different, written, version⟩
  · apply replay_of_not_writes
    intro image imageMember
    obtain ⟨writer, member, rfl⟩ := List.mem_map.mp imageMember
    by_contra written
    by_cases same : writer = reader
    · subst same
      have := before writer member written
      have self := (List.pairwise_append.mp certificate.readWrite).2.2
        writer member writer (by simp) key (by simp [read]) written
      exact absurd this (not_le.mpr self)
    · exact absurd (before writer member written)
        (not_le.mpr (unseen writer (by simp [member]) same written))
  · -- The writer of the version read cannot stand after its reader.
    have writerFirst : writer ∈ first := by
      rcases List.mem_append.mp member with found | found
      · exact found
      · rcases List.mem_cons.mp found with rfl | found
        · exact absurd rfl different
        · have after := (List.pairwise_cons.mp
            (List.pairwise_append.mp certificate.readWrite).2.1).1 writer found
            key (by simp [read]) (by simp [written])
          exact absurd version.symm (ne_of_lt after)
    apply replay_of_latest ver _ writerFirst written
    · intro other otherMember otherWritten
      rw [version]
      exact before other otherMember otherWritten
    · exact wrotePrefix.imp fun grows => grows key

end Versions

end Rocc
