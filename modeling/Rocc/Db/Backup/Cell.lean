import Rocc.Base.Latest
import Rocc.Db.Backup.Drain

/-!
# Records of a backup

A record takes over an entry under its lock, and only if the sequence number of the entry is higher.
Workers and logs may therefore come in any order.
-/

namespace Rocc.Db.Backup

open DbLogger

universe u v

/-- What the cleaner uses of a `MemNode` of a backup. -/
structure Node where
  seq : UInt64
  value : Option (List UInt8)
  deriving DecidableEq, Repr

/-- A record of a backup: the partition, the table and the key. -/
structure Place where
  partition : Nat
  tableId : UInt32
  key : UInt64
  deriving DecidableEq, Repr

/-- The stores of all partitions that are backed up; a record that is not there is as
`GetWithInsert` makes it. -/
abbrev Store := Place → Node

namespace Node

/-- The part of `clean_log` under the lock. -/
def cleanLog (node : Node) (seq : UInt64) (val : List UInt8) : Node :=
  if seq ≤ node.seq then node else { seq, value := some val }

/-- The record as a cell that keeps the latest version. -/
def cell (node : Node) : Versioned Nat (Option (List UInt8)) :=
  { version := node.seq.toNat, value := node.value }

theorem cell_injective : Function.Injective cell := by
  intro left right same
  have version : left.seq.toNat = right.seq.toNat := congrArg Versioned.version same
  have value : left.value = right.value := congrArg Versioned.value same
  cases left
  cases right
  simp_all [UInt64.toNat_inj]

end Node

/-- The record that an entry makes. -/
def nodeOf (entry : Entry) : Node := { seq := entry.seq, value := some entry.value }

theorem cell_cleanLog (node : Node) (entry : Entry) :
    (node.cleanLog entry.seq entry.value).cell = node.cell.absorb (nodeOf entry).cell := by
  rw [Node.cleanLog, Versioned.absorb]
  simp only [nodeOf, Node.cell, ← UInt64.le_iff_toNat_le]
  split <;> rfl

section Cleaner

variable (cleanLog : Store → Entry → Option Store) (placeOf : Entry → Option Place)

/-- The record `place` is changed by its own entries only, each as `apply` says. -/
def Applies (place : Place) (apply : Node → Entry → Node) : Prop :=
  ∀ store entry after, cleanLog store entry = some after →
    after place = if placeOf entry = some place then apply (store place) entry else store place

/-- The cleaner compares the sequence numbers of the record `place`. -/
abbrev Compares (place : Place) : Prop :=
  Applies cleanLog placeOf place fun node entry => node.cleanLog entry.seq entry.value

/-- The entries of a record. -/
def entriesOf (place : Place) (entries : List Entry) : List Entry :=
  entries.filter fun entry => placeOf entry = some place

variable {cleanLog placeOf} {place : Place} {entries : List Entry} {start store : Store}

@[simp] theorem mem_entriesOf {entry : Entry} :
    entry ∈ entriesOf placeOf place entries ↔ entry ∈ entries ∧ placeOf entry = some place := by
  simp [entriesOf]

/-- The record is what its entries made of it, one after another. -/
theorem Applies.foldl {apply : Node → Entry → Node} (applies : Applies cleanLog placeOf place apply)
    (cleaned : entries.foldlM cleanLog start = some store) :
    store place = (entriesOf placeOf place entries).foldl apply (start place) := by
  induction entries generalizing start with
  | nil =>
      obtain rfl := Option.some.inj cleaned
      rfl
  | cons entry rest ih =>
      rw [List.foldlM_cons] at cleaned
      obtain ⟨middle, first, others⟩ := Option.bind_eq_some_iff.mp cleaned
      rw [ih others, applies start entry middle first, entriesOf, entriesOf, List.filter_cons]
      by_cases here : placeOf entry = some place <;> simp [here]

theorem cell_foldl (node : Node) (entries : List Entry) :
    (entries.foldl (fun node entry => node.cleanLog entry.seq entry.value) node).cell =
      (entries.map fun entry => (nodeOf entry).cell).foldl Versioned.absorb node.cell := by
  induction entries generalizing node with
  | nil => rfl
  | cons entry rest ih => rw [List.foldl_cons, ih, cell_cleanLog, List.map_cons, List.foldl_cons]

/-- The record ends with the latest of its entries. -/
theorem isLatest_of_compares (compares : Compares cleanLog placeOf place)
    (cleaned : entries.foldlM cleanLog start = some store) :
    Versioned.IsLatest (start place).cell
      ((entriesOf placeOf place entries).map fun entry => (nodeOf entry).cell)
      (store place).cell := by
  rw [compares.foldl cleaned, cell_foldl]
  exact Versioned.isLatest_foldl _ _

end Cleaner

/-! ## Drained rings -/

section Drained

variable {Thread : Type u} [DecidableEq Thread] {cleanLog : Store → Entry → Option Store}
variable {placeOf : Entry → Option Place} {start : Store} {state : State Thread Store}

/-- Some thread has logged the entry. -/
def Logged (state : State Thread Store) (entry : Entry) : Prop :=
  ∃ thread, entry ∈ (state.calls thread).flatMap toClean

/-- All logs are cleaned. -/
def Drained (state : State Thread Store) : Prop := ∀ thread, (state.rings thread).logs = []

theorem mem_cleanedOf {thread : Thread} {entry : Entry} :
    entry ∈ state.cleanedOf thread ↔ (thread, entry) ∈ state.cleaned := by
  simp only [State.cleanedOf, List.mem_map, List.mem_filter, decide_eq_true_eq]
  constructor
  · rintro ⟨⟨_, _⟩, ⟨member, rfl⟩, rfl⟩
    exact member
  · exact fun member => ⟨_, ⟨member, rfl⟩, rfl⟩

theorem Inv.calls_eq (inv : Inv cleanLog start state) (drained : Drained state)
    (thread : Thread) : (state.calls thread).flatMap toClean = state.cleanedOf thread := by
  obtain ⟨rest, all, nothing⟩ := inv.split thread
  rw [all, nothing (drained thread), List.append_nil]

/-- When all logs are cleaned, the entries cleaned are those logged. -/
theorem Inv.mem_cleaned (inv : Inv cleanLog start state) (drained : Drained state)
    {entry : Entry} : entry ∈ state.cleaned.map Prod.snd ↔ Logged state entry := by
  simp only [Logged, inv.calls_eq drained, mem_cleanedOf, List.mem_map, Prod.exists,
    exists_eq_right]

/-- The versions logged for a record. -/
def versions (placeOf : Entry → Option Place) (state : State Thread Store) (place : Place) :
    List (Versioned Nat (Option (List UInt8))) :=
  (entriesOf placeOf place (state.cleaned.map Prod.snd)).map fun entry => (nodeOf entry).cell

theorem Inv.mem_versions (inv : Inv cleanLog start state) (drained : Drained state) {place : Place}
    {version : Versioned Nat (Option (List UInt8))} :
    version ∈ versions placeOf state place ↔
      ∃ entry, Logged state entry ∧ placeOf entry = some place ∧
        (nodeOf entry).cell = version := by
  simp only [versions, List.mem_map, mem_entriesOf, and_assoc, ← inv.mem_cleaned drained]

/-- The record is at the highest sequence number logged for it, with the value logged with that. -/
structure IsLatest (placeOf : Entry → Option Place) (start : Store) (state : State Thread Store)
    (place : Place) : Prop where
  start_le : (start place).seq ≤ (state.store place).seq
  upper : ∀ entry, Logged state entry → placeOf entry = some place →
    entry.seq ≤ (state.store place).seq
  source : state.store place = start place ∨
    ∃ entry, Logged state entry ∧ placeOf entry = some place ∧ (start place).seq < entry.seq ∧
      state.store place = nodeOf entry

/-- When all logs are cleaned, a record whose sequence numbers are compared is at the latest. -/
theorem Inv.latest (inv : Inv cleanLog start state) (drained : Drained state) {place : Place}
    (compares : Compares cleanLog placeOf place) : IsLatest placeOf start state place := by
  have latest := isLatest_of_compares compares inv.store
  refine ⟨UInt64.le_iff_toNat_le.mpr latest.start_le, fun entry isLogged here => ?_, ?_⟩
  · exact UInt64.le_iff_toNat_le.mpr
      (latest.upper _ ((inv.mem_versions drained).mpr ⟨entry, isLogged, here, rfl⟩))
  · refine latest.source.imp (fun same => Node.cell_injective same) ?_
    rintro ⟨member, higher⟩
    obtain ⟨entry, isLogged, here, same⟩ := (inv.mem_versions drained).mp member
    rw [← same] at higher
    exact ⟨entry, isLogged, here, UInt64.lt_iff_toNat_lt.mpr higher,
      (Node.cell_injective same).symm⟩

/-- Two backups with the same entries for a record end with the same record. -/
theorem Inv.agree {Other : Type v} [DecidableEq Other]
    {otherCleanLog : Store → Entry → Option Store}
    {otherPlaceOf : Entry → Option Place} {otherStart : Store} {other : State Other Store}
    (inv : Inv cleanLog start state) (drained : Drained state)
    (otherInv : Inv otherCleanLog otherStart other) (otherDrained : Drained other) {place : Place}
    (compares : Compares cleanLog placeOf place)
    (otherCompares : Compares otherCleanLog otherPlaceOf place)
    (samePlace : ∀ entry, placeOf entry = some place ↔ otherPlaceOf entry = some place)
    (sameEntries : ∀ entry, placeOf entry = some place → (Logged state entry ↔ Logged other entry))
    (oneValue : ∀ first second, Logged state first → Logged state second →
      placeOf first = some place → placeOf second = some place → first.seq = second.seq →
        first.value = second.value)
    (sameStart : start place = otherStart place) : state.store place = other.store place := by
  apply Node.cell_injective
  have latest := isLatest_of_compares compares inv.store
  have otherLatest := isLatest_of_compares otherCompares otherInv.store
  rw [← sameStart] at otherLatest
  refine latest.eq_of_same otherLatest ?_ ?_
  · intro version
    rw [← versions, ← versions, inv.mem_versions drained,
      otherInv.mem_versions otherDrained]
    refine exists_congr fun entry => ?_
    rw [← samePlace entry]
    constructor
    · rintro ⟨isLogged, here, same⟩
      exact ⟨(sameEntries entry here).mp isLogged, here, same⟩
    · rintro ⟨isLogged, here, same⟩
      exact ⟨(sameEntries entry here).mpr isLogged, here, same⟩
  · intro left leftMember right rightMember same
    obtain ⟨first, firstLogged, firstHere, rfl⟩ := (inv.mem_versions drained).mp leftMember
    obtain ⟨second, secondLogged, secondHere, rfl⟩ := (inv.mem_versions drained).mp rightMember
    have seq : first.seq = second.seq := UInt64.toNat_inj.mp same
    rw [nodeOf, nodeOf, seq,
      oneValue first second firstLogged secondLogged firstHere secondHere seq]

theorem entriesOf_cleaned (thread : Thread) {place : Place} {cleaned : List (Thread × Entry)}
    (alone : ∀ pair ∈ cleaned, placeOf pair.2 = some place → pair.1 = thread) :
    entriesOf placeOf place (cleaned.map Prod.snd) = entriesOf placeOf place
      ((cleaned.filter fun pair => pair.1 = thread).map Prod.snd) := by
  induction cleaned with
  | nil => rfl
  | cons pair rest ih =>
      have others := ih fun other member => alone other (List.mem_cons_of_mem _ member)
      have first := alone pair List.mem_cons_self
      simp only [entriesOf] at others ⊢
      by_cases mine : pair.1 = thread
      · simp [mine, others, List.filter_cons]
      · have elsewhere : placeOf pair.2 ≠ some place := fun here => mine (first here)
        simp [mine, elsewhere, others]

/-- When all logs are cleaned, a record that one thread alone logs is what the log of that thread
makes of it. -/
theorem Inv.sequential (inv : Inv cleanLog start state) (drained : Drained state) {place : Place}
    {apply : Node → Entry → Node} (applies : Applies cleanLog placeOf place apply)
    (thread : Thread)
    (alone : ∀ other, other ≠ thread → ∀ entry ∈ (state.calls other).flatMap toClean,
      placeOf entry ≠ some place) :
    state.store place = (entriesOf placeOf place ((state.calls thread).flatMap toClean)).foldl
      apply (start place) := by
  rw [applies.foldl inv.store, entriesOf_cleaned thread, inv.calls_eq drained]
  · rfl
  · rintro ⟨other, entry⟩ member here
    by_contra different
    refine alone other different entry ?_ here
    rw [inv.calls_eq drained]
    exact mem_cleanedOf.mpr member

end Drained

end Rocc.Db.Backup
