import Rocc.Base.Cells
import Rocc.Base.Rotation
import Rocc.Rtx.SymmetricView

/-!
# Machines and partitions

`View` gives every partition a primary and backups, and keeps for every machine the
partitions it has a copy of.  `arrange_primary` takes the machines from a queue and
`arrange_backup` gives one backup after the other to all partitions.

The arrays of both records have a fixed size; the model has no result where an access
goes past the end.
-/

namespace Rocc.Framework

/-- `MAX_PRIMARY_NUM`. -/
def maxPrimaryNum : Nat := 1

/-- `MAX_BACKUP_NUM`. -/
def maxBackupNum : Nat := 2

/-- `MAX_REPO_NUM`. -/
def maxRepoNum : Nat := 3

/-- `PartitionInfo`. -/
structure PartitionInfo where
  primary : Int
  primaryMacIndex : Nat
  backups : Nat → Nat
  numBackups : Nat

/-- `MacInfo`. -/
structure MacInfo where
  id : Nat
  capcity : Int
  alive : Bool
  numPrimaries : Nat
  numBackups : Nat
  partitions : Nat → Nat

/-- `View`: as many partitions as machines. -/
structure View where
  numPartitions : Nat
  repFactor : Nat
  partitions : Nat → PartitionInfo
  macs : Nat → MacInfo

namespace View

/-- The partitions of a machine, as the loops of `is_primary` and `is_backup` visit them. -/
def copies (view : View) (macId : Nat) : Option (List (Nat × PartitionInfo)) := do
  let macInfo ← loadCell view.numPartitions view.macs macId
  (List.range (macInfo.numPrimaries + macInfo.numBackups)).mapM fun i => do
    let pId ← loadCell maxRepoNum macInfo.partitions i
    let partition ← loadCell view.numPartitions view.partitions pId
    return (pId, partition)

/-- `is_primary`: what it writes to `primaries`; it returns how many these are. -/
def isPrimary (view : View) (macId : Nat) : Option (List Nat) :=
  (view.copies macId).map fun copies =>
    (copies.filter fun copy => decide (copy.2.primary = (macId : Int))).map Prod.fst

/-- `is_backup`: what it writes to `backups`; it returns how many these are. -/
def isBackup (view : View) (macId : Nat) : Option (List Nat) :=
  (view.copies macId).map fun copies =>
    (copies.filter fun copy => decide (copy.2.primary ≠ (macId : Int))).map Prod.fst

/-- `response_back`. -/
def responseBack (view : View) (macId pId : Nat) : Option Bool := do
  let partition ← loadCell view.numPartitions view.partitions pId
  (List.range partition.numBackups).anyM fun i =>
    (loadCell maxBackupNum partition.backups i).map fun backup => decide (macId = backup)

/-- `response`. -/
def response (view : View) (macId pId : Nat) : Option Bool := do
  let partition ← loadCell view.numPartitions view.partitions pId
  if (macId : Int) = partition.primary then return true else view.responseBack macId pId

/-- `add_backup`. -/
def addBackup (view : View) (pId : Nat) (backs : Finset Nat) : Option (Finset Nat) := do
  let partition ← loadCell view.numPartitions view.partitions pId
  (List.range partition.numBackups).foldlM
    (fun backs i => (loadCell maxBackupNum partition.backups i).map (insert · backs)) backs

/-! ## The constructor -/

/-- One round of `arrange_primary`, with the queue of the machines. -/
def arrangePrimaryOne (state : View × List Nat) (pId : Nat) : Option (View × List Nat) :=
  match state.2 with
  | [] => none
  | macId :: machines => do
      let primaries ← state.1.isPrimary macId
      if maxPrimaryNum < primaries.length then none
      else if primaries.length = maxPrimaryNum then
        return (state.1, machines ++ [macId])
      else
        let partitionInfo ← loadCell state.1.numPartitions state.1.partitions pId
        let macInfo ← loadCell state.1.numPartitions state.1.macs macId
        let cells ← storeCell maxRepoNum macInfo.partitions macInfo.numPrimaries pId
        let capcity := macInfo.capcity - 1
        some
          ({ state.1 with
              partitions := Function.update state.1.partitions pId
                { partitionInfo with
                  primary := macId
                  primaryMacIndex := if primaries.length = 0 then 0 else 1 }
              macs := Function.update state.1.macs macId
                { macInfo with
                  capcity := capcity
                  numPrimaries := macInfo.numPrimaries + 1
                  partitions := cells } },
            if 0 < capcity then machines ++ [macId] else machines)

/-- `arrange_primary`. -/
def arrangePrimary (view : View) (machines : List Nat) : Option (View × List Nat) :=
  (List.range view.numPartitions).foldlM arrangePrimaryOne (view, machines)

/-- The inner loop of `arrange_backup`, for one partition. -/
def arrangeBackupOne (repNum : Nat) (view : View) (pId : Nat) : Option View := do
  let partitionInfo ← loadCell view.numPartitions view.partitions pId
  let macId := ((partitionInfo.primary + repNum) % view.numPartitions).toNat
  let responds ← view.response macId pId
  if responds then return view
  else
    let backups ← storeCell maxBackupNum partitionInfo.backups partitionInfo.numBackups macId
    let macInfo ← loadCell view.numPartitions view.macs macId
    let cells ← storeCell maxRepoNum macInfo.partitions
      (macInfo.numPrimaries + macInfo.numBackups) pId
    some
      { view with
        partitions := Function.update view.partitions pId
          { partitionInfo with
            backups := backups
            numBackups := partitionInfo.numBackups + 1 }
        macs := Function.update view.macs macId
          { macInfo with
            capcity := macInfo.capcity - 1
            numBackups := macInfo.numBackups + 1
            partitions := cells } }

/-- `arrange_backup`. -/
def arrangeBackup (view : View) : Option View :=
  (List.range view.repFactor).foldlM
    (fun view round => (List.range view.numPartitions).foldlM (arrangeBackupOne (round + 1)) view)
    view

/-- The records before anything is arranged; `cells` are the values that stand in the
arrays of a new `MacInfo`. -/
def bare (size repFactor : Nat) (cells : Nat → Nat → Nat) : View :=
  { numPartitions := size
    repFactor := repFactor
    partitions := fun _ =>
      { primary := -1, primaryMacIndex := 0, backups := fun _ => 0, numBackups := 0 }
    macs := fun id =>
      { id := id
        capcity := maxRepoNum
        alive := true
        numPrimaries := 0
        numBackups := 0
        partitions := cells id } }

/-- The constructor for a network of `size` machines, with its checks. -/
def new (size repFactor : Nat) (cells : Nat → Nat → Nat) : Option View :=
  if repFactor ≤ maxBackupNum then
    if maxRepoNum * size < size * repFactor then none
    else do
      let arranged ← arrangePrimary (bare size repFactor cells) (List.range size)
      arranged.1.arrangeBackup
  else none

/-! ## Primaries -/

/-- After `count` rounds of `arrange_primary`: the first machines have a primary each and
stand behind the others in the queue, nobody has a backup. -/
structure Primaries (size repFactor count : Nat) (state : View × List Nat) : Prop where
  numPartitions : state.1.numPartitions = size
  repFactor : state.1.repFactor = repFactor
  machines : state.2 = List.range' count (size - count) ++ List.range count
  primary : ∀ pId < count, (state.1.partitions pId).primary = pId
  noBackups : ∀ pId, (state.1.partitions pId).numBackups = 0
  macNoBackups : ∀ macId, (state.1.macs macId).numBackups = 0
  room : ∀ macId, (state.1.macs macId).capcity = if macId < count then 2 else 3
  numPrimaries : ∀ macId, (state.1.macs macId).numPrimaries = if macId < count then 1 else 0
  first : ∀ macId < count, (state.1.macs macId).partitions 0 = macId

/-- A machine without partitions is no primary. -/
theorem isPrimary_of_empty {view : View} {macId : Nat} (inside : macId < view.numPartitions)
    (none : (view.macs macId).numPrimaries + (view.macs macId).numBackups = 0) :
    view.isPrimary macId = some [] := by
  rw [View.isPrimary, View.copies, loadCell_of_lt _ inside]
  simp only [Option.bind_eq_bind, Option.bind_some]
  rw [none]
  rfl

/-- A round of `arrange_primary` that finds a machine without partitions. -/
theorem arrangePrimaryOne_eq {view : View} {machines : List Nat} {macId pId : Nat}
    (machine : macId < view.numPartitions) (partition : pId < view.numPartitions)
    (none : (view.macs macId).numPrimaries = 0) (unbacked : (view.macs macId).numBackups = 0)
    (room : (view.macs macId).capcity = 3) :
    arrangePrimaryOne (view, macId :: machines) pId =
      some
        ({ view with
            partitions := Function.update view.partitions pId
              { view.partitions pId with primary := macId, primaryMacIndex := 0 }
            macs := Function.update view.macs macId
              { view.macs macId with
                capcity := 2
                numPrimaries := 1
                partitions := Function.update (view.macs macId).partitions 0 pId } },
          machines ++ [macId]) := by
  have fresh : view.isPrimary macId = some [] :=
    isPrimary_of_empty machine (by rw [none, unbacked])
  unfold arrangePrimaryOne
  simp only [fresh, Option.bind_eq_bind, Option.bind_some]
  rw [if_neg (by decide), if_neg (by decide), loadCell_of_lt _ partition, loadCell_of_lt _ machine]
  simp only [Option.bind_some]
  rw [none, storeCell_of_lt _ _ (by decide), room]
  rfl

theorem Primaries.step {size repFactor count : Nat} {state : View × List Nat}
    (primaries : Primaries size repFactor count state) (inside : count < size) :
    ∃ after, arrangePrimaryOne state count = some after ∧
      Primaries size repFactor (count + 1) after := by
  obtain ⟨view, machines⟩ := state
  obtain ⟨numPartitions, rep, queue, primary, noBackups, macNoBackups, room, numPrimaries,
    first⟩ := primaries
  simp only at numPartitions rep queue primary noBackups macNoBackups room numPrimaries first
  have next : machines = count :: (List.range' (count + 1) (size - (count + 1)) ++
      List.range count) := by
    rw [queue, show size - count = size - (count + 1) + 1 by omega, List.range'_succ]
    rfl
  have before : ∀ macId, macId ≠ count → (macId < count + 1 ↔ macId < count) := by
    intro macId different
    omega
  rw [next]
  refine ⟨_, arrangePrimaryOne_eq (by omega) (by omega) (by simp [numPrimaries])
    (macNoBackups count) (by simp [room]), numPartitions, rep, ?_, ?_, ?_, ?_, ?_, ?_, ?_⟩
  · rw [List.range_succ, List.append_assoc]
  · intro pId small
    by_cases same : pId = count
    · simp [same]
    · simp [same, primary pId (by omega)]
  · intro pId
    by_cases same : pId = count
    · simp [same, noBackups]
    · simp [same, noBackups]
  · intro macId
    by_cases same : macId = count
    · simp [same, macNoBackups]
    · simp [same, macNoBackups]
  · intro macId
    by_cases same : macId = count
    · simp [same]
    · simp [same, room, before macId same]
  · intro macId
    by_cases same : macId = count
    · simp [same]
    · simp [same, numPrimaries, before macId same]
  · intro macId small
    by_cases same : macId = count
    · simp [same]
    · simp [same, first macId (by omega)]

/-- `arrange_primary` makes every machine the primary of its own partition. -/
theorem arrangePrimary_spec (size repFactor : Nat) (cells : Nat → Nat → Nat) :
    ∃ state, arrangePrimary (bare size repFactor cells) (List.range size) = some state ∧
      Primaries size repFactor size state := by
  refine exists_foldlM_range (Primaries size repFactor)
    ⟨rfl, rfl, by simp [List.range_eq_range'], fun _ small => absurd small (Nat.not_lt_zero _),
      fun _ => rfl, fun _ => rfl, fun _ => rfl, fun _ => rfl,
      fun _ small => absurd small (Nat.not_lt_zero _)⟩ ?_
  intro count inside state primaries
  exact primaries.step inside

/-! ## Queries of one partition -/

/-- The backups of a partition are the next machines. -/
structure BackedByNext (view : View) (pId : Nat) : Prop where
  inside : pId < view.numPartitions
  primary : (view.partitions pId).primary = pId
  few : (view.partitions pId).numBackups ≤ maxBackupNum
  backup : ∀ i < (view.partitions pId).numBackups,
    (view.partitions pId).backups i = turn view.numPartitions pId (i + 1)

section

variable {view : View} {pId macId : Nat}

theorem responseBack_eq (backed : BackedByNext view pId) :
    view.responseBack macId pId =
      some (decide (macId ∈ nextOnes view.numPartitions pId
        (view.partitions pId).numBackups)) := by
  have each : ∀ i ∈ List.range (view.partitions pId).numBackups,
      ((loadCell maxBackupNum (view.partitions pId).backups i).map
        fun backup => decide (macId = backup)) =
        some (decide (turn view.numPartitions pId (i + 1) = macId)) := by
    intro i member
    rw [List.mem_range] at member
    have few := backed.few
    rw [loadCell_of_lt _ (by omega), backed.backup i member, Option.map_some, decide_eq_decide.mpr]
    exact eq_comm
  rw [responseBack, loadCell_of_lt _ backed.inside]
  simp only [Option.bind_eq_bind, Option.bind_some]
  rw [anyM_eq_some each]
  congr 1
  rw [Bool.eq_iff_iff]
  simp [mem_nextOnes]

theorem response_eq (backed : BackedByNext view pId) :
    view.response macId pId =
      some (decide (macId = pId ∨ macId ∈ nextOnes view.numPartitions pId
        (view.partitions pId).numBackups)) := by
  rw [response, loadCell_of_lt _ backed.inside]
  simp only [Option.bind_eq_bind, Option.bind_some, backed.primary]
  by_cases same : macId = pId
  · subst same
    simp
  · rw [if_neg (by omega), responseBack_eq backed]
    simp [same]

theorem addBackup_spec (backed : BackedByNext view pId) (backs : Finset Nat) :
    ∃ after, view.addBackup pId backs = some after ∧ ∀ mac, mac ∈ after ↔
      mac ∈ backs ∨ mac ∈ nextOnes view.numPartitions pId
        (view.partitions pId).numBackups := by
  obtain ⟨after, run, members⟩ := @foldlM_insert_eq_some _ _ _
    (loadCell maxBackupNum (view.partitions pId).backups)
    (fun i => turn view.numPartitions pId (i + 1))
    (List.range (view.partitions pId).numBackups) backs (by
      intro i member
      rw [List.mem_range] at member
      have few := backed.few
      rw [loadCell_of_lt _ (by omega), backed.backup i member])
  refine ⟨after, ?_, members⟩
  rw [addBackup, loadCell_of_lt _ backed.inside]
  exact run

end

/-! ## Backups -/

/-- After `rounds` rounds of `arrange_backup` and `count` partitions of the next one. -/
structure Placed (size rounds count : Nat) (view : View) : Prop where
  numPartitions : view.numPartitions = size
  primary : ∀ pId < size, (view.partitions pId).primary = pId
  numBackups : ∀ pId < size,
    (view.partitions pId).numBackups = rounds + if pId < count then 1 else 0
  backup : ∀ pId < size, ∀ i < (view.partitions pId).numBackups,
    (view.partitions pId).backups i = turn size pId (i + 1)
  numPrimaries : ∀ macId < size, (view.macs macId).numPrimaries = 1
  macNumBackups : ∀ macId < size, (view.macs macId).numBackups =
    rounds + if turnBack size macId (rounds + 1) < count then 1 else 0
  first : ∀ macId < size, (view.macs macId).partitions 0 = macId
  others : ∀ macId < size, ∀ i < (view.macs macId).numBackups,
    (view.macs macId).partitions (i + 1) = turnBack size macId (i + 1)

theorem Placed.backedByNext {size rounds count : Nat} {view : View}
    (placed : Placed size rounds count view) (few : rounds < maxBackupNum) {pId : Nat}
    (inside : pId < size) : BackedByNext view pId := by
  constructor
  · exact placed.numPartitions ▸ inside
  · exact placed.primary pId inside
  · rw [placed.numBackups pId inside]
    split <;> omega
  · rw [placed.numPartitions]
    exact placed.backup pId inside

/-- A round of `arrange_backup` that gives the partition a backup. -/
theorem arrangeBackupOne_eq {view : View} {repNum pId macId : Nat}
    (partition : pId < view.numPartitions)
    (chosen : (((view.partitions pId).primary + repNum) % view.numPartitions).toNat = macId)
    (machine : macId < view.numPartitions) (free : view.response macId pId = some false)
    (few : (view.partitions pId).numBackups < maxBackupNum)
    (small : (view.macs macId).numPrimaries + (view.macs macId).numBackups < maxRepoNum) :
    arrangeBackupOne repNum view pId =
      some
        { view with
          partitions := Function.update view.partitions pId
            { view.partitions pId with
              backups := Function.update (view.partitions pId).backups
                (view.partitions pId).numBackups macId
              numBackups := (view.partitions pId).numBackups + 1 }
          macs := Function.update view.macs macId
            { view.macs macId with
              capcity := (view.macs macId).capcity - 1
              numBackups := (view.macs macId).numBackups + 1
              partitions := Function.update (view.macs macId).partitions
                ((view.macs macId).numPrimaries + (view.macs macId).numBackups) pId } } := by
  unfold arrangeBackupOne
  rw [loadCell_of_lt _ partition]
  simp only [Option.bind_eq_bind, Option.bind_some]
  rw [chosen, free]
  simp only [Option.bind_some, Bool.false_eq_true, if_false]
  rw [storeCell_of_lt _ _ few]
  simp only [Option.bind_some]
  rw [loadCell_of_lt _ machine]
  simp only [Option.bind_some]
  rw [storeCell_of_lt _ _ small]
  rfl

/-- One partition gets its next backup. -/
theorem Placed.step {size rounds count : Nat} {view : View}
    (placed : Placed size rounds count view) (inside : count < size)
    (few : rounds < maxBackupNum) (less : rounds + 1 < size) :
    ∃ after, arrangeBackupOne (rounds + 1) view count = some after ∧
      Placed size rounds (count + 1) after ∧ after.repFactor = view.repFactor := by
  have numPartitions := placed.numPartitions
  have backups : (view.partitions count).numBackups = rounds := by
    rw [placed.numBackups count inside]
    simp
  have machine : turn size count (rounds + 1) < size := turn_lt inside
  have back : turnBack size (turn size count (rounds + 1)) (rounds + 1) = count :=
    turnBack_turn inside less
  have macBackups : (view.macs (turn size count (rounds + 1))).numBackups = rounds := by
    rw [placed.macNumBackups _ machine, back]
    simp
  have primaries := placed.numPrimaries _ machine
  have chosen : (((view.partitions count).primary + ((rounds + 1 : Nat) : Int)) %
      view.numPartitions).toNat = turn size count (rounds + 1) := by
    rw [placed.primary count inside, numPartitions, ← Int.natCast_add, ← Int.natCast_emod,
      Int.toNat_natCast]
    rfl
  have free : view.response (turn size count (rounds + 1)) count = some false := by
    rw [response_eq (placed.backedByNext few inside), numPartitions, backups]
    congr 1
    rw [decide_eq_false_iff_not, mem_nextOnes]
    rintro (same | ⟨index, small, same⟩)
    · exact turn_ne inside (by omega) less same
    · have equal := turn_injective inside (by omega) less same
      omega
  refine ⟨_, arrangeBackupOne_eq (by omega) chosen (by omega) free (by omega)
    (by rw [primaries, macBackups]; unfold maxBackupNum at few; unfold maxRepoNum; omega),
    ⟨numPartitions, ?_, ?_, ?_, ?_, ?_, ?_, ?_⟩, rfl⟩
  · intro pId small
    by_cases same : pId = count
    · simp [same, placed.primary count inside]
    · simp [same, placed.primary pId small]
  · intro pId small
    by_cases same : pId = count
    · simp [same, backups]
    · have order : pId < count + 1 ↔ pId < count := by omega
      simp [same, placed.numBackups pId small, order]
  · intro pId small i earlier
    by_cases same : pId = count
    · subst same
      simp only [Function.update_self] at earlier ⊢
      by_cases last : i = rounds
      · simp [last, backups]
      · rw [backups] at earlier ⊢
        rw [Function.update_of_ne last]
        exact placed.backup pId inside i (by omega)
    · simp only [Function.update_of_ne same] at earlier ⊢
      exact placed.backup pId small i earlier
  · intro macId small
    by_cases same : macId = turn size count (rounds + 1)
    · simp [same, primaries]
    · simp [same, placed.numPrimaries macId small]
  · intro macId small
    by_cases same : macId = turn size count (rounds + 1)
    · subst same
      simp [back, macBackups]
    · have other : turnBack size macId (rounds + 1) ≠ count := by
        intro equal
        exact same ((turn_eq_iff inside small less).mpr equal).symm
      have order : turnBack size macId (rounds + 1) < count + 1 ↔
          turnBack size macId (rounds + 1) < count := by omega
      simp [same, placed.macNumBackups macId small, order]
  · intro macId small
    by_cases same : macId = turn size count (rounds + 1)
    · subst same
      simp only [Function.update_self, primaries]
      rw [Function.update_of_ne (by omega)]
      exact placed.first _ small
    · simp [same, placed.first macId small]
  · intro macId small i earlier
    by_cases same : macId = turn size count (rounds + 1)
    · subst same
      simp only [Function.update_self, primaries] at earlier ⊢
      by_cases last : i = rounds
      · subst last
        rw [macBackups, Nat.add_comm 1 i, Function.update_self, back]
      · rw [macBackups] at earlier ⊢
        rw [Function.update_of_ne (by omega)]
        exact placed.others _ small i (by omega)
    · simp only [Function.update_of_ne same] at earlier ⊢
      exact placed.others macId small i earlier

/-- A whole round. -/
theorem Placed.round {size rounds : Nat} {view : View} (placed : Placed size rounds 0 view)
    (few : rounds < maxBackupNum) (less : rounds + 1 < size) :
    ∃ after, (List.range view.numPartitions).foldlM (arrangeBackupOne (rounds + 1)) view =
        some after ∧ Placed size (rounds + 1) 0 after ∧ after.repFactor = view.repFactor := by
  obtain ⟨after, run, last, kept⟩ := @exists_foldlM_range _ (arrangeBackupOne (rounds + 1))
    (fun count (state : View) => Placed size rounds count state ∧
      state.repFactor = view.repFactor) view.numPartitions view ⟨placed, rfl⟩ (by
      intro count inside state holds
      obtain ⟨next, run, kept, same⟩ :=
        holds.1.step (placed.numPartitions ▸ inside) few less
      exact ⟨next, run, kept, same.trans holds.2⟩)
  rw [placed.numPartitions] at last
  refine ⟨after, run, ⟨last.numPartitions, last.primary, ?_, last.backup, last.numPrimaries, ?_,
    last.first, last.others⟩, kept⟩
  · intro pId small
    rw [last.numBackups pId small, if_pos small]
    simp
  · intro macId small
    rw [last.macNumBackups macId small, if_pos (turnBack_lt small)]
    simp

/-- What the constructor leaves. -/
theorem new_spec {size repFactor : Nat} (few : repFactor ≤ maxBackupNum)
    (less : repFactor < size) (cells : Nat → Nat → Nat) :
    ∃ view, View.new size repFactor cells = some view ∧ Placed size repFactor 0 view := by
  obtain ⟨state, arranged, primaries⟩ := arrangePrimary_spec size repFactor cells
  have start : Placed size 0 0 state.1 := by
    constructor
    · exact primaries.numPartitions
    · exact primaries.primary
    · intro pId _
      simp [primaries.noBackups pId]
    · intro pId _ i small
      rw [primaries.noBackups] at small
      exact absurd small (Nat.not_lt_zero i)
    · intro macId small
      rw [primaries.numPrimaries, if_pos small]
    · intro macId _
      simp [primaries.macNoBackups macId]
    · exact primaries.first
    · intro macId _ i small
      rw [primaries.macNoBackups] at small
      exact absurd small (Nat.not_lt_zero i)
  obtain ⟨view, run, placed, _⟩ := @exists_foldlM_range _
    (fun view round => (List.range view.numPartitions).foldlM (arrangeBackupOne (round + 1)) view)
    (fun rounds (state : View) => Placed size rounds 0 state ∧ state.repFactor = repFactor)
    repFactor state.1 ⟨start, primaries.repFactor⟩ (by
      intro rounds small before holds
      obtain ⟨next, run, kept, same⟩ := holds.1.round (by omega) (by omega)
      exact ⟨next, run, kept, same.trans holds.2⟩)
  refine ⟨view, ?_, placed⟩
  have enough : ¬ maxRepoNum * size < size * repFactor := by
    rw [Nat.mul_comm maxRepoNum, Nat.not_lt]
    apply Nat.mul_le_mul_left
    unfold maxBackupNum at few
    unfold maxRepoNum
    omega
  rw [View.new, if_pos few, if_neg enough, arranged]
  simp only [Option.bind_eq_bind, Option.bind_some, arrangeBackup, primaries.repFactor]
  exact run

/-! ## Queries of one machine -/

/-- The loops of `is_primary` and `is_backup`. -/
theorem copies_eq {size rounds : Nat} {view : View} (placed : Placed size rounds 0 view)
    (few : rounds ≤ maxBackupNum) {macId : Nat} (inside : macId < size) :
    view.copies macId = some ((macId :: previousOnes size macId rounds).map fun pId =>
      (pId, view.partitions pId)) := by
  have numBackups : (view.macs macId).numBackups = rounds := by
    rw [placed.macNumBackups macId inside]
    simp
  have numPrimaries := placed.numPrimaries macId inside
  have cell : ∀ i < rounds + 1, (view.macs macId).partitions i =
      if i = 0 then macId else turnBack size macId i := by
    intro i small
    cases i with
    | zero => exact placed.first macId inside
    | succ i => exact placed.others macId inside i (by omega)
  have each : ∀ i ∈ List.range (1 + rounds), (do
      let pId ← loadCell maxRepoNum (view.macs macId).partitions i
      let partition ← loadCell view.numPartitions view.partitions pId
      return (pId, partition)) =
      some ((view.macs macId).partitions i, view.partitions ((view.macs macId).partitions i)) := by
    intro i member
    rw [List.mem_range] at member
    have below : (view.macs macId).partitions i < view.numPartitions := by
      rw [cell i (by omega), placed.numPartitions]
      split
      · exact inside
      · exact turnBack_lt inside
    rw [loadCell_of_lt _ (by unfold maxBackupNum at few; unfold maxRepoNum; omega)]
    simp only [Option.bind_eq_bind, Option.bind_some]
    rw [loadCell_of_lt _ below]
    rfl
  rw [copies, loadCell_of_lt _ (placed.numPartitions ▸ inside)]
  simp only [Option.bind_eq_bind, Option.bind_some]
  rw [numPrimaries, numBackups]
  refine (mapM_eq_some each).trans ?_
  rw [Nat.add_comm 1 rounds, List.range_succ_eq_map, List.map_cons, List.map_cons,
    placed.first macId inside, List.map_map, previousOnes, List.map_map]
  congr 2
  apply List.map_congr_left
  intro i member
  rw [List.mem_range] at member
  simp only [Function.comp_apply]
  rw [cell (i + 1) (by omega), if_neg (by omega)]

/-- `is_primary` finds the one partition of the machine. -/
theorem isPrimary_eq {size rounds : Nat} {view : View} (placed : Placed size rounds 0 view)
    (few : rounds ≤ maxBackupNum) (less : rounds < size) {macId : Nat} (inside : macId < size) :
    view.isPrimary macId = some [macId] := by
  rw [isPrimary, copies_eq placed few inside, Option.map_some, List.filter_map, List.map_map]
  have others : (previousOnes size macId rounds).filter
      ((fun copy : Nat × PartitionInfo => decide (copy.2.primary = (macId : Int))) ∘
        fun pId => (pId, view.partitions pId)) = [] := by
    rw [List.filter_eq_nil_iff]
    intro pId member
    have different : pId ≠ macId := fun same =>
      not_mem_previousOnes inside less (same ▸ member)
    simp only [Function.comp_apply, placed.primary pId (lt_of_mem_previousOnes inside member),
      decide_eq_true_eq]
    omega
  rw [List.filter_cons, others]
  simp [placed.primary macId inside]

/-- `is_backup` finds the partitions before. -/
theorem isBackup_eq {size rounds : Nat} {view : View} (placed : Placed size rounds 0 view)
    (few : rounds ≤ maxBackupNum) (less : rounds < size) {macId : Nat} (inside : macId < size) :
    view.isBackup macId = some (previousOnes size macId rounds) := by
  rw [isBackup, copies_eq placed few inside, Option.map_some, List.filter_map, List.map_map]
  have others : (previousOnes size macId rounds).filter
      ((fun copy : Nat × PartitionInfo => decide (copy.2.primary ≠ (macId : Int))) ∘
        fun pId => (pId, view.partitions pId)) = previousOnes size macId rounds := by
    rw [List.filter_eq_self]
    intro pId member
    have different : pId ≠ macId := fun same =>
      not_mem_previousOnes inside less (same ▸ member)
    simp only [Function.comp_apply, placed.primary pId (lt_of_mem_previousOnes inside member),
      decide_eq_true_eq]
    omega
  rw [List.filter_cons, others]
  simp [placed.primary macId inside, Function.comp_def]

end View

/-! ## The rotation -/

open Rtx.Backups (SymmetricView rtxMaxBackup)

/-- A `SymmetricView` whose queries say that partition `p` is backed by the next machines. -/
structure SymmetricRotates (size rep : Nat) (view : SymmetricView) : Prop where
  isBackup : ∀ pid < size, ∀ bid,
    view.isBackup bid pid = some (decide (bid ∈ nextOnes size pid rep))
  addBackup : ∀ pid < size, ∀ macSet, ∃ after, view.addBackup pid macSet = some after ∧
    ∀ mac, mac ∈ after ↔ mac ∈ macSet ∨ ∃ next ∈ nextOnes size pid rep, ((next : Nat) : Int) = mac
  responseFor : ∀ bid < size, ∃ after, view.responseFor bid ∅ = some after ∧ after.card = rep ∧
    ∀ pid, pid ∈ after ↔ pid < size ∧ view.isBackup bid pid = some true

/-- A `View` whose records and queries say the same, inside the arrays of the records. -/
structure ViewRotates (size rep : Nat) (view : View) : Prop where
  primary : ∀ pId < size, (view.partitions pId).primary = pId
  numBackups : ∀ pId < size, (view.partitions pId).numBackups = rep
  backup : ∀ pId < size, ∀ i < rep,
    (view.partitions pId).backups i = (pId + (i + 1)) % size
  responseBack : ∀ pId < size, ∀ macId,
    view.responseBack macId pId = some (decide (macId ∈ nextOnes size pId rep))
  response : ∀ pId < size, ∀ macId,
    view.response macId pId = some (decide (macId = pId ∨ macId ∈ nextOnes size pId rep))
  addBackup : ∀ pId < size, ∀ backs, ∃ after, view.addBackup pId backs = some after ∧
    ∀ mac, mac ∈ after ↔ mac ∈ backs ∨ mac ∈ nextOnes size pId rep
  isPrimary : ∀ macId < size, view.isPrimary macId = some [macId]
  isBackup : ∀ macId < size, ∃ backed, view.isBackup macId = some backed ∧
    backed.Nodup ∧ backed.length = rep ∧
    ∀ pId, pId ∈ backed ↔ pId < size ∧ view.responseBack macId pId = some true
  few : ∀ pId < size, (view.partitions pId).numBackups ≤ maxBackupNum
  small : ∀ macId < size,
    (view.macs macId).numPrimaries + (view.macs macId).numBackups ≤ maxRepoNum

theorem symmetricRotates {size rep : Nat} (few : rep ≤ rtxMaxBackup) (less : rep < size) :
    ∃ view, SymmetricView.new rep size = some view ∧ SymmetricRotates size rep view := by
  obtain ⟨view, built, rfl, rfl, assigned⟩ := Rtx.Backups.new_spec few less
  have isBackup : ∀ pid < view.size, ∀ bid,
      view.isBackup bid pid = some (decide (bid ∈ nextOnes view.size pid view.repFactor)) :=
    fun pid inside _ => Rtx.Backups.isBackup_eq inside few (assigned pid inside)
  refine ⟨view, built, isBackup, ?_, ?_⟩
  · intro pid inside macSet
    exact Rtx.Backups.addBackup_spec inside few (assigned pid inside) macSet
  · intro bid inside
    obtain ⟨after, run, members⟩ :=
      Rtx.Backups.responseFor_spec few less inside assigned ∅
    have same : after = (previousOnes view.size bid view.repFactor).toFinset := by
      ext pid
      simp [members]
    refine ⟨after, run, ?_, ?_⟩
    · rw [same, List.toFinset_card_of_nodup (nodup_previousOnes inside less),
        length_previousOnes]
    · intro pid
      rw [same, List.mem_toFinset]
      constructor
      · intro member
        have below := lt_of_mem_previousOnes inside member
        refine ⟨below, ?_⟩
        rw [isBackup pid below]
        simpa using (mem_nextOnes_iff below inside less).mpr member
      · rintro ⟨below, found⟩
        rw [isBackup pid below] at found
        exact (mem_nextOnes_iff below inside less).mp (by simpa using found)

theorem viewRotates {size rep : Nat} (few : rep ≤ maxBackupNum) (less : rep < size)
    (cells : Nat → Nat → Nat) :
    ∃ view, View.new size rep cells = some view ∧ ViewRotates size rep view := by
  obtain ⟨view, built, placed⟩ := View.new_spec few less cells
  have numPartitions := placed.numPartitions
  have numBackups : ∀ pId < size, (view.partitions pId).numBackups = rep := by
    intro pId inside
    rw [placed.numBackups pId inside]
    simp
  have backed : ∀ pId < size, View.BackedByNext view pId := by
    intro pId inside
    refine ⟨by omega, placed.primary pId inside, by rw [numBackups pId inside]; exact few, ?_⟩
    rw [numPartitions]
    exact placed.backup pId inside
  have responseBack : ∀ pId < size, ∀ macId,
      view.responseBack macId pId = some (decide (macId ∈ nextOnes size pId rep)) := by
    intro pId inside macId
    rw [View.responseBack_eq (backed pId inside), numPartitions, numBackups pId inside]
  refine ⟨view, built, placed.primary, numBackups, ?_, responseBack, ?_, ?_, ?_, ?_, ?_, ?_⟩
  · intro pId inside i small
    exact placed.backup pId inside i (by rw [numBackups pId inside]; exact small)
  · intro pId inside macId
    rw [View.response_eq (backed pId inside), numPartitions, numBackups pId inside]
  · intro pId inside backs
    have added := View.addBackup_spec (backed pId inside) backs
    rw [numPartitions, numBackups pId inside] at added
    exact added
  · intro macId inside
    exact View.isPrimary_eq placed few less inside
  · intro macId inside
    refine ⟨_, View.isBackup_eq placed few less inside, nodup_previousOnes inside less,
      length_previousOnes, ?_⟩
    intro pId
    constructor
    · intro member
      have below := lt_of_mem_previousOnes inside member
      refine ⟨below, ?_⟩
      rw [responseBack pId below]
      simpa using (mem_nextOnes_iff below inside less).mpr member
    · rintro ⟨below, found⟩
      rw [responseBack pId below] at found
      exact (mem_nextOnes_iff below inside less).mp (by simpa using found)
  · intro pId inside
    rw [numBackups pId inside]
    exact few
  · intro macId inside
    rw [placed.numPrimaries macId inside, placed.macNumBackups macId inside]
    unfold maxBackupNum at few
    unfold maxRepoNum
    simp
    omega

/-- Both views turn: for every number of machines and every replication factor below it that
the arrays have room for, partition `p` has the primary `p` and is backed by the next
machines, all different and different from `p`; every machine backs as many partitions
as there are backups of one, and the queries of the two directions agree. -/
theorem backups_rotate {size rep : Nat} (few : rep ≤ 2) (less : rep < size)
    (cells : Nat → Nat → Nat) :
    (∃ view, SymmetricView.new rep size = some view ∧ SymmetricRotates size rep view) ∧
    (∃ view, View.new size rep cells = some view ∧ ViewRotates size rep view) ∧
    ∀ pId < size, (nextOnes size pId rep).Nodup ∧ pId ∉ nextOnes size pId rep ∧
      (nextOnes size pId rep).length = rep ∧
      ∀ mac, mac ∈ nextOnes size pId rep ↔ ∃ i, 1 ≤ i ∧ i ≤ rep ∧ mac = (pId + i) % size := by
  refine ⟨symmetricRotates few less, viewRotates few less cells, ?_⟩
  intro pId inside
  refine ⟨nodup_nextOnes inside less, not_mem_nextOnes inside less, length_nextOnes, ?_⟩
  intro mac
  rw [mem_nextOnes]
  constructor
  · rintro ⟨index, small, rfl⟩
    exact ⟨index + 1, by omega, by omega, rfl⟩
  · rintro ⟨index, positive, small, rfl⟩
    refine ⟨index - 1, by omega, ?_⟩
    rw [Nat.sub_add_cancel positive]
    rfl

/-- Four machines with two backups. -/
theorem backups_rotate_four :
    (∃ view, SymmetricView.new 2 4 = some view ∧ SymmetricRotates 4 2 view) ∧
      ∃ view, View.new 4 2 (fun _ _ => 0) = some view ∧ ViewRotates 4 2 view :=
  ⟨(backups_rotate (by decide) (by decide) fun _ _ => 0).1,
    (backups_rotate (by decide) (by decide) fun _ _ => 0).2.1⟩

end Rocc.Framework
