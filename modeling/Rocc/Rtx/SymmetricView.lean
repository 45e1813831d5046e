import Rocc.Base.Cells
import Rocc.Base.Rotation
import Rocc.Rtx.Replication

/-!
# The backups of a partition

`SymmetricView` keeps for every partition an array of backups, which its constructor fills
with the next machines.  The queries walk through these arrays.
-/

namespace Rocc.Rtx.Backups

/-- `RTX_MAX_BACKUP`. -/
def rtxMaxBackup : Nat := 2

/-- `BackupInfo`: the array `mapping`, whose cells are -1 before they are assigned. -/
structure BackupInfo where
  mapping : Nat → Int := fun _ => -1

/-- `SymmetricView`: `mapping_` with its size. -/
structure SymmetricView where
  repFactor : Nat
  size : Nat
  mapping : Nat → BackupInfo

/-- One round of the loop of `assign_one`. -/
def assignCell (idx total : Nat) (view : SymmetricView) (i : Nat) : Option SymmetricView := do
  let row ← loadCell view.size view.mapping idx
  let cells ← storeCell rtxMaxBackup row.mapping i (((idx + i + 1) % total : Nat) : Int)
  let mapping ← storeCell view.size view.mapping idx { row with mapping := cells }
  return { view with mapping := mapping }

/-- `assign_one`, with its assertion. -/
def assignOne (total : Nat) (view : SymmetricView) (idx : Nat) : Option SymmetricView :=
  if view.repFactor < total then
    (List.range view.repFactor).foldlM (assignCell idx total) view
  else none

/-- One round of the loop of `assign_backups`: `emplace_back`, then `assign_one`. -/
def assignNext (total : Nat) (view : SymmetricView) (i : Nat) : Option SymmetricView :=
  assignOne total
    { view with
      size := view.size + 1
      mapping := Function.update view.mapping view.size {} } i

/-- The constructor, with `assign_backups` and its assertion. -/
def SymmetricView.new (repFactor totalMac : Nat) : Option SymmetricView :=
  let rep := if totalMac ≤ repFactor then 0 else repFactor
  if rep ≤ rtxMaxBackup then
    (List.range totalMac).foldlM (assignNext totalMac)
      { repFactor := rep, size := 0, mapping := fun _ => {} }
  else none

namespace SymmetricView

/-- `mapping_[pid][i]`. -/
def backup (view : SymmetricView) (pid i : Nat) : Option Int := do
  let row ← loadCell view.size view.mapping pid
  loadCell rtxMaxBackup row.mapping i

/-- `is_backup`. -/
def isBackup (view : SymmetricView) (bid pid : Nat) : Option Bool :=
  (List.range view.repFactor).anyM fun i =>
    (view.backup pid i).map fun backup => decide (backup = (bid : Int))

/-- `add_backup`. -/
def addBackup (view : SymmetricView) (pid : Nat) (macSet : Finset Int) : Option (Finset Int) :=
  (List.range view.repFactor).foldlM
    (fun macSet i => (view.backup pid i).map fun backup => insert backup macSet) macSet

/-- `response_for`. -/
def responseFor (view : SymmetricView) (bid : Nat) (set : Finset Nat) : Option (Finset Nat) :=
  (List.range view.size).foldlM
    (fun set i => (view.isBackup bid i).map fun found => if found then insert i set else set) set

end SymmetricView

/-! ## What the constructor leaves -/

/-- The first `count` cells of a partition are assigned. -/
def Assigned (view : SymmetricView) (total idx count : Nat) : Prop :=
  ∀ i < count, (view.mapping idx).mapping i = ((turn total idx (i + 1) : Nat) : Int)

/-- One cell of a partition. -/
def withCell (view : SymmetricView) (idx i : Nat) (value : Int) : SymmetricView :=
  { view with
    mapping := Function.update view.mapping idx
      { mapping := Function.update (view.mapping idx).mapping i value } }

theorem assignCell_eq {total idx i : Nat} {view : SymmetricView} (inside : idx < view.size)
    (cell : i < rtxMaxBackup) :
    assignCell idx total view i = some (withCell view idx i (turn total idx (i + 1) : Nat)) := by
  unfold assignCell
  rw [loadCell_of_lt _ inside]
  simp only [Option.pure_def, Option.bind_eq_bind, Option.bind_some]
  rw [storeCell_of_lt _ _ cell]
  simp only [Option.bind_some]
  rw [storeCell_of_lt _ _ inside]
  rfl

/-- One partition is assigned, the others keep their cells. -/
theorem assignOne_spec {total idx : Nat} {view : SymmetricView}
    (inside : idx < view.size) (few : view.repFactor ≤ rtxMaxBackup)
    (less : view.repFactor < total) :
    ∃ after, assignOne total view idx = some after ∧ after.repFactor = view.repFactor ∧
      after.size = view.size ∧ Assigned after total idx view.repFactor ∧
      ∀ other, other ≠ idx → after.mapping other = view.mapping other := by
  rw [assignOne, if_pos less]
  refine exists_foldlM_range
    (fun count (state : SymmetricView) => state.repFactor = view.repFactor ∧
      state.size = view.size ∧ Assigned state total idx count ∧
      ∀ other, other ≠ idx → state.mapping other = view.mapping other)
    ⟨rfl, rfl, fun i small => absurd small (Nat.not_lt_zero i), fun _ _ => rfl⟩ ?_
  intro i small before holds
  obtain ⟨rep, size, assigned, others⟩ := holds
  refine ⟨_, assignCell_eq (by omega) (by omega), rep, size, ?_, ?_⟩
  · intro j earlier
    by_cases same : j = i
    · subst same
      simp [withCell]
    · have old := assigned j (by omega)
      simp [withCell, same, old]
  · intro other different
    simp [withCell, different, others other different]

/-- The constructor assigns the backups of every partition. -/
theorem new_spec {rep total : Nat} (few : rep ≤ rtxMaxBackup) (less : rep < total) :
    ∃ view, SymmetricView.new rep total = some view ∧ view.repFactor = rep ∧
      view.size = total ∧ ∀ pid < total, Assigned view total pid rep := by
  unfold SymmetricView.new
  simp only [if_neg (Nat.not_le_of_lt less), if_pos few]
  refine exists_foldlM_range
    (fun count (state : SymmetricView) => state.repFactor = rep ∧ state.size = count ∧
      ∀ pid < count, Assigned state total pid rep)
    ⟨rfl, rfl, fun pid small => absurd small (Nat.not_lt_zero pid)⟩ ?_
  intro i small before holds
  obtain ⟨same, size, assigned⟩ := holds
  obtain ⟨after, run, kept, sized, cells, others⟩ :=
    @assignOne_spec total i
      { before with
        size := before.size + 1
        mapping := Function.update before.mapping before.size {} }
      (by simp only; omega) (by simp only; omega) (by simp only; omega)
  refine ⟨after, run, kept.trans same, by rw [sized, size], ?_⟩
  intro pid earlier
  by_cases last : pid = i
  · subst last
    simp only [same] at cells
    exact cells
  · intro j inside
    rw [others pid last]
    simp only [size]
    rw [Function.update_of_ne last]
    exact assigned pid (by omega) j inside

/-! ## Queries -/

section

variable {view : SymmetricView} {total pid bid : Nat}

theorem backup_eq (inside : pid < view.size) (few : view.repFactor ≤ rtxMaxBackup)
    (assigned : Assigned view total pid view.repFactor) {i : Nat} (small : i < view.repFactor) :
    view.backup pid i = some ((turn total pid (i + 1) : Nat) : Int) := by
  rw [SymmetricView.backup, loadCell_of_lt _ inside]
  simp only [Option.bind_eq_bind, Option.bind_some]
  rw [loadCell_of_lt _ (by omega), assigned i small]

/-- `is_backup` finds the next machines. -/
theorem isBackup_eq (inside : pid < view.size) (few : view.repFactor ≤ rtxMaxBackup)
    (assigned : Assigned view total pid view.repFactor) :
    view.isBackup bid pid = some (decide (bid ∈ nextOnes total pid view.repFactor)) := by
  have each : ∀ i ∈ List.range view.repFactor,
      ((view.backup pid i).map fun backup => decide (backup = (bid : Int))) =
        some (decide (turn total pid (i + 1) = bid)) := by
    intro i member
    rw [backup_eq inside few assigned (List.mem_range.mp member), Option.map_some]
    congr 1
    rw [decide_eq_decide]
    omega
  rw [SymmetricView.isBackup, anyM_eq_some each]
  congr 1
  rw [Bool.eq_iff_iff]
  simp [mem_nextOnes]

/-- `add_backup` adds the next machines. -/
theorem addBackup_spec (inside : pid < view.size) (few : view.repFactor ≤ rtxMaxBackup)
    (assigned : Assigned view total pid view.repFactor) (macSet : Finset Int) :
    ∃ after, view.addBackup pid macSet = some after ∧ ∀ mac,
      mac ∈ after ↔ mac ∈ macSet ∨
        ∃ next ∈ nextOnes total pid view.repFactor, ((next : Nat) : Int) = mac := by
  obtain ⟨after, run, members⟩ := @foldlM_insert_eq_some _ _ _ (view.backup pid)
    (fun i => ((turn total pid (i + 1) : Nat) : Int)) (List.range view.repFactor) macSet
    (fun i member => backup_eq inside few assigned (List.mem_range.mp member))
  refine ⟨after, run, ?_⟩
  intro mac
  rw [members]
  simp [nextOnes]

/-- `response_for` adds the partitions before. -/
theorem responseFor_spec (few : view.repFactor ≤ rtxMaxBackup)
    (less : view.repFactor < view.size) (below : bid < view.size)
    (assigned : ∀ pid < view.size, Assigned view view.size pid view.repFactor)
    (set : Finset Nat) :
    ∃ after, view.responseFor bid set = some after ∧ ∀ pid,
      pid ∈ after ↔ pid ∈ set ∨ pid ∈ previousOnes view.size bid view.repFactor := by
  obtain ⟨after, run, members⟩ := @exists_foldlM_range _
    (fun set i => (view.isBackup bid i).map fun found => if found then insert i set else set)
    (fun count (state : Finset Nat) => ∀ pid, pid ∈ state ↔
      pid ∈ set ∨ (pid < count ∧ pid ∈ previousOnes view.size bid view.repFactor))
    view.size set (by simp) (by
      intro i small before members
      rw [isBackup_eq small few (assigned i small), Option.map_some]
      refine ⟨_, rfl, ?_⟩
      have inverse := mem_nextOnes_iff small below less
      intro pid
      by_cases same : pid = i
      · subst same
        by_cases found : bid ∈ nextOnes view.size pid view.repFactor
        · simp [found, inverse.mp found]
        · simp [found, members, mt inverse.mpr found]
      · have order : pid < i + 1 ↔ pid < i := by omega
        by_cases found : bid ∈ nextOnes view.size i view.repFactor
        · simp [found, members, same, order]
        · simp [found, members, order])
  refine ⟨after, run, ?_⟩
  intro pid
  rw [members]
  constructor
  · rintro (old | ⟨_, new⟩)
    · exact .inl old
    · exact .inr new
  · rintro (old | new)
    · exact .inl old
    · exact .inr ⟨lt_of_mem_previousOnes below new, new⟩

end

/-! ## The view of the replication -/

/-- The arrays that the constructor fills answer as the view of the replication does. -/
theorem isBackup_eq_replication {rep total bid pid : Nat} {view : SymmetricView}
    (few : rep ≤ rtxMaxBackup) (less : rep < total) (inside : pid < total)
    (built : SymmetricView.new rep total = some view) :
    view.isBackup bid pid =
      some (Replication.View.isBackup { repFactor := rep, totalMac := total } bid pid) := by
  obtain ⟨view', built', rfl, rfl, assigned⟩ := new_spec few less
  obtain rfl : view' = view := Option.some.inj (built'.symm.trans built)
  rw [isBackup_eq inside few (assigned pid inside), Replication.View.isBackup]
  congr 1
  rw [decide_eq_decide, mem_nextOnes, Replication.View.backups, Replication.View.rep,
    if_neg (Nat.not_le_of_lt less)]
  simp [turn, Nat.add_assoc]

end Rocc.Rtx.Backups
