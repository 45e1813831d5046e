import Mathlib.Tactic.Common
import Rocc.Rtx.Record

/-!
# Start times

`begin` of every protocol computes the start time of a transaction from a clock or a
counter, shifted to the left, and from the node, the worker and the coroutine it
runs on.  The strides of the three parts are constants; the number of nodes, workers
and coroutines comes from the command line, which is only checked for at least one
coroutine.
-/

namespace Rocc.Rtx.StartTime

/-- The command line of the servers: `-p`, `-t` and `-c`. -/
structure Cluster where
  nodes : Nat
  workers : Nat
  coroutines : Nat
  nodes_pos : 0 < nodes
  workers_pos : 0 < workers
  coroutines_pos : 0 < coroutines

/-- Where a transaction runs.  Coroutine 0 of a worker is its scheduler. -/
@[ext] structure Identity (cluster : Cluster) where
  node : Nat
  worker : Nat
  cor : Nat
  node_lt : node < cluster.nodes
  worker_lt : worker < cluster.workers
  cor_pos : 0 < cor
  cor_le : cor ≤ cluster.coroutines

/-- The protocols that draw start times. -/
inductive Protocol where
  | nowait
  | waitdie
  | mvcc
  | sundial
  deriving DecidableEq, Repr

/-- The constants of `begin`. -/
structure Encoding where
  shift : Nat
  node : Nat
  worker : Nat
  deriving DecidableEq, Repr

/-- The constants in `NOWAIT::begin`, `WAITDIE::begin`, `MVCC::begin` and
`SUNDIAL::begin`. -/
def Protocol.encoding : Protocol → Encoding
  | .nowait => { shift := 10, node := 80, worker := 10 }
  | .waitdie => { shift := 10, node := 80, worker := 10 }
  | .mvcc => { shift := 10, node := 80, worker := 10 }
  | .sundial => { shift := 11, node := 200, worker := 20 }

variable {cluster : Cluster}

/-- The part of a start time that comes from the identity. -/
def Encoding.part (encoding : Encoding) (identity : Identity cluster) : Nat :=
  identity.node * encoding.node + identity.worker * encoding.worker + identity.cor + 1

/-- `begin`: `time` is `get_now()`, in `MVCC` the counter `++cnt_timer`. -/
def Encoding.begin (encoding : Encoding) (identity : Identity cluster) (time : Nat) : Nat :=
  (time * 2 ^ encoding.shift + encoding.part identity) % wordBound

/-- Identities have different parts, these stay below the time, and no two identities
ever draw the same start time. -/
structure Encoding.Unique (encoding : Encoding) (cluster : Cluster) : Prop where
  injective : ∀ left right : Identity cluster,
    encoding.part left = encoding.part right → left = right
  fits : ∀ identity : Identity cluster, encoding.part identity < 2 ^ encoding.shift
  distinct : ∀ (left right : Identity cluster) (time otherTime : Nat), left ≠ right →
    encoding.begin left time ≠ encoding.begin right otherTime

/-- A worker has a slot for each of its coroutines, a node one for each of its workers,
and the last slot lies below the time. -/
structure Encoding.Covers (encoding : Encoding) (cluster : Cluster) : Prop where
  coroutines : cluster.workers = 1 ∨ cluster.coroutines ≤ encoding.worker
  workers : cluster.nodes = 1 ∨ (cluster.workers * encoding.worker ≤ encoding.node ∧
    cluster.coroutines ≤ encoding.node)
  last : (cluster.nodes - 1) * encoding.node + (cluster.workers - 1) * encoding.worker +
    cluster.coroutines + 1 < 2 ^ encoding.shift

/-- The last coroutine of the last worker of the last node. -/
def Identity.last (cluster : Cluster) : Identity cluster where
  node := cluster.nodes - 1
  worker := cluster.workers - 1
  cor := cluster.coroutines
  node_lt := Nat.sub_one_lt_of_lt cluster.nodes_pos
  worker_lt := Nat.sub_one_lt_of_lt cluster.workers_pos
  cor_pos := cluster.coroutines_pos
  cor_le := le_rfl

/-- The last identity has the largest part. -/
theorem Encoding.part_le_last (encoding : Encoding) (identity : Identity cluster) :
    encoding.part identity ≤ encoding.part (Identity.last cluster) := by
  have node := Nat.le_sub_one_of_lt identity.node_lt
  have worker := Nat.le_sub_one_of_lt identity.worker_lt
  have nodes := Nat.mul_le_mul_right encoding.node node
  have workers := Nat.mul_le_mul_right encoding.worker worker
  have cor := identity.cor_le
  simp only [part, Identity.last]
  omega

/-! ## Collisions -/

/-- With too many coroutines the first one of worker 1 collides with one of worker 0. -/
theorem Encoding.Unique.coroutines {encoding : Encoding} (unique : encoding.Unique cluster) :
    cluster.workers = 1 ∨ cluster.coroutines ≤ encoding.worker := by
  by_contra! few
  have workersPos := cluster.workers_pos
  let high : Identity cluster := ⟨0, 0, encoding.worker + 1, cluster.nodes_pos, workersPos,
    Nat.succ_pos _, by omega⟩
  let low : Identity cluster := ⟨0, 1, 1, cluster.nodes_pos, by omega, Nat.one_pos,
    cluster.coroutines_pos⟩
  have same : high = low := unique.injective high low (by simp [part, high, low])
  have worker := congrArg Identity.worker same
  simp [high, low] at worker

/-- With too many workers or coroutines the first coroutine of node 1 collides with one of
node 0. -/
theorem Protocol.workers_of_unique (protocol : Protocol)
    (unique : protocol.encoding.Unique cluster) :
    cluster.nodes = 1 ∨ (cluster.workers * protocol.encoding.worker ≤ protocol.encoding.node ∧
      cluster.coroutines ≤ protocol.encoding.node) := by
  by_contra! few
  have nodesPos := cluster.nodes_pos
  let first : Identity cluster := ⟨1, 0, 1, by omega, cluster.workers_pos, Nat.one_pos,
    cluster.coroutines_pos⟩
  have alone : ∀ identity : Identity cluster, identity.node = 0 →
      protocol.encoding.part identity ≠ protocol.encoding.part first := by
    intro identity node same
    have identityFirst := unique.injective identity first same
    rw [identityFirst] at node
    exact absurd node (by simp [first])
  have workers : cluster.workers * protocol.encoding.worker ≤ protocol.encoding.node := by
    by_contra! tooMany
    let high : Identity cluster :=
      ⟨0, protocol.encoding.node / protocol.encoding.worker, 1, nodesPos,
        by cases protocol <;> simp only [encoding] at tooMany ⊢ <;> omega, Nat.one_pos,
        cluster.coroutines_pos⟩
    exact alone high rfl (by cases protocol <;> simp [Encoding.part, encoding, high, first])
  have coroutines := few.2 workers
  let high : Identity cluster := ⟨0, 0, protocol.encoding.node + 1, nodesPos,
    cluster.workers_pos, Nat.succ_pos _, coroutines⟩
  exact alone high rfl (by simp [Encoding.part, high, first])

/-! ## Unique start times -/

theorem Protocol.part_injective (protocol : Protocol)
    (covers : protocol.encoding.Covers cluster) (left right : Identity cluster)
    (same : protocol.encoding.part left = protocol.encoding.part right) : left = right := by
  obtain ⟨node, worker, cor, nodeLt, workerLt, corPos, corLe⟩ := left
  obtain ⟨otherNode, otherWorker, otherCor, otherNodeLt, otherWorkerLt, otherCorPos,
    otherCorLe⟩ := right
  have coroutines := covers.coroutines
  have workers := covers.workers
  cases protocol <;> simp only [encoding, Encoding.part] at coroutines workers same <;>
    rw [Identity.mk.injEq] <;> omega

/-- The part of an identity is what a start time leaves when divided by the unit of the
time. -/
theorem Protocol.begin_mod (protocol : Protocol) (identity : Identity cluster) (time : Nat)
    (fits : protocol.encoding.part identity < 2 ^ protocol.encoding.shift) :
    protocol.encoding.begin identity time % 2 ^ protocol.encoding.shift =
      protocol.encoding.part identity := by
  have divides : 2 ^ protocol.encoding.shift ∣ wordBound :=
    Nat.pow_dvd_pow 2 (by cases protocol <;> simp [encoding])
  rw [Encoding.begin, Nat.mod_mod_of_dvd _ divides, Nat.mul_add_mod_self_right,
    Nat.mod_eq_of_lt fits]

/-- Start times are unique exactly when every worker has at most 10 (`SUNDIAL`: 20)
coroutines, or is alone, every node at most 8 (`SUNDIAL`: 10) workers, or is alone, and
the largest identity does not reach the time. -/
theorem Protocol.unique_iff (protocol : Protocol) (cluster : Cluster) :
    protocol.encoding.Unique cluster ↔ protocol.encoding.Covers cluster := by
  constructor
  · intro unique
    exact ⟨unique.coroutines, protocol.workers_of_unique unique,
      unique.fits (Identity.last cluster)⟩
  · intro covers
    have fits : ∀ identity : Identity cluster,
        protocol.encoding.part identity < 2 ^ protocol.encoding.shift := fun identity =>
      (protocol.encoding.part_le_last identity).trans_lt covers.last
    refine ⟨protocol.part_injective covers, fits, ?_⟩
    intro left right time otherTime different same
    apply different
    apply protocol.part_injective covers
    rw [← protocol.begin_mod left time (fits left), same,
      protocol.begin_mod right otherTime (fits right)]

/-- Four nodes with ten workers and ten coroutines each. -/
def fourNodes : Cluster where
  nodes := 4
  workers := 10
  coroutines := 10
  nodes_pos := by decide
  workers_pos := by decide
  coroutines_pos := by decide

/-- The first coroutine of worker 8 on node 0 and the one of worker 0 on node 1 draw the same
start time whenever they read the same clock. -/
theorem not_unique : ¬ ∀ (protocol : Protocol) (cluster : Cluster),
    protocol.encoding.Unique cluster := by
  intro unique
  let left : Identity fourNodes := ⟨0, 8, 1, by decide, by decide, by decide, by decide⟩
  let right : Identity fourNodes := ⟨1, 0, 1, by decide, by decide, by decide, by decide⟩
  refine (unique .nowait fourNodes).distinct left right 5 5 ?_ (by decide)
  intro same
  exact absurd (congrArg Identity.node same) (by decide)

end Rocc.Rtx.StartTime
