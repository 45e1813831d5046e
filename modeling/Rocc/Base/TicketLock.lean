import Mathlib.Data.Fintype.Card
import Mathlib.Data.Finset.Card
import Mathlib.Algebra.Order.Ring.Nat

/-!
# A shared and exclusive ticket lock

Every request takes a ticket: the numbers of exclusive and of shared tickets issued
before it.  A lock counts the tickets of both kinds it has issued and served.  A
shared request enters when every exclusive ticket before its own has been served, an
exclusive request when in addition every shared ticket before its own has been.
`Served` is the invariant of the counters and the tickets that are out; holders exclude
each other in every state that has it.  A request that gives its ticket up without
being served leaves a ticket that nobody holds; `Served` counts these.
-/

namespace Rocc

universe u v

/-! ## Counting clients -/

section Tally

variable {Client : Type u} {Status : Type v} [Fintype Client]

/-- Number of clients whose status has a property. -/
def tally (property : Status → Prop) [DecidablePred property] (status : Client → Status) :
    Nat :=
  (Finset.univ.filter fun client => property (status client)).card

variable {property : Status → Prop} [DecidablePred property] {status : Client → Status}

theorem tally_le_card : tally property status ≤ Fintype.card Client :=
  Finset.card_le_univ _

/-- Nobody is counted when nobody has the property. -/
theorem tally_eq_zero : tally property status = 0 ↔ ∀ client, ¬ property (status client) := by
  simp [tally, Finset.filter_eq_empty_iff]

theorem tally_pos (client : Client) (holds : property (status client)) :
    0 < tally property status := by
  rw [Nat.pos_iff_ne_zero]
  intro none
  exact tally_eq_zero.mp none client holds

/-- A client that changes its status leaves one side of the count and enters the other. -/
theorem tally_update [DecidableEq Client] (property : Status → Prop) [DecidablePred property]
    (status : Client → Status) (client : Client) (next : Status) :
    tally property (Function.update status client next) +
        (if property (status client) then 1 else 0) =
      tally property status + (if property next then 1 else 0) := by
  have split : ∀ current : Client → Status,
      tally property current = (if property (current client) then 1 else 0) +
        ((Finset.univ.erase client).filter fun other => property (current other)).card := by
    intro current
    rw [tally, ← Finset.insert_erase (Finset.mem_univ client), Finset.filter_insert]
    split
    · rw [Finset.card_insert_of_notMem (by simp)]
      simp [Nat.add_comm]
    · simp
  have others : ((Finset.univ.erase client).filter fun other =>
      property (Function.update status client next other)) =
      (Finset.univ.erase client).filter fun other => property (status other) := by
    apply Finset.filter_congr
    intro other member
    rw [Function.update_of_ne (Finset.ne_of_mem_erase member)]
  rw [split (Function.update status client next), split status, others, Function.update_self]
  omega

end Tally

/-! ## Tickets -/

/-- How a request wants the lock. -/
inductive LockMode where
  | shared
  | exclusive
  deriving DecidableEq, Repr

/-- A ticket that is out: the exclusive and shared tickets issued before it, and whether
its holder has entered. -/
structure Ticket where
  mode : LockMode
  exclusives : Nat
  shareds : Nat
  entered : Bool
  deriving DecidableEq, Repr

/-- Tickets served, issued and given up, of each mode. -/
structure TicketCounts where
  served : LockMode → Nat
  issued : LockMode → Nat
  lost : LockMode → Nat

namespace TicketCounts

/-- The request may enter. -/
def Admits (counts : TicketCounts) (ticket : Ticket) : Prop :=
  ticket.exclusives = counts.served .exclusive ∧
    (ticket.mode = .exclusive → ticket.shareds = counts.served .shared)

/-- The next ticket of a mode. -/
def next (counts : TicketCounts) (mode : LockMode) : Ticket where
  mode := mode
  exclusives := counts.issued .exclusive
  shareds := counts.issued .shared
  entered := false

/-- One more ticket is out. -/
def issue (counts : TicketCounts) (mode : LockMode) : TicketCounts :=
  { counts with issued := Function.update counts.issued mode (counts.issued mode + 1) }

/-- One more ticket is served. -/
def serve (counts : TicketCounts) (mode : LockMode) : TicketCounts :=
  { counts with served := Function.update counts.served mode (counts.served mode + 1) }

/-- One more ticket is given up. -/
def lose (counts : TicketCounts) (mode : LockMode) : TicketCounts :=
  { counts with lost := Function.update counts.lost mode (counts.lost mode + 1) }

/-- The ticket has been issued. -/
structure Issued (counts : TicketCounts) (ticket : Ticket) : Prop where
  exclusives_le : ticket.exclusives ≤ counts.issued .exclusive
  shareds_le : ticket.shareds ≤ counts.issued .shared
  exclusives_lt : ticket.mode = .exclusive → ticket.exclusives < counts.issued .exclusive
  shareds_lt : ticket.mode = .shared → ticket.shareds < counts.issued .shared

theorem issued_le_issue (counts : TicketCounts) (mode other : LockMode) :
    counts.issued other ≤ (counts.issue mode).issued other := by
  by_cases same : other = mode
  · subst same
    simp [issue]
  · simp [issue, Function.update_of_ne same]

theorem Issued.issue {counts : TicketCounts} {ticket : Ticket} (issued : counts.Issued ticket)
    (mode : LockMode) : (counts.issue mode).Issued ticket where
  exclusives_le := issued.exclusives_le.trans (counts.issued_le_issue mode _)
  shareds_le := issued.shareds_le.trans (counts.issued_le_issue mode _)
  exclusives_lt exclusive :=
    (issued.exclusives_lt exclusive).trans_le (counts.issued_le_issue mode _)
  shareds_lt shared := (issued.shareds_lt shared).trans_le (counts.issued_le_issue mode _)

theorem issued_next (counts : TicketCounts) (mode : LockMode) :
    (counts.issue mode).Issued (counts.next mode) where
  exclusives_le := counts.issued_le_issue mode _
  shareds_le := counts.issued_le_issue mode _
  exclusives_lt exclusive := by
    have same : mode = .exclusive := exclusive
    simp [same, issue, next]
  shareds_lt shared := by
    have same : mode = .shared := shared
    simp [same, issue, next]

end TicketCounts

variable {Client : Type u} [Fintype Client] [DecidableEq Client]

/-- The client has a ticket of the mode. -/
def Outstanding (mode : LockMode) : Option Ticket → Prop
  | none => False
  | some own => own.mode = mode

/-- The client has one of the first `bound` shared tickets. -/
def SharedBefore (bound : Nat) : Option Ticket → Prop
  | none => False
  | some own => own.mode = .shared ∧ own.shareds < bound

instance (mode : LockMode) : DecidablePred (Outstanding mode)
  | none => inferInstanceAs (Decidable False)
  | some own => inferInstanceAs (Decidable (own.mode = mode))

instance (bound : Nat) : DecidablePred (SharedBefore bound)
  | none => inferInstanceAs (Decidable False)
  | some own => inferInstanceAs (Decidable (own.mode = .shared ∧ own.shareds < bound))

@[simp] theorem outstanding_none (mode : LockMode) : ¬ Outstanding mode none := id

@[simp] theorem outstanding_some {mode : LockMode} {own : Ticket} :
    Outstanding mode (some own) ↔ own.mode = mode := .rfl

@[simp] theorem sharedBefore_none (bound : Nat) : ¬ SharedBefore bound none := id

@[simp] theorem sharedBefore_some {bound : Nat} {own : Ticket} :
    SharedBefore bound (some own) ↔ own.mode = .shared ∧ own.shareds < bound := .rfl

/-- The invariant of a ticket lock.  Exclusive tickets are served in order, so no ticket
that is out lies below the served ones; every shared ticket before an exclusive one that
is out is served, out or lost; and a shared ticket issued after an exclusive one is
behind it. -/
structure Served (counts : TicketCounts) (ticket : Client → Option Ticket) : Prop where
  account : ∀ mode, counts.served mode + tally (Outstanding mode) ticket + counts.lost mode =
    counts.issued mode
  issued : ∀ client own, ticket client = some own → counts.Issued own
  ahead : ∀ client own, ticket client = some own → counts.served .exclusive ≤ own.exclusives
  distinct : ∀ left first right second, ticket left = some first → ticket right = some second →
    first.mode = .exclusive → second.mode = .exclusive →
    first.exclusives = second.exclusives → left = right
  behind : ∀ left first right second, ticket left = some first → ticket right = some second →
    first.mode = .exclusive → second.mode = .shared →
    first.shareds ≤ second.shareds → first.exclusives < second.exclusives
  drained : ∀ client own, ticket client = some own → own.mode = .exclusive →
    counts.served .shared + tally (SharedBefore own.shareds) ticket ≤ own.shareds
  entered : ∀ client own, ticket client = some own → own.entered = true → counts.Admits own

/-- Who has which ticket after one client changed its own. -/
theorem update_eq_some {ticket : Client → Option Ticket} {client other : Client}
    {next : Option Ticket} {own : Ticket} :
    Function.update ticket client next other = some own ↔
      (other = client ∧ next = some own) ∨ (other ≠ client ∧ ticket other = some own) := by
  rcases eq_or_ne other client with rfl | different
  · simp
  · simp [different]

namespace Served

variable {counts : TicketCounts} {ticket : Client → Option Ticket}
variable {client : Client} {own : Ticket}

/-- Nobody has asked yet. -/
theorem initial : Served
    { served := fun _ => 0, issued := fun _ => 0, lost := fun _ => 0 }
    (fun _ : Client => none) where
  account mode := by
    have nobody : tally (Outstanding mode) (fun _ : Client => none) = 0 :=
      tally_eq_zero.mpr fun _ => outstanding_none mode
    simp [nobody]
  issued client own out := by cases out
  ahead client own out := by cases out
  distinct left first right second out := by cases out
  behind left first right second out := by cases out
  drained client own out := by cases out
  entered client own out := by cases out

section Invariant

variable (inv : Served counts ticket)
include inv

/-- No shared ticket before an exclusive one is out once all of them are served. -/
theorem shareds_le_of_admits (out : ticket client = some own)
    (exclusive : own.mode = .exclusive) (admitted : counts.Admits own) {other : Client}
    {second : Ticket} (otherOut : ticket other = some second)
    (shared : second.mode = .shared) : own.shareds ≤ second.shareds := by
  by_contra before
  have counted : 0 < tally (SharedBefore own.shareds) ticket := by
    apply tally_pos other
    rw [otherOut]
    exact ⟨shared, not_le.mp before⟩
  have bound := inv.drained client own out exclusive
  have all := admitted.2 exclusive
  omega

/-- An exclusive request is admitted before everybody else. -/
theorem first_of_admits (out : ticket client = some own) (exclusive : own.mode = .exclusive)
    (admitted : counts.Admits own) {other : Client} {second : Ticket}
    (otherOut : ticket other = some second) (different : other ≠ client) :
    counts.served .exclusive < second.exclusives := by
  rw [← admitted.1]
  cases mode : second.mode with
  | shared =>
      exact inv.behind client own other second out otherOut exclusive mode
        (inv.shareds_le_of_admits out exclusive admitted otherOut mode)
  | exclusive =>
      have bound := inv.ahead other second otherOut
      rw [← admitted.1] at bound
      refine lt_of_le_of_ne bound fun same => different ?_
      exact inv.distinct other second client own otherOut out mode exclusive same.symm

/-- Mutual exclusion: nobody else is inside together with an exclusive holder. -/
theorem exclusion (out : ticket client = some own) (exclusive : own.mode = .exclusive)
    (inside : own.entered = true) {other : Client} {second : Ticket}
    (otherOut : ticket other = some second) (otherInside : second.entered = true) :
    other = client := by
  by_contra different
  have later := inv.first_of_admits out exclusive (inv.entered client own out inside)
    otherOut different
  have admitted := inv.entered other second otherOut otherInside
  exact absurd admitted.1 (ne_of_gt later)

/-- When every ticket has been served none is out and none is lost. -/
theorem settled (all : ∀ mode, counts.served mode = counts.issued mode) :
    (∀ client, ticket client = none) ∧ ∀ mode, counts.lost mode = 0 := by
  have empty : ∀ mode, tally (Outstanding mode) ticket = 0 ∧ counts.lost mode = 0 := by
    intro mode
    have account := inv.account mode
    have same := all mode
    omega
  constructor
  · intro client
    cases out : ticket client with
    | none => rfl
    | some own =>
        have nobody := tally_eq_zero.mp (empty own.mode).1 client
        rw [out] at nobody
        exact absurd rfl nobody
  · exact fun mode => (empty mode).2

theorem served_le_issued (mode : LockMode) : counts.served mode ≤ counts.issued mode := by
  have account := inv.account mode
  omega

theorem sharedBefore_le (bound : Nat) :
    counts.served .shared + tally (SharedBefore bound) ticket ≤ counts.issued .shared := by
  have subset : tally (SharedBefore bound) ticket ≤ tally (Outstanding .shared) ticket := by
    apply Finset.card_le_card
    apply Finset.monotone_filter_right
    intro other _
    cases ticket other with
    | none => exact id
    | some own => exact fun before => before.1
  have account := inv.account .shared
  omega

/-! ## Steps -/

/-- A request takes the next ticket of its mode. -/
theorem take (free : ticket client = none) (mode : LockMode) :
    Served (counts.issue mode) (Function.update ticket client (some (counts.next mode))) := by
  constructor
  · intro other
    have moved := tally_update (Outstanding other) ticket client
      (some (counts.next mode))
    have account := inv.account other
    rw [free] at moved
    by_cases same : other = mode
    · subst same
      simp only [outstanding_none, outstanding_some, TicketCounts.next, if_true, if_false]
        at moved
      simp only [TicketCounts.issue, Function.update_self, TicketCounts.next]
      omega
    · have different : ¬ mode = other := fun equal => same equal.symm
      simp only [outstanding_none, outstanding_some, TicketCounts.next, different, if_false]
        at moved
      simp only [TicketCounts.issue, Function.update_of_ne same, TicketCounts.next]
      omega
  · intro other own out
    rcases update_eq_some.mp out with ⟨-, new⟩ | ⟨-, old⟩
    · cases new
      exact counts.issued_next mode
    · exact (inv.issued other own old).issue mode
  · intro other own out
    rcases update_eq_some.mp out with ⟨-, new⟩ | ⟨-, old⟩
    · cases new
      exact inv.served_le_issued .exclusive
    · exact inv.ahead other own old
  · intro left first right second leftOut rightOut firstMode secondMode same
    rcases update_eq_some.mp leftOut with ⟨leftSelf, new⟩ | ⟨-, leftOld⟩
    · rcases update_eq_some.mp rightOut with ⟨rightSelf, -⟩ | ⟨-, rightOld⟩
      · exact leftSelf.trans rightSelf.symm
      · cases new
        have bound := (inv.issued right second rightOld).exclusives_lt secondMode
        exact absurd same (ne_of_gt bound)
    · rcases update_eq_some.mp rightOut with ⟨-, new⟩ | ⟨-, rightOld⟩
      · cases new
        have bound := (inv.issued left first leftOld).exclusives_lt firstMode
        exact absurd same (ne_of_lt bound)
      · exact inv.distinct left first right second leftOld rightOld firstMode secondMode same
  · intro left first right second leftOut rightOut firstMode secondMode earlier
    rcases update_eq_some.mp leftOut with ⟨-, new⟩ | ⟨-, leftOld⟩
    · cases new
      rcases update_eq_some.mp rightOut with ⟨-, new⟩ | ⟨-, rightOld⟩
      · cases new
        cases firstMode.symm.trans secondMode
      · have bound := (inv.issued right second rightOld).shareds_lt secondMode
        exact absurd earlier (not_le.mpr bound)
    · rcases update_eq_some.mp rightOut with ⟨-, new⟩ | ⟨-, rightOld⟩
      · cases new
        exact (inv.issued left first leftOld).exclusives_lt firstMode
      · exact inv.behind left first right second leftOld rightOld firstMode secondMode earlier
  · intro other own out exclusive
    have moved := tally_update (SharedBefore own.shareds) ticket client
      (some (counts.next mode))
    rw [free] at moved
    have bound : own.shareds ≤ counts.issued .shared ∧
        counts.served .shared + tally (SharedBefore own.shareds) ticket ≤ own.shareds := by
      rcases update_eq_some.mp out with ⟨-, new⟩ | ⟨-, old⟩
      · cases new
        exact ⟨le_rfl, inv.sharedBefore_le _⟩
      · exact ⟨(inv.issued other own old).shareds_le, inv.drained other own old exclusive⟩
    have late : ¬ (mode = .shared ∧ counts.issued .shared < own.shareds) := by
      intro early
      omega
    simp only [sharedBefore_none, sharedBefore_some, TicketCounts.next, late, if_false]
      at moved
    simp only [TicketCounts.issue, TicketCounts.next]
    omega
  · intro other own out inside
    rcases update_eq_some.mp out with ⟨-, new⟩ | ⟨-, old⟩
    · cases new
      cases inside
    · exact inv.entered other own old inside

/-- A request whose turn it is enters. -/
theorem enter (out : ticket client = some own) (admitted : counts.Admits own) :
    Served counts (Function.update ticket client (some { own with entered := true })) := by
  -- Only the flag changes, so every old fact about the ticket is one about the new one.
  have same : ∀ other second,
      Function.update ticket client (some { own with entered := true }) other = some second →
      ∃ old, ticket other = some old ∧ old.mode = second.mode ∧
        old.exclusives = second.exclusives ∧ old.shareds = second.shareds := by
    intro other second secondOut
    rcases update_eq_some.mp secondOut with ⟨rfl, new⟩ | ⟨-, old⟩
    · cases new
      exact ⟨own, out, rfl, rfl, rfl⟩
    · exact ⟨second, old, rfl, rfl, rfl⟩
  have counted : ∀ (property : Option Ticket → Prop) [DecidablePred property],
      (property (some { own with entered := true }) ↔ property (some own)) →
      tally property (Function.update ticket client (some { own with entered := true })) =
        tally property ticket := by
    intro property _ unchanged
    have moved := tally_update property ticket client (some { own with entered := true })
    rw [out] at moved
    simp only [unchanged] at moved
    omega
  constructor
  · intro mode
    rw [counted (Outstanding mode) Iff.rfl]
    exact inv.account mode
  · intro other second secondOut
    obtain ⟨old, oldOut, mode, exclusives, shareds⟩ := same other second secondOut
    have issued := inv.issued other old oldOut
    constructor
    · exact exclusives ▸ issued.exclusives_le
    · exact shareds ▸ issued.shareds_le
    · exact fun exclusive => exclusives ▸ issued.exclusives_lt (mode.trans exclusive)
    · exact fun shared => shareds ▸ issued.shareds_lt (mode.trans shared)
  · intro other second secondOut
    obtain ⟨old, oldOut, -, exclusives, -⟩ := same other second secondOut
    exact exclusives ▸ inv.ahead other old oldOut
  · intro left first right second leftOut rightOut firstMode secondMode equal
    obtain ⟨leftOld, leftOldOut, leftMode, leftExclusives, -⟩ := same left first leftOut
    obtain ⟨rightOld, rightOldOut, rightMode, rightExclusives, -⟩ := same right second rightOut
    exact inv.distinct left leftOld right rightOld leftOldOut rightOldOut
      (leftMode.trans firstMode) (rightMode.trans secondMode)
      (leftExclusives.trans (equal.trans rightExclusives.symm))
  · intro left first right second leftOut rightOut firstMode secondMode earlier
    obtain ⟨leftOld, leftOldOut, leftMode, leftExclusives, leftShareds⟩ := same left first leftOut
    obtain ⟨rightOld, rightOldOut, rightMode, rightExclusives, rightShareds⟩ :=
      same right second rightOut
    rw [← leftExclusives, ← rightExclusives]
    exact inv.behind left leftOld right rightOld leftOldOut rightOldOut
      (leftMode.trans firstMode) (rightMode.trans secondMode)
      (leftShareds ▸ rightShareds ▸ earlier)
  · intro other second secondOut exclusive
    obtain ⟨old, oldOut, mode, -, shareds⟩ := same other second secondOut
    rw [counted (SharedBefore second.shareds) Iff.rfl, ← shareds]
    exact inv.drained other old oldOut (mode.trans exclusive)
  · intro other second secondOut inside
    rcases update_eq_some.mp secondOut with ⟨-, new⟩ | ⟨-, old⟩
    · cases new
      exact admitted
    · exact inv.entered other second old inside

/-- A client hands its ticket back; what is left to show is what the new counters say of
the tickets that stay out. -/
theorem leave (next : TicketCounts) (out : ticket client = some own)
    (issued : next.issued = counts.issued)
    (account : ∀ mode, next.served mode + next.lost mode =
      counts.served mode + counts.lost mode + if own.mode = mode then 1 else 0)
    (ahead : ∀ other second, other ≠ client → ticket other = some second →
      next.served .exclusive ≤ second.exclusives)
    (drained : ∀ other second, other ≠ client → ticket other = some second →
      second.mode = .exclusive →
      next.served .shared + tally (SharedBefore second.shareds)
        (Function.update ticket client none) ≤ second.shareds)
    (entered : ∀ other second, other ≠ client → ticket other = some second →
      second.entered = true → next.Admits second) :
    Served next (Function.update ticket client none) := by
  have old : ∀ other second, Function.update ticket client none other = some second →
      other ≠ client ∧ ticket other = some second := by
    intro other second secondOut
    rcases update_eq_some.mp secondOut with ⟨-, new⟩ | kept
    · cases new
    · exact kept
  constructor
  · intro mode
    have moved := tally_update (Outstanding mode) ticket client none
    rw [out] at moved
    simp only [outstanding_none, outstanding_some, if_false] at moved
    have before := inv.account mode
    have change := account mode
    rw [issued]
    omega
  · intro other second secondOut
    have was := inv.issued other second (old other second secondOut).2
    constructor
    · exact issued ▸ was.exclusives_le
    · exact issued ▸ was.shareds_le
    · exact issued ▸ was.exclusives_lt
    · exact issued ▸ was.shareds_lt
  · exact fun other second secondOut =>
      ahead other second (old other second secondOut).1 (old other second secondOut).2
  · exact fun left first right second leftOut rightOut =>
      inv.distinct left first right second (old left first leftOut).2
        (old right second rightOut).2
  · exact fun left first right second leftOut rightOut =>
      inv.behind left first right second (old left first leftOut).2
        (old right second rightOut).2
  · exact fun other second secondOut =>
      drained other second (old other second secondOut).1 (old other second secondOut).2
  · exact fun other second secondOut =>
      entered other second (old other second secondOut).1 (old other second secondOut).2

/-- Taking a ticket away only lowers a count. -/
theorem tally_leave (out : ticket client = some own) (bound : Nat) :
    tally (SharedBefore bound) (Function.update ticket client none) +
        (if own.mode = .shared ∧ own.shareds < bound then 1 else 0) =
      tally (SharedBefore bound) ticket := by
  have moved := tally_update (SharedBefore bound) ticket client none
  rw [out] at moved
  simp only [sharedBefore_none, sharedBefore_some, if_false] at moved
  omega

/-- A holder leaves and its ticket is served. -/
theorem release (out : ticket client = some own) (inside : own.entered = true) :
    Served (counts.serve own.mode) (Function.update ticket client none) := by
  have admitted := inv.entered client own out inside
  cases mode : own.mode with
  | shared =>
      have exclusives : (counts.serve .shared).served .exclusive = counts.served .exclusive := by
        simp [TicketCounts.serve]
      have shareds : (counts.serve .shared).served .shared = counts.served .shared + 1 := by
        simp [TicketCounts.serve]
      apply inv.leave (counts.serve .shared) out rfl
      · intro other
        cases other <;> simp [TicketCounts.serve, mode] <;> omega
      · intro other second _ otherOut
        rw [exclusives]
        exact inv.ahead other second otherOut
      · -- A holder's ticket lies before every exclusive one that is out.
        intro other second _ otherOut secondMode
        have earlier : own.shareds < second.shareds := by
          by_contra later
          have behind := inv.behind other second client own otherOut out secondMode mode
            (not_lt.mp later)
          have bound := inv.ahead other second otherOut
          rw [admitted.1] at behind
          omega
        have counted := inv.tally_leave out second.shareds
        rw [if_pos ⟨mode, earlier⟩] at counted
        have bound := inv.drained other second otherOut secondMode
        omega
      · intro other second different otherOut otherInside
        have holds := inv.entered other second otherOut otherInside
        refine ⟨exclusives ▸ holds.1, fun secondMode => ?_⟩
        exact absurd (inv.exclusion otherOut secondMode otherInside out inside).symm different
  | exclusive =>
      have exclusives :
          (counts.serve .exclusive).served .exclusive = counts.served .exclusive + 1 := by
        simp [TicketCounts.serve]
      have shareds : (counts.serve .exclusive).served .shared = counts.served .shared := by
        simp [TicketCounts.serve]
      apply inv.leave (counts.serve .exclusive) out rfl
      · intro other
        cases other <;> simp [TicketCounts.serve, mode] <;> omega
      · intro other second different otherOut
        rw [exclusives]
        exact inv.first_of_admits out mode admitted otherOut different
      · intro other second _ otherOut secondMode
        have counted := inv.tally_leave out second.shareds
        have bound := inv.drained other second otherOut secondMode
        omega
      · intro other second different otherOut otherInside
        exact absurd (inv.exclusion out mode inside otherOut otherInside) different

/-- A client gives up a ticket that was not served. -/
theorem giveUp (out : ticket client = some own) :
    Served (counts.lose own.mode) (Function.update ticket client none) := by
  apply inv.leave (counts.lose own.mode) out rfl
  · intro mode
    by_cases same : own.mode = mode
    · subst same
      simp [TicketCounts.lose]
      omega
    · simp [TicketCounts.lose, same, Function.update_of_ne (Ne.symm same)]
  · exact fun other second _ otherOut => inv.ahead other second otherOut
  · intro other second _ otherOut exclusive
    have counted := inv.tally_leave out second.shareds
    have bound := inv.drained other second otherOut exclusive
    simp only [TicketCounts.lose]
    omega
  · exact fun other second _ otherOut inside => inv.entered other second otherOut inside

end Invariant

end Served

end Rocc
