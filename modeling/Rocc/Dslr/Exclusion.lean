import Rocc.Dslr.Invariant

/-!
# Mutual exclusion

Every step of a client is a step of the ticket lock: taking a ticket, entering, leaving
with the ticket served, or giving the ticket up in `handleConflict`.  The increment of a
rejected request is no ticket, and the reset of the word to 0 finds every ticket served,
so no request is on its way then.
-/

set_option linter.unusedSectionVars false

namespace Rocc.Dslr

open Rtx

universe u

variable {Client : Type u} [Fintype Client] [DecidableEq Client]
variable {counts : TicketCounts} {state after : State Client} {client : Client}

/-! ## Bounds -/

section Bounds

variable (few : Fintype.card Client < 2 ^ 15) (inv : Inv counts state)
include few inv

theorem Inv.taken_lt (phases : Client → Phase) (mode : LockMode) :
    taken counts phases mode < counterBound := by
  have clients : tally (Phase.Reverting mode) phases ≤ Fintype.card Client := tally_le_card
  have issued := inv.limit mode
  simp only [taken, counterBound, countMax] at *
  omega

theorem Inv.served_lt (mode : LockMode) : counts.served mode + 1 < counterBound := by
  have issued := inv.limit mode
  have bound := inv.served.served_le_issued mode
  simp only [counterBound, countMax] at *
  omega

/-- The counters the clients decode from the word. -/
theorem Inv.decode :
    decodeDslrLockNx state.lock = counts.served .exclusive ∧
      decodeDslrLockNs state.lock = counts.served .shared ∧
      decodeDslrLockMaxx state.lock = taken counts state.phases .exclusive ∧
      decodeDslrLockMaxs state.lock = taken counts state.phases .shared := by
  have servedFits : ∀ mode, counts.served mode < counterBound := fun mode =>
    (Nat.lt_succ_self _).trans (inv.served_lt few mode)
  have takenFits := inv.taken_lt few state.phases
  rw [inv.word]
  exact ⟨decodeNx_wordOf servedFits takenFits, decodeNs_wordOf servedFits takenFits,
    decodeMaxx_wordOf takenFits, decodeMaxs_wordOf takenFits⟩

end Bounds

/-! ## Moving one client -/

theorem ticket_update (phases : Client → Phase) (client : Client) (phase : Phase) :
    (fun other => (Function.update phases client phase other).ticket) =
      Function.update (fun other => (phases other).ticket) client phase.ticket :=
  Function.comp_update Phase.ticket phases client phase

/-- A step of one client, on the counters `next` it leaves. -/
theorem Inv.move (inv : Inv counts state) {next : TicketCounts} {lock : Nat} {phase : Phase}
    {lost : LockMode → Nat}
    (served : Served next
      (Function.update (fun other => (state.phases other).ticket) client phase.ticket))
    (word : lock = wordOf next.served (taken next (Function.update state.phases client phase)))
    (sameLost : next.lost = lost) (limit : ∀ mode, next.issued mode ≤ countMax)
    (full : ∀ other mode, (Function.update state.phases client phase other).Reverting mode →
      ∃ third, next.issued third = countMax)
    (resets : 0 < phase.resetFrom → ∃ tickets : LockMode → Nat,
      (∀ mode, tickets mode ≤ countMax) ∧ phase.resetFrom = wordOf tickets tickets) :
    Inv next { lock, phases := Function.update state.phases client phase, lost } where
  served := by
    rw [ticket_update]
    exact served
  word := word
  lost := sameLost
  limit := limit
  full := full
  resets := by
    rw [Function.forall_update_iff state.phases fun _ phase => 0 < phase.resetFrom →
      ∃ tickets : LockMode → Nat, (∀ mode, tickets mode ≤ countMax) ∧
        phase.resetFrom = wordOf tickets tickets]
    exact ⟨resets, fun other _ => inv.resets other⟩

/-- A client without a ticket that stays without one. -/
theorem Inv.served_update (inv : Inv counts state) {phase : Phase}
    (free : (state.phases client).ticket = none) (stillFree : phase.ticket = none) :
    Served counts
      (Function.update (fun other => (state.phases other).ticket) client phase.ticket) := by
  rw [stillFree, ← free, Function.update_eq_self client fun other => (state.phases other).ticket]
  exact inv.served

/-- A client that neither was nor is about to take an increment back. -/
theorem taken_update {phases : Client → Phase} {phase : Phase}
    (before : ∀ mode, ¬ (phases client).Reverting mode)
    (later : ∀ mode, ¬ phase.Reverting mode) :
    taken counts (Function.update phases client phase) = taken counts phases := by
  funext mode
  have moved := tally_update (Phase.Reverting mode) phases client phase
  rw [if_neg (before mode), if_neg (later mode)] at moved
  simp only [taken]
  omega

/-- A client that starts taking an increment of its mode back. -/
theorem taken_reverting (counts : TicketCounts) (client : Client) (phases : Client → Phase)
    (mode : LockMode) (before : ∀ other, ¬ (phases client).Reverting other) :
    taken counts (Function.update phases client (.reverting mode)) =
      Function.update (taken counts phases) mode (taken counts phases mode + 1) := by
  funext other
  have moved := tally_update (Phase.Reverting other) phases client (.reverting mode)
  rw [if_neg (before other)] at moved
  by_cases same : other = mode
  · have later : (Phase.reverting mode).Reverting other := same.symm
    rw [if_pos later] at moved
    subst same
    rw [Function.update_self]
    simp only [taken]
    omega
  · have later : ¬ (Phase.reverting mode).Reverting other := fun equal => same equal.symm
    rw [if_neg later] at moved
    rw [Function.update_of_ne same]
    simp only [taken]
    omega

theorem Inv.full_update (inv : Inv counts state) {phase : Phase}
    (later : ∀ mode, ¬ phase.Reverting mode) :
    ∀ other mode, (Function.update state.phases client phase other).Reverting mode →
      ∃ third, counts.issued third = countMax := by
  rw [Function.forall_update_iff state.phases fun _ phase => ∀ mode, phase.Reverting mode →
    ∃ third, counts.issued third = countMax]
  exact ⟨fun mode reverting => absurd reverting (later mode), fun other _ => inv.full other⟩

/-! ## Requests -/

/-- The word a request resets the lock from has every ticket served. -/
theorem resetFrom_eq {mode : LockMode} {prev : Nat} (accepted : ¬ TooLarge prev)
    (resets : 0 < resetFrom mode prev) :
    ∃ tickets : LockMode → Nat, (∀ mode, tickets mode ≤ countMax) ∧
      resetFrom mode prev = wordOf tickets tickets := by
  obtain ⟨maxs, maxx⟩ := not_or.mp accepted
  have maxs_le : decodeDslrLockMaxs prev ≤ countMax := (not_le.mp maxs).le
  have maxx_le : decodeDslrLockMaxx prev ≤ countMax := (not_le.mp maxx).le
  have small : ∀ count, count ≤ countMax → count < counterBound := fun count bound =>
    bound.trans_lt (by decide)
  have max : countMax < counterBound := by decide
  cases mode with
  | shared =>
      refine ⟨fun mode => match mode with
        | .exclusive => decodeDslrLockMaxx prev
        | .shared => countMax, ?_, ?_⟩
      · intro mode
        cases mode with
        | shared => exact le_rfl
        | exclusive => exact maxx_le
      · simp only [resetFrom] at resets ⊢
        split at resets
        · rename_i last
          rw [if_pos last]
          exact encode_eq_pack (small _ maxx_le) max (small _ maxx_le) max
        · exact absurd resets (lt_irrefl 0)
  | exclusive =>
      refine ⟨fun mode => match mode with
        | .exclusive => countMax
        | .shared => decodeDslrLockMaxs prev, ?_, ?_⟩
      · intro mode
        cases mode with
        | shared => exact maxs_le
        | exclusive => exact le_rfl
      · simp only [resetFrom] at resets ⊢
        split at resets
        · rename_i last
          rw [if_pos last]
          exact encode_eq_pack max (small _ maxs_le) max (small _ maxs_le)
        · exact absurd resets (lt_irrefl 0)

section Steps

variable (few : Fintype.card Client < 2 ^ 15) (inv : Inv counts state)
include few inv

/-- A request that finds the counters used up. -/
theorem Inv.reject {mode : LockMode} (idle : state.phases client = .idle)
    (large : TooLarge state.lock) :
    Inv counts (state.set client (fetchAdd (ticketSegment mode) 1 state.lock)
      (.reverting mode)) := by
  obtain ⟨-, -, maxx, maxs⟩ := inv.decode few
  have counted := taken_reverting counts client state.phases mode (by
    rw [idle]
    exact fun _ => id)
  have takenFits := inv.taken_lt few (Function.update state.phases client (.reverting mode))
  rw [counted] at takenFits
  apply inv.move
  · apply inv.served_update _ rfl
    rw [idle]
    rfl
  · rw [inv.word, counted]
    exact fetchAdd_ticket mode (fun other => (Nat.lt_succ_self _).trans (inv.served_lt few other))
      takenFits
  · exact inv.lost
  · exact inv.limit
  · -- A counter at its limit without tickets to be taken back is one of issued tickets.
    have reached : ∃ third, counts.issued third = countMax := by
      have limited : ∀ third, countMax ≤ taken counts state.phases third →
          ∃ other, counts.issued other = countMax := by
        intro third used
        by_cases none : tally (Phase.Reverting third) state.phases = 0
        · refine ⟨third, le_antisymm (inv.limit third) ?_⟩
          simpa [taken, none] using used
        · rw [tally_eq_zero] at none
          push Not at none
          obtain ⟨other, reverting⟩ := none
          exact inv.full other third reverting
      rcases large with used | used
      · exact limited .shared (maxs ▸ used)
      · exact limited .exclusive (maxx ▸ used)
    exact fun _ _ _ => reached
  · intro resets
    exact absurd resets (lt_irrefl 0)

/-- A rejected request takes its increment back. -/
theorem Inv.revert {mode : LockMode} {phase : Phase}
    (reverting : state.phases client = .reverting mode) (noTicket : phase.ticket = none)
    (noReset : phase.resetFrom = 0) (later : ∀ other, ¬ phase.Reverting other) :
    Inv counts (state.set client (fetchAdd (ticketSegment mode) (revertValue mode) state.lock)
      phase) := by
  have counted := taken_reverting counts client (Function.update state.phases client phase) mode
    (by simpa using later)
  rw [Function.update_idem, ← reverting, Function.update_eq_self] at counted
  have takenFits := inv.taken_lt few state.phases
  rw [counted] at takenFits
  apply inv.move
  · apply inv.served_update _ noTicket
    rw [reverting]
    rfl
  · rw [inv.word, counted]
    exact fetchAdd_revert mode (fun other => (Nat.lt_succ_self _).trans (inv.served_lt few other))
      takenFits
  · exact inv.lost
  · exact inv.limit
  · exact inv.full_update later
  · intro resets
    exact absurd resets (by simp [noReset])

/-- While the counters are below their limit nobody takes an increment back. -/
theorem Inv.taken_eq (accepted : ¬ TooLarge state.lock) :
    taken counts state.phases = counts.issued ∧
      ∀ other mode, ¬ (state.phases other).Reverting mode := by
  obtain ⟨-, -, maxx, maxs⟩ := inv.decode few
  have below : ∀ mode, taken counts state.phases mode < countMax := by
    obtain ⟨shared, exclusive⟩ := not_or.mp accepted
    rw [maxs] at shared
    rw [maxx] at exclusive
    intro mode
    cases mode with
    | shared => exact not_le.mp shared
    | exclusive => exact not_le.mp exclusive
  have nobody : ∀ other mode, ¬ (state.phases other).Reverting mode := by
    intro other mode reverting
    obtain ⟨third, reached⟩ := inv.full other mode reverting
    have bound := below third
    simp only [taken] at bound
    omega
  refine ⟨?_, nobody⟩
  funext mode
  have none : tally (Phase.Reverting mode) state.phases = 0 :=
    tally_eq_zero.mpr fun other => nobody other mode
  simp [taken, none]

/-- A request that gets a ticket, in the phase it goes on with. -/
theorem Inv.accept {mode : LockMode} {phase : Phase} (idle : state.phases client = .idle)
    (accepted : ¬ TooLarge state.lock) (later : ∀ other, ¬ phase.Reverting other)
    (served : Served (counts.issue mode)
      (Function.update (fun other => (state.phases other).ticket) client phase.ticket))
    (sameReset : phase.resetFrom = resetFrom mode state.lock) :
    Inv (counts.issue mode)
      (state.set client (fetchAdd (ticketSegment mode) 1 state.lock) phase) := by
  obtain ⟨-, -, maxx, maxs⟩ := inv.decode few
  obtain ⟨issued, nobody⟩ := inv.taken_eq few accepted
  rw [issued] at maxx maxs
  have below : ∀ other, counts.issued other + 1 ≤ countMax := by
    obtain ⟨shared, exclusive⟩ := not_or.mp accepted
    rw [maxs] at shared
    rw [maxx] at exclusive
    intro other
    cases other with
    | shared => exact not_le.mp shared
    | exclusive => exact not_le.mp exclusive
  have limit : ∀ other, (counts.issue mode).issued other ≤ countMax := by
    intro other
    by_cases same : other = mode
    · subst same
      simpa [TicketCounts.issue] using below other
    · simpa [TicketCounts.issue, Function.update_of_ne same] using inv.limit other
  have nobodyLater : ∀ other mode,
      ¬ (Function.update state.phases client phase other).Reverting mode := by
    rw [Function.forall_update_iff state.phases fun _ phase => ∀ mode, ¬ phase.Reverting mode]
    exact ⟨later, fun other _ => nobody other⟩
  have counted : taken (counts.issue mode) (Function.update state.phases client phase) =
      (counts.issue mode).issued := by
    funext other
    have none : tally (Phase.Reverting other) (Function.update state.phases client phase) = 0 :=
      tally_eq_zero.mpr fun third => nobodyLater third other
    simp [taken, none]
  apply inv.move served
  · rw [counted, inv.word, issued]
    apply fetchAdd_ticket mode fun other => (Nat.lt_succ_self _).trans (inv.served_lt few other)
    exact fun other => (limit other).trans_lt (by decide)
  · exact inv.lost
  · exact limit
  · exact fun other third reverting => absurd reverting (nobodyLater other third)
  · rw [sameReset]
    exact resetFrom_eq accepted

/-- The turn of a ticket, in the words of the ticket lock. -/
theorem Inv.admits {mode : LockMode} {prev : Nat} (entered : Bool)
    (granted : Granted mode prev state.lock) :
    counts.Admits
      { mode, exclusives := decodeDslrLockMaxx prev, shareds := decodeDslrLockMaxs prev,
        entered } := by
  obtain ⟨nx, ns, -, -⟩ := inv.decode few
  exact ⟨granted.1.symm.trans nx, fun exclusive => (granted.2 exclusive).symm.trans ns⟩

/-- `acquireLock` takes a ticket. -/
theorem Inv.acquireLock {mode : LockMode} (idle : state.phases client = .idle) :
    ∃ next, Inv next (state.set client (fetchAdd (ticketSegment mode) 1 state.lock)
      (acquired mode state.lock)) := by
  unfold acquired
  split
  · rename_i large
    exact ⟨counts, inv.reject few idle large⟩
  · rename_i accepted
    obtain ⟨-, -, maxx, maxs⟩ := inv.decode few
    rw [(inv.taken_eq few accepted).1] at maxx maxs
    have free : (fun other => (state.phases other).ticket) client = none := by
      simp [idle, Phase.ticket]
    have served := inv.served.take free mode
    split
    · rename_i granted
      refine ⟨counts.issue mode, inv.accept few idle accepted (fun _ => id) ?_ rfl⟩
      have admitted : (counts.issue mode).Admits (counts.next mode) := by
        have turn := inv.admits few false granted
        rw [maxx, maxs] at turn
        exact turn
      have entered := served.enter (Function.update_self ..) admitted
      rw [Function.update_idem] at entered
      rw [Phase.ticket, maxx, maxs]
      exact entered
    · refine ⟨counts.issue mode, inv.accept few idle accepted (fun _ => id) ?_ rfl⟩
      rw [Phase.ticket, maxx, maxs]
      exact served

/-- A round of `handleConflict`: the request gives up, enters, or goes on waiting. -/
theorem Inv.handleConflict (stepped : handleConflict state client = some after) :
    ∃ next, Inv next after := by
  unfold Dslr.handleConflict at stepped
  split at stepped
  · rename_i mode prev reset polling
    have out : (fun other => (state.phases other).ticket) client = some
        { mode, exclusives := decodeDslrLockMaxx prev, shareds := decodeDslrLockMaxs prev,
          entered := false } := by
      simp [polling, Phase.ticket]
    have quiet : ∀ other, ¬ (state.phases client).Reverting other := by
      rw [polling]
      exact fun _ => id
    have resets := inv.resets client
    rw [polling] at resets
    split at stepped
    · cases stepped
      refine ⟨counts.lose mode, inv.move (inv.served.giveUp out) ?_ ?_ inv.limit
        (inv.full_update fun _ => id) fun resets => absurd resets (lt_irrefl 0)⟩
      · rw [taken_update quiet fun _ => id]
        exact inv.word
      · rw [← inv.lost]
        rfl
    · split at stepped
      · rename_i granted
        cases stepped
        refine ⟨counts, inv.move (inv.served.enter out (inv.admits few false granted)) ?_
          inv.lost inv.limit (inv.full_update fun _ => id) resets⟩
        rw [taken_update quiet fun _ => id]
        exact inv.word
      · cases stepped
        exact ⟨counts, inv⟩
  · cases stepped

/-- A holder leaves. -/
theorem Inv.releaseLock (stepped : releaseLock state client = some after) :
    ∃ next, Inv next after := by
  unfold Dslr.releaseLock at stepped
  split at stepped
  · rename_i mode prev reset holding
    cases stepped
    have out : (fun other => (state.phases other).ticket) client = some
        { mode, exclusives := decodeDslrLockMaxx prev, shareds := decodeDslrLockMaxs prev,
          entered := true } := by
      simp [holding, Phase.ticket]
    have quiet : ∀ other, ¬ (state.phases client).Reverting other := by
      rw [holding]
      exact fun _ => id
    have resets := inv.resets client
    rw [holding] at resets
    have servedFits : ∀ other, (counts.serve mode).served other < counterBound := by
      intro other
      have fits := inv.served_lt few other
      by_cases same : other = mode
      · subst same
        simpa [TicketCounts.serve] using fits
      · simpa [TicketCounts.serve, Function.update_of_ne same] using (Nat.lt_succ_self _).trans fits
    have released := inv.served.release out rfl
    have word := fetchAdd_release mode servedFits (inv.taken_lt few state.phases)
    rw [← inv.word] at word
    -- The phase after the release has no ticket and asks for no revert.
    split
    · refine ⟨counts.serve mode, inv.move released ?_ inv.lost inv.limit
        (inv.full_update fun _ => id) resets⟩
      rw [taken_update quiet fun _ => id]
      exact word
    · refine ⟨counts.serve mode, inv.move released ?_ inv.lost inv.limit
        (inv.full_update fun _ => id) fun resets => absurd resets (lt_irrefl 0)⟩
      rw [taken_update quiet fun _ => id]
      exact word
  · cases stepped

/-- The word is reset only when every ticket has been served. -/
theorem Inv.reset (stepped : reset state client = some after) : ∃ next, Inv next after := by
  unfold Dslr.reset at stepped
  split at stepped
  · rename_i expected resetting
    split at stepped
    · rename_i expectedLock
      cases stepped
      obtain ⟨tickets, bound, shape⟩ : ∃ tickets : LockMode → Nat,
          (∀ mode, tickets mode ≤ countMax) ∧ state.lock = wordOf tickets tickets := by
        rw [expectedLock]
        by_cases zero : expected = 0
        · exact ⟨fun _ => 0, fun _ => Nat.zero_le _, zero⟩
        · have resets := inv.resets client
          rw [resetting] at resets
          exact resets (Nat.pos_of_ne_zero zero)
      have small : ∀ mode, tickets mode < counterBound := fun mode =>
        (bound mode).trans_lt (by decide)
      obtain ⟨sameServed, sameTaken⟩ := wordOf_injective
        (fun mode => (Nat.lt_succ_self _).trans (inv.served_lt few mode))
        (inv.taken_lt few state.phases) small small (inv.word.symm.trans shape)
      -- What has been served was issued, so nothing is left to be taken back.
      have counted : ∀ mode, counts.served mode = counts.issued mode ∧
          tally (Phase.Reverting mode) state.phases = 0 := by
        intro mode
        have issued := inv.served.served_le_issued mode
        have served := congrFun sameServed mode
        have taken := congrFun sameTaken mode
        simp only [Dslr.taken] at taken
        omega
      obtain ⟨noTicket, noLoss⟩ := inv.served.settled fun mode => (counted mode).1
      have nobody : ∀ other mode, ¬ (state.phases other).Reverting mode := fun other mode =>
        tally_eq_zero.mp (counted mode).2 other
      refine ⟨{ served := fun _ => 0, issued := fun _ => 0, lost := fun _ => 0 },
        inv.move ?_ ?_ ?_ (fun _ => Nat.zero_le _) ?_ fun resets => absurd resets (lt_irrefl 0)⟩
      · have empty : Function.update (fun other => (state.phases other).ticket) client
            Phase.idle.ticket = fun _ => none := by
          rw [show Phase.idle.ticket = (fun other => (state.phases other).ticket) client from
            (noTicket client).symm, Function.update_eq_self]
          exact funext noTicket
        rw [empty]
        exact Served.initial
      · rw [taken_update (nobody client) fun _ => id]
        have none : ∀ mode, tally (Phase.Reverting mode) state.phases = 0 := fun mode =>
          (counted mode).2
        simp [Dslr.taken, none, wordOf, pack]
      · rw [← inv.lost]
        exact (funext noLoss).symm
      · rw [Function.forall_update_iff state.phases fun _ phase => ∀ mode,
          phase.Reverting mode → _]
        exact ⟨fun _ => False.elim, fun other _ mode reverting =>
          absurd reverting (nobody other mode)⟩
    · cases stepped
      exact ⟨counts, inv⟩
  · cases stepped

/-- One step of the system keeps the invariant. -/
theorem Inv.step {action : Action Client} (stepped : step state action = some after) :
    ∃ next, Inv next after := by
  cases action with
  | acquireLock client mode =>
      simp only [Dslr.step, Dslr.acquireLock] at stepped
      split at stepped
      · rename_i idle
        cases stepped
        exact inv.acquireLock few idle
      · cases stepped
  | revert client =>
      simp only [Dslr.step, Dslr.revert] at stepped
      split at stepped
      · rename_i mode reverting
        cases stepped
        cases mode with
        | shared => exact ⟨counts, inv.revert few reverting rfl rfl fun _ => id⟩
        | exclusive => exact ⟨counts, inv.revert few reverting rfl rfl fun _ => id⟩
      · cases stepped
  | reread client =>
      simp only [Dslr.step, Dslr.reread] at stepped
      split at stepped
      · rename_i rereading
        cases stepped
        refine ⟨counts, inv.move (inv.served_update ?_ rfl) ?_ inv.lost inv.limit
          (inv.full_update fun _ => id) fun resets => absurd resets (lt_irrefl 0)⟩
        · rw [rereading]
          rfl
        · rw [taken_update _ fun _ => id]
          · exact inv.word
          · rw [rereading]
            exact fun _ => id
      · cases stepped
  | handleConflict client => exact inv.handleConflict few stepped
  | releaseLock client => exact inv.releaseLock few stepped
  | reset client => exact inv.reset few stepped

end Steps

/-! ## Runs -/

theorem inv_initial : Inv { served := fun _ => 0, issued := fun _ => 0, lost := fun _ => 0 }
    (State.initial : State Client) where
  served := Served.initial
  word := by
    have none : ∀ mode, tally (Phase.Reverting mode) (fun _ : Client => Phase.idle) = 0 :=
      fun mode => tally_eq_zero.mpr fun _ => id
    simp [State.initial, taken, none, wordOf, pack]
  lost := rfl
  limit _ := Nat.zero_le _
  full _ _ := False.elim
  resets _ resets := absurd resets (lt_irrefl 0)

/-- The invariant holds in every state of every run. -/
theorem inv_of_reach (few : Fintype.card Client < 2 ^ 15)
    {allowed : State Client → Action Client → Prop}
    (reach : Reach step allowed State.initial state) : ∃ counts, Inv counts state :=
  reach.invariant (fun state => ∃ counts, Inv counts state) ⟨_, inv_initial⟩
    fun _ _ _ ⟨_, inv⟩ _ stepped => inv.step few stepped

/-- The ticket of a holder. -/
theorem Phase.Holds.ticket {mode : LockMode} {phase : Phase} (holds : phase.Holds mode) :
    ∃ own, phase.ticket = some own ∧ own.mode = mode ∧ own.entered = true := by
  cases phase with
  | holding => exact ⟨_, rfl, holds, rfl⟩
  | idle | reverting | rereading | polling | resetting => exact holds.elim

/-- In every state of every run with fewer than 2 ^ 15 clients, nobody else holds the lock
in any mode while a client holds it exclusively. -/
theorem exclusive_holder_alone (few : Fintype.card Client < 2 ^ 15) (state : State Client)
    (reach : Reachable step State.initial state) (client other : Client) (mode : LockMode)
    (holds : (state.phases client).Holds .exclusive)
    (otherHolds : (state.phases other).Holds mode) : other = client := by
  obtain ⟨counts, inv⟩ := inv_of_reach few reach
  obtain ⟨own, out, exclusive, inside⟩ := holds.ticket
  obtain ⟨second, otherOut, -, otherInside⟩ := otherHolds.ticket
  exact inv.served.exclusion out exclusive inside otherOut otherInside

/-- Two shared holders, an exclusive request behind them, and a shared one behind that. -/
def queueRun : List (Action (Fin 4)) :=
  [.acquireLock 0 .shared, .acquireLock 1 .shared, .acquireLock 2 .exclusive,
    .acquireLock 3 .shared, .handleConflict 2, .releaseLock 0, .handleConflict 3,
    .releaseLock 1, .handleConflict 3, .handleConflict 2]

theorem exclusive_holder_alone_queue : ∃ state : State (Fin 4),
    Reachable step State.initial state ∧ (state.phases 2).Holds .exclusive ∧
      ∀ other mode, (state.phases other).Holds mode → other = 2 := by
  have reached : ∃ state : State (Fin 4), Reachable step State.initial state ∧
      (state.phases 2).Holds .exclusive :=
    Reach.exists_of_exec queueRun (by decide +kernel)
  obtain ⟨state, reach, holds⟩ := reached
  refine ⟨state, reach, holds, fun other mode otherHolds => ?_⟩
  exact exclusive_holder_alone (by decide) state reach 2 other mode holds otherHolds

end Rocc.Dslr
