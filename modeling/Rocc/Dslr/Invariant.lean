import Rocc.Base.Run
import Rocc.Dslr.Model

/-!
# The invariant of the shared lock

`pack` is the lock word as a number.  With fewer than `COUNT_MAX` clients no counter
overflows into its neighbour, so every fetch-and-add changes one counter: this is where
the bound on the clients and the limit on the tickets are used.  `Inv` says that the word
packs the counters of a ticket lock, where the increments of rejected requests that have
not been taken back count as issued.
-/

set_option linter.unusedSectionVars false

namespace Rocc.Dslr

open Rtx

universe u

/-! ## Words as numbers -/

/-- The word with the given counters. -/
def pack (nx ns maxx maxs : Nat) : Nat :=
  nx * 2 ^ 48 + ns * 2 ^ 32 + maxx * 2 ^ 16 + maxs

/-- Number of values of a counter. -/
def counterBound : Nat := 2 ^ 16

section Words

variable {nx ns maxx maxs : Nat}

theorem decodeNx_pack (ns_lt : ns < counterBound) (maxx_lt : maxx < counterBound)
    (maxs_lt : maxs < counterBound) : decodeDslrLockNx (pack nx ns maxx maxs) = nx := by
  rw [decodeDslrLockNx, Nat.shiftRight_eq_div_pow]
  simp only [pack, counterBound] at *
  omega

theorem decodeNs_pack (ns_lt : ns < counterBound) (maxx_lt : maxx < counterBound)
    (maxs_lt : maxs < counterBound) : decodeDslrLockNs (pack nx ns maxx maxs) = ns := by
  have low : ∀ word, word &&& 0xffff = word % 2 ^ 16 := fun word =>
    Nat.and_two_pow_sub_one_eq_mod word 16
  rw [decodeDslrLockNs, low, Nat.shiftRight_eq_div_pow]
  simp only [pack, counterBound] at *
  omega

theorem decodeMaxx_pack (maxx_lt : maxx < counterBound) (maxs_lt : maxs < counterBound) :
    decodeDslrLockMaxx (pack nx ns maxx maxs) = maxx := by
  have low : ∀ word, word &&& 0xffff = word % 2 ^ 16 := fun word =>
    Nat.and_two_pow_sub_one_eq_mod word 16
  rw [decodeDslrLockMaxx, low, Nat.shiftRight_eq_div_pow]
  simp only [pack, counterBound] at *
  omega

theorem decodeMaxs_pack (maxs_lt : maxs < counterBound) :
    decodeDslrLockMaxs (pack nx ns maxx maxs) = maxs := by
  have low : ∀ word, word &&& 0xffff = word % 2 ^ 16 := fun word =>
    Nat.and_two_pow_sub_one_eq_mod word 16
  rw [decodeDslrLockMaxs, low]
  simp only [pack, counterBound] at *
  omega

theorem encode_eq_pack (nx_lt : nx < counterBound) (ns_lt : ns < counterBound)
    (maxx_lt : maxx < counterBound) (maxs_lt : maxs < counterBound) :
    encodeDslrLockContent nx ns maxx maxs = pack nx ns maxx maxs := by
  have fits : ∀ value bits, value < counterBound → bits ≤ 48 →
      value <<< bits % wordBound = value <<< bits := by
    intro value bits small low
    apply Nat.mod_eq_of_lt
    calc value <<< bits = value * 2 ^ bits := Nat.shiftLeft_eq _ _
      _ ≤ value * 2 ^ 48 := Nat.mul_le_mul_left _ (Nat.pow_le_pow_right (by decide) low)
      _ < 2 ^ 16 * 2 ^ 48 := Nat.mul_lt_mul_of_pos_right small (by decide)
      _ = wordBound := by decide
  -- Each counter is appended below the ones already packed.
  have append : ∀ high low bits, low < 2 ^ bits →
      high <<< bits ||| low = high * 2 ^ bits + low := by
    intro high low bits small
    rw [← Nat.shiftLeft_add_eq_or_of_lt small, Nat.shiftLeft_eq]
  have first : nx <<< 48 ||| ns <<< 32 = (nx * 2 ^ 16 + ns) <<< 32 := by
    rw [← append nx ns 16 ns_lt, Nat.shiftLeft_or_distrib, ← Nat.shiftLeft_add]
  have second : (nx * 2 ^ 16 + ns) <<< 32 ||| maxx <<< 16 =
      ((nx * 2 ^ 16 + ns) * 2 ^ 16 + maxx) <<< 16 := by
    rw [← append (nx * 2 ^ 16 + ns) maxx 16 maxx_lt, Nat.shiftLeft_or_distrib,
      ← Nat.shiftLeft_add]
  rw [encodeDslrLockContent, fits nx 48 nx_lt (by decide), fits ns 32 ns_lt (by decide),
    fits maxx 16 maxx_lt (by decide), first, second, append _ _ 16 maxs_lt, pack]
  omega

end Words

/-! ## Words of a ticket lock -/

/-- The word of a lock with the given tickets served and taken. -/
def wordOf (served taken : LockMode → Nat) : Nat :=
  pack (served .exclusive) (served .shared) (taken .exclusive) (taken .shared)

section Counters

variable {served taken served' taken' : LockMode → Nat}

theorem decodeNx_wordOf (servedFits : ∀ mode, served mode < counterBound)
    (takenFits : ∀ mode, taken mode < counterBound) :
    decodeDslrLockNx (wordOf served taken) = served .exclusive :=
  decodeNx_pack (servedFits _) (takenFits _) (takenFits _)

theorem decodeNs_wordOf (servedFits : ∀ mode, served mode < counterBound)
    (takenFits : ∀ mode, taken mode < counterBound) :
    decodeDslrLockNs (wordOf served taken) = served .shared :=
  decodeNs_pack (servedFits _) (takenFits _) (takenFits _)

theorem decodeMaxx_wordOf (takenFits : ∀ mode, taken mode < counterBound) :
    decodeDslrLockMaxx (wordOf served taken) = taken .exclusive :=
  decodeMaxx_pack (takenFits _) (takenFits _)

theorem decodeMaxs_wordOf (takenFits : ∀ mode, taken mode < counterBound) :
    decodeDslrLockMaxs (wordOf served taken) = taken .shared :=
  decodeMaxs_pack (takenFits _)

theorem wordOf_injective (servedFits : ∀ mode, served mode < counterBound)
    (takenFits : ∀ mode, taken mode < counterBound)
    (servedFits' : ∀ mode, served' mode < counterBound)
    (takenFits' : ∀ mode, taken' mode < counterBound)
    (same : wordOf served taken = wordOf served' taken') :
    served = served' ∧ taken = taken' := by
  have nx := congrArg decodeDslrLockNx same
  have ns := congrArg decodeDslrLockNs same
  have maxx := congrArg decodeDslrLockMaxx same
  have maxs := congrArg decodeDslrLockMaxs same
  rw [decodeNx_wordOf servedFits takenFits, decodeNx_wordOf servedFits' takenFits'] at nx
  rw [decodeNs_wordOf servedFits takenFits, decodeNs_wordOf servedFits' takenFits'] at ns
  rw [decodeMaxx_wordOf takenFits, decodeMaxx_wordOf takenFits'] at maxx
  rw [decodeMaxs_wordOf takenFits, decodeMaxs_wordOf takenFits'] at maxs
  constructor
  · funext mode
    cases mode with
    | shared => exact ns
    | exclusive => exact nx
  · funext mode
    cases mode with
    | shared => exact maxs
    | exclusive => exact maxx

/-- A fetch-and-add that stays within its counter changes only that counter. -/
theorem fetchAdd_ticket (mode : LockMode) (servedFits : ∀ other, served other < counterBound)
    (takenFits : ∀ other, Function.update taken mode (taken mode + 1) other < counterBound) :
    fetchAdd (ticketSegment mode) 1 (wordOf served taken) =
      wordOf served (Function.update taken mode (taken mode + 1)) := by
  have nx := servedFits .exclusive
  have ns := servedFits .shared
  have maxx := takenFits .exclusive
  have maxs := takenFits .shared
  cases mode <;>
    simp only [Function.update_self, ne_eq, reduceCtorEq, not_false_eq_true,
      Function.update_of_ne, fetchAdd, ticketSegment, Segment.shift, Nat.shiftLeft_eq, wordOf,
      pack, wordBound, counterBound] at * <;>
    omega

/-- Both reverts subtract 1 from their counter modulo the word. -/
theorem fetchAdd_revert (mode : LockMode) (servedFits : ∀ other, served other < counterBound)
    (takenFits : ∀ other, Function.update taken mode (taken mode + 1) other < counterBound) :
    fetchAdd (ticketSegment mode) (revertValue mode)
        (wordOf served (Function.update taken mode (taken mode + 1))) =
      wordOf served taken := by
  have nx := servedFits .exclusive
  have ns := servedFits .shared
  have maxx := takenFits .exclusive
  have maxs := takenFits .shared
  cases mode <;>
    simp only [Function.update_self, ne_eq, reduceCtorEq, not_false_eq_true,
      Function.update_of_ne, fetchAdd, ticketSegment, revertValue, Segment.shift,
      Nat.shiftLeft_eq, wordOf, pack, wordBound, counterBound] at * <;>
    omega

theorem fetchAdd_release (mode : LockMode)
    (servedFits : ∀ other, Function.update served mode (served mode + 1) other < counterBound)
    (takenFits : ∀ other, taken other < counterBound) :
    fetchAdd (releaseSegment mode) 1 (wordOf served taken) =
      wordOf (Function.update served mode (served mode + 1)) taken := by
  have nx := servedFits .exclusive
  have ns := servedFits .shared
  have maxx := takenFits .exclusive
  have maxs := takenFits .shared
  cases mode <;>
    simp only [Function.update_self, ne_eq, reduceCtorEq, not_false_eq_true,
      Function.update_of_ne, fetchAdd, releaseSegment, Segment.shift, Nat.shiftLeft_eq, wordOf,
      pack, wordBound, counterBound] at * <;>
    omega

end Counters

/-! ## The invariant -/

/-- The ticket of a client that waits or holds. -/
def Phase.ticket : Phase → Option Ticket
  | .polling mode prev _ => some
      { mode, exclusives := decodeDslrLockMaxx prev, shareds := decodeDslrLockMaxs prev,
        entered := false }
  | .holding mode prev _ => some
      { mode, exclusives := decodeDslrLockMaxx prev, shareds := decodeDslrLockMaxs prev,
        entered := true }
  | _ => none

/-- The word a client resets the lock from, 0 if it does not. -/
def Phase.resetFrom : Phase → Nat
  | .polling _ _ reset => reset
  | .holding _ _ reset => reset
  | .resetting reset => reset
  | _ => 0

variable {Client : Type u} [Fintype Client] [DecidableEq Client]

/-- Increments of a mode in the word: tickets issued and requests to be taken back. -/
def taken (counts : TicketCounts) (phases : Client → Phase) (mode : LockMode) : Nat :=
  counts.issued mode + tally (Phase.Reverting mode) phases

/-- The lock word packs the counters of a ticket lock. -/
structure Inv (counts : TicketCounts) (state : State Client) : Prop where
  served : Served counts fun client => (state.phases client).ticket
  word : state.lock = wordOf counts.served (taken counts state.phases)
  lost : counts.lost = state.lost
  limit : ∀ mode, counts.issued mode ≤ countMax
  full : ∀ client mode, (state.phases client).Reverting mode →
    ∃ other, counts.issued other = countMax
  resets : ∀ client, 0 < (state.phases client).resetFrom →
    ∃ tickets : LockMode → Nat, (∀ mode, tickets mode ≤ countMax) ∧
      (state.phases client).resetFrom = wordOf tickets tickets

end Rocc.Dslr
