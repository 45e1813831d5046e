import Rocc.Base.ByteRing
import Rocc.Base.Run
import Rocc.Rtx.LogMem

/-!
# Log entries of one-sided writes

The coroutines of a thread log with `RDMALogger`: `log_remote` asks for an offset on every
machine of `mac_set_` and posts a write of the entry to it.  The writes to one machine
arrive in the order in which they were posted, at any later time.  When all of them have
arrived the coroutine goes on and sends `log_ack`; a machine that has cleaned the
entry replies, and the coroutine logs again only after all replies.

The ring of a thread has room for `coroutine_num` entries of the largest size.  Nothing
compares the counter of the writing thread with the entries that wait for their
acknowledgement.
-/

namespace Rocc.Rtx.LogRing

open LogMem

/-- `HUGE_PAGE_SZ`, where the log area starts. -/
def hugePageSize : UInt64 := 2097152

/-- An entry that its machine has not acknowledged, with the counter at which it starts. -/
structure Entry where
  coroutine : Nat
  mac : Nat
  tailer : UInt64
  offset : UInt64
  bytes : List UInt8
  landed : Bool

/-- The manager of the thread, the memories of the other machines and the entries in the
order in which they were posted. -/
structure State where
  manager : LogMemManager
  memory : Nat → Memory
  entries : List Entry

inductive Action where
  /-- A coroutine logs to the machines of its `mac_set_`. -/
  | log (coroutine : Nat) (macSet : List Nat) (bytes : List UInt8)
  /-- The next write to a machine arrives. -/
  | land (mac : Nat)
  /-- A machine has acknowledged the entry of a coroutine. -/
  | ack (coroutine mac : Nat)

/-- One round of the loop of `log_remote`. -/
def post (nodeId workerId coroutine : Nat) (bytes : List UInt8) (state : State) (mac : Nat) :
    Option State :=
  match state.manager.getRemoteLogOffset nodeId workerId mac bytes.length with
  | none => none
  | some (off, manager) =>
      if off = 0 then none
      else
        some
          { state with
            manager := manager
            entries := state.entries ++
              [{ coroutine := coroutine
                 mac := mac
                 tailer := state.manager.remoteTailers mac
                 offset := off
                 bytes := bytes
                 landed := false }] }

/-- Take the first write to a machine that has not arrived. -/
def landFirst (mac : Nat) : List Entry → Option (Entry × List Entry)
  | [] => none
  | entry :: entries =>
      if entry.mac = mac ∧ entry.landed = false then
        some (entry, { entry with landed := true } :: entries)
      else
        match landFirst mac entries with
        | none => none
        | some (found, others) => some (found, entry :: others)

/-- The steps of a thread with `coroutineNum` coroutines. -/
def step (nodeId workerId coroutineNum : Nat) (state : State) : Action → Option State
  | .log coroutine macSet bytes =>
      if 1 ≤ coroutine ∧ coroutine ≤ coroutineNum ∧ macSet ≠ [] ∧ macSet.Nodup ∧
          bytes.length ≤ logEntrySize ∧ ∀ entry ∈ state.entries, entry.coroutine ≠ coroutine then
        macSet.foldlM (post nodeId workerId coroutine bytes) state
      else none
  | .land mac =>
      match landFirst mac state.entries with
      | none => none
      | some (entry, entries) =>
          some
            { state with
              memory := Function.update state.memory mac
                ((state.memory mac).write entry.offset.toNat entry.bytes)
              entries := entries }
  | .ack coroutine mac =>
      if (∀ entry ∈ state.entries, entry.coroutine = coroutine → entry.landed = true) ∧
          ∃ entry ∈ state.entries, entry.coroutine = coroutine ∧ entry.mac = mac then
        some
          { state with
            entries := state.entries.filter fun entry =>
              !(entry.coroutine = coroutine && entry.mac = mac) }
      else none

/-- Nothing is logged yet. -/
def initial (manager : LogMemManager) (memory : Nat → Memory) : State :=
  { manager := manager, memory := memory, entries := [] }

/-! ## Room in the ring -/

/-- An entry of this length that starts at the counter of a machine does not meet the
entries which the machine has not acknowledged. -/
def Room (state : State) (length mac : Nat) : Prop :=
  ∀ entry ∈ state.entries, entry.mac = mac →
    RangeApart ((state.manager.remoteTailers mac).toNat % state.manager.ringSize) length
      (entry.tailer.toNat % state.manager.ringSize) entry.bytes.length

instance (state : State) (length mac : Nat) : Decidable (Room state length mac) :=
  inferInstanceAs (Decidable (∀ entry ∈ state.entries, _))

/-- Whoever logs finds room on every machine. -/
def HasRoom (state : State) : Action → Prop
  | .log _ macSet bytes => ∀ mac ∈ macSet, Room state bytes.length mac
  | _ => True

/-- The counter of a machine has not gone once around the ring since the start of an entry
that the machine has not acknowledged, and does not with the next entry either. -/
def Behind (state : State) (length mac : Nat) : Prop :=
  ∀ entry ∈ state.entries, entry.mac = mac →
    entry.tailer.toNat + entry.bytes.length ≤ (state.manager.remoteTailers mac).toNat ∧
    (state.manager.remoteTailers mac).toNat + length ≤
      entry.tailer.toNat + state.manager.ringSize

instance (state : State) (length mac : Nat) : Decidable (Behind state length mac) :=
  inferInstanceAs (Decidable (∀ entry ∈ state.entries, _))

/-- Whoever logs does not lap an entry on any machine. -/
def NotLapped (state : State) : Action → Prop
  | .log _ macSet bytes => ∀ mac ∈ macSet, Behind state bytes.length mac
  | _ => True

/-- There is room where no entry is lapped. -/
theorem Behind.room {state : State} {length mac : Nat} (behind : Behind state length mac) :
    Room state length mac := by
  intro entry member same
  obtain ⟨counted, fits⟩ := behind entry member same
  obtain ⟨since, split⟩ := Nat.exists_eq_add_of_le (le_of_add_le_left counted)
  rw [split] at counted fits ⊢
  exact apart_of_counted (by omega) (by omega)

theorem hasRoom_of_notLapped (state : State) (action : Action)
    (behind : NotLapped state action) : HasRoom state action := by
  cases action with
  | log coroutine macSet bytes => exact fun mac member => (behind mac member).room
  | land mac => trivial
  | ack coroutine mac => trivial

/-! ## What the entries keep -/

/-- The entries of a thread stand in its segment, no two of one machine meet in the
ring, and those that have arrived are in the memory of their machine. -/
structure Inv (first : LogMemManager) (nodeId workerId : Nat) (state : State) : Prop where
  alike : state.manager.Alike first
  placed : ∀ entry ∈ state.entries, ∃ segment, first.segmentOf nodeId workerId = some segment ∧
    entry.offset = first.offsetAt segment entry.tailer ∧ entry.bytes.length ≤ logEntrySize
  apart : state.entries.Pairwise fun entry other => entry.mac = other.mac →
    RangeApart (entry.tailer.toNat % first.ringSize) entry.bytes.length
      (other.tailer.toNat % first.ringSize) other.bytes.length
  intact : ∀ entry ∈ state.entries, entry.landed = true →
    (state.memory entry.mac).Holds entry.offset.toNat entry.bytes

/-- The address of an entry: its place in the ring behind the start of the segment. -/
theorem toNat_offsetAt {manager : LogMemManager} {nodeId workerId segment : Nat}
    (based : manager.baseOffset = hugePageSize) (small : manager.threadBufSize < intLimit)
    (found : manager.segmentOf nodeId workerId = some segment) (tailer : UInt64) :
    (manager.offsetAt segment tailer).toNat =
      hugePageSize.toNat + segment + tailer.toNat % manager.ringSize := by
  have bound : segment < intLimit := LogMemManager.segmentOf_lt found
  have ends := @LogMemManager.ringSize_add manager
  have place := Nat.mod_lt tailer.toNat (@LogMemManager.ringSize_pos manager)
  have base : hugePageSize.toNat = 2097152 := rfl
  unfold intLimit at bound small
  unfold LogMemManager.offsetAt
  rw [based, UInt64.toNat_add, UInt64.toNat_add, LogMemManager.toNat_mod_ringSize small,
    UInt64.toNat_ofNat', Nat.mod_eq_of_lt (a := segment) (by omega), base]
  omega

section

variable {first : LogMemManager} {nodeId workerId coroutineNum : Nat} {state after : State}

/-- Entries of one machine that do not meet in the ring do not meet in its memory. -/
theorem Inv.disjoint (inv : Inv first nodeId workerId state)
    (based : first.baseOffset = hugePageSize) (small : first.threadBufSize < intLimit)
    {entry other : Entry} (member : entry ∈ state.entries) (second : other ∈ state.entries)
    (apart : RangeApart (entry.tailer.toNat % first.ringSize) entry.bytes.length
      (other.tailer.toNat % first.ringSize) other.bytes.length) :
    other.offset.toNat + other.bytes.length ≤ entry.offset.toNat ∨
      entry.offset.toNat + entry.bytes.length ≤ other.offset.toNat := by
  obtain ⟨segment, found, placed, _⟩ := inv.placed entry member
  obtain ⟨segment', found', placed', _⟩ := inv.placed other second
  obtain rfl : segment' = segment := Option.some.inj (found'.symm.trans found)
  rw [placed, placed', toNat_offsetAt based small found, toNat_offsetAt based small found]
  unfold RangeApart at apart
  omega

/-- One round of the loop: one more entry, the counter of its machine moves on. -/
theorem post_eq_some {coroutine mac : Nat} {bytes : List UInt8}
    (posted : post nodeId workerId coroutine bytes state mac = some after) :
    ∃ segment, state.manager.segmentOf nodeId workerId = some segment ∧
      after.manager = { state.manager with
        remoteTailers := Function.update state.manager.remoteTailers mac
          (state.manager.remoteTailers mac + UInt64.ofNat bytes.length) } ∧
      after.memory = state.memory ∧
      after.entries = state.entries ++
        [{ coroutine := coroutine
           mac := mac
           tailer := state.manager.remoteTailers mac
           offset := state.manager.offsetAt segment (state.manager.remoteTailers mac)
           bytes := bytes
           landed := false }] := by
  unfold post at posted
  split at posted
  · cases posted
  · rename_i off manager returned
    obtain ⟨segment, found, rfl, rfl⟩ := LogMemManager.getRemoteLogOffset_eq_some returned
    split at posted
    · cases posted
    · cases posted
      exact ⟨segment, found, rfl, rfl, rfl⟩

/-- An entry for one machine takes no room on another one. -/
theorem room_of_post {coroutine mac : Nat} {bytes : List UInt8}
    (posted : post nodeId workerId coroutine bytes state mac = some after) {other length : Nat}
    (different : other ≠ mac) (room : Room state length other) : Room after length other := by
  obtain ⟨segment, _, counted, _, listed⟩ := post_eq_some posted
  intro entry member same
  rw [listed, List.mem_append, List.mem_singleton] at member
  rw [counted]
  simp only [Function.update_of_ne different]
  cases member with
  | inl old => exact room entry old same
  | inr new => exact absurd (by rw [← same, new]) different

/-- One more entry, where there is room for it. -/
theorem Inv.post (inv : Inv first nodeId workerId state) {coroutine mac : Nat}
    {bytes : List UInt8} (sized : bytes.length ≤ logEntrySize)
    (room : Room state bytes.length mac)
    (posted : LogRing.post nodeId workerId coroutine bytes state mac = some after) :
    Inv first nodeId workerId after := by
  obtain ⟨segment, found, counted, kept, listed⟩ := post_eq_some posted
  constructor
  · rw [counted]
    exact ⟨inv.alike.macNum, inv.alike.threadNum, inv.alike.threadBufSize,
      inv.alike.localBuffer, inv.alike.baseOffset⟩
  · intro entry member
    rw [listed, List.mem_append, List.mem_singleton] at member
    cases member with
    | inl old => exact inv.placed entry old
    | inr new =>
        subst new
        exact ⟨segment, inv.alike.segmentOf nodeId workerId ▸ found,
          inv.alike.offsetAt segment _, sized⟩
  · rw [listed, List.pairwise_append]
    refine ⟨inv.apart, List.pairwise_singleton _ _, ?_⟩
    intro entry old new member same
    rw [List.mem_singleton] at member
    subst member
    have apart := room entry old same
    rw [inv.alike.ringSize] at apart
    exact apart.symm
  · intro entry member landed
    rw [listed, List.mem_append, List.mem_singleton] at member
    rw [kept]
    cases member with
    | inl old => exact inv.intact entry old landed
    | inr new =>
        subst new
        cases landed

/-- The loop of `log_remote`. -/
theorem Inv.log (inv : Inv first nodeId workerId state) {coroutine : Nat} {macSet : List Nat}
    {bytes : List UInt8} (sized : bytes.length ≤ logEntrySize) (distinct : macSet.Nodup)
    (room : ∀ mac ∈ macSet, Room state bytes.length mac)
    (logged : macSet.foldlM (LogRing.post nodeId workerId coroutine bytes) state = some after) :
    Inv first nodeId workerId after := by
  induction macSet generalizing state with
  | nil =>
      cases logged
      exact inv
  | cons mac macSet hypothesis =>
      rw [List.foldlM_cons] at logged
      obtain ⟨next, posted, logged⟩ := Option.bind_eq_some_iff.mp logged
      rw [List.nodup_cons] at distinct
      have kept := inv.post sized (room mac (by simp)) posted
      refine hypothesis kept distinct.2 ?_ logged
      intro other member
      have different : other ≠ mac := fun same => distinct.1 (same ▸ member)
      exact room_of_post posted different (room other (by simp [member]))

end

/-- The write that arrives next, in the list of all entries. -/
theorem landFirst_eq_some {mac : Nat} {entries others : List Entry} {entry : Entry}
    (found : landFirst mac entries = some (entry, others)) :
    entry.mac = mac ∧ ∃ before behind, entries = before ++ entry :: behind ∧
      others = before ++ { entry with landed := true } :: behind := by
  induction entries generalizing others with
  | nil => cases found
  | cons head entries hypothesis =>
      unfold landFirst at found
      split at found
      · rename_i next
        cases found
        exact ⟨next.1, [], entries, rfl, rfl⟩
      · split at found
        · cases found
        · rename_i found'
          cases found
          obtain ⟨same, before, behind, rfl, rfl⟩ := hypothesis found'
          exact ⟨same, head :: before, behind, rfl, rfl⟩

section

variable {first : LogMemManager} {nodeId workerId coroutineNum : Nat} {state after : State}

/-- The entries around one of them do not meet it. -/
theorem Inv.apart_of_mem (inv : Inv first nodeId workerId state) {entry other : Entry}
    {before behind : List Entry} (listed : state.entries = before ++ entry :: behind)
    (member : other ∈ before ∨ other ∈ behind) (same : other.mac = entry.mac) :
    RangeApart (entry.tailer.toNat % first.ringSize) entry.bytes.length
      (other.tailer.toNat % first.ringSize) other.bytes.length := by
  have apart := inv.apart
  rw [listed, List.pairwise_append, List.pairwise_cons] at apart
  cases member with
  | inl old => exact (apart.2.2 other old entry (by simp) same).symm
  | inr new => exact apart.2.1.1 other new same.symm

/-- A write that arrives leaves the other entries as they are. -/
theorem Inv.land (inv : Inv first nodeId workerId state)
    (based : first.baseOffset = hugePageSize) (small : first.threadBufSize < intLimit)
    {entry : Entry} {before behind : List Entry}
    (listed : state.entries = before ++ entry :: behind) :
    Inv first nodeId workerId
      { state with
        memory := Function.update state.memory entry.mac
          ((state.memory entry.mac).write entry.offset.toNat entry.bytes)
        entries := before ++ { entry with landed := true } :: behind } := by
  have present : entry ∈ state.entries := by simp [listed]
  have members : ∀ other, other ∈ before ++ { entry with landed := true } :: behind →
      other = { entry with landed := true } ∨ other ∈ before ∨ other ∈ behind := by
    intro other member
    simp only [List.mem_append, List.mem_cons] at member
    tauto
  have old : ∀ other, other ∈ before ∨ other ∈ behind → other ∈ state.entries := by
    intro other member
    rw [listed]
    simp only [List.mem_append, List.mem_cons]
    tauto
  constructor
  · exact inv.alike
  · intro other member
    cases members other member with
    | inl same =>
        rw [same]
        exact inv.placed entry present
    | inr member => exact inv.placed other (old other member)
  · have apart := inv.apart
    rw [listed] at apart
    simp only [List.pairwise_append, List.pairwise_cons, List.mem_cons, forall_eq_or_imp]
      at apart ⊢
    exact apart
  · intro other member landed
    cases members other member with
    | inl same =>
        rw [same]
        simp only [Function.update_self]
        exact Memory.holds_write _ _ _
    | inr member =>
        have intact := inv.intact other (old other member) landed
        by_cases same : other.mac = entry.mac
        · have apart := inv.disjoint based small present (old other member)
            (inv.apart_of_mem listed member same)
          simp only [same, Function.update_self]
          rw [same] at intact
          exact (Memory.read_write_disjoint _ apart).trans intact
        · simp only [Function.update_of_ne same]
          exact intact

/-- What every step with room keeps. -/
theorem Inv.step (inv : Inv first nodeId workerId state)
    (based : first.baseOffset = hugePageSize) (small : first.threadBufSize < intLimit)
    {action : Action} (room : HasRoom state action)
    (stepped : LogRing.step nodeId workerId coroutineNum state action = some after) :
    Inv first nodeId workerId after := by
  cases action with
  | log coroutine macSet bytes =>
      simp only [LogRing.step] at stepped
      split at stepped
      · rename_i allowed
        exact inv.log allowed.2.2.2.2.1 allowed.2.2.2.1 room stepped
      · cases stepped
  | land mac =>
      simp only [LogRing.step] at stepped
      split at stepped
      · cases stepped
      · rename_i found
        obtain ⟨rfl, before, behind, listed, rfl⟩ := landFirst_eq_some found
        cases stepped
        exact inv.land based small listed
  | ack coroutine mac =>
      simp only [LogRing.step] at stepped
      split at stepped
      · cases stepped
        exact ⟨inv.alike, fun entry member => inv.placed entry (List.mem_of_mem_filter member),
          inv.apart.filter _,
          fun entry member => inv.intact entry (List.mem_of_mem_filter member)⟩
      · cases stepped

end

/-- As long as every coroutine that logs finds room in the ring, the bytes of an entry that
has arrived stay where they are until it is acknowledged. -/
theorem intact_of_hasRoom {localP ms ts coroutineNum nodeId workerId : Nat}
    {manager : LogMemManager} {memory : Nat → Memory} {state : State}
    (built : LogMemManager.new localP ms ts (coroutineNum * logEntrySize) hugePageSize =
      some manager)
    (reach : Reach (step nodeId workerId coroutineNum) HasRoom (initial manager memory) state)
    {entry : Entry} (member : entry ∈ state.entries) (landed : entry.landed = true) :
    (state.memory entry.mac).read entry.offset.toNat entry.bytes.length = entry.bytes := by
  obtain ⟨_, _, _, _, based, _⟩ := new_eq_some built
  have small := threadBufSize_lt built
  have inv : Inv manager nodeId workerId state := by
    apply reach.invariant (Inv manager nodeId workerId)
    · exact ⟨⟨rfl, rfl, rfl, rfl, rfl⟩, by simp [initial], by simp [initial], by simp [initial]⟩
    · intro before action after kept room stepped
      exact kept.step based small room stepped
  exact inv.intact entry member landed

/-- As long as no coroutine that logs laps an entry, the bytes of an entry that has arrived
stay where they are until it is acknowledged. -/
theorem entries_intact {localP ms ts coroutineNum nodeId workerId : Nat}
    {manager : LogMemManager} {memory : Nat → Memory} {state : State}
    (built : LogMemManager.new localP ms ts (coroutineNum * logEntrySize) hugePageSize =
      some manager)
    (reach : Reach (step nodeId workerId coroutineNum) NotLapped (initial manager memory) state)
    {entry : Entry} (member : entry ∈ state.entries) (landed : entry.landed = true) :
    (state.memory entry.mac).read entry.offset.toNat entry.bytes.length = entry.bytes :=
  intact_of_hasRoom built (reach.mono hasRoom_of_notLapped) member landed

/-! ## Runs of two coroutines -/

instance (state : State) (action : Action) : Decidable (NotLapped state action) :=
  match action with
  | .log _ macSet bytes =>
      inferInstanceAs (Decidable (∀ mac ∈ macSet, Behind state bytes.length mac))
  | .land _ => inferInstanceAs (Decidable True)
  | .ack _ _ => inferInstanceAs (Decidable True)

/-- The manager of a thread with two coroutines, with two machines. -/
def pairManager : LogMemManager :=
  { macNum := 2
    threadNum := 1
    threadBufSize := 6144
    localBuffer := 0
    totalMacLogSize := 6144
    remoteTailers := fun _ => 0
    localHeaders := fun _ => 0
    baseOffset := hugePageSize
    threadBufSize_ge := by decide
    totalMacLogSize_eq := rfl }

/-- Two coroutines log, the entry of the first one has arrived. -/
theorem entries_intact_pair :
    ∃ state entry, Reach (step 0 0 2) NotLapped (initial pairManager fun _ _ => 0) state ∧
      entry ∈ state.entries ∧ entry.landed = true ∧
      (state.memory entry.mac).read entry.offset.toNat entry.bytes.length = entry.bytes := by
  obtain ⟨state, reach, landed⟩ :
      ∃ state, Reach (step 0 0 2) NotLapped (initial pairManager fun _ _ => 0) state ∧
        ∃ entry ∈ state.entries, entry.landed = true :=
    Reach.exists_of_exec [.log 1 [1] [7, 8], .log 2 [0, 1] [9], .land 1] (by decide +kernel)
  obtain ⟨entry, member, landed⟩ := landed
  have built : LogMemManager.new 0 2 1 (2 * logEntrySize) hugePageSize = some pairManager := rfl
  exact ⟨state, entry, reach, member, landed, entries_intact built reach member landed⟩

/-- One coroutine waits for its acknowledgement while the other one logs three times: the
third entry starts where the first one stands. -/
theorem entry_overwritten :
    LogMemManager.new 0 2 1 (2 * logEntrySize) hugePageSize = some pairManager ∧
    ∃ state, Reach (step 0 0 2) anyAction (initial pairManager fun _ _ => 0) state ∧
      ∃ entry ∈ state.entries, entry.landed = true ∧
        (state.memory entry.mac).read entry.offset.toNat entry.bytes.length ≠ entry.bytes := by
  refine ⟨rfl, ?_⟩
  exact Reach.exists_of_exec
    [.log 1 [1] [1, 1], .land 1,
      .log 2 [1] (List.replicate 2048 0), .land 1, .ack 2 1,
      .log 2 [1] (List.replicate 2046 0), .land 1, .ack 2 1,
      .log 2 [1] [2], .land 1] (by decide +kernel)

end Rocc.Rtx.LogRing
