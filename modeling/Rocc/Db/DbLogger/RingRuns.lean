import Rocc.Db.DbLogger.Ring

/-!
# Runs of the ring

The offsets are counters modulo the size of the ring: how much has been set up, how much is cleaned,
fed back, has arrived, and was seen when the thread last waited.  The offset that has arrived may be
the place of the next log, and then the waiting loop finds no room at all.  But an offset is fed
back after at least an eighth of the ring and little more: seven times that is less than what is set
up when a log has to wait, and eight times is more.
-/

namespace Rocc.Db.DbLogger.Ring

open Memory

/-! ## Images -/

/-- What `log_backups` sends. -/
def IsImage (image : List UInt8) : Prop :=
  image.length ≤ threadPaddingSize ∧ ∃ globalSeq entries seq, ∀ buffer place,
    Memory.Holds buffer place image → Placed buffer place image.length globalSeq entries seq

theorem isImage_of_logged {call : Call} {log : TempLog}
    (done : logged call.config call.rmalloc call.globalSeq call.entries call.seq = some log) :
    IsImage log.image ∧ log.image.length = log.getTotalSize := by
  obtain ⟨_, same, isTotal, placed⟩ := placed_of_logged call.config call.rmalloc call.globalSeq
    call.entries call.seq call.small
  obtain rfl := Option.some.inj (done.symm.trans same)
  have sized : log.image.length = log.getTotalSize := length_read _ _ _
  rw [IsImage, sized, isTotal]
  exact ⟨⟨call.small, call.globalSeq, call.entries, call.seq, placed⟩, rfl⟩

/-- An image has room for a header and a tailer. -/
theorem IsImage.large {image : List UInt8} (isImage : IsImage image) : 40 ≤ image.length := by
  obtain ⟨_, _, _, _, placed⟩ := isImage
  have before := (placed _ 0 (holds_write (fun _ => 0) 0 image)).before
  rw [txHeaderSize, txTailerSize] at before
  omega

/-- An image begins with its size. -/
theorem IsImage.size {image : List UInt8} (isImage : IsImage image) :
    ofBytes (image.take 8) = image.length - 8 := by
  have large := isImage.large
  obtain ⟨_, _, _, _, placed⟩ := isImage
  have holds := holds_write (fun _ => 0) 0 image
  have first := take_read (Memory.write (fun _ => 0) 0 image) 0 8 image.length
  rw [holds, Nat.min_eq_left (by omega)] at first
  rw [first]
  exact (placed _ 0 holds).size

/-! ## Blocks -/

/-- The bytes of a log in the ring. -/
def Sent.block (sent : Sent) : List UInt8 :=
  (if sent.landed then sent.image else List.replicate sent.image.length 0) ++
    (if sent.acked then sent.image.take 8 else List.replicate 8 0)

/-- The room of a log with its acknowledgement. -/
def Sent.whole (sent : Sent) : Nat := sent.image.length + 8

theorem Sent.length_block (sent : Sent) (isImage : IsImage sent.image) :
    sent.block.length = sent.whole := by
  have large := isImage.large
  rw [Sent.block, Sent.whole, List.length_append]
  split <;> split <;> simp <;> omega

theorem span_blocks {logs : List Sent} (images : ∀ sent ∈ logs, IsImage sent.image) :
    span (logs.map Sent.block) = (logs.map Sent.whole).sum := by
  rw [span, List.map_map]
  exact congrArg List.sum (List.map_congr_left fun sent member =>
    sent.length_block (images sent member))

/-- Without the header there is no log. -/
theorem checkLogCompletion_of_zero {buffer : Memory} {place : Nat}
    (zero : buffer.readWord (place + 8) = 0) : checkLogCompletion buffer place = none := by
  rw [checkLogCompletion]
  dsimp only
  split
  · rfl
  · split
    · rfl
    · rw [if_pos (.inl (by rw [zero]; decide))]

/-- A word of a block of zeros. -/
theorem readWord_of_zeros {buffer : Memory} {place length : Nat} (before : Nat)
    (inside : before + 8 ≤ length) (holds : buffer.Holds place (List.replicate length 0)) :
    buffer.readWord (place + before) = 0 := by
  have pieces : List.replicate length (0 : UInt8) = List.replicate before 0 ++
      (List.replicate 8 0 ++ List.replicate (length - before - 8) 0) := by
    rw [← List.replicate_add, ← List.replicate_add]
    congr 1
    omega
  rw [pieces, holds_append, holds_append, List.length_replicate, Holds, Holds,
    List.length_replicate, List.length_replicate] at holds
  rw [readWord, holds.2.1]
  rfl

/-- What the backup makes of a log at the place that it polls. -/
theorem checkLogCompletion_block {buffer : Memory} {place : Nat} {sent : Sent}
    (isImage : IsImage sent.image) (holds : buffer.Holds place sent.block) :
    checkLogCompletion buffer place =
      if sent.landed ∧ sent.acked then
        some (place + sent.image.length - txTailerSize, sent.image.length - 8)
      else none := by
  have large := isImage.large
  have size := isImage.size
  obtain ⟨small, globalSeq, entries, seq, placed⟩ := isImage
  rw [Sent.block, holds_append] at holds
  obtain ⟨body, word⟩ := holds
  cases landed : sent.landed with
  | false =>
      rw [landed] at body
      rw [checkLogCompletion_of_zero (readWord_of_zeros 8 (by omega) body)]
      rfl
  | true =>
      rw [landed] at body word
      have isPlaced := placed buffer place body
      cases acked : sent.acked with
      | false =>
          rw [acked] at word
          have zero := readWord_of_zeros 0 (Nat.le_refl 8) word
          have behind : place + (sent.image.length - 8) + 8 = place + sent.image.length := by
            omega
          rw [checkLogCompletion, isPlaced.size]
          dsimp only
          rw [behind, if_neg (by rw [threadPaddingSize] at *; omega), if_pos]
          · rfl
          · rw [Nat.add_zero] at zero
            exact fun same => absurd (same.trans zero) (by omega)
      | true =>
          rw [acked] at word
          have isSize : buffer.readWord (place + sent.image.length) = sent.image.length - 8 := by
            have first : (sent.image.take 8).length = 8 := by
              rw [List.length_take]
              omega
            have copied : buffer.Holds (place + sent.image.length) (sent.image.take 8) := word
            rw [Holds, first] at copied
            rw [readWord, copied, size]
          exact isPlaced.found small isSize

/-! ## Counters -/

theorem sizes : logHole = 1024 ∧ threadPaddingSize = 32768 ∧ threadBufSize = 16744192 ∧
    logThrshold = 2093024 :=
  ⟨rfl, rfl, rfl, rfl⟩

/-- An offset is fed back some rounds after another one. -/
def Spaced (earlier later : Nat) : Prop :=
  ∃ rounds, earlier + rounds * logThrshold ≤ later ∧
    later ≤ earlier + rounds * (logThrshold + threadPaddingSize + 8)

theorem Spaced.refl (counter : Nat) : Spaced counter counter := ⟨0, by omega, by omega⟩

theorem Spaced.trans {first second third : Nat} (before : Spaced first second)
    (behind : Spaced second third) : Spaced first third := by
  obtain ⟨rounds, low, high⟩ := before
  obtain ⟨others, above, below⟩ := behind
  refine ⟨rounds + others, ?_, ?_⟩
  · rw [Nat.add_mul]
    omega
  · rw [Nat.add_mul]
    omega

theorem Spaced.le {earlier later : Nat} (spaced : Spaced earlier later) : earlier ≤ later := by
  obtain ⟨rounds, low, _⟩ := spaced
  exact Nat.le_of_add_right_le low

/-- No offset is fed back when the ring is nearly as full as it gets. -/
theorem Spaced.not_full {earlier later : Nat} (spaced : Spaced earlier later)
    (fits : later + logHole ≤ earlier + threadBufSize) :
    later + threadPaddingSize + 8 + logHole ≤ earlier + threadBufSize := by
  obtain ⟨rounds, low, high⟩ := spaced
  obtain ⟨hole, padding, buf, eighth⟩ := sizes
  rw [eighth] at low high
  have few : rounds ≤ 7 := by omega
  have most := Nat.mul_le_mul_right (2093024 + threadPaddingSize + 8) few
  omega

/-- How many bytes have been set up, are cleaned, are fed back, and have arrived in the header;
what the header was when `log_setup` last waited, and the offsets that have not arrived. -/
structure Counters where
  setUp : Nat
  cleaned : Nat
  fed : Nat
  seen : Nat
  remembered : Nat
  coming : List Nat

/-- The offsets and sizes are those of the counters, and the logs stand one behind the other. -/
structure Inv (state : State) (counters : Counters) : Prop where
  remoteOffset : state.remoteOffset = counters.setUp % threadBufSize
  tailOffset : state.tailOffset = counters.cleaned % threadBufSize
  headOffset : state.headOffset = counters.fed % threadBufSize
  header : state.header = counters.seen % threadBufSize
  feedbacks : state.feedbacks = counters.coming.map (· % threadBufSize)
  remainSize : state.remainSize + counters.setUp = threadBufSize + counters.remembered
  hole : counters.setUp + logHole ≤ threadBufSize + counters.remembered
  waiting : counters.setUp = counters.cleaned + (state.logs.map Sent.whole).sum
  behind : counters.fed ≤ counters.cleaned
  near : counters.cleaned < counters.fed + logThrshold
  spaced : (counters.remembered :: counters.seen :: counters.coming).Pairwise Spaced
  last : (counters.seen :: counters.coming).getLast? = some counters.fed
  placed : state.logs.map Sent.offset =
    places threadBufSize counters.cleaned (state.logs.map Sent.whole)
  images : ∀ sent ∈ state.logs, IsImage sent.image
  memory : state.memory = lay threadBufSize counters.cleaned (state.logs.map Sent.block)

theorem inv_initial : Inv initial ⟨0, 0, 0, 0, 0, []⟩ where
  remoteOffset := rfl
  tailOffset := rfl
  headOffset := rfl
  header := rfl
  feedbacks := rfl
  remainSize := rfl
  hole := by decide
  waiting := rfl
  behind := Nat.le_refl 0
  near := by decide
  spaced := by simp [Spaced.refl]
  last := rfl
  placed := rfl
  images := fun sent member => by simp [initial] at member
  memory := rfl

section

variable {state after : State} {counters : Counters}

theorem Inv.spaced_fed (inv : Inv state counters) {counter : Nat}
    (member : counter ∈ counters.remembered :: counters.seen :: counters.coming) :
    Spaced counter counters.fed := by
  have last := inv.last
  rw [← List.getLast?_cons_cons (a := counters.remembered), List.getLast?_eq_some_iff] at last
  obtain ⟨others, split⟩ := last
  have spaced := inv.spaced
  rw [split, List.pairwise_append] at spaced
  rw [split, List.mem_append, List.mem_singleton] at member
  rcases member with earlier | rfl
  · exact spaced.2.2 counter earlier counters.fed List.mem_cons_self
  · exact .refl _

theorem Inv.remembered_le (inv : Inv state counters) : counters.remembered ≤ counters.seen :=
  (List.rel_of_pairwise_cons inv.spaced List.mem_cons_self).le

theorem Inv.seen_le (inv : Inv state counters) : counters.seen ≤ counters.cleaned :=
  (inv.spaced_fed (List.mem_cons_of_mem _ List.mem_cons_self)).le.trans inv.behind

theorem Inv.cleaned_le (inv : Inv state counters) : counters.cleaned ≤ counters.setUp :=
  inv.waiting ▸ Nat.le_add_right _ _

theorem Inv.fits (inv : Inv state counters) :
    (state.logs.map Sent.whole).sum + logHole ≤ threadBufSize := by
  have hole := inv.hole
  have waiting := inv.waiting
  have remembered := inv.remembered_le
  have seen := inv.seen_le
  omega

/-- What the waiting loop computes. -/
theorem Inv.freeSize_eq (inv : Inv state counters) :
    freeSize state.remoteOffset state.header =
      if counters.seen = counters.setUp then 0
      else threadBufSize + counters.seen - counters.setUp := by
  have hole : logHole = 1024 := rfl
  have room := inv.hole
  have remembered := inv.remembered_le
  have seen := inv.seen_le.trans inv.cleaned_le
  rw [freeSize, inv.remoteOffset, inv.header]
  by_cases same : counters.seen = counters.setUp
  · rw [if_pos same, same, if_neg (Nat.lt_irrefl _), Nat.sub_self]
  · obtain ⟨taken, split⟩ := Nat.exists_eq_add_of_le (show counters.seen ≤ counters.setUp by omega)
    rw [if_neg same, split, circular_rest (by omega) (by omega)]
    omega

/-- The room is counted from an offset that has arrived. -/
theorem Inv.room_eq_some (inv : Inv state counters) {whole remain : Nat}
    (found : state.room whole = some remain) :
    ∃ base, (base = counters.remembered ∨ base = counters.seen) ∧
      remain + counters.setUp = threadBufSize + base ∧
      counters.setUp + whole + logHole ≤ threadBufSize + base := by
  have hole : logHole = 1024 := rfl
  have size := inv.remainSize
  have room := inv.hole
  have remembered := inv.remembered_le
  rw [State.room] at found
  split at found
  · split at found
    · dsimp only at found
      split at found
      · cases found
      · rename_i enough
        cases found
        rw [inv.freeSize_eq] at enough ⊢
        refine ⟨counters.seen, .inr rfl, ?_⟩
        split at enough
        · omega
        · rename_i taken
          rw [if_neg taken]
          omega
    · cases found
  · cases found
    exact ⟨counters.remembered, .inl rfl, by omega⟩

/-- There is room when there is nothing to wait for. -/
theorem Inv.room_isSome (inv : Inv state counters) (cleaned : state.logs = [])
    (arrived : state.feedbacks = []) {total : Nat} (small : total ≤ threadPaddingSize) :
    (state.room (total + 8)).isSome := by
  have size := inv.remainSize
  have last := inv.last
  have near := inv.near
  have waiting := inv.waiting
  obtain ⟨hole, padding, buf, eighth⟩ := sizes
  have none : counters.coming = [] := by
    have listed := inv.feedbacks
    rw [arrived] at listed
    exact List.map_eq_nil_iff.mp listed.symm
  rw [none] at last
  have isLast : counters.seen = counters.fed := Option.some.inj last
  rw [cleaned] at waiting
  have all : counters.setUp = counters.cleaned := waiting
  rw [State.room]
  split
  · rename_i short
    have taken : counters.seen ≠ counters.setUp := by
      intro same
      have most := (inv.spaced_fed List.mem_cons_self).not_full (by have := inv.hole; omega)
      omega
    rw [if_pos (by rw [inv.header]; exact Nat.mod_lt _ (by omega)), inv.freeSize_eq, if_neg taken]
    dsimp only
    rw [if_neg (by omega)]
    rfl
  · rfl

/-- Where a log stands. -/
theorem Inv.offset_eq (inv : Inv state counters) {before behind : List Sent} {sent : Sent}
    (split : state.logs = before ++ sent :: behind) :
    sent.offset = (counters.cleaned + (before.map Sent.whole).sum) % threadBufSize := by
  have placed := inv.placed
  rw [split, List.map_append, List.map_append, places_append] at placed
  exact (List.cons.inj (List.append_inj placed (by simp)).2).1

/-- A range behind all logs meets none of them. -/
theorem Inv.apart (inv : Inv state counters) {length : Nat}
    (fits : counters.setUp + length ≤ threadBufSize + counters.cleaned) {sent : Sent}
    (member : sent ∈ state.logs) :
    RangeApart state.remoteOffset length sent.offset (sent.image.length + 8) := by
  obtain ⟨before, behind, split⟩ := List.append_of_mem member
  have waiting := inv.waiting
  rw [split, List.map_append, List.sum_append, List.map_cons, List.sum_cons, Sent.whole] at waiting
  rw [inv.remoteOffset, inv.offset_eq split]
  have start : counters.setUp = counters.cleaned + (before.map Sent.whole).sum +
      (counters.setUp - (counters.cleaned + (before.map Sent.whole).sum)) := by
    omega
  rw [start]
  exact apart_of_counted (by omega) (by omega)

/-! ## Steps -/

theorem exists_split {logs : List Sent} {index : Nat} {sent : Sent}
    (found : logs[index]? = some sent) :
    ∃ before behind, logs = before ++ sent :: behind ∧
      ∀ new, logs.set index new = before ++ new :: behind := by
  obtain ⟨inside, rfl⟩ := List.getElem?_eq_some_iff.mp found
  refine ⟨logs.take index, logs.drop (index + 1), ?_, fun new => ?_⟩
  · rw [← List.drop_eq_getElem_cons inside, List.take_append_drop]
  · rw [List.set_eq_take_append_cons_drop, if_pos inside]

/-- A part of a log arrives. -/
theorem Inv.arrive (inv : Inv state counters) {before behind : List Sent} {sent : Sent} (new : Sent)
    (split : state.logs = before ++ sent :: behind) (same : new.offset = sent.offset)
    (copied : new.image = sent.image) {left piece other right : List UInt8}
    (old : sent.block = left ++ (piece ++ right)) (now : new.block = left ++ (other ++ right))
    (sized : other.length = piece.length) :
    Inv { state with
      memory := state.memory.write (sent.offset + left.length) other
      logs := before ++ new :: behind } counters := by
  have whole : new.whole = sent.whole := by rw [Sent.whole, Sent.whole, copied]
  have wholes : (before ++ new :: behind).map Sent.whole = state.logs.map Sent.whole := by
    rw [split, List.map_append, List.map_append, List.map_cons, List.map_cons, whole]
  have offsets : (before ++ new :: behind).map Sent.offset = state.logs.map Sent.offset := by
    rw [split, List.map_append, List.map_append, List.map_cons, List.map_cons, same]
  have images := inv.images
  rw [split] at images
  have blocks := inv.memory
  have fits := inv.fits
  rw [← span_blocks inv.images, split, List.map_append, List.map_cons, old] at fits
  rw [split, List.map_append, List.map_cons, old] at blocks
  have place := inv.offset_eq split
  rw [← span_blocks fun sent member => images sent (List.mem_append_left _ member)] at place
  exact
    { inv with
      waiting := by rw [wholes]; exact inv.waiting
      placed := by rw [wholes, offsets]; exact inv.placed
      images := fun other member => by
        rcases List.mem_append.mp member with inBefore | inBehind
        · exact images other (List.mem_append_left _ inBefore)
        · rcases List.mem_cons.mp inBehind with rfl | inRest
          · rw [copied]
            exact images sent (by simp)
          · exact images other (by simp [inRest])
      memory := by
        rw [blocks, place, lay_write left right sized (by omega), List.map_append, List.map_cons,
          now] }

theorem Inv.land (inv : Inv state counters) {index : Nat} (landed : state.land index = some after) :
    Inv after counters := by
  rw [State.land] at landed
  split at landed
  · rename_i sent found
    split at landed
    · cases landed
    · rename_i fresh
      cases landed
      obtain ⟨before, behind, split, replaced⟩ := exists_split found
      have old : sent.block = [] ++ (List.replicate sent.image.length 0 ++
          if sent.acked then sent.image.take 8 else List.replicate 8 0) := by
        rw [Sent.block, if_neg fresh, List.nil_append]
      rw [replaced]
      exact inv.arrive { sent with landed := true } split rfl rfl old rfl
        List.length_replicate.symm
  · cases landed

theorem Inv.ack (inv : Inv state counters) {index : Nat} (acked : state.ack index = some after) :
    Inv after counters := by
  rw [State.ack] at acked
  split at acked
  · rename_i sent found
    split at acked
    · cases acked
    · rename_i fresh
      cases acked
      obtain ⟨before, behind, split, replaced⟩ := exists_split found
      have large := (inv.images sent (List.mem_of_getElem? found)).large
      let body := if sent.landed then sent.image else List.replicate sent.image.length 0
      have sized : body.length = sent.image.length := by
        simp only [body]
        split <;> simp
      have old : sent.block = body ++ (List.replicate 8 0 ++ []) := by
        rw [Sent.block, if_neg fresh, List.append_nil]
      have now : Sent.block { sent with acked := true } = body ++ (sent.image.take 8 ++ []) := by
        rw [List.append_nil]
        rfl
      rw [replaced, ← sized]
      exact inv.arrive { sent with acked := true } split rfl rfl old now (by simp; omega)
  · cases acked

/-- What `log_setup` does when it returns. -/
theorem logSetup_eq_some {total offset : Nat} (done : state.logSetup total = some (offset, after)) :
    ∃ remain, state.room (total + 8) = some remain ∧ offset = state.remoteOffset ∧
      after = { state with
        remainSize := remain - (total + 8)
        remoteOffset := (state.remoteOffset + (total + 8)) % threadBufSize } := by
  obtain ⟨remain, found, rest⟩ := Option.bind_eq_some_iff.mp done
  split at rest
  · cases rest
    exact ⟨remain, found, rfl, rfl⟩
  · cases rest

/-- What the header was when `log_setup` last waited may be what it is now. -/
theorem Inv.spaced_base (inv : Inv state counters) {base : Nat}
    (known : base = counters.remembered ∨ base = counters.seen) :
    (base :: counters.seen :: counters.coming).Pairwise Spaced := by
  rcases known with rfl | rfl
  · exact inv.spaced
  · have spaced := (List.pairwise_cons.mp inv.spaced).2
    refine List.pairwise_cons.mpr ⟨fun later member => ?_, spaced⟩
    rcases List.mem_cons.mp member with rfl | coming
    · exact .refl _
    · exact (List.pairwise_cons.mp spaced).1 later coming

/-- A log gets the place behind all others. -/
theorem Inv.logBackups (inv : Inv state counters) {call : Call}
    (done : state.logBackups call = some after) : ∃ counters, Inv after counters := by
  obtain ⟨log, made, setup⟩ := Option.bind_eq_some_iff.mp done
  obtain ⟨⟨offset, next⟩, placed, isAfter⟩ := Option.map_eq_some_iff.mp setup
  obtain ⟨remain, found, rfl, rfl⟩ := logSetup_eq_some placed
  obtain ⟨isImage, sized⟩ := isImage_of_logged made
  obtain ⟨base, known, remainSize, hole⟩ := inv.room_eq_some found
  let new : Sent :=
    { offset := state.remoteOffset, image := log.image, landed := false, acked := false }
  have whole : new.whole = log.getTotalSize + 8 := congrArg (· + 8) sized
  have block : new.block = List.replicate (log.image.length + 8) 0 :=
    (List.replicate_add ..).symm
  refine ⟨{ counters with
    setUp := counters.setUp + (log.getTotalSize + 8), remembered := base }, ?_⟩
  rw [← isAfter]
  exact
    { inv with
      remoteOffset := by
        rw [inv.remoteOffset, Nat.mod_add_mod]
      remainSize := by
        dsimp only
        omega
      hole := by
        dsimp only
        omega
      waiting := by
        have sum : ((state.logs ++ [new]).map Sent.whole).sum =
            (state.logs.map Sent.whole).sum + (log.getTotalSize + 8) := by
          rw [List.map_append, List.sum_append, List.map_singleton, List.sum_singleton, whole]
        dsimp only
        rw [sum, inv.waiting, Nat.add_assoc]
      spaced := inv.spaced_base known
      placed := by
        have place : state.remoteOffset =
            (counters.cleaned + (state.logs.map Sent.whole).sum) % threadBufSize := by
          rw [← inv.waiting]
          exact inv.remoteOffset
        dsimp only
        rw [List.map_append, List.map_append, places_append, inv.placed]
        exact congrArg (_ ++ [·]) place
      images := fun sent member => by
        rcases List.mem_append.mp member with old | isNew
        · exact inv.images sent old
        · rw [List.mem_singleton.mp isNew]
          exact isImage
      memory := by
        have blocks : (state.logs ++ [new]).map Sent.block =
            state.logs.map Sent.block ++ [List.replicate (log.image.length + 8) 0] := by
          rw [List.map_append, List.map_singleton, block]
        dsimp only
        rw [blocks, lay_append_zeros]
        exact inv.memory }

/-- The log that the backup finds. -/
theorem Inv.check (inv : Inv state counters) :
    checkLogCompletion state.memory state.tailOffset =
      match state.logs with
      | [] => none
      | sent :: _ =>
          if sent.landed ∧ sent.acked then
            some (state.tailOffset + sent.image.length - txTailerSize, sent.image.length - 8)
          else none := by
  have fits := inv.fits
  cases listed : state.logs with
  | nil =>
      rw [inv.memory, listed, List.map_nil, lay]
      exact checkLogCompletion_of_zero (readWord_of_zeros 8 (Nat.le_refl 16) (holds_zeros _ 16))
  | cons sent rest =>
      have isImage := inv.images sent (by rw [listed]; exact List.mem_cons_self)
      have holds : state.memory.Holds state.tailOffset sent.block := by
        have room : span ([] ++ sent.block :: rest.map Sent.block) ≤ threadBufSize := by
          rw [← span_blocks inv.images, listed] at fits
          exact Nat.le_of_add_right_le fits
        have first := @lay_holds threadBufSize counters.cleaned [] _ _ room
        rw [span_nil, Nat.add_zero, List.nil_append] at first
        rw [inv.memory, inv.tailOffset, listed]
        exact first
      exact checkLogCompletion_block isImage holds

/-- The first log is wiped out. -/
theorem Inv.memory_clear (inv : Inv state counters) {sent : Sent} {rest : List Sent}
    (listed : state.logs = sent :: rest) :
    state.memory.write state.tailOffset (List.replicate sent.whole 0) =
      lay threadBufSize (counters.cleaned + sent.whole) (rest.map Sent.block) := by
  have isImage := inv.images sent (by rw [listed]; exact List.mem_cons_self)
  have fits := inv.fits
  rw [← span_blocks inv.images, listed, List.map_cons] at fits
  rw [← sent.length_block isImage, inv.memory, inv.tailOffset, listed, List.map_cons]
  exact lay_clear (Nat.le_of_add_right_le fits)

/-- `processed_log_size`, when some more is cleaned. -/
theorem Inv.processed_eq (inv : Inv state counters) {whole : Nat}
    (small : whole ≤ threadPaddingSize + 8) :
    (if state.headOffset ≤ (counters.cleaned + whole) % threadBufSize then
        (counters.cleaned + whole) % threadBufSize - state.headOffset
      else threadBufSize - state.headOffset + (counters.cleaned + whole) % threadBufSize) =
      counters.cleaned + whole - counters.fed := by
  obtain ⟨_, padding, buf, eighth⟩ := sizes
  have near := inv.near
  obtain ⟨taken, cleaned⟩ := Nat.exists_eq_add_of_le inv.behind
  rw [inv.headOffset, cleaned, Nat.add_assoc, Nat.add_sub_cancel_left]
  exact circular_distance (by omega)

/-- What the backup does when the first log has arrived. -/
theorem Inv.poll_eq (inv : Inv state counters) {sent : Sent} {rest : List Sent}
    (listed : state.logs = sent :: rest) (landed : sent.landed) (acked : sent.acked) :
    state.poll =
      let tailOffset := (counters.cleaned + sent.whole) % threadBufSize
      let cleared :=
        { state with
          memory := lay threadBufSize (counters.cleaned + sent.whole) (rest.map Sent.block)
          logs := rest
          tailOffset }
      if logThrshold ≤ counters.cleaned + sent.whole - counters.fed then
        { cleared with
          headOffset := tailOffset
          feedbacks := state.feedbacks ++ [tailOffset] }
      else cleared := by
  have isImage := inv.images sent (by rw [listed]; exact List.mem_cons_self)
  have large := isImage.large
  have whole : sent.whole = sent.image.length + 8 := rfl
  have size : sent.image.length - 8 + 8 + 8 = sent.whole := by omega
  have small : sent.whole ≤ threadPaddingSize + 8 := Nat.add_le_add_right isImage.1 8
  have place : (state.tailOffset + (sent.image.length - 8) + 8 + 8) % threadBufSize =
      (counters.cleaned + sent.whole) % threadBufSize := by
    rw [← size, inv.tailOffset, Nat.add_assoc, Nat.add_assoc, Nat.mod_add_mod, Nat.add_assoc]
  have found := inv.check
  rw [listed] at found
  dsimp only at found
  rw [if_pos ⟨landed, acked⟩] at found
  rw [State.poll, found]
  dsimp only
  rw [place, size, inv.processed_eq small, inv.memory_clear listed, listed, List.tail_cons]

/-- The first log is cleared, and the offset fed back after an eighth of the ring. -/
theorem Inv.clear (inv : Inv state counters) {sent : Sent} {rest : List Sent}
    (listed : state.logs = sent :: rest) (landed : sent.landed) (acked : sent.acked) :
    ∃ counters, Inv state.poll counters := by
  have small := (inv.images sent (by rw [listed]; exact List.mem_cons_self)).1
  have whole : sent.whole = sent.image.length + 8 := rfl
  have near := inv.near
  obtain ⟨hole, padding, buf, eighth⟩ := sizes
  have waiting := inv.waiting
  rw [listed, List.map_cons, List.sum_cons, ← Nat.add_assoc] at waiting
  have placed := inv.placed
  rw [listed, List.map_cons, List.map_cons, places] at placed
  have images := inv.images
  rw [listed] at images
  rw [inv.poll_eq listed landed acked]
  dsimp only
  split
  · rename_i enough
    have next : Spaced counters.fed (counters.cleaned + sent.whole) := ⟨1, by omega, by omega⟩
    refine ⟨{ counters with
      cleaned := counters.cleaned + sent.whole
      fed := counters.cleaned + sent.whole
      coming := counters.coming ++ [counters.cleaned + sent.whole] }, ?_⟩
    exact
      { inv with
        tailOffset := rfl
        headOffset := rfl
        feedbacks := by
          dsimp only
          rw [inv.feedbacks, List.map_append, List.map_singleton]
        waiting := waiting
        behind := Nat.le_refl _
        near := by
          dsimp only
          omega
        spaced := by
          dsimp only
          rw [← List.cons_append, ← List.cons_append, List.pairwise_append]
          refine ⟨inv.spaced, List.pairwise_singleton _ _, fun counter member later isLast => ?_⟩
          rw [List.mem_singleton.mp isLast]
          exact (inv.spaced_fed member).trans next
        last := by
          dsimp only
          rw [← List.cons_append, List.getLast?_concat]
        placed := (List.cons.inj placed).2
        images := fun other member => images other (List.mem_cons_of_mem _ member)
        memory := rfl }
  · rename_i few
    refine ⟨{ counters with cleaned := counters.cleaned + sent.whole }, ?_⟩
    exact
      { inv with
        tailOffset := rfl
        waiting := waiting
        behind := Nat.le_add_right_of_le inv.behind
        near := by
          dsimp only
          omega
        placed := (List.cons.inj placed).2
        images := fun other member => images other (List.mem_cons_of_mem _ member)
        memory := rfl }

theorem Inv.poll (inv : Inv state counters) : ∃ counters, Inv state.poll counters := by
  have found := inv.check
  cases listed : state.logs with
  | nil =>
      rw [listed] at found
      rw [State.poll, found]
      exact ⟨counters, inv⟩
  | cons sent rest =>
      by_cases arrived : sent.landed ∧ sent.acked
      · exact inv.clear listed arrived.1 arrived.2
      · rw [listed] at found
        dsimp only at found
        rw [if_neg arrived] at found
        rw [State.poll, found]
        exact ⟨counters, inv⟩

/-- An offset arrives. -/
theorem Inv.feedback (inv : Inv state counters) {header : Nat} {feedbacks : List Nat}
    (listed : state.feedbacks = header :: feedbacks) :
    ∃ counters, Inv { state with header, feedbacks } counters := by
  have coming := inv.feedbacks
  rw [listed] at coming
  cases offsets : counters.coming with
  | nil =>
      rw [offsets] at coming
      cases coming
  | cons seen others =>
      rw [offsets, List.map_cons] at coming
      obtain ⟨isHeader, isComing⟩ := List.cons.inj coming
      have spaced := inv.spaced
      have last := inv.last
      rw [offsets] at spaced last
      rw [List.getLast?_cons_cons] at last
      refine ⟨{ counters with seen, coming := others }, ?_⟩
      exact
        { inv with
          header := isHeader
          feedbacks := isComing
          spaced := spaced.sublist (.cons_cons _ (List.sublist_cons_self _ _))
          last := last }

/-- The backup polls the place of the next log. -/
theorem Inv.polls (inv : Inv state counters) :
    some state.tailOffset = (state.logs.map Sent.offset ++ [state.remoteOffset]).head? := by
  have waiting := inv.waiting
  have placed := inv.placed
  cases listed : state.logs with
  | nil =>
      rw [listed, List.map_nil, List.sum_nil, Nat.add_zero] at waiting
      rw [inv.tailOffset, inv.remoteOffset, waiting]
      rfl
  | cons sent rest =>
      rw [listed, List.map_cons, List.map_cons, places] at placed
      rw [inv.tailOffset, ← (List.cons.inj placed).1]
      rfl

/-- The backup finds a log when all of it has arrived. -/
theorem Inv.found (inv : Inv state counters) (size : Nat) :
    (∃ tailer, checkLogCompletion state.memory state.tailOffset = some (tailer, size)) ↔
      ∃ sent, state.logs.head? = some sent ∧ sent.landed ∧ sent.acked ∧
        sent.image.length = size + 8 := by
  rw [inv.check]
  cases listed : state.logs with
  | nil => simp
  | cons sent rest =>
      have large := (inv.images sent (by rw [listed]; exact List.mem_cons_self)).large
      constructor
      · rintro ⟨tailer, found⟩
        dsimp only at found
        split at found
        · rename_i arrived
          cases found
          exact ⟨sent, rfl, arrived.1, arrived.2, by omega⟩
        · cases found
      · rintro ⟨_, first, landed, acked, sized⟩
        cases first
        refine ⟨state.tailOffset + sent.image.length - txTailerSize, ?_⟩
        dsimp only
        rw [if_pos ⟨landed, acked⟩, sized, Nat.add_sub_cancel]

/-- `log_setup` returns when it has nothing to wait for. -/
theorem Inv.ends (inv : Inv state counters) (cleaned : state.logs = [])
    (arrived : state.feedbacks = []) {total : Nat} (small : total ≤ threadPaddingSize) :
    (state.logSetup total).isSome := by
  have buf : threadBufSize = 16744192 := rfl
  obtain ⟨remain, found⟩ := Option.isSome_iff_exists.mp (inv.room_isSome cleaned arrived small)
  have inside : state.remoteOffset + total < threadBufSize + threadPaddingSize := by
    have place := Nat.mod_lt counters.setUp (show 0 < threadBufSize by omega)
    rw [inv.remoteOffset]
    omega
  rw [State.logSetup, found, Option.bind_some, if_pos inside]
  rfl

end

/-- Every step keeps the invariant. -/
theorem inv_step {before after : State} {action : Action} (inv : ∃ counters, Inv before counters)
    (stepped : step before action = some after) : ∃ counters, Inv after counters := by
  obtain ⟨counters, inv⟩ := inv
  cases action with
  | log call => exact inv.logBackups stepped
  | land index => exact ⟨counters, inv.land stepped⟩
  | ack index => exact ⟨counters, inv.ack stepped⟩
  | poll =>
      rw [← Option.some.inj stepped]
      exact inv.poll
  | feedback =>
      rw [step] at stepped
      split at stepped
      · cases stepped
      · rename_i header feedbacks listed
        cases stepped
        exact inv.feedback listed

end Rocc.Db.DbLogger.Ring
