import Mathlib.Data.List.Nodup
import Mathlib.Data.List.Perm.Basic
import Mathlib.Logic.Function.Basic
import Rocc.Base.Run

/-!
# Lock words and their owners

A lock is one word, 0 when free; every transaction has words of its own.
`Ledger` relates three accounts of who holds what: the words themselves, the
claims a transaction derives from its own state, and the history of
acquisitions and releases.  A protocol shows that each of its steps is one of
`Ledger.frame`, `Ledger.acquire` and `Ledger.release` and then reads mutual
exclusion, two-phase locking and exactly-once release off the history.
-/

namespace Rocc

universe u v w x

variable {Tid : Type u} {Key : Type v}

/-- An entry of the lock history. -/
inductive LockEvent (Tid : Type u) (Key : Type v) where
  | acquired (tid : Tid) (key : Key) (word : Nat)
  | released (tid : Tid) (key : Key) (word : Nat)
  deriving DecidableEq, Repr

/-- The transaction acquired the lock with this word and has not released it. -/
def Owns (events : List (LockEvent Tid Key)) (tid : Tid) (key : Key) (word : Nat) :
    Prop :=
  .acquired tid key word ∈ events ∧ .released tid key word ∉ events

instance [DecidableEq Tid] [DecidableEq Key] (events : List (LockEvent Tid Key))
    (tid : Tid) (key : Key) (word : Nat) : Decidable (Owns events tid key word) :=
  inferInstanceAs (Decidable (_ ∧ _))

/-- No word is 0 and no two transactions share one. -/
structure LockWords (belongs : Tid → Nat → Prop) : Prop where
  ne_zero : ∀ tid word, belongs tid word → word ≠ 0
  unique : ∀ left right word, belongs left word → belongs right word → left = right

/-- No transaction acquires a lock after it has released one. -/
def TwoPhase (events : List (LockEvent Tid Key)) : Prop :=
  events.Pairwise fun earlier later => ∀ tid key word other otherWord,
    earlier = .released tid key word → later ≠ .acquired tid other otherWord

/-- Lock words, claims and history agree.  Transactions that are `growing` have
not released anything. -/
structure Ledger (belongs : Tid → Nat → Prop) (lock : Key → Nat)
    (claims : Tid → List (Key × Nat)) (growing : Tid → Prop)
    (events : List (LockEvent Tid Key)) : Prop where
  keys_nodup : ∀ tid, ((claims tid).map Prod.fst).Nodup
  belongs : ∀ tid, ∀ claim ∈ claims tid, belongs tid claim.2
  held : ∀ tid, ∀ claim ∈ claims tid, lock claim.1 = claim.2
  owner : ∀ key, lock key ≠ 0 → ∃ tid, (key, lock key) ∈ claims tid
  owns : ∀ tid key word, (key, word) ∈ claims tid ↔ Owns events tid key word
  growing : ∀ tid, growing tid → ∀ key word, .released tid key word ∉ events
  paid : ∀ tid key word, .released tid key word ∈ events →
    .acquired tid key word ∈ events
  events_nodup : events.Nodup
  twoPhase : TwoPhase events

namespace Ledger

variable {belongs : Tid → Nat → Prop} {lock lock' : Key → Nat}
variable {claims claims' : Tid → List (Key × Nat)} {growing growing' : Tid → Prop}
variable {events : List (LockEvent Tid Key)} {tid : Tid} {key : Key} {word : Nat}

/-- Nobody holds anything at the start. -/
theorem initial (belongs : Tid → Nat → Prop) (growing : Tid → Prop)
    (free : ∀ key, lock key = 0) (nothing : ∀ tid, claims tid = []) :
    Ledger belongs lock claims growing [] where
  keys_nodup tid := by simp [nothing]
  belongs tid claim member := by simp [nothing] at member
  held tid claim member := by simp [nothing] at member
  owner key locked := absurd (free key) locked
  owns tid key word := by simp [nothing, Owns]
  growing tid _ key word := by simp
  paid tid key word member := by simp at member
  events_nodup := List.nodup_nil
  twoPhase := List.Pairwise.nil

/-- A step that touches no lock may only rearrange claims. -/
theorem frame (ledger : Ledger belongs lock claims growing events)
    (sameLock : ∀ key, lock' key = lock key)
    (sameClaims : ∀ tid, (claims' tid).Perm (claims tid))
    (stillGrowing : ∀ tid, growing' tid → growing tid) :
    Ledger belongs lock' claims' growing' events where
  keys_nodup tid := ((sameClaims tid).map _).nodup_iff.mpr (ledger.keys_nodup tid)
  belongs tid claim member :=
    ledger.belongs tid claim ((sameClaims tid).mem_iff.mp member)
  held tid claim member := by
    rw [sameLock]
    exact ledger.held tid claim ((sameClaims tid).mem_iff.mp member)
  owner key locked := by
    rw [sameLock] at locked ⊢
    obtain ⟨tid, member⟩ := ledger.owner key locked
    exact ⟨tid, (sameClaims tid).mem_iff.mpr member⟩
  owns tid key word := by
    rw [(sameClaims tid).mem_iff]
    exact ledger.owns tid key word
  growing tid grows := ledger.growing tid (stillGrowing tid grows)
  paid := ledger.paid
  events_nodup := ledger.events_nodup
  twoPhase := ledger.twoPhase

/-- A claimed key is not free. -/
theorem claim_ne_zero (ledger : Ledger belongs lock claims growing events)
    (words : LockWords belongs) (member : (key, word) ∈ claims tid) : lock key ≠ 0 := by
  rw [ledger.held tid _ member]
  exact words.ne_zero tid word (ledger.belongs tid _ member)

/-- At most one transaction claims a key, with one word. -/
theorem claim_unique (ledger : Ledger belongs lock claims growing events)
    (words : LockWords belongs) {other : Tid} {otherWord : Nat}
    (member : (key, word) ∈ claims tid) (otherMember : (key, otherWord) ∈ claims other) :
    tid = other ∧ word = otherWord := by
  have sameWord : word = otherWord :=
    (ledger.held tid _ member).symm.trans (ledger.held other _ otherMember)
  subst sameWord
  exact ⟨words.unique tid other word (ledger.belongs tid _ member)
    (ledger.belongs other _ otherMember), rfl⟩

theorem mem_concat {event last : LockEvent Tid Key} :
    event ∈ events ++ [last] ↔ event ∈ events ∨ event = last := by
  simp

/-- A transaction in its growing phase takes a free lock. -/
theorem acquire (ledger : Ledger belongs lock claims growing events)
    (words : LockWords belongs) (free : lock key = 0) (grows : growing tid)
    (mine : belongs tid word) (taken : lock' key = word)
    (sameLock : ∀ other, other ≠ key → lock' other = lock other)
    (added : (claims' tid).Perm ((key, word) :: claims tid))
    (sameClaims : ∀ other, other ≠ tid → claims' other = claims other)
    (stillGrowing : ∀ other, growing' other → growing other) :
    Ledger belongs lock' claims' growing' (events ++ [.acquired tid key word]) := by
  have unclaimed : ∀ other otherWord, (key, otherWord) ∉ claims other :=
    fun other otherWord member => ledger.claim_ne_zero words member free
  have members : ∀ other claim, claim ∈ claims' other ↔
      (other = tid ∧ claim = (key, word)) ∨ claim ∈ claims other := by
    intro other claim
    rcases eq_or_ne other tid with rfl | different
    · rw [added.mem_iff, List.mem_cons]
      simp
    · rw [sameClaims other different]
      simp [different]
  have fresh : .acquired tid key word ∉ events := by
    intro member
    exact unclaimed tid word
      ((ledger.owns tid key word).mpr ⟨member, ledger.growing tid grows key word⟩)
  constructor
  · intro other
    rcases eq_or_ne other tid with rfl | different
    · rw [(added.map _).nodup_iff, List.map_cons, List.nodup_cons]
      refine ⟨?_, ledger.keys_nodup other⟩
      intro member
      obtain ⟨⟨claimed, claimedWord⟩, claimMember, same⟩ := List.mem_map.mp member
      simp only at same
      subst same
      exact unclaimed other claimedWord claimMember
    · rw [sameClaims other different]
      exact ledger.keys_nodup other
  · intro other claim member
    rcases (members other claim).mp member with ⟨rfl, rfl⟩ | member
    · exact mine
    · exact ledger.belongs other claim member
  · intro other claim member
    rcases (members other claim).mp member with ⟨rfl, rfl⟩ | member
    · exact taken
    · have different : claim.1 ≠ key := by
        intro same
        exact unclaimed other claim.2 (same ▸ member)
      rw [sameLock claim.1 different]
      exact ledger.held other claim member
  · intro other locked
    rcases eq_or_ne other key with rfl | different
    · rw [taken]
      exact ⟨tid, (members tid _).mpr (.inl ⟨rfl, rfl⟩)⟩
    · rw [sameLock other different] at locked ⊢
      obtain ⟨holder, member⟩ := ledger.owner other locked
      exact ⟨holder, (members holder _).mpr (.inr member)⟩
  · intro other otherKey otherWord
    rw [members, ledger.owns]
    simp only [Owns, mem_concat, LockEvent.acquired.injEq, reduceCtorEq, or_false,
      Prod.mk.injEq]
    constructor
    · rintro (⟨rfl, rfl, rfl⟩ | ⟨acquired, kept⟩)
      · exact ⟨.inr ⟨rfl, rfl, rfl⟩, ledger.growing other grows otherKey otherWord⟩
      · exact ⟨.inl acquired, kept⟩
    · rintro ⟨acquired | ⟨rfl, rfl, rfl⟩, kept⟩
      · exact .inr ⟨acquired, kept⟩
      · exact .inl ⟨rfl, rfl, rfl⟩
  · intro other otherGrows otherKey otherWord member
    rcases mem_concat.mp member with member | same
    · exact ledger.growing other (stillGrowing other otherGrows) otherKey otherWord member
    · cases same
  · intro other otherKey otherWord member
    rcases mem_concat.mp member with member | same
    · exact mem_concat.mpr (.inl (ledger.paid other otherKey otherWord member))
    · cases same
  · rw [List.nodup_append]
    refine ⟨ledger.events_nodup, by simp, ?_⟩
    intro event member last lastMember same
    rw [List.mem_singleton.mp lastMember] at same
    exact fresh (same ▸ member)
  · rw [TwoPhase, List.pairwise_append]
    refine ⟨ledger.twoPhase, by simp, ?_⟩
    intro earlier member later lastMember other otherKey otherWord third thirdWord released
    rw [List.mem_singleton.mp lastMember]
    rintro ⟨rfl, rfl, rfl⟩
    exact ledger.growing _ grows otherKey otherWord (released ▸ member)

/-- A transaction past its growing phase gives one of its locks back. -/
theorem release (ledger : Ledger belongs lock claims growing events)
    (words : LockWords belongs) (freed : lock' key = 0)
    (sameLock : ∀ other, other ≠ key → lock' other = lock other)
    (removed : (claims tid).Perm ((key, word) :: claims' tid))
    (sameClaims : ∀ other, other ≠ tid → claims' other = claims other)
    (stillGrowing : ∀ other, growing' other → growing other)
    (shrinks : ¬ growing' tid) :
    Ledger belongs lock' claims' growing' (events ++ [.released tid key word]) := by
  have mine : (key, word) ∈ claims tid := removed.mem_iff.mpr (by simp)
  have ownKeys := ledger.keys_nodup tid
  rw [(removed.map _).nodup_iff, List.map_cons, List.nodup_cons] at ownKeys
  have unclaimed : ∀ other otherWord, (key, otherWord) ∉ claims' other := by
    intro other otherWord member
    rcases eq_or_ne other tid with rfl | different
    · exact ownKeys.1 (List.mem_map.mpr ⟨_, member, rfl⟩)
    · rw [sameClaims other different] at member
      exact different (ledger.claim_unique words member mine).1
  have kept : ∀ other claim, claim ∈ claims' other → claim ∈ claims other := by
    intro other claim member
    rcases eq_or_ne other tid with rfl | different
    · exact removed.mem_iff.mpr (List.mem_cons_of_mem _ member)
    · rwa [← sameClaims other different]
  have others : ∀ other claim, claim ∈ claims other → claim.1 ≠ key →
      claim ∈ claims' other := by
    intro other claim member differentKey
    rcases eq_or_ne other tid with rfl | different
    · rcases List.mem_cons.mp (removed.mem_iff.mp member) with rfl | member
      · exact absurd rfl differentKey
      · exact member
    · rwa [sameClaims other different]
  have owned := (ledger.owns tid key word).mp mine
  constructor
  · intro other
    rcases eq_or_ne other tid with rfl | different
    · exact ownKeys.2
    · rw [sameClaims other different]
      exact ledger.keys_nodup other
  · intro other claim member
    exact ledger.belongs other claim (kept other claim member)
  · intro other claim member
    have different : claim.1 ≠ key := by
      intro same
      exact unclaimed other claim.2 (same ▸ member)
    rw [sameLock claim.1 different]
    exact ledger.held other claim (kept other claim member)
  · intro other locked
    rcases eq_or_ne other key with rfl | different
    · exact absurd freed locked
    · rw [sameLock other different] at locked ⊢
      obtain ⟨holder, member⟩ := ledger.owner other locked
      exact ⟨holder, others holder _ member different⟩
  · intro other otherKey otherWord
    simp only [Owns, mem_concat, LockEvent.released.injEq, reduceCtorEq, or_false]
    constructor
    · intro member
      have was := (ledger.owns other otherKey otherWord).mp (kept other _ member)
      refine ⟨was.1, not_or.mpr ⟨was.2, ?_⟩⟩
      rintro ⟨rfl, rfl, rfl⟩
      exact unclaimed _ _ member
    · rintro ⟨acquired, unreleased⟩
      rw [not_or] at unreleased
      have member := (ledger.owns other otherKey otherWord).mpr ⟨acquired, unreleased.1⟩
      apply others other _ member
      rintro rfl
      have same := ledger.claim_unique words member mine
      exact unreleased.2 ⟨same.1, rfl, same.2⟩
  · intro other otherGrows otherKey otherWord member
    rcases mem_concat.mp member with member | same
    · exact ledger.growing other (stillGrowing other otherGrows) otherKey otherWord member
    · cases same
      exact shrinks otherGrows
  · intro other otherKey otherWord member
    rcases mem_concat.mp member with member | same
    · exact mem_concat.mpr (.inl (ledger.paid other otherKey otherWord member))
    · cases same
      exact mem_concat.mpr (.inl owned.1)
  · rw [List.nodup_append]
    refine ⟨ledger.events_nodup, by simp, ?_⟩
    intro event member last lastMember same
    rw [List.mem_singleton.mp lastMember] at same
    exact owned.2 (same ▸ member)
  · rw [TwoPhase, List.pairwise_append]
    refine ⟨ledger.twoPhase, by simp, ?_⟩
    intro earlier _ later lastMember other otherKey otherWord third thirdWord _
    rw [List.mem_singleton.mp lastMember]
    simp

/-! ## What a ledger says -/

/-- A lock word that is not 0 belongs to exactly one transaction, which acquired
the lock and has not released it. -/
theorem existsUnique_owner (ledger : Ledger belongs lock claims growing events)
    (words : LockWords belongs) (locked : lock key ≠ 0) :
    ∃! tid, belongs tid (lock key) ∧ Owns events tid key (lock key) := by
  obtain ⟨tid, member⟩ := ledger.owner key locked
  have mine := ledger.belongs tid _ member
  refine ⟨tid, ⟨mine, (ledger.owns tid key _).mp member⟩, ?_⟩
  rintro other ⟨others, -⟩
  exact words.unique other tid _ others mine

/-- Two transactions never own one lock. -/
theorem owns_unique (ledger : Ledger belongs lock claims growing events)
    (words : LockWords belongs) {other : Tid} {otherWord : Nat}
    (owned : Owns events tid key word) (otherOwned : Owns events other key otherWord) :
    tid = other ∧ word = otherWord :=
  ledger.claim_unique words ((ledger.owns tid key word).mpr owned)
    ((ledger.owns other key otherWord).mpr otherOwned)

/-- The word of a lock somebody owns is the owner's. -/
theorem lock_of_owns (ledger : Ledger belongs lock claims growing events)
    (owned : Owns events tid key word) : lock key = word :=
  ledger.held tid (key, word) ((ledger.owns tid key word).mpr owned)

/-- A transaction without claims has no word in any lock. -/
theorem not_belongs_of_claims_nil (ledger : Ledger belongs lock claims growing events)
    (words : LockWords belongs) (nothing : claims tid = []) (key : Key) :
    ¬ belongs tid (lock key) := by
  intro mine
  obtain ⟨holder, member⟩ := ledger.owner key (words.ne_zero tid _ mine)
  have same := words.unique tid holder _ mine (ledger.belongs holder _ member)
  rw [← same, nothing] at member
  cases member

end Ledger

/-! ## Steps on the books -/

/-- The three accounts of who holds what. -/
structure Books (Tid : Type u) (Key : Type v) where
  lock : Key → Nat
  claims : Tid → List (Key × Nat)
  growing : Tid → Prop
  events : List (LockEvent Tid Key)

/-- The accounts agree. -/
abbrev Books.Balanced (belongs : Tid → Nat → Prop) (books : Books Tid Key) : Prop :=
  Ledger belongs books.lock books.claims books.growing books.events

/-- A step of one transaction: it takes no lock and gives none back, takes a free lock
while it grows, or gives one of its own locks back when it does not. -/
inductive Books.Step (belongs : Tid → Nat → Prop) (tid : Tid)
    (before after : Books Tid Key) : Prop where
  | frame (sameLock : ∀ key, after.lock key = before.lock key)
      (sameClaims : ∀ other, (after.claims other).Perm (before.claims other))
      (stillGrowing : ∀ other, after.growing other → before.growing other)
      (sameEvents : after.events = before.events)
  | acquire (key : Key) (word : Nat) (free : before.lock key = 0)
      (grows : before.growing tid) (mine : belongs tid word) (taken : after.lock key = word)
      (sameLock : ∀ other, other ≠ key → after.lock other = before.lock other)
      (added : (after.claims tid).Perm ((key, word) :: before.claims tid))
      (sameClaims : ∀ other, other ≠ tid → after.claims other = before.claims other)
      (stillGrowing : ∀ other, after.growing other → before.growing other)
      (logged : after.events = before.events ++ [.acquired tid key word])
  | release (key : Key) (word : Nat) (freed : after.lock key = 0)
      (sameLock : ∀ other, other ≠ key → after.lock other = before.lock other)
      (removed : (before.claims tid).Perm ((key, word) :: after.claims tid))
      (sameClaims : ∀ other, other ≠ tid → after.claims other = before.claims other)
      (stillGrowing : ∀ other, after.growing other → before.growing other)
      (shrinks : ¬ after.growing tid)
      (logged : after.events = before.events ++ [.released tid key word])

/-- A step of a transaction leaves a lock word alone, takes a free lock, or clears a word
of its own. -/
def LockStep (belongs : Tid → Nat → Prop) (tid : Tid) (before after : Key → Nat) : Prop :=
  ∀ key, after key = before key ∨ before key = 0 ∨ belongs tid (before key)

namespace Books.Step

variable {belongs : Tid → Nat → Prop} {tid : Tid} {before after : Books Tid Key}

theorem balanced (step : Step belongs tid before after) (words : LockWords belongs)
    (balanced : before.Balanced belongs) : after.Balanced belongs := by
  cases step with
  | frame sameLock sameClaims stillGrowing sameEvents =>
      rw [Balanced, sameEvents]
      exact Ledger.frame balanced sameLock sameClaims stillGrowing
  | acquire key word free grows mine taken sameLock added sameClaims stillGrowing logged =>
      rw [Balanced, logged]
      exact Ledger.acquire balanced words free grows mine taken sameLock added sameClaims
        stillGrowing
  | release key word freed sameLock removed sameClaims stillGrowing shrinks logged =>
      rw [Balanced, logged]
      exact Ledger.release balanced words freed sameLock removed sameClaims stillGrowing
        shrinks

theorem lockStep (step : Step belongs tid before after)
    (balanced : before.Balanced belongs) :
    LockStep belongs tid before.lock after.lock := by
  intro key
  cases step with
  | frame sameLock _ _ _ => exact .inl (sameLock key)
  | acquire target word free _ _ _ sameLock _ _ _ _ =>
      by_cases same : key = target
      · exact .inr (.inl (same ▸ free))
      · exact .inl (sameLock key same)
  | release target word _ sameLock removed _ _ _ _ =>
      by_cases same : key = target
      · subst same
        have claim : (key, word) ∈ before.claims tid := removed.mem_iff.mpr (by simp)
        right
        right
        rw [balanced.held tid _ claim]
        exact balanced.belongs tid _ claim
      · exact .inl (sameLock key same)

end Books.Step

/-! ## Claims that transactions derive from their state -/

section OfClaims

variable {Txn : Type w} (claims : Tid → Txn → List (Key × Nat)) (growing : Txn → Prop)

/-- Books of a system whose transactions know which locks they hold. -/
def Books.ofClaims (lock : Key → Nat) (txns : Tid → Txn) (events : List (LockEvent Tid Key)) :
    Books Tid Key where
  lock := lock
  claims tid := claims tid (txns tid)
  growing tid := growing (txns tid)
  events := events

variable {claims growing} {belongs : Tid → Nat → Prop}
variable {lock lock' : Key → Nat} {txns : Tid → Txn} {events : List (LockEvent Tid Key)}
variable {tid : Tid} {txn : Txn} {key : Key} {word : Nat}
variable [DecidableEq Tid]

theorem Books.ofClaims_growing (grows : growing txn → growing (txns tid)) :
    ∀ other, growing (Function.update txns tid txn other) → growing (txns other) := by
  rw [Function.forall_update_iff txns fun other txn => growing txn → growing (txns other)]
  exact ⟨grows, fun _ _ => id⟩

/-- A step that touches no lock. -/
theorem Books.Step.ofClaims_frame (sameLock : ∀ other, lock' other = lock other)
    (sameClaims : (claims tid txn).Perm (claims tid (txns tid)))
    (stillGrowing : growing txn → growing (txns tid)) :
    Step belongs tid (ofClaims claims growing lock txns events)
      (ofClaims claims growing lock' (Function.update txns tid txn) events) := by
  refine .frame sameLock ?_ (ofClaims_growing stillGrowing) rfl
  simp only [ofClaims]
  rw [Function.forall_update_iff txns fun other txn =>
    (claims other txn).Perm (claims other (txns other))]
  exact ⟨sameClaims, fun _ _ => .refl _⟩

/-- A step that takes a free lock. -/
theorem Books.Step.ofClaims_acquire (mine : belongs tid word) (free : lock key = 0)
    (taken : lock' key = word) (sameLock : ∀ other, other ≠ key → lock' other = lock other)
    (grows : growing (txns tid))
    (added : (claims tid txn).Perm ((key, word) :: claims tid (txns tid))) :
    Step belongs tid (ofClaims claims growing lock txns events)
      (ofClaims claims growing lock' (Function.update txns tid txn)
        (events ++ [.acquired tid key word])) := by
  refine .acquire key word free grows mine taken sameLock ?_ ?_
    (ofClaims_growing fun _ => grows) rfl
  · simp only [ofClaims, Function.update_self]
    exact added
  · intro other different
    simp only [ofClaims, Function.update_of_ne different]

/-- A step that gives back a lock the transaction holds. -/
theorem Books.Step.ofClaims_release (freed : lock' key = 0)
    (sameLock : ∀ other, other ≠ key → lock' other = lock other)
    (removed : (claims tid (txns tid)).Perm ((key, word) :: claims tid txn))
    (shrinks : ¬ growing txn) :
    Step belongs tid (ofClaims claims growing lock txns events)
      (ofClaims claims growing lock' (Function.update txns tid txn)
        (events ++ [.released tid key word])) := by
  refine .release key word freed sameLock ?_ ?_
    (ofClaims_growing fun grows => absurd grows shrinks) ?_ rfl
  · simp only [ofClaims, Function.update_self]
    exact removed
  · intro other different
    simp only [ofClaims, Function.update_of_ne different]
  · simpa [ofClaims] using shrinks

end OfClaims

/-! ## Transactions with one lock word -/

section OfTxns

variable {Txn : Type w} (locked : Txn → List Key) (growing : Txn → Prop) (word : Tid → Nat)

/-- Books of a system whose transactions list the locks they hold and have one lock word
each. -/
def Books.ofTxns (lock : Key → Nat) (txns : Tid → Txn) (events : List (LockEvent Tid Key)) :
    Books Tid Key where
  lock := lock
  claims tid := (locked (txns tid)).map (·, word tid)
  growing tid := growing (txns tid)
  events := events

variable {locked growing word} {belongs : Tid → Nat → Prop}
variable {lock lock' : Key → Nat} {txns : Tid → Txn} {events : List (LockEvent Tid Key)}
variable {tid : Tid} {txn : Txn} {key : Key}

/-- The keys of the claims are the locks listed. -/
theorem Books.ofTxns_keys :
    ((ofTxns locked growing word lock txns events).claims tid).map Prod.fst =
      locked (txns tid) := by
  simp [ofTxns, Function.comp_def]

theorem Books.ofTxns_eq :
    ofTxns locked growing word lock txns events =
      ofClaims (fun tid txn => (locked txn).map (·, word tid)) growing lock txns events :=
  rfl

variable [DecidableEq Tid]

/-- A step that touches no lock. -/
theorem Books.Step.ofTxns_frame (sameLock : ∀ other, lock' other = lock other)
    (sameLocked : (locked txn).Perm (locked (txns tid)))
    (stillGrowing : growing txn → growing (txns tid)) :
    Step belongs tid (ofTxns locked growing word lock txns events)
      (ofTxns locked growing word lock' (Function.update txns tid txn) events) := by
  rw [ofTxns_eq, ofTxns_eq]
  exact ofClaims_frame sameLock (sameLocked.map _) stillGrowing

/-- A step that takes a free lock. -/
theorem Books.Step.ofTxns_acquire (mine : belongs tid (word tid)) (free : lock key = 0)
    (taken : lock' key = word tid) (sameLock : ∀ other, other ≠ key → lock' other = lock other)
    (grows : growing (txns tid)) (added : (locked txn).Perm (key :: locked (txns tid))) :
    Step belongs tid (ofTxns locked growing word lock txns events)
      (ofTxns locked growing word lock' (Function.update txns tid txn)
        (events ++ [.acquired tid key (word tid)])) := by
  rw [ofTxns_eq, ofTxns_eq]
  exact ofClaims_acquire mine free taken sameLock grows (added.map _)

/-- A step that gives back a lock the transaction holds. -/
theorem Books.Step.ofTxns_release (freed : lock' key = 0)
    (sameLock : ∀ other, other ≠ key → lock' other = lock other)
    (removed : (locked (txns tid)).Perm (key :: locked txn)) (shrinks : ¬ growing txn) :
    Step belongs tid (ofTxns locked growing word lock txns events)
      (ofTxns locked growing word lock' (Function.update txns tid txn)
        (events ++ [.released tid key (word tid)])) := by
  rw [ofTxns_eq, ofTxns_eq]
  exact ofClaims_release freed sameLock (removed.map _) shrinks

end OfTxns

/-! ## Order of conflicting transactions -/

/-- A lock changes hands only after its holder has released it. -/
def Handover (events : List (LockEvent Tid Key)) : Prop :=
  events.Pairwise fun earlier later => ∀ first second key word otherWord,
    earlier = .acquired first key word → later = .acquired second key otherWord →
      .released first key word ∈ events

/-- `first` had a lock before `second` had it. -/
def Conflict (events : List (LockEvent Tid Key)) (first second : Tid) : Prop :=
  ∃ key word otherWord,
    List.Sublist [.acquired first key word, .acquired second key otherWord] events

theorem Handover.concat {events : List (LockEvent Tid Key)} (handover : Handover events)
    {last : LockEvent Tid Key}
    (released : ∀ first second key word otherWord, last = .acquired second key otherWord →
      .acquired first key word ∈ events → .released first key word ∈ events) :
    Handover (events ++ [last]) := by
  rw [Handover, List.pairwise_append]
  refine ⟨handover.imp ?_, by simp, ?_⟩
  · intro earlier later order first second key word otherWord isFirst isSecond
    exact List.mem_append_left _ (order first second key word otherWord isFirst isSecond)
  · intro earlier member later lastMember first second key word otherWord isFirst isSecond
    rw [List.mem_singleton.mp lastMember] at isSecond
    subst isFirst
    exact List.mem_append_left _
      (released first second key word otherWord isSecond member)

/-- The holder of a conflicting lock has released it. -/
theorem Handover.released {events : List (LockEvent Tid Key)} (handover : Handover events)
    {first second : Tid} (conflict : Conflict events first second) :
    ∃ key word, .released first key word ∈ events := by
  obtain ⟨key, word, otherWord, both⟩ := conflict
  have ordered := handover.sublist both
  rw [List.pairwise_pair] at ordered
  exact ⟨key, word, ordered first second key word otherWord rfl rfl⟩

theorem Conflict.of_concat {events : List (LockEvent Tid Key)} {last : LockEvent Tid Key}
    {first second : Tid} (conflict : Conflict (events ++ [last]) first second) :
    Conflict events first second ∨ ∃ key word, last = .acquired second key word := by
  obtain ⟨key, word, otherWord, both⟩ := conflict
  obtain ⟨left, right, split, leftPart, rightPart⟩ := List.sublist_append_iff.mp both
  rcases List.sublist_singleton.mp rightPart with rfl | rfl
  · left
    rw [List.append_nil] at split
    exact ⟨key, word, otherWord, split ▸ leftPart⟩
  · right
    have lasts := congrArg List.getLast? split
    simp only [List.getLast?_append, List.getLast?_singleton] at lasts
    exact ⟨key, otherWord, by simpa using lasts.symm⟩

/-- A new conflict is with the transaction that takes a lock. -/
theorem Books.Step.conflict {belongs : Tid → Nat → Prop} {tid first second : Tid}
    {before after : Books Tid Key} (step : Step belongs tid before after)
    (conflict : Conflict after.events first second) :
    Conflict before.events first second ∨ (second = tid ∧ before.growing tid) := by
  cases step with
  | frame _ _ _ sameEvents =>
      rw [sameEvents] at conflict
      exact .inl conflict
  | acquire key word _ grows _ _ _ _ _ _ logged =>
      rw [logged] at conflict
      rcases conflict.of_concat with earlier | ⟨_, _, isLast⟩
      · exact .inl earlier
      · cases isLast
        exact .inr ⟨rfl, grows⟩
  | release key word _ _ _ _ _ _ logged =>
      rw [logged] at conflict
      rcases conflict.of_concat with earlier | ⟨_, _, isLast⟩
      · exact .inl earlier
      · cases isLast

/-- Steps on the books keep the order in which a lock changes hands. -/
theorem Books.Step.handover {belongs : Tid → Nat → Prop} {tid : Tid}
    {before after : Books Tid Key} (step : Step belongs tid before after)
    (words : LockWords belongs) (balanced : before.Balanced belongs)
    (handover : Handover before.events) : Handover after.events := by
  cases step with
  | frame _ _ _ sameEvents =>
      rw [sameEvents]
      exact handover
  | acquire key word free _ _ _ _ _ _ _ logged =>
      rw [logged]
      apply handover.concat
      intro first second other firstWord otherWord isLast acquired
      cases isLast
      by_contra unreleased
      have claim := (balanced.owns first key firstWord).mpr ⟨acquired, unreleased⟩
      exact balanced.claim_ne_zero words claim free
  | release key word _ _ _ _ _ _ logged =>
      rw [logged]
      apply handover.concat
      intro first second other firstWord otherWord isLast _
      cases isLast

/-- No lock is released twice, and none that was not acquired; what is still to be
released is held by its sender. -/
structure SafeRelease (belongs : Tid → Nat → Prop) (books : Books Tid Key)
    (unlocks : Tid → List Key) : Prop where
  once : books.events.Nodup
  acquired : ∀ tid key word, .released tid key word ∈ books.events →
    .acquired tid key word ∈ books.events
  inFlight_nodup : ∀ tid, (unlocks tid).Nodup
  inFlight : ∀ tid, ∀ key ∈ unlocks tid,
    belongs tid (books.lock key) ∧ Owns books.events tid key (books.lock key)

/-- Balanced books are safe as long as only claimed locks are released. -/
theorem Ledger.safeRelease {belongs : Tid → Nat → Prop} {books : Books Tid Key}
    (balanced : books.Balanced belongs) {unlocks : Tid → List Key}
    (claimed : ∀ tid, unlocks tid = [] ∨ unlocks tid = (books.claims tid).map Prod.fst) :
    SafeRelease belongs books unlocks where
  once := balanced.events_nodup
  acquired := balanced.paid
  inFlight_nodup tid := by
    rcases claimed tid with nothing | same
    · rw [nothing]
      exact List.nodup_nil
    · rw [same]
      exact balanced.keys_nodup tid
  inFlight := by
    intro tid key member
    rcases claimed tid with nothing | same
    · rw [nothing] at member
      cases member
    · rw [same] at member
      obtain ⟨⟨claimedKey, word⟩, claim, sameKey⟩ := List.mem_map.mp member
      simp only at sameKey
      subst sameKey
      rw [balanced.held tid _ claim]
      exact ⟨balanced.belongs tid _ claim, (balanced.owns tid _ word).mp claim⟩

/-! ## Releases of a system -/

section System

variable {State : Type w} {Action : Type x}

/-- In every run each lock is released at most once and only by a transaction that
acquired it, and no step changes the lock word of another transaction. -/
def ReleasesOnce (belongs : Tid → Nat → Prop) (step : State → Action → Option State)
    (allowed : State → Action → Prop) (start : State) (books : State → Books Tid Key)
    (unlocks : State → Tid → List Key) (actor : Action → Tid) : Prop :=
  ∀ state, Reach step allowed start state →
    SafeRelease belongs (books state) (unlocks state) ∧
    ∀ action after, allowed state action → step state action = some after →
      LockStep belongs (actor action) (books state).lock (books after).lock

namespace ReleasesOnce

variable {belongs : Tid → Nat → Prop} {step : State → Action → Option State}
variable {allowed : State → Action → Prop} {start : State} {books : State → Books Tid Key}
variable {unlocks : State → Tid → List Key} {actor : Action → Tid}

/-- Locks are released once when every step is one on the books and an invariant says that
only claimed locks are released. -/
theorem of_step (words : LockWords belongs) (inv : State → Prop)
    (balanced : (books start).Balanced belongs) (initially : inv start)
    (onBooks : ∀ before action after, inv before → allowed before action →
      step before action = some after →
        Books.Step belongs (actor action) (books before) (books after) ∧ inv after)
    (claimed : ∀ state, inv state → ∀ tid, unlocks state tid = [] ∨
      unlocks state tid = ((books state).claims tid).map Prod.fst) :
    ReleasesOnce belongs step allowed start books unlocks actor := by
  intro state reach
  obtain ⟨stillBalanced, holds⟩ := reach.invariant
    (fun state => (books state).Balanced belongs ∧ inv state) ⟨balanced, initially⟩ (by
      rintro before action after ⟨balanced, holds⟩ permitted stepped
      obtain ⟨moved, kept⟩ := onBooks before action after holds permitted stepped
      exact ⟨moved.balanced words balanced, kept⟩)
  constructor
  · exact Ledger.safeRelease stillBalanced (claimed state holds)
  · intro action after permitted stepped
    exact (onBooks state action after holds permitted stepped).1.lockStep stillBalanced

/-- A reachable step that clears the lock word of another transaction. -/
theorem not_of_step {state : State} {key : Key} {word : Nat} (action : Action)
    (reach : Reach step allowed start state) (permitted : allowed state action)
    (locked : (books state).lock key = word) (taken : word ≠ 0)
    (foreign : ¬ belongs (actor action) word)
    (cleared : (step state action).any (fun after => (books after).lock key = 0) = true) :
    ¬ ReleasesOnce belongs step allowed start books unlocks actor := by
  intro safe
  obtain ⟨after, stepped, free⟩ := (Option.any_eq_true _ _).mp cleared
  rcases (safe state reach).2 action after permitted stepped key with same | unlocked | mine
  · exact taken (locked.symm.trans (same.symm.trans (of_decide_eq_true free)))
  · exact taken (locked.symm.trans unlocked)
  · exact foreign (locked ▸ mine)

end ReleasesOnce

end System

end Rocc
