import Mathlib.Data.Finset.Dedup
import Mathlib.Data.List.Nodup
import Rocc.Rtx.Batch
import Rocc.Rtx.Record

/-!
# Batched reads of `OCC`

`remote_read` and `remote_write` append an entry to a set and an `RTXReadItem` to the batch;
the item carries the place of the entry, shifted by one bit for the set.  Every server
answers the items of its machine and echoes their `idx`; `parse_batch_result` walks over
the replies, which stand in the reply buffer in the order in which they arrived, and fills
the entry each response names.

The sets may already hold entries, of local records or of an earlier batch.
-/

set_option linter.unusedSectionVars false

namespace Rocc.Occ.BatchRead

open Rtx Rtx.Batch Memory

/-! ## The client -/

/-- `remote_read` or `remote_write`. -/
inductive Access where
  | read
  | write
  deriving DecidableEq, Repr

/-- `RTX_REQ_READ` and `RTX_REQ_READ_LOCK`, and the lowest bit of `idx`. -/
def Access.code : Access → Nat
  | .read => 0
  | .write => 1

/-- The arguments of a call. -/
structure Call where
  access : Access
  pid : UInt8
  tableid : UInt8
  key : UInt64
  len : UInt16
  deriving DecidableEq, Repr

/-- `ReadSetItem`; no `data_ptr` stands for `NULL`. -/
structure Entry where
  pid : UInt8
  tableid : UInt8
  key : UInt64
  len : UInt16
  data : Option (List UInt8)
  seq : Nat
  deriving DecidableEq, Repr

/-- The entry a call appends. -/
def Call.entry (call : Call) : Entry where
  pid := call.pid
  tableid := call.tableid
  key := call.key
  len := call.len
  data := none
  seq := 0

/-- `read_set_` and `write_set_`. -/
abbrev Sets := Access → List Entry

/-- The item of a call whose entry got this number: its place, shifted, with the bit of its
set. -/
def Call.item (call : Call) (number : Nat) : Item rtxReadItem where
  args := [call.access.code, call.pid.toNat, call.key.toNat, call.tableid.toNat,
    call.len.toNat, number]
  payload := []
  arity := rfl
  sized := List.length_nil

/-- The sets and the batch. -/
structure Client where
  sets : Sets
  ctrl : Ctrl

/-- The number of the next entry of a set. -/
def Sets.number (sets : Sets) (access : Access) : Nat :=
  2 * (sets access).length + access.code

/-- Append an entry to a set. -/
def Sets.push (sets : Sets) (access : Access) (entry : Entry) : Sets :=
  Function.update sets access (sets access ++ [entry])

/-- `add_batch_read` and `add_batch_write`. -/
def addBatch (client : Client) (call : Call) : Client where
  sets := client.sets.push call.access call.entry
  ctrl := client.ctrl.addBatchEntry (call.item (client.sets.number call.access))

/-- A batch is started and filled. -/
def addBatches (sets : Sets) (reqBuf : Memory) (calls : List Call) : Client :=
  calls.foldl addBatch { sets, ctrl := Ctrl.clear reqBuf }

/-! ## The servers -/

/-- The records of all machines, by table and key. -/
structure Store where
  record : Nat → Nat → Nat → Record Memory
  word : ∀ machine tableid key, (record machine tableid key).seq < wordBound

/-- `OCCResponse` for a record with the value behind it; a record that is being overwritten
keeps `local_get_op` in its loop. -/
def response (record : Record Memory) (idx len : Nat) : Option (List UInt8) :=
  record.localGetOp.map fun (seq, value) =>
    toBytes 2 len ++ (toBytes 2 idx ++ (List.replicate 4 0 ++ (toBytes 8 seq ++
      value.read 0 len)))

/-- The body of the loop of `read_write_rpc_handler`. -/
def handleItem (store : Store) (machine : Nat) : List Nat → Option (List UInt8)
  | [type, _, key, tableid, len, idx] =>
      if type = 0 ∨ type = 1 then response (store.record machine tableid key) idx len else none
  | _ => none

/-- The responses to some items. -/
def handleItems (store : Store) (machine : Nat) : List (List Nat) → Option (List UInt8)
  | [] => some []
  | item :: rest =>
      match handleItem store machine item, handleItems store machine rest with
      | some bytes, some others => some (bytes ++ others)
      | _, _ => none

/-- The fields of the items of a message for a machine. -/
def itemsFor (msg : Memory) (machine : Nat) : List (List Nat) :=
  (handled rtxReadItem msg machine).map Prod.fst

/-- `read_write_rpc_handler`: `ReplyHeader` and the responses. -/
def readWriteRpcHandler (store : Store) (machine : Nat) (msg : Memory) :
    Option (List UInt8) :=
  if itemsFor msg machine = [] then
    none
  else
    (handleItems store machine (itemsFor msg machine)).map
      (toBytes 2 (itemsFor msg machine).length ++ ·)

/-- The replies of some machines in the order in which they arrive. -/
def replies (store : Store) (msg : Memory) : List Nat → Option (List UInt8)
  | [] => some []
  | machine :: rest =>
      match readWriteRpcHandler store machine msg, replies store msg rest with
      | some bytes, some others => some (bytes ++ others)
      | _, _ => none

/-! ## Parsing -/

/-- A response as the client sees it: `idx`, `seq` and the bytes behind it. -/
structure Response where
  idx : Nat
  seq : Nat
  bytes : Nat → List UInt8

/-- The `OCCResponse` at a place of the reply buffer. -/
def responseAt (buf : Memory) (ptr : Nat) : Response where
  idx := ofBytes (buf.read (ptr + 2) 2)
  seq := buf.readWord (ptr + 8)
  bytes len := buf.read (ptr + 16) len

/-- The set a response names. -/
def Response.access (response : Response) : Access :=
  if response.idx % 2 = 0 then .read else .write

/-- An entry takes over a response. -/
def Response.fill (response : Response) (entry : Entry) : Entry :=
  { entry with data := some (response.bytes entry.len.toNat), seq := response.seq }

/-- The entry a response names takes it over. -/
def Sets.apply (sets : Sets) (response : Response) : Sets :=
  Function.update sets response.access
    ((sets response.access).modify (response.idx / 2) response.fill)

/-- The inner loop of `parse_batch_result`: the place behind the responses and the sets, or
`return false`. -/
def parseItems (buf : Memory) : Nat → Nat → Sets → Option (Nat × Sets)
  | 0, ptr, sets => some (ptr, sets)
  | num + 1, ptr, sets =>
      let payload := ofBytes (buf.read ptr 2)
      let response := responseAt buf ptr
      if response.seq = conflictWriteFlag then
        none
      else
        parseItems buf num (ptr + 16 + payload) (sets.apply response)

/-- The outer loop. -/
def parseReplies (buf : Memory) : Nat → Nat → Sets → Option Sets
  | 0, _, sets => some sets
  | num + 1, ptr, sets =>
      match parseItems buf (ofBytes (buf.read ptr 2)) (ptr + 2) sets with
      | some (ptr, sets) => parseReplies buf num ptr sets
      | none => none

/-- `parse_batch_result`; no result stands for `return false`. -/
def parseBatchResult (buf : Memory) (num : Nat) (sets : Sets) : Option Sets :=
  parseReplies buf num 0 sets

/-! ## What the batch is for -/

/-- The entry of a call with the record it names. -/
def Call.loaded (store : Store) (call : Call) : Entry :=
  let record := store.record call.pid.toNat call.tableid.toNat call.key.toNat
  { call.entry with data := some (record.value.read 0 call.len.toNat), seq := record.seq }

/-- The calls for a set. -/
def callsOf (calls : List Call) (access : Access) : List Call :=
  calls.filter fun call => call.access = access

/-- The sets with an entry for every call. -/
def Sets.append (sets : Sets) (calls : List Call) (entry : Call → Entry) : Sets :=
  fun access => sets access ++ (callsOf calls access).map entry

/-- Every server that gets the batch finds an item to answer, and when the replies have
arrived, in whatever order, and parsing them returns true, every entry of the batch holds
its record and all others are as they were. -/
structure Reaches (sets : Sets) (reqBuf : Memory) (calls : List Call) : Prop where
  answered : ∀ msg, (addBatches sets reqBuf calls).ctrl.sendBatchOp = some msg →
    ∀ machine ∈ (addBatches sets reqBuf calls).ctrl.macSet, itemsFor msg machine ≠ []
  filled : ∀ msg, (addBatches sets reqBuf calls).ctrl.sendBatchOp = some msg →
    ∀ (store : Store) (order : List Nat) (replyBuf : Memory) (bytes : List UInt8) (after : Sets),
      order.Nodup →
      (∀ machine, machine ∈ order ↔ machine ∈ (addBatches sets reqBuf calls).ctrl.macSet) →
      replies store msg order = some bytes →
      parseBatchResult (replyBuf.write 0 bytes) order.length
        (addBatches sets reqBuf calls).sets = some after →
      after = sets.append calls (Call.loaded store)

/-! ## Filling the batch -/

/-- The calls with the numbers of their entries. -/
def numbered (sets : Sets) : List Call → List (Call × Nat)
  | [] => []
  | call :: rest =>
      (call, sets.number call.access) :: numbered (sets.push call.access call.entry) rest

/-- The items of a batch. -/
def requests (sets : Sets) (calls : List Call) : List (Item rtxReadItem) :=
  (numbered sets calls).map fun mail => mail.1.item mail.2

theorem append_nil (sets : Sets) (entry : Call → Entry) : sets.append [] entry = sets := by
  funext access
  simp [Sets.append, callsOf]

/-- The sets and the message of a batch. -/
theorem addBatches_eq (sets : Sets) (reqBuf : Memory) (calls : List Call) :
    addBatches sets reqBuf calls =
      { sets := sets.append calls Call.entry
        ctrl := (Ctrl.clear reqBuf).addAll (requests sets calls) } := by
  have general : ∀ client : Client, calls.foldl addBatch client =
      { sets := client.sets.append calls Call.entry
        ctrl := client.ctrl.addAll (requests client.sets calls) } := by
    induction calls with
    | nil =>
        intro client
        rw [append_nil]
        rfl
    | cons call rest ih =>
        intro client
        rw [List.foldl_cons, ih]
        simp only [addBatch, requests, numbered, List.map_cons, Ctrl.addAll, List.foldl_cons,
          Client.mk.injEq, and_true]
        funext access
        by_cases same : call.access = access
        · subst same
          simp [Sets.append, Sets.push, callsOf]
        · simp [Sets.append, Sets.push, callsOf, same, Function.update_of_ne (Ne.symm same)]
  exact general _

theorem length_numbered (sets : Sets) (calls : List Call) :
    (numbered sets calls).length = calls.length := by
  induction calls generalizing sets with
  | nil => rfl
  | cons call rest ih => rw [numbered, List.length_cons, List.length_cons, ih]

theorem map_fst_numbered (sets : Sets) (calls : List Call) :
    (numbered sets calls).map Prod.fst = calls := by
  induction calls generalizing sets with
  | nil => rfl
  | cons call rest ih => rw [numbered, List.map_cons, ih]

/-- Length of a set after one more entry. -/
theorem length_push (sets : Sets) (access other : Access) (entry : Entry) :
    (sets.push access entry other).length =
      (sets other).length + if access = other then 1 else 0 := by
  by_cases same : access = other
  · subst same
    simp [Sets.push]
  · simp [Sets.push, same, Function.update_of_ne (Ne.symm same)]

/-- Numbers start behind the entries a set has, and carry the bit of the set. -/
theorem of_mem_numbered {sets : Sets} {calls : List Call} {call : Call} {number : Nat}
    (member : (call, number) ∈ numbered sets calls) :
    ∃ place, number = 2 * place + call.access.code ∧
      (sets call.access).length ≤ place ∧
      place < (sets call.access).length + (callsOf calls call.access).length := by
  induction calls generalizing sets with
  | nil => cases member
  | cons first rest ih =>
      rw [numbered, List.mem_cons] at member
      rcases member with same | member
      · cases same
        exact ⟨_, rfl, le_rfl, by simp [callsOf]⟩
      · obtain ⟨place, isNumber, behind, before⟩ := ih member
        rw [length_push] at behind before
        refine ⟨place, isNumber, by omega, before.trans_le ?_⟩
        by_cases same : first.access = call.access
        · simp [callsOf, same]
          omega
        · simp [callsOf, same]

theorem Access.code_lt (access : Access) : access.code < 2 := by
  cases access <;> decide

theorem Access.code_injective {left right : Access} (same : left.code = right.code) :
    left = right := by
  cases left <;> cases right <;> first | rfl | cases same

/-- No two calls share a number. -/
theorem nodup_numbered (sets : Sets) (calls : List Call) :
    ((numbered sets calls).map Prod.snd).Nodup := by
  induction calls generalizing sets with
  | nil => exact List.nodup_nil
  | cons call rest ih =>
      rw [numbered, List.map_cons, List.nodup_cons]
      refine ⟨?_, ih _⟩
      intro member
      obtain ⟨⟨other, number⟩, inRest, same⟩ := List.mem_map.mp member
      obtain ⟨place, isNumber, behind, -⟩ := of_mem_numbered inRest
      have otherCode := other.access.code_lt
      have code := call.access.code_lt
      simp only [Sets.number] at same
      have sameAccess : other.access = call.access := Access.code_injective (by omega)
      rw [length_push, sameAccess, if_pos rfl] at behind
      rw [sameAccess] at isNumber
      omega

/-- Every new entry of a set has a call with its number. -/
theorem exists_numbered (sets : Sets) (calls : List Call) (access : Access) (index : Nat)
    (inside : index < (callsOf calls access).length) :
    ∃ call, (callsOf calls access)[index]? = some call ∧ call.access = access ∧
      (call, 2 * ((sets access).length + index) + access.code) ∈ numbered sets calls := by
  induction calls generalizing sets index with
  | nil => simp [callsOf] at inside
  | cons first rest ih =>
      have lengths := length_push sets first.access access first.entry
      by_cases same : first.access = access
      · subst same
        rw [if_pos rfl] at lengths
        have split : callsOf (first :: rest) first.access = first :: callsOf rest first.access := by
          simp [callsOf]
        rw [split] at inside ⊢
        cases index with
        | zero => exact ⟨first, rfl, rfl, List.mem_cons_self⟩
        | succ index =>
            obtain ⟨call, found, isAccess, member⟩ :=
              ih (sets.push first.access first.entry) index (by simpa using inside)
            refine ⟨call, by simpa using found, isAccess, List.mem_cons_of_mem _ ?_⟩
            rw [lengths] at member
            have place : 2 * ((sets first.access).length + 1 + index) =
                2 * ((sets first.access).length + (index + 1)) := by omega
            rwa [place] at member
      · rw [if_neg same, Nat.add_zero] at lengths
        have split : callsOf (first :: rest) access = callsOf rest access := by
          simp [callsOf, same]
        rw [split] at inside ⊢
        obtain ⟨call, found, isAccess, member⟩ :=
          ih (sets.push first.access first.entry) index inside
        rw [lengths] at member
        exact ⟨call, found, isAccess, List.mem_cons_of_mem _ member⟩

/-! ## Taking over responses -/

/-- The number of an entry names its set and its place. -/
theorem Response.access_eq {response : Response} {access : Access} {place : Nat}
    (named : response.idx = 2 * place + access.code) :
    response.access = access ∧ response.idx / 2 = place := by
  have code := access.code_lt
  refine ⟨?_, by omega⟩
  cases access <;> simp only [Access.code] at named <;> simp [Response.access, named]

theorem Response.idx_eq (response : Response) :
    response.idx = 2 * (response.idx / 2) + response.access.code := by
  unfold Response.access
  split <;> simp only [Access.code] <;> omega

/-- A response changes the entry it names and no other. -/
theorem getElem?_apply (sets : Sets) (response : Response) (access : Access) (place : Nat) :
    (sets.apply response access)[place]? =
      if response.idx = 2 * place + access.code then (sets access)[place]?.map response.fill
      else (sets access)[place]? := by
  split
  · rename_i named
    obtain ⟨isAccess, isPlace⟩ := Response.access_eq named
    rw [Sets.apply, isAccess, Function.update_self, isPlace, List.getElem?_modify_eq]
    rfl
  · rename_i other
    by_cases isAccess : response.access = access
    · subst isAccess
      have elsewhere : response.idx / 2 ≠ place := by
        rintro rfl
        exact other response.idx_eq
      rw [Sets.apply, Function.update_self, List.getElem?_modify_ne _ _ elsewhere]
    · rw [Sets.apply, Function.update_of_ne (Ne.symm isAccess)]

theorem foldl_apply_absent (responses : List Response) (sets : Sets) (access : Access)
    {place : Nat} (absent : ∀ response ∈ responses, response.idx ≠ 2 * place + access.code) :
    (responses.foldl Sets.apply sets access)[place]? = (sets access)[place]? := by
  induction responses generalizing sets with
  | nil => rfl
  | cons response rest ih =>
      rw [List.foldl_cons, ih _ fun other member => absent other (List.mem_cons_of_mem _ member),
        getElem?_apply, if_neg (absent response List.mem_cons_self)]

theorem foldl_apply_present {responses : List Response}
    (distinct : (responses.map Response.idx).Nodup) (sets : Sets) {response : Response}
    (member : response ∈ responses) (access : Access) {place : Nat}
    (named : response.idx = 2 * place + access.code) :
    (responses.foldl Sets.apply sets access)[place]? =
      (sets access)[place]?.map response.fill := by
  obtain ⟨front, back, rfl⟩ := List.append_of_mem member
  rw [List.map_append, List.map_cons, List.nodup_append, List.nodup_cons] at distinct
  obtain ⟨-, ⟨notBack, -⟩, apart⟩ := distinct
  rw [List.foldl_append, List.foldl_cons, foldl_apply_absent, getElem?_apply, if_pos named,
    foldl_apply_absent]
  · intro other inFront same
    exact apart other.idx (List.mem_map_of_mem inFront) response.idx List.mem_cons_self
      (same.trans named.symm)
  · intro other inBack same
    exact notBack (named.trans same.symm ▸ List.mem_map_of_mem inBack)

/-! ## Replies and what is parsed -/

/-- A call and the `idx` its item arrived with. -/
abbrev Mail := Call × Nat

/-- The fields of an item as a server sees them. -/
def fieldsOf (mail : Mail) : List Nat :=
  [mail.1.access.code, mail.1.pid.toNat, mail.1.key.toNat, mail.1.tableid.toNat,
    mail.1.len.toNat, mail.2]

/-- The record a call names. -/
def Call.record (store : Store) (call : Call) : Record Memory :=
  store.record call.pid.toNat call.tableid.toNat call.key.toNat

/-- A response carries the record of the call it answers. -/
structure Answers (store : Store) (mail : Mail) (response : Response) : Prop where
  idx : response.idx = mail.2
  seq : response.seq = (mail.1.record store).seq
  bytes : response.bytes mail.1.len.toNat = (mail.1.record store).value.read 0 mail.1.len.toNat

/-- A response is parsed as it was written. -/
theorem parse_response (store : Store) {mail : Mail} (narrow : mail.2 < 256)
    {bytes : List UInt8}
    (handled : handleItem store mail.1.pid.toNat (fieldsOf mail) = some bytes)
    {buf : Memory} {ptr : Nat} (holds : buf.Holds ptr bytes) :
    Answers store mail (responseAt buf ptr) ∧
      (responseAt buf ptr).seq ≠ conflictWriteFlag ∧
      ptr + 16 + ofBytes (buf.read ptr 2) = ptr + bytes.length := by
  have known : mail.1.access.code = 0 ∨ mail.1.access.code = 1 := by
    have := mail.1.access.code_lt
    omega
  rw [fieldsOf, handleItem, if_pos known, ← Call.record] at handled
  have word := store.word mail.1.pid.toNat mail.1.tableid.toNat mail.1.key.toNat
  rw [← Call.record] at word
  simp only [response, Record.localGetOp] at handled
  split at handled
  · cases handled
  rename_i unmarked
  rw [Option.map_some, Option.some.injEq] at handled
  subst handled
  simp only [holds_append, length_toBytes, List.length_replicate] at holds
  obtain ⟨payload, idx, -, seq, value⟩ := holds
  have len := mail.1.len.toNat_lt
  have payloadIs := payload.ofBytes
  have idxIs := idx.ofBytes
  have seqIs := seq.ofBytes
  rw [Nat.mod_eq_of_lt (by omega)] at payloadIs idxIs
  rw [Nat.mod_eq_of_lt (show _ < 256 ^ 8 from word)] at seqIs
  have place : ptr + 2 + 2 + 4 = ptr + 8 := rfl
  have behind : ptr + 2 + 2 + 4 + 8 = ptr + 16 := rfl
  rw [place] at seqIs
  rw [behind, Holds, length_read] at value
  refine ⟨⟨idxIs, seqIs, value⟩, ?_, ?_⟩
  · rw [show (responseAt buf ptr).seq = (mail.1.record store).seq from seqIs]
    exact unmarked
  · rw [payloadIs]
    simp only [List.length_append, length_toBytes, List.length_replicate, length_read]
    omega

/-- The responses of one machine. -/
theorem parseItems_spec (store : Store) (machine : Nat) {mails : List Mail}
    (addressed : ∀ mail ∈ mails, mail.1.pid.toNat = machine ∧ mail.2 < 256)
    {bytes : List UInt8}
    (handled : handleItems store machine (mails.map fieldsOf) = some bytes)
    {buf : Memory} {ptr : Nat} (holds : buf.Holds ptr bytes) (sets : Sets) :
    ∃ responses, List.Forall₂ (Answers store) mails responses ∧
      parseItems buf mails.length ptr sets =
        some (ptr + bytes.length, responses.foldl Sets.apply sets) := by
  induction mails generalizing bytes ptr sets with
  | nil =>
      cases handled
      exact ⟨[], .nil, rfl⟩
  | cons mail rest ih =>
      rw [List.map_cons, handleItems] at handled
      split at handled
      · rename_i first others firstHandled restHandled
        rw [Option.some.injEq] at handled
        subst handled
        obtain ⟨firstHolds, restHolds⟩ := holds_append.mp holds
        obtain ⟨isMachine, narrow⟩ := addressed mail List.mem_cons_self
        rw [← isMachine] at firstHandled
        obtain ⟨answers, unmarked, behind⟩ :=
          parse_response store narrow firstHandled firstHolds
        obtain ⟨responses, all, parsed⟩ :=
          ih (fun other member => addressed other (List.mem_cons_of_mem _ member)) restHandled
            restHolds (sets.apply (responseAt buf ptr))
        refine ⟨responseAt buf ptr :: responses, .cons answers all, ?_⟩
        rw [List.length_cons, parseItems, if_neg unmarked, behind, parsed, List.length_append,
          List.foldl_cons, Nat.add_assoc]
      · cases handled

/-- The mails for a machine. -/
def mailsFor (mails : List Mail) (machine : Nat) : List Mail :=
  mails.filter fun mail => mail.1.pid.toNat = machine

/-- All replies, in any order. -/
theorem parseReplies_spec (store : Store) {msg : Memory} {mails : List Mail}
    (few : mails.length ≤ 127) (narrow : ∀ mail ∈ mails, mail.2 < 256)
    (seen : ∀ machine, itemsFor msg machine = (mailsFor mails machine).map fieldsOf)
    {order : List Nat} {bytes : List UInt8} (replied : replies store msg order = some bytes)
    {buf : Memory} {ptr : Nat} (holds : buf.Holds ptr bytes) (sets : Sets) :
    ∃ responses, List.Forall₂ (Answers store) (order.flatMap (mailsFor mails)) responses ∧
      parseReplies buf order.length ptr sets = some (responses.foldl Sets.apply sets) := by
  induction order generalizing bytes ptr sets with
  | nil => exact ⟨[], .nil, rfl⟩
  | cons machine rest ih =>
      rw [replies] at replied
      split at replied
      · rename_i first others firstReplied restReplied
        rw [Option.some.injEq] at replied
        subst replied
        obtain ⟨firstHolds, restHolds⟩ := holds_append.mp holds
        unfold readWriteRpcHandler at firstReplied
        split at firstReplied
        · cases firstReplied
        obtain ⟨body, handled, isFirst⟩ := Option.map_eq_some_iff.mp firstReplied
        subst isFirst
        rw [seen, List.length_map] at firstHolds
        rw [seen] at handled
        obtain ⟨header, bodyHolds⟩ := holds_append.mp firstHolds
        have count : (mailsFor mails machine).length ≤ mails.length := List.length_filter_le _ _
        have num := header.ofBytes
        rw [Nat.mod_eq_of_lt (by omega)] at num
        rw [length_toBytes] at bodyHolds
        have addressed : ∀ mail ∈ mailsFor mails machine,
            mail.1.pid.toNat = machine ∧ mail.2 < 256 := by
          intro mail member
          obtain ⟨member, isMachine⟩ := List.mem_filter.mp member
          exact ⟨by simpa using isMachine, narrow mail member⟩
        obtain ⟨responses, answers, parsed⟩ :=
          parseItems_spec store machine addressed handled bodyHolds sets
        have behind : ptr + (toBytes 2 (itemsFor msg machine).length ++ body).length =
            ptr + 2 + body.length := by
          rw [List.length_append, length_toBytes]
          omega
        rw [behind] at restHolds
        obtain ⟨more, moreAnswers, moreParsed⟩ :=
          ih restReplied restHolds (responses.foldl Sets.apply sets)
        refine ⟨responses ++ more, ?_, ?_⟩
        · rw [List.flatMap_cons]
          exact List.rel_append answers moreAnswers
        · rw [List.length_cons, parseReplies, num, parsed]
          simp only
          rw [moreParsed, List.foldl_append]
      · cases replied

/-! ## The whole exchange -/

/-- Only the number of an item can be too large for its parameter. -/
theorem arriving_item (call : Call) (number : Nat) :
    (call.item number).arriving = fieldsOf (call, number % 256) := by
  have code := call.access.code_lt
  have pid := call.pid.toNat_lt
  have tableid := call.tableid.toNat_lt
  have key := call.key.toNat_lt
  have len := call.len.toNat_lt
  simp only [Item.arriving, Call.item, rtxReadItem, fieldsOf, List.zipWith_cons_cons,
    List.zipWith_nil_left, Field.cut, List.cons.injEq, and_true]
  refine ⟨?_, ?_, ?_, ?_, ?_, rfl⟩ <;> exact Nat.mod_eq_of_lt (by omega)

/-- What the servers see of a batch: some of its calls from the first on, all of them when
there are at most 127, with their numbers cut down to a byte. -/
theorem exists_mails {sets : Sets} {reqBuf msg : Memory} {calls : List Call}
    (sent : (addBatches sets reqBuf calls).ctrl.sendBatchOp = some msg) :
    ∃ num, num ≤ 127 ∧ (calls.length ≤ 127 → num = calls.length) ∧
      ∀ machine, itemsFor msg machine =
        (mailsFor (((numbered sets calls).take num).map fun mail => (mail.1, mail.2 % 256))
          machine).map fieldsOf := by
  rw [addBatches_eq] at sent
  obtain ⟨num, few, all, seen⟩ := visited_arriving rfl sent
  rw [requests, List.length_map, length_numbered] at all
  refine ⟨num, few, all, ?_⟩
  intro machine
  rw [itemsFor, handled, seen, requests, ← List.map_take, List.map_map, List.filter_map,
    List.map_map, mailsFor, List.filter_map, List.map_map]
  have sameFields : ∀ mail : Call × Nat, (mail.1.item mail.2).arriving =
      fieldsOf (mail.1, mail.2 % 256) := fun mail => arriving_item mail.1 mail.2
  simp only [Function.comp_def, sameFields]
  rfl

theorem mem_macSet {sets : Sets} {reqBuf : Memory} {calls : List Call} {machine : Nat} :
    machine ∈ (addBatches sets reqBuf calls).ctrl.macSet ↔
      ∃ call ∈ calls, call.pid.toNat = machine := by
  rw [addBatches_eq, Ctrl.mem_addAll_macSet]
  simp only [requests, Ctrl.clear, Finset.notMem_empty, false_or, List.mem_map]
  constructor
  · rintro ⟨item, ⟨⟨call, number⟩, member, rfl⟩, isMachine⟩
    refine ⟨call, ?_, isMachine⟩
    rw [← map_fst_numbered sets calls]
    exact List.mem_map_of_mem member
  · rintro ⟨call, member, isMachine⟩
    rw [← map_fst_numbered sets calls] at member
    obtain ⟨⟨same, number⟩, inNumbered, rfl⟩ := List.mem_map.mp member
    exact ⟨_, ⟨_, inNumbered, rfl⟩, isMachine⟩

theorem map_idx_of_forall₂ {store : Store} {mails : List Mail} {responses : List Response}
    (all : List.Forall₂ (Answers store) mails responses) :
    responses.map Response.idx = mails.map Prod.snd := by
  induction all with
  | nil => rfl
  | cons first _ ih => rw [List.map_cons, List.map_cons, first.idx, ih]

theorem exists_of_forall₂ {store : Store} {mails : List Mail} {responses : List Response}
    (all : List.Forall₂ (Answers store) mails responses) :
    (∀ mail ∈ mails, ∃ response ∈ responses, Answers store mail response) ∧
      ∀ response ∈ responses, ∃ mail ∈ mails, Answers store mail response := by
  induction all with
  | nil => simp
  | cons answers _ ih =>
      simp only [List.forall_mem_cons, List.exists_mem_cons_iff]
      exact ⟨⟨.inl answers, fun mail member => .inr (ih.1 mail member)⟩,
        .inl answers, fun response member => .inr (ih.2 response member)⟩

/-- A batch small enough for `num` and sets small enough for `idx`. -/
structure Small (sets : Sets) (calls : List Call) : Prop where
  few : calls.length ≤ 127
  places : ∀ access, callsOf calls access ≠ [] →
    (sets access).length + (callsOf calls access).length ≤ 128

/-- In a small batch no number is cut down. -/
theorem Small.number_lt {sets : Sets} {calls : List Call} (small : Small sets calls)
    {mail : Mail} (member : mail ∈ numbered sets calls) : mail.2 < 256 := by
  obtain ⟨place, isNumber, -, before⟩ := of_mem_numbered member
  have nonempty : callsOf calls mail.1.access ≠ [] := by
    have isCall : mail.1 ∈ calls := by
      rw [← map_fst_numbered sets calls]
      exact List.mem_map_of_mem member
    exact List.ne_nil_of_mem (List.mem_filter.mpr ⟨isCall, by simp⟩)
  have most := small.places mail.1.access nonempty
  have code := mail.1.access.code_lt
  omega

theorem Small.mails_eq {sets : Sets} {calls : List Call} (small : Small sets calls) :
    ((numbered sets calls).take calls.length).map (fun mail => (mail.1, mail.2 % 256)) =
      numbered sets calls := by
  rw [List.take_of_length_le (length_numbered sets calls).le]
  refine (List.map_congr_left fun mail member => ?_).trans (List.map_id _)
  rw [Nat.mod_eq_of_lt (small.number_lt member)]
  rfl

/-- Taking over the responses of all machines fills every entry of the batch. -/
theorem foldl_answers {sets : Sets} {calls : List Call} {store : Store} {order : List Nat}
    {responses : List Response} (distinct : order.Nodup)
    (reached : ∀ call ∈ calls, call.pid.toNat ∈ order)
    (answers : List.Forall₂ (Answers store)
      (order.flatMap (mailsFor (numbered sets calls))) responses) :
    responses.foldl Sets.apply (sets.append calls Call.entry) =
      sets.append calls (Call.loaded store) := by
  have nodup := nodup_numbered sets calls
  have members : ∀ mail, mail ∈ order.flatMap (mailsFor (numbered sets calls)) ↔
      mail ∈ numbered sets calls := by
    intro mail
    simp only [List.mem_flatMap, mailsFor, List.mem_filter, decide_eq_true_eq]
    constructor
    · rintro ⟨_, _, member, _⟩
      exact member
    · intro member
      refine ⟨_, reached mail.1 ?_, member, rfl⟩
      rw [← map_fst_numbered sets calls]
      exact List.mem_map_of_mem member
  have once : (order.flatMap (mailsFor (numbered sets calls))).Nodup := by
    rw [List.nodup_flatMap]
    refine ⟨fun machine _ => nodup.of_map.filter _, distinct.imp ?_⟩
    intro left right different mail inLeft inRight
    have isLeft := (List.mem_filter.mp inLeft).2
    have isRight := (List.mem_filter.mp inRight).2
    simp only [decide_eq_true_eq] at isLeft isRight
    exact different (isLeft.symm.trans isRight)
  have apart : (responses.map Response.idx).Nodup := by
    rw [map_idx_of_forall₂ answers]
    apply once.map_on
    intro left inLeft right inRight same
    exact List.inj_on_of_nodup_map nodup ((members left).mp inLeft) ((members right).mp inRight)
      same
  obtain ⟨forward, backward⟩ := exists_of_forall₂ answers
  -- The number of a response is the number of a call.
  have named : ∀ response ∈ responses, ∀ access place,
      response.idx = 2 * place + Access.code access →
      (sets access).length ≤ place ∧
        place < (sets access).length + (callsOf calls access).length := by
    intro response member access place isNumber
    obtain ⟨mail, inMails, answered⟩ := backward response member
    obtain ⟨other, otherNumber, behind, before⟩ := of_mem_numbered ((members mail).mp inMails)
    have code := access.code_lt
    have otherCode := mail.1.access.code_lt
    rw [← answered.idx, isNumber] at otherNumber
    have sameAccess : mail.1.access = access := Access.code_injective (by omega)
    rw [sameAccess] at behind before otherNumber
    have samePlace : other = place := by omega
    exact samePlace ▸ ⟨behind, before⟩
  funext access
  apply List.ext_getElem?
  intro place
  by_cases old : place < (sets access).length
  · rw [foldl_apply_absent, Sets.append, Sets.append, List.getElem?_append_left old,
      List.getElem?_append_left old]
    intro response member isNumber
    exact absurd (named response member access place isNumber).1 (by omega)
  · by_cases inside : place - (sets access).length < (callsOf calls access).length
    · obtain ⟨call, found, isAccess, member⟩ := exists_numbered sets calls access _ inside
      have isPlace : (sets access).length + (place - (sets access).length) = place := by omega
      rw [isPlace] at member
      obtain ⟨response, inResponses, answered⟩ := forward _ ((members _).mpr member)
      rw [foldl_apply_present apart _ inResponses access answered.idx, Sets.append, Sets.append,
        List.getElem?_append_right (by omega), List.getElem?_append_right (by omega),
        List.getElem?_map, List.getElem?_map, found]
      have bytes : response.bytes call.entry.len.toNat =
          (call.record store).value.read 0 call.len.toNat := answered.bytes
      rw [Option.map_some, Option.map_some, Option.map_some, Response.fill, bytes, answered.seq]
      rfl
    · rw [foldl_apply_absent, Sets.append, Sets.append, List.getElem?_append_right (by omega),
        List.getElem?_append_right (by omega), List.getElem?_eq_none, List.getElem?_eq_none]
      · rw [List.length_map]
        omega
      · rw [List.length_map]
        omega
      · intro response member isNumber
        have before := (named response member access place isNumber).2
        omega

/-- A store whose records are all empty and at rest. -/
def Store.blank : Store where
  record _ _ _ := { lock := 0, seq := 0, value := fun _ => 0 }
  word _ _ _ := by decide

theorem handleItems_blank (machine : Nat) (mails : List Mail) :
    ∃ bytes, handleItems Store.blank machine (mails.map fieldsOf) = some bytes := by
  induction mails with
  | nil => exact ⟨[], rfl⟩
  | cons mail rest ih =>
      obtain ⟨others, handled⟩ := ih
      have known : mail.1.access.code = 0 ∨ mail.1.access.code = 1 := by
        have := mail.1.access.code_lt
        omega
      obtain ⟨bytes, first⟩ : ∃ bytes,
          handleItem Store.blank machine (fieldsOf mail) = some bytes := by
        rw [fieldsOf, handleItem, if_pos known]
        exact ⟨_, rfl⟩
      exact ⟨bytes ++ others, by rw [List.map_cons, handleItems, first, handled]⟩

/-- Servers whose records are at rest answer what they find. -/
theorem replies_blank {msg : Memory} {mails : List Mail}
    (seen : ∀ machine, itemsFor msg machine = (mailsFor mails machine).map fieldsOf)
    (order : List Nat) (answered : ∀ machine ∈ order, itemsFor msg machine ≠ []) :
    ∃ bytes, replies Store.blank msg order = some bytes := by
  induction order with
  | nil => exact ⟨[], rfl⟩
  | cons machine rest ih =>
      obtain ⟨others, restReplied⟩ :=
        ih fun other member => answered other (List.mem_cons_of_mem _ member)
      obtain ⟨bytes, handled⟩ := handleItems_blank machine (mailsFor mails machine)
      have replied : readWriteRpcHandler Store.blank machine msg =
          some (toBytes 2 (itemsFor msg machine).length ++ bytes) := by
        rw [readWriteRpcHandler, if_neg (answered machine List.mem_cons_self), seen, handled]
        rfl
      exact ⟨_, by rw [replies, replied, restReplied]⟩

/-- Every number of a batch that reaches its entries is answered. -/
theorem Reaches.answered_number {sets : Sets} {reqBuf msg : Memory} {calls : List Call}
    (reaches : Reaches sets reqBuf calls)
    (sent : (addBatches sets reqBuf calls).ctrl.sendBatchOp = some msg) (mails : List Mail)
    (few : mails.length ≤ 127) (narrow : ∀ mail ∈ mails, mail.2 < 256)
    (seen : ∀ machine, itemsFor msg machine = (mailsFor mails machine).map fieldsOf)
    (call : Mail) (member : call ∈ numbered sets calls) :
    ∃ mail ∈ mails, mail.2 = call.2 := by
  obtain ⟨order, distinct, isOrder⟩ : ∃ order : List Nat, order.Nodup ∧
      ∀ machine, machine ∈ order ↔ machine ∈ (addBatches sets reqBuf calls).ctrl.macSet :=
    ⟨_, Finset.nodup_toList _, fun _ => Finset.mem_toList⟩
  obtain ⟨bytes, replied⟩ := replies_blank seen order fun machine inOrder =>
    reaches.answered msg sent machine ((isOrder machine).mp inOrder)
  obtain ⟨responses, answers, parsed⟩ := parseReplies_spec Store.blank few narrow seen replied
    (holds_write (fun _ => 0) 0 bytes) (addBatches sets reqBuf calls).sets
  have filled := reaches.filled msg sent Store.blank order (fun _ => 0) bytes _ distinct isOrder
    replied parsed
  by_contra! unanswered
  obtain ⟨place, isNumber, behind, before⟩ := of_mem_numbered member
  have absent : ∀ response ∈ responses, response.idx ≠ 2 * place + call.1.access.code := by
    intro response inResponses isIdx
    obtain ⟨mail, inMails, answered⟩ := (exists_of_forall₂ answers).2 response inResponses
    obtain ⟨_, _, inMailsFor⟩ := List.mem_flatMap.mp inMails
    refine unanswered mail (List.mem_filter.mp inMailsFor).1 ?_
    rw [← answered.idx, isIdx, isNumber]
  -- The entry of the call is still empty, but should hold its record.
  have entries := congrFun filled call.1.access
  have entry := congrArg (fun items : List Entry => items[place]?.map Entry.data) entries
  have inside : place - (sets call.1.access).length <
      (callsOf calls call.1.access).length := by omega
  simp only [foldl_apply_absent responses _ _ absent] at entry
  rw [addBatches_eq] at entry
  simp only [Sets.append, List.getElem?_append_right behind, List.getElem?_map,
    List.getElem?_eq_getElem inside, Option.map_some, Call.entry, Call.loaded] at entry
  cases entry

/-- A read set that holds 128 entries already. -/
def fullSets : Sets
  | .read => List.replicate 128
      { pid := 0, tableid := 0, key := 0, len := 8, data := some (List.replicate 8 0), seq := 2 }
  | .write => []

/-- The next remote read. -/
def nextRead : Call where
  access := .read
  pid := 1
  tableid := 0
  key := 5
  len := 8

end Rocc.Occ.BatchRead
