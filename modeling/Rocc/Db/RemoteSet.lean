import Mathlib.Logic.Function.Basic
import Rocc.Rtx.Batch

/-!
# `RemoteSet`

A transaction adds the remote records it reads to `kvs_`, and promotes those that it writes: an
item for the lock request and one for the write-back request go behind what these messages hold.
The servers of each kind are kept in a list of their own.
-/

namespace Rocc.Db

open Memory Rtx.Batch

/-! ## Data -/

/-- `RemoteLockItem`: `pid`, `seq`, `node` and `tableid`. -/
def remoteLockItem : Format where
  layout :=
    { size := 32
      fields := [⟨0, 1, 1⟩, ⟨8, 8, 8⟩, ⟨16, 8, 8⟩, ⟨24, 1, 1⟩]
      inside := by decide
      apart := by decide
      param_le := by decide }
  pid := 0
  len := none

/-- `RTXRemoteWriteItem`, and `RemoteWriteItem` as well: `pid`, the union of `node` and `key`,
`payload` and `tableid`. -/
def rtxRemoteWriteItem : Format where
  layout :=
    { size := 24
      fields := [⟨0, 1, 1⟩, ⟨8, 8, 8⟩, ⟨16, 2, 2⟩, ⟨18, 1, 1⟩]
      inside := by decide
      apart := by decide
      param_le := by decide }
  pid := 0
  len := some 2

namespace RemoteSet

/-- `RemoteSetItem`; `tableid` is the byte of the `int8_t`, `node` an address of the server. -/
structure RemoteSetItem where
  pid : UInt8
  tableid : UInt8
  seq : UInt64
  key : UInt64
  node : UInt64
  deriving DecidableEq, Repr

end RemoteSet

/-- `RemoteSet`: the first `elems` entries of `kvs` are in use.  The sets `server_set_` and
`write_server_set_` have the members of the lists. -/
structure RemoteSet where
  kvs : Nat → RemoteSet.RemoteSetItem
  elems : Nat
  readItems : UInt16
  writeItems : UInt16
  readServers : List Nat
  writeServers : List Nat
  needValidate : Bool
  lockRequestBuf : Memory
  lockRequestBufEnd : Nat
  writeBackRequestBuf : Memory
  writeBackRequestBufEnd : Nat

namespace RemoteSet

/-- `MAXSIZE`. -/
def maxLength : Nat := 1024

/-! ## Operations -/

/-- `update_write_buf`. -/
def updateWriteBuf (set : RemoteSet) : RemoteSet :=
  { set with lockRequestBufEnd := headerSize, writeBackRequestBufEnd := headerSize }

/-- `clear`. -/
def clear (set : RemoteSet) : RemoteSet :=
  { set with
    elems := 0
    readItems := 0
    readServers := []
    writeItems := 0
    writeServers := []
    needValidate := false }

/-- A server enters a list once. -/
def addServer (servers : List Nat) (pid : Nat) : List Nat :=
  if pid ∈ servers then servers else servers ++ [pid]

/-- `add` of a 64-bit key. -/
def add (set : RemoteSet) (pid : Nat) (tableid : UInt8) (key : UInt64) : Option RemoteSet :=
  if set.elems + 1 ≤ maxLength then
    some { set with
      kvs := Function.update set.kvs set.elems
        { set.kvs set.elems with pid := UInt8.ofNat pid, tableid, key }
      elems := set.elems + 1
      readServers := addServer set.readServers pid }
  else none

/-- `add` of a longer key, which is given by its address. -/
def addLong (set : RemoteSet) (currentPartition pid : Nat) (tableid : UInt8) (key : UInt64)
    (klen : Nat) : Option RemoteSet :=
  if pid ≠ currentPartition ∧ klen ≤ 40 then
    (set.add pid tableid key).map fun added =>
      { added with
        kvs := Function.update added.kvs set.elems { added.kvs set.elems with seq := 0 } }
  else none

/-- `get_results` for one item of a reply. -/
def getResult (set : RemoteSet) (idx : Nat) (node seq : UInt64) : RemoteSet :=
  { set with kvs := Function.update set.kvs idx { set.kvs idx with node, seq } }

/-- `promote_to_write`: `node` and `key` are written to the same place, one after the other. -/
def promoteToWrite (set : RemoteSet) (id : Nat) (val : List UInt8) : RemoteSet :=
  let item := set.kvs id
  { set with
    writeItems := set.writeItems + 1
    readItems := set.readItems - 1
    lockRequestBuf := remoteLockItem.layout.store set.lockRequestBuf set.lockRequestBufEnd
      [item.pid.toNat, item.seq.toNat, item.node.toNat, item.tableid.toNat]
    lockRequestBufEnd := set.lockRequestBufEnd + remoteLockItem.layout.size
    writeBackRequestBuf :=
      (rtxRemoteWriteItem.layout.store
        (set.writeBackRequestBuf.writeWord (set.writeBackRequestBufEnd + 8) item.node.toNat)
        set.writeBackRequestBufEnd
        [item.pid.toNat, item.key.toNat, val.length, item.tableid.toNat]).write
          (set.writeBackRequestBufEnd + rtxRemoteWriteItem.layout.size) val
    writeBackRequestBufEnd :=
      set.writeBackRequestBufEnd + rtxRemoteWriteItem.layout.size + val.length
    writeServers := addServer set.writeServers item.pid.toNat }

/-- Several calls of `promote_to_write`. -/
def promoteAll (set : RemoteSet) (promoted : List (Nat × List UInt8)) : RemoteSet :=
  promoted.foldl (fun set call => set.promoteToWrite call.1 call.2) set

/-! ## Lists of servers -/

theorem mem_addServer {servers : List Nat} {pid server : Nat} :
    server ∈ addServer servers pid ↔ server ∈ servers ∨ server = pid := by
  unfold addServer
  split
  · rename_i present
    constructor
    · exact .inl
    · rintro (member | rfl)
      · exact member
      · exact present
  · simp

theorem nodup_addServer {servers : List Nat} (nodup : servers.Nodup) (pid : Nat) :
    (addServer servers pid).Nodup := by
  unfold addServer
  split
  · exact nodup
  · rename_i absent
    rw [← List.concat_eq_append]
    exact nodup.concat absent

end RemoteSet

end Rocc.Db
