import Walrust.Legacy.Ltx
import Walrust.Sync
import Walrust.Wal.Reader

/-!
# `Walrust.Watch` — what the CLI watchers run on

The two watchers of the command line (`--independent-tasks` and the shadow mode) replicate one database into the
LTX layout. This file has what they share: the world a process finds when it starts and leaves when it dies, the
operations of a call that can go wrong, and the LTX files they write.

A call is a program over a `World` that can stop early, and an `Oracle` says for each operation whether it fails
and what other connections do right before it. A call that the source retries gets one oracle for each attempt, so
a theorem over all of them covers every retry policy.

* `World`, `Oracle`, `Run` — the effects;
* `putObject`, `discoverState` — the storage;
* `encodeWalChanges`, `encodeSqliteSnapshot` — the files.
-/

namespace Walrust
namespace Watch

open Wal Sqlite Legacy
open Sync (Fault getPageSize)

/-! ## The world -/

/-- `ShadowProgress`: the durable cursor of the shadow watcher. -/
structure ShadowProgress where
  currentTxid : Nat
  dbChecksum : Option UInt64
  shadowSyncGeneration : Nat
  shadowSyncOffset : Nat
  walCopyOffset : Nat
  walSalt : Option Salt
  walChecksumChain : Option Chain
  deriving DecidableEq, Repr

/-- `CacheEntry`, with times in milliseconds. -/
structure CacheEntry where
  size : Nat
  createdAt : Int
  uploaded : Bool
  uploadedAt : Option Int
  isSnapshot : Bool
  minTxid : Nat
  maxTxid : Nat
  deriving DecidableEq, Repr

/-- `CacheManifest`. -/
structure CacheManifest where
  lastUploadedTxid : Nat
  lastContiguousUploadedTxid : Nat
  pending : List Nat
  failed : List Nat
  cacheSizeBytes : Nat
  entries : Lib.Store Nat CacheEntry

/-- `LocalCache`: the LTX files by TXID, the manifest in memory, and `manifest.json`. -/
structure LocalCache where
  files : Lib.Store Nat Bytes
  manifest : CacheManifest
  saved : Option CacheManifest

/-- `ShadowWal`: the part of the shadow manager that lives in memory. -/
structure ShadowWal where
  generation : Nat
  segmentIndex : Nat
  segmentOffset : Nat
  pageSize : UInt32
  walSalt : Salt
  walChain : Option Chain
  headerSeeded : Bool
  deriving DecidableEq, Repr

/-- Everything a watcher reads and writes for one database. -/
structure World (E : Type) where
  db : E
  bucket : LtxBucket
  /-- The segment files of the shadow directory, by generation and index. -/
  segments : Lib.Store (Nat × Nat) Bytes
  /-- `progress.json`. -/
  progress : Option ShadowProgress
  cache : LocalCache
  /-- In memory: lost when the process dies. -/
  shadow : ShadowWal
  /-- The keys stored since the process started, newest first. -/
  stored : List LtxKey

/-! ## Effects -/

/-- Why a call stops early. -/
inductive Stop where
  | err (msg : String)
  | crash
  /-- The oracle asked SQLite for something it cannot do; no such run exists. -/
  | stuck
  deriving DecidableEq, Repr

/-- The operations of a call that can fail. -/
inductive Op where
  | readHeader
  | walMode
  | walSize
  | readFrames
  | resetCheck
  | hashFile
  | passiveCheckpoint
  | truncateCheckpoint
  | readPageSize
  | listState
  | vacuum
  | put
  | readSalt
  | openShadow
  | healSegments
  | appendSegment
  | listSegments
  | loadProgress
  | saveProgress
  | writeCache
  | readCache
  | saveManifest
  deriving DecidableEq, Repr

/-- What happens to one attempt of a call. -/
structure Oracle (A : Type) where
  fault : Op → Fault
  /-- What other connections do right before the operation. -/
  env : Op → List A
  /-- What a `PASSIVE` checkpoint gets done. -/
  passive : List A
  /-- The commit by which the checkpoint blocker pins the WAL. -/
  blocker : List A
  /-- How many bytes of an append that does not complete are in the file. -/
  torn : Nat
  /-- The clock, in milliseconds. -/
  now : Int64

/-- The crates and SQLite's `VACUUM INTO`. -/
structure Tools (E : Type) where
  ltx : LtxCrate
  /-- The LTX encoder: header, pages in order, the chain value of the trailer. -/
  encode : LtxHeader → List (UInt32 × Bytes) → UInt64 → Except String Bytes
  sha64 : Bytes → UInt64
  vacuumInto : E → Bytes

abbrev Run (E : Type) := EStateM Stop (World E)

section

variable {E A : Type} [SqliteEnv E A]

def fail {α : Type} (msg : String) : Run E α := throw (.err msg)

/-- Other connections act. -/
def interfere : List A → Run E Unit
  | [] => pure ()
  | a :: rest => do
    match SqliteEnv.act (← get).db a with
    | none => throw .stuck
    | some db =>
      modify fun w => { w with db := db }
      interfere rest

/-- Reach the operation `op`: interference first, then its fault if it has one. -/
def perform (o : Oracle A) (op : Op) : Run E Unit := do
  interfere (o.env op)
  match o.fault op with
  | .none => pure ()
  | .fails | .failsStored => fail s!"operation failed: {repr op}"
  | .crash => throw .crash

/-- A write: on `failsStored` it takes effect before the error is reported. -/
def performWrite (o : Oracle A) (op : Op) (write : Run E Unit) : Run E Unit := do
  interfere (o.env op)
  match o.fault op with
  | .none => write
  | .fails => fail s!"operation failed: {repr op}"
  | .failsStored => do
    write
    fail s!"operation failed: {repr op}"
  | .crash => throw .crash

/-- The retry loops: an attempt that fails with an error is followed by the next one, if there is one. A crash
    ends the process. -/
def withRetry {α : Type} (attempt : Oracle A → Run E α) (first : Oracle A) : List (Oracle A) → Run E α
  | [] => attempt first
  | next :: rest => fun w =>
    match attempt first w with
    | .error (.err _) w' => withRetry attempt next rest w'
    | result => result

/-! ## Storage -/

/-- `storage.put`: the object that is there is replaced. -/
def storeObject (key : LtxKey) (bytes : Bytes) : Run E Unit :=
  modify fun w => { w with bucket := w.bucket.put key bytes, stored := key :: w.stored }

def putObject (o : Oracle A) (key : LtxKey) (bytes : Bytes) : Run E Unit :=
  performWrite o .put (storeObject key bytes)

/-- `discover_legacy_state`. -/
def discoverState (o : Oracle A) : Run E (Nat × Nat) := do
  perform o .listState
  return discoverLegacyState (← get).bucket

/-! ## LTX files -/

/-- The stable sort by page number of `encode_wal_changes` and `chain_checksum`. -/
def sortPages (pages : List (UInt32 × Bytes)) : List (UInt32 × Bytes) := pages.mergeSort fun p q => p.1 ≤ q.1

/-- `encode_wal_changes`. -/
def encodeWalChanges (t : Tools E) (now : Int64) (pages : List (UInt32 × Bytes)) (pageSize : UInt32)
    (minTxid maxTxid : Nat) (commitPage : UInt32) (pre : Option UInt64) (post : UInt64) : Except String Bytes :=
  t.encode
    { noChecksum := false
      pageSize := pageSize.toNat
      commit := commitPage.toNat
      minTxid := minTxid
      maxTxid := maxTxid
      createdMs := now
      preApplyChecksum := pre }
    (sortPages pages) post

/-- The whole pages of a file, numbered from 1. -/
def numberPages (pageSize : Nat) : Nat → Nat → Bytes → List (UInt32 × Bytes)
  | _, 0, _ => []
  | first, count + 1, db =>
    (UInt32.ofNat (first + 1), db.take pageSize) :: numberPages pageSize (first + 1) count (db.drop pageSize)

/-- `encode_snapshot_with_checksum`: a trailing partial page is left out. -/
def encodeSnapshotWithChecksum (t : Tools E) (now : Int64) (db : Bytes) (pageSize : UInt32) (txid : Nat) :
    Except String (Bytes × UInt64) :=
  let numPages := db.length / pageSize.toNat
  let checksum := t.ltx.checksum (t.sha64 (db.take (numPages * pageSize.toNat)))
  match t.encode
      { noChecksum := false
        pageSize := pageSize.toNat
        commit := numPages
        minTxid := 1
        maxTxid := txid
        createdMs := now
        preApplyChecksum := none }
      (numberPages pageSize.toNat 0 numPages db) checksum with
  | .error e => .error e
  | .ok bytes => .ok (bytes, checksum)

/-- `encode_sqlite_snapshot_to_vec`: a `VACUUM INTO` copy, encoded. -/
def encodeSqliteSnapshot (t : Tools E) (o : Oracle A) (pageSize : UInt32) (txid : Nat) : Run E (Bytes × UInt64) := do
  perform o .vacuum
  match encodeSnapshotWithChecksum t o.now (t.vacuumInto (← get).db) pageSize txid with
  | .error e => fail e
  | .ok snapshot => return snapshot

/-- `compute_checksum_from_file`. -/
def hashDatabase (t : Tools E) (o : Oracle A) : Run E UInt64 := do
  perform o .hashFile
  return computeDbChecksum t.ltx t.sha64 (SqliteEnv.main (← get).db)

/-! ## SQLite -/

/-- `checkpoint_wal_passive`: whatever it gets done, it reports success. -/
def checkpointWalPassive (o : Oracle A) : Run E Unit := do
  perform o .passiveCheckpoint
  interfere o.passive

/-- `checkpoint_wal_truncate`, which must complete. -/
def checkpointWalTruncate (o : Oracle A) : Run E Unit := do
  perform o .truncateCheckpoint
  modify fun w => { w with db := SqliteEnv.truncate w.db }

/-- `get_page_size`. -/
def readPageSize (o : Oracle A) : Run E UInt32 := do
  perform o .readPageSize
  match getPageSize (SqliteEnv.main (← get).db) with
  | .error e => fail e
  | .ok pageSize => return pageSize

/-- `wal::read_header`, and `ensure_database_in_wal_mode` if there is none yet. -/
def readWalHeader (o : Oracle A) : Run E (Option WalHeader) := do
  perform o .readHeader
  match readHeader (SqliteEnv.wal (← get).db) with
  | .error e => fail e
  | .ok none =>
    perform o .walMode
    return none
  | .ok (some header) => return some header

/-- The salt recorded after a snapshot: one that cannot be read is none. -/
def readSalt (o : Oracle A) : Run E (Option Salt) := do
  interfere (o.env .readSalt)
  match o.fault .readSalt, readHeader (SqliteEnv.wal (← get).db) with
  | .crash, _ => throw .crash
  | .none, .ok (some h) => return some h.salt
  | _, _ => return none

end

end Watch
end Walrust
