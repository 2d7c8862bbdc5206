import Walrust.Watch.Cache
import Walrust.Watch.Shadow

/-!
# `Walrust.Watch.WalSync` — the independent watcher's syncs

`legacy_wal_sync.rs`: one sync of a watched database, straight to storage or through the disk cache, and the
snapshots that re-anchor it. A sync takes the cursor by value and returns what to change in it, so a sync that
fails leaves the cursor as it was.

* `syncWalToStorage`, `syncWalToCache` — one sync;
* `takeSnapshotToStorage`, `uploadRolloverSnapshot` — the snapshots;
* `anchorStreamOnStartup` — what a restart does first.
-/

namespace Walrust
namespace Watch

open Wal Sqlite Legacy

/-- `WatchedDbState`, and `SyncInput`. -/
structure WatchedDbState where
  name : String
  walOffset : Nat
  walGeneration : Nat
  currentTxid : Nat
  dbChecksum : Option UInt64
  walSalt : Option Salt
  walChecksumChain : Option Chain
  deriving DecidableEq, Repr

structure SyncOutput where
  frameCount : Nat
  newWalOffset : Nat
  newCurrentTxid : Nat
  newDbChecksum : Option UInt64
  checkpointDetected : Bool
  newWalGeneration : Nat
  newWalSalt : Option Salt
  newWalChecksumChain : Option Chain
  deriving DecidableEq, Repr

section

variable (st : WatchedDbState)

/-- `apply_sync_output_to_watched_state`. -/
def WatchedDbState.apply (out : SyncOutput) : WatchedDbState :=
  let st := { st with walSalt := out.newWalSalt, walChecksumChain := out.newWalChecksumChain }
  let st := if out.checkpointDetected then
      { st with walGeneration := out.newWalGeneration, walOffset := out.newWalOffset }
    else st
  if 0 < out.frameCount then
    { st with
      walOffset := out.newWalOffset
      currentTxid := out.newCurrentTxid
      dbChecksum := out.newDbChecksum }
  else st

/-- The output of a sync that published nothing and moved nothing. -/
def WatchedDbState.unchanged : SyncOutput where
  frameCount := 0
  newWalOffset := st.walOffset
  newCurrentTxid := st.currentTxid
  newDbChecksum := st.dbChecksum
  checkpointDetected := false
  newWalGeneration := st.walGeneration
  newWalSalt := st.walSalt
  newWalChecksumChain := st.walChecksumChain

/-- Rollover detection: the WAL is shorter than the cursor, or its salt is not the recorded one. With no recorded
    salt and the cursor at the start there is nothing to detect. -/
def WatchedDbState.rollover (size : Nat) (current : Salt) : Bool :=
  size < st.walOffset || st.walSalt.any (· ≠ current)

/-- The chain the read is seeded with. -/
def WatchedDbState.chainSeed : Option Chain :=
  if st.walOffset = 0 ∨ st.walOffset = walHeaderSize then none else st.walChecksumChain

end

section

variable {E A : Type} [SqliteEnv E A]

/-! ## Snapshots -/

/-- `snapshot_database_to_storage`: TXID and generation are those after what the listing shows. -/
def snapshotDatabaseToStorage (t : Tools E) (o : Oracle A) : Run E (Nat × UInt64) := do
  checkpointWalPassive o
  let pageSize ← readPageSize o
  let (currentTxid, currentGen) ← discoverState o
  let (bytes, checksum) ← encodeSqliteSnapshot t o pageSize (currentTxid + 1)
  putObject o (.file (currentGen + 1) 1 (currentTxid + 1)) bytes
  return (currentTxid + 1, checksum)

/-- `take_snapshot_to_storage`. -/
def takeSnapshotToStorage (t : Tools E) (st : WatchedDbState) (o : Oracle A) : Run E SyncOutput := do
  let (maxTxid, checksum) ← snapshotDatabaseToStorage t o
  let salt ← readSalt o
  return {
    frameCount := 1
    newWalOffset := 0
    newCurrentTxid := maxTxid
    newDbChecksum := some checksum
    checkpointDetected := true
    newWalGeneration := st.walGeneration + 1
    newWalSalt := salt
    newWalChecksumChain := none }

/-- `upload_rollover_snapshot`: the TXID is the one after the cursor's. -/
def uploadRolloverSnapshot (t : Tools E) (st : WatchedDbState) (o : Oracle A) : Run E SyncOutput := do
  checkpointWalTruncate o
  let pageSize ← readPageSize o
  let (bytes, checksum) ← encodeSqliteSnapshot t o pageSize (st.currentTxid + 1)
  let (_, currentGen) ← discoverState o
  putObject o (.file (max (currentGen + 1) 1) 1 (st.currentTxid + 1)) bytes
  let salt ← readSalt o
  return {
    frameCount := 1
    newWalOffset := 0
    newCurrentTxid := st.currentTxid + 1
    newDbChecksum := some checksum
    checkpointDetected := true
    newWalGeneration := st.walGeneration + 1
    newWalSalt := salt
    newWalChecksumChain := none }

/-- The output of an initial snapshot. -/
def WatchedDbState.initialOutput (st : WatchedDbState) (checksum : UInt64) : SyncOutput where
  frameCount := 1
  newWalOffset := 0
  newCurrentTxid := 1
  newDbChecksum := some checksum
  checkpointDetected := false
  newWalGeneration := st.walGeneration
  newWalSalt := none
  newWalChecksumChain := none

/-! ## Incrementals -/

/-- The chain value an incremental continues: the recorded one, or the hash of the database file. -/
def preChecksum (t : Tools E) (st : WatchedDbState) (o : Oracle A) : Run E UInt64 := do
  match st.dbChecksum with
  | some cs => return t.ltx.checksum cs
  | none => hashDatabase t o

/-- An encoded incremental. -/
structure Incremental where
  minTxid : Nat
  maxTxid : Nat
  bytes : Bytes
  postChecksum : UInt64
  deriving DecidableEq, Repr

/-- The encoding both sync paths share. A batch without a size takes that of the database file. -/
def encodeIncremental (t : Tools E) (st : WatchedDbState) (o : Oracle A) (pages : PageMap) (pageSize finalDbSize : UInt32) :
    Run E Incremental := do
  let pre ← preChecksum t st o
  let minTxid := st.currentTxid + 1
  let maxTxid := minTxid + pages.length - 1
  let main := SqliteEnv.main (← get).db
  let commitPage := if finalDbSize ≠ 0 then finalDbSize else UInt32.ofNat (main.length / pageSize.toNat)
  let post := chainChecksum t.ltx t.sha64 pre (sortPages pages)
  match encodeWalChanges t o.now pages pageSize minTxid maxTxid commitPage (some pre) post with
  | .error e => fail s!"{st.name}: LTX encode failed: {e}"
  | .ok bytes => return ⟨minTxid, maxTxid, bytes, post⟩

/-- What a direct sync finds in the WAL. -/
inductive WalBatch where
  | noWal
  | rollover
  | frames (header : WalHeader) (read : PageMapRead)

/-- The reading part of a direct sync. -/
def readWalBatch (st : WatchedDbState) (o : Oracle A) : Run E WalBatch := do
  match ← readWalHeader o with
  | none => return .noWal
  | some header =>
    perform o .walSize
    if st.rollover (SqliteEnv.wal (← get).db).length header.salt then return .rollover
    else
      perform o .readFrames
      let file := SqliteEnv.wal (← get).db
      interfere (o.env .resetCheck)
      match readFramesAsPageMapChecked file (SqliteEnv.wal (← get).db) header.pageSize st.walOffset st.chainSeed with
      | .error e => fail e
      | .ok r => return .frames header r

section

variable (t : Tools E) (st : WatchedDbState) (o : Oracle A)

/-- Publish a batch that was read. -/
def publishBatch (header : WalHeader) (r : PageMapRead) :
    Run E SyncOutput := do
  let chain := r.chain.or st.walChecksumChain
  if r.pageMap.isEmpty then
    return { st.unchanged with newWalSalt := some header.salt, newWalChecksumChain := chain }
  else
    let inc ← encodeIncremental t st o r.pageMap header.pageSize r.finalDbSize
    putObject o (.file generationLive inc.minTxid inc.maxTxid) inc.bytes
    return {
      frameCount := r.frameCount
      newWalOffset := r.newOffset
      newCurrentTxid := inc.maxTxid
      newDbChecksum := some inc.postChecksum
      checkpointDetected := false
      newWalGeneration := st.walGeneration
      newWalSalt := some header.salt
      newWalChecksumChain := chain }

/-- The first sync of a fresh stream. -/
def initialSyncToStorage : Run E SyncOutput := do
  let header ← readWalHeader o
  let (bytes, checksum) ← encodeSqliteSnapshot t o (header.elim 4096 (·.pageSize)) 1
  putObject o (.file 1 1 1) bytes
  return st.initialOutput checksum

/-- `sync_wal_to_storage`. -/
def syncWalToStorage : Run E SyncOutput := do
  if st.currentTxid = 0 then initialSyncToStorage t st o
  else
    match ← readWalBatch st o with
    | .noWal => return st.unchanged
    | .rollover => uploadRolloverSnapshot t st o
    | .frames header r => publishBatch t st o header r

end

/-- The frames of a copy, folded into a page map with the last commit's size. -/
def foldFrames (frames : List ParsedFrame) : PageMap × UInt32 :=
  frames.foldl (fun acc f =>
    (PageMap.insert acc.1 f.pageNumber f.data, if f.dbSize ≠ 0 then f.dbSize else acc.2)) ([], 0)

/-- The first sync of a fresh stream, through the cache. -/
def initialSyncToCache (t : Tools E) (st : WatchedDbState) (o : Oracle A) : Run E SyncOutput := do
  let (bytes, checksum) ← encodeSqliteSnapshot t o (← get).shadow.pageSize 1
  writeLtx t o 1 bytes true
  return st.initialOutput checksum

/-- `sync_wal_to_cache`. -/
def syncWalToCache (t : Tools E) (st : WatchedDbState) (o : Oracle A) : Run E SyncOutput := do
  if st.currentTxid = 0 then initialSyncToCache t st o
  else
    let pageSize := (← get).shadow.pageSize
    let (frames, newOffset) ← copyFrames o st.walOffset
    let generation := (← get).shadow.generation
    let out := { st.unchanged with
      newWalOffset := newOffset
      checkpointDetected := decide (st.walGeneration < generation)
      newWalGeneration := generation }
    if frames.isEmpty then return out
    else
      let (pages, finalDbSize) := foldFrames frames
      let inc ← encodeIncremental t st o pages pageSize finalDbSize
      writeLtx t o inc.maxTxid inc.bytes false
      return { out with
        frameCount := frames.length
        newCurrentTxid := inc.maxTxid
        newDbChecksum := some inc.postChecksum }

/-! ## The watcher's calls -/

/-- `do_sync`: the state it leaves and its frame count. Through the cache a sync is not retried. -/
def doSync (t : Tools E) (cached : Bool) (st : WatchedDbState) (first : Oracle A) (rest : List (Oracle A)) :
    Run E (WatchedDbState × Nat) := do
  let out ← if cached then syncWalToCache t st first else withRetry (syncWalToStorage t st) first rest
  return (st.apply out, out.frameCount)

/-- `take_snapshot_with_retry`. -/
def takeSnapshotWithRetry (t : Tools E) (st : WatchedDbState) (first : Oracle A) (rest : List (Oracle A)) :
    Run E WatchedDbState := do
  let out ← withRetry (takeSnapshotToStorage t st) first rest
  return { st with
    walOffset := out.newWalOffset
    walGeneration := out.newWalGeneration
    currentTxid := out.newCurrentTxid
    dbChecksum := out.newDbChecksum
    walSalt := out.newWalSalt
    walChecksumChain := out.newWalChecksumChain }

/-- `anchor_stream_on_startup`: an existing stream gets a snapshot, a fresh one its first sync. -/
def anchorStreamOnStartup (t : Tools E) (st : WatchedDbState) (o : Oracle A) : Run E WatchedDbState := do
  let out ← if 0 < st.currentTxid then takeSnapshotToStorage t st o else syncWalToStorage t st o
  return st.apply out

end

end Watch
end Walrust
