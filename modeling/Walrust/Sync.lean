import Walrust.Bucket
import Walrust.Sqlite

/-!
# `Walrust.Sync` — the sync engine

The three sync sites of `sync.rs` (walrust-owned, external-base, fenced), the snapshot path, and what they
read and write: the in-memory `SyncState`, the remote `state.json`, the local publish intent, the bucket,
and the SQLite files.

A call is a state-passing program over a `World` that can stop early (`Stop`): with an error that the caller
sees, by a crash, or because the environment did something SQLite cannot do. An `Oracle` says, for each
operation of a call that can go wrong, whether it does, and what other connections do to the database
right before it. So a theorem over all oracles covers every placement of failures and interference.

* `readNextWalBatch` — rollover detection and the checked read;
* `takeSnapshot`, `syncWalWithSequence`, `syncWalFencedDelta`, `syncWalWithRetry` — the calls.
-/

namespace Walrust
namespace Sync

open Wal Ltx Sqlite Hadbp

/-! ## State -/

structure ExternalBaseCursor where
  seq : Nat
  checksum : UInt64
  deriving DecidableEq, Repr

/-- `SyncState`, the cursor of one database. -/
structure SyncState where
  name : String
  walOffset : Nat
  walGeneration : Nat
  currentSeq : Nat
  lineageId : Option String
  externalBase : Option ExternalBaseCursor
  currentTxid : Nat
  /-- Milliseconds since the epoch. -/
  lastSnapshot : Option Int64
  dbChecksum : Option UInt64
  walSalt : Option Salt
  walChecksumChain : Option Chain
  /-- Whether the read transaction that pins the WAL is open. -/
  checkpointBlocker : Bool
  deriving DecidableEq, Repr

/-- `SyncState::new`. -/
def SyncState.new (name : String) : SyncState where
  name := name
  walOffset := 0
  walGeneration := 0
  currentSeq := 0
  lineageId := none
  externalBase := none
  currentTxid := 0
  lastSnapshot := none
  dbChecksum := none
  walSalt := none
  walChecksumChain := none
  checkpointBlocker := false

/-- The fields of `state.json`. -/
structure SavedState where
  walOffset : Nat
  walGeneration : Nat
  currentSeq : Nat
  lineageId : Option String
  currentTxid : Nat
  dbChecksum : Option UInt64
  lastSnapshot : Option Int64
  walSalt : Option Salt
  walChecksumChain : Option Chain
  deriving DecidableEq, Repr

/-- `state_json_value`. -/
def SyncState.saved (s : SyncState) : SavedState where
  walOffset := s.walOffset
  walGeneration := s.walGeneration
  currentSeq := s.currentSeq
  lineageId := s.lineageId
  currentTxid := s.currentTxid
  dbChecksum := s.dbChecksum
  lastSnapshot := s.lastSnapshot
  walSalt := s.walSalt
  walChecksumChain := s.walChecksumChain

/-- `active_lineage_id`: the namespace a reader takes from `state.json`. -/
def activeLineageId (stateJson : Option SavedState) : Option String := stateJson.bind SavedState.lineageId

/-- The local write-ahead record of the changeset about to be published. -/
structure PublishIntent where
  lineageId : Option String
  seq : Nat
  preChecksum : UInt64
  changesetChecksum : UInt64
  deriving DecidableEq, Repr

/-- Everything a call reads and writes. -/
structure World (E : Type) where
  db : E
  bucket : Bucket
  stateJson : Option SavedState
  intent : Option PublishIntent
  st : SyncState

/-! ## Effects -/

inductive SyncError where
  /-- A different object already holds the key. -/
  | equivocation (msg : String)
  | other (msg : String)
  deriving DecidableEq, Repr

/-- Why a call stops early. -/
inductive Stop where
  | err (e : SyncError)
  | crash
  /-- The oracle asked SQLite for something it cannot do; no such run exists. -/
  | stuck
  deriving DecidableEq, Repr

/-- The operations of a call that can fail, in the source's order of use. -/
inductive Op where
  | readHeader
  | walMode
  | walSize
  | readFrames
  | resetCheck
  | hashFile
  | loadIntent
  | saveIntent
  | putDelta
  | getExisting
  | saveState
  | saveProgress
  | releaseBlocker
  | checkpoint
  | reacquireBlocker
  | readPageSize
  | countCommits
  | encodeSnapshot
  | putSnapshot
  | readSalt
  deriving DecidableEq, Repr

inductive Fault where
  | none
  | fails
  /-- A write that took effect but reported an error. -/
  | failsStored
  /-- The process dies at this point. -/
  | crash
  deriving DecidableEq, Repr

/-- What happens to one call. -/
structure Oracle (A : Type) where
  fault : Op → Fault
  /-- What other connections do right before the operation. -/
  env : Op → List A
  /-- The commit by which the checkpoint blocker pins the fresh WAL. -/
  blocker : A
  /-- The clock, in milliseconds. -/
  now : Int64

/-- A call in which nothing fails and nobody interferes. -/
def Oracle.quiet {A : Type} (blocker : A) (now : Int64) : Oracle A where
  fault _ := .none
  env _ := []
  blocker := blocker
  now := now

/-- The changeset crate and the bucket prefix. -/
structure Config where
  ph : Physical
  pre : String

abbrev Run (E : Type) := EStateM Stop (World E)

section

variable {E A : Type} [SqliteEnv E A]

def fail {α : Type} (msg : String) : Run E α := throw (.err (.other msg))

def modifyState (f : SyncState → SyncState) : Run E Unit := modify fun w => { w with st := f w.st }

def state : Run E SyncState := return (← get).st

/-- Other connections act. -/
def interfere : List A → Run E Unit
  | [] => pure ()
  | a :: rest => do
    match SqliteEnv.act (← get).db a with
    | none => throw .stuck
    | some db =>
      modify fun w => { w with db := db }
      interfere rest

/-- Reach the operation `op`: interference first, then its fault if it has one. -/
def perform (o : Oracle A) (op : Op) : Run E Unit := do
  interfere (o.env op)
  match o.fault op with
  | .none => pure ()
  | .fails | .failsStored => fail s!"operation failed: {repr op}"
  | .crash => throw .crash

/-- A write: on `failsStored` it takes effect before the error is reported. -/
def performWrite (o : Oracle A) (op : Op) (write : Run E Unit) : Run E Unit := do
  interfere (o.env op)
  match o.fault op with
  | .none => write
  | .fails => fail s!"operation failed: {repr op}"
  | .failsStored => do
    write
    fail s!"operation failed: {repr op}"
  | .crash => throw .crash

/-! ## Storage -/

/-- `build_state_changeset_key`. -/
def stateKey (s : SyncState) (generation : StreamGeneration) (seq : Nat) : Key :=
  .changeset s.lineageId generation seq

/-- The conditional put, and the comparison with what is there after a refused one: an object with the
    same bytes counts as published, any other is a conflict. -/
def putAbsent (key : Key) (bytes : Bytes) (conflict : String) : Run E Unit := do
  let w ← get
  match w.bucket.get key with
  | none => set { w with bucket := w.bucket.put key bytes }
  | some existing =>
    if existing ≠ bytes then throw (.err (.equivocation conflict))

/-- `put_changeset_if_absent`. -/
def putChangesetIfAbsent (cfg : Config) (o : Oracle A) (op : Op) (key : Key) (bytes : Bytes)
    (name : String) (seq : Nat) (mode : String) : Run E Unit :=
  performWrite o op (putAbsent key bytes (s!"{name}: {mode} duplicate changeset seq {seq}; " ++
    s!"refusing overwrite at {key.path cfg.pre name}"))

/-- `save_state`. -/
def saveState (o : Oracle A) : Run E Unit :=
  performWrite o .saveState (modify fun w => { w with stateJson := some w.st.saved })

/-- `load_publish_intent`. -/
def loadPublishIntent (o : Oracle A) : Run E (Option PublishIntent) := do
  perform o .loadIntent
  return (← get).intent

/-- `save_publish_intent`. -/
def savePublishIntent (o : Oracle A) (seq : Nat) (preChecksum changesetChecksum : UInt64) :
    Run E Unit :=
  performWrite o .saveIntent (modify fun w =>
    { w with intent := some ⟨w.st.lineageId, seq, preChecksum, changesetChecksum⟩ })

/-! ## Reading the WAL -/

structure WalBatch where
  pageMap : PageMap
  frameCount : Nat
  newOffset : Nat
  finalDbSize : UInt32
  commitCount : Nat
  rolloverDetected : Bool
  deriving DecidableEq, Repr

/-- Two-pronged rollover detection: the file is shorter than the cursor, or its salt is not the recorded
    one. -/
def rolloverDetected (s : SyncState) (size : Nat) (current : Salt) : Bool :=
  size < s.walOffset || s.walSalt.any (· ≠ current)

/-- The cursor after detection, before the read. -/
def noteGeneration (rollover : Bool) (current : Salt) (s : SyncState) : SyncState :=
  if rollover then { s with walOffset := 0, walChecksumChain := none, walSalt := some current }
  else { s with walSalt := some current }

/-- The chain the read is seeded with. -/
def chainSeed (s : SyncState) : Option Chain :=
  if s.walOffset = 0 ∨ s.walOffset = walHeaderSize then none else s.walChecksumChain

/-- The chain is advanced as soon as frames were read. -/
def advanceChain (chain : Option Chain) (s : SyncState) : SyncState :=
  match chain with
  | some c => { s with walChecksumChain := some c }
  | none => s

/-- `read_next_wal_batch`. -/
def readNextWalBatch (o : Oracle A) (header : WalHeader) : Run E WalBatch := do
  perform o .walSize
  let rollover := rolloverDetected (← state) (SqliteEnv.wal (← get).db).length header.salt
  modifyState (noteGeneration rollover header.salt)
  perform o .readFrames
  let s ← state
  let file := SqliteEnv.wal (← get).db
  interfere (o.env .resetCheck)
  match readFramesAsPageMapChecked file (SqliteEnv.wal (← get).db) header.pageSize s.walOffset
      (chainSeed s) with
  | .error e => fail e
  | .ok r =>
    modifyState (advanceChain r.chain)
    return ⟨r.pageMap, r.frameCount, r.newOffset, r.finalDbSize, r.commitCount, rollover⟩

/-! ## Snapshots -/

/-- `get_page_size` of a database file. -/
def getPageSize (main : Bytes) : Except String UInt32 :=
  if main.length < 100 then .error "unexpected end of file"
  else
    let pageSize := Lib.Bytes.field main 16 2
    .ok (if pageSize = 1 then 65536 else UInt32.ofNat pageSize)

/-- `change_counter_from_file`, or 0. -/
def changeCounterFromFile (main : Bytes) : Nat :=
  if main.length < 28 then 0 else Lib.Bytes.field main 24 4

/-- `release_checkpoint_blocker`: the handle is dropped even if the rollback fails. -/
def releaseCheckpointBlocker (o : Oracle A) : Run E Unit := do
  if (← state).checkpointBlocker then
    modifyState fun s => { s with checkpointBlocker := false }
    perform o .releaseBlocker

/-- `checkpoint_wal`: a `TRUNCATE` checkpoint that must complete. -/
def checkpointWal (o : Oracle A) : Run E Unit := do
  perform o .checkpoint
  modify fun w => { w with db := SqliteEnv.truncate w.db }

/-- `reacquire_checkpoint_blocker`: a small commit into the fresh WAL, then a read transaction on it. -/
def reacquireCheckpointBlocker (o : Oracle A) : Run E Unit := do
  if (← state).checkpointBlocker then return
  perform o .reacquireBlocker
  interfere [o.blocker]
  modifyState fun s => { s with checkpointBlocker := true }

/-- `reset_wal_cursor_after_snapshot`: a salt that cannot be read is recorded as none. -/
def resetWalCursorAfterSnapshot (o : Oracle A) : Run E Unit := do
  interfere (o.env .readSalt)
  let w ← get
  let salt := match o.fault .readSalt, readHeader (SqliteEnv.wal w.db) with
    | .none, .ok (some h) => some h.salt
    | _, _ => none
  modifyState fun s => { s with
    walOffset := 0
    walGeneration := s.walGeneration + 1
    walSalt := salt
    walChecksumChain := none }

/-- The snapshot's transaction id, from the change counter and the WAL's commits. -/
def snapshotTxid (s : SyncState) (changeCounter walCommits : Nat) : Nat :=
  if s.currentTxid < changeCounter + walCommits then changeCounter + walCommits else s.currentTxid + 1

/-- `take_snapshot` (`take_snapshot_with_retry` retries only the put, which changes no outcome). -/
def takeSnapshot (cfg : Config) (o : Oracle A) : Run E Unit := do
  releaseCheckpointBlocker o
  checkpointWal o
  reacquireCheckpointBlocker o
  perform o .readPageSize
  let main := SqliteEnv.main (← get).db
  match getPageSize main with
  | .error e => fail e
  | .ok pageSize =>
    perform o .countCommits
    let walCommits := countWalCommits (SqliteEnv.wal (← get).db) pageSize
    let s ← state
    let newTxid := snapshotTxid s (changeCounterFromFile main) walCommits
    let newSeq := s.currentSeq + 1
    perform o .encodeSnapshot
    match encodeSnapshotWithChecksum cfg.ph o.now (SqliteEnv.main (← get).db) pageSize
        (UInt64.ofNat newSeq) (s.dbChecksum.getD 0) with
    | .error e => fail e
    | .ok snapshot =>
      putChangesetIfAbsent cfg o .putSnapshot (stateKey s .snapshot newSeq) snapshot.bytes s.name newSeq
        "walrust-owned snapshot"
      modifyState fun s => { s with
        currentSeq := newSeq
        currentTxid := newTxid
        lastSnapshot := some o.now
        dbChecksum := some snapshot.checksum }
      resetWalCursorAfterSnapshot o

/-! ## Syncing -/

/-- `DeltaSequence`: who owns the base state. -/
inductive DeltaSequence where
  | walrustOwned
  | externalChangeCounter
  deriving DecidableEq, Repr

/-- `change_counter_from_pages`: the change counter of page 1, if the batch has it and it is not zero. -/
def changeCounterFromPages (pages : PageMap) : Option Nat :=
  match pages.find? (fun p => p.1 = 1) with
  | some (_, data) =>
    if data.length < 28 then none
    else
      let cc := Lib.Bytes.field data 24 4
      if cc = 0 then none else some cc
  | none => none

/-- The transaction id after a batch. -/
def batchTxid (s : SyncState) (batch : WalBatch) : Nat :=
  match (changeCounterFromPages batch.pageMap).filter (fun cc => s.currentTxid < cc) with
  | some cc => cc
  | none => s.currentTxid + max batch.commitCount 1

/-- An encoded batch, ready to be published. -/
structure Delta where
  seq : Nat
  bytes : Bytes
  preChecksum : UInt64
  postChecksum : UInt64
  newOffset : Nat
  maxTxid : Nat
  frameCount : Nat
  endPageCount : Nat
  deriving DecidableEq, Repr

/-- The chain value the batch continues: the recorded one, or the hash of the database file. -/
def preChecksum (cfg : Config) (o : Oracle A) : Run E UInt64 := do
  match (← state).dbChecksum with
  | some cs => return cs
  | none =>
    perform o .hashFile
    return computeChecksumFromFile cfg.ph (SqliteEnv.main (← get).db)

/-- Encode a batch as the next changeset (or `kind` of object). -/
def encodeBatch (cfg : Config) (o : Oracle A) (kind : String) (header : WalHeader) (batch : WalBatch) :
    Run E Delta := do
  let pre ← preChecksum cfg o
  let s ← state
  let newSeq := s.currentSeq + 1
  if batch.finalDbSize = 0 then
    fail (s!"{s.name}: WAL commit produced end_page_count=0 with {batch.pageMap.length} dirty pages; " ++
      s!"refusing to publish a truncating {kind}")
  else
    match encodeWalChangesWithEndPageCount cfg.ph o.now batch.pageMap header.pageSize
        (UInt64.ofNat newSeq) pre batch.finalDbSize.toNat with
    | .error e => fail e
    | .ok (bytes, post) =>
      return ⟨newSeq, bytes, pre, post, batch.newOffset, batchTxid s batch, batch.frameCount,
        batch.finalDbSize.toNat⟩

/-- The cursor after a published batch. -/
def advanceCursor (d : Delta) (s : SyncState) : SyncState :=
  { s with
    walOffset := d.newOffset
    currentSeq := d.seq
    currentTxid := d.maxTxid
    dbChecksum := some d.postChecksum }

/-- The four cursor fields as they were before the call. -/
def restoreCursor (previous s : SyncState) : SyncState :=
  { s with
    walOffset := previous.walOffset
    walGeneration := previous.walGeneration
    walSalt := previous.walSalt
    walChecksumChain := previous.walChecksumChain }

/-- `existing_changeset_is_our_publish`: the checksum of the stored object, if the prior local intent proves
    that this process wrote it. -/
def existingChangesetIsOurPublish (cfg : Config) (o : Oracle A) (key : Key) (seq : Nat)
    (ourPreChecksum : UInt64) (lineageId : Option String) (priorIntent : Option PublishIntent) :
    Run E (Option UInt64) := do
  match priorIntent with
  | none => return none
  | some intent =>
    if intent.seq ≠ seq ∨ intent.preChecksum ≠ ourPreChecksum ∨ intent.lineageId ≠ lineageId then
      return none
    else
      perform o .getExisting
      match (← get).bucket.get key with
      | none => return none
      | some existing =>
        match decodeSqliteChangeset cfg.ph existing with
        | .error _ => return none
        | .ok decoded =>
          if decoded.header.seq = UInt64.ofNat seq ∧ decoded.header.prevChecksum = ourPreChecksum ∧
              decoded.checksum = intent.changesetChecksum then
            return some decoded.checksum
          else return none

/-- Adopt our own earlier publish at this seq and re-anchor with a snapshot. -/
def adoptPublish (cfg : Config) (o : Oracle A) (d : Delta) (adoptedPost : UInt64) : Run E Nat := do
  modifyState fun s => { s with
    currentSeq := d.seq
    currentTxid := d.maxTxid
    dbChecksum := some adoptedPost }
  takeSnapshot cfg o
  saveState o
  return 1

/-- Go on with `next` after a put, or with `conflict` if it met another object. -/
def onConflict {α : Type} (put : Run E Unit) (next : Run E α) (conflict : String → Run E α) : Run E α :=
  fun w =>
    match put w with
    | .ok _ w' => next w'
    | .error (.err (.equivocation msg)) w' => conflict msg w'
    | .error e w' => .error e w'

/-- The walrust-owned publish: intent, conditional put, and the recovery of a crashed earlier publish. -/
def publishOwned (cfg : Config) (o : Oracle A) (d : Delta) : Run E Nat := do
  let s ← state
  let key := stateKey s .live d.seq
  let priorIntent ← loadPublishIntent o
  savePublishIntent o d.seq d.preChecksum d.postChecksum
  onConflict (putChangesetIfAbsent cfg o .putDelta key d.bytes s.name d.seq "walrust-owned")
    (do
      modifyState (advanceCursor d)
      saveState o
      return d.frameCount)
    fun msg => do
      match ← existingChangesetIsOurPublish cfg o key d.seq d.preChecksum s.lineageId priorIntent with
      | some adoptedPost => adoptPublish cfg o d adoptedPost
      | none => throw (.err (.equivocation msg))

/-- The external-base publish: conditional put, then the local progress record. -/
def publishExternal (cfg : Config) (o : Oracle A) (d : Delta) : Run E Nat := do
  let s ← state
  putChangesetIfAbsent cfg o .putDelta (stateKey s .live d.seq) d.bytes s.name d.seq "external-base"
  modifyState (advanceCursor d)
  if s.externalBase.isSome then
    performWrite o .saveProgress (pure ())
  return d.frameCount

/-- Read the header a call works with; `none` if there is no WAL yet. -/
def readWalHeader (o : Oracle A) : Run E (Option WalHeader) := do
  perform o .readHeader
  match readHeader (SqliteEnv.wal (← get).db) with
  | .error e => fail e
  | .ok none =>
    -- `ensure_database_in_wal_mode`
    perform o .walMode
    return none
  | .ok (some header) => return some header

section

variable (cfg : Config) (o : Oracle A)

/-- `sync_wal_with_sequence`. -/
def syncWalWithSequence (sequence : DeltaSequence) : Run E Nat := do
  match ← readWalHeader o with
  | none => return 0
  | some header =>
    let previous ← state
    let batch ← readNextWalBatch o header
    if batch.rolloverDetected then
      match sequence with
      | .walrustOwned =>
        takeSnapshot cfg o
        saveState o
        return 1
      | .externalChangeCounter =>
        modifyState (restoreCursor previous)
        fail (s!"{previous.name}: WAL rollover detected after external base; refusing to publish " ++
          "deltas until the external base is re-anchored")
    else if batch.pageMap.isEmpty then return 0
    else
      let d ← encodeBatch cfg o "changeset" header batch
      match sequence with
      | .walrustOwned => publishOwned cfg o d
      | .externalChangeCounter => publishExternal cfg o d

/-- `sync_wal`. -/
def syncWal : Run E Nat := syncWalWithSequence cfg o .walrustOwned

/-- `sync_wal_after_external_base`. -/
def syncWalAfterExternalBase : Run E Nat :=
  syncWalWithSequence cfg o .externalChangeCounter

/-- `sync_wal_with_retry`: the owned sync without the publish intent. The put is retried with the same
    bytes, so its outcome is that of one put. -/
def syncWalWithRetry : Run E Nat := do
  match ← readWalHeader o with
  | none => return 0
  | some header =>
    let batch ← readNextWalBatch o header
    if batch.rolloverDetected then
      takeSnapshot cfg o
      saveState o
      return 1
    else if batch.pageMap.isEmpty then return 0
    else
      let d ← encodeBatch cfg o "changeset" header batch
      let s ← state
      putChangesetIfAbsent cfg o .putDelta (stateKey s .live d.seq) d.bytes s.name d.seq "walrust-owned"
      modifyState (advanceCursor d)
      saveState o
      return d.frameCount

end

/-! ## Fenced deltas -/

/-- `DeltaPayloadV1`. -/
structure DeltaPayloadV1 where
  seq : Nat
  epoch : Nat
  writerId : String
  prevChecksum : Bytes
  endPageCount : Nat
  ltxPayload : Bytes
  deriving DecidableEq, Repr

/-- The envelope crates: CBOR with the `TLMD` header, and BLAKE3. -/
structure EnvelopeCodec where
  encode : DeltaPayloadV1 → Except String Bytes
  checksum : Bytes → Bytes

structure FencedDeltaSyncParams where
  epoch : Nat
  writerId : String
  prevEnvelopeChecksum : Bytes
  deriving DecidableEq, Repr

structure DeltaPublishResult where
  seq : Nat
  envelopeChecksum : Bytes
  endPageCount : Nat
  frameCount : Nat
  deriving DecidableEq, Repr

/-- `publish_delta_envelope`. -/
def publishDeltaEnvelope (cfg : Config) (env : EnvelopeCodec) (o : Oracle A) (payload : DeltaPayloadV1) :
    Run E Bytes := do
  match env.encode payload with
  | .error e => fail s!"encode delta envelope: {e}"
  | .ok envelope =>
    let name := (← state).name
    let key := Key.envelope payload.seq
    performWrite o .putDelta (putAbsent key envelope
      (s!"{name}: delta envelope seq {payload.seq} already exists with different bytes at " ++
        s!"{key.path cfg.pre name}; refusing overwrite (writer equivocation at the same seq)"))
    return env.checksum envelope

/-- `sync_wal_fenced_delta`. -/
def syncWalFencedDelta (cfg : Config) (env : EnvelopeCodec) (o : Oracle A)
    (params : FencedDeltaSyncParams) : Run E (Option DeltaPublishResult) := do
  match ← readWalHeader o with
  | none => return none
  | some header =>
    let previous ← state
    let batch ← readNextWalBatch o header
    if batch.rolloverDetected then
      modifyState (restoreCursor previous)
      fail (s!"{previous.name}: WAL rollover detected in fenced external mode; refusing to publish " ++
        "deltas until the external base is re-anchored")
    else if batch.pageMap.isEmpty then return none
    else
      let d ← encodeBatch cfg o "delta" header batch
      let envelopeChecksum ← publishDeltaEnvelope cfg env o
        ⟨d.seq, params.epoch, params.writerId, params.prevEnvelopeChecksum, d.endPageCount, d.bytes⟩
      modifyState (advanceCursor d)
      return some ⟨d.seq, envelopeChecksum, d.endPageCount, d.frameCount⟩

end

end Sync
end Walrust
