import Walrust.Watch

/-!
# `Walrust.Watch.Shadow` — the shadow WAL

The shadow copies committed frames out of the live WAL into segment files, one generation for each salt it has
seen. Its cursor lives in memory; what survives a restart is the segments and what the watcher saved of the cursor.

* `newShadow` — opening the shadow: torn segment tails are cut off, the blocker pins the WAL;
* `copyFrames` — one copy: a new salt starts a new generation, before anything is read from it;
* `shadowCheckpoint`, `cleanupSegments` — the manual checkpoint, and what is deleted after it.
-/

namespace Walrust
namespace Watch

open Wal Sqlite Lib.Bytes

/-! ## Segments -/

/-- A frame as the shadow stores it: page number and size, sixteen zero bytes, the page. -/
def ParsedFrame.shadowBytes (f : ParsedFrame) : Bytes :=
  beBytes 4 f.pageNumber.toNat ++ beBytes 4 f.dbSize.toNat ++ List.replicate 16 0 ++ f.data

/-- `find_latest_generation`. -/
def latestGeneration (segments : Lib.Store (Nat × Nat) Bytes) : Option Nat := (segments.keys.map Prod.fst).max?

/-- `align_truncate_segments`. -/
def alignSegments (pageSize : UInt32) (segments : Lib.Store (Nat × Nat) Bytes) : Lib.Store (Nat × Nat) Bytes :=
  if pageSize = 0 then segments
  else segments.mapValues fun bs => bs.take (bs.length / frameSize pageSize * frameSize pageSize)

/-- `list_segments`: the files of a generation, by index. -/
def listSegments (segments : Lib.Store (Nat × Nat) Bytes) (generation : Nat) : List Bytes :=
  (((segments.entries.filter fun e => e.1.1 = generation).mergeSort fun e f => e.1.2 ≤ f.1.2)).map Prod.snd

/-- `db_header_page_size`. -/
def dbHeaderPageSize (main : Bytes) : Option UInt32 :=
  if main.length < 18 ∨ main.take 16 ≠ "SQLite format 3\x00".toUTF8.toList then none
  else
    let raw := field main 16 2
    some (if raw = 1 then 65536 else UInt32.ofNat raw)

/-! ## The cursor -/

/-- `wal_read_salt`. -/
def ShadowWal.walReadSalt (s : ShadowWal) : Option Salt := if s.headerSeeded then some s.walSalt else none

/-- `restore_read_cursor`. -/
def ShadowWal.restoreReadCursor (s : ShadowWal) (salt : Option Salt) (chain : Option Chain) : ShadowWal :=
  match salt with
  | none => s
  | some salt => { s with walSalt := salt, headerSeeded := true, walChain := chain }

/-- What a header changes: the first one seeds the cursor, another salt starts the next generation. -/
def ShadowWal.observe (s : ShadowWal) (header : WalHeader) : ShadowWal :=
  if !s.headerSeeded then
    { s with walSalt := header.salt, pageSize := header.pageSize, headerSeeded := true, walChain := none }
  else if header.salt ≠ s.walSalt then
    { s with
      generation := s.generation + 1
      segmentIndex := 0
      segmentOffset := 0
      walSalt := header.salt
      pageSize := header.pageSize
      walChain := none }
  else s

/-- The offset a copy reads from: the start of the file in a new generation. -/
def ShadowWal.effectiveOffset (s : ShadowWal) (header : WalHeader) (offset : Nat) : Nat :=
  if s.headerSeeded ∧ header.salt ≠ s.walSalt then 0 else offset

section

variable {E A : Type} [SqliteEnv E A]

def modifyShadow (f : ShadowWal → ShadowWal) : Run E Unit := modify fun w => { w with shadow := f w.shadow }

/-- `open_checkpoint_blocker`: a small commit, then a read transaction on it. -/
def openCheckpointBlocker (o : Oracle A) : Run E Unit := do
  perform o .walMode
  interfere o.blocker

/-- `ShadowWal::new`. -/
def newShadow (o : Oracle A) : Run E Unit := do
  perform o .openShadow
  let w ← get
  match readHeader (SqliteEnv.wal w.db) with
  | .error e => fail e
  | .ok header =>
    let pageSize := header.elim 4096 (·.pageSize)
    let generation := (latestGeneration w.segments).getD 0
    performWrite o .healSegments (modify fun w =>
      { w with segments := alignSegments ((dbHeaderPageSize (SqliteEnv.main w.db)).getD pageSize) w.segments })
    openCheckpointBlocker o
    modifyShadow fun _ =>
      { generation := generation
        segmentIndex := 0
        segmentOffset := 0
        pageSize := pageSize
        walSalt := header.elim (0, 0) WalHeader.salt
        walChain := none
        headerSeeded := header.isSome }

/-- Append to the current segment; the offset counts whole frames. -/
def appendBytes (pageSize : UInt32) (bytes : Bytes) : Run E Unit := modify fun w =>
  let key := (w.shadow.generation, w.shadow.segmentIndex)
  { w with
    segments := w.segments.put key ((w.segments.get key).getD [] ++ bytes)
    shadow := { w.shadow with
      segmentOffset := w.shadow.segmentOffset + bytes.length / frameSize pageSize * frameSize pageSize } }

/-- `write_frames_to_segment`: an append that does not complete may leave any front part of it. -/
def writeFramesToSegment (o : Oracle A) (pageSize : UInt32) (frames : List ParsedFrame) : Run E Unit := do
  let bytes := frames.flatMap ParsedFrame.shadowBytes
  interfere (o.env .appendSegment)
  match o.fault .appendSegment with
  | .none => appendBytes pageSize bytes
  | .failsStored => do
    appendBytes pageSize bytes
    fail "segment append failed"
  | .fails => do
    appendBytes pageSize (bytes.take o.torn)
    fail "segment append failed"
  | .crash => do
    appendBytes pageSize (bytes.take o.torn)
    throw .crash

/-- `copy_frames`: the frames copied and the offset behind them. The cursor has moved to a new generation even if
    the read after it fails. -/
def copyFrames (o : Oracle A) (offset : Nat) : Run E (List ParsedFrame × Nat) := do
  match ← readWalHeader o with
  | none => return ([], offset)
  | some header =>
    let before := (← get).shadow
    modifyShadow (·.observe header)
    perform o .readFrames
    let file := SqliteEnv.wal (← get).db
    interfere (o.env .resetCheck)
    match readFramesAsPagesChecked file (SqliteEnv.wal (← get).db) header.pageSize
        (before.effectiveOffset header offset) (before.observe header).walChain with
    | .error e => fail e
    | .ok r =>
      modifyShadow fun s => { s with walChain := r.chain }
      if r.frames.isEmpty then return ([], r.newOffset)
      else
        writeFramesToSegment o header.pageSize r.frames
        return (r.frames, r.newOffset)

/-- `ShadowWal::checkpoint`: the blocker is opened again also after a checkpoint that failed. -/
def shadowCheckpoint (o : Oracle A) : Run E Unit := do
  interfere (o.env .passiveCheckpoint)
  if o.fault .passiveCheckpoint = .crash then throw .crash
  interfere o.passive
  openCheckpointBlocker o
  if o.fault .passiveCheckpoint ≠ .none then fail "shadow checkpoint incomplete"

/-- `cleanup_segments`. -/
def cleanupSegments (upTo : Nat) : Run E Unit := modify fun w =>
  { w with segments := w.segments.eraseAll ((w.segments.keys).filter fun k => k.1 < upTo) }

end

end Watch
end Walrust
