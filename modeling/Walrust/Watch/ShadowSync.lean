import Walrust.Watch.Cache
import Walrust.Watch.Shadow

/-!
# `Walrust.Watch.ShadowSync` — from shadow segments to LTX files

The shadow watcher publishes from the segments, one generation after another: all committed frames behind its
cursor become one incremental. A generation that is drained up to a commit frame is left for the next.

* `encodeShadowToLtx` — what there is to publish;
* `syncShadowToStorage`, `syncShadowToCache` — the two ways to publish it;
* `applyShadowSyncResult` — the cursor after a sync, and its durable record.
-/

namespace Walrust
namespace Watch

open Wal Sqlite Legacy

/-- `ShadowWatchState` without the shadow manager. -/
structure ShadowWatchState where
  name : String
  currentTxid : Nat
  dbChecksum : Option UInt64
  shadowSyncGeneration : Nat
  shadowSyncOffset : Nat
  walCopyOffset : Nat
  deriving DecidableEq, Repr

/-! ## Reading the segments -/

/-- The frames of the segments behind an offset; `start` is where the first segment begins. A partial frame at the
    end of a segment is passed over. -/
def shadowFrames (pageSize : UInt32) (offset : Nat) : Nat → List Bytes → List ParsedFrame
  | _, [] => []
  | start, segment :: rest =>
    let stop := start + segment.length
    if stop ≤ offset then shadowFrames pageSize offset stop rest
    else
      let relative := offset - start
      (rawFrames pageSize.toNat ((segment.length - relative) / frameSize pageSize) (segment.drop relative)).map
        RawFrame.parsed ++ shadowFrames pageSize offset stop rest

/-- The variables of the fold: the committed pages, the pages of an open transaction, the last commit's size, and the
    frame counts. -/
structure ShadowFold where
  pageMap : PageMap
  pendingPageMap : PageMap
  finalDbSize : UInt32
  committedFrameCount : Nat
  pendingFrameCount : Nat
  deriving DecidableEq, Repr

/-- One frame. -/
def ShadowFold.push (s : ShadowFold) (f : ParsedFrame) : ShadowFold :=
  let pending := PageMap.insert s.pendingPageMap f.pageNumber f.data
  if f.dbSize ≠ 0 then
    { pageMap := pending.foldl (fun m p => PageMap.insert m p.1 p.2) s.pageMap
      pendingPageMap := []
      finalDbSize := f.dbSize
      committedFrameCount := s.committedFrameCount + (s.pendingFrameCount + 1)
      pendingFrameCount := 0 }
  else { s with pendingPageMap := pending, pendingFrameCount := s.pendingFrameCount + 1 }

def foldShadow (frames : List ParsedFrame) : ShadowFold := frames.foldl ShadowFold.push ⟨[], [], 0, 0, 0⟩

/-- `ShadowEncodeResult` with the offset behind it. -/
structure ShadowEncodeResult where
  ltxBuffer : Bytes
  postChecksum : UInt64
  uniquePages : Nat
  minTxid : Nat
  maxTxid : Nat
  newOffset : Nat
  deriving DecidableEq, Repr

structure ShadowSyncOutput where
  frameCount : Nat
  newShadowSyncOffset : Nat
  newCurrentTxid : Nat
  newDbChecksum : Option UInt64
  deriving DecidableEq, Repr

/-- `build_shadow_output`. -/
def ShadowEncodeResult.output (r : ShadowEncodeResult) : ShadowSyncOutput :=
  ⟨r.uniquePages, r.newOffset, r.maxTxid, some r.postChecksum⟩

/-- `build_empty_shadow_output`. -/
def ShadowWatchState.emptyOutput (st : ShadowWatchState) : ShadowSyncOutput :=
  ⟨0, st.shadowSyncOffset, st.currentTxid, st.dbChecksum⟩

section

variable {E A : Type} [SqliteEnv E A]

/-- The committed frames behind the cursor. -/
def readShadow (o : Oracle A) (st : ShadowWatchState) : Run E ShadowFold := do
  perform o .listSegments
  let w ← get
  return foldShadow (shadowFrames w.shadow.pageSize st.shadowSyncOffset 0
    (listSegments w.segments st.shadowSyncGeneration))

/-- `encode_shadow_to_ltx`: none if no committed frame is there. -/
def encodeShadowToLtx (t : Tools E) (o : Oracle A) (st : ShadowWatchState) : Run E (Option ShadowEncodeResult) := do
  let fold ← readShadow o st
  if fold.pageMap.isEmpty then return none
  else
    let pageSize := (← get).shadow.pageSize
    let post ← match st.dbChecksum with
      | some pre => pure (chainChecksum t.ltx t.sha64 (t.ltx.checksum pre) (sortPages fold.pageMap))
      | none => hashDatabase t o
    let minTxid := st.currentTxid + 1
    let maxTxid := minTxid + fold.pageMap.length - 1
    match encodeWalChanges t o.now fold.pageMap pageSize minTxid maxTxid
        (if fold.finalDbSize ≠ 0 then fold.finalDbSize else 1) (st.dbChecksum.map t.ltx.checksum) post with
    | .error e => fail e
    | .ok bytes => return some ⟨bytes, post, fold.pageMap.length, minTxid, maxTxid,
        st.shadowSyncOffset + fold.committedFrameCount * frameSize pageSize⟩

/-- `sync_shadow_to_storage`. -/
def syncShadowToStorage (t : Tools E) (st : ShadowWatchState) (o : Oracle A) : Run E ShadowSyncOutput := do
  match ← encodeShadowToLtx t o st with
  | none => return st.emptyOutput
  | some r =>
    putObject o (.file generationLive r.minTxid r.maxTxid) r.ltxBuffer
    return r.output

/-- `sync_shadow_to_cache`. -/
def syncShadowToCache (t : Tools E) (st : ShadowWatchState) (o : Oracle A) : Run E ShadowSyncOutput := do
  match ← encodeShadowToLtx t o st with
  | none => return st.emptyOutput
  | some r =>
    writeLtx t o r.maxTxid r.ltxBuffer false
    return r.output

/-! ## The cursor -/

/-- `last_frame_db_size_in_generation`. -/
def lastFrameDbSize (pageSize : UInt32) (segments : List Bytes) : Except String (Option UInt32) :=
  match segments.getLast? with
  | none => .ok none
  | some last =>
    if last.length = 0 then .ok none
    else if last.length < frameSize pageSize then .error "shadow segment is smaller than one frame"
    else .ok (some (u32At (last.drop (last.length - frameSize pageSize)) 4))

/-- `advance_shadow_sync_cursor_if_drained`, for the generations up to the live one. -/
def advanceCursor (segments : Lib.Store (Nat × Nat) Bytes) (pageSize : UInt32) :
    Nat → ShadowWatchState → Except String ShadowWatchState
  | 0, st => .ok st
  | rounds + 1, st =>
    let generation := listSegments segments st.shadowSyncGeneration
    let size := (generation.map List.length).sum
    if st.shadowSyncOffset < size then .ok st
    else
      let next := { st with shadowSyncGeneration := st.shadowSyncGeneration + 1, shadowSyncOffset := 0 }
      if 0 < size then
        match lastFrameDbSize pageSize generation with
        | .error e => .error e
        | .ok tail =>
          if tail.all (· = 0) then
            .error (s!"{st.name}: shadow generation {st.shadowSyncGeneration} tail is not at a commit boundary " ++
              s!"(last frame db_size={repr tail})")
          else advanceCursor segments pageSize rounds next
      else advanceCursor segments pageSize rounds next

/-- `apply_shadow_sync_output_to_state`. -/
def ShadowWatchState.apply (st : ShadowWatchState) (out : ShadowSyncOutput) : ShadowWatchState :=
  if out.frameCount = 0 then st
  else
    { st with
      shadowSyncOffset := out.newShadowSyncOffset
      currentTxid := out.newCurrentTxid
      dbChecksum := out.newDbChecksum }

/-- `progress_from_state`. -/
def ShadowWatchState.progress (st : ShadowWatchState) (shadow : ShadowWal) : ShadowProgress where
  currentTxid := st.currentTxid
  dbChecksum := st.dbChecksum
  shadowSyncGeneration := st.shadowSyncGeneration
  shadowSyncOffset := st.shadowSyncOffset
  walCopyOffset := st.walCopyOffset
  walSalt := shadow.walReadSalt
  walChecksumChain := shadow.walChain

/-- `save_shadow_watch_progress`. -/
def saveProgress (o : Oracle A) (st : ShadowWatchState) : Run E Unit :=
  performWrite o .saveProgress (modify fun w => { w with progress := some (st.progress w.shadow) })

/-- `apply_shadow_sync_result_to_state`. -/
def applyShadowSyncResult (o : Oracle A) (st : ShadowWatchState) (out : ShadowSyncOutput) :
    Run E ShadowWatchState := do
  perform o .listSegments
  let w ← get
  let applied := st.apply out
  match advanceCursor w.segments w.shadow.pageSize (w.shadow.generation - applied.shadowSyncGeneration) applied with
  | .error e => fail e
  | .ok st' =>
    saveProgress o st'
    return st'

end

end Watch
end Walrust
