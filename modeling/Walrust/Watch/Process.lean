import Walrust.Watch.ShadowSync
import Walrust.Watch.WalSync

/-!
# `Walrust.Watch.Process` — the two watchers

A watcher process for one database, from its start to its end: the phases of its startup and then the ticks of its
loop, in any order. With the disk cache on, an uploader task runs beside it from the moment it is spawned; its
uploads may fall between any two steps.

* `bootIndependent`, `anchorIndependent` — the startup of `watch_with_independent_tasks`;
* `bootShadow`, `initialShadowCopy`, `startupSnapshot` — the startup of `watch_with_shadow`;
* `shadowTick`, `drainShadow`, `checkpointDrained` — the ticks;
* `Process`, `Step` — the process, and what one step can do.
-/

namespace Walrust
namespace Watch

open Sqlite Legacy

/-- What the user asked of a watcher. -/
structure WatchConfig where
  name : String
  /-- The disk cache is on. -/
  cached : Bool
  /-- `on_startup`, of the shadow watcher. -/
  onStartup : Bool
  /-- What `manifest.json` of the stream says: TXID and chain value. -/
  manifest : Option (Nat × Option UInt64)
  deriving DecidableEq, Repr

/-- A watcher's own state and the TXIDs its uploader has still to upload. -/
structure Task (S : Type) where
  st : S
  queue : List Nat

section

variable {E A : Type} [SqliteEnv E A]

/-- An error that is only logged. -/
def logged {α : Type} (program : Run E α) (otherwise : α) : Run E α := fun w =>
  match program w with
  | .error (.err _) w' => .ok otherwise w'
  | result => result

/-- The chain value a process starts with: the hash of the database file, or none. -/
def initialChecksum (t : Tools E) (o : Oracle A) : Run E (Option UInt64) :=
  logged (do return some (← hashDatabase t o)) none

/-- `LocalCache::new_at`, and what the uploader resumes. -/
def resumeUploads (cached : Bool) (o : Oracle A) : Run E (List Nat) := do
  if cached then
    openCache o
    return (← get).cache.manifest.pendingUploads
  else return []

/-! ## The independent watcher -/

/-- The state a restart begins with: the TXID of the listing, nothing of the old cursor. -/
def bootIndependent (t : Tools E) (cfg : WatchConfig) (o : Oracle A) : Run E WatchedDbState := do
  let (currentTxid, _) ← discoverState o
  let checksum ← initialChecksum t o
  return {
    name := cfg.name
    walOffset := 0
    walGeneration := 0
    currentTxid := currentTxid
    dbChecksum := checksum
    walSalt := none
    walChecksumChain := none }

/-- The initial sync of a fresh stream, with a WAL there. The salt and the chain of its output are not taken over. -/
def initialSync (t : Tools E) (st : WatchedDbState) (first : Oracle A) (rest : List (Oracle A)) :
    Run E WatchedDbState := do
  let out ← withRetry (syncWalToStorage t st) first rest
  return { st with
    walOffset := out.newWalOffset
    walGeneration := out.newWalGeneration
    currentTxid := out.newCurrentTxid
    dbChecksum := out.newDbChecksum }

/-- The anchor of the startup; a failure is a warning. An empty WAL is a missing file or one of no bytes
    (`emptyFile`). -/
def anchorIndependent (t : Tools E) (st : WatchedDbState) (emptyFile : Bool) (first : Oracle A)
    (rest : List (Oracle A)) : Run E WatchedDbState := do
  if 0 < st.currentTxid then logged (withRetry (anchorStreamOnStartup t st) first rest) st
  else if (SqliteEnv.wal (← get).db).isEmpty && !emptyFile then return st
  else logged (initialSync t st first rest) st

/-- With the cache on, the cache and the shadow are opened and the uploader is spawned. -/
def spawnIndependent (cfg : WatchConfig) (st : WatchedDbState) (o : Oracle A) : Run E (Task WatchedDbState) := do
  let queue ← resumeUploads cfg.cached o
  if cfg.cached then newShadow o
  return ⟨st, queue⟩

/-- `do_sync` in the loop; what it wrote to the cache is sent to the uploader. -/
def independentTick (t : Tools E) (cfg : WatchConfig) (task : Task WatchedDbState) (first : Oracle A)
    (rest : List (Oracle A)) : Run E (Task WatchedDbState) := do
  let (st, frameCount) ← doSync t cfg.cached task.st first rest
  return ⟨st, if cfg.cached ∧ 0 < frameCount then task.queue ++ [st.currentTxid] else task.queue⟩

/-! ## The shadow watcher -/

/-- `load_shadow_progress`: a record that is ahead of the segments is refused. -/
def loadProgress (name : String) (o : Oracle A) : Run E (Option ShadowProgress) := do
  perform o .loadProgress
  let w ← get
  match w.progress with
  | none => return none
  | some p =>
    if w.shadow.generation < p.shadowSyncGeneration then
      fail (s!"{name}: shadow progress generation {p.shadowSyncGeneration} is ahead of live generation " ++
        s!"{w.shadow.generation}")
    else return some p

/-- The state without a durable record: the manifest's TXID, or that of a fresh stream. -/
def WatchConfig.seededState (cfg : WatchConfig) (checksum : Option UInt64) : ShadowWatchState where
  name := cfg.name
  currentTxid := cfg.manifest.elim 0 Prod.fst
  dbChecksum := checksum
  shadowSyncGeneration := 0
  shadowSyncOffset := 0
  walCopyOffset := 0

/-- The state of a durable record. -/
def WatchConfig.resumedState (cfg : WatchConfig) (p : ShadowProgress) : ShadowWatchState where
  name := cfg.name
  currentTxid := p.currentTxid
  dbChecksum := p.dbChecksum
  shadowSyncGeneration := p.shadowSyncGeneration
  shadowSyncOffset := p.shadowSyncOffset
  walCopyOffset := p.walCopyOffset

/-- The durable record overrides the manifest, and brings the read cursor of the shadow with it. -/
def resumeShadow (cfg : WatchConfig) (checksum : Option UInt64) (o : Oracle A) : Run E ShadowWatchState := do
  match ← loadProgress cfg.name o with
  | none => return cfg.seededState checksum
  | some p =>
    modifyShadow (·.restoreReadCursor p.walSalt p.walChecksumChain)
    return cfg.resumedState p

/-- The chain value of the manifest, or that of the database file. -/
def seededChecksum (t : Tools E) (cfg : WatchConfig) (o : Oracle A) : Run E (Option UInt64) :=
  match cfg.manifest.bind Prod.snd with
  | some cs => pure (some cs)
  | none => initialChecksum t o

/-- The setup of the shadow watcher; with the cache on, the uploader is spawned here. -/
def bootShadow (t : Tools E) (cfg : WatchConfig) (o : Oracle A) : Run E (Task ShadowWatchState) := do
  let checksum ← seededChecksum t cfg o
  newShadow o
  let st ← resumeShadow cfg checksum o
  let queue ← resumeUploads cfg.cached o
  return ⟨st, queue⟩

/-- A copy from the cursor, which moves only if frames were copied. -/
def copyToShadow (st : ShadowWatchState) (o : Oracle A) : Run E ShadowWatchState := do
  let (frames, newOffset) ← copyFrames o st.walCopyOffset
  return if frames.isEmpty then st else { st with walCopyOffset := newOffset }

/-- `initial_shadow_copy`: the state, and whether the generation went up, which calls for an eager snapshot. -/
def initialShadowCopy (st : ShadowWatchState) (o : Oracle A) : Run E (ShadowWatchState × Bool) := do
  if (SqliteEnv.wal (← get).db).isEmpty then return (st, false)
  else
    let before := (← get).shadow.generation
    let st ← copyToShadow st o
    return (st, before < (← get).shadow.generation)

/-- The snapshot part of the shadow watcher: chain value and TXID of a snapshot that was stored. -/
def shadowSnapshot (t : Tools E) (st : ShadowWatchState) (first : Oracle A) (rest : List (Oracle A)) :
    Run E ShadowWatchState := do
  let watched : WatchedDbState :=
    { name := st.name
      walOffset := 0
      walGeneration := (← get).shadow.generation
      currentTxid := st.currentTxid
      dbChecksum := st.dbChecksum
      walSalt := none
      walChecksumChain := none }
  let watched ← takeSnapshotWithRetry t watched first rest
  return { st with currentTxid := watched.currentTxid, dbChecksum := watched.dbChecksum }

/-- The cursor behind a startup snapshot: the end of what has been copied. -/
def ShadowWatchState.reanchored (st : ShadowWatchState) (shadow : ShadowWal) : ShadowWatchState :=
  { st with
    shadowSyncGeneration := shadow.generation
    shadowSyncOffset := shadow.segmentOffset
    walCopyOffset := 0 }

section

variable (t : Tools E) (st : ShadowWatchState) (first : Oracle A) (rest : List (Oracle A))

/-- An on-startup or eager snapshot; that it failed is only logged, that its progress could not be saved ends the
    process. -/
def startupSnapshot :
    Run E ShadowWatchState := do
  match ← logged (some <$> shadowSnapshot t st first rest) none with
  | none => return st
  | some st' =>
    let shadow := (← get).shadow
    saveProgress first (st'.reanchored shadow)
    return st'.reanchored shadow

/-- A snapshot of the loop: by the timer or a trigger. -/
def periodicSnapshot :
    Run E ShadowWatchState := do
  match ← logged (some <$> shadowSnapshot t st first rest) none with
  | none => return st
  | some st' =>
    saveProgress first st'
    return st'

end

section

variable (t : Tools E) (cfg : WatchConfig) (task : Task ShadowWatchState) (first : Oracle A) (rest : List (Oracle A))

/-- Publish what the segments hold; a file written to the cache is sent to the uploader. -/
def publishShadow : Run E (ShadowSyncOutput × List Nat) := do
  let out ← withRetry (if cfg.cached then syncShadowToCache t task.st else syncShadowToStorage t task.st) first rest
  return (out, if cfg.cached ∧ 0 < out.frameCount then task.queue ++ [out.newCurrentTxid] else task.queue)

/-- The WAL tick: copy, publish, apply. -/
def shadowTick : Run E (Task ShadowWatchState) := do
  let st ← copyToShadow task.st first
  let (out, queue) ← publishShadow t cfg ⟨st, task.queue⟩ first rest
  return ⟨← applyShadowSyncResult first st out, queue⟩

/-- The part of `checkpoint_shadow_after_durable_sync` up to the upload. -/
def drainShadow : Run E (ShadowWatchState × ShadowSyncOutput × List Nat) := do
  let st ← copyToShadow task.st first
  let (out, queue) ← publishShadow t cfg ⟨st, task.queue⟩ first rest
  return (st, out, queue)

end

/-- `wait_for_cache_checkpoint_durability` as it looks when it returns. -/
def CacheManifest.durable (m : CacheManifest) (requiredTxid : Nat) : Bool :=
  m.failed.isEmpty && m.pending.isEmpty && requiredTxid ≤ m.lastUploadedTxid

/-- The rest of it: the durability wait, the cursor, the checkpoint, the cleanup. -/
def checkpointDrained (cfg : WatchConfig) (st : ShadowWatchState) (out : ShadowSyncOutput) (queue : List Nat)
    (o : Oracle A) : Run E (Task ShadowWatchState) := do
  if cfg.cached ∧ !(← get).cache.manifest.durable out.newCurrentTxid then
    fail s!"{st.name}: cannot checkpoint shadow WAL"
  let st ← applyShadowSyncResult o st out
  shadowCheckpoint o
  if 0 < st.shadowSyncGeneration then cleanupSegments st.shadowSyncGeneration
  return ⟨st, queue⟩

/-! ## Processes -/

/-- A watcher process. -/
inductive Process where
  /-- Not yet started. -/
  | idle
  /-- Independent: the state is set up, the anchor is next. -/
  | booted (st : WatchedDbState)
  | anchored (st : WatchedDbState)
  | independent (task : Task WatchedDbState)
  /-- Shadow: the state is set up and the uploader runs, the first copy is next. -/
  | opened (task : Task ShadowWatchState)
  /-- The first copy is done; it may call for an eager snapshot. -/
  | copied (task : Task ShadowWatchState) (eager : Bool)
  | shadow (task : Task ShadowWatchState)
  /-- In a checkpoint, while the uploader drains. -/
  | draining (st : ShadowWatchState) (out : ShadowSyncOutput) (queue : List Nat)
  | ended

/-- The TXIDs the uploader of a process has still to upload. -/
def Process.queue : Process → List Nat
  | .independent task => task.queue
  | .opened task | .copied task _ | .shadow task => task.queue
  | .draining _ _ queue => queue
  | _ => []

/-- The uploader takes a TXID out of its queue, or stops. -/
def Process.setQueue (queue : List Nat) : Process → Process
  | .independent task => .independent { task with queue := queue }
  | .opened task => .opened { task with queue := queue }
  | .copied task eager => .copied { task with queue := queue } eager
  | .shadow task => .shadow { task with queue := queue }
  | .draining st out _ => .draining st out queue
  | p => p

/-- Where a call leads: to the next state of the process, or to its end. -/
def leadsTo {α : Type} (result : EStateM.Result Stop (World E) α) (next : α → Process) : World E × Process :=
  match result with
  | .ok a w => (w, next a)
  | .error _ w => (w, .ended)

/-- The process is in its loop. -/
def Process.inLoop : Process → Bool
  | .independent _ | .shadow _ => true
  | _ => false

/-- What the compaction and the pruning of the loop may do to the bucket: delete, and write merged objects. -/
def Maintained (b b' : LtxBucket) : Prop :=
  ∀ k, b'.get k = b.get k ∨ b'.get k = none ∨ ∃ level min max, k = .level level min max

/-- The actions of a process and its surroundings. `first` and `rest` are the attempts of a call that is retried. -/
inductive Action (E A : Type) where
  | bootIndependent (o : Oracle A)
  | bootShadow (o : Oracle A)
  | anchor (emptyFile : Bool) (first : Oracle A) (rest : List (Oracle A))
  | spawn (o : Oracle A)
  | initialCopy (o : Oracle A)
  | startup (first : Oracle A) (rest : List (Oracle A))
  | tick (first : Oracle A) (rest : List (Oracle A))
  | snapshot (first : Oracle A) (rest : List (Oracle A))
  | drain (first : Oracle A) (rest : List (Oracle A))
  | checkpoint (o : Oracle A)
  | upload (txid : Nat) (first : Oracle A) (rest : List (Oracle A))
  /-- Other connections. -/
  | others (acts : List A)
  | maintain (bucket : LtxBucket)

/-- What an action does; none where the process is not in a state for it. -/
def act (t : Tools E) (cfg : WatchConfig) : Action E A → World E × Process → Option (World E × Process)
  | .bootIndependent o, (w, .idle) => some (leadsTo (bootIndependent t cfg o w) .booted)
  | .anchor emptyFile first rest, (w, .booted st) =>
    some (leadsTo (anchorIndependent t st emptyFile first rest w) .anchored)
  | .spawn o, (w, .anchored st) => some (leadsTo (spawnIndependent cfg st o w) .independent)
  | .tick first rest, (w, .independent task) =>
    some (leadsTo (independentTick t cfg task first rest w) .independent)
  | .snapshot first rest, (w, .independent task) =>
    some (leadsTo (takeSnapshotWithRetry t task.st first rest w) fun st => .independent { task with st := st })
  | .bootShadow o, (w, .idle) => some (leadsTo (bootShadow t cfg o w) .opened)
  | .initialCopy o, (w, .opened task) =>
    some (leadsTo (initialShadowCopy task.st o w) fun r => .copied { task with st := r.1 } r.2)
  | .startup first rest, (w, .copied task eager) =>
    if eager ∨ cfg.onStartup then
      some (leadsTo (startupSnapshot t task.st first rest w) fun st => .shadow { task with st := st })
    else some (w, .shadow task)
  | .tick first rest, (w, .shadow task) => some (leadsTo (shadowTick t cfg task first rest w) .shadow)
  | .snapshot first rest, (w, .shadow task) =>
    some (leadsTo (periodicSnapshot t task.st first rest w) fun st => .shadow { task with st := st })
  | .drain first rest, (w, .shadow task) =>
    some (leadsTo (drainShadow t cfg task first rest w) fun r => .draining r.1 r.2.1 r.2.2)
  | .checkpoint o, (w, .draining st out queue) => some (leadsTo (checkpointDrained cfg st out queue o w) .shadow)
  | .upload txid first rest, (w, p) =>
    if txid ∈ p.queue then
      match uploadTxid t txid first rest w with
      | .ok _ w' => some (w', p.setQueue (p.queue.erase txid))
      -- an upload that failed for good stops the uploader
      | .error (.err _) w' => some (w', p.setQueue [])
      | .error _ w' => some (w', .ended)
    else none
  | .others acts, (w, p) =>
    match interfere acts w with
    | .ok _ w' => some (w', p)
    | .error _ _ => none
  | _, _ => none

/-- The world a process finds when it starts. -/
def World.restart (w : World E) : World E := { w with stored := [] }

/-- One step: an action, or maintenance of the bucket. -/
inductive Step (t : Tools E) (cfg : WatchConfig) (a : Action E A) : World E × Process → World E × Process → Prop where
  | act {s s' : World E × Process} (h : act t cfg a s = some s') : Step t cfg a s s'
  | maintain {w : World E} {p : Process} {b : LtxBucket} (ha : a = .maintain b) (hp : p.inLoop = true)
      (h : Maintained w.bucket b) : Step t cfg a (w, p) ({ w with bucket := b }, p)

end

end Watch
end Walrust
