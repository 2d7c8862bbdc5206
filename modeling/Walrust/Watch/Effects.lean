import Walrust.Watch.Process

/-!
# `Walrust.Watch.Effects` — which calls store objects

Most of what a watcher does touches neither the bucket, the cache, the durable cursor nor the record of what was
stored: reading the WAL, copying frames, encoding. Such a call moves along every `Frame`. The others are the cache, the
cursor, and the calls that store objects and take nothing back: `Stores P` says that all keys which a call stores,
whether it returns or stops, are in `P`, and that the bucket is the one before with these objects put in.

* `Frame` — the relations that the first kind of call does not leave;
* `Stored`, `Stores` — what was stored;
* one lemma for each call: `copyFrames_moves`, `takeSnapshotToStorage_stores`, `shadowTick_stores`, ….
-/

namespace Walrust
namespace Watch

open Wal Sqlite Legacy
open Lib (Moves)

variable {E A : Type}

/-- A relation that is kept by whatever leaves the bucket, the cache, the durable cursor and the record alone. -/
class Frame (R : World E → World E → Prop) : Prop extends IsTrans (World E) R where
  step : ∀ w w' : World E, w'.bucket = w.bucket → w'.cache = w.cache → w'.progress = w.progress →
    w'.stored = w.stored → R w w'

instance (R : World E → World E → Prop) [Frame R] : Std.Refl R := ⟨fun w => Frame.step w w rfl rfl rfl rfl⟩

/-- From `w` to `w'` objects with keys in `P` were stored, and nothing else happened to the bucket. -/
def Stored (P : LtxKey → Prop) (w w' : World E) : Prop :=
  ∃ objects : List (LtxKey × Bytes), (∀ o ∈ objects, P o.1) ∧ w'.stored = objects.map Prod.fst ++ w.stored ∧
    w'.bucket = objects.foldr (fun o b => b.put o.1 o.2) w.bucket

/-- The call stores only keys in `P`. -/
abbrev Stores (P : LtxKey → Prop) {α : Type} (x : Run E α) : Prop := Moves (Stored P) x

/-- The cache and the durable cursor are as they were. -/
def SameCache (w w' : World E) : Prop := w'.cache = w.cache ∧ w'.progress = w.progress

section Stored

variable {P Q : LtxKey → Prop} {w w' : World E} {α : Type}

theorem Stored.same (hstored : w'.stored = w.stored) (hbucket : w'.bucket = w.bucket) : Stored P w w' :=
  ⟨[], by simp, by simp [hstored], by simp [hbucket]⟩

instance (P : LtxKey → Prop) : Frame (Stored (E := E) P) where
  step := fun _ _ hbucket _ _ hstored => .same hstored hbucket
  trans := by
    rintro w₁ w₂ w₃ ⟨objects, hP, hstored, hbucket⟩ ⟨objects', hP', hstored', hbucket'⟩
    refine ⟨objects' ++ objects, ?_, ?_, ?_⟩
    · intro o ho
      exact (List.mem_append.mp ho).elim (hP' o) (hP o)
    · rw [hstored', hstored, List.map_append, List.append_assoc]
    · rw [hbucket', hbucket, List.foldr_append]

instance : Frame (SameCache (E := E)) where
  step := fun _ _ _ hcache hprogress _ => ⟨hcache, hprogress⟩
  trans := fun _ _ _ h h' => ⟨h'.1.trans h.1, h'.2.trans h.2⟩

theorem Stored.mono (h : Stored P w w') (hPQ : ∀ k, P k → Q k) : Stored Q w w' := by
  obtain ⟨objects, hP, hstored, hbucket⟩ := h
  exact ⟨objects, fun o ho => hPQ _ (hP o ho), hstored, hbucket⟩

theorem Stored.eq (h : Stored (fun _ => False) w w') : w'.stored = w.stored ∧ w'.bucket = w.bucket := by
  obtain ⟨objects, hP, hstored, hbucket⟩ := h
  cases objects with
  | nil => exact ⟨hstored, hbucket⟩
  | cons o objects => exact (hP o List.mem_cons_self).elim

theorem Stored.suffix (h : Stored P w w') : w.stored <:+ w'.stored := by
  obtain ⟨objects, -, hstored, -⟩ := h
  exact ⟨_, hstored.symm⟩

theorem Stores.mono {x : Run E α} (h : Stores P x) (hPQ : ∀ k, P k → Q k) : Stores Q x :=
  Moves.mono h fun _ _ hw => hw.mono hPQ

end Stored

/-! ## Programs -/

section Generic

variable {R : World E → World E → Prop} [Frame R] {w w' : World E} {α β : Type} {attempt : Oracle A → Run E α}
  {f : World E → Run E α}

theorem fail_moves {msg : String} : Moves R (fail msg : Run E α) := .throw _

/-- A change to anything but the bucket, the cache, the durable cursor and the record. -/
theorem modify_moves {f : World E → World E} (h : ∀ w, (f w).bucket = w.bucket ∧ (f w).cache = w.cache ∧
    (f w).progress = w.progress ∧ (f w).stored = w.stored) : Moves R (modify f : Run E Unit) :=
  fun w => Frame.step w (f w) (h w).1 (h w).2.1 (h w).2.2.1 (h w).2.2.2

omit [Frame R] in
theorem get_bind_moves (h : ∀ w, Moves R (f w)) : Moves R (get >>= f) := fun w => h w w

theorem map_moves {x : Run E α} (h : Moves R x) {f : α → β} : Moves R (f <$> x) := by
  exact .bind h fun _ => .pure _

/-- The retries are attempts one after another. -/
theorem withRetry_moves (h : ∀ o, Moves R (attempt o)) {first : Oracle A} :
    Moves R (withRetry attempt first rest) := by
  induction rest generalizing first with
  | nil => exact h first
  | cons next rest ih =>
    intro w
    simp only [withRetry]
    cases hres : attempt first w with
    | ok a w' => exact (h first).of_ok hres
    | error e w' =>
      have hw := (h first).of_error hres
      cases e with
      | err msg => exact IsTrans.trans _ _ _ hw (ih w')
      | crash => exact hw
      | stuck => exact hw

/-- What the retries return, one attempt has returned. -/
theorem withRetry_ok {first : Oracle A} {a : α}
    (h : withRetry attempt first rest w = .ok a w') : ∃ o w₁, attempt o w₁ = .ok a w' := by
  induction rest generalizing first w with
  | nil => exact ⟨first, w, h⟩
  | cons next rest ih =>
    simp only [withRetry] at h
    cases hres : attempt first w with
    | ok b w₁ =>
      rw [hres] at h
      cases h
      exact ⟨first, w, hres⟩
    | error e w₁ =>
      rw [hres] at h
      cases e with
      | err msg => exact ih h
      | crash => cases h
      | stuck => cases h

omit [Frame R] in
theorem logged_moves {program : Run E α} (h : Moves R program) {otherwise : α} :
    Moves R (logged program otherwise) := by
  intro w
  simp only [logged]
  cases hres : program w with
  | ok a w' => exact h.of_ok hres
  | error e w' => cases e <;> exact h.of_error hres

variable [SqliteEnv E A] {o : Oracle A}

theorem interfere_moves {acts : List A} : Moves R (interfere acts : Run E Unit) := by
  induction acts with
  | nil => exact .pure ()
  | cons a rest ih =>
    refine get_bind_moves fun w => ?_
    cases hact : SqliteEnv.act w.db a with
    | none => exact .throw _
    | some db => exact .bind (modify_moves fun _ => ⟨rfl, rfl, rfl, rfl⟩) fun _ => ih

theorem perform_moves {op : Op} : Moves R (perform o op : Run E Unit) := by
  refine .bind interfere_moves fun _ => ?_
  cases o.fault op with
  | none => exact .pure ()
  | fails => exact fail_moves
  | failsStored => exact fail_moves
  | crash => exact .throw _

/-- An operation, and a look at the world behind it. -/
theorem look_moves {op : Op} (h : ∀ w, Moves R (f w)) : Moves R (perform o op >>= fun _ => get >>= f) :=
  .bind perform_moves fun _ => get_bind_moves h

theorem performWrite_moves {write : Run E Unit} (h : Moves R write) {op : Op} :
    Moves R (performWrite o op write) := by
  refine .bind interfere_moves fun _ => ?_
  cases o.fault op with
  | none => exact h
  | fails => exact fail_moves
  | failsStored => exact .bind h fun _ => fail_moves
  | crash => exact .throw _

end Generic

variable [SqliteEnv E A] {st : WatchedDbState} {cfg : WatchConfig} {bytes : Bytes} {txid : Nat}
  {ss : ShadowWatchState}

/-! ## Calls that store nothing -/

section Local

variable {R : World E → World E → Prop} [Frame R] {P : LtxKey → Prop} {t : Tools E} {o : Oracle A}
  {pageSize : UInt32} {out : ShadowSyncOutput}

theorem discoverState_moves : Moves R (discoverState o : Run E (Nat × Nat)) :=
  look_moves fun _ => .pure _

theorem encodeSqliteSnapshot_moves : Moves R (encodeSqliteSnapshot t o pageSize txid) := by
  refine look_moves fun w => ?_
  cases encodeSnapshotWithChecksum t o.now (t.vacuumInto w.db) pageSize txid with
  | error e => exact fail_moves
  | ok snapshot => exact .pure _

theorem hashDatabase_moves : Moves R (hashDatabase t o) :=
  look_moves fun _ => .pure _

theorem checkpointWalPassive_moves : Moves R (checkpointWalPassive o : Run E Unit) :=
  .bind perform_moves fun _ => interfere_moves

theorem checkpointWalTruncate_moves : Moves R (checkpointWalTruncate o : Run E Unit) :=
  .bind perform_moves fun _ => modify_moves fun _ => ⟨rfl, rfl, rfl, rfl⟩

theorem readPageSize_moves : Moves R (readPageSize o : Run E UInt32) := by
  refine look_moves fun w => ?_
  cases Sync.getPageSize (SqliteEnv.main w.db) with
  | error e => exact fail_moves
  | ok pageSize => exact .pure _

theorem readWalHeader_moves : Moves R (readWalHeader o : Run E (Option WalHeader)) := by
  refine look_moves fun w => ?_
  cases readHeader (SqliteEnv.wal w.db) with
  | error e => exact fail_moves
  | ok header =>
    cases header with
    | none => exact .bind perform_moves fun _ => .pure _
    | some header => exact .pure _

theorem readSalt_moves : Moves R (readSalt o : Run E (Option Salt)) := by
  refine .bind interfere_moves fun _ => ?_
  refine get_bind_moves fun w => ?_
  split
  · exact .throw _
  · exact .pure _
  · exact .pure _

/-! ### The shadow -/

omit [SqliteEnv E A] in
theorem modifyShadow_moves {f : ShadowWal → ShadowWal} : Moves R (modifyShadow f : Run E Unit) :=
  modify_moves fun _ => ⟨rfl, rfl, rfl, rfl⟩

theorem openCheckpointBlocker_moves : Moves R (openCheckpointBlocker o : Run E Unit) :=
  .bind perform_moves fun _ => interfere_moves

theorem newShadow_moves : Moves R (newShadow o : Run E Unit) := by
  refine look_moves fun w => ?_
  cases readHeader (SqliteEnv.wal w.db) with
  | error e => exact fail_moves
  | ok header =>
    refine .bind (performWrite_moves (modify_moves ?_)) fun _ => ?_
    · exact fun _ => ⟨rfl, rfl, rfl, rfl⟩
    exact .bind openCheckpointBlocker_moves fun _ => modifyShadow_moves

omit [SqliteEnv E A] in
theorem appendBytes_moves : Moves R (appendBytes pageSize bytes : Run E Unit) :=
  modify_moves fun _ => ⟨rfl, rfl, rfl, rfl⟩

theorem writeFramesToSegment_moves {frames : List ParsedFrame} :
    Moves R (writeFramesToSegment o pageSize frames : Run E Unit) := by
  refine .bind interfere_moves fun _ => ?_
  cases o.fault .appendSegment with
  | none => exact appendBytes_moves
  | failsStored | fails => exact .bind appendBytes_moves fun _ => fail_moves
  | crash => exact .bind appendBytes_moves fun _ => .throw _

theorem copyFrames_moves {offset : Nat} : Moves R (copyFrames o offset : Run E (List ParsedFrame × Nat)) := by
  refine .bind readWalHeader_moves fun header => ?_
  cases header with
  | none => exact .pure _
  | some header =>
    refine get_bind_moves fun before => ?_
    refine .bind modifyShadow_moves fun _ => ?_
    refine look_moves fun w => ?_
    refine .bind interfere_moves fun _ => ?_
    refine get_bind_moves fun w' => ?_
    cases readFramesAsPagesChecked (SqliteEnv.wal w.db) (SqliteEnv.wal w'.db) header.pageSize
        (before.shadow.effectiveOffset header offset) (before.shadow.observe header).walChain with
    | error e => exact fail_moves
    | ok r =>
      refine .bind modifyShadow_moves fun _ => ?_
      split
      · exact .pure _
      · exact .bind writeFramesToSegment_moves fun _ => .pure _

theorem shadowCheckpoint_moves : Moves R (shadowCheckpoint o : Run E Unit) := by
  have hrest : Moves R (do
      interfere o.passive
      openCheckpointBlocker o
      if o.fault .passiveCheckpoint ≠ .none then fail "shadow checkpoint incomplete" : Run E Unit) := by
    refine .bind interfere_moves fun _ => ?_
    refine .bind openCheckpointBlocker_moves fun _ => ?_
    split
    · exact fail_moves
    · exact .pure _
  refine .bind interfere_moves fun _ => ?_
  dsimp only
  split
  · exact .bind (.throw _) fun _ => hrest
  · exact hrest

omit [SqliteEnv E A] in
theorem cleanupSegments_moves {upTo : Nat} : Moves R (cleanupSegments upTo : Run E Unit) :=
  modify_moves fun _ => ⟨rfl, rfl, rfl, rfl⟩

/-! ### The cache -/

omit [SqliteEnv E A] in
theorem modifyCache_stores {f : LocalCache → LocalCache} : Stores P (modifyCache f : Run E Unit) :=
  fun _ => .same rfl rfl

theorem updateManifest_stores {f : CacheManifest → CacheManifest} : Stores P (updateManifest o f : Run E Unit) :=
  .bind modifyCache_stores fun _ => performWrite_moves modifyCache_stores

theorem writeLtx_stores {isSnapshot : Bool} : Stores P (writeLtx t o txid bytes isSnapshot) :=
  .bind (performWrite_moves modifyCache_stores) fun _ => updateManifest_stores

theorem openCache_stores : Stores P (openCache o : Run E Unit) := by
  refine get_bind_moves fun w => ?_
  dsimp only
  cases w.cache.newAt with
  | error e => exact fail_moves
  | ok m =>
    dsimp only
    split
    · exact modifyCache_stores
    · exact updateManifest_stores

omit [Frame R] in
theorem recordFailed_moves (h : Moves R (updateManifest o (·.markFailed txid) : Run E Unit)) :
    Moves R (recordFailed o txid : Run E Unit) := by
  intro w
  simp only [recordFailed]
  cases hres : updateManifest o (·.markFailed txid) w with
  | ok a w' => exact h.of_ok hres
  | error e w' => cases e <;> exact h.of_error hres

theorem resumeUploads_stores {cached : Bool} : Stores P (resumeUploads cached o : Run E (List Nat)) := by
  rw [resumeUploads]
  split
  · exact .bind openCache_stores fun _ => get_bind_moves fun _ => .pure _
  · exact .pure _

/-! ### Reading and encoding -/

theorem initialChecksum_moves : Moves R (initialChecksum t o) :=
  logged_moves (.bind hashDatabase_moves fun _ => .pure _)

theorem preChecksum_moves : Moves R (preChecksum t st o) := by
  rw [preChecksum]
  cases st.dbChecksum with
  | none => exact hashDatabase_moves
  | some cs => exact .pure _

theorem encodeIncremental_moves {pages : PageMap} {finalDbSize : UInt32} :
    Moves R (encodeIncremental t st o pages pageSize finalDbSize) := by
  refine .bind preChecksum_moves fun pre => ?_
  refine get_bind_moves fun w => ?_
  dsimp only
  split
  · exact fail_moves
  · exact .pure _

theorem readWalBatch_moves : Moves R (readWalBatch st o : Run E WalBatch) := by
  refine .bind readWalHeader_moves fun header => ?_
  cases header with
  | none => exact .pure _
  | some header =>
    refine look_moves fun w => ?_
    split
    · exact .pure _
    · refine look_moves fun w => ?_
      refine .bind interfere_moves fun _ => ?_
      refine get_bind_moves fun w' => ?_
      split
      · exact fail_moves
      · exact .pure _

theorem readShadow_moves : Moves R (readShadow o ss : Run E ShadowFold) :=
  look_moves fun _ => .pure _

theorem encodeShadowToLtx_moves : Moves R (encodeShadowToLtx t o ss) := by
  refine .bind readShadow_moves fun fold => ?_
  split
  · exact .pure _
  refine get_bind_moves fun w => ?_
  dsimp only
  split
  · refine .bind (.pure (R := R) _) fun post => ?_
    split
    · exact fail_moves
    · exact .pure _
  · refine .bind hashDatabase_moves fun post => ?_
    split
    · exact fail_moves
    · exact .pure _

theorem syncShadowToCache_stores : Stores P (syncShadowToCache t ss o) := by
  refine .bind encodeShadowToLtx_moves fun result => ?_
  cases result with
  | none => exact .pure _
  | some r => exact .bind writeLtx_stores fun _ => .pure _

theorem syncWalToCache_stores : Stores P (syncWalToCache t st o) := by
  rw [syncWalToCache]
  split
  · refine get_bind_moves fun w => ?_
    refine .bind encodeSqliteSnapshot_moves fun snapshot => ?_
    exact .bind writeLtx_stores fun _ => .pure _
  · refine get_bind_moves fun w => ?_
    refine .bind copyFrames_moves fun copied => ?_
    refine get_bind_moves fun w' => ?_
    split
    · exact .pure _
    · refine .bind encodeIncremental_moves fun inc => ?_
      exact .bind writeLtx_stores fun _ => .pure _

theorem saveProgress_stores : Stores P (saveProgress o ss : Run E Unit) :=
  performWrite_moves fun _ => .same rfl rfl

theorem applyShadowSyncResult_stores :
    Stores P (applyShadowSyncResult o ss out : Run E ShadowWatchState) := by
  refine look_moves fun w => ?_
  dsimp only
  split
  · exact fail_moves
  · exact .bind saveProgress_stores fun _ => .pure _

/-! ### Startup -/

theorem bootIndependent_moves : Moves R (bootIndependent t cfg o) := by
  refine .bind discoverState_moves fun state => ?_
  exact .bind initialChecksum_moves fun _ => .pure _

theorem loadProgress_moves {name : String} : Moves R (loadProgress name o : Run E (Option ShadowProgress)) := by
  refine look_moves fun w => ?_
  split
  · exact .pure _
  · split
    · exact fail_moves
    · exact .pure _

theorem resumeShadow_moves {checksum : Option UInt64} :
    Moves R (resumeShadow cfg checksum o : Run E ShadowWatchState) := by
  refine .bind loadProgress_moves fun progress => ?_
  cases progress with
  | none => exact .pure _
  | some p => exact .bind modifyShadow_moves fun _ => .pure _

theorem seededChecksum_moves : Moves R (seededChecksum t cfg o) := by
  rw [seededChecksum]
  split
  · exact .pure _
  · exact initialChecksum_moves

theorem bootShadow_stores : Stores P (bootShadow t cfg o) := by
  refine .bind seededChecksum_moves fun checksum => ?_
  refine .bind newShadow_moves fun _ => ?_
  refine .bind resumeShadow_moves fun st => ?_
  exact .bind resumeUploads_stores fun _ => .pure _

theorem copyToShadow_moves : Moves R (copyToShadow ss o : Run E ShadowWatchState) :=
  .bind copyFrames_moves fun _ => .pure _

theorem initialShadowCopy_moves :
    Moves R (initialShadowCopy ss o : Run E (ShadowWatchState × Bool)) := by
  refine get_bind_moves fun w => ?_
  split
  · exact .pure _
  · refine get_bind_moves fun w => ?_
    refine .bind copyToShadow_moves fun st' => ?_
    exact get_bind_moves fun _ => .pure _

theorem spawnIndependent_stores : Stores P (spawnIndependent cfg st o : Run E (Task WatchedDbState)) := by
  refine .bind resumeUploads_stores fun queue => ?_
  split
  · exact .bind newShadow_moves fun _ => .pure _
  · exact .pure _

theorem checkpointDrained_stores
    {queue : List Nat} : Stores P (checkpointDrained cfg ss out queue o : Run E (Task ShadowWatchState)) := by
  have hrest : Stores P (do
      let st ← applyShadowSyncResult o ss out
      shadowCheckpoint o
      if 0 < st.shadowSyncGeneration then cleanupSegments st.shadowSyncGeneration
      return ⟨st, queue⟩ : Run E (Task ShadowWatchState)) := by
    refine .bind applyShadowSyncResult_stores fun st' => ?_
    refine .bind shadowCheckpoint_moves fun _ => ?_
    split
    · exact .bind cleanupSegments_moves fun _ => .pure _
    · exact .pure _
  refine get_bind_moves fun w => ?_
  split
  · exact .bind fail_moves fun _ => hrest
  · exact hrest

end Local

/-! ## Calls that store objects -/

/-- The key of a snapshot. -/
def IsSnapshotKey (k : LtxKey) : Prop := ∃ generation txid, k = .file generation 1 txid ∧ 0 < generation

/-- The key of an incremental. -/
def IsIncrementalKey (k : LtxKey) : Prop := ∃ minTxid maxTxid, k = .file generationLive minTxid maxTxid

section Stores

variable {t : Tools E} {o : Oracle A} {P : LtxKey → Prop} {key : LtxKey} {task : Task ShadowWatchState}

omit [SqliteEnv E A] in
theorem storeObject_stores (hkey : P key) : Stores P (storeObject key bytes : Run E Unit) := by
  intro w
  refine ⟨[(key, bytes)], ?_, rfl, rfl⟩
  intro o ho
  rw [List.mem_singleton.mp ho]
  exact hkey

theorem putObject_stores (hkey : P key) :
    Stores P (putObject o key bytes : Run E Unit) := performWrite_moves (storeObject_stores hkey)

/-- A snapshot moves along a relation if its put does. -/
theorem takeSnapshotToStorage_moves {R : World E → World E → Prop} [Frame R]
    (hput : ∀ key bytes, IsSnapshotKey key → Moves R (storeObject key bytes : Run E Unit)) :
    Moves R (takeSnapshotToStorage t st o) := by
  have hsnapshot : Moves R (snapshotDatabaseToStorage t o) := by
    refine .bind checkpointWalPassive_moves fun _ => ?_
    refine .bind readPageSize_moves fun pageSize => ?_
    refine .bind discoverState_moves fun state => ?_
    refine .bind encodeSqliteSnapshot_moves fun snapshot => ?_
    exact .bind (performWrite_moves (hput _ _ ⟨_, _, rfl, Nat.succ_pos _⟩)) fun _ => .pure _
  refine .bind hsnapshot fun snapshot => ?_
  exact .bind readSalt_moves fun _ => .pure _

theorem takeSnapshotToStorage_stores : Stores IsSnapshotKey (takeSnapshotToStorage t st o) :=
  takeSnapshotToStorage_moves fun _ _ => storeObject_stores

theorem uploadRolloverSnapshot_stores : Stores IsSnapshotKey (uploadRolloverSnapshot t st o) := by
  refine .bind checkpointWalTruncate_moves fun _ => ?_
  refine .bind readPageSize_moves fun pageSize => ?_
  refine .bind encodeSqliteSnapshot_moves fun snapshot => ?_
  refine .bind discoverState_moves fun state => ?_
  refine .bind (putObject_stores ⟨_, _, rfl, lt_max_of_lt_right one_pos⟩) fun _ => ?_
  exact .bind readSalt_moves fun _ => .pure _

theorem initialSyncToStorage_stores : Stores IsSnapshotKey (initialSyncToStorage t st o) := by
  refine .bind readWalHeader_moves fun header => ?_
  refine .bind encodeSqliteSnapshot_moves fun snapshot => ?_
  exact .bind (putObject_stores ⟨_, _, rfl, one_pos⟩) fun _ => .pure _

theorem publishBatch_stores {header : WalHeader} {r : PageMapRead} :
    Stores IsIncrementalKey (publishBatch t st o header r) := by
  rw [publishBatch]
  split
  · exact .pure _
  · refine .bind encodeIncremental_moves fun inc => ?_
    exact .bind (putObject_stores ⟨_, _, rfl⟩) fun _ => .pure _

/-- A sync stores a snapshot or an incremental. -/
theorem syncWalToStorage_stores :
    Stores (fun k => IsSnapshotKey k ∨ IsIncrementalKey k) (syncWalToStorage t st o) := by
  rw [syncWalToStorage]
  split
  · exact initialSyncToStorage_stores.mono fun _ => .inl
  · refine .bind readWalBatch_moves fun batch => ?_
    cases batch with
    | noWal => exact .pure _
    | rollover => exact uploadRolloverSnapshot_stores.mono fun _ => .inl
    | frames header r => exact publishBatch_stores.mono fun _ => .inr

theorem doSync_stores {cached : Bool} :
    Stores (fun k => IsSnapshotKey k ∨ IsIncrementalKey k) (doSync t cached st o rest) := by
  rw [doSync]
  split
  · exact .bind syncWalToCache_stores fun _ => .pure _
  · exact .bind (withRetry_moves fun _ => syncWalToStorage_stores) fun _ => .pure _

theorem takeSnapshotWithRetry_stores : Stores IsSnapshotKey (takeSnapshotWithRetry t st o rest) :=
  .bind (withRetry_moves fun _ => takeSnapshotToStorage_stores) fun _ => .pure _

theorem independentTick_stores {task : Task WatchedDbState} :
    Stores (fun k => IsSnapshotKey k ∨ IsIncrementalKey k) (independentTick t cfg task o rest) :=
  .bind doSync_stores fun _ => .pure _

theorem anchorStreamOnStartup_stores (hst : 0 < st.currentTxid) :
    Stores IsSnapshotKey (anchorStreamOnStartup t st o) := by
  rw [anchorStreamOnStartup, if_pos hst]
  exact .bind takeSnapshotToStorage_stores fun _ => .pure _

theorem syncShadowToStorage_stores : Stores IsIncrementalKey (syncShadowToStorage t ss o) := by
  refine .bind encodeShadowToLtx_moves fun result => ?_
  cases result with
  | none => exact .pure _
  | some r => exact .bind (putObject_stores ⟨_, _, rfl⟩) fun _ => .pure _

theorem shadowSnapshot_moves {R : World E → World E → Prop} [Frame R]
    (hput : ∀ key bytes, IsSnapshotKey key → Moves R (storeObject key bytes : Run E Unit)) :
    Moves R (shadowSnapshot t ss o rest) := by
  refine get_bind_moves fun w => ?_
  exact .bind (.bind (withRetry_moves fun _ => takeSnapshotToStorage_moves hput) fun _ => .pure _) fun _ => .pure _

theorem shadowSnapshot_stores : Stores IsSnapshotKey (shadowSnapshot t ss o rest) :=
  shadowSnapshot_moves fun _ _ => storeObject_stores

theorem periodicSnapshot_stores :
    Stores IsSnapshotKey (periodicSnapshot t ss o rest) := by
  refine .bind (logged_moves (map_moves shadowSnapshot_stores)) fun result => ?_
  cases result with
  | none => exact .pure _
  | some st' => exact .bind saveProgress_stores fun _ => .pure _

theorem publishShadow_stores : Stores IsIncrementalKey (publishShadow t cfg task o rest) := by
  have hsync : ∀ o : Oracle A, Stores IsIncrementalKey
      ((if cfg.cached then syncShadowToCache t task.st else syncShadowToStorage t task.st) o) := by
    intro o
    split
    · exact syncShadowToCache_stores
    · exact syncShadowToStorage_stores
  exact .bind (withRetry_moves hsync) fun _ => .pure _

theorem shadowTick_stores : Stores IsIncrementalKey (shadowTick t cfg task o rest) := by
  refine .bind copyToShadow_moves fun st => ?_
  refine .bind publishShadow_stores fun result => ?_
  exact .bind applyShadowSyncResult_stores fun _ => .pure _

theorem drainShadow_stores : Stores IsIncrementalKey (drainShadow t cfg task o rest) := by
  refine .bind copyToShadow_moves fun st => ?_
  exact .bind publishShadow_stores fun _ => .pure _

/-- An upload moves along a relation if its put and its changes of the manifest do. -/
theorem uploadTxid_moves {R : World E → World E → Prop} [Frame R]
    (hput : ∀ key bytes, Moves R (storeObject key bytes : Run E Unit))
    (hfailed : ∀ o : Oracle A, Moves R (updateManifest o (·.markFailed txid) : Run E Unit))
    (huploaded : ∀ (o : Oracle A) now, Moves R (updateManifest o (·.markUploaded now txid) : Run E Unit)) :
    Moves R (uploadTxid t txid o rest) := by
  have hupload : ∀ key bytes, Moves R (putUpload key bytes txid o rest : Run E Unit) := by
    intro key bytes w
    have hretry : Moves R (withRetry (fun o => putObject o key bytes) o rest : Run E Unit) :=
      withRetry_moves fun _ => performWrite_moves (hput key bytes)
    simp only [putUpload]
    cases hres : withRetry (fun o => putObject o key bytes) o rest w with
    | ok a w' => exact hretry.of_ok hres
    | error e w' =>
      have hw := hretry.of_error hres
      cases e with
      | err msg =>
        refine IsTrans.trans _ _ _ hw ?_
        exact Moves.bind (recordFailed_moves (hfailed o)) (fun _ => fail_moves) w'
      | crash => exact hw
      | stuck => exact hw
  refine look_moves fun w => ?_
  dsimp only
  split
  · exact fail_moves
  · split
    · exact .bind (recordFailed_moves (hfailed o)) fun _ => fail_moves
    · exact .bind (hupload _ _) fun _ => huploaded o _

/-- An upload stores the file under the key that the manifest has for it. -/
theorem uploadTxid_stores : Stores (fun _ => True) (uploadTxid t txid o rest) :=
  uploadTxid_moves (fun _ _ => storeObject_stores trivial) (fun _ => updateManifest_stores) fun _ _ =>
    updateManifest_stores

end Stores

end Watch
end Walrust
