import Walrust.Sync

/-!
# `Walrust.Sync.Spec` — what a call does

Evaluation of the sync calls, one lemma per call.

* the `*_apply` lemmas run the effects of a call on a world;
* `site` — the shape of every sync site; `site_eq`, `Ready.site`, `site_ok` — what it does when nothing fails
  before it publishes;
* `takeSnapshot_quiet_ok`, `syncWal_quiet_ok` — what a successful call leaves behind, case by case.
-/

namespace Walrust
namespace Sync

open Wal Ltx Sqlite
open SqliteEnv (wal main)
open Oracle (quiet)

variable {E A α : Type} [SqliteEnv E A] {r : PageMapRead} {post : UInt64} {w' : World E}

section Effects

variable {β : Type} {conflict : String} {bytes : Bytes} {w : World E}

@[simp] theorem bind_apply (x : Run E α) (f : α → Run E β) (w : World E) :
    (x >>= f) w = match x w with
      | .ok a w' => f a w'
      | .error e w' => .error e w' := by
  show EStateM.bind x f w = _
  unfold EStateM.bind
  cases x w <;> rfl

@[simp] theorem map_apply (f : α → β) (x : Run E α) (w : World E) :
    (f <$> x) w = match x w with
      | .ok a w' => .ok (f a) w'
      | .error e w' => .error e w' := by
  show EStateM.map f x w = _
  unfold EStateM.map
  cases x w <;> rfl

@[simp] theorem pure_apply (a : α) (w : World E) : (pure a : Run E α) w = .ok a w := rfl

@[simp] theorem get_apply (w : World E) : (get : Run E (World E)) w = .ok w w := rfl

@[simp] theorem set_apply (v w : World E) : (set v : Run E PUnit) w = .ok ⟨⟩ v := rfl

@[simp] theorem throw_apply (e : Stop) (w : World E) : (throw e : Run E α) w = .error e w := rfl

@[simp] theorem modify_apply (f : World E → World E) (w : World E) :
    (modify f : Run E PUnit) w = .ok ⟨⟩ (f w) := rfl

@[simp] theorem modifyState_apply (f : SyncState → SyncState) (w : World E) :
    modifyState f w = .ok () { w with st := f w.st } := rfl

@[simp] theorem state_apply (w : World E) : (state : Run E SyncState) w = .ok w.st w := rfl

@[simp] theorem fail_apply (msg : String) (w : World E) :
    (fail msg : Run E α) w = .error (.err (.other msg)) w := rfl

@[simp] theorem interfere_nil (w : World E) : (interfere ([] : List A) : Run E Unit) w = .ok () w := rfl

@[simp] theorem perform_quiet (b : A) (now : Int64) (op : Op) (w : World E) :
    perform (quiet b now) op w = .ok () w := rfl

@[simp] theorem performWrite_quiet (b : A) (now : Int64) (op : Op) (write : Run E Unit) (w : World E) :
    performWrite (quiet b now) op write w = write w := by
  simp [performWrite, quiet]

theorem interfere_singleton (a : A) (w : World E) :
    (interfere [a] : Run E Unit) w =
      match SqliteEnv.act w.db a with
      | none => .error .stuck w
      | some db => .ok () { w with db := db } := by
  simp only [interfere, bind_apply, get_apply]
  cases SqliteEnv.act w.db a <;> rfl

/-- A put succeeds exactly if the key is free or already holds the same bytes. -/
theorem putAbsent_ok {key : Key} :
    putAbsent key bytes conflict w = .ok () w' ↔
      (w.bucket.get key = none ∧ w' = { w with bucket := w.bucket.put key bytes }) ∨
        (w.bucket.get key = some bytes ∧ w' = w) := by
  simp only [putAbsent, bind_apply, get_apply]
  cases hget : w.bucket.get key with
  | none => simp [eq_comm]
  | some existing =>
    by_cases heq : existing = bytes
    · simp [heq, eq_comm]
    · simp [heq]

/-- A put fails only on another object, and changes nothing then. -/
theorem putAbsent_error {key : Key} {e : Stop} (h : putAbsent key bytes conflict w = .error e w') :
    w' = w ∧ e = .err (.equivocation conflict) ∧
      ∃ existing, w.bucket.get key = some existing ∧ existing ≠ bytes := by
  simp only [putAbsent, bind_apply, get_apply] at h
  cases hget : w.bucket.get key with
  | none => simp [hget] at h
  | some existing =>
    by_cases heq : existing = bytes
    · simp [hget, heq] at h
    · simp only [hget, heq, ne_eq] at h
      injection h with he hw
      exact ⟨hw.symm, he.symm, existing, rfl, heq⟩

theorem putAbsent_of_none {key : Key} (h : w.bucket.get key = none) :
    putAbsent key bytes conflict w = .ok () { w with bucket := w.bucket.put key bytes } :=
  putAbsent_ok.mpr (.inl ⟨h, rfl⟩)

end Effects

/-! ## Quiet calls -/

/-- Nothing happens at `op`. -/
def Oracle.QuietAt {A : Type} (o : Oracle A) (op : Op) : Prop := o.fault op = .none ∧ o.env op = []

/-- Nothing happens while a call reads the WAL and encodes its batch. -/
def Oracle.QuietRead {A : Type} (o : Oracle A) : Prop :=
  ∀ op ∈ [Op.readHeader, .walMode, .walSize, .readFrames, .resetCheck, .hashFile], o.QuietAt op

/-- A call in which one operation goes wrong. -/
def Oracle.faultAt {A : Type} (op : Op) (fault : Fault) (blocker : A) (now : Int64) : Oracle A where
  fault op' := if op' = op then fault else .none
  env _ := []
  blocker := blocker
  now := now

theorem quietRead_faultAt {op : Op} (fault : Fault) (b : A) (now : Int64)
    (h : op ∉ [Op.readHeader, .walMode, .walSize, .readFrames, .resetCheck, .hashFile]) :
    (Oracle.faultAt op fault b now).QuietRead := by
  intro op' hop'
  refine ⟨if_neg ?_, rfl⟩
  rintro rfl
  exact h hop'

section Reading

variable (cfg : Config) (now : Int64) (w : World E)

/-- The world after rollover detection. -/
def noted (header : WalHeader) : SyncState :=
  noteGeneration (rolloverDetected w.st (wal w.db).length header.salt) header.salt w.st

/-- The chain value a batch is encoded after. -/
def preOf : UInt64 := w.st.dbChecksum.getD (computeChecksumFromFile cfg.ph (main w.db))

/-- The read a call makes of the WAL it sees. -/
def nextRead (header : WalHeader) : Except String PageMapRead :=
  readFramesAsPageMapChecked (wal w.db) (wal w.db) header.pageSize
    (noted w header).walOffset (chainSeed (noted w header))

/-- The cursor once the batch is read: nothing but the WAL fields has moved, and not the offset. -/
def readState (header : WalHeader) (r : PageMapRead) : SyncState := advanceChain r.chain (noted w header)

/-- Where the next incremental goes. -/
abbrev World.nextKey : Key := stateKey w.st .live (w.st.currentSeq + 1)

section

variable (header : WalHeader)

/-- The WAL opens with the header. -/
abbrev World.Opens : Prop := readHeader (wal w.db) = .ok (some header)

/-- The WAL is no longer the one the cursor stands in. -/
abbrev World.rolled : Bool := rolloverDetected w.st (wal w.db).length header.salt

/-- The world once the batch is read. -/
abbrev World.read (r : PageMapRead) : World E := { w with st := readState w header r }

/-- The batch encodes as the object `bytes` with chain value `post`. -/
def EncodesTo (r : PageMapRead) (bytes : Bytes) (post : UInt64) : Prop :=
  encodeWalChangesWithEndPageCount cfg.ph now r.pageMap header.pageSize
    (UInt64.ofNat (w.st.currentSeq + 1)) (preOf cfg w) r.finalDbSize.toNat = .ok (bytes, post)

/-- The cursor after a published batch. -/
def publishedState (r : PageMapRead) (txid : Nat) (post : UInt64) : SyncState :=
  { readState w header r with
    walOffset := r.newOffset
    currentSeq := w.st.currentSeq + 1
    currentTxid := txid
    dbChecksum := some post }

end

section

variable (r : Bool) (salt : Salt) (s : SyncState)

@[simp] theorem noteGeneration_seq :
    (noteGeneration r salt s).currentSeq = s.currentSeq := by
  unfold noteGeneration
  split <;> rfl

@[simp] theorem noteGeneration_lineage :
    (noteGeneration r salt s).lineageId = s.lineageId := by
  unfold noteGeneration
  split <;> rfl

@[simp] theorem noteGeneration_checksum :
    (noteGeneration r salt s).dbChecksum = s.dbChecksum := by
  unfold noteGeneration
  split <;> rfl

end

section

variable (c : Option Chain) (s : SyncState)

@[simp] theorem advanceChain_seq :
    (advanceChain c s).currentSeq = s.currentSeq := by
  cases c <;> rfl

@[simp] theorem advanceChain_lineage :
    (advanceChain c s).lineageId = s.lineageId := by
  cases c <;> rfl

@[simp] theorem advanceChain_checksum :
    (advanceChain c s).dbChecksum = s.dbChecksum := by
  cases c <;> rfl

end

section

variable (header : WalHeader)
include header

@[simp] theorem readState_seq (r : PageMapRead) :
    (readState w header r).currentSeq = w.st.currentSeq := by
  simp [readState, noted]

@[simp] theorem readState_lineage (r : PageMapRead) :
    (readState w header r).lineageId = w.st.lineageId := by
  simp [readState, noted]

@[simp] theorem readState_checksum (r : PageMapRead) :
    (readState w header r).dbChecksum = w.st.dbChecksum := by
  simp [readState, noted]

@[simp] theorem stateKey_readState (r : PageMapRead) (g : StreamGeneration) (n : Nat) :
    stateKey (readState w header r) g n = stateKey w.st g n := by
  simp [stateKey]

end

variable {o : Oracle A} {w} {header : WalHeader} {bytes : Bytes}

theorem quietRead_quiet (b : A) (now : Int64) : (quiet b now).QuietRead :=
  fun _ _ => ⟨rfl, rfl⟩

theorem perform_of_quietAt {op : Op} (h : o.QuietAt op) : perform o op w = .ok () w := by
  simp [perform, h.1, h.2]

theorem readWalHeader_eq (ho : o.QuietRead) : readWalHeader o w =
    match readHeader (wal w.db) with
    | .error e => .error (.err (.other e)) w
    | .ok h => .ok h w := by
  simp only [readWalHeader, bind_apply, perform_of_quietAt (ho .readHeader (by decide)), get_apply]
  cases hread : readHeader (wal w.db) with
  | error e => simp
  | ok h => cases h <;> simp [perform_of_quietAt (ho .walMode (by decide))]

theorem readNextWalBatch_eq (ho : o.QuietRead) (header : WalHeader) :
    readNextWalBatch o header w =
      match nextRead w header with
      | .error e => .error (.err (.other e)) { w with st := noted w header }
      | .ok r => .ok ⟨r.pageMap, r.frameCount, r.newOffset, r.finalDbSize, r.commitCount, w.rolled header⟩
          (w.read header r) := by
  simp only [readNextWalBatch, bind_apply, perform_of_quietAt (ho .walSize (by decide)),
    perform_of_quietAt (ho .readFrames (by decide)), (ho .resetCheck (by decide)).2, state_apply, get_apply,
    modifyState_apply, interfere_nil, nextRead, noted]
  split
  · rename_i h
    simp [h]
  · rename_i h
    simp [h]
    rfl

/-- The batch of a read that met no rollover. -/
def batchOf (r : PageMapRead) : WalBatch :=
  ⟨r.pageMap, r.frameCount, r.newOffset, r.finalDbSize, r.commitCount, false⟩

/-- The encoded batch a call is about to publish. -/
def deltaOf (w : World E) (header : WalHeader) (r : PageMapRead) (bytes : Bytes) (post : UInt64) : Delta :=
  ⟨w.st.currentSeq + 1, bytes, preOf cfg w, post, r.newOffset, batchTxid (readState w header r) (batchOf r),
    r.frameCount, r.finalDbSize.toNat⟩

theorem advanceCursor_deltaOf : advanceCursor (deltaOf cfg w header r bytes post) (readState w header r) =
    publishedState w header r (batchTxid (readState w header r) (batchOf r)) post := rfl

theorem preChecksum_eq (ho : o.QuietRead) : preChecksum cfg o (w.read header r) =
    .ok (preOf cfg w) (w.read header r) := by
  simp only [preChecksum, bind_apply, state_apply, readState_checksum, preOf]
  cases w.st.dbChecksum <;> simp [perform_of_quietAt (ho .hashFile (by decide))]

/-- A batch that does not empty the database is encoded if the codec accepts it, and nothing moves. -/
theorem encodeBatch_eq (ho : o.QuietRead) (kind : String) (hsize : r.finalDbSize ≠ 0) :
    encodeBatch cfg o kind header (batchOf r) (w.read header r) =
      match encodeWalChangesWithEndPageCount cfg.ph o.now r.pageMap header.pageSize
          (UInt64.ofNat (w.st.currentSeq + 1)) (preOf cfg w) r.finalDbSize.toNat with
      | .error e => .error (.err (.other e)) (w.read header r)
      | .ok (bytes, post) =>
        .ok (deltaOf cfg w header r bytes post) (w.read header r) := by
  have hbatch : (batchOf r).finalDbSize ≠ 0 := hsize
  simp only [encodeBatch, bind_apply, preChecksum_eq cfg ho, state_apply, readState_seq]
  rw [if_neg hbatch]
  simp only [batchOf]
  split
  · rename_i h
    simp only [h]
    rfl
  · rename_i h
    simp only [h]
    rfl

/-- What a sync site does once it has something to publish: the reading part, in one equation per site. -/
structure Ready (o : Oracle A) (w : World E) (header : WalHeader) (r : PageMapRead) (bytes : Bytes)
    (post : UInt64) : Prop where
  read : readHeader (wal w.db) = .ok (some header)
  stay : rolloverDetected w.st (wal w.db).length header.salt = false
  next : nextRead w header = .ok r
  batch : r.pageMap ≠ []
  encodes : EncodesTo cfg o.now w header r bytes post

theorem EncodesTo.size_ne (h : EncodesTo cfg now w header r bytes post) : r.finalDbSize ≠ 0 :=
  fun hzero => (encodeWalChanges_ok h).1.pos (congrArg UInt32.toNat hzero)

/-! ## The sync site -/

variable {kind : String} {nothing : Run E α} {rollover : SyncState → Run E α} {publish : Delta → Run E α}

/-- **The shape of every sync site**: read what is behind the cursor, then re-anchor or refuse after a rollover,
    return with nothing new, or encode the batch and publish it. -/
def site (o : Oracle A) (kind : String) (nothing : Run E α) (rollover : SyncState → Run E α)
    (publish : Delta → Run E α) : Run E α := do
  match ← readWalHeader o with
  | none => nothing
  | some header =>
    let previous ← state
    let batch ← readNextWalBatch o header
    if batch.rolloverDetected then rollover previous
    else if batch.pageMap.isEmpty then nothing
    else
      let d ← encodeBatch cfg o kind header batch
      publish d

theorem syncWal_site : (syncWal cfg o : Run E Nat) = site cfg o "changeset" (return 0)
    (fun _ => do takeSnapshot cfg o; saveState o; return 1) (publishOwned cfg o) := rfl

theorem site_bind {β : Type} (f : α → Run E β) : site cfg o kind nothing rollover publish >>= f =
    site cfg o kind (nothing >>= f) (fun previous => rollover previous >>= f)
      (fun d => publish d >>= f) := by
  unfold site
  simp only [bind_assoc]
  congr 1
  funext header
  cases header with
  | none => rfl
  | some header =>
    simp only [bind_assoc]
    congr 1; funext previous
    congr 1; funext batch
    split
    · rfl
    split
    · rfl
    · simp only [bind_assoc]

variable {cfg}

theorem site_eq (ho : o.QuietRead) (hread : w.Opens header) (hnext : nextRead w header = .ok r) :
    site cfg o kind nothing rollover publish w =
      (if w.rolled header then rollover w.st
        else if r.pageMap = [] then nothing
        else encodeBatch cfg o kind header (batchOf r) >>= publish) (w.read header r) := by
  simp only [site, bind_apply, readWalHeader_eq ho, hread, state_apply, readNextWalBatch_eq ho, hnext]
  cases w.rolled header with
  | true => rfl
  | false =>
    by_cases hnil : r.pageMap = []
    · simp [hnil]
    · simp [batchOf]

theorem Ready.site (h : Ready cfg o w header r bytes post) (ho : o.QuietRead) :
    Sync.site cfg o kind nothing rollover publish w =
      publish (deltaOf cfg w header r bytes post) (w.read header r) := by
  have henc := h.encodes
  have hstay : w.rolled header = false := h.stay
  rw [site_eq ho h.read h.next, hstay, if_neg Bool.false_ne_true, if_neg h.batch, bind_apply,
    encodeBatch_eq cfg ho kind h.encodes.size_ne, henc]

theorem Ready.syncWal (h : Ready cfg o w header r bytes post) (ho : o.QuietRead) :
    syncWal cfg o w =
      publishOwned cfg o (deltaOf cfg w header r bytes post) (w.read header r) :=
  h.site ho

/-- **What a successful site went through.** -/
theorem site_ok (ho : o.QuietRead) {a : α} (h : site cfg o kind nothing rollover publish w = .ok a w') :
    (readHeader (wal w.db) = .ok none ∧ nothing w = .ok a w') ∨
      ∃ header r, w.Opens header ∧ nextRead w header = .ok r ∧
        ((w.rolled header = true ∧ rollover w.st (w.read header r) = .ok a w') ∨
          (w.rolled header = false ∧ r.pageMap = [] ∧ nothing (w.read header r) = .ok a w') ∨
          ∃ bytes post, Ready cfg o w header r bytes post ∧
            publish (deltaOf cfg w header r bytes post) (w.read header r) = .ok a w') := by
  cases hread : readHeader (wal w.db) with
  | error e => simp [site, readWalHeader_eq ho, hread] at h
  | ok mh =>
    cases mh with
    | none =>
      simp only [site, bind_apply, readWalHeader_eq ho, hread] at h
      exact .inl ⟨rfl, h⟩
    | some header =>
      cases hnext : nextRead w header with
      | error e => simp [site, readWalHeader_eq ho, hread, readNextWalBatch_eq ho, hnext] at h
      | ok r =>
        rw [site_eq ho hread hnext] at h
        refine .inr ⟨header, r, hread, hnext, ?_⟩
        cases hroll : w.rolled header with
        | true =>
          rw [hroll] at h
          exact .inl ⟨rfl, h⟩
        | false =>
          rw [hroll, if_neg Bool.false_ne_true] at h
          by_cases hnil : r.pageMap = []
          · rw [if_pos hnil] at h
            exact .inr (.inl ⟨rfl, hnil, h⟩)
          rw [if_neg hnil, bind_apply] at h
          by_cases hsize : r.finalDbSize = 0
          · have hbatch : (batchOf r).finalDbSize = 0 := hsize
            simp only [encodeBatch, bind_apply, preChecksum_eq cfg ho, state_apply] at h
            rw [if_pos hbatch] at h
            cases h
          rw [encodeBatch_eq cfg ho kind hsize] at h
          cases henc : encodeWalChangesWithEndPageCount cfg.ph o.now r.pageMap header.pageSize
              (UInt64.ofNat (w.st.currentSeq + 1)) (preOf cfg w) r.finalDbSize.toNat with
          | error e =>
            rw [henc] at h
            cases h
          | ok out =>
            rw [henc] at h
            exact .inr (.inr ⟨out.1, out.2, ⟨hread, hroll, hnext, hnil, henc⟩, h⟩)

end Reading

/-! ## The owned sync -/

section Quiet

variable (cfg : Config) (b : A) (now : Int64) (w : World E)

/-- The salt `reset_wal_cursor_after_snapshot` records for a WAL file. -/
def saltOf (file : Bytes) : Option Salt :=
  match readHeader file with
  | .ok (some h) => some h.salt
  | _ => none

/-- The cursor after a stored snapshot. -/
def snapshotState (txid : Nat) (now : Int64) (checksum : UInt64) (salt : Option Salt) (s : SyncState) :
    SyncState :=
  { s with
    checkpointBlocker := true
    currentSeq := s.currentSeq + 1
    currentTxid := txid
    lastSnapshot := some now
    dbChecksum := some checksum
    walOffset := 0
    walGeneration := s.walGeneration + 1
    walSalt := salt
    walChecksumChain := none }

/-- Releasing leaves the blocker closed whether or not it was open. -/
theorem releaseCheckpointBlocker_quiet : releaseCheckpointBlocker (quiet b now) w =
    .ok () { w with st := { w.st with checkpointBlocker := false } } := by
  obtain ⟨db, bucket, stateJson, intent, st⟩ := w
  obtain ⟨name, offset, gen, seq, lineage, base, txid, last, sum, salt, chain, blocker⟩ := st
  cases blocker <;> simp [releaseCheckpointBlocker]

theorem resetWalCursorAfterSnapshot_quiet : resetWalCursorAfterSnapshot (quiet b now) w =
    .ok () { w with st := { w.st with
      walOffset := 0
      walGeneration := w.st.walGeneration + 1
      walSalt := saltOf (wal w.db)
      walChecksumChain := none } } := by
  simp only [resetWalCursorAfterSnapshot, bind_apply, get_apply, quiet, interfere_nil, saltOf]
  cases readHeader (wal w.db) with
  | error e => rfl
  | ok h => cases h <;> rfl

/-- **A successful snapshot.** The checkpoint completed and the blocker committed into the fresh WAL; the
    object holds the database file at that point, and the cursor stands at the start of the new WAL. -/
theorem takeSnapshot_quiet_ok (h : takeSnapshot cfg (quiet b now) w = .ok () w') :
    ∃ db pageSize snapshot txid,
      SqliteEnv.act (SqliteEnv.truncate w.db) b = some db ∧
      encodeSnapshotWithChecksum cfg.ph now (main db) pageSize
        (UInt64.ofNat (w.st.currentSeq + 1)) (w.st.dbChecksum.getD 0) = .ok snapshot ∧
      ((w.bucket.get (stateKey w.st .snapshot (w.st.currentSeq + 1)) = none ∧
          w'.bucket = w.bucket.put (stateKey w.st .snapshot (w.st.currentSeq + 1)) snapshot.bytes) ∨
        (w.bucket.get (stateKey w.st .snapshot (w.st.currentSeq + 1)) = some snapshot.bytes ∧
          w'.bucket = w.bucket)) ∧
      w'.db = db ∧ w'.stateJson = w.stateJson ∧ w'.intent = w.intent ∧
      w'.st = snapshotState txid now snapshot.checksum (saltOf (wal db)) w.st := by
  simp only [takeSnapshot, bind_apply, releaseCheckpointBlocker_quiet, checkpointWal, modify_apply] at h
  simp only [reacquireCheckpointBlocker, bind_apply, state_apply, Bool.false_eq_true, if_false,
    perform_quiet, interfere_singleton] at h
  rw [show (quiet b now).blocker = b from rfl] at h
  cases hact : SqliteEnv.act (SqliteEnv.truncate w.db) b with
  | none => simp [hact] at h
  | some db =>
    simp only [hact, modifyState_apply, get_apply] at h
    cases hps : getPageSize (main db) with
    | error e =>
      simp only [hps] at h
      cases h
    | ok pageSize =>
      simp only [hps, bind_apply, perform_quiet, get_apply, state_apply] at h
      rw [show (quiet b now).now = now from rfl] at h
      cases henc : encodeSnapshotWithChecksum cfg.ph now (main db) pageSize
          (UInt64.ofNat (w.st.currentSeq + 1)) (w.st.dbChecksum.getD 0) with
      | error e =>
        simp only [henc] at h
        cases h
      | ok snapshot =>
        simp only [henc, bind_apply, modifyState_apply] at h
        split at h
        · rename_i w₁ hput
          rw [resetWalCursorAfterSnapshot_quiet] at h
          injection h with _ hw
          subst hw
          refine ⟨db, pageSize, snapshot, snapshotTxid w.st (changeCounterFromFile (main db))
            (countWalCommits (wal db) pageSize), rfl, henc, ?_⟩
          rcases putAbsent_ok.mp hput with ⟨hfree, rfl⟩ | ⟨hsame, rfl⟩
          · exact ⟨.inl ⟨hfree, rfl⟩, rfl, rfl, rfl, rfl⟩
          · exact ⟨.inr ⟨hsame, rfl⟩, rfl, rfl, rfl, rfl⟩
        · cases h

/-- **A snapshot goes through** when the database file can be encoded and the key is free. -/
theorem takeSnapshot_quiet {db : E} {pageSize : UInt32} {snap : EncodedSnapshot}
    (hact : SqliteEnv.act (SqliteEnv.truncate w.db) b = some db)
    (hps : getPageSize (main db) = .ok pageSize)
    (henc : encodeSnapshotWithChecksum cfg.ph now (main db) pageSize
      (UInt64.ofNat (w.st.currentSeq + 1)) (w.st.dbChecksum.getD 0) = .ok snap)
    (hfree : w.bucket.get (stateKey w.st .snapshot (w.st.currentSeq + 1)) = none) :
    takeSnapshot cfg (quiet b now) w =
      .ok () ⟨db, w.bucket.put (stateKey w.st .snapshot (w.st.currentSeq + 1)) snap.bytes, w.stateJson,
        w.intent, snapshotState (snapshotTxid w.st (changeCounterFromFile (main db))
          (countWalCommits (wal db) pageSize)) now snap.checksum (saltOf (wal db))
          w.st⟩ := by
  simp only [takeSnapshot, bind_apply, releaseCheckpointBlocker_quiet, checkpointWal, perform_quiet,
    modify_apply, reacquireCheckpointBlocker, state_apply, Bool.false_eq_true, if_false,
    interfere_singleton]
  rw [show (quiet b now).blocker = b from rfl]
  simp only [hact, modifyState_apply, get_apply, hps, bind_apply, perform_quiet, state_apply]
  rw [show (quiet b now).now = now from rfl]
  simp only [henc, bind_apply, putChangesetIfAbsent, performWrite_quiet, resetWalCursorAfterSnapshot_quiet]
  rw [putAbsent_of_none]
  · rfl
  · exact hfree

theorem publishOwned_quiet_ok {d : Delta} {n : Nat} (h : publishOwned cfg (quiet b now) d w = .ok n w') :
    (∃ bucket, ((w.bucket.get (stateKey w.st .live d.seq) = none ∧
          bucket = w.bucket.put (stateKey w.st .live d.seq) d.bytes) ∨
        (w.bucket.get (stateKey w.st .live d.seq) = some d.bytes ∧ bucket = w.bucket)) ∧
      w' = ⟨w.db, bucket, some (advanceCursor d w.st).saved,
        some ⟨w.st.lineageId, d.seq, d.preChecksum, d.postChecksum⟩, advanceCursor d w.st⟩) ∨
      w.bucket.get (stateKey w.st .live d.seq) ≠ none := by
  simp only [publishOwned, bind_apply, state_apply, loadPublishIntent, perform_quiet, get_apply, pure_apply,
    savePublishIntent, performWrite_quiet, modify_apply, onConflict] at h
  split at h
  · rename_i w₁ hput
    left
    injection h with _ hw
    subst hw
    rcases putAbsent_ok.mp hput with ⟨hfree, rfl⟩ | ⟨hsame, rfl⟩
    · exact ⟨_, .inl ⟨hfree, rfl⟩, rfl⟩
    · exact ⟨_, .inr ⟨hsame, rfl⟩, rfl⟩
  · rename_i msg w₁ hput
    right
    obtain ⟨-, -, existing, hget, -⟩ := putAbsent_error hput
    intro hfree
    exact absurd (hfree.symm.trans hget) (by simp)
  · cases h

/-- The owned publish of a batch whose key is free. -/
theorem publishOwned_quiet {d : Delta} (hfree : w.bucket.get (stateKey w.st .live d.seq) = none) :
    publishOwned cfg (quiet b now) d w = .ok d.frameCount
      ⟨w.db, w.bucket.put (stateKey w.st .live d.seq) d.bytes, some (advanceCursor d w.st).saved,
        some ⟨w.st.lineageId, d.seq, d.preChecksum, d.postChecksum⟩, advanceCursor d w.st⟩ := by
  simp only [publishOwned, bind_apply, state_apply, loadPublishIntent, perform_quiet, get_apply,
    pure_apply, savePublishIntent, performWrite_quiet, modify_apply, putChangesetIfAbsent, onConflict]
  rw [putAbsent_of_none]
  · simp only [modifyState_apply, saveState, performWrite_quiet, modify_apply]
  · exact hfree

/-- **What a successful owned sync did**, from `w` to `w'`. -/
inductive SyncOk : World E → Prop where
  /-- There is no WAL. -/
  | noWal (hread : readHeader (wal w.db) = .ok none) : SyncOk w
  /-- Nothing new is committed. -/
  | idle (header : WalHeader) (r : PageMapRead) (hread : readHeader (wal w.db) = .ok (some header))
      (hstay : rolloverDetected w.st (wal w.db).length header.salt = false)
      (hnext : nextRead w header = .ok r) (hnil : r.pageMap = []) :
      SyncOk { w with st := readState w header r }
  /-- A rollover was re-anchored with a snapshot. -/
  | reanchored (header : WalHeader) (r : PageMapRead) (w₁ : World E)
      (hread : readHeader (wal w.db) = .ok (some header))
      (hroll : rolloverDetected w.st (wal w.db).length header.salt = true)
      (hnext : nextRead w header = .ok r)
      (hsnap : takeSnapshot cfg (quiet b now) { w with st := readState w header r } = .ok () w₁) :
      SyncOk { w₁ with stateJson := some w₁.st.saved }
  /-- The batch was published. -/
  | published (header : WalHeader) (r : PageMapRead) (bytes : Bytes) (post : UInt64) (txid : Nat)
      (intent : Option PublishIntent) (bucket : Bucket)
      (hread : readHeader (wal w.db) = .ok (some header))
      (hstay : rolloverDetected w.st (wal w.db).length header.salt = false)
      (hnext : nextRead w header = .ok r) (hne : r.pageMap ≠ [])
      (henc : EncodesTo cfg now w header r bytes post)
      (hput : (w.bucket.get (stateKey w.st .live (w.st.currentSeq + 1)) = none ∧
          bucket = w.bucket.put (stateKey w.st .live (w.st.currentSeq + 1)) bytes) ∨
        (w.bucket.get (stateKey w.st .live (w.st.currentSeq + 1)) = some bytes ∧ bucket = w.bucket)) :
      SyncOk ⟨w.db, bucket, some (publishedState w header r txid post).saved, intent,
        publishedState w header r txid post⟩
  /-- Another object was found at the next seq and adopted as our own. -/
  | adopted (header : WalHeader) (w' : World E)
      (hread : readHeader (wal w.db) = .ok (some header))
      (hstay : rolloverDetected w.st (wal w.db).length header.salt = false)
      (h : w.bucket.get (stateKey w.st .live (w.st.currentSeq + 1)) ≠ none) : SyncOk w'

/-- **Inversion of a successful owned sync.** -/
theorem syncWal_quiet_ok {n : Nat} (h : syncWal cfg (quiet b now) w = .ok n w') :
    SyncOk cfg b now w w' := by
  rcases site_ok (quietRead_quiet b now) h with ⟨hread, h⟩ |
    ⟨header, r, hread, hnext, ⟨hroll, h⟩ | ⟨hstay, hnil, h⟩ | ⟨bytes, post, hready, h⟩⟩
  · obtain ⟨-, rfl⟩ := EStateM.Result.ok.inj h
    exact .noWal hread
  · simp only [bind_apply] at h
    split at h
    · rename_i w₁ hsnap
      obtain ⟨-, rfl⟩ := EStateM.Result.ok.inj h
      exact .reanchored header r w₁ hread hroll hnext hsnap
    · cases h
  · obtain ⟨-, rfl⟩ := EStateM.Result.ok.inj h
    exact .idle header r hread hstay hnext hnil
  · rcases publishOwned_quiet_ok cfg b now _ h with ⟨bucket, hput, rfl⟩ | hconflict
    · rw [stateKey_readState] at hput
      exact .published header r bytes post _ _ bucket hread hready.stay hnext hready.batch hready.encodes hput
    · rw [stateKey_readState] at hconflict
      exact .adopted header w' hread hready.stay hconflict

variable {cfg b now w} {header : WalHeader} {bytes : Bytes}

/-- A sync that detects a rollover takes a snapshot and saves the state. -/
theorem syncWal_quiet_reanchor (hread : w.Opens header)
    (hroll : w.rolled header = true) (hnext : nextRead w header = .ok r) {w₁ : World E}
    (hsnap : takeSnapshot cfg (quiet b now) (w.read header r) = .ok () w₁) :
    syncWal cfg (quiet b now) w = .ok 1 { w₁ with stateJson := some w₁.st.saved } := by
  rw [syncWal_site, site_eq (quietRead_quiet b now) hread hnext, hroll, if_pos rfl]
  simp only [bind_apply, hsnap, saveState, performWrite_quiet, modify_apply]
  rfl

/-- An owned sync with a batch publishes it, if its key is free. -/
theorem Ready.syncWal_quiet (h : Ready cfg (quiet b now) w header r bytes post)
    (hfree : w.bucket.get w.nextKey = none) :
    ∃ txid intent, Sync.syncWal cfg (quiet b now) w = .ok r.frameCount
      ⟨w.db, w.bucket.put w.nextKey bytes,
        some (publishedState w header r txid post).saved, intent, publishedState w header r txid post⟩ := by
  rw [h.syncWal (quietRead_quiet b now), publishOwned_quiet]
  · rw [stateKey_readState]
    exact ⟨_, _, rfl⟩
  · rw [stateKey_readState]
    exact hfree

end Quiet

end Sync
end Walrust
