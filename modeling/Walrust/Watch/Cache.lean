import Walrust.Watch
import Walrust.Legacy.Restore

/-!
# `Walrust.Watch.Cache` — the disk cache and the uploader

With the cache on, a watcher writes its LTX files to disk and an uploader task stores them: first what was pending
when the process started, then what the watcher sends it. The uploader knows nothing of the watcher's state.

* `LocalCache.writeLtx`, `CacheManifest.markUploaded`, `CacheManifest.markFailed` — the manifest;
* `LocalCache.newAt`, `openCache` — opening it: what failed in the last process is pending again;
* `CacheManifest.cleanup` — which files a cleanup deletes;
* `uploadTxid` — one upload.
-/

namespace Walrust
namespace Watch

open Sqlite Legacy

/-! ## The manifest -/

/-- `CacheManifest::default`. -/
def CacheManifest.default : CacheManifest := ⟨0, 0, [], [], 0, Lib.Store.empty⟩

/-- Insertion into a set of TXIDs. -/
def insertTxid (txid : Nat) (txids : List Nat) : List Nat := if txid ∈ txids then txids else txids ++ [txid]

/-- Removal from a set of TXIDs. -/
def removeTxid (txid : Nat) (txids : List Nat) : List Nat := txids.filter (· ≠ txid)

/-- `entry_txid_range`. -/
def CacheEntry.txidRange (txid : Nat) (e : CacheEntry) : Nat × Nat :=
  let minTxid := if 0 < e.minTxid then e.minTxid else txid
  let maxTxid := if 0 < e.maxTxid then e.maxTxid else txid
  if minTxid ≤ maxTxid then (minTxid, maxTxid) else (txid, txid)

/-- `failed_upload_covers`. -/
def CacheManifest.failedUploadCovers (m : CacheManifest) (txid : Nat) : Bool :=
  m.failed.any fun f =>
    match m.entries.get f with
    | some e => (e.txidRange f).1 ≤ txid && txid ≤ (e.txidRange f).2
    | none => f = txid

/-- One round of `recompute_contiguous`: how far the confirmed uploads over `next` reach. -/
def CacheManifest.reach (m : CacheManifest) (cursor : Nat) : Nat :=
  m.entries.entries.foldl (fun reached e =>
    if e.2.uploaded && (e.2.txidRange e.1).1 ≤ cursor + 1 && cursor + 1 ≤ (e.2.txidRange e.1).2 then
      max reached (e.2.txidRange e.1).2
    else reached) cursor

/-- The loop of `recompute_contiguous`. Each round passes an entry for good, so there are no more rounds than
    entries. -/
def CacheManifest.contiguousFrom (m : CacheManifest) : Nat → Nat → Nat
  | 0, cursor => cursor
  | rounds + 1, cursor =>
    if m.failedUploadCovers (cursor + 1) then cursor
    else if m.reach cursor = cursor then cursor
    else m.contiguousFrom rounds (m.reach cursor)

section

variable (m : CacheManifest)

/-- `recompute_contiguous`. -/
def CacheManifest.recomputeContiguous : CacheManifest :=
  { m with lastContiguousUploadedTxid :=
      m.contiguousFrom (m.entries.entries.length + 1) m.lastContiguousUploadedTxid }

/-- The manifest part of `write_ltx_inner`. -/
def CacheManifest.addEntry (txid : Nat) (e : CacheEntry) : CacheManifest :=
  { m with
    pending := insertTxid txid m.pending
    cacheSizeBytes := m.cacheSizeBytes + e.size
    entries := m.entries.put txid e }

/-- `mark_uploaded`. -/
def CacheManifest.markUploaded (now : Int) (txid : Nat) : CacheManifest :=
  ({ m with
    pending := removeTxid txid m.pending
    failed := removeTxid txid m.failed
    lastUploadedTxid := max m.lastUploadedTxid txid
    entries := match m.entries.get txid with
      | some e => m.entries.put txid { e with uploaded := true, uploadedAt := some now }
      | none => m.entries } : CacheManifest).recomputeContiguous

/-- `mark_failed`. -/
def CacheManifest.markFailed (txid : Nat) : CacheManifest :=
  ({ m with
    pending := removeTxid txid m.pending
    failed := insertTxid txid m.failed } : CacheManifest).recomputeContiguous

/-- `pending_uploads`, in order. -/
def CacheManifest.pendingUploads : List Nat := m.pending.mergeSort fun a b => a ≤ b

/-- `remote_key_parts`, as a key. -/
def CacheManifest.remoteKey (txid : Nat) : LtxKey :=
  match m.entries.get txid with
  | none => .file 0 txid txid
  | some e => .file (if e.isSnapshot then 1 else 0) (e.txidRange txid).1 (e.txidRange txid).2

end

/-- The check of a failed upload before it is queued again. -/
def LocalCache.checkFailed (c : LocalCache) (m : CacheManifest) (txid : Nat) : Except String Unit :=
  match m.entries.get txid with
  | none => .error s!"failed upload TXID {txid} has no cache manifest entry"
  | some e =>
    if e.uploaded then .error s!"failed upload TXID {txid} is also marked uploaded"
    else if (c.files.get txid).isNone then
      .error s!"failed upload TXID {txid} cannot be retried because the file is missing"
    else .ok ()

/-- The loop of `reenqueue_failed_uploads_on_startup`. -/
def LocalCache.requeue (c : LocalCache) (m : CacheManifest) : List Nat → List Nat → Except String (List Nat)
  | pending, [] => .ok pending
  | pending, txid :: rest =>
    match c.checkFailed m txid with
    | .error e => .error e
    | .ok () => c.requeue m (insertTxid txid pending) rest

/-- `LocalCache::new_at`: the manifest it opens with. A new one is empty; what had failed is pending again. -/
def LocalCache.newAt (c : LocalCache) : Except String CacheManifest :=
  match c.saved with
  | none => .ok .default
  | some m =>
    if m.failed = [] then .ok m
    else
      match c.requeue m m.pending m.failed with
      | .error e => .error e
      | .ok pending => .ok ({ m with pending := pending, failed := [] } : CacheManifest).recomputeContiguous

/-! ## Cleanup -/

/-- The newest snapshot of the cache: it and what follows it are kept. -/
def CacheManifest.floorTxid (m : CacheManifest) : Option Nat :=
  ((m.entries.entries.filter fun e => e.2.isSnapshot).map Prod.fst).max?

/-- What cleanup may delete: confirmed, not beyond the durable cursor, and below the newest snapshot. -/
def CacheManifest.evictable (m : CacheManifest) (e : Nat × CacheEntry) : Bool :=
  e.2.uploaded && (e.2.txidRange e.1).2 ≤ m.lastContiguousUploadedTxid && m.floorTxid.all (e.1 < ·)

/-- The entries cleanup considers, oldest first: those out of retention, or those within it. -/
def CacheManifest.aged (m : CacheManifest) (now retention : Int) (expired : Bool) : List (Nat × CacheEntry) :=
  (m.entries.entries.filter fun e =>
    m.evictable e && decide (retention ≤ now - e.2.uploadedAt.getD e.2.createdAt) == expired).mergeSort
      fun e e' => e.2.uploadedAt.getD now ≤ e'.2.uploadedAt.getD now

/-- The entries deleted for the size of the cache: as long as it is above the maximum. -/
def overSize (maxCacheSize : Nat) : Nat → List (Nat × CacheEntry) → List Nat
  | _, [] => []
  | size, e :: rest => if size ≤ maxCacheSize then [] else e.1 :: overSize maxCacheSize (size - e.2.size) rest

/-- `cleanup`: the TXIDs it deletes, in order. -/
def CacheManifest.cleanup (m : CacheManifest) (now retention : Int) (maxCacheSize : Nat) : List Nat :=
  let expired := m.aged now retention true
  let size := expired.foldl (fun size e => size - e.2.size) m.cacheSizeBytes
  expired.map Prod.fst ++ overSize maxCacheSize size (m.aged now retention false)

/-- One entry leaves the manifest. -/
def CacheManifest.dropEntry (m : CacheManifest) (txid : Nat) : CacheManifest :=
  { m with
    cacheSizeBytes := m.cacheSizeBytes - ((m.entries.get txid).elim 0 (·.size))
    entries := m.entries.erase txid }

/-- One entry leaves the manifest before its file could be removed: the size still counts it. -/
def CacheManifest.forgetEntry (m : CacheManifest) (txid : Nat) : CacheManifest :=
  { m with entries := m.entries.erase txid }

/-- One entry leaves the cache, with its file. -/
def LocalCache.evict (c : LocalCache) (txid : Nat) : LocalCache :=
  { c with files := c.files.erase txid, manifest := c.manifest.dropEntry txid }

/-! ## Operations -/

section

variable {E A : Type} [SqliteEnv E A]

def modifyCache (f : LocalCache → LocalCache) : Run E Unit := modify fun w => { w with cache := f w.cache }

/-- The manifest is changed in memory and then saved; a save that fails leaves the change in memory. -/
def updateManifest (o : Oracle A) (f : CacheManifest → CacheManifest) : Run E Unit := do
  modifyCache fun c => { c with manifest := f c.manifest }
  performWrite o .saveManifest (modifyCache fun c => { c with saved := some c.manifest })

/-- `ltx_txid_range`, or the TXID. -/
def ltxTxidRange (ltx : LtxCrate) (txid : Nat) (bytes : Bytes) : Nat × Nat :=
  match ltx.header bytes with
  | .error _ => (txid, txid)
  | .ok header => (header.minTxid, header.maxTxid)

/-- `write_ltx_inner`. -/
def writeLtx (t : Tools E) (o : Oracle A) (txid : Nat) (bytes : Bytes) (isSnapshot : Bool) : Run E Unit := do
  performWrite o .writeCache (modifyCache fun c => { c with files := c.files.put txid bytes })
  let range := ltxTxidRange t.ltx txid bytes
  updateManifest o fun m => m.addEntry txid
    { size := bytes.length
      createdAt := o.now.toInt
      uploaded := false
      uploadedAt := none
      isSnapshot := isSnapshot
      minTxid := range.1
      maxTxid := range.2 }

/-- Opening the cache, with the save that a new manifest or a failed upload needs. -/
def openCache (o : Oracle A) : Run E Unit := do
  let cache := (← get).cache
  match cache.newAt with
  | .error e => fail e
  | .ok m =>
    if cache.saved.any (·.failed = []) then modifyCache fun c => { c with manifest := m }
    else updateManifest o fun _ => m

/-- Record a failed upload; that the record may fail is only logged. -/
def recordFailed (o : Oracle A) (txid : Nat) : Run E Unit := fun w =>
  match updateManifest o (·.markFailed txid) w with
  | .error (.err _) w' => .ok () w'
  | result => result

/-- The put of an upload with its retries; when they are used up the TXID is recorded as failed. -/
def putUpload (key : LtxKey) (bytes : Bytes) (txid : Nat) (first : Oracle A) (rest : List (Oracle A)) :
    Run E Unit := fun w =>
  match withRetry (fun o => putObject o key bytes) first rest w with
  | .error (.err msg) w' => (do recordFailed first txid; fail msg : Run E Unit) w'
  | result => result

/-- `upload_txid`. -/
def uploadTxid (t : Tools E) (txid : Nat) (first : Oracle A) (rest : List (Oracle A)) : Run E Unit := do
  perform first .readCache
  let cache := (← get).cache
  match cache.files.get txid with
  | none => fail s!"Failed to read TXID {txid} from cache"
  | some bytes =>
    match verifyLtxWithResult t.ltx bytes with
    | .error _ => do
      recordFailed first txid
      fail s!"Cached LTX verification failed for TXID {txid}"
    | .ok _ => do
      putUpload (cache.manifest.remoteKey txid) bytes txid first rest
      updateManifest first (·.markUploaded first.now.toInt txid)

end

end Watch
end Walrust
